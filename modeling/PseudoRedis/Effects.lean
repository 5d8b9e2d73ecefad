/-
This file states in one form what a handler can do. Its run either stops with a fault,
or it may refill the reply array, answers in one of four ways, and leaves a dictionary
that depends on nothing the reply state held (`Does`). The effect records at once that
the dictionary stays sound, that no allocation is duplicated, that a failing answer goes
with an unchanged dictionary, and which array, if any, is encoded.

The lemmas say that of each reply macro. A handler is then read branch by branch, and
everything later files prove about commands follows from its effect.
-/

import PseudoRedis.KeySpace
import PseudoRedis.ReplyArr

namespace PseudoRedis

/-! ### Answers -/

/-- How a handler ends. -/
inductive Answer where
  /-- a reply without elements -/
  | scalar (type : UInt8) (data : Bytes)
  /-- `create_str_reply` found the string too long -/
  | refused
  /-- `create_arr_reply` encoded the array -/
  | array (type : UInt8)
  /-- a return without a reply -/
  | silent (ret : Int)

variable {V W : Type}

def Answer.finish (env : Env) (dict : Dict V) : Answer → Run V
  | .scalar type data => replying dict fun sh => (sh.answer type data, 0)
  | .refused => returning dict eTooLong
  | .array type => arrayReply env type dict
  | .silent ret => returning dict ret

theorem finish_dict {env : Env} {dict : Dict V} {answer : Answer} {sh : Shared}
    {result : Result V} (finished : answer.finish env dict sh = .ok result) :
    result.dict = dict := by
  cases answer with
  | scalar type data =>
    cases finished
    rfl
  | refused =>
    cases finished
    rfl
  | array type =>
    rw [Answer.finish, arrayReply] at finished
    split at finished
    · cases finished
    · cases finished
      rfl
  | silent ret =>
    cases finished
    rfl

/-- Only encoding the reply array can stop. -/
theorem finish_error {env : Env} {dict : Dict V} {answer : Answer} {sh : Shared} {stop : Stop}
    (finished : answer.finish env dict sh = .error stop) : ∃ fault, stop = .fault fault := by
  cases answer with
  | array type =>
    rw [Answer.finish, arrayReply] at finished
    split at finished
    · cases finished
      exact ⟨_, rfl⟩
    · cases finished
  | _ => cases finished

/-- A reply of type `RPLY_FAIL`, or a return value the caller may turn into one. -/
def Answer.Fails : Answer → Prop
  | .scalar type _ => type = rplyFail
  | .refused => True
  | .array _ => True
  | .silent ret => ret = eTooLong

/-- A refilled array: one the handler encodes, or one it leaves to its caller. -/
inductive Listing where
  | encoded (type : UInt8) (elems : List Elem)
  | left (elems : List Elem)

/-- The listing of an answer, given what the array was refilled with. -/
def Answer.encodes (fill : Option (List Elem)) : Answer → Option Listing
  | .array type => fill.map (.encoded type)
  | .silent ret => if ret = eBlocked then none else fill.map .left
  | _ => none

/-- What is left of a list of elements when the counter has come round. -/
def wrapped (elems : List Elem) : List Elem := elems.drop (256 * (elems.length / 256))

/-- The array is refilled with these elements, or left alone. -/
structure Fills (fill : Option (List Elem)) (sh sh' : Shared) : Prop where
  curr : sh'.curr = sh.curr
  released : sh'.released = sh.released
  stale : sh'.stale = sh.stale
  elems : sh'.elems = fill.elim sh.elems wrapped

theorem Fills.none (sh : Shared) : Fills none sh sh := ⟨rfl, rfl, rfl, rfl⟩

theorem Fills.some (sh : Shared) (elems : List Elem) :
    Fills (some elems) sh (addAll (resetReplyArr sh) elems) := by
  obtain ⟨curr, released, stale⟩ := addAll_fields (resetReplyArr sh) elems
  exact ⟨curr, released, stale, elems_fill sh elems⟩

/-! ### Effects -/

variable [Store V]

/-- The elements a handler puts into the array. -/
def filled (fill : Option (List Elem)) : List Elem := fill.getD []

/-- A buffer is released only if it is new, and no element after that reads a new one. -/
def Apart (dict : Dict V) (gain : List Nat) (elems : List Elem) : Prop :=
  elems.Pairwise fun earlier later =>
    ∀ id ∈ earlier.freed, id ∈ gain ∧ ∀ other ∈ later.read, other ∈ dict.ids

/-- What a handler leaves behind: `L` says whether a failing answer may go with a change. -/
structure Effect (E L : Prop) (dict : Dict V) (gain : List Nat)
    (listed : Option Listing) (dict' : Dict V) (fill : Option (List Elem))
    (answer : Answer) : Prop where
  sound : Sound E dict'
  conserve : ∀ id, dict'.ids.count id + ((filled fill).flatMap Elem.freed).count id ≤
    dict.ids.count id + gain.count id
  read : ∀ id ∈ (filled fill).flatMap Elem.read, id ∈ dict.ids ∨ id ∈ gain
  apart : Apart dict gain (filled fill)
  fresh : ∀ type, answer = .array type → fill ≠ none
  atomic : answer.Fails → L ∨ dict' = dict
  listed : answer.encodes fill = listed

/-- Everything a run can do, whatever the reply state holds. -/
inductive Does (env : Env) (E L : Prop) (dict : Dict V) (gain : List Nat)
    (listed : Option Listing) (run : Run V) : Prop
  | stops (stop : Stop) (entry : stop = .nullEntry → ¬ Sound False dict)
      (again : stop = .freedTwice → L) (nothing : listed = none)
      (same : ∀ sh, run sh = .error stop)
  | answers (dict' : Dict V) (fill : Option (List Elem)) (answer : Answer)
      (effect : Effect E L dict gain listed dict' fill answer)
      (same : ∀ sh, ∃ sh', Fills fill sh sh' ∧ run sh = answer.finish env dict' sh')

variable {env : Env} {E L : Prop} {dict dict' : Dict V} {gain : List Nat}

/-- What is known of a run that does not stop. -/
theorem Does.result {run : Run V} {listed : Option Listing}
    (does : Does env E L dict gain listed run) {sh : Shared} {result : Result V}
    (ran : run sh = .ok result) :
    ∃ fill answer sh', Effect E L dict gain listed result.dict fill answer ∧ Fills fill sh sh' ∧
      answer.finish env result.dict sh' = .ok result := by
  cases does with
  | stops stop entry again nothing same =>
    rw [same sh] at ran
    cases ran
  | answers dict' fill answer effect same =>
    obtain ⟨sh', fills, finished⟩ := same sh
    rw [ran] at finished
    have left : result.dict = dict' := finish_dict finished.symm
    exact ⟨fill, answer, sh', left ▸ effect, fills, left ▸ finished.symm⟩

/-- What is known of a run that stops. -/
theorem Does.stopped {run : Run V} {listed : Option Listing}
    (does : Does env E L dict gain listed run) {sh : Shared} {stop : Stop}
    (ran : run sh = .error stop) :
    (stop = .nullEntry → ¬ Sound False dict) ∧ (stop = .freedTwice → L) := by
  cases does with
  | stops other entry again nothing same =>
    have equal : other = stop := Except.error.inj ((same sh).symm.trans ran)
    exact equal ▸ ⟨entry, again⟩
  | answers dict' fill answer effect same =>
    obtain ⟨sh', -, finished⟩ := same sh
    obtain ⟨fault, rfl⟩ := finish_error (finished.symm.trans ran)
    constructor
    · rintro ⟨⟩
    · rintro ⟨⟩

/-! ### The reply macros -/

theorem does_fault (stop : Fault) (gain : List Nat) :
    Does env E L dict gain none (fault stop) :=
  .stops (.fault stop) (fun same => by cases same) (fun same => by cases same) rfl fun _ => rfl

/-- A change and an answer without elements. -/
theorem does_answer (change : Change E dict gain dict') (answer : Answer)
    (atomic : answer.Fails → L ∨ dict' = dict) (plain : ∀ type, answer ≠ .array type) :
    Does env E L dict gain none (answer.finish env dict') := by
  have nothing : answer.encodes none = none := by
    cases answer with
    | silent ret =>
      rw [Answer.encodes]
      split <;> rfl
    | _ => rfl
  refine .answers dict' none answer
    ⟨change.sound, fun id => ?_, ?_, .nil, fun type same => absurd same (plain type), atomic,
      nothing⟩ fun sh => ⟨sh, Fills.none sh, rfl⟩
  · exact change.conserve id
  · rintro id ⟨⟩

theorem does_scalar (change : Change E dict gain dict') {type : UInt8} (other : type ≠ rplyFail)
    (data : Bytes) :
    Does env E L dict gain none (replying dict' fun sh => (sh.answer type data, 0)) :=
  does_answer change (.scalar type data) (fun same => absurd same other) fun _ same => by cases same

theorem does_int (change : Change E dict gain dict') (n : Int) :
    Does env E L dict gain none (intReply dict' n) :=
  does_scalar change (by decide) _

theorem does_ok (change : Change E dict gain dict') :
    Does env E L dict gain none (okReply dict') :=
  does_scalar change (by decide) _

theorem does_nil (sound : Sound E dict) : Does env E L dict gain none (nilReply dict) :=
  does_scalar (Change.refl sound gain) (by decide) _

theorem does_type (sound : Sound E dict) (n : UInt8) :
    Does env E L dict gain none (typeReply dict n) :=
  does_scalar (Change.refl sound gain) (by decide) _

theorem does_returning (change : Change E dict gain dict') (ret : Int)
    (same : ret = eTooLong → L ∨ dict' = dict) :
    Does env E L dict gain none (returning dict' ret) :=
  does_answer change (.silent ret) same fun _ same => by cases same

/-- A text a failing reply sends as it is: not empty, and not too long. -/
class ErrorText (s : String) : Prop where
  short : (bytes s).length ≤ maxRplySize
  text : (bytes s).length ≠ 0

instance : ErrorText numArgs := ⟨by decide, by decide⟩
instance : ErrorText invCmd := ⟨by decide, by decide⟩
instance : ErrorText invArg := ⟨by decide, by decide⟩
instance : ErrorText invInt := ⟨by decide, by decide⟩
instance : ErrorText invFlt := ⟨by decide, by decide⟩
instance : ErrorText invTm := ⟨by decide, by decide⟩
instance : ErrorText negTm := ⟨by decide, by decide⟩
instance : ErrorText invOffset := ⟨by decide, by decide⟩
instance : ErrorText invCursor := ⟨by decide, by decide⟩
instance : ErrorText noKey := ⟨by decide, by decide⟩
instance : ErrorText invSynx := ⟨by decide, by decide⟩
instance : ErrorText tooLong := ⟨by decide, by decide⟩
instance : ErrorText wrongType := ⟨by decide, by decide⟩
instance : ErrorText memOut := ⟨by decide, by decide⟩

omit [Store V] in
theorem failReply_eq (dict : Dict V) (s : String) [known : ErrorText s] :
    failReply dict s = replying dict fun sh => (sh.answer rplyFail (bytes s), 0) := by
  funext sh
  rw [failReply, createStrReply, if_neg (Nat.not_lt.mpr known.short), if_neg known.text,
    if_neg (Nat.lt_irrefl _), List.take_length]
  rfl

theorem does_fail_change (change : Change E dict gain dict') (same : L ∨ dict' = dict) (s : String)
    [ErrorText s] : Does env E L dict gain none (failReply dict' s) := by
  rw [failReply_eq]
  exact does_answer change (.scalar rplyFail (bytes s)) (fun _ => same) fun _ same => by cases same

theorem does_fail (sound : Sound E dict) (s : String) [ErrorText s] :
    Does env E L dict gain none (failReply dict s) :=
  does_fail_change (Change.refl sound gain) (Or.inr rfl) s

theorem does_string (change : Change E dict gain dict') (s : Bytes) (len : Nat)
    (fits : maxRplySize < len → L ∨ dict' = dict) :
    Does env E L dict gain none (stringReply dict' s len) := by
  by_cases long : maxRplySize < len
  · have refused : stringReply dict' s len = returning dict' eTooLong := by
      funext sh
      rw [stringReply, createStrReply, if_pos long]
      rfl
    rw [refused]
    exact does_answer change .refused (fun _ => fits long) fun _ same => by cases same
  · by_cases empty : len = 0
    · have answered : stringReply dict' s len =
          replying dict' fun sh => (sh.answer (rplyString &&& typeMask) [], 0) := by
        funext sh
        rw [stringReply, createStrReply, if_neg long, if_pos empty]
        rfl
      rw [answered]
      exact does_scalar change (by decide) _
    · by_cases short : s.length < len
      · refine .stops (.fault .outOfBounds) (fun same => by cases same) (fun same => by cases same)
          rfl fun sh => ?_
        rw [stringReply, createStrReply, if_neg long, if_neg empty, if_pos short]
      · have answered : stringReply dict' s len =
            replying dict' fun sh => (sh.answer (rplyString &&& typeMask) (s.take len), 0) := by
          funext sh
          rw [stringReply, createStrReply, if_neg long, if_neg empty, if_neg short]
          rfl
        rw [answered]
        exact does_scalar change (by decide) _

/-! ### Arrays -/

/-- Elements that are read and not released. -/
def Lent (dict : Dict V) (gain : List Nat) (elems : List Elem) : Prop :=
  ∀ elem ∈ elems, elem.freed = [] ∧ ∀ id ∈ elem.read, id ∈ dict.ids ∨ id ∈ gain

theorem Lent.freed {elems : List Elem} (lent : Lent dict gain elems) :
    elems.flatMap Elem.freed = [] :=
  List.flatMap_eq_nil_iff.mpr fun elem member => (lent elem member).1

theorem Lent.read {elems : List Elem} (lent : Lent dict gain elems) :
    ∀ id ∈ elems.flatMap Elem.read, id ∈ dict.ids ∨ id ∈ gain := by
  intro id member
  obtain ⟨elem, inElems, inRead⟩ := List.mem_flatMap.mp member
  exact (lent elem inElems).2 id inRead

theorem Lent.apart {elems : List Elem} (lent : Lent dict gain elems) : Apart dict gain elems := by
  refine List.pairwise_of_forall_mem_list fun earlier member later _ id released => ?_
  rw [(lent earlier member).1] at released
  cases released

/-- Filling the array is never refused. -/
theorem addEach_eq (sh : Shared) (elems : List Elem) : addEach sh elems = (addAll sh elems, 0) := by
  induction elems generalizing sh with
  | nil => rfl
  | cons elem rest inductionHypothesis =>
    rw [addEach, addtoReplyArr_eq, addAll_cons]
    exact inductionHypothesis _

theorem does_fill (sound : Sound E dict) {fill : Shared → Shared × Int} {elems : List Elem}
    (fills : ∀ sh, fill (resetReplyArr sh) = (addAll (resetReplyArr sh) elems, 0))
    (lent : Lent dict gain elems) :
    Does env E L dict gain (some (.encoded rplyArr elems)) (fillReply env dict fill) := by
  refine .answers dict (some elems) (.array rplyArr)
    ⟨sound, fun id => ?_, lent.read, lent.apart, fun _ _ => Option.some_ne_none _,
      fun _ => Or.inr rfl, rfl⟩
    fun sh => ⟨addAll (resetReplyArr sh) elems, Fills.some sh elems, ?_⟩
  · rw [show filled (some elems) = elems from rfl, lent.freed]
    exact Nat.le_add_right _ _
  · rw [fillReply, fills]
    rfl

theorem does_fill_nothing (sound : Sound E dict) :
    Does env E L dict gain (some (.encoded rplyArr [])) (fillReply env dict fun sh => (sh, 0)) :=
  does_fill sound (fun _ => rfl) fun _ member => by cases member

/-- A failing reply after the array was refilled. -/
theorem does_fail_filled (sound : Sound E dict) {elems : List Elem} (lent : Lent dict gain elems)
    (s : String) [ErrorText s] :
    Does env E L dict gain none
      (fun sh => failReply dict s (addAll (resetReplyArr sh) elems)) := by
  refine .answers dict (some elems) (.scalar rplyFail (bytes s))
    ⟨sound, fun id => ?_, lent.read, lent.apart, fun _ _ => Option.some_ne_none _,
      fun _ => Or.inr rfl, rfl⟩
    fun sh => ⟨addAll (resetReplyArr sh) elems, Fills.some sh elems, ?_⟩
  · rw [show filled (some elems) = elems from rfl, lent.freed]
    exact Nat.le_add_right _ _
  · rw [failReply_eq]
    rfl

theorem does_fail_reset (sound : Sound E dict) (s : String) [ErrorText s] :
    Does env E L dict gain none (fun sh => failReply dict s (resetReplyArr sh)) := by
  have nothing : Lent dict gain [] := fun _ member => by cases member
  exact does_fail_filled sound nothing s

/-! ### Runs on an inner dictionary -/

omit [Store V] in
@[simp]
theorem within_id (run : Run V) : run.within id = run := by
  funext sh
  rw [Run.within]
  cases run sh with
  | error stop => rfl
  | ok result => rfl

omit [Store V] in
@[simp]
theorem within_string (inner : Dict W) (s : Bytes) (len : Nat) (wrap : Dict W → Dict V) :
    (stringReply inner s len).within wrap = stringReply (wrap inner) s len := by
  funext sh
  rw [Run.within, stringReply, stringReply]
  cases createStrReply sh s len rplyString with
  | error stop => rfl
  | ok answer => rfl

omit [Store V] in
@[simp]
theorem within_fail (inner : Dict W) (s : String) (wrap : Dict W → Dict V) :
    (failReply inner s).within wrap = failReply (wrap inner) s := by
  funext sh
  rw [Run.within, failReply, failReply]
  cases createStrReply sh (bytes s) (bytes s).length rplyFail with
  | error stop => rfl
  | ok answer => rfl

omit [Store V] in
@[simp]
theorem within_array (env : Env) (type : UInt8) (inner : Dict W) (wrap : Dict W → Dict V) :
    (arrayReply env type inner).within wrap = arrayReply env type (wrap inner) := by
  funext sh
  rw [Run.within, arrayReply, arrayReply]
  cases createArrReply env sh type with
  | error stop => rfl
  | ok answer => rfl

omit [Store V] in
@[simp]
theorem within_fillReply (env : Env) (inner : Dict W) (fill : Shared → Shared × Int)
    (wrap : Dict W → Dict V) :
    (fillReply env inner fill).within wrap = fillReply env (wrap inner) fill := by
  funext sh
  by_cases refused : (fill (resetReplyArr sh)).2 ≠ 0
  · simp only [Run.within, fillReply, if_pos refused]
    exact congrFun (within_fail inner tooLong wrap) _
  · simp only [Run.within, fillReply, if_neg refused]
    exact congrFun (within_array env rplyArr inner wrap) _

end PseudoRedis

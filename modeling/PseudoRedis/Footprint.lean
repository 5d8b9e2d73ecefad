/-
This file is about what a handler can see. Two key spaces that hold the same under some
keys are edited side by side (`Twin`): they go on holding the same under these keys, and
each of them keeps what it held under all others. A handler that names no other keys
cannot tell them apart (`Matched`): it stops in both or in neither, and leaves the same
reply, the same array and the same return value.

A reply that does not look at the key space it is given is `Blind`; that is how every
handler ends.
-/

import PseudoRedis.KeyMap
import PseudoRedis.SetHistory
import Mathlib.Data.Set.Function

namespace PseudoRedis

/-! ### Two key spaces edited side by side -/

/-- Two key spaces before and after edits under some keys only. -/
structure Twin (places : Set Bytes) (first second one two : Dict Obj) : Prop where
  onePlaced : one.Placed
  twoPlaced : two.Placed
  same : Set.EqOn one.toMap two.toMap places
  oneFrame : Set.EqOn one.toMap first.toMap placesᶜ
  twoFrame : Set.EqOn two.toMap second.toMap placesᶜ

/-- A key of the territory. -/
structure Belongs (places : Set Bytes) (key : Bss) : Prop where
  inside : key.content ∈ places
  short : key.Short

variable {places : Set Bytes} {first second one two one' two' : Dict Obj} {key newKey : Bss}

theorem Twin.start (firstPlaced : first.Placed) (secondPlaced : second.Placed)
    (same : Set.EqOn first.toMap second.toMap places) : Twin places first second first second :=
  ⟨firstPlaced, secondPlaced, same, fun _ _ => rfl, fun _ _ => rfl⟩

theorem Twin.look (twin : Twin places first second one two) (own : Belongs places key) :
    dictLookUp one key = dictLookUp two key := by
  rw [lookUp_eq_toMap twin.onePlaced own.short, lookUp_eq_toMap twin.twoPlaced own.short,
    twin.same own.inside]

/-- The same update in both. -/
theorem Twin.update (twin : Twin places first second one two) (own : Belongs places key)
    (onePlaced : one'.Placed) (twoPlaced : two'.Placed) {val : Option Obj}
    (oneUpdated : one'.toMap = Function.update one.toMap key.content val)
    (twoUpdated : two'.toMap = Function.update two.toMap key.content val) :
    Twin places first second one' two' := by
  have other {place : Bytes} (outside : place ∈ placesᶜ) : place ≠ key.content := by
    rintro rfl
    exact outside own.inside
  refine ⟨onePlaced, twoPlaced, fun place member => ?_, fun place outside => ?_,
    fun place outside => ?_⟩
  · rw [oneUpdated, twoUpdated]
    by_cases hit : place = key.content
    · simp [hit]
    · simpa [hit] using twin.same member
  · simpa [oneUpdated, other outside] using twin.oneFrame outside
  · simpa [twoUpdated, other outside] using twin.twoFrame outside

theorem Twin.add (twin : Twin places first second one two) (own : Belongs places key) (obj : Obj) :
    Twin places first second (dictAdd one key obj) (dictAdd two key obj) :=
  twin.update own (dictAdd_placed twin.onePlaced own.short obj)
    (dictAdd_placed twin.twoPlaced own.short obj)
    (toMap_dictAdd_plain (fun _ => rfl) twin.onePlaced own.short obj)
    (toMap_dictAdd_plain (fun _ => rfl) twin.twoPlaced own.short obj)

theorem Twin.rmNf (twin : Twin places first second one two) (own : Belongs places key) :
    Twin places first second (dictRmNf one key).1 (dictRmNf two key).1 :=
  twin.update own (dictRmNf_placed twin.onePlaced key) (dictRmNf_placed twin.twoPlaced key)
    (toMap_dictRmNf twin.onePlaced own.short) (toMap_dictRmNf twin.twoPlaced own.short)

theorem Twin.rm (twin : Twin places first second one two) (own : Belongs places key) :
    Twin places first second (dictRm one key).1 (dictRm two key).1 := by
  rw [dictRm_fst, dictRm_fst]
  exact twin.rmNf own

theorem Twin.setVal (twin : Twin places first second one two) (own : Belongs places key)
    (obj : Obj) : Twin places first second (dictSetVal one key obj) (dictSetVal two key obj) := by
  refine twin.update own (dictSetVal_placed twin.onePlaced key obj)
    (dictSetVal_placed twin.twoPlaced key obj) (toMap_dictSetVal twin.onePlaced own.short obj) ?_
  rw [twin.same own.inside]
  exact toMap_dictSetVal twin.twoPlaced own.short obj

theorem Twin.putBack {W : Type} (twin : Twin places first second one two)
    (own : Belongs places key) (kind : Kind W) (inner : Dict W) :
    Twin places first second (putBack kind one key inner) (putBack kind two key inner) :=
  twin.setVal own _

theorem Twin.putList (twin : Twin places first second one two) (own : Belongs places key)
    {removed : Bss} (other : Belongs places removed) (entries : List Bss) :
    Twin places first second (putList one key removed entries)
      (putList two key removed entries) := by
  unfold PseudoRedis.putList
  split
  · exact (twin.setVal own _).rm other
  · exact twin.setVal own _

theorem Twin.delKeys (twin : Twin places first second one two) {keys : List Bss}
    (own : ∀ key ∈ keys, Belongs places key) :
    Twin places first second (delKeys one keys).1 (delKeys two keys).1 ∧
      (delKeys one keys).2 = (delKeys two keys).2 := by
  induction keys generalizing one two with
  | nil => exact ⟨twin, rfl⟩
  | cons key rest inductionHypothesis =>
    have head := own key List.mem_cons_self
    obtain ⟨left, count⟩ := inductionHypothesis (twin.rmNf head)
      fun other member => own other (List.mem_cons_of_mem _ member)
    rw [delKeys_cons twin.onePlaced.sized, delKeys_cons twin.twoPlaced.sized, count,
      twin.look head]
    exact ⟨left, rfl⟩

theorem Twin.rename (twin : Twin places first second one two) (own : Belongs places key)
    (newOwn : Belongs places newKey) :
    Twin places first second (dictRename one key newKey).1 (dictRename two key newKey).1 ∧
      (dictRename one key newKey).2 = (dictRename two key newKey).2 := by
  cases answer : dictLookUp two key with
  | none =>
    have other := (twin.look own).trans answer
    rw [dictRename_absent twin.onePlaced.sized other,
      dictRename_absent twin.twoPlaced.sized answer]
    exact ⟨twin, rfl⟩
  | some obj =>
    have other := (twin.look own).trans answer
    have added := (twin.rmNf own).add newOwn obj
    rw [dictRename_present (fun _ => rfl) twin.onePlaced.sized other,
      dictRename_present (fun _ => rfl) twin.twoPlaced.sized answer]
    exact ⟨⟨added.onePlaced.recount _, added.twoPlaced.recount _, added.same, added.oneFrame,
      added.twoFrame⟩, rfl⟩

/-! ### Runs that speak -/

/-- No reply is of this type. -/
def noType : UInt8 := 0xff

/-- A reply was made, or the caller is asked to make one, unless runs may be quiet. -/
def Speaks (quiet : Prop) (sh : Shared) (ret : Int) : Prop :=
  quiet ∨ ret = eTooLong ∨ sh.curr.replyType ≠ noType

/-- Whenever the run ends it has spoken. -/
def Run.Speaks {V : Type} (quiet : Prop) (run : Run V) : Prop :=
  ∀ sh result, run sh = .ok result → PseudoRedis.Speaks quiet result.sh result.ret

/-! ### Replies that do not look at the key space -/

variable {quiet : Prop} {V W : Type}

/-- A reply that is the same whatever key space goes with it, and is one. -/
def Blind (quiet : Prop) (reply : Dict V → Run V) : Prop :=
  ∀ sh, (∃ stop, ∀ dict, reply dict sh = .error stop) ∨
    ∃ sh' ret, Speaks quiet sh' ret ∧ ∀ dict, reply dict sh = .ok ⟨dict, sh', ret⟩

theorem Blind.speaks {reply : Dict V → Run V} (blind : Blind quiet reply) (dict : Dict V) :
    (reply dict).Speaks quiet := by
  intro sh result ran
  obtain ⟨stop, stopped⟩ | ⟨sh', ret, spoken, ended⟩ := blind sh
  · rw [stopped dict] at ran
    cases ran
  · rw [ended dict] at ran
    cases ran
    exact spoken

theorem blind_returning (ret : Int) (silent : quiet ∨ ret = eTooLong) :
    Blind quiet fun dict : Dict V => returning dict ret :=
  fun sh => Or.inr ⟨sh, ret, silent.imp_right Or.inl, fun _ => rfl⟩

theorem blind_int (n : Int) : Blind quiet fun dict : Dict V => intReply dict n :=
  fun sh => Or.inr ⟨(createIntReply sh n).1, 0, Or.inr (Or.inr (by decide : rplyInt ≠ noType)),
    fun _ => rfl⟩

theorem blind_ok : Blind quiet fun dict : Dict V => okReply dict :=
  fun sh => Or.inr ⟨(createEmptyReply sh rplyOk).1, 0,
    Or.inr (Or.inr (by decide : rplyOk &&& typeMask ≠ noType)), fun _ => rfl⟩

theorem blind_nil : Blind quiet fun dict : Dict V => nilReply dict :=
  fun sh => Or.inr ⟨(createEmptyReply sh rplyNil).1, 0,
    Or.inr (Or.inr (by decide : rplyNil &&& typeMask ≠ noType)), fun _ => rfl⟩

theorem blind_type (n : UInt8) : Blind quiet fun dict : Dict V => typeReply dict n :=
  fun sh => Or.inr ⟨(createTypeReply sh n).1, 0, Or.inr (Or.inr (by decide : rplyType ≠ noType)),
    fun _ => rfl⟩

theorem blind_stop (stop : Stop) : Blind quiet fun _ : Dict V => fun _ => .error stop :=
  fun _ => Or.inl ⟨stop, fun _ => rfl⟩

/-- A reply that comes from a function that may fail. -/
theorem blind_of_call {call : Shared → Except Fault (Shared × Int)}
    (spoken : ∀ sh sh' ret, call sh = .ok (sh', ret) → Speaks quiet sh' ret) :
    Blind quiet fun dict : Dict V => fun sh =>
      match call sh with
      | .error stop => .error (.fault stop)
      | .ok (sh, ret) => .ok ⟨dict, sh, ret⟩ := by
  intro sh
  cases made : call sh with
  | error stop => exact Or.inl ⟨.fault stop, fun dict => by simp only [made]⟩
  | ok reply => exact Or.inr ⟨reply.1, reply.2, spoken _ _ _ made, fun dict => by simp only [made]⟩

theorem createStrReply_speaks {sh sh' : Shared} {s : Bytes} {len : Nat} {type : UInt8} {ret : Int}
    (masked : type &&& typeMask ≠ noType) (made : createStrReply sh s len type = .ok (sh', ret)) :
    Speaks quiet sh' ret := by
  rw [createStrReply] at made
  split at made
  · cases made
    exact Or.inr (Or.inl rfl)
  · split at made
    · cases made
      exact Or.inr (Or.inr masked)
    · split at made
      · cases made
      · cases made
        exact Or.inr (Or.inr masked)

theorem blind_string (s : Bytes) (len : Nat) :
    Blind quiet fun dict : Dict V => stringReply dict s len :=
  blind_of_call fun _ _ _ made =>
    createStrReply_speaks (by decide : rplyString &&& typeMask ≠ noType) made

theorem blind_fail (s : String) : Blind quiet fun dict : Dict V => failReply dict s :=
  blind_of_call fun _ _ _ made =>
    createStrReply_speaks (by decide : rplyFail &&& typeMask ≠ noType) made

theorem blind_array (env : Env) {type : UInt8} (known : type ≠ noType) :
    Blind quiet fun dict : Dict V => arrayReply env type dict := by
  refine blind_of_call fun sh sh' ret made => ?_
  obtain ⟨enc, encoded, -, ⟨refused, -⟩ | ⟨-, rfl⟩⟩ := createArrReply_inv made
  · obtain ⟨looped, -⟩ | ⟨accepted, -⟩ := encodeArr_inv encoded
    · exact Or.inr (Or.inl ((encodeElems_grows looped).1.resolve_left refused))
    · exact absurd accepted refused
  · exact Or.inr (Or.inr known)

/-- A reply after the shared state has been edited. -/
theorem Blind.after {reply : Dict V → Run V} (blind : Blind quiet reply)
    (edit : Shared → Shared) : Blind quiet fun dict sh => reply dict (edit sh) :=
  fun sh => blind (edit sh)

theorem blind_fill (env : Env) (fill : Shared → Shared × Int) :
    Blind quiet fun dict : Dict V => fillReply env dict fill := by
  intro sh
  by_cases refused : (fill (resetReplyArr sh)).2 ≠ 0
  · simp only [fillReply, if_pos refused]
    exact blind_fail tooLong _
  · simp only [fillReply, if_neg refused]
    exact blind_array env (by decide) _

theorem blind_leaving (elems : List Elem) (ret : Int) (silent : quiet) :
    Blind quiet fun dict => leaving dict elems ret :=
  fun sh => Or.inr ⟨addAll (resetReplyArr sh) elems, ret, Or.inl silent, fun _ => rfl⟩

/-- A run on an inner dictionary that is thrown away. -/
theorem blind_within {run : Run W} (speaks : run.Speaks quiet) :
    Blind quiet fun dict : Dict V => run.within fun _ => dict := by
  intro sh
  cases ran : run sh with
  | error stop => exact Or.inl ⟨stop, fun dict => by simp only [Run.within, ran]⟩
  | ok result =>
    exact Or.inr ⟨result.sh, result.ret, speaks _ _ ran, fun dict => by simp only [Run.within, ran]⟩

/-! ### Runs that cannot be told apart -/

/-- From one shared state both runs stop alike, or leave the same but for key spaces that were
edited side by side. -/
def MatchedAt (quiet : Prop) (places : Set Bytes) (first second : Dict Obj) (run other : Run Obj)
    (sh : Shared) : Prop :=
  (∃ stop, run sh = .error stop ∧ other sh = .error stop) ∨
    ∃ one two sh' ret, run sh = .ok ⟨one, sh', ret⟩ ∧ other sh = .ok ⟨two, sh', ret⟩ ∧
      Speaks quiet sh' ret ∧ Twin places first second one two

/-- Two runs that cannot be told apart in any shared state. -/
def Matched (quiet : Prop) (places : Set Bytes) (first second : Dict Obj)
    (run other : Run Obj) : Prop := ∀ sh, MatchedAt quiet places first second run other sh

theorem Twin.replies (twin : Twin places first second one two) {reply : Dict Obj → Run Obj}
    (blind : Blind quiet reply) :
    Matched quiet places first second (reply one) (reply two) := by
  intro sh
  obtain ⟨stop, stopped⟩ | ⟨sh', ret, spoken, ran⟩ := blind sh
  · exact Or.inl ⟨stop, stopped one, stopped two⟩
  · exact Or.inr ⟨one, two, sh', ret, ran one, ran two, spoken, twin⟩

/-- The same run on an inner dictionary, put back into both. -/
theorem matched_within {run : Run W} (speaks : run.Speaks quiet) {wrap wrap' : Dict W → Dict Obj}
    (wrapped : ∀ inner, Twin places first second (wrap inner) (wrap' inner)) :
    Matched quiet places first second (run.within wrap) (run.within wrap') := by
  intro sh
  cases ran : run sh with
  | error stop => exact Or.inl ⟨stop, by rw [Run.within, ran], by rw [Run.within, ran]⟩
  | ok result =>
    exact Or.inr ⟨_, _, result.sh, result.ret, by rw [Run.within, ran], by rw [Run.within, ran],
      speaks _ _ ran, wrapped result.dict⟩

theorem Matched.andThen {run other : Run Obj}
    (matched : Matched quiet places first second run other)
    {next next' : Result Obj → Run Obj}
    (later : ∀ one two sh ret, Twin places first second one two → Speaks quiet sh ret →
      MatchedAt quiet places first second (next ⟨one, sh, ret⟩) (next' ⟨two, sh, ret⟩) sh) :
    Matched quiet places first second (run.andThen next) (other.andThen next') := by
  intro sh
  obtain ⟨stop, ran, ran'⟩ | ⟨one, two, sh', ret, ran, ran', spoken, twin⟩ := matched sh
  · exact Or.inl ⟨stop, by rw [Run.andThen, ran], by rw [Run.andThen, ran']⟩
  · simp only [MatchedAt, Run.andThen, ran, ran']
    exact later one two sh' ret twin spoken

/-! ### The keys a command names -/

/-- Every other argument, from the first on. -/
def keysOfPairs : List Bss → List Bss
  | key :: _ :: rest => key :: keysOfPairs rest
  | _ => []

/-- The keys of the key space among the arguments. -/
def CommandFunc.named (args : List Bss) : CommandFunc → List Bss
  | .del | .mget | .sdiff | .sunion | .sinter | .blpop | .brpop => args
  | .msetnx => keysOfPairs args
  | .rename | .rpoplpush | .brpoplpush | .smove => args.take 2
  | .randomkey | .keys => []
  | _ => args.take 1

theorem keysOfPairs_subset {args : List Bss} {key : Bss} (member : key ∈ keysOfPairs args) :
    key ∈ args := by
  induction args using keysOfPairs.induct with
  | case1 head val rest inductionHypothesis =>
    rcases List.mem_cons.mp member with rfl | later
    · exact List.mem_cons_self
    · exact List.mem_cons_of_mem _ (List.mem_cons_of_mem _ (inductionHypothesis later))
  | case2 args odd =>
    rw [keysOfPairs] at member
    · cases member
    · exact odd

theorem named_subset (func : CommandFunc) {args : List Bss} {key : Bss}
    (member : key ∈ func.named args) : key ∈ args := by
  unfold CommandFunc.named at member
  split at member
  · exact member
  · exact member
  · exact member
  · exact member
  · exact member
  · exact member
  · exact member
  · exact keysOfPairs_subset member
  · exact List.mem_of_mem_take member
  · exact List.mem_of_mem_take member
  · exact List.mem_of_mem_take member
  · exact List.mem_of_mem_take member
  · cases member
  · cases member
  · exact List.mem_of_mem_take member

/-- The commands that look at the whole key space. -/
def CommandFunc.whole : CommandFunc → Bool
  | .randomkey | .keys => true
  | _ => false

/-- The handlers that can return without a reply: those that leave the array to their caller, those
with an empty body, and the one that drops what `create_str_reply` returns. -/
def CommandFunc.MayBeQuiet (args : List Bss) : CommandFunc → Prop
  | .blpop | .brpop | .brpoplpush | .spop => True
  | .srandmember => args.length = 2
  | _ => False

end PseudoRedis

/-
This file is about `dict_random_elem`, which draws slots until one holds an entry, and so
comes to an end only if the table holds one. `RANDOMKEY` looks at the count of entries
first, and `SPOP` relies on every set having members. The count is right in a run of
commands, and every set has members, as long as no `RENAME` links an entry in again
without counting it and no `SMOVE` or `SPOP` leaves a set without members. `SRANDMEMBER`
never assigns the dictionary it draws from.
-/

import PseudoRedis.Commands.Edits
import PseudoRedis.NonEmpty
import PseudoRedis.SetHistory

namespace PseudoRedis

/-! ### Drawing an element -/

section Drawing

variable {V : Type} {dict : Dict V}

/-- The slot a drawn number leads to. -/
def Dict.drawn (dict : Dict V) (draw : Nat) : Nat := (UInt32.ofNat draw &&& dict.bitMask).toNat

/-- Some number `random` can return leads to a slot with an entry, and once it is drawn, whatever
was drawn before, an entry of the dictionary is found. -/
def CanDraw (dict : Dict V) : Prop :=
  ∃ draw < 2 ^ 31, dict.hashTbl (dict.drawn draw) ≠ [] ∧
    ∀ front last rest, ∃ entry ∈ dict.entries,
      dictRandomElem dict (front ++ draw :: last :: rest) = .ok entry

theorem drawSlot_cons (draw : Nat) (rest : List Nat) :
    drawSlot dict (draw :: rest) =
      if dict.hashTbl (dict.drawn draw) = [] then drawSlot dict rest
      else some (dict.hashTbl (dict.drawn draw), rest) := by
  rw [drawSlot, Dict.drawn]
  cases dict.hashTbl (UInt32.ofNat draw &&& dict.bitMask).toNat with
  | nil => rfl
  | cons entry chain => rfl

/-- The loop ends with a chain that holds something, and leaves the draws after the one that ends
it at the latest. -/
theorem drawSlot_ends {draw : Nat} (some : dict.hashTbl (dict.drawn draw) ≠ [])
    (front after : List Nat) :
    ∃ other more, dict.hashTbl (dict.drawn other) ≠ [] ∧
      drawSlot dict (front ++ draw :: after) =
        Option.some (dict.hashTbl (dict.drawn other), more ++ after) := by
  induction front with
  | nil =>
    refine ⟨draw, [], some, ?_⟩
    rw [List.nil_append, drawSlot_cons, if_neg some, List.nil_append]
  | cons first rest inductionHypothesis =>
    rw [List.cons_append, drawSlot_cons]
    by_cases empty : dict.hashTbl (dict.drawn first) = []
    · rw [if_pos empty]
      exact inductionHypothesis
    · rw [if_neg empty]
      exact ⟨first, rest ++ [draw], empty, by rw [List.append_assoc, List.singleton_append]⟩

theorem drawn_lt (sized : dict.Sized) (draw : Nat) :
    dict.drawn draw < (pwr2size dict.power).toNat := by
  have mask := sized.mask
  have below : dict.drawn draw ≤ dict.bitMask.toNat := by
    rw [Dict.drawn, UInt32.toNat_and]
    exact Nat.and_le_right
  rw [pwr2size_toNat sized.power_le]
  omega

/-- A dictionary with an entry has a slot to draw. -/
theorem canDraw_of_entries (sized : dict.Sized) (some : dict.entries ≠ []) : CanDraw dict := by
  obtain ⟨entry, member⟩ := List.exists_mem_of_ne_nil _ some
  obtain ⟨index, inside, inSlot⟩ := Slots.mem_contents.mp member
  rw [pwr2size_toNat sized.power_le] at inside
  have small : 2 ^ dict.power ≤ 2 ^ 31 := Nat.pow_le_pow_right Nat.two_pos sized.power_le
  have divides : 2 ^ dict.power ∣ 2 ^ 32 :=
    Nat.pow_dvd_pow 2 (Nat.le_succ_of_le sized.power_le)
  have own : dict.drawn index = index := by
    rw [Dict.drawn, masked_toNat sized, UInt32.toNat_ofNat', Nat.mod_mod_of_dvd _ divides,
      Nat.mod_eq_of_lt inside]
  have found : dict.hashTbl (dict.drawn index) ≠ [] := by
    rw [own]
    exact List.ne_nil_of_mem inSlot
  refine ⟨index, Nat.lt_of_lt_of_le inside small, found, fun front last rest => ?_⟩
  obtain ⟨other, more, holds, ends⟩ := drawSlot_ends found front (last :: rest)
  have again : more ++ last :: rest ≠ [] :=
    List.append_ne_nil_of_right_ne_nil _ (List.cons_ne_nil _ _)
  obtain ⟨draw, others, split⟩ := List.exists_cons_of_ne_nil again
  have place : draw % (dict.hashTbl (dict.drawn other)).length <
      (dict.hashTbl (dict.drawn other)).length := Nat.mod_lt _ (List.length_pos_iff.mpr holds)
  refine ⟨_, Slots.mem_contents.mpr ⟨_, drawn_lt sized other, List.getElem_mem place⟩, ?_⟩
  simp only [dictRandomElem, ends, split, List.getElem?_eq_getElem place]

end Drawing

/-! ### The commands that draw -/

/-- A dictionary a command calls `dict_random_elem` with. -/
inductive Drawn (dict : Dict Obj) : CommandFunc → List Bss → {V : Type} → Dict V → Prop
  | randomkey (counted : toSize dict.entryNum ≠ 0) : Drawn dict .randomkey [] dict
  | spop {key : Bss} {set : Dict Unit} (answer : dictLookUp dict key = some (.set set)) :
      Drawn dict .spop [key] set

/-- `SRANDMEMBER` with a key that holds a set: the pointer it draws through is never assigned. -/
def Unassigned (dict : Dict Obj) (func : CommandFunc) (args : List Bss) : Prop :=
  func = .srandmember ∧ ∃ key set, args = [key] ∧ dictLookUp dict key = some (.set set)

/-- The functions that draw. -/
def CommandFunc.draws : CommandFunc → Bool
  | .randomkey | .spop | .srandmember => true
  | _ => false

/-- The run is answered with a nil. -/
def SaysNil {V : Type} (run : Run V) (sh : Shared) : Prop :=
  ∃ result, run sh = .ok result ∧ result.ret = 0 ∧ result.sh.curr.replyType = rplyNil

/-- No loop of the run is without end, and nothing is read before it is assigned. -/
def Run.Finishes {V : Type} (run : Run V) : Prop :=
  ∀ sh stop, run sh = .error (.fault stop) → stop ≠ .unfinished ∧ stop ≠ .uninitialised

/-- Every dictionary an element is drawn of has a slot to draw, so that the commands can come to an
end, exactly if they do not draw through the pointer that is never assigned, and `RANDOMKEY` is
answered with a nil exactly if there is no key. -/
structure Drawable (dict : Dict Obj) : Prop where
  slots : ∀ {func : CommandFunc} {args : List Bss} {V : Type} {inner : Dict V},
    Drawn dict func args inner → CanDraw inner
  ends : ∀ func : CommandFunc, func.draws = true → ∀ (env : Env) (args : List Bss),
    (∃ draw < 2 ^ 31, ∀ front last rest,
      (func.run { env with random := front ++ draw :: last :: rest } dict args).Finishes) ↔
      ¬ Unassigned dict func args
  nil : ∀ env sh, SaysNil (randomkeyCommand env dict []) sh ↔ dict.entries = []

section Rules

variable {V : Type} {dict : Dict V}

theorem createStrReply_finishes {sh : Shared} {s : Bytes} {len : Nat} {type : UInt8} {stop : Fault}
    (stopped : createStrReply sh s len type = .error stop) :
    stop ≠ .unfinished ∧ stop ≠ .uninitialised := by
  rw [createStrReply] at stopped
  split at stopped
  · cases stopped
  · split at stopped
    · cases stopped
    · split at stopped
      · cases stopped
        exact ⟨by decide, by decide⟩
      · cases stopped

theorem finishes_string (dict : Dict V) (s : Bytes) (len : Nat) :
    (stringReply dict s len).Finishes := by
  intro sh stop stopped
  rw [stringReply] at stopped
  split at stopped
  · rename_i failed
    cases stopped
    exact createStrReply_finishes failed
  · cases stopped

theorem finishes_fail (dict : Dict V) (s : String) : (failReply dict s).Finishes := by
  intro sh stop stopped
  rw [failReply] at stopped
  split at stopped
  · rename_i failed
    cases stopped
    exact createStrReply_finishes failed
  · cases stopped

theorem finishes_replying (dict : Dict V) (call : Shared → Shared × Int) :
    (replying dict call).Finishes := by
  intro sh stop stopped
  cases stopped

theorem finishes_returning (dict : Dict V) (ret : Int) : (returning dict ret).Finishes := by
  intro sh stop stopped
  cases stopped

theorem finishes_andThen {run : Run V} {next : Result V → Run V} (first : run.Finishes)
    (second : ∀ result, (next result).Finishes) : (run.andThen next).Finishes := by
  intro sh stop stopped
  rw [Run.andThen] at stopped
  split at stopped
  · rename_i before
    cases stopped
    exact first sh stop before
  · rename_i result before
    exact second result result.sh stop stopped

/-- A command that looks at the count draws only if there is something to draw. -/
theorem randomkeyCommandOn_finishes (slots : toSize dict.entryNum ≠ 0 → CanDraw dict) (env : Env)
    (args : List Bss) :
    ∃ draw < 2 ^ 31, ∀ front last rest,
      (randomkeyCommandOn { env with random := front ++ draw :: last :: rest } dict
        args).Finishes := by
  by_cases none : toSize dict.entryNum = 0
  · refine ⟨0, Nat.two_pow_pos 31, fun front last rest => ?_⟩
    unfold randomkeyCommandOn
    split
    · rw [if_pos none]
      exact finishes_replying dict _
    · exact finishes_fail dict numArgs
  · obtain ⟨draw, small, -, draws⟩ := slots none
    refine ⟨draw, small, fun front last rest => ?_⟩
    obtain ⟨entry, -, drawn⟩ := draws front last rest
    unfold randomkeyCommandOn
    split
    · simp only [if_neg none, drawn]
      exact finishes_string dict _ _
    · exact finishes_fail dict numArgs

end Rules

variable {dict : Dict Obj}

theorem spopCommand_finishes
    (slots : ∀ key set, dictLookUp dict key = some (.set set) → CanDraw set) (env : Env)
    (args : List Bss) :
    ∃ draw < 2 ^ 31, ∀ front last rest,
      (spopCommand { env with random := front ++ draw :: last :: rest } dict args).Finishes := by
  by_cases set : ∃ key set, args = [key] ∧ dictLookUp dict key = some (.set set)
  · obtain ⟨key, set, rfl, answer⟩ := set
    obtain ⟨draw, small, -, draws⟩ := slots key set answer
    refine ⟨draw, small, fun front last rest => ?_⟩
    obtain ⟨entry, -, drawn⟩ := draws front last rest
    simp only [spopCommand, answer, drawn]
    exact finishes_andThen (finishes_string _ _ _) fun result => finishes_returning _ _
  · refine ⟨0, Nat.two_pow_pos 31, fun front last rest => ?_⟩
    unfold spopCommand
    split
    · exact finishes_returning dict _
    · rename_i key
      split
      · exact finishes_replying dict _
      · rename_i inner answer
        exact absurd ⟨key, inner, rfl, answer⟩ set
      · exact finishes_fail dict wrongType
    · exact finishes_fail dict numArgs

/-- `SRANDMEMBER` comes to an end exactly if its key holds no set, whatever is drawn. -/
theorem srandmemberCommand_finishes (env : Env) (args : List Bss) :
    (srandmemberCommand env dict args).Finishes ↔ ¬ Unassigned dict .srandmember args := by
  constructor
  · rintro finishes ⟨-, key, set, rfl, answer⟩
    have stopped : srandmemberCommand env dict [key] (Shared.holding []) =
        .error (.fault .uninitialised) := by
      simp only [srandmemberCommand, answer, fault]
    exact (finishes _ _ stopped).2 rfl
  · intro assigned
    unfold srandmemberCommand
    split
    · exact finishes_returning dict _
    · rename_i key
      split
      · exact finishes_replying dict _
      · rename_i inner answer
        exact absurd ⟨rfl, key, inner, rfl, answer⟩ assigned
      · exact finishes_fail dict wrongType
    · exact finishes_fail dict numArgs

theorem stringReply_not_nil (dict : Dict Obj) (s : Bytes) (len : Nat) (sh : Shared) :
    ¬ SaysNil (stringReply dict s len) sh := by
  rintro ⟨result, ran, zero, type⟩
  have other : rplyString &&& typeMask ≠ rplyNil := by decide
  have refused : eTooLong ≠ 0 := by decide
  rw [stringReply] at ran
  split at ran
  · cases ran
  · rename_i after ret created
    cases ran
    rw [createStrReply] at created
    split at created
    · cases created
      exact refused zero
    · split at created
      · cases created
        exact other type
      · split at created
        · cases created
        · cases created
          exact other type

/-- A key space whose count is zero only without keys, and whose sets have members or at least the
right count. -/
theorem drawable_of_slots (sized : dict.Sized)
    (count : toSize dict.entryNum = 0 ↔ dict.entries = [])
    (sets : ∀ key set, dictLookUp dict key = some (.set set) → CanDraw set) : Drawable dict := by
  have slots : toSize dict.entryNum ≠ 0 → CanDraw dict := fun counted =>
    canDraw_of_entries sized fun none => counted (count.mpr none)
  refine ⟨fun drawn => ?_, fun func draws env args => ?_, fun env sh => ?_⟩
  · cases drawn with
    | randomkey counted => exact slots counted
    | spop answer => exact sets _ _ answer
  · cases func with
    | randomkey =>
      refine iff_of_true (randomkeyCommandOn_finishes slots env args) ?_
      rintro ⟨⟨⟩, -⟩
    | spop =>
      refine iff_of_true (spopCommand_finishes sets env args) ?_
      rintro ⟨⟨⟩, -⟩
    | srandmember =>
      constructor
      · rintro ⟨draw, -, finishes⟩
        exact (srandmemberCommand_finishes _ args).mp (finishes [] 0 [])
      · exact fun assigned => ⟨0, Nat.two_pow_pos 31, fun _ _ _ =>
          (srandmemberCommand_finishes _ args).mpr assigned⟩
    | _ => cases draws
  · rw [← count]
    by_cases none : toSize dict.entryNum = 0
    · refine iff_of_true ⟨⟨dict, (createEmptyReply sh rplyNil).1, 0⟩, ?_, rfl, rfl⟩ none
      simp only [randomkeyCommand, randomkeyCommandOn, if_pos none]
      rfl
    · refine iff_of_false ?_ none
      simp only [randomkeyCommand, randomkeyCommandOn, if_neg none]
      split
      · rintro ⟨result, ran, -⟩
        cases ran
      · exact stringReply_not_nil dict _ _ sh

/-! ### Runs -/

/-- What `malloc` gives a call: the allocations it can use are different, at addresses of 64 bits
that are not null, and the key space holds none of them. -/
structure Call.Allocates (call : Call) (dict : Dict Obj) : Prop where
  once : (spent call.env call.args).Nodup
  addressed : ∀ id ∈ spent call.env call.args, 0 < id ∧ id < 2 ^ 64
  unheld : ∀ id ∈ spent call.env call.args, id ∉ dict.ids

/-- The count is the number of keys, every set has members, and the allocations have their own
addresses. -/
structure Balanced (dict : Dict Obj) : Prop where
  sound : Sound True dict
  count : dict.entryNum = dict.entries.length
  filled : ∀ entry ∈ dict.entries, entry.val.Filled
  once : dict.ids.Nodup
  addressed : ∀ id ∈ dict.ids, 0 < id ∧ id < 2 ^ 64

theorem balanced_create : Balanced (dictCreate initDictSize) := by
  refine ⟨sound_create True (by decide), ?_, by simp, by simp, by simp⟩
  rw [dictCreate_entries]
  rfl

theorem keys_sublist (dict : Dict Obj) :
    (dict.entries.map fun entry => entry.key.id).Sublist dict.ids := by
  rw [Dict.ids, Dict.idsWith]
  induction dict.entries with
  | nil => exact List.nil_sublist _
  | cons entry rest inductionHypothesis =>
    rw [List.map_cons, List.flatMap_cons, List.cons_append]
    exact (inductionHypothesis.trans (List.sublist_append_right _ _)).cons_cons _

/-- The keys are different allocations, so the count does not come round. -/
theorem Balanced.length_lt (balanced : Balanced dict) : dict.entries.length < 2 ^ 64 := by
  have keys := keys_sublist dict
  have few := length_le_of_addressed (keys.nodup balanced.once) fun id member =>
    balanced.addressed id (keys.subset member)
  rw [List.length_map] at few
  omega

theorem Balanced.drawable (balanced : Balanced dict) : Drawable dict := by
  have sized := balanced.sound.placed.sized
  refine drawable_of_slots sized ?_ fun key set answer => ?_
  · rw [balanced.count, toSize_natCast balanced.length_lt, List.length_eq_zero_iff]
  · exact canDraw_of_entries (Kind.set_lawful.inner balanced.sound answer).1.placed.sized
      (filled_of_lookUp balanced.filled sized answer)

/-- A call that neither loses a count nor empties a set keeps the balance. -/
theorem Balanced.step (balanced : Balanced dict) {call : Call} (allocates : call.Allocates dict)
    (fine : ¬ call.func.Unbalances dict call.args) {sh : Shared} {result : Result Obj}
    (ran : call.run dict sh = .ok result) : Balanced result.dict := by
  have change := call.change balanced.sound ran
  have edited := call.func.ends balanced.sound call.given balanced.filled fine sh result ran
  have sized := balanced.sound.placed.sized
  have counted := edited.count sized
  refine ⟨change.sound, ?_, edited.vals sized balanced.filled,
    nodup_of_conserve change.conserve balanced.once allocates.once allocates.unheld,
    fun id member => ?_⟩
  · have before := balanced.count
    omega
  · rcases change.mem member with old | new
    · exact balanced.addressed id old
    · exact allocates.addressed id new

/-- In a run without a call that loses the count of an entry or empties a set in place, the commands
that draw an element of a dictionary always find one. -/
theorem random_elem_ends
    (reach : Reachable (fun dict call => call.Allocates dict ∧
      ¬ call.func.Unbalances dict call.args) dict) : Drawable dict := by
  have balanced : Balanced dict := by
    induction reach with
    | start => exact balanced_create
    | step call before fine ran inductionHypothesis =>
      exact inductionHypothesis.step fine.1 fine.2 ran
  exact balanced.drawable

/-! ### Runs that break the rule -/

/-- A table without entries is drawn from for ever. -/
theorem dictRandomElem_bare {V : Type} {dict : Dict V} (bare : dict.entries = [])
    (sized : dict.Sized) (random : List Nat) : dictRandomElem dict random = .error .unfinished := by
  have slots (draw : Nat) : dict.hashTbl (dict.drawn draw) = [] := by
    refine List.eq_nil_iff_forall_not_mem.mpr fun entry inSlot => ?_
    have member : entry ∈ dict.entries :=
      Slots.mem_contents.mpr ⟨_, drawn_lt sized draw, inSlot⟩
    rw [bare] at member
    cases member
  have never : drawSlot dict random = none := by
    induction random with
    | nil => rfl
    | cons draw rest inductionHypothesis =>
      rw [drawSlot_cons, if_pos (slots draw)]
      exact inductionHypothesis
  rw [dictRandomElem, never]

/-- The key space after `SET a 1`. -/
def setKey : Dict Obj :=
  dictAdd (dictCreate initDictSize) (textArg 1 "a") (.string (textArg 2 "1"))

/-- The key space after `RENAME a b` as well. -/
def renamedKey : Dict Obj := (dictRename setKey (textArg 3 "a") (textArg 4 "b")).1

theorem reachable_renamedKey : Reachable (fun _ _ => True) renamedKey := by
  have set : (textCall .set [(1, "a"), (2, "1")] (by decide)).run (dictCreate initDictSize)
      (Shared.holding []) = .ok ⟨setKey, (createEmptyReply (Shared.holding []) rplyOk).1, 0⟩ := rfl
  have rename : (textCall .rename [(3, "a"), (4, "b")] (by decide)).run setKey
      (Shared.holding []) =
        .ok ⟨renamedKey, (createEmptyReply (Shared.holding []) rplyOk).1, 0⟩ := rfl
  exact .step _ (.step _ .start trivial set) trivial rename

/-- The set with the only member `x`. -/
def xSet : Dict Unit := dictAdd (dictCreate newDictPow) (textArg 2 "x") ()

/-- The key space after `SADD s x`. -/
def addedSet : Dict Obj :=
  putBack Kind.set
    (dictAdd (dictCreate initDictSize) (textArg 1 "s") (.set (dictCreate newDictPow)))
    (textArg 1 "s") xSet

/-- The key space after `SPOP s` as well. -/
def poppedSet : Dict Obj :=
  putBack Kind.set addedSet (textArg 3 "s") (dictRmNf xSet (textArg 2 "x")).1

/-- A call of `SPOP s` in which `random` returns the slot of the member. -/
def popCall : Call :=
  { textCall .spop [(3, "s")] (by decide) with
    env := { Env.plain with random := [xSet.slot (textArg 2 "x"), 0] } }

theorem reachable_addedSet : Reachable (fun _ _ => True) addedSet := by
  have add : (textCall .sadd [(1, "s"), (2, "x")] (by decide)).run (dictCreate initDictSize)
      (Shared.holding []) = .ok ⟨addedSet, (createIntReply (Shared.holding []) 1).1, 0⟩ := rfl
  exact .step _ .start trivial add

theorem reachable_poppedSet : Reachable (fun _ _ => True) poppedSet := by
  have pop : ∃ sh, popCall.run addedSet (Shared.holding []) = .ok ⟨poppedSet, sh, 0⟩ := ⟨_, rfl⟩
  obtain ⟨sh, pop⟩ := pop
  exact .step _ reachable_addedSet trivial pop

theorem xSet_popped : (dictRmNf xSet (textArg 2 "x")).1.entries = [] := by
  have sized : xSet.Sized := dictAdd_sized (dictCreate_sized (by decide)) _ _
  have answer : dictLookUp xSet (textArg 2 "x") = some () := rfl
  obtain ⟨entry, others, -, found⟩ := found_of_lookUp sized answer
  obtain ⟨-, left, count⟩ := found.rmNf
  have gone : others = [] := by
    have edits : Edits (fun _ => True) (dictCreate newDictPow) xSet := .add .start _ trivial
    have counted := edits.count (dictCreate_sized (by decide))
    have one : xSet.entryNum = 1 := rfl
    have zero : (dictCreate newDictPow : Dict Unit).entryNum = 0 := rfl
    rw [dictCreate_entries, found.entries.length_eq, one, zero, List.length_cons,
      List.length_nil] at counted
    exact List.length_eq_zero_iff.mp (by omega)
  rw [gone] at left
  exact left.eq_nil

/-- After `SET a 1` and `RENAME a b`, `RANDOMKEY` is answered with a nil although there is a key.
After `SADD s x` and `SPOP s` another `SPOP s` draws slots of the emptied set for ever. After
`SADD s x`, `SRANDMEMBER s` draws through a pointer without a value. -/
theorem random_elem_missed :
    (Reachable (fun _ _ => True) renamedKey ∧ renamedKey.entries ≠ [] ∧
        SaysNil (randomkeyCommand Env.plain renamedKey []) (Shared.holding [])) ∧
      (Reachable (fun _ _ => True) poppedSet ∧ ∀ random sh,
        spopCommand { Env.plain with random } poppedSet [textArg 4 "s"] sh =
          .error (.fault .unfinished)) ∧
      (Reachable (fun _ _ => True) addedSet ∧ ∀ env sh,
        srandmemberCommand env addedSet [textArg 4 "s"] sh = .error (.fault .uninitialised)) ∧
      ¬ ∀ dict, Reachable (fun _ _ => True) dict → Drawable dict := by
  have sized : renamedKey.Sized := (reachable_renamedKey.sound fun _ _ _ _ => trivial).placed.sized
  have answer : dictLookUp renamedKey (textArg 4 "b") = some (.string (textArg 2 "1")) := rfl
  have kept : renamedKey.entries ≠ [] := entries_of_lookUp sized answer
  have nil : SaysNil (randomkeyCommand Env.plain renamedKey []) (Shared.holding []) :=
    ⟨_, rfl, rfl, rfl⟩
  refine ⟨⟨reachable_renamedKey, kept, nil⟩, ⟨reachable_poppedSet, fun random sh => ?_⟩,
    ⟨reachable_addedSet, fun env sh => ?_⟩, fun drawable => ?_⟩
  · have emptied : dictLookUp poppedSet (textArg 4 "s") =
        some (.set (dictRmNf xSet (textArg 2 "x")).1) := rfl
    have small : xSet.Sized := dictAdd_sized (dictCreate_sized (by decide)) _ _
    simp only [spopCommand, emptied,
      dictRandomElem_bare xSet_popped (dictRmNf_sized small _) random, fault]
  · have stored : dictLookUp addedSet (textArg 4 "s") = some (.set xSet) := rfl
    simp only [srandmemberCommand, stored, fault]
  · exact kept (((drawable _ reachable_renamedKey).nil Env.plain (Shared.holding [])).mp nil)

/-- A call of `SET a 1` that gets its allocations. -/
def setCall : Call :=
  { textCall .set [(1, "a"), (2, "1")] (by decide) with env := { Env.plain with fresh := 10 } }

/-- A call of `SADD s x y`. -/
def saddCall : Call :=
  { textCall .sadd [(3, "s"), (4, "x"), (5, "y")] (by decide) with
    env := { Env.plain with fresh := 12 } }

/-- The key space after both. -/
def setAndMembers : Dict Obj :=
  dictAdd setKey (textArg 3 "s")
    (.set (addMembers (dictCreate newDictPow) [textArg 4 "x", textArg 5 "y"]).1)

/-- A run that keeps the rule. -/
theorem random_elem_ends_set :
    Reachable (fun dict call => call.Allocates dict ∧
        ¬ call.func.Unbalances dict call.args) setAndMembers ∧ Drawable setAndMembers := by
  have spends : spent setCall.env setCall.args = [1, 2, 10, 11] := rfl
  have allocates : setCall.Allocates (dictCreate initDictSize) := by
    refine ⟨?_, ?_, fun id member => ?_⟩
    · rw [spends]
      decide
    · rw [spends]
      decide
    · simp
  have set : setCall.run (dictCreate initDictSize) (Shared.holding []) =
      .ok ⟨setKey, (createEmptyReply (Shared.holding []) rplyOk).1, 0⟩ := rfl
  have first : Reachable (fun dict call => call.Allocates dict ∧
      ¬ call.func.Unbalances dict call.args) setKey :=
    .step setCall .start ⟨allocates, id⟩ set
  have sound : Sound True setKey := first.sound fun _ _ _ _ => trivial
  have spendsMore : spent saddCall.env saddCall.args = [3, 4, 5, 12, 13] := rfl
  have allocatesMore : saddCall.Allocates setKey := by
    refine ⟨?_, ?_, fun id member held => ?_⟩
    · rw [spendsMore]
      decide
    · rw [spendsMore]
      decide
    · have apart : ∀ id ∈ [3, 4, 5, 12, 13], id ∉ [1, 2, 10, 11] := by decide
      rcases (setCall.change (sound_create True (by decide)) set).mem held with old | new
      · simp at old
      · exact apart id (spendsMore ▸ member) (spends ▸ new)
  have sadd := congrFun (@saddCommand_absent _ (textArg 3 "s") (textArg 4 "x") [textArg 5 "y"]
    sound.placed.sized rfl) (createEmptyReply (Shared.holding []) rplyOk).1
  have reach : Reachable (fun dict call => call.Allocates dict ∧
      ¬ call.func.Unbalances dict call.args) setAndMembers :=
    .step saddCall first ⟨allocatesMore, id⟩ sadd
  exact ⟨reach, random_elem_ends reach⟩

end PseudoRedis

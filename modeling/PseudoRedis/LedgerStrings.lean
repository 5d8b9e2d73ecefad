/-
This file follows the commands on strings, and those on keys of any type, in the ledger.
Each theorem is about one handler: from what its key holds, what it reports and what the key
holds afterwards. The cases are the types a key can have.
-/

import PseudoRedis.Keeping
import PseudoRedis.Substrings

namespace PseudoRedis

variable {dict : Dict Obj} {key : Bss} {value : Option Datum} {env : Env}

/-! ### Keys -/

/-- `EXISTS` does not ask for the type. -/
theorem existsCommand_realises (known : Known dict key value) :
    Realises (existsCommand dict [key]) key (existsEdit value) := by
  refine realises_same known ?_
  rw [← known.isSome]
  simp only [existsCommand, existsCommandOn]
  cases dictLookUp dict key with
  | none => exact reports_int dict 0
  | some obj => exact reports_int dict 1

/-- `TYPE` of an absent key has a number of its own. -/
theorem typeCommand_realises (known : Known dict key value) :
    Realises (typeCommand dict [key]) key (typeEdit value) := by
  refine realises_same known ?_
  rw [← known.objType]
  exact reports_type dict _

/-! ### Strings -/

/-- A string stands for its bytes. -/
theorem known_string {bss : Bss} (answer : dictLookUp dict key = some (.string bss))
    (short : bss.Short) (proper : bss.Proper) :
    Known dict key (some (.string bss.content)) := .present answer (.string short proper)

/-- Only an object with a string is read as one. -/
theorem string_eq_none {obj : Obj} (other : ∀ bss, obj ≠ .string bss) :
    StrObj.string obj = none := by
  cases obj with
  | string bss => exact absurd rfl (other bss)
  | list | hash | set => rfl

theorem getCommand_realises (known : Known dict key value) :
    Realises (getCommand dict [key]) key (getEdit value) := by
  refine stringView.reads known (fun answer => ?_)
    (fun obj answer (other : ∀ bss, obj ≠ .string bss) => ?_) ?_
  · simpa only [getCommand, getCommandOn, answer] using reports_nil dict
  · simpa only [getCommand, getCommandOn, answer, string_eq_none other] using
      reports_fail dict wrongType
  · rintro bss _ (answer : dictLookUp dict key = some (.string bss)) ⟨short, -, rfl⟩
    simpa only [getCommand, getCommandOn, answer, StrObj.string] using reports_string dict short

/-- `SET` puts a string under the key, whatever was there. -/
theorem setCommand_realises (tidy : Tidy dict) {val : Bss} (given : val.Given) :
    Realises (setCommand dict [key, val]) key (setEdit val.content value) :=
  ⟨dictAdd dict key (.string val), reports_ok _,
    known_string (lookUp_added tidy.sized key _) given.short given.proper⟩

/-- `SETNX` sets an absent key only. A key of another type counts as one that is there. -/
theorem setnxCommand_realises (tidy : Tidy dict) (known : Known dict key value) {val : Bss}
    (given : val.Given) :
    Realises (setnxCommand dict [key, val]) key (setnxEdit val.content value) := by
  cases known with
  | absent answer =>
    have ran : setnxCommand dict [key, val] = setCommand dict [key, val] := by
      simp only [setnxCommand, setnxCommandOn, answer, setCommand]
    exact ran ▸ @setCommand_realises _ _ none tidy _ given
  | present answer denotes =>
    have ran : setnxCommand dict [key, val] = falseReply dict := by
      simp only [setnxCommand, setnxCommandOn, answer]
    exact realises_same (.present answer denotes) (ran ▸ reports_int dict 0)

theorem strlenCommand_realises (known : Known dict key value) :
    Realises (strlenCommand dict [key]) key (strlenEdit value) := by
  refine stringView.reads known (fun answer => ?_)
    (fun obj answer (other : ∀ bss, obj ≠ .string bss) => ?_) ?_
  · simpa only [strlenCommand, answer] using reports_int dict 0
  · simpa only [strlenCommand, answer, other] using reports_fail dict wrongType
  · rintro bss _ (answer : dictLookUp dict key = some (.string bss)) ⟨short, -, rfl⟩
    rw [short.content_length]
    simpa only [strlenCommand, answer] using reports_int dict bss.len

/-- The bytes `GETRANGE` passes on are those of the slice. -/
theorem getrange_reports {firstArg lastArg bss : Bss} {first last : Int}
    (answer : dictLookUp dict key = some (.string bss))
    (firstNumber : bss2int firstArg = (first, 0)) (lastNumber : bss2int lastArg = (last, 0))
    (short : bss.Short) :
    Reports (getrangeCommand dict [key, firstArg, lastArg]) dict
      (.text (slice bss.content first last)) := by
  have small : bss.len < 2 ^ 63 := Nat.lt_trans short.len_lt (by decide)
  have firstRange := isInt64_of_number firstNumber
  have lastRange := isInt64_of_number lastNumber
  have inside := rangeSpan_inside firstRange lastRange small
  have cut := @slice_eq_span _ _ _ bss.content firstRange lastRange
    (short.content_length.symm ▸ small)
  rw [short.content_length, Bss.content, List.drop_take, List.take_take,
    Nat.min_eq_left (by omega)] at cut
  rw [getrange_span answer firstNumber lastNumber, Bss.content, cut]
  refine reports_take dict ?_
  rw [List.length_drop]
  have area := short.len_le
  omega

/-- `GETRANGE` replies an empty text without the key. -/
theorem getrangeCommand_realises (known : Known dict key value) {first last : Bss}
    (firstGiven : first.Given) (lastGiven : last.Given) :
    Realises (getrangeCommand dict [key, first, last]) key
      (getrangeEdit first.content last.content value) := by
  refine realises_withNumbers firstGiven.proper.toEnded lastGiven.proper.toEnded known
    (fun refused => if_pos refused) fun a b firstNumber lastNumber =>
      stringView.reads known (fun answer => ?_)
        (fun obj answer (other : ∀ bss, obj ≠ .string bss) => ?_) ?_
  · simpa only [getrangeCommand, firstNumber, lastNumber, answer, ne_eq, not_true_eq_false,
      or_self, if_false, List.take_nil] using @reports_take _ dict [] 0 (Nat.le_refl 0)
  · simpa only [getrangeCommand, firstNumber, lastNumber, answer, ne_eq, not_true_eq_false,
      or_self, if_false, other] using reports_fail dict wrongType
  · rintro bss _ (answer : dictLookUp dict key = some (.string bss)) ⟨short, -, rfl⟩
    exact getrange_reports answer firstNumber lastNumber short

/-! ### Counters -/

/-- A sum is printed over the string it was read from, which has room for it. -/
theorem incrbyCommand_string (tidy : Tidy dict) {amount bss : Bss} {n : Int}
    (answer : dictLookUp dict key = some (.string bss)) (short : bss.Short) (proper : bss.Proper)
    (number : bss2int amount = (n, 0)) :
    Realises (incrbyCommand env dict [key, amount]) key (countedUp n bss.content) := by
  have known := known_string answer short proper
  have range := isInt64_of_number number
  have added : addend n posOp = n := addend_eq ((signed_posOp n).symm ▸ range)
  rcases bss2int_spelled proper.toEnded with ⟨none, refused⟩ | ⟨old, some, oldNumber⟩
  · rw [countedUp, none]
    refine realises_fail known ?_
    simp only [incrbyCommand, incrbyCommandOn, decrbyincrbyCommandOn, number, answer, ne_eq,
      not_true_eq_false, if_false, StrObj.string]
    exact if_pos refused
  · rw [countedUp, some]
    show Realises _ key (if llongMin ≤ old + n ∧ old + n ≤ llongMax then _ else _)
    have tests := overflows_iff (isInt64_of_number oldNumber) range
    by_cases sum : llongMin ≤ old + n ∧ old + n ≤ llongMax
    · obtain ⟨result, ran, resultProper, content, -⟩ := bssAddSub_stores env env.fresh proper
        oldNumber (added.symm ▸ tests.not.mpr (not_not.mpr sum))
      rw [added, add_comm, toInt64_of_isInt64 sum] at content
      obtain ⟨rest, str, len⟩ := resultProper.toEnded.str_eq
      have length := length_sprintfLld_le sum
      rw [← content, ← len] at length
      have resultShort : result.Short := by
        refine ⟨Nat.lt_of_le_of_lt length (by decide), ?_⟩
        rw [str, List.length_append, ← len]
        exact Nat.le_add_right _ _
      rw [if_pos sum, ← content]
      refine ⟨dictSetVal dict key (.string result), ?_,
        known_string (lookUp_dictSetVal_self tidy.sized answer _) resultShort resultProper⟩
      have reply : toInt64 (if posOp = negOp then old - n else old + n) = old + n := by
        rw [if_neg (by decide), toInt64_of_isInt64 sum]
      have whole : incrbyCommand env dict [key, amount] =
          intReply (dictSetVal dict key (.string result)) (old + n) := by
        simp only [incrbyCommand, incrbyCommandOn, decrbyincrbyCommandOn, number, oldNumber, ne_eq,
          not_true_eq_false, if_false, answer, StrObj.string, ran, reply]
        rfl
      exact whole ▸ reports_int _ _
    · rw [if_neg sum]
      refine realises_fail known ?_
      have refused := bssAddSub_refuses env env.fresh oldNumber (added.symm ▸ tests.mpr sum)
      simp only [incrbyCommand, incrbyCommandOn, decrbyincrbyCommandOn, number, oldNumber, ne_eq,
        not_true_eq_false, if_false, answer, StrObj.string, refused]
      exact if_pos (by decide)

/-- `INCRBY` counts a string up, or makes one of its argument. -/
theorem incrbyCommand_realises (tidy : Tidy dict) (known : Known dict key value) {amount : Bss}
    (given : amount.Given) :
    Realises (incrbyCommand env dict [key, amount]) key (incrbyEdit amount.content value) := by
  refine realises_withNumber given.proper.toEnded known (fun refused => if_pos refused)
    fun n number => stringView.edits known (fun answer => ?_)
      (fun obj answer (other : ∀ bss, obj ≠ .string bss) => ?_) ?_
  · have ran : incrbyCommand env dict [key, amount] =
        intReply (dictAdd dict key (.string amount)) n := by
      simp only [incrbyCommand, incrbyCommandOn, decrbyincrbyCommandOn, number, answer, ne_eq,
        not_true_eq_false, if_false]
      exact if_neg (by decide)
    exact ⟨_, ran ▸ reports_int _ n,
      known_string (lookUp_added tidy.sized key _) given.short given.proper⟩
  · simpa only [incrbyCommand, incrbyCommandOn, decrbyincrbyCommandOn, number, answer, ne_eq,
      not_true_eq_false, if_false, string_eq_none other] using reports_fail dict wrongType
  · rintro bss _ (answer : dictLookUp dict key = some (.string bss)) ⟨short, proper, rfl⟩
    exact incrbyCommand_string tidy answer short proper number

/-- `INCR` adds a string that it makes itself. -/
theorem incrCommand_realises (tidy : Tidy dict) (known : Known dict key value) :
    Realises (incrCommand env dict [key]) key (incrbyEdit (bytes "1") value) := by
  have proper := bssCreate_proper env env.fresh (bytes "1")
  have arg : (bssCreate env env.fresh (bytes "1")).Arg := by
    refine ⟨(by decide : (bytes "1").length ≤ maxRplySize), ?_⟩
    exact Nat.le_of_lt (Nat.lt_of_le_of_lt (Nat.le_add_right _ _) proper.toEnded.area)
  exact incrbyCommand_realises tidy known ⟨arg, proper⟩

end PseudoRedis

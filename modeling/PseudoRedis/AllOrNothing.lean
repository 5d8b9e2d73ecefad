/-
This file is about `MSETNX`. One loop looks whether a key is there, and only if none is, a
second one sets the pairs through the handler of `SET`, which leaves its own reply each
time. Both loops meet the same pairs, so either nothing happens or every key gets the value
of its last pair.
-/

import PseudoRedis.Commands.StringEffects
import PseudoRedis.Bits

namespace PseudoRedis

/-! ### Pairs -/

/-- The pairs of an argument list. -/
def argPairs : List Bss → List (Bss × Bss)
  | key :: val :: rest => (key, val) :: argPairs rest
  | _ => []

/-- The value of the last pair with this key. -/
def lastVal (args : List Bss) (key : Bss) : Option Bss :=
  ((argPairs args).reverse.find? fun pair => pair.1.content == key.content).map Prod.snd

theorem lastVal_cons (first val : Bss) (rest : List Bss) (key : Bss) :
    lastVal (first :: val :: rest) key =
      (lastVal rest key).or (if first.content = key.content then some val else none) := by
  rw [lastVal, argPairs, List.reverse_cons, List.find?_append, lastVal, Option.map_or]
  congr 1
  rw [List.find?_singleton]
  by_cases same : first.content = key.content
  · rw [if_pos same, if_pos (beq_iff_eq.mpr same)]
    rfl
  · rw [if_neg same, if_neg (mt beq_iff_eq.mp same)]
    rfl

/-- A key has a last value exactly if one of the pairs gives it one. -/
theorem lastVal_eq_none_iff {args : List Bss} {key : Bss} :
    lastVal args key = none ↔ ∀ pair ∈ argPairs args, pair.1.content ≠ key.content := by
  rw [lastVal, Option.map_eq_none_iff, List.find?_eq_none]
  simp only [List.mem_reverse, beq_iff_eq, ne_eq]

variable {dict : Dict Obj} {args : List Bss} {key : Bss}

theorem anyExists_iff : anyExists dict args = true ↔
    ∃ pair ∈ argPairs args, dictLookUp dict pair.1 ≠ none := by
  induction args using argPairs.induct with
  | case1 first val rest inductionHypothesis =>
    rw [anyExists, Bool.or_eq_true, inductionHypothesis, argPairs, Option.isSome_iff_ne_none]
    simp only [List.mem_cons, or_and_right, exists_or, exists_eq_left]
  | case2 args other =>
    rw [anyExists, argPairs]
    · simp
    · exact other
    · exact other

/-- Setting pairs gives every key its last value and leaves the others alone. -/
theorem lookUp_addPairs (placed : dict.Placed) (short : ∀ arg ∈ args, arg.Short)
    (keyShort : key.Short) :
    dictLookUp (addPairs dict args) key =
      ((lastVal args key).map Obj.string).or (dictLookUp dict key) := by
  induction dict, args using addPairs.induct with
  | case1 dict first val rest inductionHypothesis =>
    have firstShort := short first List.mem_cons_self
    rw [addPairs, inductionHypothesis (dictAdd_placed placed firstShort _) fun arg member =>
      short arg (List.mem_cons_of_mem _ (List.mem_cons_of_mem _ member)), lastVal_cons,
      Option.map_or, Option.or_assoc]
    congr 1
    by_cases same : first.content = key.content
    · have added : dictLookUp (dictAdd dict first (.string val)) first = some (.string val) := by
        rw [lookUp_dictAdd_self placed.sized]
        cases dictLookUp dict first <;> rfl
      rw [if_pos same]
      exact (lookUp_of_content (dictAdd_placed placed firstShort _) firstShort keyShort
        same.symm).trans added
    · rw [if_neg same]
      exact lookUp_dictAdd_of_ne placed firstShort keyShort _ (Ne.symm same)
  | case2 args dict other =>
    have nothing : lastVal args key = none := by
      rw [lastVal, argPairs]
      · rfl
      · exact other
    rw [nothing, addPairs]
    · rfl
    · exact other

/-! ### The command -/

/-- Every key of the pairs has the value of its last pair, and every other key what it had. -/
structure SetsAll (dict : Dict Obj) (args : List Bss) (dict' : Dict Obj) : Prop where
  given : ∀ pair ∈ argPairs args, ∃ val, lastVal args pair.1 = some val ∧
    dictLookUp dict' pair.1 = some (.string val)
  others : ∀ key : Bss, key.Short → (∀ pair ∈ argPairs args, pair.1.content ≠ key.content) →
    dictLookUp dict' key = dictLookUp dict key

theorem mem_of_mem_argPairs {pair : Bss × Bss} (member : pair ∈ argPairs args) : pair.1 ∈ args := by
  induction args using argPairs.induct with
  | case1 first val rest inductionHypothesis =>
    rw [argPairs] at member
    rcases List.mem_cons.mp member with rfl | later
    · exact List.mem_cons_self
    · exact List.mem_cons_of_mem _ (List.mem_cons_of_mem _ (inductionHypothesis later))
  | case2 args other =>
    rw [argPairs] at member
    · cases member
    · exact other

theorem addPairs_setsAll (placed : dict.Placed) (short : ∀ arg ∈ args, arg.Short) :
    SetsAll dict args (addPairs dict args) := by
  refine ⟨fun pair member => ?_, fun key keyShort other => ?_⟩
  · have pairShort := short pair.1 (mem_of_mem_argPairs member)
    obtain ⟨val, last⟩ : ∃ val, lastVal args pair.1 = some val :=
      Option.ne_none_iff_exists'.mp fun none => lastVal_eq_none_iff.mp none pair member rfl
    refine ⟨val, last, ?_⟩
    rw [lookUp_addPairs placed short pairShort, last]
    rfl
  · rw [lookUp_addPairs placed short keyShort, lastVal_eq_none_iff.mpr other]
    rfl

/-- `MSETNX` with a key that is there replies 0 and changes nothing; otherwise it replies 1 and sets
every key to the value of its last pair. -/
theorem msetnx_all_or_nothing (placed : dict.Placed) (pair : 2 ≤ args.length)
    (even : args.length % 2 = 0) (short : ∀ arg ∈ args, arg.Short) :
    ((∃ pair ∈ argPairs args, dictLookUp dict pair.1 ≠ none) →
      msetnxCommand dict args = intReply dict 0) ∧
    ((∀ pair ∈ argPairs args, dictLookUp dict pair.1 = none) →
      ∃ dict', msetnxCommand dict args = intReply dict' 1 ∧ SetsAll dict args dict') := by
  have accepted : ¬ (args.length < 2 ∨ args.length % 2 ≠ 0) := by omega
  rw [msetnxCommand, if_neg accepted]
  constructor
  · intro present
    rw [if_pos (anyExists_iff.mpr present)]
    rfl
  · intro absent
    have free : ¬ anyExists dict args = true := by
      rw [anyExists_iff]
      rintro ⟨pair, member, present⟩
      exact present (absent pair member)
    rw [if_neg free, setPairs_true]
    exact ⟨addPairs dict args, rfl, addPairs_setsAll placed short⟩

/-- `MSETNX a x a y` on a key space with another key. -/
theorem msetnx_all_or_nothing_twice :
    ∃ dict', msetnxCommand letterKey [textArg 3 "a", textArg 4 "x", textArg 5 "a", textArg 6 "y"] =
        intReply dict' 1 ∧
      SetsAll letterKey [textArg 3 "a", textArg 4 "x", textArg 5 "a", textArg 6 "y"] dict' := by
  refine (msetnx_all_or_nothing letterKey_wellFormed.toPlaced (by decide) (by decide) ?_).2 ?_
  · simp only [List.forall_mem_cons]
    exact ⟨(textArg_arg _ (by decide)).short, (textArg_arg _ (by decide)).short,
      (textArg_arg _ (by decide)).short, (textArg_arg _ (by decide)).short,
      fun _ member => by cases member⟩
  · simp only [argPairs, List.forall_mem_cons]
    exact ⟨rfl, rfl, fun _ member => by cases member⟩

end PseudoRedis

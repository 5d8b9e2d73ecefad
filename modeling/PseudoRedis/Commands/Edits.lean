/-
This file says what a handler can make of the key space: whatever run returns, the
dictionary it leaves comes from the one it was given by additions, assignments and
removals (`Edits`), which is what keeps the count of entries right. The one exception is
`RENAME`, which links an entry in again without counting it. A set that an edit puts into
the key space has members, unless a call takes the last one out and leaves the set.

A handler is read with rules for what it returns (`Run.Ends`), one for each way to end.
-/

import PseudoRedis.Commands.Summary

namespace PseudoRedis

/-! ### What a run leaves -/

section Rules

variable {V W : Type} {P : Dict V → Prop} {dict : Dict V}

/-- Whenever the run returns, the dictionary it leaves has the property. -/
def Run.Ends (run : Run V) (P : Dict V → Prop) : Prop :=
  ∀ sh result, run sh = .ok result → P result.dict

theorem ends_returning (holds : P dict) (ret : Int) : (returning dict ret).Ends P := by
  intro sh result ran
  cases ran
  exact holds

theorem ends_replying (holds : P dict) (call : Shared → Shared × Int) :
    (replying dict call).Ends P := by
  intro sh result ran
  cases ran
  exact holds

theorem ends_int (holds : P dict) (n : Int) : (intReply dict n).Ends P := ends_replying holds _

theorem ends_ok (holds : P dict) : (okReply dict).Ends P := ends_replying holds _

theorem ends_nil (holds : P dict) : (nilReply dict).Ends P := ends_replying holds _

theorem ends_type (holds : P dict) (n : UInt8) : (typeReply dict n).Ends P :=
  ends_replying holds _

theorem ends_fault (stop : Fault) : (fault stop : Run V).Ends P := by
  intro sh result ran
  cases ran

theorem ends_nullEntry : (nullEntry : Run V).Ends P := by
  intro sh result ran
  cases ran

theorem ends_freedTwice : (freedTwice : Run V).Ends P := by
  intro sh result ran
  cases ran

theorem ends_string (holds : P dict) (s : Bytes) (len : Nat) :
    (stringReply dict s len).Ends P := by
  intro sh result ran
  rw [stringReply] at ran
  split at ran
  · cases ran
  · cases ran
    exact holds

theorem ends_fail (holds : P dict) (s : String) : (failReply dict s).Ends P := by
  intro sh result ran
  rw [failReply] at ran
  split at ran
  · cases ran
  · cases ran
    exact holds

theorem ends_array (env : Env) (type : UInt8) (holds : P dict) :
    (arrayReply env type dict).Ends P := by
  intro sh result ran
  rw [arrayReply] at ran
  split at ran
  · cases ran
  · cases ran
    exact holds

theorem ends_fill (env : Env) (holds : P dict) (fill : Shared → Shared × Int) :
    (fillReply env dict fill).Ends P := by
  intro sh result ran
  rw [fillReply] at ran
  split at ran
  split at ran
  · exact ends_fail holds tooLong _ result ran
  · exact ends_array env rplyArr holds _ result ran

/-- A run on an inner dictionary. -/
theorem ends_within {Q : Dict W → Prop} {run : Run W} (inner : run.Ends Q)
    {wrap : Dict W → Dict V} (holds : ∀ dict, Q dict → P (wrap dict)) :
    (run.within wrap).Ends P := by
  intro sh result ran
  rw [Run.within] at ran
  split at ran
  · cases ran
  · rename_i left before
    cases ran
    exact holds _ (inner sh left before)

theorem ends_any (run : Run V) : run.Ends fun _ => True := fun _ _ _ => trivial

/-- A run that goes on with what another one left. -/
theorem ends_andThen {run : Run V} {next : Result V → Run V} {Q : Dict V → Prop}
    (first : run.Ends Q) (second : ∀ result, Q result.dict → (next result).Ends P) :
    (run.andThen next).Ends P := by
  intro sh last ran
  rw [Run.andThen] at ran
  split at ran
  · cases ran
  · rename_i result before
    exact second result (first sh result before) _ last ran

/-- A run on a reply state that was edited before. -/
theorem ends_after {run : Run V} (ends : run.Ends P) (edit : Shared → Shared) :
    Run.Ends (fun sh => run (edit sh)) P :=
  fun sh result ran => ends (edit sh) result ran

end Rules

/-! ### Edits -/

section Edits

variable {V : Type} [DictVal V] {ok : V → Prop} {dict dict' : Dict V}

/-- The dictionaries that additions, assignments and removals lead to, where the values that are
added or assigned have a property. -/
inductive Edits (ok : V → Prop) (dict : Dict V) : Dict V → Prop
  | start : Edits ok dict dict
  | add {dict' : Dict V} (before : Edits ok dict dict') (key : Bss) {obj : V} (fine : ok obj) :
      Edits ok dict (dictAdd dict' key obj)
  | assign {dict' : Dict V} (before : Edits ok dict dict') (key : Bss) {obj : V} (fine : ok obj) :
      Edits ok dict (dictSetVal dict' key obj)
  | remove {dict' : Dict V} (before : Edits ok dict dict') (key : Bss) :
      Edits ok dict (dictRmNf dict' key).1

theorem Edits.rm (before : Edits ok dict dict') (key : Bss) :
    Edits ok dict (dictRm dict' key).1 := by
  rw [dictRm_fst]
  exact before.remove key

theorem Edits.delKeys (before : Edits ok dict dict') (keys : List Bss) :
    Edits ok dict (delKeys dict' keys).1 := by
  induction keys generalizing dict' with
  | nil => exact before
  | cons key rest inductionHypothesis => exact inductionHypothesis (before.rm key)

theorem Edits.sized (edits : Edits ok dict dict') (sized : dict.Sized) : dict'.Sized := by
  induction edits with
  | start => exact sized
  | add before key fine inductionHypothesis => exact dictAdd_sized inductionHypothesis key _
  | assign before key fine inductionHypothesis => exact dictSetVal_sized inductionHypothesis key _
  | remove before key inductionHypothesis => exact dictRmNf_sized inductionHypothesis key

/-- Edits keep the count of a dictionary in step with its entries. -/
theorem Edits.count (edits : Edits ok dict dict') (sized : dict.Sized) :
    dict'.entryNum - dict'.entries.length = dict.entryNum - dict.entries.length := by
  induction edits with
  | start => rfl
  | @add dict' before key obj fine inductionHypothesis =>
    rw [← inductionHypothesis]
    cases answer : dictLookUp dict' key with
    | none =>
      obtain ⟨others, same, found, count⟩ :=
        (absent_of_lookUp (before.sized sized) answer).add obj
      rw [count, found.entries.length_eq, List.length_cons, same.length_eq]
      omega
    | some val =>
      obtain ⟨entry, others, -, found⟩ := found_of_lookUp (before.sized sized) answer
      rw [found.add_entryNum, (found.add obj).entries.length_eq, found.entries.length_eq]
      rfl
  | @assign dict' before key obj fine inductionHypothesis =>
    rw [← inductionHypothesis]
    cases answer : dictLookUp dict' key with
    | none =>
      simp only [dictSetVal, (absent_of_lookUp (before.sized sized) answer).iter]
    | some val =>
      obtain ⟨entry, others, -, found⟩ := found_of_lookUp (before.sized sized) answer
      rw [found.setVal_entryNum, (found.setVal obj).entries.length_eq, found.entries.length_eq]
      rfl
  | @remove dict' before key inductionHypothesis =>
    rw [← inductionHypothesis]
    cases answer : dictLookUp dict' key with
    | none => rw [(absent_of_lookUp (before.sized sized) answer).rmNf]
    | some val =>
      obtain ⟨entry, others, -, found⟩ := found_of_lookUp (before.sized sized) answer
      obtain ⟨-, left, count⟩ := found.rmNf
      rw [count, left.length_eq, found.entries.length_eq, List.length_cons]
      omega

/-- Edits keep a property of all values that the new ones have. -/
theorem Edits.vals (edits : Edits ok dict dict') (sized : dict.Sized)
    (all : ∀ entry ∈ dict.entries, ok entry.val) : ∀ entry ∈ dict'.entries, ok entry.val := by
  induction edits with
  | start => exact all
  | @add dict' before key obj fine inductionHypothesis =>
    intro other member
    cases answer : dictLookUp dict' key with
    | none =>
      obtain ⟨others, same, found, -⟩ := (absent_of_lookUp (before.sized sized) answer).add obj
      rcases List.mem_cons.mp (found.entries.mem_iff.mp member) with rfl | old
      · exact fine
      · exact inductionHypothesis other (same.mem_iff.mp old)
    | some val =>
      obtain ⟨entry, others, -, found⟩ := found_of_lookUp (before.sized sized) answer
      rcases List.mem_cons.mp ((found.add obj).entries.mem_iff.mp member) with rfl | old
      · show ok (if _ then _ else _)
        split
        · exact inductionHypothesis entry (found.entries.mem_iff.mpr List.mem_cons_self)
        · exact fine
      · exact inductionHypothesis other (found.entries.mem_iff.mpr (List.mem_cons_of_mem _ old))
  | @assign dict' before key obj fine inductionHypothesis =>
    intro other member
    cases answer : dictLookUp dict' key with
    | none =>
      rw [dictSetVal, (absent_of_lookUp (before.sized sized) answer).iter] at member
      exact inductionHypothesis other member
    | some val =>
      obtain ⟨entry, others, -, found⟩ := found_of_lookUp (before.sized sized) answer
      rcases List.mem_cons.mp ((found.setVal obj).entries.mem_iff.mp member) with rfl | old
      · exact fine
      · exact inductionHypothesis other (found.entries.mem_iff.mpr (List.mem_cons_of_mem _ old))
  | @remove dict' before key inductionHypothesis =>
    intro other member
    cases answer : dictLookUp dict' key with
    | none =>
      rw [(absent_of_lookUp (before.sized sized) answer).rmNf] at member
      exact inductionHypothesis other member
    | some val =>
      obtain ⟨entry, others, -, found⟩ := found_of_lookUp (before.sized sized) answer
      have old := found.rmNf.2.1.mem_iff.mp member
      exact inductionHypothesis other (found.entries.mem_iff.mpr (List.mem_cons_of_mem _ old))

end Edits

/-! ### Handlers of keys and strings -/

/-- A set has members. -/
def Obj.Filled : Obj → Prop
  | .set dict => dict.entries ≠ []
  | _ => True

/-- What a handler can make of the key space. -/
def Edited (dict dict' : Dict Obj) : Prop := Edits Obj.Filled dict dict'

variable {env : Env} {dict : Dict Obj}

theorem edited_refl (dict : Dict Obj) : Edited dict dict := Edits.start

theorem edited_add (key bss : Bss) : Edited dict (dictAdd dict key (.string bss)) :=
  Edits.add .start key trivial

theorem edited_assign (key bss : Bss) : Edited dict (dictSetVal dict key (.string bss)) :=
  Edits.assign .start key trivial

theorem delCommand_ends (args : List Bss) : (delCommand dict args).Ends (Edited dict) := by
  have deleted : Edited dict (delKeys dict args).1 := (edited_refl dict).delKeys args
  unfold delCommand delCommandOn
  split
  · exact ends_fail (edited_refl dict) numArgs
  · exact ends_int deleted _

theorem existsCommand_ends (args : List Bss) : (existsCommand dict args).Ends (Edited dict) := by
  unfold existsCommand existsCommandOn
  split
  · split
    · exact ends_int (edited_refl dict) 0
    · exact ends_int (edited_refl dict) 1
  · exact ends_fail (edited_refl dict) numArgs

theorem randomkeyCommand_ends (args : List Bss) :
    (randomkeyCommand env dict args).Ends (Edited dict) := by
  unfold randomkeyCommand randomkeyCommandOn
  split
  · split
    · exact ends_nil (edited_refl dict)
    · split
      · exact ends_fault _
      · exact ends_string (edited_refl dict) _ _
  · exact ends_fail (edited_refl dict) numArgs

theorem keysCommand_ends (args : List Bss) : (keysCommand env dict args).Ends (Edited dict) := by
  unfold keysCommand
  split
  · exact ends_fill env (edited_refl dict) _
  · exact ends_fail (edited_refl dict) numArgs

theorem typeCommand_ends (args : List Bss) : (typeCommand dict args).Ends (Edited dict) := by
  unfold typeCommand
  split
  · exact ends_type (edited_refl dict) _
  · exact ends_fail (edited_refl dict) numArgs

theorem getCommand_ends (args : List Bss) : (getCommand dict args).Ends (Edited dict) := by
  unfold getCommand getCommandOn
  split
  · split
    · split
      · exact ends_string (edited_refl dict) _ _
      · exact ends_fail (edited_refl dict) wrongType
    · exact ends_nil (edited_refl dict)
  · exact ends_fail (edited_refl dict) numArgs

theorem setCommand_ends (args : List Bss) : (setCommand dict args).Ends (Edited dict) := by
  unfold setCommand setCommandOn
  split
  · exact ends_ok (edited_add _ _)
  · exact ends_fail (edited_refl dict) numArgs

theorem setnxCommand_ends (args : List Bss) : (setnxCommand dict args).Ends (Edited dict) := by
  unfold setnxCommand setnxCommandOn
  split
  · split
    · exact ends_int (edited_refl dict) 0
    · exact setCommand_ends _
  · exact ends_fail (edited_refl dict) numArgs

theorem mgetCommand_ends (args : List Bss) : (mgetCommand env dict args).Ends (Edited dict) := by
  unfold mgetCommand mgetCommandOn
  split
  · exact ends_fail (edited_refl dict) numArgs
  · exact ends_fill env (edited_refl dict) _

theorem setPairs_ends {start : Dict Obj} (args : List Bss) (before : Edited start dict) :
    (setPairs trueReply args dict).Ends (Edited start) := by
  induction dict, args using addPairs.induct with
  | case1 dict key val rest inductionHypothesis =>
    have set : Edited start (dictAdd dict key (.string val)) := Edits.add before key trivial
    rw [setPairs]
    refine ends_andThen (Q := (· = dictAdd dict key (.string val))) (ends_ok rfl) ?_
    rintro result same
    split
    · exact ends_returning (same ▸ set) _
    · rw [same]
      exact inductionHypothesis set
  | case2 args dict other =>
    rw [setPairs]
    · exact ends_int before 1
    · exact other

theorem msetnxCommand_ends (args : List Bss) : (msetnxCommand dict args).Ends (Edited dict) := by
  unfold msetnxCommand
  split
  · exact ends_fail (edited_refl dict) numArgs
  · split
    · exact ends_int (edited_refl dict) 0
    · exact setPairs_ends args (edited_refl dict)

theorem decrbyincrby_ends (env : Env) (type : Int) (args : List Bss) :
    (decrbyincrbyCommandOn env type dict args).Ends (Edited dict) := by
  unfold decrbyincrbyCommandOn
  split
  · simp only
    split
    · exact ends_fail (edited_refl dict) invInt
    · split
      · split
        · split
          · exact ends_fault _
          · exact ends_int (edited_add _ _) _
        · exact ends_int (edited_add _ _) _
      · split
        · exact ends_fail (edited_refl dict) wrongType
        · split
          · exact ends_fail (edited_refl dict) invInt
          · split
            · exact ends_fault _
            · split
              · exact ends_fail (edited_refl dict) invInt
              · exact ends_int (edited_assign _ _) _
  · exact ends_fail (edited_refl dict) numArgs

theorem incrCommand_ends (args : List Bss) : (incrCommand env dict args).Ends (Edited dict) := by
  unfold incrCommand
  split
  · rename_i key
    exact decrbyincrby_ends env.next posOp [key, bssCreate env env.fresh (bytes "1")]
  · exact ends_fail (edited_refl dict) numArgs

theorem decrCommand_ends (args : List Bss) : (decrCommand env dict args).Ends (Edited dict) := by
  unfold decrCommand
  split
  · rename_i key
    exact decrbyincrby_ends env.next negOp [key, bssCreate env env.fresh (bytes "1")]
  · exact ends_fail (edited_refl dict) numArgs

theorem incrbyfloatCommand_ends (args : List Bss) :
    (incrbyfloatCommand env dict args).Ends (Edited dict) := by
  unfold incrbyfloatCommand incrbyfloatCommandOn
  split
  · simp only
    split
    · exact ends_fail (edited_refl dict) invFlt
    · split
      · split
        · exact ends_fault _
        · exact ends_string (edited_add _ _) _ _
      · split
        · exact ends_fail (edited_refl dict) wrongType
        · split
          · exact ends_fail (edited_refl dict) invFlt
          · split
            · exact ends_fault _
            · exact ends_fault _
            · split
              · exact ends_fault _
              · exact ends_string (edited_assign _ _) _ _
  · exact ends_fail (edited_refl dict) numArgs

theorem strlenCommand_ends (args : List Bss) : (strlenCommand dict args).Ends (Edited dict) := by
  unfold strlenCommand
  split
  · split
    · exact ends_int (edited_refl dict) 0
    · exact ends_int (edited_refl dict) _
    · exact ends_fail (edited_refl dict) wrongType
  · exact ends_fail (edited_refl dict) numArgs

theorem appendCommand_ends (args : List Bss) : (appendCommand dict args).Ends (Edited dict) := by
  unfold appendCommand
  split
  · split
    · exact ends_int (edited_add _ _) _
    · split
      · exact ends_fault _
      · exact ends_fault _
      · exact ends_int (edited_assign _ _) _
    · exact ends_fail (edited_refl dict) wrongType
  · exact ends_fail (edited_refl dict) numArgs

theorem getbitCommand_ends (args : List Bss) : (getbitCommand dict args).Ends (Edited dict) := by
  unfold getbitCommand
  split
  · simp only
    split
    · exact ends_fail (edited_refl dict) invOffset
    · split
      · exact ends_int (edited_refl dict) 0
      · split
        · exact ends_fault _
        · exact ends_int (edited_refl dict) _
      · exact ends_fail (edited_refl dict) wrongType
  · exact ends_fail (edited_refl dict) numArgs

theorem setbitCommand_ends (args : List Bss) :
    (setbitCommand env dict args).Ends (Edited dict) := by
  unfold setbitCommand
  split
  · simp only
    split
    · exact ends_fail (edited_refl dict) invOffset
    · split
      · exact ends_fail (edited_refl dict) invSynx
      · split
        · split
          · exact ends_fault _
          · exact ends_fail (edited_refl dict) memOut
          · exact ends_int (edited_add _ _) 0
        · split
          · exact ends_fault _
          · exact ends_fault _
          · exact ends_fail (edited_refl dict) memOut
          · exact ends_int (edited_assign _ _) _
        · exact ends_fail (edited_refl dict) wrongType
  · exact ends_fail (edited_refl dict) numArgs

theorem bitcountCommand_ends (args : List Bss) :
    (bitcountCommand dict args).Ends (Edited dict) := by
  unfold bitcountCommand
  split
  · split
    · exact ends_int (edited_refl dict) 0
    · split
      · exact ends_fault _
      · exact ends_int (edited_refl dict) _
    · exact ends_fail (edited_refl dict) wrongType
  · exact ends_fail (edited_refl dict) numArgs

theorem setrangeCommand_ends (args : List Bss) :
    (setrangeCommand env dict args).Ends (Edited dict) := by
  unfold setrangeCommand
  split
  · simp only
    split
    · exact ends_fail (edited_refl dict) invOffset
    · split
      · split
        · exact ends_fault _
        · exact ends_fail (edited_refl dict) memOut
        · exact ends_int (edited_add _ _) _
      · split
        · exact ends_fault _
        · exact ends_fail (edited_refl dict) memOut
        · exact ends_int (edited_assign _ _) _
      · exact ends_fail (edited_refl dict) wrongType
  · exact ends_fail (edited_refl dict) numArgs

theorem getrangeCommand_ends (args : List Bss) :
    (getrangeCommand dict args).Ends (Edited dict) := by
  unfold getrangeCommand
  split
  · simp only
    split
    · exact ends_fail (edited_refl dict) invInt
    · split
      · exact ends_string (edited_refl dict) _ _
      · split
        · exact ends_string (edited_refl dict) _ _
        · split
          · exact ends_string (edited_refl dict) _ _
          · split
            · exact ends_string (edited_refl dict) _ _
            · exact ends_string (edited_refl dict) _ _
      · exact ends_fail (edited_refl dict) wrongType
  · exact ends_fail (edited_refl dict) numArgs

/-! ### Handlers of hashes -/

/-- A run on a hash that is put back under its key. -/
theorem ends_putBack {start : Dict Obj} (before : Edited start dict) (key : Bss)
    (run : Run Bss) : (run.within (putBack Kind.hash dict key)).Ends (Edited start) := by
  refine ends_within (ends_any run) fun inner _ => ?_
  exact Edits.assign before key trivial

theorem edited_addHash (key : Bss) : Edited dict (addHash dict key) :=
  Edits.add .start key trivial

theorem hlenCommand_ends (args : List Bss) : (hlenCommand dict args).Ends (Edited dict) := by
  unfold hlenCommand
  split
  · split
    · exact ends_int (edited_refl dict) 0
    · exact ends_int (edited_refl dict) _
    · exact ends_fail (edited_refl dict) wrongType
  · exact ends_fail (edited_refl dict) numArgs

theorem hexistsCommand_ends (args : List Bss) :
    (hexistsCommand dict args).Ends (Edited dict) := by
  unfold hexistsCommand
  split
  · split
    · exact ends_int (edited_refl dict) 0
    · exact ends_within (ends_any _) fun _ _ => edited_refl dict
    · exact ends_fail (edited_refl dict) wrongType
  · exact ends_fail (edited_refl dict) numArgs

theorem hmgetCommand_ends (args : List Bss) :
    (hmgetCommand env dict args).Ends (Edited dict) := by
  unfold hmgetCommand
  split
  · split
    · exact ends_fill env (edited_refl dict) _
    · exact ends_within (ends_any _) fun _ _ => edited_refl dict
    · exact ends_fail (edited_refl dict) wrongType
  · exact ends_fail (edited_refl dict) numArgs

theorem hgetCommand_ends (args : List Bss) : (hgetCommand dict args).Ends (Edited dict) := by
  unfold hgetCommand
  split
  · split
    · exact ends_nil (edited_refl dict)
    · exact ends_within (ends_any _) fun _ _ => edited_refl dict
    · exact ends_fail (edited_refl dict) wrongType
  · exact ends_fail (edited_refl dict) numArgs

theorem hgetallCommand_ends (args : List Bss) :
    (hgetallCommand env dict args).Ends (Edited dict) := by
  unfold hgetallCommand
  split
  · split
    · exact ends_fill env (edited_refl dict) _
    · exact ends_fill env (edited_refl dict) _
    · exact ends_after (ends_fail (edited_refl dict) wrongType) _
  · exact ends_fail (edited_refl dict) numArgs

theorem hvalsCommand_ends (args : List Bss) :
    (hvalsCommand env dict args).Ends (Edited dict) := by
  unfold hvalsCommand
  split
  · split
    · exact ends_fill env (edited_refl dict) _
    · exact ends_fill env (edited_refl dict) _
    · exact ends_after (ends_fail (edited_refl dict) wrongType) _
  · exact ends_fail (edited_refl dict) numArgs

theorem hkeyssmembersCommand_ends {W : Type} (kind : Kind W) (args : List Bss) :
    (hkeyssmembersCommand env kind dict args).Ends (Edited dict) := by
  unfold hkeyssmembersCommand
  split
  · split
    · exact ends_fill env (edited_refl dict) _
    · split
      · exact ends_after (ends_fail (edited_refl dict) wrongType) _
      · exact ends_fill env (edited_refl dict) _
  · exact ends_fail (edited_refl dict) numArgs

theorem hincrbyCommand_ends (args : List Bss) :
    (hincrbyCommand env dict args).Ends (Edited dict) := by
  unfold hincrbyCommand
  split
  · split
    · exact ends_putBack (edited_addHash _) _ _
    · exact ends_putBack (edited_refl dict) _ _
    · exact ends_fail (edited_refl dict) wrongType
  · exact ends_fail (edited_refl dict) numArgs

theorem hincrbyfloatCommand_ends (args : List Bss) :
    (hincrbyfloatCommand env dict args).Ends (Edited dict) := by
  unfold hincrbyfloatCommand
  split
  · split
    · exact ends_putBack (edited_addHash _) _ _
    · exact ends_putBack (edited_refl dict) _ _
    · exact ends_fail (edited_refl dict) wrongType
  · exact ends_fail (edited_refl dict) numArgs

theorem hsetCommand_ends (args : List Bss) : (hsetCommand dict args).Ends (Edited dict) := by
  unfold hsetCommand
  split
  · split
    · exact ends_andThen (ends_putBack (edited_addHash _) _ _) fun _ edited => ends_int edited 1
    · refine ends_andThen (ends_putBack (edited_refl dict) _ _) fun result edited => ?_
      split
      · exact ends_int edited 0
      · exact ends_int edited 1
    · exact ends_fail (edited_refl dict) wrongType
  · exact ends_fail (edited_refl dict) numArgs

theorem hsetnxCommand_ends (args : List Bss) :
    (hsetnxCommand dict args).Ends (Edited dict) := by
  unfold hsetnxCommand
  split
  · split
    · exact ends_andThen (ends_putBack (edited_addHash _) _ _) fun _ edited => ends_int edited 1
    · split
      · exact ends_putBack (edited_refl dict) _ _
      · exact ends_int (edited_refl dict) 0
    · exact ends_fail (edited_refl dict) wrongType
  · exact ends_fail (edited_refl dict) numArgs

theorem hmsetCommand_ends (args : List Bss) : (hmsetCommand dict args).Ends (Edited dict) := by
  unfold hmsetCommand
  split
  · exact ends_fail (edited_refl dict) numArgs
  · split
    · exact ends_fail (edited_refl dict) numArgs
    · split
      · exact ends_putBack (edited_addHash _) _ _
      · exact ends_putBack (edited_refl dict) _ _
      · exact ends_fail (edited_refl dict) wrongType

/-! ### Handlers of lists -/

theorem edited_putList {start : Dict Obj} (before : Edited start dict) (key removed : Bss)
    (entries : List Bss) : Edited start (putList dict key removed entries) := by
  have assigned : Edited start (dictSetVal dict key (.list entries)) :=
    Edits.assign before key trivial
  unfold putList
  split
  · exact assigned.rm removed
  · exact assigned

theorem lpushrpushCommand_ends (side : End) (args : List Bss) :
    (lpushrpushCommand side dict args).Ends (Edited dict) := by
  unfold lpushrpushCommand
  split
  · split
    · exact ends_int (Edits.add .start _ trivial) _
    · exact ends_int (Edits.assign .start _ trivial) _
    · exact ends_fail (edited_refl dict) wrongType
  · exact ends_fail (edited_refl dict) numArgs

theorem lpoprpopCommand_ends (side : End) (args : List Bss) :
    (lpoprpopCommand side dict args).Ends (Edited dict) := by
  unfold lpoprpopCommand
  split
  · split
    · exact ends_nil (edited_refl dict)
    · split
      · exact ends_nullEntry
      · exact ends_string (edited_putList (edited_refl dict) _ _ _) _ _
    · exact ends_fail (edited_refl dict) wrongType
  · exact ends_fail (edited_refl dict) numArgs

theorem rpoplpush_ends {src dst : Bss} {blocked : Run Obj} {finish : Dict Obj → Bss → Run Obj}
    (waits : blocked.Ends (Edited dict))
    (goesOn : ∀ dict' entry, Edited dict dict' → (finish dict' entry).Ends (Edited dict)) :
    (rpoplpush dict src dst blocked finish).Ends (Edited dict) := by
  unfold rpoplpush
  split
  · exact waits
  · split
    · exact ends_nullEntry
    · rename_i entry entries _
      have popped : Edited dict (putList dict src src entries) :=
        edited_putList (edited_refl dict) src src entries
      split
      · exact goesOn _ _ (Edits.add popped dst trivial)
      · exact goesOn _ _ (Edits.assign popped dst trivial)
      · exact ends_freedTwice
  · exact ends_fail (edited_refl dict) wrongType

theorem rpoplpushCommand_ends (args : List Bss) :
    (rpoplpushCommand dict args).Ends (Edited dict) := by
  unfold rpoplpushCommand
  split
  · exact rpoplpush_ends (ends_nil (edited_refl dict)) fun _ _ edited => ends_string edited _ _
  · exact ends_fail (edited_refl dict) numArgs

theorem ends_leaving {P : Dict Obj → Prop} (holds : P dict) (elems : List Elem) (ret : Int) :
    (leaving dict elems ret).Ends P := by
  intro sh result ran
  cases ran
  exact holds

theorem brpoplpushCommand_ends (args : List Bss) :
    (brpoplpushCommand env dict args).Ends (Edited dict) := by
  unfold brpoplpushCommand
  split
  · exact rpoplpush_ends (ends_returning (edited_refl dict) _)
      fun _ _ edited => ends_leaving edited _ _
  · exact ends_fail (edited_refl dict) numArgs

theorem blpopbrpopCommand_ends (side : End) (args : List Bss) :
    (blpopbrpopCommand side dict args).Ends (Edited dict) := by
  unfold blpopbrpopCommand
  split
  · exact ends_fail (edited_refl dict) numArgs
  · split
    · exact ends_leaving (edited_refl dict) _ _
    · split
      · exact ends_nullEntry
      · exact ends_leaving (edited_putList (edited_refl dict) _ _ _) _ _
    · exact ends_fail (edited_refl dict) wrongType

theorem llenCommand_ends (args : List Bss) : (llenCommand dict args).Ends (Edited dict) := by
  unfold llenCommand
  split
  · split
    · exact ends_int (edited_refl dict) 0
    · exact ends_int (edited_refl dict) _
    · exact ends_fail (edited_refl dict) wrongType
  · exact ends_fail (edited_refl dict) numArgs

theorem lrangeCommand_ends (args : List Bss) :
    (lrangeCommand env dict args).Ends (Edited dict) := by
  unfold lrangeCommand
  split
  · simp only
    split
    · exact ends_fail (edited_refl dict) invInt
    · split
      · exact ends_fill env (edited_refl dict) _
      · split
        · exact ends_fill env (edited_refl dict) _
        · exact ends_fill env (edited_refl dict) _
      · exact ends_after (ends_fail (edited_refl dict) wrongType) _
  · exact ends_fail (edited_refl dict) numArgs

theorem lindexCommand_ends (args : List Bss) : (lindexCommand dict args).Ends (Edited dict) := by
  unfold lindexCommand
  split
  · simp only
    split
    · exact ends_fail (edited_refl dict) invInt
    · split
      · exact ends_nil (edited_refl dict)
      · split
        · exact ends_nil (edited_refl dict)
        · exact ends_string (edited_refl dict) _ _
      · exact ends_fail (edited_refl dict) wrongType
  · exact ends_fail (edited_refl dict) numArgs

theorem lsetCommand_ends (args : List Bss) : (lsetCommand dict args).Ends (Edited dict) := by
  unfold lsetCommand
  split
  · simp only
    split
    · exact ends_fail (edited_refl dict) invInt
    · split
      · exact ends_nil (edited_refl dict)
      · split
        · exact ends_nil (edited_refl dict)
        · exact ends_string (Edits.assign .start _ trivial) _ _
      · exact ends_fail (edited_refl dict) wrongType
  · exact ends_fail (edited_refl dict) numArgs

theorem lremCommand_ends (args : List Bss) : (lremCommand dict args).Ends (Edited dict) := by
  unfold lremCommand
  split
  · simp only
    split
    · exact ends_fail (edited_refl dict) invInt
    · split
      · exact ends_int (edited_refl dict) 0
      · exact ends_int (edited_putList (edited_refl dict) _ _ _) _
      · exact ends_fail (edited_refl dict) wrongType
  · exact ends_fail (edited_refl dict) numArgs

theorem ltrimCommand_ends (args : List Bss) : (ltrimCommand dict args).Ends (Edited dict) := by
  unfold ltrimCommand
  split
  · simp only
    split
    · exact ends_fail (edited_refl dict) invInt
    · split
      · exact ends_ok (edited_refl dict)
      · split
        · exact ends_ok ((edited_refl dict).rm _)
        · exact ends_ok (Edits.assign .start _ trivial)
      · exact ends_fail (edited_refl dict) wrongType
  · exact ends_fail (edited_refl dict) numArgs

theorem linsertCommand_ends (args : List Bss) :
    (linsertCommand dict args).Ends (Edited dict) := by
  unfold linsertCommand
  split
  · split
    · exact ends_fail (edited_refl dict) invSynx
    · split
      · exact ends_int (edited_refl dict) 0
      · split
        · exact ends_int (edited_refl dict) _
        · exact ends_int (Edits.assign .start _ trivial) _
      · exact ends_fail (edited_refl dict) wrongType
  · exact ends_fail (edited_refl dict) numArgs

/-! ### Handlers of sets -/

variable {args : List Bss}

theorem filled_of_lookUp (filled : ∀ entry ∈ dict.entries, entry.val.Filled)
    (sized : dict.Sized) {key : Bss} {set : Dict Unit}
    (answer : dictLookUp dict key = some (.set set)) : set.entries ≠ [] := by
  obtain ⟨entry, others, same, found⟩ := found_of_lookUp sized answer
  have full := filled entry (found.entries.mem_iff.mpr List.mem_cons_self)
  rw [same] at full
  exact full

theorem edited_set {start : Dict Obj} (before : Edited start dict) (key : Bss) {set : Dict Unit}
    (some : set.entries ≠ []) : Edited start (putBack Kind.set dict key set) :=
  Edits.assign before key some

/-- The key is removed with the last of its members or fields. -/
theorem hdelsremCommand_ends {W : Type} [Store W] {kind : Kind W} (lawful : kind.Lawful)
    (sound : Sound True dict) (args : List Bss)
    (filled : ∀ inner : Dict W, inner.entries ≠ [] → (kind.wrap inner).Filled) :
    (hdelsremCommand kind dict args).Ends (Edited dict) := by
  unfold hdelsremCommand
  split
  · rename_i key first rest
    split
    · exact ends_int (edited_refl dict) 0
    · rename_i valObj answer
      split
      · exact ends_fail (edited_refl dict) wrongType
      · rename_i ds unwrapped
        rw [lawful.eq_wrap unwrapped] at answer
        have deleted := delKeys_change (lawful.inner sound answer).1 (first :: rest)
        have counts : (delCommandOn ds (first :: rest)).Ends
            (· = (delKeys ds (first :: rest)).1) :=
          @ends_int _ (· = (delKeys ds (first :: rest)).1) _ rfl _
        refine ends_within counts fun left same => ?_
        subst same
        split
        · rw [dictRm_fst, putBack, dictRmNf_dictSetVal sound.placed.sized answer]
          exact Edits.remove .start key
        · rename_i some
          exact Edits.assign .start key
            (filled _ (entries_of_count deleted.sound lawful.counted some))
  · exact ends_fail (edited_refl dict) numArgs

theorem saddCommand_ends (sound : Sound True dict) (args : List Bss) :
    (saddCommand dict args).Ends (Edited dict) := by
  unfold saddCommand
  split
  · rename_i key first rest
    split
    · have some : (addMembers (dictCreate newDictPow) (first :: rest)).1.entries ≠ [] :=
        entries_addMembers (dictCreate_sized newDictPow_le) (Or.inr (List.cons_ne_nil _ _))
      have added : Edited dict (putBack Kind.set (dictAdd dict key (.set (dictCreate newDictPow)))
          key (addMembers (dictCreate newDictPow) (first :: rest)).1) := by
        rw [show Obj.set (dictCreate newDictPow) = Kind.set.wrap (dictCreate newDictPow) from rfl,
          putBack_add sound]
        exact Edits.add .start key some
      exact ends_int added _
    · rename_i set answer
      have inside := (Kind.set_lawful.inner sound answer).1.placed.sized
      have some : (addMembers set (first :: rest)).1.entries ≠ [] :=
        entries_addMembers inside (Or.inr (List.cons_ne_nil _ _))
      exact ends_int (edited_set (edited_refl dict) key some) _
    · exact ends_fail (edited_refl dict) wrongType
  · exact ends_fail (edited_refl dict) numArgs

/-- A move keeps the source as long as it does not take its only member to another set. -/
theorem smoveCommand_ends (sound : Sound True dict) (given : ∀ arg ∈ args, arg.Arg)
    (several : ¬ emptiesSource dict args) : (smoveCommand dict args).Ends (Edited dict) := by
  unfold smoveCommand
  split
  · rename_i src dst member
    have srcShort := (given src List.mem_cons_self).short
    have dstShort := (given dst (List.mem_cons_of_mem _ List.mem_cons_self)).short
    split
    · exact ends_fail (edited_refl dict) wrongType
    · exact ends_fail (edited_refl dict) wrongType
    · exact ends_fail (edited_refl dict) wrongType
    · exact ends_fail (edited_refl dict) wrongType
    · exact ends_fail (edited_refl dict) wrongType
    · exact ends_fail (edited_refl dict) wrongType
    · exact ends_int (edited_refl dict) 0
    · rename_i srcSet answer _ _ _
      have inside := (Kind.set_lawful.inner sound answer).1
      split
      · exact ends_int (edited_refl dict) 0
      · rename_i left entry taken
        obtain ⟨others, found, -⟩ := found_of_taken inside.placed.sized taken
        have leftSized : left.Sized := by
          have sized := dictRmNf_sized inside.placed.sized member
          rwa [taken] at sized
        split
        · rename_i dstSet target
          by_cases same : dst.content = src.content
          · obtain ⟨rfl, merged⟩ := smove_same sound srcShort dstShort same answer dstSet
              (dictAdd dstSet entry.key ()) target
            split
            · rw [merged]
              exact ends_int (edited_set (edited_refl dict) src
                (entries_dictAdd _ leftSized _ _)) 1
            · rename_i present
              exact ends_int (edited_set (edited_refl dict) src
                (entries_of_lookUp leftSized present)) 1
          · have before : dictLookUp dict dst = some (.set dstSet) := by
              rwa [putBack, lookUp_dictSetVal_of_ne sound.placed srcShort dstShort _ same] at target
            have some : left.entries ≠ [] := by
              have kept := entries_rmNf inside.placed.sized member (fun one => several
                ⟨Ne.symm same, srcSet, dstSet, answer, before, one, by
                  rw [found.lookUp]
                  exact Option.some_ne_none _⟩)
                (entries_of_lookUp inside.placed.sized found.lookUp)
              rwa [taken] at kept
            have moved := edited_set (edited_refl dict) src some
            split
            · have targetSized := (Kind.set_lawful.inner sound before).1.placed.sized
              exact ends_int (edited_set moved dst (entries_dictAdd _ targetSized _ _)) 1
            · exact ends_int moved 1
        · exact ends_fault _
  · exact ends_fail (edited_refl dict) numArgs

theorem scardCommand_ends (args : List Bss) : (scardCommand dict args).Ends (Edited dict) := by
  unfold scardCommand
  split
  · split
    · exact ends_int (edited_refl dict) 0
    · exact ends_int (edited_refl dict) _
    · exact ends_fail (edited_refl dict) wrongType
  · exact ends_fail (edited_refl dict) numArgs

theorem sismemberCommand_ends (args : List Bss) :
    (sismemberCommand dict args).Ends (Edited dict) := by
  unfold sismemberCommand
  split
  · split
    · exact ends_int (edited_refl dict) 0
    · split
      · exact ends_int (edited_refl dict) 0
      · exact ends_int (edited_refl dict) 1
    · exact ends_fail (edited_refl dict) wrongType
  · exact ends_fail (edited_refl dict) numArgs

/-- A member that is popped leaves others, unless it is the only one. -/
theorem spopCommand_ends (sound : Sound True dict)
    (filled : ∀ entry ∈ dict.entries, entry.val.Filled) (several : ¬ emptiesSet dict args) :
    (spopCommand env dict args).Ends (Edited dict) := by
  unfold spopCommand
  split
  · exact ends_returning (edited_refl dict) _
  · rename_i key
    split
    · exact ends_nil (edited_refl dict)
    · rename_i set answer
      have inside := (Kind.set_lawful.inner sound answer).1.placed.sized
      split
      · exact ends_fault _
      · rename_i entry _
        have some : (dictRmNf set entry.key).1.entries ≠ [] :=
          entries_rmNf inside entry.key (fun one => several ⟨set, answer, one⟩)
            (filled_of_lookUp filled sound.placed.sized answer)
        exact ends_andThen (ends_string (edited_set (edited_refl dict) key some) _ _)
          fun _ edited => ends_returning edited 0
    · exact ends_fail (edited_refl dict) wrongType
  · exact ends_fail (edited_refl dict) numArgs

theorem srandmemberCommand_ends (args : List Bss) :
    (srandmemberCommand env dict args).Ends (Edited dict) := by
  unfold srandmemberCommand
  split
  · exact ends_returning (edited_refl dict) _
  · split
    · exact ends_nil (edited_refl dict)
    · exact ends_fault .uninitialised
    · exact ends_fail (edited_refl dict) wrongType
  · exact ends_fail (edited_refl dict) numArgs

theorem sdiffCommand_ends (args : List Bss) :
    (sdiffCommand env dict args).Ends (Edited dict) := by
  unfold sdiffCommand
  split
  · split
    · exact ends_fail (edited_refl dict) wrongType
    · exact ends_fill env (edited_refl dict) _
    · exact ends_fill env (edited_refl dict) _
  · exact ends_fail (edited_refl dict) numArgs

theorem sunionCommand_ends (args : List Bss) :
    (sunionCommand env dict args).Ends (Edited dict) := by
  unfold sunionCommand
  split
  · split
    · exact ends_fail (edited_refl dict) wrongType
    · exact ends_fill env (edited_refl dict) _
  · exact ends_fail (edited_refl dict) numArgs

theorem sinterCommand_ends (args : List Bss) :
    (sinterCommand env dict args).Ends (Edited dict) := by
  unfold sinterCommand
  split
  · split
    · exact ends_fail (edited_refl dict) wrongType
    · split
      · exact ends_fill env (edited_refl dict) _
      · exact ends_fill env (edited_refl dict) _
  · exact ends_fail (edited_refl dict) numArgs

theorem sscanCommand_ends (args : List Bss) :
    (sscanCommand env dict args).Ends (Edited dict) := by
  unfold sscanCommand
  split
  · simp only
    split
    · exact ends_fail (edited_refl dict) invCursor
    · split
      · exact ends_fail (edited_refl dict) invSynx
      · intro sh result ran
        split at ran
        · simp only at ran
          split at ran
          · cases ran
          · exact ends_array env rplyDbArr (edited_refl dict) _ result ran
        · exact ends_fail (edited_refl dict) wrongType _ result ran
        · exact ends_array env rplyDbArr (edited_refl dict) _ result ran
  · exact ends_fail (edited_refl dict) numArgs

/-! ### Renaming -/

/-- A key that is there is renamed to one that is not, so that an entry is linked in again. -/
def losesCount (dict : Dict Obj) : List Bss → Prop
  | [key, newKey] =>
      dictLookUp dict key ≠ none ∧ dictLookUp (dictRmNf dict key).1 newKey = none
  | _ => False

/-- A new name that is there takes the entry over, and the entry that was taken out stays out. -/
theorem dictRename_edited (sound : Sound True dict)
    (filled : ∀ entry ∈ dict.entries, entry.val.Filled) {key newKey : Bss}
    (counts : ¬ losesCount dict [key, newKey]) : Edited dict (dictRename dict key newKey).1 := by
  have removed : Edited dict (dictRmNf dict key).1 := Edits.remove .start key
  cases taken : dictRmNf dict key with
  | mk left out =>
    rw [taken] at removed
    cases out with
    | none =>
      have missing : dictRename dict key newKey = (left, eNotFound) := by
        simp only [dictRename, taken]
      rw [missing]
      exact removed
    | some entry =>
      obtain ⟨others, found, -⟩ := found_of_taken sound.placed.sized taken
      have present : dictLookUp left newKey ≠ none := by
        intro absent
        refine counts ⟨?_, by rwa [taken]⟩
        rw [found.lookUp]
        exact Option.some_ne_none _
      obtain ⟨old, answer⟩ := Option.ne_none_iff_exists'.mp present
      obtain ⟨_, _, -, target⟩ := found_of_lookUp (removed.sized sound.placed.sized) answer
      rw [dictRename_eq taken newKey (fun _ => rfl), ← target.add_entryNum entry.val]
      exact Edits.add removed newKey
        (filled entry (found.entries.mem_iff.mpr List.mem_cons_self))

theorem renameCommand_ends (sound : Sound True dict)
    (filled : ∀ entry ∈ dict.entries, entry.val.Filled) (counts : ¬ losesCount dict args) :
    (renameCommand dict args).Ends (Edited dict) := by
  unfold renameCommand
  split
  · have edited := dictRename_edited sound filled counts
    split
    rename_i dict' ret renamed
    rw [renamed] at edited
    split
    · exact ends_fail edited noKey
    · exact ends_ok edited
  · exact ends_fail (edited_refl dict) numArgs

/-! ### All handlers -/

/-- The command loses the count of an entry, or takes the last member out of a set that it
leaves. -/
def CommandFunc.Unbalances (dict : Dict Obj) (args : List Bss) : CommandFunc → Prop
  | .rename => losesCount dict args
  | .smove => emptiesSource dict args
  | .spop => emptiesSet dict args
  | _ => False

theorem CommandFunc.ends (func : CommandFunc) (sound : Sound True dict)
    (given : ∀ arg ∈ args, arg.Arg) (filled : ∀ entry ∈ dict.entries, entry.val.Filled)
    (balanced : ¬ func.Unbalances dict args) :
    (func.run env dict args).Ends (Edited dict) := by
  cases func with
  | del => exact delCommand_ends args
  | «exists» => exact existsCommand_ends args
  | randomkey => exact randomkeyCommand_ends args
  | rename => exact renameCommand_ends sound filled balanced
  | keys => exact keysCommand_ends args
  | type => exact typeCommand_ends args
  | append => exact appendCommand_ends args
  | getbit => exact getbitCommand_ends args
  | setbit => exact setbitCommand_ends args
  | mget => exact mgetCommand_ends args
  | bitcount => exact bitcountCommand_ends args
  | setrange => exact setrangeCommand_ends args
  | getrange => exact getrangeCommand_ends args
  | incr => exact incrCommand_ends args
  | decr => exact decrCommand_ends args
  | incrby => exact decrbyincrby_ends env posOp args
  | decrby => exact decrbyincrby_ends env negOp args
  | msetnx => exact msetnxCommand_ends args
  | get => exact getCommand_ends args
  | set => exact setCommand_ends args
  | strlen => exact strlenCommand_ends args
  | hdel => exact hdelsremCommand_ends Kind.hash_lawful sound args fun _ _ => trivial
  | hlen => exact hlenCommand_ends args
  | hexists => exact hexistsCommand_ends args
  | hmget => exact hmgetCommand_ends args
  | hget => exact hgetCommand_ends args
  | hmset => exact hmsetCommand_ends args
  | hgetall => exact hgetallCommand_ends args
  | hincrby => exact hincrbyCommand_ends args
  | hset => exact hsetCommand_ends args
  | hincrbyfloat => exact hincrbyfloatCommand_ends args
  | hsetnx => exact hsetnxCommand_ends args
  | hkeys => exact hkeyssmembersCommand_ends Kind.hash args
  | hvals => exact hvalsCommand_ends args
  | blpop => exact blpopbrpopCommand_ends .left args
  | lrange => exact lrangeCommand_ends args
  | brpop => exact blpopbrpopCommand_ends .right args
  | lrem => exact lremCommand_ends args
  | brpoplpush => exact brpoplpushCommand_ends args
  | lset => exact lsetCommand_ends args
  | lindex => exact lindexCommand_ends args
  | ltrim => exact ltrimCommand_ends args
  | linsert => exact linsertCommand_ends args
  | rpop => exact lpoprpopCommand_ends .right args
  | llen => exact llenCommand_ends args
  | rpoplpush => exact rpoplpushCommand_ends args
  | lpop => exact lpoprpopCommand_ends .left args
  | rpush => exact lpushrpushCommand_ends .right args
  | lpush => exact lpushrpushCommand_ends .left args
  | rpushx => exact lpushrpushCommand_ends .right args
  | lpushx => exact lpushrpushCommand_ends .left args
  | sadd => exact saddCommand_ends sound args
  | smove => exact smoveCommand_ends sound given balanced
  | scard => exact scardCommand_ends args
  | spop => exact spopCommand_ends sound filled balanced
  | sdiff => exact sdiffCommand_ends args
  | srandmember => exact srandmemberCommand_ends args
  | srem => exact hdelsremCommand_ends Kind.set_lawful sound args fun _ some => some
  | sinter => exact sinterCommand_ends args
  | sscan => exact sscanCommand_ends args
  | sunion => exact sunionCommand_ends args
  | sismember => exact sismemberCommand_ends args
  | smembers => exact hkeyssmembersCommand_ends Kind.set args
  | setnx => exact setnxCommand_ends args
  | incrbyfloat => exact incrbyfloatCommand_ends args

end PseudoRedis

/-
This file is about `SMOVE`. The member is unlinked from the source before the destination
is touched, and the variable for the destination's set is assigned only if there is one. So
a member moves as it should if the destination exists, be it the source itself, and is lost
with a wild pointer otherwise.
-/

import PseudoRedis.SetAlgebra
import PseudoRedis.SetHistory
import PseudoRedis.Rename

namespace PseudoRedis

variable {dict : Dict Obj} {src dst member : Bss} {set : Dict Unit}

/-! ### What a move should be -/

/-- The member is out of the source, unless that is the destination, and in the destination; the
other members and keys are as they were, and both sets count their members. -/
structure MovedMember (dict dict' : Dict Obj) (src dst member : Bss) : Prop where
  placed : dict'.Placed
  target : ∃ set, dictLookUp dict' dst = some (.set set) ∧ set.WellFormed ∧
    members set = insert member.content (membersAt dict dst) ∧
    set.entryNum = (members set).card
  source : dst.content ≠ src.content →
    ∃ set, dictLookUp dict' src = some (.set set) ∧ set.WellFormed ∧
      members set = (membersAt dict src).erase member.content ∧
      set.entryNum = (members set).card
  others : ∀ other : Bss, other.Short → other.content ≠ src.content →
    other.content ≠ dst.content → dictLookUp dict' other = dictLookUp dict other

/-- `SMOVE` replies 1 and moves a member of the source, and replies 0 and does nothing without
one. -/
structure MovesMember (dict : Dict Obj) (src dst member : Bss) : Prop where
  moves : member.content ∈ membersAt dict src →
    ∃ dict', smoveCommand dict [src, dst, member] = trueReply dict' ∧
      MovedMember dict dict' src dst member
  refuses : member.content ∉ membersAt dict src →
    smoveCommand dict [src, dst, member] = falseReply dict

theorem membersAt_of_lookUp {key : Bss} (answer : dictLookUp dict key = some (.set set)) :
    membersAt dict key = members set := by
  simp only [membersAt, setAt, answer, Option.elim_some]

theorem membersAt_of_absent {key : Bss} (absent : dictLookUp dict key = none) :
    membersAt dict key = ∅ := by
  simp only [membersAt, setAt, absent, Option.elim_none]

theorem entryNum_eq_card (wellFormed : set.WellFormed) : set.entryNum = (members set).card := by
  rw [wellFormed.count, card_members wellFormed.toPlaced]

/-! ### The cases of the handler -/

theorem smove_absent (holds : HoldsSet dict dst) (absent : dictLookUp dict src = none) :
    smoveCommand dict [src, dst, member] = falseReply dict := by
  rcases holds with missing | ⟨set, answer, -⟩
  · simp only [smoveCommand, absent, missing]
  · simp only [smoveCommand, absent, answer]

theorem smove_missing (holds : HoldsSet dict dst) (source : dictLookUp dict src = some (.set set))
    (missing : dictRmNf set member = (set, none)) :
    smoveCommand dict [src, dst, member] = falseReply dict := by
  rcases holds with absent | ⟨target, answer, -⟩
  · simp only [smoveCommand, source, absent, missing]
  · simp only [smoveCommand, source, answer, missing]

/-- The set of the source without the member. -/
def unlinked (dict : Dict Obj) (src : Bss) (set : Dict Unit) (member : Bss) : Dict Obj :=
  putBack Kind.set dict src (dictRmNf set member).1

/-- Without a destination the pointer to its set was never assigned. -/
theorem smove_wild {entry : DictEntry Unit} (source : dictLookUp dict src = some (.set set))
    (taken : dictRmNf set member = ((dictRmNf set member).1, some entry))
    (absent : dictLookUp dict dst = none)
    (still : dictLookUp (unlinked dict src set member) dst = none) :
    smoveCommand dict [src, dst, member] = fault .uninitialised := by
  rw [unlinked] at still
  simp only [smoveCommand, source, absent]
  rw [taken]
  simp only [still]

/-- The member taken out of a well formed set. -/
theorem taken_of_member (wellFormed : set.WellFormed) (short : member.Short)
    (inside : member.content ∈ members set) :
    ∃ entry, dictRmNf set member = ((dictRmNf set member).1, some entry) ∧
      entry.key.Short ∧ entry.key.content = member.content := by
  have present := (lookUp_member_iff wellFormed.toPlaced short).mpr inside
  obtain ⟨val, answer⟩ := Option.ne_none_iff_exists'.mp present
  obtain ⟨entry, others, -, found⟩ := found_of_lookUp wellFormed.sized answer
  have own : entry ∈ set.entries := found.entries.mem_iff.mpr List.mem_cons_self
  exact ⟨entry, Prod.ext rfl found.rmNf.1, wellFormed.toPlaced.short own,
    found.content wellFormed.toPlaced short⟩

theorem missing_of_not_member (wellFormed : set.WellFormed) (short : member.Short)
    (outside : member.content ∉ members set) : dictRmNf set member = (set, none) :=
  (absent_of_lookUp wellFormed.sized
    ((lookUp_member_none wellFormed.toPlaced short).mpr outside)).rmNf

theorem lookUp_unlinked (placed : dict.Placed) (short : src.Short)
    (source : dictLookUp dict src = some (.set set)) {other : Bss} (otherShort : other.Short) :
    dictLookUp (unlinked dict src set member) other =
      if other.content = src.content then some (.set (dictRmNf set member).1)
      else dictLookUp dict other := by
  rw [unlinked, putBack]
  split
  · rename_i same
    rw [lookUp_of_content (dictSetVal_placed placed src _) short otherShort same]
    exact lookUp_dictSetVal_self placed.sized source _
  · rename_i different
    exact lookUp_dictSetVal_of_ne placed short otherShort _ different

/-- The destination as it is when the member is unlinked, the source or another set, gets the
member if it has not got it. -/
theorem smove_links {entry : DictEntry Unit} {target target' : Dict Unit}
    (placed : dict.Placed) (source : dictLookUp dict src = some (.set set))
    (taken : dictRmNf set member = ((dictRmNf set member).1, some entry))
    (own : entry.key.Short ∧ entry.key.content = member.content) (short : member.Short)
    (answer : dictLookUp dict dst = some (.set target))
    (still : dictLookUp (unlinked dict src set member) dst = some (.set target'))
    (wellFormed : target'.WellFormed) :
    ∃ linked : Dict Unit, smoveCommand dict [src, dst, member] =
        trueReply (putBack Kind.set (unlinked dict src set member) dst linked) ∧
      linked.WellFormed ∧ members linked = insert member.content (members target') := by
  have run : smoveCommand dict [src, dst, member] =
      if dictLookUp target' member = none then
        trueReply (putBack Kind.set (unlinked dict src set member) dst
          (dictAdd target' entry.key ()))
      else trueReply (unlinked dict src set member) := by
    rw [unlinked] at still ⊢
    simp only [smoveCommand, source, answer]
    rw [taken]
    simp only [still]
    cases dictLookUp target' member with
    | none => rfl
    | some val => rfl
  rw [run]
  split
  · refine ⟨dictAdd target' entry.key (), rfl, dictAdd_wellFormed wellFormed own.1 (), ?_⟩
    rw [members_dictAdd wellFormed.toPlaced own.1, own.2]
  · rename_i known
    have inside := (lookUp_member_iff wellFormed.toPlaced short).mp known
    have same : putBack Kind.set (unlinked dict src set member) dst target' =
        unlinked dict src set member :=
      dictSetVal_self (dictSetVal_placed placed src _).sized still
    exact ⟨target', by rw [same], wellFormed, (Finset.insert_eq_of_mem inside).symm⟩

/-! ### The destination -/

/-- A set put under the destination once the member is out of the source. -/
theorem movedMember_of_linked (placed : dict.Placed) (short : src.Short) (dstShort : dst.Short)
    (memberShort : member.Short) (source : dictLookUp dict src = some (.set set))
    (wellFormed : set.WellFormed) {old : Obj}
    (still : dictLookUp (unlinked dict src set member) dst = some old) {linked : Dict Unit}
    (linkedFormed : linked.WellFormed)
    (whole : members linked = insert member.content (membersAt dict dst)) :
    MovedMember dict (putBack Kind.set (unlinked dict src set member) dst linked)
      src dst member := by
  have between : (unlinked dict src set member).Placed := dictSetVal_placed placed src _
  have left := dictRmNf_wellFormed wellFormed member
  refine ⟨dictSetVal_placed between dst _, ⟨linked, ?_, linkedFormed, whole,
    entryNum_eq_card linkedFormed⟩, fun different => ⟨(dictRmNf set member).1, ?_, left, ?_,
    entryNum_eq_card left⟩, fun other otherShort notSrc notDst => ?_⟩
  · exact lookUp_dictSetVal_self between.sized still _
  · rw [putBack, lookUp_dictSetVal_of_ne between dstShort short _ (Ne.symm different),
      lookUp_unlinked placed short source short, if_pos rfl]
  · rw [membersAt_of_lookUp source, members_dictRmNf wellFormed.toPlaced memberShort]
  · rw [putBack, lookUp_dictSetVal_of_ne between dstShort otherShort _ notDst,
      lookUp_unlinked placed short source otherShort, if_neg notSrc]

/-- A destination that is there is still a set when the member is unlinked, and lacks no other
member. -/
theorem target_unlinked (placed : dict.Placed) (short : src.Short) (dstShort : dst.Short)
    (memberShort : member.Short) (source : dictLookUp dict src = some (.set set))
    (wellFormed : set.WellFormed) (inside : member.content ∈ members set) {target : Dict Unit}
    (answer : dictLookUp dict dst = some (.set target)) (targetFormed : target.WellFormed) :
    ∃ target', dictLookUp (unlinked dict src set member) dst = some (.set target') ∧
      target'.WellFormed ∧
      insert member.content (members target') = insert member.content (membersAt dict dst) := by
  rw [lookUp_unlinked placed short source dstShort, membersAt_of_lookUp answer]
  by_cases same : dst.content = src.content
  · -- the destination is the source, which has just lost the member
    rw [lookUp_of_content placed short dstShort same, source] at answer
    cases answer
    refine ⟨_, if_pos same, dictRmNf_wellFormed wellFormed member, ?_⟩
    rw [members_dictRmNf wellFormed.toPlaced memberShort, Finset.insert_erase inside,
      Finset.insert_eq_of_mem inside]
  · exact ⟨target, by rw [if_neg same, answer], targetFormed, rfl⟩

/-- The move of a member to a destination that is there. -/
theorem smove_moves (placed : dict.Placed) (short : src.Short) (dstShort : dst.Short)
    (memberShort : member.Short) (source : dictLookUp dict src = some (.set set))
    (wellFormed : set.WellFormed) (inside : member.content ∈ members set)
    (holds : HoldsSet dict dst) (present : dictLookUp dict dst ≠ none) :
    ∃ dict', smoveCommand dict [src, dst, member] = trueReply dict' ∧
      MovedMember dict dict' src dst member := by
  obtain ⟨entry, taken, own⟩ := taken_of_member wellFormed memberShort inside
  obtain absent | ⟨target, answer, targetFormed⟩ := holds
  · exact absurd absent present
  · obtain ⟨target', still, formed, same⟩ := target_unlinked placed short dstShort memberShort
      source wellFormed inside answer targetFormed
    obtain ⟨linked, run, linkedFormed, whole⟩ :=
      smove_links placed source taken own memberShort answer still formed
    exact ⟨_, run, movedMember_of_linked placed short dstShort memberShort source wellFormed
      still linkedFormed (whole.trans same)⟩

theorem fault_ne_trueReply (dict' : Dict Obj) : fault .uninitialised ≠ trueReply dict' := by
  intro same
  have apart := congrFun same (Shared.holding [])
  cases apart

/-- `SMOVE` moves a member as it should exactly if the member is not in the source or the
destination is there. -/
theorem smove_moves_iff (dict : Dict Obj) (src dst member : Bss) (placed : dict.Placed)
    (short : src.Short) (dstShort : dst.Short) (memberShort : member.Short)
    (holds : HoldsSet dict src) (dstHolds : HoldsSet dict dst) :
    MovesMember dict src dst member ↔
      member.content ∉ membersAt dict src ∨ dictLookUp dict dst ≠ none := by
  obtain absent | ⟨set, source, wellFormed⟩ := holds
  · have nothing : member.content ∉ membersAt dict src := by
      rw [membersAt_of_absent absent]
      exact Finset.notMem_empty _
    exact iff_of_true ⟨fun inside => absurd inside nothing, fun _ => smove_absent dstHolds absent⟩
      (Or.inl nothing)
  · by_cases inside : member.content ∈ membersAt dict src
    · have own := inside
      rw [membersAt_of_lookUp source] at own
      rw [or_iff_right (not_not.mpr inside)]
      constructor
      · intro moves absent
        obtain ⟨entry, taken, -⟩ := taken_of_member wellFormed memberShort own
        have different : dst.content ≠ src.content := by
          intro same
          rw [lookUp_of_content placed short dstShort same, source] at absent
          cases absent
        have still : dictLookUp (unlinked dict src set member) dst = none := by
          rw [lookUp_unlinked placed short source dstShort, if_neg different, absent]
        obtain ⟨dict', run, -⟩ := moves.moves inside
        rw [smove_wild source taken absent still] at run
        exact fault_ne_trueReply dict' run
      · intro present
        exact ⟨fun _ => smove_moves placed short dstShort memberShort source wellFormed own
          dstHolds present, fun outside => absurd inside outside⟩
    · refine iff_of_true ⟨fun member => absurd member inside, fun outside => ?_⟩ (Or.inl inside)
      rw [membersAt_of_lookUp source] at outside
      exact smove_missing dstHolds source (missing_of_not_member wellFormed memberShort outside)

/-- A set of another member. -/
def otherMember : Dict Unit := dictAdd (dictCreate newDictPow) (textArg 3 "y") ()

/-- The key space after `SADD s x` and `SADD t y`. -/
def twoSets : Dict Obj := dictAdd oneSet (textArg 4 "t") (.set otherMember)

theorem otherMember_wellFormed : otherMember.WellFormed :=
  dictAdd_wellFormed (dictCreate_wellFormed (by decide)) (textArg_arg 3 (by decide)).short ()

/-- `SMOVE s t x` of one set to another. -/
theorem smove_moves_iff_two :
    MovesMember twoSets (textArg 5 "s") (textArg 6 "t") (textArg 7 "x") :=
  (smove_moves_iff twoSets (textArg 5 "s") (textArg 6 "t") (textArg 7 "x")
    (dictAdd_placed oneSet_placed (textArg_arg 4 (by decide)).short _)
    (textArg_arg 5 (by decide)).short (textArg_arg 6 (by decide)).short
    (textArg_arg 7 (by decide)).short (Or.inr ⟨oneMember, rfl, oneMember_wellFormed⟩)
    (Or.inr ⟨otherMember, rfl, otherMember_wellFormed⟩)).mpr
      (Or.inr (Option.some_ne_none (Obj.set otherMember)))

theorem oneSet_reachable : Reachable (fun _ _ => True) oneSet := by
  have ran : (textCall .sadd [(2, "s"), (1, "x")] (by decide)).run (dictCreate initDictSize)
      (Shared.holding []) = .ok ⟨putBack Kind.set (dictAdd (dictCreate initDictSize)
        (textArg 2 "s") (.set (dictCreate newDictPow))) (textArg 2 "s") oneMember,
        (createIntReply (Shared.holding []) 1).1, 0⟩ := rfl
  have same : putBack Kind.set (dictAdd (dictCreate initDictSize) (textArg 2 "s")
      (.set (dictCreate newDictPow))) (textArg 2 "s") oneMember = oneSet :=
    dictSetVal_dictAdd (dictCreate_sized (by decide)) (fun _ => rfl) _ _ _
  rw [same] at ran
  exact .step _ .start trivial ran

/-- `SMOVE s b x` where `b` is not there: the member is out of its set, and nothing is allotted
to take it. -/
theorem smove_loses_member :
    ∃ (dict : Dict Obj) (src dst member : Bss), Reachable (fun _ _ => True) dict ∧ dict.Placed ∧
      src.Short ∧ dst.Short ∧ member.Short ∧ HoldsSet dict src ∧ HoldsSet dict dst ∧
      member.content ∈ membersAt dict src ∧ ¬ MovesMember dict src dst member ∧
      smoveCommand dict [src, dst, member] = fault .uninitialised := by
  have ran : smoveCommand oneSet [textArg 3 "s", textArg 4 "b", textArg 5 "x"] =
      fault .uninitialised := rfl
  have inside : (textArg 5 "x").content ∈ membersAt oneSet (textArg 3 "s") := by
    have found : dictLookUp oneSet (textArg 3 "s") = some (.set oneMember) := rfl
    rw [membersAt_of_lookUp found]
    exact (lookUp_member_iff oneMember_wellFormed.toPlaced (textArg_arg 5 (by decide)).short).mp
      (Option.some_ne_none ())
  refine ⟨oneSet, textArg 3 "s", textArg 4 "b", textArg 5 "x", oneSet_reachable, oneSet_placed,
    (textArg_arg 3 (by decide)).short, (textArg_arg 4 (by decide)).short,
    (textArg_arg 5 (by decide)).short, oneSet_holds, Or.inl rfl, inside, fun moves => ?_, ran⟩
  obtain ⟨dict', moved, -⟩ := moves.moves inside
  rw [ran] at moved
  exact fault_ne_trueReply dict' moved

end PseudoRedis

/-
This file gives the effects of the handlers on sets. Members are keys without values, so
a set is emptied by taking its last key out, which `SPOP` and `SMOVE` do without
removing the set. The set algebra and the scan change nothing; what matters of them is
which elements they list, and that these are keys the key space holds.
-/

import PseudoRedis.Commands.ListEffects
import PseudoRedis.Commands.Sets

namespace PseudoRedis

variable {env : Env} {E L : Prop} {dict : Dict Obj} {gain : List Nat} {key : Bss}

/-! ### Members -/

theorem addMembers_change {set : Dict Unit} {args : List Bss} (sound : Sound E set)
    (short : ∀ arg ∈ args, arg.Short) :
    Change E set (args.map Bss.id) (addMembers set args).1 := by
  induction args generalizing set with
  | nil => exact Change.refl sound []
  | cons member rest inductionHypothesis =>
    have restShort : ∀ arg ∈ rest, arg.Short := fun arg inRest =>
      short arg (List.mem_cons_of_mem _ inRest)
    rw [addMembers]
    split
    · have first : Change E set [member.id] (dictAdd set member ()) :=
        Change.add sound (short member List.mem_cons_self) trivial
      exact first.trans (inductionHypothesis first.sound restShort)
    · refine (inductionHypothesis sound restShort).mono fun id => ?_
      exact (List.sublist_cons_self member.id (rest.map Bss.id)).count_le id

theorem entries_addMembers {set : Dict Unit} (sized : set.Sized) {args : List Bss}
    (some : set.entries ≠ [] ∨ args ≠ []) : (addMembers set args).1.entries ≠ [] := by
  induction args generalizing set with
  | nil => exact some.resolve_right fun other => other rfl
  | cons member rest inductionHypothesis =>
    rw [addMembers]
    split
    · exact inductionHypothesis (dictAdd_sized sized member ())
        (Or.inl (entries_dictAdd set sized member ()))
    · rename_i present
      exact inductionHypothesis sized (Or.inl (entries_of_lookUp sized present))

theorem saddCommand_does (sound : Sound E dict) {args : List Bss}
    (given : ∀ arg ∈ args, arg.Arg) :
    Does env E L dict (spent env args) none (saddCommand dict args) := by
  unfold saddCommand
  split
  · rename_i key first rest
    have members : ∀ arg ∈ first :: rest, arg.Short := fun arg member =>
      (given arg (List.mem_cons_of_mem _ member)).short
    have some : first :: rest ≠ [] := List.cons_ne_nil _ _
    split
    · have inside := sound_create (V := Unit) E newDictPow_le
      have change := Change.created Kind.set_lawful sound (given key List.mem_cons_self).short
        (addMembers_change inside members)
        (Or.inr (entries_addMembers inside.placed.sized (Or.inr some)))
      exact does_int (change.mono (count_spent_le env (key :: first :: rest))) _
    · rename_i set answer
      have inside := (Kind.set_lawful.inner sound answer).1
      have change := Change.inPlace Kind.set_lawful sound answer
        (addMembers_change inside members)
        (Or.inr (entries_addMembers inside.placed.sized (Or.inr some)))
      refine does_int (change.mono fun id => ?_) _
      exact Nat.le_trans (count_spent_le env (first :: rest) id)
        (count_le_spent env (.cons _ (List.Sublist.refl _)) id)
    · exact does_fail sound wrongType
  · exact does_fail sound numArgs

theorem scardCommand_does (sound : Sound E dict) (args : List Bss) :
    Does env E L dict gain none (scardCommand dict args) := by
  unfold scardCommand
  split
  · split
    · exact does_int (Change.refl sound gain) 0
    · exact does_int (Change.refl sound gain) _
    · exact does_fail sound wrongType
  · exact does_fail sound numArgs

theorem sismemberCommand_does (sound : Sound E dict) (args : List Bss) :
    Does env E L dict gain none (sismemberCommand dict args) := by
  unfold sismemberCommand
  split
  · split
    · exact does_int (Change.refl sound gain) 0
    · split
      · exact does_int (Change.refl sound gain) 0
      · exact does_int (Change.refl sound gain) 1
    · exact does_fail sound wrongType
  · exact does_fail sound numArgs

theorem sremCommand_does (sound : Sound E dict) (args : List Bss) :
    Does env E L dict gain none (sremCommand dict args) :=
  hdelsremCommand_does Kind.set_lawful sound args

theorem smembersCommand_does (sound : Sound E dict) (args : List Bss) :
    Does env E L dict gain (membersListing Kind.set dict args) (smembersCommand env dict args) :=
  hkeyssmembersCommand_does Kind.set_lawful sound args

/-- Taking a key out of a dictionary with more than one entry does not empty it. -/
theorem entries_rmNf {V : Type} {dict : Dict V} (sized : dict.Sized) (key : Bss)
    (several : dict.entries.length ≠ 1) (some : dict.entries ≠ []) :
    (dictRmNf dict key).1.entries ≠ [] := by
  cases answer : dictLookUp dict key with
  | none => rwa [(absent_of_lookUp sized answer).rmNf]
  | some val =>
    obtain ⟨entry, others, -, found⟩ := found_of_lookUp sized answer
    have before := found.entries.length_eq
    have after := found.rmNf.2.1.length_eq
    intro nil
    rw [nil] at after
    rw [List.length_cons, ← after] at before
    exact several before

/-- The only member of a set is moved to another set. -/
def emptiesSource (dict : Dict Obj) : List Bss → Prop
  | [src, dst, member] =>
      src.content ≠ dst.content ∧ ∃ srcSet dstSet, dictLookUp dict src = some (.set srcSet) ∧
        dictLookUp dict dst = some (.set dstSet) ∧ srcSet.entries.length = 1 ∧
        dictLookUp srcSet member ≠ none
  | _ => False

/-- A member that was taken out of a set and is added to a set. -/
theorem Change.movedMember {target : Dict Unit} (sound : Sound E target) {member : Bss}
    (short : member.Short) : Change E target [member.id] (dictAdd target member ()) :=
  Change.add sound short trivial

/-- The move of a member within one set. -/
theorem smove_same (sound : Sound E dict) {src dst : Bss} (srcShort : src.Short)
    (dstShort : dst.Short) (same : dst.content = src.content) {srcSet left : Dict Unit}
    (answer : dictLookUp dict src = some (.set srcSet)) (first second : Dict Unit)
    (found : dictLookUp (putBack Kind.set dict src left) dst = some (.set first)) :
    first = left ∧ putBack Kind.set (putBack Kind.set dict src left) dst second =
      putBack Kind.set dict src second := by
  have placed := dictSetVal_placed sound.placed src (.set left)
  constructor
  · rw [lookUp_of_content (show (putBack Kind.set dict src left).Placed from placed) srcShort
      dstShort same, putBack, lookUp_dictSetVal_self sound.placed.sized answer] at found
    cases found
    rfl
  · rw [putBack, dictSetVal_congr (show (putBack Kind.set dict src left).Placed from placed)
      srcShort dstShort same]
    exact dictSetVal_dictSetVal sound.placed.sized answer _ _

theorem smoveCommand_does (sound : Sound E dict) {args : List Bss}
    (given : ∀ arg ∈ args, arg.Arg) (empties : emptiesSource dict args → E) :
    Does env E L dict gain none (smoveCommand dict args) := by
  unfold smoveCommand
  split
  · rename_i src dst member
    have srcShort := (given src List.mem_cons_self).short
    have dstShort := (given dst (List.mem_cons_of_mem _ List.mem_cons_self)).short
    split
    · exact does_fail sound wrongType
    · exact does_fail sound wrongType
    · exact does_fail sound wrongType
    · exact does_fail sound wrongType
    · exact does_fail sound wrongType
    · exact does_fail sound wrongType
    · exact does_int (Change.refl sound gain) 0
    · rename_i srcSet answer _ _ _
      have inside := (Kind.set_lawful.inner sound answer).1
      split
      · exact does_int (Change.refl sound gain) 0
      · rename_i left entry taken
        obtain ⟨others, found, -⟩ := found_of_taken inside.placed.sized taken
        obtain ⟨leftSound, -, out⟩ := Change.take inside taken
        have memberShort := inside.placed.short (found.entries.mem_iff.mpr List.mem_cons_self)
        have kept : Change E srcSet [] left :=
          ⟨leftSound, fun id => Nat.le_of_add_right_le (Nat.le_of_eq (out id))⟩
        split
        · rename_i dstSet target
          by_cases same : dst.content = src.content
          · obtain ⟨rfl, merged⟩ := smove_same sound srcShort dstShort same answer dstSet
              (dictAdd dstSet entry.key ()) target
            split
            · rw [merged]
              have added := Change.movedMember leftSound memberShort
              have back : Change E srcSet [] (dictAdd dstSet entry.key ()) :=
                ⟨added.sound, fun id => (added.conserve id).trans (Nat.le_of_eq (out id))⟩
              exact does_int ((Change.inPlace Kind.set_lawful sound answer back (Or.inr
                (entries_dictAdd _ leftSound.placed.sized _ _))).mono fun _ => Nat.zero_le _) 1
            · rename_i present
              exact does_int ((Change.inPlace Kind.set_lawful sound answer kept (Or.inr
                (entries_of_lookUp leftSound.placed.sized present))).mono fun _ => Nat.zero_le _) 1
          · have before : dictLookUp dict dst = some (.set dstSet) := by
              rwa [putBack, lookUp_dictSetVal_of_ne sound.placed srcShort dstShort _ same] at target
            have some : E ∨ left.entries ≠ [] := by
              by_cases one : srcSet.entries.length = 1
              · refine Or.inl (empties ⟨Ne.symm same, srcSet, dstSet, answer, before, one, ?_⟩)
                rw [found.lookUp]
                exact Option.some_ne_none _
              · have several := entries_rmNf inside.placed.sized member one
                  (entries_of_lookUp inside.placed.sized found.lookUp)
                rw [taken] at several
                exact Or.inr several
            have moved := Change.inPlace Kind.set_lawful sound answer kept some
            split
            · have added := Change.inPlace Kind.set_lawful moved.sound target
                (Change.movedMember (Kind.set_lawful.inner sound before).1 memberShort)
                (Or.inr (entries_dictAdd _ (Kind.set_lawful.inner sound before).1.placed.sized _ _))
              refine does_int ⟨added.sound, fun id => ?_⟩ 1
              have one := added.conserve id
              have two := count_ids_setVal sound.placed.sized answer (.set left) id
              have three : left.ids.count id + [entry.key.id].count id = srcSet.ids.count id :=
                out id
              have four : (putBack Kind.set dict src left).ids.count id + srcSet.ids.count id =
                dict.ids.count id + left.ids.count id := two
              omega
            · exact does_int (moved.mono fun _ => Nat.zero_le _) 1
        · exact does_fault _ gain
  · exact does_fail sound numArgs

/-! ### Random members -/

/-- The only member of a set is popped. -/
def emptiesSet (dict : Dict Obj) : List Bss → Prop
  | [key] => ∃ set, dictLookUp dict key = some (.set set) ∧ set.entries.length = 1
  | _ => False

omit dict key in
/-- A string reply whose result is dropped. -/
theorem does_string_dropped {V : Type} [Store V] {dict dict' : Dict V}
    (change : Change E dict gain dict') (s : Bytes) (len : Nat) :
    Does env E L dict gain none
      ((stringReply dict' s len).andThen fun result => returning result.dict 0) := by
  by_cases long : maxRplySize < len
  · have refused : ((stringReply dict' s len).andThen fun result => returning result.dict 0) =
        returning dict' 0 := by
      funext sh
      rw [Run.andThen, stringReply, createStrReply, if_pos long]
    rw [refused]
    exact does_returning change 0 fun code => absurd code (by decide)
  · have answered : ((stringReply dict' s len).andThen fun result => returning result.dict 0) =
        stringReply dict' s len := by
      funext sh
      rw [Run.andThen, stringReply, createStrReply, if_neg long]
      by_cases empty : len = 0
      · rw [if_pos empty]
        rfl
      · by_cases short : s.length < len
        · rw [if_neg empty, if_pos short]
        · rw [if_neg empty, if_neg short]
          rfl
    rw [answered]
    exact does_string change s len fun other => absurd other long

theorem spopCommand_does (sound : Sound E dict) {args : List Bss}
    (empties : emptiesSet dict args → E) :
    Does env E L dict gain none (spopCommand env dict args) := by
  unfold spopCommand
  split
  · exact does_returning (Change.refl sound gain) _ fun _ => Or.inr rfl
  · rename_i key
    split
    · exact does_nil sound
    · rename_i set answer
      obtain ⟨inside, filled, -⟩ := Kind.set_lawful.inner sound answer
      split
      · exact does_fault _ gain
      · rename_i entry _
        have some : E ∨ (dictRmNf set entry.key).1.entries ≠ [] := by
          by_cases one : set.entries.length = 1
          · exact Or.inl (empties ⟨set, answer, one⟩)
          · exact filled.imp_right (entries_rmNf inside.placed.sized entry.key one)
        exact does_string_dropped ((Change.inPlace Kind.set_lawful sound answer
          (Change.rmNf inside entry.key) some).mono fun _ => Nat.zero_le _) _ _
    · exact does_fail sound wrongType
  · exact does_fail sound numArgs

theorem srandmemberCommand_does (sound : Sound E dict) (args : List Bss) :
    Does env E L dict gain none (srandmemberCommand env dict args) := by
  unfold srandmemberCommand
  split
  · exact does_returning (Change.refl sound gain) _ fun _ => Or.inr rfl
  · split
    · exact does_nil sound
    · exact does_fault .uninitialised gain
    · exact does_fail sound wrongType
  · exact does_fail sound numArgs

/-! ### Set algebra -/

/-- A set made of members the key space holds. -/
structure MadeOf (dict : Dict Obj) (set : Dict Unit) : Prop where
  sized : set.Sized
  held : ∀ id ∈ set.ids, id ∈ dict.ids

theorem madeOf_create (dict : Dict Obj) {power : Nat} (small : power ≤ 31) :
    MadeOf dict (dictCreate power) :=
  ⟨dictCreate_sized small, by simp⟩

theorem MadeOf.add {set : Dict Unit} (made : MadeOf dict set) {member : Bss}
    (held : member.id ∈ dict.ids) : MadeOf dict (dictAdd set member ()) := by
  refine ⟨dictAdd_sized made.sized member (), fun id inside => ?_⟩
  obtain ⟨entry, inEntries, own⟩ := mem_ids.mp inside
  have same : id = entry.key.id := own.resolve_right List.not_mem_nil
  rw [same]
  cases answer : dictLookUp set member with
  | none =>
    obtain ⟨others, perm, found, -⟩ := (absent_of_lookUp made.sized answer).add ()
    rcases List.mem_cons.mp (found.entries.mem_iff.mp inEntries) with rfl | old
    · exact held
    · exact made.held _ (key_mem_ids (perm.mem_iff.mp old))
  | some val =>
    obtain ⟨own, others, -, found⟩ := found_of_lookUp made.sized answer
    rcases List.mem_cons.mp ((found.add ()).entries.mem_iff.mp inEntries) with rfl | old
    · exact held
    · exact made.held _ (key_mem_ids (found.entries.mem_iff.mpr (List.mem_cons_of_mem _ old)))

theorem MadeOf.rmNf {set : Dict Unit} (made : MadeOf dict set) (member : Bss) :
    MadeOf dict (dictRmNf set member).1 := by
  refine ⟨dictRmNf_sized made.sized member, fun id inside => made.held id ?_⟩
  have fewer := count_ids_rmNf made.sized member id
  exact List.count_pos_iff.mp (Nat.lt_of_lt_of_le (List.count_pos_iff.mpr inside) fewer)

theorem MadeOf.addShallow {set : Dict Unit} (made : MadeOf dict set) {member : Bss}
    (held : member.id ∈ dict.ids) : MadeOf dict (dictAddShallow set member ()) := by
  cases answer : dictLookUp set member with
  | none =>
    rw [(absent_of_lookUp made.sized answer).addShallow_eq]
    exact made.add held
  | some val =>
    obtain ⟨own, others, -, found⟩ := found_of_lookUp made.sized answer
    rwa [found.addShallow]

/-- A walk over a set calls back on its members. -/
theorem iterSet_eq (set : Dict Unit) (func : Dict Unit → DictEntry Unit → Dict Unit)
    (newSet : Dict Unit) : iterSet set func newSet = set.entries.foldl func newSet := by
  rw [iterSet, dictIter]
  generalize set.entries = entries
  induction entries generalizing newSet with
  | nil => rfl
  | cons entry rest inductionHypothesis => exact inductionHypothesis _

theorem MadeOf.iterSet {set newSet : Dict Unit} {func : Dict Unit → DictEntry Unit → Dict Unit}
    (made : MadeOf dict newSet)
    (keeps : ∀ newSet, MadeOf dict newSet →
      ∀ entry ∈ set.entries, MadeOf dict (func newSet entry)) :
    MadeOf dict (iterSet set func newSet) := by
  rw [iterSet_eq]
  exact List.foldlRecOn set.entries func made keeps

theorem MadeOf.copy {set newSet : Dict Unit} (given : MadeOf dict set)
    (made : MadeOf dict newSet) : MadeOf dict (PseudoRedis.iterSet set dictCpyCallback newSet) :=
  made.iterSet fun _ made _ member => made.add (given.held _ (key_mem_ids member))

theorem diffSet_madeOf {first : Dict Unit} (given : MadeOf dict first)
    (others : List (Option (Dict Unit))) : MadeOf dict (diffSet first others) := by
  refine List.foldlRecOn others _
    (given.copy (madeOf_create dict given.sized.power_le)) fun newSet made other _ => ?_
  cases other with
  | none => exact made
  | some other => exact made.iterSet fun _ made entry _ => made.rmNf entry.key

theorem unionSet_madeOf {sets : List (Option (Dict Unit))}
    (given : ∀ set, some set ∈ sets → MadeOf dict set) : MadeOf dict (unionSet sets) := by
  refine List.foldlRecOn sets _ (madeOf_create dict newDictPow_le)
    fun newSet made other inside => ?_
  cases other with
  | none => exact made
  | some other =>
    exact made.iterSet fun _ made _ member =>
      made.addShallow ((given other inside).held _ (key_mem_ids member))

theorem smallest_mem (least : Dict Unit) (rest : List (Dict Unit)) :
    smallest least rest ∈ least :: rest := by
  induction rest generalizing least with
  | nil => exact List.mem_cons_self
  | cons set rest inductionHypothesis =>
    rw [smallest]
    split
    · exact List.mem_cons_of_mem _ (inductionHypothesis set)
    · rcases List.mem_cons.mp (inductionHypothesis least) with same | inside
      · rw [same]
        exact List.mem_cons_self
      · exact List.mem_cons_of_mem _ (List.mem_cons_of_mem _ inside)

theorem interSet_madeOf {first : Dict Unit} {rest : List (Dict Unit)}
    (given : ∀ set ∈ first :: rest, MadeOf dict set) : MadeOf dict (interSet first rest) := by
  refine List.foldlRecOn (first :: rest) _ ((given _ (smallest_mem first rest)).copy
    (madeOf_create dict newDictPow_le)) fun newSet made other _ => ?_
  refine made.iterSet fun _ made entry _ => ?_
  unfold dictInterCallback
  split
  · exact made.rmNf entry.key
  · exact made

theorem setsAt_madeOf (sound : Sound E dict) {args : List Bss}
    {sets : List (Option (Dict Unit))} (all : setsAt dict args = some sets) :
    ∀ set, some set ∈ sets → MadeOf dict set := by
  induction args generalizing sets with
  | nil =>
    cases all
    intro set member
    cases member
  | cons arg rest inductionHypothesis =>
    intro set member
    rw [setsAt] at all
    split at all
    · obtain ⟨tail, others, rfl⟩ := Option.map_eq_some_iff.mp all
      exact inductionHypothesis others set ((List.mem_cons.mp member).resolve_left fun same => by
        cases same)
    · rename_i own answer
      obtain ⟨tail, others, rfl⟩ := Option.map_eq_some_iff.mp all
      rcases List.mem_cons.mp member with same | inside
      · cases same
        obtain ⟨inner, -, held⟩ := Kind.set_lawful.inner sound answer
        exact ⟨inner.placed.sized, held⟩
      · exact inductionHypothesis others set inside
    · cases all

theorem membersReply_does (sound : Sound E dict) {newSet : Dict Unit}
    (made : MadeOf dict newSet) :
    Does env E L dict gain (some (.encoded rplyArr (newSet.entries.map keyElem)))
      (membersReply env dict newSet) := by
  refine does_fill sound (fun sh => ?_) (keyElem_lent env made.held)
  rw [dictIter_addkey]

/-- The members of a set, as an array. -/
def memberListing (set : Dict Unit) : Option Listing :=
  some (.encoded rplyArr (set.entries.map keyElem))

/-- What `SDIFF` lists. -/
def sdiffListing (dict : Dict Obj) : List Bss → Option Listing
  | first :: second :: rest =>
      match setsAt dict (first :: second :: rest) with
      | none => none
      | some (some set :: others) => memberListing (diffSet set others)
      | some _ => some (.encoded rplyArr [])
  | _ => none

/-- What `SUNION` lists. -/
def sunionListing (dict : Dict Obj) : List Bss → Option Listing
  | first :: second :: rest =>
      match setsAt dict (first :: second :: rest) with
      | none => none
      | some sets => memberListing (unionSet sets)
  | _ => none

/-- What `SINTER` lists. -/
def sinterListing (dict : Dict Obj) : List Bss → Option Listing
  | first :: second :: rest =>
      match setsAt dict (first :: second :: rest) with
      | none => none
      | some sets =>
          match sets.mapM id with
          | some (set :: others) => memberListing (interSet set others)
          | _ => some (.encoded rplyArr [])
  | _ => none

theorem sdiffCommand_does (sound : Sound E dict) (args : List Bss) :
    Does env E L dict gain (sdiffListing dict args) (sdiffCommand env dict args) := by
  rcases args with _ | ⟨first, _ | ⟨second, rest⟩⟩
  · exact does_fail sound numArgs
  · exact does_fail sound numArgs
  · cases all : setsAt dict (first :: second :: rest) with
    | none =>
      simp only [sdiffCommand, sdiffListing, all]
      exact does_fail sound wrongType
    | some sets =>
      have made := setsAt_madeOf sound all
      rcases sets with _ | ⟨_ | set, others⟩
      · simp only [sdiffCommand, sdiffListing, all]
        exact does_fill_nothing sound
      · simp only [sdiffCommand, sdiffListing, all]
        exact does_fill_nothing sound
      · simp only [sdiffCommand, sdiffListing, all]
        exact membersReply_does sound (diffSet_madeOf (made set List.mem_cons_self) others)

theorem sunionCommand_does (sound : Sound E dict) (args : List Bss) :
    Does env E L dict gain (sunionListing dict args) (sunionCommand env dict args) := by
  rcases args with _ | ⟨first, _ | ⟨second, rest⟩⟩
  · exact does_fail sound numArgs
  · exact does_fail sound numArgs
  · cases all : setsAt dict (first :: second :: rest) with
    | none =>
      simp only [sunionCommand, sunionListing, all]
      exact does_fail sound wrongType
    | some sets =>
      simp only [sunionCommand, sunionListing, all]
      exact membersReply_does sound (unionSet_madeOf (setsAt_madeOf sound all))

theorem mem_of_mapM_id {sets : List (Option (Dict Unit))} {all : List (Dict Unit)}
    (present : sets.mapM id = some all) {set : Dict Unit} (member : set ∈ all) :
    some set ∈ sets := by
  induction sets generalizing all with
  | nil =>
    cases present
    cases member
  | cons own rest inductionHypothesis =>
    rw [List.mapM_cons] at present
    cases own with
    | none => cases present
    | some own =>
      cases others : rest.mapM id with
      | none =>
        rw [others] at present
        cases present
      | some tail =>
        rw [others] at present
        cases present
        rcases List.mem_cons.mp member with rfl | inside
        · exact List.mem_cons_self
        · exact List.mem_cons_of_mem _ (inductionHypothesis others inside)

theorem sinterCommand_does (sound : Sound E dict) (args : List Bss) :
    Does env E L dict gain (sinterListing dict args) (sinterCommand env dict args) := by
  rcases args with _ | ⟨first, _ | ⟨second, rest⟩⟩
  · exact does_fail sound numArgs
  · exact does_fail sound numArgs
  · cases all : setsAt dict (first :: second :: rest) with
    | none =>
      simp only [sinterCommand, sinterListing, all]
      exact does_fail sound wrongType
    | some sets =>
      cases present : sets.mapM id with
      | none =>
        simp only [sinterCommand, sinterListing, all, present]
        exact does_fill_nothing sound
      | some own =>
        cases own with
        | nil =>
          simp only [sinterCommand, sinterListing, all, present]
          exact does_fill_nothing sound
        | cons set others =>
          simp only [sinterCommand, sinterListing, all, present]
          refine membersReply_does sound (interSet_madeOf fun own member => ?_)
          exact setsAt_madeOf sound all own (mem_of_mapM_id present member)

/-! ### Scanning -/

/-- The elements a scan adds from a cursor on, with the counter of the array so far, and the cursor
it ends with. -/
def scanElems (env : Env) (set : Dict Unit) (pattern : Option Bytes) (count : Int) :
    Nat → UInt32 → UInt8 → List Elem × UInt32
  | 0, cursor, _ => ([], cursor)
  | fuel + 1, cursor, counter =>
      match (set.hashTbl (cursor &&& set.bitMask).toNat).flatMap (matchElems env pattern),
        (cursor + 1) &&& set.bitMask with
      | here, next =>
          if next ≠ 0 ∧ ((counter + UInt8.ofNat here.length).toNat : Int) - 1 < count then
            match scanElems env set pattern count fuel next
                (counter + UInt8.ofNat here.length) with
            | (rest, last) => (here ++ rest, last)
          else
            (here, next)

theorem dictScan_eq (env : Env) (set : Dict Unit) (pattern : Option Bytes) (cursor : UInt32)
    (sh : Shared) :
    dictScan set cursor (addkeyToArr env pattern) sh =
      (addAll sh ((set.hashTbl (cursor &&& set.bitMask).toNat).flatMap (matchElems env pattern)),
        (cursor + 1) &&& set.bitMask) := by
  rw [dictScan]
  congr 1
  generalize set.hashTbl (cursor &&& set.bitMask).toNat = chain
  induction chain generalizing sh with
  | nil => rfl
  | cons entry rest inductionHypothesis =>
    rw [List.foldl_cons, addkeyToArr_eq, List.flatMap_cons, addAll_append]
    exact inductionHypothesis _

/-- A scan adds elements that depend on nothing in the array but its counter. -/
theorem scanLoop_eq (env : Env) (set : Dict Unit) (pattern : Option Bytes) (count : Int)
    (fuel : Nat) (cursor : UInt32) (sh : Shared) :
    scanLoop env set pattern count fuel cursor sh =
      (addAll sh (scanElems env set pattern count fuel cursor sh.rplyArrLen).1,
        (scanElems env set pattern count fuel cursor sh.rplyArrLen).2) := by
  induction fuel generalizing cursor sh with
  | zero => rfl
  | succ fuel inductionHypothesis =>
    simp only [scanLoop, scanElems, dictScan_eq, rplyArrLen_addAll]
    split
    · simp [inductionHypothesis]
    · rfl

theorem masked_toNat {V : Type} {set : Dict V} (sized : set.Sized) (cursor : UInt32) :
    (cursor &&& set.bitMask).toNat = cursor.toNat % 2 ^ set.power := by
  have mask : set.bitMask.toNat = 2 ^ set.power - 1 := by
    have whole := sized.mask
    omega
  rw [UInt32.toNat_and, mask, Nat.and_two_pow_sub_one_eq_mod]

theorem nextCursor_toNat {set : Dict Unit} (sized : set.Sized) (cursor : UInt32) :
    ((cursor + 1) &&& set.bitMask).toNat =
      ((cursor &&& set.bitMask).toNat + 1) % 2 ^ set.power := by
  have divides : 2 ^ set.power ∣ 2 ^ 32 :=
    Nat.pow_dvd_pow 2 (Nat.le_trans sized.power_le (by decide))
  rw [masked_toNat sized, masked_toNat sized, UInt32.toNat_add, Nat.mod_mod_of_dvd _ divides,
    Nat.mod_add_mod]
  rfl

/-- A round either ends at the last slot or leads to the next one. -/
theorem nextCursor_cases {set : Dict Unit} (sized : set.Sized) (cursor : UInt32) :
    ((cursor + 1) &&& set.bitMask = 0 ∧
      (cursor &&& set.bitMask).toNat + 1 = 2 ^ set.power) ∨
    ((cursor + 1) &&& set.bitMask ≠ 0 ∧
      ((cursor + 1) &&& set.bitMask).toNat = (cursor &&& set.bitMask).toNat + 1 ∧
      (cursor &&& set.bitMask).toNat + 1 < 2 ^ set.power) := by
  have next := nextCursor_toNat sized cursor
  have below : (cursor &&& set.bitMask).toNat < 2 ^ set.power := by
    rw [masked_toNat sized]
    exact Nat.mod_lt _ (Nat.two_pow_pos _)
  rcases Nat.lt_or_eq_of_le below with inside | last
  · rw [Nat.succ_eq_add_one] at inside
    rw [Nat.mod_eq_of_lt inside] at next
    refine Or.inr ⟨fun zero => ?_, next, inside⟩
    rw [zero] at next
    cases next
  · rw [Nat.succ_eq_add_one] at last
    rw [last, Nat.mod_self] at next
    exact Or.inl ⟨UInt32.toNat_inj.mp next, last⟩

/-- The cursor a round leads to is within the mask. -/
theorem nextCursor_masked (set : Dict Unit) (cursor : UInt32) :
    (cursor + 1) &&& set.bitMask &&& set.bitMask = (cursor + 1) &&& set.bitMask := by
  rw [UInt32.and_assoc, UInt32.and_self]

/-- One round for every slot is enough: the cursor is back at zero then, and more fuel changes
nothing. -/
theorem scanLoop_enough (env : Env) {set : Dict Unit} (sized : set.Sized)
    (pattern : Option Bytes) (count : Int) (fuel extra : Nat) (cursor : UInt32) (sh : Shared)
    (enough : set.bitMask.toNat ≤ fuel + (cursor &&& set.bitMask).toNat) :
    scanLoop env set pattern count (fuel + 1 + extra) cursor sh =
      scanLoop env set pattern count (fuel + 1) cursor sh := by
  have whole := sized.mask
  induction fuel generalizing cursor sh with
  | zero =>
    rcases nextCursor_cases sized cursor with ⟨done, -⟩ | ⟨-, -, inside⟩
    · rw [Nat.zero_add, Nat.add_comm, scanLoop, scanLoop]
      simp only [dictScan_eq, done, ne_eq, not_true_eq_false, false_and, if_false]
    · omega
  | succ fuel inductionHypothesis =>
    rw [Nat.add_right_comm, scanLoop, scanLoop]
    simp only [dictScan_eq]
    split
    · rename_i goesOn
      refine inductionHypothesis _ _ ?_
      rcases nextCursor_cases sized cursor with ⟨done, -⟩ | ⟨-, step, -⟩
      · exact absurd done goesOn.1
      · rw [nextCursor_masked, step]
        omega
    · rfl

/-- Every element is added for an entry of the table. -/
theorem scanElems_mem (env : Env) (set : Dict Unit) (pattern : Option Bytes) (count : Int)
    (fuel : Nat) (cursor : UInt32) (counter : UInt8) {elem : Elem}
    (member : elem ∈ (scanElems env set pattern count fuel cursor counter).1) :
    ∃ index, ∃ entry ∈ set.hashTbl index, elem ∈ matchElems env pattern entry := by
  induction fuel generalizing cursor counter with
  | zero => cases member
  | succ fuel inductionHypothesis =>
    simp only [scanElems] at member
    have own (inHere : elem ∈ (set.hashTbl (cursor &&& set.bitMask).toNat).flatMap
        (matchElems env pattern)) :
        ∃ index, ∃ entry ∈ set.hashTbl index, elem ∈ matchElems env pattern entry :=
      ⟨_, List.mem_flatMap.mp inHere⟩
    split at member
    · rcases List.mem_append.mp member with here | later
      · exact own here
      · exact inductionHypothesis _ _ later
    · exact own member

/-- The element `SSCAN` starts the array with. -/
def cursorElem (env : Env) : Elem := ⟨some (bssCreate env env.fresh (bytes "0")), needFree⟩

/-- An element after a string was written to in place. -/
def Elem.refresh (bss : Bss) (elem : Elem) : Elem :=
  { elem with bss := elem.bss.map fun held => if held.id = bss.id then bss else held }

@[simp]
theorem elems_overwrite (sh : Shared) (bss : Bss) :
    (sh.overwrite bss).elems = sh.elems.map (Elem.refresh bss) := by
  rw [Shared.elems, Shared.elems, List.map_map]
  rfl

theorem refresh_ids (bss : Bss) (elem : Elem) :
    (elem.refresh bss).freed = elem.freed ∧ (elem.refresh bss).read = elem.read := by
  obtain ⟨held, type⟩ := elem
  cases held with
  | none => exact ⟨rfl, rfl⟩
  | some held =>
    have same : (if held.id = bss.id then bss else held).id = held.id := by
      split
      · rename_i same
        exact same.symm
      · rfl
    constructor
    · simp only [Elem.freed, Elem.refresh, Option.map_some, same]
    · simp only [Elem.read, Elem.refresh, Option.map_some, same]

/-- The array after a scan of a set: the cursor and the members that match. -/
def scannedElems (env : Env) (set : Dict Unit) (count : Int) (pattern : Option Bytes)
    (cursor : Int) : List Elem × UInt32 :=
  scanElems env set pattern count (set.bitMask.toNat + 2) (UInt32.ofNat cursor.toNat) 1

/-- The loop of a call adds the scanned elements after the cursor. -/
theorem scanLoop_filled (env : Env) (set : Dict Unit) (count : Int) (pattern : Option Bytes)
    (cursor : Int) (sh : Shared) :
    scanLoop env set pattern count (set.bitMask.toNat + 2) (UInt32.ofNat cursor.toNat)
        (addAll (resetReplyArr sh) [⟨some (bssCreate env env.fresh (bytes "0")), needFree⟩]) =
      (addAll (resetReplyArr sh) (cursorElem env :: (scannedElems env set count pattern cursor).1),
        (scannedElems env set count pattern cursor).2) := by
  rw [scanLoop_eq, rplyArrLen_addAll, ← addAll_append]
  rfl

/-- The string the cursor is written to. -/
def cursorBss (env : Env) (last : UInt32) : Except Fault (Bss × Int) :=
  bssAddSub env (env.fresh + 1) (bssCreate env env.fresh (bytes "0")) last.toNat 1

/-- What a scan of an object lists. -/
def scanListing (env : Env) (count : Int) (pattern : Option Bytes) (cursor : Int) :
    Option Obj → Option Listing
  | some (.set set) =>
      match cursorBss env (scannedElems env set count pattern cursor).2 with
      | .error _ => none
      | .ok (numBss, _) =>
          some (.encoded rplyDbArr ((cursorElem env ::
            (scannedElems env set count pattern cursor).1).map (Elem.refresh numBss)))
  | some _ => none
  | none => some (.encoded rplyDbArr [cursorElem env])

/-- What `SSCAN` lists. -/
def sscanListing (env : Env) (dict : Dict Obj) : List Bss → Option Listing
  | key :: cursorArg :: options =>
      if (bss2int cursorArg).2 ≠ 0 ∨ (bss2int cursorArg).1 > uint32Max ∨
          (bss2int cursorArg).1 < 0 then
        none
      else
        match scanOptions options 10 none with
        | none => none
        | some (count, pattern) =>
            scanListing env count pattern (bss2int cursorArg).1 (dictLookUp dict key)
  | _ => none

theorem cursorElem_freed (env : Env) : (cursorElem env).freed = [env.fresh] := by
  have string : ¬ (strNil &&& needFree ≠ 0) := by decide
  have owned : needFree &&& needFree ≠ 0 := by decide
  show (if strNil &&& needFree ≠ 0 then []
    else if needFree &&& needFree ≠ 0 then [env.fresh] else []) = [env.fresh]
  rw [if_neg string, if_pos owned]

theorem count_fresh_le (env : Env) (args : List Bss) (id : Nat) :
    [env.fresh].count id ≤ (spent env args).count id :=
  count_le_spent env ((List.Sublist.cons_cons _ (List.nil_sublist _)).trans
    (List.sublist_append_right _ _)) id

theorem fresh_mem_spent (env : Env) (args : List Bss) : env.fresh ∈ spent env args :=
  List.mem_append_right _ List.mem_cons_self

/-- The effect of an array that starts with the cursor, written to or not. -/
theorem scan_effect (sound : Sound E dict) {args : List Bss} {elems : List Elem}
    (lent : Lent dict [] elems) {write : Elem → Elem}
    (kept : ∀ elem, (write elem).freed = elem.freed ∧ (write elem).read = elem.read)
    (answer : Answer) :
    Effect E L dict (spent env args) (answer.encodes (some ((cursorElem env :: elems).map write)))
      dict (some ((cursorElem env :: elems).map write)) answer := by
  have freed : (cursorElem env :: elems).flatMap Elem.freed = [env.fresh] := by
    rw [List.flatMap_cons, lent.freed, List.append_nil, cursorElem_freed]
  have same : filled (some ((cursorElem env :: elems).map write)) =
      (cursorElem env :: elems).map write := rfl
  refine ⟨sound, fun id => ?_, fun id member => ?_, ?_, fun _ _ => Option.some_ne_none _,
    fun _ => Or.inr rfl, rfl⟩
  · rw [same, List.flatMap_map, List.flatMap_congr fun elem _ => (kept elem).1, freed]
    exact Nat.add_le_add_left (count_fresh_le env args id) _
  · rw [same, List.flatMap_map, List.flatMap_congr fun elem _ => (kept elem).2] at member
    rcases List.mem_append.mp (show id ∈ (cursorElem env).read ++ elems.flatMap Elem.read from
      member) with first | later
    · rw [cursorElem, read_ni (by decide), List.mem_singleton] at first
      rw [first]
      exact Or.inr (fresh_mem_spent env args)
    · exact Or.inl ((lent.read id later).resolve_right List.not_mem_nil)
  · rw [same, Apart, List.pairwise_map]
    refine .cons (fun later member id released => ?_) ?_
    · rw [(kept _).1, cursorElem_freed] at released
      rw [List.mem_singleton.mp released, (kept later).2]
      exact ⟨fresh_mem_spent env args, fun other read =>
        ((lent later member).2 other read).resolve_right List.not_mem_nil⟩
    · refine List.pairwise_of_forall_mem_list fun earlier member later _ id released => ?_
      rw [(kept earlier).1, (lent earlier member).1] at released
      cases released

theorem scannedElems_lent (sound : Sound E dict) {set : Dict Unit}
    (answer : dictLookUp dict key = some (.set set)) (count : Int) (pattern : Option Bytes)
    (cursor : Int) : Lent dict gain (scannedElems env set count pattern cursor).1 := by
  intro elem member
  obtain ⟨inside, -, held⟩ := Kind.set_lawful.inner sound answer
  obtain ⟨index, entry, inSlot, listed⟩ := scanElems_mem _ _ _ _ _ _ _ member
  obtain rfl := matchElems_key listed
  have located := (inside.placed.located index entry inSlot).1
  have inEntries : entry ∈ set.entries := by
    rw [mem_entries inside.placed.sized inside.placed.located, located]
    exact inSlot
  exact lent_normal (Or.inl (held _ (key_mem_ids inEntries)))

/-- The rest of `sscan_command`: the reply array is started, the set is looked up and scanned, and
the cursor is filled in. -/
def scanReply (env : Env) (dict : Dict Obj) (key : Bss) (cursor count : Int)
    (pattern : Option Bytes) : Run Obj := fun sh =>
  match dictLookUp dict key with
  | some (.set set) =>
      match scanLoop env set pattern count (set.bitMask.toNat + 2)
          (UInt32.ofNat cursor.toNat) (addAll (resetReplyArr sh)
            [⟨some (bssCreate env env.fresh (bytes "0")), needFree⟩]) with
      | (sh, cursor) =>
          match bssAddSub env (env.fresh + 1)
              (bssCreate env env.fresh (bytes "0")) cursor.toNat 1 with
          | .error stop => .error (.fault stop)
          | .ok (numBss, _) => dbarrReply env dict (sh.overwrite numBss)
  | some _ =>
      failReply dict wrongType (addAll (resetReplyArr sh)
        [⟨some (bssCreate env env.fresh (bytes "0")), needFree⟩])
  | none =>
      dbarrReply env dict (addAll (resetReplyArr sh)
        [⟨some (bssCreate env env.fresh (bytes "0")), needFree⟩])

theorem cursor_inRange {cursorArg : Bss} {cursor : Int}
    (number : bss2int cursorArg = (cursor, 0)) (least : 0 ≤ cursor) (most : cursor ≤ uint32Max) :
    ¬ ((bss2int cursorArg).2 ≠ 0 ∨ (bss2int cursorArg).1 > uint32Max ∨
      (bss2int cursorArg).1 < 0) := by
  rw [number]
  omega

theorem sscanCommand_refused {key cursorArg : Bss} {options : List Bss}
    (valid : ¬ ((bss2int cursorArg).2 ≠ 0 ∨ (bss2int cursorArg).1 > uint32Max ∨
      (bss2int cursorArg).1 < 0))
    (refused : scanOptions options 10 none = none) :
    sscanCommand env dict (key :: cursorArg :: options) = failReply dict invSynx := by
  simp only [sscanCommand, if_neg valid, refused]

/-- A cursor in range and options that are accepted lead to the rest of the command. -/
theorem sscanCommand_accepted {key cursorArg : Bss} {options : List Bss} {count : Int}
    {pattern : Option Bytes}
    (valid : ¬ ((bss2int cursorArg).2 ≠ 0 ∨ (bss2int cursorArg).1 > uint32Max ∨
      (bss2int cursorArg).1 < 0))
    (accepted : scanOptions options 10 none = some (count, pattern)) :
    sscanCommand env dict (key :: cursorArg :: options) =
      scanReply env dict key (bss2int cursorArg).1 count pattern := by
  simp only [sscanCommand, if_neg valid, accepted]
  rfl

theorem scanReply_does (sound : Sound E dict) (args : List Bss) (key : Bss) (cursor count : Int)
    (pattern : Option Bytes) :
    Does env E L dict (spent env args) (scanListing env count pattern cursor (dictLookUp dict key))
      (scanReply env dict key cursor count pattern) := by
  have nothing : Lent dict [] [] := fun _ member => by cases member
  unfold scanReply
  cases answer : dictLookUp dict key with
  | none =>
    simp only [scanListing]
    exact .answers dict _ (.array rplyDbArr)
      (scan_effect sound nothing (fun _ => ⟨rfl, rfl⟩) (.array rplyDbArr))
      fun sh => ⟨_, Fills.some sh [cursorElem env], rfl⟩
  | some obj =>
    cases obj with
    | set set =>
      have lent : Lent dict [] (scannedElems env set count pattern cursor).1 :=
        scannedElems_lent sound answer count pattern _
      simp only [scanListing, scanLoop_filled]
      cases written : cursorBss env (scannedElems env set count pattern cursor).2 with
      | error stop =>
        rw [cursorBss] at written
        simp only [written]
        exact does_fault stop _
      | ok pair =>
        obtain ⟨numBss, ret⟩ := pair
        rw [cursorBss] at written
        simp only [written]
        refine .answers dict _ (.array rplyDbArr)
          (scan_effect sound lent (refresh_ids numBss) (.array rplyDbArr))
          fun sh => ⟨_, ?_, rfl⟩
        have fills := Fills.some sh (cursorElem env ::
          (scannedElems env set count pattern cursor).1)
        refine ⟨fills.curr, fills.released, fills.stale, ?_⟩
        rw [elems_overwrite, fills.elems]
        simp only [Option.elim, wrapped, List.map_drop, List.length_map]
    | _ =>
      simp only [scanListing]
      refine .answers dict _ (.scalar rplyFail (bytes wrongType))
        (scan_effect sound nothing (fun _ => ⟨rfl, rfl⟩) (.scalar rplyFail (bytes wrongType)))
        fun sh => ⟨_, Fills.some sh [cursorElem env], ?_⟩
      rw [failReply_eq]
      rfl

theorem sscanCommand_does (sound : Sound E dict) (args : List Bss) :
    Does env E L dict (spent env args) (sscanListing env dict args)
      (sscanCommand env dict args) := by
  rcases args with _ | ⟨key, _ | ⟨cursorArg, options⟩⟩
  · exact does_fail sound numArgs
  · exact does_fail sound numArgs
  · by_cases invalid : (bss2int cursorArg).2 ≠ 0 ∨ (bss2int cursorArg).1 > uint32Max ∨
        (bss2int cursorArg).1 < 0
    · simp only [sscanCommand, sscanListing, if_pos invalid]
      exact does_fail sound invCursor
    · cases parsed : scanOptions options 10 none with
      | none =>
        simp only [sscanCommand_refused invalid parsed, sscanListing, if_neg invalid, parsed]
        exact does_fail sound invSynx
      | some chosen =>
        obtain ⟨count, pattern⟩ := chosen
        simp only [sscanCommand_accepted invalid parsed, sscanListing, if_neg invalid, parsed]
        exact scanReply_does sound _ key _ count pattern

end PseudoRedis

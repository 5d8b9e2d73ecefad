/-
This file proves what the functions of `dict.c` that change a dictionary do to its memory: they
follow no pointer to what is not allocated, the table they leave is the one of `Dict`, what
they are handed is the dictionary's afterwards, and whatever it drops is released.
-/

import PseudoRedis.DictLaid

namespace PseudoRedis

open Chains

variable {V : Type} [DictVal V] {heap heap' : DictHeap V} {placed placed' : Placement V}
  {spot other : Addr × DictEntry V} {front back : List (Addr × DictEntry V)}
  {key val : Addr} {name : Bss} {obj : V} {room : Option Addr}

omit [DictVal V] in
/-- The dictionary with one chain of the placement changed. -/
theorem DictHeap.dict_set (heap : DictHeap V) (placed : Placement V) (hash : Nat)
    (chain : List (Addr × DictEntry V)) :
    heap.dict (Slots.set placed hash chain) =
      (heap.dict placed).relink hash (chain.map Prod.snd) := by
  simp only [DictHeap.dict, Dict.relink, Slots.map_set]

/-! ### What is handed over -/

/-- A key and a value that the caller hands over, and room for an entry: none of them is in use. -/
structure DictHeap.Offered (heap : DictHeap V) (key val : Addr) (name : Bss) (obj : V)
    (room : Option Addr) : Prop where
  known : heap.key key = some name
  short : name.Short
  freshKey : ¬ heap.OwnsKey key
  valAt : heap.ValAt val obj
  freshVal : ¬ heap.OwnsVal val
  fresh : ∀ addr ∈ room, heap.entry addr = none

/-- A run that ends with a certain dictionary in memory and has kept the account. -/
structure DictHeap.Leaves (heap : DictHeap V) (run : Except HeapFault (DictHeap V × Int))
    (ret : Int) (dict : Dict V) (heap' : DictHeap V) : Prop where
  ran : run = .ok (heap', ret)
  laid : ∃ placed', heap'.Laid placed' ∧ heap'.dict placed' = dict
  accounts : heap.Accounts heap'

/-! ### Adding an entry -/

/-- A cell at an address that was free. -/
def DictHeap.made (heap : DictHeap V) (addr key val : Addr) : DictHeap V :=
  { heap with entry := Function.update heap.entry addr (some ⟨key, val, none⟩) }

theorem DictHeap.Laid.not_linked (laid : heap.Laid placed) {addr : Addr}
    (gone : heap.entry addr = none) : ¬ heap.Linked addr := by
  intro linked
  obtain ⟨index, spot, member, rfl⟩ := laid.linked_iff.mp linked
  obtain ⟨key, val, fields, -⟩ := laid.holds index spot member
  rw [DictHeap.entry_of_fields fields] at gone
  cases gone

theorem DictHeap.Laid.made (laid : heap.Laid placed) {addr : Addr}
    (offered : heap.Offered key val name obj (some addr)) :
    (heap.made addr key val).Laid placed ∧
      (heap.made addr key val).Loose placed (addr, ⟨name, obj⟩) ∧
      (heap.made addr key val).next addr = none ∧
      ∀ other, other ≠ addr → (heap.made addr key val).entry other = heap.entry other := by
  have unlinked := laid.not_linked (offered.fresh addr rfl)
  have others {other : Addr} (different : other ≠ addr) :
      (heap.made addr key val).entry other = heap.entry other := Function.update_of_ne different _ _
  have fields : (heap.made addr key val).fields addr = some (key, val) := by
    simp only [DictHeap.fields, DictHeap.made, Function.update_self, Option.map_some]
  have apart {index : Nat} {other : Addr × DictEntry V} (member : other ∈ placed index) :
      other.1 ≠ addr := fun same => unlinked (laid.linked_iff.mpr ⟨index, other, member, same⟩)
  refine ⟨laid.frame rfl rfl rfl (fun other linked => ?_) (fun _ _ => rfl) fun _ _ => rfl,
    ⟨⟨key, val, fields, offered.known, offered.valAt⟩, fun index other member => apart member, ?_,
      ?_⟩, ?_, fun other => others⟩
  · exact others fun same => unlinked (same ▸ linked)
  · intro index other member key₁ val₁ val₂ own own'
    rw [fields] at own
    cases own
    have theirs : heap.fields other.1 = some (key, val₂) := by
      rw [← own', DictHeap.fields, DictHeap.fields, others (apart member)]
    exact offered.freshKey (laid.ownsKey_iff.mpr ⟨index, other, member, val₂, theirs⟩)
  · intro index other member key₁ key₂ val' own own'
    rw [fields] at own
    cases own
    by_contra plain
    have theirs : heap.fields other.1 = some (key₂, val) := by
      rw [← own', DictHeap.fields, DictHeap.fields, others (apart member)]
    exact offered.freshVal (laid.ownsVal_iff.mpr ⟨plain, index, other, member, key₂, theirs⟩)
  · simp only [DictHeap.next, DictHeap.made, Function.update_self, Option.bind_some]

omit [DictVal V] in
theorem mem_set_self (placed : Placement V) (hash : Nat) (front : List (Addr × DictEntry V))
    (spot : Addr × DictEntry V) (back : List (Addr × DictEntry V)) :
    spot ∈ Slots.set placed hash (front ++ spot :: back) hash := by
  rw [Slots.set_self]
  exact List.mem_append_right _ List.mem_cons_self

omit [DictVal V] in
theorem mem_set_append {hash index : Nat} (member : spot ∈ placed index)
    (other : Addr × DictEntry V) : spot ∈ Slots.set placed hash (placed hash ++ [other]) index := by
  by_cases same : index = hash
  · subst same
    rw [Slots.set_self]
    exact List.mem_append_left _ member
  · rwa [Slots.set_of_ne _ _ same]

/-- The end of both additions: the entry is hung behind the last one of its chain. -/
theorem DictHeap.Laid.addEntry (laid : heap.Laid placed) {addr : Addr}
    (offered : heap.Offered key val name obj (some addr))
    (filed : ({ (heap.dict placed).relink (heap.slot name)
        ((placed (heap.slot name)).map Prod.snd ++ [⟨name, obj⟩]) with
      entryNum := heap.entryNum + 1 } : Dict V).Placed) :
    ∃ heap', heap.Leaves
        (heap.addEntry (heap.slot name) (lastAddr (placed (heap.slot name))) key val (some addr)) 0
        { (heap.dict placed).relink (heap.slot name)
            ((placed (heap.slot name)).map Prod.snd ++ [⟨name, obj⟩]) with
          entryNum := heap.entryNum + 1 } heap' ∧
      heap'.OwnsKey key ∧ (val ≠ setValPtr → heap'.OwnsVal val) := by
  obtain ⟨laid₁, loose, last, others⟩ := laid.made offered
  have table : (heap.made addr key val).dict (Slots.set placed (heap.slot name)
      (placed (heap.slot name) ++ [(addr, ⟨name, obj⟩)])) =
        (heap.dict placed).relink (heap.slot name)
          ((placed (heap.slot name)).map Prod.snd ++ [⟨name, obj⟩]) := by
    rw [DictHeap.dict_set, List.map_append]
    rfl
  obtain ⟨heap', linked, relinked, count, kept, laid'⟩ := laid₁.link loose last
    (by rw [table]; exact filed.recount heap.entryNum)
  have inside := mem_set_self placed (heap.slot name) (placed (heap.slot name))
    (addr, ⟨name, obj⟩) []
  have own : heap'.fields addr = some (key, val) := by
    rw [relinked.fields]
    simp only [DictHeap.fields, DictHeap.made, Function.update_self, Option.map_some]
  have unlinked := laid.not_linked (offered.fresh addr rfl)
  refine ⟨{ heap' with entryNum := heap'.entryNum + 1 }, ⟨?_, ⟨_, laid'.count _, ?_⟩, ?_⟩, ?_, ?_⟩
  · show ((heap.made addr key val).link (heap.slot name) (lastAddr (placed (heap.slot name)))
      addr).bind _ = _
    rw [linked]
    rfl
  · rw [← table]
    simp only [DictHeap.dict, relinked.power, relinked.bitMask, count]
    rfl
  · refine laid.accounts (fun index spot member key' val' fields => ?_) (fun other apart held => ?_)
      (fun other _ => congrFun relinked.key other) fun other _ => congrFun relinked.obj other
    · have notNew : spot.1 ≠ addr := fun same =>
        unlinked (laid.linked_iff.mpr ⟨index, spot, member, same⟩)
      have fields' : heap'.fields spot.1 = some (key', val') := by
        rw [relinked.fields, ← fields, DictHeap.fields, DictHeap.fields, others spot.1 notNew]
      exact (laid'.count _).keeps (mem_set_append member _) fields'
    · have notNew : other ≠ addr := fun same => held (same ▸ offered.fresh addr rfl)
      have stays : ¬ (heap.made addr key val).Linked other := fun linked =>
        apart (laid.linked_iff.mpr (laid₁.linked_iff.mp linked))
      exact (kept other stays).trans (others other notNew)
  · exact (laid'.count _).ownsKey_iff.mpr ⟨_, _, inside, val, own⟩
  · exact fun plain => (laid'.count _).ownsVal_iff.mpr ⟨plain, _, _, inside, key, own⟩

/-- What a look-up that finds nothing, and one that finds an entry, say of the dictionary. -/
theorem DictHeap.Laid.lookUp_cases (laid : heap.Laid placed) (known : heap.key key = some name) :
    (heap.dictLookUpHash (heap.slot name) key = .ok ⟨none, lastAddr (placed (heap.slot name))⟩ ∧
      PseudoRedis.dictLookUpHash (heap.dict placed) ((heap.dict placed).slot name) name =
        ⟨(placed (heap.slot name)).map Prod.snd, []⟩ ∧
      PseudoRedis.dictLookUp (heap.dict placed) name = none) ∨
    ∃ front spot back prev, placed (heap.slot name) = front ++ spot :: back ∧
      heap.dictLookUpHash (heap.slot name) key = .ok ⟨some spot.1, prev⟩ ∧
      PseudoRedis.dictLookUpHash (heap.dict placed) ((heap.dict placed).slot name) name =
        ⟨front.map Prod.snd, spot.2 :: back.map Prod.snd⟩ ∧
      PseudoRedis.dictLookUp (heap.dict placed) name = some spot.2.val := by
  obtain ⟨front, rest, cut, found, walked, -⟩ := laid.lookUp known
  have iter : PseudoRedis.dictLookUpIter (heap.dict placed) name =
      ⟨front.map Prod.snd, rest.map Prod.snd⟩ := walked
  cases rest with
  | nil =>
    rw [List.append_nil] at cut
    subst cut
    exact Or.inl ⟨found, walked, by rw [PseudoRedis.dictLookUp, iter]; rfl⟩
  | cons spot back =>
    exact Or.inr ⟨front, spot, back, lastAddr front, cut, found, walked,
      by rw [PseudoRedis.dictLookUp, iter]; rfl⟩

/-! ### Replacing an entry -/

omit [DictVal V] in
theorem mem_set_replaced {hash index : Nat} (cut : placed hash = front ++ spot :: back)
    (member : other ∈ placed index) (different : other.1 ≠ spot.1) (entry : DictEntry V) :
    other ∈ Slots.set placed hash (front ++ (spot.1, entry) :: back) index := by
  by_cases same : index = hash
  · subst same
    rw [cut] at member
    rw [Slots.set_self]
    rcases List.mem_append.mp member with inFront | inRest
    · exact List.mem_append_left _ inFront
    · rcases List.mem_cons.mp inRest with rfl | inBack
      · exact absurd rfl different
      · exact List.mem_append_right _ (List.mem_cons_of_mem _ inBack)
  · rwa [Slots.set_of_ne _ _ same]

/-- What an entry pointed to is released when it gets something else. -/
theorem DictHeap.Laid.replaced_accounts (laid : heap.Laid placed) {hash : Nat}
    (cut : placed hash = front ++ spot :: back) {oldKey oldVal : Addr} {entry : DictEntry V}
    (fields : heap.fields spot.1 = some (oldKey, oldVal))
    (laid' : (heap.replaced spot.1 key val oldKey oldVal).Laid
      (Slots.set placed hash (front ++ (spot.1, entry) :: back))) :
    heap.Accounts (heap.replaced spot.1 key val oldKey oldVal) := by
  have member : spot ∈ placed hash := cut ▸ List.mem_append_right _ List.mem_cons_self
  have owned : heap.OwnsKey oldKey := laid.ownsKey_iff.mpr ⟨hash, spot, member, oldVal, fields⟩
  refine laid.accounts (fun index other old key' val' own => ?_) (fun addr apart _ => ?_)
    (fun other apart => ?_) fun other apart => ?_
  · by_cases same : other.1 = spot.1
    · rw [same, fields] at own
      cases own
      refine ⟨Or.inl ?_, Or.inr (Function.update_self _ _ _), fun plain => Or.inr ?_⟩
      · exact laid'.linked_iff.mpr ⟨hash, _, mem_set_self _ _ _ _ _, same.symm⟩
      · rw [DictHeap.replaced, if_neg plain]
        exact Function.update_self _ _ _
    · exact laid'.keeps (mem_set_replaced cut old same entry)
        ((replaced_fields_of_ne same).trans own)
  · refine Function.update_of_ne (fun same => apart ?_) _ _
    exact laid.linked_iff.mpr ⟨hash, spot, member, same.symm⟩
  · refine Function.update_of_ne ?_ _ _
    rintro rfl
    exact apart owned
  · rw [DictHeap.replaced]
    split
    · rfl
    · rename_i plain
      refine Function.update_of_ne ?_ _ _
      rintro rfl
      exact apart (laid.ownsVal_iff.mpr ⟨plain, hash, spot, member, oldKey, fields⟩)

/-- `SET_VAL_PTR` is the value of an entry exactly if it is its pointer. -/
theorem DictHeap.Holds.setVal_iff (holds : heap.Holds spot) {oldKey oldVal : Addr}
    (fields : heap.fields spot.1 = some (oldKey, oldVal)) :
    oldVal = setValPtr ↔ DictVal.isSetValPtr spot.2.val = true := by
  obtain ⟨key', val', same, -, object⟩ := holds
  rw [fields] at same
  cases same
  split at object
  · rename_i setVal
    exact iff_of_true object setVal
  · rename_i plain
    exact iff_of_false object.1 plain

/-- The run of `dict_add` on a key that is there. -/
theorem dictAdd_found (known : heap.key key = some name) {prev : Option Addr}
    (found : heap.dictLookUpHash (heap.slot name) key = .ok ⟨some spot.1, prev⟩)
    (holds : heap.Holds spot) {oldKey oldVal : Addr}
    (fields : heap.fields spot.1 = some (oldKey, oldVal)) :
    heap.dictAdd key val room =
      .ok (heap.replaced spot.1 key (if oldVal = setValPtr then oldVal else val) oldKey oldVal,
        0) := by
  have cell := DictHeap.entry_of_fields fields
  obtain ⟨key', val', same, held, object⟩ := holds
  rw [fields] at same
  cases same
  simp only [DictHeap.dictAdd, known, load, bind, Except.bind, found, cell, DictHeap.freeKey, held,
    pure, Except.pure, DictHeap.setKey]
  by_cases setVal : oldVal = setValPtr
  · rw [if_pos setVal, if_pos setVal, DictHeap.replaced, if_pos setVal]
  · split at object
    · exact absurd object setVal
    · rw [if_neg setVal, if_neg setVal, DictHeap.replaced, if_neg setVal]
      simp only [DictHeap.destroyVal, load, object.2, bind, Except.bind, pure, Except.pure,
        DictHeap.setVal, Function.update_self, Function.update_idem]

/-! ### The additions -/

/-- The value pointer an addition leaves in an entry that is there. -/
theorem DictHeap.Offered.kept (offered : heap.Offered key val name obj room)
    (holds : heap.Holds spot) {oldKey oldVal : Addr}
    (fields : heap.fields spot.1 = some (oldKey, oldVal)) :
    heap.ValAt (if oldVal = setValPtr then oldVal else val)
        (if DictVal.isSetValPtr spot.2.val then spot.2.val else obj) ∧
      ¬ heap.OwnsVal (if oldVal = setValPtr then oldVal else val) := by
  have setVal := holds.setVal_iff fields
  by_cases kept : oldVal = setValPtr
  · rw [if_pos kept, if_pos (setVal.mp kept), DictHeap.ValAt, if_pos (setVal.mp kept)]
    exact ⟨kept, fun owns => owns.1 kept⟩
  · rw [if_neg kept, if_neg (setVal.not.mp kept)]
    exact ⟨offered.valAt, offered.freshVal⟩

/-- The dictionary with a new entry at the end of a chain. -/
theorem dictAdd_of_absent (walked : PseudoRedis.dictLookUpHash (heap.dict placed)
      ((heap.dict placed).slot name) name = ⟨(placed (heap.slot name)).map Prod.snd, []⟩) :
    PseudoRedis.dictAdd (heap.dict placed) name obj =
      { (heap.dict placed).relink (heap.slot name)
          ((placed (heap.slot name)).map Prod.snd ++ [⟨name, obj⟩]) with
        entryNum := heap.entryNum + 1 } := by
  simp only [PseudoRedis.dictAdd, walked]
  rfl

/-- The dictionary with another key and value in an entry. -/
theorem dictAdd_of_found {front back : List (Addr × DictEntry V)}
    (walked : PseudoRedis.dictLookUpHash (heap.dict placed) ((heap.dict placed).slot name) name =
      ⟨front.map Prod.snd, spot.2 :: back.map Prod.snd⟩) :
    PseudoRedis.dictAdd (heap.dict placed) name obj =
      heap.dict (Slots.set placed (heap.slot name) (front ++ (spot.1,
        ⟨name, if DictVal.isSetValPtr spot.2.val then spot.2.val else obj⟩) :: back)) := by
  rw [DictHeap.dict_set, List.map_append, List.map_cons]
  simp only [PseudoRedis.dictAdd, walked]
  rfl

/-- `dict_add` replaces the key of an entry, and its value unless that is `SET_VAL_PTR`; without an
entry it makes one, or returns `E_MEM_OUT` for lack of room. -/
theorem DictHeap.Laid.dictAdd (laid : heap.Laid placed)
    (offered : heap.Offered key val name obj room) :
    (room = none ∧ PseudoRedis.dictLookUp (heap.dict placed) name = none ∧
      heap.dictAdd key val room = .ok (heap, eMemOut)) ∨
    (room = none → PseudoRedis.dictLookUp (heap.dict placed) name ≠ none) ∧
      ∃ heap', heap.Leaves (heap.dictAdd key val room) 0
          (PseudoRedis.dictAdd (heap.dict placed) name obj) heap' ∧
        heap'.OwnsKey key := by
  have added := dictAdd_placed laid.filed offered.short obj
  rcases laid.lookUp_cases offered.known with ⟨found, walked, absent⟩ |
    ⟨front, spot, back, prev, cut, found, walked, present⟩
  · cases room with
    | none =>
      refine Or.inl ⟨rfl, absent, ?_⟩
      simp only [DictHeap.dictAdd, offered.known, load, bind, Except.bind, found,
        DictHeap.addEntry, DictHeap.dictEntryCreate]
    | some addr =>
      rw [dictAdd_of_absent walked] at added ⊢
      obtain ⟨heap', leaves, owns, -⟩ := laid.addEntry offered added
      refine Or.inr ⟨fun empty => absurd empty (Option.some_ne_none _), heap',
        ⟨?_, leaves.laid, leaves.accounts⟩, owns⟩
      rw [← leaves.ran]
      simp only [DictHeap.dictAdd, offered.known, load, bind, Except.bind, found]
  · have member : spot ∈ placed (heap.slot name) :=
      cut ▸ List.mem_append_right _ List.mem_cons_self
    have holds := laid.holds _ spot member
    obtain ⟨oldKey, oldVal, fields, -⟩ := laid.holds _ spot member
    obtain ⟨valAt, freshVal⟩ := offered.kept holds fields
    rw [dictAdd_of_found walked] at added ⊢
    have laid' := laid.replaced cut fields offered.known offered.freshKey valAt freshVal added
    refine Or.inr ⟨fun _ => present ▸ Option.some_ne_none _, _,
      ⟨dictAdd_found offered.known found holds fields, ⟨_, laid', rfl⟩,
        laid.replaced_accounts cut fields laid'⟩, ?_⟩
    exact laid'.ownsKey_iff.mpr ⟨_, _, mem_set_self _ _ _ _ _, _,
      replaced_fields_self _ _ _ _ _ _⟩

/-- `dict_add_shallow` does nothing when the key is there. -/
theorem DictHeap.Laid.dictAddShallow (laid : heap.Laid placed)
    (offered : heap.Offered key val name obj room) :
    (room = none ∧ PseudoRedis.dictLookUp (heap.dict placed) name = none ∧
      heap.dictAddShallow key val room = .ok (heap, eMemOut)) ∨
    (room = none → PseudoRedis.dictLookUp (heap.dict placed) name ≠ none) ∧
      ∃ heap', heap.Leaves (heap.dictAddShallow key val room) 0
          (PseudoRedis.dictAddShallow (heap.dict placed) name obj) heap' ∧
        (PseudoRedis.dictLookUp (heap.dict placed) name = none → heap'.OwnsKey key) := by
  rcases laid.lookUp_cases offered.known with ⟨found, walked, absent⟩ |
    ⟨front, spot, back, prev, cut, found, walked, present⟩
  · cases room with
    | none =>
      refine Or.inl ⟨rfl, absent, ?_⟩
      simp only [DictHeap.dictAddShallow, offered.known, load, bind, Except.bind, found,
        DictHeap.addEntry, DictHeap.dictEntryCreate]
    | some addr =>
      have same : PseudoRedis.dictAddShallow (heap.dict placed) name obj =
          PseudoRedis.dictAdd (heap.dict placed) name obj := by
        simp only [PseudoRedis.dictAddShallow, PseudoRedis.dictAdd, walked]
      have added := dictAdd_placed laid.filed offered.short obj
      rw [dictAdd_of_absent walked] at added
      rw [same, dictAdd_of_absent walked]
      obtain ⟨heap', leaves, owns, -⟩ := laid.addEntry offered added
      refine Or.inr ⟨fun empty => absurd empty (Option.some_ne_none _), heap',
        ⟨?_, leaves.laid, leaves.accounts⟩, fun _ => owns⟩
      rw [← leaves.ran]
      simp only [DictHeap.dictAddShallow, offered.known, load, bind, Except.bind, found]
  · have table : PseudoRedis.dictAddShallow (heap.dict placed) name obj = heap.dict placed := by
      simp only [PseudoRedis.dictAddShallow, walked]
    rw [table]
    refine Or.inr ⟨fun _ => present ▸ Option.some_ne_none _, heap,
      ⟨?_, ⟨placed, laid, rfl⟩, .refl heap⟩, fun absent => absurd absent ?_⟩
    · simp only [DictHeap.dictAddShallow, offered.known, load, bind, Except.bind, found]
      rfl
    · exact present ▸ Option.some_ne_none _

end PseudoRedis

/-
This file proves what `dict_rm` and `dict_rename` do to the memory of a dictionary. Both take
an entry out of its chain first. `dict_rm` releases it with its key and its value;
`dict_rename` gives its value to the entry of the new key, or hangs it in again under that
key, and releases what is left over.
-/

import PseudoRedis.DictUpdates

namespace PseudoRedis

open Chains

variable {V : Type} [DictVal V] {heap heap' : DictHeap V} {placed placed' : Placement V}
  {spot other : Addr × DictEntry V} {key val newKey : Addr} {name newName : Bss}

/-! ### Releasing an entry -/

/-- A loose entry can be released. -/
theorem DictHeap.Laid.released (laid : heap.Laid placed) (loose : heap.Loose placed spot)
    (fields : heap.fields spot.1 = some (key, val)) :
    (heap.released spot.1 key val).Laid placed := by
  refine laid.frame rfl rfl rfl (fun addr linked => ?_) (fun other owns => ?_) fun other owns => ?_
  · obtain ⟨index, another, member, rfl⟩ := laid.linked_iff.mp linked
    exact Function.update_of_ne (loose.apart index another member) _ _
  · obtain ⟨index, another, member, val', theirs⟩ := laid.ownsKey_iff.mp owns
    refine Function.update_of_ne ?_ _ _
    rintro rfl
    exact loose.alone index another member other val val' fields theirs
  · obtain ⟨plain, index, another, member, key', theirs⟩ := laid.ownsVal_iff.mp owns
    rw [DictHeap.released]
    split
    · rfl
    · refine Function.update_of_ne ?_ _ _
      rintro rfl
      exact plain (loose.owned index another member key key' other fields theirs)

/-! ### An entry out of its chain -/

/-- The memory when `dict_rm_nf` has taken an entry out. -/
structure DictHeap.Taken (heap heap₁ : DictHeap V) (placed : Placement V)
    (spot : Addr × DictEntry V) (oldKey oldVal : Addr) : Prop where
  laid : heap.Laid placed
  member : ∃ index, spot ∈ placed index
  fields : heap.fields spot.1 = some (oldKey, oldVal)
  relinked : Relinked heap heap₁
  others : ∀ addr, ¬ heap.Linked addr → heap₁.entry addr = heap.entry addr
  without : heap₁.Laid (placed.without spot.1)
  loose : heap₁.Loose (placed.without spot.1) spot

section Taken

variable {heap₁ : DictHeap V} {oldKey oldVal : Addr}

theorem DictHeap.Laid.taken (laid : heap.Laid placed) (known : heap.key key = some name) :
    (∃ prev, heap.dictRmNf key = .ok (heap, ⟨none, prev⟩) ∧
      PseudoRedis.dictRmNf (heap.dict placed) name = (heap.dict placed, none)) ∨
    ∃ heap₁ spot prev oldKey oldVal, heap.dictRmNf key = .ok (heap₁, ⟨some spot.1, prev⟩) ∧
      heap.Taken heap₁ placed spot oldKey oldVal ∧
      PseudoRedis.dictRmNf (heap.dict placed) name =
        (heap₁.dict (placed.without spot.1), some spot.2) := by
  refine (laid.rmNf known).imp id ?_
  rintro ⟨heap₁, spot, prev, member, ran, relinked, others, without, loose, taken, -⟩
  obtain ⟨oldKey, oldVal, fields, -⟩ := laid.holds _ spot member
  exact ⟨heap₁, spot, prev, oldKey, oldVal, ran,
    ⟨laid, ⟨_, member⟩, fields, relinked, others, without, loose⟩, taken⟩

variable (taken : heap.Taken heap₁ placed spot oldKey oldVal)
include taken

theorem DictHeap.Taken.fields₁ : heap₁.fields spot.1 = some (oldKey, oldVal) := by
  rw [taken.relinked.fields, taken.fields]

theorem DictHeap.Taken.ownsKey : heap.OwnsKey oldKey := by
  obtain ⟨index, member⟩ := taken.member
  exact taken.laid.ownsKey_iff.mpr ⟨index, spot, member, oldVal, taken.fields⟩

/-- What is the dictionary's without the entry was its own before. -/
theorem DictHeap.Taken.ownsKey_of (owns : heap₁.OwnsKey key) : heap.OwnsKey key ∧ key ≠ oldKey := by
  obtain ⟨index, another, inside, val', theirs⟩ := taken.without.ownsKey_iff.mp owns
  refine ⟨taken.laid.ownsKey_iff.mpr
    ⟨index, another, (Placement.mem_without.mp inside).1, val', ?_⟩, ?_⟩
  · rw [← taken.relinked.fields, theirs]
  · rintro rfl
    exact taken.loose.alone index another inside key oldVal val' taken.fields₁ theirs

theorem DictHeap.Taken.ownsVal_of (owns : heap₁.OwnsVal val) : heap.OwnsVal val ∧ val ≠ oldVal := by
  obtain ⟨plain, index, another, inside, key', theirs⟩ := taken.without.ownsVal_iff.mp owns
  refine ⟨taken.laid.ownsVal_iff.mpr
    ⟨plain, index, another, (Placement.mem_without.mp inside).1, key', ?_⟩, ?_⟩
  · rw [← taken.relinked.fields, theirs]
  · rintro rfl
    exact plain (taken.loose.owned index another inside oldKey key' val taken.fields₁ theirs)

theorem DictHeap.Taken.linked_of {addr : Addr} (linked : heap₁.Linked addr) :
    heap.Linked addr ∧ addr ≠ spot.1 := by
  obtain ⟨index, another, inside, rfl⟩ := taken.without.linked_iff.mp linked
  obtain ⟨old, different⟩ := Placement.mem_without.mp inside
  exact ⟨taken.laid.linked_iff.mpr ⟨index, another, old, rfl⟩, different⟩

/-- The account when something has become of the entry, its key and its value. -/
theorem DictHeap.Taken.accounts
    (self : (heap'.Linked spot.1 ∨ heap'.entry spot.1 = none) ∧
      (heap'.OwnsKey oldKey ∨ heap'.key oldKey = none) ∧
      (oldVal ≠ setValPtr → heap'.OwnsVal oldVal ∨ heap'.obj oldVal = none))
    (spots : ∀ index, ∀ other ∈ placed.without spot.1 index, ∀ key val,
      heap₁.fields other.1 = some (key, val) →
        (heap'.Linked other.1 ∨ heap'.entry other.1 = none) ∧
          (heap'.OwnsKey key ∨ heap'.key key = none) ∧
          (val ≠ setValPtr → heap'.OwnsVal val ∨ heap'.obj val = none))
    (entries : ∀ addr, addr ≠ spot.1 → ¬ heap₁.Linked addr → heap'.entry addr = heap₁.entry addr)
    (keys : ∀ key, key ≠ oldKey → ¬ heap₁.OwnsKey key → heap'.key key = heap₁.key key)
    (vals : ∀ val, (val = oldVal → val = setValPtr) → ¬ heap₁.OwnsVal val →
      heap'.obj val = heap₁.obj val) : heap.Accounts heap' := by
  obtain ⟨home, member⟩ := taken.member
  refine taken.laid.accounts (fun index another inside key val own => ?_) (fun addr apart _ => ?_)
    (fun key apart => ?_) fun val apart => ?_
  · by_cases same : another.1 = spot.1
    · rw [same, taken.fields] at own
      cases own
      rw [same]
      exact self
    · refine spots index another (Placement.mem_without.mpr ⟨inside, same⟩) key val ?_
      rw [taken.relinked.fields, own]
  · have different : addr ≠ spot.1 := fun same =>
      apart (taken.laid.linked_iff.mpr ⟨home, spot, member, same.symm⟩)
    exact (entries addr different fun linked => apart (taken.linked_of linked).1).trans
      (taken.others addr apart)
  · have different : key ≠ oldKey := by
      rintro rfl
      exact apart taken.ownsKey
    exact (keys key different fun owns => apart (taken.ownsKey_of owns).1).trans
      (congrFun taken.relinked.key key)
  · refine (vals val ?_ fun owns => apart (taken.ownsVal_of owns).1).trans
      (congrFun taken.relinked.obj val)
    rintro rfl
    by_contra plain
    exact apart (taken.laid.ownsVal_iff.mpr ⟨plain, home, spot, member, oldKey, taken.fields⟩)

end Taken

/-- `dict_rm` releases the entry of the key, its key and its value. -/
theorem DictHeap.Laid.dictRm (laid : heap.Laid placed) (known : heap.key key = some name) :
    ∃ heap', heap.Leaves (heap.dictRm key) (PseudoRedis.dictRm (heap.dict placed) name).2
      (PseudoRedis.dictRm (heap.dict placed) name).1 heap' := by
  rcases laid.taken known with ⟨prev, ran, absent⟩ |
    ⟨heap₁, spot, prev, oldKey, oldVal, ran, taken, removed⟩
  · rw [PseudoRedis.dictRm, absent]
    refine ⟨heap, ?_, ⟨placed, laid, rfl⟩, .refl heap⟩
    rw [DictHeap.dictRm, ran]
    rfl
  · rw [PseudoRedis.dictRm, removed]
    have released := taken.without.released taken.loose taken.fields₁
    refine ⟨heap₁.released spot.1 oldKey oldVal, ?_, ⟨_, released, rfl⟩, ?_⟩
    · simp only [DictHeap.dictRm, ran, bind, Except.bind,
        dictDestroyEntry_eq taken.loose.holds prev taken.fields₁]
      rfl
    refine taken.accounts ⟨Or.inr (Function.update_self _ _ _),
      Or.inr (Function.update_self _ _ _), fun plain => Or.inr ?_⟩
      (fun index another inside key' val' own => ?_)
      (fun addr different _ => Function.update_of_ne different _ _)
      (fun key different _ => Function.update_of_ne different _ _) fun val special _ => ?_
    · rw [DictHeap.released, if_neg plain]
      exact Function.update_self _ _ _
    · exact released.keeps inside
        ((released_fields (Placement.mem_without.mp inside).2).trans own)
    · rw [DictHeap.released]
      split
      · rfl
      · rename_i plain
        refine Function.update_of_ne ?_ _ _
        rintro rfl
        exact plain (special rfl)

/-! ### Renaming -/

/-- The memory without an entry and its key; its value is another entry's by now. -/
def DictHeap.discard (heap : DictHeap V) (addr key : Addr) : DictHeap V :=
  { heap with
    entry := Function.update heap.entry addr none
    key := Function.update heap.key key none }

theorem DictHeap.Laid.discard (laid : heap.Laid placed) {addr : Addr} (apart : ¬ heap.Linked addr)
    (alone : ¬ heap.OwnsKey key) : (heap.discard addr key).Laid placed := by
  refine laid.frame rfl rfl rfl (fun other linked => ?_) (fun other owns => ?_) fun _ _ => rfl
  · refine Function.update_of_ne ?_ _ _
    rintro rfl
    exact apart linked
  · refine Function.update_of_ne ?_ _ _
    rintro rfl
    exact alone owns

omit [DictVal V] in
@[simp]
theorem discard_fields {addr other : Addr} (different : other ≠ addr) :
    (heap.discard addr key).fields other = heap.fields other := by
  simp only [DictHeap.fields, DictHeap.discard, Function.update_of_ne different]

/-- What is gone stays gone. -/
theorem discard_none {Value : Type} {held : Addr → Option Value} {addr other : Addr}
    (gone : held other = none) : Function.update held addr none other = none := by
  by_cases same : other = addr
  · simp [same]
  · simp [same, gone]

/-- The dictionary owns what it owned. -/
theorem DictHeap.Laid.discard_owns (laid : heap.Laid placed) {addr : Addr}
    (apart : ¬ heap.Linked addr) (alone : ¬ heap.OwnsKey key) :
    (∀ other, heap.Linked other → (heap.discard addr key).Linked other) ∧
      (∀ other, heap.OwnsKey other → (heap.discard addr key).OwnsKey other) ∧
      ∀ other, heap.OwnsVal other → (heap.discard addr key).OwnsVal other := by
  have laid' := laid.discard apart alone
  have linked {other : Addr} (held : heap.Linked other) : (heap.discard addr key).Linked other :=
    laid'.linked_iff.mpr (laid.linked_iff.mp held)
  have fields {other : Addr} (held : heap.Linked other) :
      (heap.discard addr key).fields other = heap.fields other :=
    discard_fields fun same => apart (same ▸ held)
  refine ⟨fun _ => linked, ?_, ?_⟩
  · rintro other ⟨entry, val, held, own⟩
    exact ⟨entry, val, linked held, (fields held).trans own⟩
  · rintro other ⟨plain, entry, key', held, own⟩
    exact ⟨plain, entry, key', linked held, (fields held).trans own⟩

/-- The run that gives the value of a loose entry to the entry of the new key. -/
theorem renameOnto_eq {oldKey oldVal thereKey thereVal : Addr} (holds : heap.Holds spot)
    (fields : heap.fields spot.1 = some (oldKey, oldVal)) (there : heap.Holds other)
    (thereFields : heap.fields other.1 = some (thereKey, thereVal)) (plain : thereVal ≠ setValPtr)
    (different : spot.1 ≠ other.1) (keys : oldKey ≠ thereKey) :
    heap.renameOnto spot.1 other.1 newKey =
      .ok ((heap.replaced other.1 newKey oldVal thereKey thereVal).discard spot.1 oldKey, 0) := by
  have cell := DictHeap.entry_of_fields fields
  have thereCell := DictHeap.entry_of_fields thereFields
  obtain ⟨key', val', same, held, -⟩ := holds
  rw [fields] at same
  cases same
  obtain ⟨key'', val'', same', held', object⟩ := there
  rw [thereFields] at same'
  cases same'
  split at object
  · exact absurd object plain
  · simp only [DictHeap.renameOnto, thereCell, load, bind, Except.bind, DictHeap.freeKey, held',
      pure, Except.pure, DictHeap.setKey, DictHeap.destroyVal, object.2, DictHeap.setVal,
      Function.update_self, Function.update_of_ne different, Function.update_of_ne keys, cell, held,
      Function.update_idem, DictHeap.freeEntry, DictHeap.discard, DictHeap.replaced, if_neg plain]

/-- A loose entry with another key, before it is hung in again. -/
def DictHeap.rekeyed (heap : DictHeap V) (addr key val oldKey : Addr) : DictHeap V :=
  { heap with
    entry := Function.update heap.entry addr (some ⟨key, val, none⟩)
    key := Function.update heap.key oldKey none }

/-- The run that hangs a loose entry in again at the end of a chain. -/
theorem renameInto_eq (laid : heap.Laid placed) (loose : heap.Loose placed spot)
    {oldKey oldVal : Addr} (fields : heap.fields spot.1 = some (oldKey, oldVal)) (hash : Nat) :
    heap.renameInto hash (lastAddr (placed hash)) spot.1 newKey =
      ((heap.rekeyed spot.1 newKey oldVal oldKey).link hash (lastAddr (placed hash)) spot.1).map
        fun heap => (heap, 0) := by
  have cell := DictHeap.entry_of_fields fields
  obtain ⟨key', val', same, held, -⟩ := loose.holds
  rw [fields] at same
  cases same
  rcases List.eq_nil_or_concat (placed hash) with empty | ⟨init, prev, full⟩
  · rw [empty]
    simp only [DictHeap.renameInto, cell, load, bind, Except.bind, DictHeap.freeKey, held, pure,
      Except.pure, DictHeap.setKey, lastAddr, List.getLast?_nil, Option.map_none, DictHeap.setNext,
      Function.update_self, Function.update_idem, DictHeap.link, DictHeap.rekeyed, Except.map]
  · rw [List.concat_eq_append] at full
    have member : prev ∈ placed hash := full ▸ List.mem_append_right _ List.mem_cons_self
    have last : heap.next prev.1 = none := laid.lays.next_eq full
    obtain ⟨prevKey, prevVal, prevFields, -⟩ := laid.holds hash prev member
    have prevCell := DictHeap.entry_of_fields prevFields
    rw [last] at prevCell
    have different : prev.1 ≠ spot.1 := loose.apart hash prev member
    rw [full, lastAddr_concat]
    simp only [DictHeap.renameInto, cell, load, bind, Except.bind, DictHeap.freeKey, held, pure,
      Except.pure, DictHeap.setKey, DictHeap.setNext, Function.update_self, Function.update_idem,
      Function.update_of_ne different, prevCell, DictHeap.link, DictHeap.rekeyed, Except.map]

section Rename

variable {heap₁ : DictHeap V} {oldKey oldVal : Addr}

theorem DictHeap.Taken.valAt (taken : heap.Taken heap₁ placed spot oldKey oldVal) :
    heap₁.ValAt oldVal spot.2.val := by
  obtain ⟨key', val', same, -, object⟩ := taken.loose.holds
  rw [taken.fields₁] at same
  cases same
  exact object

/-- The entry of the new key gets the value. -/
theorem DictHeap.Taken.renameOnto (taken : heap.Taken heap₁ placed spot oldKey oldVal)
    (newKnown : heap.key newKey = some newName) (newShort : newName.Short)
    (freshKey : ¬ heap.OwnsKey newKey) (plain : ∀ val : V, DictVal.isSetValPtr val = false)
    {there : Addr × DictEntry V} {front back : List (Addr × DictEntry V)}
    (cut : placed.without spot.1 (heap₁.slot newName) = front ++ there :: back)
    (walked : PseudoRedis.dictLookUpHash (heap₁.dict (placed.without spot.1))
      ((heap₁.dict (placed.without spot.1)).slot newName) newName =
        ⟨front.map Prod.snd, there.2 :: back.map Prod.snd⟩) :
    ∃ heap', heap.Leaves (heap₁.renameOnto spot.1 there.1 newKey) 0
        { PseudoRedis.dictAdd (heap₁.dict (placed.without spot.1)) newName spot.2.val with
          entryNum := heap₁.entryNum } heap' ∧
      heap'.OwnsKey newKey := by
  have member : there ∈ placed.without spot.1 (heap₁.slot newName) :=
    cut ▸ List.mem_append_right _ List.mem_cons_self
  have holds := taken.without.holds _ there member
  obtain ⟨thereKey, thereVal, fields, -⟩ := taken.without.holds _ there member
  have notSet : thereVal ≠ setValPtr := by
    rw [ne_eq, holds.setVal_iff fields, plain]
    exact Bool.false_ne_true
  have different : spot.1 ≠ there.1 := (taken.loose.apart _ there member).symm
  have keys : oldKey ≠ thereKey := by
    rintro rfl
    exact taken.loose.alone _ there member oldKey oldVal thereVal taken.fields₁ fields
  have known₁ : heap₁.key newKey = some newName := by rw [taken.relinked.key, newKnown]
  have added := dictAdd_placed taken.without.filed newShort spot.2.val
  rw [dictAdd_of_found walked, plain there.2.val, if_neg Bool.false_ne_true] at added ⊢
  have laid₂ : (heap₁.replaced there.1 newKey oldVal thereKey thereVal).Laid
      (Slots.set (placed.without spot.1) (heap₁.slot newName)
        (front ++ (there.1, ⟨newName, spot.2.val⟩) :: back)) :=
    taken.without.replaced cut fields known₁ (fun owns => freshKey (taken.ownsKey_of owns).1)
      taken.valAt (fun owns => (taken.ownsVal_of owns).2 rfl) added
  have paid := taken.without.replaced_accounts cut fields laid₂
  have apart : ¬ (heap₁.replaced there.1 newKey oldVal thereKey thereVal).Linked spot.1 := by
    intro linked
    obtain ⟨index, another, inside, same⟩ := laid₂.linked_iff.mp linked
    rcases taken.without.mem_replaced cut inside with rfl | ⟨old, -⟩
    · exact different same.symm
    · exact taken.loose.apart index another old same
  have alone : ¬ (heap₁.replaced there.1 newKey oldVal thereKey thereVal).OwnsKey oldKey := by
    intro owns
    obtain ⟨index, another, inside, val', theirs⟩ := laid₂.ownsKey_iff.mp owns
    rcases taken.without.mem_replaced cut inside with rfl | ⟨old, notThere⟩
    · rw [replaced_fields_self] at theirs
      cases theirs
      exact freshKey taken.ownsKey
    · rw [replaced_fields_of_ne notThere] at theirs
      exact taken.loose.alone index another old oldKey oldVal val' taken.fields₁ theirs
  have laid₃ := laid₂.discard apart alone
  obtain ⟨linked, ownsKey, ownsVal⟩ := laid₂.discard_owns apart alone
  have self : ((heap₁.replaced there.1 newKey oldVal thereKey thereVal).discard spot.1
      oldKey).fields there.1 = some (newKey, oldVal) := by
    rw [discard_fields different.symm, replaced_fields_self]
  refine ⟨_, ⟨renameOnto_eq taken.loose.holds taken.fields₁ holds fields notSet different keys,
    ⟨_, laid₃, rfl⟩, taken.accounts ⟨Or.inr (Function.update_self _ _ _),
      Or.inr (Function.update_self _ _ _), fun plain => ?_⟩
      (fun index another inside key val own => ?_) (fun addr notSpot unlinked => ?_)
      (fun key notOld unowned => ?_) fun val _ unowned => ?_⟩, ?_⟩
  · exact Or.inl (laid₃.ownsVal_iff.mpr ⟨plain, _, _, mem_set_self _ _ _ _ _, newKey, self⟩)
  · have linked₁ : heap₁.Linked another.1 :=
      taken.without.linked_iff.mpr ⟨index, another, inside, rfl⟩
    refine ⟨(paid.entries another.1 linked₁).imp (linked _) fun gone => ?_,
      (paid.keys key ⟨another.1, val, linked₁, own⟩).imp (ownsKey _) fun gone => ?_, fun plain =>
        (paid.vals val ⟨plain, another.1, key, linked₁, own⟩).imp (ownsVal _) id⟩
    · exact discard_none gone
    · exact discard_none gone
  · refine (Function.update_of_ne notSpot _ _).trans (Function.update_of_ne ?_ _ _)
    rintro rfl
    exact unlinked (taken.without.linked_iff.mpr ⟨_, there, member, rfl⟩)
  · exact (Function.update_of_ne notOld _ _).trans (paid.otherKeys key unowned)
  · exact paid.otherVals val unowned
  · exact laid₃.ownsKey_iff.mpr ⟨_, _, mem_set_self _ _ _ _ _, oldVal, self⟩

/-- The entry is hung in again under the new key. -/
theorem DictHeap.Taken.renameInto (taken : heap.Taken heap₁ placed spot oldKey oldVal)
    (newKnown : heap.key newKey = some newName) (newShort : newName.Short)
    (freshKey : ¬ heap.OwnsKey newKey)
    (walked : PseudoRedis.dictLookUpHash (heap₁.dict (placed.without spot.1))
      ((heap₁.dict (placed.without spot.1)).slot newName) newName =
        ⟨(placed.without spot.1 (heap₁.slot newName)).map Prod.snd, []⟩) :
    ∃ heap', heap.Leaves (heap₁.renameInto (heap₁.slot newName)
          (lastAddr (placed.without spot.1 (heap₁.slot newName))) spot.1 newKey) 0
        { PseudoRedis.dictAdd (heap₁.dict (placed.without spot.1)) newName spot.2.val with
          entryNum := heap₁.entryNum } heap' ∧
      heap'.OwnsKey newKey := by
  have different : newKey ≠ oldKey := by
    rintro rfl
    exact freshKey taken.ownsKey
  have fields : (heap₁.rekeyed spot.1 newKey oldVal oldKey).fields spot.1 =
      some (newKey, oldVal) := by
    simp only [DictHeap.fields, DictHeap.rekeyed, Function.update_self, Option.map_some]
  have others {addr : Addr} (notSpot : addr ≠ spot.1) :
      (heap₁.rekeyed spot.1 newKey oldVal oldKey).entry addr = heap₁.entry addr :=
    Function.update_of_ne notSpot _ _
  have theirs {addr : Addr} (notSpot : addr ≠ spot.1) :
      (heap₁.rekeyed spot.1 newKey oldVal oldKey).fields addr = heap₁.fields addr := by
    rw [DictHeap.fields, others notSpot, DictHeap.fields]
  have last : (heap₁.rekeyed spot.1 newKey oldVal oldKey).next spot.1 = none := by
    simp only [DictHeap.next, DictHeap.rekeyed, Function.update_self, Option.bind_some]
  have laid₂ : (heap₁.rekeyed spot.1 newKey oldVal oldKey).Laid (placed.without spot.1) := by
    refine taken.without.frame rfl rfl rfl (fun addr linked => others (taken.linked_of linked).2)
      (fun key owns => ?_) fun _ _ => rfl
    exact Function.update_of_ne (taken.ownsKey_of owns).2 _ _
  have loose : (heap₁.rekeyed spot.1 newKey oldVal oldKey).Loose (placed.without spot.1)
      (spot.1, ⟨newName, spot.2.val⟩) := by
    refine ⟨⟨newKey, oldVal, fields, ?_, taken.valAt⟩, taken.loose.apart, ?_, ?_⟩
    · refine (Function.update_of_ne different _ _).trans ?_
      rw [taken.relinked.key, newKnown]
    · intro index another inside key val val' own own'
      rw [fields] at own
      cases own
      rw [theirs (taken.loose.apart index another inside)] at own'
      exact freshKey (taken.ownsKey_of
        (taken.without.ownsKey_iff.mpr ⟨index, another, inside, val', own'⟩)).1
    · intro index another inside key key' val own own'
      rw [fields] at own
      cases own
      rw [theirs (taken.loose.apart index another inside)] at own'
      exact taken.loose.owned index another inside oldKey key' oldVal taken.fields₁ own'
  have table : (heap₁.rekeyed spot.1 newKey oldVal oldKey).dict
      (Slots.set (placed.without spot.1) (heap₁.slot newName)
        (placed.without spot.1 (heap₁.slot newName) ++ [(spot.1, ⟨newName, spot.2.val⟩)])) =
      { PseudoRedis.dictAdd (heap₁.dict (placed.without spot.1)) newName spot.2.val with
        entryNum := heap₁.entryNum } := by
    rw [dictAdd_of_absent walked, DictHeap.dict_set, List.map_append]
    rfl
  have added := dictAdd_placed taken.without.filed newShort spot.2.val
  obtain ⟨heap', linked, relinked, count, kept, laid'⟩ := laid₂.link loose last
    (by rw [table]; exact added.recount _)
  have inside := mem_set_self (placed.without spot.1) (heap₁.slot newName)
    (placed.without spot.1 (heap₁.slot newName)) (spot.1, ⟨newName, spot.2.val⟩) []
  have own : heap'.fields spot.1 = some (newKey, oldVal) := by rw [relinked.fields, fields]
  refine ⟨heap', ⟨?_, ⟨_, laid', ?_⟩, taken.accounts ⟨?_, ?_, fun plain => ?_⟩
    (fun index another member key val held => ?_) (fun addr notSpot unlinked => ?_)
    (fun key notOld _ => ?_) fun val _ _ => ?_⟩, ?_⟩
  · rw [renameInto_eq taken.without taken.loose taken.fields₁, linked]
    rfl
  · rw [← table]
    simp only [DictHeap.dict, relinked.power, relinked.bitMask, count]
  · exact Or.inl (laid'.linked_iff.mpr ⟨_, _, inside, rfl⟩)
  · rw [relinked.key]
    exact Or.inr (Function.update_self _ _ _)
  · exact Or.inl (laid'.ownsVal_iff.mpr ⟨plain, _, _, inside, newKey, own⟩)
  · refine laid'.keeps (mem_set_append member _) ?_
    rw [relinked.fields, theirs (taken.loose.apart index another member), held]
  · refine (kept addr fun held => unlinked ?_).trans (others notSpot)
    exact taken.without.linked_iff.mpr (laid₂.linked_iff.mp held)
  · rw [relinked.key]
    exact Function.update_of_ne notOld _ _
  · rw [relinked.obj]
    rfl
  · exact laid'.ownsKey_iff.mpr ⟨_, _, inside, oldVal, own⟩

/-- `dict_rename` leaves the dictionary of `Dict`, whose count it gets wrong when the new key has no
entry. -/
theorem DictHeap.Laid.dictRename (laid : heap.Laid placed) (known : heap.key key = some name)
    (newKnown : heap.key newKey = some newName) (newShort : newName.Short)
    (freshKey : ¬ heap.OwnsKey newKey) (plain : ∀ val : V, DictVal.isSetValPtr val = false) :
    ∃ heap', heap.Leaves (heap.dictRename key newKey)
        (PseudoRedis.dictRename (heap.dict placed) name newName).2
        (PseudoRedis.dictRename (heap.dict placed) name newName).1 heap' ∧
      ((PseudoRedis.dictRename (heap.dict placed) name newName).2 = 0 → heap'.OwnsKey newKey) := by
  rcases laid.taken known with ⟨prev, ran, absent⟩ |
    ⟨heap₁, spot, prev, oldKey, oldVal, ran, taken, removed⟩
  · simp only [PseudoRedis.dictRename, absent]
    refine ⟨heap, ⟨?_, ⟨placed, laid, rfl⟩, .refl heap⟩, fun zero => absurd zero (by decide)⟩
    rw [DictHeap.dictRename, ran]
    rfl
  · rw [dictRename_eq removed newName plain]
    have known₁ : heap₁.key newKey = some newName := by rw [taken.relinked.key, newKnown]
    rcases taken.without.lookUp_cases known₁ with ⟨found, walked, -⟩ |
      ⟨front, there, back, before, cut, found, walked, -⟩
    · obtain ⟨heap', leaves, owns⟩ := taken.renameInto newKnown newShort freshKey walked
      refine ⟨heap', ⟨?_, leaves.laid, leaves.accounts⟩, fun _ => owns⟩
      rw [← leaves.ran]
      simp only [DictHeap.dictRename, ran, bind, Except.bind, known₁, load, found]
    · obtain ⟨heap', leaves, owns⟩ := taken.renameOnto newKnown newShort freshKey plain cut walked
      refine ⟨heap', ⟨?_, leaves.laid, leaves.accounts⟩, fun _ => owns⟩
      rw [← leaves.ran]
      simp only [DictHeap.dictRename, ran, bind, Except.bind, known₁, load, found]

end Rename

end PseudoRedis

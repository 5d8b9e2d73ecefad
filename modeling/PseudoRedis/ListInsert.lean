/-
This file is about `LINSERT`. A loop follows `next` to the first entry equal to the pivot,
and the new entry is linked in at one side of it; if the loop comes back to the head of the
list there is no such entry and nothing changes.
-/

import PseudoRedis.ListRemove

namespace PseudoRedis

open Rings

/-! ### The list with the new entry -/

variable {pivot val entry : Bss} {entries : List Bss} {after : Bool}

/-- A sequence with an item after or before another one. -/
def beside {Item : Type} (after : Bool) (front : List Item) (place new : Item)
    (back : List Item) : List Item :=
  front ++ (if after then [place, new] else [new, place]) ++ back

theorem length_beside {Item : Type} (after : Bool) (front : List Item) (place new : Item)
    (back : List Item) :
    (beside after front place new back).length = (front ++ place :: back).length + 1 := by
  have two : (if after then [place, new] else [new, place]).length = 2 := by
    cases after <;> rfl
  rw [beside, List.length_append, List.length_append, two, List.length_append, List.length_cons]
  omega

/-- The entry is inserted at the first one equal to the pivot. -/
theorem insertAt_first {front back : List Bss} (first : ∀ other ∈ front, bssCmp other pivot ≠ 0)
    (equal : bssCmp entry pivot = 0) :
    insertAt pivot val after (front ++ entry :: back) =
      some (beside after front entry val back) := by
  induction front with
  | nil =>
    rw [List.nil_append, insertAt, if_pos equal]
    cases after <;> rfl
  | cons other rest inductionHypothesis =>
    rw [List.cons_append, insertAt, if_neg (first other List.mem_cons_self),
      inductionHypothesis fun later member => first later (List.mem_cons_of_mem _ member)]
    rfl

theorem insertAt_none (different : ∀ entry ∈ entries, bssCmp entry pivot ≠ 0) :
    insertAt pivot val after entries = none := by
  induction entries with
  | nil => rfl
  | cons entry rest inductionHypothesis =>
    rw [insertAt, if_neg (different entry List.mem_cons_self),
      inductionHypothesis fun later member => different later (List.mem_cons_of_mem _ member)]
    rfl

/-! ### The search -/

variable {heap : ListHeap} {seqs : Sequences} {list node newEntry : Addr}
  {seq front back : List Addr}

/-- `while(entry != &(list->head))` until an entry is equal to the pivot; `none` is inside if there
is no such entry. -/
def findEqual (heap : ListHeap) (list : Addr) (pivot : Bss) : Nat → Addr → Option (Option Addr)
  | 0, _ => none
  | fuel + 1, entry =>
      if entry = list then some none
      else
        match heap.val entry with
        | none => none
        | some val =>
            if bssCmp val pivot = 0 then some (some entry)
            else findEqual heap list pivot fuel (heap.next entry)

/-- The search leaves the entries behind that are not equal to the pivot. -/
theorem findEqual_skip (fuel : Nat) {done : List Addr}
    (ring : Ring heap.next heap.prev list (done ++ (front ++ back)))
    (shows : Shows heap front entries) (different : ∀ entry ∈ entries, bssCmp entry pivot ≠ 0) :
    findEqual heap list pivot (front.length + fuel) (Rings.after list (front ++ back)) =
      findEqual heap list pivot fuel (Rings.after list back) := by
  induction front generalizing done entries with
  | nil => rw [List.length_nil, Nat.zero_add, List.nil_append]
  | cons node front inductionHypothesis =>
    obtain ⟨val, rest, rfl, held, others⟩ := shows.cons_inv
    have next : heap.next node = Rings.after list (front ++ back) := ring.neighbours.1
    have moved : Ring heap.next heap.prev list ((done ++ [node]) ++ (front ++ back)) := by
      rwa [List.append_assoc, List.singleton_append]
    have first : Rings.after list (node :: front ++ back) = node := rfl
    have notHead := ring.ne_head (List.mem_append_right _ List.mem_cons_self)
    rw [List.length_cons, Nat.add_right_comm, first, findEqual, if_neg notHead]
    simp only [held, if_neg (different val List.mem_cons_self), next]
    exact inductionHypothesis moved others fun later member =>
      different later (List.mem_cons_of_mem _ member)

/-- The search of a list without the pivot comes to its end. -/
theorem Stored.findEqual_none (stored : Stored heap seqs list seq entries)
    (different : ∀ entry ∈ entries, bssCmp entry pivot ≠ 0) {fuel : Nat}
    (enough : heap.num list < fuel) :
    findEqual heap list pivot fuel (heap.next list) = some none := by
  have ring := stored.represents.ring _ _ stored.found
  have whole : Ring heap.next heap.prev list ([] ++ (seq ++ [])) := by
    rwa [List.nil_append, List.append_nil]
  rw [stored.represents.num _ _ stored.found] at enough
  obtain ⟨more, rfl⟩ : ∃ more, fuel = seq.length + (more + 1) :=
    ⟨fuel - seq.length - 1, by omega⟩
  have skipped := findEqual_skip (more + 1) whole stored.shows different
  rw [List.append_nil] at skipped
  rw [ring.next_head, skipped]
  exact if_pos rfl

/-- The search of a list comes to the first entry equal to the pivot. -/
theorem Stored.findEqual_first {first others : List Bss}
    (stored : Stored heap seqs list seq (first ++ entry :: others))
    (different : ∀ other ∈ first, bssCmp other pivot ≠ 0) (equal : bssCmp entry pivot = 0)
    {fuel : Nat} (enough : heap.num list < fuel) :
    ∃ front node back, seq = front ++ node :: back ∧ Shows heap front first ∧
      heap.val node = some entry ∧ Shows heap back others ∧
      findEqual heap list pivot fuel (heap.next list) = some (some node) := by
  obtain ⟨front, node, back, rfl, shows, held, rest⟩ := stored.shows.split
  refine ⟨front, node, back, rfl, shows, held, rest, ?_⟩
  have ring := stored.represents.ring _ _ stored.found
  have notHead := ring.ne_head (List.mem_append_right _ List.mem_cons_self)
  rw [stored.represents.num _ _ stored.found, List.length_append, List.length_cons] at enough
  obtain ⟨more, rfl⟩ : ∃ more, fuel = front.length + (more + 1) :=
    ⟨fuel - front.length - 1, by omega⟩
  rw [ring.next_head, findEqual_skip (more + 1) (show Ring heap.next heap.prev list
    ([] ++ (front ++ node :: back)) from ring) shows different]
  show findEqual heap list pivot (more + 1) node = _
  rw [findEqual, if_neg notHead]
  simp only [held, if_pos equal]

/-! ### The insertion -/

/-- `list_insert_after` or `list_insert_before`. -/
def insertBeside (after : Bool) (heap : ListHeap) (list entry target : Addr) : ListHeap :=
  if after then listInsertAfter heap list entry target else listInsertBefore heap list entry target

theorem insertBeside_val (after : Bool) (heap : ListHeap) (list entry target : Addr) :
    (insertBeside after heap list entry target).val = heap.val := by
  cases after <;> rfl

/-- An entry linked in beside another one. -/
theorem Represents.insertedBeside (after : Bool) (represents : Represents heap seqs)
    (found : seqs list = some (front ++ node :: back)) (free : Free heap seqs newEntry) :
    Represents (insertBeside after heap list node newEntry)
      (Function.update seqs list (some (beside after front node newEntry back))) := by
  obtain ⟨holds, first⟩ := represents.holdsAt found
  cases after with
  | true =>
    have inserted := represents.insertAfter holds free
    rw [edit_of_found found, insertNext_of_split first] at inserted
    rwa [beside, if_pos rfl, List.append_assoc]
  | false =>
    have inserted := represents.insertBefore holds free
    rw [edit_of_found found, insertPrev_of_split first] at inserted
    rwa [beside, if_neg Bool.false_ne_true, List.append_assoc]

theorem Shows.beside {first others : List Bss} (after : Bool) (shows : Shows heap front first)
    (held : heap.val node = some entry) (rest : Shows heap back others)
    (new : heap.val newEntry = some val) :
    Shows heap (beside after front node newEntry back)
      (PseudoRedis.beside after first entry val others) := by
  rw [Shows] at shows rest ⊢
  cases after <;>
    simp only [PseudoRedis.beside, List.map_append, shows, rest, if_true, if_false,
      Bool.false_eq_true, List.map_cons, List.map_nil, held, new]

/-- `linsert_command` over a list in memory, with the address `malloc` returns for the new entry. -/
def linsertMemory (heap : ListHeap) (list : Addr) (pivot val : Bss) (after : Bool)
    (newEntry : Addr) (fuel : Nat) : Option (ListHeap × Int) :=
  match findEqual heap list pivot fuel (heap.next list) with
  | none => none
  | some none => some (heap, -1)
  | some (some entry) =>
      let heap := insertBeside after (listCreateEntry heap newEntry val) list entry newEntry
      some (heap, heap.num list)

/-- A list in memory holds these strings, in the order of `next` and in the opposite order of
`prev`. -/
structure HoldsBothWays (heap : ListHeap) (list : Addr) (entries : List Bss) : Prop where
  walks : ∃ seq, Path heap.next list seq list ∧ Path heap.prev list seq.reverse list ∧
    Shows heap seq entries
  num : heap.num list = entries.length

/-- A new entry linked in beside the first one equal to the pivot. -/
theorem Stored.linsert {first others : List Bss}
    (stored : Stored heap seqs list seq (first ++ entry :: others))
    (different : ∀ other ∈ first, bssCmp other pivot ≠ 0) (equal : bssCmp entry pivot = 0)
    {fuel : Nat} (enough : heap.num list < fuel) (dead : heap.live newEntry = false) :
    ∃ heap' seq', linsertMemory heap list pivot val after newEntry fuel =
        some (heap', (((first ++ entry :: others).length + 1 : Nat) : Int)) ∧
      Represents heap' (Function.update seqs list (some seq')) ∧
      HoldsBothWays heap' list (PseudoRedis.beside after first entry val others) := by
  obtain ⟨front, node, back, rfl, shows, held, rest, search⟩ :=
    stored.findEqual_first different equal enough
  have loose := stored.represents.loose dead
  have apart {inner : Addr} (member : inner ∈ front ++ node :: back) : inner ≠ newEntry :=
    fun same => loose _ _ stored.found (List.mem_cons_of_mem _ (same ▸ member))
  obtain ⟨created, free⟩ := stored.represents.createEntry dead val
  have linked := created.insertedBeside after stored.found free
  have vals := insertBeside_val after (listCreateEntry heap newEntry val) list node newEntry
  have kept {inner : Addr} (member : inner ∈ front ++ node :: back) :
      (insertBeside after (listCreateEntry heap newEntry val) list node newEntry).val inner =
        heap.val inner := by
    rw [vals]
    exact Function.update_of_ne (apart member) _ _
  have new : (insertBeside after (listCreateEntry heap newEntry val) list node newEntry).val
      newEntry = some val := by
    rw [vals]
    exact Function.update_self _ _ _
  have strings := Shows.beside after
    (shows.congr fun inner member => kept (List.mem_append_left _ member))
    ((kept (List.mem_append_right _ List.mem_cons_self)).trans held)
    (rest.congr fun inner member =>
      kept (List.mem_append_right _ (List.mem_cons_of_mem _ member))) new
  have ring := linked.ring _ _ (Function.update_self _ _ _)
  have count := linked.num _ _ (Function.update_self _ _ _)
  have lengths := stored.num
  rw [stored.represents.num _ _ stored.found] at lengths
  rw [length_beside, lengths] at count
  refine ⟨_, _, ?_, linked, ⟨_, ring.forward, ring.backward, strings⟩, ?_⟩
  · rw [linsertMemory]
    simp only [search, count]
  · rw [length_beside, count]

/-! ### The command -/

variable {dict : Dict Obj} {key place : Bss}

theorem direction_of_word {str : Bytes}
    (word : strcasecmp str (bytes (if after then "after" else "before")) = true) :
    direction str = some after := by
  cases after with
  | true =>
    have apart : strcasecmp str (bytes "before") = false := by
      rw [strcasecmp, beq_iff_eq] at word
      rw [strcasecmp, word]
      rfl
    have own : strcasecmp str (bytes "after") = true := word
    rw [direction, apart, own]
    rfl
  | false =>
    have own : strcasecmp str (bytes "before") = true := word
    rw [direction, own]
    rfl

theorem exists_first {content : Bytes} (member : content ∈ entries.map Bss.content) :
    ∃ first entry others, entries = first ++ entry :: others ∧ entry.content = content ∧
      ∀ other ∈ first, other.content ≠ content := by
  obtain ⟨front, back, same, fresh⟩ := List.eq_append_cons_of_mem member
  obtain ⟨first, rest, rfl, whole, behind⟩ := List.map_eq_append_iff.mp same
  obtain ⟨entry, others, rfl, equal, -⟩ := List.map_eq_cons_iff.mp behind
  refine ⟨first, entry, others, rfl, equal, fun other inside same => fresh ?_⟩
  rw [← whole, ← same]
  exact List.mem_map_of_mem inside

/-- The key space and the list in memory once an entry is inserted beside another one. -/
structure Inserted (dict : Dict Obj) (key place pivot val : Bss) (after : Bool)
    (first : List Bss) (entry : Bss) (others : List Bss) : Prop where
  run : ∃ dict', linsertCommand dict [key, place, pivot, val] =
      intReply dict' (((first ++ entry :: others).length + 1 : Nat) : Int) ∧
    dictLookUp dict' key = some (.list (beside after first entry val others)) ∧
    ∀ other : Bss, other.Short → other.content ≠ key.content →
      dictLookUp dict' other = dictLookUp dict other
  memory : ∀ heap seqs list seq newEntry fuel,
    Stored heap seqs list seq (first ++ entry :: others) → heap.live newEntry = false →
    heap.num list < fuel →
    ∃ heap' seq', linsertMemory heap list pivot val after newEntry fuel =
        some (heap', (((first ++ entry :: others).length + 1 : Nat) : Int)) ∧
      Represents heap' (Function.update seqs list (some seq')) ∧
      HoldsBothWays heap' list (beside after first entry val others)

/-- `LINSERT` inserts the new entry once, before or after the first one equal to the pivot, and
replies the new length; without such an entry it replies -1 and nothing changes. The pointers of the
list in memory lead through the same entries both ways. -/
theorem linsert_inserts (dict : Dict Obj) (key place pivot val : Bss) (entries : List Bss)
    (after : Bool) (placed : dict.Placed) (short : key.Short) (pivotShort : pivot.Short)
    (shorts : ∀ entry ∈ entries, entry.Short)
    (answer : dictLookUp dict key = some (.list entries))
    (word : strcasecmp place.str (bytes (if after then "after" else "before")) = true) :
    (pivot.content ∈ entries.map Bss.content →
      ∃ first entry others, entries = first ++ entry :: others ∧
        entry.content = pivot.content ∧ (∀ other ∈ first, other.content ≠ pivot.content) ∧
        Inserted dict key place pivot val after first entry others) ∧
    (pivot.content ∉ entries.map Bss.content →
      linsertCommand dict [key, place, pivot, val] = intReply dict (-1) ∧
      ∀ heap seqs list seq newEntry fuel, Stored heap seqs list seq entries →
        heap.num list < fuel →
        linsertMemory heap list pivot val after newEntry fuel = some (heap, -1)) := by
  have toward := direction_of_word word
  constructor
  · intro member
    obtain ⟨first, entry, others, rfl, same, before⟩ := exists_first member
    have equal : bssCmp entry pivot = 0 :=
      (bssCmp_eq_zero_iff (shorts entry (List.mem_append_right _ List.mem_cons_self))
        pivotShort).mpr same
    have different : ∀ other ∈ first, bssCmp other pivot ≠ 0 := fun other inside =>
      (bssCmp_eq_zero_iff (shorts other (List.mem_append_left _ inside)) pivotShort).not.mpr
        (before other inside)
    refine ⟨first, entry, others, rfl, same, before, ⟨⟨dictSetVal dict key
      (.list (beside after first entry val others)), ?_,
      lookUp_dictSetVal_self placed.sized answer _, fun other otherShort away =>
        lookUp_dictSetVal_of_ne placed short otherShort _ away⟩, ?_⟩⟩
    · simp only [linsertCommand, toward, answer, insertAt_first different equal, length_beside]
    · intro heap seqs list seq newEntry fuel stored dead enough
      exact stored.linsert different equal enough dead
  · intro absent
    have different : ∀ entry ∈ entries, bssCmp entry pivot ≠ 0 := fun entry inside =>
      (bssCmp_eq_zero_iff (shorts entry inside) pivotShort).not.mpr fun same =>
        absent (List.mem_map.mpr ⟨entry, inside, same⟩)
    refine ⟨?_, fun heap seqs list seq newEntry fuel stored enough => ?_⟩
    · simp only [linsertCommand, toward, answer, insertAt_none different]
    · rw [linsertMemory, stored.findEqual_none different enough]

/-- `LINSERT b before x y` and `LINSERT b AFTER z y` after `RPUSH b x`. -/
theorem linsert_inserts_one :
    (∃ dict', linsertCommand pushedKey
        [textArg 4 "b", textArg 5 "before", textArg 6 "x", textArg 7 "y"] = intReply dict' 2 ∧
      dictLookUp dict' (textArg 4 "b") = some (.list [textArg 7 "y", textArg 2 "x"])) ∧
    linsertCommand pushedKey
      [textArg 4 "b", textArg 5 "AFTER", textArg 6 "z", textArg 7 "y"] =
        intReply pushedKey (-1) := by
  have shorts : ∀ entry ∈ [textArg 2 "x"], entry.Short := fun entry member => by
    rw [List.mem_singleton.mp member]
    exact (textArg_arg 2 (by decide)).short
  have inserts := linsert_inserts pushedKey (textArg 4 "b") (textArg 5 "before") (textArg 6 "x")
    (textArg 7 "y") [textArg 2 "x"] false pushedKey_placed (textArg_arg 4 (by decide)).short
    (textArg_arg 6 (by decide)).short shorts rfl rfl
  have refuses := linsert_inserts pushedKey (textArg 4 "b") (textArg 5 "AFTER") (textArg 6 "z")
    (textArg 7 "y") [textArg 2 "x"] true pushedKey_placed (textArg_arg 4 (by decide)).short
    (textArg_arg 6 (by decide)).short shorts rfl rfl
  refine ⟨?_, (refuses.2 (by decide)).1⟩
  obtain ⟨first, entry, others, same, -, -, inserted⟩ := inserts.1 (by decide)
  obtain ⟨dict', ran, found, -⟩ := inserted.run
  rw [← same] at ran
  obtain ⟨rfl, rfl, rfl⟩ : first = [] ∧ entry = textArg 2 "x" ∧ others = [] := by
    cases first with
    | nil => exact ⟨rfl, (List.cons.inj same).1.symm, (List.cons.inj same).2.symm⟩
    | cons other rest => cases rest <;> cases (List.cons.inj same).2
  exact ⟨dict', ran, found⟩

end PseudoRedis

/-
This file embeds the pointers of `list.c`. A list is a ring of entries whose head lies at
the start of the `list_t`, so a list and its head have one address, and every operation is
a few assignments to `next` and `prev` fields followed by one to the counter. The abstract
side is a table of sequences of entry addresses, one for each list.

The operations act on the sequences as their names say. The handlers of the server use a
list through the strings of its entries; the last section says that what they take for
`list_pop_front`, `list_insert_back` and the like is what the pointers do.
-/

import PseudoRedis.Capacity
import PseudoRedis.Lib.Rings
import PseudoRedis.Commands.Lists
import Mathlib.Data.Fintype.Card

namespace PseudoRedis

open Rings

/-! ### Memory -/

/-- The address of a list or of an entry. -/
abbrev Addr := Fin (2 ^ 64)

/-- The fields of the entries and lists, and which addresses are allocated. -/
structure ListHeap where
  next : Addr → Addr
  prev : Addr → Addr
  val : Addr → Option Bss
  num : Addr → Nat
  live : Addr → Bool

namespace ListHeap

/-- The assignment `node->next = target`. -/
def setNext (heap : ListHeap) (node target : Addr) : ListHeap :=
  { heap with next := Function.update heap.next node target }

/-- The assignment `node->prev = target`. -/
def setPrev (heap : ListHeap) (node target : Addr) : ListHeap :=
  { heap with prev := Function.update heap.prev node target }

/-- `list->num++` and `list->num--`. -/
def count (heap : ListHeap) (list : Addr) (change : Int) : ListHeap :=
  { heap with num := Function.update heap.num list (toSize (heap.num list + change)) }

@[simp]
theorem count_self (heap : ListHeap) (list : Addr) (change : Int) :
    (heap.count list change).num list = toSize (heap.num list + change) :=
  Function.update_self _ _ _

@[simp]
theorem count_of_ne (heap : ListHeap) {list other : Addr} (change : Int)
    (different : other ≠ list) : (heap.count list change).num other = heap.num other :=
  Function.update_of_ne different _ _

end ListHeap

/-! ### The operations -/

def listCreate (heap : ListHeap) (list : Addr) : ListHeap :=
  let heap := { heap with live := Function.update heap.live list true }
  let heap := heap.setPrev list list
  let heap := heap.setNext list (heap.prev list)
  { heap with
    val := Function.update heap.val list none
    num := Function.update heap.num list 0 }

def listCreateEntry (heap : ListHeap) (entry : Addr) (val : Bss) : ListHeap :=
  { heap with
    live := Function.update heap.live entry true
    val := Function.update heap.val entry (some val) }

def listDestroyEntry (heap : ListHeap) (entry : Addr) : ListHeap :=
  { heap with live := Function.update heap.live entry false }

/-- The four assignments of `list_insert_front` and `list_insert_after`. -/
def linkAfter (heap : ListHeap) (place target : Addr) : ListHeap :=
  let heap := heap.setPrev (heap.next place) target
  let heap := heap.setNext target (heap.next place)
  let heap := heap.setNext place target
  heap.setPrev target place

/-- The four assignments of `list_insert_back` and `list_insert_before`. -/
def linkBefore (heap : ListHeap) (place target : Addr) : ListHeap :=
  let heap := heap.setNext (heap.prev place) target
  let heap := heap.setPrev target (heap.prev place)
  let heap := heap.setPrev place target
  heap.setNext target place

def listInsertFront (heap : ListHeap) (list entry : Addr) : ListHeap :=
  (linkAfter heap list entry).count list 1

def listInsertBack (heap : ListHeap) (list entry : Addr) : ListHeap :=
  (linkBefore heap list entry).count list 1

def listInsertAfter (heap : ListHeap) (list entry target : Addr) : ListHeap :=
  (linkAfter heap entry target).count list 1

def listInsertBefore (heap : ListHeap) (list entry target : Addr) : ListHeap :=
  (linkBefore heap entry target).count list 1

/-- The two assignments of `list_rm_nf` and `list_rm`. -/
def unlink (heap : ListHeap) (entry : Addr) : ListHeap :=
  let heap := heap.setNext (heap.prev entry) (heap.next entry)
  heap.setPrev (heap.next entry) (heap.prev entry)

def listRmNf (heap : ListHeap) (list entry : Addr) : ListHeap × Addr :=
  ((unlink heap entry).count list (-1), entry)

def listRm (heap : ListHeap) (list entry : Addr) : ListHeap :=
  (listDestroyEntry (unlink heap entry) entry).count list (-1)

def listPopFront (heap : ListHeap) (list : Addr) : ListHeap × Option Addr :=
  if heap.next list = list then
    (heap, none)
  else
    match listRmNf heap list (heap.next list) with
    | (heap, entry) => (heap, some entry)

def listPopBack (heap : ListHeap) (list : Addr) : ListHeap × Option Addr :=
  if heap.next list = list then
    (heap, none)
  else
    match listRmNf heap list (heap.prev list) with
    | (heap, entry) => (heap, some entry)

def listMoveBack (heap : ListHeap) (entry src dst : Addr) : ListHeap :=
  listInsertBack (listRmNf heap src entry).1 dst entry

def listMoveFront (heap : ListHeap) (entry src dst : Addr) : ListHeap :=
  listInsertFront (listRmNf heap src entry).1 dst entry

/-! ### The assignments on a ring -/

variable {heap heap' : ListHeap} {list entry target : Addr} {seq : List Addr}

theorem linkAfter_ring {front back : List Addr}
    (ring : Ring heap.next heap.prev list (front ++ back))
    (fresh : target ∉ list :: (front ++ back)) :
    Ring (linkAfter heap (before list front) target).next
      (linkAfter heap (before list front) target).prev list (front ++ target :: back) := by
  have apart : target ≠ before list front := by
    intro same
    exact fresh (same ▸ before_mem_append list front back)
  have next := ring.next_before
  have inserted := ring.insert fresh
  rw [Function.update_comm (Ne.symm apart)] at inserted
  rw [← next] at inserted
  exact inserted

theorem linkBefore_ring {front back : List Addr}
    (ring : Ring heap.next heap.prev list (front ++ back))
    (fresh : target ∉ list :: (front ++ back)) :
    Ring (linkBefore heap (after list back) target).next
      (linkBefore heap (after list back) target).prev list (front ++ target :: back) := by
  have apart : target ≠ after list back := by
    intro same
    exact fresh (same ▸ after_mem_append list front back)
  have prev := ring.prev_after
  have inserted := ring.insert fresh
  rw [Function.update_comm (f := heap.prev) (Ne.symm apart)] at inserted
  rw [← prev] at inserted
  exact inserted

theorem unlink_ring {front back : List Addr}
    (ring : Ring heap.next heap.prev list (front ++ target :: back)) :
    Ring (unlink heap target).next (unlink heap target).prev list (front ++ back) := by
  obtain ⟨next, prev⟩ := ring.neighbours
  have apart : target ≠ before list front := by
    intro same
    have moved := (@List.perm_middle _ _ (list :: front) _).nodup_iff.mp ring.nodup
    exact (List.nodup_cons.mp moved).1 (same ▸ before_mem_append list front back)
  have removed := ring.remove
  have kept : Function.update heap.next (heap.prev target) (heap.next target) target =
      heap.next target := Function.update_of_ne (prev ▸ apart) _ _
  rw [← next, ← prev] at removed
  show Ring (Function.update heap.next (heap.prev target) (heap.next target))
    (Function.update heap.prev (Function.update heap.next (heap.prev target) (heap.next target)
      target) (heap.prev target)) list (front ++ back)
  rwa [kept]

/-! ### The sequences a heap represents -/

/-- The sequence of every list. -/
abbrev Sequences := Addr → Option (List Addr)

/-- Every list is the ring of its sequence with its length as the counter, and no node belongs to
two lists. -/
structure Represents (heap : ListHeap) (seqs : Sequences) : Prop where
  ring : ∀ list seq, seqs list = some seq → Ring heap.next heap.prev list seq
  num : ∀ list seq, seqs list = some seq → heap.num list = seq.length
  live : ∀ list seq, seqs list = some seq → ∀ node ∈ list :: seq, heap.live node = true
  apart : ∀ first second firstSeq secondSeq, seqs first = some firstSeq →
    seqs second = some secondSeq → first ≠ second →
      (first :: firstSeq).Disjoint (second :: secondSeq)

/-- An address that belongs to no list. -/
def Loose (seqs : Sequences) (node : Addr) : Prop :=
  ∀ list seq, seqs list = some seq → node ∉ list :: seq

/-- An entry that can be inserted: allocated, and in no list. -/
structure Free (heap : ListHeap) (seqs : Sequences) (entry : Addr) : Prop where
  live : heap.live entry = true
  loose : Loose seqs entry

/-- The two memories have the same fields at a node. -/
structure SameAt (heap heap' : ListHeap) (node : Addr) : Prop where
  next : heap'.next node = heap.next node
  prev : heap'.prev node = heap.prev node
  live : heap'.live node = heap.live node

variable {seqs : Sequences}

/-- A list that gets another sequence, while all other lists keep their fields. -/
theorem Represents.replace (represents : Represents heap seqs) {seq' : List Addr}
    (ring : Ring heap'.next heap'.prev list seq') (num : heap'.num list = seq'.length)
    (live : ∀ node ∈ list :: seq', heap'.live node = true)
    (others : ∀ other seq, other ≠ list → seqs other = some seq →
      (∀ node ∈ other :: seq, SameAt heap heap' node) ∧ heap'.num other = heap.num other ∧
        (list :: seq').Disjoint (other :: seq)) :
    Represents heap' (Function.update seqs list (some seq')) := by
  have own {seq : List Addr} (found : Function.update seqs list (some seq') list = some seq) :
      seq = seq' := by
    rw [Function.update_self] at found
    exact (Option.some.inj found).symm
  have other {name : Addr} {seq : List Addr} (different : name ≠ list)
      (found : Function.update seqs list (some seq') name = some seq) : seqs name = some seq := by
    rwa [Function.update_of_ne different] at found
  refine ⟨fun name seq found => ?_, fun name seq found => ?_, fun name seq found => ?_,
    fun first second firstSeq secondSeq firstFound secondFound different => ?_⟩
  · by_cases same : name = list
    · subst same
      rw [own found]
      exact ring
    · have kept := (others name seq same (other same found)).1
      exact (represents.ring name seq (other same found)).congr
        (fun node member => (kept node member).next) fun node member => (kept node member).prev
  · by_cases same : name = list
    · subst same
      rw [own found]
      exact num
    · rw [(others name seq same (other same found)).2.1]
      exact represents.num name seq (other same found)
  · intro node member
    by_cases same : name = list
    · subst same
      rw [own found] at member
      exact live node member
    · rw [((others name seq same (other same found)).1 node member).live]
      exact represents.live name seq (other same found) node member
  · by_cases firstSame : first = list
    · subst firstSame
      rw [own firstFound]
      exact (others second secondSeq (Ne.symm different)
        (other (Ne.symm different) secondFound)).2.2
    · by_cases secondSame : second = list
      · subst secondSame
        rw [own secondFound]
        exact (others first firstSeq different (other different firstFound)).2.2.symm
      · exact represents.apart first second firstSeq secondSeq (other firstSame firstFound)
          (other secondSame secondFound) different

/-- The counter of a list does not wrap: its entries have different addresses, and its head has one
more. -/
theorem toSize_length {head : Addr} {nodes : List Addr} (nodup : (head :: nodes).Nodup) :
    toSize (nodes.length : Int) = nodes.length := by
  have most := nodup.length_le_card
  rw [Fintype.card_fin, List.length_cons] at most
  exact toSize_natCast (by omega)

/-- A node linked into one list. -/
theorem Represents.linked (represents : Represents heap seqs) {front back : List Addr}
    (found : seqs list = some (front ++ back)) (free : Free heap seqs target)
    (ring : Ring heap'.next heap'.prev list (front ++ target :: back))
    (num : heap'.num = heap.num) (live : heap'.live = heap.live)
    (same : ∀ node, node ∉ target :: list :: (front ++ back) → SameAt heap heap' node) :
    Represents (heap'.count list 1)
      (Function.update seqs list (some (front ++ target :: back))) := by
  have perm : (list :: (front ++ target :: back)).Perm (target :: list :: (front ++ back)) :=
    (List.perm_middle.cons list).trans (List.Perm.swap _ _ _)
  refine represents.replace ring ?_ (fun node member => ?_) fun other seq different present => ?_
  · have length : (front ++ target :: back).length = (front ++ back).length + 1 :=
      List.perm_middle.length_eq
    have size := toSize_length ring.nodup
    rw [length] at size
    rw [ListHeap.count_self, num, represents.num list _ found, length]
    exact size
  · show heap'.live node = true
    rw [live]
    rcases List.mem_cons.mp (perm.mem_iff.mp member) with rfl | old
    · exact free.live
    · exact represents.live list _ found node old
  · have apart : ∀ node ∈ other :: seq, node ∉ target :: list :: (front ++ back) := by
      intro node member
      rw [List.mem_cons, not_or]
      exact ⟨fun equal => free.loose other seq present (equal ▸ member),
        (represents.apart other list seq _ present found different) member⟩
    refine ⟨fun node member => ?_, ?_, fun node mine theirs => ?_⟩
    · obtain ⟨next, prev, alive⟩ := same node (apart node member)
      exact ⟨next, prev, alive⟩
    · rw [ListHeap.count_of_ne _ _ different, num]
    · exact apart node theirs (perm.mem_iff.mp mine)

theorem unlink_same {node : Addr} (notNext : node ≠ heap.next target)
    (notPrev : node ≠ heap.prev target) (apart : target ≠ heap.prev target) :
    SameAt heap (unlink heap target) node := by
  refine ⟨Function.update_of_ne notPrev _ _, ?_, rfl⟩
  show Function.update heap.prev (Function.update heap.next (heap.prev target) (heap.next target)
    target) (heap.prev target) node = heap.prev node
  rw [Function.update_of_ne apart, Function.update_of_ne notNext]

/-- A node unlinked from its list is free. -/
theorem Represents.unlinked (represents : Represents heap seqs) {front back : List Addr}
    (found : seqs list = some (front ++ target :: back)) :
    Represents ((unlink heap target).count list (-1))
        (Function.update seqs list (some (front ++ back))) ∧
      Free ((unlink heap target).count list (-1))
        (Function.update seqs list (some (front ++ back))) target := by
  have ring := represents.ring list _ found
  obtain ⟨next, prev⟩ := ring.neighbours
  have removed := unlink_ring ring
  have perm : (list :: (front ++ target :: back)).Perm (target :: list :: (front ++ back)) :=
    (List.perm_middle.cons list).trans (List.Perm.swap _ _ _)
  have fewer : ∀ node ∈ list :: (front ++ back), node ∈ list :: (front ++ target :: back) :=
    fun node member => perm.mem_iff.mpr (List.mem_cons_of_mem _ member)
  have inside : target ∈ list :: (front ++ target :: back) := perm.mem_iff.mpr List.mem_cons_self
  have gone : target ∉ list :: (front ++ back) :=
    (List.nodup_cons.mp (perm.nodup_iff.mp ring.nodup)).1
  have kept : heap.next target ∈ list :: (front ++ target :: back) ∧
      heap.prev target ∈ list :: (front ++ target :: back) := by
    rw [next, prev]
    exact ⟨fewer _ (after_mem_append list front back), before_mem_append list front _⟩
  have others : ∀ other seq, other ≠ list → seqs other = some seq →
      ∀ node ∈ other :: seq, node ∉ list :: (front ++ target :: back) :=
    fun other seq different present node member =>
      represents.apart other list seq _ present found different member
  refine ⟨represents.replace removed ?_ (fun node member => ?_)
    fun other seq different present => ⟨fun node member => ?_, ?_, fun node mine theirs => ?_⟩,
    represents.live list _ found target inside, fun name seq present => ?_⟩
  · have length : (front ++ target :: back).length = (front ++ back).length + 1 :=
      List.perm_middle.length_eq
    rw [ListHeap.count_self]
    show toSize ((heap.num list : Int) + -1) = _
    have less : (((front ++ back).length + 1 : Nat) : Int) + -1 = (front ++ back).length := by omega
    rw [represents.num list _ found, length, less]
    exact toSize_length removed.nodup
  · exact represents.live list _ found node (fewer node member)
  · have outside := others other seq different present node member
    have notNext : node ≠ heap.next target := fun same => outside (same ▸ kept.1)
    have notPrev : node ≠ heap.prev target := fun same => outside (same ▸ kept.2)
    have apart : target ≠ heap.prev target := by
      rw [prev]
      exact fun same => gone (same ▸ before_mem_append list front back)
    obtain ⟨sameNext, samePrev, alive⟩ := unlink_same notNext notPrev apart
    exact ⟨sameNext, samePrev, alive⟩
  · exact ListHeap.count_of_ne _ _ different
  · exact others other seq different present node theirs (fewer node mine)
  · by_cases same : name = list
    · subst same
      rw [Function.update_self] at present
      cases present
      exact gone
    · rw [Function.update_of_ne same] at present
      exact fun member => others name seq same present target member inside

/-! ### Sequences of operations -/

/-- An operation of `list.c` with the addresses it is called with; a creation with the address
`malloc` returns. -/
inductive ListOp where
  | create (list : Addr)
  | createEntry (entry : Addr) (val : Bss)
  | insertFront (list entry : Addr)
  | insertBack (list entry : Addr)
  | insertAfter (list entry target : Addr)
  | insertBefore (list entry target : Addr)
  | rmNf (list entry : Addr)
  | rm (list entry : Addr)
  | popFront (list : Addr)
  | popBack (list : Addr)
  | moveBack (entry src dst : Addr)
  | moveFront (entry src dst : Addr)

/-- The memory after an operation, and the entry it returns. -/
def ListOp.run (heap : ListHeap) : ListOp → ListHeap × Option Addr
  | .create list => (listCreate heap list, none)
  | .createEntry entry val => (listCreateEntry heap entry val, none)
  | .insertFront list entry => (listInsertFront heap list entry, none)
  | .insertBack list entry => (listInsertBack heap list entry, none)
  | .insertAfter list entry target => (listInsertAfter heap list entry target, none)
  | .insertBefore list entry target => (listInsertBefore heap list entry target, none)
  | .rmNf list entry => ((listRmNf heap list entry).1, some (listRmNf heap list entry).2)
  | .rm list entry => (listRm heap list entry, none)
  | .popFront list => listPopFront heap list
  | .popBack list => listPopBack heap list
  | .moveBack entry src dst => (listMoveBack heap entry src dst, none)
  | .moveFront entry src dst => (listMoveFront heap entry src dst, none)

/-- The sequence with a node after the one given. -/
def insertNext (entry target : Addr) : List Addr → List Addr
  | [] => []
  | node :: rest =>
      if node = entry then node :: target :: rest else node :: insertNext entry target rest

/-- The sequence with a node before the one given. -/
def insertPrev (entry target : Addr) : List Addr → List Addr
  | [] => []
  | node :: rest =>
      if node = entry then target :: node :: rest else node :: insertPrev entry target rest

/-- The table with the sequence of one list edited. -/
def Sequences.edit (seqs : Sequences) (list : Addr) (func : List Addr → List Addr) : Sequences :=
  match seqs list with
  | some seq => Function.update seqs list (some (func seq))
  | none => seqs

/-- What an operation does to the sequences, and the entry it returns. -/
def ListOp.meaning (seqs : Sequences) : ListOp → Sequences × Option Addr
  | .create list => (Function.update seqs list (some []), none)
  | .createEntry _ _ => (seqs, none)
  | .insertFront list entry => (seqs.edit list (entry :: ·), none)
  | .insertBack list entry => (seqs.edit list (· ++ [entry]), none)
  | .insertAfter list entry target => (seqs.edit list (insertNext entry target), none)
  | .insertBefore list entry target => (seqs.edit list (insertPrev entry target), none)
  | .rmNf list entry => (seqs.edit list (·.erase entry), some entry)
  | .rm list entry => (seqs.edit list (·.erase entry), none)
  | .popFront list => (seqs.edit list List.tail, (seqs list).bind List.head?)
  | .popBack list => (seqs.edit list List.dropLast, (seqs list).bind List.getLast?)
  | .moveBack entry src dst => ((seqs.edit src (·.erase entry)).edit dst (· ++ [entry]), none)
  | .moveFront entry src dst => ((seqs.edit src (·.erase entry)).edit dst (entry :: ·), none)

/-- The entry is in the list. -/
def Holds (seqs : Sequences) (list entry : Addr) : Prop :=
  ∃ seq, seqs list = some seq ∧ entry ∈ seq

/-- The lists exist, entries to be inserted are free, entries to be used are in the list, and a move
goes from one list to another. -/
def ListOp.Allowed (heap : ListHeap) (seqs : Sequences) : ListOp → Prop
  | .create list => heap.live list = false
  | .createEntry entry _ => heap.live entry = false
  | .insertFront list entry | .insertBack list entry => seqs list ≠ none ∧ Free heap seqs entry
  | .insertAfter list entry target | .insertBefore list entry target =>
      Holds seqs list entry ∧ Free heap seqs target
  | .rmNf list entry | .rm list entry => Holds seqs list entry
  | .popFront list | .popBack list => seqs list ≠ none
  | .moveBack entry src dst | .moveFront entry src dst =>
      src ≠ dst ∧ Holds seqs src entry ∧ seqs dst ≠ none

/-- The memories that operations lead to, with the sequences they stand for. -/
inductive ListRun : ListHeap → Sequences → Prop
  | start (heap : ListHeap) : ListRun heap fun _ => none
  | step {heap : ListHeap} {seqs : Sequences} (op : ListOp) (before : ListRun heap seqs)
      (allowed : op.Allowed heap seqs) : ListRun (op.run heap).1 (op.meaning seqs).1

theorem edit_of_found (found : seqs list = some seq) (func : List Addr → List Addr) :
    seqs.edit list func = Function.update seqs list (some (func seq)) := by
  simp only [Sequences.edit, found]

theorem insertNext_of_split {front back : List Addr} (first : entry ∉ front) :
    insertNext entry target (front ++ entry :: back) = front ++ entry :: target :: back := by
  induction front with
  | nil => exact if_pos rfl
  | cons node rest inductionHypothesis =>
    rw [List.mem_cons, not_or] at first
    rw [List.cons_append, insertNext, if_neg (Ne.symm first.1), inductionHypothesis first.2]
    rfl

theorem insertPrev_of_split {front back : List Addr} (first : entry ∉ front) :
    insertPrev entry target (front ++ entry :: back) = front ++ target :: entry :: back := by
  induction front with
  | nil => exact if_pos rfl
  | cons node rest inductionHypothesis =>
    rw [List.mem_cons, not_or] at first
    rw [List.cons_append, insertPrev, if_neg (Ne.symm first.1), inductionHypothesis first.2]
    rfl

theorem erase_of_split {front back : List Addr} (first : entry ∉ front) :
    (front ++ entry :: back).erase entry = front ++ back := by
  rw [List.erase_append_right _ first, List.erase_cons_head]

/-- An entry at a place of a sequence is in the list, and not before that place. -/
theorem Represents.holdsAt (represents : Represents heap seqs) {front back : List Addr}
    (found : seqs list = some (front ++ entry :: back)) :
    Holds seqs list entry ∧ entry ∉ front :=
  ⟨⟨_, found, List.mem_append_right _ List.mem_cons_self⟩, fun inFront =>
    (represents.ring list _ found).once (List.mem_append_left _ inFront)⟩

/-- An entry cuts the sequence of its list in two. -/
theorem Represents.cut (represents : Represents heap seqs) (holds : Holds seqs list entry) :
    ∃ front back, seqs list = some (front ++ entry :: back) ∧ entry ∉ front := by
  obtain ⟨seq, found, member⟩ := holds
  obtain ⟨front, back, rfl⟩ := List.append_of_mem member
  exact ⟨front, back, found, (represents.holdsAt found).2⟩

/-! ### Every operation keeps the representation -/

theorem linkAfter_same {place node : Addr} (notPlace : node ≠ place)
    (notNext : node ≠ heap.next place) (notTarget : node ≠ target) :
    SameAt heap (linkAfter heap place target) node := by
  refine ⟨?_, ?_, rfl⟩
  · exact (Function.update_of_ne notPlace _ _).trans (Function.update_of_ne notTarget _ _)
  · exact (Function.update_of_ne notTarget _ _).trans (Function.update_of_ne notNext _ _)

theorem linkBefore_same {place node : Addr} (notPlace : node ≠ place)
    (notPrev : node ≠ heap.prev place) (notTarget : node ≠ target) :
    SameAt heap (linkBefore heap place target) node := by
  refine ⟨?_, ?_, rfl⟩
  · exact (Function.update_of_ne notTarget _ _).trans (Function.update_of_ne notPrev _ _)
  · exact (Function.update_of_ne notPlace _ _).trans (Function.update_of_ne notTarget _ _)

theorem Represents.linkedAfter (represents : Represents heap seqs) {front back : List Addr}
    (found : seqs list = some (front ++ back)) (free : Free heap seqs target) :
    Represents ((linkAfter heap (before list front) target).count list 1)
      (Function.update seqs list (some (front ++ target :: back))) := by
  have ring := represents.ring list _ found
  have fresh := free.loose list _ found
  refine represents.linked found free (linkAfter_ring ring fresh) rfl rfl fun node outside => ?_
  rw [List.mem_cons, not_or] at outside
  refine linkAfter_same (fun same => outside.2 ?_) (fun same => outside.2 ?_) outside.1
  · exact same ▸ before_mem_append list front back
  · rw [same, ring.next_before]
    exact after_mem_append list front back

theorem Represents.linkedBefore (represents : Represents heap seqs) {front back : List Addr}
    (found : seqs list = some (front ++ back)) (free : Free heap seqs target) :
    Represents ((linkBefore heap (after list back) target).count list 1)
      (Function.update seqs list (some (front ++ target :: back))) := by
  have ring := represents.ring list _ found
  have fresh := free.loose list _ found
  refine represents.linked found free (linkBefore_ring ring fresh) rfl rfl fun node outside => ?_
  rw [List.mem_cons, not_or] at outside
  refine linkBefore_same (fun same => outside.2 ?_) (fun same => outside.2 ?_) outside.1
  · exact same ▸ after_mem_append list front back
  · rw [same, ring.prev_after]
    exact before_mem_append list front back

/-- Allocating or releasing what belongs to no list. -/
theorem Represents.relive (represents : Represents heap seqs) (next : heap'.next = heap.next)
    (prev : heap'.prev = heap.prev) (num : heap'.num = heap.num)
    (live : ∀ node, ¬ Loose seqs node → heap.live node = true → heap'.live node = true) :
    Represents heap' seqs := by
  refine ⟨fun name seq found => ?_, fun name seq found => ?_, fun name seq found node member => ?_,
    represents.apart⟩
  · rw [next, prev]
    exact represents.ring name seq found
  · rw [num]
    exact represents.num name seq found
  · exact live node (fun loose => loose name seq found member)
      (represents.live name seq found node member)

/-- What is not allocated belongs to no list. -/
theorem Represents.loose (represents : Represents heap seqs) {node : Addr}
    (dead : heap.live node = false) : Loose seqs node := by
  intro name seq found member
  rw [represents.live name seq found node member] at dead
  cases dead

theorem Represents.create (represents : Represents heap seqs) (dead : heap.live list = false) :
    Represents (listCreate heap list) (Function.update seqs list (some [])) := by
  have apart {other : Addr} {seq : List Addr} (found : seqs other = some seq) :
      ∀ node ∈ other :: seq, node ≠ list := fun node member same =>
    represents.loose dead other seq found (same ▸ member)
  refine represents.replace (Ring.empty_iff.mpr ⟨?_, Function.update_self _ _ _⟩)
    (Function.update_self _ _ _) (fun node member => ?_) fun other seq different found =>
      ⟨fun node member => ?_, Function.update_of_ne different _ _, fun node mine theirs => ?_⟩
  · exact (Function.update_self _ _ _).trans (Function.update_self _ _ _)
  · rw [List.mem_singleton.mp member]
    exact Function.update_self _ _ _
  · have notList := apart found node member
    exact ⟨Function.update_of_ne notList _ _, Function.update_of_ne notList _ _,
      Function.update_of_ne notList _ _⟩
  · exact apart found node theirs (List.mem_singleton.mp mine)

/-- A new entry is in no list yet. -/
theorem Represents.createEntry (represents : Represents heap seqs)
    (dead : heap.live entry = false) (val : Bss) :
    Represents (listCreateEntry heap entry val) seqs ∧
      Free (listCreateEntry heap entry val) seqs entry := by
  have loose := represents.loose dead
  refine ⟨represents.relive rfl rfl rfl fun node inside live => ?_, Function.update_self _ _ _,
    loose⟩
  have kept : node ≠ entry := fun same => inside (same ▸ loose)
  exact (Function.update_of_ne kept _ _).trans live

theorem Represents.rmNf (represents : Represents heap seqs) (holds : Holds seqs list entry) :
    Represents (listRmNf heap list entry).1 (seqs.edit list (·.erase entry)) ∧
      Free (listRmNf heap list entry).1 (seqs.edit list (·.erase entry)) entry := by
  obtain ⟨front, back, found, first⟩ := represents.cut holds
  rw [edit_of_found found, erase_of_split first]
  exact represents.unlinked found

theorem Represents.rm (represents : Represents heap seqs) (holds : Holds seqs list entry) :
    Represents (listRm heap list entry) (seqs.edit list (·.erase entry)) := by
  obtain ⟨removed, free⟩ := represents.rmNf holds
  refine removed.relive rfl rfl rfl fun node inside live => ?_
  have kept : node ≠ entry := fun same => inside (same ▸ free.loose)
  exact (Function.update_of_ne kept _ _).trans live

theorem Represents.insertFront (represents : Represents heap seqs) (present : seqs list ≠ none)
    (free : Free heap seqs entry) :
    Represents (listInsertFront heap list entry) (seqs.edit list (entry :: ·)) := by
  obtain ⟨seq, found⟩ := Option.ne_none_iff_exists'.mp present
  rw [edit_of_found found]
  exact @Represents.linkedAfter _ _ _ _ represents [] _ found free

theorem Represents.insertBack (represents : Represents heap seqs) (present : seqs list ≠ none)
    (free : Free heap seqs entry) :
    Represents (listInsertBack heap list entry) (seqs.edit list (· ++ [entry])) := by
  obtain ⟨seq, found⟩ := Option.ne_none_iff_exists'.mp present
  rw [edit_of_found found]
  rw [← List.append_nil seq] at found
  exact represents.linkedBefore found free

theorem Represents.insertAfter (represents : Represents heap seqs)
    (holds : Holds seqs list entry) (free : Free heap seqs target) :
    Represents (listInsertAfter heap list entry target)
      (seqs.edit list (insertNext entry target)) := by
  obtain ⟨front, back, found, first⟩ := represents.cut holds
  rw [edit_of_found found, insertNext_of_split first]
  have place : before list (front ++ [entry]) = entry := List.getLastD_concat
  rw [← List.singleton_append, ← List.append_assoc] at found
  have linked := represents.linkedAfter found free
  rwa [place, List.append_assoc, List.singleton_append] at linked

theorem Represents.insertBefore (represents : Represents heap seqs)
    (holds : Holds seqs list entry) (free : Free heap seqs target) :
    Represents (listInsertBefore heap list entry target)
      (seqs.edit list (insertPrev entry target)) := by
  obtain ⟨front, back, found, first⟩ := represents.cut holds
  rw [edit_of_found found, insertPrev_of_split first]
  exact represents.linkedBefore found free

/-- Nothing is popped from an empty list; from another one its first entry. -/
theorem Represents.popFront (represents : Represents heap seqs) (found : seqs list = some seq) :
    Represents (listPopFront heap list).1 (seqs.edit list List.tail) ∧
      (listPopFront heap list).2 = seq.head? := by
  have ring := represents.ring list seq found
  rw [edit_of_found found, listPopFront]
  cases seq with
  | nil =>
    rw [if_pos (ring.next_eq_head_iff.mpr rfl), List.tail_nil, ← found, Function.update_eq_self]
    exact ⟨represents, rfl⟩
  | cons node rest =>
    have first : heap.next list = node := ring.next_head
    rw [if_neg (ring.next_eq_head_iff.not.mpr (List.cons_ne_nil _ _)), first]
    exact ⟨(@Represents.unlinked _ _ _ _ represents [] _ found).1, rfl⟩

/-- Nothing is popped from an empty list; from another one its last entry. -/
theorem Represents.popBack (represents : Represents heap seqs) (found : seqs list = some seq) :
    Represents (listPopBack heap list).1 (seqs.edit list List.dropLast) ∧
      (listPopBack heap list).2 = seq.getLast? := by
  have ring := represents.ring list seq found
  rw [edit_of_found found, listPopBack]
  rcases List.eq_nil_or_concat seq with rfl | ⟨front, node, rfl⟩
  · rw [if_pos (ring.next_eq_head_iff.mpr rfl), List.dropLast_nil, ← found, Function.update_eq_self]
    exact ⟨represents, rfl⟩
  · rw [List.concat_eq_append] at found ring ⊢
    have last : heap.prev list = node := ring.prev_head.trans List.getLastD_concat
    have some : front ++ [node] ≠ [] := List.append_ne_nil_of_right_ne_nil _ (List.cons_ne_nil _ _)
    have popped := (@Represents.unlinked _ _ _ _ represents _ [] found).1
    rw [if_neg (ring.next_eq_head_iff.not.mpr some), last, List.dropLast_concat,
      List.getLast?_concat]
    rw [List.append_nil] at popped
    exact ⟨popped, rfl⟩

/-- An edit of one list leaves the others there. -/
theorem edit_present {src dst : Addr} (func : List Addr → List Addr) (apart : src ≠ dst)
    (present : seqs dst ≠ none) : seqs.edit src func dst ≠ none := by
  cases found : seqs src with
  | none =>
    simp only [Sequences.edit, found]
    exact present
  | some seq =>
    rw [edit_of_found found, Function.update_of_ne (Ne.symm apart)]
    exact present

/-- One operation. -/
theorem Represents.step (represents : Represents heap seqs) (op : ListOp)
    (allowed : op.Allowed heap seqs) :
    Represents (op.run heap).1 (op.meaning seqs).1 ∧ (op.run heap).2 = (op.meaning seqs).2 := by
  cases op with
  | create list => exact ⟨represents.create allowed, rfl⟩
  | createEntry entry val => exact ⟨(represents.createEntry allowed val).1, rfl⟩
  | insertFront list entry => exact ⟨represents.insertFront allowed.1 allowed.2, rfl⟩
  | insertBack list entry => exact ⟨represents.insertBack allowed.1 allowed.2, rfl⟩
  | insertAfter list entry target => exact ⟨represents.insertAfter allowed.1 allowed.2, rfl⟩
  | insertBefore list entry target => exact ⟨represents.insertBefore allowed.1 allowed.2, rfl⟩
  | rmNf list entry => exact ⟨(represents.rmNf allowed).1, rfl⟩
  | rm list entry => exact ⟨represents.rm allowed, rfl⟩
  | popFront list =>
    obtain ⟨seq, found⟩ := Option.ne_none_iff_exists'.mp allowed
    obtain ⟨popped, entry⟩ := represents.popFront found
    refine ⟨popped, entry.trans ?_⟩
    show seq.head? = (seqs list).bind List.head?
    rw [found]
    rfl
  | popBack list =>
    obtain ⟨seq, found⟩ := Option.ne_none_iff_exists'.mp allowed
    obtain ⟨popped, entry⟩ := represents.popBack found
    refine ⟨popped, entry.trans ?_⟩
    show seq.getLast? = (seqs list).bind List.getLast?
    rw [found]
    rfl
  | moveBack entry src dst =>
    obtain ⟨removed, free⟩ := represents.rmNf allowed.2.1
    exact ⟨removed.insertBack (edit_present _ allowed.1 allowed.2.2) free, rfl⟩
  | moveFront entry src dst =>
    obtain ⟨removed, free⟩ := represents.rmNf allowed.2.1
    exact ⟨removed.insertFront (edit_present _ allowed.1 allowed.2.2) free, rfl⟩

theorem ListRun.represents (run : ListRun heap seqs) : Represents heap seqs := by
  induction run with
  | start heap =>
    refine ⟨?_, ?_, ?_, ?_⟩
    · intro list seq found
      cases found
    · intro list seq found
      cases found
    · intro list seq found
      cases found
    · intro first second firstSeq secondSeq found
      cases found
  | step op before allowed inductionHypothesis => exact (inductionHypothesis.step op allowed).1

/-- After any operations every list is the ring of its sequence: `next` leads from the head through
the sequence back to the head, `prev` through its reverse, the counter is its length. The next
operation returns what it means on the sequences, so a pop returns `NULL` exactly if the sequence
is empty. -/
theorem list_refines_sequence (run : ListRun heap seqs) :
    (∀ list seq, seqs list = some seq →
      Path heap.next list seq list ∧ Path heap.prev list seq.reverse list ∧ (list :: seq).Nodup ∧
        heap.num list = seq.length) ∧
    (∀ op : ListOp, op.Allowed heap seqs →
      ListRun (op.run heap).1 (op.meaning seqs).1 ∧ (op.run heap).2 = (op.meaning seqs).2) ∧
    ∀ list seq, seqs list = some seq →
      ((listPopFront heap list).2 = none ↔ seq = []) ∧
        ((listPopBack heap list).2 = none ↔ seq = []) := by
  have represents := run.represents
  refine ⟨fun list seq found => ?_, fun op allowed => ?_, fun list seq found => ?_⟩
  · have ring := represents.ring list seq found
    exact ⟨ring.forward, ring.backward, ring.nodup, represents.num list seq found⟩
  · exact ⟨.step op run allowed, (represents.step op allowed).2⟩
  · rw [(represents.popFront found).2, (represents.popBack found).2, List.head?_eq_none_iff,
      List.getLast?_eq_none_iff]
    exact ⟨Iff.rfl, Iff.rfl⟩

/-- Memory in which nothing is allocated. -/
def emptyHeap : ListHeap where
  next := id
  prev := id
  val := fun _ => none
  num := fun _ => 0
  live := fun _ => false

/-- A list at address 1 with one entry at address 3. -/
def oneEntry : ListHeap :=
  listInsertBack (listCreateEntry (listCreate emptyHeap 1) 3 (bssCreate Env.plain 0 [])) 1 3

/-- Before the entry is inserted there is one empty list. -/
def noEntries : Sequences := Function.update (fun _ => none) 1 (some [])

/-- Its sequence. -/
def oneSequence : Sequences := noEntries.edit 1 (· ++ [3])

theorem oneEntry_run : ListRun oneEntry oneSequence := by
  have created : ListRun (listCreate emptyHeap 1) noEntries :=
    .step (.create 1) (.start emptyHeap) rfl
  have allocated := ListRun.step (.createEntry 3 (bssCreate Env.plain 0 [])) created (by rfl)
  refine .step (.insertBack 1 3) allocated ⟨Option.some_ne_none _, rfl, ?_⟩
  exact @Represents.loose _ _ created.represents 3 rfl

/-- Its pointers lead from the head to the entry and back, and there is an entry to pop. -/
theorem list_refines_sequence_one :
    Path oneEntry.next 1 [3] 1 ∧ (listPopFront oneEntry 1).2 ≠ none := by
  have found : oneSequence 1 = some [3] := rfl
  obtain ⟨rings, -, pops⟩ := list_refines_sequence oneEntry_run
  exact ⟨(rings 1 [3] found).1, (pops 1 [3] found).1.not.mpr (List.cons_ne_nil _ _)⟩

/-! ### Lists of strings -/

/-- The entries of a sequence hold the strings of a list. -/
def Shows (heap : ListHeap) (seq : List Addr) (entries : List Bss) : Prop :=
  seq.map heap.val = entries.map some

theorem Shows.congr {entries : List Bss} (shows : Shows heap seq entries)
    (same : ∀ node ∈ seq, heap'.val node = heap.val node) : Shows heap' seq entries :=
  (List.map_congr_left same).trans shows

theorem Shows.cons_inv {node : Addr} {nodes : List Addr} {entries : List Bss}
    (shows : Shows heap (node :: nodes) entries) :
    ∃ val rest, entries = val :: rest ∧ heap.val node = some val ∧ Shows heap nodes rest := by
  rw [Shows, List.map_cons] at shows
  obtain ⟨val, rest, rfl, held, others⟩ := List.map_eq_cons_iff.mp shows.symm
  exact ⟨val, rest, rfl, held.symm, others.symm⟩

/-- The strings of a list cut its sequence where they are cut. -/
theorem Shows.split {seq : List Addr} {first others : List Bss} {entry : Bss}
    (shows : Shows heap seq (first ++ entry :: others)) :
    ∃ front node back, seq = front ++ node :: back ∧ Shows heap front first ∧
      heap.val node = some entry ∧ Shows heap back others := by
  rw [Shows, List.map_append] at shows
  obtain ⟨front, rest, rfl, same, behind⟩ := List.map_eq_append_iff.mp shows
  obtain ⟨node, back, rfl, held, tail⟩ := List.map_eq_cons_iff.mp behind
  exact ⟨front, node, back, rfl, same, held, tail⟩

/-- `list_pop_front` or `list_pop_back`. -/
def popAt (side : End) (heap : ListHeap) (list : Addr) : ListHeap × Option Addr :=
  match side with
  | .left => listPopFront heap list
  | .right => listPopBack heap list

/-- `list_insert_front` or `list_insert_back`. -/
def insertAtEnd (side : End) (heap : ListHeap) (list entry : Addr) : ListHeap :=
  match side with
  | .left => listInsertFront heap list entry
  | .right => listInsertBack heap list entry

theorem popAt_val (side : End) (heap : ListHeap) (list : Addr) :
    (popAt side heap list).1.val = heap.val := by
  cases side with
  | left =>
    rw [popAt, listPopFront]
    split <;> rfl
  | right =>
    rw [popAt, listPopBack]
    split <;> rfl

/-- Popping from the list of strings is popping from the ring. -/
theorem popAt_shows (side : End) (represents : Represents heap seqs)
    (found : seqs list = some seq) {entries : List Bss} (shows : Shows heap seq entries) :
    match listPop side entries with
    | none => (popAt side heap list).2 = none
    | some (bss, rest) => ∃ node, (popAt side heap list).2 = some node ∧
        heap.val node = some bss ∧ Shows (popAt side heap list).1
          (match side with | .left => seq.tail | .right => seq.dropLast) rest := by
  rw [Shows] at shows
  cases side with
  | left =>
    have popped := (represents.popFront found).2
    cases entries with
    | nil =>
      rw [List.map_nil, List.map_eq_nil_iff] at shows
      rw [shows] at popped
      exact popped
    | cons bss rest =>
      obtain ⟨node, others, rfl, held, same⟩ := List.map_eq_cons_iff.mp shows
      refine ⟨node, popped, held, ?_⟩
      rw [Shows, popAt_val]
      exact same
  | right =>
    have popped := (represents.popBack found).2
    cases entries with
    | nil =>
      rw [List.map_nil, List.map_eq_nil_iff] at shows
      rw [shows] at popped
      exact popped
    | cons bss rest =>
      have some : bss :: rest ≠ [] := List.cons_ne_nil _ _
      rcases List.eq_nil_or_concat seq with rfl | ⟨front, node, rfl⟩
      · cases shows
      · rw [List.concat_eq_append] at shows popped
        rw [← List.dropLast_append_getLast some, List.map_append, List.map_append] at shows
        obtain ⟨same, last⟩ := List.append_inj' shows rfl
        rw [List.getLast?_concat] at popped
        refine ⟨node, popped, (List.cons.inj last).1, ?_⟩
        rw [Shows, popAt_val, List.concat_eq_append, List.dropLast_concat]
        exact same

/-- Inserting into the list of strings is inserting into the ring. -/
theorem insertAtEnd_shows (side : End) {entries : List Bss} (shows : Shows heap seq entries)
    {bss : Bss} (held : heap.val entry = some bss) :
    Shows (insertAtEnd side heap list entry)
      (match side with | .left => entry :: seq | .right => seq ++ [entry])
      (listInsert side entries bss) := by
  rw [Shows] at shows ⊢
  cases side with
  | left =>
    show heap.val entry :: seq.map heap.val = some bss :: entries.map some
    rw [held, shows]
  | right =>
    show (seq ++ [entry]).map heap.val = (entries ++ [bss]).map some
    rw [List.map_append, List.map_append, shows, List.map_singleton, held]
    rfl

end PseudoRedis

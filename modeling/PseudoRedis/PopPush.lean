/-
This file is about `RPOPLPUSH` and `BRPOPLPUSH`. The last entry of the source is popped, a
source without entries is destroyed, and only then the destination is looked up. If both
keys are one, a list of one entry is therefore destroyed and created again, and a longer
one turns by one place; the key space cannot tell these cases apart. The first part says
what becomes of the keys, the second one what becomes of the rings in memory.
-/

import PseudoRedis.Ranges

namespace PseudoRedis

open Rings

/-! ### The keys -/

variable {dict : Dict Obj} {key src dst entry : Bss} {entries rest : List Bss}

/-- The entries under a key; an absent key counts as an empty list. -/
def entriesAt (dict : Dict Obj) (key : Bss) : List Bss :=
  match dictLookUp dict key with
  | some (.list entries) => entries
  | _ => []

/-- The key is absent or holds a list. -/
def HoldsEntries (dict : Dict Obj) (key : Bss) : Prop :=
  dictLookUp dict key = none ∨ dictLookUp dict key = some (.list (entriesAt dict key))

/-- The key space with an entry in front of the list under a key. -/
def pushFront (dict : Dict Obj) (key entry : Bss) : Dict Obj :=
  if dictLookUp dict key = none then dictAdd dict key (.list [entry])
  else dictSetVal dict key (.list (entry :: entriesAt dict key))

theorem lookUp_pushFront (placed : dict.Placed) (short : key.Short) (entry : Bss) {other : Bss}
    (otherShort : other.Short) :
    dictLookUp (pushFront dict key entry) other =
      if other.content = key.content then some (.list (entry :: entriesAt dict key))
      else dictLookUp dict other := by
  rw [pushFront]
  cases answer : dictLookUp dict key with
  | none =>
    have nothing : entriesAt dict key = [] := by rw [entriesAt, answer]
    rw [if_pos rfl, nothing]
    split
    · rename_i same
      rw [lookUp_of_content (dictAdd_placed placed short _) short otherShort same,
        lookUp_dictAdd_self placed.sized, answer]
    · rename_i different
      exact lookUp_dictAdd_of_ne placed short otherShort _ different
  | some obj =>
    rw [if_neg (Option.some_ne_none obj)]
    split
    · rename_i same
      rw [lookUp_of_content (dictSetVal_placed placed key _) short otherShort same]
      exact lookUp_dictSetVal_self placed.sized answer _
    · rename_i different
      exact lookUp_dictSetVal_of_ne placed short otherShort _ different

theorem putList_placed (placed : dict.Placed) (key : Bss) (entries : List Bss) :
    (putList dict key key entries).Placed := by
  have assigned := dictSetVal_placed placed key (.list entries)
  rw [putList]
  split
  · rw [dictRm_fst]
    exact dictRmNf_placed assigned key
  · exact assigned

/-- The source once its last entry is out. -/
theorem lookUp_popped (placed : dict.Placed) (short : src.Short)
    (source : dictLookUp dict src = some (.list entries)) (rest : List Bss) {other : Bss}
    (otherShort : other.Short) :
    dictLookUp (putList dict src src rest) other =
      if other.content = src.content then if rest = [] then none else some (.list rest)
      else dictLookUp dict other := by
  split
  · rename_i same
    rw [lookUp_of_content (putList_placed placed src rest) short otherShort same]
    exact lookUp_putList_self placed short source rest
  · rename_i different
    exact lookUp_putList_of_ne placed short otherShort different rest

/-- The last entry of the source is the first one of the destination. The source is gone if it has
no other entries and is not the destination, and the other keys are as they were. -/
structure MovedLast (dict dict' : Dict Obj) (src dst : Bss) (rest : List Bss) (entry : Bss) :
    Prop where
  placed : dict'.Placed
  lookUp : ∀ other : Bss, other.Short → dictLookUp dict' other =
    if other.content = dst.content then
      some (.list (entry :: if dst.content = src.content then rest else entriesAt dict dst))
    else if other.content = src.content then if rest = [] then none else some (.list rest)
    else dictLookUp dict other

theorem pushFront_placed (placed : dict.Placed) (short : key.Short) (entry : Bss) :
    (pushFront dict key entry).Placed := by
  rw [pushFront]
  split
  · exact dictAdd_placed placed short _
  · exact dictSetVal_placed placed key _

theorem movedLast (placed : dict.Placed) (srcShort : src.Short) (dstShort : dst.Short)
    (source : dictLookUp dict src = some (.list entries)) (rest : List Bss) (entry : Bss) :
    MovedLast dict (pushFront (putList dict src src rest) dst entry) src dst rest entry := by
  have popped := putList_placed placed src rest
  have target : entriesAt (putList dict src src rest) dst =
      if dst.content = src.content then rest else entriesAt dict dst := by
    rw [entriesAt, lookUp_popped placed srcShort source rest dstShort]
    by_cases same : dst.content = src.content
    · rw [if_pos same, if_pos same]
      by_cases empty : rest = []
      · rw [if_pos empty, empty]
      · rw [if_neg empty]
    · rw [if_neg same, if_neg same]
      rfl
  refine ⟨pushFront_placed popped dstShort entry, fun other otherShort => ?_⟩
  rw [lookUp_pushFront popped dstShort entry otherShort, target,
    lookUp_popped placed srcShort source rest otherShort]

theorem listPop_right (rest : List Bss) (entry : Bss) :
    listPop .right (rest ++ [entry]) = some (entry, rest) := by
  cases out : listPop .right (rest ++ [entry]) with
  | none => exact absurd (eq_nil_of_listPop out) (List.concat_ne_nil _ _)
  | some pair =>
    obtain ⟨same, last⟩ := List.append_inj' (taken_of_listPop out) rfl
    rw [same, (List.cons.inj last).1]

/-- Both commands pop and push in the same way. -/
theorem rpoplpush_eq (placed : dict.Placed) (srcShort : src.Short) (dstShort : dst.Short)
    (source : dictLookUp dict src = some (.list (rest ++ [entry])))
    (target : HoldsEntries dict dst) (blocked : Run Obj) (finish : Dict Obj → Bss → Run Obj) :
    rpoplpush dict src dst blocked finish =
      finish (pushFront (putList dict src src rest) dst entry) entry := by
  have popped := lookUp_popped placed srcShort source rest dstShort
  have held : HoldsEntries (putList dict src src rest) dst := by
    rw [HoldsEntries, entriesAt, popped]
    by_cases same : dst.content = src.content
    · rw [if_pos same]
      split
      · exact Or.inl rfl
      · exact Or.inr rfl
    · rw [if_neg same]
      exact target
  rw [HoldsEntries] at held
  simp only [rpoplpush, source, listPop_right]
  rcases held with absent | found
  · simp only [absent, pushFront, if_true]
  · simp only [found, pushFront, reduceCtorEq, if_false]

/-! ### The rings -/

/-- `free(list)`, once the list has no entries. -/
def listFree (heap : ListHeap) (list : Addr) : ListHeap :=
  { heap with live := Function.update heap.live list false }

/-- An empty source is destroyed with its key. -/
def leaveSource (heap : ListHeap) (source : Addr) : ListHeap :=
  if heap.num source = 0 then listFree heap source else heap

/-- The pointers of both commands. The destination may have to be created. -/
def moveLast (heap : ListHeap) (source target : Addr) (create : Bool) : Option ListHeap :=
  match listPopBack heap source with
  | (_, none) => none
  | (heap, some entry) =>
      let heap := leaveSource heap source
      let heap := if create then listCreate heap target else heap
      some (listInsertFront heap target entry)

variable {heap : ListHeap} {seqs : Sequences} {source target node : Addr} {front : List Addr}

theorem Represents.freed (represents : Represents heap seqs) (found : seqs source = some []) :
    Represents (listFree heap source) (Function.update seqs source none) := by
  have other {list : Addr} {seq : List Addr}
      (kept : Function.update seqs source none list = some seq) :
      list ≠ source ∧ seqs list = some seq := by
    by_cases same : list = source
    · rw [same, Function.update_self] at kept
      cases kept
    · rw [Function.update_of_ne same] at kept
      exact ⟨same, kept⟩
  refine ⟨fun list seq kept => represents.ring list seq (other kept).2,
    fun list seq kept => represents.num list seq (other kept).2,
    fun list seq kept inner member => ?_,
    fun first second firstSeq secondSeq firstKept secondKept => represents.apart first second
      firstSeq secondSeq (other firstKept).2 (other secondKept).2⟩
  obtain ⟨apart, there⟩ := other kept
  have different : inner ≠ source := fun same =>
    represents.apart list source seq [] there found apart member (same ▸ List.mem_singleton_self _)
  exact (Function.update_of_ne different _ _).trans (represents.live list seq there inner member)

theorem Free.freed (free : Free heap seqs node) (found : seqs source = some []) :
    Free (listFree heap source) (Function.update seqs source none) node := by
  have different : node ≠ source := fun same =>
    free.loose source [] found (same ▸ List.mem_singleton_self _)
  refine ⟨(Function.update_of_ne different _ _).trans free.live, fun list seq kept => ?_⟩
  by_cases same : list = source
  · rw [same, Function.update_self] at kept
    cases kept
  · rw [Function.update_of_ne same] at kept
    exact free.loose list seq kept

theorem Free.created (free : Free heap seqs node) (dead : heap.live target = false) :
    Free (listCreate heap target) (Function.update seqs target (some [])) node := by
  have different : node ≠ target := by
    rintro rfl
    rw [free.live] at dead
    cases dead
  refine ⟨(Function.update_of_ne different _ _).trans free.live, fun list seq kept => ?_⟩
  by_cases same : list = target
  · rw [same, Function.update_self] at kept
    cases kept
    rw [same]
    exact List.not_mem_cons_of_ne_of_not_mem different List.not_mem_nil
  · rw [Function.update_of_ne same] at kept
    exact free.loose list seq kept

/-- The last entry of a list, popped, is in no list. -/
theorem Represents.popLast (represents : Represents heap seqs)
    (found : seqs source = some (front ++ [node])) :
    ∃ heap', listPopBack heap source = (heap', some node) ∧ heap'.val = heap.val ∧
      heap'.live = heap.live ∧ Represents heap' (Function.update seqs source (some front)) ∧
      Free heap' (Function.update seqs source (some front)) node := by
  have ring := represents.ring source _ found
  have last : heap.prev source = node := ring.prev_head.trans List.getLastD_concat
  have popped := @Represents.unlinked _ _ _ _ represents front [] found
  rw [List.append_nil] at popped
  refine ⟨(unlink heap node).count source (-1), ?_, rfl, rfl, popped⟩
  rw [listPopBack, if_neg (ring.next_eq_head_iff.not.mpr (List.concat_ne_nil _ _)), last]
  rfl

/-- A list that is destroyed when it is empty. -/
def orNone {Item : Type} (left : List Item) : Option (List Item) :=
  match left with
  | [] => none
  | first :: rest => some (first :: rest)

theorem Represents.left (represents : Represents heap seqs)
    (found : seqs source = some front) (free : Free heap seqs node) :
    Represents (leaveSource heap source) (Function.update seqs source (orNone front)) ∧
      Free (leaveSource heap source) (Function.update seqs source (orNone front))
        node := by
  have count := represents.num source _ found
  cases front with
  | nil =>
    rw [leaveSource, if_pos (count.trans List.length_nil)]
    exact ⟨represents.freed found, free.freed found⟩
  | cons first rest =>
    have some : heap.num source ≠ 0 := by
      rw [count]
      exact Nat.succ_ne_zero _
    rw [leaveSource, if_neg some, orNone, ← found, Function.update_eq_self]
    exact ⟨represents, free⟩

/-- Where the destination's list is, whether it has to be created, and the entries it has when the
source is done with: it is the source, another list, or a new one. -/
inductive Destination (heap : ListHeap) (seqs : Sequences) (source : Addr) (rest : List Bss) :
    Addr → Bool → List Bss → Prop
  | same (some : rest ≠ []) : Destination heap seqs source rest source false rest
  | other {target : Addr} {seq : List Addr} {old : List Bss} (apart : target ≠ source)
      (found : seqs target = some seq) (shows : Shows heap seq old) :
      Destination heap seqs source rest target false old
  | created {target : Addr} (dead : heap.live target = false ∨ target = source ∧ rest = []) :
      Destination heap seqs source rest target true []

theorem leaveSource_val (heap : ListHeap) (source : Addr) :
    (leaveSource heap source).val = heap.val := by
  rw [leaveSource]
  split <;> rfl

theorem leaveSource_dead {target : Addr} (dead : heap.live target = false) :
    (leaveSource heap source).live target = false := by
  rw [leaveSource]
  split
  · by_cases same : target = source
    · rw [same]
      exact Function.update_self _ _ _
    · exact (Function.update_of_ne same _ _).trans dead
  · exact dead

/-- An entry linked in at the front of a list. -/
theorem Represents.pushed (represents : Represents heap seqs) {seq : List Addr}
    (found : seqs target = some seq) (free : Free heap seqs node) :
    Represents (listInsertFront heap target node)
      (Function.update seqs target (some (node :: seq))) := by
  have inserted := represents.insertFront (found ▸ Option.some_ne_none _) free
  rwa [edit_of_found found] at inserted

/-- The last string of a list is the one of the last entry. -/
theorem Shows.last {seq : List Addr} (shows : Shows heap seq (rest ++ [entry])) :
    ∃ front node, seq = front ++ [node] ∧ Shows heap front rest ∧ heap.val node = some entry := by
  obtain ⟨front, node, back, rfl, same, held, nothing⟩ := shows.split
  rw [List.map_eq_nil_iff.mp nothing]
  exact ⟨front, node, rfl, same, held⟩

/-- The memory once the last entry of the source is out, and the source destroyed if it had no
other. -/
structure Departed (heap heap' : ListHeap) (seqs : Sequences) (source node : Addr)
    (front : List Addr) (rest : List Bss) (entry : Bss) : Prop where
  run : ∀ target create, moveLast heap source target create =
    some (listInsertFront (if create then listCreate heap' target else heap') target node)
  represents : Represents heap' (Function.update seqs source (orNone front))
  free : Free heap' (Function.update seqs source (orNone front)) node
  shows : Shows heap' front rest
  held : heap'.val node = some entry
  val : heap'.val = heap.val
  dead : ∀ target, heap.live target = false ∨ target = source ∧ rest = [] →
    heap'.live target = false

theorem Stored.departed {seq : List Addr}
    (stored : Stored heap seqs source seq (rest ++ [entry])) :
    ∃ heap' front node, seq = front ++ [node] ∧
      Departed heap heap' seqs source node front rest entry := by
  obtain ⟨front, node, rfl, shows, held⟩ := stored.shows.last
  obtain ⟨popped, ran, vals, lives, represents, free⟩ := stored.represents.popLast stored.found
  obtain ⟨represents', free'⟩ := represents.left (Function.update_self _ _ _) free
  rw [Function.update_idem] at represents' free'
  have kept : (leaveSource popped source).val = heap.val :=
    (leaveSource_val popped source).trans vals
  refine ⟨leaveSource popped source, front, node, rfl, ⟨fun target create => ?_, represents', free',
    shows.congr fun inner _ => congrFun kept inner, (congrFun kept node).trans held, kept,
    fun target dead => ?_⟩⟩
  · simp only [moveLast, ran]
  · rcases dead with gone | ⟨rfl, empty⟩
    · exact leaveSource_dead ((congrFun lives target).trans gone)
    · have nothing : front.length = 0 := by
        rw [List.map_eq_nil_iff.mp (shows.trans (congrArg _ empty))]
        rfl
      have count := represents.num target _ (Function.update_self _ _ _)
      rw [leaveSource, if_pos (count.trans nothing)]
      exact Function.update_self _ _ _

/-- The pointers move the last entry of the source to the front of the destination, and leave the
other lists alone. -/
theorem moveLast_moves {seq : List Addr} {create : Bool} {old : List Bss}
    (stored : Stored heap seqs source seq (rest ++ [entry]))
    (destination : Destination heap seqs source rest target create old) :
    ∃ heap' seqs' seq', moveLast heap source target create = some heap' ∧
      Represents heap' seqs' ∧ seqs' target = some seq' ∧ Shows heap' seq' (entry :: old) ∧
      (target ≠ source → ∃ left, seqs' source = orNone left ∧ Shows heap' left rest) ∧
      ∀ list, list ≠ source → list ≠ target → seqs' list = seqs list := by
  obtain ⟨heap', front, node, rfl, departed⟩ := stored.departed
  have others {list : Addr} (different : list ≠ source) :
      Function.update seqs source (orNone front) list = seqs list :=
    Function.update_of_ne different _ _
  cases destination with
  | same some =>
    have left : orNone front = Option.some front := by
      cases front with
      | nil => exact absurd (List.map_eq_nil_iff.mp departed.shows.symm) some
      | cons first more => rfl
    have found := (Function.update_self source (orNone front) seqs).trans left
    refine ⟨_, _, node :: front, departed.run _ _, departed.represents.pushed found departed.free,
      Function.update_self _ _ _, congrArg₂ List.cons departed.held departed.shows,
      fun apart => absurd rfl apart, fun list different _ => ?_⟩
    rw [Function.update_of_ne different, others different]
  | @other target tail old apart found shows =>
    have kept : Shows heap' tail old := shows.congr fun inner _ => congrFun departed.val inner
    refine ⟨_, _, node :: tail, departed.run _ _,
      departed.represents.pushed ((others apart).trans found) departed.free,
      Function.update_self _ _ _, congrArg₂ List.cons departed.held kept,
      fun _ => ⟨front, ?_, departed.shows⟩, fun list different away => ?_⟩
    · simp [apart.symm]
    · simp [away, others different]
  | @created target dead =>
    have dead' := departed.dead target dead
    have away {inner : Addr} (member : inner ∈ front ++ [node]) : inner ≠ target := by
      rintro rfl
      rcases dead with gone | ⟨rfl, -⟩
      · rw [stored.represents.live _ _ stored.found inner (List.mem_cons_of_mem _ member)] at gone
        cases gone
      · exact (stored.represents.ring _ _ stored.found).ne_head member rfl
    have fresh := departed.represents.create dead'
    have found : Function.update (Function.update seqs source (orNone front)) target (some [])
        target = some [] := Function.update_self _ _ _
    refine ⟨_, _, [node], departed.run _ _, fresh.pushed found (departed.free.created dead'),
      Function.update_self _ _ _, congrArg₂ List.cons ?_ rfl, fun apart => ⟨front, ?_, ?_⟩,
      fun list different away => ?_⟩
    · exact (Function.update_of_ne (away List.mem_concat_self) _ _).trans departed.held
    · simp [apart.symm]
    · exact departed.shows.congr fun inner member =>
        Function.update_of_ne (away (List.mem_append_left _ member)) _ _
    · simp [away, others different]

/-! ### Both commands -/

/-- `RPOPLPUSH`, and `BRPOPLPUSH` as far as it changes the key space, move the last entry of the
source to the front of the destination. So do the pointers of the two lists, and if both keys are
one the list turns by one place. -/
theorem rpoplpush_moves (env : Env) (dict : Dict Obj) (src dst entry : Bss) (rest : List Bss)
    (placed : dict.Placed) (srcShort : src.Short) (dstShort : dst.Short)
    (source : dictLookUp dict src = some (.list (rest ++ [entry])))
    (target : HoldsEntries dict dst) :
    (∃ dict', MovedLast dict dict' src dst rest entry ∧
      rpoplpushCommand dict [src, dst] = stringReply dict' entry.str entry.len ∧
      brpoplpushCommand env dict [src, dst] = leaving dict' [⟨some entry, strNi⟩] (env.fallOff 0)) ∧
    ∀ heap seqs list seq list' create, Stored heap seqs list seq (rest ++ [entry]) →
      Destination heap seqs list rest list' create
        (if dst.content = src.content then rest else entriesAt dict dst) →
      ∃ heap' seqs' seq', moveLast heap list list' create = some heap' ∧
        Represents heap' seqs' ∧ seqs' list' = some seq' ∧
        Shows heap' seq'
          (entry :: if dst.content = src.content then rest else entriesAt dict dst) ∧
        (list' ≠ list → ∃ left, seqs' list = orNone left ∧ Shows heap' left rest) ∧
        ∀ other, other ≠ list → other ≠ list' → seqs' other = seqs other := by
  refine ⟨⟨_, movedLast placed srcShort dstShort source rest entry, ?_, ?_⟩, ?_⟩
  · exact rpoplpush_eq placed srcShort dstShort source target (nilReply dict)
      fun dict entry => stringReply dict entry.str entry.len
  · exact rpoplpush_eq placed srcShort dstShort source target (returning dict eBlocked)
      fun dict entry => leaving dict [⟨some entry, strNi⟩] (env.fallOff 0)
  · intro heap seqs list seq list' create stored destination
    exact moveLast_moves stored destination

/-- After `RPUSH b x`, `RPOPLPUSH b b` keeps the list, whose ring is destroyed and created again. -/
theorem rpoplpush_moves_one :
    (∃ dict', rpoplpushCommand pushedKey [textArg 3 "b", textArg 4 "b"] =
        stringReply dict' (textArg 2 "x").str 1 ∧
      dictLookUp dict' (textArg 5 "b") = some (.list [textArg 2 "x"])) ∧
    ∃ heap', moveLast (oneString 16 32) 16 16 true = some heap' ∧ heap'.next 16 = 32 := by
  obtain ⟨seqs, stored⟩ := oneString_stored
  have short (id : Nat) : (textArg id "b").Short := (textArg_arg id (by decide)).short
  obtain ⟨⟨dict', moved, ran, -⟩, rings⟩ := rpoplpush_moves Env.plain pushedKey (textArg 3 "b")
    (textArg 4 "b") (textArg 2 "x") [] pushedKey_placed (short 3) (short 4) rfl (Or.inr rfl)
  obtain ⟨heap', seqs', seq', moves, -⟩ := rings _ _ _ _ 16 true stored
    (Destination.created (Or.inr ⟨rfl, rfl⟩))
  refine ⟨⟨dict', ran, ?_⟩, heap', moves, ?_⟩
  · rw [moved.lookUp _ (short 5)]
    rfl
  · cases moves
    rfl

end PseudoRedis

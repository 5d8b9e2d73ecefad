/-
This file follows a dictionary in memory from `dict_create` to `dict_destroy`. Its caller
allocates and releases keys and values as it likes, as long as it keeps its hands off what
is the dictionary's, and calls the functions of `dict.c` in any order. No such history
follows a pointer to something that is not allocated; the dictionary stands for the finite
map the calls make; and in the end every entry, key and value that was the dictionary's is
released, each of them once, and nothing else is.
-/

import PseudoRedis.DictDestroy
import PseudoRedis.KeyMap

namespace PseudoRedis

variable {V : Type} [DictVal V] {heap heap' : DictHeap V} {map : Bytes → Option V}
  {placed : Placement V}

/-! ### Histories -/

/-- What the caller of `dict.c` does: it allocates and releases keys and values, or calls a function
with some of them. `obj` is what lies at `val`, and `room` what `malloc` returns for an entry. -/
inductive DictCall (V : Type) where
  | allocKey (key : Addr) (name : Bss)
  | allocVal (val : Addr) (obj : V)
  | freeKey (key : Addr)
  | destroyVal (val : Addr)
  | freeEntry (entry : Addr)
  | lookUp (key : Addr)
  | add (key val : Addr) (obj : V) (room : Option Addr)
  | addShallow (key val : Addr) (obj : V) (room : Option Addr)
  | rm (key : Addr)
  | rmNf (key : Addr)
  | rename (key newKey : Addr)

/-- What a function returns: a code, or a pointer. -/
inductive DictAnswer where
  | code (ret : Int)
  | pointer (addr : Option Addr)

/-- The memory after a call, and what it returned. -/
def DictCall.run (heap : DictHeap V) : DictCall V → Except HeapFault (DictHeap V × DictAnswer)
  | .allocKey key name =>
      .ok ({ heap with key := Function.update heap.key key (some name) }, .code 0)
  | .allocVal val obj =>
      .ok ({ heap with obj := Function.update heap.obj val (some obj) }, .code 0)
  | .freeKey key => do
      let heap ← heap.freeKey key
      return (heap, .code 0)
  | .destroyVal val => do
      let heap ← heap.destroyVal val
      return (heap, .code 0)
  | .freeEntry entry => do
      let heap ← heap.freeEntry entry
      return (heap, .code 0)
  | .lookUp key => do
      let val ← heap.dictLookUp key
      return (heap, .pointer val)
  | .add key val _ room => do
      let (heap, ret) ← heap.dictAdd key val room
      return (heap, .code ret)
  | .addShallow key val _ room => do
      let (heap, ret) ← heap.dictAddShallow key val room
      return (heap, .code ret)
  | .rm key => do
      let (heap, ret) ← heap.dictRm key
      return (heap, .code ret)
  | .rmNf key => do
      let (heap, iter) ← heap.dictRmNf key
      return (heap, .pointer iter.curr)
  | .rename key newKey => do
      let (heap, ret) ← heap.dictRename key newKey
      return (heap, .code ret)

/-- A string of the caller or of the dictionary. -/
def DictHeap.Text (heap : DictHeap V) (key : Addr) : Prop :=
  ∃ name, heap.key key = some name ∧ name.Short

/-- The bytes of a string in memory. -/
def DictHeap.text (heap : DictHeap V) (key : Addr) : Bytes :=
  ((heap.key key).map Bss.content).getD []

/-- What the caller has to see to: it allocates what is not in use, releases what is its own, and
hands over what is its own. Only the dictionary of objects, in which no value is `SET_VAL_PTR`, is
renamed in. -/
def DictCall.Allowed (heap : DictHeap V) : DictCall V → Prop
  | .allocKey key _ => heap.key key = none
  | .allocVal val _ => heap.obj val = none
  | .freeKey key => heap.key key ≠ none ∧ ¬ heap.OwnsKey key
  | .destroyVal val => heap.obj val ≠ none ∧ ¬ heap.OwnsVal val
  | .freeEntry entry => heap.entry entry ≠ none ∧ ¬ heap.Linked entry
  | .lookUp key | .rm key | .rmNf key => heap.Text key
  | .add key val obj room | .addShallow key val obj room =>
      heap.Text key ∧ ¬ heap.OwnsKey key ∧ heap.ValAt val obj ∧ ¬ heap.OwnsVal val ∧
        ∀ addr ∈ room, heap.entry addr = none
  | .rename key newKey =>
      heap.Text key ∧ heap.Text newKey ∧ ¬ heap.OwnsKey newKey ∧
        ∀ val : V, DictVal.isSetValPtr val = false

/-- What a call means for the finite map. -/
def DictCall.meaning (heap : DictHeap V) (map : Bytes → Option V) : DictCall V → Bytes → Option V
  | .add key _ obj room =>
      match map (heap.text key), room with
      | none, none => map
      | none, some _ => Function.update map (heap.text key) (some obj)
      | some old, _ => Function.update map (heap.text key)
          (some (if DictVal.isSetValPtr old then old else obj))
  | .addShallow key _ obj room =>
      match map (heap.text key), room with
      | none, some _ => Function.update map (heap.text key) (some obj)
      | _, _ => map
  | .rm key | .rmNf key => Function.update map (heap.text key) none
  | .rename key newKey =>
      match map (heap.text key) with
      | none => map
      | some val => Function.update (Function.update map (heap.text key) none) (heap.text newKey)
          (some val)
  | _ => map

/-- What a call returns: the value of the key, whether there was room, whether there was such a
key, and from `dict_rm_nf` the entry of the key. -/
def DictCall.Returns (heap : DictHeap V) (map : Bytes → Option V) (answer : DictAnswer) :
    DictCall V → Prop
  | .lookUp key =>
      ∃ addr, answer = .pointer addr ∧
        match map (heap.text key) with
        | none => addr = none
        | some obj => ∃ val, addr = some val ∧ heap.ValAt val obj
  | .add key _ _ room | .addShallow key _ _ room =>
      answer = .code (if map (heap.text key) = none ∧ room = none then eMemOut else 0)
  | .rm key | .rename key _ =>
      answer = .code (if map (heap.text key) = none then eNotFound else 0)
  | .rmNf key =>
      ∃ addr, answer = .pointer addr ∧
        match map (heap.text key) with
        | none => addr = none
        | some obj => ∃ entry own val, addr = some entry ∧ heap.Linked entry ∧
            heap.fields entry = some (own, val) ∧ heap.text own = heap.text key ∧
              heap.ValAt val obj
  | _ => answer = .code 0

/-- What becomes of the things in memory: a key that is handed over for good is the dictionary's, a
key that was its own is released unless it still is. `dict_rm_nf` releases nothing and lets go only
the entry it returns; the entries of the caller stay as they are. -/
def DictCall.Settles (heap : DictHeap V) (answer : DictAnswer) (heap' : DictHeap V) :
    DictCall V → Prop
  | .add key _ _ _ | .rename _ key =>
      heap.Accounts heap' ∧ (answer = .code 0 → heap'.OwnsKey key)
  | .rm _ | .lookUp _ | .addShallow _ _ _ _ => heap.Accounts heap'
  | .rmNf _ =>
      heap'.key = heap.key ∧ heap'.obj = heap.obj ∧ heap'.fields = heap.fields ∧
        (∀ addr, heap'.Linked addr ↔ heap.Linked addr ∧ answer ≠ .pointer (some addr)) ∧
          ∀ addr, ¬ heap.Linked addr → heap'.entry addr = heap.entry addr
  | _ => True

/-- The memories a dictionary is in when its caller keeps to the rules, with the maps it stands
for. -/
inductive DictRun : DictHeap V → (Bytes → Option V) → Prop
  | create (memory : DictMemory V) (power : Nat) (small : power ≤ 31) :
      DictRun (DictHeap.dictCreate memory power) fun _ => none
  | step {heap heap' : DictHeap V} {map : Bytes → Option V} {answer : DictAnswer}
      (call : DictCall V) (before : DictRun heap map) (allowed : call.Allowed heap)
      (ran : call.run heap = .ok (heap', answer)) : DictRun heap' (call.meaning heap map)

/-- The memory holds the map. -/
def DictHeap.Stands (heap : DictHeap V) (map : Bytes → Option V) : Prop :=
  ∃ placed, heap.Laid placed ∧ (heap.dict placed).toMap = map

/-! ### One call -/

omit [DictVal V] in
theorem DictHeap.text_eq {key : Addr} {name : Bss} (known : heap.key key = some name) :
    heap.text key = name.content := by
  rw [DictHeap.text, known]
  rfl

/-- The functional look-up reads the map. -/
theorem lookUp_text (laid : heap.Laid placed) (stands : (heap.dict placed).toMap = map) {key : Addr}
    {name : Bss} (known : heap.key key = some name) (short : name.Short) :
    dictLookUp (heap.dict placed) name = map (heap.text key) := by
  rw [DictHeap.text_eq known, ← stands]
  exact lookUp_eq_toMap laid.filed short

theorem DictHeap.Laid.key_held (laid : heap.Laid placed) {key : Addr} (owns : heap.OwnsKey key) :
    heap.key key ≠ none := by
  obtain ⟨index, spot, member, val, fields⟩ := laid.ownsKey_iff.mp owns
  obtain ⟨key', val', same, held, -⟩ := laid.holds index spot member
  rw [fields] at same
  cases same
  exact held ▸ Option.some_ne_none _

theorem DictHeap.Laid.obj_held (laid : heap.Laid placed) {val : Addr} (owns : heap.OwnsVal val) :
    heap.obj val ≠ none := by
  obtain ⟨plain, index, spot, member, key, fields⟩ := laid.ownsVal_iff.mp owns
  obtain ⟨key', val', same, -, object⟩ := laid.holds index spot member
  rw [fields] at same
  cases same
  split at object
  · exact absurd object plain
  · exact object.2 ▸ Option.some_ne_none _

/-- What a call does: it ends, and the memory stands for the map it means. -/
def DictCall.Fares (heap : DictHeap V) (map : Bytes → Option V) (call : DictCall V) : Prop :=
  ∃ heap' answer, call.run heap = .ok (heap', answer) ∧ heap'.Stands (call.meaning heap map) ∧
    call.Returns heap map answer ∧ call.Settles heap answer heap'

/-- A change of memory that the dictionary does not see. -/
theorem DictHeap.Laid.unseen (laid : heap.Laid placed) (stands : (heap.dict placed).toMap = map)
    (table : heap'.hashTbl = heap.hashTbl) (power : heap'.power = heap.power)
    (bitMask : heap'.bitMask = heap.bitMask)
    (entries : ∀ addr, heap.Linked addr → heap'.entry addr = heap.entry addr)
    (keys : ∀ key, heap.OwnsKey key → heap'.key key = heap.key key)
    (vals : ∀ val, heap.OwnsVal val → heap'.obj val = heap.obj val) : heap'.Stands map := by
  have same : (heap'.dict placed).entries = (heap.dict placed).entries := by
    rw [DictHeap.entries_dict, DictHeap.entries_dict, power]
  refine ⟨placed, laid.frame table power bitMask entries keys vals, funext fun key => ?_⟩
  rw [Dict.toMap, same]
  exact congrFun stands key

theorem DictCall.allocKey_fares (stands : heap.Stands map) {key : Addr} {name : Bss}
    (unused : heap.key key = none) : (DictCall.allocKey key name : DictCall V).Fares heap map := by
  obtain ⟨placed, laid, stands⟩ := stands
  refine ⟨_, _, rfl, laid.unseen stands rfl rfl rfl (fun _ _ => rfl) (fun other owns => ?_)
    (fun _ _ => rfl), rfl, trivial⟩
  refine Function.update_of_ne ?_ _ _
  rintro rfl
  exact laid.key_held owns unused

theorem DictCall.allocVal_fares (stands : heap.Stands map) {val : Addr} {obj : V}
    (unused : heap.obj val = none) : (DictCall.allocVal val obj).Fares heap map := by
  obtain ⟨placed, laid, stands⟩ := stands
  refine ⟨_, _, rfl, laid.unseen stands rfl rfl rfl (fun _ _ => rfl) (fun _ _ => rfl)
    (fun other owns => ?_), rfl, trivial⟩
  refine Function.update_of_ne ?_ _ _
  rintro rfl
  exact laid.obj_held owns unused

theorem DictCall.freeKey_fares (stands : heap.Stands map) {key : Addr}
    (allowed : heap.key key ≠ none ∧ ¬ heap.OwnsKey key) :
    (DictCall.freeKey key : DictCall V).Fares heap map := by
  obtain ⟨placed, laid, stands⟩ := stands
  obtain ⟨name, held⟩ := Option.ne_none_iff_exists'.mp allowed.1
  refine ⟨{ heap with key := Function.update heap.key key none }, .code 0, ?_,
    laid.unseen stands rfl rfl rfl (fun _ _ => rfl) (fun other owns => ?_) (fun _ _ => rfl), rfl,
    trivial⟩
  · simp only [DictCall.run, DictHeap.freeKey, held, load, bind, Except.bind, pure, Except.pure]
  · refine Function.update_of_ne ?_ _ _
    rintro rfl
    exact allowed.2 owns

theorem DictCall.destroyVal_fares (stands : heap.Stands map) {val : Addr}
    (allowed : heap.obj val ≠ none ∧ ¬ heap.OwnsVal val) :
    (DictCall.destroyVal val : DictCall V).Fares heap map := by
  obtain ⟨placed, laid, stands⟩ := stands
  obtain ⟨obj, held⟩ := Option.ne_none_iff_exists'.mp allowed.1
  refine ⟨{ heap with obj := Function.update heap.obj val none }, .code 0, ?_,
    laid.unseen stands rfl rfl rfl (fun _ _ => rfl) (fun _ _ => rfl) (fun other owns => ?_), rfl,
    trivial⟩
  · simp only [DictCall.run, DictHeap.destroyVal, held, load, bind, Except.bind, pure, Except.pure]
  · refine Function.update_of_ne ?_ _ _
    rintro rfl
    exact allowed.2 owns

theorem DictCall.freeEntry_fares (stands : heap.Stands map) {entry : Addr}
    (allowed : heap.entry entry ≠ none ∧ ¬ heap.Linked entry) :
    (DictCall.freeEntry entry : DictCall V).Fares heap map := by
  obtain ⟨placed, laid, stands⟩ := stands
  obtain ⟨cell, held⟩ := Option.ne_none_iff_exists'.mp allowed.1
  refine ⟨{ heap with entry := Function.update heap.entry entry none }, .code 0, ?_,
    laid.unseen stands rfl rfl rfl (fun other linked => ?_) (fun _ _ => rfl) (fun _ _ => rfl), rfl,
    trivial⟩
  · simp only [DictCall.run, DictHeap.freeEntry, held, load, bind, Except.bind, pure, Except.pure]
  · refine Function.update_of_ne ?_ _ _
    rintro rfl
    exact allowed.2 linked

theorem DictCall.lookUp_fares (stands : heap.Stands map) {key : Addr} (text : heap.Text key) :
    (DictCall.lookUp key : DictCall V).Fares heap map := by
  obtain ⟨placed, laid, stands⟩ := stands
  obtain ⟨name, known, short⟩ := text
  have held := lookUp_text laid stands known short
  rcases laid.lookUp_cases known with ⟨found, -, absent⟩ |
    ⟨front, spot, back, prev, cut, found, -, present⟩
  · refine ⟨heap, .pointer none, ?_, ⟨placed, laid, stands⟩, ⟨none, rfl, ?_⟩, .refl heap⟩
    · simp only [DictCall.run, DictHeap.dictLookUp, DictHeap.dictLookUpIter, known, load, bind,
        Except.bind, found, pure, Except.pure]
    · rw [← held, absent]
  · have member : spot ∈ placed (heap.slot name) :=
      cut ▸ List.mem_append_right _ List.mem_cons_self
    obtain ⟨oldKey, oldVal, fields, -, object⟩ := laid.holds _ spot member
    refine ⟨heap, .pointer (some oldVal), ?_, ⟨placed, laid, stands⟩, ⟨some oldVal, rfl, ?_⟩,
      .refl heap⟩
    · simp only [DictCall.run, DictHeap.dictLookUp, DictHeap.dictLookUpIter, known, load, bind,
        Except.bind, found, DictHeap.entry_of_fields fields, pure, Except.pure]
    · rw [← held, present]
      exact ⟨oldVal, rfl, object⟩

theorem DictCall.add_fares (stands : heap.Stands map) {key val : Addr} {obj : V}
    {room : Option Addr} (allowed : (DictCall.add key val obj room).Allowed heap) :
    (DictCall.add key val obj room).Fares heap map := by
  obtain ⟨placed, laid, rfl⟩ := stands
  obtain ⟨⟨name, known, short⟩, freshKey, valAt, freshVal, fresh⟩ := allowed
  have held := lookUp_text laid rfl known short
  rcases laid.dictAdd ⟨known, short, freshKey, valAt, freshVal, fresh⟩ with
    ⟨rfl, absent, ran⟩ | ⟨room_or, heap', leaves, owns⟩
  · rw [absent] at held
    refine ⟨heap, .code eMemOut, ?_, ⟨placed, laid, ?_⟩, ?_, .refl heap, fun zero => ?_⟩
    · simp only [DictCall.run, ran, bind, Except.bind, pure, Except.pure]
    · simp only [DictCall.meaning, ← held]
    · simp only [DictCall.Returns, ← held, and_self, if_true]
    · exact absurd (DictAnswer.code.inj zero) (by decide)
  · obtain ⟨placed', laid', table⟩ := leaves.laid
    refine ⟨heap', .code 0, ?_, ⟨placed', laid', ?_⟩, ?_, leaves.accounts, fun _ => owns⟩
    · simp only [DictCall.run, leaves.ran, bind, Except.bind, pure, Except.pure]
    · rw [table, toMap_dictAdd laid.filed short, ← lookUp_eq_toMap laid.filed short]
      rw [DictHeap.text_eq known] at held
      cases answer : dictLookUp (heap.dict placed) name with
      | none =>
        rw [answer] at held
        cases room with
        | none => exact absurd answer (room_or rfl)
        | some addr => simp only [DictCall.meaning, DictHeap.text_eq known, ← held]
      | some old =>
        rw [answer] at held
        simp only [DictCall.meaning, DictHeap.text_eq known, ← held]
    · simp only [DictCall.Returns, ← held]
      rw [if_neg fun both => room_or both.2 both.1]

theorem DictCall.addShallow_fares (stands : heap.Stands map) {key val : Addr} {obj : V}
    {room : Option Addr} (allowed : (DictCall.addShallow key val obj room).Allowed heap) :
    (DictCall.addShallow key val obj room).Fares heap map := by
  obtain ⟨placed, laid, rfl⟩ := stands
  obtain ⟨⟨name, known, short⟩, freshKey, valAt, freshVal, fresh⟩ := allowed
  have held := lookUp_text laid rfl known short
  rcases laid.dictAddShallow ⟨known, short, freshKey, valAt, freshVal, fresh⟩ with
    ⟨rfl, absent, ran⟩ | ⟨room_or, heap', leaves, -⟩
  · rw [absent] at held
    refine ⟨heap, .code eMemOut, ?_, ⟨placed, laid, ?_⟩, ?_, .refl heap⟩
    · simp only [DictCall.run, ran, bind, Except.bind, pure, Except.pure]
    · simp only [DictCall.meaning, ← held]
    · simp only [DictCall.Returns, ← held, and_self, if_true]
  · obtain ⟨placed', laid', table⟩ := leaves.laid
    refine ⟨heap', .code 0, ?_, ⟨placed', laid', ?_⟩, ?_, leaves.accounts⟩
    · simp only [DictCall.run, leaves.ran, bind, Except.bind, pure, Except.pure]
    · rw [table, toMap_dictAddShallow laid.filed short, ← lookUp_eq_toMap laid.filed short]
      rw [DictHeap.text_eq known] at held
      cases answer : dictLookUp (heap.dict placed) name with
      | none =>
        rw [answer] at held
        cases room with
        | none => exact absurd answer (room_or rfl)
        | some addr =>
          simp only [DictCall.meaning, DictHeap.text_eq known, ← held, Option.getD_none]
      | some old =>
        rw [answer] at held
        simp only [DictCall.meaning, DictHeap.text_eq known, ← held]
        rw [Option.getD_some, ← answer, lookUp_eq_toMap laid.filed short, Function.update_eq_self]
    · simp only [DictCall.Returns, ← held]
      rw [if_neg fun both => room_or both.2 both.1]

theorem DictCall.rm_fares (stands : heap.Stands map) {key : Addr} (text : heap.Text key) :
    (DictCall.rm key : DictCall V).Fares heap map := by
  obtain ⟨placed, laid, rfl⟩ := stands
  obtain ⟨name, known, short⟩ := text
  have held := lookUp_text laid rfl known short
  obtain ⟨heap', leaves⟩ := laid.dictRm known
  obtain ⟨placed', laid', table⟩ := leaves.laid
  refine ⟨heap', .code (dictRm (heap.dict placed) name).2, ?_, ⟨placed', laid', ?_⟩, ?_,
    leaves.accounts⟩
  · simp only [DictCall.run, leaves.ran, bind, Except.bind, pure, Except.pure]
  · rw [table, dictRm_fst, toMap_dictRmNf laid.filed short, DictCall.meaning,
      DictHeap.text_eq known]
  · have gone := dictRmNf_eq_none_iff (heap.dict placed) name
    rw [DictCall.Returns, ← held, dictRm]
    split
    · rename_i absent
      rw [absent] at gone
      rw [if_pos (gone.mp rfl)]
    · rename_i taken
      rw [taken] at gone
      rw [if_neg (gone.not.mp (Option.some_ne_none _))]

/-- The text of the key an entry was found under. -/
theorem DictHeap.Laid.text_found (laid : heap.Laid placed) {index : Nat}
    {spot : Addr × DictEntry V} (member : spot ∈ placed index) {key own val : Addr} {name : Bss}
    (known : heap.key key = some name) (short : name.Short)
    (fields : heap.fields spot.1 = some (own, val)) (equal : bssCmp name spot.2.key = 0) :
    heap.text own = heap.text key := by
  obtain ⟨key', val', same, held, -⟩ := laid.holds index spot member
  rw [fields] at same
  cases same
  have entry : spot.2 ∈ (heap.dict placed).entries := by
    rw [DictHeap.entries_dict]
    exact List.mem_map_of_mem (laid.lays.mem_contents member)
  rw [DictHeap.text_eq held, DictHeap.text_eq known]
  exact ((bssCmp_eq_zero_iff short (laid.filed.short entry)).mp equal).symm

theorem DictCall.rmNf_fares (stands : heap.Stands map) {key : Addr} (text : heap.Text key) :
    (DictCall.rmNf key : DictCall V).Fares heap map := by
  obtain ⟨placed, laid, rfl⟩ := stands
  obtain ⟨name, known, short⟩ := text
  have held := lookUp_text laid rfl known short
  have removed := toMap_dictRmNf laid.filed short
  rcases laid.rmNf known with ⟨prev, ran, absent⟩ | ⟨heap', spot, prev, member, ran, relinked,
    others, laid', loose, taken, equal, present⟩
  · have nothing := (dictRmNf_eq_none_iff (heap.dict placed) name).mp (congrArg Prod.snd absent)
    rw [absent] at removed
    rw [nothing] at held
    refine ⟨heap, .pointer none, ?_, ⟨placed, laid, ?_⟩, ⟨none, rfl, ?_⟩, rfl, rfl, rfl,
      fun addr => ⟨fun linked => ⟨linked, nofun⟩, And.left⟩, fun _ _ => rfl⟩
    · simp only [DictCall.run, ran, bind, Except.bind, pure, Except.pure]
    · rw [DictCall.meaning, DictHeap.text_eq known, ← removed]
    · rw [← held]
  · obtain ⟨own, val, fields, -, object⟩ := laid.holds _ spot member
    have linked : heap.Linked spot.1 := laid.linked_iff.mpr ⟨_, spot, member, rfl⟩
    rw [taken] at removed
    rw [present] at held
    refine ⟨heap', .pointer (some spot.1), ?_, ⟨_, laid', ?_⟩, ⟨some spot.1, rfl, ?_⟩,
      relinked.key, relinked.obj, relinked.fields, fun addr => ?_, others⟩
    · simp only [DictCall.run, ran, bind, Except.bind, pure, Except.pure]
    · rw [DictCall.meaning, DictHeap.text_eq known, ← removed]
    · rw [← held]
      exact ⟨spot.1, own, val, rfl, linked, fields,
        laid.text_found member known short fields equal, object⟩
    · rw [laid'.linked_iff, laid.linked_iff]
      constructor
      · rintro ⟨index, other, inside, rfl⟩
        obtain ⟨old, different⟩ := Placement.mem_without.mp inside
        exact ⟨⟨index, other, old, rfl⟩, fun same => different
          (Option.some.inj (DictAnswer.pointer.inj same)).symm⟩
      · rintro ⟨⟨index, other, old, rfl⟩, different⟩
        exact ⟨index, other, Placement.mem_without.mpr ⟨old, fun same => different
          (congrArg (fun addr => DictAnswer.pointer (some addr)) same.symm)⟩, rfl⟩

theorem DictCall.rename_fares (stands : heap.Stands map) {key newKey : Addr}
    (allowed : (DictCall.rename key newKey : DictCall V).Allowed heap) :
    (DictCall.rename key newKey : DictCall V).Fares heap map := by
  obtain ⟨placed, laid, rfl⟩ := stands
  obtain ⟨⟨name, known, short⟩, ⟨newName, newKnown, newShort⟩, freshKey, plain⟩ := allowed
  have held := lookUp_text laid rfl known short
  obtain ⟨code, renamed⟩ := toMap_dictRename plain laid.filed short newShort
  obtain ⟨heap', leaves, owns⟩ := laid.dictRename known newKnown newShort freshKey plain
  obtain ⟨placed', laid', table⟩ := leaves.laid
  refine ⟨heap', .code (dictRename (heap.dict placed) name newName).2, ?_, ⟨placed', laid', ?_⟩,
    ?_, leaves.accounts, fun zero => owns ?_⟩
  · simp only [DictCall.run, leaves.ran, bind, Except.bind, pure, Except.pure]
  · rw [table, renamed, DictCall.meaning, DictHeap.text_eq known, DictHeap.text_eq newKnown]
    cases (heap.dict placed).toMap name.content with
    | none => rw [if_pos rfl]
    | some obj => rw [if_neg (Option.some_ne_none _)]
  · rw [code]
    simp only [DictCall.Returns, DictHeap.text_eq known]
  · exact DictAnswer.code.inj zero

/-- Every call of a caller that keeps to the rules. -/
theorem DictCall.fares (stands : heap.Stands map) (call : DictCall V)
    (allowed : call.Allowed heap) : call.Fares heap map := by
  cases call with
  | allocKey key name => exact allocKey_fares stands allowed
  | allocVal val obj => exact allocVal_fares stands allowed
  | freeKey key => exact freeKey_fares stands allowed
  | destroyVal val => exact destroyVal_fares stands allowed
  | freeEntry entry => exact freeEntry_fares stands allowed
  | lookUp key => exact lookUp_fares stands allowed
  | add key val obj room => exact add_fares stands allowed
  | addShallow key val obj room => exact addShallow_fares stands allowed
  | rm key => exact rm_fares stands allowed
  | rmNf key => exact rmNf_fares stands allowed
  | rename key newKey => exact rename_fares stands allowed

/-! ### Any number of calls -/

omit [DictVal V] in
theorem DictHeap.not_linked_of_empty (empty : ∀ index, heap.hashTbl index = none) (addr : Addr) :
    ¬ heap.Linked addr := by
  intro linked
  induction linked with
  | first points => exact absurd ((empty _).symm.trans points) (Option.some_ne_none _).symm
  | behind _ _ ih => exact ih

/-- A new dictionary has an empty chain in every slot. -/
theorem dictCreate_stands (memory : DictMemory V) {power : Nat} (small : power ≤ 31) :
    (DictHeap.dictCreate memory power).Stands fun _ => none := by
  have table : (DictHeap.dictCreate memory power).dict (fun _ => []) = dictCreate power := rfl
  refine ⟨fun _ => [], ⟨fun _ => rfl, fun _ _ member => ?_, fun _ _ _ member => ?_, ?_⟩, ?_⟩
  · exact absurd member List.not_mem_nil
  · exact absurd member List.not_mem_nil
  · exact table ▸ (dictCreate_wellFormed small).toPlaced
  · rw [table, toMap_dictCreate]

/-- The run lemma: after any history the memory stands for the map. -/
theorem DictRun.stands (run : DictRun heap map) : heap.Stands map := by
  induction run with
  | create memory power small => exact dictCreate_stands memory small
  | step call before allowed ran ih =>
    obtain ⟨heap', answer, same, stands, -⟩ := call.fares ih allowed
    rw [ran] at same
    cases same
    exact stands

/-- Whatever was called before, a call that is allowed follows no pointer to what is not allocated,
ends, returns what the map says, and leaves a memory that stands for the map it means; of what was
the dictionary's it loses nothing. -/
theorem dict_memory_safe (run : DictRun heap map) (call : DictCall V)
    (allowed : call.Allowed heap) :
    ∃ heap' answer, call.run heap = .ok (heap', answer) ∧ heap'.Stands (call.meaning heap map) ∧
      DictRun heap' (call.meaning heap map) ∧ call.Returns heap map answer ∧
        call.Settles heap answer heap' := by
  obtain ⟨heap', answer, ran, stands, returns, settles⟩ := call.fares run.stands allowed
  exact ⟨heap', answer, ran, stands, .step call run allowed ran, returns, settles⟩

/-- Nothing is allocated. -/
private def emptyMemory : DictMemory Unit := ⟨fun _ => none, fun _ => none, fun _ => none⟩

/-- A dictionary of members, and a string of its caller. -/
private def heldString : DictHeap Unit :=
  { DictHeap.dictCreate emptyMemory newDictPow with
    key := Function.update (fun _ => none) (address 2) (some (textArg 1 "a")) }

private theorem heldString_run : DictRun heldString fun _ => none :=
  .step (.allocKey (address 2) (textArg 1 "a")) (.create emptyMemory newDictPow newDictPow_le) rfl
    rfl

/-- The string is the dictionary's, and there is no other. -/
private def soleEntry : DictHeap Unit :=
  { heldString with
    entry := Function.update (fun _ => none) (address 3) (some ⟨address 2, setValPtr, none⟩)
    hashTbl := Function.update (fun _ => none) (heldString.slot (textArg 1 "a")) (some (address 3))
    entryNum := 1 }

private def addOne : DictCall Unit := .add (address 2) setValPtr () (some (address 3))

private theorem addOne_allowed : addOne.Allowed heldString := by
  have empty : ∀ addr, ¬ heldString.Linked addr := DictHeap.not_linked_of_empty fun _ => rfl
  refine ⟨⟨textArg 1 "a", ?_, (textArg_arg 1 (by decide)).short⟩, ?_, ?_, ?_, ?_⟩
  · rfl
  · rintro ⟨addr, val, linked, -⟩
    exact empty addr linked
  · rfl
  · rintro ⟨plain, -⟩
    exact plain rfl
  · intro addr room
    cases Option.some.inj room
    rfl

private theorem addOne_ran : addOne.run heldString = .ok (soleEntry, .code 0) := by
  rfl

/-- The same memory, with another string of its caller. -/
private def secondString : DictHeap Unit :=
  { soleEntry with key := Function.update soleEntry.key (address 5) (some (textArg 3 "b")) }

private def addTwo : DictCall Unit := .add (address 5) setValPtr () (some (address 6))

private theorem addTwo_allowed : addTwo.Allowed secondString := by
  refine ⟨⟨textArg 3 "b", rfl, (textArg_arg 3 (by decide)).short⟩, ?_, rfl, ?_, ?_⟩
  · rintro ⟨addr, val, -, fields⟩
    obtain ⟨cell, held, same⟩ := Option.map_eq_some_iff.mp fields
    by_cases first : addr = address 3
    · rw [first, show secondString.entry (address 3) = some ⟨address 2, setValPtr, none⟩ from rfl]
        at held
      cases held
      exact absurd (congrArg Prod.fst same) (by decide : address 2 ≠ address 5)
    · have none : secondString.entry addr = heldString.entry addr :=
        Function.update_of_ne first _ heldString.entry
      rw [none] at held
      cases held
  · rintro ⟨plain, -⟩
    exact plain rfl
  · intro addr room
    cases Option.some.inj room
    rfl

/-- `dict_rm_nf` of the first of two keys. -/
theorem dict_memory_safe_taken :
    ∃ heap map, DictRun heap map ∧ map (bytes "a") = some () ∧ map (bytes "b") = some () ∧
      ∃ heap' answer, (DictCall.rmNf (address 2)).run heap = .ok (heap', answer) ∧
        heap'.Stands ((DictCall.rmNf (address 2)).meaning heap map) ∧
          DictRun heap' ((DictCall.rmNf (address 2)).meaning heap map) ∧
            (DictCall.rmNf (address 2)).Returns heap map answer ∧
              (DictCall.rmNf (address 2)).Settles heap answer heap' := by
  have one : DictRun soleEntry _ := .step addOne heldString_run addOne_allowed addOne_ran
  have string : DictRun secondString _ :=
    .step (.allocKey (address 5) (textArg 3 "b")) one rfl rfl
  have added : ∃ heap, addTwo.run secondString = .ok (heap, .code 0) ∧
      heap.key (address 2) = some (textArg 1 "a") := ⟨_, rfl, rfl⟩
  obtain ⟨heap, ran, known⟩ := added
  have two := DictRun.step addTwo string addTwo_allowed ran
  exact ⟨heap, _, two, rfl, rfl, dict_memory_safe two (.rmNf (address 2))
    ⟨textArg 1 "a", known, (textArg_arg 1 (by decide)).short⟩⟩

/-- In the end `dict_destroy` releases every entry, every key and every value that is the
dictionary's, each of them once, and nothing else. -/
theorem dict_destroy_releases (run : DictRun heap map) :
    ∃ left, heap.dictDestroy = .ok left ∧
      (∀ addr, heap.Linked addr → left.entry addr = none) ∧
        (∀ addr, ¬ heap.Linked addr → left.entry addr = heap.entry addr) ∧
          (∀ key, heap.OwnsKey key → left.key key = none) ∧
            (∀ key, ¬ heap.OwnsKey key → left.key key = heap.key key) ∧
              (∀ val, heap.OwnsVal val → left.obj val = none) ∧
                ∀ val, ¬ heap.OwnsVal val → left.obj val = heap.obj val := by
  obtain ⟨placed, laid, -⟩ := run.stands
  exact laid.dictDestroy

theorem dict_destroy_releases_one :
    ∃ left, soleEntry.dictDestroy = .ok left ∧
      (∀ addr, soleEntry.Linked addr → left.entry addr = none) ∧
        (∀ addr, ¬ soleEntry.Linked addr → left.entry addr = soleEntry.entry addr) ∧
          (∀ key, soleEntry.OwnsKey key → left.key key = none) ∧
            (∀ key, ¬ soleEntry.OwnsKey key → left.key key = soleEntry.key key) ∧
              (∀ val, soleEntry.OwnsVal val → left.obj val = none) ∧
                ∀ val, ¬ soleEntry.OwnsVal val → left.obj val = soleEntry.obj val :=
  dict_destroy_releases (.step addOne heldString_run addOne_allowed addOne_ran)

end PseudoRedis

/-
This file is about the bytes that `GETBIT`, `SETBIT` and `SETRANGE` touch. The three
functions below list the accesses of `bss_getbit`, `bss_setbit` and `bss_setrange`, and
the lemmas after them say that a run of the model stops out of bounds exactly when one of
these lies outside its area. An offset that is not negative never leads to such an access.
A negative one is converted to a `size_t` and passes every test, unless the allocation it
asks for is refused. This is so for the string under a key, and for the fresh one of a key
that is absent.
-/

import PseudoRedis.Bits

namespace PseudoRedis

/-! ### Accesses -/

/-- An access to a byte of a buffer: the size of its area, its length with the spare capacity, and
the index. -/
structure Access where
  area : Nat
  size : Nat
  index : Nat

/-- The index lies between zero and `len + free`. -/
def Access.Inside (access : Access) : Prop := access.index ≤ access.size

def Bss.access (bss : Bss) (index : Nat) : Access := ⟨bss.str.length, bss.size, index⟩

/-- The accesses of a copy or a fill. -/
def Bss.span (bss : Bss) (first count : Nat) : List Access :=
  (List.range' first count).map bss.access

/-- `bss_getbit` reads one byte, if it is inside the string. -/
def getbitAccesses (bss : Bss) (offset : Nat) : List Access :=
  if toSize ((bitPosition offset).1 + 1) > bss.len then [] else [bss.access (bitPosition offset).1]

/-- `bss_setbit` works on a larger string, clears the spare bytes, or works in place. -/
def setbitAccesses (env : Env) (id : Nat) (bss : Bss) (offset : Nat) : List Access :=
  let byte := (bitPosition offset).1
  if toSize (byte + 1) > bss.size then
    match bssCreateEmpty env id (toSize (byte + 1)) with
    | none => []
    | some newBss => [{ newBss with free := 0, len := toSize (byte + 1) }.access byte]
  else if toSize (byte + 1) > bss.len then
    bss.span bss.len bss.free ++ [bss.access (toSize (byte + 1)), bss.access byte]
  else
    [bss.access byte]

/-- `bss_setrange` copies to a larger string, or writes in place. -/
def setrangeAccesses (env : Env) (id : Nat) (bss : Bss) (offset : Nat) (data : Bytes) :
    List Access :=
  if data.length = 0 then
    []
  else if toSize (data.length + offset) > bss.size then
    match bssCreateEmpty env id (toSize (data.length + offset)) with
    | none => []
    | some newBss =>
        let copied := if bss.len > offset then offset else bss.len
        bss.span 0 copied ++ newBss.span 0 copied ++ newBss.span offset data.length
  else if toSize (data.length + offset) > bss.len then
    bss.span offset data.length ++ [bss.access (toSize (data.length + offset))]
  else
    bss.span offset data.length

/-! ### The model stops at the accesses outside an area -/

/-- One of the accesses misses its area. -/
def Misses (accesses : List Access) : Prop := ∃ access ∈ accesses, access.area ≤ access.index

theorem misses_append {first second : List Access} :
    Misses (first ++ second) ↔ Misses first ∨ Misses second := by
  simp only [Misses, List.mem_append, or_and_right, exists_or]

theorem misses_single {bss : Bss} {index : Nat} :
    Misses [bss.access index] ↔ bss.str.length ≤ index := by
  simp only [Misses, List.mem_singleton, exists_eq_left, Bss.access]

theorem misses_nil : ¬ Misses [] := by
  rintro ⟨access, member, -⟩
  cases member

/-- A copy misses an area if it ends behind it. -/
theorem misses_span {bss : Bss} {first count : Nat} :
    Misses (bss.span first count) ↔ 0 < count ∧ bss.str.length < first + count := by
  simp only [Misses, Bss.span, List.mem_map, List.mem_range'_1]
  constructor
  · rintro ⟨access, ⟨index, ⟨least, most⟩, rfl⟩, misses⟩
    have past : bss.str.length ≤ index := misses
    omega
  · rintro ⟨some, misses⟩
    refine ⟨_, ⟨first + count - 1, ⟨by omega, by omega⟩, rfl⟩, ?_⟩
    show bss.str.length ≤ first + count - 1
    omega

/-- A copy stops the model exactly if it misses the area. -/
theorem store_error {area : Bytes} {offset : Nat} {data : Bytes} :
    (∃ stop, store area offset data = .error stop) ↔ area.length < offset + data.length := by
  rw [store]
  split
  · rename_i fits
    exact iff_of_false (by rintro ⟨stop, ⟨⟩⟩) (Nat.not_lt.mpr fits)
  · rename_i misses
    exact iff_of_true ⟨_, rfl⟩ (Nat.lt_of_not_le misses)

/-- `bss_getbit` stops exactly if its access misses. -/
theorem bssGetbit_error {bss : Bss} {offset : Nat} :
    (∃ stop, bssGetbit bss offset = .error stop) ↔ Misses (getbitAccesses bss offset) := by
  rw [bssGetbit, getbitAccesses]
  split
  rename_i byte bit position
  rw [position]
  split
  · exact iff_of_false (by rintro ⟨stop, ⟨⟩⟩) misses_nil
  · rw [misses_single, ← List.getElem?_eq_none_iff]
    cases bss.str[byte]? with
    | none => exact iff_of_true ⟨_, rfl⟩ rfl
    | some char => exact iff_of_false (by rintro ⟨stop, ⟨⟩⟩) (Option.some_ne_none _)

/-- Two copies fail when one of them does. -/
theorem store_bind_error {area : Bytes} {offset ending : Nat} {data tail : Bytes} :
    (∃ stop, ((store area offset data).bind fun str => store str ending tail) = .error stop) ↔
      area.length < offset + data.length ∨ area.length < ending + tail.length := by
  rw [← @store_error _ _ data, ← @store_error _ _ tail]
  cases first : store area offset data with
  | error stop => exact iff_of_true ⟨stop, rfl⟩ (Or.inl ⟨stop, rfl⟩)
  | ok middle =>
    have length := store_length first
    show (∃ stop, store middle ending tail = .error stop) ↔ _
    rw [store_error, store_error, length]
    refine ⟨Or.inr, fun either => either.resolve_left ?_⟩
    rintro ⟨stop, ⟨⟩⟩

/-- Once there is an area to work on, only a byte outside it stops `bss_setbit`. -/
theorem bssSetbit_of_area {env : Env} {id : Nat} {bss grown : Bss} {offset val byte bit : Nat}
    (position : bitPosition offset = (byte, bit))
    (area : bssSetbitArea env id bss byte = .ok (some grown)) :
    ((∃ stop, bssSetbit env id bss offset val = .error stop) ↔ grown.str.length ≤ byte) ∧
      bssSetbit env id bss offset val ≠ .ok none := by
  unfold bssSetbit
  simp only [position, area]
  rw [← List.getElem?_eq_none_iff]
  cases grown.str[byte]? with
  | none => exact ⟨iff_of_true ⟨_, rfl⟩ rfl, by simp⟩
  | some char => exact ⟨iff_of_false (by rintro ⟨stop, ⟨⟩⟩) (Option.some_ne_none _), by simp⟩

/-- `bss_setbit` stops exactly if one of its accesses misses. -/
theorem bssSetbit_error {env : Env} {id : Nat} {bss : Bss} {offset val : Nat} :
    (∃ stop, bssSetbit env id bss offset val = .error stop) ↔
      Misses (setbitAccesses env id bss offset) := by
  rcases position : bitPosition offset with ⟨byte, bit⟩
  rw [setbitAccesses, position]
  dsimp only
  by_cases more : toSize (byte + 1) > bss.size
  · rw [if_pos more]
    cases created : bssCreateEmpty env id (toSize (byte + 1)) with
    | none =>
      unfold bssSetbit
      simp only [position, bssSetbitArea, if_pos more, created]
      exact iff_of_false (by rintro ⟨stop, ⟨⟩⟩) misses_nil
    | some newBss =>
      have area : bssSetbitArea env id bss byte =
          .ok (some { newBss with free := 0, len := toSize (byte + 1) }) := by
        rw [bssSetbitArea, if_pos more, created]
      exact (bssSetbit_of_area position area).1.trans misses_single.symm
  · rw [if_neg more]
    by_cases longer : toSize (byte + 1) > bss.len
    · rw [if_pos longer, misses_append, misses_span,
        show [bss.access (toSize (byte + 1)), bss.access byte] =
          [bss.access (toSize (byte + 1))] ++ [bss.access byte] from rfl, misses_append,
        misses_single, misses_single]
      have copies := @store_bind_error bss.str bss.len (toSize (byte + 1))
        (List.replicate bss.free 0) [0]
      rw [List.length_replicate, List.length_singleton] at copies
      cases stored : (store bss.str bss.len (List.replicate bss.free 0)).bind fun str =>
          store str (toSize (byte + 1)) [0] with
      | error stop =>
        rw [stored] at copies
        unfold bssSetbit
        simp only [position, bssSetbitArea, if_neg more, if_pos longer, stored]
        refine iff_of_true ⟨stop, rfl⟩ ?_
        have outside := copies.mp ⟨stop, rfl⟩
        omega
      | ok str =>
        obtain ⟨middle, first, second⟩ := store_bind stored
        have length : str.length = bss.str.length :=
          (store_length second).trans (store_length first)
        rw [stored] at copies
        have fits := copies.not.mp (by rintro ⟨stop, ⟨⟩⟩)
        have area : bssSetbitArea env id bss byte = .ok (some
            { bss with free := bss.size - toSize (byte + 1), len := toSize (byte + 1), str }) := by
          rw [bssSetbitArea, if_neg more, if_pos longer, stored]
        refine (bssSetbit_of_area position area).1.trans ?_
        show str.length ≤ byte ↔ _
        rw [length]
        omega
    · have area : bssSetbitArea env id bss byte = .ok (some bss) := by
        rw [bssSetbitArea, if_neg more, if_neg longer]
      rw [if_neg longer]
      exact (bssSetbit_of_area position area).1.trans misses_single.symm

/-- A function that copies first and then builds a string stops exactly if the copying does. -/
theorem stops_with_copy {copied : Except Fault Bytes} {whole : Except Fault (Option Bss)}
    (stops : ∀ stop, copied = .error stop → whole = .error stop)
    (goes : ∀ str, copied = .ok str → ∃ result, whole = .ok (some result)) :
    (∃ stop, whole = .error stop) ↔ ∃ stop, copied = .error stop := by
  cases copied with
  | error stop => exact iff_of_true ⟨stop, stops stop rfl⟩ ⟨stop, rfl⟩
  | ok str =>
    obtain ⟨result, same⟩ := goes str rfl
    rw [same]
    exact iff_of_false (by rintro ⟨stop, ⟨⟩⟩) (by rintro ⟨stop, ⟨⟩⟩)

/-- `bss_setrange` stops exactly if one of its accesses misses. -/
theorem bssSetrange_error {env : Env} {id : Nat} {bss : Bss} (inside : bss.len ≤ bss.str.length)
    {offset : Nat} {data : Bytes} :
    (∃ stop, bssSetrange env id bss offset data = .error stop) ↔
      Misses (setrangeAccesses env id bss offset data) := by
  rw [bssSetrange, setrangeAccesses]
  by_cases empty : data.length = 0
  · rw [if_pos empty, if_pos empty]
    exact iff_of_false (by rintro ⟨stop, ⟨⟩⟩) misses_nil
  · rw [if_neg empty, if_neg empty]
    by_cases more : toSize (data.length + offset) > bss.size
    · rw [if_pos more, if_pos more]
      cases bssCreateEmpty env id (toSize (data.length + offset)) with
      | none => exact iff_of_false (by rintro ⟨stop, ⟨⟩⟩) misses_nil
      | some newBss =>
        have copied : (if bss.len > offset then offset else bss.len) ≤ bss.str.length := by
          split <;> omega
        dsimp only
        refine (@stops_with_copy ((store newBss.str 0
            (bss.str.take (if bss.len > offset then offset else bss.len))).bind fun str =>
              store str offset data) _
          (fun stop failed => by rw [failed]) fun str stored => ⟨_, by rw [stored]⟩).trans ?_
        rw [store_bind_error, List.length_take, Nat.min_eq_left copied, misses_append,
          misses_append, misses_span, misses_span, misses_span]
        omega
    · rw [if_neg more, if_neg more]
      by_cases longer : toSize (data.length + offset) > bss.len
      · rw [if_pos longer, if_pos longer]
        refine (@stops_with_copy ((store bss.str offset data).bind fun str =>
            store str (toSize (data.length + offset)) [0]) _
          (fun stop failed => by rw [failed]) fun str stored => ⟨_, by rw [stored]⟩).trans ?_
        rw [store_bind_error, misses_append, misses_span, misses_single, List.length_singleton]
        omega
      · rw [if_neg longer, if_neg longer]
        refine (@stops_with_copy (store bss.str offset data) _
          (fun stop failed => by rw [failed]) fun str stored => ⟨_, by rw [stored]⟩).trans ?_
        rw [store_error, misses_span]
        omega

/-! ### Offsets that are not negative -/

theorem span_inside {bss : Bss} {first count : Nat} (within : first + count ≤ bss.size + 1) :
    ∀ access ∈ bss.span first count, access.Inside := by
  intro access member
  obtain ⟨index, inRange, rfl⟩ := List.mem_map.mp member
  rw [List.mem_range'_1] at inRange
  show index ≤ bss.size
  omega

theorem single_inside {bss : Bss} {index : Nat} (within : index ≤ bss.size) :
    ∀ access ∈ [bss.access index], access.Inside := by
  intro access member
  rw [List.mem_singleton.mp member]
  exact within

theorem append_inside {first second : List Access} (one : ∀ access ∈ first, access.Inside)
    (two : ∀ access ∈ second, access.Inside) : ∀ access ∈ first ++ second, access.Inside :=
  List.forall_mem_append.mpr ⟨one, two⟩

theorem nil_inside : ∀ access ∈ ([] : List Access), access.Inside :=
  fun _ member => absurd member List.not_mem_nil

theorem getbitAccesses_inside {bss : Bss} {offset : Nat} (small : offset < 2 ^ 63) :
    ∀ access ∈ getbitAccesses bss offset, access.Inside := by
  have index : toSize (((offset / 8 : Nat) : Int) + 1) = offset / 8 + 1 :=
    toSize_natCast (n := offset / 8 + 1) (by omega)
  have size : bss.size = bss.len + bss.free := rfl
  simp only [getbitAccesses, bitPosition_eq (show offset + 1 < 2 ^ 64 by omega), index]
  split
  · exact nil_inside
  · exact single_inside (by omega)

theorem setbitAccesses_inside (env : Env) (id : Nat) {bss : Bss} {offset : Nat}
    (small : offset < 2 ^ 63) : ∀ access ∈ setbitAccesses env id bss offset, access.Inside := by
  have index : toSize (((offset / 8 : Nat) : Int) + 1) = offset / 8 + 1 :=
    toSize_natCast (n := offset / 8 + 1) (by omega)
  have size : bss.size = bss.len + bss.free := rfl
  simp only [setbitAccesses, bitPosition_eq (show offset + 1 < 2 ^ 64 by omega), index]
  split
  · split
    · exact nil_inside
    · exact single_inside (Nat.le_succ _)
  · split
    · refine append_inside (span_inside (by omega)) ?_
      exact @append_inside _ [bss.access (offset / 8)] (single_inside (by omega))
        (single_inside (by omega))
    · exact single_inside (by omega)

theorem setrangeAccesses_inside (env : Env) (id : Nat) {bss : Bss} {offset : Nat} {data : Bytes}
    (small : offset < 2 ^ 63) (short : data.length < 2 ^ 31) :
    ∀ access ∈ setrangeAccesses env id bss offset data, access.Inside := by
  have index : toSize ((data.length : Int) + offset) = data.length + offset :=
    toSize_natCast (n := data.length + offset) (by omega)
  have size : bss.size = bss.len + bss.free := rfl
  simp only [setrangeAccesses, index]
  split
  · exact nil_inside
  · split
    · split
      · exact nil_inside
      · rename_i newBss created
        have fits : EmptyFits (data.length + offset) := by
          rw [EmptyFits, bssMinLen, sizeofBss]
          omega
        have room : data.length + offset ≤ newBss.size := by
          rw [bssCreateEmpty_eq fits created, Bss.size, Nat.zero_add]
          exact Nat.le_max_left _ _
        have copied : (if bss.len > offset then offset else bss.len) ≤ bss.len ∧
            (if bss.len > offset then offset else bss.len) ≤ offset := by
          split <;> omega
        exact append_inside (append_inside (span_inside (by omega)) (span_inside (by omega)))
          (span_inside (by omega))
    · split
      · exact append_inside (span_inside (by omega)) (single_inside (by omega))
      · exact span_inside (by omega)

/-! ### Rejected offsets -/

/-- The command answers with an error. -/
def Rejects (dict : Dict Obj) (run : Run Obj) : Prop :=
  ∃ (s : String) (_ : ErrorText s), run = failReply dict s

theorem not_rejects_fault (dict : Dict Obj) (stop : Fault) : ¬ Rejects dict (fault stop) := by
  rintro ⟨s, text, same⟩
  rw [failReply_eq] at same
  have stopped := congrFun same (Shared.holding [])
  cases stopped

theorem not_rejects_int (dict dict' : Dict Obj) (n : Int) : ¬ Rejects dict (intReply dict' n) := by
  rintro ⟨s, text, same⟩
  rw [failReply_eq] at same
  have replied := Except.ok.inj (congrFun same (Shared.holding []))
  have types : rplyInt = rplyFail := congrArg (fun result => result.sh.curr.replyType) replied
  exact absurd types (by decide)

/-- An offset that is not rejected leads to accesses inside the string only, and a negative one is
rejected. -/
def OffsetSafe (dict : Dict Obj) (place : Int) (run : Run Obj) (accesses : List Access) : Prop :=
  (¬ Rejects dict run → ∀ access ∈ accesses, access.Inside) ∧ (place < 0 → Rejects dict run)

/-- Accesses are safe for offsets that are not negative; the others have to be rejected. -/
theorem offsetSafe_iff {dict : Dict Obj} {place : Int} {run : Run Obj} {accesses : List Access}
    (inside : 0 ≤ place → ∀ access ∈ accesses, access.Inside) :
    OffsetSafe dict place run accesses ↔ 0 ≤ place ∨ Rejects dict run := by
  constructor
  · intro safe
    rcases lt_or_ge place 0 with negative | nonnegative
    · exact Or.inr (safe.2 negative)
    · exact Or.inl nonnegative
  · rintro (nonnegative | rejects)
    · exact ⟨fun _ => inside nonnegative, fun negative => absurd nonnegative (by omega)⟩
    · exact ⟨fun accepted => absurd rejects accepted, fun _ => rejects⟩

/-- The byte lies beyond the capacity, and there is no memory for a longer string. -/
def SetbitRefused (env : Env) (bss : Bss) (offset : Nat) : Prop :=
  bss.size < toSize ((bitPosition offset).1 + 1) ∧
    bssCreateEmpty env env.fresh (toSize ((bitPosition offset).1 + 1)) = none

/-- The range ends beyond the capacity, and there is no memory for a longer string. -/
def SetrangeRefused (env : Env) (bss : Bss) (offset : Nat) (data : Bytes) : Prop :=
  data.length ≠ 0 ∧ bss.size < toSize (data.length + offset) ∧
    bssCreateEmpty env env.fresh (toSize (data.length + offset)) = none

/-- Whether there is memory does not depend on the name of the allocation. -/
theorem bssCreateEmpty_none {env : Env} {id : Nat} (other : Nat) {len : Nat} :
    bssCreateEmpty env id len = none ↔ bssCreateEmpty env other len = none := by
  rw [bssCreateEmpty, bssCreateEmpty]
  split
  · exact iff_of_false (Option.some_ne_none _) (Option.some_ne_none _)
  · exact Iff.rfl

/-- Without memory `bss_setbit` returns `NULL`. -/
theorem bssSetbit_refused {env : Env} {id : Nat} {bss : Bss} {offset val : Nat} :
    bssSetbit env id bss offset val = .ok none ↔ SetbitRefused env bss offset := by
  rcases position : bitPosition offset with ⟨byte, bit⟩
  rw [SetbitRefused, position, bssCreateEmpty_none id]
  by_cases more : toSize (byte + 1) > bss.size
  · cases created : bssCreateEmpty env id (toSize (byte + 1)) with
    | none =>
      unfold bssSetbit
      simp only [position, bssSetbitArea, if_pos more, created, and_true, true_iff]
      exact more
    | some newBss =>
      have area : bssSetbitArea env id bss byte =
          .ok (some { newBss with free := 0, len := toSize (byte + 1) }) := by
        rw [bssSetbitArea, if_pos more, created]
      exact iff_of_false (bssSetbit_of_area position area).2
        fun refused => Option.some_ne_none _ refused.2
  · refine iff_of_false ?_ fun refused => more refused.1
    cases widened : bssSetbitArea env id bss byte with
    | error stop =>
      unfold bssSetbit
      simp only [position, widened]
      exact fun same => by cases same
    | ok outcome =>
      cases outcome with
      | none =>
        rw [bssSetbitArea, if_neg more] at widened
        split at widened
        · split at widened
          · cases widened
          · cases widened
        · cases widened
      | some grown => exact (bssSetbit_of_area position widened).2

theorem bssSetrange_refused {env : Env} {id : Nat} {bss : Bss} {offset : Nat} {data : Bytes} :
    bssSetrange env id bss offset data = .ok none ↔ SetrangeRefused env bss offset data := by
  rw [bssSetrange, SetrangeRefused, bssCreateEmpty_none id]
  by_cases empty : data.length = 0
  · rw [if_pos empty]
    exact iff_of_false (by simp) fun refused => refused.1 empty
  · rw [if_neg empty]
    by_cases more : toSize (data.length + offset) > bss.size
    · rw [if_pos more]
      cases bssCreateEmpty env id (toSize (data.length + offset)) with
      | none => exact iff_of_true rfl ⟨empty, more, rfl⟩
      | some newBss =>
        refine iff_of_false ?_ fun refused => Option.some_ne_none _ refused.2.2
        dsimp only
        split <;> simp
    · rw [if_neg more]
      refine iff_of_false ?_ fun refused => more refused.2.1
      split
      · split <;> simp
      · split <;> simp

variable {env : Env} {dict : Dict Obj} {key offset bit data : Bss} {bss : Bss} {place val : Int}

theorem toSize_lt_of_number (number : bss2int offset = (place, 0)) (nonnegative : 0 ≤ place) :
    toSize place < 2 ^ 63 := by
  obtain ⟨size, small⟩ := toSize_offset number nonnegative
  rwa [size]

theorem content_length_lt (given : data.Arg) : data.content.length < 2 ^ 31 :=
  given.short.content_length ▸ given.short.len_lt

/-- `GETBIT` on a string rejects no offset. -/
theorem getbit_not_rejects (answer : dictLookUp dict key = some (.string bss))
    (number : bss2int offset = (place, 0)) : ¬ Rejects dict (getbitCommand dict [key, offset]) := by
  simp only [getbitCommand, number, answer, ne_eq, not_true_eq_false, if_false]
  cases bssGetbit bss (toSize place) with
  | error stop => exact not_rejects_fault dict stop
  | ok bit => exact not_rejects_int dict dict bit

/-- `SETBIT` rejects an offset only for lack of memory. -/
theorem setbit_rejects_iff (answer : dictLookUp dict key = some (.string bss))
    (number : bss2int offset = (place, 0)) (value : bss2int bit = (val, 0))
    (isBit : val = 0 ∨ val = 1) :
    Rejects dict (setbitCommand env dict [key, offset, bit]) ↔
      SetbitRefused env bss (toSize place) := by
  have accepted : ¬ (val ≠ 0 ∧ val ≠ 1) := by omega
  rw [← @bssSetbit_refused env env.fresh _ _ val.toNat]
  simp only [setbitCommand, number, value, answer, ne_eq, not_true_eq_false, if_false, false_or,
    accepted]
  cases edited : bssSetbit env env.fresh bss (toSize place) val.toNat with
  | error stop =>
    refine iff_of_false ?_ (by simp)
    cases bssGetbit bss (toSize place) with
    | error other => exact not_rejects_fault dict other
    | ok old => exact not_rejects_fault dict stop
  | ok outcome =>
    cases outcome with
    | none =>
      -- a byte beyond the capacity is not read
      have refused := (@bssSetbit_refused env env.fresh _ _ val.toNat).mp edited
      have read : bssGetbit bss (toSize place) = .ok 0 := by
        have beyond := Nat.lt_of_le_of_lt (Nat.le_add_right bss.len bss.free) refused.1
        rw [bssGetbit]
        split
        rename_i byte bit position
        rw [position] at beyond
        exact if_pos beyond
      simp only [read, iff_true]
      exact ⟨memOut, inferInstance, rfl⟩
    | some result =>
      refine iff_of_false ?_ (by simp)
      cases bssGetbit bss (toSize place) with
      | error other => exact not_rejects_fault dict other
      | ok old => exact not_rejects_int dict _ old

/-- So does `SETRANGE`. -/
theorem setrange_rejects_iff (answer : dictLookUp dict key = some (.string bss))
    (number : bss2int offset = (place, 0)) :
    Rejects dict (setrangeCommand env dict [key, offset, data]) ↔
      SetrangeRefused env bss (toSize place) data.content := by
  rw [← @bssSetrange_refused env env.fresh]
  simp only [setrangeCommand, number, answer, ne_eq, not_true_eq_false, if_false]
  cases bssSetrange env env.fresh bss (toSize place) data.content with
  | error stop => exact iff_of_false (not_rejects_fault dict stop) (by simp)
  | ok outcome =>
    cases outcome with
    | none => exact iff_of_true ⟨memOut, inferInstance, rfl⟩ rfl
    | some result => exact iff_of_false (not_rejects_int dict _ _) (by simp)

/-- `GETBIT`, `SETBIT` and `SETRANGE` are safe exactly at the offsets that are not negative, and the
last two at those for which there is no memory. -/
theorem offset_safe_iff (env : Env) (dict : Dict Obj) (key offset bit data bss : Bss)
    (place val : Int) (answer : dictLookUp dict key = some (.string bss))
    (number : bss2int offset = (place, 0)) (value : bss2int bit = (val, 0))
    (isBit : val = 0 ∨ val = 1) (given : data.Arg) :
    (OffsetSafe dict place (getbitCommand dict [key, offset])
        (getbitAccesses bss (toSize place)) ↔ 0 ≤ place) ∧
      (OffsetSafe dict place (setbitCommand env dict [key, offset, bit])
        (getbitAccesses bss (toSize place) ++ setbitAccesses env env.fresh bss (toSize place)) ↔
          0 ≤ place ∨ SetbitRefused env bss (toSize place)) ∧
      (OffsetSafe dict place (setrangeCommand env dict [key, offset, data])
        (setrangeAccesses env env.fresh bss (toSize place) data.content) ↔
          0 ≤ place ∨ SetrangeRefused env bss (toSize place) data.content) := by
  have small := toSize_lt_of_number number
  have short := content_length_lt given
  refine ⟨?_, ?_, ?_⟩
  · rw [offsetSafe_iff fun nonnegative => getbitAccesses_inside (small nonnegative)]
    exact or_iff_left (getbit_not_rejects answer number)
  · rw [offsetSafe_iff fun nonnegative => append_inside (getbitAccesses_inside (small nonnegative))
      (setbitAccesses_inside env env.fresh (small nonnegative)),
      setbit_rejects_iff answer number value isBit]
  · rw [offsetSafe_iff fun nonnegative =>
      setrangeAccesses_inside env env.fresh (small nonnegative) short,
      setrange_rejects_iff answer number]

/-- `SETRANGE k 3 x` is safe. -/
theorem offset_safe_iff_letter :
    OffsetSafe letterKey 3 (setrangeCommand Env.plain letterKey
        [textArg 3 "k", textArg 4 "3", textArg 6 "x"])
      (setrangeAccesses Env.plain Env.plain.fresh (textArg 2 "A") (toSize 3)
        (textArg 6 "x").content) :=
  (offset_safe_iff Env.plain letterKey (textArg 3 "k") (textArg 4 "3") (textArg 5 "1")
    (textArg 6 "x") (textArg 2 "A") 3 1 rfl rfl rfl (Or.inr rfl)
    (textArg_arg 6 (by decide))).2.2.mpr (Or.inl (by decide))

section
variable {empty : Bss} (absent : dictLookUp dict key = none)
  (created : bssCreateEmpty env env.fresh 0 = some empty)
include absent

/-- `GETBIT` replies zero without the key, whatever the offset is. -/
theorem getbit_absent_not_rejects (number : bss2int offset = (place, 0)) :
    ¬ Rejects dict (getbitCommand dict [key, offset]) := by
  simp only [getbitCommand, number, absent, ne_eq, not_true_eq_false, if_false]
  exact not_rejects_int dict dict 0

include created

theorem setbit_absent_rejects_iff (number : bss2int offset = (place, 0))
    (value : bss2int bit = (val, 0)) (isBit : val = 0 ∨ val = 1) :
    Rejects dict (setbitCommand env dict [key, offset, bit]) ↔
      SetbitRefused env empty (toSize place) := by
  have accepted : ¬ (val ≠ 0 ∧ val ≠ 1) := by omega
  rw [← @bssSetbit_refused env (env.fresh + 1) _ _ val.toNat]
  simp only [setbitCommand, newString, number, value, absent, created, ne_eq, not_true_eq_false,
    if_false, false_or, accepted]
  cases bssSetbit env (env.fresh + 1) empty (toSize place) val.toNat with
  | error stop => exact iff_of_false (not_rejects_fault dict stop) (by simp)
  | ok outcome =>
    cases outcome with
    | none => exact iff_of_true ⟨memOut, inferInstance, rfl⟩ rfl
    | some result => exact iff_of_false (not_rejects_int dict _ _) (by simp)

theorem setrange_absent_rejects_iff (number : bss2int offset = (place, 0)) :
    Rejects dict (setrangeCommand env dict [key, offset, data]) ↔
      SetrangeRefused env empty (toSize place) data.content := by
  rw [← @bssSetrange_refused env (env.fresh + 1)]
  simp only [setrangeCommand, newString, number, absent, created, ne_eq, not_true_eq_false,
    if_false]
  cases bssSetrange env (env.fresh + 1) empty (toSize place) data.content with
  | error stop => exact iff_of_false (not_rejects_fault dict stop) (by simp)
  | ok outcome =>
    cases outcome with
    | none => exact iff_of_true ⟨memOut, inferInstance, rfl⟩ rfl
    | some result => exact iff_of_false (not_rejects_int dict _ _) (by simp)

/-- On a key that is absent `GETBIT` touches no string, and the other two work on a fresh one. Their
offsets are safe under the same condition. -/
theorem offset_safe_absent_iff (number : bss2int offset = (place, 0))
    (value : bss2int bit = (val, 0)) (isBit : val = 0 ∨ val = 1) (given : data.Arg) :
    (OffsetSafe dict place (getbitCommand dict [key, offset]) [] ↔ 0 ≤ place) ∧
      (OffsetSafe dict place (setbitCommand env dict [key, offset, bit])
        (setbitAccesses env (env.fresh + 1) empty (toSize place)) ↔
          0 ≤ place ∨ SetbitRefused env empty (toSize place)) ∧
      (OffsetSafe dict place (setrangeCommand env dict [key, offset, data])
        (setrangeAccesses env (env.fresh + 1) empty (toSize place) data.content) ↔
          0 ≤ place ∨ SetrangeRefused env empty (toSize place) data.content) := by
  have small := toSize_lt_of_number number
  have short := content_length_lt given
  refine ⟨?_, ?_, ?_⟩
  · rw [offsetSafe_iff fun _ => nil_inside]
    exact or_iff_left (getbit_absent_not_rejects absent number)
  · rw [offsetSafe_iff fun nonnegative =>
      setbitAccesses_inside env (env.fresh + 1) (small nonnegative),
      setbit_absent_rejects_iff absent created number value isBit]
  · rw [offsetSafe_iff fun nonnegative =>
      setrangeAccesses_inside env (env.fresh + 1) (small nonnegative) short,
      setrange_absent_rejects_iff absent created number]

end

/-- `GETBIT k -1` is not rejected and reads the byte before the string. -/
theorem offset_unsafe :
    ∃ (dict : Dict Obj) (key offset bss : Bss) (place : Int),
      Reachable (fun _ _ => True) dict ∧ dictLookUp dict key = some (.string bss) ∧
      bss2int offset = (place, 0) ∧
      ¬ OffsetSafe dict place (getbitCommand dict [key, offset])
        (getbitAccesses bss (toSize place)) ∧
      Misses (getbitAccesses bss (toSize place)) := by
  have found : dictLookUp letterKey (textArg 3 "k") = some (.string (textArg 2 "A")) := rfl
  have number : bss2int (textArg 4 "-1") = (-1, 0) := rfl
  refine ⟨letterKey, textArg 3 "k", textArg 4 "-1", textArg 2 "A", -1, letterKey_reachable, found,
    number, fun safe => ?_, bssGetbit_error.mp ⟨.outOfBounds, rfl⟩⟩
  exact getbit_not_rejects found number (safe.2 (by decide))

end PseudoRedis

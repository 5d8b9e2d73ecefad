/-
This file is about the two counters of a string and the area they describe. A string is
proper when its area holds the bytes in use, the spare ones and a terminating zero, and
when it has room for a printed number. Every operation that returns a string keeps this
and never gives capacity back, so the assertion of `bss_add_sub`, that a number is stored
without an allocation, cannot fail.
-/

import PseudoRedis.Numbers

namespace PseudoRedis

/-! ### Copies into an area -/

theorem exists_store {area : Bytes} {offset : Nat} {data : Bytes}
    (fits : offset + data.length ≤ area.length) :
    ∃ result, store area offset data = .ok result := ⟨_, if_pos fits⟩

theorem store_inv {area : Bytes} {offset : Nat} {data result : Bytes}
    (stored : store area offset data = .ok result) :
    offset + data.length ≤ area.length ∧
      result = area.take offset ++ data ++ area.drop (offset + data.length) := by
  rw [store] at stored
  split at stored
  · rename_i fits
    cases stored
    exact ⟨fits, rfl⟩
  · cases stored

/-- A copy shows its bytes and leaves the others alone. -/
theorem getElem?_store {area : Bytes} {offset : Nat} {data result : Bytes}
    (stored : store area offset data = .ok result) (index : Nat) :
    result[index]? = if offset ≤ index ∧ index < offset + data.length then data[index - offset]?
      else area[index]? := by
  obtain ⟨fits, rfl⟩ := store_inv stored
  have start : (area.take offset).length = offset := by
    rw [List.length_take]
    omega
  rcases Nat.lt_or_ge index offset with before | reached
  · rw [if_neg (by omega), List.append_assoc, List.getElem?_append_left (by omega),
      List.getElem?_take_of_lt before]
  · rw [List.append_assoc, List.getElem?_append_right (by omega), start]
    rcases Nat.lt_or_ge index (offset + data.length) with inside | after
    · rw [if_pos ⟨reached, inside⟩, List.getElem?_append_left (by omega)]
    · rw [if_neg (by omega), List.getElem?_append_right (by omega), List.getElem?_drop]
      congr 1
      omega

/-- Two copies, one after the other. -/
theorem store_bind {area : Bytes} {offset ending : Nat} {data tail result : Bytes}
    (stored : ((store area offset data).bind fun str => store str ending tail) = .ok result) :
    ∃ middle, store area offset data = .ok middle ∧ store middle ending tail = .ok result := by
  cases first : store area offset data with
  | error stop =>
    rw [first] at stored
    cases stored
  | ok middle =>
    rw [first] at stored
    exact ⟨middle, rfl, stored⟩

/-- A zero written at an index is there. -/
theorem getElem?_terminated {area result : Bytes} {ending : Nat}
    (stored : store area ending [0] = .ok result) : result[ending]? = some 0 := by
  rw [getElem?_store stored, if_pos ⟨Nat.le_refl _, Nat.lt_succ_self _⟩, Nat.sub_self]
  rfl

/-! ### Sizes and positions -/

/-- Bits are counted from the left of a byte: the first one has the largest weight. -/
theorem bitPosition_eq {offset : Nat} (small : offset + 1 < 2 ^ 64) :
    bitPosition offset = (offset / 8, 8 - offset % 8) := by
  have one : toSize ((offset : Int) + 1) = offset + 1 := toSize_natCast (n := offset + 1) small
  simp only [bitPosition, one, Prod.mk.injEq]
  rw [toSize]
  constructor
  · split <;> omega
  · split <;> omega

/-! ### Strings with a terminating zero -/

/-- The area holds the bytes in use, the spare ones, and one more; a zero ends the bytes in use. -/
structure Bss.Ended (bss : Bss) : Prop where
  area : bss.size + 1 ≤ bss.str.length
  ended : bss.str[bss.len]? = some 0

/-- There is room for a printed number as well. -/
structure Bss.Proper (bss : Bss) : Prop extends bss.Ended where
  capacity : bssMinLen ≤ bss.size

/-- What an operation makes of a string: it is ended, and no capacity is given back. -/
structure Grown (bss result : Bss) : Prop extends result.Ended where
  kept : bss.size ≤ result.size

theorem Grown.proper {bss result : Bss} (grown : Grown bss result) (proper : bss.Proper) :
    result.Proper := ⟨grown.toEnded, Nat.le_trans proper.capacity grown.kept⟩

/-- The same area, divided anew and ended again. -/
theorem Bss.Ended.resized {bss result : Bss} (ended : bss.Ended) (size : result.size = bss.size)
    (length : result.str.length = bss.str.length) (zero : result.str[result.len]? = some 0) :
    Grown bss result := by
  refine ⟨⟨?_, zero⟩, Nat.le_of_eq size.symm⟩
  rw [size, length]
  exact ended.area

/-- Bytes copied into the area, and a zero behind the new end. -/
theorem Bss.Ended.copied {bss : Bss} (ended : bss.Ended) {offset len free : Nat} {data str : Bytes}
    (stored : ((store bss.str offset data).bind fun str => store str len [0]) = .ok str)
    (size : len + free = bss.size) : Grown bss { bss with len, free, str } := by
  obtain ⟨middle, first, second⟩ := store_bind stored
  exact ended.resized size ((store_length second).trans (store_length first))
    (getElem?_terminated second)

theorem bssCreate_proper (env : Env) (id : Nat) (data : Bytes) :
    (bssCreate env id data).Proper := by
  refine ⟨⟨?_, ?_⟩, ?_⟩
  · simp only [bssCreate, Bss.size, List.length_append, List.length_cons, Env.leftover_length]
    split <;> omega
  · simp only [bssCreate]
    rw [List.getElem?_append_right (Nat.le_refl _), Nat.sub_self]
    rfl
  · simp only [bssCreate, Bss.size]
    split <;> omega

/-- The length of an empty string that can be allocated without the size wrapping. -/
def EmptyFits (len : Nat) : Prop := sizeofBss + max len bssMinLen + 1 < 2 ^ 64

theorem bssCreateEmpty_eq {env : Env} {id len : Nat} {result : Bss} (fits : EmptyFits len)
    (created : bssCreateEmpty env id len = some result) :
    result = ⟨id, 0, max len bssMinLen, List.replicate (max len bssMinLen + 1) 0⟩ := by
  have size : toSize ((sizeofBss : Int) + (max len bssMinLen : Nat) + 1) =
      sizeofBss + max len bssMinLen + 1 := toSize_natCast (n := sizeofBss + _ + 1) fits
  rw [bssCreateEmpty, size] at created
  split at created
  · cases created
    rw [show sizeofBss + max len bssMinLen + 1 - sizeofBss = max len bssMinLen + 1 by omega]
  · cases created

theorem bssCreateEmpty_proper {env : Env} {id len : Nat} {result : Bss} (fits : EmptyFits len)
    (created : bssCreateEmpty env id len = some result) : result.Proper := by
  rw [bssCreateEmpty_eq fits created]
  refine ⟨⟨?_, ?_⟩, ?_⟩
  · rw [Bss.size, List.length_replicate, Nat.zero_add]
  · rw [List.getElem?_replicate_of_lt (Nat.succ_pos _)]
  · rw [Bss.size, Nat.zero_add]
    exact Nat.le_max_right _ _

/-! ### The operations -/

theorem bssSet_grown {env : Env} {id : Nat} {dst result : Bss} {data : Bytes} (ended : dst.Ended)
    (ran : bssSet env id dst data = .ok (some result)) : Grown dst result := by
  have area := ended.area
  rw [bssSet] at ran
  split at ran
  · rename_i short
    split at ran
    · cases ran
      have size : data.length ≤ doubled dst.size data.length ∧
          dst.size ≤ doubled dst.size data.length := by
        rw [doubled]
        split <;> omega
      refine ⟨⟨?_, ?_⟩, ?_⟩
      · simp only [Bss.size, List.length_append, List.length_cons, Env.leftover_length]
        omega
      · rw [List.getElem?_append_right (Nat.le_refl _), Nat.sub_self]
        rfl
      · rw [Bss.size]
        show dst.size ≤ data.length + (doubled dst.size data.length - data.length)
        omega
    · split at ran <;> cases ran
  · rename_i long
    split at ran
    · cases ran
    · rename_i str stored
      cases ran
      exact ended.copied stored (by omega)

theorem bssAppend_grown {bss result : Bss} {data : Bytes} (ended : bss.Ended)
    (ran : bssAppend bss data = .ok (some result)) : Grown bss result := by
  have area := ended.area
  rw [bssAppend] at ran
  split at ran
  · rename_i room
    split at ran
    · cases ran
    · rename_i str stored
      cases ran
      have size : bss.len + data.length + (bss.free - data.length) = bss.size := by
        rw [Bss.size]
        omega
      exact ended.copied stored size
  · cases ran

/-- The string `bss_setbit` works on holds the byte. -/
theorem bssSetbitArea_grown {env : Env} {id byte : Nat} {bss result : Bss} (ended : bss.Ended)
    (fits : EmptyFits (byte + 1)) (large : bssMinLen ≤ bss.size)
    (ran : bssSetbitArea env id bss byte = .ok (some result)) :
    Grown bss result ∧ byte < result.len := by
  have area := ended.area
  have index : toSize ((byte : Int) + 1) = byte + 1 := by
    refine toSize_natCast (n := byte + 1) ?_
    have bound := fits
    rw [EmptyFits] at bound
    omega
  rw [bssSetbitArea, index] at ran
  split at ran
  · rename_i more
    split at ran
    · cases ran
    · rename_i newBss created
      cases ran
      rw [bssCreateEmpty_eq fits created]
      have whole : max (byte + 1) bssMinLen = byte + 1 := by omega
      rw [whole]
      refine ⟨⟨⟨?_, ?_⟩, ?_⟩, Nat.lt_succ_self byte⟩
      · rw [List.length_replicate]
        exact Nat.le_refl _
      · rw [List.getElem?_replicate_of_lt (Nat.lt_succ_self _)]
      · exact Nat.le_of_lt more
  · rename_i inside
    split at ran
    · split at ran
      · cases ran
      · rename_i str stored
        cases ran
        exact ⟨ended.copied stored (by omega), Nat.lt_succ_self byte⟩
    · rename_i within
      cases ran
      exact ⟨⟨ended, Nat.le_refl _⟩, by omega⟩

theorem bssSetbit_grown {env : Env} {id offset val : Nat} {bss result : Bss} (proper : bss.Proper)
    (small : offset < 2 ^ 63) (ran : bssSetbit env id bss offset val = .ok (some result)) :
    Grown bss result := by
  have fits : EmptyFits (offset / 8 + 1) := by
    rw [EmptyFits, bssMinLen, sizeofBss]
    omega
  unfold bssSetbit at ran
  rw [bitPosition_eq (by omega)] at ran
  simp only at ran
  split at ran
  · cases ran
  · cases ran
  · rename_i grownBss areaRan
    obtain ⟨grown, inside⟩ := bssSetbitArea_grown proper.toEnded fits proper.capacity areaRan
    split at ran
    · cases ran
    · cases ran
      refine ⟨⟨?_, ?_⟩, grown.kept⟩
      · rw [List.length_set]
        exact grown.area
      · rw [List.getElem?_set_ne (Nat.ne_of_lt inside)]
        exact grown.ended

theorem bssSetrange_grown {env : Env} {id offset : Nat} {bss result : Bss} {data : Bytes}
    (proper : bss.Proper) (fits : EmptyFits (data.length + offset))
    (ran : bssSetrange env id bss offset data = .ok (some result)) : Grown bss result := by
  have area := proper.area
  have large := proper.capacity
  have index : toSize ((data.length : Int) + offset) = data.length + offset := by
    refine toSize_natCast (n := data.length + offset) ?_
    have bound := fits
    rw [EmptyFits] at bound
    omega
  rw [bssSetrange, index] at ran
  split at ran
  · cases ran
    exact ⟨proper.toEnded, Nat.le_refl _⟩
  · split at ran
    · rename_i more
      split at ran
      · cases ran
      · rename_i newBss created
        rw [bssCreateEmpty_eq fits created] at ran
        split at ran
        · cases ran
        · rename_i str stored
          cases ran
          obtain ⟨middle, first, second⟩ := store_bind stored
          have whole : max (data.length + offset) bssMinLen = data.length + offset := by omega
          have length : str.length = data.length + offset + 1 := by
            rw [store_length second, store_length first, List.length_replicate, whole]
          refine ⟨⟨?_, ?_⟩, ?_⟩
          · rw [Bss.size, length]
            exact Nat.le_refl _
          · -- both copies end before the last byte of the new area
            have copied : (bss.str.take (if bss.len > offset then offset else bss.len)).length ≤
                offset := by
              rw [List.length_take]
              split <;> omega
            show str[data.length + offset]? = some 0
            rw [getElem?_store second, if_neg (by omega), getElem?_store first,
              if_neg (by omega), whole, List.getElem?_replicate_of_lt (Nat.lt_succ_self _)]
          · exact Nat.le_of_lt more
    · split at ran
      · split at ran
        · cases ran
        · rename_i str stored
          cases ran
          exact proper.copied stored (by omega)
      · rename_i within
        split at ran
        · cases ran
        · rename_i str stored
          cases ran
          refine proper.resized rfl (store_length stored) ?_
          show str[bss.len]? = some 0
          rw [getElem?_store stored, if_neg (by omega)]
          exact proper.ended

theorem cutLen_le {bss : Bss} (some : bss.len ≠ 0) : cutLen bss ≤ bss.len := by
  have index_le := cutZeros_le bss.str (bss.len - 1)
  rw [cutLen]
  split <;> omega

theorem bssCutZero_grown {bss result : Bss} (ended : bss.Ended) (some : bss.len ≠ 0)
    (ran : bssCutZero bss = .ok result) : Grown bss result := by
  have shorter := cutLen_le some
  rw [bssCutZero, if_neg some] at ran
  split at ran
  · cases ran
  · rename_i str stored
    cases ran
    refine ended.resized ?_ (store_length stored) (getElem?_terminated stored)
    have less : cutLen bss ≤ bss.size := Nat.le_trans shorter (Nat.le_add_right _ _)
    show cutLen bss + (bss.size - cutLen bss) = bss.size
    omega

/-- What a string is set to is its content. -/
theorem bssSet_content {env : Env} {id : Nat} {dst result : Bss} {data : Bytes}
    (ran : bssSet env id dst data = .ok (some result)) : result.content = data := by
  rw [bssSet] at ran
  split at ran
  · split at ran
    · cases ran
      exact List.take_left
    · split at ran <;> cases ran
  · split at ran
    · cases ran
    · rename_i str stored
      cases ran
      obtain ⟨middle, first, second⟩ := store_bind stored
      obtain ⟨-, rfl⟩ := store_inv first
      obtain ⟨-, rfl⟩ := store_inv second
      simp only [Bss.content, List.take_zero, List.nil_append, Nat.zero_add]
      rw [List.append_assoc, List.take_left' (by rw [List.length_take, List.length_append]; omega),
        List.take_left]

/-- Setting a string to what it has room for needs no allocation. -/
theorem bssSet_room (env : Env) (id : Nat) {bss : Bss} (ended : bss.Ended) {data : Bytes}
    (short : data.length ≤ bss.size) :
    ∃ result, bssSet env id bss data = .ok (some result) ∧ result.id = bss.id ∧
      result.len = data.length := by
  have area := ended.area
  have fits : 0 + data.length ≤ bss.str.length := by omega
  obtain ⟨middle, first⟩ := exists_store fits
  have fitsEnding : data.length + [(0 : UInt8)].length ≤ middle.length := by
    rw [store_length first, List.length_singleton]
    omega
  obtain ⟨str, second⟩ := exists_store fitsEnding
  refine ⟨{ bss with len := data.length, free := bss.size - data.length, str }, ?_, rfl, rfl⟩
  rw [bssSet, if_neg (Nat.not_lt.mpr short)]
  simp only [first, Except.bind, second]

/-- Storing a printed number in a proper string needs no allocation. -/
theorem bssSet_in_place (env : Env) (id : Nat) {bss : Bss} (proper : bss.Proper) {data : Bytes}
    (short : data.length ≤ bssMinLen) :
    ∃ result, bssSet env id bss data = .ok (some result) ∧ result.id = bss.id := by
  obtain ⟨result, assigned, same, -⟩ :=
    bssSet_room env id proper.toEnded (Nat.le_trans short proper.capacity)
  exact ⟨result, assigned, same⟩

theorem bssAddSub_accepted {env : Env} {id : Nat} {bss result : Bss} {num factor origin : Int}
    (number : bss2int bss = (origin, 0)) (fits : ¬ overflows origin (addend num factor))
    (assigned : bssSet env id bss (sprintfLld (toInt64 (addend num factor + origin))) =
      .ok (some result)) (same : result.id = bss.id) :
    bssAddSub env id bss num factor = .ok (result, 0) := by
  have accepted : ¬ ((0 : Int) ≠ 0 ∨ overflows origin (addend num factor)) := fun other =>
    other.elim (fun differs => differs rfl) fits
  simp only [bssAddSub, number, if_neg accepted, assigned, if_pos same]

/-- The assertion of `bss_add_sub` holds for a proper string. -/
theorem bssAddSub_total (env : Env) (id : Nat) {bss : Bss} (proper : bss.Proper)
    (num factor : Int) :
    ∃ result ret, bssAddSub env id bss num factor = .ok (result, ret) ∧ Grown bss result := by
  have printed : (sprintfLld (toInt64 (addend num factor + (bss2int bss).1))).length ≤ bssMinLen :=
    Nat.le_trans (length_sprintfLld_le (isInt64_toInt64 _)) (by decide)
  obtain ⟨result, assigned, same⟩ := bssSet_in_place env id proper printed
  by_cases refused : (bss2int bss).2 ≠ 0 ∨ overflows (bss2int bss).1 (addend num factor)
  · exact ⟨bss, eInvInt, by simp only [bssAddSub, if_pos refused], proper.toEnded, Nat.le_refl _⟩
  · refine ⟨result, 0, ?_, bssSet_grown proper.toEnded assigned⟩
    simp only [bssAddSub, if_neg refused, assigned, if_pos same]

/-! ### Sequences of operations -/

/-- The operations on a string, each with the surroundings it is called in. -/
inductive BssOp where
  | set (env : Env) (id : Nat) (data : Bytes)
  | append (data : Bytes)
  | setbit (env : Env) (id offset val : Nat)
  | setrange (env : Env) (id offset : Nat) (data : Bytes)
  | addSub (env : Env) (id : Nat) (num factor : Int)
  | cutZero

/-- The string an operation returns, `none` for `NULL`. -/
def BssOp.run (bss : Bss) : BssOp → Except Fault (Option Bss)
  | .set env id data => bssSet env id bss data
  | .append data => bssAppend bss data
  | .setbit env id offset val => bssSetbit env id bss offset val
  | .setrange env id offset data => bssSetrange env id bss offset data
  | .addSub env id num factor =>
      (bssAddSub env id bss num factor).map fun outcome => some outcome.1
  | .cutZero => (bssCutZero bss).map some

/-- Offsets are not negative as a `long long`, lengths do not wrap, and only strings that are not
empty are cut. -/
def BssOp.Fits (bss : Bss) : BssOp → Prop
  | .setbit _ _ offset _ => offset < 2 ^ 63
  | .setrange _ _ offset data => offset < 2 ^ 63 ∧ EmptyFits (data.length + offset)
  | .cutZero => bss.len ≠ 0
  | _ => True

/-- The strings that come out of a creation and any operations after it. -/
inductive Built : Bss → Prop
  | create (env : Env) (id : Nat) (data : Bytes) : Built (bssCreate env id data)
  | createEmpty {bss : Bss} (env : Env) (id len : Nat) (fits : EmptyFits len)
      (created : bssCreateEmpty env id len = some bss) : Built bss
  | step {bss result : Bss} (op : BssOp) (before : Built bss) (fits : op.Fits bss)
      (ran : op.run bss = .ok (some result)) : Built result

/-- One operation keeps the shape. -/
theorem BssOp.grown {bss result : Bss} (proper : bss.Proper) (op : BssOp) (fits : op.Fits bss)
    (ran : op.run bss = .ok (some result)) : Grown bss result := by
  cases op with
  | set env id data => exact bssSet_grown proper.toEnded ran
  | append data => exact bssAppend_grown proper.toEnded ran
  | setbit env id offset val => exact bssSetbit_grown proper fits ran
  | setrange env id offset data => exact bssSetrange_grown proper fits.2 ran
  | addSub env id num factor =>
    obtain ⟨own, ret, added, grown⟩ := bssAddSub_total env id proper num factor
    rw [BssOp.run, added] at ran
    cases ran
    exact grown
  | cutZero =>
    rw [BssOp.run] at ran
    cases cut : bssCutZero bss with
    | error stop =>
      rw [cut] at ran
      cases ran
    | ok own =>
      rw [cut] at ran
      cases ran
      exact bssCutZero_grown proper.toEnded fits cut

theorem Built.proper {bss : Bss} (built : Built bss) : bss.Proper := by
  induction built with
  | create env id data => exact bssCreate_proper env id data
  | createEmpty env id len fits created => exact bssCreateEmpty_proper fits created
  | step op before fits ran inductionHypothesis =>
    exact (op.grown inductionHypothesis fits ran).proper inductionHypothesis

/-- A string built by any operations has an area for its two counters and a terminating zero, is
ended by that zero, and has room for a printed number; adding a number to it never fails the
assertion. -/
theorem built_invariant {bss : Bss} (built : Built bss) :
    (bss.len + bss.free + 1 ≤ bss.str.length ∧ bss.str[bss.len]? = some 0 ∧
      bssMinLen ≤ bss.len + bss.free) ∧
    ∀ (env : Env) (id : Nat) (num factor : Int),
      ∃ result ret, bssAddSub env id bss num factor = .ok (result, ret) := by
  have proper := built.proper
  refine ⟨⟨proper.area, proper.ended, proper.capacity⟩, fun env id num factor => ?_⟩
  obtain ⟨result, ret, added, -⟩ := bssAddSub_total env id proper num factor
  exact ⟨result, ret, added⟩

/-- `"7"` with a bit set in its spare capacity. -/
theorem built_invariant_setbit :
    ∃ bss : Bss, bssSetbit Env.plain 1 (bssCreate Env.plain 0 (bytes "7")) 100 1 = .ok (some bss) ∧
      bss.len + bss.free + 1 ≤ bss.str.length := by
  have built : ∀ bss, bssSetbit Env.plain 1 (bssCreate Env.plain 0 (bytes "7")) 100 1 =
      .ok (some bss) → Built bss := fun bss ran =>
    .step (.setbit Env.plain 1 100 1) (.create Env.plain 0 (bytes "7"))
      (show 100 < 2 ^ 63 by decide) ran
  exact ⟨_, rfl, (built_invariant (built _ rfl)).1.1⟩

end PseudoRedis

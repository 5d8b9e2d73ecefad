/-
This file is about `GETBIT` and `SETBIT` on one string. The string stands for the bits of
its content, followed by zeros without end. `GETBIT` reads that sequence. `SETBIT` updates
it at one offset and makes the string long enough, as long as the byte lies within the
capacity; beyond it the string is replaced by an empty one, and the bits it had are lost.
-/

import PseudoRedis.Capacity
import PseudoRedis.NonEmpty
import PseudoRedis.Lib.BitString
import Mathlib.Data.Nat.Bitwise

namespace PseudoRedis

open BitString

/-! ### One byte -/

/-- The mask of a bit, by its weight. -/
theorem mask_toNat {weight : Nat} (small : weight < 8) :
    ((1 : UInt8) <<< UInt8.ofNat weight).toNat = 2 ^ weight := by
  interval_cases weight <;> rfl

theorem and_mask {char : UInt8} {weight : Nat} (small : weight < 8) :
    char &&& (1 <<< UInt8.ofNat weight) ≠ 0 ↔ char.toNat.testBit weight = true := by
  rw [ne_eq, ← UInt8.toNat_inj, UInt8.toNat_and, mask_toNat small, Nat.and_two_pow]
  have positive := Nat.two_pow_pos weight
  cases char.toNat.testBit weight with
  | false => simp
  | true =>
    simp only [Bool.toNat_true, Nat.one_mul, UInt8.toNat_zero, iff_true]
    omega

/-- Putting a bit changes that bit of the byte. -/
theorem bitOf_putBit {char : UInt8} {val place other : Nat} (isBit : val = 0 ∨ val = 1)
    (inside : place < 8) (small : other < 8) :
    bitOf (putBit char (8 - place) val) other =
      if other = place then decide (val = 1) else bitOf char other := by
  have weight : 8 - place - 1 = 7 - place := by omega
  have below : 7 - place < 8 := by omega
  have same : (7 - place = 7 - other) ↔ other = place := by omega
  rw [putBit, weight, bitOf, bitOf]
  rcases isBit with rfl | rfl
  · have room : 2 ^ (7 - place) < 2 ^ 8 := Nat.pow_lt_pow_right (by decide) below
    have size : UInt8.size = 2 ^ 8 := rfl
    rw [if_neg (by decide), UInt8.toNat_and, UInt8.toNat_not, mask_toNat below, size,
      Nat.sub_sub, Nat.add_comm 1, Nat.testBit_and, Nat.testBit_two_pow_sub_succ room,
      Nat.testBit_two_pow]
    simp only [same, show 7 - other < 8 by omega, decide_true, Bool.true_and]
    by_cases here : other = place
    · simp [here]
    · simp [here]
  · rw [if_pos (by decide), UInt8.toNat_or, show UInt8.ofNat 1 = 1 from rfl, mask_toNat below,
      Nat.testBit_or, Nat.testBit_two_pow]
    simp only [same]
    by_cases here : other = place
    · simp [here]
    · simp [here]

/-! ### One string -/

/-- The number `bss_getbit` returns for a bit. -/
theorem bssGetbit_eq {bss : Bss} (inside : bss.len ≤ bss.str.length) {offset : Nat}
    (small : offset + 1 < 2 ^ 64) :
    bssGetbit bss offset = .ok (bits bss.content offset).toNat := by
  have index : toSize (((offset / 8 : Nat) : Int) + 1) = offset / 8 + 1 :=
    toSize_natCast (n := offset / 8 + 1) (by omega)
  have length : bss.content.length = bss.len := by
    rw [Bss.content, List.length_take, Nat.min_eq_left inside]
  rw [bssGetbit, bitPosition_eq small]
  simp only [index]
  split
  · rename_i past
    rw [bits_past_end (by omega), Bool.toNat_false]
  · rename_i within
    obtain ⟨char, found⟩ : ∃ char, bss.str[offset / 8]? = some char :=
      ⟨_, List.getElem?_eq_getElem (by omega)⟩
    have held : bss.content[offset / 8]? = some char := by
      rw [Bss.content, List.getElem?_take_of_lt (by omega), found]
    have weight : 8 - offset % 8 - 1 = 7 - offset % 8 := by omega
    have test := @and_mask char (7 - offset % 8) (by omega)
    rw [found, bits_of_getElem? held, bitOf, weight]
    simp only [test]
    cases char.toNat.testBit (7 - offset % 8) with
    | false => rfl
    | true => rfl

/-- The string `bss_setbit` works on: long enough, with the bits of the old one if the byte lies
within the capacity, and with none otherwise. -/
structure Widened (bss : Bss) (byte : Nat) (area : Bss) : Prop where
  len : area.len = max bss.len (byte + 1)
  inside : area.len ≤ area.str.length
  bits : bits area.content = if byte + 1 ≤ bss.size then bits bss.content else fun _ => false

theorem content_getD {bss : Bss} (index : Nat) :
    bss.content[index]?.getD 0 = if index < bss.len then bss.str[index]?.getD 0 else 0 := by
  rw [Bss.content, List.getElem?_take]
  split <;> rfl

/-- A string that grows into its spare capacity is filled up with zeros. -/
theorem widened_in_place {bss : Bss} {byte : Nat} (area : bss.size + 1 ≤ bss.str.length)
    (more : bss.len < byte + 1) (room : byte + 1 ≤ bss.size) :
    ∃ str, ((store bss.str bss.len (List.replicate bss.free 0)).bind fun str =>
        store str (byte + 1) [0]) = .ok str ∧
      Widened bss byte
        { bss with free := bss.size - (byte + 1), len := byte + 1, str } := by
  have size : bss.size = bss.len + bss.free := rfl
  have fits : bss.len + (List.replicate bss.free (0 : UInt8)).length ≤ bss.str.length := by
    rw [List.length_replicate]
    omega
  obtain ⟨middle, first⟩ := exists_store fits
  have length := store_length first
  have fitsEnding : byte + 1 + [(0 : UInt8)].length ≤ middle.length := by
    rw [length, List.length_singleton]
    omega
  obtain ⟨str, second⟩ := exists_store fitsEnding
  refine ⟨str, ?_, (Nat.max_eq_right (Nat.le_of_lt more)).symm, ?_, ?_⟩
  · rw [first]
    exact second
  · show byte + 1 ≤ str.length
    rw [store_length second]
    omega
  · rw [if_pos room]
    refine bits_congr fun index => ?_
    rw [content_getD, content_getD]
    show (if index < byte + 1 then str[index]?.getD 0 else 0) = _
    rw [getElem?_store second, getElem?_store first, List.length_replicate]
    rcases Nat.lt_or_ge index bss.len with old | new
    · rw [if_pos (by omega), if_neg (by omega), if_neg (by omega), if_pos old]
    · rw [if_neg (Nat.not_lt.mpr new)]
      rcases Nat.lt_or_ge index (byte + 1) with below | past
      · rw [if_pos below, if_neg (by omega), if_pos (by omega),
          List.getElem?_replicate_of_lt (by omega)]
        rfl
      · rw [if_neg (Nat.not_lt.mpr past)]

/-- A new string of the length asked for holds no bit. -/
theorem widened_anew {env : Env} {id byte : Nat} {bss newBss : Bss} (fits : EmptyFits (byte + 1))
    (more : bss.size < byte + 1) (created : bssCreateEmpty env id (byte + 1) = some newBss) :
    Widened bss byte { newBss with free := 0, len := byte + 1 } := by
  have size : bss.size = bss.len + bss.free := rfl
  have most : byte + 1 ≤ max (byte + 1) bssMinLen := Nat.le_max_left _ _
  have shorter : bss.len ≤ byte + 1 := by omega
  rw [bssCreateEmpty_eq fits created]
  refine ⟨(Nat.max_eq_right shorter).symm, ?_, ?_⟩
  · rw [List.length_replicate]
    exact Nat.le_succ_of_le most
  · rw [if_neg (Nat.not_le.mpr more)]
    funext offset
    refine (bits_eq_false_iff _).mpr (fun char member => ?_) offset
    exact List.eq_of_mem_replicate (List.mem_of_mem_take member)

/-- What `bss_setbit` works on is refused memory or widened. -/
theorem bssSetbitArea_widened (env : Env) (id : Nat) {bss : Bss} {byte : Nat}
    (area : bss.size + 1 ≤ bss.str.length) (fits : EmptyFits (byte + 1)) :
    bssSetbitArea env id bss byte = .ok none ∨
      ∃ result, bssSetbitArea env id bss byte = .ok (some result) ∧ Widened bss byte result := by
  have size : bss.size = bss.len + bss.free := rfl
  have index : toSize ((byte : Int) + 1) = byte + 1 := by
    refine toSize_natCast (n := byte + 1) ?_
    have bound := fits
    rw [EmptyFits] at bound
    omega
  rw [bssSetbitArea, index]
  rcases Nat.lt_or_ge bss.size (byte + 1) with more | room
  · rw [if_pos more]
    cases created : bssCreateEmpty env id (byte + 1) with
    | none => exact Or.inl rfl
    | some newBss => exact Or.inr ⟨_, rfl, widened_anew fits more created⟩
  · rw [if_neg (Nat.not_lt.mpr room)]
    refine Or.inr ?_
    rcases Nat.lt_or_ge bss.len (byte + 1) with longer | within
    · obtain ⟨str, stored, widened⟩ := widened_in_place area longer room
      rw [if_pos longer, stored]
      exact ⟨_, rfl, widened⟩
    · rw [if_neg (Nat.not_lt.mpr within)]
      exact ⟨bss, rfl, (Nat.max_eq_left within).symm, by omega, (if_pos room).symm⟩

/-- `bss_setbit` is refused memory or updates the bits of the widened string at the offset. -/
theorem bssSetbit_eq (env : Env) (id : Nat) {bss : Bss} (area : bss.size + 1 ≤ bss.str.length)
    {offset val : Nat} (small : offset < 2 ^ 63) (isBit : val = 0 ∨ val = 1) :
    bssSetbit env id bss offset val = .ok none ∨
      ∃ result, bssSetbit env id bss offset val = .ok (some result) ∧
        result.len = max bss.len (offset / 8 + 1) ∧ result.len ≤ result.str.length ∧
        bits result.content = Function.update
          (if offset / 8 + 1 ≤ bss.size then bits bss.content else fun _ => false) offset
          (decide (val = 1)) := by
  have fits : EmptyFits (offset / 8 + 1) := by
    rw [EmptyFits, bssMinLen, sizeofBss]
    omega
  unfold bssSetbit
  rw [bitPosition_eq (by omega)]
  rcases bssSetbitArea_widened env id area fits with refused | ⟨grown, made, widened⟩
  · refine Or.inl ?_
    simp only [refused]
  · refine Or.inr ?_
    have inside := widened.inside
    have long : offset / 8 < grown.len := by
      rw [widened.len]
      exact Nat.lt_of_lt_of_le (Nat.lt_succ_self _) (Nat.le_max_right _ _)
    obtain ⟨char, found⟩ : ∃ char, grown.str[offset / 8]? = some char :=
      ⟨_, List.getElem?_eq_getElem (by omega)⟩
    have held : grown.content[offset / 8]? = some char := by
      rw [Bss.content, List.getElem?_take_of_lt long, found]
    simp only [made, found]
    refine ⟨_, rfl, widened.len, ?_, ?_⟩
    · rw [List.length_set]
      exact inside
    · rw [← widened.bits, Bss.content, List.take_set]
      exact bits_set held fun place below => bitOf_putBit isBit (Nat.mod_lt _ (by decide)) below

/-! ### The two commands -/

/-- `GETBIT` replies with this bit at this offset. -/
def GetbitReplies (dict : Dict Obj) (key : Bss) (place : Int) (bit : Bool) : Prop :=
  ∀ offset : Bss, bss2int offset = (place, 0) →
    getbitCommand dict [key, offset] = intReply dict bit.toNat

variable {env : Env} {dict : Dict Obj} {key offset bit : Bss} {bss : Bss} {place val : Int}

theorem toSize_offset (number : bss2int offset = (place, 0)) (nonnegative : 0 ≤ place) :
    toSize place = place.toNat ∧ place.toNat < 2 ^ 63 := by
  have most := bss2int_le offset
  rw [number, llongMax] at most
  exact ⟨toSize_of_nonneg nonnegative (by omega), by omega⟩

theorem getbitReplies_bits (answer : dictLookUp dict key = some (.string bss))
    (inside : bss.len ≤ bss.str.length) (nonnegative : 0 ≤ place) :
    GetbitReplies dict key place (bits bss.content place.toNat) := by
  intro offset number
  obtain ⟨size, small⟩ := toSize_offset number nonnegative
  have read := @bssGetbit_eq _ inside place.toNat (by omega)
  simp only [getbitCommand, number, answer, size, read, ne_eq, not_true_eq_false, if_false]

/-- `GETBIT` replies with one bit. -/
theorem getbitReplies_unique {first second : Bool} (inRange : IsInt64 place)
    (one : GetbitReplies dict key place first) (other : GetbitReplies dict key place second) :
    first = second := by
  have number := bss2int_bssCreate inRange Env.plain 0
  have same := congrFun ((one _ number).symm.trans (other _ number)) (Shared.holding [])
  have data : bigEndian64 first.toNat ++ [] = bigEndian64 second.toNat ++ [] :=
    congrArg (fun result => result.sh.curr.data) (Except.ok.inj same)
  revert data
  cases first <;> cases second <;> decide

/-- `SETBIT` replies with the old bit, stores the new one, keeps all others, and the string is as
long as it has to be. -/
def SetsBit (env : Env) (dict : Dict Obj) (key offset bit : Bss) (len : Nat) (place val : Int) :
    Prop :=
  ∃ (result : Bss) (old : Bool),
    setbitCommand env dict [key, offset, bit] =
      intReply (dictSetVal dict key (.string result)) old.toNat ∧
    GetbitReplies dict key place old ∧
    GetbitReplies (dictSetVal dict key (.string result)) key place (decide (val = 1)) ∧
    (∀ other was, 0 ≤ other → other ≠ place → GetbitReplies dict key other was →
      GetbitReplies (dictSetVal dict key (.string result)) key other was) ∧
    result.len = max len (place.toNat / 8 + 1)

/-- The byte lies within the capacity of the string, or the string holds no bit. -/
def KeepsBits (bss : Bss) (place : Nat) : Prop :=
  place / 8 + 1 ≤ bss.size ∨ ∀ byte ∈ bss.content, byte = 0

theorem keepsBits_iff (bss : Bss) (place : Nat) :
    KeepsBits bss place ↔
      (if place / 8 + 1 ≤ bss.size then bits bss.content else fun _ => false) =
        bits bss.content := by
  rw [KeepsBits, ← bits_eq_false_iff]
  split
  · rename_i room
    exact iff_of_true (Or.inl room) rfl
  · rename_i beyond
    rw [or_iff_right beyond]
    exact ⟨fun clear => funext fun offset => (clear offset).symm,
      fun same offset => (congrFun same offset).symm⟩

/-- What `SETBIT` does to a string when there is memory for it. -/
theorem setbitCommand_eq (answer : dictLookUp dict key = some (.string bss))
    (area : bss.size + 1 ≤ bss.str.length) (number : bss2int offset = (place, 0))
    (nonnegative : 0 ≤ place) (value : bss2int bit = (val, 0)) (isBit : val = 0 ∨ val = 1)
    (memory : bssSetbit env env.fresh bss (toSize place) val.toNat ≠ .ok none) :
    ∃ result : Bss, setbitCommand env dict [key, offset, bit] =
        intReply (dictSetVal dict key (.string result)) (bits bss.content place.toNat).toNat ∧
      result.len = max bss.len (place.toNat / 8 + 1) ∧ result.len ≤ result.str.length ∧
      bits result.content = Function.update
        (if place.toNat / 8 + 1 ≤ bss.size then bits bss.content else fun _ => false) place.toNat
        (decide (val = 1)) := by
  obtain ⟨size, small⟩ := toSize_offset number nonnegative
  have inside : bss.len ≤ bss.str.length := by
    have whole : bss.size = bss.len + bss.free := rfl
    omega
  have read := @bssGetbit_eq _ inside place.toNat (by omega)
  have natBit : val.toNat = 0 ∨ val.toNat = 1 := by omega
  have accepted : ¬ (val ≠ 0 ∧ val ≠ 1) := by omega
  rw [size] at memory
  rcases bssSetbit_eq env env.fresh area small natBit with
    refused | ⟨result, edited, len, fits, new⟩
  · exact absurd refused memory
  · refine ⟨result, ?_, len, fits, ?_⟩
    · simp only [setbitCommand, number, value, answer, size, read, edited, ne_eq, not_true_eq_false,
        if_false, false_or, accepted]
    · rw [new]
      congr 1
      rcases isBit with rfl | rfl <;> rfl

/-- A string whose other bits `GETBIT` still shows has lost none. -/
theorem bits_of_shown {result : Bss} (inside : bss.len ≤ bss.str.length)
    (answer : dictLookUp dict key = some (.string bss)) {dict' : Dict Obj}
    (after : dictLookUp dict' key = some (.string result))
    (fits : result.len ≤ result.str.length) (small : place.toNat < 2 ^ 63) {new : Bool}
    (set : bits result.content = Function.update
      (if place.toNat / 8 + 1 ≤ bss.size then bits bss.content else fun _ => false) place.toNat new)
    (kept : ∀ other was, 0 ≤ other → other ≠ place → GetbitReplies dict key other was →
      GetbitReplies dict' key other was) :
    (if place.toNat / 8 + 1 ≤ bss.size then bits bss.content else fun _ => false) =
      bits bss.content := by
  by_contra lost
  obtain ⟨other, different⟩ := Function.ne_iff.mp lost
  have beyond : ¬ place.toNat / 8 + 1 ≤ bss.size := fun room => different (by rw [if_pos room])
  rw [if_neg beyond] at different set
  -- the lost bit lies in the old content, which ends before the offset
  have before : other < place.toNat := by
    have held : ¬ bss.content.length ≤ other / 8 := fun past =>
      different (bits_past_end past).symm
    have length : bss.content.length ≤ bss.len := List.length_take_le _ _
    have whole : bss.size = bss.len + bss.free := rfl
    omega
  have inRange : IsInt64 (other : Int) := by
    rw [IsInt64, llongMin, llongMax]
    omega
  have was := @getbitReplies_bits _ _ _ (other : Int) answer inside (by omega)
  have now := kept other _ (by omega) (by omega) was
  have now' := @getbitReplies_bits _ _ _ (other : Int) after fits (by omega)
  rw [set, Function.update_of_ne (by omega)] at now'
  exact different (getbitReplies_unique inRange now' now)

/-- `GETBIT` shows the bits of a string of which one was set. -/
theorem shown_of_bits {result : Bss} (inside : bss.len ≤ bss.str.length)
    (answer : dictLookUp dict key = some (.string bss)) {dict' : Dict Obj}
    (after : dictLookUp dict' key = some (.string result))
    (fits : result.len ≤ result.str.length) (nonnegative : 0 ≤ place) {new : Bool}
    (set : bits result.content = Function.update (bits bss.content) place.toNat new) :
    GetbitReplies dict' key place new ∧
      ∀ other was, 0 ≤ other → other ≠ place → GetbitReplies dict key other was →
        GetbitReplies dict' key other was := by
  constructor
  · have stored := getbitReplies_bits after fits nonnegative
    rwa [set, Function.update_self] at stored
  · intro other was otherNonnegative different before argument otherNumber
    have inRange : IsInt64 other := by
      have most := bss2int_le argument
      rw [otherNumber] at most
      exact ⟨Int.le_trans (by decide) otherNonnegative, most⟩
    have stored := getbitReplies_bits after fits otherNonnegative argument otherNumber
    rw [set, Function.update_of_ne (by omega)] at stored
    rwa [getbitReplies_unique inRange before (getbitReplies_bits answer inside otherNonnegative)]

theorem keepsBits_of_setsBit (sized : dict.Sized)
    (answer : dictLookUp dict key = some (.string bss))
    (area : bss.size + 1 ≤ bss.str.length) (number : bss2int offset = (place, 0))
    (nonnegative : 0 ≤ place) (value : bss2int bit = (val, 0)) (isBit : val = 0 ∨ val = 1)
    (memory : bssSetbit env env.fresh bss (toSize place) val.toNat ≠ .ok none)
    (sets : SetsBit env dict key offset bit bss.len place val) : KeepsBits bss place.toNat := by
  obtain ⟨result, ran, len, fits, new⟩ :=
    setbitCommand_eq answer area number nonnegative value isBit memory
  obtain ⟨own, old, same, -, -, kept, -⟩ := sets
  have inside : bss.len ≤ bss.str.length := by
    have whole : bss.size = bss.len + bss.free := rfl
    omega
  have dicts : dictSetVal dict key (.string result) = dictSetVal dict key (.string own) :=
    dict_of_intReply (Shared.holding []) (ran.symm.trans same)
  rw [← dicts] at kept
  rw [keepsBits_iff]
  exact bits_of_shown inside answer (lookUp_dictSetVal_self sized answer (.string result)) fits
    (toSize_offset number nonnegative).2 new kept

/-- `SETBIT` with a byte within the capacity of the string, or on a string without bits, replies
with the old bit, stores the new one and keeps all others; elsewhere it loses bits. -/
theorem setbit_keeps_bits_iff (env : Env) (dict : Dict Obj) (key offset bit bss : Bss)
    (place val : Int) (sized : dict.Sized) (answer : dictLookUp dict key = some (.string bss))
    (area : bss.size + 1 ≤ bss.str.length) (number : bss2int offset = (place, 0))
    (nonnegative : 0 ≤ place) (value : bss2int bit = (val, 0)) (isBit : val = 0 ∨ val = 1)
    (memory : bssSetbit env env.fresh bss (toSize place) val.toNat ≠ .ok none) :
    SetsBit env dict key offset bit bss.len place val ↔ KeepsBits bss place.toNat := by
  refine ⟨keepsBits_of_setsBit sized answer area number nonnegative value isBit memory,
    fun keeps => ?_⟩
  obtain ⟨result, ran, len, fits, new⟩ :=
    setbitCommand_eq answer area number nonnegative value isBit memory
  have inside : bss.len ≤ bss.str.length := by
    have whole : bss.size = bss.len + bss.free := rfl
    omega
  have after := lookUp_dictSetVal_self sized answer (.string result)
  rw [(keepsBits_iff bss place.toNat).mp keeps] at new
  obtain ⟨stored, others⟩ := shown_of_bits inside answer after fits nonnegative new
  exact ⟨result, _, ran, getbitReplies_bits answer inside nonnegative, stored, others, len⟩

/-- The key space after `SET k A`. -/
def letterKey : Dict Obj :=
  dictAdd (dictCreate initDictSize) (textArg 1 "k") (.string (textArg 2 "A"))

theorem letterKey_wellFormed : letterKey.WellFormed :=
  dictAdd_wellFormed (dictCreate_wellFormed (by decide)) (textArg_arg 1 (by decide)).short _

theorem letterKey_reachable : Reachable (fun _ _ => True) letterKey := by
  have set : (textCall .set [(1, "k"), (2, "A")] (by decide)).run (dictCreate initDictSize)
      (Shared.holding []) =
      .ok ⟨letterKey, (createEmptyReply (Shared.holding []) rplyOk).1, 0⟩ := rfl
  exact .step _ .start trivial set

/-- `SETBIT k 3 1` keeps the bits of `A`. -/
theorem setbit_keeps_bits_iff_letter :
    SetsBit Env.plain letterKey (textArg 3 "k") (textArg 4 "3") (textArg 5 "1") 1 3 1 :=
  (setbit_keeps_bits_iff Env.plain letterKey (textArg 3 "k") (textArg 4 "3") (textArg 5 "1")
    (textArg 2 "A") 3 1 letterKey_wellFormed.sized rfl (by decide) rfl (by decide) rfl (Or.inr rfl)
    (by decide)).mpr (Or.inl (by decide))

/-- `SETBIT k 1000 1` loses them. -/
theorem setbit_loses_bits :
    ∃ (env : Env) (dict : Dict Obj) (key offset bit bss : Bss) (place val : Int),
      Reachable (fun _ _ => True) dict ∧ dictLookUp dict key = some (.string bss) ∧
      bss.size + 1 ≤ bss.str.length ∧ bss2int offset = (place, 0) ∧ 0 ≤ place ∧
      bss2int bit = (val, 0) ∧ (val = 0 ∨ val = 1) ∧
      bssSetbit env env.fresh bss (toSize place) val.toNat ≠ .ok none ∧
      ¬ SetsBit env dict key offset bit bss.len place val := by
  have memory : bssSetbit Env.plain 0 (textArg 2 "A") (toSize 1000) 1 ≠ .ok none := by decide
  refine ⟨Env.plain, letterKey, textArg 3 "k", textArg 4 "1000", textArg 5 "1", textArg 2 "A",
    1000, 1, letterKey_reachable, rfl, by decide, rfl, by decide, rfl, Or.inr rfl, memory,
    fun sets => ?_⟩
  have kept := keepsBits_of_setsBit letterKey_wellFormed.sized (by rfl) (by decide) (by rfl)
    (by decide) (by rfl) (Or.inr rfl) memory sets
  rcases kept with room | zeros
  · exact absurd room (by decide)
  · exact absurd (zeros 65 (by decide)) (by decide)

end PseudoRedis

/-
This file embeds `bss.c`, the resizable string. A `Bss` keeps the two counters of the
C structure and its whole data area, so the spare capacity and what is left in it are
part of the value; `id` tells which allocation it is. Functions that may release a
string and allocate another take the identity of the new allocation.

A copy that leaves its area stops the run with `Fault.outOfBounds`. Allocations of
the fixed-size structures are taken to succeed; the allocations of strings, whose size
an argument decides, succeed when `Env.malloc` says so.
-/

import PseudoRedis.Libc

namespace PseudoRedis

/-! ### The structure -/

def bssMinLen : Nat := 22

/-- `sizeof(bss_t)`. -/
def sizeofBss : Nat := 16

def bssLdbLen : Nat := bssMinLen + 17

/-- A string: its allocation, its two counters, and its data area. -/
structure Bss where
  id : Nat
  len : Nat
  free : Nat
  str : Bytes
  deriving DecidableEq

/-- `bsssize`: the bytes in use and the spare ones. -/
def Bss.size (bss : Bss) : Nat := bss.len + bss.free

/-- The bytes in use. -/
def Bss.content (bss : Bss) : Bytes := bss.str.take bss.len

/-! ### Error codes -/

def eNotFound : Int := -1
def eInvInt : Int := -5
def eInvArgs : Int := -7
def eTooLong : Int := -8
def eBlocked : Int := -10

/-! ### Creating and assigning -/

def bssCreate (env : Env) (id : Nat) (data : Bytes) : Bss :=
  let realLen := if bssMinLen < data.length then data.length else bssMinLen
  { id, len := data.length, free := realLen - data.length,
    str := data ++ 0 :: env.leftover id (data.length + 1) (realLen + 1) }

/-- The size the allocator is asked for wraps, as the C expression does. -/
def bssCreateEmpty (env : Env) (id : Nat) (len : Nat) : Option Bss :=
  if env.malloc (toSize (sizeofBss + (max len bssMinLen : Nat) + 1)) then
    some
      { id
        len := 0
        free := max len bssMinLen
        str := List.replicate (toSize (sizeofBss + (max len bssMinLen : Nat) + 1) - sizeofBss) 0 }
  else
    none

/-- The size of the allocation that replaces one that is too small. -/
def doubled (size len : Nat) : Nat := if len < size * 2 then size * 2 else len

/-- `none` is the `NULL` of an allocation that failed. -/
def bssSet (env : Env) (id : Nat) (dst : Bss) (data : Bytes) : Except Fault (Option Bss) :=
  if dst.size < data.length then
    if env.malloc (sizeofBss + doubled dst.size data.length + 2) then
      .ok (some
        { id
          len := data.length
          free := doubled dst.size data.length - data.length
          str := data ++
            0 :: env.leftover id (data.length + 1) (doubled dst.size data.length + 2) })
    else if env.malloc (sizeofBss + data.length) then
      -- the terminating zero is written one byte past this smaller area
      .error .outOfBounds
    else
      .ok none
  else
    match (store dst.str 0 data).bind fun str => store str data.length [0] with
    | .error fault => .error fault
    | .ok str => .ok (some { dst with len := data.length, free := dst.size - data.length, str })

/-! ### Comparison -/

/-- The difference of two lengths is returned as an `int`. -/
def bssCmp (first second : Bss) : Int :=
  if first.len = second.len then
    memcmp (first.str.take first.len) (second.str.take first.len)
  else
    toInt32 (first.len - second.len)

/-- A string whose length fits an `int` and whose area holds its bytes. -/
structure Bss.Short (bss : Bss) : Prop where
  len_lt : bss.len < 2 ^ 31
  len_le : bss.len ≤ bss.str.length

theorem Bss.Short.content_length {bss : Bss} (short : bss.Short) :
    bss.content.length = bss.len := by
  rw [Bss.content, List.length_take, Nat.min_eq_left short.len_le]

/-- Such a length is what a `uint32_t` holds of it. -/
theorem Bss.Short.len_mod {bss : Bss} (short : bss.Short) : bss.len % 2 ^ 32 = bss.len :=
  Nat.mod_eq_of_lt (Nat.lt_trans short.len_lt (by decide))

theorem bssCmp_self (bss : Bss) : bssCmp bss bss = 0 := by
  rw [bssCmp, if_pos rfl, memcmp_self]

/-- Short strings compare equal exactly when they hold the same bytes. -/
theorem bssCmp_eq_zero_iff {first second : Bss} (firstShort : first.Short)
    (secondShort : second.Short) :
    bssCmp first second = 0 ↔ first.content = second.content := by
  have firstLength := firstShort.content_length
  have secondLength := secondShort.content_length
  unfold bssCmp
  split
  · rename_i sameLen
    rw [sameLen] at firstLength
    constructor
    · intro equal
      rw [Bss.content, Bss.content]
      refine eq_of_memcmp (firstLength.trans secondLength.symm) ?_
      rwa [sameLen] at equal ⊢
    · intro same
      rw [Bss.content, Bss.content] at same
      rw [same, sameLen]
      exact memcmp_self _
  · rename_i differentLen
    constructor
    · intro equal
      have first_lt := firstShort.len_lt
      have second_lt := secondShort.len_lt
      have divides := Int.dvd_of_bmod_eq_zero equal
      omega
    · intro same
      rw [same, secondLength] at firstLength
      exact absurd firstLength.symm differentLen

theorem bssCreate_content (env : Env) (id : Nat) (data : Bytes) :
    (bssCreate env id data).content = data := by
  simp only [bssCreate, Bss.content, List.take_left]

theorem bssCreate_len (env : Env) (id : Nat) (data : Bytes) :
    (bssCreate env id data).len = data.length := rfl

/-! ### Numbers -/

/-- The number `strtoll` leaves in the result, and the return value. -/
def bss2int (bss : Bss) : Int × Int :=
  if bss.len = 0 then
    (0, 0)
  else
    let (value, consumed, erange) := strtoll bss.str
    if erange || consumed ≠ bss.len then (value, eInvInt) else (value, 0)

theorem bss2int_le (bss : Bss) : (bss2int bss).1 ≤ llongMax := by
  have bounded := strtoll_le bss.str
  rw [bss2int]
  split
  · decide
  · split
    rename_i value consumed erange number
    rw [number] at bounded
    split
    · exact bounded
    · exact bounded

def bss2ld (env : Env) (bss : Bss) : LongDouble × Int :=
  if bss.len = 0 then
    (0, 0)
  else
    let (value, consumed, erange) := env.strtold bss.str
    if erange || consumed ≠ bss.len then (value, eInvInt) else (value, 0)

/-- `(factor == -1) ? -num : num`. -/
def addend (num factor : Int) : Int := if factor = -1 then toInt64 (-num) else num

/-- The overflow tests, made before the addition. -/
def overflows (origin num : Int) : Prop :=
  if num ≤ 0 then toInt64 (llongMin - num) > origin else toInt64 (llongMax - num) < origin

instance (origin num : Int) : Decidable (overflows origin num) :=
  if nonpositive : num ≤ 0 then
    decidable_of_iff (toInt64 (llongMin - num) > origin) (by rw [overflows, if_pos nonpositive])
  else
    decidable_of_iff (toInt64 (llongMax - num) < origin) (by rw [overflows, if_neg nonpositive])

/-- The assertion of the C code compares pointers: it fails when `bss_set` has to allocate. -/
def bssAddSub (env : Env) (id : Nat) (bss : Bss) (num : Int) (factor : Int) :
    Except Fault (Bss × Int) :=
  match bss2int bss with
  | (origin, ret) =>
      if ret ≠ 0 ∨ overflows origin (addend num factor) then
        .ok (bss, eInvInt)
      else
        match bssSet env id bss (sprintfLld (toInt64 (addend num factor + origin))) with
        | .error fault => .error fault
        | .ok none => .error .assertFailed
        | .ok (some result) =>
            if result.id = bss.id then .ok (result, 0) else .error .assertFailed

/-- The position of the last byte that is not a `'0'`, or zero. -/
def cutZeros (str : Bytes) : Nat → Nat
  | 0 => 0
  | index + 1 => if str[index + 1]? = some 48 then cutZeros str index else index + 1

/-- The length without the zeros at the end and without a point before them. -/
def cutLen (bss : Bss) : Nat :=
  if bss.str[cutZeros bss.str (bss.len - 1)]? = some 46 then cutZeros bss.str (bss.len - 1)
  else cutZeros bss.str (bss.len - 1) + 1

def bssCutZero (bss : Bss) : Except Fault Bss :=
  if bss.len = 0 then
    -- the index is the wrapped value of -1
    .error .outOfBounds
  else
    match store bss.str (cutLen bss) [0] with
    | .error fault => .error fault
    | .ok str => .ok { bss with len := cutLen bss, free := bss.size - cutLen bss, str }

/-! ### The allocation of a result -/

theorem bssSet_id {env : Env} {id : Nat} {dst : Bss} {data : Bytes} {result : Bss}
    (assigned : bssSet env id dst data = .ok (some result)) :
    result.id = dst.id ∨ result.id = id := by
  rw [bssSet] at assigned
  split at assigned
  · split at assigned
    · cases assigned
      exact Or.inr rfl
    · split at assigned <;> cases assigned
  · split at assigned
    · cases assigned
    · cases assigned
      exact Or.inl rfl

theorem bssSet_len {env : Env} {id : Nat} {dst : Bss} {data : Bytes} {result : Bss}
    (assigned : bssSet env id dst data = .ok (some result)) : result.len = data.length := by
  rw [bssSet] at assigned
  split at assigned
  · split at assigned
    · cases assigned
      rfl
    · split at assigned <;> cases assigned
  · split at assigned
    · cases assigned
    · cases assigned
      rfl

theorem bssAddSub_id {env : Env} {id : Nat} {bss result : Bss} {num factor ret : Int}
    (added : bssAddSub env id bss num factor = .ok (result, ret)) : result.id = bss.id := by
  simp only [bssAddSub] at added
  split at added
  · cases added
    rfl
  · split at added
    · cases added
    · cases added
    · split at added
      · rename_i same
        cases added
        exact same
      · cases added

theorem bssCutZero_id {bss result : Bss} (cut : bssCutZero bss = .ok result) :
    result.id = bss.id := by
  simp only [bssCutZero] at cut
  split at cut
  · cases cut
  · split at cut
    · cases cut
    · cases cut
      rfl

theorem cutZeros_le (str : Bytes) (index : Nat) : cutZeros str index ≤ index := by
  induction index with
  | zero => exact Nat.le_refl 0
  | succ index inductionHypothesis =>
    rw [cutZeros]
    split
    · exact Nat.le_succ_of_le inductionHypothesis
    · exact Nat.le_refl _

theorem bssCutZero_len {bss result : Bss} (cut : bssCutZero bss = .ok result) :
    result.len ≤ bss.len := by
  have index_le := cutZeros_le bss.str (bss.len - 1)
  rw [bssCutZero] at cut
  split at cut
  · cases cut
  · split at cut
    · cases cut
    · cases cut
      show cutLen bss ≤ bss.len
      rw [cutLen]
      split <;> omega

/-! ### Growing -/

/-- When the spare capacity is too small the C code returns `NULL` whatever the allocator
answered: a stray semicolon ends the test of its result. -/
def bssAppend (bss : Bss) (data : Bytes) : Except Fault (Option Bss) :=
  if data.length ≤ bss.free then
    match (store bss.str bss.len data).bind fun str => store str (bss.len + data.length) [0] with
    | .error fault => .error fault
    | .ok str =>
        .ok (some
          { bss with
            len := bss.len + data.length
            free := bss.free - data.length
            str })
  else
    .ok none

/-- The byte and the one-based bit of an offset. -/
def bitPosition (offset : Nat) : Nat × Nat :=
  let offset := toSize (offset + 1)
  let bit := offset % 8
  let byte := toSize (offset / 8 + (if bit ≠ 0 then 1 else 0) - 1)
  let bit := if bit = 0 then 8 else bit
  (byte, 9 - bit)

def bssGetbit (bss : Bss) (offset : Nat) : Except Fault Nat :=
  let (byte, bit) := bitPosition offset
  if toSize (byte + 1) > bss.len then
    .ok 0
  else
    match bss.str[byte]? with
    | none => .error .outOfBounds
    | some char => .ok (if char &&& (1 <<< UInt8.ofNat (bit - 1)) ≠ 0 then 1 else 0)

/-- The byte with one bit set to a value. -/
def putBit (char : UInt8) (bit val : Nat) : UInt8 :=
  if val ≠ 0 then
    char ||| (UInt8.ofNat val <<< UInt8.ofNat (bit - 1))
  else
    char &&& ~~~ (1 <<< UInt8.ofNat (bit - 1))

/-- The string `bss_setbit` works on: a new one, whose old content is gone, or the same one
grown into its spare capacity, or the same one. -/
def bssSetbitArea (env : Env) (id : Nat) (bss : Bss) (byte : Nat) :
    Except Fault (Option Bss) :=
  if toSize (byte + 1) > bss.size then
    match bssCreateEmpty env id (toSize (byte + 1)) with
    | none => .ok none
    | some newBss => .ok (some { newBss with free := 0, len := toSize (byte + 1) })
  else if toSize (byte + 1) > bss.len then
    match (store bss.str bss.len (List.replicate bss.free 0)).bind fun str =>
        store str (toSize (byte + 1)) [0] with
    | .error fault => .error fault
    | .ok str =>
        .ok (some
          { bss with
            free := bss.size - toSize (byte + 1)
            len := toSize (byte + 1)
            str })
  else
    .ok (some bss)

def bssSetbit (env : Env) (id : Nat) (bss : Bss) (offset val : Nat) :
    Except Fault (Option Bss) :=
  match bitPosition offset with
  | (byte, bit) =>
      match bssSetbitArea env id bss byte with
      | .error fault => .error fault
      | .ok none => .ok none
      | .ok (some bss) =>
          match bss.str[byte]? with
          | none => .error .outOfBounds
          | some char => .ok (some { bss with str := bss.str.set byte (putBit char bit val) })

def bssSetrange (env : Env) (id : Nat) (bss : Bss) (offset : Nat) (data : Bytes) :
    Except Fault (Option Bss) :=
  if data.length = 0 then
    .ok (some bss)
  else if toSize (data.length + offset) > bss.size then
    match bssCreateEmpty env id (toSize (data.length + offset)) with
    | none => .ok none
    | some newBss =>
        match (store newBss.str 0 (bss.str.take (if bss.len > offset then offset else bss.len))).bind
            fun str => store str offset data with
        | .error fault => .error fault
        | .ok str =>
            .ok (some { newBss with free := 0, len := toSize (data.length + offset), str })
  else if toSize (data.length + offset) > bss.len then
    match (store bss.str offset data).bind fun str =>
        store str (toSize (data.length + offset)) [0] with
    | .error fault => .error fault
    | .ok str =>
        .ok (some
          { bss with
            free := bss.size - toSize (data.length + offset)
            len := toSize (data.length + offset)
            str })
  else
    match store bss.str offset data with
    | .error fault => .error fault
    | .ok str => .ok (some { bss with str })

/-! ### The allocation of a grown string -/

theorem bssAppend_id {bss result : Bss} {data : Bytes}
    (appended : bssAppend bss data = .ok (some result)) : result.id = bss.id := by
  rw [bssAppend] at appended
  split at appended
  · split at appended
    · cases appended
    · cases appended
      rfl
  · cases appended

theorem bssCreateEmpty_id {env : Env} {id len : Nat} {result : Bss}
    (created : bssCreateEmpty env id len = some result) : result.id = id := by
  rw [bssCreateEmpty] at created
  split at created
  · cases created
    rfl
  · cases created

theorem bssSetbitArea_id {env : Env} {id byte : Nat} {bss area : Bss}
    (grown : bssSetbitArea env id bss byte = .ok (some area)) :
    area.id = bss.id ∨ area.id = id := by
  rw [bssSetbitArea] at grown
  split at grown
  · split at grown
    · cases grown
    · rename_i newBss created
      cases grown
      exact Or.inr (show newBss.id = id from bssCreateEmpty_id created)
  · split at grown
    · split at grown
      · cases grown
      · cases grown
        exact Or.inl rfl
    · cases grown
      exact Or.inl rfl

theorem bssSetbit_id {env : Env} {id offset val : Nat} {bss result : Bss}
    (edited : bssSetbit env id bss offset val = .ok (some result)) :
    result.id = bss.id ∨ result.id = id := by
  unfold bssSetbit at edited
  obtain ⟨byte, bit⟩ := bitPosition offset
  dsimp only at edited
  split at edited
  · cases edited
  · cases edited
  · rename_i area grown
    have own := bssSetbitArea_id grown
    split at edited
    · cases edited
    · cases edited
      exact own

theorem bssSetrange_id {env : Env} {id offset : Nat} {bss result : Bss} {data : Bytes}
    (edited : bssSetrange env id bss offset data = .ok (some result)) :
    result.id = bss.id ∨ result.id = id := by
  rw [bssSetrange] at edited
  split at edited
  · cases edited
    exact Or.inl rfl
  · split at edited
    · split at edited
      · cases edited
      · rename_i newBss created
        split at edited
        · cases edited
        · cases edited
          exact Or.inr (show newBss.id = id from bssCreateEmpty_id created)
    · split at edited
      · split at edited
        · cases edited
        · cases edited
          exact Or.inl rfl
      · split at edited
        · cases edited
        · cases edited
          exact Or.inl rfl

/-! ### Counting bits -/

def bitTable : List Nat :=
  [0, 1, 1, 2, 1, 2, 2, 3, 1, 2, 2, 3, 2, 3, 3, 4,
   1, 2, 2, 3, 2, 3, 3, 4, 2, 3, 3, 4, 3, 4, 4, 5,
   1, 2, 2, 3, 2, 3, 3, 4, 2, 3, 3, 4, 3, 4, 4, 5,
   2, 3, 3, 4, 3, 4, 4, 5, 3, 4, 4, 5, 4, 5, 5, 6,
   1, 2, 2, 3, 2, 3, 3, 4, 2, 3, 3, 4, 3, 4, 4, 5,
   2, 3, 3, 4, 3, 4, 4, 5, 3, 4, 4, 5, 4, 5, 5, 6,
   2, 3, 3, 4, 3, 4, 4, 5, 3, 4, 4, 5, 4, 5, 5, 6,
   3, 4, 4, 5, 4, 5, 5, 6, 4, 5, 5, 6, 5, 6, 6, 7,
   1, 2, 2, 3, 2, 3, 3, 4, 2, 3, 3, 4, 3, 4, 4, 5,
   2, 3, 3, 4, 3, 4, 4, 5, 3, 4, 4, 5, 4, 5, 5, 6,
   2, 3, 3, 4, 3, 4, 4, 5, 3, 4, 4, 5, 4, 5, 5, 6,
   3, 4, 4, 5, 4, 5, 5, 6, 4, 5, 5, 6, 5, 6, 6, 7,
   2, 3, 3, 4, 3, 4, 4, 5, 3, 4, 4, 5, 4, 5, 5, 6,
   3, 4, 4, 5, 4, 5, 5, 6, 4, 5, 5, 6, 5, 6, 6, 7,
   3, 4, 4, 5, 4, 5, 5, 6, 4, 5, 5, 6, 5, 6, 6, 7,
   4, 5, 5, 6, 5, 6, 6, 7, 5, 6, 6, 7, 6, 7, 7, 8]

/-- The index a character gives into the table: a `char` is signed. -/
def bitTableIndex (char : UInt8) : Int :=
  if char < 128 then char.toNat else (char.toNat : Int) - 256

def countBits : Bytes → Except Fault Nat
  | [] => .ok 0
  | char :: rest =>
      let index := bitTableIndex char
      if index < 0 then
        .error .outOfBounds
      else
        (countBits rest).map fun count => bitTable.getD index.toNat 0 + count

def bssCountBit (bss : Bss) : Except Fault Nat := countBits bss.content

end PseudoRedis

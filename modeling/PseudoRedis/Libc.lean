/-
This file is the part of the C library the server calls, on byte lists: character
classes, string comparison, integer parsing and printing, memory copies, and the
fixed-width arithmetic of the types involved. A `char` is a byte, a C string is the
bytes before the first zero, and an area of memory is a byte list whose length is the
size of the allocation. What the server takes from its surroundings -- the results of
`random`, the outcome of an allocation, the bytes of fresh memory, floating point,
`fnmatch` -- is the record `Env`.
-/

import Mathlib.Algebra.Order.Ring.Int
import Mathlib.Data.List.Basic

namespace PseudoRedis

abbrev Bytes := List UInt8

/-- The bytes of a string literal. -/
def bytes (text : String) : Bytes :=
  text.toList.map fun char => UInt8.ofNat char.toNat

/-- How a computation stops being one of the C program. -/
inductive Fault where
  /-- a `NULL` pointer is dereferenced -/
  | nullPointer
  /-- a byte or an array element outside its object is read or written -/
  | outOfBounds
  /-- a pointer that was never assigned is dereferenced -/
  | uninitialised
  /-- an `assert` fails -/
  | assertFailed
  /-- `random()` is called more often than results for it are given -/
  | unfinished
  deriving DecidableEq

/-! ### Fixed-width integers -/

/-- A `size_t`. -/
def toSize (value : Int) : Nat := (value % 2 ^ 64).toNat

theorem toSize_natCast {n : Nat} (small : n < 2 ^ 64) : toSize n = n := by
  rw [toSize]
  omega

theorem toSize_of_nonneg {value : Int} (nonnegative : 0 ≤ value) (small : value < 2 ^ 64) :
    toSize value = value.toNat := by
  rw [toSize]
  omega

/-- A `long long`, also named `bss_int_t` and `int64_t`. -/
def toInt64 (value : Int) : Int := Int.bmod value (2 ^ 64)

/-- An `int`. -/
def toInt32 (value : Int) : Int := Int.bmod value (2 ^ 32)

def llongMax : Int := 2 ^ 63 - 1

def llongMin : Int := -2 ^ 63

def int32Max : Int := 2 ^ 31 - 1

def uint32Max : Int := 2 ^ 32 - 1

/-! ### Memory -/

/-- A copy into an area. -/
def store (area : Bytes) (offset : Nat) (data : Bytes) : Except Fault Bytes :=
  if offset + data.length ≤ area.length then
    .ok (area.take offset ++ data ++ area.drop (offset + data.length))
  else
    .error .outOfBounds

theorem store_length {area : Bytes} {offset : Nat} {data result : Bytes}
    (stored : store area offset data = .ok result) : result.length = area.length := by
  unfold store at stored
  split at stored
  · cases stored
    simp only [List.length_append, List.length_take, List.length_drop]
    omega
  · cases stored

def memcmp : Bytes → Bytes → Int
  | first :: firsts, second :: seconds =>
      if first = second then memcmp firsts seconds else (first.toNat : Int) - second.toNat
  | _, _ => 0

theorem memcmp_self (data : Bytes) : memcmp data data = 0 := by
  induction data with
  | nil => rfl
  | cons first rest inductionHypothesis =>
    rw [memcmp, if_pos rfl, inductionHypothesis]

theorem eq_of_memcmp {first second : Bytes} (sameLength : first.length = second.length)
    (equal : memcmp first second = 0) : first = second := by
  induction first generalizing second with
  | nil => exact (List.length_eq_zero_iff.mp sameLength.symm).symm
  | cons byte rest inductionHypothesis =>
    cases second with
    | nil => cases sameLength
    | cons other others =>
      rw [memcmp] at equal
      split at equal
      · rename_i same
        rw [same, inductionHypothesis (Nat.succ.inj sameLength) equal]
      · rename_i different
        refine absurd (UInt8.toNat_inj.mp ?_) different
        omega

/-- A `uint32_t` in memory, least significant byte first. -/
def littleEndian32 (value : Nat) : Bytes :=
  [UInt8.ofNat value, UInt8.ofNat (value / 2 ^ 8), UInt8.ofNat (value / 2 ^ 16),
    UInt8.ofNat (value / 2 ^ 24)]

/-- Reading a `uint32_t` back from memory. -/
def readLittleEndian32 : Bytes → Option Nat
  | b0 :: b1 :: b2 :: b3 :: _ =>
      some (b0.toNat + 2 ^ 8 * b1.toNat + 2 ^ 16 * b2.toNat + 2 ^ 24 * b3.toNat)
  | _ => none

theorem readLittleEndian32_append (value : Nat) (fits : value < 2 ^ 32) (rest : Bytes) :
    readLittleEndian32 (littleEndian32 value ++ rest) = some value := by
  simp only [littleEndian32, List.cons_append, List.nil_append, readLittleEndian32,
    UInt8.toNat_ofNat', Option.some.injEq]
  omega

/-- `htobe64` followed by a copy. -/
def bigEndian64 (value : Int) : Bytes :=
  (List.range 8).map fun index => UInt8.ofNat (toSize value / 2 ^ (8 * (7 - index)))

/-! ### Characters and C strings -/

def isspace (char : UInt8) : Bool :=
  char == 32 || (9 ≤ char && char ≤ 13)

def isdigit (char : UInt8) : Bool :=
  48 ≤ char && char ≤ 57

def tolower (char : UInt8) : UInt8 :=
  if 65 ≤ char && char ≤ 90 then char + 32 else char

/-- The C string at the start of an area. -/
def cstring (area : Bytes) : Bytes :=
  area.takeWhile fun char => char != 0

/-- `!strcasecmp(area, text)`. -/
def strcasecmp (area text : Bytes) : Bool :=
  (cstring area).map tolower == (cstring text).map tolower

/-- The value of digits. -/
def magnitude (digits : Bytes) : Int :=
  digits.foldl (fun value char => 10 * value + (char.toNat - 48)) 0

/-- A value out of range becomes the nearest one in range, with `ERANGE`. -/
def clampLong (value : Int) (consumed : Nat) : Int × Nat × Bool :=
  if llongMax < value then (llongMax, consumed, true)
  else if value < llongMin then (llongMin, consumed, true)
  else (value, consumed, false)

/-- What is read after `blank` bytes of white space and a sign. -/
def strtollDigits (blank : Nat) (negative signed : Bool) (digits : Bytes) : Int × Nat × Bool :=
  if digits = [] then (0, 0, false)
  else
    clampLong (if negative then -magnitude digits else magnitude digits)
      (blank + (if signed then 1 else 0) + digits.length)

/-- `strtoll(area, &end_ptr, 10)`: the value, the number of bytes before `end_ptr`, and whether
`errno` became `ERANGE`. -/
def strtoll (area : Bytes) : Int × Nat × Bool :=
  let afterBlank := area.dropWhile isspace
  let negative := afterBlank.head? == some 45
  let signed := negative || afterBlank.head? == some 43
  strtollDigits (area.takeWhile isspace).length negative signed
    ((if signed then afterBlank.tail else afterBlank).takeWhile isdigit)

theorem strtoll_le (area : Bytes) : (strtoll area).1 ≤ llongMax := by
  have clamped (value : Int) (consumed : Nat) : (clampLong value consumed).1 ≤ llongMax := by
    unfold clampLong
    split
    · exact Int.le_refl llongMax
    · rename_i small
      split
      · exact (by decide : llongMin ≤ llongMax)
      · exact Int.not_lt.mp small
  have read (blank : Nat) (negative signed : Bool) (digits : Bytes) :
      (strtollDigits blank negative signed digits).1 ≤ llongMax := by
    rw [strtollDigits]
    by_cases none : digits = []
    · rw [if_pos none]
      decide
    · rw [if_neg none]
      exact clamped _ _
  exact read _ _ _ _

/-- `sprintf` with `"%lld"`. -/
def sprintfLld (value : Int) : Bytes :=
  let digits := (Nat.toDigits 10 value.natAbs).map fun char => UInt8.ofNat char.toNat
  if value < 0 then 45 :: digits else digits

/-- `sprintf` with `"%d"` of a `long long`: the low half of the argument is printed. -/
def sprintfD (value : Int) : Bytes :=
  sprintfLld (toInt32 value)

/-! ### The surroundings of one request -/

/-- An x87 extended-precision number, by its bits. -/
abbrev LongDouble := BitVec 80

/-- `isnanl(value) || isinfl(value)`. -/
def LongDouble.isNanOrInf (value : LongDouble) : Bool :=
  (value >>> 64) &&& 0x7fff == 0x7fff

/-- What the C program takes from its surroundings while it serves one request. -/
structure Env where
  /-- the results of `random()`, in order -/
  random : List Nat
  /-- whether `fnmatch(pattern, text, 0)` reports a match -/
  fnmatch : Bytes → Bytes → Bool
  /-- `strtold`, with the same results as `strtoll` above -/
  strtold : Bytes → LongDouble × Nat × Bool
  /-- addition of two long doubles -/
  addLd : LongDouble → LongDouble → LongDouble
  /-- `sprintf` with `BSS_FLT_FMT` -/
  sprintfLd : LongDouble → Bytes
  /-- whether an allocation of so many bytes for a string succeeds -/
  malloc : Nat → Bool
  /-- the bytes `malloc` leaves in an allocation -/
  junk : Nat → Nat → UInt8
  /-- what the calls that fall off their end return: a handler's at zero, a callback's at the
  allocation of the key it is called with -/
  fallOff : Nat → Int
  /-- what an automatic variable holds before its first assignment -/
  stack : UInt8
  /-- the first allocation a handler makes -/
  fresh : Nat

/-- The bytes `malloc` leaves between two offsets of an allocation. -/
def Env.leftover (env : Env) (id first last : Nat) : Bytes :=
  (List.range (last - first)).map fun index => env.junk id (first + index)

/-- Surroundings in which allocations succeed, fresh memory is zero and calls that fall off their
end return zero. -/
def Env.plain : Env :=
  { random := []
    fnmatch := fun _ _ => true
    strtold := fun _ => (0, 0, false)
    addLd := fun first _ => first
    sprintfLd := fun _ => []
    malloc := fun _ => true
    junk := fun _ _ => 0
    fallOff := fun _ => 0
    stack := 0
    fresh := 0 }

@[simp]
theorem Env.leftover_length (env : Env) (id first last : Nat) :
    (env.leftover id first last).length = last - first := by
  rw [Env.leftover, List.length_map, List.length_range]

end PseudoRedis

/-
This file embeds what `display_reply` of `client.c` prints. The text of an array follows
from the elements the walk yields; an integer is converted from its eight bytes to a
number of 64 bits and printed with `"%d"`, which shows the low half of it.
-/

import PseudoRedis.Client
import PseudoRedis.Numbers

namespace PseudoRedis

/-! ### What arrives -/

/-- The header and the data in what was read from the connection. -/
def received : Bytes → Option Reply
  | [] => none
  | type :: rest =>
      match readLittleEndian32 rest, readLittleEndian32 (rest.drop 4) with
      | some arrNum, some len =>
          some ⟨type, UInt32.ofNat arrNum, UInt32.ofNat len, rest.drop 8⟩
      | _, _ => none

theorem received_wire (reply : Reply) :
    received reply.wire = some { reply with data := reply.data.take reply.len.toNat } := by
  have arrNum := readLittleEndian32_append reply.arrNum.toNat reply.arrNum.toNat_lt
    (littleEndian32 reply.len.toNat ++ reply.data.take reply.len.toNat)
  have len := readLittleEndian32_append reply.len.toNat reply.len.toNat_lt
    (reply.data.take reply.len.toNat)
  have first : (littleEndian32 reply.arrNum.toNat).length = 4 := rfl
  have second : (littleEndian32 reply.len.toNat).length = 4 := rfl
  rw [Reply.wire, List.cons_append, List.cons_append, List.append_assoc, received,
    List.drop_left' first, ← List.drop_drop (i := 4) (j := 4), List.drop_left' first,
    List.drop_left' second, arrNum, len]
  simp only [UInt32.ofNat_toNat]

/-- `be64toh(*(int64_t*)pos)`. -/
def readBigEndian64 : Bytes → Option Nat
  | b0 :: b1 :: b2 :: b3 :: b4 :: b5 :: b6 :: b7 :: _ =>
      some ([b0, b1, b2, b3, b4, b5, b6, b7].foldl (fun value char => 2 ^ 8 * value + char.toNat) 0)
  | _ => none

/-- A byte of a number joined to what stands before it. -/
theorem join_byte (n shift : Nat) :
    2 ^ 8 * (n / 2 ^ (shift + 8)) + n / 2 ^ shift % 2 ^ 8 = n / 2 ^ shift := by
  rw [Nat.pow_add, ← Nat.div_div_eq_div_mul]
  exact Nat.div_add_mod _ _

theorem readBigEndian64_bigEndian64 (value : Int) :
    readBigEndian64 (bigEndian64 value) = some (toSize value) := by
  have small : toSize value < 2 ^ 64 := by
    rw [toSize]
    omega
  have first : 2 ^ 8 * 0 + toSize value / 2 ^ 56 % 2 ^ 8 = toSize value / 2 ^ 56 := by
    have joined := join_byte (toSize value) 56
    rwa [Nat.div_eq_of_lt small] at joined
  have spelled : bigEndian64 value = [UInt8.ofNat (toSize value / 2 ^ 56),
      UInt8.ofNat (toSize value / 2 ^ 48), UInt8.ofNat (toSize value / 2 ^ 40),
      UInt8.ofNat (toSize value / 2 ^ 32), UInt8.ofNat (toSize value / 2 ^ 24),
      UInt8.ofNat (toSize value / 2 ^ 16), UInt8.ofNat (toSize value / 2 ^ 8),
      UInt8.ofNat (toSize value / 2 ^ 0)] := rfl
  rw [spelled, readBigEndian64]
  simp only [List.foldl_cons, List.foldl_nil, UInt8.toNat_ofNat', Option.some.injEq]
  rw [first, join_byte _ 48, join_byte _ 40, join_byte _ 32, join_byte _ 24,
    join_byte _ 16, join_byte _ 8, join_byte _ 0, Nat.pow_zero, Nat.div_one]

/-! ### What is printed -/

/-- Graphic characters. -/
def isgraph (char : UInt8) : Bool :=
  33 ≤ char && char ≤ 126

/-- A digit of `"%02x"`. -/
def hexDigit (n : UInt8) : UInt8 :=
  if n < 10 then 48 + n else 87 + n

/-- A character as it is, or `"\\x%02x"`. -/
def printChar (char : UInt8) : Bytes :=
  if isgraph char || char == 32 then [char]
  else [92, 120, hexDigit (char / 16), hexDigit (char % 16)]

def printStr (data : Bytes) (quote : Bool) : Bytes :=
  (if quote then [34] else []) ++ data.flatMap printChar ++ (if quote then [34] else []) ++ [10]

/-- The number of decimal digits, none for zero. -/
def countSpace (len : Nat) : Nat :=
  if len = 0 then 0 else countSpace (len / 10) + 1
termination_by len
decreasing_by exact Nat.div_lt_self (by omega) (by decide)

/-- An index printed with the format made for the array. -/
def printIndex (dispWidth index : Nat) : Bytes :=
  List.replicate (dispWidth - (sprintfD index).length) 32 ++ sprintfD index ++ bytes ") "

def printElem (indent : Bool) (dispWidth index : Nat) (elem : Shown) : Bytes :=
  (if indent = true ∧ index ≠ 1 then bytes "   " else []) ++
    (if strNi &&& elem.type = 0 then printIndex dispWidth index else []) ++
    match elem.data with
    | none => bytes "(nil)\n"
    | some data => printStr data (strNotQuoted &&& elem.type = 0)

def printElems (indent : Bool) (dispWidth : Nat) : Nat → List Shown → Bytes
  | _, [] => []
  | index, elem :: rest =>
      printElem indent dispWidth index elem ++ printElems indent dispWidth (index + 1) rest

/-- The loop over the array. -/
def printArr (indent : Bool) (arrNum : UInt32) (elems : List Shown) : Bytes :=
  printElems indent (countSpace arrNum.toNat) 1 elems ++
    if elems = [] then bytes "(empty list or set)\n" else []

/-- The cursor of a double array comes first. -/
def printDbArr (arrNum : UInt32) : Option Bytes → List Shown → Bytes
  | none, elems => printArr false arrNum elems
  | some cursor, elems =>
      bytes "1) " ++ printStr cursor true ++ bytes "2) " ++ printArr true arrNum elems

def typeStr : List String := ["string", "integer", "set", "hash", "list", "none"]

/-- `display_reply`: what it prints, if it reads nothing beyond the data. -/
def displayText (reply : Reply) : Option Bytes :=
  let data := reply.data.take reply.len.toNat
  if reply.replyType = rplyOk then some (bytes "OK\n")
  else if reply.replyType = rplyFail then
    if reply.data.length < reply.len.toNat then none
    else some (bytes "(error) " ++ printStr data false)
  else if reply.replyType = rplyString then
    if reply.data.length < reply.len.toNat then none else some (printStr data true)
  else if reply.replyType = rplyInt then
    (readBigEndian64 reply.data).map fun (n : Nat) => bytes "(interger) " ++ sprintfD n ++ [10]
  else if reply.replyType = rplyNil then some (bytes "(nil)\n")
  else if reply.replyType = rplyDbArr ∨ reply.replyType = rplyArr then
    (displayReply reply).map fun (cursor, elems, _) => printDbArr reply.arrNum cursor elems
  else if reply.replyType = rplyType then
    match reply.data with
    | [] => none
    | n :: _ => (typeStr[n.toNat]?).map fun text => printStr (bytes text) false
  else some []

/-- An array of elements that can be sent is printed with the tags and the bytes the server put
into it. -/
theorem displayText_createArrReply (env : Env) {sh after : Shared}
    (sendable : ∀ elem ∈ sh.elems, elem.Sendable)
    (built : createArrReply env sh rplyArr = .ok (after, 0)) :
    displayText after.curr = some (printArr false after.curr.arrNum (sh.elems.map Elem.shown)) := by
  have walked := (displayReply_createArrReply env sh after sendable).1 built
  have type := (announced_data built).1
  rw [displayText, type, walked]
  rfl

/-! ### Numbers -/

/-- Different numbers are printed differently. -/
theorem sprintfLld_injective {first second : Int} (firstRange : IsInt64 first)
    (secondRange : IsInt64 second) (same : sprintfLld first = sprintfLld second) :
    first = second := by
  have read := strtoll_printed firstRange []
  rw [same, strtoll_printed secondRange []] at read
  exact (congrArg Prod.fst read).symm

/-- The low half of a number of 64 bits, as an `int`. -/
theorem toInt32_toSize (value : Int) : toInt32 (toSize value) = toInt32 value := by
  have wrapped : (toSize value : Int) = value % 2 ^ 64 := by
    rw [toSize]
    omega
  have halves : value % 2 ^ 64 % ((2 ^ 32 : Nat) : Int) = value % ((2 ^ 32 : Nat) : Int) :=
    Int.emod_emod_of_dvd value (by decide)
  rw [toInt32, toInt32, wrapped, ← Int.emod_bmod, halves, Int.emod_bmod]

/-- The text for a number. -/
def intText (n : Int) : Bytes := bytes "(interger) " ++ sprintfLld n ++ [10]

/-- What the client prints for the reply of a number. -/
theorem displayText_createIntReply (sh : Shared) (n : Int) :
    (received (createIntReply sh n).1.curr.wire).bind displayText = some (intText (toInt32 n)) := by
  have read : readBigEndian64 (((createIntReply sh n).1.curr.data).take 8) = some (toSize n) := by
    rw [← readBigEndian64_bigEndian64]
    rfl
  rw [received_wire, Option.bind_some]
  show (readBigEndian64 (((createIntReply sh n).1.curr.data).take 8)).map
    (fun (n : Nat) => bytes "(interger) " ++ sprintfD n ++ [10]) = _
  rw [read, Option.map_some, sprintfD, toInt32_toSize]
  rfl

/-- The client prints the number the server replied with exactly if an `int` holds it. -/
theorem int_reply_displayed_iff (sh : Shared) (n : Int) (inRange : IsInt64 n) :
    (received (createIntReply sh n).1.curr.wire).bind displayText = some (intText n) ↔
      -2 ^ 31 ≤ n ∧ n < 2 ^ 31 := by
  rw [displayText_createIntReply, Option.some.injEq]
  show _ ↔ IsInt32 n
  rw [← toInt32_eq_iff]
  constructor
  · intro same
    have digits := List.append_cancel_left (List.append_cancel_right same)
    exact sprintfLld_injective (isInt64_toInt32 n) inRange digits
  · intro same
    rw [same]

/-- The largest number that survives. -/
theorem int_reply_displayed_iff_int32Max :
    (received (createIntReply (Shared.holding []) int32Max).1.curr.wire).bind displayText =
      some (intText int32Max) :=
  (int_reply_displayed_iff (Shared.holding []) int32Max ⟨by decide, by decide⟩).mpr
    ⟨by decide, by decide⟩

/-- The first one that does not is printed as zero plus its low half. -/
theorem int_reply_truncated :
    ∃ (sh : Shared) (n : Int), IsInt64 n ∧
      (received (createIntReply sh n).1.curr.wire).bind displayText ≠ some (intText n) := by
  refine ⟨Shared.holding [], 2 ^ 32, ⟨by decide, by decide⟩, ?_⟩
  rw [displayText_createIntReply, ne_eq, Option.some.injEq]
  decide

end PseudoRedis

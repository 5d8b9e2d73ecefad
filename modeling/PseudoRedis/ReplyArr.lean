/-
This file says what the reply array holds after any number of additions and how many
bytes its encoding writes.

The counter of the array is a `uint8_t` and is compared with 1024, so an addition is
never refused: after `n` additions the counter is `n` modulo 256, and the elements
below it are the last `n` modulo 256 of those added. The encoding adds the length of a
string to the running total in 32 bits, so the bytes written stay within the limit as
long as no such sum wraps around and still passes the test.
-/

import PseudoRedis.Reply

namespace PseudoRedis

/-! ### One addition -/

/-- The array with one more element. -/
def Shared.push (sh : Shared) (elem : Elem) : Shared :=
  { sh with
    replyArr := fun index =>
      if index = sh.rplyArrLen.toNat then elem.bss else sh.replyArr index
    arrEleType := fun index =>
      if index = sh.rplyArrLen.toNat then elem.type else sh.arrEleType index
    rplyArrLen := sh.rplyArrLen + 1 }

/-- The test for a full array never succeeds. -/
@[simp]
theorem addtoReplyArr_eq (sh : Shared) (bssPtr : Option Bss) (type : UInt8) :
    addtoReplyArr sh bssPtr type = (sh.push ⟨bssPtr, type⟩, 0) := by
  have small := sh.rplyArrLen.toNat_lt
  rw [addtoReplyArr, if_neg (by simp only [maxArgs]; omega)]
  rfl

theorem length_elems (sh : Shared) : sh.elems.length = sh.rplyArrLen.toNat := by
  rw [Shared.elems, List.length_map, List.length_range]

@[simp]
theorem elems_push {sh : Shared} (room : sh.rplyArrLen.toNat < 255) (elem : Elem) :
    (sh.push elem).elems = sh.elems ++ [elem] := by
  have next : (sh.rplyArrLen + 1).toNat = sh.rplyArrLen.toNat + 1 := by
    rw [UInt8.toNat_add]
    exact Nat.mod_eq_of_lt (Nat.succ_lt_succ room)
  rw [Shared.elems, Shared.push, next, List.range_succ, List.map_append]
  congr 1
  · refine List.map_congr_left fun index below => ?_
    have older : index ≠ sh.rplyArrLen.toNat := Nat.ne_of_lt (List.mem_range.mp below)
    simp only [if_neg older]
  · simp only [List.map_singleton, if_pos]

/-! ### Many additions -/

/-- What calls of `addto_reply_arr` return. -/
def addRets (sh : Shared) : List Elem → List Int
  | [] => []
  | elem :: rest =>
      (addtoReplyArr sh elem.bss elem.type).2 ::
        addRets (addtoReplyArr sh elem.bss elem.type).1 rest

@[simp]
theorem addAll_cons (sh : Shared) (elem : Elem) (rest : List Elem) :
    addAll sh (elem :: rest) = addAll (sh.push elem) rest := by
  rw [addAll, List.foldl_cons, addtoReplyArr_eq]
  rfl

@[simp]
theorem addAll_append (sh : Shared) (first second : List Elem) :
    addAll sh (first ++ second) = addAll (addAll sh first) second :=
  List.foldl_append

theorem addAll_fields (sh : Shared) (elems : List Elem) :
    (addAll sh elems).curr = sh.curr ∧ (addAll sh elems).released = sh.released ∧
      (addAll sh elems).stale = sh.stale := by
  induction elems generalizing sh with
  | nil => exact ⟨rfl, rfl, rfl⟩
  | cons elem rest inductionHypothesis =>
    rw [addAll_cons]
    exact inductionHypothesis _

theorem not_mem_addRets (sh : Shared) (elems : List Elem) : eTooLong ∉ addRets sh elems := by
  induction elems generalizing sh with
  | nil => exact List.not_mem_nil
  | cons elem rest inductionHypothesis =>
    rw [addRets, addtoReplyArr_eq, List.mem_cons, not_or]
    exact ⟨(by decide : eTooLong ≠ 0), inductionHypothesis _⟩

@[simp]
theorem rplyArrLen_addAll (sh : Shared) (elems : List Elem) :
    (addAll sh elems).rplyArrLen = sh.rplyArrLen + UInt8.ofNat elems.length := by
  induction elems generalizing sh with
  | nil => exact (UInt8.add_zero _).symm
  | cons elem rest inductionHypothesis =>
    rw [addAll_cons, inductionHypothesis, List.length_cons, UInt8.ofNat_add, UInt8.add_comm
      (UInt8.ofNat rest.length), ← UInt8.add_assoc]
    rfl

theorem elems_addAll_of_room (sh : Shared) (elems : List Elem)
    (room : sh.rplyArrLen.toNat + elems.length < 256) :
    (addAll sh elems).elems = sh.elems ++ elems := by
  induction elems generalizing sh with
  | nil => exact (List.append_nil _).symm
  | cons elem rest inductionHypothesis =>
    rw [List.length_cons] at room
    have next : (sh.push elem).rplyArrLen.toNat = sh.rplyArrLen.toNat + 1 := by
      show (sh.rplyArrLen + 1).toNat = _
      rw [UInt8.toNat_add]
      exact Nat.mod_eq_of_lt (by show _ + 1 < 256; omega)
    rw [addAll_cons, inductionHypothesis _ (by omega), elems_push (by omega),
      List.append_assoc, List.singleton_append]

/-- A full round of the counter leaves nothing. -/
theorem elems_addAll (sh : Shared) (empty : sh.rplyArrLen = 0) (elems : List Elem) :
    (addAll sh elems).elems = elems.drop (256 * (elems.length / 256)) := by
  induction size : elems.length / 256 generalizing sh elems with
  | zero =>
    have short : elems.length < 256 := by omega
    have none : sh.elems = [] := by rw [Shared.elems, empty]; rfl
    rw [elems_addAll_of_room sh elems (by rw [empty]; show 0 + _ < _; omega), none]
    rfl
  | succ rounds inductionHypothesis =>
    have long : 256 ≤ elems.length := by omega
    have again : (addAll sh (elems.take 256)).rplyArrLen = 0 := by
      rw [rplyArrLen_addAll, empty, List.length_take, Nat.min_eq_left long]
      rfl
    have remaining : (elems.drop 256).length / 256 = rounds := by
      rw [List.length_drop]
      omega
    have split := inductionHypothesis _ again (elems.drop 256) remaining
    rw [← addAll_append, List.take_append_drop] at split
    rw [split, List.drop_drop]
    congr 1
    omega

theorem elems_fill (sh : Shared) (elems : List Elem) :
    (addAll (resetReplyArr sh) elems).elems = elems.drop (256 * (elems.length / 256)) :=
  elems_addAll _ rfl elems

/-- What is left of a list when the counter has come round is smaller than the whole. -/
theorem sum_left_lt {Item : Type} (size : Item → Nat) {items : List Item}
    (some : ∀ item ∈ items, 0 < size item) (long : ¬ items.length ≤ 255) :
    ((items.drop (256 * (items.length / 256))).map size).sum < (items.map size).sum := by
  have split := List.take_append_drop (256 * (items.length / 256)) items
  have lostSome : 0 < (items.take (256 * (items.length / 256))).length := by
    rw [List.length_take]
    omega
  obtain ⟨first, rest, lost⟩ := List.exists_cons_of_length_pos lostSome
  have positive := some first (List.mem_of_mem_take (lost ▸ List.mem_cons_self))
  have whole : (items.map size).sum =
      ((items.take (256 * (items.length / 256))).map size).sum +
        ((items.drop (256 * (items.length / 256))).map size).sum := by
    rw [← List.sum_append, ← List.map_append, split]
  rw [lost, List.map_cons, List.sum_cons] at whole
  omega

/-- Either a call is refused or the array holds exactly the elements that were added. -/
def Delivered (sh : Shared) (elems : List Elem) : Prop :=
  eTooLong ∈ addRets (resetReplyArr sh) elems ∨
    ((addAll (resetReplyArr sh) elems).rplyArrLen.toNat = elems.length ∧
      (addAll (resetReplyArr sh) elems).elems = elems)

/-- The array keeps what was added as long as the counter does not come round. -/
theorem delivered_iff (sh : Shared) (elems : List Elem) :
    Delivered sh elems ↔ elems.length ≤ 255 := by
  constructor
  · rintro (refused | ⟨count, -⟩)
    · exact absurd refused (not_mem_addRets _ _)
    · rw [← count]
      exact Nat.le_of_lt_succ (UInt8.toNat_lt _)
  · intro short
    have whole : elems.length / 256 = 0 := Nat.div_eq_of_lt (Nat.lt_succ_of_le short)
    have held := elems_fill sh elems
    rw [whole] at held
    refine Or.inr ⟨?_, held⟩
    rw [← length_elems, held]
    rfl

/-! ### One element of the encoding -/

/-- The bytes that stand for an element. -/
def Elem.encode (elem : Elem) : Bytes :=
  if strNil &&& elem.type ≠ 0 then
    [elem.type &&& typeMask]
  else
    match elem.bss with
    | none => []
    | some bss =>
        (elem.type &&& typeMask) :: littleEndian32 (UInt32.ofNat bss.len).toNat ++
          bss.str.take (UInt32.ofNat bss.len).toNat

/-- The number compared with the limit when an element is reached. -/
def Elem.needed (elem : Elem) (total : UInt32) : Nat :=
  if strNil &&& elem.type ≠ 0 then
    (total + 2).toNat
  else
    match elem.bss with
    | none => 0
    | some bss => (total + UInt32.ofNat bss.len).toNat + sizeTl + 1

/-- The buffers an encoded element releases. -/
def Elem.freed (elem : Elem) : List Nat :=
  if strNil &&& elem.type ≠ 0 then
    []
  else
    match elem.bss with
    | none => []
    | some bss => if elem.type &&& needFree ≠ 0 then [bss.id] else []

/-- The buffers an element makes the encoding read. -/
def Elem.read (elem : Elem) : List Nat :=
  if strNil &&& elem.type ≠ 0 then [] else (elem.bss.map Bss.id).toList

theorem strNormal_string : ¬ (strNil &&& strNormal ≠ 0) := by decide

/-- A string element has a string, and its area holds the bytes the encoding copies. -/
def Elem.Held (elem : Elem) : Prop :=
  strNil &&& elem.type = 0 →
    ∃ bss, elem.bss = some bss ∧ bss.len % 2 ^ 32 ≤ bss.str.length

/-- The number of bytes an element takes. -/
def Elem.size (elem : Elem) : Nat :=
  if strNil &&& elem.type ≠ 0 then 1
  else (elem.bss.elim 0 fun bss => bss.len % 2 ^ 32) + sizeTl

theorem length_encode {elem : Elem} (held : elem.Held) : elem.encode.length = elem.size := by
  unfold Elem.encode Elem.size
  split
  · rfl
  · rename_i string
    obtain ⟨bss, points, area⟩ := held (not_not.mp string)
    simp only [points, Option.elim_some, List.length_append, List.length_cons, List.length_take,
      littleEndian32, List.length_nil, sizeTl, UInt32.toNat_ofNat', Nat.min_eq_left area]
    omega

/-- One iteration either refuses the element or appends its bytes. -/
theorem encodeElem_eq {elem : Elem} (held : elem.Held) (enc : Encoder) :
    ∃ result ret, encodeElem enc elem = .ok (result, ret) ∧ result.type = elem.type ∧
      result.stale = (elem.read.filter fun id => id ∈ enc.released) ++ enc.stale ∧
      ((maxRplySize < elem.needed enc.totalLen ∧ ret = eTooLong ∧ result.out = enc.out ∧
          result.released = enc.released) ∨
        (elem.needed enc.totalLen ≤ maxRplySize ∧ ret = 0 ∧
          result.out = enc.out ++ elem.encode ∧
          result.totalLen = enc.totalLen + UInt32.ofNat elem.size ∧
          result.released = elem.freed ++ enc.released)) := by
  by_cases nil : strNil &&& elem.type ≠ 0
  · simp only [encodeElem, Elem.size, Elem.needed, Elem.encode, Elem.freed, Elem.read, if_pos nil]
    by_cases long : (enc.totalLen + 2).toNat > maxRplySize
    · rw [if_pos long]
      exact ⟨_, _, rfl, rfl, rfl, Or.inl ⟨long, rfl, rfl, rfl⟩⟩
    · rw [if_neg long]
      exact ⟨_, _, rfl, rfl, rfl, Or.inr ⟨Nat.le_of_not_lt long, rfl, rfl, rfl, rfl⟩⟩
  · obtain ⟨bss, points, area⟩ := held (not_not.mp nil)
    simp only [encodeElem, Elem.size, Elem.needed, Elem.encode, Elem.freed, Elem.read, if_neg nil,
      points]
    by_cases long : (enc.totalLen + UInt32.ofNat bss.len).toNat + sizeTl + 1 > maxRplySize
    · rw [if_pos long]
      exact ⟨_, _, rfl, rfl, rfl, Or.inl ⟨long, rfl, rfl, rfl⟩⟩
    · have inside : ¬ bss.str.length < (UInt32.ofNat bss.len).toNat := Nat.not_lt.mpr area
      rw [if_neg long, if_neg inside]
      refine ⟨_, _, rfl, rfl, rfl, Or.inr ⟨Nat.le_of_not_lt long, rfl, ?_, rfl, ?_⟩⟩
      · exact List.append_assoc _ _ _
      · split <;> rfl

/-! ### Encodings that came to an end -/

/-- An iteration writes nothing when it refuses its element, and otherwise a tag and more. -/
theorem encodeElem_out {enc next : Encoder} {elem : Elem} {ret : Int}
    (step : encodeElem enc elem = .ok (next, ret)) :
    (ret = eTooLong ∧ next.out = enc.out) ∨
      (ret = 0 ∧ ∃ more, next.out = enc.out ++ (elem.type &&& typeMask) :: more) := by
  by_cases nil : strNil &&& elem.type ≠ 0
  · simp only [encodeElem, if_pos nil] at step
    split at step
    · cases step
      exact Or.inl ⟨rfl, rfl⟩
    · cases step
      exact Or.inr ⟨rfl, [], rfl⟩
  · simp only [encodeElem, if_neg nil] at step
    split at step
    · cases step
    · split at step
      · cases step
        exact Or.inl ⟨rfl, rfl⟩
      · split at step
        · cases step
        · cases step
          exact Or.inr ⟨rfl, _, List.append_assoc _ _ _⟩

/-- The loop was refused by its first element, or went on behind it. -/
theorem encodeElems_cons_inv {elem : Elem} {rest : List Elem} {enc result : Encoder} {ret : Int}
    (run : encodeElems enc (elem :: rest) = .ok (result, ret)) :
    (encodeElem enc elem = .ok (result, ret) ∧ ret ≠ 0) ∨
      ∃ next, encodeElem enc elem = .ok (next, 0) ∧ encodeElems next rest = .ok (result, ret) := by
  rw [encodeElems] at run
  cases step : encodeElem enc elem with
  | error fault =>
    rw [step] at run
    cases run
  | ok outcome =>
    obtain ⟨next, code⟩ := outcome
    rw [step] at run
    dsimp only at run
    by_cases accepted : code = 0
    · rw [if_neg (not_not.mpr accepted)] at run
      rw [accepted]
      exact Or.inr ⟨next, rfl, run⟩
    · rw [if_pos accepted] at run
      cases run
      exact Or.inl ⟨rfl, accepted⟩

/-- The loop was refused, or ended and was ended by a tag. -/
theorem encodeArr_inv {env : Env} {sh : Shared} {enc : Encoder} {ret : Int}
    (encoded : encodeArr env sh = .ok (enc, ret)) :
    (encodeElems (sh.encoder env) sh.elems = .ok (enc, ret) ∧ ret ≠ 0) ∨
      ret = 0 ∧ ∃ last, encodeElems (sh.encoder env) sh.elems = .ok (last, 0) ∧
        enc = { last with out := last.out ++ [strEnd], totalLen := last.totalLen + 1 } := by
  rw [encodeArr] at encoded
  cases run : encodeElems (sh.encoder env) sh.elems with
  | error fault =>
    rw [run] at encoded
    cases encoded
  | ok outcome =>
    obtain ⟨last, code⟩ := outcome
    rw [run] at encoded
    dsimp only at encoded
    by_cases accepted : code = 0
    · rw [if_neg (not_not.mpr accepted)] at encoded
      cases encoded
      rw [accepted]
      exact Or.inr ⟨rfl, last, rfl, rfl⟩
    · rw [if_pos accepted] at encoded
      cases encoded
      exact Or.inl ⟨rfl, accepted⟩

/-- The encoding is within the limit, and it is announced unless it was refused. -/
theorem createArrReply_inv {env : Env} {sh after : Shared} {arrType : UInt8} {ret : Int}
    (built : createArrReply env sh arrType = .ok (after, ret)) :
    ∃ enc, encodeArr env sh = .ok (enc, ret) ∧ enc.out.length ≤ maxRplySize ∧
      (ret ≠ 0 ∧ after = sh.written enc ∨ ret = 0 ∧ after = sh.announced enc arrType) := by
  rw [createArrReply] at built
  cases encoded : encodeArr env sh with
  | error fault =>
    rw [encoded] at built
    cases built
  | ok outcome =>
    obtain ⟨enc, code⟩ := outcome
    rw [encoded] at built
    dsimp only at built
    by_cases beyond : maxRplySize < enc.out.length
    · rw [if_pos beyond] at built
      cases built
    · rw [if_neg beyond] at built
      by_cases accepted : code = 0
      · rw [if_neg (not_not.mpr accepted)] at built
        cases built
        rw [accepted]
        exact ⟨enc, rfl, Nat.le_of_not_lt beyond, Or.inr ⟨rfl, rfl⟩⟩
      · rw [if_pos accepted] at built
        cases built
        exact ⟨enc, rfl, Nat.le_of_not_lt beyond, Or.inl ⟨accepted, rfl⟩⟩

/-- The iterations of the loop accept or refuse, and keep what is written. -/
theorem encodeElems_grows {elems : List Elem} {enc result : Encoder} {ret : Int}
    (run : encodeElems enc elems = .ok (result, ret)) :
    (ret = 0 ∨ ret = eTooLong) ∧ ∃ more, result.out = enc.out ++ more := by
  induction elems generalizing enc with
  | nil =>
    cases run
    exact ⟨Or.inl rfl, [], (List.append_nil _).symm⟩
  | cons elem rest inductionHypothesis =>
    rcases encodeElems_cons_inv run with ⟨step, refused⟩ | ⟨next, step, later⟩
    · rcases encodeElem_out step with ⟨tooLong, same⟩ | ⟨accepted, -⟩
      · exact ⟨Or.inr tooLong, [], by rw [same, List.append_nil]⟩
      · exact absurd accepted refused
    · rcases encodeElem_out step with ⟨tooLong, -⟩ | ⟨-, more, written⟩
      · exact absurd tooLong (by decide)
      · obtain ⟨code, others, final⟩ := inductionHypothesis later
        exact ⟨code, _, by rw [final, written, List.append_assoc]⟩

/-! ### The whole encoding -/

/-- Adding the length of this element to a total does not wrap around, or the wrapped sum fails the
test all the same. -/
def Elem.NoWrap (elem : Elem) (total : Nat) : Prop :=
  strNil &&& elem.type = 0 → ∀ bss, elem.bss = some bss →
    total + bss.len % 2 ^ 32 < 2 ^ 32 ∨
      maxRplySize < (total + bss.len % 2 ^ 32) % 2 ^ 32 + sizeTl + 1

/-- The same of every element the encoding reaches: each one is reached if those before it fit. -/
def NoWrap (total : Nat) : List Elem → Prop
  | [] => True
  | elem :: rest =>
      elem.NoWrap total ∧ (total + elem.size < maxRplySize → NoWrap (total + elem.size) rest)

/-- Without a wrap the test is the comparison of the true sizes. -/
theorem needed_eq {elem : Elem} (held : elem.Held) {enc : Encoder}
    (count : enc.totalLen.toNat = enc.out.length) (room : enc.out.length < maxRplySize)
    (unwrapped : elem.NoWrap enc.out.length) :
    elem.needed enc.totalLen ≤ maxRplySize ↔ enc.out.length + elem.size < maxRplySize := by
  unfold Elem.needed Elem.size
  by_cases nil : strNil &&& elem.type ≠ 0
  · rw [if_pos nil, if_pos nil, UInt32.toNat_add, count]
    simp only [maxRplySize, UInt32.reduceToNat] at room ⊢
    omega
  · obtain ⟨bss, points, -⟩ := held (not_not.mp nil)
    have cases := unwrapped (not_not.mp nil) bss points
    rw [if_neg nil, if_neg nil, points]
    simp only [Option.elim_some, UInt32.toNat_add, UInt32.toNat_ofNat', count, sizeTl,
      maxRplySize] at cases ⊢
    omega

theorem encodeElems_bounded {elems : List Elem} (held : ∀ elem ∈ elems, elem.Held)
    {enc : Encoder} (count : enc.totalLen.toNat = enc.out.length)
    (room : enc.out.length < maxRplySize) (unwrapped : NoWrap enc.out.length elems) :
    ∃ result ret, encodeElems enc elems = .ok (result, ret) ∧
      result.out.length < maxRplySize ∧
      (ret = 0 ∧ result.totalLen.toNat = result.out.length ∨ ret = eTooLong) := by
  induction elems generalizing enc with
  | nil => exact ⟨enc, 0, rfl, room, Or.inl ⟨rfl, count⟩⟩
  | cons elem rest inductionHypothesis =>
    have heldHere := held elem List.mem_cons_self
    have fits := needed_eq heldHere count room unwrapped.1
    obtain ⟨result, ret, step, -, -, refused | accepted⟩ := encodeElem_eq heldHere enc
    · obtain ⟨-, tooLong, same, -⟩ := refused
      refine ⟨result, ret, ?_, by rw [same]; exact room, Or.inr tooLong⟩
      rw [encodeElems, step]
      exact if_pos (by rw [tooLong]; decide)
    · obtain ⟨small, zero, out, total, -⟩ := accepted
      have shorter := fits.mp small
      have length : result.out.length = enc.out.length + elem.size := by
        rw [out, List.length_append, length_encode heldHere]
      have nextCount : result.totalLen.toNat = result.out.length := by
        simp only [maxRplySize] at shorter
        rw [total, length, UInt32.toNat_add, UInt32.toNat_ofNat', count]
        omega
      have nextUnwrapped := unwrapped.2 shorter
      rw [← length] at shorter nextUnwrapped
      obtain ⟨final, finalRet, run, rest⟩ := inductionHypothesis
        (fun later member => held later (List.mem_cons_of_mem _ member))
        nextCount shorter nextUnwrapped
      refine ⟨final, finalRet, ?_, rest⟩
      rw [encodeElems, step]
      exact (if_neg (not_not.mpr zero)).trans run

/-- A string that wraps the sum and passes the test writes more than the limit. -/
theorem noWrap_of_bounded {elems : List Elem} (held : ∀ elem ∈ elems, elem.Held)
    {enc result : Encoder} {ret : Int} (count : enc.totalLen.toNat = enc.out.length)
    (room : enc.out.length < maxRplySize) (run : encodeElems enc elems = .ok (result, ret))
    (bounded : result.out.length ≤ maxRplySize) : NoWrap enc.out.length elems := by
  induction elems generalizing enc with
  | nil => trivial
  | cons elem rest inductionHypothesis =>
    have heldHere := held elem List.mem_cons_self
    have heldLater : ∀ later ∈ rest, later.Held :=
      fun later member => held later (List.mem_cons_of_mem _ member)
    obtain ⟨next, nextRet, step, -, -, outcome⟩ := encodeElem_eq heldHere enc
    rw [encodeElems, step] at run
    simp only at run
    have here : elem.NoWrap enc.out.length := by
      intro string bss points
      by_contra wraps
      rw [not_or, Nat.not_lt, Nat.not_lt] at wraps
      have needed : elem.needed enc.totalLen =
          (enc.out.length + bss.len % 2 ^ 32) % 2 ^ 32 + sizeTl + 1 := by
        rw [Elem.needed, if_neg (not_not.mpr string), points, ← count]
        simp only [UInt32.toNat_add, UInt32.toNat_ofNat']
      have size : elem.size = bss.len % 2 ^ 32 + sizeTl := by
        rw [Elem.size, if_neg (not_not.mpr string), points, Option.elim_some]
      rcases outcome with ⟨refused, -⟩ | ⟨-, zero, out, -, -⟩
      · rw [needed] at refused
        exact absurd refused (Nat.not_lt.mpr wraps.2)
      · rw [if_neg (not_not.mpr zero)] at run
        obtain ⟨-, more, grown⟩ := encodeElems_grows run
        rw [grown, out, List.length_append, List.length_append, length_encode heldHere,
          size] at bounded
        have limit : maxRplySize < 2 ^ 32 := by decide
        omega
    refine ⟨here, fun shorter => ?_⟩
    rcases outcome with ⟨refused, -⟩ | ⟨-, zero, out, total, -⟩
    · exact absurd ((needed_eq heldHere count room here).mpr shorter) (Nat.not_le.mpr refused)
    · rw [if_neg (not_not.mpr zero)] at run
      have length : next.out.length = enc.out.length + elem.size := by
        rw [out, List.length_append, length_encode heldHere]
      have nextCount : next.totalLen.toNat = next.out.length := by
        simp only [maxRplySize] at shorter
        rw [total, length, UInt32.toNat_add, UInt32.toNat_ofNat', count]
        omega
      rw [← length] at shorter ⊢
      exact inductionHypothesis heldLater nextCount shorter run

/-- An accepted element has left its tag and its bytes. -/
theorem encodeElem_accepted {elem : Elem} (held : elem.Held) {enc next : Encoder}
    (step : encodeElem enc elem = .ok (next, 0)) :
    next.type = elem.type ∧ next.out = enc.out ++ elem.encode := by
  obtain ⟨result, ret, same, type, -, outcome⟩ := encodeElem_eq held enc
  rw [step] at same
  cases same
  rcases outcome with ⟨-, tooLong, -⟩ | ⟨-, -, out, -⟩
  · exact absurd tooLong (by decide)
  · exact ⟨type, out⟩

/-- An encoding that refuses nothing appends the bytes of every element. -/
theorem encodeElems_out {elems : List Elem} (held : ∀ elem ∈ elems, elem.Held)
    {enc result : Encoder} (run : encodeElems enc elems = .ok (result, 0)) :
    result.out = enc.out ++ elems.flatMap Elem.encode := by
  induction elems generalizing enc with
  | nil =>
    cases run
    exact (List.append_nil _).symm
  | cons elem rest inductionHypothesis =>
    rcases encodeElems_cons_inv run with ⟨-, refused⟩ | ⟨next, step, later⟩
    · exact absurd rfl refused
    · have out := (encodeElem_accepted (held elem List.mem_cons_self) step).2
      have heldRest := fun other member => held other (List.mem_cons_of_mem elem member)
      rw [inductionHypothesis heldRest later, out, List.flatMap_cons, List.append_assoc]

/-- The tag of the last element, or what the variable held before the loop. -/
def lastType (start : UInt8) (elems : List Elem) : UInt8 :=
  elems.foldl (fun _ elem => elem.type) start

theorem encodeElems_type {elems : List Elem} (held : ∀ elem ∈ elems, elem.Held)
    {enc result : Encoder} (run : encodeElems enc elems = .ok (result, 0)) :
    result.type = lastType enc.type elems := by
  induction elems generalizing enc with
  | nil =>
    cases run
    rfl
  | cons elem rest inductionHypothesis =>
    rcases encodeElems_cons_inv run with ⟨-, refused⟩ | ⟨next, step, later⟩
    · exact absurd rfl refused
    · have type := (encodeElem_accepted (held elem List.mem_cons_self) step).1
      have heldRest := fun other member => held other (List.mem_cons_of_mem elem member)
      rw [inductionHypothesis heldRest later, type]
      rfl

/-- A successful reply has encoded everything. -/
theorem createArrReply_ok {env : Env} {sh after : Shared} {arrType : UInt8}
    (held : ∀ elem ∈ sh.elems, elem.Held)
    (built : createArrReply env sh arrType = .ok (after, 0)) :
    ∃ enc, encodeArr env sh = .ok (enc, 0) ∧ after = sh.announced enc arrType ∧
      enc.out = sh.elems.flatMap Elem.encode ++ [strEnd] ∧
        enc.type = lastType env.stack sh.elems := by
  obtain ⟨enc, encoded, -, ⟨refused, -⟩ | ⟨-, same⟩⟩ := createArrReply_inv built
  · exact absurd rfl refused
  · refine ⟨enc, encoded, same, ?_⟩
    rcases encodeArr_inv encoded with ⟨-, refused⟩ | ⟨-, last, run, rfl⟩
    · exact absurd rfl refused
    · exact ⟨congrArg (· ++ [strEnd]) (encodeElems_out held run), encodeElems_type held run⟩

/-- The encoding and its ending tag stay within the limit, and a successful reply announces exactly
the bytes written. -/
def BoundedReply (env : Env) (sh : Shared) (arrType : UInt8) : Prop :=
  ∃ enc ret, encodeArr env sh = .ok (enc, ret) ∧ enc.out.length ≤ maxRplySize ∧
    ∃ after, createArrReply env sh arrType = .ok (after, ret) ∧
      (ret = 0 ∧ after.curr.len.toNat = enc.out.length ∨ ret = eTooLong)

theorem createArrReply_of_encoded {env : Env} {sh : Shared} {enc : Encoder} (arrType : UInt8)
    (encoded : encodeArr env sh = .ok (enc, 0)) (fits : ¬ maxRplySize < enc.out.length) :
    createArrReply env sh arrType = .ok (sh.announced enc arrType, 0) := by
  rw [createArrReply, encoded]
  exact (if_neg fits).trans (if_neg (not_not.mpr rfl))

theorem boundedReply_of_noWrap (env : Env) (sh : Shared) (arrType : UInt8)
    (held : ∀ elem ∈ sh.elems, elem.Held) (unwrapped : NoWrap 0 sh.elems) :
    BoundedReply env sh arrType := by
  have start : (sh.encoder env).out.length < maxRplySize := (by decide : 0 < maxRplySize)
  obtain ⟨enc, ret, run, room, answer⟩ := encodeElems_bounded held
    (show (sh.encoder env).totalLen.toNat = (sh.encoder env).out.length from rfl) start unwrapped
  rcases answer with ⟨zero, count⟩ | tooLong
  · have written : (enc.out ++ [strEnd]).length = enc.out.length + 1 := List.length_append
    have total : (enc.totalLen + 1).toNat = enc.out.length + 1 := by
      rw [UInt32.toNat_add, count]
      exact Nat.mod_eq_of_lt (Nat.lt_trans (Nat.succ_lt_succ room) (by decide))
    have encoded : encodeArr env sh =
        .ok ({ enc with out := enc.out ++ [strEnd], totalLen := enc.totalLen + 1 }, 0) := by
      rw [encodeArr, run]
      exact if_neg (not_not.mpr zero)
    have fits : ¬ maxRplySize < (enc.out ++ [strEnd]).length := by
      rw [written]
      exact Nat.not_lt.mpr room
    exact ⟨_, _, encoded, Nat.le_of_not_lt fits, _, createArrReply_of_encoded arrType encoded fits,
      Or.inl ⟨rfl, total.trans written.symm⟩⟩
  · have encoded : encodeArr env sh = .ok (enc, ret) := by
      rw [encodeArr, run]
      exact if_pos (by rw [tooLong]; decide)
    have refused : createArrReply env sh arrType = .ok (sh.written enc, ret) := by
      rw [createArrReply, encoded]
      exact (if_neg (Nat.not_lt.mpr (Nat.le_of_lt room))).trans
        (if_pos (by rw [tooLong]; decide))
    exact ⟨_, _, encoded, Nat.le_of_lt room, _, refused, Or.inr tooLong⟩

/-- An encoding within the limit wraps no sum around. -/
theorem noWrap_of_encodeArr {env : Env} {sh : Shared} (held : ∀ elem ∈ sh.elems, elem.Held)
    {enc : Encoder} {ret : Int} (encoded : encodeArr env sh = .ok (enc, ret))
    (bounded : enc.out.length ≤ maxRplySize) : NoWrap 0 sh.elems := by
  have start : (sh.encoder env).out.length < maxRplySize := (by decide : 0 < maxRplySize)
  have count : (sh.encoder env).totalLen.toNat = (sh.encoder env).out.length := rfl
  rcases encodeArr_inv encoded with ⟨run, -⟩ | ⟨-, last, run, rfl⟩
  · exact noWrap_of_bounded held count start run bounded
  · have shorter : last.out.length ≤ (last.out ++ [strEnd]).length := by
      rw [List.length_append]
      exact Nat.le_add_right _ _
    exact noWrap_of_bounded held count start run (Nat.le_trans shorter bounded)

theorem noWrap_of_boundedReply {env : Env} {sh : Shared} {arrType : UInt8}
    (held : ∀ elem ∈ sh.elems, elem.Held) (reply : BoundedReply env sh arrType) :
    NoWrap 0 sh.elems := by
  obtain ⟨enc, ret, encoded, bounded, -⟩ := reply
  exact noWrap_of_encodeArr held encoded bounded

/-- For elements whose areas hold their bytes, the reply stays within the limit exactly when no
32-bit sum of a total and a length wraps around and still passes the test. -/
theorem createArrReply_bounded_iff (env : Env) (sh : Shared) (arrType : UInt8)
    (held : ∀ elem ∈ sh.elems, elem.Held) :
    BoundedReply env sh arrType ↔ NoWrap 0 sh.elems :=
  ⟨noWrap_of_boundedReply held, boundedReply_of_noWrap env sh arrType held⟩

/-- A short string and an empty one in the reply array. -/
def shortElems : List Elem :=
  [⟨some ⟨0, 1, 21, List.replicate 23 65⟩, strNormal⟩, ⟨none, strNil⟩]

/-- A shared state as `server_init` leaves it, with a reply array. -/
def Shared.holding (elems : List Elem) : Shared :=
  addAll
    { curr := { replyType := 0, arrNum := 0, len := 0, data := [] }
      replyArr := fun _ => none
      arrEleType := fun _ => 0
      rplyArrLen := 0
      released := []
      stale := [] } elems

theorem elems_holding {elems : List Elem} (few : elems.length < 256) :
    (Shared.holding elems).elems = elems := by
  rw [Shared.holding, elems_addAll_of_room _ _ ((Nat.zero_add _).symm ▸ few)]
  rfl

theorem createArrReply_bounded_short :
    (∀ elem ∈ (Shared.holding shortElems).elems, elem.Held) ∧
      (BoundedReply Env.plain (Shared.holding shortElems) rplyArr ↔
        NoWrap 0 (Shared.holding shortElems).elems) := by
  have held : ∀ elem ∈ (Shared.holding shortElems).elems, elem.Held := by
    rw [elems_holding (by decide)]
    rintro elem (_ | ⟨_, _ | ⟨_, ⟨⟩⟩⟩)
    · exact fun _ => ⟨_, rfl, by decide⟩
    · exact fun string => absurd string (by decide)
  exact ⟨held, createArrReply_bounded_iff Env.plain _ rplyArr held⟩

/-- An empty string, and one that `SETBIT` has grown to five bytes less than `2 ^ 32`. -/
def wrappingElems : List Elem :=
  [⟨some ⟨0, 0, 22, List.replicate 23 0⟩, strNormal⟩,
    ⟨some ⟨1, 4294967291, 0, List.replicate 4294967292 0⟩, strNormal⟩]

/-- The sum of the two lengths and the tags is `2 ^ 32`: the test is passed and the area left. -/
theorem createArrReply_unbounded :
    (∀ elem ∈ (Shared.holding wrappingElems).elems, elem.Held) ∧
      ¬ BoundedReply Env.plain (Shared.holding wrappingElems) rplyArr := by
  have same : (Shared.holding wrappingElems).elems = wrappingElems := elems_holding (by decide)
  have held : ∀ elem ∈ (Shared.holding wrappingElems).elems, elem.Held := by
    rw [same]
    rintro elem (_ | ⟨_, _ | ⟨_, ⟨⟩⟩⟩)
    · exact fun _ => ⟨_, rfl, by decide⟩
    · exact fun _ => ⟨_, rfl, by rw [List.length_replicate]; decide⟩
  refine ⟨held, fun bounded => ?_⟩
  have unwrapped := noWrap_of_boundedReply held bounded
  rw [same] at unwrapped
  rcases (unwrapped.2 (by decide)).1 (by decide) _ rfl with sum | test
  · exact absurd sum (by decide)
  · exact absurd test (by decide)

end PseudoRedis

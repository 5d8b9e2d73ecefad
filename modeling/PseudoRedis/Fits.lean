/-
This file says which reply arrays are encoded and what the client is sent of them. An
array fits when every string in it can be read and the true size of the encoding is
within the limit: then and only then `create_arr_reply` succeeds, and the data it
announces is the encoding of all elements. Whether it succeeds depends on nothing but
the elements.
-/

import PseudoRedis.ReplyArr

namespace PseudoRedis

/-- Every string can be read, and the elements with the ending tag fit the data of a reply. -/
structure Fits (elems : List Elem) : Prop where
  held : ∀ elem ∈ elems, elem.Held
  size : (elems.map Elem.size).sum < maxRplySize

/-! ### From a reply to the elements -/

/-- An element that is encoded can be read. -/
theorem held_of_encodeElem {elem : Elem} {enc result : Encoder}
    (encoded : encodeElem enc elem = .ok (result, 0)) : elem.Held := by
  intro string
  have notNil : ¬ (strNil &&& elem.type ≠ 0) := not_not.mpr string
  simp only [encodeElem, if_neg notNil] at encoded
  cases points : elem.bss with
  | none =>
    rw [points] at encoded
    cases encoded
  | some bss =>
    rw [points] at encoded
    simp only at encoded
    split at encoded
    · have code : eTooLong = 0 := congrArg Prod.snd (Except.ok.inj encoded)
      exact absurd code (by decide)
    · split at encoded
      · cases encoded
      · rename_i inside
        rw [UInt32.toNat_ofNat'] at inside
        exact ⟨bss, rfl, Nat.not_lt.mp inside⟩

theorem held_of_encodeElems {elems : List Elem} {enc result : Encoder}
    (run : encodeElems enc elems = .ok (result, 0)) : ∀ elem ∈ elems, elem.Held := by
  induction elems generalizing enc with
  | nil =>
    intro elem member
    cases member
  | cons elem rest inductionHypothesis =>
    rcases encodeElems_cons_inv run with ⟨-, refused⟩ | ⟨next, step, later⟩
    · exact absurd rfl refused
    · intro other member
      rcases List.mem_cons.mp member with rfl | inRest
      · exact held_of_encodeElem step
      · exact inductionHypothesis later other inRest

/-- What a reply that was built is made of. -/
theorem encodeArr_of_built {env : Env} {sh after : Shared} {arrType : UInt8}
    (built : createArrReply env sh arrType = .ok (after, 0)) :
    (∀ elem ∈ sh.elems, elem.Held) ∧ NoWrap 0 sh.elems := by
  obtain ⟨enc, encoded, inside, -⟩ := createArrReply_inv built
  have held : ∀ elem ∈ sh.elems, elem.Held := by
    rcases encodeArr_inv encoded with ⟨-, refused⟩ | ⟨-, last, run, -⟩
    · exact absurd rfl refused
    · exact held_of_encodeElems run
  exact ⟨held, noWrap_of_encodeArr held encoded inside⟩

theorem announced_len {env : Env} {sh after : Shared} {arrType : UInt8}
    (built : createArrReply env sh arrType = .ok (after, 0)) :
    ∃ enc : Encoder, after = sh.announced enc arrType ∧
      enc.out = sh.elems.flatMap Elem.encode ++ [strEnd] ∧
      enc.type = lastType env.stack sh.elems ∧
      after.curr.len.toNat = enc.out.length ∧ enc.out.length ≤ maxRplySize := by
  obtain ⟨held, unwrapped⟩ := encodeArr_of_built built
  obtain ⟨enc, encoded, announced, out, type⟩ := createArrReply_ok held built
  obtain ⟨other, ret, same, fits, reply, rebuilt, count⟩ :=
    boundedReply_of_noWrap env sh arrType held unwrapped
  rw [encoded] at same
  cases same
  rw [built] at rebuilt
  cases rebuilt
  rcases count with ⟨-, size⟩ | tooLong
  · exact ⟨enc, announced, out, type, size, fits⟩
  · exact absurd tooLong (by decide)

/-- The data a successful array reply announces is the encoding of its elements. -/
theorem announced_data {env : Env} {sh after : Shared} {arrType : UInt8}
    (built : createArrReply env sh arrType = .ok (after, 0)) :
    after.curr.replyType = arrType ∧
      after.curr.data.take after.curr.len.toNat = sh.elems.flatMap Elem.encode ++ [strEnd] := by
  obtain ⟨enc, announced, out, -, size, -⟩ := announced_len built
  refine ⟨congrArg (fun sh => sh.curr.replyType) announced, ?_⟩
  rw [size, ← out, announced]
  exact List.take_left

/-- The number of elements the header announces. -/
def announcedNum (env : Env) (elems : List Elem) : UInt32 :=
  if rplyArr = lastType env.stack elems then UInt32.ofNat elems.length
  else UInt32.ofNat elems.length - 1

/-- The header and the data of a reply with these elements. -/
def arrayWire (env : Env) (arrType : UInt8) (elems : List Elem) : Bytes :=
  arrType :: littleEndian32 (announcedNum env elems).toNat ++
    littleEndian32 (elems.flatMap Elem.encode ++ [strEnd]).length ++
      (elems.flatMap Elem.encode ++ [strEnd])

theorem arrNum_of_built {env : Env} {sh after : Shared} {arrType : UInt8}
    (built : createArrReply env sh arrType = .ok (after, 0)) :
    after.curr.arrNum = announcedNum env sh.elems := by
  obtain ⟨enc, announced, -, type, -⟩ := announced_len built
  rw [announced, announcedNum, length_elems, ← type]
  rfl

/-- What is sent of a successful array reply depends on the elements alone. -/
theorem wire_of_built {env : Env} {sh after : Shared} {arrType : UInt8}
    (built : createArrReply env sh arrType = .ok (after, 0)) :
    after.curr.wire = arrayWire env arrType sh.elems := by
  obtain ⟨enc, -, out, -, size, -⟩ := announced_len built
  obtain ⟨replied, data⟩ := announced_data built
  rw [Reply.wire, replied, arrNum_of_built built, data, size, out, arrayWire]

/-! ### From the elements to a reply -/

theorem length_flatMap_encode {elems : List Elem} (held : ∀ elem ∈ elems, elem.Held) :
    (elems.flatMap Elem.encode).length = (elems.map Elem.size).sum := by
  rw [List.length_flatMap]
  exact congrArg List.sum (List.map_congr_left fun elem member => length_encode (held elem member))

theorem noWrap_of_size {elems : List Elem} {total : Nat}
    (small : total + (elems.map Elem.size).sum < maxRplySize) : NoWrap total elems := by
  induction elems generalizing total with
  | nil => trivial
  | cons elem rest inductionHypothesis =>
    rw [List.map_cons, List.sum_cons, ← Nat.add_assoc] at small
    refine ⟨fun string bss points => Or.inl ?_, fun _ => inductionHypothesis small⟩
    have size : elem.size = bss.len % 2 ^ 32 + sizeTl := by
      rw [Elem.size, if_neg (not_not.mpr string), points, Option.elim_some]
    have limit : maxRplySize < 2 ^ 32 := by decide
    omega

theorem fits_of_built {env : Env} {sh after : Shared} {arrType : UInt8}
    (built : createArrReply env sh arrType = .ok (after, 0)) : Fits sh.elems := by
  obtain ⟨held, -⟩ := encodeArr_of_built built
  obtain ⟨enc, -, out, -, -, bounded⟩ := announced_len built
  refine ⟨held, ?_⟩
  rw [out, List.length_append, length_flatMap_encode held] at bounded
  exact bounded

theorem encodeElems_of_size {elems : List Elem} (held : ∀ elem ∈ elems, elem.Held)
    {enc : Encoder} (count : enc.totalLen.toNat = enc.out.length)
    (small : enc.out.length + (elems.map Elem.size).sum < maxRplySize) :
    ∃ result, encodeElems enc elems = .ok (result, 0) := by
  induction elems generalizing enc with
  | nil => exact ⟨enc, rfl⟩
  | cons elem rest inductionHypothesis =>
    have unwrapped := (noWrap_of_size small).1
    rw [List.map_cons, List.sum_cons, ← Nat.add_assoc] at small
    have heldHere := held elem List.mem_cons_self
    have room : enc.out.length < maxRplySize := by omega
    have here : enc.out.length + elem.size < maxRplySize := by omega
    have accepted := (needed_eq heldHere count room unwrapped).mpr here
    obtain ⟨next, ret, step, -, -, refused | taken⟩ := encodeElem_eq heldHere enc
    · exact absurd accepted (Nat.not_le.mpr refused.1)
    · obtain ⟨-, zero, out, total, -⟩ := taken
      have length : next.out.length = enc.out.length + elem.size := by
        rw [out, List.length_append, length_encode heldHere]
      have nextCount : next.totalLen.toNat = next.out.length := by
        have limit : maxRplySize < 2 ^ 32 := by decide
        rw [total, length, UInt32.toNat_add, UInt32.toNat_ofNat', count]
        omega
      rw [← length] at small
      obtain ⟨result, run⟩ := inductionHypothesis
        (fun later member => held later (List.mem_cons_of_mem _ member)) nextCount small
      refine ⟨result, ?_⟩
      rw [encodeElems, step]
      exact (if_neg (not_not.mpr zero)).trans run

theorem built_of_fits (env : Env) {sh : Shared} (arrType : UInt8) (fits : Fits sh.elems) :
    ∃ after, createArrReply env sh arrType = .ok (after, 0) := by
  have size := fits.size
  obtain ⟨enc, run⟩ := encodeElems_of_size fits.held
    (show (sh.encoder env).totalLen.toNat = (sh.encoder env).out.length from rfl)
    (show 0 + _ < maxRplySize by rwa [Nat.zero_add])
  have encoded : encodeArr env sh =
      .ok ({ enc with out := enc.out ++ [strEnd], totalLen := enc.totalLen + 1 }, 0) := by
    rw [encodeArr, run]
    exact if_neg (not_not.mpr rfl)
  have bounded : ¬ maxRplySize < (enc.out ++ [strEnd]).length := by
    rw [encodeElems_out fits.held run, List.length_append, List.length_append,
      length_flatMap_encode fits.held]
    exact Nat.not_lt.mpr (by show 0 + _ + 1 ≤ _; omega)
  exact ⟨_, createArrReply_of_encoded arrType encoded bounded⟩

/-- A reply array is encoded exactly if it fits. -/
theorem built_iff_fits (env : Env) (sh : Shared) (arrType : UInt8) :
    (∃ after, createArrReply env sh arrType = .ok (after, 0)) ↔ Fits sh.elems :=
  ⟨fun ⟨_, built⟩ => fits_of_built built, built_of_fits env arrType⟩

end PseudoRedis

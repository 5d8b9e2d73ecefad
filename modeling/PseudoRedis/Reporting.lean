/-
This file connects the answers of the ledger to replies. What a reply says is its type and
its data, and for an array the number in the header. A string that is too long for a reply
and an array that does not fit are answered with `TOO_LONG`, and of an array with more than
255 elements only those behind the last multiple of 256 are sent, because the counter of
the reply array is a byte.
-/

import PseudoRedis.HashReplies
import PseudoRedis.Independence
import PseudoRedis.Ledger

namespace PseudoRedis

/-! ### What is said -/

/-- The reply to whatever does not fit. -/
def tooLongSaid : UInt8 × Bytes := (rplyFail, bytes tooLong)

/-- The type and the data of the reply. -/
def Told.said : Told → UInt8 × Bytes
  | .number n => (rplyInt, bigEndian64 n)
  | .text data => if maxRplySize < data.length then tooLongSaid else (rplyString, data)
  | .ok => (rplyOk, [])
  | .nil => (rplyNil, [])
  | .type n => (rplyType, [n])
  | .error s => (rplyFail, bytes s)
  | .array entries =>
      if FitReply (leftover entries) then
        (rplyArr, (leftover entries).flatMap encodeValue ++ [strEnd])
      else tooLongSaid

/-- A reply says this, and its data are as long as announced. -/
structure Told.SaidIn (told : Told) (reply : Reply) : Prop where
  said : reply.said = told.said
  whole : reply.len.toNat ≤ reply.data.length
  count : ∀ entries, told = .array entries → reply.replyType = rplyArr → leftover entries ≠ [] →
    reply.arrNum = UInt32.ofNat (leftover entries).length - 1

variable {V : Type} {env : Env} {dict : Dict V} {told : Told}

/-- A handler leaves this dictionary and a reply that says this, or has `TOO_LONG` said. -/
def Reports (run : Run V) (dict : Dict V) (told : Told) : Prop :=
  ∀ sh, ∃ sh' ret, run sh = .ok ⟨dict, sh', ret⟩ ∧
    (ret = 0 ∧ told.SaidIn sh'.curr ∨ ret = eTooLong ∧ told.said = tooLongSaid)

/-! ### Replies without elements -/

/-- The data of an answer stand in front of those of the reply before. -/
theorem said_of_answer (sh : Shared) (type : UInt8) {data : Bytes} (small : data.length < 2 ^ 32) :
    (sh.answer type data).curr.said = (type, data) := by
  show (type, (data ++ sh.curr.data.drop data.length).take (UInt32.ofNat data.length).toNat) = _
  rw [UInt32.toNat_ofNat', Nat.mod_eq_of_lt small, List.take_left]

/-- They are all there. -/
theorem answer_whole (sh : Shared) (type : UInt8) {data : Bytes} (small : data.length < 2 ^ 32) :
    (sh.answer type data).curr.len.toNat ≤ (sh.answer type data).curr.data.length := by
  show (UInt32.ofNat data.length).toNat ≤ (data ++ sh.curr.data.drop data.length).length
  rw [UInt32.toNat_ofNat', Nat.mod_eq_of_lt small, List.length_append]
  exact Nat.le_add_right _ _

/-- An answer without elements says what it was made of. -/
theorem saidIn_of_answer (sh : Shared) {type : UInt8} {data : Bytes} (small : data.length < 2 ^ 32)
    (same : told.said = (type, data)) (other : type ≠ rplyArr) :
    told.SaidIn (sh.answer type data).curr :=
  ⟨(said_of_answer sh type small).trans same.symm, answer_whole sh type small,
    fun _ _ array => absurd array other⟩

/-- A handler that answers without elements reports it. -/
theorem reports_answer {type : UInt8} {data : Bytes} (small : data.length < 2 ^ 32)
    (same : told.said = (type, data)) (other : type ≠ rplyArr) :
    Reports (replying dict fun sh => (sh.answer type data, 0)) dict told := fun sh =>
  ⟨_, _, rfl, Or.inl ⟨rfl, saidIn_of_answer sh small same other⟩⟩

theorem reports_int (dict : Dict V) (n : Int) : Reports (intReply dict n) dict (.number n) :=
  reports_answer (show (8 : Nat) < 2 ^ 32 by decide) rfl (by decide)

theorem reports_ok (dict : Dict V) : Reports (okReply dict) dict .ok :=
  reports_answer (show (0 : Nat) < 2 ^ 32 by decide) rfl (by decide)

theorem reports_nil (dict : Dict V) : Reports (nilReply dict) dict .nil :=
  reports_answer (show (0 : Nat) < 2 ^ 32 by decide) rfl (by decide)

theorem reports_type (dict : Dict V) (n : UInt8) : Reports (typeReply dict n) dict (.type n) :=
  reports_answer (show (1 : Nat) < 2 ^ 32 by decide) rfl (by decide)

/-- The texts of errors are short. -/
theorem reports_fail (dict : Dict V) (s : String) [known : ErrorText s] :
    Reports (failReply dict s) dict (.error s) := by
  rw [failReply_eq]
  exact reports_answer (Nat.lt_of_le_of_lt known.short (by decide)) rfl (by decide)

/-- The first bytes of an area. -/
theorem reports_take (dict : Dict V) {s : Bytes} {len : Nat} (inside : len ≤ s.length) :
    Reports (stringReply dict s len) dict (.text (s.take len)) := by
  intro sh
  have length : (s.take len).length = len := by rw [List.length_take, Nat.min_eq_left inside]
  have text : (Told.text (s.take len)).said =
      if maxRplySize < len then tooLongSaid else (rplyString, s.take len) := by
    rw [Told.said, length]
  by_cases long : maxRplySize < len
  · refine ⟨sh, eTooLong, ?_, Or.inr ⟨rfl, text.trans (if_pos long)⟩⟩
    rw [stringReply, createStrReply, if_pos long]
  · have small : (s.take len).length < 2 ^ 32 := by
      rw [length]
      exact Nat.lt_of_le_of_lt (Nat.not_lt.mp long) (by decide)
    refine ⟨sh.answer rplyString (s.take len), 0, ?_, Or.inl ⟨rfl,
      saidIn_of_answer sh small (text.trans (if_neg long)) (by decide)⟩⟩
    rw [stringReply, createStrReply, if_neg long]
    by_cases none : len = 0
    · rw [if_pos none, none, List.take_zero]
      rfl
    · rw [if_neg none, if_neg (Nat.not_lt.mpr inside)]
      rfl

theorem reports_string (dict : Dict V) {bss : Bss} (short : bss.Short) :
    Reports (stringReply dict bss.str bss.len) dict (.text bss.content) :=
  reports_take dict short.len_le

/-! ### Arrays -/

variable {elems : List Elem} {entries : List (Option Bytes)}

/-- Elements are numbered with the tag of the last one, which is none of an array. -/
theorem lastType_of_shows (start : UInt8) (shows : List.Forall₂ ElemShows elems entries)
    (some : entries ≠ []) : rplyArr ≠ lastType start elems := by
  induction shows generalizing start with
  | nil => exact absurd rfl some
  | @cons elem entry elems entries first rest inductionHypothesis =>
    rw [lastType, List.foldl_cons]
    cases rest with
    | nil =>
      cases entry with
      | none =>
        cases first
        exact (by decide : rplyArr ≠ strNil)
      | some data =>
        obtain ⟨bss, rfl, -⟩ := first
        exact (by decide : rplyArr ≠ strNormal)
    | cons second others => exact inductionHypothesis _ (List.cons_ne_nil _ _)

/-- An array reply is the encoding of the array. -/
theorem built_of_replied {env : Env} {dict : Dict V} {sh sh' : Shared} {ret : Int}
    (replied : arrReply env dict sh = .ok ⟨dict, sh', ret⟩) :
    createArrReply env sh rplyArr = .ok (sh', ret) := by
  rw [arrReply, arrayReply] at replied
  cases built : createArrReply env sh rplyArr with
  | error stop =>
    rw [built] at replied
    cases replied
  | ok answer =>
    rw [built] at replied
    cases replied
    rfl

theorem built_whole {env : Env} {sh after : Shared} {arrType : UInt8}
    (built : createArrReply env sh arrType = .ok (after, 0)) :
    after.curr.len.toNat ≤ after.curr.data.length := by
  obtain ⟨enc, announced, -, -, size, -⟩ := announced_len built
  rw [size, announced]
  show enc.out.length ≤ (enc.out ++ sh.curr.data.drop enc.out.length).length
  rw [List.length_append]
  exact Nat.le_add_right _ _

/-- The array of elements that stand for the entries. -/
theorem reports_fill (env : Env) (dict : Dict Obj) {fill : Shared → Shared × Int}
    (shows : List.Forall₂ ElemShows elems entries)
    (fills : ∀ sh, fill (resetReplyArr sh) = (addAll (resetReplyArr sh) elems, 0)) :
    Reports (fillReply env dict fill) dict (.array entries) := by
  intro sh
  have left : List.Forall₂ ElemShows (addAll (resetReplyArr sh) elems).elems
      (leftover entries) := by
    rw [elems_fill, leftover, shows.length_eq]
    exact List.forall₂_drop _ shows
  have ran : fillReply env dict fill sh = arrReply env dict (addAll (resetReplyArr sh) elems) := by
    rw [fillReply, fills]
    exact if_neg (not_not.mpr rfl)
  obtain ⟨⟨after, sh', ret⟩, replied, same, fit, misfit⟩ := arrReply_shows env dict left
  cases (show after = dict from same)
  by_cases room : FitReply (leftover entries)
  · obtain ⟨zero, type, data⟩ := fit room
    cases (show ret = 0 from zero)
    refine ⟨sh', 0, ran.trans replied, Or.inl ⟨rfl, ?_, built_whole (built_of_replied replied), ?_⟩⟩
    · rw [Reply.said, type, data, Told.said, if_pos room]
    · rintro _ ⟨⟩ - some
      rw [arrNum_of_built (built_of_replied replied), announcedNum,
        if_neg (lastType_of_shows env.stack left some), left.length_eq]
  · exact ⟨sh', ret, ran.trans replied, Or.inr ⟨misfit room, by rw [Told.said, if_neg room]⟩⟩

/-! ### Runs inside other runs -/

theorem Reports.after {run : Run V} (reports : Reports run dict told) (edit : Shared → Shared) :
    Reports (fun sh => run (edit sh)) dict told := fun sh => reports (edit sh)

/-- What the client is sent in the end. -/
theorem Reports.served {run : Run Obj} {keyDict : Dict Obj} (reports : Reports run keyDict told)
    {type : UInt8} (direct : type ≠ blocked) (isNew : Bool) (sh : Shared) :
    ∃ sh', run.andThen (finishRequest env type isNew) sh = .ok ⟨keyDict, sh', 0⟩ ∧
      told.SaidIn sh'.curr := by
  obtain ⟨sh', ret, ran, ⟨rfl, said⟩ | ⟨rfl, long⟩⟩ := reports sh
  · exact ⟨sh', served_answered direct ran, said⟩
  · exact ⟨sh'.answer rplyFail (bytes tooLong), served_tooLong ran,
      saidIn_of_answer sh' (by decide) long (by decide)⟩

end PseudoRedis

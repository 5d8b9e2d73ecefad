/-
This file is about what a request depends on. The buffer a request is read into still
holds the requests before it, and the length of the request string is the one the client
declares. What is received decides the command, the arguments and the copy kept for the
pending list as long as the declared length does not exceed what was received.
-/

import PseudoRedis.Framing
import PseudoRedis.Tokenizer

namespace PseudoRedis

/-! ### What is received -/

/-- The declared length in a message that holds a header. -/
def declaredLen (chunk : Bytes) : Nat := (readLittleEndian32 ((chunk.drop 20).take 4)).getD 0

/-- The bytes received behind the header. -/
def receivedData (chunk : Bytes) : Bytes := chunk.drop sizeofRequest

theorem slice_received (buffer : Buffer) {chunk : Bytes} {offset count : Nat}
    (inside : offset + count ≤ chunk.length) :
    (buffer.overlay chunk).slice offset count = (chunk.drop offset).take count := by
  have front : (chunk.take offset).length = offset := by
    rw [List.length_take, Nat.min_eq_left (by omega)]
  have part : ((chunk.drop offset).take count).length = count := by
    rw [List.length_take, List.length_drop, Nat.min_eq_left (by omega)]
  have cut := slice_overlay buffer (chunk.take offset) ((chunk.drop offset).take count)
    ((chunk.drop offset).drop count)
  rwa [List.append_assoc, List.take_append_drop, List.take_append_drop, front, part] at cut

variable {chunk : Bytes} (header : sizeofRequest ≤ chunk.length)
include header

theorem command_received (buffer : Buffer) (fd : Nat) :
    ((buffer.overlay chunk).request fd).command = chunk.take 16 :=
  @slice_received buffer chunk 0 16 (Nat.le_trans (by decide) header)

theorem len_received (buffer : Buffer) (fd : Nat) :
    ((buffer.overlay chunk).request fd).len = declaredLen chunk := by
  show (readLittleEndian32 ((buffer.overlay chunk).slice 20 4)).getD 0 = _
  rw [slice_received buffer header, declaredLen]

/-- A declared length that does not exceed what was received fits the buffer. -/
theorem data_received (buffer : Buffer) (fd : Nat)
    (small : chunk.length ≤ sizeofRequest + inBufSize)
    (declared : declaredLen chunk ≤ (receivedData chunk).length) :
    ((buffer.overlay chunk).request fd).data = (receivedData chunk).take (declaredLen chunk) := by
  rw [receivedData, List.length_drop] at declared
  have word : (buffer.overlay chunk).word 20 = declaredLen chunk := len_received header buffer fd
  show (buffer.overlay chunk).slice 24 (min ((buffer.overlay chunk).word 20) inBufSize) = _
  have limit : sizeofRequest = 24 := rfl
  rw [word, Nat.min_eq_left (by omega), slice_received buffer (by omega)]
  rfl

/-- Then the whole request is what was received. -/
theorem request_received (first second : Buffer) (fd : Nat)
    (small : chunk.length ≤ sizeofRequest + inBufSize)
    (declared : declaredLen chunk ≤ (receivedData chunk).length) :
    (first.overlay chunk).request fd = (second.overlay chunk).request fd := by
  have commands := (command_received header first fd).trans (command_received header second fd).symm
  have lens := (len_received header first fd).trans (len_received header second fd).symm
  have datas := (data_received header first fd small declared).trans
    (data_received header second fd small declared).symm
  have same (one other : Request) (command : one.command = other.command)
      (client : one.clientId = other.clientId) (len : one.len = other.len)
      (data : one.data = other.data) : one = other := by
    cases one
    cases other
    cases command
    cases client
    cases len
    cases data
    rfl
  exact same _ _ commands rfl lens datas

/-- Serving it does not depend on what the buffer held before. -/
theorem input_received (server : Server) (before : Buffer) (fd origin : Nat) (moment : Moment)
    (small : chunk.length ≤ sizeofRequest + inBufSize)
    (declared : declaredLen chunk ≤ (receivedData chunk).length) :
    (server.buffered before).input fd origin moment chunk =
      rebuffered (before.overlay chunk) (server.input fd origin moment chunk) := by
  have same := request_received header before server.currRequest fd small declared
  show (({ server with currRequest := server.currRequest.overlay chunk } : Server).buffered
    (before.overlay chunk)).serve origin moment ((before.overlay chunk).request fd) = _
  rw [serve_buffered, same]
  rfl

omit header

/-! ### Isolation -/

/-- What comes of a message in a buffer: its command is the one received, and if it is found, the
arguments and the copy for the pending list do not depend on what the buffer held before, nor does
`parse_args` read more than was received. -/
structure Isolated (env : Env) (next fd : Nat) (chunk : Bytes) : Prop where
  command : ∀ buffer : Buffer, ((buffer.overlay chunk).request fd).command = chunk.take 16
  parsed : ∀ entry, findCommand (chunk.take 16) = some entry →
    ∃ args ret copy, ∀ buffer : Buffer,
      ScanEnds env next ((buffer.overlay chunk).request fd).data
        ((buffer.overlay chunk).request fd).len (.ok (args, ret)) ∧
      ScanEnds env next (receivedData chunk) ((buffer.overlay chunk).request fd).len
        (.ok (args, ret)) ∧
      ((buffer.overlay chunk).request fd).dup = copy

/-- The request string was received, and the array of the arguments holds its tokens. -/
def WholeString (chunk : Bytes) : Prop :=
  declaredLen chunk ≤ (receivedData chunk).length ∧
    FitsArgs ((receivedData chunk).take (declaredLen chunk))

/-- A message is isolated from those before it exactly if its command is not found, so that nothing
else of it is looked at, or its whole string was received and fits the array. -/
theorem request_isolated_iff (env : Env) (next fd : Nat) (chunk : Bytes)
    (header : sizeofRequest ≤ chunk.length)
    (small : chunk.length ≤ sizeofRequest + inBufSize) :
    Isolated env next fd chunk ↔ findCommand (chunk.take 16) = none ∨ WholeString chunk := by
  constructor
  · intro isolated
    cases found : findCommand (chunk.take 16) with
    | none => exact Or.inl rfl
    | some entry =>
      obtain ⟨args, ret, copy, same⟩ := isolated.parsed entry found
      obtain ⟨-, ends, -⟩ := same fun _ => 0
      rw [len_received header] at ends
      have declared : declaredLen chunk ≤ (receivedData chunk).length := by
        by_contra beyond
        have parsed := parseArgs_of_scanEnds ends
        rw [parseArgs, if_pos (Nat.not_le.mp beyond)] at parsed
        cases parsed
      exact Or.inr ⟨declared, fun tokens isOpen read =>
        ((scanEnds_iff declared read env next args ret).mp ends).1⟩
  · intro whole
    refine ⟨fun buffer => command_received header buffer fd, fun entry found => ?_⟩
    obtain ⟨declared, fits⟩ : WholeString chunk := by
      refine whole.resolve_left fun missing => ?_
      rw [found] at missing
      cases missing
    obtain ⟨tokens, isOpen, read⟩ :=
      exists_tokenization ((receivedData chunk).take (declaredLen chunk))
    refine ⟨createArgs env next (tokens.map Token.body), if isOpen then eInvArgs else 0,
      ((Buffer.overlay (fun _ => 0) chunk).request fd).dup, fun buffer => ?_⟩
    have ends := (scanEnds_iff declared read env next _ _).mpr ⟨fits tokens isOpen read, rfl, rfl⟩
    have length : ((receivedData chunk).take (declaredLen chunk)).length = declaredLen chunk := by
      rw [List.length_take, Nat.min_eq_left declared]
    have own := (scanEnds_append read env next [] _ _).mpr ⟨fits tokens isOpen read, rfl, rfl⟩
    rw [List.append_nil, length] at own
    rw [len_received header, data_received header buffer fd small declared]
    exact ⟨own, ends, congrArg Request.dup (request_received header buffer _ fd small declared)⟩

/-- `GET a`, received as a whole. -/
theorem request_isolated_iff_get :
    Isolated Env.plain 0 5 (textRequest "get" "a" (by decide)).wire := by
  have fits : FitsArgs ((receivedData (textRequest "get" "a" (by decide)).wire).take
      (declaredLen (textRequest "get" "a" (by decide)).wire)) :=
    fun tokens isOpen read => Nat.le_trans read.length_le (by decide)
  exact (request_isolated_iff Env.plain 0 5 (textRequest "get" "a" (by decide)).wire (by decide)
    (by decide)).mpr (Or.inr ⟨by decide, fits⟩)

/-- The header of a `GET` that declares one byte, without that byte. -/
def cutMessage : Bytes :=
  (textRequest "get" "" (by decide)).command ++ littleEndian32 0 ++ littleEndian32 1

/-- Its argument is what the buffer held before. -/
theorem cutMessage_parsed (char : UInt8) (plain : char = 97 ∨ char = 98) :
    parseArgs Env.plain 0 ((Buffer.overlay (fun _ => char) cutMessage).request 5).data
      ((Buffer.overlay (fun _ => char) cutMessage).request 5).len =
        .ok ([bssCreate Env.plain 0 [char]], 0) := by
  rcases plain with rfl | rfl <;> rfl

theorem request_not_isolated :
    ∃ (env : Env) (next fd : Nat) (chunk : Bytes), sizeofRequest ≤ chunk.length ∧
      chunk.length ≤ sizeofRequest + inBufSize ∧ ¬ Isolated env next fd chunk := by
  refine ⟨Env.plain, 0, 5, cutMessage, by decide, by decide, fun isolated => ?_⟩
  have found : findCommand (cutMessage.take 16) = some ⟨"get", .get, notBlocked⟩ := rfl
  obtain ⟨args, ret, copy, same⟩ := isolated.parsed _ found
  have first := parseArgs_of_scanEnds (same fun _ => 97).1
  have second := parseArgs_of_scanEnds (same fun _ => 98).1
  rw [cutMessage_parsed 97 (Or.inl rfl), ← second, cutMessage_parsed 98 (Or.inr rfl)] at first
  have contents := congrArg (fun result : List Bss × Int => result.1.map Bss.content)
    (Except.ok.inj first)
  exact absurd contents (by decide)

end PseudoRedis

/-
This file is about the requests `process_in_data` finds in what it reads. Every `read`
is taken for one request: the chunk is laid over the buffer and the buffer processed.
So the requests of a connection are processed one by one as long as each arrives in a
chunk of its own; two that arrive together are processed as one.
-/

import PseudoRedis.Server

namespace PseudoRedis

/-! ### Requests on the wire -/

/-- The bytes a client writes. -/
def Request.wire (request : Request) : Bytes :=
  request.command ++ littleEndian32 request.clientId ++ littleEndian32 request.len ++ request.data

/-- A command of 16 bytes, and a string as long as announced. -/
structure Request.WellFormed (request : Request) : Prop where
  command : request.command.length = 16
  len : request.len = request.data.length

/-- The request with the descriptor it was read from. -/
def Request.readFrom (request : Request) (fd : Nat) : Request := { request with clientId := fd }

/-! ### The calls of `process_request` -/

/-- What the calls of `process_request` find in the buffer. -/
def requestsOf (fd : Nat) : Buffer → List Bytes → List Request
  | _, [] => []
  | buffer, chunk :: rest =>
      (buffer.overlay chunk).request fd :: requestsOf fd (buffer.overlay chunk) rest

/-- Requests processed and answered one after the other. -/
def serveAll (origin : Nat) : Server → List (Moment × Request) →
    Except Stop (Server × List Bytes)
  | server, [] => .ok (server, [])
  | server, (moment, request) :: rest =>
      match server.serve origin moment request with
      | .error stop => .error stop
      | .ok (server, reply) =>
          match serveAll origin server rest with
          | .error stop => .error stop
          | .ok (server, replies) => .ok (server, reply.toList ++ replies)

/-- The server with another buffer. -/
def Server.buffered (server : Server) (buffer : Buffer) : Server :=
  { server with currRequest := buffer }

/-- The same outcome with another buffer. -/
def rebuffered {Out : Type} (buffer : Buffer) :
    Except Stop (Server × Out) → Except Stop (Server × Out)
  | .error stop => .error stop
  | .ok (server, out) => .ok (server.buffered buffer, out)

/-- Serving a request keeps the buffer and does not look at it. -/
theorem serve_buffered (server : Server) (buffer : Buffer) (origin : Nat) (moment : Moment)
    (request : Request) :
    (server.buffered buffer).serve origin moment request =
      rebuffered buffer (server.serve origin moment request) := by
  simp only [Server.serve, Server.process, Server.buffered]
  cases processRequest moment.env server.next server.keyDict true request server.sh with
  | error stop => rfl
  | ok result => rfl

theorem serveAll_buffered (server : Server) (buffer : Buffer) (origin : Nat)
    (requests : List (Moment × Request)) :
    serveAll origin (server.buffered buffer) requests =
      rebuffered buffer (serveAll origin server requests) := by
  induction requests generalizing server with
  | nil => rfl
  | cons pair rest inductionHypothesis =>
    obtain ⟨moment, request⟩ := pair
    rw [serveAll, serveAll, serve_buffered]
    cases server.serve origin moment request with
    | error stop => rfl
    | ok outcome =>
      obtain ⟨next, reply⟩ := outcome
      simp only [rebuffered, inductionHypothesis]
      cases serveAll origin next rest with
      | error stop => rfl
      | ok outcome => rfl

/-- The buffer after all chunks. -/
def Buffer.after (buffer : Buffer) (chunks : List Bytes) : Buffer :=
  chunks.foldl Buffer.overlay buffer

/-- The loop calls `process_request` once for every chunk, with what the buffer holds then. -/
theorem processInData_eq (fd origin : Nat) (server : Server) (reads : List (Moment × Bytes)) :
    processInData fd origin server reads =
      rebuffered (server.currRequest.after (reads.map Prod.snd))
        (serveAll origin server
          ((reads.map Prod.fst).zip (requestsOf fd server.currRequest (reads.map Prod.snd)))) := by
  induction reads generalizing server with
  | nil => rfl
  | cons read rest inductionHypothesis =>
    obtain ⟨moment, chunk⟩ := read
    have served := serve_buffered server (server.currRequest.overlay chunk) origin moment
      ((server.currRequest.overlay chunk).request fd)
    have input : server.input fd origin moment chunk = rebuffered
        (server.currRequest.overlay chunk) (server.serve origin moment
          ((server.currRequest.overlay chunk).request fd)) := served
    simp only [List.map_cons, requestsOf, List.zip_cons_cons, serveAll]
    rw [processInData, input]
    cases server.serve origin moment ((server.currRequest.overlay chunk).request fd) with
    | error stop => rfl
    | ok outcome =>
      obtain ⟨next, reply⟩ := outcome
      simp only [rebuffered]
      rw [inductionHypothesis, serveAll_buffered]
      simp only [Server.buffered, Buffer.after, List.foldl_cons]
      cases serveAll origin next ((rest.map Prod.fst).zip
          (requestsOf fd (server.currRequest.overlay chunk) (rest.map Prod.snd))) with
      | error stop => rfl
      | ok outcome => rfl

theorem length_requestsOf (fd : Nat) (buffer : Buffer) (chunks : List Bytes) :
    (requestsOf fd buffer chunks).length = chunks.length := by
  induction chunks generalizing buffer with
  | nil => rfl
  | cons chunk rest inductionHypothesis =>
    rw [requestsOf, List.length_cons, inductionHypothesis, List.length_cons]

/-! ### A chunk that is one request -/

theorem slice_overlay (buffer : Buffer) (before part behind : Bytes) :
    (buffer.overlay (before ++ part ++ behind)).slice before.length part.length = part := by
  refine List.ext_getElem ?_ fun index first second => ?_
  · rw [Buffer.slice, List.length_map, List.length_range]
  · simp only [Buffer.slice, List.getElem_map, List.getElem_range, Buffer.overlay]
    rw [List.append_assoc, List.getD_eq_getElem?_getD,
      List.getElem?_append_right (Nat.le_add_right _ _), Nat.add_sub_cancel_left,
      List.getElem?_append_left second, List.getElem?_eq_getElem second, Option.getD_some]

theorem word_overlay (buffer : Buffer) (before behind : Bytes) {value : Nat}
    (fits : value < 2 ^ 32) :
    (buffer.overlay (before ++ littleEndian32 value ++ behind)).word before.length = value := by
  have four : (littleEndian32 value).length = 4 := rfl
  have read := readLittleEndian32_append value fits []
  rw [List.append_nil] at read
  rw [Buffer.word, ← four, slice_overlay, read, Option.getD_some]

/-- A chunk that is a request leaves that request in the buffer. -/
theorem request_overlay (buffer : Buffer) (fd : Nat) {request : Request}
    (wellFormed : request.WellFormed) :
    (buffer.overlay request.wire).request fd = request.readFrom fd := by
  obtain ⟨command, clientId, len, data, inBuffer⟩ := request
  have sixteen : command.length = 16 := wellFormed.command
  have announced : len = data.length := wellFormed.len
  subst announced
  have limit : inBufSize < 2 ^ 32 := by decide
  have first := slice_overlay buffer [] command
    (littleEndian32 clientId ++ littleEndian32 data.length ++ data)
  have second := word_overlay buffer (command ++ littleEndian32 clientId) data
    (Nat.lt_of_le_of_lt inBuffer limit)
  have third := slice_overlay buffer
    (command ++ littleEndian32 clientId ++ littleEndian32 data.length) data []
  have twenty : (command ++ littleEndian32 clientId).length = 20 := by
    rw [List.length_append, sixteen]
    rfl
  have header :
      (command ++ littleEndian32 clientId ++ littleEndian32 data.length).length = 24 := by
    rw [List.length_append, twenty]
    rfl
  rw [List.nil_append, List.length_nil, sixteen, ← List.append_assoc, ← List.append_assoc] at first
  rw [twenty] at second
  rw [header, List.append_nil] at third
  simp only [Buffer.request, Request.wire, Request.readFrom, first, second,
    Nat.min_eq_left inBuffer, third]

theorem requestsOf_wires (buffer : Buffer) (fd : Nat) {requests : List Request}
    (wellFormed : ∀ request ∈ requests, request.WellFormed) :
    requestsOf fd buffer (requests.map Request.wire) =
      requests.map fun request => request.readFrom fd := by
  induction requests generalizing buffer with
  | nil => rfl
  | cons request rest inductionHypothesis =>
    have later := inductionHypothesis (buffer.overlay request.wire) fun other member =>
      wellFormed other (List.mem_cons_of_mem _ member)
    rw [List.map_cons, requestsOf,
      request_overlay buffer fd (wellFormed request List.mem_cons_self), later, List.map_cons]

/-! ### Framing -/

/-- Each request of a stream is processed once, in order, with its command and its string, however
the stream is cut. -/
def Framed : Prop :=
  ∀ (fd : Nat) (buffer : Buffer) (requests : List Request) (chunks : List Bytes),
    (∀ request ∈ requests, request.WellFormed) → chunks.flatten = requests.flatMap Request.wire →
      (∀ chunk ∈ chunks, chunk ≠ [] ∧ chunk.length ≤ 24 + inBufSize) →
        (requestsOf fd buffer chunks).map (fun request => (request.command, request.data)) =
          requests.map fun request => (request.command, request.data)

/-- Every chunk is processed as one request, and chunks that are one request each are processed as
these requests. -/
theorem processInData_framed (fd origin : Nat) (server : Server) :
    (∀ reads : List (Moment × Bytes),
      (requestsOf fd server.currRequest (reads.map Prod.snd)).length = reads.length ∧
        processInData fd origin server reads =
          rebuffered (server.currRequest.after (reads.map Prod.snd))
            (serveAll origin server ((reads.map Prod.fst).zip
              (requestsOf fd server.currRequest (reads.map Prod.snd))))) ∧
      ∀ requests : List (Moment × Request), (∀ request ∈ requests, request.2.WellFormed) →
        processInData fd origin server
            (requests.map fun request => (request.1, request.2.wire)) =
          rebuffered
            (server.currRequest.after (requests.map fun request => request.2.wire))
            (serveAll origin server
              (requests.map fun request => (request.1, request.2.readFrom fd))) := by
  constructor
  · intro reads
    rw [length_requestsOf, List.length_map]
    exact ⟨rfl, processInData_eq fd origin server reads⟩
  · intro requests wellFormed
    have each : ∀ request ∈ requests.map Prod.snd, request.WellFormed := by
      intro request member
      obtain ⟨pair, inside, rfl⟩ := List.mem_map.mp member
      exact wellFormed pair inside
    have found := requestsOf_wires server.currRequest fd each
    rw [List.map_map, List.map_map] at found
    rw [processInData_eq, List.map_map, List.map_map]
    show rebuffered _ (serveAll origin server ((requests.map Prod.fst).zip
      (requestsOf fd server.currRequest (requests.map (Request.wire ∘ Prod.snd))))) = _
    rw [found, List.zip_map']
    rfl

/-- Two requests in one chunk are processed as one. -/
theorem not_framed : ¬ Framed := by
  intro framed
  have get : (textRequest "get" "a" (by decide)).WellFormed := ⟨rfl, rfl⟩
  have same := framed 5 (fun _ => 0)
    [textRequest "get" "a" (by decide), textRequest "get" "a" (by decide)]
    [[textRequest "get" "a" (by decide), textRequest "get" "a" (by decide)].flatMap Request.wire]
    (fun request member => by
      rcases List.mem_cons.mp member with rfl | second
      · exact get
      · rw [List.mem_singleton.mp second]
        exact get)
    (List.append_nil _) (fun chunk member => by
      rw [List.mem_singleton.mp member]
      exact ⟨by decide, by decide⟩)
  have lengths := congrArg List.length same
  rw [List.length_map, List.length_map, length_requestsOf] at lengths
  exact absurd lengths (by decide)

/-- One request in a chunk of its own. -/
theorem processInData_framed_get :
    processInData 5 0 Server.plain
        [(Moment.plain, (textRequest "get" "a" (by decide)).wire)] =
      rebuffered
        (Server.plain.currRequest.after [(textRequest "get" "a" (by decide)).wire])
        (serveAll 0 Server.plain
          [(Moment.plain, (textRequest "get" "a" (by decide)).readFrom 5)]) := by
  have get : (textRequest "get" "a" (by decide)).WellFormed := ⟨rfl, rfl⟩
  refine (processInData_framed 5 0 Server.plain).2
    [(Moment.plain, textRequest "get" "a" (by decide))] fun request member => ?_
  rw [List.mem_singleton.mp member]
  exact get

end PseudoRedis

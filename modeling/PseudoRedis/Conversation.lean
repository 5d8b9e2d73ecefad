/-
This file joins the two programs. Clients that are connected type lines, in any order; each
turn of a client sends one request, the server finds it in its buffer, processes it and
answers on the descriptor it came from, and the client prints what it finds in the reply.
What is printed is what the ledger says for the words of the line, unless it says that the
line stops the server. Clients come and go and the heart-beat comes at any time, and nothing
is sent that no line asked for.

What is assumed is that each request arrives in one read and each reply too, that the word
of a line leaves room for a zero in the array of the client and names no command that the
ledger leaves out, and that there is memory.
-/

import PseudoRedis.ClientRequest
import PseudoRedis.LedgerHistory
import PseudoRedis.Printing
import PseudoRedis.Release

namespace PseudoRedis

/-! ### Lines -/

/-- A line without its newline, and what the client that reads it has in its arrays. -/
structure Typed where
  env : ClientEnv
  name : Bytes
  buf : Bytes
  blank : Bytes
  word : Bytes
  rest : Bytes

def Typed.turn (typed : Typed) : Except Fault Turn :=
  clientTurn typed.env typed.name
    (fgets typed.buf (typed.blank ++ typed.word ++ typed.rest ++ [10]))

/-- A line that can be sent, with at most `MAX_ARGS` arguments. -/
structure Typed.Plain (typed : Typed) : Prop where
  input : InputLine typed.blank typed.word typed.rest
  size : typed.name.length = nameLen
  short : typed.word.length < nameLen
  few : (parseFrom .between typed.rest).1.length ≤ maxArgs
  memory : typed.env.malloc (sizeofRequest + typed.rest.length) = true

/-- What the word and the rest of a line mean, unless the word names a command that the ledger
leaves out. -/
def lineMeaning (word rest : Bytes) (ledger : Ledger) : Option Outcome :=
  match findCommand word with
  | none => some (.goesOn ledger (.error invCmd))
  | some command =>
      command.func.meaning.map fun meaning =>
        if (parseFrom .between rest).2 ≠ 0 then .goesOn ledger (.error invArg)
        else meaning ledger (parseFrom .between rest).1

variable {typed : Typed} {world world' : World} {ledger ledger' : Ledger} {outcome : Outcome}
  {told : Told} {sent : List Sent}

/-- The request of a line. -/
def Typed.Plain.request (plain : typed.Plain) : Request :=
  lineRequest typed.env.id typed.name typed.word typed.rest plain.input.rest_le

/-- A client sends the request of its line. -/
theorem Typed.Plain.sends (plain : typed.Plain) :
    ∃ turn, typed.turn = .ok turn ∧ turn.sent = some plain.request.wire := by
  refine ⟨_, clientTurn_short plain.input plain.size plain.short, ?_⟩
  rw [if_neg (Bool.not_eq_false _ ▸ plain.memory)]
  rfl

theorem Typed.Plain.wellFormed (plain : typed.Plain) : plain.request.WellFormed := by
  refine ⟨?_, rfl⟩
  show (typed.word ++ 0 :: typed.name.drop (typed.word.length + 1)).length = 16
  have limit : nameLen = 16 := rfl
  have size := plain.size
  have short := plain.short
  rw [List.length_append, List.length_cons, List.length_drop]
  omega

/-- A zero behind a word does not change which command it names. -/
theorem findCommand_ended (word rest : Bytes) :
    findCommand (word ++ 0 :: rest) = findCommand word := by
  have area : cstring (word ++ 0 :: rest) = cstring word := by
    rw [cstring, cstring, takeWhile_ended (by decide)]
  simp only [findCommand, strcasecmp, area]

theorem Typed.Plain.wanted (plain : typed.Plain) (fd : Nat) :
    (plain.request.readFrom fd).wanted = parseFrom .between typed.rest := by
  show parseFrom .between (typed.rest.take typed.rest.length) = _
  rw [List.take_length]

theorem Typed.Plain.meaning (plain : typed.Plain) (fd : Nat) (ledger : Ledger) :
    (plain.request.readFrom fd).meaning ledger = lineMeaning typed.word typed.rest ledger := by
  have command : findCommand (plain.request.readFrom fd).command = findCommand typed.word :=
    findCommand_ended _ _
  cases found : findCommand typed.word with
  | none => simp only [Request.meaning, lineMeaning, command, found]
  | some entry => simp only [Request.meaning, lineMeaning, command, found, plain.wanted]

theorem Typed.Plain.sane (plain : typed.Plain) (fd : Nat) : (plain.request.readFrom fd).Sane := by
  refine ⟨Nat.le_refl _, ?_⟩
  rw [plain.wanted]
  exact plain.few

/-! ### Steps of the server -/

/-- The server keeps the ledger, its buffers have one holder each, and no client waits. -/
structure World.Attends (world : World) (ledger : Ledger) : Prop where
  keeps : Keeps world.server.keyDict ledger
  kept : Kept world.server
  idle : world.server.actions = []

/-- Addresses that were never used. -/
theorem World.Attends.roomy (attends : world.Attends ledger)
    (room : afterRequest world.server.next ≤ 2 ^ 63) :
    Roomy world.server.keyDict (List.range' world.server.next (maxArgs + 2)) := by
  rw [afterRequest] at room
  refine ⟨List.nodup_range', fun id member => ?_, fun id member held => ?_⟩
  · obtain ⟨place, inside, rfl⟩ := List.mem_range'.mp member
    omega
  · obtain ⟨place, inside, rfl⟩ := List.mem_range'.mp member
    have made := (attends.kept.owned.made _ held).2
    omega

/-- A request of the ledger does not block. -/
theorem careful_of_meant {request : Request} {server : Server}
    (meant : request.meaning ledger = some outcome) (moment : Moment) :
    server.Safe moment true request := by
  rw [Server.Safe]
  cases read : readRequest moment.env server.next request with
  | stops stop => trivial
  | fails s => exact fun old => by cases old
  | calls command args timeout =>
    have called := readRequest_called read
    rw [Request.meaning, called.found] at meant
    obtain ⟨meaning, known, -⟩ := Option.map_eq_some_iff.mp meant
    obtain ⟨-, -, direct⟩ := command.func.plain known moment.env server.keyDict args
    simp only
    split
    · exact fun old => by cases old
    · trivial
    · exact fun block => absurd (called.blocks.mp block) direct

/-- The heart-beat finds no client that waits. -/
theorem World.Attends.beat (attends : world.Attends ledger) (moment : Nat → Moment) :
    world.step (.heartBeat moment) = .ok (world, []) := by
  obtain ⟨server, conn, born⟩ := world
  obtain ⟨keyDict, sh, buffer, actions, timeBss, next⟩ := server
  cases (show actions = [] from attends.idle)
  rfl

/-- The server finds the request of a line in its buffer, and what comes of it. -/
theorem World.Attends.serves (attends : world.Attends ledger) (plain : typed.Plain) (fd : Nat)
    (moment : Moment) (room : afterRequest world.server.next ≤ 2 ^ 63)
    (meant : lineMeaning typed.word typed.rest ledger = some outcome) :
    (world.server.currRequest.overlay plain.request.wire).request fd = plain.request.readFrom fd ∧
      ServedAs moment.env world.server.next world.server.keyDict true (plain.request.readFrom fd)
        world.server.sh outcome :=
  ⟨request_overlay _ fd plain.wellFormed, attends.keeps.serves (plain.sane fd) (attends.roomy room)
    ((plain.meaning fd ledger).trans meant) true world.server.sh⟩

/-- A line is answered on the descriptor it came from. -/
theorem World.Attends.answers (attends : world.Attends ledger) (plain : typed.Plain) {fd conn : Nat}
    (connected : world.conn fd = some conn) (moment : Moment)
    (room : afterRequest world.server.next ≤ 2 ^ 63)
    (meant : lineMeaning typed.word typed.rest ledger = some (.goesOn ledger' told)) :
    ∃ world' data, world.step (.input fd moment plain.request.wire) =
        .ok (world', [⟨fd, some conn, none, data⟩]) ∧
      (received data).bind displayText = told.printed ∧ world'.Attends ledger' := by
  obtain ⟨found, dict', sh', ran, said, keeps'⟩ := attends.serves plain fd moment room meant
  rw [← found] at ran
  have served := step_input_answered ran (by decide : (0 : Int) ≠ eBlocked)
  rw [connected] at served
  have careful : Careful world (.input fd moment plain.request.wire) := by
    rw [Careful, found]
    exact careful_of_meant ((plain.meaning fd ledger).trans meant) moment
  exact ⟨_, _, served, said.displayed, keeps', attends.kept.step careful served, attends.idle⟩

/-- A line that stops the server is not answered. -/
theorem World.Attends.stops (attends : world.Attends ledger) (plain : typed.Plain) (fd : Nat)
    (moment : Moment) (room : afterRequest world.server.next ≤ 2 ^ 63)
    (meant : lineMeaning typed.word typed.rest ledger = some .stops) :
    world.step (.input fd moment plain.request.wire) = .error .freedTwice := by
  obtain ⟨found, stopped⟩ := attends.serves plain fd moment room meant
  rw [ServedAs] at stopped
  simp only [World.step, Server.input, found, Server.serve, Server.process, stopped]

/-! ### Conversations -/

/-- Lines that clients typed one after the other, between which clients came and went and the
heart-beat came, and the ledger of them. -/
inductive Conversation : World → Ledger → Prop
  | start {env : Env} {curr : Reply} {buffer : Buffer} {server : Server}
      (init : serverInit env curr buffer = some server) :
      Conversation ⟨server, fun _ => none, 0⟩ fun _ => none
  | accept {world world' : World} {ledger : Ledger} {sent : List Sent}
      (before : Conversation world ledger) (fd : Nat)
      (possible : (Event.accept fd).possible world = true)
      (ran : world.step (.accept fd) = .ok (world', sent)) : Conversation world' ledger
  | hangUp {world world' : World} {ledger : Ledger} {sent : List Sent}
      (before : Conversation world ledger) (fd : Nat)
      (possible : (Event.hangUp fd).possible world = true)
      (ran : world.step (.hangUp fd) = .ok (world', sent)) : Conversation world' ledger
  | heartBeat {world world' : World} {ledger : Ledger} {sent : List Sent}
      (before : Conversation world ledger) (moment : Nat → Moment)
      (ran : world.step (.heartBeat moment) = .ok (world', sent)) : Conversation world' ledger
  | line {world world' : World} {ledger ledger' : Ledger} {told : Told} {sent : List Sent}
      {turn : Turn} {wire : Bytes} (before : Conversation world ledger) (typed : Typed)
      (plain : typed.Plain) (took : typed.turn = .ok turn) (sends : turn.sent = some wire)
      (fd : Nat) (moment : Moment)
      (possible : (Event.input fd moment wire).possible world = true)
      (room : afterRequest world.server.next ≤ 2 ^ 63)
      (meant : lineMeaning typed.word typed.rest ledger = some (.goesOn ledger' told))
      (ran : world.step (.input fd moment wire) = .ok (world', sent)) : Conversation world' ledger'

theorem attends_of_init {env : Env} {curr : Reply} {buffer : Buffer} {server : Server}
    (init : serverInit env curr buffer = some server) :
    World.Attends ⟨server, fun _ => none, 0⟩ fun _ => none := by
  have kept := kept_of_init init
  obtain ⟨timeBss, -, rfl⟩ := Option.map_eq_some_iff.mp init
  exact ⟨keeps_create, kept, rfl⟩

theorem Conversation.attends (conversation : Conversation world ledger) :
    world.Attends ledger := by
  induction conversation with
  | start init => exact attends_of_init init
  | accept before fd possible ran inductionHypothesis =>
    cases ran
    exact ⟨inductionHypothesis.keeps, inductionHypothesis.kept, inductionHypothesis.idle⟩
  | hangUp before fd possible ran inductionHypothesis =>
    cases ran
    exact ⟨inductionHypothesis.keeps, inductionHypothesis.kept, inductionHypothesis.idle⟩
  | heartBeat before moment ran inductionHypothesis =>
    rw [inductionHypothesis.beat] at ran
    cases ran
    exact inductionHypothesis
  | line before typed plain took sends fd moment possible room meant ran inductionHypothesis =>
    obtain ⟨conn, connected⟩ := Option.isSome_iff_exists.mp possible
    obtain ⟨same, sent', request⟩ := plain.sends
    rw [took] at sent'
    cases sent'
    rw [sends] at request
    cases request
    obtain ⟨world', data, answered, -, attends⟩ :=
      inductionHypothesis.answers plain connected moment room meant
    rw [answered] at ran
    cases ran
    exact attends

end PseudoRedis

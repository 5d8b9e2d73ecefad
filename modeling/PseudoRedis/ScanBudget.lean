/-
This file is about how much of the table one `SSCAN` walks over. The loop counts its rounds
down from sixteen times the count and is meant to end when none is left, but the counter
is unsigned and is asked whether it is at least zero. So nothing but the end of the table
and the elements found ends the loop.
-/

import PseudoRedis.ScanOptions
import PseudoRedis.SetMove

namespace PseudoRedis

variable {env : Env} {set : Dict Unit} {pattern : Option Bytes} {count : Int}

/-! ### Counting the buckets -/

/-- The loop of `sscan_command` with the number of buckets it scans. -/
inductive Buckets (env : Env) (set : Dict Unit) (pattern : Option Bytes) (count : Int) :
    Nat → UInt32 → Shared → Shared × UInt32 → Prop
  | last {cursor next : UInt32} {sh sh' : Shared}
      (round : dictScan set cursor (addkeyToArr env pattern) sh = (sh', next))
      (stop : ¬ (next ≠ 0 ∧ (sh'.rplyArrLen.toNat : Int) - 1 < count)) :
      Buckets env set pattern count 1 cursor sh (sh', next)
  | again {cursor next : UInt32} {sh sh' : Shared} {buckets : Nat} {outcome : Shared × UInt32}
      (round : dictScan set cursor (addkeyToArr env pattern) sh = (sh', next))
      (goOn : next ≠ 0 ∧ (sh'.rplyArrLen.toNat : Int) - 1 < count)
      (rest : Buckets env set pattern count buckets next sh' outcome) :
      Buckets env set pattern count (buckets + 1) cursor sh outcome

theorem ScanRounds.counted {cursor : UInt32} {sh : Shared} {outcome : Shared × UInt32}
    (rounds : ScanRounds env set pattern count cursor sh outcome) :
    ∃ buckets, Buckets env set pattern count buckets cursor sh outcome := by
  induction rounds with
  | last round stop => exact ⟨1, .last round stop⟩
  | again round goOn rest inductionHypothesis =>
    obtain ⟨buckets, counted⟩ := inductionHypothesis
    exact ⟨buckets + 1, .again round goOn counted⟩

/-! ### Where the loop ends -/

/-- After these slots the scan is at the end of the table, or the array is one longer than the
count. The counter of the array has eight bits. -/
def Stops (set : Dict Unit) (count : Int) (counter first slots : Nat) : Prop :=
  first + slots = 2 ^ set.power ∨
    count ≤ ((counter + (Slots.piece set.hashTbl first (first + slots)).length) % 2 ^ 8 : Nat) - 1

/-- The loop ends at the first place where it can. -/
structure Walk (set : Dict Unit) (count : Int) (counter first slots : Nat) : Prop where
  some : 1 ≤ slots
  inside : first + slots ≤ 2 ^ set.power
  stops : Stops set count counter first slots
  goesOn : ∀ fewer, 1 ≤ fewer → fewer < slots → ¬ Stops set count counter first fewer

theorem stops_succ (set : Dict Unit) (count : Int) (counter first slots : Nat) :
    Stops set count counter first (slots + 1) ↔
      Stops set count ((counter + (set.hashTbl first).length) % 2 ^ 8) (first + 1) slots := by
  have place : first + (slots + 1) = first + 1 + slots := by omega
  rw [Stops, Stops, place, Slots.piece_cons _ (by omega : first < first + 1 + slots),
    List.length_append, Nat.mod_add_mod, Nat.add_assoc counter]

/-- What a round does to the cursor and to the counter. -/
theorem round_eq {cursor next : UInt32} {sh sh' : Shared}
    (round : dictScan set cursor (addkeyToArr env none) sh = (sh', next)) :
    next = (cursor + 1) &&& set.bitMask ∧ sh'.rplyArrLen.toNat =
      (sh.rplyArrLen.toNat + (set.hashTbl (cursor &&& set.bitMask).toNat).length) % 2 ^ 8 := by
  rw [dictScan_eq, flatMap_matchElems] at round
  cases round
  refine ⟨rfl, ?_⟩
  rw [rplyArrLen_addAll, List.length_map, UInt8.toNat_add, UInt8.toNat_ofNat', Nat.add_mod_mod]

/-- The loop goes on after a round exactly if it cannot end there. -/
theorem stops_one_iff (sized : set.Sized) {cursor next : UInt32} {sh sh' : Shared}
    (round : dictScan set cursor (addkeyToArr env none) sh = (sh', next)) :
    Stops set count sh.rplyArrLen.toNat (cursor &&& set.bitMask).toNat 1 ↔
      ¬ (next ≠ 0 ∧ (sh'.rplyArrLen.toNat : Int) - 1 < count) := by
  obtain ⟨same, counter⟩ := round_eq round
  rw [Stops, Slots.piece_cons _ (Nat.lt_succ_self _), Slots.piece_self, List.append_nil, ← counter,
    not_and_or, not_not, not_lt, same]
  refine or_congr_left ?_
  rcases nextCursor_cases sized cursor with ⟨done, last⟩ | ⟨further, -, inside⟩
  · exact iff_of_true last done
  · exact iff_of_false (Nat.ne_of_lt inside) further

theorem Buckets.walk (sized : set.Sized) {cursor : UInt32} {sh : Shared}
    {outcome : Shared × UInt32} {buckets : Nat}
    (counted : Buckets env set none count buckets cursor sh outcome) :
    Walk set count sh.rplyArrLen.toNat (cursor &&& set.bitMask).toNat buckets ∧
      outcome.2.toNat = ((cursor &&& set.bitMask).toNat + buckets) % 2 ^ set.power := by
  induction counted with
  | @last cursor next sh sh' round stop =>
    have stops := (stops_one_iff sized round).mpr stop
    refine ⟨⟨Nat.le_refl 1, ?_, stops, fun fewer least most => by omega⟩, ?_⟩
    · rcases nextCursor_cases sized cursor with ⟨-, last⟩ | ⟨-, -, inside⟩
      · exact Nat.le_of_eq last
      · exact Nat.le_of_lt inside
    · rw [(round_eq round).1]
      exact nextCursor_toNat sized cursor
  | @again cursor next sh sh' buckets outcome round goOn rest inductionHypothesis =>
    obtain ⟨same, counter⟩ := round_eq round
    have goesOn := mt (stops_one_iff sized round).mp (not_not.mpr goOn)
    rcases nextCursor_cases sized cursor with ⟨done, -⟩ | ⟨-, step, -⟩
    · exact absurd (same.trans done) goOn.1
    · obtain ⟨walk, final⟩ := inductionHypothesis
      rw [same, nextCursor_masked, step, counter] at walk
      rw [same, nextCursor_masked, step] at final
      have place : (cursor &&& set.bitMask).toNat + (buckets + 1) =
          (cursor &&& set.bitMask).toNat + 1 + buckets := by omega
      refine ⟨⟨Nat.succ_pos _, place ▸ walk.inside, (stops_succ _ _ _ _ _).mpr walk.stops, ?_⟩,
        place ▸ final⟩
      intro fewer least most
      -- a place further on is one of the rest of the loop
      rcases Nat.exists_eq_add_of_le' least with ⟨later, rfl⟩
      rcases Nat.eq_zero_or_pos later with rfl | some
      · exact goesOn
      · rw [stops_succ]
        exact walk.goesOn later some (by omega)

/-- The loop scans no more buckets than this if it can end there or before. -/
theorem Walk.le_iff {counter first slots : Nat} (walk : Walk set count counter first slots)
    (budget : Int) :
    slots ≤ budget ↔
      ∃ near : Nat, 1 ≤ near ∧ near ≤ budget ∧ Stops set count counter first near := by
  constructor
  · intro few
    exact ⟨slots, walk.some, few, walk.stops⟩
  · rintro ⟨near, least, most, stops⟩
    by_contra many
    exact walk.goesOn near least (by omega) stops

/-! ### One call -/

variable {dict : Dict Obj} {key cursorArg : Bss} {options : List Bss} {cursor : UInt32}

/-- A run of a call on a set: the buckets it scans, and the cursor it replies with. -/
def SetScan (env : Env) (dict : Dict Obj) (set : Dict Unit) (count : Int) (cursor : UInt32)
    (run : Run Obj) (sh : Shared) (buckets : Nat) (next : UInt32) : Prop :=
  ∃ sh' numBss, Buckets env set none count buckets cursor
      (addAll (resetReplyArr sh) [cursorElem env]) (sh', next) ∧
    numBss.id = env.fresh ∧ numBss.content = sprintfLld next.toNat ∧
    run sh = dbarrReply env dict (sh'.overwrite numBss)

/-- The loop of a call starts with the cursor alone in the array. -/
theorem SetScan.walk (sized : set.Sized) {run : Run Obj} {sh : Shared} {buckets : Nat}
    {next : UInt32} (scan : SetScan env dict set count cursor run sh buckets next) :
    Walk set count 1 (cursor &&& set.bitMask).toNat buckets ∧
      next.toNat = ((cursor &&& set.bitMask).toNat + buckets) % 2 ^ set.power := by
  obtain ⟨sh', numBss, counted, -⟩ := scan
  have start : (addAll (resetReplyArr sh) [cursorElem env]).rplyArrLen.toNat = 1 := by
    simp [resetReplyArr, Shared.push]
  have walk := counted.walk sized
  rwa [start] at walk

/-- Every call with accepted options is such a run. -/
theorem sscanCommand_setScan (sized : set.Sized)
    (answer : dictLookUp dict key = some (.set set))
    (number : bss2int cursorArg = ((cursor.toNat : Int), 0))
    (accepted : scanOptions options 10 none = some (count, pattern)) (sh : Shared) :
    ∃ buckets next, SetScan env dict set count cursor
      (sscanCommand env dict (key :: cursorArg :: options)) sh buckets next := by
  have same : UInt32.ofNat (cursor.toNat : Int).toNat = cursor := UInt32.ofNat_toNat
  obtain ⟨plain, -⟩ := pairs_of_scanned accepted
  rw [plain] at accepted
  have rounds := @scanLoop_rounds set env sized none count (set.bitMask.toNat + 1) cursor
    (addAll (resetReplyArr sh) [cursorElem env]) (by omega)
  generalize loop : scanLoop env set none count (set.bitMask.toNat + 1 + 1) cursor
    (addAll (resetReplyArr sh) [cursorElem env]) = outcome at rounds
  obtain ⟨sh', next⟩ := outcome
  obtain ⟨buckets, counted⟩ := rounds.counted
  obtain ⟨numBss, written, first, text⟩ := cursorBss_number env next
  refine ⟨buckets, next, sh', numBss, counted, first, text, ?_⟩
  rw [sscanCommand_accepted (cursor_valid number) accepted, number]
  rw [cursorBss] at written
  rw [cursorElem] at loop
  simp only [scanReply, answer, same, loop, written]

/-- The scan stays within its budget of rounds, and the cursor it replies with is zero or not
further on than that. -/
def KeepsBudget (set : Dict Unit) (count : Int) (cursor : UInt32) (buckets : Nat)
    (next : UInt32) : Prop :=
  (buckets : Int) ≤ 16 * count + 1 ∧
    (next = 0 ∨ (next.toNat : Int) ≤ (cursor &&& set.bitMask).toNat + 16 * count + 1)

theorem SetScan.keepsBudget_iff (sized : set.Sized) {run : Run Obj} {sh : Shared} {buckets : Nat}
    {next : UInt32} (scan : SetScan env dict set count cursor run sh buckets next) :
    KeepsBudget set count cursor buckets next ↔ (buckets : Int) ≤ 16 * count + 1 := by
  obtain ⟨walk, final⟩ := scan.walk sized
  refine and_iff_left_of_imp fun few => ?_
  rcases Nat.lt_or_eq_of_le walk.inside with further | done
  · rw [Nat.mod_eq_of_lt further] at final
    exact Or.inr (by omega)
  · rw [done, Nat.mod_self] at final
    exact Or.inl (UInt32.toNat_inj.mp final)

/-- One call keeps the budget exactly if, within so many slots from that of the cursor on, the table
ends or enough members are found. The counter of the array, which starts at one, has eight bits. -/
theorem sscan_budget_iff (env : Env) (wellFormed : set.WellFormed)
    (answer : dictLookUp dict key = some (.set set))
    (number : bss2int cursorArg = ((cursor.toNat : Int), 0))
    (accepted : scanOptions options 10 none = some (count, pattern)) (sh : Shared) :
    (∃ buckets next, SetScan env dict set count cursor
        (sscanCommand env dict (key :: cursorArg :: options)) sh buckets next ∧
      KeepsBudget set count cursor buckets next) ↔
    ∃ near : Nat, 1 ≤ near ∧ near ≤ 16 * count + 1 ∧
      Stops set count 1 (cursor &&& set.bitMask).toNat near := by
  have sized := wellFormed.sized
  constructor
  · rintro ⟨buckets, next, scan, keeps⟩
    exact ((scan.walk sized).1.le_iff _).mp ((scan.keepsBudget_iff sized).mp keeps)
  · intro near
    obtain ⟨buckets, next, scan⟩ :=
      @sscanCommand_setScan env set pattern count dict key cursorArg options cursor sized answer
        number accepted sh
    exact ⟨buckets, next, scan,
      (scan.keepsBudget_iff sized).mpr (((scan.walk sized).1.le_iff _).mpr near)⟩

/-- A scan that comes to the only member seven slots after the one it starts at. -/
theorem sscan_budget_iff_near :
    ∃ buckets next, SetScan Env.plain oneSet oneMember 1 2860
        (sscanCommand Env.plain oneSet
          [textArg 3 "s", textArg 4 "2860", textArg 5 "COUNT", textArg 6 "1"])
        (Shared.holding []) buckets next ∧
      KeepsBudget oneMember 1 2860 buckets next := by
  have found : (Slots.piece oneMember.hashTbl 2860 (2860 + 8)).length = 1 := rfl
  refine (sscan_budget_iff Env.plain oneMember_wellFormed rfl rfl rfl (Shared.holding [])).mpr
    ⟨8, by decide, by decide, Or.inr ?_⟩
  show (1 : Int) ≤ ((1 + (Slots.piece oneMember.hashTbl 2860 (2860 + 8)).length) % 2 ^ 8 : Nat) - 1
  rw [found]
  decide

/-! ### A sparse set -/

theorem home_oneMember : home oneMember.power (textArg 1 "x") = 2867 :=
  show home newDictPow (textArg 1 "x") = 2867 by decide

/-- The one member of the set is in the slot 2867. -/
theorem piece_oneMember {last : Nat} (inside : last ≤ 2 ^ oneMember.power) :
    (Slots.piece oneMember.hashTbl 0 last).length = if 2867 < last then 1 else 0 := by
  have short : (textArg 1 "x").Short := (textArg_arg 1 (by decide)).short
  have member : (textArg 1 "x").content ∈ members oneMember := by
    rw [oneMember, members_dictAdd (dictCreate_wellFormed newDictPow_le).toPlaced short]
    exact Finset.mem_insert_self _ _
  have whole : (Slots.piece oneMember.hashTbl 0 last).length +
      (Slots.piece oneMember.hashTbl last (2 ^ oneMember.power)).length = 1 := by
    have size : (pwr2size oneMember.power).toNat = 2 ^ oneMember.power :=
      pwr2size_toNat oneMember_wellFormed.sized.power_le
    have joined := Slots.piece_append oneMember.hashTbl (Nat.zero_le last) inside
    have count := oneMember_wellFormed.count
    rw [Dict.entries, size, Slots.contents_eq_piece, ← joined, List.length_append] at count
    exact Int.ofNat.inj count.symm
  have passed {first last : Nat} (order : first ≤ last) (inside : last ≤ 2 ^ oneMember.power)
      (here : first ≤ 2867 ∧ 2867 < last) :
      0 < (Slots.piece oneMember.hashTbl first last).length := by
    have counted := count_member oneMember_wellFormed short member order inside
    rw [home_oneMember, if_pos here] at counted
    have bound := List.count_le_length (a := (textArg 1 "x").content)
      (l := ((Slots.piece oneMember.hashTbl first last).map DictEntry.key).map Bss.content)
    rw [counted, List.length_map, List.length_map] at bound
    exact bound
  split
  · rename_i beyond
    have some := passed (Nat.zero_le _) inside ⟨Nat.zero_le _, beyond⟩
    omega
  · rename_i before
    have power : 2 ^ oneMember.power = 4096 := rfl
    have some := passed inside (Nat.le_refl _) ⟨by omega, by omega⟩
    omega

/-- A scan of this set for one member goes on to its slot. -/
theorem stops_oneMember {slots : Nat} (inside : slots ≤ 2 ^ oneMember.power) :
    Stops oneMember 1 1 0 slots ↔ 2867 < slots := by
  have power : 2 ^ oneMember.power = 4096 := rfl
  rw [Stops, Nat.zero_add, piece_oneMember inside, power]
  split <;> omega

/-- It is meant to scan 17 buckets and scans 2868. -/
theorem sscan_leaves_budget :
    ∃ (dict : Dict Obj) (key cursorArg : Bss) (options : List Bss) (set : Dict Unit),
      Reachable (fun _ _ => True) dict ∧ set.WellFormed ∧
      dictLookUp dict key = some (.set set) ∧ bss2int cursorArg = (0, 0) ∧
      scanOptions options 10 none = some (1, none) ∧
      ∀ sh, (∃ buckets next, SetScan Env.plain dict set 1 0
          (sscanCommand Env.plain dict (key :: cursorArg :: options)) sh buckets next) ∧
        ∀ buckets next, SetScan Env.plain dict set 1 0
          (sscanCommand Env.plain dict (key :: cursorArg :: options)) sh buckets next →
          buckets = 2868 ∧ next = 2868 ∧ ¬ KeepsBudget set 1 0 buckets next := by
  have sized := oneMember_wellFormed.sized
  have power : 2 ^ oneMember.power = 4096 := rfl
  have answer : dictLookUp oneSet (textArg 3 "s") = some (.set oneMember) := rfl
  have number : bss2int (textArg 4 "0") = (((0 : UInt32).toNat : Int), 0) := rfl
  have accepted : scanOptions [textArg 5 "COUNT", textArg 6 "1"] 10 none = some (1, none) := rfl
  refine ⟨oneSet, textArg 3 "s", textArg 4 "0", [textArg 5 "COUNT", textArg 6 "1"], oneMember,
    oneSet_reachable, oneMember_wellFormed, answer, number, accepted, fun sh => ⟨?_, ?_⟩⟩
  · exact sscanCommand_setScan sized answer number accepted sh
  · intro buckets next scan
    obtain ⟨walk, final⟩ := scan.walk sized
    have start : ((0 : UInt32) &&& oneMember.bitMask).toNat = 0 := rfl
    rw [start] at walk final
    have inside := walk.inside
    rw [Nat.zero_add] at inside final
    have beyond := (stops_oneMember inside).mp walk.stops
    have least : buckets = 2868 := by
      by_contra other
      refine walk.goesOn 2868 (by decide) (by omega) ((stops_oneMember ?_).mpr (by decide))
      omega
    rw [least, power] at final
    refine ⟨least, UInt32.toNat_inj.mp final, fun keeps => ?_⟩
    have few := keeps.1
    omega

end PseudoRedis

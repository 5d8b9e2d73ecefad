/-
This file follows the commands on lists in the ledger. The operations on the lists of
strings are those of the ledger on their bytes; an entry that is compared is compared by its
bytes, and an index is that of a slice with a single entry.
-/

import PseudoRedis.Keeping
import PseudoRedis.ListIndex
import PseudoRedis.ListRemove

namespace PseudoRedis

variable {dict : Dict Obj} {key : Bss} {value : Option Datum} {env : Env} {entries : List Bss}

/-! ### Lists of strings and lists of bytes -/

/-- Entries are pushed one after the other. -/
theorem map_pushed (side : End) (new entries : List Bss) :
    (new.foldl (listInsert side) entries).map Bss.content =
      pushedAt side (entries.map Bss.content) (new.map Bss.content) := by
  induction new generalizing entries with
  | nil =>
    cases side with
    | left => rfl
    | right => exact (List.append_nil _).symm
  | cons entry rest inductionHypothesis =>
    rw [List.foldl_cons, inductionHypothesis]
    cases side with
    | left =>
      simp only [pushedAt, listInsert, List.map_cons, List.reverse_cons, List.append_assoc,
        List.singleton_append]
    | right =>
      simp only [pushedAt, listInsert, List.map_append, List.map_cons, List.map_nil,
        List.append_assoc, List.singleton_append]

/-- An entry of the longer list was there or is new. -/
theorem mem_pushed {side : End} {new : List Bss} {entry : Bss}
    (member : entry ∈ new.foldl (listInsert side) entries) : entry ∈ entries ∨ entry ∈ new := by
  induction new generalizing entries with
  | nil => exact Or.inl member
  | cons first rest inductionHypothesis =>
    rcases inductionHypothesis member with old | new
    · cases side with
      | left =>
        rcases List.mem_cons.mp old with rfl | old
        · exact Or.inr List.mem_cons_self
        · exact Or.inl old
      | right =>
        rcases List.mem_append.mp old with old | single
        · exact Or.inl old
        · exact Or.inr (List.mem_cons.mpr (Or.inl (List.mem_singleton.mp single)))
    · exact Or.inr (List.mem_cons_of_mem first new)

/-- What is popped from a list that is not empty. -/
theorem listPop_cases (side : End) (filled : entries ≠ []) :
    ∃ entry rest, listPop side entries = some (entry, rest) ∧
      takeEnd side (entries.map Bss.content) = some (entry.content, rest.map Bss.content) ∧
      entry ∈ entries ∧ ∀ other ∈ rest, other ∈ entries := by
  cases entries with
  | nil => exact absurd rfl filled
  | cons entry rest =>
    cases side with
    | left => exact ⟨entry, rest, rfl, rfl, List.mem_cons_self, fun _ => List.mem_cons_of_mem entry⟩
    | right =>
      refine ⟨_, _, rfl, ?_, List.getLast_mem _, fun _ => List.mem_of_mem_dropLast⟩
      rw [takeEnd, List.getLast?_map, List.getLast?_eq_getLast_of_ne_nil filled,
        ← List.map_dropLast]
      rfl

/-- The bytes of a slice are the slice of the bytes. -/
theorem map_slice (entries : List Bss) (first last : Int) :
    (slice entries first last).map Bss.content = slice (entries.map Bss.content) first last := by
  simp only [slice, List.length_map]
  split
  · rfl
  · rw [List.map_take, List.map_drop]

theorem mem_of_slice {first last : Int} {entry : Bss} (member : entry ∈ slice entries first last) :
    entry ∈ entries := by
  simp only [slice] at member
  split at member
  · cases member
  · exact List.mem_of_mem_drop (List.mem_of_mem_take member)

/-! ### Lists under a key -/

/-- A list stands for the bytes of its entries. -/
theorem known_list (answer : dictLookUp dict key = some (.list entries))
    (short : ∀ entry ∈ entries, entry.Short) :
    Known dict key (some (.list (entries.map Bss.content))) := .present answer (.list short)

/-- A list under its key, which goes with the last entry. -/
theorem known_listOrGone (short : ∀ entry ∈ entries, entry.Short)
    (answer : dictLookUp dict key = if entries = [] then none else some (.list entries)) :
    Known dict key (listOrGone (entries.map Bss.content)) := by
  by_cases none : entries = []
  · subst none
    exact .absent answer
  · rw [listOrGone, if_neg (mt List.map_eq_nil_iff.mp none)]
    exact known_list (answer.trans (if_neg none)) short

/-- A list that is put back without entries takes its key along. -/
theorem known_putList (tidy : Tidy dict) (keyShort : key.Short) {rest : List Bss}
    (answer : dictLookUp dict key = some (.list entries)) (short : ∀ entry ∈ rest, entry.Short) :
    Known (putList dict key key rest) key (listOrGone (rest.map Bss.content)) :=
  known_listOrGone short (lookUp_putList_self tidy.placed keyShort answer rest)

theorem known_setList (tidy : Tidy dict) {rest : List Bss}
    (answer : dictLookUp dict key = some (.list entries)) (short : ∀ entry ∈ rest, entry.Short) :
    Known (dictSetVal dict key (.list rest)) key (some (.list (rest.map Bss.content))) :=
  known_list (lookUp_dictSetVal_self tidy.sized answer _) short

/-! ### Pushing and popping -/

/-- `LPUSH` and `RPUSH`, and with them `LPUSHX` and `RPUSHX`, make a list if there is none. -/
theorem lpushrpushCommand_realises (side : End) (tidy : Tidy dict) (known : Known dict key value)
    {new : List Bss} (filled : new ≠ []) (given : ∀ arg ∈ new, arg.Given) :
    Realises (lpushrpushCommand side dict (key :: new)) key
      (pushEdit side (new.map Bss.content) value) := by
  obtain ⟨first, rest, rfl⟩ := List.exists_cons_of_ne_nil filled
  refine listView.edits known (fun answer => ?_)
    (fun obj answer (other : ∀ entries, obj ≠ .list entries) => ?_) ?_
  · have pushed : ∀ entry ∈ (first :: rest).foldl (listInsert side) [], entry.Short :=
      fun entry member => (mem_pushed member).elim (fun none => by cases none)
        fun new => (given entry new).short
    have known' := known_list (lookUp_added tidy.sized key _) pushed
    rw [map_pushed] at known'
    refine ⟨_, ?_, known'⟩
    rw [List.length_map]
    simpa only [lpushrpushCommand, answer] using reports_int _ _
  · simpa only [lpushrpushCommand, answer, other] using reports_fail dict wrongType
  · rintro entries _ (answer : dictLookUp dict key = some (.list entries)) ⟨short, rfl⟩
    have pushed : ∀ entry ∈ (first :: rest).foldl (listInsert side) entries, entry.Short :=
      fun entry member => (mem_pushed member).elim (short entry) fun new => (given entry new).short
    have known' := known_setList tidy answer pushed
    rw [map_pushed] at known'
    refine ⟨_, ?_, known'⟩
    rw [← map_pushed, List.length_map]
    simpa only [lpushrpushCommand, answer] using reports_int _ _

/-- `LPOP` and `RPOP` reply the entry they take, and remove a list without entries. -/
theorem lpoprpopCommand_realises (side : End) (tidy : Tidy dict) (keyShort : key.Short)
    (known : Known dict key value) :
    Realises (lpoprpopCommand side dict [key]) key (popEdit side value) := by
  refine listView.edits known (fun answer => ?_)
    (fun obj answer (other : ∀ entries, obj ≠ .list entries) => ?_) ?_
  · have ran : lpoprpopCommand side dict [key] = nilReply dict := by
      simp only [lpoprpopCommand, answer]
    exact realises_same (.absent answer) (ran ▸ reports_nil dict)
  · simpa only [lpoprpopCommand, answer, other] using reports_fail dict wrongType
  · rintro entries _ (answer : dictLookUp dict key = some (.list entries)) ⟨short, rfl⟩
    obtain ⟨entry, rest, popped, taken, own, others⟩ := listPop_cases side (tidy.filled answer)
    have ran : lpoprpopCommand side dict [key] =
        stringReply (putList dict key key rest) entry.str entry.len := by
      simp only [lpoprpopCommand, answer, popped]
    rw [taken, ran]
    exact ⟨_, reports_string _ (short entry own), known_putList tidy keyShort answer
      fun other member => short other (others other member)⟩

/-! ### Reading -/

theorem llenCommand_realises (known : Known dict key value) :
    Realises (llenCommand dict [key]) key (llenEdit value) := by
  refine listView.reads known (fun answer => ?_)
    (fun obj answer (other : ∀ entries, obj ≠ .list entries) => ?_) ?_
  · simpa only [llenCommand, answer, falseReply] using reports_int dict 0
  · simpa only [llenCommand, answer, other] using reports_fail dict wrongType
  · rintro entries _ (answer : dictLookUp dict key = some (.list entries)) ⟨short, rfl⟩
    rw [List.length_map]
    simpa only [llenCommand, answer] using reports_int dict entries.length

/-- `LINDEX` replies a nil for an index outside the list. -/
theorem lindexCommand_realises (tidy : Tidy dict) (known : Known dict key value) {index : Bss}
    (given : index.Given) :
    Realises (lindexCommand dict [key, index]) key (lindexEdit index.content value) := by
  refine realises_withNumber given.proper.toEnded known (fun refused => if_pos refused)
    fun i number => listView.reads known (fun answer => ?_)
      (fun obj answer (other : ∀ entries, obj ≠ .list entries) => ?_) ?_
  · simpa only [lindexCommand, number, answer, ne_eq, not_true_eq_false, if_false] using
      reports_nil dict
  · simpa only [lindexCommand, number, answer, ne_eq, not_true_eq_false, if_false, other] using
      reports_fail dict wrongType
  · rintro entries _ (answer : dictLookUp dict key = some (.list entries)) ⟨short, rfl⟩
    rw [← map_slice]
    rcases listIndex_cases (isInt64_of_number number) (tidy.few answer) with
      ⟨outside, none⟩ | ⟨place, entry, inside, -, found, single⟩
    · rw [(index_outside key answer number outside).1, none]
      exact reports_nil dict
    · rw [lindex_inside answer number inside found, single]
      exact reports_string dict (short entry (List.mem_of_getElem? found))

/-- The array of the strings a command passes on. -/
theorem reports_passed {run : Run Obj} {passed : List Bss} (passes : Passes env dict run passed)
    (short : ∀ entry ∈ passed, entry.Short) :
    Reports run dict (.array ((passed.map Bss.content).map some)) := by
  have shows : List.Forall₂ ElemShows (passed.map fun entry => ⟨some entry, strNormal⟩)
      ((passed.map Bss.content).map some) := by
    rw [List.map_map, List.forall₂_map_left_iff, List.forall₂_map_right_iff, List.forall₂_same]
    exact fun entry member => ⟨entry, rfl, rfl, short entry member⟩
  rw [passes]
  exact reports_fill env dict shows fun _ => rfl

/-- `LRANGE` shows the slice between two offsets. -/
theorem lrangeCommand_realises (tidy : Tidy dict) (known : Known dict key value) {first last : Bss}
    (firstGiven : first.Given) (lastGiven : last.Given) :
    Realises (lrangeCommand env dict [key, first, last]) key
      (lrangeEdit first.content last.content value) := by
  refine realises_withNumbers firstGiven.proper.toEnded lastGiven.proper.toEnded known
    (fun refused => if_pos refused) fun a b firstNumber lastNumber =>
      listView.reads known (fun answer => ?_)
        (fun obj answer (other : ∀ entries, obj ≠ .list entries) => ?_) ?_
  · exact reports_passed (lrange_absent firstNumber lastNumber answer) fun entry member => by
      cases member
  · have reports := Reports.after (reports_fail dict wrongType) resetReplyArr
    simpa only [lrangeCommand, firstNumber, lastNumber, answer, ne_eq, not_true_eq_false, or_self,
      if_false, other] using reports
  · rintro entries _ (answer : dictLookUp dict key = some (.list entries)) ⟨short, rfl⟩
    rw [← map_slice]
    exact reports_passed (lrange_passes firstNumber lastNumber (tidy.few answer) answer)
      fun entry member => short entry (mem_of_slice member)

/-! ### Editing -/

/-- `LSET` replies the new entry, and a nil for an index outside the list. -/
theorem lsetCommand_realises (tidy : Tidy dict) (known : Known dict key value) {index val : Bss}
    (indexGiven : index.Given) (given : val.Given) :
    Realises (lsetCommand dict [key, index, val]) key
      (lsetEdit index.content val.content value) := by
  refine realises_withNumber indexGiven.proper.toEnded known (fun refused => if_pos refused)
    fun i number => listView.edits known (fun answer => ?_)
      (fun obj answer (other : ∀ entries, obj ≠ .list entries) => ?_) ?_
  · have ran : lsetCommand dict [key, index, val] = nilReply dict := by
      simp only [lsetCommand, number, answer, ne_eq, not_true_eq_false, if_false]
    exact realises_same (.absent answer) (ran ▸ reports_nil dict)
  · simpa only [lsetCommand, number, answer, ne_eq, not_true_eq_false, if_false, other] using
      reports_fail dict wrongType
  · rintro entries _ (answer : dictLookUp dict key = some (.list entries)) ⟨short, rfl⟩
    rw [← map_slice, List.length_map]
    rcases listIndex_cases (isInt64_of_number number) (tidy.few answer) with
      ⟨outside, none⟩ | ⟨place, entry, inside, same, found, single⟩
    · rw [none, if_pos List.map_nil, (index_outside val answer number outside).2]
      exact realises_same (known_list answer short) (reports_nil dict)
    · have some : [entry].map Bss.content ≠ [] := List.cons_ne_nil _ _
      rw [single, if_neg some, same, Int.toNat_natCast, ← List.map_set,
        lset_inside val answer number inside]
      exact ⟨_, reports_string _ given.short, known_setList tidy answer fun other member =>
        (List.mem_or_eq_of_mem_set member).elim (short other) fun same => same ▸ given.short⟩

/-- `LTRIM` leaves the slice, or no key if it is empty. -/
theorem ltrimCommand_realises (tidy : Tidy dict) (keyShort : key.Short)
    (known : Known dict key value) {first last : Bss} (firstGiven : first.Given)
    (lastGiven : last.Given) :
    Realises (ltrimCommand dict [key, first, last]) key
      (ltrimEdit first.content last.content value) := by
  refine realises_withNumbers firstGiven.proper.toEnded lastGiven.proper.toEnded known
    (fun refused => if_pos refused) fun a b firstNumber lastNumber =>
      listView.edits known (fun answer => ?_)
        (fun obj answer (other : ∀ entries, obj ≠ .list entries) => ?_) ?_
  · have ran : ltrimCommand dict [key, first, last] = okReply dict := by
      simp only [ltrimCommand, firstNumber, lastNumber, answer, ne_eq, not_true_eq_false, or_self,
        if_false]
    exact realises_same (.absent answer) (ran ▸ reports_ok dict)
  · simpa only [ltrimCommand, firstNumber, lastNumber, answer, ne_eq, not_true_eq_false, or_self,
      if_false, other] using reports_fail dict wrongType
  · rintro entries _ (answer : dictLookUp dict key = some (.list entries)) ⟨short, rfl⟩
    rw [ltrim_trims firstNumber lastNumber (tidy.few answer) answer, ← map_slice]
    exact ⟨_, reports_ok _, known_listOrGone (fun entry member => short entry (mem_of_slice member))
      (lookUp_trimmed tidy.placed keyShort answer _)⟩

/-- The walk of `_lrem` drops the first occurrences, and counts them. -/
theorem lremForward_dropFirst {bss : Bss} {count target : Int}
    (same : ∀ entry ∈ entries, bssCmp entry bss = 0 ↔ entry.content = bss.content)
    (fewer : count < target) :
    (lremForward bss target count entries).1.map Bss.content =
        dropFirst bss.content (target - count).toNat (entries.map Bss.content) ∧
      (lremForward bss target count entries).2 =
        count + (entries.length - (lremForward bss target count entries).1.length) := by
  induction entries generalizing count with
  | nil =>
    obtain ⟨left, budget⟩ := Int.eq_succ_of_zero_lt (Int.sub_pos.mpr fewer)
    rw [budget]
    exact ⟨rfl, (add_zero count).symm⟩
  | cons entry rest inductionHypothesis =>
    have others : ∀ entry ∈ rest, bssCmp entry bss = 0 ↔ entry.content = bss.content :=
      fun other member => same other (List.mem_cons_of_mem entry member)
    obtain ⟨left, budget⟩ := Int.eq_succ_of_zero_lt (Int.sub_pos.mpr fewer)
    have taken : (target - count).toNat = left + 1 := by omega
    by_cases equal : entry.content = bss.content
    · have test : bssCmp entry bss = 0 ∧ count < target :=
        ⟨(same entry List.mem_cons_self).mpr equal, fewer⟩
      rw [lremForward, if_pos test, taken, List.map_cons, dropFirst, if_pos equal]
      by_cases last : count + 1 = target
      · have done : left = 0 := by omega
        rw [if_pos last, done, dropFirst]
        refine ⟨rfl, ?_⟩
        show count + 1 = count + (((rest.length + 1 : Nat) : Int) - (rest.length : Int))
        omega
      · obtain ⟨dropped, number⟩ := inductionHypothesis others (show count + 1 < target by omega)
        have less : (target - (count + 1)).toNat = left := by omega
        rw [if_neg last, dropped, less, number, List.length_cons]
        exact ⟨rfl, by omega⟩
    · have test : ¬ (bssCmp entry bss = 0 ∧ count < target) := fun both =>
        equal ((same entry List.mem_cons_self).mp both.1)
      obtain ⟨dropped, number⟩ := inductionHypothesis others fewer
      have kept : lremForward bss target count (entry :: rest) =
          (entry :: (lremForward bss target count rest).1,
            (lremForward bss target count rest).2) := by
        rw [lremForward, if_neg test]
      rw [kept, taken, List.map_cons, List.map_cons, dropFirst, if_neg equal, ← taken, ← dropped,
        number, List.length_cons, List.length_cons]
      exact ⟨rfl, by omega⟩

/-- What `_lrem` leaves, and the number of entries it removed. -/
theorem lrem_removeEqual {bss : Bss} {count : Int} (inRange : IsInt64 count)
    (same : ∀ entry ∈ entries, bssCmp entry bss = 0 ↔ entry.content = bss.content) :
    (lrem entries count bss).1.map Bss.content =
        removeEqual count bss.content (entries.map Bss.content) ∧
      (lrem entries count bss).2 = entries.length - (lrem entries count bss).1.length := by
  rw [removeEqual]
  by_cases least : count = llongMin
  · rw [if_pos least, least, lrem_least]
    exact ⟨rfl, (sub_self _).symm⟩
  rw [if_neg least]
  rcases lt_trichotomy count 0 with negative | zero | positive
  · have backwards : ∀ entry ∈ entries.reverse,
        bssCmp entry bss = 0 ↔ entry.content = bss.content := fun entry member =>
      same entry (List.mem_reverse.mp member)
    have negated : toInt64 (-count) = -count := toInt64_of_isInt64 (by
      have lower := inRange.1
      have upper := inRange.2
      simp only [IsInt64, llongMin, llongMax] at lower upper least ⊢
      omega)
    obtain ⟨dropped, number⟩ := lremForward_dropFirst backwards (Int.neg_pos.mpr negative)
    have budget : (-count - 0).toNat = count.natAbs := by omega
    rw [if_pos negative, lrem_of_neg entries bss negative, negated, List.map_reverse, dropped,
      budget, List.map_reverse, number, List.length_reverse, List.length_reverse, zero_add]
    exact ⟨rfl, rfl⟩
  · have keeps : ∀ entry ∈ entries, decide (bssCmp entry bss ≠ 0) =
        decide (entry.content ≠ bss.content) := fun entry member =>
      decide_eq_decide.mpr (same entry member).not
    rw [if_neg (zero ▸ Int.lt_irrefl 0), if_pos zero, zero, lrem, if_neg (Int.lt_irrefl 0),
      if_pos rfl, List.filter_map]
    refine ⟨congrArg (List.map Bss.content) (List.filter_congr keeps), ?_⟩
    have parts := @List.length_eq_length_filter_add _ entries fun entry => bssCmp entry bss = 0
    simp only [← decide_not] at parts
    show ((entries.filter fun entry => bssCmp entry bss = 0).length : Int) =
      entries.length - ((entries.filter fun entry => ¬ bssCmp entry bss = 0).length : Int)
    omega
  · obtain ⟨dropped, number⟩ := lremForward_dropFirst same positive
    have budget : (count - 0).toNat = count.natAbs := by omega
    rw [if_neg (Int.not_lt.mpr (Int.le_of_lt positive)), if_neg (Int.ne_of_gt positive),
      lrem_of_pos entries bss positive, dropped, budget, number, zero_add]
    exact ⟨rfl, rfl⟩

theorem mem_of_lremForward {bss : Bss} {count target : Int} {entry : Bss}
    (member : entry ∈ (lremForward bss target count entries).1) : entry ∈ entries := by
  induction entries generalizing count with
  | nil => cases member
  | cons first rest inductionHypothesis =>
    rw [lremForward] at member
    split at member
    · split at member
      · exact List.mem_cons_of_mem first member
      · exact List.mem_cons_of_mem first (inductionHypothesis member)
    · rcases List.mem_cons.mp member with rfl | later
      · exact List.mem_cons_self
      · exact List.mem_cons_of_mem first (inductionHypothesis later)

theorem mem_of_lrem {bss : Bss} {count : Int} {entry : Bss}
    (member : entry ∈ (lrem entries count bss).1) : entry ∈ entries := by
  rw [lrem] at member
  split at member
  · exact mem_of_lremForward member
  · split at member
    · exact List.mem_of_mem_filter member
    · exact List.mem_reverse.mp (mem_of_lremForward (List.mem_reverse.mp member))

/-- `LREM` replies how many entries it removed, and leaves the rest or no key. -/
theorem lremCommand_realises (tidy : Tidy dict) (keyShort : key.Short)
    (known : Known dict key value) {count bss : Bss} (countGiven : count.Given)
    (given : bss.Given) :
    Realises (lremCommand dict [key, count, bss]) key
      (lremEdit count.content bss.content value) := by
  refine realises_withNumber countGiven.proper.toEnded known (fun refused => if_pos refused)
    fun c number => listView.edits known (fun answer => ?_)
      (fun obj answer (other : ∀ entries, obj ≠ .list entries) => ?_) ?_
  · have ran : lremCommand dict [key, count, bss] = falseReply dict := by
      simp only [lremCommand, number, answer, ne_eq, not_true_eq_false, if_false]
    exact realises_same (.absent answer) (ran ▸ reports_int dict 0)
  · simpa only [lremCommand, number, answer, ne_eq, not_true_eq_false, if_false, other] using
      reports_fail dict wrongType
  · rintro entries _ (answer : dictLookUp dict key = some (.list entries)) ⟨short, rfl⟩
    obtain ⟨left, removed⟩ := lrem_removeEqual (isInt64_of_number number) fun entry member =>
      bssCmp_eq_zero_iff (short entry member) given.short
    rw [← left, List.length_map, List.length_map, ← removed, lrem_run bss answer number]
    exact ⟨_, reports_int _ _, known_putList tidy keyShort answer
      fun entry member => short entry (mem_of_lrem member)⟩

/-- The first entry with the bytes of the pivot is the one that compares equal to it. -/
theorem map_insertAt {pivot val : Bss} {after : Bool}
    (same : ∀ entry ∈ entries, bssCmp entry pivot = 0 ↔ entry.content = pivot.content) :
    (insertAt pivot val after entries).map (List.map Bss.content) =
      insertFirst after pivot.content val.content (entries.map Bss.content) := by
  induction entries with
  | nil => rfl
  | cons entry rest inductionHypothesis =>
    rw [insertAt, List.map_cons, insertFirst]
    by_cases equal : entry.content = pivot.content
    · rw [if_pos ((same entry List.mem_cons_self).mpr equal), if_pos equal]
      cases after <;> rfl
    · rw [if_neg (mt (same entry List.mem_cons_self).mp equal), if_neg equal,
        ← inductionHypothesis fun other member => same other (List.mem_cons_of_mem entry member),
        Option.map_map, Option.map_map]
      rfl

theorem mem_of_insertAt {pivot val entry : Bss} {after : Bool} {inserted : List Bss}
    (ran : insertAt pivot val after entries = some inserted) (member : entry ∈ inserted) :
    entry = val ∨ entry ∈ entries := by
  induction entries generalizing inserted with
  | nil => cases ran
  | cons first rest inductionHypothesis =>
    rw [insertAt] at ran
    split at ran
    · cases ran
      cases after <;> simp only [if_true, Bool.false_eq_true, if_false, List.mem_cons] at member ⊢
      · exact member
      · exact or_left_comm.mp member
    · obtain ⟨others, inner, rfl⟩ := Option.map_eq_some_iff.mp ran
      rcases List.mem_cons.mp member with rfl | later
      · exact Or.inr List.mem_cons_self
      · exact (inductionHypothesis inner later).imp_right (List.mem_cons_of_mem first)

/-- The word that is compared ends with the first zero, as the text of the argument does. -/
theorem direction_content {place : Bss} (ended : place.Ended) :
    direction place.str = direction place.content := by
  obtain ⟨rest, str, -⟩ := ended.str_eq
  have same : cstring place.str = cstring place.content := by
    rw [str]
    exact takeWhile_ended rfl place.content rest
  have compares : strcasecmp place.str = strcasecmp place.content := funext fun word => by
    rw [strcasecmp, strcasecmp, same]
  rw [direction, direction, compares]

/-- `LINSERT` replies the new length, or minus one without the pivot. -/
theorem linsertCommand_realises (tidy : Tidy dict) (known : Known dict key value)
    {place pivot val : Bss} (placeGiven : place.Given) (pivotGiven : pivot.Given)
    (given : val.Given) :
    Realises (linsertCommand dict [key, place, pivot, val]) key
      (linsertEdit place.content pivot.content val.content value) := by
  have word := direction_content placeGiven.proper.toEnded
  rw [linsertEdit, ← word]
  cases way : direction place.str with
  | none => exact realises_fail known (by simp only [linsertCommand, way])
  | some after =>
    refine listView.edits known (fun answer => ?_)
      (fun obj answer (other : ∀ entries, obj ≠ .list entries) => ?_) ?_
    · have ran : linsertCommand dict [key, place, pivot, val] = falseReply dict := by
        simp only [linsertCommand, way, answer]
      exact realises_same (.absent answer) (ran ▸ reports_int dict 0)
    · simpa only [linsertCommand, way, answer, other] using reports_fail dict wrongType
    · rintro entries _ (answer : dictLookUp dict key = some (.list entries)) ⟨short, rfl⟩
      rw [← map_insertAt fun entry member =>
        bssCmp_eq_zero_iff (short entry member) pivotGiven.short]
      cases inserted : insertAt pivot val after entries with
      | none =>
        have ran : linsertCommand dict [key, place, pivot, val] = intReply dict (-1) := by
          simp only [linsertCommand, way, answer, inserted]
        exact realises_same (known_list answer short) (ran ▸ reports_int dict (-1))
      | some entries' =>
        have ran : linsertCommand dict [key, place, pivot, val] =
            intReply (dictSetVal dict key (.list entries')) entries'.length := by
          simp only [linsertCommand, way, answer, inserted]
        refine ⟨_, ?_, known_setList tidy answer fun entry member =>
          (mem_of_insertAt inserted member).elim (fun same => same ▸ given.short) (short entry)⟩
        show Reports _ _ (.number ((entries'.map Bss.content).length : Nat))
        rw [ran, List.length_map]
        exact reports_int _ _

end PseudoRedis

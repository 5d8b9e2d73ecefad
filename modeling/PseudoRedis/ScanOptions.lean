/-
This file is about the arguments of `SSCAN` after the cursor. They are meant to be pairs of a
keyword and a value, `COUNT` with a number that is at least one and `MATCH` with a pattern.
The branch for the pattern asks for the keyword `COUNT` once more, so it is never taken,
and the branch for the number only refuses zero.
-/

import PseudoRedis.Scan

namespace PseudoRedis

/-! ### The grammar of the options -/

inductive ScanOption where
  | count (number : Int)
  | pattern (text : Bytes)

def ScanOption.number : ScanOption → Option Int
  | .count number => some number
  | .pattern _ => none

def ScanOption.text : ScanOption → Option Bytes
  | .count _ => none
  | .pattern text => some text

/-- Pairs of a keyword in any case of its letters and a value, where a count has to be allowed. -/
inductive OptionPairs (allowed : Int → Prop) : List Bss → List ScanOption → Prop
  | empty : OptionPairs allowed [] []
  | count {word val : Bss} {rest : List Bss} {number : Int} {opts : List ScanOption}
      (keyword : strcasecmp word.str (bytes "COUNT") = true)
      (digits : bss2int val = (number, 0)) (fine : allowed number)
      (later : OptionPairs allowed rest opts) :
      OptionPairs allowed (word :: val :: rest) (.count number :: opts)
  | pattern {word val : Bss} {rest : List Bss} {opts : List ScanOption}
      (keyword : strcasecmp word.str (bytes "MATCH") = true)
      (later : OptionPairs allowed rest opts) :
      OptionPairs allowed (word :: val :: rest) (.pattern val.str :: opts)

/-- The last count decides, or 10. -/
def lastCount (opts : List ScanOption) : Int := (opts.filterMap ScanOption.number).getLast?.getD 10

/-- The last pattern decides. -/
def lastPattern (opts : List ScanOption) : Option Bytes := (opts.filterMap ScanOption.text).getLast?

variable {allowed allowed' : Int → Prop} {options : List Bss} {opts opts' : List ScanOption}

/-- A word is not both of the keywords. -/
theorem keyword_apart {str : Bytes} (first : strcasecmp str (bytes "COUNT") = true) :
    strcasecmp str (bytes "MATCH") = false := by
  rw [strcasecmp, beq_iff_eq] at first
  rw [strcasecmp, first]
  decide

/-- A list is read in one way. -/
theorem OptionPairs.unique (first : OptionPairs allowed options opts)
    (second : OptionPairs allowed' options opts') : opts = opts' := by
  induction first generalizing opts' with
  | empty =>
    cases second with
    | empty => rfl
  | count keyword digits fine later inductionHypothesis =>
    cases second with
    | count keyword' digits' fine' later' =>
      rw [digits] at digits'
      cases digits'
      rw [inductionHypothesis later']
    | pattern keyword' later' =>
      rw [keyword_apart keyword] at keyword'
      cases keyword'
  | pattern keyword later inductionHypothesis =>
    cases second with
    | count keyword' digits' fine' later' =>
      rw [keyword_apart keyword'] at keyword
      cases keyword
    | pattern keyword' later' => rw [inductionHypothesis later']

theorem OptionPairs.allowed_of_mem (pairs : OptionPairs allowed options opts) {number : Int}
    (member : ScanOption.count number ∈ opts) : allowed number := by
  induction pairs with
  | empty => cases member
  | count keyword digits fine later inductionHypothesis =>
    rcases List.mem_cons.mp member with same | inRest
    · cases same
      exact fine
    · exact inductionHypothesis inRest
  | pattern keyword later inductionHypothesis =>
    rcases List.mem_cons.mp member with same | inRest
    · cases same
    · exact inductionHypothesis inRest

/-- Which counts are allowed matters for the counts in the list alone. -/
theorem OptionPairs.change (pairs : OptionPairs allowed options opts)
    (fine : ∀ number, ScanOption.count number ∈ opts → allowed' number) :
    OptionPairs allowed' options opts := by
  induction pairs with
  | empty => exact .empty
  | count keyword digits _ later inductionHypothesis =>
    exact .count keyword digits (fine _ List.mem_cons_self)
      (inductionHypothesis fun number member => fine number (List.mem_cons_of_mem _ member))
  | pattern keyword later inductionHypothesis =>
    exact .pattern keyword
      (inductionHypothesis fun number member => fine number (List.mem_cons_of_mem _ member))

theorem lastPattern_eq_none_iff : lastPattern opts = none ↔ opts.filterMap ScanOption.text = [] :=
  List.getLast?_eq_none_iff

/-! ### The option loop -/

/-- The loop of the code takes any pairs of `COUNT` and a number other than zero. -/
theorem OptionPairs.scanned (pairs : OptionPairs (· ≠ 0) options opts)
    (plain : opts.filterMap ScanOption.text = []) (start : Int) :
    scanOptions options start none =
      some ((opts.filterMap ScanOption.number).getLast?.getD start, none) := by
  induction pairs generalizing start with
  | empty => rfl
  | @count word val rest number opts keyword digits fine later inductionHypothesis =>
    have accepted : ¬ ((0 : Int) ≠ 0 ∨ number = 0) := fun refused =>
      refused.elim (fun other => other rfl) fine
    have last : ((ScanOption.count number :: opts).filterMap ScanOption.number).getLast? =
        some ((opts.filterMap ScanOption.number).getLast?.getD number) := List.getLast?_cons
    simp only [scanOptions, if_pos keyword, digits, if_neg accepted]
    rw [last, inductionHypothesis plain number]
    rfl
  | pattern keyword later inductionHypothesis => cases plain

/-- It takes nothing else. -/
theorem pairs_of_scanned {start number : Int} {pattern last : Option Bytes}
    (accepted : scanOptions options start pattern = some (number, last)) :
    last = pattern ∧ ∃ opts, OptionPairs (· ≠ 0) options opts ∧
      opts.filterMap ScanOption.text = [] := by
  fun_induction scanOptions options start pattern with
  | case1 start pattern =>
    cases accepted
    exact ⟨rfl, [], .empty, rfl⟩
  | case2 => cases accepted
  | case3 => cases accepted
  | case4 start pattern word val rest keyword count ret digits fine inductionHypothesis =>
    obtain ⟨same, opts, pairs, plain⟩ := inductionHypothesis accepted
    rw [not_or, not_not] at fine
    rw [fine.1] at digits
    exact ⟨same, _, .count keyword digits fine.2 pairs, plain⟩
  | case5 start pattern word val rest other keyword => exact absurd keyword other
  | case6 => cases accepted

/-! ### What the command does -/

section

variable {env : Env} {dict : Dict Obj} {key cursorArg : Bss} {cursor : Int}

/-- An array reply is no error reply. -/
theorem dbarrReply_ne_fail (s : String) [ErrorText s] (sh sh' : Shared) :
    dbarrReply env dict sh ≠ failReply dict s sh' := by
  rw [failReply_eq]
  intro same
  rw [dbarrReply, arrayReply] at same
  split at same
  · cases same
  · rename_i after ret built
    obtain ⟨enc, -, -, ⟨refused, -⟩ | ⟨-, announced⟩⟩ := createArrReply_inv built
    · exact refused (congrArg Result.ret (Except.ok.inj same))
    · have type := congrArg (fun result => result.sh.curr.replyType) (Except.ok.inj same)
      rw [announced] at type
      exact absurd type (by decide : rplyDbArr ≠ rplyFail)

theorem wrongType_ne_invSynx (sh sh' : Shared) :
    failReply dict wrongType sh ≠ failReply dict invSynx sh' := by
  rw [failReply_eq, failReply_eq]
  intro same
  have size := congrArg (fun result => result.sh.curr.len) (Except.ok.inj same)
  exact absurd size (by decide :
    UInt32.ofNat (bytes wrongType).length ≠ UInt32.ofNat (bytes invSynx).length)

/-- What an accepted list gets is not the syntax error. -/
theorem scanReply_ne_syntax (cursor count : Int) (pattern : Option Bytes) :
    scanReply env dict key cursor count pattern ≠ failReply dict invSynx := by
  intro same
  have here := congrFun same (Shared.holding [])
  rw [scanReply] at here
  split at here
  · split at here
    rw [failReply_eq] at here
    split at here
    · cases here
    · rw [← failReply_eq dict invSynx] at here
      exact dbarrReply_ne_fail invSynx _ _ here
  · exact wrongType_ne_invSynx _ _ here
  · exact dbarrReply_ne_fail invSynx _ _ here

theorem matchElems_text {text : Bytes} {entry : DictEntry Unit} {elem : Elem}
    (listed : elem ∈ matchElems env (some text) entry) :
    env.fnmatch (cstring text) (cstring entry.key.str) = true := by
  by_contra other
  rw [matchElems, if_neg other] at listed
  cases listed

/-- An accepted list gets a scan, and with a pattern only members that match it. -/
theorem scanReply_scans (cursor count : Int) (pattern : Option Bytes)
    (holds : dictLookUp dict key = none ∨ ∃ set, dictLookUp dict key = some (.set set)) :
    ∃ keys next, Scans env dict (scanReply env dict key cursor count pattern) (keys, next) ∧
      ∀ member ∈ keys, ∀ text ∈ pattern,
        env.fnmatch (cstring text) (cstring member.str) = true := by
  rcases holds with absent | ⟨set, answer⟩
  · exact ⟨[], 0, scanReply_absent absent, fun member inside => by cases inside⟩
  · refine ⟨_, _, scanReply_found answer, fun member inside text given => ?_⟩
    obtain ⟨elem, listed, same⟩ := List.mem_filterMap.mp inside
    obtain ⟨index, entry, -, matching⟩ := scanElems_mem _ _ _ _ _ _ _ listed
    obtain rfl := matchElems_key matching
    cases same
    rw [Option.mem_def.mp given] at matching
    exact matchElems_text matching

/-- What the options ask for is done: a list of the grammar gets a scan with the last count and the
last pattern, and any other list the syntax error. -/
structure RespectsOptions (env : Env) (dict : Dict Obj) (key cursorArg : Bss) (cursor : Int)
    (options : List Bss) : Prop where
  accepts : ∀ opts, OptionPairs (1 ≤ ·) options opts →
    sscanCommand env dict (key :: cursorArg :: options) =
      scanReply env dict key cursor (lastCount opts) (lastPattern opts)
  refuses : (¬ ∃ opts, OptionPairs (1 ≤ ·) options opts) →
    sscanCommand env dict (key :: cursorArg :: options) = failReply dict invSynx

/-- A pattern is taken for an error. -/
theorem pattern_refused (number : bss2int cursorArg = (cursor, 0)) (least : 0 ≤ cursor)
    (most : cursor ≤ uint32Max) (pairs : OptionPairs allowed options opts) {text : Bytes}
    (some : lastPattern opts = some text) :
    sscanCommand env dict (key :: cursorArg :: options) = failReply dict invSynx := by
  refine sscanCommand_refused (cursor_inRange number least most)
    (Option.eq_none_iff_forall_ne_some.mpr ?_)
  rintro ⟨count, last⟩ accepted
  obtain ⟨-, opts', pairs', plain⟩ := pairs_of_scanned accepted
  rw [pairs.unique pairs', lastPattern_eq_none_iff.mpr plain] at some
  cases some

theorem counts_accepted (number : bss2int cursorArg = (cursor, 0)) (least : 0 ≤ cursor)
    (most : cursor ≤ uint32Max) (pairs : OptionPairs (· ≠ 0) options opts)
    (plain : lastPattern opts = none) :
    sscanCommand env dict (key :: cursorArg :: options) =
      scanReply env dict key cursor (lastCount opts) none := by
  have scanned := pairs.scanned (lastPattern_eq_none_iff.mp plain) 10
  rw [sscanCommand_accepted (cursor_inRange number least most) scanned, number]
  rfl

/-- For every key and valid cursor the options are respected exactly if they are no correct list
with a pattern and no list of counts with a negative one. -/
theorem scan_options_iff (env : Env) (dict : Dict Obj) (key cursorArg : Bss) (options : List Bss)
    {cursor : Int} (number : bss2int cursorArg = (cursor, 0)) (least : 0 ≤ cursor)
    (most : cursor ≤ uint32Max) :
    RespectsOptions env dict key cursorArg cursor options ↔
      (∀ opts, OptionPairs (1 ≤ ·) options opts → lastPattern opts = none) ∧
      (∀ opts, OptionPairs (· ≠ 0) options opts → lastPattern opts = none →
        ∀ count, ScanOption.count count ∈ opts → 1 ≤ count) := by
  constructor
  · intro respects
    constructor
    · intro opts pairs
      by_contra some
      obtain ⟨text, last⟩ := Option.ne_none_iff_exists'.mp some
      exact scanReply_ne_syntax _ _ _ ((respects.accepts opts pairs).symm.trans
        (pattern_refused number least most pairs last))
    · intro opts pairs plain count member
      by_contra small
      have outside : ¬ ∃ opts, OptionPairs (1 ≤ ·) options opts := by
        rintro ⟨opts', pairs'⟩
        rw [pairs.unique pairs'] at member
        exact small (pairs'.allowed_of_mem member)
      exact scanReply_ne_syntax _ _ _ ((counts_accepted number least most pairs plain).symm.trans
        (respects.refuses outside))
  · rintro ⟨noPattern, positive⟩
    constructor
    · intro opts pairs
      have plain := noPattern opts pairs
      rw [plain]
      refine counts_accepted number least most (pairs.change fun count member => ?_) plain
      have fine := pairs.allowed_of_mem member
      omega
    · intro outside
      refine sscanCommand_refused (cursor_inRange number least most)
        (Option.eq_none_iff_forall_ne_some.mpr ?_)
      rintro ⟨count, last⟩ accepted
      obtain ⟨-, opts, pairs, plain⟩ := pairs_of_scanned accepted
      exact outside ⟨opts, pairs.change (positive opts pairs (lastPattern_eq_none_iff.mpr plain))⟩

end

/-- The options `COUNT 5` in small letters. -/
theorem scan_options_iff_count :
    RespectsOptions Env.plain oneSet (textArg 3 "s") (textArg 4 "0") 0
      [textArg 5 "count", textArg 6 "5"] := by
  have pairs : OptionPairs (1 ≤ ·) [textArg 5 "count", textArg 6 "5"] [.count 5] :=
    .count rfl rfl (by decide) .empty
  refine (scan_options_iff Env.plain oneSet (textArg 3 "s") (textArg 4 "0") _ rfl (by decide)
    (by decide)).mpr ⟨fun opts other => ?_, fun opts other _ count member => ?_⟩
  · rw [other.unique pairs]
    rfl
  · rw [other.unique pairs] at member
    exact pairs.allowed_of_mem member

/-- `MATCH x` is a syntax error, and `COUNT -1` is none. -/
theorem match_refused :
    (OptionPairs (1 ≤ ·) [textArg 5 "MATCH", textArg 6 "x"] [.pattern (textArg 6 "x").str] ∧
      sscanCommand Env.plain oneSet
        [textArg 3 "s", textArg 4 "0", textArg 5 "MATCH", textArg 6 "x"] =
          failReply oneSet invSynx ∧
      ¬ RespectsOptions Env.plain oneSet (textArg 3 "s") (textArg 4 "0") 0
        [textArg 5 "MATCH", textArg 6 "x"]) ∧
    (¬ ∃ opts, OptionPairs (1 ≤ ·) [textArg 5 "COUNT", textArg 6 "-1"] opts) ∧
      ¬ RespectsOptions Env.plain oneSet (textArg 3 "s") (textArg 4 "0") 0
        [textArg 5 "COUNT", textArg 6 "-1"] := by
  have zero : bss2int (textArg 4 "0") = (0, 0) := rfl
  have pattern : OptionPairs (1 ≤ ·) [textArg 5 "MATCH", textArg 6 "x"]
      [.pattern (textArg 6 "x").str] := .pattern rfl .empty
  have negative : OptionPairs (· ≠ 0) [textArg 5 "COUNT", textArg 6 "-1"] [.count (-1)] :=
    .count rfl rfl (by decide) .empty
  have outside : ¬ ∃ opts, OptionPairs (1 ≤ ·) [textArg 5 "COUNT", textArg 6 "-1"] opts := by
    rintro ⟨opts, pairs⟩
    have member : ScanOption.count (-1) ∈ opts := pairs.unique negative ▸ List.mem_cons_self
    exact absurd (pairs.allowed_of_mem member) (by decide)
  have refused := @pattern_refused _ _ _ Env.plain oneSet (textArg 3 "s") _ _ zero (by decide)
    (by decide) pattern _ rfl
  have accepted := @counts_accepted _ _ Env.plain oneSet (textArg 3 "s") _ _ zero (by decide)
    (by decide) negative rfl
  refine ⟨⟨pattern, refused, fun respects => ?_⟩, outside, fun respects => ?_⟩
  · exact scanReply_ne_syntax _ _ _ ((respects.accepts _ pattern).symm.trans refused)
  · exact scanReply_ne_syntax _ _ _ (accepted.symm.trans (respects.refuses outside))

end PseudoRedis

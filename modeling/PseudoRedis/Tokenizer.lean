/-
This file is about `parse_args`. At the bottom it is the two nested loops of the source
over pointers into the request string, here positions in an area, with the array of the
caller; these loops end, and yield what `parseArgs` does. Above, a request string is read
from left to right as quoted and bare tokens, and the loops find exactly these tokens as
long as the array holds them.
-/

import PseudoRedis.Request

namespace PseudoRedis

/-! ### The loops -/

/-- `while(rptr != end && ..) rptr++`, up to a character at which it stops. -/
def seek (data : Bytes) (last : Nat) (stop : UInt8 → Bool) : Nat → Nat → Option (Except Fault Nat)
  | 0, _ => none
  | fuel + 1, rptr =>
      if rptr = last then some (.ok rptr)
      else
        match data[rptr]? with
        | none => some (.error .outOfBounds)
        | some char => if stop char then some (.ok rptr) else seek data last stop fuel (rptr + 1)

/-- `args[(*ret_size)++] = bss_create(..)`, in the array of `process_request`. -/
def addArg (env : Env) (next : Nat) (args : List Bss) (piece : Bytes) :
    Except Fault (List Bss) :=
  if maxArgs ≤ args.length then .error .outOfBounds
  else .ok (args ++ [bssCreate env (next + args.length) piece])

/-- The bytes between two pointers. -/
def between (data : Bytes) (first last : Nat) : Bytes := (data.drop first).take (last - first)

/-- The loop of `parse_args` from `curr` on, with the arguments stored so far. -/
def scanArgs (env : Env) (next : Nat) (data : Bytes) (last : Nat) :
    Nat → Nat → List Bss → Option (Except Fault (List Bss × Int))
  | 0, _, _ => none
  | fuel + 1, curr, args =>
      if last ≤ curr then some (.ok (args, 0))
      else
        match data[curr]? with
        | none => some (.error .outOfBounds)
        | some char =>
            if isspace char then scanArgs env next data last fuel (curr + 1) args
            else if char = 34 then
              match seek data last (· == 34) fuel (curr + 1) with
              | none => none
              | some (.error stop) => some (.error stop)
              | some (.ok rptr) =>
                  if rptr = last then some (.ok (args, eInvArgs))
                  else
                    match addArg env next args (between data (curr + 1) rptr) with
                    | .error stop => some (.error stop)
                    | .ok args => scanArgs env next data last fuel (rptr + 1) args
            else
              match seek data last isspace fuel (curr + 1) with
              | none => none
              | some (.error stop) => some (.error stop)
              | some (.ok rptr) =>
                  match addArg env next args (between data curr rptr) with
                  | .error stop => some (.error stop)
                  | .ok args => scanArgs env next data last fuel rptr args

/-- `parse_args` ends with an outcome, however many steps it is given beyond those it needs. -/
def ScanEnds (env : Env) (next : Nat) (data : Bytes) (len : Nat)
    (outcome : Except Fault (List Bss × Int)) : Prop :=
  ∀ fuel, len < fuel → scanArgs env next data len fuel 0 [] = some outcome

/-! ### Positions -/

variable {data : Bytes} {last : Nat}

/-- The bytes from a position up to the end. -/
def window (data : Bytes) (last curr : Nat) : Bytes := (data.take last).drop curr

theorem length_window (inside : last ≤ data.length) (curr : Nat) :
    (window data last curr).length = last - curr := by
  rw [window, List.length_drop, List.length_take, Nat.min_eq_left inside]

theorem window_nil {curr : Nat} (inside : last ≤ data.length) (before : curr ≤ last)
    (empty : window data last curr = []) : curr = last := by
  have none := length_window inside curr
  rw [empty, List.length_nil] at none
  exact Nat.le_antisymm before (Nat.le_of_sub_eq_zero none.symm)

theorem window_cons {curr : Nat} {char : UInt8} {rest : Bytes}
    (here : window data last curr = char :: rest) :
    curr < last ∧ data[curr]? = some char ∧ window data last (curr + 1) = rest := by
  have found : (data.take last)[curr]? = some char := by
    rw [← List.head?_drop]
    exact congrArg List.head? here
  have below : curr < last := by
    obtain ⟨bound, -⟩ := List.getElem?_eq_some_iff.mp found
    rw [List.length_take] at bound
    omega
  refine ⟨below, ?_, ?_⟩
  · rwa [List.getElem?_take_of_lt below] at found
  · have tail := congrArg List.tail here
    rwa [window, List.tail_drop] at tail

theorem window_append {curr : Nat} {body tail : Bytes}
    (here : window data last curr = body ++ tail) :
    window data last (curr + body.length) = tail := by
  rw [window, ← List.drop_drop]
  show (window data last curr).drop body.length = tail
  rw [here, List.drop_left]

theorem between_window {curr : Nat} {body tail : Bytes}
    (here : window data last curr = body ++ tail) :
    between data curr (curr + body.length) = body := by
  have length := congrArg List.length here
  rw [window, List.length_drop, List.length_take, List.length_append] at length
  have front := congrArg (List.take body.length) here
  rw [List.take_left, window, List.drop_take, List.take_take, Nat.min_eq_left (by omega)] at front
  rw [between, Nat.add_sub_cancel_left, front]

/-- The inner loops stop where the characters they pass over end. -/
theorem seek_eq {stop : UInt8 → Bool} {body tail : Bytes} (inside : last ≤ data.length)
    (passes : ∀ char ∈ body, stop char = false)
    (halts : ∀ char, tail.head? = some char → stop char = true) {fuel rptr : Nat}
    (before : rptr ≤ last) (here : window data last rptr = body ++ tail)
    (enough : last - rptr < fuel) :
    seek data last stop fuel rptr = some (.ok (rptr + body.length)) := by
  obtain ⟨steps, rfl⟩ : ∃ steps, fuel = steps + 1 := ⟨fuel - 1, by omega⟩
  induction body generalizing rptr steps with
  | nil =>
    cases tail with
    | nil => rw [seek, if_pos (window_nil inside before here), List.length_nil, Nat.add_zero]
    | cons char rest =>
      obtain ⟨below, read, -⟩ := window_cons here
      rw [seek, if_neg (Nat.ne_of_lt below), read]
      simp only [halts char rfl, if_true, List.length_nil, Nat.add_zero]
  | cons char rest inductionHypothesis =>
    obtain ⟨below, read, later⟩ := window_cons here
    obtain ⟨fewer, rfl⟩ : ∃ fewer, steps = fewer + 1 := ⟨steps - 1, by omega⟩
    have goesOn := inductionHypothesis (fun other member =>
      passes other (List.mem_cons_of_mem _ member)) below later fewer (by omega)
    rw [seek, if_neg (Nat.ne_of_lt below), read]
    simp only [passes char List.mem_cons_self, Bool.false_eq_true, if_false, goesOn,
      List.length_cons]
    congr 2
    omega

/-- From behind a quote to the next one. -/
theorem seek_quote {body tail : Bytes} {fuel rptr : Nat} (inside : last ≤ data.length)
    (before : rptr ≤ last) (here : window data last rptr = body ++ 34 :: tail)
    (noQuote : 34 ∉ body) (enough : last - rptr < fuel) :
    seek data last (· == 34) fuel rptr = some (.ok (rptr + body.length)) := by
  refine seek_eq inside (fun char member => ?_) (fun char first => ?_) before here enough
  · exact beq_eq_false_iff_ne.mpr fun same => noQuote (same ▸ member)
  · cases first
    rfl

/-- From behind a quote to the end, if there is no other one. -/
theorem seek_dangling {fuel rptr : Nat} (inside : last ≤ data.length) (before : rptr ≤ last)
    (noQuote : 34 ∉ window data last rptr) (enough : last - rptr < fuel) :
    seek data last (· == 34) fuel rptr = some (.ok last) := by
  have whole : window data last rptr = window data last rptr ++ [] := (List.append_nil _).symm
  have reached : rptr + (window data last rptr).length = last := by
    rw [length_window inside, Nat.add_sub_cancel' before]
  refine (seek_eq inside (fun char member => ?_) (fun char first => ?_) before whole
    enough).trans (by rw [reached])
  · exact beq_eq_false_iff_ne.mpr fun same => noQuote (same ▸ member)
  · cases first

/-! ### Tokens -/

inductive Token where
  | quoted (body : Bytes)
  | bare (body : Bytes)

def Token.body : Token → Bytes
  | .quoted body => body
  | .bare body => body

/-- How a token is written. -/
def Token.text : Token → Bytes
  | .quoted body => 34 :: body ++ [34]
  | .bare body => body

/-- Between quotes stands anything but a quote; a bare token has no white space and does not begin
with a quote. -/
def Token.Valid : Token → Prop
  | .quoted body => 34 ∉ body
  | .bare body => body ≠ [] ∧ (∀ char ∈ body, isspace char = false) ∧ body.head? ≠ some 34

/-- A bare token ends at white space. -/
def Token.EndsBefore : Token → Bytes → Prop
  | .quoted _, _ => True
  | .bare _, rest => ∀ char, rest.head? = some char → isspace char = true

/-- The tokens of a request string from left to right, and whether a quote is left open behind
them. -/
inductive Tokenization : List Token → Bool → Bytes → Prop
  | blank {blank : Bytes} (space : ∀ char ∈ blank, isspace char = true) :
      Tokenization [] false blank
  | dangling {blank body : Bytes} (space : ∀ char ∈ blank, isspace char = true)
      (noQuote : 34 ∉ body) : Tokenization [] true (blank ++ 34 :: body)
  | token {blank rest : Bytes} {token : Token} {tokens : List Token} {isOpen : Bool}
      (space : ∀ char ∈ blank, isspace char = true) (valid : token.Valid)
      (ends : token.EndsBefore rest) (later : Tokenization tokens isOpen rest) :
      Tokenization (token :: tokens) isOpen (blank ++ token.text ++ rest)

/-- Tokens with white space between them, and possibly before and behind them. -/
inductive Layout : List Token → Bytes → Prop
  | blank {blank : Bytes} (space : ∀ char ∈ blank, isspace char = true) : Layout [] blank
  | token {blank rest : Bytes} {token : Token} {tokens : List Token}
      (space : ∀ char ∈ blank, isspace char = true) (valid : token.Valid)
      (apart : ∀ char, rest.head? = some char → isspace char = true) (later : Layout tokens rest)
      (spaced : tokens ≠ [] → rest ≠ []) :
      Layout (token :: tokens) (blank ++ token.text ++ rest)

theorem Layout.tokenization {tokens : List Token} {input : Bytes} (layout : Layout tokens input) :
    Tokenization tokens false input := by
  induction layout with
  | blank space => exact .blank space
  | @token blank rest token tokens space valid apart later spaced inductionHypothesis =>
    refine .token space valid ?_ inductionHypothesis
    cases token with
    | quoted body => trivial
    | bare body => exact apart

/-- A string up to the first character at which something stops. -/
theorem exists_split (stop : UInt8 → Bool) (input : Bytes) :
    ∃ body tail, input = body ++ tail ∧ (∀ char ∈ body, stop char = false) ∧
      ∀ char, tail.head? = some char → stop char = true := by
  induction input with
  | nil =>
    refine ⟨[], [], rfl, fun char member => ?_, fun char first => ?_⟩
    · cases member
    · cases first
  | cons char rest inductionHypothesis =>
    cases stops : stop char with
    | true =>
      refine ⟨[], char :: rest, rfl, fun other member => ?_, fun other first => ?_⟩
      · cases member
      · cases first
        exact stops
    | false =>
      obtain ⟨body, tail, rfl, passes, halts⟩ := inductionHypothesis
      exact ⟨char :: body, tail, rfl, List.forall_mem_cons.mpr ⟨stops, passes⟩, halts⟩

/-- Every request string can be read as tokens. -/
theorem exists_tokenization (input : Bytes) :
    ∃ tokens isOpen, Tokenization tokens isOpen input := by
  obtain ⟨blank, behind, split, notStops, starts⟩ := exists_split (fun char => !isspace char) input
  have space : ∀ char ∈ blank, isspace char = true :=
    fun char member => by simpa only [Bool.not_eq_false'] using notStops char member
  cases behind with
  | nil =>
    rw [List.append_nil] at split
    exact ⟨[], false, split ▸ .blank space⟩
  | cons char rest =>
    have notSpace : isspace char = false := by
      simpa only [Bool.not_eq_true'] using starts char rfl
    have length := congrArg List.length split
    rw [List.length_append, List.length_cons] at length
    by_cases quote : char = 34
    · subst quote
      by_cases closed : 34 ∈ rest
      · obtain ⟨body, tail, rest_eq, noQuote⟩ := List.eq_append_cons_of_mem closed
        have shorter : tail.length < input.length := by
          rw [rest_eq, List.length_append, List.length_cons] at length
          omega
        obtain ⟨tokens, isOpen, later⟩ := exists_tokenization tail
        have read := @Tokenization.token _ _ (.quoted body) _ _ space noQuote trivial later
        refine ⟨.quoted body :: tokens, isOpen, ?_⟩
        rw [split, rest_eq]
        simpa only [Token.text, List.append_assoc, List.cons_append, List.nil_append] using read
      · exact ⟨[], true, split ▸ .dangling space closed⟩
    · obtain ⟨body, tail, rest_eq, noSpace, ends⟩ := exists_split isspace rest
      have shorter : tail.length < input.length := by
        rw [rest_eq, List.length_append] at length
        omega
      obtain ⟨tokens, isOpen, later⟩ := exists_tokenization tail
      have valid : (Token.bare (char :: body)).Valid :=
        ⟨List.cons_ne_nil _ _, List.forall_mem_cons.mpr ⟨notSpace, noSpace⟩,
          fun first => quote (Option.some.inj first)⟩
      have read := @Tokenization.token _ _ (.bare (char :: body)) _ _ space valid ends later
      refine ⟨.bare (char :: body) :: tokens, isOpen, ?_⟩
      rw [split, rest_eq]
      simpa only [Token.text, List.append_assoc, List.cons_append] using read
termination_by input.length

/-- A token takes at least one byte. -/
theorem Tokenization.length_le {tokens : List Token} {isOpen : Bool} {input : Bytes}
    (read : Tokenization tokens isOpen input) : tokens.length ≤ input.length := by
  induction read with
  | blank space | dangling space noQuote => exact Nat.zero_le _
  | @token blank rest token tokens isOpen space valid ends later inductionHypothesis =>
    have positive : 0 < token.text.length := by
      cases token with
      | quoted body => exact Nat.succ_pos _
      | bare body => exact List.length_pos_iff.mpr valid.1
    rw [List.length_cons, List.length_append, List.length_append]
    omega

/-! ### The tokens `parseFrom` finds -/

theorem parseFrom_blank {blank : Bytes} (space : ∀ char ∈ blank, isspace char = true)
    (rest : Bytes) : parseFrom .between (blank ++ rest) = parseFrom .between rest := by
  induction blank with
  | nil => rfl
  | cons char others inductionHypothesis =>
    rw [List.cons_append, parseFrom, if_pos (space char List.mem_cons_self)]
    exact inductionHypothesis fun other member => space other (List.mem_cons_of_mem _ member)

theorem parseFrom_quoted {body : Bytes} (noQuote : 34 ∉ body) (begun tail : Bytes) :
    parseFrom (.quoted begun) (body ++ 34 :: tail) =
      consArg (begun ++ body) (parseFrom .between tail) := by
  induction body generalizing begun with
  | nil => rw [List.nil_append, parseFrom, if_pos rfl, List.append_nil]
  | cons char rest inductionHypothesis =>
    obtain ⟨different, later⟩ := not_or.mp (mt List.mem_cons.mpr noQuote)
    rw [List.cons_append, parseFrom, if_neg (Ne.symm different), inductionHypothesis later,
      List.append_assoc]
    rfl

theorem parseFrom_dangling {body : Bytes} (noQuote : 34 ∉ body) (begun : Bytes) :
    parseFrom (.quoted begun) body = ([], eInvArgs) := by
  induction body generalizing begun with
  | nil => rfl
  | cons char rest inductionHypothesis =>
    obtain ⟨different, later⟩ := not_or.mp (mt List.mem_cons.mpr noQuote)
    rw [parseFrom, if_neg (Ne.symm different), inductionHypothesis later]

theorem parseFrom_bare {body tail : Bytes} (noSpace : ∀ char ∈ body, isspace char = false)
    (ends : ∀ char, tail.head? = some char → isspace char = true) (begun : Bytes) :
    parseFrom (.bare begun) (body ++ tail) =
      consArg (begun ++ body) (parseFrom .between tail) := by
  induction body generalizing begun with
  | nil =>
    cases tail with
    | nil =>
      rw [List.append_nil, List.append_nil]
      rfl
    | cons char rest =>
      have space := ends char rfl
      rw [List.nil_append, parseFrom, if_pos space, List.append_nil, parseFrom, if_pos space]
  | cons char rest inductionHypothesis =>
    have inside : ¬ isspace char = true := Bool.eq_false_iff.mp (noSpace char List.mem_cons_self)
    rw [List.cons_append, parseFrom, if_neg inside,
      inductionHypothesis fun other member => noSpace other (List.mem_cons_of_mem _ member),
      List.append_assoc]
    rfl

/-- A token in front of the rest is one argument. -/
theorem parseFrom_token {token : Token} {rest : Bytes} (valid : token.Valid)
    (ends : token.EndsBefore rest) :
    parseFrom .between (token.text ++ rest) = consArg token.body (parseFrom .between rest) := by
  have quote : ¬ isspace 34 = true := by decide
  cases token with
  | quoted body =>
    rw [Token.text, List.cons_append, List.cons_append, parseFrom, if_neg quote, if_pos rfl,
      List.append_assoc]
    exact parseFrom_quoted valid [] rest
  | bare body =>
    obtain ⟨nonempty, noSpace, notQuote⟩ := valid
    obtain ⟨char, others, rfl⟩ := List.exists_cons_of_ne_nil nonempty
    have inside : ¬ isspace char = true := Bool.eq_false_iff.mp (noSpace char List.mem_cons_self)
    have different : char ≠ 34 := fun same => notQuote (congrArg some same)
    rw [Token.text, List.cons_append, parseFrom, if_neg inside, if_neg different]
    exact parseFrom_bare (fun other member => noSpace other (List.mem_cons_of_mem _ member)) ends
      [char]

/-- The arguments are the tokens, and a quote that is left open is the error. -/
theorem parseFrom_tokenization {tokens : List Token} {isOpen : Bool} {input : Bytes}
    (read : Tokenization tokens isOpen input) :
    parseFrom .between input = (tokens.map Token.body, if isOpen then eInvArgs else 0) := by
  induction read with
  | @blank blank space =>
    have parsed := parseFrom_blank space []
    rwa [List.append_nil] at parsed
  | dangling space noQuote =>
    have quote : ¬ isspace 34 = true := by decide
    rw [parseFrom_blank space, parseFrom, if_neg quote, if_pos rfl, parseFrom_dangling noQuote]
    rfl
  | token space valid ends later inductionHypothesis =>
    rw [List.append_assoc, parseFrom_blank space, parseFrom_token valid ends, inductionHypothesis]
    rfl

/-! ### What the loops find -/

/-- The arguments made of the pieces, if the array holds them. -/
def outcome (env : Env) (next : Nat) (pieces : List Bytes) (ret : Int) :
    Except Fault (List Bss × Int) :=
  if maxArgs < pieces.length then .error .outOfBounds else .ok (createArgs env next pieces, ret)

theorem parseArgs_eq {env : Env} {next len : Nat} (inside : len ≤ data.length) :
    parseArgs env next data len = outcome env next (parseFrom .between (data.take len)).1
      (parseFrom .between (data.take len)).2 := by
  rw [parseArgs, if_neg (Nat.not_lt.mpr inside), outcome]

variable {env : Env} {next : Nat} {pieces : List Bytes}

theorem outcome_eq_ok_iff {ret code : Int} {args : List Bss} :
    outcome env next pieces ret = .ok (args, code) ↔
      pieces.length ≤ maxArgs ∧ args = createArgs env next pieces ∧ code = ret := by
  rw [outcome]
  split
  · rename_i many
    exact iff_of_false (fun same => by cases same) fun right => absurd right.1 (Nat.not_le.mpr many)
  · rename_i few
    rw [Except.ok.injEq, Prod.mk.injEq, and_iff_right (Nat.not_lt.mp few), eq_comm, @eq_comm _ ret]

theorem length_createArgs : (createArgs env next pieces).length = pieces.length := by
  have ids := congrArg List.length (ids_createArgs env next pieces)
  rwa [List.length_map, List.length_range'] at ids

theorem createArgs_append (piece : Bytes) :
    createArgs env next (pieces ++ [piece]) =
      createArgs env next pieces ++ [bssCreate env (next + pieces.length) piece] := by
  induction pieces generalizing next with
  | nil => rfl
  | cons first rest inductionHypothesis =>
    rw [List.cons_append, createArgs, inductionHypothesis, createArgs, List.length_cons,
      Nat.add_assoc, Nat.add_comm 1]
    rfl

/-- One more argument is stored, or it is one too many. -/
theorem addArg_createArgs (env : Env) (next : Nat) (few : pieces.length ≤ maxArgs)
    (piece : Bytes) :
    pieces.length < maxArgs ∧ addArg env next (createArgs env next pieces) piece =
        .ok (createArgs env next (pieces ++ [piece])) ∨
      (∀ more ret, outcome env next (pieces ++ piece :: more) ret = .error .outOfBounds) ∧
        addArg env next (createArgs env next pieces) piece = .error .outOfBounds := by
  rw [addArg, length_createArgs]
  rcases Nat.lt_or_ge pieces.length maxArgs with room | full
  · refine Or.inl ⟨room, ?_⟩
    rw [if_neg (Nat.not_le.mpr room), createArgs_append]
  · refine Or.inr ⟨fun more ret => ?_, if_pos full⟩
    rw [outcome, if_pos]
    rw [List.length_append, List.length_cons]
    omega

/-- What one round of the loop meets at a character: where its inner loop stops, and what is left of
the string behind that. -/
inductive Round (data : Bytes) (last fuel curr : Nat) (char : UInt8) (input : Bytes) : Prop
  | space (space : isspace char = true)
      (reads : parseFrom .between input = parseFrom .between (window data last (curr + 1)))
  | quoted (rptr : Nat) (notSpace : isspace char = false) (quote : char = 34)
      (found : seek data last (· == 34) fuel (curr + 1) = some (.ok rptr))
      (forward : curr < rptr) (closed : rptr < last)
      (reads : parseFrom .between input = consArg (between data (curr + 1) rptr)
        (parseFrom .between (window data last (rptr + 1))))
  | dangling (notSpace : isspace char = false) (quote : char = 34)
      (found : seek data last (· == 34) fuel (curr + 1) = some (.ok last))
      (reads : parseFrom .between input = ([], eInvArgs))
  | bare (rptr : Nat) (notSpace : isspace char = false) (notQuote : char ≠ 34)
      (found : seek data last isspace fuel (curr + 1) = some (.ok rptr))
      (forward : curr < rptr) (inside : rptr ≤ last)
      (reads : parseFrom .between input = consArg (between data curr rptr)
        (parseFrom .between (window data last rptr)))

theorem round_cases {fuel curr : Nat} {char : UInt8} {rest : Bytes} (inside : last ≤ data.length)
    (enough : last - curr < fuel + 1) (here : window data last curr = char :: rest) :
    Round data last fuel curr char (char :: rest) := by
  obtain ⟨below, -, later⟩ := window_cons here
  have left : last - (curr + 1) < fuel := by omega
  rw [← List.nil_append rest] at here
  by_cases space : isspace char = true
  · refine .space space ?_
    rw [later, parseFrom, if_pos space]
  · have notSpace : isspace char = false := Bool.eq_false_iff.mpr space
    by_cases quote : char = 34
    · by_cases closed : 34 ∈ rest
      · obtain ⟨body, tail, rfl, noQuote⟩ := List.eq_append_cons_of_mem closed
        obtain ⟨notLast, -, after⟩ := window_cons (window_append later)
        refine .quoted (curr + 1 + body.length) notSpace quote
          (seek_quote inside below later noQuote left) (by omega) notLast ?_
        rw [after, between_window later, parseFrom, if_neg space, if_pos quote,
          parseFrom_quoted noQuote, List.nil_append]
      · refine .dangling notSpace quote (seek_dangling inside below (later ▸ closed) left) ?_
        rw [parseFrom, if_neg space, if_pos quote, parseFrom_dangling closed]
    · obtain ⟨body, tail, rfl, noSpace, ends⟩ := exists_split isspace rest
      have whole : window data last curr = (char :: body) ++ tail := here
      have position : curr + (char :: body).length = curr + 1 + body.length := by
        rw [List.length_cons, Nat.add_comm body.length, Nat.add_assoc]
      have piece := between_window whole
      have after := window_append whole
      have reached : curr + 1 + body.length ≤ last := by
        have length := length_window inside (curr + 1)
        rw [later, List.length_append] at length
        omega
      rw [position] at piece after
      refine .bare (curr + 1 + body.length) notSpace quote
        (seek_eq inside noSpace ends below later left) (by omega) reached ?_
      rw [after, piece, parseFrom, if_neg space, if_neg quote, parseFrom_bare noSpace ends]
      rfl

/-- From a position between two tokens on, the loop adds the arguments of the rest. -/
theorem scanArgs_eq {fuel curr : Nat} (inside : last ≤ data.length) (before : curr ≤ last)
    (enough : last - curr < fuel) (few : pieces.length ≤ maxArgs) :
    scanArgs env next data last fuel curr (createArgs env next pieces) =
      some (outcome env next (pieces ++ (parseFrom .between (window data last curr)).1)
        (parseFrom .between (window data last curr)).2) := by
  induction fuel generalizing curr pieces with
  | zero => cases enough
  | succ fuel inductionHypothesis =>
    cases here : window data last curr with
    | nil =>
      rw [scanArgs, if_pos (Nat.le_of_eq (window_nil inside before here).symm), parseFrom,
        List.append_nil, outcome, if_neg (Nat.not_lt.mpr few)]
    | cons char rest =>
      obtain ⟨below, read, -⟩ := window_cons here
      -- a stored argument is followed by those of what is left
      have stores (piece : Bytes) (position : Nat) (forward : curr < position)
          (reached : position ≤ last) (reads : parseFrom .between (char :: rest) =
            consArg piece (parseFrom .between (window data last position))) :
          (∃ args, addArg env next (createArgs env next pieces) piece = .ok args ∧
            scanArgs env next data last fuel position args =
              some (outcome env next (pieces ++ (parseFrom .between (char :: rest)).1)
                (parseFrom .between (char :: rest)).2)) ∨
          (addArg env next (createArgs env next pieces) piece = .error .outOfBounds ∧
            outcome env next (pieces ++ (parseFrom .between (char :: rest)).1)
              (parseFrom .between (char :: rest)).2 = .error .outOfBounds) := by
        rw [reads, consArg]
        rcases addArg_createArgs env next few piece with ⟨room, added⟩ | ⟨full, added⟩
        · have more : (pieces ++ [piece]).length ≤ maxArgs := by
            rwa [List.length_append, List.length_singleton]
          have goesOn := inductionHypothesis reached (by omega) more
          rw [List.append_assoc, List.singleton_append] at goesOn
          exact Or.inl ⟨_, added, goesOn⟩
        · exact Or.inr ⟨added, full _ _⟩
      rw [scanArgs, if_neg (Nat.not_le.mpr below), read]
      cases round_cases inside enough here with
      | space space reads =>
        simp only [space, if_true]
        rw [inductionHypothesis below (by omega) few, reads]
      | quoted rptr notSpace quote found forward closed reads =>
        subst quote
        simp only [notSpace, found, Nat.ne_of_lt closed, if_true, if_false, Bool.false_eq_true]
        rcases stores _ _ (Nat.lt_succ_of_lt forward) closed reads with
          ⟨args, added, goesOn⟩ | ⟨added, full⟩
        · simp only [added, goesOn]
        · simp only [added, full]
      | dangling notSpace quote found reads =>
        subst quote
        simp only [notSpace, found, if_true, if_false, Bool.false_eq_true]
        rw [reads, List.append_nil, outcome, if_neg (Nat.not_lt.mpr few)]
      | bare rptr notSpace notQuote found forward reached reads =>
        simp only [notSpace, notQuote, found, if_false, Bool.false_eq_true]
        rcases stores _ _ forward reached reads with ⟨args, added, goesOn⟩ | ⟨added, full⟩
        · simp only [added, goesOn]
        · simp only [added, full]

/-- In an area that ends before the request string an inner loop stops at a character or leaves the
area. -/
theorem seek_short {stop : UInt8 → Bool} (short : data.length < last) {fuel rptr : Nat}
    (before : rptr ≤ data.length) (enough : data.length - rptr < fuel) :
    seek data last stop fuel rptr = some (.error .outOfBounds) ∨
      ∃ found, seek data last stop fuel rptr = some (.ok found) ∧ rptr ≤ found ∧
        found < data.length := by
  induction fuel generalizing rptr with
  | zero => cases enough
  | succ fuel inductionHypothesis =>
    rw [seek, if_neg (by omega)]
    rcases Nat.lt_or_ge rptr data.length with inside | outside
    · rw [List.getElem?_eq_getElem inside]
      cases halts : stop data[rptr] with
      | true =>
        simp only [halts, if_true]
        exact Or.inr ⟨rptr, rfl, Nat.le_refl _, inside⟩
      | false =>
        simp only [halts, Bool.false_eq_true, if_false]
        rcases inductionHypothesis inside (by omega) with fails | ⟨found, ends, after, below⟩
        · exact Or.inl fails
        · exact Or.inr ⟨found, ends, Nat.le_of_succ_le after, below⟩
    · rw [List.getElem?_eq_none outside]
      exact Or.inl rfl

theorem addArg_cases (env : Env) (next : Nat) (args : List Bss) (piece : Bytes) :
    addArg env next args piece = .error .outOfBounds ∨
      ∃ more, addArg env next args piece = .ok more := by
  rw [addArg]
  split
  · exact Or.inl rfl
  · exact Or.inr ⟨_, rfl⟩

/-- Then the loops leave the area, unless they leave the array before. -/
theorem scanArgs_short (short : data.length < last) {fuel curr : Nat}
    (before : curr ≤ data.length) (enough : data.length - curr < fuel) (args : List Bss) :
    scanArgs env next data last fuel curr args = some (.error .outOfBounds) := by
  induction fuel generalizing curr args with
  | zero => cases enough
  | succ fuel inductionHypothesis =>
    rw [scanArgs, if_neg (by omega)]
    rcases Nat.lt_or_ge curr data.length with inside | outside
    · rw [List.getElem?_eq_getElem inside]
      by_cases space : isspace data[curr] = true
      · simp only [space, if_true]
        exact inductionHypothesis inside (by omega) args
      · simp only [space, if_false, Bool.false_eq_true]
        by_cases quote : data[curr] = 34
        · simp only [quote, if_true]
          rcases @seek_short data last (· == 34) short fuel (curr + 1) inside (by omega) with
            fails | ⟨found, ends, after, below⟩
          · simp only [fails]
          · have notLast : found ≠ last := by omega
            simp only [ends, notLast, if_false]
            rcases addArg_cases env next args (between data (curr + 1) found) with
              full | ⟨more, added⟩
            · simp only [full]
            · simp only [added]
              exact inductionHypothesis below (by omega) more
        · simp only [quote, if_false]
          rcases @seek_short data last isspace short fuel (curr + 1) inside (by omega) with
            fails | ⟨found, ends, after, below⟩
          · simp only [fails]
          · simp only [ends]
            rcases addArg_cases env next args (between data curr found) with full | ⟨more, added⟩
            · simp only [full]
            · simp only [added]
              exact inductionHypothesis (Nat.le_of_lt below) (by omega) more
    · rw [List.getElem?_eq_none outside]

/-- The loops end with what `parseArgs` gives. -/
theorem scanEnds_parseArgs (env : Env) (next : Nat) (data : Bytes) (len : Nat) :
    ScanEnds env next data len (parseArgs env next data len) := by
  intro fuel enough
  rcases Nat.lt_or_ge data.length len with short | inside
  · rw [parseArgs, if_pos short]
    exact scanArgs_short short (Nat.zero_le _) (by omega) []
  · have scanned := @scanArgs_eq data len env next [] fuel 0 inside (Nat.zero_le len) enough
      (Nat.zero_le _)
    rwa [List.nil_append, window, List.drop_zero, ← parseArgs_eq inside] at scanned

theorem parseArgs_of_scanEnds {env : Env} {next len : Nat} {data : Bytes}
    {result : Except Fault (List Bss × Int)} (ends : ScanEnds env next data len result) :
    parseArgs env next data len = result :=
  have enough := Nat.lt_succ_self len
  Option.some.inj ((scanEnds_parseArgs env next data len (len + 1) enough).symm.trans
    (ends (len + 1) enough))

/-! ### The tokenizer -/

/-- What `parse_args` makes of a request string, wherever it lies: the tokens of a layout the array
holds are its arguments, an open quote is the error, and the loops end. -/
structure Tokenizes (env : Env) (next : Nat) (input : Bytes) : Prop where
  layout : ∀ tokens behind, Layout tokens input → tokens.length ≤ maxArgs →
    ∃ args, ScanEnds env next (input ++ behind) input.length (.ok (args, 0)) ∧
      args.map Bss.content = tokens.map Token.body
  dangling : ∀ tokens behind, Tokenization tokens true input →
    ∃ args, ScanEnds env next (input ++ behind) input.length (.ok (args, eInvArgs))
  ends : ∀ behind, ∃ args ret, ScanEnds env next (input ++ behind) input.length (.ok (args, ret))

/-- The array of `process_request` holds the tokens of the string. -/
def FitsArgs (input : Bytes) : Prop :=
  ∀ tokens isOpen, Tokenization tokens isOpen input → tokens.length ≤ maxArgs

theorem parseArgs_tokenization {len : Nat} {tokens : List Token} {isOpen : Bool}
    (inside : len ≤ data.length) (read : Tokenization tokens isOpen (data.take len)) :
    parseArgs env next data len =
      outcome env next (tokens.map Token.body) (if isOpen then eInvArgs else 0) := by
  rw [parseArgs_eq inside, parseFrom_tokenization read]

/-- Where the loops end without a fault, with the tokens of the string. -/
theorem scanEnds_iff {len : Nat} {tokens : List Token} {isOpen : Bool}
    (inside : len ≤ data.length) (read : Tokenization tokens isOpen (data.take len))
    (env : Env) (next : Nat) (args : List Bss) (ret : Int) :
    ScanEnds env next data len (.ok (args, ret)) ↔
      tokens.length ≤ maxArgs ∧ args = createArgs env next (tokens.map Token.body) ∧
        ret = if isOpen then eInvArgs else 0 := by
  have parsed := @parseArgs_tokenization _ env next _ _ _ inside read
  rw [← List.length_map Token.body, ← outcome_eq_ok_iff, ← parsed]
  constructor
  · exact parseArgs_of_scanEnds
  · intro same
    rw [← same]
    exact scanEnds_parseArgs env next _ _

/-- The same for a string in front of other bytes. -/
theorem scanEnds_append {tokens : List Token} {isOpen : Bool} {input : Bytes}
    (read : Tokenization tokens isOpen input) (env : Env) (next : Nat) (behind : Bytes)
    (args : List Bss) (ret : Int) :
    ScanEnds env next (input ++ behind) input.length (.ok (args, ret)) ↔
      tokens.length ≤ maxArgs ∧ args = createArgs env next (tokens.map Token.body) ∧
        ret = if isOpen then eInvArgs else 0 := by
  have inside : input.length ≤ (input ++ behind).length := by
    rw [List.length_append]
    exact Nat.le_add_right _ _
  have front : Tokenization tokens isOpen ((input ++ behind).take input.length) := by
    rwa [List.take_left]
  exact scanEnds_iff inside front env next args ret

/-- `parse_args` reads a request string right exactly if the array of its caller holds the
tokens. -/
theorem parse_args_tokenizes_iff (env : Env) (next : Nat) (input : Bytes) :
    Tokenizes env next input ↔ FitsArgs input := by
  constructor
  · intro tokenizes tokens isOpen read
    obtain ⟨args, ret, ends⟩ := tokenizes.ends []
    exact ((scanEnds_append read env next [] args ret).mp ends).1
  · intro fits
    refine ⟨fun tokens behind layout few => ?_, fun tokens behind read => ?_, fun behind => ?_⟩
    · refine ⟨_, (scanEnds_append layout.tokenization env next behind _ _).mpr ⟨few, rfl, rfl⟩, ?_⟩
      exact content_createArgs env next _
    · exact ⟨_, (scanEnds_append read env next behind _ _).mpr ⟨fits tokens true read, rfl, rfl⟩⟩
    · obtain ⟨tokens, isOpen, read⟩ := exists_tokenization input
      exact ⟨_, _,
        (scanEnds_append read env next behind _ _).mpr ⟨fits tokens isOpen read, rfl, rfl⟩⟩

/-- So many bare tokens of one letter, and an open quote. -/
def manyTokens : Nat → Bytes
  | 0 => [32, 34]
  | count + 1 => 32 :: 97 :: manyTokens count

theorem manyTokens_tokenization (count : Nat) :
    Tokenization (List.replicate count (.bare [97])) true (manyTokens count) := by
  have space : ∀ char ∈ [(32 : UInt8)], isspace char = true := List.forall_mem_singleton.mpr rfl
  induction count with
  | zero => exact Tokenization.dangling space List.not_mem_nil
  | succ count inductionHypothesis =>
    have valid : (Token.bare [97]).Valid :=
      ⟨List.cons_ne_nil _ _, List.forall_mem_singleton.mpr rfl, by decide⟩
    refine Tokenization.token space valid (fun char first => ?_) inductionHypothesis
    cases count with
    | zero =>
      cases first
      rfl
    | succ fewer =>
      cases first
      rfl

/-- One token more than the array holds, and an open quote: the array is left. -/
theorem parse_args_overruns :
    ∃ (env : Env) (next : Nat) (input : Bytes), ¬ Tokenizes env next input := by
  refine ⟨Env.plain, 0, manyTokens (maxArgs + 1), fun tokenizes => ?_⟩
  have read := manyTokens_tokenization (maxArgs + 1)
  obtain ⟨args, ends⟩ := tokenizes.dangling _ [] read
  have few := ((scanEnds_append read Env.plain 0 [] _ _).mp ends).1
  rw [List.length_replicate] at few
  exact absurd few (Nat.not_le.mpr (Nat.lt_succ_self _))

end PseudoRedis

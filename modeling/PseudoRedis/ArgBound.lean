/-
This file is about the array `process_request` hands to `parse_args`. It has `MAX_ARGS`
places, and `parse_args` does not know how many: it writes one place for each token it
reads. So the writes stay inside the array exactly for the request strings whose tokens it
holds, and no string is refused for having more.
-/

import PseudoRedis.Tokenizer

namespace PseudoRedis

/-! ### The writes -/

/-- The indices at which the loop of `parse_args` writes `args`, from `curr` on with `size` for
`*ret_size`, until it ends. -/
def argWrites (data : Bytes) (last : Nat) : Nat → Nat → Nat → Option (List Nat)
  | 0, _, _ => none
  | fuel + 1, curr, size =>
      if last ≤ curr then some []
      else
        match data[curr]? with
        | none => none
        | some char =>
            if isspace char then argWrites data last fuel (curr + 1) size
            else if char = 34 then
              match seek data last (· == 34) fuel (curr + 1) with
              | some (.ok rptr) =>
                  if rptr = last then some []
                  else (argWrites data last fuel (rptr + 1) (size + 1)).map (size :: ·)
              | _ => none
            else
              match seek data last isspace fuel (curr + 1) with
              | some (.ok rptr) => (argWrites data last fuel rptr (size + 1)).map (size :: ·)
              | _ => none

variable {data : Bytes} {last : Nat}

/-- The loop writes the places behind each other, one for each argument it finds. -/
theorem argWrites_eq {fuel curr : Nat} (size : Nat) (inside : last ≤ data.length)
    (before : curr ≤ last) (enough : last - curr < fuel) :
    argWrites data last fuel curr size =
      some (List.range' size (parseFrom .between (window data last curr)).1.length) := by
  induction fuel generalizing curr size with
  | zero => cases enough
  | succ fuel inductionHypothesis =>
    cases here : window data last curr with
    | nil =>
      rw [argWrites, if_pos (Nat.le_of_eq (window_nil inside before here).symm)]
      rfl
    | cons char rest =>
      obtain ⟨below, read, -⟩ := window_cons here
      rw [argWrites, if_neg (Nat.not_le.mpr below), read]
      cases round_cases inside enough here with
      | space space reads =>
        simp only [space, if_true]
        rw [inductionHypothesis size below (by omega), reads]
      | quoted rptr notSpace quote found forward closed reads =>
        subst quote
        simp only [notSpace, found, Nat.ne_of_lt closed, if_true, if_false, Bool.false_eq_true]
        rw [inductionHypothesis (size + 1) closed (by omega), reads, consArg, List.length_cons,
          List.range'_succ]
        rfl
      | dangling notSpace quote found reads =>
        subst quote
        simp only [notSpace, found, if_true, if_false, Bool.false_eq_true]
        rw [reads]
        rfl
      | bare rptr notSpace notQuote found forward reached reads =>
        simp only [notSpace, notQuote, found, if_false, Bool.false_eq_true]
        rw [inductionHypothesis (size + 1) reached (by omega), reads, consArg, List.length_cons,
          List.range'_succ]
        rfl

/-- From the start of a request string on, one place for each token. -/
theorem argWrites_tokens {tokens : List Token} {isOpen : Bool} {fuel : Nat}
    (inside : last ≤ data.length) (read : Tokenization tokens isOpen (data.take last))
    (enough : last < fuel) :
    argWrites data last fuel 0 0 = some (List.range' 0 tokens.length) := by
  rw [argWrites_eq 0 inside (Nat.zero_le last) enough, window, List.drop_zero,
    parseFrom_tokenization read, List.length_map]

/-! ### The bound -/

/-- `parse_args` writes inside the array of `process_request`, and a request of a known command
with more tokens than it holds is answered with an error. -/
structure BoundsArgs (env : Env) (next : Nat) (request : Request) : Prop where
  writes : ∀ fuel, request.len < fuel → ∃ indices,
    argWrites request.data request.len fuel 0 0 = some indices ∧ ∀ index ∈ indices, index < maxArgs
  refuses : ∀ tokens isOpen, Tokenization tokens isOpen (request.data.take request.len) →
    maxArgs < tokens.length → ∀ command, findCommand request.command = some command →
      readRequest env next request = .fails invArg

/-- The writes are bounded exactly if the array holds the tokens of the request string. -/
theorem parse_args_bounded_iff (env : Env) (next : Nat) (request : Request)
    (inside : request.len ≤ request.data.length) :
    BoundsArgs env next request ↔ FitsArgs (request.data.take request.len) := by
  constructor
  · intro bounded tokens isOpen read
    obtain ⟨indices, same, small⟩ := bounded.writes _ (Nat.lt_succ_self request.len)
    rw [argWrites_tokens inside read (Nat.lt_succ_self _), Option.some.injEq] at same
    by_contra many
    refine Nat.lt_irrefl maxArgs (small maxArgs ?_)
    rw [← same, List.mem_range'_1]
    omega
  · intro fits
    refine ⟨fun fuel enough => ?_, fun tokens isOpen read many => ?_⟩
    · obtain ⟨tokens, isOpen, read⟩ := exists_tokenization (request.data.take request.len)
      refine ⟨_, argWrites_tokens inside read enough, fun index member => ?_⟩
      rw [List.mem_range'_1] at member
      have few := fits tokens isOpen read
      omega
    · exact absurd (fits tokens isOpen read) (Nat.not_le.mpr many)

theorem length_manyTokens (count : Nat) : (manyTokens count).length = 2 * count + 2 := by
  induction count with
  | zero => rfl
  | succ count inductionHypothesis =>
    rw [manyTokens, List.length_cons, List.length_cons, inductionHypothesis]
    omega

/-- `DEL` with so many bare tokens, and an open quote. -/
def manyRequest (count : Nat) (short : 2 * count + 2 ≤ inBufSize) : Request where
  command := bytes "del" ++ List.replicate 13 0
  clientId := 0
  len := (manyTokens count).length
  data := manyTokens count
  inBuffer := length_manyTokens count ▸ short

/-- With too many tokens a place behind the array is written. -/
theorem manyRequest_writes {count : Nat} (short : 2 * count + 2 ≤ inBufSize)
    (many : maxArgs < count) {fuel : Nat} (enough : (manyRequest count short).len < fuel) :
    ∃ indices, argWrites (manyRequest count short).data (manyRequest count short).len fuel 0 0 =
      some indices ∧ maxArgs ∈ indices := by
  have read : Tokenization (List.replicate count (.bare [97])) true
      ((manyRequest count short).data.take (manyRequest count short).len) := by
    show Tokenization _ _ ((manyTokens count).take (manyTokens count).length)
    rw [List.take_length]
    exact manyTokens_tokenization count
  refine ⟨_, argWrites_tokens (Nat.le_refl _) read enough, ?_⟩
  rw [List.length_replicate, List.mem_range'_1]
  omega

/-- `DEL k`. -/
theorem parse_args_bounded_iff_del :
    BoundsArgs Env.plain 0 (textRequest "del" " k" (by decide)) := by
  refine (parse_args_bounded_iff Env.plain 0 (textRequest "del" " k" (by decide))
    (Nat.le_refl _)).mpr fun tokens isOpen read => ?_
  exact Nat.le_trans read.length_le (by decide)

/-- One token more than the array holds is written behind it. -/
theorem parse_args_writes_behind :
    ∃ (env : Env) (next : Nat) (request : Request), request.len ≤ request.data.length ∧
      ¬ BoundsArgs env next request ∧
      ∀ fuel, request.len < fuel → ∃ indices,
        argWrites request.data request.len fuel 0 0 = some indices ∧ maxArgs ∈ indices := by
  have short : 2 * (maxArgs + 1) + 2 ≤ inBufSize := by decide
  refine ⟨Env.plain, 0, manyRequest (maxArgs + 1) short, Nat.le_refl _, fun bounded => ?_,
    fun fuel enough => manyRequest_writes short (Nat.lt_succ_self _) enough⟩
  have enough := Nat.lt_succ_self (manyRequest (maxArgs + 1) short).len
  obtain ⟨indices, same, small⟩ := bounded.writes _ enough
  obtain ⟨written, same', behind⟩ := manyRequest_writes short (Nat.lt_succ_self _) enough
  rw [same, Option.some.injEq] at same'
  exact Nat.lt_irrefl _ (small _ (same' ▸ behind))

end PseudoRedis

/-
This file is about which list `BLPOP` and `BRPOP` take an entry from. The handlers find the
first key that exists and pop the list under it, but they name and remove the first of
their arguments. So they serve a client as they should exactly if the first argument is
the key they found, or if they find none.
-/

import PseudoRedis.NonEmpty

namespace PseudoRedis

variable {side : End} {dict : Dict Obj} {key : Bss}

/-! ### The key that is found -/

/-- The keys before the one that is found do not exist. -/
theorem firstPresent_split {keys : List Bss} {obj : Obj}
    (present : firstPresent dict keys = some (key, obj)) :
    ∃ front back, keys = front ++ key :: back ∧ ∀ other ∈ front, dictLookUp dict other = none := by
  induction keys with
  | nil => cases present
  | cons first rest inductionHypothesis =>
    rw [firstPresent] at present
    split at present
    · cases present
      exact ⟨[], rest, rfl, fun other member => by cases member⟩
    · rename_i absent
      obtain ⟨front, back, split, missing⟩ := inductionHypothesis present
      refine ⟨first :: front, back, by rw [split, List.cons_append], fun other member => ?_⟩
      rcases List.mem_cons.mp member with rfl | later
      · exact absent
      · exact missing other later

theorem firstPresent_append {front back : List Bss} {obj : Obj}
    (missing : ∀ other ∈ front, dictLookUp dict other = none)
    (answer : dictLookUp dict key = some obj) :
    firstPresent dict (front ++ key :: back) = some (key, obj) := by
  induction front with
  | nil =>
    rw [List.nil_append, firstPresent, answer]
  | cons first rest inductionHypothesis =>
    rw [List.cons_append, firstPresent, missing first List.mem_cons_self]
    exact inductionHypothesis fun other member => missing other (List.mem_cons_of_mem _ member)

theorem firstPresent_eq_none_iff {keys : List Bss} :
    firstPresent dict keys = none ↔ ∀ key ∈ keys, dictLookUp dict key = none := by
  induction keys with
  | nil => exact iff_of_true rfl fun key member => by cases member
  | cons first rest inductionHypothesis =>
    rw [firstPresent, List.forall_mem_cons, ← inductionHypothesis]
    cases dictLookUp dict first with
    | none => exact (and_iff_right rfl).symm
    | some obj => exact iff_of_false (Option.some_ne_none _) fun both => by cases both.1

/-! ### Serving a client -/

/-- What is left of a list after its entry at one end is taken. -/
def Taken (side : End) (entries : List Bss) (entry : Bss) (rest : List Bss) : Prop :=
  match side with
  | .left => entries = entry :: rest
  | .right => entries = rest ++ [entry]

theorem taken_of_listPop {entries rest : List Bss} {entry : Bss}
    (out : listPop side entries = some (entry, rest)) : Taken side entries entry rest := by
  cases entries with
  | nil => cases side <;> cases out
  | cons head tail =>
    cases side with
    | left =>
      cases out
      rfl
    | right =>
      simp only [listPop, Option.some.injEq, Prod.mk.injEq] at out
      obtain ⟨rfl, rfl⟩ := out
      exact (List.dropLast_append_getLast (List.cons_ne_nil head tail)).symm

/-- The run takes an entry from the list under the key, puts the key and the entry into the array,
removes the key with an emptied list and leaves the other keys alone. -/
def Pops (side : End) (dict : Dict Obj) (run : Run Obj) (key : Bss) (entries : List Bss) : Prop :=
  ∃ dict' shown entry rest, run = leaving dict' (popped shown entry) 0 ∧
    shown.content = key.content ∧ Taken side entries entry rest ∧
    dictLookUp dict' key = (if rest = [] then none else some (.list rest)) ∧
    ∀ other : Bss, other.Short → other.content ≠ key.content →
      dictLookUp dict' other = dictLookUp dict other

/-- The first key that exists is served, and the client waits, in an unchanged key space, if and
only if there is none. -/
structure Serves (side : End) (dict : Dict Obj) (keys : List Bss) (run : Run Obj) : Prop where
  pops : ∀ front key back entries, keys = front ++ key :: back →
    (∀ other ∈ front, dictLookUp dict other = none) →
    dictLookUp dict key = some (.list entries) → Pops side dict run key entries
  waits : ∀ sh result, run sh = .ok result →
    (result.ret = eBlocked ↔ ∀ key ∈ keys, dictLookUp dict key = none) ∧
      (result.ret = eBlocked → result.dict = dict)

/-- The key is absent or holds a list with an entry. -/
def HoldsList (dict : Dict Obj) (key : Bss) : Prop :=
  dictLookUp dict key = none ∨
    ∃ entries, dictLookUp dict key = some (.list entries) ∧ entries ≠ []

/-- Two runs that leave different first elements are different. -/
theorem leaving_popped {dict dict' : Dict Obj} {shown shown' entry entry' : Bss}
    (same : leaving dict (popped shown entry) 0 = leaving dict' (popped shown' entry') 0) :
    shown = shown' := by
  have results := congrFun same (Shared.holding [])
  have elems := congrArg (fun result : Result Obj => result.sh.elems) (Except.ok.inj results)
  have few (first second : Bss) : 256 * ((popped first second).length / 256) = 0 := by
    rw [show (popped first second).length = 2 from rfl]
  simp only [elems_fill, few, List.drop_zero] at elems
  cases elems
  rfl

theorem blpopbrpopCommand_waits {first : Bss} {rest : List Bss}
    (absent : ∀ key ∈ first :: rest, dictLookUp dict key = none) :
    blpopbrpopCommand side dict (first :: rest) = leaving dict [] eBlocked := by
  simp only [blpopbrpopCommand, firstPresent_eq_none_iff.mpr absent]

/-- Whatever list is found, it is the first argument that is named and removed. -/
theorem blpopbrpopCommand_pops {first : Bss} {rest : List Bss} {entries : List Bss}
    (present : firstPresent dict (first :: rest) = some (key, .list entries))
    (some : entries ≠ []) :
    ∃ entry left, Taken side entries entry left ∧
      blpopbrpopCommand side dict (first :: rest) =
        leaving (putList dict key first left) (popped first entry) 0 := by
  cases out : listPop side entries with
  | none => exact absurd (eq_nil_of_listPop out) some
  | some pair =>
    refine ⟨pair.1, pair.2, taken_of_listPop out, ?_⟩
    simp only [blpopbrpopCommand, present, out]

theorem serves_of_absent {first : Bss} {rest : List Bss}
    (absent : ∀ key ∈ first :: rest, dictLookUp dict key = none) :
    Serves side dict (first :: rest) (blpopbrpopCommand side dict (first :: rest)) := by
  refine ⟨?_, ?_⟩
  · intro front key back entries split missing answer
    rw [absent key (split ▸ List.mem_append_right _ List.mem_cons_self)] at answer
    cases answer
  · intro sh result ran
    rw [blpopbrpopCommand_waits absent] at ran
    cases ran
    exact ⟨iff_of_true rfl absent, fun _ => rfl⟩

/-- A client whose first argument exists is served from it. -/
theorem serves_of_first {first : Bss} {rest entries : List Bss} (placed : dict.Placed)
    (short : first.Short) (list : dictLookUp dict first = some (.list entries))
    (some : entries ≠ []) :
    Serves side dict (first :: rest) (blpopbrpopCommand side dict (first :: rest)) := by
  have present : firstPresent dict (first :: rest) = Option.some (first, .list entries) := by
    rw [firstPresent, list]
  obtain ⟨entry, left, taken, ran⟩ := @blpopbrpopCommand_pops side _ _ _ _ _ present some
  refine ⟨?_, ?_⟩
  · intro front other back entries' split missing answer
    have same := @firstPresent_append _ _ _ back _ missing answer
    rw [← split, present] at same
    cases same
    exact ⟨putList dict first first left, first, entry, left, ran, rfl, taken,
      lookUp_putList_self placed short list left, fun other otherShort different =>
        lookUp_putList_of_ne placed short otherShort different left⟩
  · intro sh result ran'
    rw [ran] at ran'
    cases ran'
    have answered : (0 : Int) ≠ eBlocked := by decide
    refine ⟨iff_of_false answered fun absent => ?_, fun blocked => absurd blocked answered⟩
    rw [absent first List.mem_cons_self] at list
    cases list

/-- The reply names the first argument, so a client that is served from a key has its name there. -/
theorem first_of_serves {first : Bss} {rest entries : List Bss} (placed : dict.Placed)
    (short : ∀ key ∈ first :: rest, key.Short)
    (present : firstPresent dict (first :: rest) = some (key, .list entries))
    (some : entries ≠ [])
    (serves : Serves side dict (first :: rest) (blpopbrpopCommand side dict (first :: rest))) :
    dictLookUp dict first ≠ none := by
  obtain ⟨entry, left, -, ran⟩ := @blpopbrpopCommand_pops side _ _ _ _ _ present some
  obtain ⟨list, inKeys⟩ := firstPresent_lookUp present
  obtain ⟨front, back, split, missing⟩ := firstPresent_split present
  obtain ⟨dict', shown, entry', rest', same, named, -⟩ :=
    serves.pops front key back entries split missing list
  rw [ran] at same
  rw [← leaving_popped same] at named
  rw [lookUp_of_content placed (short key inKeys) (short first List.mem_cons_self) named, list]
  exact Option.some_ne_none _

/-- `BLPOP` and `BRPOP` serve their keys exactly if none of them exists or the first one does. -/
theorem blpopbrpop_serves_iff (side : End) {dict : Dict Obj} (placed : dict.Placed) (first : Bss)
    (rest : List Bss) (short : ∀ key ∈ first :: rest, key.Short)
    (holds : ∀ key ∈ first :: rest, HoldsList dict key) :
    Serves side dict (first :: rest) (blpopbrpopCommand side dict (first :: rest)) ↔
      (∀ key ∈ first :: rest, dictLookUp dict key = none) ∨ dictLookUp dict first ≠ none := by
  constructor
  · intro serves
    cases present : firstPresent dict (first :: rest) with
    | none => exact Or.inl (firstPresent_eq_none_iff.mp present)
    | some pair =>
      obtain ⟨key, obj⟩ := pair
      obtain ⟨answer, inKeys⟩ := firstPresent_lookUp present
      rcases holds key inKeys with absent | ⟨entries, list, some⟩
      · rw [absent] at answer
        cases answer
      · rw [list] at answer
        cases answer
        exact Or.inr (first_of_serves placed short present some serves)
  · rintro (absent | there)
    · exact serves_of_absent absent
    · obtain ⟨entries, list, some⟩ := (holds first List.mem_cons_self).resolve_left there
      exact serves_of_first placed (short first List.mem_cons_self) list some

theorem pushedKey_placed : pushedKey.Placed :=
  dictAdd_placed (dictCreate_wellFormed (by decide)).toPlaced (textArg_arg 1 (by decide)).short _

theorem pushedKey_holds :
    ∀ key ∈ [textArg 3 "a", textArg 4 "b"], key.Short ∧ HoldsList pushedKey key := by
  simp only [List.forall_mem_cons]
  refine ⟨⟨(textArg_arg _ (by decide)).short, Or.inl rfl⟩, ⟨(textArg_arg _ (by decide)).short,
    Or.inr ⟨[textArg 2 "x"], rfl, List.cons_ne_nil _ _⟩⟩, fun key inside => ?_⟩
  cases inside

/-- After `RPUSH b x`, `BLPOP a b` names `a` and keeps `b` with an empty list. -/
theorem blpop_other_key :
    pushedKey.Placed ∧
      (∀ key ∈ [textArg 3 "a", textArg 4 "b"], key.Short ∧ HoldsList pushedKey key) ∧
      ¬ Serves .left pushedKey [textArg 3 "a", textArg 4 "b"]
        (blpopCommand pushedKey [textArg 3 "a", textArg 4 "b"]) := by
  refine ⟨pushedKey_placed, pushedKey_holds, fun serves => ?_⟩
  obtain ⟨dict', shown, entry, rest, same, named, -⟩ := serves.pops [textArg 3 "a"]
    (textArg 4 "b") [] [textArg 2 "x"] rfl
    (fun other member => by rw [List.mem_singleton.mp member]; rfl) rfl
  have ran : blpopCommand pushedKey [textArg 3 "a", textArg 4 "b"] =
      leaving emptiedKey (popped (textArg 3 "a") (textArg 2 "x")) 0 := rfl
  rw [ran] at same
  rw [← leaving_popped same] at named
  exact absurd named (by decide)

/-- After `RPUSH b x`, `BLPOP b a` is served. -/
theorem blpopbrpop_serves_iff_one :
    pushedKey.Placed ∧ Serves .left pushedKey [textArg 4 "b", textArg 3 "a"]
      (blpopbrpopCommand .left pushedKey [textArg 4 "b", textArg 3 "a"]) := by
  have both : ∀ key ∈ [textArg 4 "b", textArg 3 "a"], key.Short ∧ HoldsList pushedKey key := by
    intro key inside
    exact pushedKey_holds key (List.mem_reverse.mp inside)
  refine ⟨pushedKey_placed, (blpopbrpop_serves_iff .left pushedKey_placed _ _
    (fun key inside => (both key inside).1) fun key inside => (both key inside).2).mpr
      (Or.inr ?_)⟩
  exact Option.some_ne_none (Obj.list [textArg 2 "x"])

end PseudoRedis

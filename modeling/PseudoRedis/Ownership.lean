/-
This file is about who holds a buffer. The key space holds each of its allocations
once, and so does the reply array hold those it is to release; what `create_arr_reply`
has released is held by neither. A handler passes buffers from its arguments and the
key space to the array, an encoding from the array to those released. While the array
shows no released buffer, an encoding touches none and releases none twice; the array it
leaves shows one exactly if it had one to release and got as far.
-/

import Mathlib.Data.List.Nodup
import PseudoRedis.Commands.Blocking

namespace PseudoRedis

/-! ### What an encoding releases -/

theorem freed_subset_read {elem : Elem} {id : Nat} (released : id ∈ elem.freed) :
    id ∈ elem.read := by
  obtain ⟨bss, type⟩ := elem
  simp only [Elem.freed] at released
  split at released
  · cases released
  · rename_i string
    cases bss with
    | none => cases released
    | some bss =>
      simp only at released
      split at released
      · rw [List.mem_singleton.mp released, read_ni string]
        exact List.mem_cons_self
      · cases released

theorem freed_nodup (elem : Elem) : elem.freed.Nodup := by
  obtain ⟨bss, type⟩ := elem
  simp only [Elem.freed]
  split
  · exact List.nodup_nil
  · cases bss with
    | none => exact List.nodup_nil
    | some bss =>
      simp only
      split
      · exact List.nodup_singleton _
      · exact List.nodup_nil

/-- One element is read, and released if it is encoded. -/
theorem encodeElem_released {enc next : Encoder} {elem : Elem} {ret : Int}
    (step : encodeElem enc elem = .ok (next, ret)) :
    next.stale = (elem.read.filter fun id => id ∈ enc.released) ++ enc.stale ∧
      (next.released = enc.released ∨ next.released = elem.freed ++ enc.released) := by
  obtain ⟨bss, type⟩ := elem
  by_cases nil : strNil &&& type ≠ 0
  · simp only [encodeElem, if_pos nil] at step
    simp only [Elem.read, if_pos nil]
    split at step
    · cases step
      exact ⟨rfl, Or.inl rfl⟩
    · cases step
      exact ⟨rfl, Or.inl rfl⟩
  · simp only [encodeElem, if_neg nil] at step
    cases bss with
    | none => cases step
    | some bss =>
      simp only at step
      rw [read_ni nil]
      split at step
      · cases step
        exact ⟨rfl, Or.inl rfl⟩
      · split at step
        · cases step
        · cases step
          refine ⟨rfl, ?_⟩
          simp only [Elem.freed, if_neg nil]
          by_cases owned : type &&& needFree ≠ 0
          · rw [if_pos owned, if_pos owned]
            exact Or.inr rfl
          · rw [if_neg owned]
            exact Or.inl rfl

/-- No element releases a buffer that a later one reads. -/
def Separate (elems : List Elem) : Prop :=
  elems.Pairwise fun earlier later => ∀ id ∈ earlier.freed, id ∉ later.read

/-- No element reads one of these buffers. -/
def Clean (elems : List Elem) (released : List Nat) : Prop :=
  ∀ elem ∈ elems, ∀ id ∈ elem.read, id ∉ released

/-- The next iteration finds nothing released that it reads. -/
theorem clean_step {enc next : Encoder} {elem : Elem} {rest : List Elem} {ret : Int}
    (step : encodeElem enc elem = .ok (next, ret)) (apart : Separate (elem :: rest))
    (clean : Clean (elem :: rest) enc.released) (once : enc.released.Nodup) :
    next.stale = enc.stale ∧ next.released.Nodup ∧ Clean rest next.released := by
  obtain ⟨stale, released⟩ := encodeElem_released step
  have here := clean elem List.mem_cons_self
  have later : Clean rest enc.released :=
    fun other member => clean other (List.mem_cons_of_mem _ member)
  refine ⟨?_, ?_⟩
  · have untouched : (elem.read.filter fun id => id ∈ enc.released) = [] := by
      refine List.filter_eq_nil_iff.mpr fun id read => ?_
      rw [decide_eq_true_eq]
      exact here id read
    rw [stale, untouched, List.nil_append]
  · rcases released with same | more
    · rw [same]
      exact ⟨once, later⟩
    · rw [more]
      refine ⟨List.Nodup.append (freed_nodup elem) once fun id own old =>
        here id (freed_subset_read own) old, fun other member id read inside => ?_⟩
      rcases List.mem_append.mp inside with own | old
      · exact (List.pairwise_cons.mp apart).1 other member id own read
      · exact later other member id read old

/-- An encoding touches nothing released before, and releases what its elements own once. -/
theorem encodeElems_released {elems : List Elem} {enc result : Encoder} {ret : Int}
    (run : encodeElems enc elems = .ok (result, ret)) (apart : Separate elems)
    (clean : Clean elems enc.released) (once : enc.released.Nodup) :
    result.stale = enc.stale ∧ result.released.Nodup ∧
      ∀ id ∈ result.released, id ∈ enc.released ∨ ∃ elem ∈ elems, id ∈ elem.freed := by
  induction elems generalizing enc with
  | nil =>
    cases run
    exact ⟨rfl, once, fun id inside => Or.inl inside⟩
  | cons elem rest inductionHypothesis =>
    have own {next : Encoder} {code : Int} (step : encodeElem enc elem = .ok (next, code)) :
        ∀ id ∈ next.released, id ∈ enc.released ∨ ∃ other ∈ elem :: rest, id ∈ other.freed := by
      intro id inside
      rcases (encodeElem_released step).2 with same | more
      · exact Or.inl (same ▸ inside)
      · rw [more] at inside
        rcases List.mem_append.mp inside with freed | old
        · exact Or.inr ⟨elem, List.mem_cons_self, freed⟩
        · exact Or.inl old
    rcases encodeElems_cons_inv run with ⟨step, -⟩ | ⟨next, step, later⟩
    · obtain ⟨stale, nextOnce, -⟩ := clean_step step apart clean once
      exact ⟨stale, nextOnce, own step⟩
    · obtain ⟨stale, nextOnce, nextClean⟩ := clean_step step apart clean once
      obtain ⟨same, resultOnce, released⟩ := inductionHypothesis later
        (List.pairwise_cons.mp apart).2 nextClean nextOnce
      refine ⟨same.trans stale, resultOnce, fun id inside => ?_⟩
      rcases released id inside with old | ⟨other, member, freed⟩
      · exact own step id old
      · exact Or.inr ⟨other, List.mem_cons_of_mem _ member, freed⟩

/-- Nothing is to be released, or the first element is and does not fit a reply. -/
def Quiet (elems : List Elem) : Prop :=
  (∀ elem ∈ elems, elem.freed = []) ∨
    ∃ first rest, elems = first :: rest ∧ first.freed ≠ [] ∧ maxRplySize < first.needed 0

theorem encodeElems_quiet {elems : List Elem} {enc result : Encoder} {ret : Int}
    (run : encodeElems enc elems = .ok (result, ret)) (start : enc.totalLen = 0)
    (quiet : Quiet elems) : result.released = enc.released := by
  rcases quiet with lent | ⟨first, rest, rfl, owned, long⟩
  · clear start
    induction elems generalizing enc with
    | nil =>
      cases run
      rfl
    | cons elem rest inductionHypothesis =>
      have same {next : Encoder} {code : Int} (step : encodeElem enc elem = .ok (next, code)) :
          next.released = enc.released := by
        rcases (encodeElem_released step).2 with same | more
        · exact same
        · rw [more, lent elem List.mem_cons_self, List.nil_append]
      rcases encodeElems_cons_inv run with ⟨step, -⟩ | ⟨next, step, later⟩
      · exact same step
      · rw [inductionHypothesis later fun other member =>
          lent other (List.mem_cons_of_mem _ member), same step]
  · obtain ⟨bss, type⟩ := first
    have string : ¬ (strNil &&& type ≠ 0) := by
      intro nil
      refine owned ?_
      simp only [Elem.freed, if_pos nil]
    cases bss with
    | none =>
      refine absurd ?_ owned
      simp only [Elem.freed, if_neg string]
    | some bss =>
      simp only [Elem.needed, if_neg string, ← start] at long
      have refused : encodeElem enc ⟨some bss, type⟩ =
          .ok ({ enc.touch bss with type }, eTooLong) := by
        simp only [encodeElem, if_neg string]
        exact if_pos long
      rw [encodeElems, refused] at run
      cases run
      rfl

/-- What is released stays released. -/
theorem encodeElems_keeps {elems : List Elem} {enc result : Encoder} {ret : Int}
    (run : encodeElems enc elems = .ok (result, ret)) {id : Nat} (old : id ∈ enc.released) :
    id ∈ result.released := by
  induction elems generalizing enc with
  | nil =>
    cases run
    exact old
  | cons elem rest inductionHypothesis =>
    have kept {next : Encoder} {code : Int} (step : encodeElem enc elem = .ok (next, code)) :
        id ∈ next.released := by
      rcases (encodeElem_released step).2 with same | more
      · exact same ▸ old
      · exact more ▸ List.mem_append_right _ old
    rcases encodeElems_cons_inv run with ⟨step, -⟩ | ⟨next, step, later⟩
    · exact kept step
    · exact inductionHypothesis later (kept step)

/-- An element to be released that fits a reply is released when it is the first. -/
theorem encodeElem_releases {elem : Elem} {enc next : Encoder} {ret : Int}
    (step : encodeElem enc elem = .ok (next, ret)) (start : enc.totalLen = 0)
    (room : elem.needed 0 ≤ maxRplySize) {id : Nat} (frees : id ∈ elem.freed) :
    id ∈ next.released := by
  obtain ⟨bss, type⟩ := elem
  by_cases nil : strNil &&& type ≠ 0
  · rw [Elem.freed, if_pos nil] at frees
    cases frees
  · cases bss with
    | none =>
      rw [Elem.freed, if_neg nil] at frees
      cases frees
    | some bss =>
      simp only [Elem.needed, if_neg nil] at room
      simp only [Elem.freed, if_neg nil] at frees
      simp only [encodeElem, if_neg nil, start] at step
      rw [if_neg (Nat.not_lt.mpr room)] at step
      split at step
      · cases step
      · cases step
        by_cases owned : type &&& needFree ≠ 0
        · rw [if_pos owned] at frees ⊢
          rw [List.mem_singleton.mp frees]
          exact List.mem_cons_self
        · rw [if_neg owned] at frees
          cases frees

/-! ### Replies -/

/-- What an array reply leaves of the encoding. -/
theorem createArrReply_encoded {env : Env} {sh after : Shared} {arrType : UInt8} {ret : Int}
    (built : createArrReply env sh arrType = .ok (after, ret)) :
    after.elems = sh.elems ∧ ∃ enc code, encodeElems (sh.encoder env) sh.elems = .ok (enc, code) ∧
      after.released = enc.released ∧ after.stale = enc.stale := by
  obtain ⟨whole, encoded, -, kept⟩ := createArrReply_inv built
  have same : after.elems = sh.elems ∧ after.released = whole.released ∧
      after.stale = whole.stale := by
    rcases kept with ⟨-, rfl⟩ | ⟨-, rfl⟩
    · exact ⟨rfl, rfl, rfl⟩
    · exact ⟨rfl, rfl, rfl⟩
  refine ⟨same.1, ?_⟩
  rcases encodeArr_inv encoded with ⟨run, -⟩ | ⟨-, last, run, rfl⟩
  · exact ⟨_, _, run, same.2⟩
  · exact ⟨_, _, run, same.2⟩

theorem createArrReply_quiet {env : Env} {sh after : Shared} {arrType : UInt8} {ret : Int}
    (built : createArrReply env sh arrType = .ok (after, ret)) (quiet : Quiet sh.elems) :
    after.released = sh.released := by
  obtain ⟨-, enc, code, run, released, -⟩ := createArrReply_encoded built
  exact released.trans (encodeElems_quiet run rfl quiet)

/-! ### Holders -/

/-- An allocation that was made and that the key space does not hold. -/
def Gone (dict : Dict Obj) (next id : Nat) : Prop := 0 < id ∧ id < next ∧ id ∉ dict.ids

/-- Every allocation before `next` has at most one holder: the key space, the reply array for those
it is to release, or none once it is released. An array that released nothing shows nothing that
is released. -/
structure Owned (dict : Dict Obj) (next : Nat) (sh : Shared) : Prop where
  once : dict.ids.Nodup
  made : ∀ id ∈ dict.ids, 0 < id ∧ id < next
  releasedOnce : sh.released.Nodup
  released : ∀ id ∈ sh.released, Gone dict next id
  untouched : sh.stale = []
  apart : Separate sh.elems
  owned : ∀ elem ∈ sh.elems, ∀ id ∈ elem.freed, Gone dict next id
  quiet : Quiet sh.elems → Clean sh.elems sh.released

variable {dict dict' : Dict Obj} {next : Nat} {sh sh' : Shared} {env : Env} {args : List Bss}

/-- The state of the reply itself has no part in it. -/
theorem Owned.congr (owned : Owned dict next sh) (elems : sh'.elems = sh.elems)
    (released : sh'.released = sh.released) (stale : sh'.stale = sh.stale) :
    Owned dict next sh' := by
  refine ⟨owned.once, owned.made, ?_, ?_, stale.trans owned.untouched, ?_, ?_, ?_⟩
  · rw [released]
    exact owned.releasedOnce
  · rw [released]
    exact owned.released
  · rw [elems]
    exact owned.apart
  · rw [elems]
    exact owned.owned
  · rw [elems, released]
    exact owned.quiet

theorem Owned.mono (owned : Owned dict next sh) {later : Nat} (after : next ≤ later) :
    Owned dict later sh := by
  have stays {id : Nat} (gone : Gone dict next id) : Gone dict later id :=
    ⟨gone.1, Nat.lt_of_lt_of_le gone.2.1 after, gone.2.2⟩
  exact ⟨owned.once,
    fun id held => ⟨(owned.made id held).1, Nat.lt_of_lt_of_le (owned.made id held).2 after⟩,
    owned.releasedOnce, fun id inside => stays (owned.released id inside), owned.untouched,
    owned.apart, fun elem member id freed => stays (owned.owned elem member id freed),
    owned.quiet⟩

/-- Encoding a clean array. -/
theorem Owned.encode (owned : Owned dict next sh) (clean : Clean sh.elems sh.released)
    {after : Shared} {arrType : UInt8} {ret : Int}
    (built : createArrReply env sh arrType = .ok (after, ret)) : Owned dict next after := by
  obtain ⟨elems, enc, code, run, released, stale⟩ := createArrReply_encoded built
  obtain ⟨same, once, from_array⟩ :=
    encodeElems_released run owned.apart clean owned.releasedOnce
  refine ⟨owned.once, owned.made, released ▸ once, fun id inside => ?_,
    stale.trans (same.trans owned.untouched), elems ▸ owned.apart, elems ▸ owned.owned,
    fun quiet => ?_⟩
  · rw [released] at inside
    rcases from_array id inside with old | ⟨elem, member, freed⟩
    · exact owned.released id old
    · exact owned.owned elem member id freed
  · rw [elems] at quiet ⊢
    rw [createArrReply_quiet built quiet]
    exact clean

/-- The array an encoding leaves shows a released buffer exactly if there was one to release and the
first element fits a reply. What is to be released stands first in the arrays of the handlers. -/
theorem Owned.clean_iff_quiet (owned : Owned dict next sh) (clean : Clean sh.elems sh.released)
    {after : Shared} {arrType : UInt8} {ret : Int}
    (built : createArrReply env sh arrType = .ok (after, ret))
    (first : ∀ elem rest, after.elems = elem :: rest → elem.freed = [] →
      ∀ other ∈ rest, other.freed = []) :
    Clean after.elems after.released ↔ Quiet after.elems := by
  refine ⟨fun untouched => ?_, (owned.encode clean built).quiet⟩
  obtain ⟨elems, enc, code, run, released, -⟩ := createArrReply_encoded built
  rw [released] at untouched
  rw [elems] at untouched first ⊢
  cases shown : sh.elems with
  | nil => exact Or.inl fun elem member => by cases member
  | cons elem rest =>
    rw [shown] at run untouched first
    by_cases lent : elem.freed = []
    · refine Or.inl fun other member => ?_
      rcases List.mem_cons.mp member with rfl | later
      · exact lent
      · exact first elem rest rfl lent other later
    · refine Or.inr ⟨elem, rest, rfl, lent, ?_⟩
      by_contra room
      obtain ⟨id, frees⟩ := List.exists_mem_of_ne_nil _ lent
      refine untouched elem List.mem_cons_self id (freed_subset_read frees) ?_
      rcases encodeElems_cons_inv run with ⟨step, -⟩ | ⟨next, step, later⟩
      · exact encodeElem_releases step rfl (Nat.not_lt.mp room) frees
      · exact encodeElems_keeps later
          (encodeElem_releases step rfl (Nat.not_lt.mp room) frees)

/-- What a handler is given lies in the allocations from `next` on. -/
structure Provided (env : Env) (next : Nat) (args : List Bss) : Prop where
  fresh : env.fresh = next + maxArgs
  ids : (args.map Bss.id).Sublist (List.range' next maxArgs)

/-- The first allocation after those of a request. -/
def afterRequest (next : Nat) : Nat := next + maxArgs + 2

theorem spent_sublist (provided : Provided env next args) :
    (spent env args).Sublist (List.range' next (maxArgs + 2)) := by
  have two : List.range' (next + maxArgs) 2 = [env.fresh, env.fresh + 1] := by
    rw [provided.fresh]
    rfl
  rw [← List.range'_append_1, two]
  exact provided.ids.append_right _

theorem mem_spent (provided : Provided env next args) {id : Nat} (member : id ∈ spent env args) :
    next ≤ id ∧ id < afterRequest next :=
  List.mem_range'_1.mp ((spent_sublist provided).subset member)

/-- The key space and what the handler is given hold no allocation twice. -/
theorem Owned.count_le (owned : Owned dict next sh) (provided : Provided env next args) (id : Nat) :
    dict.ids.count id + (spent env args).count id ≤ 1 := by
  have gained := (spent_sublist provided).nodup List.nodup_range'
  refine count_add_le_one owned.once gained (fun id new held => ?_) id
  exact Nat.not_lt.mpr (mem_spent provided new).1 (owned.made id held).2

theorem Owned.source (owned : Owned dict next sh) (positive : 0 < next)
    (provided : Provided env next args) {id : Nat} (member : id ∈ dict.ids ∨ id ∈ spent env args) :
    0 < id ∧ id < afterRequest next := by
  rcases member with held | new
  · obtain ⟨above, below⟩ := owned.made id held
    exact ⟨above, Nat.lt_of_lt_of_le below (by rw [afterRequest]; omega)⟩
  · obtain ⟨above, below⟩ := mem_spent provided new
    exact ⟨Nat.lt_of_lt_of_le positive above, below⟩

/-- A buffer that is gone is not given to a handler. -/
theorem Gone.not_given {id : Nat} (gone : Gone dict next id) (provided : Provided env next args) :
    ¬ (id ∈ dict.ids ∨ id ∈ spent env args) := by
  rintro (held | new)
  · exact gone.2.2 held
  · exact Nat.not_lt.mpr (mem_spent provided new).1 gone.2.1

section
variable {E L : Prop} {listed : Option Listing} {fill : Option (List Elem)} {answer : Answer}

theorem Effect.given (effect : Effect E L dict (spent env args) listed dict' fill answer) {id : Nat}
    (member : id ∈ dict'.ids ∨ id ∈ (filled fill).flatMap Elem.freed) :
    id ∈ dict.ids ∨ id ∈ spent env args := by
  have conserve : ∀ id, (dict'.ids ++ (filled fill).flatMap Elem.freed).count id ≤
      dict.ids.count id + (spent env args).count id := fun id => by
    rw [List.count_append]
    exact effect.conserve id
  exact mem_of_conserve conserve (List.mem_append.mpr member)

/-- What a handler fills the array with. -/
theorem Owned.fills (owned : Owned dict next sh) (positive : 0 < next)
    (provided : Provided env next args) {elems : List Elem}
    (effect : Effect E L dict (spent env args) listed dict' (some elems) answer) :
    Separate elems ∧ (∀ elem ∈ elems, ∀ id ∈ elem.freed, Gone dict' (afterRequest next) id) ∧
      Clean elems sh.released := by
  refine ⟨effect.apart.imp fun related id freed read => ?_, fun elem member id freed => ?_,
    fun elem member id read released => ?_⟩
  · obtain ⟨new, old⟩ := related id freed
    exact Nat.not_lt.mpr (mem_spent provided new).1 (owned.made id (old id read)).2
  · have inArray : id ∈ (filled (some elems)).flatMap Elem.freed :=
      List.mem_flatMap.mpr ⟨elem, member, freed⟩
    obtain ⟨above, below⟩ := owned.source positive provided (effect.given (Or.inr inArray))
    refine ⟨above, below, fun held => ?_⟩
    have twice := Nat.le_trans (effect.conserve id) (owned.count_le provided id)
    have one := List.count_pos_iff.mpr held
    have two := List.count_pos_iff.mpr inArray
    omega
  · exact (owned.released id released).not_given provided
      (effect.read id (List.mem_flatMap.mpr ⟨elem, member, read⟩))

/-- A handler gives buffers on, and whatever it fills the array with has not been released. -/
theorem Owned.handle (owned : Owned dict next sh) (positive : 0 < next)
    (provided : Provided env next args)
    (effect : Effect E L dict (spent env args) listed dict' fill answer)
    (fills : Fills fill sh sh') :
    Owned dict' (afterRequest next) sh' ∧ (fill ≠ none → Clean sh'.elems sh'.released) := by
  have stays {id : Nat} (gone : Gone dict next id) : Gone dict' (afterRequest next) id := by
    refine ⟨gone.1, Nat.lt_of_lt_of_le gone.2.1 (by rw [afterRequest]; omega), fun held => ?_⟩
    exact gone.not_given provided (effect.given (Or.inl held))
  have array : Separate sh'.elems ∧
      (∀ elem ∈ sh'.elems, ∀ id ∈ elem.freed, Gone dict' (afterRequest next) id) ∧
        (fill ≠ none → Clean sh'.elems sh'.released) ∧
          (Quiet sh'.elems → Clean sh'.elems sh'.released) := by
    rw [fills.elems, fills.released]
    cases fill with
    | none =>
      exact ⟨owned.apart, fun elem member id freed => stays (owned.owned elem member id freed),
        fun filled => absurd rfl filled, owned.quiet⟩
    | some elems =>
      obtain ⟨apart, gone, clean⟩ := owned.fills positive provided effect
      have part : (wrapped elems).Sublist elems := List.drop_sublist _ _
      exact ⟨apart.sublist part, fun elem member => gone elem (part.subset member),
        fun _ elem member => clean elem (part.subset member),
        fun _ elem member => clean elem (part.subset member)⟩
  refine ⟨⟨List.nodup_iff_count_le_one.mpr fun id => ?_, fun id held => ?_, ?_, fun id inside => ?_,
    fills.stale.trans owned.untouched, array.1, array.2.1, array.2.2.2⟩, array.2.2.1⟩
  · have kept := Nat.le_trans (effect.conserve id) (owned.count_le provided id)
    omega
  · exact owned.source positive provided (effect.given (Or.inl held))
  · rw [fills.released]
    exact owned.releasedOnce
  · rw [fills.released] at inside
    exact stays (owned.released id inside)

/-- The end of a handler: only an array filled by the handler is encoded. -/
theorem Owned.finish (owned : Owned dict next sh)
    (clean : fill ≠ none → Clean sh.elems sh.released)
    (fresh : ∀ type, answer = .array type → fill ≠ none) {result : Result Obj}
    (finished : answer.finish env dict sh = .ok result) : Owned dict next result.sh := by
  cases answer with
  | scalar type data =>
    cases finished
    exact owned.congr rfl rfl rfl
  | refused =>
    cases finished
    exact owned
  | silent ret =>
    cases finished
    exact owned
  | array type =>
    rw [Answer.finish, arrayReply] at finished
    split at finished
    · cases finished
    · rename_i after ret built
      cases finished
      exact owned.encode (clean (fresh type rfl)) built

/-- A listing that is left to be encoded is what the array was filled with. -/
theorem fill_of_left {elems : List Elem} (left : answer.encodes fill = some (.left elems)) :
    fill = some elems ∧ ∃ ret, answer = .silent ret := by
  cases answer with
  | silent ret =>
    rw [Answer.encodes] at left
    split at left
    · cases left
    · obtain ⟨own, filled, same⟩ := Option.map_eq_some_iff.mp left
      cases same
      exact ⟨filled, ret, rfl⟩
  | array type =>
    obtain ⟨own, filled, same⟩ := Option.map_eq_some_iff.mp left
    cases same
  | scalar type data => cases left
  | refused => cases left

end

end PseudoRedis

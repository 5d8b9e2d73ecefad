/-
This file is about the arrays commands reply with. The reply array takes any number of
elements and keeps the last of them modulo 256, so a command that lists a container
sends all of it as long as there are at most 255 elements; with more, it succeeds with a
part of them unless the part that is left does not fit a reply.
-/

import PseudoRedis.NonEmpty
import PseudoRedis.Fits

namespace PseudoRedis

/-- The commands that reply with the elements of containers. -/
def CommandFunc.listsContainer : CommandFunc → Bool
  | .lrange | .smembers | .hkeys | .hvals | .hgetall | .keys | .sunion | .sdiff | .sinter => true
  | _ => false

/-- A successful reply carries all the elements. -/
def Complete (call : Call) (dict : Dict Obj) (elems : List Elem) : Prop :=
  ∀ (sh : Shared) (result : Result Obj), call.run dict sh = .ok result → result.ret = 0 →
    result.sh.curr.data.take result.sh.curr.len.toNat = elems.flatMap Elem.encode ++ [strEnd]

/-- A call that lists an array encodes what the refilled array holds. -/
theorem run_of_listing {call : Call} {dict : Dict Obj} (sound : Sound True dict) {type : UInt8}
    {elems : List Elem} (listing : call.listing dict = some (.encoded type elems)) :
    ∃ dict', ∀ sh, ∃ sh', Fills (some elems) sh sh' ∧
      call.run dict sh = arrayReply call.env type dict' sh' := by
  cases call.does_any sound with
  | stops stop entry again nothing same =>
    rw [nothing] at listing
    cases listing
  | answers dict' fill answer effect same =>
    have encodes := effect.listed.trans listing
    cases answer with
    | scalar type data => cases encodes
    | refused => cases encodes
    | silent ret =>
      rw [Answer.encodes] at encodes
      split at encodes
      · cases encodes
      · cases fill <;> cases encodes
    | array own =>
      cases fill with
      | none => cases encodes
      | some filled =>
        cases encodes
        exact ⟨dict', same⟩

/-! ### What the commands list -/

/-- Elements that show strings. -/
def Plain (elems : List Elem) : Prop := ∀ elem ∈ elems, ∃ bss, elem = ⟨some bss, strNormal⟩

theorem plain_map {Entry : Type} (entries : List Entry) (string : Entry → Bss) :
    Plain (entries.map fun entry => ⟨some (string entry), strNormal⟩) := by
  intro elem member
  obtain ⟨entry, -, rfl⟩ := List.mem_map.mp member
  exact ⟨string entry, rfl⟩

theorem plain_nil : Plain [] := fun _ member => by cases member

theorem plain_innerListing {unwrap : Obj → Option (List Elem)} {dict : Dict Obj} {args : List Bss}
    (plain : ∀ obj elems, unwrap obj = some elems → Plain elems) {type : UInt8}
    {elems : List Elem} (listing : innerListing unwrap dict args = some (.encoded type elems)) :
    Plain elems := by
  rcases args with _ | ⟨key, _ | ⟨second, rest⟩⟩
  · cases listing
  · rw [innerListing] at listing
    split at listing
    · cases listing
      exact plain_nil
    · obtain ⟨own, unwrapped, same⟩ := Option.map_eq_some_iff.mp listing
      cases same
      exact plain _ _ unwrapped
  · cases listing

theorem plain_membersListing {W : Type} {kind : Kind W} {dict : Dict Obj} {args : List Bss}
    {type : UInt8} {elems : List Elem}
    (listing : membersListing kind dict args = some (.encoded type elems)) : Plain elems := by
  refine plain_innerListing (fun obj own unwrapped => ?_) listing
  obtain ⟨ds, -, rfl⟩ := Option.map_eq_some_iff.mp unwrapped
  exact plain_map ds.entries DictEntry.key

theorem plain_memberListing {set : Dict Unit} {type : UInt8} {elems : List Elem}
    (listing : memberListing set = some (.encoded type elems)) : Plain elems := by
  cases listing
  exact plain_map set.entries DictEntry.key

theorem plain_keysListing {env : Env} {dict : Dict Obj} {args : List Bss} {type : UInt8}
    {elems : List Elem} (listing : keysListing env dict args = some (.encoded type elems)) :
    Plain elems := by
  rcases args with _ | ⟨pattern, _ | ⟨second, rest⟩⟩
  · cases listing
  · cases listing
    intro elem member
    obtain ⟨entry, -, listed⟩ := List.mem_flatMap.mp member
    exact ⟨entry.key, matchElems_key listed⟩
  · cases listing

theorem plain_hgetallListing {env : Env} {dict : Dict Obj} {args : List Bss} {type : UInt8}
    {elems : List Elem} (listing : hgetallListing env dict args = some (.encoded type elems)) :
    Plain elems := by
  refine plain_innerListing (fun obj own unwrapped => ?_) listing
  cases obj with
  | hash hash =>
    rw [hgetallElems] at unwrapped
    split at unwrapped
    · cases unwrapped
      intro elem member
      obtain ⟨entry, -, listed⟩ := List.mem_flatMap.mp member
      rcases List.mem_cons.mp listed with rfl | second
      · exact ⟨entry.key, rfl⟩
      · exact ⟨entry.val, List.mem_singleton.mp second⟩
    · cases unwrapped
  | _ => cases unwrapped

theorem plain_hvalsListing {dict : Dict Obj} {args : List Bss} {type : UInt8}
    {elems : List Elem} (listing : hvalsListing dict args = some (.encoded type elems)) :
    Plain elems := by
  refine plain_innerListing (fun obj own unwrapped => ?_) listing
  cases obj with
  | hash hash =>
    cases unwrapped
    exact plain_map hash.entries DictEntry.val
  | _ => cases unwrapped

theorem plain_lrangeListing {dict : Dict Obj} {args : List Bss} {type : UInt8}
    {elems : List Elem} (listing : lrangeListing dict args = some (.encoded type elems)) :
    Plain elems := by
  unfold lrangeListing at listing
  split at listing
  · split at listing
    · cases listing
    · split at listing
      · cases listing
        exact plain_nil
      · rename_i entries _
        cases listing
        unfold rangeElems
        split
        · exact plain_nil
        · exact plain_map (sublist entries _ _) id
      · cases listing
  · cases listing

theorem plain_sdiffListing {dict : Dict Obj} {args : List Bss} {type : UInt8}
    {elems : List Elem} (listing : sdiffListing dict args = some (.encoded type elems)) :
    Plain elems := by
  unfold sdiffListing at listing
  split at listing
  · split at listing
    · cases listing
    · exact plain_memberListing listing
    · cases listing
      exact plain_nil
  · cases listing

theorem plain_sunionListing {dict : Dict Obj} {args : List Bss} {type : UInt8}
    {elems : List Elem} (listing : sunionListing dict args = some (.encoded type elems)) :
    Plain elems := by
  unfold sunionListing at listing
  split at listing
  · split at listing
    · cases listing
    · exact plain_memberListing listing
  · cases listing

theorem plain_sinterListing {dict : Dict Obj} {args : List Bss} {type : UInt8}
    {elems : List Elem} (listing : sinterListing dict args = some (.encoded type elems)) :
    Plain elems := by
  unfold sinterListing at listing
  split at listing
  · split at listing
    · cases listing
    · split at listing
      · exact plain_memberListing listing
      · cases listing
        exact plain_nil
  · cases listing

theorem listing_plain {call : Call} (lists : call.func.listsContainer = true) {dict : Dict Obj}
    {type : UInt8} {elems : List Elem}
    (listing : call.listing dict = some (.encoded type elems)) : Plain elems := by
  obtain ⟨env, func, args, given⟩ := call
  cases func with
  | keys => exact plain_keysListing listing
  | hgetall => exact plain_hgetallListing listing
  | hkeys => exact plain_membersListing listing
  | hvals => exact plain_hvalsListing listing
  | lrange => exact plain_lrangeListing listing
  | sdiff => exact plain_sdiffListing listing
  | sunion => exact plain_sunionListing listing
  | sinter => exact plain_sinterListing listing
  | smembers => exact plain_membersListing listing
  | _ => cases lists

/-! ### Complete replies -/

theorem wrapped_of_short {elems : List Elem} (short : elems.length ≤ 255) :
    wrapped elems = elems := by
  rw [wrapped, Nat.div_eq_of_lt (Nat.lt_succ_of_le short)]
  rfl

theorem length_plain_encode {elem : Elem} (plain : ∃ bss, elem = ⟨some bss, strNormal⟩) :
    0 < elem.encode.length := by
  obtain ⟨bss, rfl⟩ := plain
  rw [Elem.encode, if_neg strNormal_string]
  exact Nat.succ_pos _

/-- Elements that were left behind would have taken bytes. -/
theorem length_wrapped_lt {elems : List Elem} (plain : Plain elems) (long : ¬ elems.length ≤ 255) :
    ((wrapped elems).flatMap Elem.encode).length < (elems.flatMap Elem.encode).length := by
  rw [List.length_flatMap, List.length_flatMap]
  exact sum_left_lt (fun elem => elem.encode.length)
    (fun elem member => length_plain_encode (plain elem member)) long

theorem complete_iff {call : Call} {dict : Dict Obj} (sound : Sound True dict)
    (lists : call.func.listsContainer = true) {elems : List Elem}
    (listing : call.listing dict = some (.encoded rplyArr elems)) :
    Complete call dict elems ↔ elems.length ≤ 255 ∨ ¬ Fits (wrapped elems) := by
  obtain ⟨dict', same⟩ := run_of_listing sound listing
  constructor
  · intro complete
    by_cases short : elems.length ≤ 255
    · exact Or.inl short
    · refine Or.inr fun fits => ?_
      obtain ⟨sh', fills, ran⟩ := same (Shared.holding [])
      have held : sh'.elems = wrapped elems := fills.elems
      obtain ⟨after, built⟩ := built_of_fits call.env rplyArr (held ▸ fits)
      rw [arrayReply, built] at ran
      have data := complete _ _ ran rfl
      rw [(announced_data built).2, held] at data
      have fewer := length_wrapped_lt (listing_plain lists listing) short
      have lengths := congrArg List.length data
      rw [List.length_append, List.length_append] at lengths
      omega
  · intro condition sh result ran zero
    obtain ⟨sh', fills, replied⟩ := same sh
    have held : sh'.elems = wrapped elems := fills.elems
    rw [ran, arrayReply] at replied
    cases outcome : createArrReply call.env sh' rplyArr with
    | error stop =>
      rw [outcome] at replied
      cases replied
    | ok answer =>
      obtain ⟨after, ret⟩ := answer
      rw [outcome] at replied
      cases replied
      rw [show ret = 0 from zero] at outcome
      have fits := fits_of_built outcome
      rw [held] at fits
      have whole := wrapped_of_short (condition.resolve_right fun small => small fits)
      rw [(announced_data outcome).2, held, whole]

/-- Additions and array commands lose elements exactly when the counter of the array comes round,
and a command only where what is left still fits a reply. -/
theorem arrays_complete_iff (sh : Shared) (added : List Elem) (dict : Dict Obj) (call : Call) :
    (Delivered sh added ↔ added.length ≤ 255) ∧
      (Reachable (fun _ _ => True) dict → call.func.listsContainer = true →
        ∀ elems : List Elem, call.listing dict = some (.encoded rplyArr elems) →
          (Complete call dict elems ↔ elems.length ≤ 255 ∨ ¬ Fits (wrapped elems))) := by
  refine ⟨delivered_iff sh added, fun reach lists elems listing => ?_⟩
  exact complete_iff (reach.sound fun _ _ _ _ => trivial) lists listing

/-- `LRANGE b 0 -1` of a list with one entry replies with that entry. -/
theorem arrays_complete_iff_push :
    Complete (textCall .lrange [(3, "b"), (4, "0"), (5, "-1")] (by decide)) pushedKey
      [⟨some (textArg 2 "x"), strNormal⟩] := by
  have complete := (arrays_complete_iff (Shared.holding []) [] pushedKey
    (textCall .lrange [(3, "b"), (4, "0"), (5, "-1")] (by decide))).2 pushedKey_reachable rfl
  exact (complete _ rfl).mpr (Or.inl (by decide))

/-! ### A list that is too long for the counter -/

/-- `LRANGE 0 -1` of a list with 256 entries lists all of them. -/
theorem length_rangeElems {entries : List Bss} (many : entries.length = 256) :
    (rangeElems entries 0 (-1)).length = 256 := by
  have range : ¬ emptyRange (rangeStart 0 256) (fromEnd (-1) 256) 256 := by decide
  have start : (rangeStart 0 256).toNat = 0 := by decide
  have size : (fromEnd (-1) 256 - rangeStart 0 256 + 1).toNat = 256 := by decide
  rw [rangeElems, many, if_neg range, List.length_map, sublist, start, size, List.drop_zero,
    List.length_take, many, Nat.min_self]

/-- The arguments of `RPUSH k` with 256 entries. -/
def manyArgs : List Bss := List.replicate 256 (textArg 2 "x")

def pushMany : Call where
  env := Env.plain
  func := .rpush
  args := textArg 1 "k" :: manyArgs
  given arg member := by
    rcases List.mem_cons.mp member with rfl | entry
    · exact textArg_arg 1 (by decide)
    · rw [List.eq_of_mem_replicate entry]
      exact textArg_arg 2 (by decide)

/-- What it pushes. -/
def manyEntries : List Bss := manyArgs.foldl (listInsert .right) []

theorem length_manyEntries : manyEntries.length = 256 := by
  rw [manyEntries, (foldl_listInsert_perm .right manyArgs []).length_eq, List.append_nil, manyArgs,
    List.length_replicate]

/-- The key space after it. -/
def manyPushed : Dict Obj :=
  dictAdd (dictCreate initDictSize) (textArg 1 "k") (.list manyEntries)

/-- Pushing to an absent key makes a list. -/
theorem lpushrpushCommand_absent {side : End} {dict : Dict Obj} {key : Bss} {args : List Bss}
    (absent : dictLookUp dict key = none) (given : args ≠ []) :
    lpushrpushCommand side dict (key :: args) =
      intReply (dictAdd dict key (.list (args.foldl (listInsert side) []))) args.length := by
  cases args with
  | nil => exact absurd rfl given
  | cons first rest => simp only [lpushrpushCommand, absent]

theorem manyPushed_reachable : Reachable (fun _ _ => True) manyPushed := by
  have absent : dictLookUp (dictCreate initDictSize : Dict Obj) (textArg 1 "k") = none := rfl
  have given : manyArgs ≠ [] := List.cons_ne_nil _ _
  have push : pushMany.run (dictCreate initDictSize) =
      intReply manyPushed manyArgs.length := lpushrpushCommand_absent absent given
  exact .step _ .start trivial (congrFun push (Shared.holding []))

/-- `LRANGE k 0 -1`. -/
def rangeAll : Call := textCall .lrange [(3, "k"), (4, "0"), (5, "-1")] (by decide)

theorem rangeAll_listing :
    rangeAll.listing manyPushed = some (.encoded rplyArr (rangeElems manyEntries 0 (-1))) := by
  have found : dictLookUp manyPushed (textArg 3 "k") = some (.list manyEntries) := rfl
  have first : bss2int (textArg 4 "0") = (0, 0) := rfl
  have last : bss2int (textArg 5 "-1") = (-1, 0) := rfl
  show lrangeListing manyPushed [textArg 3 "k", textArg 4 "0", textArg 5 "-1"] = _
  simp only [lrangeListing, found, first, last]
  rfl

/-- `LRANGE` of a list with 256 entries succeeds and replies with none of them. -/
theorem arrays_incomplete :
    (∃ (sh : Shared) (elems : List Elem), ¬ Delivered sh elems) ∧
      ∃ dict : Dict Obj, Reachable (fun _ _ => True) dict ∧ ∃ call : Call,
        call.func.listsContainer = true ∧ ∃ elems : List Elem,
          call.listing dict = some (.encoded rplyArr elems) ∧ ¬ Complete call dict elems := by
  have length := length_rangeElems length_manyEntries
  have long : ¬ (rangeElems manyEntries 0 (-1)).length ≤ 255 := by omega
  have fits : Fits (wrapped (rangeElems manyEntries 0 (-1))) := by
    have nothing : wrapped (rangeElems manyEntries 0 (-1)) = [] := by
      rw [wrapped, length]
      exact List.drop_of_length_le (Nat.le_of_eq length)
    rw [nothing]
    refine ⟨fun _ member => ?_, by decide⟩
    cases member
  have sound : Sound True manyPushed := manyPushed_reachable.sound fun _ _ _ _ => trivial
  refine ⟨⟨Shared.holding [], _, fun kept => long ((delivered_iff _ _).mp kept)⟩,
    manyPushed, manyPushed_reachable, rangeAll, rfl, _, rangeAll_listing, ?_⟩
  intro complete
  exact ((complete_iff sound rfl rangeAll_listing).mp complete).elim long fun misfit => misfit fits

end PseudoRedis

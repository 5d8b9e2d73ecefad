/-
This file is about what `HMGET` replies along the histories of `HashHistory`. It fills the
reply array with one element for each field, and the counter of that array is a `uint8_t`.
So it replies with the values of all its fields as long as there are at most 255 of them;
with more, it succeeds with a part of them unless the part that is left does not fit a
reply.
-/

import PseudoRedis.HashHistory
import PseudoRedis.Fits

namespace PseudoRedis

/-! ### Replies with the values of fields -/

/-- The bytes that stand for a value, or for a nil. -/
def encodeValue : Option Bytes → Bytes
  | none => [strNil &&& typeMask]
  | some data => (strNormal &&& typeMask) :: littleEndian32 data.length ++ data

def valueSize : Option Bytes → Nat
  | none => 1
  | some data => data.length + sizeTl

/-- The values and the ending tag fit a reply. -/
def FitReply (vals : List (Option Bytes)) : Prop := (vals.map valueSize).sum < maxRplySize

instance (vals : List (Option Bytes)) : Decidable (FitReply vals) :=
  inferInstanceAs (Decidable (_ < _))

/-- The values are replied as an array, or refused because they do not fit. -/
def RepliesValues (dict : Dict Obj) (run : Run Obj) (vals : List (Option Bytes)) : Prop :=
  ∀ sh, ∃ result, run sh = .ok result ∧ result.dict = dict ∧
    (FitReply vals → result.ret = 0 ∧ result.sh.curr.replyType = rplyArr ∧
      result.sh.curr.data.take result.sh.curr.len.toNat =
        vals.flatMap encodeValue ++ [strEnd]) ∧
    (¬ FitReply vals → result.ret = eTooLong)

/-- An element of the reply array for a value. -/
def ElemShows (elem : Elem) : Option Bytes → Prop
  | none => elem = ⟨none, strNil⟩
  | some data => ∃ bss, elem = ⟨some bss, strNormal⟩ ∧ Carries bss data

variable {elem : Elem} {val : Option Bytes}

theorem ElemShows.encode (shows : ElemShows elem val) : elem.encode = encodeValue val := by
  cases val with
  | none =>
    cases shows
    rfl
  | some data =>
    obtain ⟨bss, rfl, rfl, short⟩ := shows
    have length : (UInt32.ofNat bss.len).toNat = bss.len := by
      rw [UInt32.toNat_ofNat', short.len_mod]
    simp only [Elem.encode, if_neg strNormal_string, length, encodeValue, short.content_length]
    rfl

theorem ElemShows.size (shows : ElemShows elem val) : elem.size = valueSize val := by
  cases val with
  | none =>
    cases shows
    rfl
  | some data =>
    obtain ⟨bss, rfl, rfl, short⟩ := shows
    rw [Elem.size, if_neg strNormal_string, valueSize, short.content_length, Option.elim_some,
      short.len_mod]

theorem ElemShows.held (shows : ElemShows elem val) : elem.Held := by
  cases val with
  | none =>
    cases shows
    exact fun string => absurd string (by decide)
  | some data =>
    obtain ⟨bss, rfl, rfl, short⟩ := shows
    refine fun _ => ⟨bss, rfl, ?_⟩
    rw [short.len_mod]
    exact short.len_le

theorem ElemShows.noWrap (shows : ElemShows elem val) {total : Nat} (room : total < maxRplySize) :
    elem.NoWrap total := by
  intro string bss points
  cases val with
  | none =>
    cases shows
    exact absurd string (by decide)
  | some data =>
    obtain ⟨own, rfl, -, short⟩ := shows
    cases points
    have small := short.len_lt
    have limit : maxRplySize < 2 ^ 31 := by decide
    exact Or.inl (by omega)

variable {elems : List Elem} {vals : List (Option Bytes)}

theorem noWrap_of_shows (shows : List.Forall₂ ElemShows elems vals) {total : Nat}
    (room : total < maxRplySize) : NoWrap total elems := by
  induction shows generalizing total with
  | nil => trivial
  | cons first later inductionHypothesis =>
    exact ⟨first.noWrap room, fun inside => inductionHypothesis inside⟩

theorem held_of_shows (shows : List.Forall₂ ElemShows elems vals) :
    ∀ elem ∈ elems, elem.Held := by
  induction shows with
  | nil => exact fun _ member => by cases member
  | cons first later inductionHypothesis =>
    exact List.forall_mem_cons.mpr ⟨first.held, inductionHypothesis⟩

theorem sizes_of_shows (shows : List.Forall₂ ElemShows elems vals) :
    elems.map Elem.size = vals.map valueSize := by
  induction shows with
  | nil => rfl
  | cons first later inductionHypothesis =>
    rw [List.map_cons, List.map_cons, first.size, inductionHypothesis]

theorem encode_of_shows (shows : List.Forall₂ ElemShows elems vals) :
    elems.flatMap Elem.encode = vals.flatMap encodeValue := by
  induction shows with
  | nil => rfl
  | cons first later inductionHypothesis =>
    rw [List.flatMap_cons, List.flatMap_cons, first.encode, inductionHypothesis]

theorem fits_of_shows (shows : List.Forall₂ ElemShows elems vals) :
    Fits elems ↔ FitReply vals := by
  rw [FitReply, ← sizes_of_shows shows]
  exact ⟨Fits.size, fun size => ⟨held_of_shows shows, size⟩⟩

/-- What the encoding of an array that shows values comes to. -/
theorem arrReply_shows (env : Env) (dict : Dict Obj) {sh : Shared}
    (shows : List.Forall₂ ElemShows sh.elems vals) :
    ∃ result, arrReply env dict sh = .ok result ∧ result.dict = dict ∧
      (FitReply vals → result.ret = 0 ∧ result.sh.curr.replyType = rplyArr ∧
        result.sh.curr.data.take result.sh.curr.len.toNat =
          vals.flatMap encodeValue ++ [strEnd]) ∧
      (¬ FitReply vals → result.ret = eTooLong) := by
  obtain ⟨enc, ret, -, -, after, built, count⟩ := boundedReply_of_noWrap env sh rplyArr
    (held_of_shows shows) (noWrap_of_shows shows (by decide))
  refine ⟨⟨dict, after, ret⟩, ?_, rfl, fun fit => ?_, fun misfit => ?_⟩
  · rw [arrReply, arrayReply, built]
  · obtain ⟨other, rebuilt⟩ := built_of_fits env rplyArr ((fits_of_shows shows).mpr fit)
    rw [built] at rebuilt
    cases rebuilt
    obtain ⟨type, data⟩ := announced_data built
    exact ⟨rfl, type, data.trans (by rw [encode_of_shows shows])⟩
  · refine count.elim (fun accepted => ?_) id
    obtain ⟨zero, -⟩ := accepted
    cases zero
    exact absurd ((fits_of_shows shows).mp (fits_of_built built)) misfit

/-- The values left when the counter of the reply array has come round. -/
def leftover (vals : List (Option Bytes)) : List (Option Bytes) :=
  vals.drop (256 * (vals.length / 256))

theorem leftover_of_short (short : vals.length ≤ 255) : leftover vals = vals := by
  rw [leftover, Nat.div_eq_of_lt (Nat.lt_succ_of_le short)]
  rfl

theorem length_encodeValue (val : Option Bytes) : (encodeValue val).length = valueSize val := by
  cases val with
  | none => rfl
  | some data =>
    rw [encodeValue, valueSize, List.cons_append, List.length_cons, List.length_append]
    show 4 + data.length + 1 = data.length + 5
    omega

/-- Values that were left behind would have taken bytes. -/
theorem sizes_leftover_lt (long : ¬ vals.length ≤ 255) :
    ((leftover vals).map valueSize).sum < (vals.map valueSize).sum := by
  refine sum_left_lt valueSize (fun val _ => ?_) long
  rw [← length_encodeValue]
  cases val <;> exact Nat.succ_pos _

theorem length_encodeValues (vals : List (Option Bytes)) :
    (vals.flatMap encodeValue).length = (vals.map valueSize).sum := by
  rw [List.length_flatMap]
  exact congrArg List.sum (List.map_congr_left fun val _ => length_encodeValue val)

/-- A run that fills the array with elements for values replies those that are left. -/
theorem replies_leftover (env : Env) (dict : Dict Obj)
    (shows : List.Forall₂ ElemShows elems vals) :
    RepliesValues dict (fillReply env dict fun sh => addEach sh elems) (leftover vals) := by
  intro sh
  have left : List.Forall₂ ElemShows (addAll (resetReplyArr sh) elems).elems (leftover vals) := by
    rw [elems_fill, leftover, shows.length_eq]
    exact List.forall₂_drop _ shows
  rw [fillReply, addEach_eq]
  exact arrReply_shows env dict left

/-- So it replies all of them exactly if the counter does not come round, or what it leaves is
refused. -/
theorem repliesValues_iff (env : Env) (dict : Dict Obj)
    (shows : List.Forall₂ ElemShows elems vals) :
    RepliesValues dict (fillReply env dict fun sh => addEach sh elems) vals ↔
      vals.length ≤ 255 ∨ ¬ FitReply (leftover vals) := by
  have part := replies_leftover env dict shows
  constructor
  · intro replies
    by_cases short : vals.length ≤ 255
    · exact Or.inl short
    · refine Or.inr fun fit => ?_
      obtain ⟨result, ran, -, accepted, -⟩ := part (Shared.holding [])
      obtain ⟨zero, -, written⟩ := accepted fit
      obtain ⟨result', ran', -, whole, refused⟩ := replies (Shared.holding [])
      rw [ran] at ran'
      cases ran'
      by_cases all : FitReply vals
      · rw [written] at whole
        have lengths := congrArg List.length (List.append_cancel_right (whole all).2.2)
        rw [length_encodeValues, length_encodeValues] at lengths
        exact absurd lengths (Nat.ne_of_lt (sizes_leftover_lt short))
      · rw [refused all] at zero
        exact absurd zero (by decide)
  · rintro (short | misfit)
    · rwa [leftover_of_short short] at part
    · have misfitAll : ¬ FitReply vals := fun fit => by
        by_cases short : vals.length ≤ 255
        · exact misfit ((leftover_of_short short).symm ▸ fit)
        · exact misfit (Nat.lt_trans (sizes_leftover_lt short) fit)
      intro sh
      obtain ⟨result, ran, same, -, refused⟩ := part sh
      exact ⟨result, ran, same, fun fit => absurd fit misfitAll, fun _ => refused misfit⟩

/-! ### The hash commands and their reference -/

variable {hash : Dict Bss} {fields : Fields} {dict : Dict Obj} {ref : HashReference} {key : Bss}

/-- What the reference holds under fields. -/
def lookups (fields : Fields) (asked : List Bss) : List (Option Bytes) :=
  asked.map fun field => fields.lookup field.content

theorem Matches.shows (agree : Matches hash fields) {field : Bss} (short : field.Short) :
    ElemShows (mgetElem hash field) (fields.lookup field.content) := by
  have own := agree.vals field short
  rw [mgetElem]
  cases found : dictLookUp hash field with
  | none =>
    rw [found] at own
    cases known : fields.lookup field.content with
    | none => exact rfl
    | some data =>
      rw [known] at own
      cases own
  | some val =>
    rw [found] at own
    cases known : fields.lookup field.content with
    | none =>
      rw [known] at own
      cases own
    | some data =>
      rw [known] at own
      cases own with
      | some carries => exact ⟨val, rfl, carries⟩

/-- `HMGET` fills the array with the values the reference holds. -/
theorem hmgetCommand_stands (env : Env) (stands : HashStands dict ref) (short : key.Short)
    {first : Bss} {rest : List Bss} (fieldsShort : ∀ field ∈ first :: rest, field.Short) :
    ∃ elems, hmgetCommand env dict (key :: first :: rest) =
        fillReply env dict (fun sh => addEach sh elems) ∧
      List.Forall₂ ElemShows elems (lookups (ref key.content) (first :: rest)) := by
  rcases stands.cases short with ⟨absent, empty⟩ | ⟨hash, answer, -, agree, -⟩
  · refine ⟨(first :: rest).map fun _ => ⟨none, strNil⟩, ?_, ?_⟩
    · simp only [hmgetCommand, absent]
    · rw [lookups, List.forall₂_map_left_iff, List.forall₂_map_right_iff, List.forall₂_same]
      intro field _
      rw [empty, Finmap.lookup_empty]
      exact rfl
  · refine ⟨(first :: rest).map (mgetElem hash), ?_, ?_⟩
    · simp only [hmgetCommand, answer]
      exact within_fillReply env hash (fun sh => addEach sh ((first :: rest).map (mgetElem hash))) _
    · rw [lookups, List.forall₂_map_left_iff, List.forall₂_map_right_iff, List.forall₂_same]
      exact fun field member => agree.shows (fieldsShort field member)

/-- Every command acts and replies as the reference does, `HMSET` as the `HSET`s of its pairs do,
the commands that read a hash answer from the reference, and so does `HMGET` of these fields. -/
structure FollowsReference (env : Env) (dict : Dict Obj) (ref : HashReference) (key : Bss)
    (asked : List Bss) : Prop where
  commands : ∀ (command : HashCommand) (args : List Bss), Allotted dict args →
    (∀ ref' reply, command.reference ref (args.map Bss.content) = some (ref', reply) →
      ∃ dict', command.run dict args = reply.run dict' ∧ Answers dict' ref') ∧
    (command.reference ref (args.map Bss.content) = none →
      command.run dict args = failReply dict numArgs)
  pairs : ∀ (key : Bss) (pairs : List Bss) (sh : Shared) (result : Result Obj) (dict' : Dict Obj),
    Allotted dict (key :: pairs) → hmsetCommand dict (key :: pairs) sh = .ok result →
      SetOneByOne key.content dict (pairs.map Bss.content) dict' →
        ∃ ref', Answers result.dict ref' ∧ Answers dict' ref'
  answers : Answers dict ref
  hmget : RepliesValues dict (hmgetCommand env dict (key :: asked))
    (lookups (ref key.content) asked)

/-- After any history the hash commands follow the reference, up to `HMGET`, which replies the
values of its fields exactly if the counter of the array does not come round, or what it leaves
does not fit a reply. -/
theorem hashes_follow_reference_iff (env : Env) (history : HashHistory dict ref)
    (short : key.Short) {asked : List Bss} (some : asked ≠ [])
    (askedShort : ∀ field ∈ asked, field.Short) :
    FollowsReference env dict ref key asked ↔
      asked.length ≤ 255 ∨ ¬ FitReply (leftover (lookups (ref key.content) asked)) := by
  have stands := history.stands
  obtain ⟨first, rest, rfl⟩ := List.exists_cons_of_ne_nil some
  obtain ⟨elems, same, shows⟩ := hmgetCommand_stands env stands short askedShort
  have replies := repliesValues_iff env dict shows
  rw [← same, lookups, List.length_map] at replies
  refine Iff.trans ⟨fun follows => follows.hmget, fun hmget => ?_⟩ replies
  exact {
    commands := fun command args allotted => ⟨fun ref' reply reference => by
      obtain ⟨dict', ran, after⟩ := stands.step command allotted reference
      exact ⟨dict', ran, after.answers⟩, refused_of_reference⟩
    pairs := fun key pairs sh result dict' allotted ran sets =>
      hmset_one_by_one stands allotted ran sets
    answers := stands.answers
    hmget := hmget }

/-- The reference after `HSET h f v`. -/
def oneField : HashReference :=
  Function.update (fun _ => ∅) (bytes "h") (Finmap.insert (bytes "f") (bytes "v") ∅)

theorem oneField_history : ∃ dict, HashHistory dict oneField := by
  have allotted : Allotted (dictCreate initDictSize)
      (textArgs [(1, "h"), (2, "f"), (3, "v")]) :=
    textArgs_allotted_first (by decide) (by decide) (by decide)
  exact ⟨_, @HashHistory.step _ _ (Shared.holding []) _ .hset _ .start allotted rfl⟩

/-- `HMGET h f` replies `v`. -/
theorem hashes_follow_reference_iff_one :
    ∃ dict, HashHistory dict oneField ∧
      FollowsReference Env.plain dict oneField (textArg 4 "h") [textArg 5 "f"] := by
  obtain ⟨dict, history⟩ := oneField_history
  refine ⟨dict, history, (hashes_follow_reference_iff Env.plain history
    (textArg_arg _ (by decide)).short (List.cons_ne_nil _ _) fun field member => ?_).mpr
      (Or.inl (by decide))⟩
  rw [List.mem_singleton.mp member]
  exact (textArg_arg _ (by decide)).short

/-- `HMGET` of the field `f` 256 times. -/
def manyFields : List Bss := List.replicate 256 (textArg 5 "f")

/-- `HMGET` of 256 fields succeeds and replies with none of them. -/
theorem hmget_incomplete :
    ∃ dict, HashHistory dict oneField ∧
      ¬ FollowsReference Env.plain dict oneField (textArg 4 "h") manyFields := by
  obtain ⟨dict, history⟩ := oneField_history
  have length : manyFields.length = 256 := List.length_replicate
  refine ⟨dict, history, fun follows => ?_⟩
  have short : (textArg 4 "h").Short := (textArg_arg _ (by decide)).short
  have fieldsShort : ∀ field ∈ textArg 5 "f" :: List.replicate 255 (textArg 5 "f"),
      field.Short := fun field member => by
    rw [List.eq_of_mem_replicate (show field ∈ List.replicate 256 _ from member)]
    exact (textArg_arg _ (by decide)).short
  obtain ⟨elems, same, shows⟩ := hmgetCommand_stands Env.plain history.stands short fieldsShort
  have asked : lookups (oneField (textArg 4 "h").content)
      (textArg 5 "f" :: List.replicate 255 (textArg 5 "f")) =
        lookups (oneField (textArg 4 "h").content) manyFields := rfl
  have replies := follows.hmget
  have size : (lookups (oneField (textArg 4 "h").content) manyFields).length = 256 := by
    rw [lookups, List.length_map, length]
  have nothing : leftover (lookups (oneField (textArg 4 "h").content) manyFields) = [] := by
    rw [leftover, size]
    exact List.drop_of_length_le (Nat.le_of_eq size)
  rw [asked] at shows
  rw [show hmgetCommand Env.plain dict (textArg 4 "h" :: manyFields) = _ from same,
    repliesValues_iff Env.plain dict shows, nothing, size] at replies
  exact replies.elim (by decide) fun misfit => misfit (by decide)

end PseudoRedis

/-
This file follows the hashes of the server through any history of `HSET`, `HMSET`,
`HSETNX`, `HDEL` and `DEL`. The reference maps every key to a finite map from fields to
values, and the empty map stands for an absent key. `HMSET` assigns its pairs from left to
right, as one `HSET` after the other does, and the commands that read a hash answer from
the reference. What `HMGET` replies is in `HashReplies`.
-/

import PseudoRedis.SetHistory
import Mathlib.Data.Finmap

namespace PseudoRedis

/-! ### The reference -/

/-- The fields of a hash and their values. -/
abbrev Fields := Finmap fun _ : Bytes => Bytes

/-- A finite map for every key, the empty one for a key that is absent. -/
abbrev HashReference := Bytes → Fields

/-- Pairs assigned from left to right. -/
def insertPairs : Fields → List Bytes → Fields
  | fields, field :: val :: rest => insertPairs (fields.insert field val) rest
  | fields, _ => fields

def eraseFields (fields : Fields) (gone : List Bytes) : Fields :=
  gone.foldl (fun fields field => fields.erase field) fields

inductive HashCommand where
  | hset
  | hmset
  | hsetnx
  | hdel
  | del

inductive HashReply where
  | number (n : Nat)
  | ok

/-- The reference after a command, and what it replies. A command with too few arguments has
neither. -/
def HashCommand.reference (ref : HashReference) :
    HashCommand → List Bytes → Option (HashReference × HashReply)
  | .hset, [key, field, val] =>
      some (Function.update ref key ((ref key).insert field val),
        .number (if field ∈ ref key then 0 else 1))
  | .hmset, key :: field :: val :: rest =>
      if rest.length % 2 = 0 then
        some (Function.update ref key (insertPairs (ref key) (field :: val :: rest)), .ok)
      else none
  | .hsetnx, [key, field, val] =>
      if field ∈ ref key then some (ref, .number 0)
      else some (Function.update ref key ((ref key).insert field val),
        if ref key = ∅ then .number 1 else .ok)
  | .hdel, key :: first :: rest =>
      some (Function.update ref key (eraseFields (ref key) (first :: rest)),
        .number ((first :: rest).toFinset ∩ (ref key).keys).card)
  | .del, first :: rest =>
      some (fun key => if key ∈ (first :: rest).toFinset then ∅ else ref key,
        .number ((first :: rest).toFinset.filter fun key => ref key ≠ ∅).card)
  | _, _ => none

def HashCommand.run (dict : Dict Obj) (args : List Bss) : HashCommand → Run Obj
  | .hset => hsetCommand dict args
  | .hmset => hmsetCommand dict args
  | .hsetnx => hsetnxCommand dict args
  | .hdel => hdelCommand dict args
  | .del => delCommand dict args

def HashReply.run (dict : Dict Obj) : HashReply → Run Obj
  | .number n => intReply dict n
  | .ok => okReply dict

/-- The key spaces and references that commands lead to. -/
inductive HashHistory : Dict Obj → HashReference → Prop
  | start : HashHistory (dictCreate initDictSize) fun _ => ∅
  | step {dict : Dict Obj} {ref : HashReference} {sh : Shared} {result : Result Obj}
      (command : HashCommand) (args : List Bss) (before : HashHistory dict ref)
      (allotted : Allotted dict args) (ran : command.run dict args sh = .ok result) :
      HashHistory result.dict
        (((command.reference ref (args.map Bss.content)).map Prod.fst).getD ref)

/-! ### Finite maps -/

theorem keys_insert (fields : Fields) (field val : Bytes) :
    (fields.insert field val).keys = insert field fields.keys := by
  ext other
  rw [Finmap.mem_keys, Finmap.mem_insert, Finset.mem_insert, Finmap.mem_keys]

theorem keys_eq_empty_iff {fields : Fields} : fields.keys = ∅ ↔ fields = ∅ := by
  constructor
  · intro none
    refine Finmap.ext_lookup fun field => ?_
    rw [Finmap.lookup_empty, Finmap.lookup_eq_none, ← Finmap.mem_keys, none]
    exact Finset.notMem_empty field
  · rintro rfl
    exact Finmap.keys_empty

theorem lookup_eraseFields (fields : Fields) (gone : List Bytes) (field : Bytes) :
    (eraseFields fields gone).lookup field =
      if field ∈ gone.toFinset then none else fields.lookup field := by
  induction gone generalizing fields with
  | nil => exact (if_neg (Finset.notMem_empty _)).symm
  | cons first rest inductionHypothesis =>
    rw [eraseFields, List.foldl_cons, ← eraseFields, inductionHypothesis, List.toFinset_cons]
    by_cases later : field ∈ rest.toFinset
    · rw [if_pos later, if_pos (Finset.mem_insert_of_mem later)]
    · rw [if_neg later]
      by_cases same : field = first
      · rw [if_pos (Finset.mem_insert.mpr (Or.inl same)), same, Finmap.lookup_erase]
      · rw [Finmap.lookup_erase_ne same, if_neg]
        exact fun inside => (Finset.mem_insert.mp inside).elim same later

theorem keys_eraseFields (fields : Fields) (gone : List Bytes) :
    (eraseFields fields gone).keys = fields.keys \ gone.toFinset := by
  ext field
  rw [Finmap.mem_keys, ← Finmap.lookup_isSome, lookup_eraseFields, Finset.mem_sdiff,
    Finmap.mem_keys, ← Finmap.lookup_isSome]
  split
  · rename_i inside
    exact iff_of_false (by decide) fun both => both.2 inside
  · rename_i outside
    exact (and_iff_left outside).symm

/-! ### Hashes that match a finite map -/

/-- A stored value carries these bytes. -/
def Carries (val : Bss) (data : Bytes) : Prop := val.content = data ∧ val.Short

structure Matches (hash : Dict Bss) (fields : Fields) : Prop where
  keys : members hash = fields.keys
  vals : ∀ field : Bss, field.Short →
    Option.Rel Carries (dictLookUp hash field) (fields.lookup field.content)

variable {hash : Dict Bss} {fields : Fields}

theorem matches_create : Matches (dictCreate newDictPow) ∅ :=
  ⟨(members_create newDictPow).trans Finmap.keys_empty.symm, fun _ _ => .none⟩

theorem Matches.empty_iff (agree : Matches hash fields) : hash.entries = [] ↔ fields = ∅ := by
  rw [← members_nonempty_iff, agree.keys, keys_eq_empty_iff]

/-- An addition assigns. -/
theorem Matches.add (agree : Matches hash fields) (placed : hash.Placed) {field val : Bss}
    (fieldShort : field.Short) (valShort : val.Short) :
    Matches (dictAdd hash field val) (fields.insert field.content val.content) := by
  constructor
  · rw [members_dictAdd placed fieldShort, keys_insert, agree.keys]
  · intro other otherShort
    by_cases same : other.content = field.content
    · have own : dictLookUp (dictAdd hash field val) field = some val := by
        rw [lookUp_dictAdd_self placed.sized]
        cases dictLookUp hash field <;> rfl
      rw [lookUp_of_content (dictAdd_placed placed fieldShort val) fieldShort otherShort same, own,
        same, Finmap.lookup_insert]
      exact .some ⟨rfl, valShort⟩
    · rw [lookUp_dictAdd_of_ne placed fieldShort otherShort val same,
        Finmap.lookup_insert_of_ne _ same]
      exact agree.vals other otherShort

theorem Matches.addPairs (agree : Matches hash fields) (placed : hash.Placed) {pairs : List Bss}
    (short : ∀ arg ∈ pairs, arg.Short) :
    Matches (addPairs hash pairs) (insertPairs fields (pairs.map Bss.content)) := by
  induction hash, pairs using addPairs.induct generalizing fields with
  | case1 hash field val rest inductionHypothesis =>
    have fieldShort := short field List.mem_cons_self
    have valShort := short val (List.mem_cons_of_mem _ List.mem_cons_self)
    exact inductionHypothesis (agree.add placed fieldShort valShort)
      (dictAdd_placed placed fieldShort _) fun arg member =>
        short arg (List.mem_cons_of_mem _ (List.mem_cons_of_mem _ member))
  | case2 pairs hash other =>
    rcases pairs with _ | ⟨field, _ | ⟨val, rest⟩⟩
    · exact agree
    · exact agree
    · exact absurd rfl (other field val rest)

/-- Deletions erase. -/
theorem Matches.delKeys (agree : Matches hash fields) (placed : hash.Placed) {gone : List Bss}
    (short : ∀ arg ∈ gone, arg.Short) :
    Matches (delKeys hash gone).1 (eraseFields fields (gone.map Bss.content)) := by
  constructor
  · rw [(delKeys_members placed short).1, keys_eraseFields, agree.keys]
    rfl
  · intro other otherShort
    rw [lookUp_delKeys placed short otherShort, lookup_eraseFields]
    by_cases inside : other.content ∈ contents gone
    · rw [if_pos inside]
      exact (if_pos (show other.content ∈ (gone.map Bss.content).toFinset from inside)) ▸ .none
    · rw [if_neg inside]
      exact (if_neg (show other.content ∉ (gone.map Bss.content).toFinset from inside)) ▸
        agree.vals other otherShort

/-! ### Key spaces that stand for a reference -/

/-- What a look-up answers for a key with this reference map. -/
def HashAgrees (fields : Fields) : Option Obj → Prop
  | none => fields = ∅
  | some (.hash hash) => Matches hash fields
  | some _ => False

structure HashStands (dict : Dict Obj) (ref : HashReference) : Prop where
  sound : Sound False dict
  once : dict.ids.Nodup
  addressed : ∀ id ∈ dict.ids, id < 2 ^ 64
  agrees : ∀ key : Bss, key.Short → HashAgrees (ref key.content) (dictLookUp dict key)

variable {dict dict' : Dict Obj} {ref : HashReference} {key : Bss}

theorem hashStands_create : HashStands (dictCreate initDictSize) fun _ => ∅ :=
  ⟨sound_create False (by decide), ids_fresh.1, ids_fresh.2, fun key _ => rfl⟩

/-- The two things a key can be. -/
theorem HashStands.cases (stands : HashStands dict ref) (short : key.Short) :
    (dictLookUp dict key = none ∧ ref key.content = ∅) ∨
      ∃ hash, dictLookUp dict key = some (.hash hash) ∧ hash.WellFormed ∧
        Matches hash (ref key.content) ∧ ref key.content ≠ ∅ := by
  have agrees := stands.agrees key short
  cases answer : dictLookUp dict key with
  | none =>
    rw [answer] at agrees
    exact Or.inl ⟨rfl, agrees⟩
  | some obj =>
    rw [answer] at agrees
    cases obj with
    | hash hash =>
      have ok : Obj.Ok False (.hash hash) := stands.sound.lookUp answer
      have agree : Matches hash (ref key.content) := agrees
      exact Or.inr ⟨hash, rfl, ok.1, agree, fun empty =>
        ok.2.resolve_left id (agree.empty_iff.mpr empty)⟩
    | string bss => exact agrees.elim
    | list entries => exact agrees.elim
    | set inner => exact agrees.elim

/-- A key is absent exactly when its reference map is empty. -/
theorem HashStands.absent_iff (stands : HashStands dict ref) (short : key.Short) :
    dictLookUp dict key = none ↔ ref key.content = ∅ := by
  rcases stands.cases short with ⟨absent, empty⟩ | ⟨hash, answer, -, -, some⟩
  · exact iff_of_true absent empty
  · rw [answer]
    exact iff_of_false (Option.some_ne_none _) some

/-- A change of one key that gains arguments. -/
theorem HashStands.update (stands : HashStands dict ref) {args : List Bss}
    (allotted : Allotted dict args) {gain : List Nat} (sub : gain.Sublist (args.map Bss.id))
    (change : Change False dict gain dict') (short : key.Short) {fields : Fields}
    (own : HashAgrees fields (dictLookUp dict' key))
    (others : ∀ other : Bss, other.Short → other.content ≠ key.content →
      dictLookUp dict' other = dictLookUp dict other) :
    HashStands dict' (Function.update ref key.content fields) := by
  obtain ⟨once, addressed⟩ := allotted.gain stands.once stands.addressed sub change
  exact ⟨change.sound, once, addressed,
    agrees_update stands.agrees short change.sound.placed own others⟩

/-! ### Assignments -/

/-- The key space after pairs are assigned in the hash of a key, or in a new one. -/
def assigned (dict : Dict Obj) (key : Bss) (pairs : List Bss) : Dict Obj :=
  match dictLookUp dict key with
  | some (.hash hash) => putBack Kind.hash dict key (addPairs hash pairs)
  | _ => dictAdd dict key (.hash (addPairs (dictCreate newDictPow) pairs))

theorem HashStands.assign (stands : HashStands dict ref) {pairs : List Bss}
    (allotted : Allotted dict (key :: pairs)) (pair : 2 ≤ pairs.length) :
    HashStands (assigned dict key pairs)
      (Function.update ref key.content
        (insertPairs (ref key.content) (pairs.map Bss.content))) := by
  have placed := stands.sound.placed
  have keyShort := allotted.short key List.mem_cons_self
  have short : ∀ arg ∈ pairs, arg.Short := fun arg member =>
    allotted.short arg (List.mem_cons_of_mem _ member)
  rcases stands.cases keyShort with ⟨absent, empty⟩ | ⟨hash, answer, wellFormed, agree, -⟩
  · have created := sound_create (V := Bss) False newDictPow_le
    have whole := matches_create.addPairs created.placed short
    have change := Change.created Kind.hash_lawful stands.sound keyShort
      (addPairs_change created short)
      (Or.inr (entries_addPairs created.placed.sized (Or.inr pair)))
    rw [putBack_add stands.sound] at change
    simp only [assigned, absent]
    refine stands.update allotted (List.Sublist.refl _) change keyShort ?_
      fun other otherShort different =>
        lookUp_dictAdd_of_ne placed keyShort otherShort _ different
    rw [lookUp_dictAdd_self placed.sized, absent, empty]
    exact whole
  · have whole := agree.addPairs wellFormed.toPlaced short
    have change := Change.inPlace Kind.hash_lawful stands.sound answer
      (addPairs_change (sound_hash_iff.mpr wellFormed) short)
      (Or.inr (entries_addPairs wellFormed.sized (Or.inr pair)))
    simp only [assigned, answer]
    refine stands.update allotted (List.sublist_cons_self _ _) change keyShort ?_
      fun other otherShort different =>
        lookUp_dictSetVal_of_ne placed keyShort otherShort _ different
    rw [putBack, lookUp_dictSetVal_self placed.sized answer]
    exact whole

theorem Matches.member_iff (agree : Matches hash fields) (placed : hash.Placed) {field : Bss}
    (short : field.Short) : dictLookUp hash field = none ↔ field.content ∉ fields := by
  rw [lookUp_member_none placed short, agree.keys, Finmap.mem_keys]

theorem hsetCommand_stands (stands : HashStands dict ref) {field val : Bss}
    (allotted : Allotted dict [key, field, val]) :
    hsetCommand dict [key, field, val] = intReply (assigned dict key [field, val])
      ((if field.content ∈ ref key.content then 0 else 1 : Nat) : Int) := by
  have keyShort := allotted.short key List.mem_cons_self
  have fieldShort := allotted.short field (List.mem_cons_of_mem _ List.mem_cons_self)
  rcases stands.cases keyShort with ⟨absent, empty⟩ | ⟨hash, answer, wellFormed, agree, -⟩
  · rw [empty, if_neg Finmap.notMem_empty]
    simp only [hsetCommand, assigned, absent]
    exact congrArg (intReply · 1) (putBack_add stands.sound Kind.hash key _ _)
  · have known := agree.member_iff wellFormed.toPlaced fieldShort
    simp only [hsetCommand, assigned, answer]
    cases found : dictLookUp hash field with
    | none =>
      rw [if_neg (known.mp found)]
      rfl
    | some old =>
      rw [if_pos (not_not.mp (known.not.mp (found ▸ Option.some_ne_none old)))]
      rfl

theorem hsetnxCommand_stands (stands : HashStands dict ref) {field val : Bss}
    (allotted : Allotted dict [key, field, val]) :
    hsetnxCommand dict [key, field, val] =
      if field.content ∈ ref key.content then intReply dict 0
      else if ref key.content = ∅ then intReply (assigned dict key [field, val]) 1
      else okReply (assigned dict key [field, val]) := by
  have keyShort := allotted.short key List.mem_cons_self
  have fieldShort := allotted.short field (List.mem_cons_of_mem _ List.mem_cons_self)
  rcases stands.cases keyShort with ⟨absent, empty⟩ | ⟨hash, answer, wellFormed, agree, some⟩
  · rw [empty, if_neg Finmap.notMem_empty, if_pos rfl]
    simp only [hsetnxCommand, assigned, absent]
    exact congrArg (intReply · 1) (putBack_add stands.sound Kind.hash key _ _)
  · have known := agree.member_iff wellFormed.toPlaced fieldShort
    simp only [hsetnxCommand, assigned, answer]
    cases found : dictLookUp hash field with
    | none =>
      rw [if_neg (known.mp found), if_neg some]
      rfl
    | some old =>
      rw [if_pos (not_not.mp (known.not.mp (found ▸ Option.some_ne_none old)))]
      rfl

theorem hmsetCommand_stands (stands : HashStands dict ref) {pairs : List Bss}
    (allotted : Allotted dict (key :: pairs)) (pair : 2 ≤ pairs.length)
    (even : pairs.length % 2 = 0) :
    hmsetCommand dict (key :: pairs) = okReply (assigned dict key pairs) := by
  have enough : ¬ ((key :: pairs).length < 3 ∨ (key :: pairs).length % 2 ≠ 1) := by
    rw [List.length_cons]
    omega
  rw [hmsetCommand, if_neg enough]
  rcases stands.cases (allotted.short key List.mem_cons_self) with
    ⟨absent, -⟩ | ⟨hash, answer, -⟩
  · simp only [assigned, absent]
    rw [setPairs_ok _ _ pair]
    exact congrArg okReply (putBack_add stands.sound Kind.hash key _ _)
  · simp only [assigned, answer]
    rw [setPairs_ok _ _ pair]

/-! ### Deletions -/

theorem hdelCommand_stands (stands : HashStands dict ref) {first : Bss} {rest : List Bss}
    (allotted : Allotted dict (key :: first :: rest)) :
    ∃ dict', hdelCommand dict (key :: first :: rest) =
        intReply dict' (contents (first :: rest) ∩ (ref key.content).keys).card ∧
      HashStands dict' (Function.update ref key.content
        (eraseFields (ref key.content) ((first :: rest).map Bss.content))) := by
  have keyShort := allotted.short key List.mem_cons_self
  have short : ∀ arg ∈ first :: rest, arg.Short := fun arg member =>
    allotted.short arg (List.mem_cons_of_mem _ member)
  rcases stands.cases keyShort with ⟨absent, empty⟩ | ⟨hash, answer, wellFormed, agree, -⟩
  · refine ⟨dict, ?_, ?_⟩
    · simp only [hdelCommand, hdelsremCommand, absent, empty, Finmap.keys_empty,
        Finset.inter_empty]
      rfl
    · have none : eraseFields ∅ ((first :: rest).map Bss.content) = ∅ := by
        rw [← keys_eq_empty_iff, keys_eraseFields, Finmap.keys_empty, Finset.empty_sdiff]
      rw [empty, none, ← empty, Function.update_eq_self]
      exact stands
  · have whole := agree.delKeys wellFormed.toPlaced short
    have count := (delKeys_members wellFormed.toPlaced short).2
    rw [agree.keys] at count
    obtain ⟨dict', ran, change, own, others⟩ := hdelsremCommand_change Kind.hash_lawful rfl
      stands.sound stands.once stands.addressed keyShort answer (sound_hash_iff.mpr wellFormed)
      short
    refine ⟨dict', ran.trans (by rw [count]),
      stands.update allotted (List.nil_sublist _) change keyShort ?_ others⟩
    rw [own]
    split
    · rename_i none
      exact whole.empty_iff.mp none
    · exact whole

theorem HashStands.delCommand_stands (stands : HashStands dict ref) {first : Bss} {rest : List Bss}
    (allotted : Allotted dict (first :: rest)) :
    ∃ dict', delCommand dict (first :: rest) =
        intReply dict' ((contents (first :: rest)).filter fun key => ref key ≠ ∅).card ∧
      HashStands dict' fun key => if key ∈ contents (first :: rest) then ∅ else ref key := by
  have nothing : HashAgrees ∅ none := rfl
  obtain ⟨ran, agrees⟩ := delCommand_present nothing stands.sound.placed
    (fun _ short => stands.absent_iff short) stands.agrees allotted.short
  have change := delKeys_change stands.sound (first :: rest)
  obtain ⟨once, addressed⟩ :=
    allotted.gain stands.once stands.addressed (List.nil_sublist _) change
  exact ⟨_, ran, change.sound, once, addressed, agrees⟩

/-! ### Any history -/

theorem HashStands.step (stands : HashStands dict ref) (command : HashCommand) {args : List Bss}
    (allotted : Allotted dict args) {ref' : HashReference} {reply : HashReply}
    (reference : command.reference ref (args.map Bss.content) = some (ref', reply)) :
    ∃ dict', command.run dict args = reply.run dict' ∧ HashStands dict' ref' := by
  cases command with
  | hset =>
    match args, reference with
    | [key, field, val], reference =>
      cases reference
      exact ⟨_, hsetCommand_stands stands allotted, stands.assign allotted (Nat.le_refl 2)⟩
  | hmset =>
    match args, reference with
    | key :: field :: val :: rest, reference =>
      rw [List.map_cons, List.map_cons, List.map_cons, HashCommand.reference] at reference
      split at reference
      · rename_i even
        cases reference
        rw [List.length_map] at even
        have pair : 2 ≤ (field :: val :: rest).length := Nat.le_add_left 2 rest.length
        refine ⟨_, hmsetCommand_stands stands allotted pair ?_, stands.assign allotted pair⟩
        rw [List.length_cons, List.length_cons]
        omega
      · cases reference
  | hsetnx =>
    match args, reference with
    | [key, field, val], reference =>
      have ran := hsetnxCommand_stands stands allotted
      rw [List.map_cons, List.map_cons, List.map_singleton, HashCommand.reference] at reference
      split at reference
      · rename_i known
        cases reference
        rw [if_pos known] at ran
        exact ⟨dict, ran, stands⟩
      · rename_i new
        cases reference
        rw [if_neg new] at ran
        refine ⟨assigned dict key [field, val], ran.trans ?_,
          stands.assign allotted (Nat.le_refl 2)⟩
        split <;> rfl
  | hdel =>
    match args, reference with
    | key :: first :: rest, reference =>
      cases reference
      exact hdelCommand_stands stands allotted
  | del =>
    match args, reference with
    | first :: rest, reference =>
      cases reference
      exact stands.delCommand_stands allotted

/-- A command the reference has no answer for is refused. -/
theorem refused_of_reference {command : HashCommand} {args : List Bss}
    (reference : command.reference ref (args.map Bss.content) = none) :
    command.run dict args = failReply dict numArgs := by
  cases command with
  | hset =>
    match args, reference with
    | [], _ => rfl
    | [_], _ => rfl
    | [_, _], _ => rfl
    | _ :: _ :: _ :: _ :: _, _ => rfl
  | hmset =>
    match args, reference with
    | [], _ => rfl
    | [_], _ => rfl
    | [_, _], _ => rfl
    | key :: field :: val :: rest, reference =>
      rw [List.map_cons, List.map_cons, List.map_cons, HashCommand.reference, List.length_map]
        at reference
      split at reference
      · cases reference
      · rename_i odd
        refine if_pos (Or.inr ?_)
        rw [List.length_cons, List.length_cons, List.length_cons]
        omega
  | hsetnx =>
    match args, reference with
    | [], _ => rfl
    | [_], _ => rfl
    | [_, _], _ => rfl
    | [key, field, val], reference =>
      rw [List.map_cons, List.map_cons, List.map_singleton, HashCommand.reference] at reference
      split at reference <;> cases reference
    | _ :: _ :: _ :: _ :: _, _ => rfl
  | hdel =>
    match args, reference with
    | [], _ => rfl
    | [_], _ => rfl
  | del =>
    match args, reference with
    | [], _ => rfl

theorem HashHistory.stands (history : HashHistory dict ref) : HashStands dict ref := by
  induction history with
  | start => exact hashStands_create
  | @step dict ref sh result command args before allotted ran inductionHypothesis =>
    cases reference : command.reference ref (args.map Bss.content) with
    | none =>
      rw [refused_of_reference reference, failReply_eq] at ran
      cases ran
      exact inductionHypothesis
    | some outcome =>
      obtain ⟨ref', reply⟩ := outcome
      obtain ⟨dict', same, stands⟩ := inductionHypothesis.step command allotted reference
      rw [same] at ran
      cases reply <;> cases ran <;> exact stands

/-! ### Reading -/

theorem stringReply_content (dict : Dict Obj) {bss : Bss} (short : bss.Short) :
    stringReply dict bss.str bss.len = stringReply dict bss.content bss.content.length := by
  funext sh
  have inside : ¬ bss.str.length < bss.len := Nat.not_lt.mpr short.len_le
  have whole : bss.content.take bss.len = bss.str.take bss.len := by
    rw [Bss.content, List.take_take, Nat.min_self]
  rw [stringReply, stringReply, short.content_length, createStrReply, createStrReply,
    short.content_length, if_neg inside, if_neg (Nat.lt_irrefl _), whole]

/-- The reply to a look-up: the value, or a nil. -/
def lookupReply (dict : Dict Obj) : Option Bytes → Run Obj
  | some data => stringReply dict data data.length
  | none => nilReply dict

/-- The commands that read a hash answer from the reference. -/
structure Answers (dict : Dict Obj) (ref : HashReference) : Prop where
  absent : ∀ key : Bss, key.Short → (dictLookUp dict key = none ↔ ref key.content = ∅)
  hget : ∀ key field : Bss, key.Short → field.Short →
    hgetCommand dict [key, field] = lookupReply dict ((ref key.content).lookup field.content)
  hexists : ∀ key field : Bss, key.Short → field.Short →
    hexistsCommand dict [key, field] =
      intReply dict (if field.content ∈ ref key.content then 1 else 0)
  hlen : ∀ key : Bss, key.Short → hlenCommand dict [key] = intReply dict (ref key.content).keys.card

theorem hgetCommand_stands (stands : HashStands dict ref) {field : Bss} (short : key.Short)
    (fieldShort : field.Short) : hgetCommand dict [key, field] =
      lookupReply dict ((ref key.content).lookup field.content) := by
  rcases stands.cases short with ⟨absent, empty⟩ | ⟨hash, answer, -, agree, -⟩
  · rw [empty, Finmap.lookup_empty]
    simp only [hgetCommand, absent]
    rfl
  · have own := agree.vals field fieldShort
    simp only [hgetCommand, getCommandOn, answer]
    cases found : dictLookUp hash field with
    | none =>
      rw [found] at own
      cases known : (ref key.content).lookup field.content with
      | none => rfl
      | some data =>
        rw [known] at own
        cases own
    | some val =>
      rw [found] at own
      cases known : (ref key.content).lookup field.content with
      | none =>
        rw [known] at own
        cases own
      | some data =>
        rw [known] at own
        cases own with
        | some carries =>
          obtain ⟨rfl, valShort⟩ := carries
          exact (within_string hash val.str val.len _).trans (stringReply_content dict valShort)

theorem hexistsCommand_stands (stands : HashStands dict ref) {field : Bss} (short : key.Short)
    (fieldShort : field.Short) : hexistsCommand dict [key, field] =
      intReply dict (if field.content ∈ ref key.content then 1 else 0) := by
  rcases stands.cases short with ⟨absent, empty⟩ | ⟨hash, answer, wellFormed, agree, -⟩
  · rw [empty, if_neg Finmap.notMem_empty]
    simp only [hexistsCommand, absent]
    rfl
  · have known := agree.member_iff wellFormed.toPlaced fieldShort
    simp only [hexistsCommand, existsCommandOn, answer]
    cases found : dictLookUp hash field with
    | none =>
      rw [if_neg (known.mp found)]
      rfl
    | some val =>
      rw [if_pos (not_not.mp (known.not.mp (found ▸ Option.some_ne_none val)))]
      rfl

theorem hlenCommand_stands (stands : HashStands dict ref) (short : key.Short) :
    hlenCommand dict [key] = intReply dict (ref key.content).keys.card := by
  rcases stands.cases short with ⟨absent, empty⟩ | ⟨hash, answer, wellFormed, agree, -⟩
  · rw [empty, Finmap.keys_empty]
    simp only [hlenCommand, absent]
    rfl
  · simp only [hlenCommand, answer]
    rw [← agree.keys, card_members wellFormed.toPlaced, wellFormed.count]

theorem HashStands.answers (stands : HashStands dict ref) : Answers dict ref where
  absent _ short := stands.absent_iff short
  hget _ _ short fieldShort := hgetCommand_stands stands short fieldShort
  hexists _ _ short fieldShort := hexistsCommand_stands stands short fieldShort
  hlen _ short := hlenCommand_stands stands short

/-! ### The pairs of `HMSET` one by one -/

/-- `HSET` of one pair after the other under keys with the same bytes. -/
inductive SetOneByOne (content : Bytes) : Dict Obj → List Bytes → Dict Obj → Prop
  | done (dict : Dict Obj) : SetOneByOne content dict [] dict
  | next {dict after : Dict Obj} {key field val : Bss} {rest : List Bytes} {sh : Shared}
      {result : Result Obj} (same : key.content = content)
      (allotted : Allotted dict [key, field, val])
      (ran : hsetCommand dict [key, field, val] sh = .ok result)
      (later : SetOneByOne content result.dict rest after) :
      SetOneByOne content dict (field.content :: val.content :: rest) after

theorem SetOneByOne.stands {content : Bytes} {pairs : List Bytes}
    (sets : SetOneByOne content dict pairs dict') (stands : HashStands dict ref) :
    HashStands dict' (Function.update ref content (insertPairs (ref content) pairs)) := by
  induction sets generalizing ref with
  | done dict =>
    rw [insertPairs, Function.update_eq_self]
    · exact stands
    · intro field val rest same
      cases same
  | @next dict after key field val rest sh result same allotted ran later inductionHypothesis =>
    subst same
    have set := stands.assign allotted (Nat.le_refl 2)
    rw [hsetCommand_stands stands allotted] at ran
    cases ran
    have final := inductionHypothesis set
    rw [Function.update_self, Function.update_idem] at final
    exact final

theorem SetOneByOne.length_even {content : Bytes} {pairs : List Bytes}
    (sets : SetOneByOne content dict pairs dict') : pairs.length % 2 = 0 := by
  induction sets with
  | done dict => rfl
  | next same allotted ran later inductionHypothesis =>
    rw [List.length_cons, List.length_cons]
    omega

/-- `HMSET` leaves what the `HSET`s of its pairs leave. -/
theorem hmset_one_by_one (stands : HashStands dict ref) {pairs : List Bss} {sh : Shared}
    {result : Result Obj} (allotted : Allotted dict (key :: pairs))
    (ran : hmsetCommand dict (key :: pairs) sh = .ok result)
    (sets : SetOneByOne key.content dict (pairs.map Bss.content) dict') :
    ∃ ref', Answers result.dict ref' ∧ Answers dict' ref' := by
  have even := sets.length_even
  have after := sets.stands stands
  rw [List.length_map] at even
  refine ⟨_, ?_, after.answers⟩
  rcases Nat.lt_or_ge pairs.length 2 with few | pair
  · have none : pairs = [] := List.length_eq_zero_iff.mp (by omega)
    subst none
    have refused : hmsetCommand dict [key] = failReply dict numArgs := rfl
    rw [refused, failReply_eq] at ran
    cases ran
    cases sets
    exact after.answers
  · have set := stands.assign allotted pair
    rw [hmsetCommand_stands stands allotted pair even] at ran
    cases ran
    exact set.answers

end PseudoRedis

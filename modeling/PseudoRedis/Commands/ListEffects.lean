/-
This file gives the effects of the handlers on lists. A list that is put back takes its
key along when it is empty, and the key that is removed is the right one everywhere but
in `BLPOP` and `BRPOP`, which remove their first argument. What an edit makes of a list
is read up to permutation: a pop takes one entry out, a push and an insertion put
entries in, the others leave a part of the list.
-/

import PseudoRedis.Commands.HashEffects
import PseudoRedis.Commands.Lists

namespace PseudoRedis

/-! ### Entries -/

theorem listPop_perm {side : End} {entries rest : List Bss} {entry : Bss}
    (popped : listPop side entries = some (entry, rest)) : entries.Perm (entry :: rest) := by
  cases entries with
  | nil => cases side <;> cases popped
  | cons head tail =>
    cases side with
    | left =>
      cases popped
      exact List.Perm.refl _
    | right =>
      simp only [listPop, Option.some.injEq, Prod.mk.injEq] at popped
      obtain ⟨rfl, rfl⟩ := popped
      have split := List.dropLast_append_getLast (List.cons_ne_nil head tail)
      exact (List.Perm.of_eq split.symm).trans (List.perm_append_singleton _ _)

theorem eq_nil_of_listPop {side : End} {entries : List Bss} (none : listPop side entries = none) :
    entries = [] := by
  cases entries with
  | nil => rfl
  | cons head tail => cases side <;> cases none

theorem listInsert_perm (side : End) (entries : List Bss) (entry : Bss) :
    (listInsert side entries entry).Perm (entry :: entries) := by
  cases side with
  | left => exact List.Perm.refl _
  | right => exact List.perm_append_singleton entry entries

theorem foldl_listInsert_perm (side : End) (args entries : List Bss) :
    (args.foldl (listInsert side) entries).Perm (args ++ entries) := by
  induction args generalizing entries with
  | nil => exact List.Perm.refl _
  | cons arg rest inductionHypothesis =>
    refine (inductionHypothesis _).trans ?_
    exact ((listInsert_perm side entries arg).append_left rest).trans List.perm_middle

/-! ### Lists put back -/

variable {env : Env} {E L : Prop} {dict : Dict Obj} {gain : List Nat} {key : Bss}

/-- The allocations of entries. -/
def countIds (entries : List Bss) (id : Nat) : Nat := (entries.map Bss.id).count id

theorem countIds_perm {first second : List Bss} (same : first.Perm second) (id : Nat) :
    countIds first id = countIds second id := (same.map Bss.id).count_eq id

theorem countIds_sublist {first second : List Bss} (sub : first.Sublist second) (id : Nat) :
    countIds first id ≤ countIds second id := (sub.map Bss.id).count_le id

theorem countIds_append (first second : List Bss) (id : Nat) :
    countIds (first ++ second) id = countIds first id + countIds second id := by
  rw [countIds, List.map_append, List.count_append]
  rfl

theorem countIds_cons (entry : Bss) (entries : List Bss) (id : Nat) :
    countIds (entry :: entries) id = countIds entries id + [entry.id].count id := by
  rw [← List.singleton_append, countIds_append, Nat.add_comm]
  rfl

/-- Entries that fit a reply. -/
def Fit (entries : List Bss) : Prop := ∀ entry ∈ entries, entry.len ≤ maxRplySize

theorem Fit.perm {first second : List Bss} (fit : Fit second) (same : first.Perm second) :
    Fit first := fun entry member => fit entry (same.mem_iff.mp member)

theorem Fit.sublist {first second : List Bss} (fit : Fit second) (sub : first.Sublist second) :
    Fit first := fun entry member => fit entry (sub.subset member)

theorem fit_of_given {args : List Bss} (given : ∀ arg ∈ args, arg.Arg) : Fit args :=
  fun arg member => (given arg member).len_le

/-- What is known of a list of the key space. -/
theorem Sound.list (sound : Sound E dict) {entries : List Bss}
    (answer : dictLookUp dict key = some (.list entries)) : (E ∨ entries ≠ []) ∧ Fit entries :=
  sound.lookUp answer

/-- A key space with an empty list does not keep empty lists out. -/
theorem not_sound_of_empty {entries : List Bss}
    (answer : dictLookUp dict key = some (.list entries)) (empty : entries = []) :
    ¬ Sound False dict := by
  intro sound
  exact (sound.list answer).1.elim id fun other => other empty

theorem entry_mem_ids (sound : Sound E dict) {entries : List Bss}
    (answer : dictLookUp dict key = some (.list entries)) {entry : Bss} (member : entry ∈ entries) :
    entry.id ∈ dict.ids :=
  lookUp_mem_ids sound.placed.sized answer (List.mem_map_of_mem member)

/-- A list edited under its key. -/
theorem Change.setList (sound : Sound E dict) {entries new : List Bss}
    (answer : dictLookUp dict key = some (.list entries)) (some : E ∨ new ≠ []) (fit : Fit new)
    (more : ∀ id, countIds new id ≤ countIds entries id + gain.count id) :
    Change E dict gain (dictSetVal dict key (.list new)) :=
  Change.setVal sound answer (show Obj.Ok E (.list new) from ⟨some, fit⟩) more

/-- A list put back under a key of which only the first argument may be removed. -/
theorem putList_sound (sound : Sound E dict) {entries rest : List Bss}
    (answer : dictLookUp dict key = some (.list entries)) (fit : Fit rest) {removed : Bss}
    (right : removed = key ∨ (rest = [] → E)) : Sound E (putList dict key removed rest) := by
  have kept (some : E ∨ rest ≠ []) : Sound E (dictSetVal dict key (.list rest)) := by
    have change : Change E dict (rest.map Bss.id) (dictSetVal dict key (.list rest)) :=
      Change.setList sound answer some fit fun _ => Nat.le_add_left _ _
    exact change.sound
  unfold putList
  split
  · rename_i empty
    have nil := List.eq_nil_of_length_eq_zero empty
    rcases right with rfl | given
    · exact (Change.rm_setVal sound answer _).sound
    · exact (Change.rm (kept (Or.inl (given nil))) removed).sound
  · rename_i some
    exact kept (Or.inr fun nil => some (by rw [nil]; rfl))

/-- Putting a list back exchanges its entries, whichever key is removed. -/
theorem putList_conserve (sound : Sound E dict) {entries : List Bss}
    (answer : dictLookUp dict key = some (.list entries)) (rest : List Bss) (removed : Bss)
    (id : Nat) :
    (putList dict key removed rest).ids.count id + countIds entries id ≤
      dict.ids.count id + countIds rest id := by
  have sized := sound.placed.sized
  have exchanged := count_ids_setVal sized answer (.list rest) id
  unfold putList
  split
  · have kept := count_ids_rmNf (dictSetVal_sized sized key (.list rest)) removed id
    rw [dictRm_fst]
    exact Nat.le_trans (Nat.add_le_add_right kept _) (Nat.le_of_eq exchanged)
  · exact Nat.le_of_eq exchanged

/-- A pop takes an entry that fits a reply, and what it leaves is put back without it. -/
theorem Sound.popped (sound : Sound E dict) {side : End} {entries rest : List Bss} {entry : Bss}
    (answer : dictLookUp dict key = some (.list entries))
    (popped : listPop side entries = some (entry, rest)) :
    entry ∈ entries ∧ Fit (entry :: rest) ∧ ∀ (removed : Bss) (id : Nat),
      (putList dict key removed rest).ids.count id + [entry.id].count id ≤ dict.ids.count id := by
  have same := listPop_perm popped
  refine ⟨same.mem_iff.mpr List.mem_cons_self, (sound.list answer).2.perm same.symm,
    fun removed id => ?_⟩
  have exchanged := putList_conserve sound answer rest removed id
  rw [countIds_perm same, countIds_cons] at exchanged
  omega

theorem Sound.left (sound : Sound E dict) {side : End} {entries rest : List Bss} {entry : Bss}
    (answer : dictLookUp dict key = some (.list entries))
    (popped : listPop side entries = some (entry, rest)) : Sound E (putList dict key key rest) := by
  obtain ⟨-, fit, -⟩ := sound.popped answer popped
  exact putList_sound sound answer (fit.sublist (List.sublist_cons_self entry rest)) (Or.inl rfl)

theorem Change.shortened (sound : Sound E dict) {entries rest : List Bss}
    (answer : dictLookUp dict key = some (.list entries)) (sub : rest.Sublist entries)
    (gain : List Nat) : Change E dict gain (putList dict key key rest) := by
  refine ⟨putList_sound sound answer ((sound.list answer).2.sublist sub) (Or.inl rfl), fun id => ?_⟩
  have exchanged := putList_conserve sound answer rest key id
  have fewer := countIds_sublist sub id
  omega

theorem lookUp_putList_self (placed : dict.Placed) (short : key.Short) {entries : List Bss}
    (answer : dictLookUp dict key = some (.list entries)) (rest : List Bss) :
    dictLookUp (putList dict key key rest) key = if rest = [] then none else some (.list rest) := by
  cases rest with
  | nil =>
    rw [putList, if_pos rfl, dictRm_fst]
    exact lookUp_dictRmNf_self (dictSetVal_placed placed key _) short
  | cons entry rest =>
    rw [putList, if_neg (show (entry :: rest).length ≠ 0 from Nat.succ_ne_zero _)]
    exact lookUp_dictSetVal_self placed.sized answer _

theorem lookUp_putList_of_ne (placed : dict.Placed) (short : key.Short) {other : Bss}
    (otherShort : other.Short) (different : other.content ≠ key.content) (rest : List Bss) :
    dictLookUp (putList dict key key rest) other = dictLookUp dict other := by
  have assigned := lookUp_dictSetVal_of_ne placed short otherShort (.list rest) different
  unfold putList
  split
  · rw [dictRm_fst, lookUp_dictRmNf_of_ne (dictSetVal_placed placed key _) short otherShort
      different, assigned]
  · exact assigned

/-! ### Pushing and popping -/

theorem lpushrpushCommand_does (side : End) (sound : Sound E dict) {args : List Bss}
    (given : ∀ arg ∈ args, arg.Arg) :
    Does env E L dict (spent env args) none (lpushrpushCommand side dict args) := by
  unfold lpushrpushCommand
  split
  · rename_i key first rest
    have entriesFit : Fit (first :: rest) :=
      fit_of_given fun arg member => given arg (List.mem_cons_of_mem _ member)
    have pushed := foldl_listInsert_perm side (first :: rest)
    have some (entries : List Bss) : (first :: rest).foldl (listInsert side) entries ≠ [] := by
      intro nil
      have length := (pushed entries).length_eq
      rw [nil] at length
      cases length
    split
    · have ok : Obj.Ok E (.list ((first :: rest).foldl (listInsert side) [])) := by
        refine ⟨Or.inr (some []), Fit.perm ?_ (pushed [])⟩
        rwa [List.append_nil]
      refine does_int ((Change.add sound (given key List.mem_cons_self).short ok).mono
        fun id => ?_) _
      have same := countIds_perm (pushed []) id
      rw [List.append_nil] at same
      refine Nat.le_trans (Nat.le_of_eq ?_) (count_spent_le env (key :: first :: rest) id)
      rw [List.count_cons, List.map_cons, List.count_cons]
      exact congrArg (· + _) same
    · rename_i entries answer
      have old := (sound.list answer).2
      refine does_int (Change.setList sound answer (Or.inr (some entries)) ?_ fun id => ?_) _
      · refine Fit.perm (fun entry member => ?_) (pushed entries)
        exact (List.mem_append.mp member).elim (entriesFit entry) (old entry)
      · rw [countIds_perm (pushed entries), countIds_append, Nat.add_comm]
        refine Nat.add_le_add_left (Nat.le_trans (count_spent_le env (first :: rest) id) ?_) _
        exact count_le_spent env (.cons _ (List.Sublist.refl _)) id
    · exact does_fail sound wrongType
  · exact does_fail sound numArgs

theorem lpoprpopCommand_does (side : End) (sound : Sound E dict) (args : List Bss) :
    Does env E L dict gain none (lpoprpopCommand side dict args) := by
  unfold lpoprpopCommand
  split
  · rename_i key
    split
    · exact does_nil sound
    · rename_i entries answer
      split
      · rename_i empty
        exact .stops .nullEntry (fun _ => not_sound_of_empty answer (eq_nil_of_listPop empty))
          (fun same => by cases same) rfl fun _ => rfl
      · rename_i entry rest popped
        obtain ⟨-, fit, out⟩ := sound.popped answer popped
        have change : Change E dict gain (putList dict key key rest) := by
          refine ⟨sound.left answer popped, fun id => ?_⟩
          have less := out key id
          omega
        have short : entry.len ≤ maxRplySize := fit entry List.mem_cons_self
        exact does_string change _ _ fun long => absurd short (Nat.not_le.mpr long)
    · exact does_fail sound wrongType
  · exact does_fail sound numArgs

/-- The entry `RPOPLPUSH` moves, if it reaches the second key. -/
def movedEntry (dict : Dict Obj) (src dst : Bss) : Option Bss :=
  match dictLookUp dict src with
  | some (.list entries) =>
      match listPop .right entries with
      | none => none
      | some (entry, rest) =>
          match dictLookUp (putList dict src src rest) dst with
          | none => some entry
          | some (.list _) => some entry
          | some _ => none
  | _ => none

/-- The first key holds a list and the second something else, so an entry is popped and lost, and
the refusal frees the first key again. -/
def losesEntry (dict : Dict Obj) (src dst : Bss) : Prop :=
  (∃ entries, dictLookUp dict src = some (.list entries) ∧ entries ≠ []) ∧
    ∃ obj, dictLookUp dict dst = some obj ∧ ∀ entries, obj ≠ .list entries

theorem losesEntry_of_lookUp (sound : Sound E dict) {src dst : Bss} (srcShort : src.Short)
    (dstShort : dst.Short) {entries : List Bss}
    (answer : dictLookUp dict src = some (.list entries)) (filled : entries ≠ [])
    {rest : List Bss} {obj : Obj} (target : dictLookUp (putList dict src src rest) dst = some obj)
    (other : ∀ entries, obj ≠ .list entries) (placed : (putList dict src src rest).Placed) :
    losesEntry dict src dst := by
  refine ⟨⟨entries, answer, filled⟩, obj, ?_, other⟩
  by_cases same : dst.content = src.content
  · rw [lookUp_of_content placed srcShort dstShort same,
      lookUp_putList_self sound.placed srcShort answer] at target
    split at target
    · cases target
    · exact absurd (Option.some.inj target).symm (other rest)
  · rwa [lookUp_putList_of_ne sound.placed srcShort dstShort same] at target

/-- The popped entry under a second key that is absent. -/
theorem Change.movedNew (sound : Sound E dict) {src dst entry : Bss} {entries rest : List Bss}
    (answer : dictLookUp dict src = some (.list entries))
    (popped : listPop .right entries = some (entry, rest)) (dstShort : dst.Short) :
    Change E dict (spent env [src, dst])
      (dictAdd (putList dict src src rest) dst (.list [entry])) := by
  obtain ⟨-, fit, out⟩ := sound.popped answer popped
  have left := sound.left answer popped
  have ok : Obj.Ok E (.list [entry]) :=
    ⟨Or.inr (List.cons_ne_nil _ _), fit.sublist (.cons_cons entry (List.nil_sublist rest))⟩
  have added := Change.add left dstShort ok
  refine ⟨added.sound, fun id => ?_⟩
  have one := added.conserve id
  have two := out src id
  have three : [dst.id].count id ≤ (spent env [src, dst]).count id :=
    count_le_spent env (.cons _ (.cons_cons _ (List.nil_sublist _))) id
  have whole : (dst.id :: Store.ids (Obj.list [entry])).count id =
      [dst.id].count id + [entry.id].count id := by
    rw [← List.singleton_append, List.count_append]
    rfl
  omega

/-- The popped entry in front of the list under the second key. -/
theorem Change.movedFront (sound : Sound E dict) {src dst entry : Bss}
    {entries rest targets : List Bss} (answer : dictLookUp dict src = some (.list entries))
    (popped : listPop .right entries = some (entry, rest))
    (target : dictLookUp (putList dict src src rest) dst = some (.list targets)) :
    Change E dict gain
      (dictSetVal (putList dict src src rest) dst (.list (entry :: targets))) := by
  obtain ⟨-, fit, out⟩ := sound.popped answer popped
  have left := sound.left answer popped
  have moved : Change E (putList dict src src rest) [entry.id]
      (dictSetVal (putList dict src src rest) dst (.list (entry :: targets))) := by
    refine Change.setList left target (Or.inr (List.cons_ne_nil _ _))
      (List.forall_mem_cons.mpr ⟨fit entry List.mem_cons_self, (left.list target).2⟩)
      fun id => Nat.le_of_eq (countIds_cons entry targets id)
  refine ⟨moved.sound, fun id => ?_⟩
  have one := moved.conserve id
  have two := out src id
  omega

/-- An entry is moved unless the second key holds something else than a list. -/
theorem rpoplpush_does (listed : Option Bss → Option Listing)
    (nothing : listed none = none) (sound : Sound E dict) {src dst : Bss} (srcShort : src.Short)
    (dstShort : dst.Short) {blocked : Run Obj} {finish : Dict Obj → Bss → Run Obj}
    (loses : losesEntry dict src dst → L)
    (onBlocked : Does env E L dict (spent env [src, dst]) none blocked)
    (onFinish : ∀ dict' entry, Change E dict (spent env [src, dst]) dict' → entry.id ∈ dict.ids →
      entry.len ≤ maxRplySize →
        Does env E L dict (spent env [src, dst]) (listed (some entry)) (finish dict' entry)) :
    Does env E L dict (spent env [src, dst]) (listed (movedEntry dict src dst))
      (rpoplpush dict src dst blocked finish) := by
  have refused : Does env E L dict (spent env [src, dst]) (listed none)
      (failReply dict wrongType) := by
    rw [nothing]
    exact does_fail sound wrongType
  cases answer : dictLookUp dict src with
  | none =>
    simp only [rpoplpush, movedEntry, answer, nothing]
    exact onBlocked
  | some obj =>
    cases obj with
    | list entries =>
      cases popped : listPop .right entries with
      | none =>
        simp only [rpoplpush, movedEntry, answer, popped]
        exact .stops .nullEntry (fun _ => not_sound_of_empty answer (eq_nil_of_listPop popped))
          (fun same => by cases same) nothing fun _ => rfl
      | some pair =>
        obtain ⟨entry, rest⟩ := pair
        obtain ⟨inside, fit, -⟩ := sound.popped answer popped
        have held := entry_mem_ids sound answer inside
        have short : entry.len ≤ maxRplySize := fit entry List.mem_cons_self
        cases target : dictLookUp (putList dict src src rest) dst with
        | none =>
          simp only [rpoplpush, movedEntry, answer, popped, target]
          exact onFinish _ entry (.movedNew sound answer popped dstShort) held short
        | some obj =>
          cases obj with
          | list targets =>
            simp only [rpoplpush, movedEntry, answer, popped, target]
            exact onFinish _ entry (.movedFront sound answer popped target) held short
          | _ =>
            simp only [rpoplpush, movedEntry, answer, popped, target, nothing]
            refine .stops .freedTwice (fun same => by cases same) (fun _ => loses ?_) rfl
              fun _ => rfl
            exact losesEntry_of_lookUp sound srcShort dstShort answer
              (List.ne_nil_of_mem inside) target
              (fun _ same => by cases same) (sound.left answer popped).placed
    | _ =>
      simp only [rpoplpush, movedEntry, answer]
      exact refused

/-- The case in which `RPOPLPUSH` pops an entry and then does not get past the second key. -/
def losesArgs (dict : Dict Obj) : List Bss → Prop
  | [src, dst] => losesEntry dict src dst
  | _ => False

theorem rpoplpushCommand_does (sound : Sound E dict) {args : List Bss}
    (given : ∀ arg ∈ args, arg.Arg) (loses : losesArgs dict args → L) :
    Does env E L dict (spent env args) none (rpoplpushCommand dict args) := by
  unfold rpoplpushCommand
  split
  · rename_i src dst
    have dstShort := (given dst (List.mem_cons_of_mem _ List.mem_cons_self)).short
    exact rpoplpush_does (fun _ => none) rfl sound (given src List.mem_cons_self).short dstShort
      loses (does_nil sound) fun dict' entry change _ fit =>
        does_string change entry.str entry.len fun long => absurd fit (Nat.not_le.mpr long)
  · exact does_fail sound numArgs

/-! ### Blocking -/

theorem firstPresent_lookUp {args : List Bss} {obj : Obj}
    (present : firstPresent dict args = some (key, obj)) :
    dictLookUp dict key = some obj ∧ key ∈ args := by
  induction args with
  | nil => cases present
  | cons arg rest inductionHypothesis =>
    rw [firstPresent] at present
    split at present
    · rename_i answer
      cases present
      exact ⟨answer, List.mem_cons_self⟩
    · obtain ⟨answer, member⟩ := inductionHypothesis present
      exact ⟨answer, List.mem_cons_of_mem _ member⟩

/-- The last entry of a list is popped while the first argument, which is removed, is absent. -/
def leavesList (dict : Dict Obj) : List Bss → Prop
  | [] => False
  | first :: rest =>
      dictLookUp dict first = none ∧
        ∃ key entry, firstPresent dict (first :: rest) = some (key, .list [entry])

/-- What a satisfied `BLPOP` or `BRPOP` lists. -/
def blpopbrpopListing (side : End) (dict : Dict Obj) : List Bss → Option Listing
  | [] => none
  | first :: rest =>
      match firstPresent dict (first :: rest) with
      | some (_, .list entries) =>
          (listPop side entries).map fun (entry, _) => .left (popped first entry)
      | _ => none

theorem freed_owned (bss : Bss) : (⟨some bss, strNi ||| needFree⟩ : Elem).freed = [bss.id] := by
  have string : ¬ (strNil &&& (strNi ||| needFree) ≠ 0) := by decide
  have owned : (strNi ||| needFree) &&& needFree ≠ 0 := by decide
  simp only [Elem.freed, if_neg string, if_pos owned]

theorem popped_freed (first entry : Bss) :
    (filled (some (popped first entry))).flatMap Elem.freed = [first.id] ++ [entry.id] := by
  simp only [filled, popped, Option.getD_some, List.flatMap_cons, List.flatMap_nil, freed_owned,
    List.append_nil]

theorem read_ni {bss : Bss} {tag : UInt8} (string : ¬ (strNil &&& tag ≠ 0)) :
    (⟨some bss, tag⟩ : Elem).read = [bss.id] := by
  simp only [Elem.read, if_neg string, Option.map_some, Option.toList_some]

theorem popped_apart {first entry : Bss} (given : first.id ∈ gain) (held : entry.id ∈ dict.ids) :
    Apart dict gain (popped first entry) := by
  refine .cons (fun later member id released => ?_) (List.pairwise_singleton _ _)
  rw [freed_owned] at released
  rw [List.mem_singleton.mp released]
  refine ⟨given, fun other read => ?_⟩
  rw [List.mem_singleton.mp member, read_ni (by decide)] at read
  rw [List.mem_singleton.mp read]
  exact held

theorem blpopbrpopCommand_does (side : End) (sound : Sound E dict) {args : List Bss}
    (leaves : leavesList dict args → E) :
    Does env E L dict (spent env args) (blpopbrpopListing side dict args)
      (blpopbrpopCommand side dict args) := by
  cases args with
  | nil => exact does_fail sound numArgs
  | cons first rest =>
    cases present : firstPresent dict (first :: rest) with
    | none =>
      simp only [blpopbrpopCommand, blpopbrpopListing, present]
      refine .answers dict (some []) (.silent eBlocked)
        ⟨sound, fun id => Nat.le_add_right _ _, ?_, .nil, fun _ _ => Option.some_ne_none _,
          fun _ => Or.inr rfl, rfl⟩
        fun sh => ⟨addAll (resetReplyArr sh) [], Fills.some sh [], rfl⟩
      rintro id ⟨⟩
    | some pair =>
      obtain ⟨key, obj⟩ := pair
      obtain ⟨answer, -⟩ := firstPresent_lookUp present
      cases obj with
      | list entries =>
        cases popped : listPop side entries with
        | none =>
          simp only [blpopbrpopCommand, blpopbrpopListing, present, popped]
          exact .stops .nullEntry (fun _ => not_sound_of_empty answer (eq_nil_of_listPop popped))
            (fun same => by cases same) rfl fun _ => rfl
        | some pair =>
          obtain ⟨entry, left⟩ := pair
          obtain ⟨inside, fit, out⟩ := sound.popped answer popped
          have leftFit : Fit left := fit.sublist (List.sublist_cons_self entry left)
          have right : first = key ∨ (left = [] → E) := by
            cases absent : dictLookUp dict first with
            | none =>
              refine Or.inr fun nil => leaves ⟨absent, key, entry, ?_⟩
              rw [nil] at popped
              rw [present, List.perm_singleton.mp (listPop_perm popped)]
            | some obj =>
              rw [firstPresent, absent] at present
              cases present
              exact Or.inl rfl
          simp only [blpopbrpopCommand, blpopbrpopListing, present, popped, Option.map_some]
          refine .answers (putList dict key first left) (some (PseudoRedis.popped first entry))
            (.silent 0)
            ⟨putList_sound sound answer leftFit right, fun id => ?_, fun id member => ?_,
              popped_apart List.mem_cons_self (entry_mem_ids sound answer inside),
              fun _ _ => Option.some_ne_none _,
              fun code => absurd code (by decide : (0 : Int) ≠ eTooLong), rfl⟩
            fun sh => ⟨addAll (resetReplyArr sh) (PseudoRedis.popped first entry),
              Fills.some sh _, rfl⟩
          · have less := out first id
            have given : [first.id].count id ≤ (spent env (first :: rest)).count id :=
              count_le_spent env (.cons_cons _ (List.nil_sublist _)) id
            rw [popped_freed, List.count_append]
            omega
          · obtain ⟨elem, listed, reads⟩ := List.mem_flatMap.mp member
            rcases List.mem_cons.mp listed with rfl | last
            · rw [read_ni (by decide), List.mem_singleton] at reads
              exact Or.inr (reads ▸ List.mem_cons_self)
            · rw [List.mem_singleton.mp last, read_ni (by decide), List.mem_singleton] at reads
              exact Or.inl (reads ▸ entry_mem_ids sound answer inside)
      | _ =>
        simp only [blpopbrpopCommand, blpopbrpopListing, present]
        exact does_fail sound wrongType

/-- A moved entry is listed, unless what the handler returns when it falls off its end is
`E_BLOCKED`. -/
def movedListing (env : Env) (moved : Option Bss) : Option Listing :=
  if env.fallOff 0 = eBlocked then none
  else moved.map fun entry => .left [⟨some entry, strNi⟩]

theorem movedListing_none (env : Env) : movedListing env none = none := by
  rw [movedListing, Option.map_none, ite_self]

/-- What `BRPOPLPUSH` lists. -/
def brpoplpushListing (env : Env) (dict : Dict Obj) : List Bss → Option Listing
  | [src, dst] => movedListing env (movedEntry dict src dst)
  | _ => none

theorem brpoplpushCommand_does (sound : Sound E dict) {args : List Bss}
    (given : ∀ arg ∈ args, arg.Arg) (loses : losesArgs dict args → L)
    (falls : env.fallOff 0 = eTooLong → L) :
    Does env E L dict (spent env args) (brpoplpushListing env dict args)
      (brpoplpushCommand env dict args) := by
  rcases args with _ | ⟨src, _ | ⟨dst, _ | ⟨third, rest⟩⟩⟩
  · exact does_fail sound numArgs
  · exact does_fail sound numArgs
  · have dstShort := (given dst (List.mem_cons_of_mem _ List.mem_cons_self)).short
    simp only [brpoplpushCommand, brpoplpushListing]
    refine rpoplpush_does (movedListing env) (movedListing_none env) sound
      (given src List.mem_cons_self).short dstShort loses
      (does_returning (Change.refl sound _) eBlocked fun _ => Or.inr rfl)
      fun dict' entry change held _ => ?_
    have lent : Lent dict (spent env [src, dst]) [⟨some entry, strNi⟩] := fun elem member => by
      rw [List.mem_singleton.mp member]
      exact lent_shown (by decide) (by decide) (Or.inl held)
    refine .answers dict' (some [⟨some entry, strNi⟩]) (.silent (env.fallOff 0))
      ⟨change.sound, fun id => ?_, lent.read, lent.apart, fun _ _ => Option.some_ne_none _,
        fun code => Or.inl (falls code), rfl⟩
      fun sh => ⟨addAll (resetReplyArr sh) _, Fills.some sh _, rfl⟩
    rw [show filled (some [⟨some entry, strNi⟩]) = [⟨some entry, strNi⟩] from rfl, lent.freed]
    exact change.conserve id
  · exact does_fail sound numArgs

/-! ### Reading -/

theorem llenCommand_does (sound : Sound E dict) (args : List Bss) :
    Does env E L dict gain none (llenCommand dict args) := by
  unfold llenCommand
  split
  · split
    · exact does_int (Change.refl sound gain) 0
    · exact does_int (Change.refl sound gain) _
    · exact does_fail sound wrongType
  · exact does_fail sound numArgs

/-- The entries of a list between two offsets counted as `LRANGE` counts them. -/
def rangeElems (entries : List Bss) (offset1 offset2 : Int) : List Elem :=
  if emptyRange (rangeStart offset1 entries.length) (fromEnd offset2 entries.length)
      entries.length then
    []
  else
    (sublist entries (rangeStart offset1 entries.length)
      (fromEnd offset2 entries.length)).map fun entry => ⟨some entry, strNormal⟩

/-- What `LRANGE` lists. -/
def lrangeListing (dict : Dict Obj) : List Bss → Option Listing
  | [key, offset1, offset2] =>
      if (bss2int offset1).2 ≠ 0 ∨ (bss2int offset2).2 ≠ 0 then none
      else
        match dictLookUp dict key with
        | none => some (.encoded rplyArr [])
        | some (.list entries) =>
            some (.encoded rplyArr
              (rangeElems entries (bss2int offset1).1 (bss2int offset2).1))
        | some _ => none
  | _ => none

theorem sublist_sublist (entries : List Bss) (first last : Int) :
    (sublist entries first last).Sublist entries :=
  (List.take_sublist _ _).trans (List.drop_sublist _ _)

theorem lrangeCommand_does (sound : Sound E dict) (args : List Bss) :
    Does env E L dict gain (lrangeListing dict args) (lrangeCommand env dict args) := by
  rcases args with _ | ⟨key, _ | ⟨offset1, _ | ⟨offset2, _ | ⟨fourth, rest⟩⟩⟩⟩
  · exact does_fail sound numArgs
  · exact does_fail sound numArgs
  · exact does_fail sound numArgs
  · by_cases invalid : (bss2int offset1).2 ≠ 0 ∨ (bss2int offset2).2 ≠ 0
    · simp only [lrangeCommand, lrangeListing, if_pos invalid]
      exact does_fail sound invInt
    · cases answer : dictLookUp dict key with
      | none =>
        simp only [lrangeCommand, lrangeListing, if_neg invalid, answer]
        exact does_fill_nothing sound
      | some obj =>
        cases obj with
        | list entries =>
          simp only [lrangeCommand, lrangeListing, if_neg invalid, answer, rangeElems]
          split
          · exact does_fill_nothing sound
          · refine does_fill sound (fun _ => rfl) fun elem member => ?_
            obtain ⟨entry, inside, rfl⟩ := List.mem_map.mp member
            exact lent_normal (Or.inl
              (entry_mem_ids sound answer ((sublist_sublist _ _ _).subset inside)))
        | _ =>
          simp only [lrangeCommand, lrangeListing, if_neg invalid, answer]
          exact does_fail_reset sound wrongType
  · exact does_fail sound numArgs

theorem lindexCommand_does (sound : Sound E dict) (args : List Bss) :
    Does env E L dict gain none (lindexCommand dict args) := by
  unfold lindexCommand
  split
  · simp only
    split
    · exact does_fail sound invInt
    · split
      · exact does_nil sound
      · split
        · exact does_nil sound
        · exact does_string (Change.refl sound gain) _ _ fun _ => Or.inr rfl
      · exact does_fail sound wrongType
  · exact does_fail sound numArgs

/-! ### Editing -/

theorem countIds_set (entries : List Bss) (place : Nat) (val : Bss) (id : Nat) :
    countIds (entries.set place val) id ≤ countIds entries id + [val.id].count id := by
  induction entries generalizing place with
  | nil => exact Nat.zero_le _
  | cons entry rest inductionHypothesis =>
    cases place with
    | zero =>
      rw [List.set_cons_zero, countIds_cons, countIds_cons]
      omega
    | succ place =>
      have step := inductionHypothesis place
      rw [List.set_cons_succ, countIds_cons, countIds_cons]
      omega

theorem lsetCommand_does (sound : Sound E dict) {args : List Bss}
    (given : ∀ arg ∈ args, arg.Arg) :
    Does env E L dict (spent env args) none (lsetCommand dict args) := by
  unfold lsetCommand
  split
  · rename_i key index val
    have valArg := given val (List.mem_cons_of_mem _ (List.mem_cons_of_mem _ List.mem_cons_self))
    simp only
    split
    · exact does_fail sound invInt
    · split
      · exact does_nil sound
      · rename_i entries answer
        obtain ⟨filled, fit⟩ := sound.list answer
        split
        · exact does_nil sound
        · rename_i place _
          have change : Change E dict (spent env [key, index, val])
              (dictSetVal dict key (.list (entries.set place val))) := by
            refine Change.setList sound answer (filled.imp_right fun some nil => ?_)
              (fun entry member => ?_) fun id => ?_
            · exact some ((List.set_eq_nil_iff _ _).mp nil)
            · rcases List.mem_or_eq_of_mem_set member with old | rfl
              · exact fit entry old
              · exact valArg.len_le
            · refine Nat.le_trans (countIds_set entries place val id) (Nat.add_le_add_left ?_ _)
              exact count_le_spent env
                (.cons _ (.cons _ (.cons_cons _ (List.nil_sublist _)))) id
          exact does_string change _ _ fun long => absurd valArg.len_le (Nat.not_le.mpr long)
      · exact does_fail sound wrongType
  · exact does_fail sound numArgs

theorem lremForward_sublist (bss : Bss) (target count : Int) (entries : List Bss) :
    (lremForward bss target count entries).1.Sublist entries := by
  induction entries generalizing count with
  | nil => exact List.Sublist.refl _
  | cons entry rest inductionHypothesis =>
    rw [lremForward]
    split
    · split
      · exact List.sublist_cons_self entry rest
      · exact (inductionHypothesis _).trans (List.sublist_cons_self entry rest)
    · exact (inductionHypothesis count).cons_cons entry

theorem lrem_sublist (entries : List Bss) (target : Int) (bss : Bss) :
    (lrem entries target bss).1.Sublist entries := by
  unfold lrem
  split
  · exact lremForward_sublist bss target 0 entries
  · split
    · exact List.filter_sublist
    · have reversed := (lremForward_sublist bss (toInt64 (-target)) 0 entries.reverse).reverse
      rwa [List.reverse_reverse] at reversed

theorem lremCommand_does (sound : Sound E dict) (args : List Bss) :
    Does env E L dict gain none (lremCommand dict args) := by
  unfold lremCommand
  split
  · simp only
    split
    · exact does_fail sound invInt
    · split
      · exact does_int (Change.refl sound gain) 0
      · rename_i answer
        exact does_int (Change.shortened sound answer (lrem_sublist _ _ _) gain) _
      · exact does_fail sound wrongType
  · exact does_fail sound numArgs

/-- A range that is not empty has entries. -/
theorem sublist_ne_nil {entries : List Bss} {offset1 offset2 : Int} (small : offset1 ≤ llongMax)
    (some : ¬ emptyRange (rangeStart offset1 entries.length) (fromEnd offset2 entries.length)
      entries.length) :
    sublist entries (rangeStart offset1 entries.length) (fromEnd offset2 entries.length) ≠ [] := by
  obtain ⟨ordered, inside⟩ := not_or.mp some
  have counted : fromEnd offset1 entries.length < 2 ^ 64 := by
    have top : llongMax < 2 ^ 64 := by decide
    unfold fromEnd
    split
    · exact lt_of_lt_of_le (Int.bmod_lt (by decide)) (by decide)
    · omega
  have bounded : 0 ≤ rangeStart offset1 entries.length ∧
      rangeStart offset1 entries.length < 2 ^ 64 := by
    unfold rangeStart
    by_cases before : fromEnd offset1 entries.length < 0
    · rw [if_pos before]
      decide
    · rw [if_neg before]
      exact ⟨Int.not_lt.mp before, counted⟩
  have same : toSize (rangeStart offset1 entries.length) =
      (rangeStart offset1 entries.length).toNat := by
    rw [toSize, Int.emod_eq_of_lt bounded.1 bounded.2]
  intro nil
  have length := congrArg List.length nil
  rw [sublist, List.length_take, List.length_drop, List.length_nil] at length
  omega

theorem ltrimCommand_does (sound : Sound E dict) (args : List Bss) :
    Does env E L dict gain none (ltrimCommand dict args) := by
  unfold ltrimCommand
  split
  · rename_i key offset1 offset2
    simp only
    split
    · exact does_fail sound invInt
    · split
      · exact does_ok (Change.refl sound gain)
      · rename_i entries answer
        split
        · exact does_ok ((Change.rm sound key).mono fun _ => Nat.zero_le _)
        · rename_i inside
          have sub := sublist_sublist entries (rangeStart (bss2int offset1).1 entries.length)
            (fromEnd (bss2int offset2).1 entries.length)
          refine does_ok (Change.setList sound answer
            (Or.inr (sublist_ne_nil (bss2int_le offset1) inside)) ?_ fun id => ?_)
          · exact (sound.list answer).2.sublist sub
          · exact Nat.le_trans (countIds_sublist sub id) (Nat.le_add_right _ _)
      · exact does_fail sound wrongType
  · exact does_fail sound numArgs

theorem insertAt_perm {pivot val : Bss} {after : Bool} {entries result : List Bss}
    (inserted : insertAt pivot val after entries = some result) :
    result.Perm (val :: entries) := by
  induction entries generalizing result with
  | nil => cases inserted
  | cons entry rest inductionHypothesis =>
    rw [insertAt] at inserted
    split at inserted
    · cases inserted
      cases after with
      | false => exact List.Perm.refl _
      | true => exact List.Perm.swap val entry rest
    · obtain ⟨tail, there, rfl⟩ := Option.map_eq_some_iff.mp inserted
      exact ((inductionHypothesis there).cons entry).trans (List.Perm.swap val entry rest)

theorem linsertCommand_does (sound : Sound E dict) {args : List Bss}
    (given : ∀ arg ∈ args, arg.Arg) :
    Does env E L dict (spent env args) none (linsertCommand dict args) := by
  unfold linsertCommand
  split
  · rename_i key place pivot val
    have valArg := given val (List.mem_cons_of_mem _ (List.mem_cons_of_mem _
      (List.mem_cons_of_mem _ List.mem_cons_self)))
    split
    · exact does_fail sound invSynx
    · split
      · exact does_int (Change.refl sound _) 0
      · rename_i entries answer
        split
        · exact does_int (Change.refl sound _) _
        · rename_i result inserted
          have same := insertAt_perm inserted
          refine does_int (Change.setList sound answer (Or.inr fun nil => ?_) ?_ fun id => ?_) _
          · rw [nil] at same
            exact List.cons_ne_nil _ _ same.nil_eq.symm
          · refine Fit.perm (fun entry member => ?_) same
            rcases List.mem_cons.mp member with rfl | old
            · exact valArg.len_le
            · exact (sound.list answer).2 entry old
          · rw [countIds_perm same, countIds_cons]
            refine Nat.add_le_add_left (count_le_spent env ?_ id) _
            exact .cons _ (.cons _ (.cons _ (.cons_cons _ (List.nil_sublist _))))
      · exact does_fail sound wrongType
  · exact does_fail sound numArgs

end PseudoRedis

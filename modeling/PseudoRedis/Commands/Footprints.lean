/-
This file says which keys a handler reads and writes: those it names among its arguments
(`CommandFunc.named`), and no others. Every handler but those of `KEYS` and `RANDOMKEY` is
read once, with two key spaces that hold the same under these keys.
-/

import PseudoRedis.Footprint

namespace PseudoRedis

variable {quiet : Prop} {places : Set Bytes} {first second one two : Dict Obj} {env : Env}
  {args : List Bss}

/-! ### Keys -/

theorem delCommand_matched (twin : Twin places first second one two)
    (own : ∀ key ∈ args, Belongs places key) :
    Matched quiet places first second (delCommand one args) (delCommand two args) := by
  cases args with
  | nil => exact twin.replies (blind_fail numArgs)
  | cons key rest =>
    obtain ⟨left, count⟩ := twin.delKeys own
    simp only [delCommand, delCommandOn, count]
    exact left.replies (blind_int _)

theorem existsCommand_matched (twin : Twin places first second one two)
    (own : ∀ key ∈ args.take 1, Belongs places key) :
    Matched quiet places first second (existsCommand one args) (existsCommand two args) := by
  rcases args with _ | ⟨key, _ | ⟨next, rest⟩⟩
  · exact twin.replies (blind_fail numArgs)
  · simp only [existsCommand, existsCommandOn, twin.look (own key List.mem_cons_self)]
    split
    · exact twin.replies (blind_int 0)
    · exact twin.replies (blind_int 1)
  · exact twin.replies (blind_fail numArgs)

theorem renameCommand_matched (twin : Twin places first second one two)
    (own : ∀ key ∈ args.take 2, Belongs places key) :
    Matched quiet places first second (renameCommand one args) (renameCommand two args) := by
  rcases args with _ | ⟨key, _ | ⟨newKey, _ | ⟨next, rest⟩⟩⟩
  · exact twin.replies (blind_fail numArgs)
  · exact twin.replies (blind_fail numArgs)
  · obtain ⟨renamed, ret⟩ := twin.rename (own key List.mem_cons_self)
      (own newKey (List.mem_cons_of_mem _ List.mem_cons_self))
    simp only [renameCommand, ret]
    split
    · exact renamed.replies (blind_fail noKey)
    · exact renamed.replies blind_ok
  · exact twin.replies (blind_fail numArgs)

theorem typeCommand_matched (twin : Twin places first second one two)
    (own : ∀ key ∈ args.take 1, Belongs places key) :
    Matched quiet places first second (typeCommand one args) (typeCommand two args) := by
  rcases args with _ | ⟨key, _ | ⟨next, rest⟩⟩
  · exact twin.replies (blind_fail numArgs)
  · simp only [typeCommand, twin.look (own key List.mem_cons_self)]
    exact twin.replies (blind_type _)
  · exact twin.replies (blind_fail numArgs)

/-! ### Strings -/

theorem getCommand_matched (twin : Twin places first second one two)
    (own : ∀ key ∈ args.take 1, Belongs places key) :
    Matched quiet places first second (getCommand one args) (getCommand two args) := by
  rcases args with _ | ⟨key, _ | ⟨next, rest⟩⟩
  · exact twin.replies (blind_fail numArgs)
  · simp only [getCommand, getCommandOn, twin.look (own key List.mem_cons_self)]
    split
    · split
      · exact twin.replies (blind_string _ _)
      · exact twin.replies (blind_fail wrongType)
    · exact twin.replies blind_nil
  · exact twin.replies (blind_fail numArgs)

theorem setCommand_matched (twin : Twin places first second one two)
    (own : ∀ key ∈ args.take 1, Belongs places key) :
    Matched quiet places first second (setCommand one args) (setCommand two args) := by
  rcases args with _ | ⟨key, _ | ⟨val, _ | ⟨next, rest⟩⟩⟩
  · exact twin.replies (blind_fail numArgs)
  · exact twin.replies (blind_fail numArgs)
  · exact (twin.add (own key List.mem_cons_self) _).replies blind_ok
  · exact twin.replies (blind_fail numArgs)

theorem setnxCommand_matched (twin : Twin places first second one two)
    (own : ∀ key ∈ args.take 1, Belongs places key) :
    Matched quiet places first second (setnxCommand one args) (setnxCommand two args) := by
  rcases args with _ | ⟨key, _ | ⟨val, _ | ⟨next, rest⟩⟩⟩
  · exact twin.replies (blind_fail numArgs)
  · exact twin.replies (blind_fail numArgs)
  · simp only [setnxCommand, setnxCommandOn, twin.look (own key List.mem_cons_self)]
    split
    · exact twin.replies (blind_int 0)
    · exact setCommand_matched twin own
  · exact twin.replies (blind_fail numArgs)

theorem mgetCommand_matched (twin : Twin places first second one two)
    (own : ∀ key ∈ args, Belongs places key) :
    Matched quiet places first second (mgetCommand env one args) (mgetCommand env two args) := by
  cases args with
  | nil => exact twin.replies (blind_fail numArgs)
  | cons key rest =>
    have elems : (key :: rest).map (mgetElem one) = (key :: rest).map (mgetElem two) :=
      List.map_congr_left fun key member => by rw [mgetElem, mgetElem, twin.look (own key member)]
    simp only [mgetCommand, mgetCommandOn, elems]
    exact twin.replies (blind_fill env _)

theorem anyExists_matched (twin : Twin places first second one two)
    (own : ∀ key ∈ keysOfPairs args, Belongs places key) :
    anyExists one args = anyExists two args := by
  induction args using keysOfPairs.induct with
  | case1 key val rest inductionHypothesis =>
    rw [anyExists, anyExists, twin.look (own key List.mem_cons_self),
      inductionHypothesis fun other member => own other (List.mem_cons_of_mem _ member)]
  | case2 args odd =>
    rcases args with _ | ⟨key, _ | ⟨val, rest⟩⟩
    · rfl
    · rfl
    · exact absurd rfl (odd key val rest)

/-- Setting pairs; whether the loop goes on is told from what both runs leave alike. -/
theorem setPairs_matched (twin : Twin places first second one two)
    (own : ∀ key ∈ keysOfPairs args, Belongs places key) :
    Matched quiet places first second (setPairs trueReply args one)
      (setPairs trueReply args two) := by
  induction args using keysOfPairs.induct generalizing one two with
  | case1 key val rest inductionHypothesis =>
    have set : Matched quiet places first second (setCommandOn one [key, val])
        (setCommandOn two [key, val]) :=
      (twin.add (own key List.mem_cons_self) _).replies blind_ok
    rw [setPairs, setPairs]
    refine set.andThen fun one two sh ret later spoken => ?_
    simp only
    split
    · exact Or.inr ⟨one, two, sh, ret, rfl, rfl, spoken, later⟩
    · exact inductionHypothesis later
        (fun other member => own other (List.mem_cons_of_mem _ member)) sh
  | case2 args odd =>
    rcases args with _ | ⟨key, _ | ⟨val, rest⟩⟩
    · exact twin.replies (blind_int 1)
    · exact twin.replies (blind_int 1)
    · exact absurd rfl (odd key val rest)

theorem msetnxCommand_matched (twin : Twin places first second one two)
    (own : ∀ key ∈ keysOfPairs args, Belongs places key) :
    Matched quiet places first second (msetnxCommand one args) (msetnxCommand two args) := by
  rw [msetnxCommand, msetnxCommand, anyExists_matched twin own]
  split
  · exact twin.replies (blind_fail numArgs)
  · split
    · exact twin.replies (blind_int 0)
    · exact setPairs_matched twin own

/-! ### Numbers -/

theorem decrbyincrby_matched (type : Int) (twin : Twin places first second one two)
    (own : ∀ key ∈ args.take 1, Belongs places key) :
    Matched quiet places first second (decrbyincrbyCommandOn env type one args)
      (decrbyincrbyCommandOn env type two args) := by
  rcases args with _ | ⟨key, _ | ⟨amount, _ | ⟨next, rest⟩⟩⟩
  · exact twin.replies (blind_fail numArgs)
  · exact twin.replies (blind_fail numArgs)
  · have belongs := own key List.mem_cons_self
    simp only [decrbyincrbyCommandOn, twin.look belongs]
    split
    · exact twin.replies (blind_fail invInt)
    · split
      · split
        · split
          · exact twin.replies (blind_stop _)
          · exact (twin.add belongs _).replies (blind_int _)
        · exact (twin.add belongs _).replies (blind_int _)
      · split
        · exact twin.replies (blind_fail wrongType)
        · split
          · exact twin.replies (blind_fail invInt)
          · split
            · exact twin.replies (blind_stop _)
            · split
              · exact twin.replies (blind_fail invInt)
              · exact (twin.setVal belongs _).replies (blind_int _)
  · exact twin.replies (blind_fail numArgs)

theorem incrCommand_matched (twin : Twin places first second one two)
    (own : ∀ key ∈ args.take 1, Belongs places key) :
    Matched quiet places first second (incrCommand env one args) (incrCommand env two args) := by
  rcases args with _ | ⟨key, _ | ⟨next, rest⟩⟩
  · exact twin.replies (blind_fail numArgs)
  · exact @decrbyincrby_matched _ _ _ _ _ _ env.next [key, bssCreate env env.fresh (bytes "1")]
      posOp twin own
  · exact twin.replies (blind_fail numArgs)

theorem decrCommand_matched (twin : Twin places first second one two)
    (own : ∀ key ∈ args.take 1, Belongs places key) :
    Matched quiet places first second (decrCommand env one args) (decrCommand env two args) := by
  rcases args with _ | ⟨key, _ | ⟨next, rest⟩⟩
  · exact twin.replies (blind_fail numArgs)
  · exact @decrbyincrby_matched _ _ _ _ _ _ env.next [key, bssCreate env env.fresh (bytes "1")]
      negOp twin own
  · exact twin.replies (blind_fail numArgs)

theorem incrbyfloatCommand_matched (twin : Twin places first second one two)
    (own : ∀ key ∈ args.take 1, Belongs places key) :
    Matched quiet places first second (incrbyfloatCommand env one args)
      (incrbyfloatCommand env two args) := by
  rcases args with _ | ⟨key, _ | ⟨amount, _ | ⟨next, rest⟩⟩⟩
  · exact twin.replies (blind_fail numArgs)
  · exact twin.replies (blind_fail numArgs)
  · have belongs := own key List.mem_cons_self
    simp only [incrbyfloatCommand, incrbyfloatCommandOn, twin.look belongs]
    split
    · exact twin.replies (blind_fail invFlt)
    · split
      · split
        · exact twin.replies (blind_stop _)
        · exact (twin.add belongs _).replies (blind_string _ _)
      · split
        · exact twin.replies (blind_fail wrongType)
        · split
          · exact twin.replies (blind_fail invFlt)
          · split
            · exact twin.replies (blind_stop _)
            · exact twin.replies (blind_stop _)
            · split
              · exact twin.replies (blind_stop _)
              · exact (twin.setVal belongs _).replies (blind_string _ _)
  · exact twin.replies (blind_fail numArgs)

/-! ### Bytes and bits of a string -/

theorem strlenCommand_matched (twin : Twin places first second one two)
    (own : ∀ key ∈ args.take 1, Belongs places key) :
    Matched quiet places first second (strlenCommand one args) (strlenCommand two args) := by
  rcases args with _ | ⟨key, _ | ⟨next, rest⟩⟩
  · exact twin.replies (blind_fail numArgs)
  · simp only [strlenCommand, twin.look (own key List.mem_cons_self)]
    split
    · exact twin.replies (blind_int 0)
    · exact twin.replies (blind_int _)
    · exact twin.replies (blind_fail wrongType)
  · exact twin.replies (blind_fail numArgs)

theorem appendCommand_matched (twin : Twin places first second one two)
    (own : ∀ key ∈ args.take 1, Belongs places key) :
    Matched quiet places first second (appendCommand one args) (appendCommand two args) := by
  rcases args with _ | ⟨key, _ | ⟨val, _ | ⟨next, rest⟩⟩⟩
  · exact twin.replies (blind_fail numArgs)
  · exact twin.replies (blind_fail numArgs)
  · have belongs := own key List.mem_cons_self
    simp only [appendCommand, twin.look belongs]
    split
    · exact (twin.add belongs _).replies (blind_int _)
    · split
      · exact twin.replies (blind_stop _)
      · exact twin.replies (blind_stop _)
      · exact (twin.setVal belongs _).replies (blind_int _)
    · exact twin.replies (blind_fail wrongType)
  · exact twin.replies (blind_fail numArgs)

theorem getbitCommand_matched (twin : Twin places first second one two)
    (own : ∀ key ∈ args.take 1, Belongs places key) :
    Matched quiet places first second (getbitCommand one args) (getbitCommand two args) := by
  rcases args with _ | ⟨key, _ | ⟨offset, _ | ⟨next, rest⟩⟩⟩
  · exact twin.replies (blind_fail numArgs)
  · exact twin.replies (blind_fail numArgs)
  · simp only [getbitCommand, twin.look (own key List.mem_cons_self)]
    split
    · exact twin.replies (blind_fail invOffset)
    · split
      · exact twin.replies (blind_int 0)
      · split
        · exact twin.replies (blind_stop _)
        · exact twin.replies (blind_int _)
      · exact twin.replies (blind_fail wrongType)
  · exact twin.replies (blind_fail numArgs)

theorem setbitCommand_matched (twin : Twin places first second one two)
    (own : ∀ key ∈ args.take 1, Belongs places key) :
    Matched quiet places first second (setbitCommand env one args)
      (setbitCommand env two args) := by
  rcases args with _ | ⟨key, _ | ⟨offset, _ | ⟨bit, _ | ⟨next, rest⟩⟩⟩⟩
  · exact twin.replies (blind_fail numArgs)
  · exact twin.replies (blind_fail numArgs)
  · exact twin.replies (blind_fail numArgs)
  · have belongs := own key List.mem_cons_self
    simp only [setbitCommand, twin.look belongs]
    split
    · exact twin.replies (blind_fail invOffset)
    · split
      · exact twin.replies (blind_fail invSynx)
      · split
        · split
          · exact twin.replies (blind_stop _)
          · exact twin.replies (blind_fail memOut)
          · exact (twin.add belongs _).replies (blind_int 0)
        · split
          · exact twin.replies (blind_stop _)
          · exact twin.replies (blind_stop _)
          · exact twin.replies (blind_fail memOut)
          · exact (twin.setVal belongs _).replies (blind_int _)
        · exact twin.replies (blind_fail wrongType)
  · exact twin.replies (blind_fail numArgs)

theorem bitcountCommand_matched (twin : Twin places first second one two)
    (own : ∀ key ∈ args.take 1, Belongs places key) :
    Matched quiet places first second (bitcountCommand one args) (bitcountCommand two args) := by
  rcases args with _ | ⟨key, _ | ⟨next, rest⟩⟩
  · exact twin.replies (blind_fail numArgs)
  · simp only [bitcountCommand, twin.look (own key List.mem_cons_self)]
    split
    · exact twin.replies (blind_int 0)
    · split
      · exact twin.replies (blind_stop _)
      · exact twin.replies (blind_int _)
    · exact twin.replies (blind_fail wrongType)
  · exact twin.replies (blind_fail numArgs)

theorem setrangeCommand_matched (twin : Twin places first second one two)
    (own : ∀ key ∈ args.take 1, Belongs places key) :
    Matched quiet places first second (setrangeCommand env one args)
      (setrangeCommand env two args) := by
  rcases args with _ | ⟨key, _ | ⟨offset, _ | ⟨val, _ | ⟨next, rest⟩⟩⟩⟩
  · exact twin.replies (blind_fail numArgs)
  · exact twin.replies (blind_fail numArgs)
  · exact twin.replies (blind_fail numArgs)
  · have belongs := own key List.mem_cons_self
    simp only [setrangeCommand, twin.look belongs]
    split
    · exact twin.replies (blind_fail invOffset)
    · split
      · split
        · exact twin.replies (blind_stop _)
        · exact twin.replies (blind_fail memOut)
        · exact (twin.add belongs _).replies (blind_int _)
      · split
        · exact twin.replies (blind_stop _)
        · exact twin.replies (blind_fail memOut)
        · exact (twin.setVal belongs _).replies (blind_int _)
      · exact twin.replies (blind_fail wrongType)
  · exact twin.replies (blind_fail numArgs)

theorem getrangeCommand_matched (twin : Twin places first second one two)
    (own : ∀ key ∈ args.take 1, Belongs places key) :
    Matched quiet places first second (getrangeCommand one args) (getrangeCommand two args) := by
  rcases args with _ | ⟨key, _ | ⟨offset1, _ | ⟨offset2, _ | ⟨next, rest⟩⟩⟩⟩
  · exact twin.replies (blind_fail numArgs)
  · exact twin.replies (blind_fail numArgs)
  · exact twin.replies (blind_fail numArgs)
  · simp only [getrangeCommand, twin.look (own key List.mem_cons_self)]
    split
    · exact twin.replies (blind_fail invInt)
    · split
      · exact twin.replies (blind_string _ _)
      · split
        · exact twin.replies (blind_string _ _)
        · split
          · exact twin.replies (blind_string _ _)
          · split
            · generalize toSize _ = len
              exact twin.replies (blind_string _ len)
            · generalize toSize _ = len
              exact twin.replies (blind_string _ len)
      · exact twin.replies (blind_fail wrongType)
  · exact twin.replies (blind_fail numArgs)

/-! ### Runs on an inner dictionary -/

section Inner

variable {V : Type} {dict : Dict V}

theorem existsCommandOn_speaks : (existsCommandOn dict args).Speaks quiet := by
  unfold existsCommandOn
  split
  · split
    · exact (blind_int 0).speaks dict
    · exact (blind_int 1).speaks dict
  · exact (blind_fail numArgs).speaks dict

theorem delCommandOn_speaks : (delCommandOn dict args).Speaks quiet := by
  cases args with
  | nil => exact (blind_fail numArgs).speaks dict
  | cons key rest => exact (blind_int _).speaks (delKeys dict (key :: rest)).1

variable [StrObj V]

theorem getCommandOn_speaks : (getCommandOn dict args).Speaks quiet := by
  unfold getCommandOn
  split
  · split
    · split
      · exact (blind_string _ _).speaks dict
      · exact (blind_fail wrongType).speaks dict
    · exact blind_nil.speaks dict
  · exact (blind_fail numArgs).speaks dict

theorem mgetCommandOn_speaks : (mgetCommandOn env dict args).Speaks quiet := by
  cases args with
  | nil => exact (blind_fail numArgs).speaks dict
  | cons key rest =>
    exact (blind_fill env fun sh => addEach sh ((key :: rest).map (mgetElem dict))).speaks dict

variable [DictVal V]

theorem setCommandOn_speaks : (setCommandOn dict args).Speaks quiet := by
  unfold setCommandOn
  split
  · exact blind_ok.speaks _
  · exact (blind_fail numArgs).speaks dict

/-- The last pair that is set leaves its reply. -/
theorem setPairs_speaks (key val : Bss) (rest : List Bss) :
    (setPairs (fun hash : Dict V => returning hash 0) (key :: val :: rest) dict).Speaks quiet := by
  induction rest using keysOfPairs.induct generalizing dict key val with
  | case1 next other rest inductionHypothesis =>
    intro sh result ran
    rw [setPairs, Run.andThen] at ran
    split at ran
    · cases ran
    · rename_i set ended
      split at ran
      · cases ran
        exact setCommandOn_speaks _ _ ended
      · exact inductionHypothesis next other _ _ ran
  | case2 rest odd =>
    have last (dict : Dict V) :
        setPairs (fun hash : Dict V => returning hash 0) rest dict = returning dict 0 := by
      rcases rest with _ | ⟨next, _ | ⟨other, rest⟩⟩
      · rfl
      · rfl
      · exact absurd rfl (odd next other rest)
    intro sh result ran
    rw [setPairs, Run.andThen] at ran
    split at ran
    · cases ran
    · rename_i set ended
      have spoken : Speaks quiet set.sh set.ret := setCommandOn_speaks _ _ ended
      split at ran
      · cases ran
        exact spoken
      · rename_i replied
        rw [last] at ran
        cases ran
        have answered : set.ret = 0 := not_not.mp (not_or.mp replied).2
        rwa [answered] at spoken

theorem decrbyincrby_speaks (type : Int) :
    (decrbyincrbyCommandOn env type dict args).Speaks quiet := by
  unfold decrbyincrbyCommandOn
  split
  · simp only
    split
    · exact (blind_fail invInt).speaks dict
    · split
      · split
        · split
          · exact (blind_stop _).speaks dict
          · exact (blind_int _).speaks _
        · exact (blind_int _).speaks _
      · split
        · exact (blind_fail wrongType).speaks dict
        · split
          · exact (blind_fail invInt).speaks dict
          · split
            · exact (blind_stop _).speaks dict
            · split
              · exact (blind_fail invInt).speaks dict
              · exact (blind_int _).speaks _
  · exact (blind_fail numArgs).speaks dict

theorem incrbyfloatCommandOn_speaks : (incrbyfloatCommandOn env dict args).Speaks quiet := by
  unfold incrbyfloatCommandOn
  split
  · simp only
    split
    · exact (blind_fail invFlt).speaks dict
    · split
      · split
        · exact (blind_stop _).speaks dict
        · exact (blind_string _ _).speaks _
      · split
        · exact (blind_fail wrongType).speaks dict
        · split
          · exact (blind_fail invFlt).speaks dict
          · split
            · exact (blind_stop _).speaks dict
            · exact (blind_stop _).speaks dict
            · split
              · exact (blind_stop _).speaks dict
              · exact (blind_string _ _).speaks _
  · exact (blind_fail numArgs).speaks dict

end Inner

/-! ### Hashes -/

theorem hdelsremCommand_matched {W : Type} (kind : Kind W)
    (twin : Twin places first second one two)
    (own : ∀ key ∈ args.take 1, Belongs places key) :
    Matched quiet places first second (hdelsremCommand kind one args)
      (hdelsremCommand kind two args) := by
  rcases args with _ | ⟨key, _ | ⟨field, rest⟩⟩
  · exact twin.replies (blind_fail numArgs)
  · exact twin.replies (blind_fail numArgs)
  · have belongs := own key List.mem_cons_self
    simp only [hdelsremCommand, twin.look belongs]
    split
    · exact twin.replies (blind_int 0)
    · split
      · exact twin.replies (blind_fail wrongType)
      · refine matched_within delCommandOn_speaks fun inner => ?_
        split
        · exact (twin.putBack belongs kind inner).rm belongs
        · exact twin.putBack belongs kind inner

theorem hkeyssmembersCommand_matched {W : Type} (kind : Kind W)
    (twin : Twin places first second one two)
    (own : ∀ key ∈ args.take 1, Belongs places key) :
    Matched quiet places first second (hkeyssmembersCommand env kind one args)
      (hkeyssmembersCommand env kind two args) := by
  rcases args with _ | ⟨key, _ | ⟨next, rest⟩⟩
  · exact twin.replies (blind_fail numArgs)
  · simp only [hkeyssmembersCommand, twin.look (own key List.mem_cons_self)]
    split
    · exact twin.replies (blind_fill env _)
    · split
      · exact twin.replies ((blind_fail wrongType).after resetReplyArr)
      · exact twin.replies (blind_fill env _)
  · exact twin.replies (blind_fail numArgs)

theorem hlenCommand_matched (twin : Twin places first second one two)
    (own : ∀ key ∈ args.take 1, Belongs places key) :
    Matched quiet places first second (hlenCommand one args) (hlenCommand two args) := by
  rcases args with _ | ⟨key, _ | ⟨next, rest⟩⟩
  · exact twin.replies (blind_fail numArgs)
  · simp only [hlenCommand, twin.look (own key List.mem_cons_self)]
    split
    · exact twin.replies (blind_int 0)
    · exact twin.replies (blind_int _)
    · exact twin.replies (blind_fail wrongType)
  · exact twin.replies (blind_fail numArgs)

theorem hexistsCommand_matched (twin : Twin places first second one two)
    (own : ∀ key ∈ args.take 1, Belongs places key) :
    Matched quiet places first second (hexistsCommand one args) (hexistsCommand two args) := by
  rcases args with _ | ⟨key, _ | ⟨field, _ | ⟨next, rest⟩⟩⟩
  · exact twin.replies (blind_fail numArgs)
  · exact twin.replies (blind_fail numArgs)
  · simp only [hexistsCommand, twin.look (own key List.mem_cons_self)]
    split
    · exact twin.replies (blind_int 0)
    · exact twin.replies (blind_within existsCommandOn_speaks)
    · exact twin.replies (blind_fail wrongType)
  · exact twin.replies (blind_fail numArgs)

theorem hmgetCommand_matched (twin : Twin places first second one two)
    (own : ∀ key ∈ args.take 1, Belongs places key) :
    Matched quiet places first second (hmgetCommand env one args) (hmgetCommand env two args) := by
  rcases args with _ | ⟨key, _ | ⟨field, rest⟩⟩
  · exact twin.replies (blind_fail numArgs)
  · exact twin.replies (blind_fail numArgs)
  · simp only [hmgetCommand, twin.look (own key List.mem_cons_self)]
    split
    · exact twin.replies (blind_fill env _)
    · exact twin.replies (blind_within mgetCommandOn_speaks)
    · exact twin.replies (blind_fail wrongType)

theorem hgetCommand_matched (twin : Twin places first second one two)
    (own : ∀ key ∈ args.take 1, Belongs places key) :
    Matched quiet places first second (hgetCommand one args) (hgetCommand two args) := by
  rcases args with _ | ⟨key, _ | ⟨field, _ | ⟨next, rest⟩⟩⟩
  · exact twin.replies (blind_fail numArgs)
  · exact twin.replies (blind_fail numArgs)
  · simp only [hgetCommand, twin.look (own key List.mem_cons_self)]
    split
    · exact twin.replies blind_nil
    · exact twin.replies (blind_within getCommandOn_speaks)
    · exact twin.replies (blind_fail wrongType)
  · exact twin.replies (blind_fail numArgs)

theorem hgetallCommand_matched (twin : Twin places first second one two)
    (own : ∀ key ∈ args.take 1, Belongs places key) :
    Matched quiet places first second (hgetallCommand env one args)
      (hgetallCommand env two args) := by
  rcases args with _ | ⟨key, _ | ⟨next, rest⟩⟩
  · exact twin.replies (blind_fail numArgs)
  · simp only [hgetallCommand, twin.look (own key List.mem_cons_self)]
    split
    · exact twin.replies (blind_fill env _)
    · exact twin.replies (blind_fill env _)
    · exact twin.replies ((blind_fail wrongType).after resetReplyArr)
  · exact twin.replies (blind_fail numArgs)

theorem hvalsCommand_matched (twin : Twin places first second one two)
    (own : ∀ key ∈ args.take 1, Belongs places key) :
    Matched quiet places first second (hvalsCommand env one args) (hvalsCommand env two args) := by
  rcases args with _ | ⟨key, _ | ⟨next, rest⟩⟩
  · exact twin.replies (blind_fail numArgs)
  · simp only [hvalsCommand, twin.look (own key List.mem_cons_self)]
    split
    · exact twin.replies (blind_fill env _)
    · exact twin.replies (blind_fill env _)
    · exact twin.replies ((blind_fail wrongType).after resetReplyArr)
  · exact twin.replies (blind_fail numArgs)

theorem Twin.addHash {key : Bss} (twin : Twin places first second one two)
    (own : Belongs places key) : Twin places first second (addHash one key) (addHash two key) :=
  twin.add own _

theorem hincrbyCommand_matched (twin : Twin places first second one two)
    (own : ∀ key ∈ args.take 1, Belongs places key) :
    Matched quiet places first second (hincrbyCommand env one args)
      (hincrbyCommand env two args) := by
  rcases args with _ | ⟨key, _ | ⟨field, _ | ⟨amount, _ | ⟨next, rest⟩⟩⟩⟩
  · exact twin.replies (blind_fail numArgs)
  · exact twin.replies (blind_fail numArgs)
  · exact twin.replies (blind_fail numArgs)
  · have belongs := own key List.mem_cons_self
    simp only [hincrbyCommand, twin.look belongs]
    split
    · exact matched_within (decrbyincrby_speaks posOp) fun inner =>
        (twin.addHash belongs).putBack belongs Kind.hash inner
    · exact matched_within (decrbyincrby_speaks posOp) fun inner =>
        twin.putBack belongs Kind.hash inner
    · exact twin.replies (blind_fail wrongType)
  · exact twin.replies (blind_fail numArgs)

theorem hincrbyfloatCommand_matched (twin : Twin places first second one two)
    (own : ∀ key ∈ args.take 1, Belongs places key) :
    Matched quiet places first second (hincrbyfloatCommand env one args)
      (hincrbyfloatCommand env two args) := by
  rcases args with _ | ⟨key, _ | ⟨field, _ | ⟨amount, _ | ⟨next, rest⟩⟩⟩⟩
  · exact twin.replies (blind_fail numArgs)
  · exact twin.replies (blind_fail numArgs)
  · exact twin.replies (blind_fail numArgs)
  · have belongs := own key List.mem_cons_self
    simp only [hincrbyfloatCommand, twin.look belongs]
    split
    · exact matched_within incrbyfloatCommandOn_speaks fun inner =>
        (twin.addHash belongs).putBack belongs Kind.hash inner
    · exact matched_within incrbyfloatCommandOn_speaks fun inner =>
        twin.putBack belongs Kind.hash inner
    · exact twin.replies (blind_fail wrongType)
  · exact twin.replies (blind_fail numArgs)

theorem hsetCommand_matched (twin : Twin places first second one two)
    (own : ∀ key ∈ args.take 1, Belongs places key) :
    Matched quiet places first second (hsetCommand one args) (hsetCommand two args) := by
  rcases args with _ | ⟨key, _ | ⟨field, _ | ⟨val, _ | ⟨next, rest⟩⟩⟩⟩
  · exact twin.replies (blind_fail numArgs)
  · exact twin.replies (blind_fail numArgs)
  · exact twin.replies (blind_fail numArgs)
  · have belongs := own key List.mem_cons_self
    simp only [hsetCommand, twin.look belongs]
    split
    · refine (matched_within setCommandOn_speaks fun inner =>
        (twin.addHash belongs).putBack belongs Kind.hash inner).andThen
        fun one two sh ret later _ => ?_
      exact later.replies (blind_int 1) sh
    · refine (matched_within setCommandOn_speaks fun inner =>
        twin.putBack belongs Kind.hash inner).andThen
        fun one two sh ret later _ => ?_
      split
      · exact later.replies (blind_int 0) sh
      · exact later.replies (blind_int 1) sh
    · exact twin.replies (blind_fail wrongType)
  · exact twin.replies (blind_fail numArgs)

theorem hsetnxCommand_matched (twin : Twin places first second one two)
    (own : ∀ key ∈ args.take 1, Belongs places key) :
    Matched quiet places first second (hsetnxCommand one args) (hsetnxCommand two args) := by
  rcases args with _ | ⟨key, _ | ⟨field, _ | ⟨val, _ | ⟨next, rest⟩⟩⟩⟩
  · exact twin.replies (blind_fail numArgs)
  · exact twin.replies (blind_fail numArgs)
  · exact twin.replies (blind_fail numArgs)
  · have belongs := own key List.mem_cons_self
    simp only [hsetnxCommand, twin.look belongs]
    split
    · refine (matched_within setCommandOn_speaks fun inner =>
        (twin.addHash belongs).putBack belongs Kind.hash inner).andThen
        fun one two sh ret later _ => ?_
      exact later.replies (blind_int 1) sh
    · split
      · exact matched_within setCommandOn_speaks fun inner => twin.putBack belongs Kind.hash inner
      · exact twin.replies (blind_int 0)
    · exact twin.replies (blind_fail wrongType)
  · exact twin.replies (blind_fail numArgs)

theorem hmsetCommand_matched (twin : Twin places first second one two)
    (own : ∀ key ∈ args.take 1, Belongs places key) :
    Matched quiet places first second (hmsetCommand one args) (hmsetCommand two args) := by
  unfold hmsetCommand
  split
  · exact twin.replies (blind_fail numArgs)
  · rename_i paired
    rcases args with _ | ⟨key, _ | ⟨field, _ | ⟨val, rest⟩⟩⟩
    · exact absurd (Or.inl (by decide)) paired
    · exact absurd (Or.inl (by simp)) paired
    · exact absurd (Or.inl (by simp)) paired
    · have belongs := own key List.mem_cons_self
      simp only [twin.look belongs]
      split
      · exact matched_within (setPairs_speaks field val rest) fun inner =>
          (twin.addHash belongs).putBack belongs Kind.hash inner
      · exact matched_within (setPairs_speaks field val rest) fun inner =>
          twin.putBack belongs Kind.hash inner
      · exact twin.replies (blind_fail wrongType)

/-! ### Lists -/

theorem lpushrpushCommand_matched (side : End) (twin : Twin places first second one two)
    (own : ∀ key ∈ args.take 1, Belongs places key) :
    Matched quiet places first second (lpushrpushCommand side one args)
      (lpushrpushCommand side two args) := by
  rcases args with _ | ⟨key, _ | ⟨entry, rest⟩⟩
  · exact twin.replies (blind_fail numArgs)
  · exact twin.replies (blind_fail numArgs)
  · have belongs := own key List.mem_cons_self
    simp only [lpushrpushCommand, twin.look belongs]
    split
    · exact (twin.add belongs _).replies (blind_int _)
    · exact (twin.setVal belongs _).replies (blind_int _)
    · exact twin.replies (blind_fail wrongType)

theorem lpoprpopCommand_matched (side : End) (twin : Twin places first second one two)
    (own : ∀ key ∈ args.take 1, Belongs places key) :
    Matched quiet places first second (lpoprpopCommand side one args)
      (lpoprpopCommand side two args) := by
  rcases args with _ | ⟨key, _ | ⟨next, rest⟩⟩
  · exact twin.replies (blind_fail numArgs)
  · have belongs := own key List.mem_cons_self
    simp only [lpoprpopCommand, twin.look belongs]
    split
    · exact twin.replies blind_nil
    · split
      · exact twin.replies (blind_stop _)
      · exact (twin.putList belongs belongs _).replies (blind_string _ _)
    · exact twin.replies (blind_fail wrongType)
  · exact twin.replies (blind_fail numArgs)

/-- The type of the second key is looked at in the edited key spaces, which are twins as well. -/
theorem rpoplpush_matched {src dst : Bss} {waits waits' : Run Obj}
    {finish : Dict Obj → Bss → Run Obj} (twin : Twin places first second one two)
    (srcOwn : Belongs places src) (dstOwn : Belongs places dst)
    (blocked : Matched quiet places first second waits waits')
    (finished : ∀ entry, Blind quiet fun dict => finish dict entry) :
    Matched quiet places first second (rpoplpush one src dst waits finish)
      (rpoplpush two src dst waits' finish) := by
  simp only [rpoplpush, twin.look srcOwn]
  split
  · exact blocked
  · split
    · exact twin.replies (blind_stop _)
    · rename_i entry entries popped
      have left := twin.putList srcOwn srcOwn entries
      simp only [left.look dstOwn]
      split
      · exact (left.add dstOwn _).replies (finished entry)
      · exact (left.setVal dstOwn _).replies (finished entry)
      · exact left.replies (blind_stop _)
  · exact twin.replies (blind_fail wrongType)

theorem rpoplpushCommand_matched (twin : Twin places first second one two)
    (own : ∀ key ∈ args.take 2, Belongs places key) :
    Matched quiet places first second (rpoplpushCommand one args) (rpoplpushCommand two args) := by
  rcases args with _ | ⟨src, _ | ⟨dst, _ | ⟨next, rest⟩⟩⟩
  · exact twin.replies (blind_fail numArgs)
  · exact twin.replies (blind_fail numArgs)
  · exact rpoplpush_matched twin (own src List.mem_cons_self)
      (own dst (List.mem_cons_of_mem _ List.mem_cons_self)) (twin.replies blind_nil)
      fun entry => blind_string _ _
  · exact twin.replies (blind_fail numArgs)

theorem brpoplpushCommand_matched (silent : quiet) (twin : Twin places first second one two)
    (own : ∀ key ∈ args.take 2, Belongs places key) :
    Matched quiet places first second (brpoplpushCommand env one args)
      (brpoplpushCommand env two args) := by
  rcases args with _ | ⟨src, _ | ⟨dst, _ | ⟨next, rest⟩⟩⟩
  · exact twin.replies (blind_fail numArgs)
  · exact twin.replies (blind_fail numArgs)
  · exact rpoplpush_matched twin (own src List.mem_cons_self)
      (own dst (List.mem_cons_of_mem _ List.mem_cons_self))
      (twin.replies (blind_returning _ (Or.inl silent))) fun entry => blind_leaving _ _ silent
  · exact twin.replies (blind_fail numArgs)

theorem firstPresent_matched (twin : Twin places first second one two)
    (own : ∀ key ∈ args, Belongs places key) : firstPresent one args = firstPresent two args := by
  induction args with
  | nil => rfl
  | cons key rest inductionHypothesis =>
    rw [firstPresent, firstPresent, twin.look (own key List.mem_cons_self),
      inductionHypothesis fun other member => own other (List.mem_cons_of_mem _ member)]

theorem firstPresent_mem {dict : Dict Obj} {key : Bss} {obj : Obj}
    (present : firstPresent dict args = some (key, obj)) : key ∈ args := by
  induction args with
  | nil => cases present
  | cons head rest inductionHypothesis =>
    rw [firstPresent] at present
    split at present
    · cases present
      exact List.mem_cons_self
    · exact List.mem_cons_of_mem _ (inductionHypothesis present)

theorem blpopbrpopCommand_matched (silent : quiet) (side : End)
    (twin : Twin places first second one two)
    (own : ∀ key ∈ args, Belongs places key) :
    Matched quiet places first second (blpopbrpopCommand side one args)
      (blpopbrpopCommand side two args) := by
  cases args with
  | nil => exact twin.replies (blind_fail numArgs)
  | cons head rest =>
    simp only [blpopbrpopCommand, firstPresent_matched twin own]
    split
    · exact twin.replies (blind_leaving _ _ silent)
    · rename_i key entries present
      split
      · exact twin.replies (blind_stop _)
      · exact (twin.putList (own key (firstPresent_mem present))
          (own head List.mem_cons_self) _).replies (blind_leaving _ _ silent)
    · exact twin.replies (blind_fail wrongType)

theorem llenCommand_matched (twin : Twin places first second one two)
    (own : ∀ key ∈ args.take 1, Belongs places key) :
    Matched quiet places first second (llenCommand one args) (llenCommand two args) := by
  rcases args with _ | ⟨key, _ | ⟨next, rest⟩⟩
  · exact twin.replies (blind_fail numArgs)
  · simp only [llenCommand, twin.look (own key List.mem_cons_self)]
    split
    · exact twin.replies (blind_int 0)
    · exact twin.replies (blind_int _)
    · exact twin.replies (blind_fail wrongType)
  · exact twin.replies (blind_fail numArgs)

theorem lrangeCommand_matched (twin : Twin places first second one two)
    (own : ∀ key ∈ args.take 1, Belongs places key) :
    Matched quiet places first second (lrangeCommand env one args)
      (lrangeCommand env two args) := by
  rcases args with _ | ⟨key, _ | ⟨offset1, _ | ⟨offset2, _ | ⟨next, rest⟩⟩⟩⟩
  · exact twin.replies (blind_fail numArgs)
  · exact twin.replies (blind_fail numArgs)
  · exact twin.replies (blind_fail numArgs)
  · simp only [lrangeCommand, twin.look (own key List.mem_cons_self)]
    split
    · exact twin.replies (blind_fail invInt)
    · split
      · exact twin.replies (blind_fill env _)
      · split
        · exact twin.replies (blind_fill env _)
        · exact twin.replies (blind_fill env _)
      · exact twin.replies ((blind_fail wrongType).after resetReplyArr)
  · exact twin.replies (blind_fail numArgs)

theorem lindexCommand_matched (twin : Twin places first second one two)
    (own : ∀ key ∈ args.take 1, Belongs places key) :
    Matched quiet places first second (lindexCommand one args) (lindexCommand two args) := by
  rcases args with _ | ⟨key, _ | ⟨index, _ | ⟨next, rest⟩⟩⟩
  · exact twin.replies (blind_fail numArgs)
  · exact twin.replies (blind_fail numArgs)
  · simp only [lindexCommand, twin.look (own key List.mem_cons_self)]
    split
    · exact twin.replies (blind_fail invInt)
    · split
      · exact twin.replies blind_nil
      · split
        · exact twin.replies blind_nil
        · exact twin.replies (blind_string _ _)
      · exact twin.replies (blind_fail wrongType)
  · exact twin.replies (blind_fail numArgs)

theorem lsetCommand_matched (twin : Twin places first second one two)
    (own : ∀ key ∈ args.take 1, Belongs places key) :
    Matched quiet places first second (lsetCommand one args) (lsetCommand two args) := by
  rcases args with _ | ⟨key, _ | ⟨index, _ | ⟨val, _ | ⟨next, rest⟩⟩⟩⟩
  · exact twin.replies (blind_fail numArgs)
  · exact twin.replies (blind_fail numArgs)
  · exact twin.replies (blind_fail numArgs)
  · have belongs := own key List.mem_cons_self
    simp only [lsetCommand, twin.look belongs]
    split
    · exact twin.replies (blind_fail invInt)
    · split
      · exact twin.replies blind_nil
      · split
        · exact twin.replies blind_nil
        · exact (twin.setVal belongs _).replies (blind_string _ _)
      · exact twin.replies (blind_fail wrongType)
  · exact twin.replies (blind_fail numArgs)

theorem lremCommand_matched (twin : Twin places first second one two)
    (own : ∀ key ∈ args.take 1, Belongs places key) :
    Matched quiet places first second (lremCommand one args) (lremCommand two args) := by
  rcases args with _ | ⟨key, _ | ⟨target, _ | ⟨bss, _ | ⟨next, rest⟩⟩⟩⟩
  · exact twin.replies (blind_fail numArgs)
  · exact twin.replies (blind_fail numArgs)
  · exact twin.replies (blind_fail numArgs)
  · have belongs := own key List.mem_cons_self
    simp only [lremCommand, twin.look belongs]
    split
    · exact twin.replies (blind_fail invInt)
    · split
      · exact twin.replies (blind_int 0)
      · exact (twin.putList belongs belongs _).replies (blind_int _)
      · exact twin.replies (blind_fail wrongType)
  · exact twin.replies (blind_fail numArgs)

theorem ltrimCommand_matched (twin : Twin places first second one two)
    (own : ∀ key ∈ args.take 1, Belongs places key) :
    Matched quiet places first second (ltrimCommand one args) (ltrimCommand two args) := by
  rcases args with _ | ⟨key, _ | ⟨offset1, _ | ⟨offset2, _ | ⟨next, rest⟩⟩⟩⟩
  · exact twin.replies (blind_fail numArgs)
  · exact twin.replies (blind_fail numArgs)
  · exact twin.replies (blind_fail numArgs)
  · have belongs := own key List.mem_cons_self
    simp only [ltrimCommand, twin.look belongs]
    split
    · exact twin.replies (blind_fail invInt)
    · split
      · exact twin.replies blind_ok
      · split
        · exact (twin.rm belongs).replies blind_ok
        · exact (twin.setVal belongs _).replies blind_ok
      · exact twin.replies (blind_fail wrongType)
  · exact twin.replies (blind_fail numArgs)

theorem linsertCommand_matched (twin : Twin places first second one two)
    (own : ∀ key ∈ args.take 1, Belongs places key) :
    Matched quiet places first second (linsertCommand one args) (linsertCommand two args) := by
  rcases args with _ | ⟨key, _ | ⟨place, _ | ⟨pivot, _ | ⟨val, _ | ⟨next, rest⟩⟩⟩⟩⟩
  · exact twin.replies (blind_fail numArgs)
  · exact twin.replies (blind_fail numArgs)
  · exact twin.replies (blind_fail numArgs)
  · exact twin.replies (blind_fail numArgs)
  · have belongs := own key List.mem_cons_self
    simp only [linsertCommand, twin.look belongs]
    split
    · exact twin.replies (blind_fail invSynx)
    · split
      · exact twin.replies (blind_int 0)
      · split
        · exact twin.replies (blind_int (-1))
        · exact (twin.setVal belongs _).replies (blind_int _)
      · exact twin.replies (blind_fail wrongType)
  · exact twin.replies (blind_fail numArgs)

/-! ### Sets -/

theorem saddCommand_matched (twin : Twin places first second one two)
    (own : ∀ key ∈ args.take 1, Belongs places key) :
    Matched quiet places first second (saddCommand one args) (saddCommand two args) := by
  rcases args with _ | ⟨key, _ | ⟨member, rest⟩⟩
  · exact twin.replies (blind_fail numArgs)
  · exact twin.replies (blind_fail numArgs)
  · have belongs := own key List.mem_cons_self
    simp only [saddCommand, twin.look belongs]
    split
    · exact ((twin.add belongs _).putBack belongs Kind.set _).replies (blind_int _)
    · exact (twin.putBack belongs Kind.set _).replies (blind_int _)
    · exact twin.replies (blind_fail wrongType)

theorem smoveCommand_matched (twin : Twin places first second one two)
    (own : ∀ key ∈ args.take 2, Belongs places key) :
    Matched quiet places first second (smoveCommand one args) (smoveCommand two args) := by
  rcases args with _ | ⟨src, _ | ⟨dst, _ | ⟨member, _ | ⟨next, rest⟩⟩⟩⟩
  · exact twin.replies (blind_fail numArgs)
  · exact twin.replies (blind_fail numArgs)
  · exact twin.replies (blind_fail numArgs)
  · have srcOwn := own src List.mem_cons_self
    have dstOwn := own dst (List.mem_cons_of_mem _ List.mem_cons_self)
    simp only [smoveCommand, twin.look srcOwn, twin.look dstOwn]
    split
    · exact twin.replies (blind_fail wrongType)
    · exact twin.replies (blind_fail wrongType)
    · exact twin.replies (blind_fail wrongType)
    · exact twin.replies (blind_fail wrongType)
    · exact twin.replies (blind_fail wrongType)
    · exact twin.replies (blind_fail wrongType)
    · exact twin.replies (blind_int 0)
    · split
      · exact twin.replies (blind_int 0)
      · rename_i srcSet entry taken
        have left := twin.putBack srcOwn Kind.set srcSet
        simp only [left.look dstOwn]
        split
        · split
          · exact (left.putBack dstOwn Kind.set _).replies (blind_int 1)
          · exact left.replies (blind_int 1)
        · exact twin.replies (blind_stop _)
  · exact twin.replies (blind_fail numArgs)

theorem scardCommand_matched (twin : Twin places first second one two)
    (own : ∀ key ∈ args.take 1, Belongs places key) :
    Matched quiet places first second (scardCommand one args) (scardCommand two args) := by
  rcases args with _ | ⟨key, _ | ⟨next, rest⟩⟩
  · exact twin.replies (blind_fail numArgs)
  · simp only [scardCommand, twin.look (own key List.mem_cons_self)]
    split
    · exact twin.replies (blind_int 0)
    · exact twin.replies (blind_int _)
    · exact twin.replies (blind_fail wrongType)
  · exact twin.replies (blind_fail numArgs)

theorem sismemberCommand_matched (twin : Twin places first second one two)
    (own : ∀ key ∈ args.take 1, Belongs places key) :
    Matched quiet places first second (sismemberCommand one args) (sismemberCommand two args) := by
  rcases args with _ | ⟨key, _ | ⟨member, _ | ⟨next, rest⟩⟩⟩
  · exact twin.replies (blind_fail numArgs)
  · exact twin.replies (blind_fail numArgs)
  · simp only [sismemberCommand, twin.look (own key List.mem_cons_self)]
    split
    · exact twin.replies (blind_int 0)
    · split
      · exact twin.replies (blind_int 0)
      · exact twin.replies (blind_int 1)
    · exact twin.replies (blind_fail wrongType)
  · exact twin.replies (blind_fail numArgs)

theorem spopCommand_matched (silent : quiet) (twin : Twin places first second one two)
    (own : ∀ key ∈ args.take 1, Belongs places key) :
    Matched quiet places first second (spopCommand env one args) (spopCommand env two args) := by
  rcases args with _ | ⟨key, _ | ⟨count, _ | ⟨next, rest⟩⟩⟩
  · exact twin.replies (blind_fail numArgs)
  · have belongs := own key List.mem_cons_self
    simp only [spopCommand, twin.look belongs]
    split
    · exact twin.replies blind_nil
    · split
      · exact twin.replies (blind_stop _)
      · refine ((twin.putBack belongs Kind.set _).replies (blind_string _ _)).andThen
          fun one two sh ret later _ => ?_
        exact later.replies (blind_returning 0 (Or.inl silent)) sh
    · exact twin.replies (blind_fail wrongType)
  · exact twin.replies (blind_returning _ (Or.inl silent))
  · exact twin.replies (blind_fail numArgs)

theorem srandmemberCommand_matched (silent : args.length = 2 → quiet)
    (twin : Twin places first second one two)
    (own : ∀ key ∈ args.take 1, Belongs places key) :
    Matched quiet places first second (srandmemberCommand env one args)
      (srandmemberCommand env two args) := by
  rcases args with _ | ⟨key, _ | ⟨count, _ | ⟨next, rest⟩⟩⟩
  · exact twin.replies (blind_fail numArgs)
  · simp only [srandmemberCommand, twin.look (own key List.mem_cons_self)]
    split
    · exact twin.replies blind_nil
    · exact twin.replies (blind_stop _)
    · exact twin.replies (blind_fail wrongType)
  · exact twin.replies (blind_returning _ (Or.inl (silent rfl)))
  · exact twin.replies (blind_fail numArgs)

theorem setsAt_matched (twin : Twin places first second one two)
    (own : ∀ key ∈ args, Belongs places key) : setsAt one args = setsAt two args := by
  induction args with
  | nil => rfl
  | cons key rest inductionHypothesis =>
    rw [setsAt, setsAt, twin.look (own key List.mem_cons_self),
      inductionHypothesis fun other member => own other (List.mem_cons_of_mem _ member)]

theorem blind_members (env : Env) (set : Dict Unit) :
    Blind quiet fun dict => membersReply env dict set := blind_fill env _

theorem sdiffCommand_matched (twin : Twin places first second one two)
    (own : ∀ key ∈ args, Belongs places key) :
    Matched quiet places first second (sdiffCommand env one args) (sdiffCommand env two args) := by
  rcases args with _ | ⟨key, _ | ⟨next, rest⟩⟩
  · exact twin.replies (blind_fail numArgs)
  · exact twin.replies (blind_fail numArgs)
  · simp only [sdiffCommand, setsAt_matched twin own]
    split
    · exact twin.replies (blind_fail wrongType)
    · exact twin.replies (blind_members env _)
    · exact twin.replies (blind_fill env _)

theorem sunionCommand_matched (twin : Twin places first second one two)
    (own : ∀ key ∈ args, Belongs places key) :
    Matched quiet places first second (sunionCommand env one args)
      (sunionCommand env two args) := by
  rcases args with _ | ⟨key, _ | ⟨next, rest⟩⟩
  · exact twin.replies (blind_fail numArgs)
  · exact twin.replies (blind_fail numArgs)
  · simp only [sunionCommand, setsAt_matched twin own]
    split
    · exact twin.replies (blind_fail wrongType)
    · exact twin.replies (blind_members env _)

theorem sinterCommand_matched (twin : Twin places first second one two)
    (own : ∀ key ∈ args, Belongs places key) :
    Matched quiet places first second (sinterCommand env one args)
      (sinterCommand env two args) := by
  rcases args with _ | ⟨key, _ | ⟨next, rest⟩⟩
  · exact twin.replies (blind_fail numArgs)
  · exact twin.replies (blind_fail numArgs)
  · simp only [sinterCommand, setsAt_matched twin own]
    split
    · exact twin.replies (blind_fail wrongType)
    · split
      · exact twin.replies (blind_members env _)
      · exact twin.replies (blind_fill env _)

theorem sscanCommand_matched (twin : Twin places first second one two)
    (own : ∀ key ∈ args.take 1, Belongs places key) :
    Matched quiet places first second (sscanCommand env one args) (sscanCommand env two args) := by
  rcases args with _ | ⟨key, _ | ⟨cursor, options⟩⟩
  · exact twin.replies (blind_fail numArgs)
  · exact twin.replies (blind_fail numArgs)
  · simp only [sscanCommand, twin.look (own key List.mem_cons_self)]
    split
    · exact twin.replies (blind_fail invCursor)
    · split
      · exact twin.replies (blind_fail invSynx)
      · intro sh
        simp only [MatchedAt]
        split
        · split
          · exact Or.inl ⟨_, rfl, rfl⟩
          · exact twin.replies (blind_array env (by decide : rplyDbArr ≠ noType)) _
        · exact twin.replies (blind_fail wrongType) _
        · exact twin.replies (blind_array env (by decide : rplyDbArr ≠ noType)) _

/-! ### Every command -/

/-- A command that does not look at the whole key space cannot tell two key spaces apart that hold
the same under the keys it names. -/
theorem CommandFunc.matched (func : CommandFunc) (part : func.whole = false)
    (silent : func.MayBeQuiet args → quiet) (twin : Twin places first second one two)
    (own : ∀ key ∈ func.named args, Belongs places key) :
    Matched quiet places first second (func.run env one args) (func.run env two args) := by
  cases func with
  | del => exact delCommand_matched twin own
  | «exists» => exact existsCommand_matched twin own
  | randomkey => cases part
  | rename => exact renameCommand_matched twin own
  | keys => cases part
  | type => exact typeCommand_matched twin own
  | append => exact appendCommand_matched twin own
  | getbit => exact getbitCommand_matched twin own
  | setbit => exact setbitCommand_matched twin own
  | mget => exact mgetCommand_matched twin own
  | bitcount => exact bitcountCommand_matched twin own
  | setrange => exact setrangeCommand_matched twin own
  | getrange => exact getrangeCommand_matched twin own
  | incr => exact incrCommand_matched twin own
  | decr => exact decrCommand_matched twin own
  | incrby => exact decrbyincrby_matched posOp twin own
  | decrby => exact decrbyincrby_matched negOp twin own
  | msetnx => exact msetnxCommand_matched twin own
  | get => exact getCommand_matched twin own
  | set => exact setCommand_matched twin own
  | strlen => exact strlenCommand_matched twin own
  | hdel => exact hdelsremCommand_matched Kind.hash twin own
  | hlen => exact hlenCommand_matched twin own
  | hexists => exact hexistsCommand_matched twin own
  | hmget => exact hmgetCommand_matched twin own
  | hget => exact hgetCommand_matched twin own
  | hmset => exact hmsetCommand_matched twin own
  | hgetall => exact hgetallCommand_matched twin own
  | hincrby => exact hincrbyCommand_matched twin own
  | hset => exact hsetCommand_matched twin own
  | hincrbyfloat => exact hincrbyfloatCommand_matched twin own
  | hsetnx => exact hsetnxCommand_matched twin own
  | hkeys => exact hkeyssmembersCommand_matched Kind.hash twin own
  | hvals => exact hvalsCommand_matched twin own
  | blpop => exact blpopbrpopCommand_matched (silent trivial) .left twin own
  | lrange => exact lrangeCommand_matched twin own
  | brpop => exact blpopbrpopCommand_matched (silent trivial) .right twin own
  | lrem => exact lremCommand_matched twin own
  | brpoplpush => exact brpoplpushCommand_matched (silent trivial) twin own
  | lset => exact lsetCommand_matched twin own
  | lindex => exact lindexCommand_matched twin own
  | ltrim => exact ltrimCommand_matched twin own
  | linsert => exact linsertCommand_matched twin own
  | rpop => exact lpoprpopCommand_matched .right twin own
  | llen => exact llenCommand_matched twin own
  | rpoplpush => exact rpoplpushCommand_matched twin own
  | lpop => exact lpoprpopCommand_matched .left twin own
  | rpush => exact lpushrpushCommand_matched .right twin own
  | lpush => exact lpushrpushCommand_matched .left twin own
  | rpushx => exact lpushrpushCommand_matched .right twin own
  | lpushx => exact lpushrpushCommand_matched .left twin own
  | sadd => exact saddCommand_matched twin own
  | smove => exact smoveCommand_matched twin own
  | scard => exact scardCommand_matched twin own
  | spop => exact spopCommand_matched (silent trivial) twin own
  | sdiff => exact sdiffCommand_matched twin own
  | srandmember => exact srandmemberCommand_matched silent twin own
  | srem => exact hdelsremCommand_matched Kind.set twin own
  | sinter => exact sinterCommand_matched twin own
  | sscan => exact sscanCommand_matched twin own
  | sunion => exact sunionCommand_matched twin own
  | sismember => exact sismemberCommand_matched twin own
  | smembers => exact hkeyssmembersCommand_matched Kind.set twin own
  | setnx => exact setnxCommand_matched twin own
  | incrbyfloat => exact incrbyfloatCommand_matched twin own

end PseudoRedis

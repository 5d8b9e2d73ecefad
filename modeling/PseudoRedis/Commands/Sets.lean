/-
This file embeds the handlers of `commands.c` that work on sets. A set is a dictionary
whose values are all `SET_VAL_PTR`. The set algebra works on a shallow copy: the copies
share their keys with the sets they are made of, which shows here in that the elements
of the reply are the keys of those sets.
-/

import PseudoRedis.Commands.Lists

namespace PseudoRedis

/-! ### Members -/

/-- The set with the new members, and how many there were. -/
def addMembers (set : Dict Unit) : List Bss → Dict Unit × Nat
  | [] => (set, 0)
  | member :: rest =>
      match dictLookUp set member with
      | none =>
          match addMembers (dictAdd set member ()) rest with
          | (set, count) => (set, count + 1)
      | some _ => addMembers set rest

def saddCommand (dict : Dict Obj) (args : List Bss) : Run Obj :=
  match args with
  | key :: first :: rest =>
      match dictLookUp dict key with
      | none =>
          match addMembers (dictCreate newDictPow) (first :: rest) with
          | (set, count) =>
              intReply (putBack Kind.set (dictAdd dict key (.set (dictCreate newDictPow))) key set)
                count
      | some (.set set) =>
          match addMembers set (first :: rest) with
          | (set, count) => intReply (putBack Kind.set dict key set) count
      | some _ => failReply dict wrongType
  | _ => failReply dict numArgs

/-- The source is not removed when its last member goes. Without a destination the member is out of
the source before the missing set is looked at. -/
def smoveCommand (dict : Dict Obj) (args : List Bss) : Run Obj :=
  match args with
  | [src, dst, member] =>
      match dictLookUp dict src, dictLookUp dict dst with
      | some (.string _), _ | some (.list _), _ | some (.hash _), _ => failReply dict wrongType
      | _, some (.string _) | _, some (.list _) | _, some (.hash _) => failReply dict wrongType
      | none, _ => falseReply dict
      | some (.set srcSet), _ =>
          match dictRmNf srcSet member with
          | (_, none) => falseReply dict
          | (srcSet, some entry) =>
              match dictLookUp (putBack Kind.set dict src srcSet) dst with
              | some (.set dstSet) =>
                  match dictLookUp dstSet member with
                  | none =>
                      trueReply (putBack Kind.set (putBack Kind.set dict src srcSet) dst
                        (dictAdd dstSet entry.key ()))
                  | some _ => trueReply (putBack Kind.set dict src srcSet)
              | _ => fault .uninitialised
  | _ => failReply dict numArgs

def scardCommand (dict : Dict Obj) (args : List Bss) : Run Obj :=
  match args with
  | [key] =>
      match dictLookUp dict key with
      | none => falseReply dict
      | some (.set set) => intReply dict set.entryNum
      | some _ => failReply dict wrongType
  | _ => failReply dict numArgs

def sismemberCommand (dict : Dict Obj) (args : List Bss) : Run Obj :=
  match args with
  | [key, member] =>
      match dictLookUp dict key with
      | none => falseReply dict
      | some (.set set) =>
          match dictLookUp set member with
          | none => falseReply dict
          | some _ => trueReply dict
      | some _ => failReply dict wrongType
  | _ => failReply dict numArgs

def sremCommand (dict : Dict Obj) (args : List Bss) : Run Obj :=
  hdelsremCommand Kind.set dict args

def smembersCommand (env : Env) (dict : Dict Obj) (args : List Bss) : Run Obj :=
  hkeyssmembersCommand env Kind.set dict args

/-! ### Random members -/

/-- A function with an empty body. -/
def spopCntCommand (env : Env) (dict : Dict Obj) : Run Obj := returning dict (env.fallOff 0)

/-- The answer of `create_str_reply` is dropped, and an emptied set stays. -/
def spopCommand (env : Env) (dict : Dict Obj) (args : List Bss) : Run Obj :=
  match args with
  | [_, _] => spopCntCommand env dict
  | [key] =>
      match dictLookUp dict key with
      | none => nilReply dict
      | some (.set set) =>
          match dictRandomElem set env.random with
          | .error stop => fault stop
          | .ok entry =>
              (stringReply (putBack Kind.set dict key (dictRmNf set entry.key).1) entry.key.str
                entry.key.len).andThen fun result => returning result.dict 0
      | some _ => failReply dict wrongType
  | _ => failReply dict numArgs

/-- A function with an empty body. -/
def srandmemberCntCommand (env : Env) (dict : Dict Obj) : Run Obj := returning dict (env.fallOff 0)

/-- The set under the key is never assigned to the pointer `_randomkey_command` is called with. -/
def srandmemberCommand (env : Env) (dict : Dict Obj) (args : List Bss) : Run Obj :=
  match args with
  | [_, _] => srandmemberCntCommand env dict
  | [key] =>
      match dictLookUp dict key with
      | none => nilReply dict
      | some (.set _) => fault .uninitialised
      | some _ => failReply dict wrongType
  | _ => failReply dict numArgs

/-! ### Set algebra -/

/-- The sets under the keys, or nothing if one of the objects is of another type. -/
def setsAt (dict : Dict Obj) : List Bss → Option (List (Option (Dict Unit)))
  | [] => some []
  | key :: rest =>
      match dictLookUp dict key with
      | none => (setsAt dict rest).map (none :: ·)
      | some (.set set) => (setsAt dict rest).map (some set :: ·)
      | some _ => none

/-- `dict_iter` with a callback that edits a set and always goes on. -/
def iterSet (set : Dict Unit) (func : Dict Unit → DictEntry Unit → Dict Unit)
    (newSet : Dict Unit) : Dict Unit :=
  (dictIter set (fun entry newSet => (func newSet entry, 0)) newSet).1

/-- `dict_cpy_callback`. -/
def dictCpyCallback (newSet : Dict Unit) (entry : DictEntry Unit) : Dict Unit :=
  dictAdd newSet entry.key ()

/-- `dict_diff_callback`. -/
def dictDiffCallback (newSet : Dict Unit) (entry : DictEntry Unit) : Dict Unit :=
  (dictRmNf newSet entry.key).1

/-- `dict_inter_callback`, with the set whose members stay. -/
def dictInterCallback (other : Dict Unit) (newSet : Dict Unit) (entry : DictEntry Unit) :
    Dict Unit :=
  match dictLookUp other entry.key with
  | none => (dictRmNf newSet entry.key).1
  | some _ => newSet

/-- `dict_union_callback`. -/
def dictUnionCallback (newSet : Dict Unit) (entry : DictEntry Unit) : Dict Unit :=
  dictAddShallow newSet entry.key ()

/-- What is left of the first set without the members of the others. -/
def diffSet (first : Dict Unit) (others : List (Option (Dict Unit))) : Dict Unit :=
  others.foldl
    (fun newSet other =>
      match other with
      | none => newSet
      | some other => iterSet other dictDiffCallback newSet)
    (iterSet first dictCpyCallback (dictCreate first.power))

def unionSet (sets : List (Option (Dict Unit))) : Dict Unit :=
  sets.foldl
    (fun newSet other =>
      match other with
      | none => newSet
      | some other => iterSet other dictUnionCallback newSet)
    (dictCreate newDictPow)

/-- The first of the sets with the smallest count. -/
def smallest (least : Dict Unit) : List (Dict Unit) → Dict Unit
  | [] => least
  | set :: rest =>
      smallest (if toSize set.entryNum < toSize least.entryNum then set else least) rest

/-- The copy of the smallest set, which is walked while members are taken out of it. -/
def interSet (first : Dict Unit) (rest : List (Dict Unit)) : Dict Unit :=
  (first :: rest).foldl (fun newSet other => iterSet newSet (dictInterCallback other) newSet)
    (iterSet (smallest first rest) dictCpyCallback (dictCreate newDictPow))

/-- The reply with the members of a set. What `dict_iter` returns is not looked at. -/
def membersReply (env : Env) (dict : Dict Obj) (newSet : Dict Unit) : Run Obj :=
  fillReply env dict fun sh => ((dictIter newSet (addkeyToArr env none) sh).1, 0)

def sdiffCommand (env : Env) (dict : Dict Obj) (args : List Bss) : Run Obj :=
  match args with
  | _ :: _ :: _ =>
      match setsAt dict args with
      | none => failReply dict wrongType
      | some (some first :: others) => membersReply env dict (diffSet first others)
      | some _ => fillReply env dict fun sh => (sh, 0)
  | _ => failReply dict numArgs

def sunionCommand (env : Env) (dict : Dict Obj) (args : List Bss) : Run Obj :=
  match args with
  | _ :: _ :: _ =>
      match setsAt dict args with
      | none => failReply dict wrongType
      | some sets => membersReply env dict (unionSet sets)
  | _ => failReply dict numArgs

/-- Every key has to hold a set: one that is absent makes the reply empty. -/
def sinterCommand (env : Env) (dict : Dict Obj) (args : List Bss) : Run Obj :=
  match args with
  | _ :: _ :: _ =>
      match setsAt dict args with
      | none => failReply dict wrongType
      | some sets =>
          match sets.mapM id with
          | some (first :: rest) => membersReply env dict (interSet first rest)
          | _ => fillReply env dict fun sh => (sh, 0)
  | _ => failReply dict numArgs

/-! ### Scanning -/

/-- The options after the cursor: the count, and the pattern, whose keyword is that of the count. -/
def scanOptions : List Bss → Int → Option Bytes → Option (Int × Option Bytes)
  | [], count, pattern => some (count, pattern)
  | [_], _, _ => none
  | word :: val :: rest, count, pattern =>
      if strcasecmp word.str (bytes "COUNT") then
        match bss2int val with
        | (count, ret) => if ret ≠ 0 ∨ count = 0 then none else scanOptions rest count pattern
      else if strcasecmp word.str (bytes "COUNT") then
        scanOptions rest count (some (val.str.drop sizeofBss))
      else
        none

/-- The scan goes on until the cursor comes back to zero or the array is one longer than the count:
the number of rounds left is unsigned and never negative. `fuel` bounds the rounds of the model. -/
def scanLoop (env : Env) (set : Dict Unit) (pattern : Option Bytes) (count : Int) :
    Nat → UInt32 → Shared → Shared × UInt32
  | 0, cursor, sh => (sh, cursor)
  | fuel + 1, cursor, sh =>
      match dictScan set cursor (addkeyToArr env pattern) sh with
      | (sh, cursor) =>
          if cursor ≠ 0 ∧ (sh.rplyArrLen.toNat : Int) - 1 < count then
            scanLoop env set pattern count fuel cursor sh
          else
            (sh, cursor)

/-- The cursor is the first element of the array. It is put there as `"0"` and overwritten when the
scan is over; what `bss_incr` returns is not looked at. -/
def sscanCommand (env : Env) (dict : Dict Obj) (args : List Bss) : Run Obj :=
  match args with
  | key :: cursorArg :: options =>
      match bss2int cursorArg with
      | (cursor, ret) =>
          if ret ≠ 0 ∨ cursor > uint32Max ∨ cursor < 0 then
            failReply dict invCursor
          else
            match scanOptions options 10 none with
            | none => failReply dict invSynx
            | some (count, pattern) => fun sh =>
                match dictLookUp dict key with
                | some (.set set) =>
                    match scanLoop env set pattern count (set.bitMask.toNat + 2)
                        (UInt32.ofNat cursor.toNat) (addAll (resetReplyArr sh)
                          [⟨some (bssCreate env env.fresh (bytes "0")), needFree⟩]) with
                    | (sh, cursor) =>
                        match bssAddSub env (env.fresh + 1)
                            (bssCreate env env.fresh (bytes "0")) cursor.toNat 1 with
                        | .error stop => .error (.fault stop)
                        | .ok (numBss, _) => dbarrReply env dict (sh.overwrite numBss)
                | some _ =>
                    failReply dict wrongType (addAll (resetReplyArr sh)
                      [⟨some (bssCreate env env.fresh (bytes "0")), needFree⟩])
                | none =>
                    dbarrReply env dict (addAll (resetReplyArr sh)
                      [⟨some (bssCreate env env.fresh (bytes "0")), needFree⟩])
  | _ => failReply dict numArgs

end PseudoRedis

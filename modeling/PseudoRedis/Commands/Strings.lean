/-
This file embeds the handlers of `commands.c` that work on keys and on strings. A
handler whose C name starts with an underscore takes the dictionary it works on, so it
serves the key space and the fields of a hash alike; its name ends in `On` here.

The checks of the C macros are the patterns: a list of arguments of another length is
the failing case of `CHECK_ARGS`, an object of another kind that of `CHECK_TYPE`.
-/

import PseudoRedis.Handler

namespace PseudoRedis

variable {V : Type}

/-! ### Keys -/

/-- The dictionary without the keys, and how many of them it held. -/
def delKeys (dict : Dict V) : List Bss → Dict V × Nat
  | [] => (dict, 0)
  | key :: rest =>
      match dictRm dict key with
      | (dict, ret) =>
          match delKeys dict rest with
          | (dict, count) => (dict, if ret = 0 then count + 1 else count)

def delCommandOn (dict : Dict V) (args : List Bss) : Run V :=
  match args with
  | [] => failReply dict numArgs
  | _ :: _ =>
      match delKeys dict args with
      | (dict, count) => intReply dict count

def delCommand (dict : Dict Obj) (args : List Bss) : Run Obj := delCommandOn dict args

def existsCommandOn (dict : Dict V) (args : List Bss) : Run V :=
  match args with
  | [key] =>
      match dictLookUp dict key with
      | none => falseReply dict
      | some _ => trueReply dict
  | _ => failReply dict numArgs

def existsCommand (dict : Dict Obj) (args : List Bss) : Run Obj := existsCommandOn dict args

def randomkeyCommandOn (env : Env) (dict : Dict V) (args : List Bss) : Run V :=
  match args with
  | [] =>
      if toSize dict.entryNum = 0 then
        nilReply dict
      else
        match dictRandomElem dict env.random with
        | .error stop => fault stop
        | .ok entry => stringReply dict entry.key.str entry.key.len
  | _ => failReply dict numArgs

def randomkeyCommand (env : Env) (dict : Dict Obj) (args : List Bss) : Run Obj :=
  randomkeyCommandOn env dict args

/-- The callback that adds a key to the array, if it matches the pattern. -/
def addkeyToArr (env : Env) (pattern : Option Bytes) (entry : DictEntry V) (sh : Shared) :
    Shared × Int :=
  match pattern with
  | none => addtoReplyArr sh (some entry.key) strNormal
  | some pattern =>
      if env.fnmatch (cstring pattern) (cstring entry.key.str) then
        addtoReplyArr sh (some entry.key) strNormal
      else
        (sh, 0)

def keysCommand (env : Env) (dict : Dict Obj) (args : List Bss) : Run Obj :=
  match args with
  | [pattern] => fillReply env dict (dictIter dict (addkeyToArr env (some pattern.str)))
  | _ => failReply dict numArgs

def renameCommand (dict : Dict Obj) (args : List Bss) : Run Obj :=
  match args with
  | [key, newKey] =>
      match dictRename dict key newKey with
      | (dict, ret) => if ret ≠ 0 then failReply dict noKey else okReply dict
  | _ => failReply dict numArgs

def typeCommand (dict : Dict Obj) (args : List Bss) : Run Obj :=
  match args with
  | [key] => typeReply dict (objType (dictLookUp dict key))
  | _ => failReply dict numArgs

/-! ### Values -/

variable [StrObj V]

def getCommandOn (dict : Dict V) (args : List Bss) : Run V :=
  match args with
  | [key] =>
      match dictLookUp dict key with
      | some valObj =>
          match StrObj.string valObj with
          | some bss => stringReply dict bss.str bss.len
          | none => failReply dict wrongType
      | none => nilReply dict
  | _ => failReply dict numArgs

def getCommand (dict : Dict Obj) (args : List Bss) : Run Obj := getCommandOn dict args

def setCommandOn [DictVal V] (dict : Dict V) (args : List Bss) : Run V :=
  match args with
  | [key, val] => okReply (dictAdd dict key (StrObj.bssCreateObj val))
  | _ => failReply dict numArgs

def setCommand (dict : Dict Obj) (args : List Bss) : Run Obj := setCommandOn dict args

def setnxCommandOn [DictVal V] (dict : Dict V) (args : List Bss) : Run V :=
  match args with
  | [key, _] =>
      match dictLookUp dict key with
      | some _ => falseReply dict
      | none => setCommandOn dict args
  | _ => failReply dict numArgs

def setnxCommand (dict : Dict Obj) (args : List Bss) : Run Obj := setnxCommandOn dict args

/-- The element a key contributes: its string, or a nil. -/
def mgetElem (dict : Dict V) (key : Bss) : Elem :=
  match (dictLookUp dict key).bind StrObj.string with
  | some bss => ⟨some bss, strNormal⟩
  | none => ⟨none, strNil⟩

def mgetCommandOn (env : Env) (dict : Dict V) (args : List Bss) : Run V :=
  match args with
  | [] => failReply dict numArgs
  | _ :: _ => fillReply env dict fun sh => addEach sh (args.map (mgetElem dict))

def mgetCommand (env : Env) (dict : Dict Obj) (args : List Bss) : Run Obj :=
  mgetCommandOn env dict args

/-- Setting the pairs one after the other; a pair that is not answered with `OK` ends the loop. -/
def setPairs [DictVal V] (finish : Dict V → Run V) : List Bss → Dict V → Run V
  | key :: val :: rest, dict =>
      (setCommandOn dict [key, val]).andThen fun result =>
        if result.sh.curr.replyType ≠ rplyOk ∨ result.ret ≠ 0 then
          returning result.dict result.ret
        else
          setPairs finish rest result.dict
  | _, dict => finish dict

/-- Whether one of the keys of the pairs exists. -/
def anyExists (dict : Dict V) : List Bss → Bool
  | key :: _ :: rest => (dictLookUp dict key).isSome || anyExists dict rest
  | _ => false

def msetnxCommand (dict : Dict Obj) (args : List Bss) : Run Obj :=
  if args.length < 2 ∨ args.length % 2 ≠ 0 then failReply dict numArgs
  else if anyExists dict args then falseReply dict
  else setPairs trueReply args dict

/-! ### Numbers -/

/-- `NEG_OP` and `POS_OP`. -/
def negOp : Int := -1
def posOp : Int := 1

/-- The argument rewritten as the negated number, printed with `"%d"`. The result of `bss_set` is
dropped: a failed allocation leaves the argument as it was, a new one leaves it released. -/
def negatedArg (env : Env) (amount : Bss) (number : Int) : Except Fault Bss :=
  match bssSet env env.fresh amount (sprintfD (toInt64 (-number))) with
  | .error stop => .error stop
  | .ok none => .ok amount
  | .ok (some bss) => if bss.id = amount.id then .ok bss else .error .outOfBounds

def decrbyincrbyCommandOn [DictVal V] (env : Env) (type : Int) (dict : Dict V) (args : List Bss) :
    Run V :=
  match args with
  | [key, amount] =>
      match bss2int amount with
      | (number, ret) =>
          if ret ≠ 0 then
            failReply dict invInt
          else
            match dictLookUp dict key with
            | none =>
                if type = negOp then
                  match negatedArg env amount number with
                  | .error stop => fault stop
                  | .ok bss =>
                      intReply (dictAdd dict key (StrObj.bssCreateObj bss)) (toInt64 (-number))
                else
                  intReply (dictAdd dict key (StrObj.bssCreateObj amount)) number
            | some strObj =>
                match StrObj.string strObj with
                | none => failReply dict wrongType
                | some bss =>
                    match bss2int bss with
                    | (count, ret) =>
                        if ret ≠ 0 then
                          failReply dict invInt
                        else
                          match bssAddSub env env.fresh bss number type with
                          | .error stop => fault stop
                          | .ok (bss, ret) =>
                              if ret ≠ 0 then
                                failReply dict invInt
                              else
                                intReply (dictSetVal dict key (StrObj.bssCreateObj bss))
                                  (toInt64 (if type = negOp then count - number
                                    else count + number))
  | _ => failReply dict numArgs

def decrbyCommandOn [DictVal V] (env : Env) (dict : Dict V) (args : List Bss) : Run V :=
  decrbyincrbyCommandOn env negOp dict args

def incrbyCommandOn [DictVal V] (env : Env) (dict : Dict V) (args : List Bss) : Run V :=
  decrbyincrbyCommandOn env posOp dict args

def incrbyCommand (env : Env) (dict : Dict Obj) (args : List Bss) : Run Obj :=
  incrbyCommandOn env dict args

def decrbyCommand (env : Env) (dict : Dict Obj) (args : List Bss) : Run Obj :=
  decrbyCommandOn env dict args

/-- The surroundings after one allocation. -/
def Env.next (env : Env) : Env := { env with fresh := env.fresh + 1 }

def incrCommand (env : Env) (dict : Dict Obj) (args : List Bss) : Run Obj :=
  match args with
  | [key] => incrbyCommand env.next dict [key, bssCreate env env.fresh (bytes "1")]
  | _ => failReply dict numArgs

def decrCommand (env : Env) (dict : Dict Obj) (args : List Bss) : Run Obj :=
  match args with
  | [key] => decrbyCommand env.next dict [key, bssCreate env env.fresh (bytes "1")]
  | _ => failReply dict numArgs

/-- `sprintf` into an area of `BSS_LDB_LEN` bytes. -/
def sprintfLdb (env : Env) (number : LongDouble) : Except Fault Bytes :=
  if bssLdbLen < (env.sprintfLd number).length + 1 then .error .outOfBounds
  else .ok (env.sprintfLd number)

def incrbyfloatCommandOn [DictVal V] (env : Env) (dict : Dict V) (args : List Bss) : Run V :=
  match args with
  | [key, amount] =>
      match bss2ld env amount with
      | (number, ret) =>
          if ret ≠ 0 then
            failReply dict invFlt
          else
            match dictLookUp dict key with
            | none =>
                match (sprintfLdb env number).bind fun str =>
                    bssCutZero (bssCreate env env.fresh str) with
                | .error stop => fault stop
                | .ok bss =>
                    stringReply (dictAdd dict key (StrObj.bssCreateObj bss)) bss.str bss.len
            | some strObj =>
                match StrObj.string strObj with
                | none => failReply dict wrongType
                | some bss =>
                    match bss2ld env bss with
                    | (result, ret) =>
                        if ret ≠ 0 ∨ (env.addLd result number).isNanOrInf then
                          failReply dict invFlt
                        else
                          match (sprintfLdb env (env.addLd result number)).bind fun str =>
                              bssSet env env.fresh bss str with
                          | .error stop => fault stop
                          | .ok none => fault .nullPointer
                          | .ok (some bss) =>
                              match bssCutZero bss with
                              | .error stop => fault stop
                              | .ok bss =>
                                  stringReply (dictSetVal dict key (StrObj.bssCreateObj bss))
                                    bss.str bss.len
  | _ => failReply dict numArgs

def incrbyfloatCommand (env : Env) (dict : Dict Obj) (args : List Bss) : Run Obj :=
  incrbyfloatCommandOn env dict args

/-! ### Bytes and bits of a string -/

def strlenCommand (dict : Dict Obj) (args : List Bss) : Run Obj :=
  match args with
  | [key] =>
      match dictLookUp dict key with
      | none => intReply dict 0
      | some (.string bss) => intReply dict bss.len
      | some _ => failReply dict wrongType
  | _ => failReply dict numArgs

/-- The key gets what `bss_append` returned before the reply dereferences it. -/
def appendCommand (dict : Dict Obj) (args : List Bss) : Run Obj :=
  match args with
  | [key, val] =>
      match dictLookUp dict key with
      | none => intReply (dictAdd dict key (.string val)) val.len
      | some (.string bss) =>
          match bssAppend bss val.content with
          | .error stop => fault stop
          | .ok none => fault .nullPointer
          | .ok (some bss) => intReply (dictSetVal dict key (.string bss)) bss.len
      | some _ => failReply dict wrongType
  | _ => failReply dict numArgs

def getbitCommand (dict : Dict Obj) (args : List Bss) : Run Obj :=
  match args with
  | [key, offset] =>
      match bss2int offset with
      | (offset, ret) =>
          if ret ≠ 0 then
            failReply dict invOffset
          else
            match dictLookUp dict key with
            | none => falseReply dict
            | some (.string bss) =>
                match bssGetbit bss (toSize offset) with
                | .error stop => fault stop
                | .ok bit => intReply dict bit
            | some _ => failReply dict wrongType
  | _ => failReply dict numArgs

/-- The new key of `SETBIT` and `SETRANGE`: an empty string, and what an edit makes of it. -/
def newString (env : Env) (edit : Bss → Except Fault (Option Bss)) : Except Fault (Option Bss) :=
  match bssCreateEmpty env env.fresh 0 with
  | none => .ok none
  | some bss => edit bss

def setbitCommand (env : Env) (dict : Dict Obj) (args : List Bss) : Run Obj :=
  match args with
  | [key, offset, bit] =>
      match bss2int offset, bss2int bit with
      | (offset, offsetRet), (bit, bitRet) =>
          if offsetRet ≠ 0 then
            failReply dict invOffset
          else if bitRet ≠ 0 ∨ (bit ≠ 0 ∧ bit ≠ 1) then
            failReply dict invSynx
          else
            match dictLookUp dict key with
            | none =>
                match newString env fun bss =>
                    bssSetbit env (env.fresh + 1) bss (toSize offset) bit.toNat with
                | .error stop => fault stop
                | .ok none => failReply dict memOut
                | .ok (some bss) => falseReply (dictAdd dict key (.string bss))
            | some (.string bss) =>
                match bssGetbit bss (toSize offset),
                  bssSetbit env env.fresh bss (toSize offset) bit.toNat with
                | .error stop, _ => fault stop
                | _, .error stop => fault stop
                | _, .ok none => failReply dict memOut
                | .ok result, .ok (some bss) =>
                    intReply (dictSetVal dict key (.string bss)) result
            | some _ => failReply dict wrongType
  | _ => failReply dict numArgs

def bitcountCommand (dict : Dict Obj) (args : List Bss) : Run Obj :=
  match args with
  | [key] =>
      match dictLookUp dict key with
      | none => falseReply dict
      | some (.string bss) =>
          match bssCountBit bss with
          | .error stop => fault stop
          | .ok count => intReply dict count
      | some _ => failReply dict wrongType
  | _ => failReply dict numArgs

def setrangeCommand (env : Env) (dict : Dict Obj) (args : List Bss) : Run Obj :=
  match args with
  | [key, offset, val] =>
      match bss2int offset with
      | (offset, ret) =>
          if ret ≠ 0 then
            failReply dict invOffset
          else
            match dictLookUp dict key with
            | none =>
                match newString env fun bss =>
                    bssSetrange env (env.fresh + 1) bss (toSize offset) val.content with
                | .error stop => fault stop
                | .ok none => failReply dict memOut
                | .ok (some bss) => intReply (dictAdd dict key (.string bss)) bss.len
            | some (.string bss) =>
                match bssSetrange env env.fresh bss (toSize offset) val.content with
                | .error stop => fault stop
                | .ok none => failReply dict memOut
                | .ok (some bss) => intReply (dictSetVal dict key (.string bss)) bss.len
            | some _ => failReply dict wrongType
  | _ => failReply dict numArgs

/-- An offset from the end, which is added as a signed number. -/
def fromEnd (offset : Int) (len : Nat) : Int :=
  if offset < 0 then toInt64 (offset + len) else offset

/-- The first offset of a range is never negative. -/
def rangeStart (offset : Int) (len : Nat) : Int :=
  if fromEnd offset len < 0 then 0 else fromEnd offset len

/-- `offset2 < offset1 || offset1 >= len`, the second test on unsigned numbers. -/
def emptyRange (first last : Int) (len : Nat) : Prop :=
  last < first ∨ len ≤ toSize first

instance (first last : Int) (len : Nat) : Decidable (emptyRange first last len) :=
  inferInstanceAs (Decidable (_ ∨ _))

def getrangeCommand (dict : Dict Obj) (args : List Bss) : Run Obj :=
  match args with
  | [key, offset1, offset2] =>
      match bss2int offset1, bss2int offset2 with
      | (offset1, ret1), (offset2, ret2) =>
          if ret1 ≠ 0 ∨ ret2 ≠ 0 then
            failReply dict invInt
          else
            match dictLookUp dict key with
            | none => stringReply dict [] 0
            | some (.string bss) =>
                if bss.len = 0 then
                  stringReply dict [] 0
                else if emptyRange (rangeStart offset1 bss.len) (fromEnd offset2 bss.len)
                    bss.len then
                  stringReply dict [] 0
                else if fromEnd offset2 bss.len > toInt64 bss.len - 1 then
                  stringReply dict (bss.str.drop (rangeStart offset1 bss.len).toNat)
                    (toSize (toInt64 bss.len - rangeStart offset1 bss.len))
                else
                  stringReply dict (bss.str.drop (rangeStart offset1 bss.len).toNat)
                    (toSize (fromEnd offset2 bss.len - rangeStart offset1 bss.len + 1))
            | some _ => failReply dict wrongType
  | _ => failReply dict numArgs

end PseudoRedis

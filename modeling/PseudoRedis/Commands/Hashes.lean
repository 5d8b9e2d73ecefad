/-
This file embeds the handlers of `commands.c` that work on hashes, and the two helpers
that hashes share with sets. A handler looks the hash up in the key space, runs a
handler of the strings on the inner dictionary and puts the dictionary back: in C it
is edited in place. A handler that creates the hash adds it before it looks at the
fields.
-/

import PseudoRedis.Commands.Strings

namespace PseudoRedis

variable {W : Type}

/-- The inner dictionary put back under its key. -/
def putBack (kind : Kind W) (dict : Dict Obj) (key : Bss) (inner : Dict W) : Dict Obj :=
  dictSetVal dict key (kind.wrap inner)

/-! ### Helpers shared with the sets -/

def hdelsremCommand (kind : Kind W) (dict : Dict Obj) (args : List Bss) : Run Obj :=
  match args with
  | key :: first :: rest =>
      match dictLookUp dict key with
      | none => falseReply dict
      | some valObj =>
          match kind.unwrap valObj with
          | none => failReply dict wrongType
          | some ds =>
              (delCommandOn ds (first :: rest)).within fun ds =>
                if toSize ds.entryNum = 0 then (dictRm (putBack kind dict key ds) key).1
                else putBack kind dict key ds
  | _ => failReply dict numArgs

/-- The array is reset before the type of the object is checked. -/
def hkeyssmembersCommand (env : Env) (kind : Kind W) (dict : Dict Obj) (args : List Bss) :
    Run Obj :=
  match args with
  | [key] =>
      match dictLookUp dict key with
      | none => fillReply env dict fun sh => (sh, 0)
      | some valObj =>
          match kind.unwrap valObj with
          | none => fun sh => failReply dict wrongType (resetReplyArr sh)
          | some ds => fillReply env dict (dictIter ds (addkeyToArr env none))
  | _ => failReply dict numArgs

/-! ### Reading -/

def hlenCommand (dict : Dict Obj) (args : List Bss) : Run Obj :=
  match args with
  | [key] =>
      match dictLookUp dict key with
      | none => falseReply dict
      | some (.hash hash) => intReply dict hash.entryNum
      | some _ => failReply dict wrongType
  | _ => failReply dict numArgs

def hexistsCommand (dict : Dict Obj) (args : List Bss) : Run Obj :=
  match args with
  | [key, field] =>
      match dictLookUp dict key with
      | none => falseReply dict
      | some (.hash hash) => (existsCommandOn hash [field]).within fun _ => dict
      | some _ => failReply dict wrongType
  | _ => failReply dict numArgs

def hmgetCommand (env : Env) (dict : Dict Obj) (args : List Bss) : Run Obj :=
  match args with
  | key :: first :: rest =>
      match dictLookUp dict key with
      | none =>
          fillReply env dict fun sh => addEach sh ((first :: rest).map fun _ => ⟨none, strNil⟩)
      | some (.hash hash) => (mgetCommandOn env hash (first :: rest)).within fun _ => dict
      | some _ => failReply dict wrongType
  | _ => failReply dict numArgs

def hgetCommand (dict : Dict Obj) (args : List Bss) : Run Obj :=
  match args with
  | [key, field] =>
      match dictLookUp dict key with
      | none => nilReply dict
      | some (.hash hash) => (getCommandOn hash [field]).within fun _ => dict
      | some _ => failReply dict wrongType
  | _ => failReply dict numArgs

/-- The callback that adds a field and its value falls off its end when both were added. -/
def addKeyValToArr (env : Env) (entry : DictEntry Bss) (sh : Shared) : Shared × Int :=
  match addtoReplyArr sh (some entry.key) strNormal with
  | (sh, ret) =>
      if ret ≠ 0 then
        (sh, eTooLong)
      else
        match addtoReplyArr sh (some entry.val) strNormal with
        | (sh, ret) => if ret ≠ 0 then (sh, eTooLong) else (sh, env.fallOff entry.key.id)

def hgetallCommand (env : Env) (dict : Dict Obj) (args : List Bss) : Run Obj :=
  match args with
  | [key] =>
      match dictLookUp dict key with
      | none => fillReply env dict fun sh => (sh, 0)
      | some (.hash hash) => fillReply env dict (dictIter hash (addKeyValToArr env))
      | some _ => fun sh => failReply dict wrongType (resetReplyArr sh)
  | _ => failReply dict numArgs

def hkeysCommand (env : Env) (dict : Dict Obj) (args : List Bss) : Run Obj :=
  hkeyssmembersCommand env Kind.hash dict args

/-- The callback that adds a value. -/
def addvalToArr (entry : DictEntry Bss) (sh : Shared) : Shared × Int :=
  addtoReplyArr sh (some entry.val) strNormal

def hvalsCommand (env : Env) (dict : Dict Obj) (args : List Bss) : Run Obj :=
  match args with
  | [key] =>
      match dictLookUp dict key with
      | none => fillReply env dict fun sh => (sh, 0)
      | some (.hash hash) => fillReply env dict (dictIter hash addvalToArr)
      | some _ => fun sh => failReply dict wrongType (resetReplyArr sh)
  | _ => failReply dict numArgs

/-! ### Writing -/

def hdelCommand (dict : Dict Obj) (args : List Bss) : Run Obj :=
  hdelsremCommand Kind.hash dict args

/-- The key space with a new, empty hash. -/
def addHash (dict : Dict Obj) (key : Bss) : Dict Obj :=
  dictAdd dict key (.hash (dictCreate newDictPow))

def hincrbyCommand (env : Env) (dict : Dict Obj) (args : List Bss) : Run Obj :=
  match args with
  | [key, field, amount] =>
      match dictLookUp dict key with
      | none =>
          (incrbyCommandOn env (dictCreate newDictPow : Dict Bss) [field, amount]).within
            (putBack Kind.hash (addHash dict key) key)
      | some (.hash hash) =>
          (incrbyCommandOn env hash [field, amount]).within (putBack Kind.hash dict key)
      | some _ => failReply dict wrongType
  | _ => failReply dict numArgs

def hincrbyfloatCommand (env : Env) (dict : Dict Obj) (args : List Bss) : Run Obj :=
  match args with
  | [key, field, amount] =>
      match dictLookUp dict key with
      | none =>
          (incrbyfloatCommandOn env (dictCreate newDictPow : Dict Bss) [field, amount]).within
            (putBack Kind.hash (addHash dict key) key)
      | some (.hash hash) =>
          (incrbyfloatCommandOn env hash [field, amount]).within (putBack Kind.hash dict key)
      | some _ => failReply dict wrongType
  | _ => failReply dict numArgs

def hsetCommand (dict : Dict Obj) (args : List Bss) : Run Obj :=
  match args with
  | [key, field, val] =>
      match dictLookUp dict key with
      | none =>
          ((setCommandOn (dictCreate newDictPow : Dict Bss) [field, val]).within
            (putBack Kind.hash (addHash dict key) key)).andThen fun result =>
              trueReply result.dict
      | some (.hash hash) =>
          ((setCommandOn hash [field, val]).within (putBack Kind.hash dict key)).andThen
            fun result =>
              match dictLookUp hash field with
              | some _ => falseReply result.dict
              | none => trueReply result.dict
      | some _ => failReply dict wrongType
  | _ => failReply dict numArgs

def hsetnxCommand (dict : Dict Obj) (args : List Bss) : Run Obj :=
  match args with
  | [key, field, val] =>
      match dictLookUp dict key with
      | none =>
          ((setCommandOn (dictCreate newDictPow : Dict Bss) [field, val]).within
            (putBack Kind.hash (addHash dict key) key)).andThen fun result =>
              trueReply result.dict
      | some (.hash hash) =>
          match dictLookUp hash field with
          | none => (setCommandOn hash [field, val]).within (putBack Kind.hash dict key)
          | some _ => falseReply dict
      | some _ => failReply dict wrongType
  | _ => failReply dict numArgs

/-- The reply is the one of the last pair. -/
def hmsetCommand (dict : Dict Obj) (args : List Bss) : Run Obj :=
  if args.length < 3 ∨ args.length % 2 ≠ 1 then
    failReply dict numArgs
  else
    match args with
    | [] => failReply dict numArgs
    | key :: rest =>
        match dictLookUp dict key with
        | none =>
            (setPairs (fun hash => returning hash 0) rest
              (dictCreate newDictPow : Dict Bss)).within (putBack Kind.hash (addHash dict key) key)
        | some (.hash hash) =>
            (setPairs (fun hash => returning hash 0) rest hash).within
              (putBack Kind.hash dict key)
        | some _ => failReply dict wrongType

end PseudoRedis

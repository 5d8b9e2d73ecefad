/-
This file sets up the embedding of `commands.c`: the objects of the key space, and
`Run`, what is left of a handler once its arguments and the key space are known. A run
takes the shared reply state and gives back the key space, the reply state and the
return value, or stops with a fault. The reply macros of `server.h`, which return from
the handler, are runs.

Memory the handlers release is not modelled apart from what `create_arr_reply`
releases and the argument that `RPOPLPUSH` can free a second time, which stops the
program; a string keeps the identity of its allocation through every command that keeps
the allocation.
-/

import PseudoRedis.Dict
import PseudoRedis.Reply

namespace PseudoRedis

/-! ### Objects -/

/-- An object by its type and value. -/
inductive Obj where
  | string (bss : Bss)
  | list (entries : List Bss)
  | hash (dict : Dict Bss)
  | set (dict : Dict Unit)

/-- The number `type_reply` sends; an absent key has type `NONE`. -/
def objType : Option Obj → UInt8
  | some (.string _) => 0
  | some (.set _) => 2
  | some (.hash _) => 3
  | some (.list _) => 4
  | none => 5

/-- The key space maps keys to objects. -/
instance : DictVal Obj := ⟨fun _ => false⟩

/-- The value types of the two dictionaries that hold strings: the key space and a hash. -/
class StrObj (V : Type) where
  bssCreateObj : Bss → V
  /-- the string of an object of type `STRING` -/
  string : V → Option Bss

instance : StrObj Obj where
  bssCreateObj := Obj.string
  string
    | .string bss => some bss
    | _ => none

instance : StrObj Bss where
  bssCreateObj := id
  string := some

/-- The two object types that are dictionaries. -/
structure Kind (W : Type) where
  wrap : Dict W → Obj
  unwrap : Obj → Option (Dict W)

def Kind.hash : Kind Bss where
  wrap := Obj.hash
  unwrap
    | .hash dict => some dict
    | _ => none

def Kind.set : Kind Unit where
  wrap := Obj.set
  unwrap
    | .set dict => some dict
    | _ => none

def newDictPow : Nat := 12

/-! ### Runs -/

/-- How a handler stops. -/
inductive Stop where
  /-- the `NULL` that popping an empty list returns is dereferenced -/
  | nullEntry
  /-- an argument that was freed is freed once more, and the process is aborted -/
  | freedTwice
  | fault (fault : Fault)
  deriving DecidableEq

/-- What a handler leaves behind. -/
structure Result (V : Type) where
  dict : Dict V
  sh : Shared
  ret : Int

abbrev Run (V : Type) := Shared → Except Stop (Result V)

variable {V W : Type}

/-- A run that stops with a fault. -/
def fault (stop : Fault) : Run V := fun _ => .error (.fault stop)

/-- A run that dereferences the entry an empty list did not give. -/
def nullEntry : Run V := fun _ => .error .nullEntry

/-- A run that frees an argument a second time. -/
def freedTwice : Run V := fun _ => .error .freedTwice

/-- A return without a reply. -/
def returning (dict : Dict V) (ret : Int) : Run V := fun sh => .ok ⟨dict, sh, ret⟩

/-- The run on an inner dictionary, seen as a run on the outer one. -/
def Run.within (run : Run W) (wrap : Dict W → Dict V) : Run V := fun sh =>
  match run sh with
  | .error stop => .error stop
  | .ok result => .ok ⟨wrap result.dict, result.sh, result.ret⟩

/-- A handler that calls another one and goes on with what it left. -/
def Run.andThen (run : Run W) (next : Result W → Run V) : Run V := fun sh =>
  match run sh with
  | .error stop => .error stop
  | .ok result => next result result.sh

/-! ### The reply macros -/

/-- `return` of a call that builds a reply. -/
def replying (dict : Dict V) (call : Shared → Shared × Int) : Run V := fun sh =>
  .ok ⟨dict, (call sh).1, (call sh).2⟩

def stringReply (dict : Dict V) (s : Bytes) (len : Nat) : Run V := fun sh =>
  match createStrReply sh s len rplyString with
  | .error stop => .error (.fault stop)
  | .ok (sh, ret) => .ok ⟨dict, sh, ret⟩

def failReply (dict : Dict V) (s : String) : Run V := fun sh =>
  match createStrReply sh (bytes s) (bytes s).length rplyFail with
  | .error stop => .error (.fault stop)
  | .ok (sh, ret) => .ok ⟨dict, sh, ret⟩

def okReply (dict : Dict V) : Run V := replying dict fun sh => createEmptyReply sh rplyOk

def nilReply (dict : Dict V) : Run V := replying dict fun sh => createEmptyReply sh rplyNil

def intReply (dict : Dict V) (n : Int) : Run V := replying dict fun sh => createIntReply sh n

/-- A run that replies with a number leaves one dictionary. -/
theorem dict_of_intReply {dict dict' : Dict V} {n n' : Int} (sh : Shared)
    (same : intReply dict n = intReply dict' n') : dict = dict' :=
  congrArg Result.dict (Except.ok.inj (congrFun same sh))

/-- It also replies with one number. -/
theorem number_of_intReply {dict dict' : Dict V} {n n' : Int} (sh : Shared)
    (same : intReply dict n = intReply dict' n') : bigEndian64 n = bigEndian64 n' :=
  congrArg (fun result => result.sh.curr.data.take 8) (Except.ok.inj (congrFun same sh))

def trueReply (dict : Dict V) : Run V := intReply dict 1

def falseReply (dict : Dict V) : Run V := intReply dict 0

def typeReply (dict : Dict V) (n : UInt8) : Run V := replying dict fun sh => createTypeReply sh n

def arrayReply (env : Env) (type : UInt8) (dict : Dict V) : Run V := fun sh =>
  match createArrReply env sh type with
  | .error stop => .error (.fault stop)
  | .ok (sh, ret) => .ok ⟨dict, sh, ret⟩

def arrReply (env : Env) (dict : Dict V) : Run V := arrayReply env rplyArr dict

def dbarrReply (env : Env) (dict : Dict V) : Run V := arrayReply env rplyDbArr dict

/-! ### The texts of the errors -/

def numArgs : String := "ERR wrong number of arguments"
def invCmd : String := "ERR unknown command"
def invArg : String := "ERR Invalid Arguments"
def invInt : String := "ERR value is not an integer or out of range"
def invFlt : String := "ERR Value is not a valid float"
def invTm : String := "ERR timeout is not an integer or out of range"
def negTm : String := "ERR timeout is negative"
def invOffset : String := "ERR bit offset is not an integer or out of range"
def invCursor : String := "ERR invalid cursor"
def noKey : String := "ERR no such key"
def invSynx : String := "ERR syntax error"
def tooLong : String := "ERR request or reply too long"
def wrongType : String := "WRONG TYPE Operation against a key holding a wrong kind of value"
def memOut : String := "Server Memory Out"

/-! ### Filling the array -/

/-- Additions that stop at the first one refused. -/
def addEach (sh : Shared) : List Elem → Shared × Int
  | [] => (sh, 0)
  | elem :: rest =>
      match addtoReplyArr sh elem.bss elem.type with
      | (sh, ret) => if ret ≠ 0 then (sh, ret) else addEach sh rest

/-- The array built from the additions `fill` makes after a reset, or `TOO_LONG`. -/
def fillReply (env : Env) (dict : Dict V) (fill : Shared → Shared × Int) : Run V := fun sh =>
  match fill (resetReplyArr sh) with
  | (sh, ret) => if ret ≠ 0 then failReply dict tooLong sh else arrReply env dict sh

end PseudoRedis

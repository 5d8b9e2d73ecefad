/-
This file embeds the handlers of `commands.c` that work on lists, with the operations
of `list.c` they use. A list object is the list of its strings; the count of `list_t`
is the length. The blocking handlers fill the reply array and leave the encoding to
their caller.
-/

import PseudoRedis.Commands.Hashes

namespace PseudoRedis

/-! ### Lists -/

/-- `LEFT_OP` and `RIGHT_OP`. -/
inductive End where
  | left
  | right
  deriving DecidableEq

/-- `list_pop_front` and `list_pop_back`; an empty list gives `NULL`. -/
def listPop : End → List Bss → Option (Bss × List Bss)
  | .left, entry :: rest => some (entry, rest)
  | .right, entry :: rest => some ((entry :: rest).getLast (by simp), (entry :: rest).dropLast)
  | _, [] => none

/-- `list_insert_front` and `list_insert_back`. -/
def listInsert (side : End) (entries : List Bss) (entry : Bss) : List Bss :=
  match side with
  | .left => entry :: entries
  | .right => entries ++ [entry]

/-- The list put back under its key, which is removed when the list is empty. -/
def putList (dict : Dict Obj) (key removed : Bss) (entries : List Bss) : Dict Obj :=
  if entries.length = 0 then (dictRm (dictSetVal dict key (.list entries)) removed).1
  else dictSetVal dict key (.list entries)

/-! ### Pushing -/

def lpushrpushCommand (side : End) (dict : Dict Obj) (args : List Bss) : Run Obj :=
  match args with
  | key :: first :: rest =>
      match dictLookUp dict key with
      | none =>
          intReply (dictAdd dict key (.list ((first :: rest).foldl (listInsert side) [])))
            (first :: rest).length
      | some (.list entries) =>
          intReply (dictSetVal dict key (.list ((first :: rest).foldl (listInsert side) entries)))
            ((first :: rest).foldl (listInsert side) entries).length
      | some _ => failReply dict wrongType
  | _ => failReply dict numArgs

def rpushCommand (dict : Dict Obj) (args : List Bss) : Run Obj :=
  lpushrpushCommand .right dict args

def lpushCommand (dict : Dict Obj) (args : List Bss) : Run Obj :=
  lpushrpushCommand .left dict args

/-- The two `X` forms call the plain helper, not the one written for them. -/
def rpushxCommand (dict : Dict Obj) (args : List Bss) : Run Obj :=
  lpushrpushCommand .right dict args

def lpushxCommand (dict : Dict Obj) (args : List Bss) : Run Obj :=
  lpushrpushCommand .left dict args

/-! ### Popping -/

def lpoprpopCommand (side : End) (dict : Dict Obj) (args : List Bss) : Run Obj :=
  match args with
  | [key] =>
      match dictLookUp dict key with
      | none => nilReply dict
      | some (.list entries) =>
          match listPop side entries with
          | none => nullEntry
          | some (entry, entries) =>
              stringReply (putList dict key key entries) entry.str entry.len
      | some _ => failReply dict wrongType
  | _ => failReply dict numArgs

def lpopCommand (dict : Dict Obj) (args : List Bss) : Run Obj := lpoprpopCommand .left dict args

def rpopCommand (dict : Dict Obj) (args : List Bss) : Run Obj := lpoprpopCommand .right dict args

/-- Moving the last entry of one list to the front of another. The type of the second key is checked
when the entry is out already and `args[0]` is freed, which `CHECK_TYPE` then frees again. -/
def rpoplpush (dict : Dict Obj) (src dst : Bss) (blocked : Run Obj)
    (finish : Dict Obj → Bss → Run Obj) : Run Obj :=
  match dictLookUp dict src with
  | none => blocked
  | some (.list entries) =>
      match listPop .right entries with
      | none => nullEntry
      | some (entry, entries) =>
          match dictLookUp (putList dict src src entries) dst with
          | none => finish (dictAdd (putList dict src src entries) dst (.list [entry])) entry
          | some (.list target) =>
              finish (dictSetVal (putList dict src src entries) dst (.list (entry :: target))) entry
          | some _ => freedTwice
  | some _ => failReply dict wrongType

def rpoplpushCommand (dict : Dict Obj) (args : List Bss) : Run Obj :=
  match args with
  | [src, dst] =>
      rpoplpush dict src dst (nilReply dict) fun dict entry => stringReply dict entry.str entry.len
  | _ => failReply dict numArgs

/-! ### Blocking -/

/-- The first key that exists, with its object. -/
def firstPresent (dict : Dict Obj) : List Bss → Option (Bss × Obj)
  | [] => none
  | key :: rest =>
      match dictLookUp dict key with
      | some obj => some (key, obj)
      | none => firstPresent dict rest

/-- The array of a satisfied `BLPOP`: the first argument and the string of the entry. -/
def popped (first entry : Bss) : List Elem :=
  [⟨some first, strNi ||| needFree⟩, ⟨some entry, strNi ||| needFree⟩]

/-- Filling the array and returning without a reply. -/
def leaving (dict : Dict Obj) (elems : List Elem) (ret : Int) : Run Obj := fun sh =>
  .ok ⟨dict, addAll (resetReplyArr sh) elems, ret⟩

/-- The key removed with an emptied list is the first argument, wherever the list was found. -/
def blpopbrpopCommand (side : End) (dict : Dict Obj) (args : List Bss) : Run Obj :=
  match args with
  | [] => failReply dict numArgs
  | first :: _ =>
      match firstPresent dict args with
      | none => leaving dict [] eBlocked
      | some (key, .list entries) =>
          match listPop side entries with
          | none => nullEntry
          | some (entry, entries) => leaving (putList dict key first entries) (popped first entry) 0
      | some _ => failReply dict wrongType

def blpopCommand (dict : Dict Obj) (args : List Bss) : Run Obj :=
  blpopbrpopCommand .left dict args

def brpopCommand (dict : Dict Obj) (args : List Bss) : Run Obj :=
  blpopbrpopCommand .right dict args

/-- The handler fills the array and falls off its end. -/
def brpoplpushCommand (env : Env) (dict : Dict Obj) (args : List Bss) : Run Obj :=
  match args with
  | [src, dst] =>
      rpoplpush dict src dst (returning dict eBlocked) fun dict entry =>
        leaving dict [⟨some entry, strNi⟩] (env.fallOff 0)
  | _ => failReply dict numArgs

/-! ### Reading -/

def llenCommand (dict : Dict Obj) (args : List Bss) : Run Obj :=
  match args with
  | [key] =>
      match dictLookUp dict key with
      | none => falseReply dict
      | some (.list entries) => intReply dict entries.length
      | some _ => failReply dict wrongType
  | _ => failReply dict numArgs

/-- The entries from one offset to another. -/
def sublist (entries : List Bss) (first last : Int) : List Bss :=
  (entries.drop first.toNat).take (last - first + 1).toNat

/-- What `addto_reply_arr` returns is not looked at. -/
def lrangeCommand (env : Env) (dict : Dict Obj) (args : List Bss) : Run Obj :=
  match args with
  | [key, offset1, offset2] =>
      match bss2int offset1, bss2int offset2 with
      | (offset1, ret1), (offset2, ret2) =>
          if ret1 ≠ 0 ∨ ret2 ≠ 0 then
            failReply dict invInt
          else
            match dictLookUp dict key with
            | none => fillReply env dict fun sh => (sh, 0)
            | some (.list entries) =>
                if emptyRange (rangeStart offset1 entries.length)
                    (fromEnd offset2 entries.length) entries.length then
                  fillReply env dict fun sh => (sh, 0)
                else
                  fillReply env dict fun sh =>
                    (addAll sh ((sublist entries (rangeStart offset1 entries.length)
                      (fromEnd offset2 entries.length)).map fun entry =>
                        ⟨some entry, strNormal⟩), 0)
            | some _ => fun sh => failReply dict wrongType (resetReplyArr sh)
  | _ => failReply dict numArgs

/-- The place an index stands for, if there is one. -/
def listIndex (entries : List Bss) (index : Int) : Option Nat :=
  if entries.length ≤ toSize (fromEnd index entries.length) ∨ fromEnd index entries.length < 0 then
    none
  else
    some (fromEnd index entries.length).toNat

def lindexCommand (dict : Dict Obj) (args : List Bss) : Run Obj :=
  match args with
  | [key, index] =>
      match bss2int index with
      | (index, ret) =>
          if ret ≠ 0 then
            failReply dict invInt
          else
            match dictLookUp dict key with
            | none => nilReply dict
            | some (.list entries) =>
                match (listIndex entries index).bind fun place => entries[place]? with
                | none => nilReply dict
                | some entry => stringReply dict entry.str entry.len
            | some _ => failReply dict wrongType
  | _ => failReply dict numArgs

/-! ### Editing -/

def lsetCommand (dict : Dict Obj) (args : List Bss) : Run Obj :=
  match args with
  | [key, index, val] =>
      match bss2int index with
      | (index, ret) =>
          if ret ≠ 0 then
            failReply dict invInt
          else
            match dictLookUp dict key with
            | none => nilReply dict
            | some (.list entries) =>
                match listIndex entries index with
                | none => nilReply dict
                | some place =>
                    stringReply (dictSetVal dict key (.list (entries.set place val))) val.str
                      val.len
            | some _ => failReply dict wrongType
  | _ => failReply dict numArgs

/-- Removing entries equal to a string until `target` are removed, counting from `count`. -/
def lremForward (bss : Bss) (target : Int) : Int → List Bss → List Bss × Int
  | count, [] => ([], count)
  | count, entry :: rest =>
      if bssCmp entry bss = 0 ∧ count < target then
        if count + 1 = target then (rest, count + 1) else lremForward bss target (count + 1) rest
      else
        match lremForward bss target count rest with
        | (rest, count) => (entry :: rest, count)

/-- `_lrem`: from the front, everywhere, or from the back. -/
def lrem (entries : List Bss) (target : Int) (bss : Bss) : List Bss × Int :=
  if target > 0 then
    lremForward bss target 0 entries
  else if target = 0 then
    (entries.filter fun entry => bssCmp entry bss ≠ 0,
      (entries.filter fun entry => bssCmp entry bss = 0).length)
  else
    match lremForward bss (toInt64 (-target)) 0 entries.reverse with
    | (rest, count) => (rest.reverse, count)

def lremCommand (dict : Dict Obj) (args : List Bss) : Run Obj :=
  match args with
  | [key, target, bss] =>
      match bss2int target with
      | (target, ret) =>
          if ret ≠ 0 then
            failReply dict invInt
          else
            match dictLookUp dict key with
            | none => falseReply dict
            | some (.list entries) =>
                match lrem entries target bss with
                | (entries, count) => intReply (putList dict key key entries) count
            | some _ => failReply dict wrongType
  | _ => failReply dict numArgs

def ltrimCommand (dict : Dict Obj) (args : List Bss) : Run Obj :=
  match args with
  | [key, offset1, offset2] =>
      match bss2int offset1, bss2int offset2 with
      | (offset1, ret1), (offset2, ret2) =>
          if ret1 ≠ 0 ∨ ret2 ≠ 0 then
            failReply dict invInt
          else
            match dictLookUp dict key with
            | none => okReply dict
            | some (.list entries) =>
                if emptyRange (rangeStart offset1 entries.length)
                    (fromEnd offset2 entries.length) entries.length then
                  okReply (dictRm dict key).1
                else
                  okReply (dictSetVal dict key (.list (sublist entries
                    (rangeStart offset1 entries.length) (fromEnd offset2 entries.length))))
            | some _ => failReply dict wrongType
  | _ => failReply dict numArgs

/-- The list with an entry before or after the first one equal to the pivot. -/
def insertAt (pivot val : Bss) (after : Bool) : List Bss → Option (List Bss)
  | [] => none
  | entry :: rest =>
      if bssCmp entry pivot = 0 then
        some (if after then entry :: val :: rest else val :: entry :: rest)
      else
        (insertAt pivot val after rest).map (entry :: ·)

/-- The direction `LINSERT` is given. -/
def direction (str : Bytes) : Option Bool :=
  if strcasecmp str (bytes "before") then some false
  else if strcasecmp str (bytes "after") then some true
  else none

def linsertCommand (dict : Dict Obj) (args : List Bss) : Run Obj :=
  match args with
  | [key, place, pivot, val] =>
      match direction place.str with
      | none => failReply dict invSynx
      | some after =>
          match dictLookUp dict key with
          | none => falseReply dict
          | some (.list entries) =>
              match insertAt pivot val after entries with
              | none => intReply dict (-1)
              | some entries => intReply (dictSetVal dict key (.list entries)) entries.length
          | some _ => failReply dict wrongType
  | _ => failReply dict numArgs

end PseudoRedis

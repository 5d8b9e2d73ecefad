/-
This file says what the server is for, without its memory: a ledger that holds under
every key a string, a list, a hash or a set, and the commands as functions of a ledger
and byte strings that give the next ledger and an answer, or stop the server. A key whose
list, hash or set has nothing left is absent.

The ledger of a command shows where the program departs from its model: `RPOPLPUSH` stops
the server when the second key turns out to hold something else than a list, `LREM`
removes nothing for the one count that has no negation, `HSETNX` answers `OK` in a hash
that is there, and the two `X` forms of pushing create the list.

Left out are the commands whose answers depend on the order of a table, on random numbers,
on the spare room of a string or on floating point, those that block, those that can leave
an empty hash or set behind, and the two that count down.
-/

import PseudoRedis.HashHistory
import PseudoRedis.Ranges

namespace PseudoRedis

/-! ### Ledgers -/

/-- What a key holds. -/
inductive Datum where
  | string (data : Bytes)
  | list (entries : List Bytes)
  | hash (fields : Fields)
  | set (members : Finset Bytes)

/-- What every key holds, if anything. -/
abbrev Ledger := Bytes → Option Datum

def Datum.text : Datum → Option Bytes
  | .string data => some data
  | _ => none

def Datum.entries : Datum → Option (List Bytes)
  | .list entries => some entries
  | _ => none

def Datum.fields : Datum → Option Fields
  | .hash fields => some fields
  | _ => none

def Datum.members : Datum → Option (Finset Bytes)
  | .set members => some members
  | _ => none

/-- The number `TYPE` answers. -/
def datumType : Option Datum → UInt8
  | some (.string _) => 0
  | some (.set _) => 2
  | some (.hash _) => 3
  | some (.list _) => 4
  | none => 5

/-- A list under a key, which goes with its last entry. -/
def listOrGone (entries : List Bytes) : Option Datum :=
  if entries = [] then none else some (.list entries)

def hashOrGone (fields : Fields) : Option Datum :=
  if fields = ∅ then none else some (.hash fields)

def setOrGone (members : Finset Bytes) : Option Datum :=
  if members = ∅ then none else some (.set members)

/-! ### Answers -/

/-- What a client is told. -/
inductive Told where
  | number (n : Int)
  | text (data : Bytes)
  | ok
  | nil
  | type (n : UInt8)
  | error (s : String)
  | array (entries : List (Option Bytes))

/-! ### Commands on one key -/

/-- What a command makes of the value of its key, and what it answers. -/
abbrev Edit := Option Datum → Option Datum × Told

variable {Content : Type}

/-- An answer about a value of one type. -/
def reading (unwrap : Datum → Option Content) (absent : Told) (present : Content → Told) : Edit
  | none => (none, absent)
  | some datum => (some datum, (unwrap datum).elim (.error wrongType) present)

/-- A change of a value of one type. -/
def editing (unwrap : Datum → Option Content) (absent : Option Datum × Told)
    (present : Content → Option Datum × Told) : Edit
  | none => absent
  | some datum => (unwrap datum).elim (some datum, .error wrongType) present

/-- The number a whole text spells; the empty text spells zero. -/
def spelled (text : Bytes) : Option Int :=
  if text = [] then some 0
  else if (strtoll text).2.2 || (strtoll text).2.1 ≠ text.length then none
  else some (strtoll text).1

/-- A command with an argument that has to be a number. -/
def withNumber (text : Bytes) (edit : Int → Edit) : Edit :=
  (spelled text).elim (fun value => (value, .error invInt)) edit

/-! ### Strings -/

def getEdit : Edit := reading Datum.text .nil .text

def setEdit (val : Bytes) : Edit := fun _ => (some (.string val), .ok)

/-- A string that is set only if nothing is there. -/
def setnxEdit (val : Bytes) : Edit
  | none => setEdit val none
  | some datum => (some datum, .number 0)

def strlenEdit : Edit := reading Datum.text (.number 0) fun data => .number data.length

def getrangeEdit (first last : Bytes) : Edit :=
  withNumber first fun first => withNumber last fun last =>
    reading Datum.text (.text []) fun data => .text (slice data first last)

/-- A number is added to the number a string spells, if the sum has 64 bits. -/
def countedUp (n : Int) (data : Bytes) : Option Datum × Told :=
  (spelled data).elim (some (.string data), .error invInt) fun old =>
    if llongMin ≤ old + n ∧ old + n ≤ llongMax then
      (some (.string (sprintfLld (old + n))), .number (old + n))
    else (some (.string data), .error invInt)

def incrbyEdit (amount : Bytes) : Edit :=
  withNumber amount fun n =>
    editing Datum.text (some (.string amount), .number n) (countedUp n)

/-! ### Lists -/

/-- The entries with new ones pushed one after the other. -/
def pushedAt (side : End) (entries new : List Bytes) : List Bytes :=
  match side with
  | .left => new.reverse ++ entries
  | .right => entries ++ new

/-- An entry taken off an end. -/
def takeEnd : End → List Bytes → Option (Bytes × List Bytes)
  | .left, entries => entries.head?.map fun entry => (entry, entries.tail)
  | .right, entries => entries.getLast?.map fun entry => (entry, entries.dropLast)

def pushEdit (side : End) (new : List Bytes) : Edit :=
  editing Datum.entries (some (.list (pushedAt side [] new)), .number new.length) fun entries =>
    (some (.list (pushedAt side entries new)), .number (pushedAt side entries new).length)

def popEdit (side : End) : Edit :=
  editing Datum.entries (none, .nil) fun entries =>
    (takeEnd side entries).elim (some (.list entries), .nil) fun (entry, rest) =>
      (listOrGone rest, .text entry)

def llenEdit : Edit := reading Datum.entries (.number 0) fun entries => .number entries.length

/-- The entry at an index is the only one of the range from the index to itself. -/
def lindexEdit (index : Bytes) : Edit :=
  withNumber index fun index =>
    reading Datum.entries .nil fun entries => (slice entries index index).head?.elim .nil .text

def lsetEdit (index val : Bytes) : Edit :=
  withNumber index fun index =>
    editing Datum.entries (none, .nil) fun entries =>
      if slice entries index index = [] then (some (.list entries), .nil)
      else (some (.list (entries.set (normalize entries.length index).toNat val)), .text val)

def lrangeEdit (first last : Bytes) : Edit :=
  withNumber first fun first => withNumber last fun last =>
    reading Datum.entries (.array []) fun entries => .array ((slice entries first last).map some)

def ltrimEdit (first last : Bytes) : Edit :=
  withNumber first fun first => withNumber last fun last =>
    editing Datum.entries (none, .ok) fun entries => (listOrGone (slice entries first last), .ok)

/-- The entries without the first occurrences of a value, with a bound on their number. -/
def dropFirst (val : Bytes) : Nat → List Bytes → List Bytes
  | 0, entries => entries
  | _ + 1, [] => []
  | count + 1, entry :: rest =>
      if entry = val then dropFirst val count rest else entry :: dropFirst val (count + 1) rest

/-- Occurrences are removed from the front, everywhere, or from the back. -/
def removeEqual (count : Int) (val : Bytes) (entries : List Bytes) : List Bytes :=
  if count = llongMin then entries
  else if count < 0 then (dropFirst val count.natAbs entries.reverse).reverse
  else if count = 0 then entries.filter fun entry => entry ≠ val
  else dropFirst val count.natAbs entries

def lremEdit (count val : Bytes) : Edit :=
  withNumber count fun count =>
    editing Datum.entries (none, .number 0) fun entries =>
      (listOrGone (removeEqual count val entries),
        .number (entries.length - (removeEqual count val entries).length))

/-- A value before or after the first occurrence of the pivot. -/
def insertFirst (after : Bool) (pivot val : Bytes) : List Bytes → Option (List Bytes)
  | [] => none
  | entry :: rest =>
      if entry = pivot then some (if after then entry :: val :: rest else val :: entry :: rest)
      else (insertFirst after pivot val rest).map (entry :: ·)

def linsertEdit (place pivot val : Bytes) : Edit :=
  (direction place).elim (fun value => (value, .error invSynx)) fun after =>
    editing Datum.entries (none, .number 0) fun entries =>
      (insertFirst after pivot val entries).elim (some (.list entries), .number (-1))
        fun entries => (some (.list entries), .number entries.length)

/-! ### Hashes -/

def hsetEdit (field val : Bytes) : Edit :=
  editing Datum.fields (some (.hash (Finmap.insert field val ∅)), .number 1) fun fields =>
    (some (.hash (fields.insert field val)), .number (if field ∈ fields then 0 else 1))

def hsetnxEdit (field val : Bytes) : Edit :=
  editing Datum.fields (some (.hash (Finmap.insert field val ∅)), .number 1) fun fields =>
    if field ∈ fields then (some (.hash fields), .number 0)
    else (some (.hash (fields.insert field val)), .ok)

def hmsetEdit (pairs : List Bytes) : Edit :=
  editing Datum.fields (some (.hash (insertPairs ∅ pairs)), .ok) fun fields =>
    (some (.hash (insertPairs fields pairs)), .ok)

def hgetEdit (field : Bytes) : Edit :=
  reading Datum.fields .nil fun fields => (fields.lookup field).elim .nil .text

def hmgetEdit (wanted : List Bytes) : Edit :=
  reading Datum.fields (.array (wanted.map fun _ => none)) fun fields =>
    .array (wanted.map fun field => fields.lookup field)

def hdelEdit (gone : List Bytes) : Edit :=
  editing Datum.fields (none, .number 0) fun fields =>
    (hashOrGone (eraseFields fields gone), .number (gone.toFinset ∩ fields.keys).card)

def hexistsEdit (field : Bytes) : Edit :=
  reading Datum.fields (.number 0) fun fields => .number (if field ∈ fields then 1 else 0)

def hlenEdit : Edit := reading Datum.fields (.number 0) fun fields => .number fields.keys.card

/-! ### Sets -/

def saddEdit (new : List Bytes) : Edit :=
  editing Datum.members (some (.set new.toFinset), .number new.toFinset.card) fun members =>
    (some (.set (members ∪ new.toFinset)), .number (new.toFinset \ members).card)

def sremEdit (gone : List Bytes) : Edit :=
  editing Datum.members (none, .number 0) fun members =>
    (setOrGone (members \ gone.toFinset), .number (gone.toFinset ∩ members).card)

def scardEdit : Edit := reading Datum.members (.number 0) fun members => .number members.card

def sismemberEdit (member : Bytes) : Edit :=
  reading Datum.members (.number 0) fun members => .number (if member ∈ members then 1 else 0)

/-! ### Commands -/

/-- What a command comes to: the next ledger and what the client is told, or the end of the
server. -/
inductive Outcome where
  | goesOn (ledger : Ledger) (told : Told)
  | stops

/-- A command as a function of a ledger and the arguments. -/
abbrev Meaning := Ledger → List Bytes → Outcome

/-- The answer to a wrong number of arguments. -/
def refuse (ledger : Ledger) : Outcome := .goesOn ledger (.error numArgs)

/-- A command on one key. -/
def Ledger.edit (ledger : Ledger) (key : Bytes) (edit : Edit) : Outcome :=
  .goesOn (Function.update ledger key (edit (ledger key)).1) (edit (ledger key)).2

/-- A command whose only argument is the key. -/
def onKey (edit : Edit) : Meaning
  | ledger, [key] => ledger.edit key edit
  | ledger, _ => refuse ledger

def onKeyAnd (edit : Bytes → Edit) : Meaning
  | ledger, [key, arg] => ledger.edit key (edit arg)
  | ledger, _ => refuse ledger

def onKeyAndTwo (edit : Bytes → Bytes → Edit) : Meaning
  | ledger, [key, first, second] => ledger.edit key (edit first second)
  | ledger, _ => refuse ledger

def onKeyAndThree (edit : Bytes → Bytes → Bytes → Edit) : Meaning
  | ledger, [key, first, second, third] => ledger.edit key (edit first second third)
  | ledger, _ => refuse ledger

/-- A command with any number of arguments behind the key. -/
def onKeyAndSome (edit : List Bytes → Edit) : Meaning
  | ledger, key :: first :: rest => ledger.edit key (edit (first :: rest))
  | ledger, _ => refuse ledger

/-- A command with pairs of arguments behind the key. -/
def onKeyAndPairs (edit : List Bytes → Edit) : Meaning
  | ledger, key :: first :: second :: rest =>
      if rest.length % 2 = 0 then ledger.edit key (edit (first :: second :: rest))
      else refuse ledger
  | ledger, _ => refuse ledger

def existsEdit : Edit := fun value => (value, .number (if value.isSome then 1 else 0))

def typeEdit : Edit := fun value => (value, .type (datumType value))

/-- Every key that is named goes, and those that were there count once. -/
def delMeaning : Meaning
  | ledger, first :: rest =>
      .goesOn (fun key => if key ∈ (first :: rest).toFinset then none else ledger key)
        (.number ((first :: rest).toFinset.filter fun key => (ledger key).isSome).card)
  | ledger, [] => refuse ledger

/-- The value moves to the new key, whatever that held. -/
def renameMeaning : Meaning
  | ledger, [key, newKey] =>
      match ledger key with
      | none => .goesOn ledger (.error noKey)
      | some datum =>
          .goesOn (Function.update (Function.update ledger key none) newKey (some datum)) .ok
  | ledger, _ => refuse ledger

/-- A key that holds no string counts as absent. -/
def mgetMeaning : Meaning
  | ledger, first :: rest =>
      .goesOn ledger (.array ((first :: rest).map fun key => (ledger key).bind Datum.text))
  | ledger, [] => refuse ledger

/-- Pairs of a key and a string, one after the other. -/
def Ledger.setPairs : Ledger → List Bytes → Ledger
  | ledger, key :: val :: rest =>
      Ledger.setPairs (Function.update ledger key (some (.string val))) rest
  | ledger, _ => ledger

/-- Whether one of the keys of the pairs is there. -/
def Ledger.holdsAny (ledger : Ledger) : List Bytes → Bool
  | key :: _ :: rest => (ledger key).isSome || ledger.holdsAny rest
  | _ => false

/-- Nothing is set if one of the keys is there. -/
def msetnxMeaning : Meaning := fun ledger args =>
  if args.length < 2 ∨ args.length % 2 ≠ 0 then refuse ledger
  else if ledger.holdsAny args then .goesOn ledger (.number 0)
  else .goesOn (ledger.setPairs args) (.number 1)

/-- The entry is out of the first list and the first argument freed before the second key is looked
at; a refusal frees that argument again. -/
def rpoplpushMeaning : Meaning
  | ledger, [src, dst] =>
      match ledger src with
      | none => .goesOn ledger .nil
      | some (.list entries) =>
          match takeEnd .right entries with
          | none => .goesOn ledger .nil
          | some (entry, rest) =>
              match Function.update ledger src (listOrGone rest) dst with
              | none =>
                  .goesOn (Function.update (Function.update ledger src (listOrGone rest)) dst
                    (some (.list [entry]))) (.text entry)
              | some (.list target) =>
                  .goesOn (Function.update (Function.update ledger src (listOrGone rest)) dst
                    (some (.list (entry :: target)))) (.text entry)
              | some _ => .stops
      | some _ => .goesOn ledger (.error wrongType)
  | ledger, _ => refuse ledger

/-- What the commands mean that the ledger accounts for. -/
def CommandFunc.meaning : CommandFunc → Option Meaning
  | .del => some delMeaning
  | .exists => some (onKey existsEdit)
  | .rename => some renameMeaning
  | .type => some (onKey typeEdit)
  | .mget => some mgetMeaning
  | .getrange => some (onKeyAndTwo getrangeEdit)
  | .incr => some (onKey (incrbyEdit (bytes "1")))
  | .incrby => some (onKeyAnd incrbyEdit)
  | .msetnx => some msetnxMeaning
  | .get => some (onKey getEdit)
  | .set => some (onKeyAnd setEdit)
  | .setnx => some (onKeyAnd setnxEdit)
  | .strlen => some (onKey strlenEdit)
  | .hdel => some (onKeyAndSome hdelEdit)
  | .hlen => some (onKey hlenEdit)
  | .hexists => some (onKeyAnd hexistsEdit)
  | .hmget => some (onKeyAndSome hmgetEdit)
  | .hget => some (onKeyAnd hgetEdit)
  | .hmset => some (onKeyAndPairs hmsetEdit)
  | .hset => some (onKeyAndTwo hsetEdit)
  | .hsetnx => some (onKeyAndTwo hsetnxEdit)
  | .lrange => some (onKeyAndTwo lrangeEdit)
  | .lrem => some (onKeyAndTwo lremEdit)
  | .lset => some (onKeyAndTwo lsetEdit)
  | .lindex => some (onKeyAnd lindexEdit)
  | .ltrim => some (onKeyAndTwo ltrimEdit)
  | .linsert => some (onKeyAndThree linsertEdit)
  | .rpop => some (onKey (popEdit .right))
  | .llen => some (onKey llenEdit)
  | .rpoplpush => some rpoplpushMeaning
  | .lpop => some (onKey (popEdit .left))
  | .rpush => some (onKeyAndSome (pushEdit .right))
  | .lpush => some (onKeyAndSome (pushEdit .left))
  | .rpushx => some (onKeyAndSome (pushEdit .right))
  | .lpushx => some (onKeyAndSome (pushEdit .left))
  | .sadd => some (onKeyAndSome saddEdit)
  | .scard => some (onKey scardEdit)
  | .srem => some (onKeyAndSome sremEdit)
  | .sismember => some (onKeyAnd sismemberEdit)
  | _ => none

/-! ### Outcomes by their shape -/

section Shapes

variable {P : Outcome → Prop} {ledger : Ledger} {args : List Bytes}

/-- A command with a key alone edits it or refuses its arguments, and so do the others. -/
theorem onKey_cases {edit : Edit} (refused : P (refuse ledger))
    (edited : ∀ key, P (ledger.edit key edit)) : P (onKey edit ledger args) := by
  unfold onKey
  split
  · exact edited _
  · exact refused

theorem onKeyAnd_cases {edit : Bytes → Edit} (refused : P (refuse ledger))
    (edited : ∀ key arg, P (ledger.edit key (edit arg))) : P (onKeyAnd edit ledger args) := by
  unfold onKeyAnd
  split
  · exact edited _ _
  · exact refused

theorem onKeyAndTwo_cases {edit : Bytes → Bytes → Edit} (refused : P (refuse ledger))
    (edited : ∀ key first second, P (ledger.edit key (edit first second))) :
    P (onKeyAndTwo edit ledger args) := by
  unfold onKeyAndTwo
  split
  · exact edited _ _ _
  · exact refused

theorem onKeyAndThree_cases {edit : Bytes → Bytes → Bytes → Edit} (refused : P (refuse ledger))
    (edited : ∀ key first second third, P (ledger.edit key (edit first second third))) :
    P (onKeyAndThree edit ledger args) := by
  unfold onKeyAndThree
  split
  · exact edited _ _ _ _
  · exact refused

theorem onKeyAndSome_cases {edit : List Bytes → Edit} (refused : P (refuse ledger))
    (edited : ∀ key others, P (ledger.edit key (edit others))) :
    P (onKeyAndSome edit ledger args) := by
  unfold onKeyAndSome
  split
  · exact edited _ _
  · exact refused

theorem onKeyAndPairs_cases {edit : List Bytes → Edit} (refused : P (refuse ledger))
    (edited : ∀ key others, P (ledger.edit key (edit others))) :
    P (onKeyAndPairs edit ledger args) := by
  unfold onKeyAndPairs
  split
  · split
    · exact edited _ _
    · exact refused
  · exact refused

end Shapes

/-! ### Where the server stops -/

/-- `RPOPLPUSH` has no outcome exactly if it moves an entry to a key that holds no list. -/
theorem rpoplpushMeaning_stops_iff {ledger : Ledger} {args : List Bytes} :
    rpoplpushMeaning ledger args = .stops ↔
      ∃ src dst entries entry rest datum, args = [src, dst] ∧
        ledger src = some (.list entries) ∧ takeEnd .right entries = some (entry, rest) ∧
        Function.update ledger src (listOrGone rest) dst = some datum ∧
        ∀ target, datum ≠ .list target := by
  unfold rpoplpushMeaning
  constructor
  · intro stops
    split at stops
    · rename_i src dst
      split at stops
      · cases stops
      · rename_i entries held
        split at stops
        · cases stops
        · rename_i entry rest popped
          split at stops
          · cases stops
          · cases stops
          · rename_i datum other found
            exact ⟨src, dst, entries, entry, rest, datum, rfl, held, popped, found,
              fun target same => other target same⟩
      · cases stops
    · cases stops
  · rintro ⟨src, dst, entries, entry, rest, datum, rfl, held, popped, found, other⟩
    simp only [held, popped, found]

/-- No other command of the ledger stops the server. -/
theorem CommandFunc.meaning_ne_stops {func : CommandFunc} {meaning : Meaning}
    (meant : func.meaning = some meaning) (other : func ≠ .rpoplpush) (ledger : Ledger)
    (args : List Bytes) : meaning ledger args ≠ .stops := by
  cases func <;> cases meant
  case rpoplpush => exact absurd rfl other
  case del =>
    unfold delMeaning
    split <;> exact nofun
  case rename =>
    unfold renameMeaning
    split
    · split <;> exact nofun
    · exact nofun
  case mget =>
    unfold mgetMeaning
    split <;> exact nofun
  case msetnx =>
    rw [msetnxMeaning]
    split
    · exact nofun
    · split <;> exact nofun
  case linsert => exact onKeyAndThree_cases (P := (· ≠ .stops)) nofun fun _ _ _ _ => nofun
  case hmset => exact onKeyAndPairs_cases (P := (· ≠ .stops)) nofun fun _ _ => nofun
  case «exists» | type | incr | get | strlen | hlen | rpop | llen | lpop | scard =>
    exact onKey_cases (P := (· ≠ .stops)) nofun fun _ => nofun
  case incrby | set | setnx | hexists | hget | lindex | sismember =>
    exact onKeyAnd_cases (P := (· ≠ .stops)) nofun fun _ _ => nofun
  case getrange | hset | hsetnx | lrange | lrem | lset | ltrim =>
    exact onKeyAndTwo_cases (P := (· ≠ .stops)) nofun fun _ _ _ => nofun
  case hdel | hmget | rpush | lpush | rpushx | lpushx | sadd | srem =>
    exact onKeyAndSome_cases (P := (· ≠ .stops)) nofun fun _ _ => nofun

end PseudoRedis

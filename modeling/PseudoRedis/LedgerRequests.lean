/-
This file follows every command of the ledger on any arguments, and every request that
names one. A command on one key reads its arguments by their number; the shapes are gone
through once, and each command says what it does on the arguments it accepts and that it
refuses the others.
-/

import PseudoRedis.LedgerHashes
import PseudoRedis.LedgerKeys

namespace PseudoRedis

variable {func : CommandFunc} {env : Env} {dict : Dict Obj} {ledger : Ledger} {args : List Bss}

/-! ### The shapes of commands on one key -/

/-- A refusal of this number of arguments. -/
def Declines (func : CommandFunc) (env : Env) (dict : Dict Obj) (args : List Bss) : Prop :=
  func.run env dict args = failReply dict numArgs

/-- What a command does with the value of a key, given other arguments. -/
def Performs (func : CommandFunc) (env : Env) (dict : Dict Obj) (others : List Bss) (edit : Edit) :
    Prop :=
  ∀ key value, key.Short → Known dict key value → (∀ arg ∈ others, arg.Given) →
    Realises (func.run env dict (key :: others)) key (edit value)

/-- The commands on one key follow an edit of it once their handlers perform it. -/
theorem Admitted.performs {key : Bss} {others : List Bss} {edit : Edit}
    (admitted : Admitted func env dict ledger (key :: others))
    (single : ∀ args, func.named args = args.take 1)
    (performs : Performs func env dict others edit) :
    Follows (func.run env dict (key :: others)) (ledger.edit key.content edit) := by
  have short := (admitted.given key List.mem_cons_self).short
  exact admitted.edits (single (key :: others)) (performs key _ short
    (admitted.keeps.holds key short) fun arg member => admitted.given arg
      (List.mem_cons_of_mem key member))

/-- A command that is given a key alone. -/
theorem Admitted.onKey (admitted : Admitted func env dict ledger args)
    (single : ∀ args, func.named args = args.take 1) {edit : Edit}
    (performs : Performs func env dict [] edit) (fewer : Declines func env dict [])
    (more : ∀ first second rest, Declines func env dict (first :: second :: rest)) :
    Follows (func.run env dict args) (PseudoRedis.onKey edit ledger (args.map Bss.content)) := by
  rcases args with _ | ⟨key, _ | ⟨second, rest⟩⟩
  · exact admitted.refuses fewer
  · exact admitted.performs single performs
  · exact admitted.refuses (more key second rest)

/-- A command that is given a key and one more argument. -/
theorem Admitted.onKeyAnd (admitted : Admitted func env dict ledger args)
    (single : ∀ args, func.named args = args.take 1) {edit : Bytes → Edit}
    (performs : ∀ (arg key : Bss) value, key.Short → Known dict key value → arg.Given →
      Realises (func.run env dict [key, arg]) key (edit arg.content value))
    (none : Declines func env dict []) (one : ∀ first, Declines func env dict [first])
    (more : ∀ first second third rest, Declines func env dict (first :: second :: third :: rest)) :
    Follows (func.run env dict args) (PseudoRedis.onKeyAnd edit ledger (args.map Bss.content)) := by
  rcases args with _ | ⟨key, _ | ⟨arg, _ | ⟨third, rest⟩⟩⟩
  · exact admitted.refuses none
  · exact admitted.refuses (one key)
  · exact admitted.performs single fun key value short known given =>
      performs arg key value short known (given arg List.mem_cons_self)
  · exact admitted.refuses (more key arg third rest)

/-- A command that is given a key and two more arguments. -/
theorem Admitted.onKeyAndTwo (admitted : Admitted func env dict ledger args)
    (single : ∀ args, func.named args = args.take 1) {edit : Bytes → Bytes → Edit}
    (performs : ∀ (arg second key : Bss) value, key.Short → Known dict key value → arg.Given →
      second.Given → Realises (func.run env dict [key, arg, second]) key
        (edit arg.content second.content value))
    (none : Declines func env dict []) (one : ∀ first, Declines func env dict [first])
    (two : ∀ first second, Declines func env dict [first, second])
    (more : ∀ first second third fourth rest,
      Declines func env dict (first :: second :: third :: fourth :: rest)) :
    Follows (func.run env dict args)
      (PseudoRedis.onKeyAndTwo edit ledger (args.map Bss.content)) := by
  rcases args with _ | ⟨key, _ | ⟨arg, _ | ⟨second, _ | ⟨fourth, rest⟩⟩⟩⟩
  · exact admitted.refuses none
  · exact admitted.refuses (one key)
  · exact admitted.refuses (two key arg)
  · exact admitted.performs single fun key value short known given =>
      performs arg second key value short known (given arg List.mem_cons_self)
        (given second (List.mem_cons_of_mem _ List.mem_cons_self))
  · exact admitted.refuses (more key arg second fourth rest)

/-- A command that is given a key and at least one more argument. -/
theorem Admitted.onKeyAndSome (admitted : Admitted func env dict ledger args)
    (single : ∀ args, func.named args = args.take 1) {edit : List Bytes → Edit}
    (performs : ∀ others : List Bss, others ≠ [] →
      Performs func env dict others (edit (others.map Bss.content)))
    (none : Declines func env dict []) (one : ∀ first, Declines func env dict [first]) :
    Follows (func.run env dict args)
      (PseudoRedis.onKeyAndSome edit ledger (args.map Bss.content)) := by
  rcases args with _ | ⟨key, _ | ⟨first, rest⟩⟩
  · exact admitted.refuses none
  · exact admitted.refuses (one key)
  · exact admitted.performs single (performs (first :: rest) (List.cons_ne_nil _ _))

/-! ### Single commands -/

/-- `LINSERT` is the only command on one key with four arguments. -/
theorem linsertCommand_follows (admitted : Admitted .linsert env dict ledger args) :
    Follows (linsertCommand dict args)
      (onKeyAndThree linsertEdit ledger (args.map Bss.content)) := by
  rcases args with _ | ⟨key, _ | ⟨place, _ | ⟨pivot, _ | ⟨val, _ | ⟨fifth, rest⟩⟩⟩⟩⟩
  · exact admitted.refuses rfl
  · exact admitted.refuses rfl
  · exact admitted.refuses rfl
  · exact admitted.refuses rfl
  · refine admitted.performs (fun _ => rfl) fun key value _ known given => ?_
    exact linsertCommand_realises admitted.keeps.toTidy known (given place List.mem_cons_self)
      (given pivot (List.mem_cons_of_mem _ List.mem_cons_self))
      (given val (List.mem_cons_of_mem _ (List.mem_cons_of_mem _ List.mem_cons_self)))
  · exact admitted.refuses rfl

/-- `HMSET` counts its arguments: a field without a value is refused before the key is looked up. -/
theorem hmsetCommand_follows (admitted : Admitted .hmset env dict ledger args) :
    Follows (hmsetCommand dict args) (onKeyAndPairs hmsetEdit ledger (args.map Bss.content)) := by
  rcases args with _ | ⟨key, _ | ⟨first, _ | ⟨second, rest⟩⟩⟩
  · exact admitted.refuses rfl
  · exact admitted.refuses rfl
  · exact admitted.refuses rfl
  · rw [List.map_cons, List.map_cons, List.map_cons, onKeyAndPairs, List.length_map]
    by_cases even : rest.length % 2 = 0
    · rw [if_pos even]
      refine admitted.performs (fun _ => rfl) fun key value _ known given => ?_
      refine hmsetCommand_realises admitted.keeps.toTidy known ?_ ?_ given
      · rw [List.length_cons, List.length_cons]
        omega
      · rw [List.length_cons, List.length_cons]
        omega
    · rw [if_neg even]
      refine admitted.refuses (if_pos (Or.inr ?_))
      rw [List.length_cons, List.length_cons, List.length_cons]
      omega

theorem delCommand_any (admitted : Admitted .del env dict ledger args) :
    Follows (delCommand dict args) (delMeaning ledger (args.map Bss.content)) := by
  cases args with
  | nil => exact admitted.refuses rfl
  | cons first rest => exact delCommand_follows (List.cons_ne_nil _ _) admitted

theorem mgetCommand_any (admitted : Admitted .mget env dict ledger args) :
    Follows (mgetCommand env dict args) (mgetMeaning ledger (args.map Bss.content)) := by
  cases args with
  | nil => exact admitted.refuses rfl
  | cons first rest => exact mgetCommand_follows (List.cons_ne_nil _ _) admitted

theorem renameCommand_any (admitted : Admitted .rename env dict ledger args) :
    Follows (renameCommand dict args) (renameMeaning ledger (args.map Bss.content)) := by
  rcases args with _ | ⟨key, _ | ⟨newKey, _ | ⟨third, rest⟩⟩⟩
  · exact admitted.refuses rfl
  · exact admitted.refuses rfl
  · exact renameCommand_follows admitted
  · exact admitted.refuses rfl

/-- `RPOPLPUSH` of two keys; the server can stop here. -/
theorem rpoplpushCommand_any (admitted : Admitted .rpoplpush env dict ledger args) :
    Follows (rpoplpushCommand dict args) (rpoplpushMeaning ledger (args.map Bss.content)) := by
  rcases args with _ | ⟨src, _ | ⟨dst, _ | ⟨third, rest⟩⟩⟩
  · exact admitted.refuses rfl
  · exact admitted.refuses rfl
  · exact rpoplpushCommand_follows admitted
  · exact admitted.refuses rfl

/-! ### Every command -/

/-- Every command of the ledger does what its meaning says, whatever arguments it is given. -/
theorem CommandFunc.follows {meaning : Meaning} (meant : func.meaning = some meaning)
    (admitted : Admitted func env dict ledger args) :
    Follows (func.run env dict args) (meaning ledger (args.map Bss.content)) := by
  have tidy := admitted.keeps.toTidy
  cases func <;> cases meant
  case del => exact delCommand_any admitted
  case rename => exact renameCommand_any admitted
  case mget => exact mgetCommand_any admitted
  case msetnx => exact msetnxCommand_follows admitted
  case rpoplpush => exact rpoplpushCommand_any admitted
  case linsert => exact linsertCommand_follows admitted
  case hmset => exact hmsetCommand_follows admitted
  case «exists» =>
    exact admitted.onKey (fun _ => rfl) (fun _ _ _ known _ => existsCommand_realises known) rfl
      fun _ _ _ => rfl
  case type =>
    exact admitted.onKey (fun _ => rfl) (fun _ _ _ known _ => typeCommand_realises known) rfl
      fun _ _ _ => rfl
  case incr =>
    exact admitted.onKey (fun _ => rfl) (fun _ _ _ known _ => incrCommand_realises tidy known) rfl
      fun _ _ _ => rfl
  case get =>
    exact admitted.onKey (fun _ => rfl) (fun _ _ _ known _ => getCommand_realises known) rfl
      fun _ _ _ => rfl
  case strlen =>
    exact admitted.onKey (fun _ => rfl) (fun _ _ _ known _ => strlenCommand_realises known) rfl
      fun _ _ _ => rfl
  case hlen =>
    exact admitted.onKey (fun _ => rfl) (fun _ _ _ known _ => hlenCommand_realises known) rfl
      fun _ _ _ => rfl
  case llen =>
    exact admitted.onKey (fun _ => rfl) (fun _ _ _ known _ => llenCommand_realises known) rfl
      fun _ _ _ => rfl
  case scard =>
    exact admitted.onKey (fun _ => rfl) (fun _ _ _ known _ => scardCommand_realises known) rfl
      fun _ _ _ => rfl
  case rpop =>
    exact admitted.onKey (fun _ => rfl)
      (fun _ _ short known _ => lpoprpopCommand_realises .right tidy short known) rfl
      fun _ _ _ => rfl
  case lpop =>
    exact admitted.onKey (fun _ => rfl)
      (fun _ _ short known _ => lpoprpopCommand_realises .left tidy short known) rfl
      fun _ _ _ => rfl
  case incrby =>
    exact admitted.onKeyAnd (fun _ => rfl)
      (fun _ _ _ _ known given => incrbyCommand_realises tidy known given) rfl (fun _ => rfl)
      fun _ _ _ _ => rfl
  case set =>
    exact admitted.onKeyAnd (fun _ => rfl)
      (fun _ _ _ _ _ given => setCommand_realises tidy given) rfl (fun _ => rfl)
      fun _ _ _ _ => rfl
  case setnx =>
    exact admitted.onKeyAnd (fun _ => rfl)
      (fun _ _ _ _ known given => setnxCommand_realises tidy known given) rfl (fun _ => rfl)
      fun _ _ _ _ => rfl
  case hexists =>
    exact admitted.onKeyAnd (fun _ => rfl)
      (fun _ _ _ _ known given => hexistsCommand_realises known given) rfl (fun _ => rfl)
      fun _ _ _ _ => rfl
  case hget =>
    exact admitted.onKeyAnd (fun _ => rfl)
      (fun _ _ _ _ known given => hgetCommand_realises known given) rfl (fun _ => rfl)
      fun _ _ _ _ => rfl
  case lindex =>
    exact admitted.onKeyAnd (fun _ => rfl)
      (fun _ _ _ _ known given => lindexCommand_realises tidy known given) rfl (fun _ => rfl)
      fun _ _ _ _ => rfl
  case sismember =>
    exact admitted.onKeyAnd (fun _ => rfl)
      (fun _ _ _ _ known given => sismemberCommand_realises known given) rfl (fun _ => rfl)
      fun _ _ _ _ => rfl
  case getrange =>
    exact admitted.onKeyAndTwo (fun _ => rfl)
      (fun _ _ _ _ _ known first second => getrangeCommand_realises known first second)
      rfl (fun _ => rfl) (fun _ _ => rfl) fun _ _ _ _ _ => rfl
  case hset =>
    exact admitted.onKeyAndTwo (fun _ => rfl)
      (fun _ _ _ _ _ known first second => hsetCommand_realises tidy known first second)
      rfl (fun _ => rfl) (fun _ _ => rfl) fun _ _ _ _ _ => rfl
  case hsetnx =>
    exact admitted.onKeyAndTwo (fun _ => rfl)
      (fun _ _ _ _ _ known first second => hsetnxCommand_realises tidy known first second)
      rfl (fun _ => rfl) (fun _ _ => rfl) fun _ _ _ _ _ => rfl
  case lrange =>
    exact admitted.onKeyAndTwo (fun _ => rfl)
      (fun _ _ _ _ _ known first second => lrangeCommand_realises tidy known first second)
      rfl (fun _ => rfl) (fun _ _ => rfl) fun _ _ _ _ _ => rfl
  case lrem =>
    exact admitted.onKeyAndTwo (fun _ => rfl)
      (fun _ _ _ _ short known first second => lremCommand_realises tidy short known first second)
      rfl (fun _ => rfl) (fun _ _ => rfl) fun _ _ _ _ _ => rfl
  case lset =>
    exact admitted.onKeyAndTwo (fun _ => rfl)
      (fun _ _ _ _ _ known first second => lsetCommand_realises tidy known first second)
      rfl (fun _ => rfl) (fun _ _ => rfl) fun _ _ _ _ _ => rfl
  case ltrim =>
    exact admitted.onKeyAndTwo (fun _ => rfl)
      (fun _ _ _ _ short known first second => ltrimCommand_realises tidy short known first second)
      rfl (fun _ => rfl) (fun _ _ => rfl) fun _ _ _ _ _ => rfl
  case hdel =>
    exact admitted.onKeyAndSome (fun _ => rfl) (fun others filled key value short known given =>
      hdelCommand_realises tidy short known filled given) rfl fun _ => rfl
  case hmget =>
    exact admitted.onKeyAndSome (fun _ => rfl) (fun others filled key value short known given =>
      hmgetCommand_realises known filled given) rfl fun _ => rfl
  case rpush =>
    exact admitted.onKeyAndSome (fun _ => rfl) (fun others filled key value short known given =>
      lpushrpushCommand_realises .right tidy known filled given) rfl fun _ => rfl
  case lpush =>
    exact admitted.onKeyAndSome (fun _ => rfl) (fun others filled key value short known given =>
      lpushrpushCommand_realises .left tidy known filled given) rfl fun _ => rfl
  case rpushx =>
    exact admitted.onKeyAndSome (fun _ => rfl) (fun others filled key value short known given =>
      lpushrpushCommand_realises .right tidy known filled given) rfl fun _ => rfl
  case lpushx =>
    exact admitted.onKeyAndSome (fun _ => rfl) (fun others filled key value short known given =>
      lpushrpushCommand_realises .left tidy known filled given) rfl fun _ => rfl
  case sadd =>
    exact admitted.onKeyAndSome (fun _ => rfl) (fun others filled key value short known given =>
      saddCommand_realises tidy known filled given) rfl fun _ => rfl
  case srem =>
    exact admitted.onKeyAndSome (fun _ => rfl) (fun others filled key value short known given =>
      sremCommand_realises tidy short known filled given) rfl fun _ => rfl

end PseudoRedis

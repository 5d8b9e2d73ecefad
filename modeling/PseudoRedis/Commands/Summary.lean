/-
This file puts the effects of all handlers together. Three functions of a handler and
its inputs say what the effect depends on: whether it empties a container without
removing its key, whether it edits the key space before it fails, and which array it
lists. With these, `CommandFunc.does` is the one statement about commands that the
results on the server use.
-/

import PseudoRedis.Commands.SetEffects
import PseudoRedis.Commands.Table

namespace PseudoRedis

/-- The command leaves a list, a hash or a set without elements under its key. -/
def CommandFunc.Empties (env : Env) (dict : Dict Obj) (args : List Bss) : CommandFunc → Prop
  | .hincrby => leavesHash invalidInt dict args
  | .hincrbyfloat => leavesHash (invalidFloat env) dict args
  | .blpop | .brpop => leavesList dict args
  | .smove => emptiesSource dict args
  | .spop => emptiesSet dict args
  | _ => False

/-- The command edits the key space and then fails. -/
def CommandFunc.Leaks (env : Env) (dict : Dict Obj) (args : List Bss) : CommandFunc → Prop
  | .hincrby => leavesHash invalidInt dict args
  | .hincrbyfloat => leavesHash (invalidFloat env) dict args
  | .rpoplpush => losesArgs dict args
  | .brpoplpush => losesArgs dict args ∨ env.fallOff 0 = eTooLong
  | _ => False

/-- The array the command encodes or leaves to be encoded, with the type of its reply. -/
def CommandFunc.listing (env : Env) (dict : Dict Obj) (args : List Bss) :
    CommandFunc → Option Listing
  | .keys => keysListing env dict args
  | .mget => mgetListing dict args
  | .hmget => hmgetListing dict args
  | .hgetall => hgetallListing env dict args
  | .hkeys => membersListing Kind.hash dict args
  | .hvals => hvalsListing dict args
  | .blpop => blpopbrpopListing .left dict args
  | .brpop => blpopbrpopListing .right dict args
  | .brpoplpush => brpoplpushListing env dict args
  | .lrange => lrangeListing dict args
  | .sdiff => sdiffListing dict args
  | .sunion => sunionListing dict args
  | .sinter => sinterListing dict args
  | .smembers => membersListing Kind.set dict args
  | .sscan => sscanListing env dict args
  | _ => none

variable {env : Env} {E L : Prop} {dict : Dict Obj} {args : List Bss}

theorem CommandFunc.does (func : CommandFunc) (sound : Sound E dict)
    (given : ∀ arg ∈ args, arg.Arg) (empties : func.Empties env dict args → E)
    (leaks : func.Leaks env dict args → L) :
    Does env E L dict (spent env args) (func.listing env dict args)
      (func.run env dict args) := by
  cases func with
  | del => exact delCommand_does sound args
  | «exists» => exact existsCommand_does sound args
  | randomkey => exact randomkeyCommand_does sound args
  | rename => exact renameCommand_does sound given
  | keys => exact keysCommand_does sound args
  | type => exact typeCommand_does sound args
  | append => exact appendCommand_does sound given
  | getbit => exact getbitCommand_does sound args
  | setbit => exact setbitCommand_does sound given
  | mget => exact mgetCommand_does sound args
  | bitcount => exact bitcountCommand_does sound args
  | setrange => exact setrangeCommand_does sound given
  | getrange => exact getrangeCommand_does sound args
  | incr => exact incrCommand_does sound given
  | decr => exact decrCommand_does sound given
  | incrby => exact incrby_does posOp sound given
  | decrby => exact incrby_does negOp sound given
  | msetnx => exact msetnxCommand_does sound given
  | get => exact getCommand_does sound args
  | set => exact setCommand_does sound given
  | strlen => exact strlenCommand_does sound args
  | hdel => exact hdelCommand_does sound args
  | hlen => exact hlenCommand_does sound args
  | hexists => exact hexistsCommand_does sound args
  | hmget => exact hmgetCommand_does sound args
  | hget => exact hgetCommand_does sound args
  | hmset => exact hmsetCommand_does sound given
  | hgetall => exact hgetallCommand_does sound args
  | hincrby => exact hincrbyCommand_does sound given fun leaves => ⟨empties leaves, leaks leaves⟩
  | hset => exact hsetCommand_does sound given
  | hincrbyfloat =>
    exact hincrbyfloatCommand_does sound given fun leaves => ⟨empties leaves, leaks leaves⟩
  | hsetnx => exact hsetnxCommand_does sound given
  | hkeys => exact hkeysCommand_does sound args
  | hvals => exact hvalsCommand_does sound args
  | blpop => exact blpopbrpopCommand_does .left sound empties
  | lrange => exact lrangeCommand_does sound args
  | brpop => exact blpopbrpopCommand_does .right sound empties
  | lrem => exact lremCommand_does sound args
  | brpoplpush =>
    exact brpoplpushCommand_does sound given (fun loses => leaks (Or.inl loses))
      fun falls => leaks (Or.inr falls)
  | lset => exact lsetCommand_does sound given
  | lindex => exact lindexCommand_does sound args
  | ltrim => exact ltrimCommand_does sound args
  | linsert => exact linsertCommand_does sound given
  | rpop => exact lpoprpopCommand_does .right sound args
  | llen => exact llenCommand_does sound args
  | rpoplpush => exact rpoplpushCommand_does sound given leaks
  | lpop => exact lpoprpopCommand_does .left sound args
  | rpush => exact lpushrpushCommand_does .right sound given
  | lpush => exact lpushrpushCommand_does .left sound given
  | rpushx => exact lpushrpushCommand_does .right sound given
  | lpushx => exact lpushrpushCommand_does .left sound given
  | sadd => exact saddCommand_does sound given
  | smove => exact smoveCommand_does sound given empties
  | scard => exact scardCommand_does sound args
  | spop => exact spopCommand_does sound empties
  | sdiff => exact sdiffCommand_does sound args
  | srandmember => exact srandmemberCommand_does sound args
  | srem => exact sremCommand_does sound args
  | sinter => exact sinterCommand_does sound args
  | sscan => exact sscanCommand_does sound args
  | sunion => exact sunionCommand_does sound args
  | sismember => exact sismemberCommand_does sound args
  | smembers => exact smembersCommand_does sound args
  | setnx => exact setnxCommand_does sound given
  | incrbyfloat => exact incrbyfloatCommand_does sound given

/-! ### Calls -/

/-- A call of a handler: the surroundings it runs in and arguments as `parse_args` makes them. -/
structure Call where
  env : Env
  func : CommandFunc
  args : List Bss
  given : ∀ arg ∈ args, arg.Arg

def Call.run (call : Call) (dict : Dict Obj) : Run Obj := call.func.run call.env dict call.args

def Call.Empties (call : Call) (dict : Dict Obj) : Prop :=
  call.func.Empties call.env dict call.args

def Call.Leaks (call : Call) (dict : Dict Obj) : Prop :=
  call.func.Leaks call.env dict call.args

def Call.listing (call : Call) (dict : Dict Obj) : Option Listing :=
  call.func.listing call.env dict call.args

theorem Call.does (call : Call) (sound : Sound E dict) (empties : call.Empties dict → E)
    (leaks : call.Leaks dict → L) :
    Does call.env E L dict (spent call.env call.args) (call.listing dict) (call.run dict) :=
  call.func.does sound call.given empties leaks

/-- The effect without the two conditions. -/
theorem Call.does_any (call : Call) (sound : Sound True dict) :
    Does call.env True True dict (spent call.env call.args) (call.listing dict)
      (call.run dict) :=
  call.does sound (fun _ => trivial) fun _ => trivial

/-- After a call the key space holds what it held, and allocations of the call. -/
theorem Call.change (call : Call) (sound : Sound True dict) {sh : Shared} {result : Result Obj}
    (ran : call.run dict sh = .ok result) :
    Change True dict (spent call.env call.args) result.dict := by
  obtain ⟨fill, answer, sh', effect, -, -⟩ := (call.does_any sound).result ran
  exact ⟨effect.sound, fun id => Nat.le_trans (Nat.le_add_right _ _) (effect.conserve id)⟩

end PseudoRedis

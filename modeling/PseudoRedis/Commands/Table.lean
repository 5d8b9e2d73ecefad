/-
This file embeds the command table of `server.c`: its entries in the order of the
source, each with its name, its handler and whether it blocks. The dispatcher looks at
the first `NUM_COMMANDS` entries, so the last two are never reached.
-/

import PseudoRedis.Commands.Sets

namespace PseudoRedis

/-- The functions the table points to. -/
inductive CommandFunc where
  | del | exists | randomkey | rename | keys | type | append | getbit | setbit | mget
  | bitcount | setrange | getrange | incr | decr | incrby | decrby | msetnx | get | set
  | strlen | hdel | hlen | hexists | hmget | hget | hmset | hgetall | hincrby | hset
  | hincrbyfloat | hsetnx | hkeys | hvals | blpop | lrange | brpop | lrem | brpoplpush
  | lset | lindex | ltrim | linsert | rpop | llen | rpoplpush | lpop | rpush | lpush
  | rpushx | lpushx | sadd | smove | scard | spop | sdiff | srandmember | srem | sinter
  | sscan | sunion | sismember | smembers | setnx | incrbyfloat
  deriving DecidableEq

/-- The handler a table entry points to, on the key space. -/
def CommandFunc.run (env : Env) (keyDict : Dict Obj) (args : List Bss) : CommandFunc → Run Obj
  | .del => delCommand keyDict args
  | .exists => existsCommand keyDict args
  | .randomkey => randomkeyCommand env keyDict args
  | .rename => renameCommand keyDict args
  | .keys => keysCommand env keyDict args
  | .type => typeCommand keyDict args
  | .append => appendCommand keyDict args
  | .getbit => getbitCommand keyDict args
  | .setbit => setbitCommand env keyDict args
  | .mget => mgetCommand env keyDict args
  | .bitcount => bitcountCommand keyDict args
  | .setrange => setrangeCommand env keyDict args
  | .getrange => getrangeCommand keyDict args
  | .incr => incrCommand env keyDict args
  | .decr => decrCommand env keyDict args
  | .incrby => incrbyCommand env keyDict args
  | .decrby => decrbyCommand env keyDict args
  | .msetnx => msetnxCommand keyDict args
  | .get => getCommand keyDict args
  | .set => setCommand keyDict args
  | .strlen => strlenCommand keyDict args
  | .hdel => hdelCommand keyDict args
  | .hlen => hlenCommand keyDict args
  | .hexists => hexistsCommand keyDict args
  | .hmget => hmgetCommand env keyDict args
  | .hget => hgetCommand keyDict args
  | .hmset => hmsetCommand keyDict args
  | .hgetall => hgetallCommand env keyDict args
  | .hincrby => hincrbyCommand env keyDict args
  | .hset => hsetCommand keyDict args
  | .hincrbyfloat => hincrbyfloatCommand env keyDict args
  | .hsetnx => hsetnxCommand keyDict args
  | .hkeys => hkeysCommand env keyDict args
  | .hvals => hvalsCommand env keyDict args
  | .blpop => blpopCommand keyDict args
  | .lrange => lrangeCommand env keyDict args
  | .brpop => brpopCommand keyDict args
  | .lrem => lremCommand keyDict args
  | .brpoplpush => brpoplpushCommand env keyDict args
  | .lset => lsetCommand keyDict args
  | .lindex => lindexCommand keyDict args
  | .ltrim => ltrimCommand keyDict args
  | .linsert => linsertCommand keyDict args
  | .rpop => rpopCommand keyDict args
  | .llen => llenCommand keyDict args
  | .rpoplpush => rpoplpushCommand keyDict args
  | .lpop => lpopCommand keyDict args
  | .rpush => rpushCommand keyDict args
  | .lpush => lpushCommand keyDict args
  | .rpushx => rpushxCommand keyDict args
  | .lpushx => lpushxCommand keyDict args
  | .sadd => saddCommand keyDict args
  | .smove => smoveCommand keyDict args
  | .scard => scardCommand keyDict args
  | .spop => spopCommand env keyDict args
  | .sdiff => sdiffCommand env keyDict args
  | .srandmember => srandmemberCommand env keyDict args
  | .srem => sremCommand keyDict args
  | .sinter => sinterCommand env keyDict args
  | .sscan => sscanCommand env keyDict args
  | .sunion => sunionCommand env keyDict args
  | .sismember => sismemberCommand keyDict args
  | .smembers => smembersCommand env keyDict args
  | .setnx => setnxCommand keyDict args
  | .incrbyfloat => incrbyfloatCommand env keyDict args

/-! ### The table -/

def notBlocked : UInt8 := 0
def blocked : UInt8 := 1

structure Command where
  name : String
  func : CommandFunc
  type : UInt8

def numCommands : Nat := 63

/-- The initial size of the key dictionary. -/
def initDictSize : Nat := 16

def commadTbl : List Command :=
  [⟨"del", .del, notBlocked⟩, ⟨"exists", .exists, notBlocked⟩,
    ⟨"randomkey", .randomkey, notBlocked⟩, ⟨"rename", .rename, notBlocked⟩,
    ⟨"keys", .keys, notBlocked⟩, ⟨"type", .type, notBlocked⟩, ⟨"append", .append, notBlocked⟩,
    ⟨"getbit", .getbit, notBlocked⟩, ⟨"setbit", .setbit, notBlocked⟩, ⟨"mget", .mget, notBlocked⟩,
    ⟨"bitcount", .bitcount, notBlocked⟩, ⟨"setrange", .setrange, notBlocked⟩,
    ⟨"getrange", .getrange, notBlocked⟩, ⟨"incr", .incr, notBlocked⟩, ⟨"decr", .decr, notBlocked⟩,
    ⟨"incrby", .incrby, notBlocked⟩, ⟨"decrby", .decrby, notBlocked⟩,
    ⟨"msetnx", .msetnx, notBlocked⟩, ⟨"get", .get, notBlocked⟩, ⟨"set", .set, notBlocked⟩,
    ⟨"strlen", .strlen, notBlocked⟩, ⟨"hdel", .hdel, notBlocked⟩, ⟨"hlen", .hlen, notBlocked⟩,
    ⟨"hexists", .hexists, notBlocked⟩, ⟨"hmget", .hmget, notBlocked⟩, ⟨"hget", .hget, notBlocked⟩,
    ⟨"hmset", .hmset, notBlocked⟩, ⟨"hgetall", .hgetall, notBlocked⟩,
    ⟨"hincrby", .hincrby, notBlocked⟩, ⟨"hset", .hset, notBlocked⟩,
    ⟨"hincrbyfloat", .hincrbyfloat, notBlocked⟩, ⟨"hsetnx", .hsetnx, notBlocked⟩,
    ⟨"hkeys", .hkeys, notBlocked⟩, ⟨"hvals", .hvals, notBlocked⟩, ⟨"blpop", .blpop, blocked⟩,
    ⟨"lrange", .lrange, notBlocked⟩, ⟨"brpop", .brpop, blocked⟩, ⟨"lrem", .lrem, notBlocked⟩,
    ⟨"brpoplpush", .brpoplpush, blocked⟩, ⟨"lset", .lset, notBlocked⟩,
    ⟨"lindex", .lindex, notBlocked⟩, ⟨"ltrim", .ltrim, notBlocked⟩,
    ⟨"linsert", .linsert, notBlocked⟩, ⟨"rpop", .rpop, notBlocked⟩, ⟨"llen", .llen, notBlocked⟩,
    ⟨"rpoplpush", .rpoplpush, notBlocked⟩, ⟨"lpop", .lpop, notBlocked⟩,
    ⟨"rpush", .rpush, notBlocked⟩, ⟨"lpush", .lpush, notBlocked⟩, ⟨"rpushx", .rpushx, notBlocked⟩,
    ⟨"lpushx", .lpushx, notBlocked⟩, ⟨"sadd", .sadd, notBlocked⟩, ⟨"smove", .smove, notBlocked⟩,
    ⟨"scard", .scard, notBlocked⟩, ⟨"spop", .spop, notBlocked⟩, ⟨"sdiff", .sdiff, notBlocked⟩,
    ⟨"srandmember", .srandmember, notBlocked⟩, ⟨"srem", .srem, notBlocked⟩,
    ⟨"sinter", .sinter, notBlocked⟩, ⟨"sscan", .sscan, notBlocked⟩,
    ⟨"sunion", .sunion, notBlocked⟩, ⟨"sismember", .sismember, notBlocked⟩,
    ⟨"smembers", .smembers, notBlocked⟩, ⟨"setnx", .setnx, notBlocked⟩,
    ⟨"incrbyfloat", .incrbyfloat, notBlocked⟩]

/-- The handlers of the entries marked as blocking. -/
def CommandFunc.blocks : CommandFunc → Bool
  | .blpop | .brpop | .brpoplpush => true
  | _ => false

theorem commadTbl_blocks {entry : Command} (member : entry ∈ commadTbl) :
    entry.type = blocked ↔ entry.func.blocks := by
  revert entry
  decide

end PseudoRedis

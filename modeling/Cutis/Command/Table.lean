import Cutis.Sds

namespace Cutis

def CUTIS_MAX_STRING_LENGTH : Int := 1024 * 1024 * 1024

inductive CommandType
  | CUTIS_CMD_INLINE
  | CUTIS_CMD_BULK
deriving DecidableEq, Repr

-- The handlers the table points to.
inductive CommandProc
  | GetCommand
  | SetCommand
  | SetnxCommand
  | ExistsCommand
  | DelCommand
  | IncrCommand
  | DecrCommand
  | RPushCommand
  | LPushCommand
  | RPopCommand
  | LPopCommand
  | LLenCommand
  | LIndexCommand
  | LRangeCommand
  | LTrimCommand
  | LSetCommand
  | SAddCommand
  | SRemCommand
  | SIsMemberCommand
  | SCardCommand
  | SInterCommand
  | SelectCommand
  | MoveCommand
  | RenameCommand
  | RenamenxCommand
  | RandomKeyCommand
  | KeysCommand
  | DbsizeCommand
  | SaveCommand
  | BgsaveCommand
  | ShutDownCommand
  | PingCommand
  | EchoCommand
  | LastSaveCommand
  | TypeCommand
deriving DecidableEq, Repr

structure CutisCommand where
  name : String
  proc : CommandProc
  arity : Int
  type : CommandType
deriving DecidableEq, Repr

def cmdTable : List CutisCommand :=
  [⟨"get", .GetCommand, 2, .CUTIS_CMD_INLINE⟩,
    ⟨"set", .SetCommand, 3, .CUTIS_CMD_BULK⟩,
    ⟨"setnx", .SetnxCommand, 3, .CUTIS_CMD_BULK⟩,
    ⟨"exists", .ExistsCommand, 2, .CUTIS_CMD_INLINE⟩,
    ⟨"del", .DelCommand, 2, .CUTIS_CMD_INLINE⟩,
    ⟨"incr", .IncrCommand, 2, .CUTIS_CMD_INLINE⟩,
    ⟨"decr", .DecrCommand, 2, .CUTIS_CMD_INLINE⟩,
    ⟨"rpush", .RPushCommand, 3, .CUTIS_CMD_BULK⟩,
    ⟨"lpush", .LPushCommand, 3, .CUTIS_CMD_BULK⟩,
    ⟨"rpop", .RPopCommand, 2, .CUTIS_CMD_INLINE⟩,
    ⟨"lpop", .LPopCommand, 2, .CUTIS_CMD_INLINE⟩,
    ⟨"llen", .LLenCommand, 2, .CUTIS_CMD_INLINE⟩,
    ⟨"lindex", .LIndexCommand, 3, .CUTIS_CMD_INLINE⟩,
    ⟨"lrange", .LRangeCommand, 4, .CUTIS_CMD_INLINE⟩,
    ⟨"ltrim", .LTrimCommand, 4, .CUTIS_CMD_INLINE⟩,
    ⟨"lset", .LSetCommand, 4, .CUTIS_CMD_BULK⟩,
    ⟨"sadd", .SAddCommand, 3, .CUTIS_CMD_BULK⟩,
    ⟨"srem", .SRemCommand, 3, .CUTIS_CMD_BULK⟩,
    ⟨"sismember", .SIsMemberCommand, 3, .CUTIS_CMD_BULK⟩,
    ⟨"scard", .SCardCommand, 2, .CUTIS_CMD_INLINE⟩,
    ⟨"sinter", .SInterCommand, -2, .CUTIS_CMD_INLINE⟩,
    ⟨"smembers", .SInterCommand, 2, .CUTIS_CMD_INLINE⟩,
    ⟨"select", .SelectCommand, 2, .CUTIS_CMD_INLINE⟩,
    ⟨"move", .MoveCommand, 3, .CUTIS_CMD_INLINE⟩,
    ⟨"rename", .RenameCommand, 3, .CUTIS_CMD_INLINE⟩,
    ⟨"renamenx", .RenamenxCommand, 3, .CUTIS_CMD_INLINE⟩,
    ⟨"randomkey", .RandomKeyCommand, 1, .CUTIS_CMD_INLINE⟩,
    ⟨"keys", .KeysCommand, 2, .CUTIS_CMD_INLINE⟩,
    ⟨"dbsize", .DbsizeCommand, 1, .CUTIS_CMD_INLINE⟩,
    ⟨"save", .SaveCommand, 1, .CUTIS_CMD_INLINE⟩,
    ⟨"bgsave", .BgsaveCommand, 1, .CUTIS_CMD_INLINE⟩,
    ⟨"shutdown", .ShutDownCommand, 1, .CUTIS_CMD_INLINE⟩,
    ⟨"ping", .PingCommand, 1, .CUTIS_CMD_INLINE⟩,
    ⟨"echo", .EchoCommand, 2, .CUTIS_CMD_INLINE⟩,
    ⟨"lastsave", .LastSaveCommand, 1, .CUTIS_CMD_INLINE⟩,
    ⟨"type", .TypeCommand, 2, .CUTIS_CMD_INLINE⟩]

def lookupCommand (name : Bytes) : Option CutisCommand :=
  cmdTable.find? fun cmd => sdsnew cmd.name = cstr name

-- The test on the number of arguments, the command name included.
def CutisCommand.accepts (cmd : CutisCommand) (argc : Nat) : Bool :=
  !((cmd.arity > 0 && cmd.arity != argc) || (argc : Int) < -cmd.arity)

end Cutis

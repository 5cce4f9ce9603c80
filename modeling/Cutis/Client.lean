import Cutis.Command.Table
import Cutis.Number

namespace Cutis

def CUTIS_QUERY_BUF_LEN : Nat := 1024
def CUTIS_MAX_ARGS : Nat := 16

-- The part of a client that requests are read into. The list argv holds the
-- argc strings in use.
structure ClientQuery where
  query_buf : Bytes
  argv : List Bytes
  bulk_len : Int
deriving DecidableEq, Repr

def createClientQuery : ClientQuery := { query_buf := [], argv := [], bulk_len := -1 }

-- What the parser does to the rest of the server, in order: run the handler of
-- a command with the arguments in argv, reply an error, or free the client.
inductive QueryEvent
  | proc (cmd : CutisCommand) (argv : List Bytes)
  | addReplySds (s : Bytes)
  | freeClient
deriving DecidableEq, Repr

inductive ParseStatus
  | CUTIS_OK
  | CUTIS_AGAIN
deriving DecidableEq, Repr

def resetClient (c : ClientQuery) : ClientQuery := { c with argv := [], bulk_len := -1 }

-- Append to argv, which has CUTIS_MAX_ARGS slots.
def setArg (c : ClientQuery) (arg : Bytes) : Except Fault ClientQuery :=
  if c.argv.length < CUTIS_MAX_ARGS then return { c with argv := c.argv ++ [arg] }
  else throw .outOfBounds

-- The client is gone from the result when it was freed.
def processCommand (c : ClientQuery) : Except Fault (Option ClientQuery × List QueryEvent) :=
  match c.argv with
  | [] => throw .useAfterFree
  | name :: args => do
      let name := sdstolower name
      let c := { c with argv := name :: args }
      if cstr name = sdsnew "quit" then
        return (none, [.freeClient])
      match lookupCommand name with
      | none => return (resetClient c, [.addReplySds (sdsnew "-ERR unknown command\r\n")])
      | some cmd =>
          if !cmd.accepts c.argv.length then
            return (resetClient c, [.addReplySds (sdsnew "-ERR wrong number of arguments\r\n")])
          else if cmd.type = .CUTIS_CMD_BULK ∧ c.bulk_len = -1 then
            let bulk_len := atoi ((name :: args).getLast (List.cons_ne_nil _ _))
            if bulk_len < 0 ∨ bulk_len > CUTIS_MAX_STRING_LENGTH then
              return (resetClient c, [.addReplySds (sdsnew "-ERR invalid bulk write count\r\n")])
            else
              let c := { c with argv := c.argv.dropLast, bulk_len := bulk_len + 2 }
              -- The payload may be in the buffer already.
              if (c.query_buf.length : Int) ≥ c.bulk_len then
                let c ← setArg c (c.query_buf.take (c.bulk_len - 2).toNat)
                let c := { c with query_buf := sdsrange c.query_buf c.bulk_len (-1) }
                return (resetClient c, [.proc cmd c.argv])
              else
                return (c, [])
          else
            return (resetClient c, [.proc cmd c.argv])

-- ProcessCommand and the test for more input that follows it.
def processThenParse (c : ClientQuery) :
    Except Fault (ParseStatus × Option ClientQuery × List QueryEvent) := do
  let (c, events) ← processCommand c
  match c with
  | some c =>
      if c.query_buf.length > 0 then return (.CUTIS_AGAIN, some c, events)
      else return (.CUTIS_OK, some c, events)
  | none => return (.CUTIS_OK, none, events)

def parseBulkQuery (c : ClientQuery) :
    Except Fault (ParseStatus × Option ClientQuery × List QueryEvent) :=
  if c.bulk_len ≤ toInt32 c.query_buf.length then do
    let c ← setArg c (c.query_buf.take (c.bulk_len - 2).toNat)
    processThenParse { c with query_buf := sdsrange c.query_buf c.bulk_len (-1) }
  else
    return (.CUTIS_OK, some c, [])

-- The words of a line go to argv as long as there is room; empty ones are dropped.
def pushWords (c : ClientQuery) (words : List Bytes) : ClientQuery :=
  { c with argv := c.argv ++ (words.filter (·.length > 0)).take (CUTIS_MAX_ARGS - c.argv.length) }

-- The line up to the newline at p, without its line end.
def queryLine (query_buf : Bytes) (p : Nat) : Bytes :=
  let query := query_buf.take p
  sdsupdatelen (if query.getLast? = some CR then query.dropLast else query)

def parseNonBulkQuery (c : ClientQuery) :
    Except Fault (ParseStatus × Option ClientQuery × List QueryEvent) :=
  match strchr c.query_buf LF with
  | some p => do
      let query := queryLine c.query_buf p
      let c := { c with query_buf := c.query_buf.drop (p + 1) }
      if query.length = 0 then
        return (.CUTIS_OK, some c, [])
      match ← sdssplitlen query [SPACE] with
      | none => throw .abort
      | some argv => processThenParse (pushWords c argv)
  | none =>
      if c.query_buf.length ≥ 1024 then return (.CUTIS_OK, none, [.freeClient])
      else return (.CUTIS_OK, some c, [])

-- Each pass that asks for another one takes a line or a payload off the buffer.
def parseQueryLoop : Nat → ClientQuery → Except Fault (Option ClientQuery × List QueryEvent)
  | 0, _ => throw .hang
  | fuel + 1, c => do
      let (res, c, events) ← if c.bulk_len = -1 then parseNonBulkQuery c else parseBulkQuery c
      match res, c with
      | .CUTIS_AGAIN, some c => do
          let (c, more) ← parseQueryLoop fuel c
          return (c, events ++ more)
      | _, c => return (c, events)

def parseQuery (c : ClientQuery) : Except Fault (Option ClientQuery × List QueryEvent) :=
  parseQueryLoop (c.query_buf.length + 2) c

-- The results of read: some bytes, none at the end of the stream.
inductive ReadResult
  | data (buf : Bytes)
  | again
  | error
deriving DecidableEq, Repr

def readQueryFromClient (c : ClientQuery) (nread : ReadResult) :
    Except Fault (Option ClientQuery × List QueryEvent) :=
  match nread with
  | .again => return (some c, [])
  | .error => return (none, [.freeClient])
  | .data buf =>
      if buf = [] then return (none, [.freeClient])
      else parseQuery { c with query_buf := c.query_buf ++ buf }

end Cutis

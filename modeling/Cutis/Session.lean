import Cutis.Server

namespace Cutis

-- A client as the handlers see it: the number of its database, the arguments and
-- the strings of the reply queue.
structure CutisClient where
  dict : Nat
  argv : List Bytes
  reply : List Bytes

inductive ChildEnd
  | exited (exit_code : Nat)
  | signaled (sig : Nat)
deriving DecidableEq, Repr

-- A forked child: its copy of the server, the name of the temporary file once it
-- is written, the result of its SaveDB, and how it ended.
structure Child where
  server : CutisServer
  tmpfile : Option Bytes
  saved : Option CutisStatus
  ended : Option ChildEnd

-- What a handler works on: the server, the client that sent the command, and the
-- part of the system that outlives the call.
structure Session where
  server : CutisServer
  client : CutisClient
  fs : FileSystem
  child : Option Child
  stop : Bool

-- What the system and the C library answer during one call: the results of
-- random, the order qsort leaves, the calls of SaveDB, and whether fork succeeds.
structure Os where
  random : List Nat
  qsort : List (Dict Bytes Unit) → List (Dict Bytes Unit)
  stdio : Stdio
  fork : Bool

namespace shared

def crlf : Bytes := sdsnew "\r\n"
def ok : Bytes := sdsnew "+OK\r\n"
def err : Bytes := sdsnew "-ERR\r\n"
def nil : Bytes := sdsnew "nil\r\n"
def zero : Bytes := sdsnew "0\r\n"
def one : Bytes := sdsnew "1\r\n"
def pong : Bytes := sdsnew "+PONG\r\n"

end shared

namespace Session

-- The slots of argv behind the last argument hold no string.
def arg (s : Session) (i : Nat) : Except Fault Bytes :=
  match s.client.argv[i]? with
  | some arg => return arg
  | none => throw .useAfterFree

-- A database of the server; the one of the client is c->dict.
def dict (s : Session) (id : Nat) : Except Fault Database :=
  match s.server.dict[id]? with
  | some dict => return dict
  | none => throw .outOfBounds

def setDict (s : Session) (id : Nat) (dict : Database) : Session :=
  { s with server := { s.server with dict := s.server.dict.set id dict } }

def db (s : Session) : Except Fault Database := s.dict s.client.dict

def setDB (s : Session) (db : Database) : Session := s.setDict s.client.dict db

-- server->dirty++
def dirtied (s : Session) : Session :=
  { s with server := { s.server with dirty := s.server.dirty + 1 } }

def addReply (s : Session) (o : Bytes) : Session :=
  { s with client := { s.client with reply := s.client.reply ++ [o] } }

def addReplySds (s : Session) (o : Bytes) : Session := s.addReply o

end Session

-- sdscatprintf(sdsempty(), "%d\r\n", n)
def intLine (n : Int) : Bytes := printInt (toInt32 n) ++ shared.crlf

-- sdscatprintf(sdsempty(), "%d\r\n%s\r\n", -(int)strlen(err), err)
def bulkError (err : String) : Bytes :=
  intLine (-((sdsnew err).length : Int)) ++ sdsnew err ++ shared.crlf

-- The three parts of a bulk reply.
def addBulk (s : Session) (el : Bytes) : Session :=
  ((s.addReplySds (intLine el.length)).addReply el).addReply shared.crlf

def selectDB (s : Session) (id : Int) : Option Session :=
  if id < 0 ∨ id ≥ s.server.db_num then none
  else some { s with client := { s.client with dict := id.toNat } }

end Cutis

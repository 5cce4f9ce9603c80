import Cutis.Client.Arguments
import Cutis.Client.Chunking
import Cutis.Lib.History
import Cutis.System.Maps
import Cutis.System.Served

namespace Cutis

-- A connection: what the parser holds of the client, none before it is accepted and
-- after it is freed, how much of the head of the reply queue is sent, the reads so far,
-- and the bytes written to the socket.
structure Link where
  fd : Int
  query : Option ClientQuery
  sent_len : Int
  received : List Bytes
  written : Bytes

def Link.fresh : Link := { fd := -1, query := none, sent_len := 0, received := [], written := [] }

-- The server with its connections, and what it has done for them in the order it did it.
structure Serving (ι : Type) where
  system : System ι
  links : ι → Link
  served : List (ι × QueryEvent × Bytes)

-- What the event loop calls, and the steps of the child. A connection that was idle for
-- too long is freed.
inductive NetEvent (ι : Type)
  | accept (i : ι) (fd : Int)
  | readable (i : ι) (nread : ReadResult) (os : Nat → Os)
  | writable (i : ι) (results : List WriteResult) (errno : Nat)
  | timeout (i : ι)
  | timer (io : CronOs)
  | child (a : Action ι)

-- What a read adds to the stream of the connection; an empty read is its end.
def ReadResult.bytes : ReadResult → List Bytes
  | .data buf => [buf]
  | _ => []

variable {ι : Type} [DecidableEq ι]

-- SHUTDOWN calls AeStop, which ends AeMain only after the events of the pass it comes in.
def System.goOn (σ : System ι) (a : Action ι) : Except Fault (System ι) := do
  let σ' ← ({ σ with stop := false } : System ι).act a
  return { σ' with stop := σ.stop || σ'.stop }

def System.setReply (σ : System ι) (i : ι) (reply : List Bytes) : System ι :=
  { σ with clients := Function.update σ.clients i { σ.clients i with reply } }

namespace Serving

def setLink (σ : Serving ι) (i : ι) (link : Link) : Serving ι :=
  { σ with links := Function.update σ.links i link }

def createClient (σ : Serving ι) (system : System ι) (i : ι) (fd : Int) : Serving ι :=
  { σ with
    system
    links := Function.update σ.links i { Link.fresh with fd, query := some createClientQuery } }

-- The bytes a call adds to the queue of its client.
def answer (before after : System ι) (i : ι) : Bytes :=
  ((after.clients i).reply.drop (before.clients i).reply.length).flatten

def perform (i : ι) (os : Os) (σ : Serving ι) : QueryEvent → Except Fault (Serving ι)
  | .proc cmd argv => do
      let system ← σ.system.goOn (.call i cmd argv os)
      return { σ with
        system
        served := σ.served ++ [(i, .proc cmd argv, answer σ.system system i)] }
  | .addReplySds reply =>
      return { σ with
        system := σ.system.setReply i ((σ.system.clients i).reply ++ [reply])
        served := σ.served ++ [(i, .addReplySds reply, reply)] }
  | .freeClient => return σ

-- Each call has its own answers of the system.
def performAll (i : ι) (os : Nat → Os) : Nat → List QueryEvent → Serving ι → Except Fault (Serving ι)
  | _, [], σ => return σ
  | k, event :: rest, σ => do performAll i os (k + 1) rest (← σ.perform i (os k) event)

-- FreeClient drops the reply queue.
def freeClient (σ : Serving ι) (i : ι) : Serving ι :=
  { σ with
    system := σ.system.setReply i []
    links := Function.update σ.links i { σ.links i with query := none } }

def readable (σ : Serving ι) (i : ι) (nread : ReadResult) (os : Nat → Os) :
    Except Fault (Serving ι) :=
  match (σ.links i).query with
  | none => return σ
  | some c => do
      let (query, events) ← readQueryFromClient c nread
      let σ ← performAll i os 0 events σ
      let link := σ.links i
      let σ := σ.setLink i { link with query, received := link.received ++ nread.bytes }
      return if query.isNone then σ.freeClient i else σ

-- The part of the client that SendReplyToClient works on.
def sendClient (σ : Serving ι) (i : ι) : SendClient where
  fd := (σ.links i).fd
  reply := (σ.system.clients i).reply
  sent_len := (σ.links i).sent_len

def sent (σ : Serving ι) (i : ι) (c : SendClient) (written : Bytes) : Serving ι :=
  { σ with
    system := σ.system.setReply i c.reply
    links := Function.update σ.links i { σ.links i with sent_len := c.sent_len, written } }

def writable (σ : Serving ι) (i : ι) (results : List WriteResult) (errno : Nat) :
    Except Fault (Serving ι) :=
  match (σ.links i).query with
  | none => return σ
  | some _ => do
      let (c, written, nwritten, errno) ←
        sendLoop (σ.sendClient i) (σ.links i).written 0 errno results
      if nwritten = -1 ∧ errno ≠ EAGAIN then return (σ.sent i c written).freeClient i
      else if c.reply.length = 0 then return σ.sent i { c with sent_len := 0 } written
      else return σ.sent i c written

def act (σ : Serving ι) : NetEvent ι → Except Fault (Serving ι)
  | .child a => do return { σ with system := ← σ.system.act a }
  | .timer io => do return { σ with system := ← σ.system.goOn (.cron io) }
  | .accept i fd => do return σ.createClient (← σ.system.goOn (.connect i)) i fd
  | .readable i nread os => σ.readable i nread os
  | .writable i results errno => σ.writable i results errno
  | .timeout i => return σ.freeClient i

end Serving

end Cutis

import Cutis.Client
import Cutis.Client.Sending
import Cutis.Heap.Command
import Cutis.Server.Grammar

namespace Cutis

namespace Heap

-- The passes of the loop of SendReplyToClient that drop a string.
def dropEmpty : List ObjectId → Heap → List ObjectId × Heap
  | [], h => ([], h)
  | o :: rest, h =>
      if toInt32 (h.bytes o).length = 0 then dropEmpty rest (h.decrRefCount o) else (o :: rest, h)

-- The loop, with the results of its calls of write.
def sendLoop (h : Heap) (c : HeapClient) (nwritten : Int) (errno : Nat) :
    List WriteResult → Except Fault (Heap × HeapClient × Int × Nat)
  | [] =>
      match dropEmpty c.reply h with
      | ([], h) => return (h, { c with reply := [] }, nwritten, errno)
      | (o :: rest, h) => return (h, { c with reply := o :: rest }, -1, EAGAIN)
  | result :: results =>
      match dropEmpty c.reply h with
      | ([], h) => return (h, { c with reply := [] }, nwritten, errno)
      | (o :: rest, h) => do
          let msg := h.bytes o
          let (_, nwritten, errno) ←
            writeMsg msg c.sent_len (writeCount (toInt32 msg.length) c.sent_len) errno result
          if nwritten ≤ 0 then return (h, { c with reply := o :: rest }, nwritten, errno)
          else
            let sent_len := toInt32 (c.sent_len + nwritten)
            if sent_len = toInt32 msg.length then
              sendLoop (h.decrRefCount o) { c with reply := rest, sent_len := 0 } nwritten errno results
            else sendLoop h { c with reply := o :: rest, sent_len } nwritten errno results

-- The loop of LoadDB over the elements of the list or set in o.
def loadElements (o : ObjectId) : List Bytes → HeapSession → Except Fault HeapSession
  | [], s => return s
  | val :: rest, s =>
      let (el, s) := s.createCutisObject (.string (some val))
      match s.heap.ptr o with
      | .list l => loadElements o rest (s.setPtr o (.list (l ++ [el])))
      | .set d => do
          let (d, status) ← dictAdd s.heap.SetDictType d el ()
          if status = .DICT_ERR then
            throw .abort
          loadElements o rest (s.setPtr o (.set d))
      | _ => throw .useAfterFree

def loadObject (s : HeapSession) : DumpValue → Except Fault (ObjectId × HeapSession)
  | .string val => return s.createCutisObject (.string (some val))
  | .list l =>
      let (o, s) := s.createCutisObject (.list [])
      return (o, ← loadElements o l s)
  | .set members =>
      let (o, s) := s.createCutisObject (.set dictCreate)
      return (o, ← loadElements o members s)

-- One item of the file that LoadDB reads.
def loadEntry (s : HeapSession) (key : Bytes) (v : DumpValue) : Except Fault HeapSession := do
  let (o, s) ← loadObject s v
  let (dict, retval) ← dictAdd sdsDictType (← s.db) key o
  if retval = .DICT_ERR then
    throw .exit
  return s.setDB dict

end Heap

-- The objects with all that holds them.
structure HeapServer where
  heap : Heap
  shared : SharedObject
  dict : List HeapDict
  clients : List HeapClient

-- The events of a run: a new client, what the parser makes of the input of the i-th
-- client, its socket being writable, its end or its deletion for being idle, an item
-- of the dump file, and a resize of a table by the cron function.
inductive HeapEvent
  | connect
  | query (i : Nat) (e : QueryEvent) (os : Heap.Answers)
  | writable (i : Nat) (results : List WriteResult) (errno : Nat)
  | disconnect (i : Nat)
  | load (dbid : Nat) (key : Bytes) (v : DumpValue)
  | resize (dbid : Nat)

namespace HeapServer

def initServer (db_num : Nat) : HeapServer :=
  let (shared, heap) := initSharedObjects { objects := [], free_objs := [] }
  { heap, shared, dict := List.replicate db_num dictCreate, clients := [] }

def createClient : HeapClient := { dict := 0, reply := [], sent_len := 0 }

def session (σ : HeapServer) (client : HeapClient) (argv : List Bytes) : HeapSession :=
  { heap := σ.heap, shared := σ.shared, dict := σ.dict, client, argv }

def leave (σ : HeapServer) (i : Nat) (s : HeapSession) : HeapServer :=
  { σ with heap := s.heap, dict := s.dict, clients := σ.clients.set i s.client }

def client (σ : HeapServer) (i : Nat) : Except Fault HeapClient :=
  match σ.clients[i]? with
  | some c => return c
  | none => throw .useAfterFree

def freeClient (σ : HeapServer) (i : Nat) (c : HeapClient) : HeapServer :=
  { σ with
    heap := c.reply.foldl Heap.decrRefCount σ.heap
    clients := σ.clients.eraseIdx i }

def sendReplyToClient (σ : HeapServer) (i : Nat) (c : HeapClient) (results : List WriteResult)
    (errno : Nat) : Except Fault HeapServer := do
  let (heap, c, nwritten, errno) ← Heap.sendLoop σ.heap c 0 errno results
  let σ := { σ with heap, clients := σ.clients.set i c }
  if nwritten = -1 ∧ errno ≠ EAGAIN then return σ.freeClient i c
  else if c.reply.length = 0 then
    return { σ with clients := σ.clients.set i { c with sent_len := 0 } }
  else return σ

def query (σ : HeapServer) (i : Nat) (c : HeapClient) (os : Heap.Answers) :
    QueryEvent → Except Fault HeapServer
  | .proc cmd argv => do return σ.leave i (← Heap.call os (σ.session c argv) cmd.proc)
  | .addReplySds str => return σ.leave i ((σ.session c []).addReplySds str)
  | .freeClient => return σ.freeClient i c

def act (σ : HeapServer) : HeapEvent → Except Fault HeapServer
  | .connect => return { σ with clients := σ.clients ++ [createClient] }
  | .query i e os => do σ.query i (← σ.client i) os e
  | .writable i results errno => do σ.sendReplyToClient i (← σ.client i) results errno
  | .disconnect i => return σ.freeClient i (← σ.client i)
  | .load dbid key v => do
      let s ← Heap.loadEntry (σ.session { createClient with dict := dbid } []) key v
      return { σ with heap := s.heap, dict := s.dict }
  | .resize dbid =>
      match σ.dict[dbid]? with
      | none => throw .outOfBounds
      | some dict => do
          let (dict, _) ← dictResize sdsDictType dict
          return { σ with dict := σ.dict.set dbid dict }

end HeapServer

end Cutis

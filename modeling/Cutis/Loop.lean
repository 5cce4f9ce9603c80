import Cutis.AdList
import Cutis.Event
import Cutis.Serving

namespace Cutis

-- A file event with the client it is for. The event of the listening socket is for the
-- server.
structure FileEvent (ι : Type) where
  fd : Int
  mask : Nat
  file_proc : AeFileProc
  client_data : Option ι
deriving DecidableEq, Repr

namespace FileEvent

variable {ι : Type}

def plain (fe : FileEvent ι) : AeFileEvent := ⟨fe.fd, fe.mask, fe.file_proc⟩

-- The search of AeCreateFileEvent, which changes an event that it finds.
def change (new : FileEvent ι) : List (FileEvent ι) → Option (List (FileEvent ι))
  | [] => none
  | fe :: rest =>
      if fe.fd = new.fd ∧ fe.mask &&& new.mask ≠ 0 then
        some ({ fe with file_proc := new.file_proc, client_data := new.client_data } :: rest)
      else (change new rest).map (fe :: ·)

def create (events : List (FileEvent ι)) (new : FileEvent ι) : List (FileEvent ι) :=
  (change new events).getD (new :: events)

def delete (events : List (FileEvent ι)) (fd : Int) (mask : Nat) : List (FileEvent ι) :=
  events.eraseP fun fe => fe.fd = fd ∧ fe.mask = mask

def readEvent (fd : Int) (i : ι) : FileEvent ι := ⟨fd, AE_READABLE, .ReadQueryFromClient, some i⟩

def writeEvent (fd : Int) (i : ι) : FileEvent ι := ⟨fd, AE_WRITABLE, .SendReplyToClient, some i⟩

-- The registrations of AddReply, for each string that comes into the queue.
def addReplies (fd : Int) (i : ι) :
    Nat → List Bytes → List (FileEvent ι) → List (FileEvent ι)
  | _, [], events => events
  | length, _ :: rest, events =>
      addReplies fd i (length + 1) rest
        (if length = 0 then create events (writeEvent fd i) else events)

end FileEvent

-- The server as the event loop runs it. A client is its address; a block that malloc
-- gives out again is a new client.
structure Loop (ι : Type) where
  serving : Serving ι
  clients : AdList ι
  last_interaction : ι → Int
  events : List (FileEvent ι)
  fd : Int
  max_idle_time : Int

-- What the system answers to the calls of one handler: the client and the descriptor of a
-- connection that is accepted, with the address of its node in the list, or none.
structure HandlerIo (ι : Type) where
  accepted : Option (ι × Int × NodeId)
  nread : ReadResult
  os : Nat → Os
  results : List WriteResult
  errno : Nat
  now : Int

-- A handler of an event that is registered, the timer's function, or a step of the child.
inductive LoopEvent (ι : Type)
  | fire (fe : FileEvent ι) (io : HandlerIo ι)
  | cron (io : CronOs) (now : Int)
  | child (a : Action ι)

variable {ι : Type} [DecidableEq ι]

namespace Loop

def client_fd (σ : Loop ι) (i : ι) : Int := (σ.serving.links i).fd

def createClient (σ : Loop ι) (i : ι) (fd : Int) (node : NodeId) (now : Int) :
    Except Fault (Loop ι) := do
  let serving ← σ.serving.act (.accept i fd)
  let clients ← σ.clients.listAddNodeTail node i
  return { σ with
    serving
    clients
    last_interaction := Function.update σ.last_interaction i now
    events := FileEvent.create σ.events (FileEvent.readEvent fd i) }

def acceptHandler (σ : Loop ι) (io : HandlerIo ι) : Except Fault (Loop ι) :=
  match io.accepted with
  | none => return σ
  | some (i, fd, node) => σ.createClient i fd node io.now

-- The client has to be in the list.
def freeClient (σ : Loop ι) (i : ι) : Except Fault (Loop ι) := do
  match ← σ.clients.listSearchKey (· = i) with
  | none => throw .abort
  | some ln =>
      return { σ with
        serving := σ.serving.freeClient i
        clients := ← σ.clients.listDelNode ln
        events := FileEvent.delete (FileEvent.delete σ.events (σ.client_fd i) AE_READABLE)
          (σ.client_fd i) AE_WRITABLE }

def readQuery (σ : Loop ι) (i : ι) (io : HandlerIo ι) : Except Fault (Loop ι) :=
  match (σ.serving.links i).query with
  | none => throw .useAfterFree
  | some c => do
      let (query, calls) ← readQueryFromClient c io.nread
      let serving ← Serving.performAll i io.os 0 calls σ.serving
      let length := (σ.serving.system.clients i).reply.length
      let added := (serving.system.clients i).reply.drop length
      let link := { serving.links i with
        query
        received := (serving.links i).received ++ io.nread.bytes }
      let σ := { σ with
        serving := serving.setLink i link
        last_interaction :=
          if io.nread.bytes.flatten = [] then σ.last_interaction
          else Function.update σ.last_interaction i io.now
        events := FileEvent.addReplies (σ.client_fd i) i length added σ.events }
      if query.isNone then σ.freeClient i else return σ

def sendReply (σ : Loop ι) (i : ι) (io : HandlerIo ι) : Except Fault (Loop ι) :=
  match (σ.serving.links i).query with
  | none => throw .useAfterFree
  | some _ => do
      let (c, written, nwritten, errno) ←
        sendLoop (σ.serving.sendClient i) (σ.serving.links i).written 0 io.errno io.results
      if nwritten = -1 ∧ errno ≠ EAGAIN then
        freeClient { σ with serving := σ.serving.sent i c written } i
      else
        let last_interaction :=
          if (σ.serving.links i).written.length < written.length then
            Function.update σ.last_interaction i io.now
          else σ.last_interaction
        if c.reply.length = 0 then
          return { σ with
            serving := σ.serving.sent i { c with sent_len := 0 } written
            last_interaction
            events := FileEvent.delete σ.events (σ.client_fd i) AE_WRITABLE }
        else return { σ with serving := σ.serving.sent i c written, last_interaction }

-- A call of file_proc with client_data.
def fire (σ : Loop ι) (fe : FileEvent ι) (io : HandlerIo ι) : Except Fault (Loop ι) :=
  match fe.file_proc, fe.client_data with
  | .AcceptHandler, _ => σ.acceptHandler io
  | .ReadQueryFromClient, some i => σ.readQuery i io
  | .SendReplyToClient, some i => σ.sendReply i io
  | _, none => throw .segv

def idle (σ : Loop ι) (now : Int) (i : ι) : Bool :=
  now - σ.last_interaction i > σ.max_idle_time

def closeIdle (σ : Loop ι) (now : Int) (c : ι) : Except Fault (Loop ι) :=
  if σ.idle now c then σ.freeClient c else return σ

-- The iterator is a node ahead of the one whose client is freed.
def closeFrom (now : Int) : Nat → AdList.ListIter → Loop ι → Except Fault (Loop ι)
  | 0, _, _ => throw .hang
  | fuel + 1, iter, σ => do
      match ← σ.clients.listNextElement iter with
      | (none, _) => return σ
      | (some ln, iter) =>
          let node ← σ.clients.read ln
          closeFrom now fuel iter (← σ.closeIdle now node.value)

def closeTimeoutClients (σ : Loop ι) (now : Int) : Except Fault (Loop ι) :=
  closeFrom now (σ.clients.len.toNat + 1) (σ.clients.listGetIterator .AL_START_HEAD) σ

-- The clients are looked at in every tenth call of ServerCron.
def cronClients (σ : Loop ι) (now : Int) : Except Fault (Loop ι) :=
  if σ.serving.system.server.cron_loops % 10 = 0 then σ.closeTimeoutClients now else return σ

-- The tables that ServerCron has resized by then have nothing to do with the clients.
def serverCron (σ : Loop ι) (io : CronOs) (now : Int) : Except Fault (Loop ι) := do
  let σ ← σ.cronClients now
  return { σ with serving := ← σ.serving.act (.timer io) }

def act (σ : Loop ι) : LoopEvent ι → Except Fault (Loop ι)
  | .fire fe io => σ.fire fe io
  | .cron io now => σ.serverCron io now
  | .child a => do return { σ with serving := ← σ.serving.act (.child a) }

-- StartServer waits for connections.
def startServer (serving : Serving ι) (fd max_idle_time : Int) : Loop ι where
  serving
  clients := AdList.listCreate
  last_interaction := fun _ => 0
  events := [⟨fd, AE_READABLE, .AcceptHandler, none⟩]
  fd
  max_idle_time

end Loop

end Cutis

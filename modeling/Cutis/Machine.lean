import Cutis.System.Durability

namespace Cutis

-- A child that has not come to the end of its SaveDB.
def Child.Saving (c : Child) : Prop := c.saved = none ∧ c.ended = none

-- What a new process finds in its memory, its save parameters and the time.
structure Boot where
  malloc : Nat → Bytes
  buf : Bytes
  vbuf : Bytes
  save_params : List SaveParam
  time : Int

-- A machine over several lives of the server: the server that runs, with its files and
-- its child, and the children of the servers before it.
structure Machine (ι : Type) where
  system : System ι
  orphans : List Child

-- A server or a saving child that is killed while it writes leaves a torn temporary file.
-- A child outlives its server, unless all processes end at once; the files stay.
inductive MachineEvent (ι : Type)
  | act (a : Action ι)
  | orphan (i : Nat) (a : Action ι)
  | torn (io : Stdio) (content : Bytes)
  | restart (boot : Boot)
  | killAll (boot : Boot)

namespace Machine

variable {ι : Type}

-- main up to StartServer. A file that LoadDB does not take leaves the databases empty.
def boot (b : Boot) (db_num : Nat) (fs : FileSystem) : Except Fault (System ι) := do
  let (server, _) ← loadDB b.malloc b.buf b.vbuf (initServer db_num b.save_params b.time)
    (fs CUTIS_DB_NAME)
  return { server, clients := fun _ => ⟨0, [], []⟩, fs, child := none, stop := false }

-- The steps of an orphan are those of a child.
def adopt (m : Machine ι) (c : Child) : System ι := { m.system with child := some c }

variable [DecidableEq ι]

def act (m : Machine ι) : MachineEvent ι → Except Fault (Machine ι)
  | .act a => do return { m with system := ← m.system.act a }
  | .orphan i a =>
      match m.orphans[i]? with
      | none => return m
      | some c => do
          let σ ← (m.adopt c).act a
          return {
            system := { m.system with fs := σ.fs }
            orphans := m.orphans.set i (σ.child.getD c) }
  | .torn io content =>
      return { m with system := { m.system with fs := m.system.fs.set io.tmpfile (some content) } }
  | .restart b => do
      return {
        system := ← boot b m.system.server.db_num m.system.fs
        orphans := m.system.child.toList ++ m.orphans }
  | .killAll b => do
      return { system := ← boot b m.system.server.db_num m.system.fs, orphans := [] }

-- The databases as the file has them that an event renames to dump.cdb.
def snapshot (m : Machine ι) : MachineEvent ι → Option Dataset
  | .act a => m.system.snapshot a
  | .orphan i a => m.orphans[i]?.bind fun c => (m.adopt c).snapshot a
  | _ => none

-- The databases the servers have had, the latest first, and those of the last save
-- that was put in place.
structure Notes where
  had : List Dataset
  snap : Option Dataset

def note (g : Notes) (m : Machine ι) (e : MachineEvent ι) (m' : Machine ι) : Notes where
  had := dataset m'.system.server.dict :: g.had
  snap := (m.snapshot e).or g.snap

-- No two processes use one name for a temporary file at a time.
def Spares (io : Stdio) (children : List Child) : Prop :=
  ∀ c ∈ children, c.Saving → c.tmpfile ≠ some io.tmpfile

-- The calls are those the parser makes, no write is cut short unnoticed, and no list is
-- too long for the file.
def EventOk (m : Machine ι) : MachineEvent ι → Prop
  | .act a => a.Ok ∧ m.system.SavesWhole a ∧ ∀ io, a = .childWrite io → Spares io m.orphans
  | .orphan i a =>
      a.ofChild = true ∧ (∀ c, m.orphans[i]? = some c → (m.adopt c).SavesWhole a) ∧
        ∀ io, a = .childWrite io → Spares io (m.system.child.toList ++ m.orphans.eraseIdx i)
  | .torn io _ => Spares io (m.system.child.toList ++ m.orphans)
  | _ => True

-- What dump.cdb has in it.
def OnDisk (db_num : Nat) (fs : FileSystem) : Option Dataset → Prop
  | none => fs CUTIS_DB_NAME = none
  | some ds => ∃ file, fs CUTIS_DB_NAME = some file ∧ Decodes db_num file ds

structure Start (db_num : Nat) (m : Machine ι) (g : Notes) : Prop where
  system : m.system.Start
  dbs : m.system.server.db_num = db_num
  orphans : m.orphans = []
  had : g.had = [dataset m.system.server.dict]
  snap : ∀ ds, g.snap = some ds → ds ∈ g.had
  onDisk : OnDisk db_num m.system.fs g.snap

def Reached (db_num : Nat) : Machine ι → Notes → Prop :=
  Runs.Reach act note (Start db_num) fun _ m e => m.EventOk e

end Machine

end Cutis

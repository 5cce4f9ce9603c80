import Cutis.Command
import Cutis.Database

namespace Cutis

-- Exit status of a child, as wait4 stores it: the code is in the second byte, the
-- number of a signal in the first.
def WEXITSTATUS (status : Nat) : Nat := status / 2 ^ 8 % 2 ^ 8

def ChildEnd.status : ChildEnd → Nat
  | .exited exit_code => exit_code % 2 ^ 8 * 2 ^ 8
  | .signaled sig => sig % 2 ^ 7

inductive WaitResult
  | running
  | failed
  | reaped
deriving DecidableEq, Repr

-- wait4(-1, &status, WNOHANG, NULL), with the old value of status.
def wait4 (child : Option Child) (status : Nat) : WaitResult × Nat × Option Child :=
  match child with
  | none => (.failed, status, none)
  | some c =>
      match c.ended with
      | none => (.running, status, some c)
      | some ended => (.reaped, ended.status, none)

-- The products are of type unsigned.
def cronResize (dict : Database) : Except Fault Database :=
  if dict.size ≥ CUTIS_HT_MINSLOTS ∧ dict.used * 100 % 2 ^ 32 / dict.size < CUTIS_HT_MINFILL then
    Prod.fst <$> dictResize sdsDictType dict
  else
    return dict

def cronResizeAll : List Database → Except Fault (List Database)
  | [] => return []
  | dict :: rest => do
      let dict ← cronResize dict
      let rest ← cronResizeAll rest
      return dict :: rest

-- What the system answers to one cron call: the time, and the bytes on the stack
-- where status is put.
structure CronOs where
  os : Os
  now : Int
  stack : Nat

-- The booking of a background save; status is not initialised.
def cronBooking (io : CronOs) (s : Session) : Session :=
  match wait4 s.child io.stack with
  | (.running, _, _) => s
  | (_, status, child) =>
      let server :=
        if WEXITSTATUS status = 0 then { s.server with dirty := 0, last_save := io.now }
        else s.server
      { s with server := { server with bg_saving := false }, child }

def cronSaveParams (io : CronOs) (s : Session) : Session :=
  if s.server.save_params.any fun sp =>
      (s.server.dirty : Int) ≥ sp.changes && io.now - s.server.last_save > sp.seconds then
    (saveDBBackground io.os s).1
  else s

def serverCron (io : CronOs) (s : Session) : Except Fault Session := do
  let dict ← cronResizeAll s.server.dict
  let s := { s with server := { s.server with dict, cron_loops := s.server.cron_loops + 1 } }
  if s.server.bg_saving then return cronBooking io s
  else return cronSaveParams io s

section Resize

theorem cronResize_ok {dict : Database} (h : SoundDatabase dict) :
    ∃ dict', cronResize dict = .ok dict' ∧ SoundDatabase dict' ∧ dict'.contents = dict.contents := by
  rw [cronResize]
  split_ifs
  · obtain ⟨dict', h', hresize, hcontents⟩ := h.dictResize_ok
    exact ⟨dict', by rw [hresize]; rfl, h', hcontents⟩
  · exact ⟨dict, rfl, h, rfl⟩

-- The tables may shrink; what they hold stays.
theorem cronResizeAll_ok {dicts : List Database} (h : ∀ dict ∈ dicts, SoundDatabase dict) :
    ∃ dicts', cronResizeAll dicts = .ok dicts' ∧ (∀ dict ∈ dicts', SoundDatabase dict) ∧
      dataset dicts' = dataset dicts := by
  induction dicts with
  | nil => exact ⟨[], rfl, nofun, rfl⟩
  | cons dict rest ih =>
      obtain ⟨dict', hdict, hsound, hcontents⟩ := cronResize_ok (h dict (by simp))
      obtain ⟨rest', hrest, hsounds, hdataset⟩ := ih fun d hd => h d (by simp [hd])
      refine ⟨dict' :: rest', ?_, fun d hd => ?_, ?_⟩
      · rw [cronResizeAll, hdict, ok_bind, hrest, ok_bind]
        rfl
      · rcases List.mem_cons.mp hd with rfl | hd
        · exact hsound
        · exact hsounds d hd
      · simp only [dataset, List.map_cons, hcontents] at hdataset ⊢
        rw [hdataset]

end Resize

end Cutis

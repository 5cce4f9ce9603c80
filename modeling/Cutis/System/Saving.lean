import Cutis.System.Calls

namespace Cutis

def Action.os {ι : Type} : Action ι → Option Os
  | .call _ _ _ os => some os
  | .cron io => some io.os
  | _ => none

-- The write of dirty and last_save after a background save.
def CronOs.books (io : CronOs) (child : Option Child) : Bool :=
  match wait4 child io.stack with
  | (.running, _, _) => false
  | (_, status, _) => WEXITSTATUS status == 0

-- The fork, if there is one, succeeds, and no signal ends the child.
def Action.Unharmed {ι : Type} (a : Action ι) : Prop :=
  (∀ os, a.os = some os → os.fork = true) ∧ ∀ sig, a ≠ .childKill sig

-- The commands that save in the foreground.
def CommandProc.saves : CommandProc → Bool
  | .SaveCommand | .ShutDownCommand => true
  | _ => false

namespace System

variable {ι : Type} [DecidableEq ι]

-- The databases as the file has them that an action renames to dump.cdb.
def snapshot (σ : System ι) : Action ι → Option Dataset
  | .call _ cmd _ os =>
      if cmd.proc.saves ∧ (saveDB os.stdio σ.fs σ.server CUTIS_DB_NAME).2.2 = .CUTIS_OK then
        some (dataset σ.server.dict)
      else none
  | .childRename rename =>
      match σ.child with
      | some { server, tmpfile := some tmpfile, saved := none, ended := none } =>
          if rename ∧ (σ.fs tmpfile).isSome then some (dataset server.dict) else none
      | _ => none
  | _ => none

-- What a cron call does during a background save.
structure Waited (σ : System ι) (io : CronOs) (σ' : System ι) : Prop where
  bg_saving : σ.server.bg_saving = true
  fs : σ'.fs = σ.fs
  dataset : dataset σ'.server.dict = dataset σ.server.dict
  server : σ'.server.dirty = (if io.books σ.child then 0 else σ.server.dirty) ∧
    σ'.server.last_save = (if io.books σ.child then io.now else σ.server.last_save)
  child : (wait4 σ.child io.stack).1 = .running ∧ σ'.child = σ.child ∧
      σ'.server.bg_saving = true ∨
    (wait4 σ.child io.stack).1 ≠ .running ∧ σ'.child = none ∧ σ'.server.bg_saving = false

-- What an action does to the files, the child and the books of the server.
inductive SaveStep (σ : System ι) (a : Action ι) (σ' : System ι) : Prop
  | data (fs : σ'.fs = σ.fs) (child : σ'.child = σ.child)
      (bg_saving : σ'.server.bg_saving = σ.server.bg_saving)
      (last_save : σ'.server.last_save = σ.server.last_save)
      (dirty : σ.server.dirty ≤ σ'.server.dirty)
      (counted : dataset σ'.server.dict ≠ dataset σ.server.dict →
        σ.server.dirty < σ'.server.dirty)
      (db_num : σ'.server.dict.length = σ.server.dict.length)
      (note : σ.snapshot a = none)
  | save (os : Os) (status : CutisStatus)
      (action : ∃ i cmd argv, a = .call i cmd argv os ∧ cmd.proc.saves = true)
      (saved : saveDB os.stdio σ.fs σ.server CUTIS_DB_NAME = (σ'.server, σ'.fs, status))
      (child : σ'.child = σ.child)
      (note : σ.snapshot a = if status = .CUTIS_OK then some (dataset σ.server.dict) else none)
  | start (os : Os) (image : CutisServer) (action : a.os = some os)
      (bg_saving : σ.server.bg_saving = false ∧ σ'.server.bg_saving = true)
      (child : σ'.child = if os.fork then some ⟨image, none, none, none⟩ else σ.child)
      (sound : ∀ db ∈ image.dict, SoundDatabase db)
      (image_dataset : dataset image.dict = dataset σ.server.dict)
      (fs : σ'.fs = σ.fs) (dirty : σ'.server.dirty = σ.server.dirty)
      (last_save : σ'.server.last_save = σ.server.last_save)
      (dataset : dataset σ'.server.dict = dataset σ.server.dict)
      (note : σ.snapshot a = none)
  | wait (io : CronOs) (action : a = .cron io) (waited : σ.Waited io σ')
  | child (action : a.ofChild = true) (server : σ'.server = σ.server)

section Booking

variable (io : CronOs) (s : Session)

theorem cronBooking_books :
    (cronBooking io s).server.dirty = (if io.books s.child then 0 else s.server.dirty) ∧
      (cronBooking io s).server.last_save =
        (if io.books s.child then io.now else s.server.last_save) := by
  have hwaited (status : Nat) :
      (if WEXITSTATUS status = 0 then { s.server with dirty := 0, last_save := io.now }
        else s.server).dirty = (if (WEXITSTATUS status == 0) = true then 0 else s.server.dirty) ∧
      (if WEXITSTATUS status = 0 then { s.server with dirty := 0, last_save := io.now }
        else s.server).last_save =
          (if (WEXITSTATUS status == 0) = true then io.now else s.server.last_save) := by
    by_cases hcode : WEXITSTATUS status = 0
    · simp only [hcode, if_true, beq_self_eq_true, and_self]
    · simp only [hcode, if_false, beq_iff_eq, and_self]
  rw [cronBooking, CronOs.books]
  cases s.child with
  | none => exact hwaited io.stack
  | some c =>
      obtain ⟨server, tmpfile, saved, ended⟩ := c
      cases ended with
      | none => exact ⟨rfl, rfl⟩
      | some ended => exact hwaited ended.status

theorem cronBooking_child (hbg : s.server.bg_saving = true) :
    (wait4 s.child io.stack).1 = .running ∧ (cronBooking io s).child = s.child ∧
        (cronBooking io s).server.bg_saving = true ∨
      (wait4 s.child io.stack).1 ≠ .running ∧ (cronBooking io s).child = none ∧
        (cronBooking io s).server.bg_saving = false := by
  rw [cronBooking]
  cases hchild : s.child with
  | none => exact Or.inr ⟨nofun, rfl, rfl⟩
  | some c =>
      obtain ⟨server, tmpfile, saved, ended⟩ := c
      cases ended with
      | none => exact Or.inl ⟨rfl, hchild, hbg⟩
      | some ended => exact Or.inr ⟨nofun, rfl, rfl⟩

theorem cronSaveParams_cases :
    cronSaveParams io s = s ∨ cronSaveParams io s = (saveDBBackground io.os s).1 := by
  rw [cronSaveParams]
  split_ifs
  · exact Or.inr rfl
  · exact Or.inl rfl

variable {s} in
theorem saveDBBackground_start (os : Os) (hbg : s.server.bg_saving = false) :
    (saveDBBackground os s).1 =
      { s with
        server := { s.server with bg_saving := true }
        child := if os.fork then some ⟨s.server, none, none, none⟩ else s.child } := by
  rw [saveDBBackground, hbg]
  rfl

end Booking

theorem length_of_dataset {dict dict' : List Database} (h : dataset dict' = dataset dict) :
    dict'.length = dict.length := by
  simpa [dataset] using congrArg List.length h

theorem saves_of_control {proc : CommandProc} (h : proc.control = false) : proc.saves = false := by
  cases proc with
  | SaveCommand | ShutDownCommand => cases h
  | _ => rfl

section SaveStep

variable {σ σ' : System ι}

-- A command on data leaves the files, the child and the books alone, but for the
-- count of changes.
theorem call_keeps {i : ι} {cmd : CutisCommand} {argv : List Bytes} {os : Os} (h : σ.Sound)
    (hcall : CallOk cmd argv) (hcontrol : cmd.proc.control = false)
    (hact : σ.act (.call i cmd argv os) = .ok σ') :
    σ'.fs = σ.fs ∧ σ'.child = σ.child ∧ σ'.server.bg_saving = σ.server.bg_saving ∧
      σ'.server.last_save = σ.server.last_save ∧ σ.server.dirty ≤ σ'.server.dirty ∧
      (dataset σ'.server.dict ≠ dataset σ.server.dict → σ.server.dirty < σ'.server.dirty) ∧
      σ'.server.dict.length = σ.server.dict.length := by
  obtain ⟨-, s', hs, rfl⟩ := call_of_act hact
  obtain ⟨dict, selected, changes, reply, rfl, -, -, hlen, -, hcounted⟩ :=
    Session.call_dataStep (h.session i argv) hcall rfl hcontrol hs
  refine ⟨rfl, rfl, rfl, rfl, Nat.le_add_right _ _, fun hne => ?_, hlen⟩
  exact Nat.lt_add_of_pos_right (hcounted hne)

omit [DecidableEq ι] in
theorem snapshot_of_saves {i : ι} {cmd : CutisCommand} {argv : List Bytes} {os : Os}
    (hsaves : cmd.proc.saves = true) {server : CutisServer} {fs : FileSystem} {status : CutisStatus}
    (heq : saveDB os.stdio σ.fs σ.server CUTIS_DB_NAME = (server, fs, status)) :
    σ.snapshot (.call i cmd argv os) =
      if status = .CUTIS_OK then some (dataset σ.server.dict) else none := by
  rw [snapshot, hsaves, heq]
  simp only [true_and]

theorem saveStep_of_call {i : ι} {cmd : CutisCommand} {argv : List Bytes} {os : Os} (h : σ.Sound)
    (hcall : CallOk cmd argv) (hact : σ.act (.call i cmd argv os) = .ok σ') :
    σ.SaveStep (.call i cmd argv os) σ' := by
  cases hcontrol : cmd.proc.control with
  | false =>
      obtain ⟨fs, child, bg_saving, last_save, dirty, counted, db_num⟩ :=
        call_keeps h hcall hcontrol hact
      refine .data fs child bg_saving last_save dirty counted db_num ?_
      rw [snapshot, saves_of_control hcontrol]
      exact if_neg fun hsaves => Bool.false_ne_true hsaves.1
  | true =>
      obtain ⟨-, s', hs, rfl⟩ := call_of_act hact
      generalize hproc : cmd.proc = proc at hs hcontrol
      cases proc <;> first | (cases hcontrol; done) | skip
      case SaveCommand =>
        change saveCommand os (σ.session i argv) = .ok s' at hs
        unfold saveCommand at hs
        split at hs <;> next heq =>
          cases hs
          have hsaves : cmd.proc.saves = true := by rw [hproc]; rfl
          exact .save os _ ⟨i, cmd, argv, rfl, hsaves⟩ heq rfl (snapshot_of_saves hsaves heq)
      case BgsaveCommand =>
        change bgsaveCommand os (σ.session i argv) = .ok s' at hs
        have hnote : σ.snapshot (.call i cmd argv os) = none := by
          rw [snapshot, hproc]
          exact if_neg fun hsaves => Bool.false_ne_true hsaves.1
        cases hbg : σ.server.bg_saving with
        | true =>
            rw [bgsaveCommand, session, hbg] at hs
            cases hs
            refine .data rfl rfl rfl rfl (Nat.le_refl _) (fun hne => absurd rfl hne) rfl hnote
        | false =>
            simp only [bgsaveCommand, saveDBBackground, session, hbg] at hs
            cases hs
            exact .start os σ.server rfl ⟨hbg, rfl⟩ rfl h.dict rfl rfl rfl rfl rfl hnote
      case ShutDownCommand =>
        change shutDownCommand os (σ.session i argv) = .ok s' at hs
        unfold shutDownCommand at hs
        split at hs <;> next heq =>
          cases hs
          have hsaves : cmd.proc.saves = true := by rw [hproc]; rfl
          exact .save os _ ⟨i, cmd, argv, rfl, hsaves⟩ heq rfl (snapshot_of_saves hsaves heq)

theorem waited_of_cron {io : CronOs} (h : σ.Sound) (hbg : σ.server.bg_saving = true)
    (hact : σ.act (.cron io) = .ok σ') : σ.Waited io σ' := by
  simp only [act] at hact
  split_ifs at hact
  · cases hact
  · obtain ⟨s', hs, hleave⟩ := bind_eq_ok.mp hact
    cases hleave
    obtain ⟨dict, -, hdataset, hcron⟩ := serverCron_eq io (s := σ.cronSession) h.dict
    rw [hcron, if_pos (by simpa [cronSession] using hbg)] at hs
    cases hs
    refine ⟨hbg, rfl, ?_, cronBooking_books io _,
      cronBooking_child io (ticked σ.cronSession dict) hbg⟩
    rw [cronBooking_dict]
    exact hdataset

theorem saveStep_of_cron {io : CronOs} (h : σ.Sound) (hact : σ.act (.cron io) = .ok σ') :
    σ.SaveStep (.cron io) σ' := by
  cases hbg : σ.server.bg_saving with
  | true => exact .wait io rfl (waited_of_cron h hbg hact)
  | false =>
      simp only [act] at hact
      split_ifs at hact
      · cases hact
      · obtain ⟨s', hs, hleave⟩ := bind_eq_ok.mp hact
        cases hleave
        obtain ⟨dict, hsound, hdataset, hcron⟩ :=
          serverCron_eq io (s := σ.cronSession) h.dict
        rw [hcron, if_neg (by simp [cronSession, hbg])] at hs
        cases hs
        rcases cronSaveParams_cases io (ticked σ.cronSession dict) with heq | heq
        · rw [heq]
          refine .data rfl rfl rfl rfl (Nat.le_refl _) (fun hne => absurd hdataset hne) ?_ rfl
          exact length_of_dataset hdataset
        · rw [heq, saveDBBackground_start io.os hbg]
          exact .start io.os (ticked σ.cronSession dict).server rfl ⟨hbg, rfl⟩ rfl hsound hdataset
            rfl rfl rfl hdataset rfl

theorem act_saveStep (h : σ.Sound) {a : Action ι} (hok : a.Ok) (hact : σ.act a = .ok σ') :
    σ.SaveStep a σ' := by
  cases a with
  | connect i =>
      simp only [act] at hact
      split_ifs at hact
      cases hact
      exact .data rfl rfl rfl rfl (Nat.le_refl _) (fun hne => absurd rfl hne) rfl rfl
  | call i cmd argv os => exact saveStep_of_call h hok hact
  | sent i n =>
      cases hact
      exact .data rfl rfl rfl rfl (Nat.le_refl _) (fun hne => absurd rfl hne) rfl rfl
  | cron io => exact saveStep_of_cron h hact
  | childWrite io => exact .child rfl (child_same rfl hact).1
  | childRename rename => exact .child rfl (child_same rfl hact).1
  | childExit => exact .child rfl (child_same rfl hact).1
  | childKill sig => exact .child rfl (child_same rfl hact).1

end SaveStep

-- The steps of the child.
inductive ChildStep (σ : System ι) (a : Action ι) (σ' : System ι) : Prop
  | idle (same : σ' = σ) (note : σ.snapshot a = none)
  | failed (c : Child) (child : σ.child = some c) (running : c.saved = none ∧ c.ended = none)
      (child' : σ'.child = some { c with saved := some .CUTIS_ERR })
      (fs : σ'.fs = σ.fs ∨ (∃ io : Stdio, σ'.fs = σ.fs.set io.tmpfile none) ∨
        ∃ tmpfile, c.tmpfile = some tmpfile ∧ σ'.fs = σ.fs.set tmpfile none)
      (note : σ.snapshot a = none)
  | written (c : Child) (io : Stdio) (fp : SaveFile) (action : a = .childWrite io)
      (child : σ.child = some c) (running : c.saved = none ∧ c.ended = none)
      (content : io.fopen = true ∧ saveContent io c.server.dict = some fp)
      (child' : σ'.child = some { c with tmpfile := some io.tmpfile })
      (fs : σ'.fs = σ.fs.set io.tmpfile (some (fp.content.take (fp.content.length - io.fclose))))
  | renamed (c : Child) (tmpfile content : Bytes) (child : σ.child = some c)
      (running : c.saved = none ∧ c.ended = none) (tmp : c.tmpfile = some tmpfile)
      (file : σ.fs tmpfile = some content)
      (child' : σ'.child = some { c with saved := some .CUTIS_OK })
      (fs : σ'.fs = (σ.fs.set tmpfile none).set CUTIS_DB_NAME (some content))
      (note : σ.snapshot a = some (dataset c.server.dict))
  | exited (c : Child) (saved : CutisStatus) (child : σ.child = some c) (hsaved : c.saved = some saved)
      (child' : σ'.child = some { c with ended := some (.exited (exitCode saved)) })
      (fs : σ'.fs = σ.fs) (note : σ.snapshot a = none)
  | killed (c : Child) (sig : Nat) (action : a = .childKill sig) (child : σ.child = some c)
      (child' : σ'.child = some { c with ended := some (.signaled sig) }) (fs : σ'.fs = σ.fs)

theorem act_childStep {σ σ' : System ι} {a : Action ι} (ha : a.ofChild = true)
    (hact : σ.act a = .ok σ') : σ.ChildStep a σ' := by
  cases a <;> first | (cases ha; done) | skip
  case childWrite io =>
    simp only [act] at hact
    split at hact
    · next server hchild =>
        cases hact
        unfold childWrite
        split_ifs with hopen
        · exact .failed _ hchild ⟨rfl, rfl⟩ rfl (Or.inl rfl) rfl
        · split
          · exact .failed _ hchild ⟨rfl, rfl⟩ rfl (Or.inr (Or.inl ⟨io, rfl⟩)) rfl
          · next fp hcontent =>
              exact .written _ io fp rfl hchild ⟨rfl, rfl⟩ ⟨by simpa using hopen, hcontent⟩ rfl rfl
    · cases hact
      exact .idle rfl rfl
  case childRename rename =>
    simp only [act] at hact
    split at hact
    · next server tmpfile hchild =>
        cases hact
        unfold childRename
        split
        · next _ _ _ content hfile =>
            refine .renamed _ tmpfile content hchild ⟨rfl, rfl⟩ rfl hfile rfl rfl ?_
            simp [snapshot, hchild, hfile]
        · next hcase =>
            refine .failed _ hchild ⟨rfl, rfl⟩ rfl (Or.inr (Or.inr ⟨tmpfile, rfl, rfl⟩)) ?_
            simp only [snapshot, hchild]
            refine if_neg fun hrename => ?_
            obtain ⟨content, hfile⟩ := Option.isSome_iff_exists.mp hrename.2
            exact hcase content hfile hrename.1
    · next hcase =>
        cases hact
        refine .idle rfl ?_
        rw [snapshot]
        split
        · next server tmpfile hchild => exact absurd hchild (hcase server tmpfile)
        · rfl
  case childExit =>
    simp only [act] at hact
    split at hact
    · next server tmpfile saved hchild =>
        cases hact
        exact .exited _ saved hchild rfl rfl rfl rfl
    · cases hact
      exact .idle rfl rfl
  case childKill sig =>
    simp only [act] at hact
    split at hact
    · next server tmpfile saved hchild =>
        cases hact
        exact .killed _ sig rfl hchild rfl rfl
    · cases hact
      exact .idle rfl rfl

section Bookings

-- A child was created, its SaveDB was successful, and it exited by itself.
def Genuine (σ : System ι) : Prop :=
  ∃ c, σ.child = some c ∧ c.saved = some .CUTIS_OK ∧ ∃ exit_code, c.ended = some (.exited exit_code)

-- A cron call books a background save as a success only where it was one.
def BookingOk (σ : System ι) : Action ι → Prop
  | .cron io => σ.server.bg_saving = true → io.books σ.child = true → σ.Genuine
  | _ => True

-- The fork of the background save succeeded, or the bytes on the stack happen to
-- hold another exit code; and no signal ended the child.
def WaitsWell (σ : System ι) : Action ι → Prop
  | .cron io =>
      (σ.server.bg_saving = true → σ.child = none → WEXITSTATUS io.stack ≠ 0) ∧
        (σ.server.bg_saving = true → ∀ c, σ.child = some c → ∀ sig, c.ended ≠ some (.signaled sig))
  | _ => True

-- The exit code of a child tells the result of its SaveDB.
def ExitsTruly (σ : System ι) : Prop :=
  ∀ c, σ.child = some c → ∀ exit_code, c.ended = some (.exited exit_code) →
    ∃ saved, c.saved = some saved ∧ exit_code = exitCode saved

theorem books_none (io : CronOs) : io.books none = true ↔ WEXITSTATUS io.stack = 0 := by
  simp [CronOs.books, wait4]

theorem books_ended (io : CronOs) {c : Child} {ended : ChildEnd} (h : c.ended = some ended) :
    io.books (some c) = true ↔ WEXITSTATUS ended.status = 0 := by
  simp [CronOs.books, wait4, h]

theorem books_running (io : CronOs) {c : Child} (h : c.ended = none) :
    io.books (some c) = false := by
  simp [CronOs.books, wait4, h]

theorem signaled_status (sig : Nat) : WEXITSTATUS (ChildEnd.signaled sig).status = 0 := by
  simp only [WEXITSTATUS, ChildEnd.status]
  omega

theorem exited_status (saved : CutisStatus) :
    WEXITSTATUS (ChildEnd.exited (exitCode saved)).status = 0 ↔ saved = .CUTIS_OK := by
  cases saved <;> decide

variable {σ σ' : System ι} {a : Action ι}

omit [DecidableEq ι] in
theorem bookingOk_iff (h : σ.ExitsTruly) : σ.BookingOk a ↔ σ.WaitsWell a := by
  cases a with
  | cron io =>
      constructor
      · intro hbook
        refine ⟨fun hbg hnone hstatus => ?_, fun hbg c hc sig hended => ?_⟩
        · obtain ⟨c, hc, -⟩ := hbook hbg (hnone ▸ (books_none io).mpr hstatus)
          cases hnone.symm.trans hc
        · obtain ⟨c', hc', -, code, hcode⟩ :=
            hbook hbg (hc ▸ (books_ended io hended).mpr (signaled_status sig))
          obtain rfl := Option.some.inj (hc.symm.trans hc')
          cases hended.symm.trans hcode
      · rintro ⟨hfork, hkill⟩ hbg hbooks
        cases hc : σ.child with
        | none =>
            rw [hc] at hbooks
            exact absurd ((books_none io).mp hbooks) (hfork hbg hc)
        | some c =>
            rw [hc] at hbooks
            cases hended : c.ended with
            | none => rw [books_running io hended] at hbooks; cases hbooks
            | some ended =>
                cases ended with
                | signaled sig => exact absurd hended (hkill hbg c hc sig)
                | exited code =>
                    obtain ⟨saved, hsaved, rfl⟩ := h c hc code hended
                    have hok := (exited_status saved).mp ((books_ended io hended).mp hbooks)
                    exact ⟨c, hc, hok ▸ hsaved, _, hended⟩
  | _ => exact Iff.rfl

theorem exitsTruly_step (hs : σ.Sound) (h : σ.ExitsTruly) (hok : a.Ok) (hact : σ.act a = .ok σ') :
    σ'.ExitsTruly := by
  have hopen {c' : Child} (hc' : σ'.child = some c') (hended : c'.ended = none) :
      σ'.ExitsTruly := by
    intro c hc code hcode
    obtain rfl := Option.some.inj (hc'.symm.trans hc)
    cases hended.symm.trans hcode
  have hnone (hc' : σ'.child = none) : σ'.ExitsTruly := by
    intro c hc
    cases hc'.symm.trans hc
  have hsame (hc' : σ'.child = σ.child) : σ'.ExitsTruly := by
    intro c hc
    exact h c (hc' ▸ hc)
  cases act_saveStep hs hok hact with
  | data _ child => exact hsame child
  | save _ _ _ _ child => exact hsame child
  | start os image _ _ child =>
      split_ifs at child
      · exact hopen child rfl
      · exact hsame child
  | wait io _ waited =>
      rcases waited.child with ⟨-, child, -⟩ | ⟨-, child, -⟩
      · exact hsame child
      · exact hnone child
  | child action =>
      cases act_childStep action hact with
      | idle same => exact same ▸ h
      | failed c _ running child' => exact hopen child' running.2
      | written c _ _ _ _ running _ child' => exact hopen child' running.2
      | renamed c _ _ _ running _ _ child' => exact hopen child' running.2
      | exited c saved _ hsaved child' =>
          intro c' hc' code hcode
          obtain rfl := Option.some.inj (child'.symm.trans hc')
          exact ⟨saved, hsaved, by simpa [eq_comm] using hcode⟩
      | killed c sig _ _ child' =>
          intro c' hc' code hcode
          obtain rfl := Option.some.inj (child'.symm.trans hc')
          cases hcode

-- While a background save goes on there is a child, and no signal has ended it.
def Attended (σ : System ι) : Prop :=
  σ.server.bg_saving = true → ∃ c, σ.child = some c ∧ ∀ sig, c.ended ≠ some (.signaled sig)

theorem saveDB_bg_saving (io : Stdio) (fs : FileSystem) (server : CutisServer) (filename : Bytes) :
    (saveDB io fs server filename).1.bg_saving = server.bg_saving := by
  rw [saveDB]
  split
  · rfl
  · split
    · rfl
    · dsimp only
      split <;> rfl

theorem attended_step (hs : σ.Sound) (h : σ.Attended) (hok : a.Ok) (hunharmed : a.Unharmed)
    (hact : σ.act a = .ok σ') : σ'.Attended := by
  have hsame (hc : σ'.child = σ.child) (hbg : σ'.server.bg_saving = σ.server.bg_saving) :
      σ'.Attended := by
    rw [Attended, hc, hbg]
    exact h
  have hnew {c' : Child} (hc' : σ'.child = some c') (hended : ∀ sig, c'.ended ≠ some (.signaled sig)) :
      σ'.Attended := fun _ => ⟨c', hc', hended⟩
  have hopen {c' : Child} (hc' : σ'.child = some c') (hended : c'.ended = none) : σ'.Attended :=
    hnew hc' fun sig hsig => by cases hended.symm.trans hsig
  cases act_saveStep hs hok hact with
  | data _ child bg_saving => exact hsame child bg_saving
  | save os status _ saved child =>
      refine hsame child ?_
      have hbg := saveDB_bg_saving os.stdio σ.fs σ.server CUTIS_DB_NAME
      rwa [saved] at hbg
  | start os image action _ child =>
      rw [if_pos (hunharmed.1 os action)] at child
      exact hopen child rfl
  | wait io _ waited =>
      rcases waited.child with ⟨-, child, hbg⟩ | ⟨-, -, hbg⟩
      · exact hsame child (hbg.trans waited.bg_saving.symm)
      · intro hbg'
        cases hbg.symm.trans hbg'
  | child action server =>
      cases act_childStep action hact with
      | idle same => exact same ▸ h
      | failed c _ running child' => exact hopen child' running.2
      | written c _ _ _ _ running _ child' => exact hopen child' running.2
      | renamed c _ _ _ running _ _ child' => exact hopen child' running.2
      | exited c saved _ _ child' => exact hnew child' fun sig hsig => by cases hsig
      | killed c sig action => exact absurd action (hunharmed.2 sig)

-- A background save is booked as a success only where it was one, exactly in the runs
-- without a failed fork whose wait takes up a zero and without a killed child.
theorem bookings_iff {σ : System ι} (h : σ.Start) (actions : List (Action ι))
    (hok : ∀ a ∈ actions, a.Ok) :
    (Runs.Always act BookingOk σ actions ↔ Runs.Always act WaitsWell σ actions) ∧
      ((∀ a ∈ actions, a.Unharmed) → Runs.Always act BookingOk σ actions) := by
  have htruly : σ.ExitsTruly := by
    intro c hc
    rw [h.child] at hc
    cases hc
  have hattended : σ.Attended := by
    intro hbg
    rw [h.bg_saving] at hbg
    cases hbg
  constructor
  · refine Runs.always_iff (I := fun σ => σ.Sound ∧ σ.ExitsTruly) ?_ ?_ actions σ
      ⟨h.sound, htruly⟩ hok
    · exact fun _ _ _ hs ha hact => ⟨act_sound hs.1 ha hact, exitsTruly_step hs.1 hs.2 ha hact⟩
    · exact fun _ _ hs _ => bookingOk_iff hs.2
  · intro hunharmed
    have hboth : ∀ a ∈ actions, a.Ok ∧ a.Unharmed := fun a ha => ⟨hok a ha, hunharmed a ha⟩
    refine Runs.always_of_invariant (I := fun σ => σ.Sound ∧ σ.ExitsTruly ∧ σ.Attended) ?_ ?_
      actions σ ⟨h.sound, htruly, hattended⟩ hboth
    · exact fun _ _ _ hs ha hact => ⟨act_sound hs.1 ha.1 hact, exitsTruly_step hs.1 hs.2.1 ha.1 hact,
        attended_step hs.1 hs.2.2 ha.1 ha.2 hact⟩
    · rintro s a ⟨-, htruly, hattended⟩ -
      refine (bookingOk_iff htruly).mpr ?_
      cases a with
      | cron io =>
          refine ⟨fun hbg hnone => ?_, fun hbg c hc sig => ?_⟩
          · obtain ⟨c, hc, -⟩ := hattended hbg
            cases hnone.symm.trans hc
          · obtain ⟨c', hc', hended⟩ := hattended hbg
            obtain rfl := Option.some.inj (hc.symm.trans hc')
            exact hended sig
      | _ => trivial

def bgsaveEntry : CutisCommand := ⟨"bgsave", .BgsaveCommand, 1, .CUTIS_CMD_INLINE⟩

def bgsaveCall (fork : Bool) : Action Unit :=
  .call () bgsaveEntry [sdsnew "bgsave"] { plainOs with fork }

theorem bgsaveCall_ok (fork : Bool) : (bgsaveCall fork).Ok where
  mem := by decide
  accepts := by decide
  words := by decide
  payload := nofun

def cronTick : Action Unit := .cron { os := plainOs, now := 0, stack := 0 }

def backgroundRun : List (Action Unit) :=
  [bgsaveCall true, .childWrite plainOs.stdio, .childRename true, .childExit, cronTick]

theorem backgroundRun_ok {a : Action Unit} (ha : a ∈ backgroundRun) : a.Ok ∧ a.Unharmed := by
  have hfork {a : Action Unit} {os : Os} (hos : a.os = some os) (hfork : os.fork = true)
      (hkill : ∀ sig, a ≠ .childKill sig) : a.Unharmed := by
    refine ⟨fun os' hos' => ?_, hkill⟩
    rw [hos] at hos'
    exact Option.some.inj hos' ▸ hfork
  have hchild {a : Action Unit} (hos : a.os = none) (hkill : ∀ sig, a ≠ .childKill sig) :
      a.Unharmed := by
    refine ⟨fun os' hos' => ?_, hkill⟩
    rw [hos] at hos'
    cases hos'
  simp only [backgroundRun, List.mem_cons, List.not_mem_nil, or_false] at ha
  rcases ha with rfl | rfl | rfl | rfl | rfl
  · exact ⟨bgsaveCall_ok true, hfork rfl rfl (by rintro sig ⟨⟩)⟩
  · exact ⟨trivial, hchild rfl (by rintro sig ⟨⟩)⟩
  · exact ⟨trivial, hchild rfl (by rintro sig ⟨⟩)⟩
  · exact ⟨trivial, hchild rfl (by rintro sig ⟨⟩)⟩
  · exact ⟨trivial, hfork rfl rfl (by rintro sig ⟨⟩)⟩

theorem bookings_bgsave : Runs.Always act BookingOk (init Unit 1) backgroundRun :=
  (bookings_iff (start_init Nat.one_pos) backgroundRun fun _ ha => (backgroundRun_ok ha).1).2
    fun _ ha => (backgroundRun_ok ha).2

theorem act_bgsave {σ : System Unit} (hstop : σ.stop = false) (hbg : σ.server.bg_saving = false)
    (fork : Bool) :
    ∃ σ', σ.act (bgsaveCall fork) = .ok σ' ∧ σ'.server = { σ.server with bg_saving := true } ∧
      σ'.child = (if fork then some ⟨σ.server, none, none, none⟩ else σ.child) ∧
      (σ'.clients ()).dict = (σ.clients ()).dict ∧ σ'.fs = σ.fs ∧ σ'.stop = false := by
  have hcall : bgsaveEntry.proc.call { plainOs with fork } (σ.session () [sdsnew "bgsave"]) =
      .ok ((saveDBBackground { plainOs with fork } (σ.session () [sdsnew "bgsave"])).1.addReply
        shared.ok) := by
    show bgsaveCommand _ _ = _
    simp only [bgsaveCommand, saveDBBackground, session, hbg]
    rfl
  refine ⟨_, act_call hstop hcall, ?_⟩
  rw [saveDBBackground_start _ hbg]
  exact ⟨rfl, rfl, rfl, rfl, hstop⟩

-- The child is killed before it has written anything: its status has the exit code 0.
theorem not_bookings_killed :
    ¬Runs.Always act BookingOk (init Unit 1) [bgsaveCall true, .childKill 9, cronTick] := by
  rintro ⟨-, hrun⟩
  have hstart : (init Unit 1).Start := start_init Nat.one_pos
  obtain ⟨σ₁, hact₁, hserver₁, hchild₁, -⟩ := act_bgsave hstart.stop hstart.bg_saving true
  have hkill : ∃ σ₂, σ₁.act (.childKill 9) = .ok σ₂ ∧ σ₂.server = σ₁.server ∧
      σ₂.child = some ⟨(init Unit 1).server, none, none, some (.signaled 9)⟩ := by
    simp only [act, hchild₁]
    exact ⟨_, rfl, rfl, rfl⟩
  obtain ⟨σ₂, hact₂, hserver₂, hchild₂⟩ := hkill
  have hbg : σ₂.server.bg_saving = true := by rw [hserver₂, hserver₁]
  have hbooking : σ₂.BookingOk cronTick := ((hrun σ₁ hact₁).2 σ₂ hact₂).1
  have hbooks : CronOs.books { os := plainOs, now := 0, stack := 0 } σ₂.child = true :=
    hchild₂ ▸ (books_ended _ rfl).mpr (signaled_status 9)
  obtain ⟨c, hc, -, code, hended⟩ := hbooking hbg hbooks
  obtain rfl := Option.some.inj (hchild₂.symm.trans hc)
  cases hended

end Bookings

end System

end Cutis

import Cutis.Command.Calls
import Cutis.Server.Cron

namespace Cutis

def CommandProc.control : CommandProc → Bool
  | .SaveCommand | .BgsaveCommand | .ShutDownCommand => true
  | _ => false

namespace Session

-- The databases, the client's choice of one and the reply queue are all a command
-- on data touches, and a change of the contents is counted.
def DataStep (s s' : Session) : Prop :=
  ∃ dict selected changes reply, s' = s.after dict selected changes reply ∧
    (∀ db ∈ dict, SoundDatabase db) ∧ (∀ ks ∈ dataset dict, ks.Clean) ∧
    dict.length = s.server.dict.length ∧ selected < dict.length ∧
    (dataset dict ≠ dataset s.server.dict → 0 < changes)

section DataStep

variable {s s' : Session}

theorem dataStep_reply (h : s.Sound) (reply : List Bytes) :
    s.DataStep (s.after s.server.dict s.client.dict 0 reply) :=
  ⟨_, _, _, _, rfl, h.dict, h.clean, rfl, h.selected, fun hne => absurd rfl hne⟩

theorem dataStep_of_follows (h : s.Sound) {cmd : CutisCommand} {argv : List Bytes}
    (hcall : CallOk cmd argv) {o : Outcome} (ho : s.model.outcome argv cmd.proc = some o)
    (hs : s.Follows o s') : s.DataStep s' := by
  obtain ⟨dict, selected, reply, rfl, hsound, hmodel, -⟩ := hs
  have hsel : s.model.selected < s.model.dataset.length := by
    simpa [model, dataset] using h.selected
  have hclean := Model.outcome_clean (m := s.model) h.clean hcall ho
  obtain ⟨hlen, hrange⟩ := Model.outcome_inRange hsel ho
  have hcounted := (Model.outcome_counts hsel ho).counted
  rw [hmodel] at hclean hlen hrange hcounted
  simp only [model, dataset, List.length_map] at hlen hrange
  exact ⟨dict, selected, o.changes, reply, rfl, hsound, hclean, hlen, hrange,
    fun hne => (hcounted hne).1⟩

theorem dataStep_of_answer (h : s.Sound) {r : Reply} (hs : s.Follows (s.model.answer r) s') :
    s.DataStep s' := by
  obtain ⟨dict, selected, reply, rfl, hsound, hmodel, -⟩ := hs
  obtain ⟨hdataset, rfl⟩ := Model.mk.inj hmodel
  have hlen : dict.length = s.server.dict.length := by
    simpa [dataset] using (congrArg List.length hdataset).symm
  refine ⟨dict, _, 0, reply, rfl, hsound, hdataset ▸ h.clean, hlen, ?_, fun hne => ?_⟩
  · rw [hlen]
    exact h.selected
  · exact absurd hdataset.symm hne

theorem sInterReply_dataStep (h : s.Sound) {os : Os} {dv : List (Dict Bytes Unit)}
    (hs : sInterReply os s dv = .ok s') : s.DataStep s' := by
  cases hsorted : os.qsort dv with
  | nil =>
      rw [sInterReply, hsorted] at hs
      cases hs
  | cons smallest others =>
      rw [sInterReply_eq hsorted, sInterElements_eq] at hs
      exact Except.ok.inj hs ▸ dataStep_reply h _

theorem query_dataStep (h : s.Sound) {cmd : CutisCommand} {argv : List Bytes}
    (hcall : CallOk cmd argv) (hargs : s.client.argv = argv) {os : Os}
    (hcontrol : cmd.proc.control = false)
    (hquery : cmd.proc = .EchoCommand ∨ s.model.outcome argv cmd.proc = none)
    (hs : cmd.proc.call os s = .ok s') : s.DataStep s' := by
  have hargc := hcall.argc
  generalize hproc : cmd.proc = proc at *
  cases proc <;> first
    | (cases hcontrol; done)
    | (rcases hquery with hquery | hquery <;> (cases hquery; done))
    | skip
  case EchoCommand =>
    have harg := getD_arg hargs (Nat.lt_of_lt_of_le (by decide : 1 < 2) hargc)
    simp only [CommandProc.call, echoCommand, arg_eq harg, bind, Except.bind, addBulk_eq] at hs
    exact Except.ok.inj hs ▸ dataStep_reply h _
  case SInterCommand =>
    obtain ⟨db, hdb, -⟩ := db_eq h
    change sInterCommand os s = .ok s' at hs
    rw [sInterCommand, hdb, ok_bind] at hs
    cases hsets : sInterSets db s.client.argv.tail with
    | error fault => rw [hsets, error_bind] at hs; cases hs
    | ok sets =>
        rw [hsets, ok_bind] at hs
        cases sets with
        | none => exact Except.ok.inj hs ▸ dataStep_reply h [bulkError "No such key"]
        | some dv => exact sInterReply_dataStep h hs
  case RandomKeyCommand =>
    obtain ⟨db, hdb, -⟩ := db_eq h
    simp only [CommandProc.call, randomKeyCommand, hdb, bind, Except.bind] at hs
    cases hrandom : dictGetRandomKey db os.random with
    | error fault => rw [hrandom] at hs; cases hs
    | ok result =>
        rw [hrandom] at hs
        obtain ⟨de, rest⟩ := result
        cases de with
        | none => exact Except.ok.inj hs ▸ dataStep_reply h [shared.crlf]
        | some de =>
            simp only [addReplySds, addReply_two] at hs
            exact Except.ok.inj hs ▸ dataStep_reply h _
  case KeysCommand =>
    have harg := getD_arg hargs (Nat.lt_of_lt_of_le (by decide : 1 < 2) hargc)
    by_cases hmatch : MatchesInBounds s.model.keyspace (argv.getD 1 [])
    · obtain ⟨body, s'', hok, hfollows⟩ := keysCommand_meets h harg hmatch
      obtain rfl := Except.ok.inj (hok.symm.trans hs)
      exact dataStep_of_answer h hfollows
    · obtain ⟨fault, hfault⟩ := keysCommand_fault h harg hmatch
      cases hfault.symm.trans hs
  case LastSaveCommand => exact Except.ok.inj hs ▸ dataStep_reply h _

theorem call_dataStep (h : s.Sound) {cmd : CutisCommand} {argv : List Bytes}
    (hcall : CallOk cmd argv) (hargs : s.client.argv = argv) {os : Os}
    (hcontrol : cmd.proc.control = false) (hs : cmd.proc.call os s = .ok s') : s.DataStep s' := by
  by_cases hecho : cmd.proc = .EchoCommand
  · exact query_dataStep h hcall hargs hcontrol (Or.inl hecho) hs
  cases ho : s.model.outcome argv cmd.proc with
  | none => exact query_dataStep h hcall hargs hcontrol (Or.inr ho) hs
  | some o =>
      by_cases hroom : s.model.HasRoom argv cmd.proc
      · obtain ⟨s'', hok, hfollows⟩ := call_meets h os hargs hcall.argc hroom
          (fun he => absurd he hecho) ho
        obtain rfl := Except.ok.inj (hok.symm.trans hs)
        exact dataStep_of_follows h hcall ho hfollows
      · obtain ⟨fault, hfault⟩ := call_fault h os hargs hcall.argc hroom
        cases hfault.symm.trans hs

end DataStep

end Session

-- The server with all its clients, the files, and the child that saves in the
-- background.
structure System (ι : Type) where
  server : CutisServer
  clients : ι → CutisClient
  fs : FileSystem
  child : Option Child
  stop : Bool

-- The events of a run. The steps of the child come in any order with the others.
inductive Action (ι : Type)
  | connect (i : ι)
  | call (i : ι) (cmd : CutisCommand) (argv : List Bytes) (os : Os)
  | sent (i : ι) (n : Nat)
  | cron (io : CronOs)
  | childWrite (io : Stdio)
  | childRename (rename : Bool)
  | childExit
  | childKill (sig : Nat)

-- The calls are those the parser makes.
def Action.Ok {ι : Type} : Action ι → Prop
  | .call _ cmd argv _ => CallOk cmd argv
  | _ => True

def Action.ofChild {ι : Type} : Action ι → Bool
  | .childWrite _ | .childRename _ | .childExit | .childKill _ => true
  | _ => false

namespace System

variable {ι : Type} [DecidableEq ι]

def session (σ : System ι) (i : ι) (argv : List Bytes) : Session where
  server := σ.server
  client := { σ.clients i with argv }
  fs := σ.fs
  child := σ.child
  stop := σ.stop

-- ResetClient frees the arguments.
def leave (σ : System ι) (i : ι) (s : Session) : System ι where
  server := s.server
  clients := Function.update σ.clients i { s.client with argv := [] }
  fs := s.fs
  child := s.child
  stop := s.stop

-- The cron function looks at no client.
def cronSession (σ : System ι) : Session where
  server := σ.server
  client := { dict := 0, argv := [], reply := [] }
  fs := σ.fs
  child := σ.child
  stop := σ.stop

-- The part of SaveDB up to the rename, in the child.
def childWrite (σ : System ι) (c : Child) (io : Stdio) : System ι :=
  if !io.fopen then { σ with child := some { c with saved := some .CUTIS_ERR } }
  else
    match saveContent io c.server.dict with
    | none =>
        { σ with
          fs := σ.fs.set io.tmpfile none
          child := some { c with saved := some .CUTIS_ERR } }
    | some fp =>
        { σ with
          fs := σ.fs.set io.tmpfile (some (fp.content.take (fp.content.length - io.fclose)))
          child := some { c with tmpfile := some io.tmpfile } }

-- The rest of SaveDB. The rename also fails where the file is gone.
def childRename (σ : System ι) (c : Child) (tmpfile : Bytes) (rename : Bool) : System ι :=
  match σ.fs tmpfile, rename with
  | some content, true =>
      { σ with
        fs := (σ.fs.set tmpfile none).set CUTIS_DB_NAME (some content)
        child := some { c with saved := some .CUTIS_OK } }
  | _, _ =>
      { σ with
        fs := σ.fs.set tmpfile none
        child := some { c with saved := some .CUTIS_ERR } }

def exitCode (saved : CutisStatus) : Nat := if saved = .CUTIS_OK then 0 else 1

-- Nothing runs in the server after SHUTDOWN, but the child goes on.
def act (σ : System ι) : Action ι → Except Fault (System ι)
  | .connect i =>
      if σ.stop then throw .exit
      else return { σ with clients := Function.update σ.clients i ⟨0, [], []⟩ }
  | .call i cmd argv os => do
      if σ.stop then throw .exit
      let s ← cmd.proc.call os (σ.session i argv)
      return σ.leave i s
  | .sent i n =>
      let c := σ.clients i
      return { σ with clients := Function.update σ.clients i { c with reply := c.reply.drop n } }
  | .cron io => do
      if σ.stop then throw .exit
      let s ← serverCron io σ.cronSession
      return { σ with server := s.server, child := s.child }
  | .childWrite io =>
      match σ.child with
      | some { server, tmpfile := none, saved := none, ended := none } =>
          return σ.childWrite { server, tmpfile := none, saved := none, ended := none } io
      | _ => return σ
  | .childRename rename =>
      match σ.child with
      | some { server, tmpfile := some tmpfile, saved := none, ended := none } =>
          return σ.childRename { server, tmpfile := some tmpfile, saved := none, ended := none }
            tmpfile rename
      | _ => return σ
  | .childExit =>
      match σ.child with
      | some { server, tmpfile, saved := some saved, ended := none } =>
          return { σ with
            child := some { server, tmpfile, saved, ended := some (.exited (exitCode saved)) } }
      | _ => return σ
  | .childKill sig =>
      match σ.child with
      | some { server, tmpfile, saved, ended := none } =>
          return { σ with child := some { server, tmpfile, saved, ended := some (.signaled sig) } }
      | _ => return σ

structure Sound (σ : System ι) : Prop where
  dict : ∀ db ∈ σ.server.dict, SoundDatabase db
  clean : ∀ ks ∈ dataset σ.server.dict, ks.Clean
  selected : ∀ i, (σ.clients i).dict < σ.server.dict.length
  db_num : 0 < σ.server.dict.length

section Sound

variable {σ σ' : System ι}

omit [DecidableEq ι] in
theorem Sound.session (h : σ.Sound) (i : ι) (argv : List Bytes) : (σ.session i argv).Sound :=
  ⟨h.dict, h.selected i, h.clean⟩

theorem saveDB_dict (io : Stdio) (fs : FileSystem) (server : CutisServer) (filename : Bytes) :
    (saveDB io fs server filename).1.dict = server.dict := by
  rw [saveDB]
  split
  · rfl
  · split
    · rfl
    · dsimp only
      split <;> rfl

-- The control commands leave the databases and the client's choice alone.
theorem control_dict {s s' : Session} {proc : CommandProc} {os : Os}
    (hcontrol : proc.control = true) (hs : proc.call os s = .ok s') :
    s'.server.dict = s.server.dict ∧ s'.client.dict = s.client.dict := by
  cases proc <;> first | (cases hcontrol; done) | skip
  case SaveCommand =>
    change saveCommand os s = .ok s' at hs
    have hdict := saveDB_dict os.stdio s.fs s.server CUTIS_DB_NAME
    unfold saveCommand at hs
    split at hs <;> next heq => rw [heq] at hdict; cases hs; exact ⟨hdict, rfl⟩
  case BgsaveCommand =>
    change bgsaveCommand os s = .ok s' at hs
    unfold bgsaveCommand saveDBBackground at hs
    split at hs
    · cases hs
      exact ⟨rfl, rfl⟩
    · cases hs
      exact ⟨rfl, rfl⟩
  case ShutDownCommand =>
    change shutDownCommand os s = .ok s' at hs
    have hdict := saveDB_dict os.stdio s.fs s.server CUTIS_DB_NAME
    unfold shutDownCommand at hs
    split at hs <;> next heq => rw [heq] at hdict; cases hs; exact ⟨hdict, rfl⟩

omit [DecidableEq ι] in
-- A call leaves sound databases, and the client with one of them.
theorem call_sound (h : σ.Sound) {i : ι} {cmd : CutisCommand} {argv : List Bytes}
    (hcall : CallOk cmd argv) {os : Os} {s' : Session}
    (hs : cmd.proc.call os (σ.session i argv) = .ok s') :
    (∀ db ∈ s'.server.dict, SoundDatabase db) ∧ (∀ ks ∈ dataset s'.server.dict, ks.Clean) ∧
      s'.server.dict.length = σ.server.dict.length ∧ s'.client.dict < σ.server.dict.length := by
  by_cases hcontrol : cmd.proc.control = true
  · obtain ⟨hdict, hselected⟩ := control_dict hcontrol hs
    rw [hdict, hselected]
    exact ⟨h.dict, h.clean, rfl, h.selected i⟩
  · obtain ⟨dict, selected, changes, reply, rfl, hdict, hclean, hlen, hselected, -⟩ :=
      Session.call_dataStep (h.session i argv) hcall rfl (by simpa using hcontrol) hs
    exact ⟨hdict, hclean, hlen, hlen ▸ hselected⟩

theorem cronBooking_dict (io : CronOs) (s : Session) :
    (cronBooking io s).server.dict = s.server.dict := by
  unfold cronBooking
  split
  · rfl
  · dsimp only
    split <;> rfl

theorem cronSaveParams_dict (io : CronOs) (s : Session) :
    (cronSaveParams io s).server.dict = s.server.dict := by
  unfold cronSaveParams saveDBBackground
  split
  · split <;> rfl
  · rfl

-- A cron call after the look at the table sizes.
def ticked (s : Session) (dict : List Database) : Session :=
  { s with server := { s.server with dict, cron_loops := s.server.cron_loops + 1 } }

theorem serverCron_eq (io : CronOs) {s : Session} (h : ∀ db ∈ s.server.dict, SoundDatabase db) :
    ∃ dict, (∀ db ∈ dict, SoundDatabase db) ∧ dataset dict = dataset s.server.dict ∧
      serverCron io s = .ok
        (if s.server.bg_saving then cronBooking io (ticked s dict)
          else cronSaveParams io (ticked s dict)) := by
  obtain ⟨dict, hok, hsound, hdataset⟩ := cronResizeAll_ok h
  refine ⟨dict, hsound, hdataset, ?_⟩
  rw [serverCron, hok, ok_bind]
  dsimp only
  split <;> rfl

-- The child never touches the memory of the server.
theorem child_same {a : Action ι} (ha : a.ofChild = true) (hact : σ.act a = .ok σ') :
    σ'.server = σ.server ∧ σ'.clients = σ.clients ∧ σ'.stop = σ.stop := by
  cases a <;> first | (cases ha; done) | skip
  case childWrite io =>
    simp only [act] at hact
    split at hact
    · cases hact
      unfold childWrite
      split
      · exact ⟨rfl, rfl, rfl⟩
      · split <;> exact ⟨rfl, rfl, rfl⟩
    · cases hact
      exact ⟨rfl, rfl, rfl⟩
  case childRename rename =>
    simp only [act] at hact
    split at hact
    · cases hact
      unfold childRename
      split <;> exact ⟨rfl, rfl, rfl⟩
    · cases hact
      exact ⟨rfl, rfl, rfl⟩
  case childExit =>
    simp only [act] at hact
    split at hact <;> cases hact <;> exact ⟨rfl, rfl, rfl⟩
  case childKill sig =>
    simp only [act] at hact
    split at hact <;> cases hact <;> exact ⟨rfl, rfl, rfl⟩

omit [DecidableEq ι] in
theorem Sound.of_same (h : σ.Sound)
    (hsame : σ'.server = σ.server ∧ σ'.clients = σ.clients ∧ σ'.stop = σ.stop) : σ'.Sound := by
  obtain ⟨hserver, hclients, -⟩ := hsame
  exact ⟨hserver ▸ h.dict, hserver ▸ h.clean, by rw [hserver, hclients]; exact h.selected,
    hserver ▸ h.db_num⟩

theorem act_sound (h : σ.Sound) {a : Action ι} (hok : a.Ok) (hact : σ.act a = .ok σ') :
    σ'.Sound := by
  cases a with
  | connect i =>
      simp only [act] at hact
      split_ifs at hact
      cases hact
      refine ⟨h.dict, h.clean, fun j => ?_, h.db_num⟩
      by_cases hj : j = i
      · subst hj
        simpa using h.db_num
      · simpa [Function.update_of_ne hj] using h.selected j
  | call i cmd argv os =>
      simp only [act] at hact
      split_ifs at hact
      · cases hact
      · obtain ⟨s', hs, hleave⟩ := bind_eq_ok.mp hact
        cases hleave
        obtain ⟨hdict, hclean, hlen, hselected⟩ := call_sound h hok hs
        refine ⟨hdict, hclean, fun j => ?_, ?_⟩
        · by_cases hj : j = i
          · subst hj
            simpa [leave, hlen] using hselected
          · simpa [leave, Function.update_of_ne hj, hlen] using h.selected j
        · simpa [leave, hlen] using h.db_num
  | sent i n =>
      cases hact
      refine ⟨h.dict, h.clean, fun j => ?_, h.db_num⟩
      by_cases hj : j = i
      · subst hj
        simpa using h.selected j
      · simpa [Function.update_of_ne hj] using h.selected j
  | cron io =>
      simp only [act] at hact
      split_ifs at hact
      · cases hact
      · obtain ⟨s', hs, hleave⟩ := bind_eq_ok.mp hact
        cases hleave
        obtain ⟨dict, hsound, hdataset, hcron⟩ := serverCron_eq io (s := σ.cronSession) h.dict
        have hdict : s'.server.dict = dict := by
          rw [hcron] at hs
          cases hs
          split
          · exact cronBooking_dict _ _
          · exact cronSaveParams_dict _ _
        have hlen : dict.length = σ.server.dict.length := by
          simpa [dataset, cronSession] using congrArg List.length hdataset
        refine ⟨by rwa [hdict], ?_, fun j => ?_, ?_⟩
        · rw [hdict, hdataset]
          exact h.clean
        · simpa [hdict, hlen] using h.selected j
        · simpa [hdict, hlen] using h.db_num
  | childWrite io => exact h.of_same (child_same rfl hact)
  | childRename rename => exact h.of_same (child_same rfl hact)
  | childExit => exact h.of_same (child_same rfl hact)
  | childKill sig => exact h.of_same (child_same rfl hact)

end Sound

section Runs

-- The server starts with an empty dataset, or with one it has loaded.
structure Start (σ : System ι) : Prop where
  sound : σ.Sound
  bg_saving : σ.server.bg_saving = false
  child : σ.child = none
  stop : σ.stop = false

def Reachable (σ : System ι) : Prop :=
  Runs.Reach act (fun _ _ _ _ => ()) (fun σ _ => Start σ) (fun _ _ a => a.Ok) σ ()

theorem Reachable.sound {σ : System ι} (h : σ.Reachable) : σ.Sound := by
  refine Runs.Reach.invariant (I := fun σ _ => σ.Sound) ?_ ?_ h
  · exact fun _ _ hs => hs.sound
  · exact fun _ _ _ _ hs hok hact => act_sound hs hok hact

-- Empty databases, no save parameters and no files.
def init (ι : Type) (db_num : Nat) : System ι where
  server := initServer db_num [] 0
  clients := fun _ => ⟨0, [], []⟩
  fs := fun _ => none
  child := none
  stop := false

omit [DecidableEq ι] in
theorem dataset_init (db_num : Nat) :
    dataset (init ι db_num).server.dict = List.replicate db_num ∅ := by
  simp [dataset, init, initServer]

omit [DecidableEq ι] in
theorem start_init {db_num : Nat} (hpos : 0 < db_num) : (init ι db_num).Start where
  sound :=
    { dict := fun db hdb => List.eq_of_mem_replicate hdb ▸ soundDatabase_dictCreate
      clean := by
        rw [dataset_init]
        intro ks hks key v hlook
        rw [List.eq_of_mem_replicate hks, Finmap.lookup_empty] at hlook
        cases hlook
      selected := fun _ => by simpa [init, initServer] using hpos
      db_num := by simpa [init, initServer] using hpos }
  bg_saving := rfl
  child := rfl
  stop := rfl

end Runs

end System

end Cutis

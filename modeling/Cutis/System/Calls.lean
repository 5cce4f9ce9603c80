import Cutis.Server.RoundTrip
import Cutis.System

namespace Cutis

-- The commands that may change a database.
def CommandProc.writes : CommandProc → Bool
  | .SetCommand | .SetnxCommand | .DelCommand | .IncrCommand | .DecrCommand | .LPushCommand
  | .RPushCommand | .LPopCommand | .RPopCommand | .LTrimCommand | .LSetCommand | .SAddCommand
  | .SRemCommand | .MoveCommand | .RenameCommand | .RenamenxCommand => true
  | _ => false

namespace System

variable {ι : Type} [DecidableEq ι]

def model (σ : System ι) (i : ι) : Model where
  dataset := dataset σ.server.dict
  selected := (σ.clients i).dict

-- The call of client i had the outcome, and nobody else noticed.
structure Answers (σ : System ι) (i : ι) (o : Outcome) (σ' : System ι) : Prop where
  model : σ'.model i = o.model
  dirty : σ'.server.dirty = σ.server.dirty + o.changes
  reply : (σ'.clients i).reply.flatten = (σ.clients i).reply.flatten ++ o.reply.encode
  others : ∀ j, j ≠ i → σ'.clients j = σ.clients j
  stop : σ'.stop = σ.stop

section Calls

variable {σ σ' : System ι} {i : ι} {cmd : CutisCommand} {argv : List Bytes} {os : Os}

theorem act_call (hstop : σ.stop = false) {result : Except Fault Session}
    (hresult : cmd.proc.call os (σ.session i argv) = result) :
    σ.act (.call i cmd argv os) = result.map (σ.leave i) := by
  rw [act, hstop, hresult]
  cases result <;> rfl

theorem call_of_act (h : σ.act (.call i cmd argv os) = .ok σ') :
    σ.stop = false ∧ ∃ s', cmd.proc.call os (σ.session i argv) = .ok s' ∧ σ' = σ.leave i s' := by
  simp only [act] at h
  split_ifs at h with hstop
  · cases h
  · obtain ⟨s', hs, hleave⟩ := bind_eq_ok.mp h
    cases hleave
    exact ⟨by simpa using hstop, s', hs, rfl⟩

theorem answers_of_follows {o : Outcome} {s' : Session} (h : (σ.session i argv).Follows o s') :
    σ.Answers i o (σ.leave i s') := by
  obtain ⟨dict, selected, reply, rfl, -, hmodel, hreply⟩ := h
  refine ⟨?_, rfl, ?_, fun j hj => Function.update_of_ne hj _ _, rfl⟩
  · rw [hmodel]
    simp [model, leave, Session.after]
  · simp only [leave, Session.after, session, Function.update_self, List.flatten_append, hreply]

theorem act_answers (hstop : σ.stop = false) {o : Outcome}
    (h : (σ.session i argv).Meets (cmd.proc.call os (σ.session i argv)) o) :
    ∃ σ', σ.act (.call i cmd argv os) = .ok σ' ∧ σ.Answers i o σ' := by
  obtain ⟨s', hs, hfollows⟩ := h
  exact ⟨σ.leave i s', act_call hstop hs, answers_of_follows hfollows⟩

variable (h : σ.Sound) (hcall : CallOk cmd argv)

include h hcall

theorem call_answers (hstop : σ.stop = false) (os : Os)
    (hroom : (σ.model i).HasRoom argv cmd.proc)
    (hecho : cmd.proc = .EchoCommand → (argv.getD 1 []).length < 2 ^ 31) {o : Outcome}
    (ho : (σ.model i).outcome argv cmd.proc = some o) :
    ∃ σ', σ.act (.call i cmd argv os) = .ok σ' ∧ σ.Answers i o σ' :=
  act_answers hstop (Session.call_meets (h.session i argv) os rfl hcall.argc hroom hecho ho)

theorem call_no_room (hroom : ¬(σ.model i).HasRoom argv cmd.proc) (os : Os) :
    ¬∃ σ', σ.act (.call i cmd argv os) = .ok σ' := by
  rintro ⟨σ', hact⟩
  obtain ⟨-, s', hs, -⟩ := call_of_act hact
  obtain ⟨fault, hfault⟩ := Session.call_fault (h.session i argv) os rfl hcall.argc hroom
  cases hfault.symm.trans hs

-- What a call that returned did, for the commands with a single outcome.
theorem answers_of_act {o : Outcome} (hact : σ.act (.call i cmd argv os) = .ok σ')
    (hecho : cmd.proc ≠ .EchoCommand) (ho : (σ.model i).outcome argv cmd.proc = some o) :
    σ.Answers i o σ' := by
  by_cases hroom : (σ.model i).HasRoom argv cmd.proc
  · have hstop := (call_of_act hact).1
    obtain ⟨σ'', hact', hanswers⟩ := call_answers h hcall hstop os hroom (fun he => absurd he hecho) ho
    obtain rfl := Except.ok.inj (hact'.symm.trans hact)
    exact hanswers
  · exact absurd ⟨σ', hact⟩ (call_no_room h hcall hroom os)

omit h in
theorem Reachable.call (h : σ.Reachable) (hstop : σ.stop = false) (os : Os)
    (hroom : (σ.model i).HasRoom argv cmd.proc) (hecho : cmd.proc ≠ .EchoCommand) {o : Outcome}
    (ho : (σ.model i).outcome argv cmd.proc = some o) :
    ∃ σ', σ'.Reachable ∧ σ'.stop = false ∧ σ.act (.call i cmd argv os) = .ok σ' ∧
      σ.Answers i o σ' := by
  obtain ⟨σ', hact, hanswers⟩ :=
    call_answers h.sound hcall hstop os hroom (fun he => absurd he hecho) ho
  have hok : (Action.call i cmd argv os).Ok := hcall
  exact ⟨σ', Runs.Reach.step h hok hact, hanswers.stop.trans hstop, hact, hanswers⟩

end Calls

section Counting

-- No mutation goes uncounted and no error mutates.
theorem mutation_counted {σ σ' : System ι} (h : σ.Reachable) {i : ι} {cmd : CutisCommand}
    {argv : List Bytes} {os : Os} (hcall : CallOk cmd argv) (hwrites : cmd.proc.writes = true)
    (hact : σ.act (.call i cmd argv os) = .ok σ') :
    ∃ r : Reply,
      (σ'.clients i).reply.flatten = (σ.clients i).reply.flatten ++ r.encode ∧
      (dataset σ'.server.dict ≠ dataset σ.server.dict →
        σ.server.dirty < σ'.server.dirty ∧ r.isError = false) ∧
      (r.isError = true → dataset σ'.server.dict = dataset σ.server.dict ∧
        σ'.server.dirty = σ.server.dirty ∧ (σ'.clients i).dict = (σ.clients i).dict) := by
  have hsel : (σ.model i).selected < (σ.model i).dataset.length := by
    simpa [model, dataset] using h.sound.selected i
  obtain ⟨o, ho⟩ : ∃ o, (σ.model i).outcome argv cmd.proc = some o := by
    generalize cmd.proc = proc at hwrites
    cases proc with
    | SetCommand | SetnxCommand | DelCommand | IncrCommand | DecrCommand => exact ⟨_, rfl⟩
    | LPushCommand | RPushCommand | LPopCommand | RPopCommand | LTrimCommand | LSetCommand =>
        exact ⟨_, rfl⟩
    | SAddCommand | SRemCommand | MoveCommand | RenameCommand | RenamenxCommand => exact ⟨_, rfl⟩
    | _ => cases hwrites
  have hecho : cmd.proc ≠ .EchoCommand := by
    intro he
    rw [he] at hwrites
    cases hwrites
  have hanswers := answers_of_act h.sound hcall hact hecho ho
  obtain ⟨hcounted, hfailed⟩ := Model.outcome_counts hsel ho
  rw [← hanswers.model] at hcounted hfailed
  refine ⟨o.reply, hanswers.reply, fun hne => ?_, fun herr => ?_⟩
  · obtain ⟨hpos, hreply⟩ := hcounted hne
    exact ⟨by rw [hanswers.dirty]; omega, hreply⟩
  · obtain ⟨hmodel, hchanges⟩ := hfailed herr
    obtain ⟨hdataset, hselected⟩ := Model.mk.inj hmodel
    exact ⟨hdataset, by rw [hanswers.dirty, hchanges, Nat.add_zero], hselected⟩

def plainOs : Os where
  random := []
  qsort := id
  stdio := idealStdio []
  fork := true

def setCommandEntry : CutisCommand := ⟨"set", .SetCommand, 3, .CUTIS_CMD_BULK⟩

def setArgv : List Bytes := [sdsnew "set", sdsnew "key", sdsnew "value"]

theorem callOk_set : CallOk setCommandEntry setArgv where
  mem := by decide
  accepts := by decide
  words := by decide
  payload := fun _ last hlast => by
    obtain rfl : last = sdsnew "value" := by simpa [setArgv, eq_comm] using hlast
    decide

omit [DecidableEq ι] in
theorem model_init (i : ι) : (init ι 1).model i = { dataset := [∅], selected := 0 } := by
  rw [model, dataset_init]
  rfl

theorem not_full_empty : ¬Keyspace.Full ∅ := by
  simp [Keyspace.Full]

theorem mutation_counted_set :
    ∃ σ' : System Unit, (init Unit 1).act (.call () setCommandEntry setArgv plainOs) = .ok σ' ∧
      0 < σ'.server.dirty ∧ (σ'.clients ()).reply.flatten = sdsnew "+OK\r\n" := by
  have hstart : (init Unit 1).Reachable := Runs.Reach.start (start_init Nat.one_pos)
  have hroom : ((init Unit 1).model ()).HasRoom setArgv .SetCommand := by
    rw [model_init]
    exact not_full_empty
  obtain ⟨σ', hact, hanswers⟩ := call_answers hstart.sound callOk_set rfl plainOs hroom nofun rfl
  refine ⟨σ', hact, ?_, hanswers.reply⟩
  obtain ⟨r, hreply, hcounted, -⟩ := mutation_counted hstart callOk_set rfl hact
  refine (hcounted fun hsame => ?_).1
  have hmodel := congrArg Model.dataset hanswers.model
  rw [model_init] at hmodel
  have hnew : dataset σ'.server.dict =
      [(∅ : Keyspace).insert (sdsnew "key") (.string (sdsnew "value"))] := hmodel
  rw [hnew, dataset_init] at hsame
  have hkey := congrArg (Finmap.lookup (sdsnew "key")) (List.cons.inj hsame).1
  rw [Finmap.lookup_insert, Finmap.lookup_empty] at hkey
  cases hkey

end Counting

end System

end Cutis

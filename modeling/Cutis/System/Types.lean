import Cutis.System.Calls

namespace Cutis

def Value.type : Value → UInt8
  | .string _ => CUTIS_STRING
  | .list _ => CUTIS_LIST
  | .set _ => CUTIS_SET

-- The type of value a command works on.
def CommandProc.valueType : CommandProc → Option UInt8
  | .GetCommand | .IncrCommand | .DecrCommand => some CUTIS_STRING
  | .LPushCommand | .RPushCommand | .LPopCommand | .RPopCommand | .LLenCommand | .LIndexCommand
  | .LRangeCommand | .LTrimCommand | .LSetCommand => some CUTIS_LIST
  | .SAddCommand | .SRemCommand | .SIsMemberCommand | .SCardCommand | .SInterCommand =>
      some CUTIS_SET
  | _ => none

def CommandProc.keys (proc : CommandProc) (argv : List Bytes) : List Bytes :=
  if proc = .SInterCommand then argv.tail else [argv.getD 1 []]

-- A line with -ERR, a negative count or -1.
def Reply.Reports (r : Reply) : Prop := r.isError = true ∨ r = .int (-1)

-- A key of the command holds a value of another type.
def Model.WrongType (m : Model) (argv : List Bytes) (proc : CommandProc) : Prop :=
  ∃ type, proc.valueType = some type ∧
    ∃ key ∈ proc.keys argv, ∃ v, m.keyspace.lookup key = some v ∧ v.type ≠ type

namespace Keyspace

variable {ks : Keyspace} {key : Bytes} {v : Value} (hlook : ks.lookup key = some v)
  {missing : Effect} {wrong : Reply}

include hlook

theorem onString_wrong (hv : v.type ≠ CUTIS_STRING) (f : Bytes → Effect) :
    ks.onString key missing wrong f = ks.answer wrong := by
  rw [onString, hlook]
  cases v with
  | string s => exact absurd rfl hv
  | _ => rfl

theorem onList_wrong (hv : v.type ≠ CUTIS_LIST) (f : List Bytes → Effect) :
    ks.onList key missing wrong f = ks.answer wrong := by
  rw [onList, hlook]
  cases v with
  | list l => exact absurd rfl hv
  | _ => rfl

theorem onSet_wrong (hv : v.type ≠ CUTIS_SET) (f : Finset Bytes → Effect) :
    ks.onSet key missing wrong f = ks.answer wrong := by
  rw [onSet, hlook]
  cases v with
  | set members => exact absurd rfl hv
  | _ => rfl

end Keyspace

namespace Model

variable {m : Model} {argv : List Bytes} {proc : CommandProc}

theorem apply_answer (hsel : m.selected < m.dataset.length) {f : Keyspace → Effect} {r : Reply}
    (hf : f m.keyspace = m.keyspace.answer r) : m.apply f = m.answer r := by
  rw [apply, hf]
  simp only [Keyspace.answer, set_keyspace hsel, answer]

theorem reports_error (err : String) : (Reply.error err).Reports := by
  refine Or.inl ?_
  rw [Reply.error, Reply.ofString, Reply.isError, sdsnew, sdsnew, String.toList_append]
  rfl

-- All commands but INCR, DECR and SINTER test the type and answer with an error.
theorem outcome_wrongType (hsel : m.selected < m.dataset.length) {type : UInt8}
    (htype : proc.valueType = some type) {v : Value}
    (hlook : m.keyspace.lookup (argv.getD 1 []) = some v) (hv : v.type ≠ type)
    (hincr : proc ≠ .IncrCommand) (hdecr : proc ≠ .DecrCommand) (hinter : proc ≠ .SInterCommand) :
    ∃ r : Reply, r.Reports ∧ m.outcome argv proc = some (m.answer r) := by
  have hanswer {f : Keyspace → Effect} {r : Reply} (hf : f m.keyspace = m.keyspace.answer r)
      (hr : r.Reports) : ∃ r : Reply, r.Reports ∧ some (m.apply f) = some (m.answer r) :=
    ⟨r, hr, congrArg some (apply_answer hsel hf)⟩
  cases proc <;> cases htype
  case GetCommand => exact hanswer (Keyspace.onString_wrong hlook hv _) (Or.inl rfl)
  case IncrCommand => exact absurd rfl hincr
  case DecrCommand => exact absurd rfl hdecr
  case RPushCommand => exact hanswer (Keyspace.onList_wrong hlook hv _) (Or.inl (by decide))
  case LPushCommand => exact hanswer (Keyspace.onList_wrong hlook hv _) (Or.inl (by decide))
  case RPopCommand => exact hanswer (Keyspace.onList_wrong hlook hv _) (Or.inl rfl)
  case LPopCommand => exact hanswer (Keyspace.onList_wrong hlook hv _) (Or.inl rfl)
  case LLenCommand => exact hanswer (Keyspace.onList_wrong hlook hv _) (Or.inr rfl)
  case LIndexCommand => exact hanswer (Keyspace.onList_wrong hlook hv _) (Or.inl rfl)
  case LRangeCommand => exact hanswer (Keyspace.onList_wrong hlook hv _) (Or.inl rfl)
  case LTrimCommand => exact hanswer (Keyspace.onList_wrong hlook hv _) (reports_error _)
  case LSetCommand => exact hanswer (Keyspace.onList_wrong hlook hv _) (reports_error _)
  case SAddCommand => exact hanswer (Keyspace.onSet_wrong hlook hv _) (reports_error _)
  case SRemCommand => exact hanswer (Keyspace.onSet_wrong hlook hv _) (reports_error _)
  case SIsMemberCommand => exact hanswer (Keyspace.onSet_wrong hlook hv _) (Or.inr rfl)
  case SCardCommand => exact hanswer (Keyspace.onSet_wrong hlook hv _) (Or.inr rfl)
  case SInterCommand => exact absurd rfl hinter

-- There is room: the commands that are left add no entry to the key of another type.
theorem hasRoom_wrongType {type : UInt8} (htype : proc.valueType = some type) {v : Value}
    (hlook : m.keyspace.lookup (argv.getD 1 []) = some v) (hv : v.type ≠ type)
    (hincr : proc ≠ .IncrCommand) (hdecr : proc ≠ .DecrCommand) : m.HasRoom argv proc := by
  have hmem : argv.getD 1 [] ∈ m.keyspace := Finmap.mem_of_lookup_eq_some hlook
  cases proc with
  | IncrCommand => exact absurd rfl hincr
  | DecrCommand => exact absurd rfl hdecr
  | RPushCommand | LPushCommand => exact fun hnew => absurd hmem hnew
  | SAddCommand =>
      cases htype
      refine ⟨fun hnew => absurd hmem hnew, fun members hset => ?_⟩
      obtain rfl := Option.some.inj (hlook.symm.trans hset)
      exact absurd rfl hv
  | SetCommand | SetnxCommand | MoveCommand | RenameCommand | RenamenxCommand => cases htype
  | _ => trivial

end Model

namespace System

variable {ι : Type} [DecidableEq ι]

-- The call reports an error and changes no database.
def Refuses (σ : System ι) (i : ι) (cmd : CutisCommand) (argv : List Bytes) : Prop :=
  ∀ os, ∃ σ', ∃ r : Reply, σ.act (.call i cmd argv os) = .ok σ' ∧ r.Reports ∧
    (σ'.clients i).reply.flatten = (σ.clients i).reply.flatten ++ r.encode ∧
    dataset σ'.server.dict = dataset σ.server.dict

section Refuses

variable {σ : System ι} {i : ι} {cmd : CutisCommand} {argv : List Bytes}

theorem refuses_of_meets {r : Reply} (hstop : σ.stop = false) (hr : r.Reports)
    (h : ∀ os, (σ.session i argv).Meets (cmd.proc.call os (σ.session i argv))
      ((σ.model i).answer r)) : σ.Refuses i cmd argv := by
  intro os
  obtain ⟨σ', hact, hanswers⟩ := act_answers hstop (h os)
  exact ⟨σ', r, hact, hr, hanswers.reply, (Model.mk.inj hanswers.model).1⟩

variable (h : σ.Sound) (hcall : CallOk cmd argv)

include h

omit [DecidableEq ι] in
theorem selected_lt : (σ.model i).selected < (σ.model i).dataset.length := by
  simpa [model, dataset] using h.selected i

include hcall

-- The stored number is no value of another type.
theorem not_refuses_counter {key : Bytes} {incr : Int}
    (ho : (σ.model i).outcome argv cmd.proc =
      some ((σ.model i).apply (Keyspace.incrBy · key incr)))
    (hecho : cmd.proc ≠ .EchoCommand) {v : Value} (hlook : (σ.model i).keyspace.lookup key = some v)
    (hv : v.type ≠ CUTIS_STRING) : ¬σ.Refuses i cmd argv := by
  intro hrefuses
  obtain ⟨σ', r, hact, -, -, hsame⟩ := hrefuses plainOs
  have hanswers := answers_of_act h hcall hact hecho ho
  have hmodel := (Model.mk.inj hanswers.model).1
  have hdataset : (σ.model i).dataset.set (σ.model i).selected
      ((σ.model i).keyspace.incrBy key incr).keyspace = (σ.model i).dataset :=
    hmodel.symm.trans hsame
  have hget := congrArg (fun ds : Dataset => ds.getD (σ.model i).selected ∅) hdataset
  simp only [List.getD_eq_getElem?_getD, List.getElem?_set_self (selected_lt h)] at hget
  have hstored : ((σ.model i).keyspace.incrBy key incr).keyspace.lookup key = some v := by
    rw [← hlook, Model.keyspace, List.getD_eq_getElem?_getD]
    exact congrArg (Finmap.lookup key) hget
  rw [Keyspace.incrBy, Keyspace.store, Finmap.lookup_insert] at hstored
  obtain rfl := Option.some.inj hstored
  exact hv rfl

omit hcall in
theorem refuses_sinter (hstop : σ.stop = false) (hproc : cmd.proc = .SInterCommand) {key : Bytes}
    (hkey : key ∈ argv.tail) {v : Value} (hlook : (σ.model i).keyspace.lookup key = some v)
    (hv : v.type ≠ CUTIS_SET) :
    σ.Refuses i cmd argv ↔ (σ.model i).keyspace.SinterSafe argv.tail := by
  have hsession := h.session i argv
  constructor
  · intro hrefuses
    by_contra hsafe
    obtain ⟨σ', -, hact, -⟩ := hrefuses plainOs
    obtain ⟨-, s', hs, -⟩ := call_of_act hact
    obtain ⟨fault, hfault⟩ := Session.sInterCommand_fault hsession hsafe
    rw [hproc] at hs
    cases hfault.symm.trans hs
  · intro hsafe
    have hr : (Reply.bulkError (sdsnew "No such key")).Reports := Or.inl rfl
    refine refuses_of_meets hstop hr fun os => ?_
    obtain ⟨db, hdb, hsound, hks, -⟩ := Session.db_eq hsession
    have hks' : (σ.model i).keyspace = db.contents := hks
    rw [hks'] at hsafe hlook
    rcases Session.sInterSets_ok hsound hsafe with ⟨hsets, -⟩ | ⟨dv, -, hdv⟩
    · rw [hproc]
      show (σ.session i argv).Meets (sInterCommand os (σ.session i argv)) _
      have htail : (σ.session i argv).client.argv.tail = argv.tail := rfl
      rw [sInterCommand, hdb, htail, ok_bind, hsets, ok_bind]
      exact Session.meets_reply hsession (Session.flatten_bulkError _ (by decide))
    · obtain ⟨d, -, -, hset⟩ := hdv.of_key key hkey
      obtain rfl := Option.some.inj (hlook.symm.trans hset)
      exact absurd rfl hv

end Refuses

-- A command on a key of another type reports an error and changes nothing, but for
-- INCR and DECR, and for SINTER where no missing key comes first.
theorem refuses_iff {σ : System ι} (h : σ.Reachable) (hstop : σ.stop = false) {i : ι}
    {cmd : CutisCommand} {argv : List Bytes} (hcall : CallOk cmd argv)
    (hwrong : (σ.model i).WrongType argv cmd.proc) :
    σ.Refuses i cmd argv ↔ cmd.proc ≠ .IncrCommand ∧ cmd.proc ≠ .DecrCommand ∧
      (cmd.proc = .SInterCommand → (σ.model i).keyspace.SinterSafe argv.tail) := by
  obtain ⟨type, htype, key, hkey, v, hlook, hv⟩ := hwrong
  by_cases hinter : cmd.proc = .SInterCommand
  · rw [hinter] at htype hkey
    cases htype
    rw [refuses_sinter h.sound hstop hinter hkey hlook hv, hinter]
    simp
  · obtain rfl : key = argv.getD 1 [] := by
      rw [CommandProc.keys, if_neg hinter] at hkey
      exact List.mem_singleton.mp hkey
    by_cases hincr : cmd.proc = .IncrCommand
    · rw [hincr] at htype
      cases htype
      refine iff_of_false ?_ fun hcond => hcond.1 hincr
      exact not_refuses_counter h.sound hcall (by rw [hincr]; rfl) (by rw [hincr]; decide) hlook hv
    by_cases hdecr : cmd.proc = .DecrCommand
    · rw [hdecr] at htype
      cases htype
      refine iff_of_false ?_ fun hcond => hcond.2.1 hdecr
      exact not_refuses_counter h.sound hcall (by rw [hdecr]; rfl) (by rw [hdecr]; decide) hlook hv
    refine iff_of_true ?_ ⟨hincr, hdecr, fun h => absurd h hinter⟩
    have hsel : (σ.model i).selected < (σ.model i).dataset.length := selected_lt h.sound
    obtain ⟨r, hr, ho⟩ := Model.outcome_wrongType hsel htype hlook hv hincr hdecr hinter
    have hroom := Model.hasRoom_wrongType htype hlook hv hincr hdecr
    have hecho : cmd.proc ≠ .EchoCommand := by
      intro he
      rw [he] at htype
      cases htype
    exact refuses_of_meets hstop hr fun os =>
      Session.call_meets (h.sound.session i argv) os rfl hcall.argc hroom
        (fun he => absurd he hecho) ho

def rpushEntry : CutisCommand := ⟨"rpush", .RPushCommand, 3, .CUTIS_CMD_BULK⟩

def pushArgv (el : Bytes) : List Bytes := [sdsnew "rpush", sdsnew "key", el]

theorem callOk_rpush {el : Bytes} (hel : el.length ≤ 2 ^ 30) : CallOk rpushEntry (pushArgv el) where
  mem := by decide
  accepts := by
    show rpushEntry.accepts 3 = true
    decide
  words := by
    show ∀ w ∈ [sdsnew "rpush", sdsnew "key"], ShortWord w
    decide
  payload := fun _ last hlast => by
    obtain rfl : last = el := by simpa [pushArgv, eq_comm] using hlast
    exact hel

-- The databases of a server with a single key.
def keyed (v : Value) : Dataset := [(∅ : Keyspace).insert (sdsnew "key") v]

theorem push_new {ks : Keyspace} {key el : Bytes} (hlook : ks.lookup key = none) :
    ks.push key .CUTIS_TAIL el = ks.store key (.list [el]) .ok := by
  rw [Keyspace.push, Keyspace.onList, hlook]

theorem push_tail {ks : Keyspace} {key el : Bytes} {l : List Bytes}
    (hlook : ks.lookup key = some (.list l)) :
    ks.push key .CUTIS_TAIL el = ks.store key (.list (l ++ [el])) .ok := by
  rw [Keyspace.push, Keyspace.onList, hlook]
  rfl

-- A key can hold any list that is not empty.
theorem exists_elements {l : List Bytes} (hne : l ≠ []) (hshort : ∀ el ∈ l, el.length ≤ 2 ^ 30) :
    ∃ σ : System Unit, σ.Reachable ∧ σ.stop = false ∧
      σ.model () = { dataset := keyed (.list l), selected := 0 } := by
  induction l using List.reverseRecOn with
  | nil => exact absurd rfl hne
  | append_singleton l el ih =>
      have hcall : CallOk rpushEntry (pushArgv el) := callOk_rpush (hshort el (by simp))
      by_cases hl : l = []
      · subst hl
        have hstart : (init Unit 1).Reachable := Runs.Reach.start (start_init Nat.one_pos)
        have hroom : ((init Unit 1).model ()).HasRoom (pushArgv el) .RPushCommand := by
          rw [model_init]
          exact fun _ => not_full_empty
        obtain ⟨σ, hreach, hstop, -, hanswers⟩ :=
          hstart.call hcall rfl plainOs hroom (by decide) rfl
        refine ⟨σ, hreach, hstop, ?_⟩
        rw [hanswers.model, model_init]
        show Model.mk [(Keyspace.push ∅ (sdsnew "key") .CUTIS_TAIL el).keyspace] 0 = _
        rw [push_new (Finmap.lookup_empty _)]
        rfl
      · obtain ⟨σ, hreach, hstop, hmodel⟩ := ih hl fun el hel => hshort el (by simp [hel])
        have hlook : ((∅ : Keyspace).insert (sdsnew "key") (.list l)).lookup (sdsnew "key") =
            some (.list l) := Finmap.lookup_insert _
        have hroom : (σ.model ()).HasRoom (pushArgv el) .RPushCommand := by
          rw [hmodel]
          exact fun hnew => absurd (Finmap.mem_of_lookup_eq_some hlook) hnew
        obtain ⟨σ', hreach', hstop', -, hanswers⟩ :=
          hreach.call hcall hstop plainOs hroom (by decide) rfl
        refine ⟨σ', hreach', hstop', ?_⟩
        rw [hanswers.model, hmodel]
        show Model.mk [(Keyspace.push ((∅ : Keyspace).insert (sdsnew "key") (.list l)) (sdsnew "key")
          .CUTIS_TAIL el).keyspace] 0 = _
        rw [push_tail hlook, Keyspace.store, Finmap.insert_insert]
        rfl

def listKeyspace : Keyspace := (∅ : Keyspace).insert (sdsnew "key") (.list [sdsnew "value"])

theorem exists_list :
    ∃ σ : System Unit, σ.Reachable ∧ σ.stop = false ∧
      σ.model () = { dataset := [listKeyspace], selected := 0 } :=
  exists_elements (by decide) (by decide)

theorem listKeyspace_lookup :
    listKeyspace.lookup (sdsnew "key") = some (.list [sdsnew "value"]) := Finmap.lookup_insert _

theorem lookup_list {σ : System Unit}
    (hmodel : σ.model () = { dataset := [listKeyspace], selected := 0 }) :
    (σ.model ()).keyspace.lookup (sdsnew "key") = some (.list [sdsnew "value"]) := by
  rw [hmodel]
  exact listKeyspace_lookup

def keyEntry (name : String) (proc : CommandProc) : CutisCommand := ⟨name, proc, 2, .CUTIS_CMD_INLINE⟩

theorem wrongType_list {σ : System Unit} {proc : CommandProc} {name : String}
    (hmodel : σ.model () = { dataset := [listKeyspace], selected := 0 })
    (htype : proc.valueType = some CUTIS_STRING) :
    (σ.model ()).WrongType [sdsnew name, sdsnew "key"] proc := by
  refine ⟨CUTIS_STRING, htype, sdsnew "key", ?_, .list [sdsnew "value"], ?_, by decide⟩
  · rw [CommandProc.keys, if_neg]
    · exact List.mem_singleton_self _
    · rintro rfl
      cases htype
  · exact lookup_list hmodel

theorem callOk_get : CallOk (keyEntry "get" .GetCommand) [sdsnew "get", sdsnew "key"] where
  mem := by decide
  accepts := by decide
  words := by decide
  payload := nofun

theorem callOk_incr : CallOk (keyEntry "incr" .IncrCommand) [sdsnew "incr", sdsnew "key"] where
  mem := by decide
  accepts := by decide
  words := by decide
  payload := nofun

theorem refuses_get :
    ∃ σ : System Unit, (σ.model ()).dataset = [listKeyspace] ∧
      σ.Refuses () (keyEntry "get" .GetCommand) [sdsnew "get", sdsnew "key"] := by
  obtain ⟨σ, hreach, hstop, hmodel⟩ := exists_list
  refine ⟨σ, by rw [hmodel], ?_⟩
  exact (refuses_iff hreach hstop callOk_get (wrongType_list hmodel rfl)).mpr
    ⟨by decide, by decide, nofun⟩

-- INCR takes the list for 0 and puts "1" in its place.
theorem not_refuses_incr :
    ∃ σ : System Unit, σ.Reachable ∧ σ.stop = false ∧
      (σ.model ()).WrongType [sdsnew "incr", sdsnew "key"] .IncrCommand ∧
      ¬σ.Refuses () (keyEntry "incr" .IncrCommand) [sdsnew "incr", sdsnew "key"] := by
  obtain ⟨σ, hreach, hstop, hmodel⟩ := exists_list
  refine ⟨σ, hreach, hstop, wrongType_list hmodel rfl, ?_⟩
  exact not_refuses_counter hreach.sound callOk_incr rfl (by decide) (lookup_list hmodel)
    (by decide)

end System

end Cutis

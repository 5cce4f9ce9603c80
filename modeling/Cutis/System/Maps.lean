import Cutis.System.Numbers
import Cutis.System.Types

namespace Cutis

-- The commands on keys, and those that create lists and sets.
inductive KeyOp
  | set (key val : Bytes)
  | setnx (key val : Bytes)
  | get (key : Bytes)
  | exists (key : Bytes)
  | del (key : Bytes)
  | type (key : Bytes)
  | rename (key dst : Bytes)
  | renamenx (key dst : Bytes)
  | move (key : Bytes) (id : Int)
  | select (id : Int)
  | dbsize
  | push (whereEnd : ListEnd) (key el : Bytes)
  | sadd (key el : Bytes)

namespace KeyOp

def proc : KeyOp → CommandProc
  | .set _ _ => .SetCommand
  | .setnx _ _ => .SetnxCommand
  | .get _ => .GetCommand
  | .exists _ => .ExistsCommand
  | .del _ => .DelCommand
  | .type _ => .TypeCommand
  | .rename _ _ => .RenameCommand
  | .renamenx _ _ => .RenamenxCommand
  | .move _ _ => .MoveCommand
  | .select _ => .SelectCommand
  | .dbsize => .DbsizeCommand
  | .push .CUTIS_HEAD _ _ => .LPushCommand
  | .push .CUTIS_TAIL _ _ => .RPushCommand
  | .sadd _ _ => .SAddCommand

-- A decimal of an int.
def IndexText (text : Bytes) (id : Int) : Prop := NumberText text id ∧ -2 ^ 31 ≤ id ∧ id < 2 ^ 31

-- The arguments behind the name.
def Args (argv : List Bytes) : KeyOp → Prop
  | .set key val | .setnx key val => argv.getD 1 [] = key ∧ argv.getD 2 [] = val
  | .get key | .exists key | .del key | .type key => argv.getD 1 [] = key
  | .rename key dst | .renamenx key dst => argv.getD 1 [] = key ∧ argv.getD 2 [] = dst
  | .move key id => argv.getD 1 [] = key ∧ IndexText (argv.getD 2 []) id
  | .select id => IndexText (argv.getD 1 []) id
  | .dbsize => True
  | .push _ key el | .sadd key el => argv.getD 1 [] = key ∧ argv.getD 2 [] = el

def outcome (m : Model) : KeyOp → Outcome
  | .set key val => m.apply (Keyspace.set · key val)
  | .setnx key val => m.apply (Keyspace.setnx · key val)
  | .get key => m.apply (Keyspace.get · key)
  | .exists key => m.apply (Keyspace.exists? · key)
  | .del key => m.apply (Keyspace.del · key)
  | .type key => m.apply (Keyspace.type · key)
  | .rename key dst => m.apply (Keyspace.renameWith · key false dst)
  | .renamenx key dst => m.apply (Keyspace.renameWith · key true dst)
  | .move key id => m.move key id
  | .select id => m.select id
  | .dbsize => m.apply Keyspace.dbsize
  | .push whereEnd key el => m.apply (Keyspace.push · key whereEnd el)
  | .sadd key el => m.apply (Keyspace.sadd · key el)

theorem atoi_index {text : Bytes} {id : Int} (h : IndexText text id) : atoi text = id := by
  rw [atoi_text h.1, atoiValue_eq_self h.2.1 h.2.2]

theorem outcome_eq {argv : List Bytes} {op : KeyOp} (h : op.Args argv) (m : Model) :
    m.outcome argv op.proc = some (op.outcome m) := by
  cases op with
  | set | setnx | rename | renamenx | sadd =>
      obtain ⟨rfl, rfl⟩ := h
      rfl
  | get | «exists» | del | type =>
      obtain rfl := h
      rfl
  | push whereEnd =>
      obtain ⟨rfl, rfl⟩ := h
      cases whereEnd <;> rfl
  | move =>
      obtain ⟨rfl, hid⟩ := h
      rw [← atoi_index hid]
      rfl
  | select =>
      rw [← atoi_index h]
      rfl
  | dbsize => rfl

-- RENAME, RENAMENX and MOVE.
def transfers : KeyOp → Bool
  | .rename _ _ | .renamenx _ _ | .move _ _ => true
  | _ => false

-- What a command leaves alone, and that a value is transferred unchanged.
structure Local (m : Model) (op : KeyOp) : Prop where
  others : ∀ id : Nat, id ≠ m.selected → (∀ key, op ≠ .move key id) →
    (op.outcome m).model.dataset[id]? = m.dataset[id]?
  selected : (∀ id, op ≠ .select id) → (op.outcome m).model.selected = m.selected
  failed : op.transfers = true → (op.outcome m).reply ≠ .ok → (op.outcome m).model = m
  renamed : ∀ key dst, op = .rename key dst ∨ op = .renamenx key dst →
    (op.outcome m).reply = .ok → key ∈ m.keyspace ∧
      (op.outcome m).model.keyspace.lookup dst = m.keyspace.lookup key ∧
      key ∉ (op.outcome m).model.keyspace
  moved : ∀ key id, op = .move key id → (op.outcome m).reply = .ok → key ∈ m.keyspace ∧
    ((op.outcome m).model.dataset.getD id.toNat ∅).lookup key = m.keyspace.lookup key ∧
    key ∉ (op.outcome m).model.keyspace

end KeyOp

namespace Keyspace

-- RENAME either reports an error, or moves the value.
theorem renameWith_cases (ks : Keyspace) (key : Bytes) (nx : Bool) (dst : Bytes) :
    (∃ err, ks.renameWith key nx dst = ks.answer (.error err)) ∨
      ∃ v, key ≠ dst ∧ ks.lookup key = some v ∧ ks.renameWith key nx dst =
        { keyspace := (ks.insert dst v).erase key, changes := 1, reply := .ok } := by
  rw [renameWith]
  by_cases hsame : key = dst
  · rw [if_pos hsame]
    exact Or.inl ⟨_, rfl⟩
  · rw [if_neg hsame]
    cases hlook : ks.lookup key with
    | none => exact Or.inl ⟨_, rfl⟩
    | some v =>
        dsimp only
        split_ifs
        · exact Or.inl ⟨_, rfl⟩
        · exact Or.inr ⟨v, hsame, rfl, rfl⟩

end Keyspace

namespace Model

variable {m : Model}

theorem error_ne_ok (err : String) : Reply.error err ≠ .ok := by
  intro h
  exact Reply.ok_ne_error err (congrArg Reply.encode h.symm)

theorem move_cases (key : Bytes) (id : Int) :
    (∃ err, m.move key id = m.answer (.error err)) ∨
      ∃ v, m.validIndex id ∧ id ≠ m.selected ∧ m.keyspace.lookup key = some v ∧
        m.move key id =
          { model := { m with
              dataset := (m.dataset.set id.toNat ((m.dataset.getD id.toNat ∅).insert key v)).set
                m.selected (m.keyspace.erase key) }
            changes := 1
            reply := .ok } := by
  rw [move]
  by_cases hvalid : m.validIndex id
  · rw [if_neg (not_not.mpr hvalid)]
    by_cases hself : id = m.selected
    · rw [if_pos hself]
      exact Or.inl ⟨_, rfl⟩
    · rw [if_neg hself]
      cases hlook : m.keyspace.lookup key with
      | none => exact Or.inl ⟨_, rfl⟩
      | some v =>
          dsimp only
          split_ifs
          · exact Or.inl ⟨_, rfl⟩
          · exact Or.inr ⟨v, hvalid, hself, rfl, rfl⟩
  · rw [if_pos hvalid]
    exact Or.inl ⟨_, rfl⟩

theorem apply_others (f : Keyspace → Effect) {id : Nat} (hid : id ≠ m.selected) :
    (m.apply f).model.dataset[id]? = m.dataset[id]? :=
  List.getElem?_set_ne (Ne.symm hid)

variable (hsel : m.selected < m.dataset.length)

include hsel

theorem apply_keyspace (f : Keyspace → Effect) :
    (m.apply f).model.keyspace = (f m.keyspace).keyspace := by
  simp [apply, keyspace, List.getD_eq_getElem?_getD, hsel]

theorem apply_eq_self {f : Keyspace → Effect} (hf : (f m.keyspace).keyspace = m.keyspace) :
    (m.apply f).model = m := by
  rw [apply, hf, set_keyspace hsel]

end Model

namespace KeyOp

variable {m : Model} (hsel : m.selected < m.dataset.length)

include hsel

omit hsel in
-- A command that neither transfers a key nor selects a database.
theorem local_apply {op : KeyOp} (hop : ∃ f, op.outcome m = m.apply f)
    (htransfers : op.transfers = false) : op.Local m where
  others id hid _ := by
    obtain ⟨f, hf⟩ := hop
    rw [hf]
    exact Model.apply_others f hid
  selected _ := by
    obtain ⟨f, hf⟩ := hop
    rw [hf]
    rfl
  failed h := absurd (htransfers.symm.trans h) (by decide)
  renamed key dst h := by rcases h with rfl | rfl <;> cases htransfers
  moved key id h := by subst h; cases htransfers

theorem local_rename (nx : Bool) (key dst : Bytes) {op : KeyOp}
    (hop : op = .rename key dst ∨ op = .renamenx key dst)
    (houtcome : op.outcome m = m.apply (Keyspace.renameWith · key nx dst)) : op.Local m where
  others id hid _ := by
    rw [houtcome]
    exact Model.apply_others _ hid
  selected _ := by rw [houtcome]; rfl
  failed _ h := by
    rw [houtcome] at h ⊢
    rcases m.keyspace.renameWith_cases key nx dst with ⟨err, hks⟩ | ⟨v, -, -, hks⟩
    · exact Model.apply_eq_self hsel (by rw [hks]; rfl)
    · refine absurd ?_ h
      rw [Model.apply, hks]
  renamed key' dst' hop' h := by
    obtain ⟨rfl, rfl⟩ : key' = key ∧ dst' = dst := by
      rcases hop with rfl | rfl <;> rcases hop' with hop' | hop' <;> cases hop' <;>
        exact ⟨rfl, rfl⟩
    rw [houtcome] at h ⊢
    rcases m.keyspace.renameWith_cases key' nx dst' with ⟨err, hks⟩ | ⟨v, hne, hlook, hks⟩
    · refine absurd ?_ (Model.error_ne_ok err)
      rw [Model.apply, hks] at h
      exact h
    · rw [Model.apply_keyspace hsel, hks]
      refine ⟨Finmap.mem_of_lookup_eq_some hlook, ?_, Finmap.notMem_erase_self⟩
      rw [Finmap.lookup_erase_ne (Ne.symm hne), Finmap.lookup_insert, hlook]
  moved key' id h := by rcases hop with rfl | rfl <;> cases h

theorem local_move (key : Bytes) (id : Int) : (KeyOp.move key id).Local m where
  others other hother hmove := by
    rw [outcome]
    rcases m.move_cases key id with ⟨err, hm⟩ | ⟨v, hvalid, -, -, hm⟩
    · rw [hm]
      rfl
    · have hid : id.toNat ≠ other := by
        rintro rfl
        exact hmove key (by rw [Int.toNat_of_nonneg hvalid.1])
      rw [hm]
      simp only [List.getElem?_set_ne (Ne.symm hother), List.getElem?_set_ne hid]
  selected _ := by
    rw [outcome]
    rcases m.move_cases key id with ⟨err, hm⟩ | ⟨v, -, -, -, hm⟩ <;> rw [hm]
    rfl
  failed _ h := by
    rw [outcome] at h ⊢
    rcases m.move_cases key id with ⟨err, hm⟩ | ⟨v, -, -, -, hm⟩
    · rw [hm]
      rfl
    · rw [hm] at h
      exact absurd rfl h
  renamed key' dst h := by rcases h with h | h <;> cases h
  moved key' id' hop h := by
    cases hop
    rw [outcome] at h ⊢
    rcases m.move_cases key id with ⟨err, hm⟩ | ⟨v, hvalid, hself, hlook, hm⟩
    · rw [hm] at h
      exact absurd h (Model.error_ne_ok err)
    · obtain ⟨hpos, hlt⟩ := hvalid
      have hne : m.selected ≠ id.toNat := by omega
      have htarget : id.toNat < m.dataset.length := by omega
      rw [hm]
      refine ⟨Finmap.mem_of_lookup_eq_some hlook, ?_, ?_⟩
      · simp only [List.getD_eq_getElem?_getD, List.getElem?_set_ne hne,
          List.getElem?_set_self htarget, Option.getD_some, Finmap.lookup_insert, hlook]
      · simp only [Model.keyspace, List.getD_eq_getElem?_getD]
        rw [List.getElem?_set_self (by simpa using hsel)]
        exact Finmap.notMem_erase_self

omit hsel in
theorem local_select (id : Int) : (KeyOp.select id).Local m where
  others other _ _ := by
    rw [outcome, Model.select]
    split_ifs <;> rfl
  selected h := absurd rfl (h id)
  failed h := by cases h
  renamed key dst h := by rcases h with h | h <;> cases h
  moved key id h := by cases h

theorem local_all (op : KeyOp) : op.Local m := by
  cases op with
  | rename key dst => exact local_rename hsel false key dst (Or.inl rfl) rfl
  | renamenx key dst => exact local_rename hsel true key dst (Or.inr rfl) rfl
  | move key id => exact local_move hsel key id
  | select id => exact local_select id
  | _ =>
      refine local_apply ?_ rfl
      rw [outcome]
      exact ⟨_, rfl⟩

end KeyOp

def Action.isCall {ι : Type} : Action ι → Bool
  | .call _ _ _ _ => true
  | _ => false

-- A call of one of the commands, with the arguments as the parser has them.
structure KeyCall (ι : Type) where
  client : ι
  op : KeyOp
  cmd : CutisCommand
  argv : List Bytes
  os : Os
  proc_eq : cmd.proc = op.proc
  call_ok : CallOk cmd argv
  args : op.Args argv

inductive KeyEvent (ι : Type)
  | call (c : KeyCall ι)
  | other (a : Action ι) (ha : a.isCall = false)

-- The server as all its clients see it: a vector of finite maps, and the index each
-- client has selected.
structure Maps (ι : Type) where
  dataset : Dataset
  selected : ι → Nat

namespace Maps

variable {ι : Type} [DecidableEq ι]

def view (m : Maps ι) (i : ι) : Model := { dataset := m.dataset, selected := m.selected i }

def put (m : Maps ι) (i : ι) (v : Model) : Maps ι where
  dataset := v.dataset
  selected := Function.update m.selected i v.selected

-- A new client has selected the first database; no other event but a call shows.
def other (m : Maps ι) : Action ι → Maps ι
  | .connect i => { m with selected := Function.update m.selected i 0 }
  | _ => m

-- The outputs are the reply and the state reached.
def step (m : Maps ι) : KeyEvent ι → Maps ι × (Bytes × Maps ι)
  | .call c =>
      let o := c.op.outcome (m.view c.client)
      let m' := m.put c.client o.model
      (m', (o.reply.encode, m'))
  | .other a _ => (m.other a, ([], m.other a))

def Fits (m : Maps ι) : KeyEvent ι → Prop
  | .call c => (m.view c.client).HasRoom c.argv c.cmd.proc
  | .other _ _ => True

end Maps

namespace System

variable {ι : Type} [DecidableEq ι]

def maps (σ : System ι) : Maps ι where
  dataset := dataset σ.server.dict
  selected := fun i => (σ.clients i).dict

-- What a client's queue has got behind what it held.
def added (σ σ' : System ι) (i : ι) : Bytes :=
  (σ'.clients i).reply.flatten.drop (σ.clients i).reply.flatten.length

def keyStep (σ : System ι) : KeyEvent ι → Except Fault (System ι × (Bytes × Maps ι))
  | .call c => do
      let σ' ← σ.act (.call c.client c.cmd c.argv c.os)
      return (σ', (σ.added σ' c.client, σ'.maps))
  | .other a _ => do
      let σ' ← σ.act a
      return (σ', ([], σ'.maps))

-- The run goes through, and every reply and every state is that of the maps.
def KeyRefines (σ : System ι) (events : List (KeyEvent ι)) : Prop :=
  ∃ σ', Runs.run keyStep σ events = .ok (σ', (Runs.trace Maps.step σ.maps events).2)

def Follows (σ : System ι) (m : Maps ι) : Prop := σ.Sound ∧ σ.stop = false ∧ σ.maps = m

section Steps

variable {σ σ' : System ι} {m : Maps ι}

theorem maps_of_answers {i : ι} {o : Outcome} (h : σ.Answers i o σ') :
    σ'.maps = σ.maps.put i o.model := by
  have hmodel := h.model
  refine (Maps.mk.injEq ..).mpr ⟨?_, funext fun j => ?_⟩
  · rw [← hmodel]
    rfl
  · by_cases hj : j = i
    · subst hj
      rw [Function.update_self, ← hmodel]
      rfl
    · rw [Function.update_of_ne hj, h.others j hj]
      rfl

omit [DecidableEq ι] in
theorem added_of_answers {i : ι} {o : Outcome} (h : σ.Answers i o σ') :
    σ.added σ' i = o.reply.encode := by
  rw [added, h.reply, List.drop_left]

theorem child_returns {a : Action ι} (ha : a.ofChild = true) : ∃ σ', σ.act a = .ok σ' := by
  cases a <;> first | (cases ha; done) | skip
  case childWrite io =>
    simp only [act]
    split <;> exact ⟨_, rfl⟩
  case childRename rename =>
    simp only [act]
    split <;> exact ⟨_, rfl⟩
  case childExit =>
    simp only [act]
    split <;> exact ⟨_, rfl⟩
  case childKill sig =>
    simp only [act]
    split <;> exact ⟨_, rfl⟩

theorem child_maps (hstop : σ.stop = false) {a : Action ι} (ha : a.ofChild = true) :
    ∃ σ', σ.act a = .ok σ' ∧ σ'.stop = false ∧ σ'.maps = σ.maps := by
  obtain ⟨σ', hact⟩ := child_returns ha
  obtain ⟨hserver, hclients, hsame⟩ := child_same ha hact
  exact ⟨σ', hact, hsame.trans hstop, by rw [maps, hserver, hclients, maps]⟩

theorem maps_update (σ : System ι) (i : ι) (c : CutisClient) :
    ({ σ with clients := Function.update σ.clients i c } : System ι).maps =
      { σ.maps with selected := Function.update σ.maps.selected i c.dict } := by
  refine (Maps.mk.injEq ..).mpr ⟨rfl, funext fun j => ?_⟩
  by_cases hj : j = i
  · subst hj
    simp
  · simp [Function.update_of_ne hj, maps]

theorem act_other (h : σ.Sound) (hstop : σ.stop = false) {a : Action ι} (ha : a.isCall = false) :
    ∃ σ', σ.act a = .ok σ' ∧ σ'.stop = false ∧ σ'.maps = σ.maps.other a := by
  cases a with
  | call => cases ha
  | connect i =>
      simp only [act, hstop]
      exact ⟨_, rfl, rfl, maps_update _ i _⟩
  | sent i n =>
      refine ⟨_, rfl, hstop, (maps_update σ i _).trans ?_⟩
      exact congrArg (Maps.mk _) (Function.update_eq_self i σ.maps.selected)
  | cron io =>
      obtain ⟨dict, -, hdataset, hcron⟩ := serverCron_eq io (s := σ.cronSession) h.dict
      have hdict : (if σ.cronSession.server.bg_saving then cronBooking io (ticked σ.cronSession dict)
          else cronSaveParams io (ticked σ.cronSession dict)).server.dict = dict := by
        split
        · exact cronBooking_dict _ _
        · exact cronSaveParams_dict _ _
      simp only [act, hstop, hcron]
      exact ⟨_, rfl, rfl, (Maps.mk.injEq ..).mpr ⟨(congrArg dataset hdict).trans hdataset, rfl⟩⟩
  | childWrite | childRename | childExit | childKill => exact child_maps hstop rfl

-- One event does to the system what it does to the maps.
theorem keyStep_ok (σ : System ι) (m : Maps ι) (event : KeyEvent ι) (h : σ.Follows m)
    (hfits : m.Fits event) :
    ∃ σ', keyStep σ event = .ok (σ', (m.step event).2) ∧ σ'.Follows (m.step event).1 := by
  obtain ⟨hsound, hstop, rfl⟩ := h
  cases event with
  | call c =>
      have hview : σ.model c.client = σ.maps.view c.client := rfl
      have ho := KeyOp.outcome_eq c.args (σ.maps.view c.client)
      rw [← c.proc_eq] at ho
      have hecho : c.cmd.proc ≠ .EchoCommand := by
        rw [c.proc_eq]
        cases c.op with
        | push whereEnd => cases whereEnd <;> exact nofun
        | _ => exact nofun
      obtain ⟨σ', hact, hanswers⟩ := call_answers hsound c.call_ok hstop c.os hfits
        (fun he => absurd he hecho) ho
      have hok : (Action.call c.client c.cmd c.argv c.os).Ok := c.call_ok
      refine ⟨σ', ?_, act_sound hsound hok hact, hanswers.stop.trans hstop,
        maps_of_answers hanswers⟩
      rw [keyStep, hact, ok_bind, added_of_answers hanswers, maps_of_answers hanswers]
      rfl
  | other a ha =>
      obtain ⟨σ', hact, hstop', hmaps⟩ := act_other hsound hstop ha
      have hok : a.Ok := by
        cases a with
        | call => cases ha
        | _ => trivial
      refine ⟨σ', ?_, act_sound hsound hok hact, hstop', hmaps⟩
      rw [keyStep, hact, ok_bind, hmaps]
      rfl

theorem keyStep_fault (σ : System ι) (m : Maps ι) (event : KeyEvent ι) (h : σ.Follows m)
    (hfits : ¬m.Fits event) : ∃ fault, keyStep σ event = .error fault := by
  obtain ⟨hsound, -, rfl⟩ := h
  cases event with
  | call c =>
      have hno := call_no_room hsound c.call_ok hfits c.os
      cases hact : σ.act (.call c.client c.cmd c.argv c.os) with
      | error fault => exact ⟨fault, by rw [keyStep, hact, error_bind]⟩
      | ok σ' => exact absurd ⟨σ', hact⟩ hno
  | other a ha => exact absurd trivial hfits

end Steps

theorem fits_of_keyRefines {σ : System ι} (h : σ.Sound) (hstop : σ.stop = false)
    {events : List (KeyEvent ι)} (hrefines : σ.KeyRefines events) :
    Runs.Along Maps.step Maps.Fits σ.maps events := by
  obtain ⟨σ', hrun⟩ := hrefines
  exact Runs.along_of_run keyStep_ok keyStep_fault events σ σ.maps ⟨h, hstop, rfl⟩ _ hrun

-- The server and the maps agree on every run in which no table has to grow beyond its
-- limit, and the maps do what the commands are for.
theorem keyRefines_iff {σ : System ι} (h : σ.Reachable) (hstop : σ.stop = false)
    (events : List (KeyEvent ι)) :
    (σ.KeyRefines events ↔ Runs.Along Maps.step Maps.Fits σ.maps events) ∧
      ∀ i, ∀ op : KeyOp, op.Local (σ.maps.view i) := by
  refine ⟨⟨fits_of_keyRefines h.sound hstop, fun hfits => ?_⟩,
    fun i op => op.local_all (selected_lt h.sound)⟩
  obtain ⟨σ', hrun, -⟩ := Runs.run_simulates keyStep_ok events σ σ.maps ⟨h.sound, hstop, rfl⟩ hfits
  exact ⟨σ', hrun⟩

def setCall : KeyCall Unit where
  client := ()
  op := .set (sdsnew "key") (sdsnew "value")
  cmd := setCommandEntry
  argv := setArgv
  os := plainOs
  proc_eq := rfl
  call_ok := callOk_set
  args := ⟨rfl, rfl⟩

def setBy : KeyCall Bool where
  client := false
  op := .set (sdsnew "key") (sdsnew "value")
  cmd := setCommandEntry
  argv := setArgv
  os := plainOs
  proc_eq := rfl
  call_ok := callOk_set
  args := ⟨rfl, rfl⟩

theorem indexText_one : KeyOp.IndexText (Decimal.print 1) 1 :=
  ⟨numberText_print 1, by norm_num, by norm_num⟩

def selectCall : KeyCall Bool where
  client := true
  op := .select 1
  cmd := selectCommandEntry
  argv := selectArgv (Decimal.print 1)
  os := plainOs
  proc_eq := rfl
  call_ok := callOk_select (shortWord_print (by norm_num))
  args := indexText_one

def moveCall : KeyCall Bool where
  client := false
  op := .move (sdsnew "key") 1
  cmd := moveEntry
  argv := moveArgv (Decimal.print 1)
  os := plainOs
  proc_eq := rfl
  call_ok := callOk_move (shortWord_print (by norm_num))
  args := ⟨rfl, indexText_one⟩

def getCall : KeyCall Bool where
  client := true
  op := .get (sdsnew "key")
  cmd := keyEntry "get" .GetCommand
  argv := [sdsnew "get", sdsnew "key"]
  os := plainOs
  proc_eq := rfl
  call_ok := callOk_get
  args := rfl

-- One client sets a key and moves it to the database that the other one has selected.
def movingRun : List (KeyEvent Bool) :=
  [.call setBy, .other (.connect true) rfl, .call selectCall,
    .other (.cron { os := plainOs, now := 0, stack := 0 }) rfl, .call moveCall, .call getCall]

theorem keyRefines_movingRun : (init Bool 2).KeyRefines movingRun := by
  refine (keyRefines_iff (Runs.Reach.start (start_init (by decide))) rfl _).1.mpr ?_
  have hmaps : (init Bool 2).maps = { dataset := [∅, ∅], selected := fun _ => 0 } := by
    rw [maps, dataset_init]
    rfl
  rw [hmaps]
  refine ⟨not_full_empty, trivial, trivial, trivial, fun _ _ _ => ?_, trivial, trivial⟩
  have hindex : atoi (moveCall.argv.getD 2 []) = 1 := KeyOp.atoi_index indexText_one
  rw [hindex]
  exact not_full_empty

section Filled

variable {n : Nat} (hn : n ≤ 2 ^ 27)

-- A server that has loaded the decimals below n as keys.
def filled (n : Nat) : System Unit where
  server := { initServer 1 [] 0 with dict := [tableOf sdsDictType 27 (decimalEntries n)] }
  clients := fun _ => ⟨0, [], []⟩
  fs := fun _ => none
  child := none
  stop := false

include hn

theorem soundDatabase_filled : SoundDatabase (tableOf sdsDictType 27 (decimalEntries n)) where
  toInv := (storableDatabase_decimalEntries (by omega) (by omega) hn).toInv
  size_le := Nat.le_refl _
  objects he hhe := by
    obtain ⟨i, -, rfl⟩ := List.mem_map.mp ((tableOf_entries _ _ _).mem_iff.mp hhe)
    trivial

theorem clean_filled : (tableOf sdsDictType 27 (decimalEntries n)).contents.Clean := by
  intro key v hlook
  rw [Dict.lookup_contents, Option.map_eq_some_iff] at hlook
  obtain ⟨o, ho, rfl⟩ := hlook
  have hmem := ((soundDatabase_filled hn).toInv.lookup_eq_some_iff key o).mp ho
  obtain ⟨i, hi, hentry⟩ := List.mem_map.mp ((tableOf_entries _ _ _).mem_iff.mp hmem)
  cases hentry
  have hlen := Decimal.length_print_le i
  rw [List.mem_range] at hi
  exact ⟨⟨word_print i, by omega⟩, Nat.two_pow_pos 31⟩

theorem start_filled : (filled n).Start where
  sound :=
    { dict := fun _ hdb => List.mem_singleton.mp hdb ▸ soundDatabase_filled hn
      clean := fun _ hks => List.mem_singleton.mp hks ▸ clean_filled hn
      selected := fun _ => Nat.one_pos
      db_num := Nat.one_pos }
  bg_saving := rfl
  child := rfl
  stop := rfl

theorem card_filled : ((filled n).model ()).keyspace.keys.card = n := by
  have hcard := (soundDatabase_filled hn).card_contents
  rw [used_decimalEntries] at hcard
  exact hcard

end Filled

-- SET where the table is at its limit, even of a key that is there.
theorem not_keyRefines_filled :
    (filled (2 ^ 27)).Reachable ∧ (filled (2 ^ 27)).stop = false ∧
      ¬(filled (2 ^ 27)).KeyRefines [.call setCall] := by
  have hstart := start_filled (Nat.le_refl (2 ^ 27))
  refine ⟨Runs.Reach.start hstart, hstart.stop, fun hrefines => ?_⟩
  exact (fits_of_keyRefines hstart.sound hstart.stop hrefines).1 (card_filled (Nat.le_refl (2 ^ 27)))

end System

end Cutis

import Cutis.System.Maps
import Cutis.System.Replies

namespace Cutis

namespace Keyspace

variable (ks : Keyspace) (key : Bytes)

-- The finite set a key stands for, the empty one if the key is missing.
def members : Finset Bytes :=
  match ks.lookup key with
  | some (.set members) => members
  | _ => ∅

def HoldsSet : Prop := ∃ members, ks.lookup key = some (.set members)

variable {ks key}

theorem members_set {members : Finset Bytes} (h : ks.lookup key = some (.set members)) :
    ks.members key = members := by
  rw [Keyspace.members, h]

theorem members_missing (h : key ∉ ks) : ks.members key = ∅ := by
  rw [members, Finmap.lookup_eq_none.mpr h]

theorem HoldsSet.lookup_eq (h : ks.HoldsSet key) :
    ks.lookup key = some (.set (ks.members key)) := by
  obtain ⟨members, hlook⟩ := h
  rw [members_set hlook, hlook]

theorem sinterSafe_of_sets {keys : List Bytes} (h : ∀ key ∈ keys, ks.HoldsSet key) :
    ks.SinterSafe keys := by
  induction keys with
  | nil => trivial
  | cons key keys ih =>
      rw [SinterSafe, (h key List.mem_cons_self).lookup_eq]
      exact ih fun key hkey => h key (List.mem_cons_of_mem _ hkey)

theorem inAll_iff {keys : List Bytes} (h : ∀ key ∈ keys, ks.HoldsSet key) (el : Bytes) :
    ks.InAll keys el ↔ ∀ key ∈ keys, el ∈ ks.members key := by
  refine forall₂_congr fun key hkey => ?_
  constructor
  · rintro ⟨members, hlook, hel⟩
    rwa [members_set hlook]
  · exact fun hel => ⟨_, (h key hkey).lookup_eq, hel⟩

end Keyspace

inductive SetOp
  | sadd (key el : Bytes)
  | srem (key el : Bytes)
  | sismember (key el : Bytes)
  | scard (key : Bytes)
  | sinter (keys : List Bytes)

namespace SetOp

def proc : SetOp → CommandProc
  | .sadd _ _ => .SAddCommand
  | .srem _ _ => .SRemCommand
  | .sismember _ _ => .SIsMemberCommand
  | .scard _ => .SCardCommand
  | .sinter _ => .SInterCommand

-- The arguments behind the name.
def Args (argv : List Bytes) : SetOp → Prop
  | .sadd key el | .srem key el | .sismember key el =>
      argv.getD 1 [] = key ∧ argv.getD 2 [] = el
  | .scard key => argv.getD 1 [] = key
  | .sinter keys => argv.tail = keys

-- SADD and SREM work on keys that are missing or hold sets, the others on sets.
def Applies (ks : Keyspace) : SetOp → Prop
  | .sadd key _ | .srem key _ => key ∈ ks → ks.HoldsSet key
  | .sismember key _ | .scard key => ks.HoldsSet key
  | .sinter keys => ∀ key ∈ keys, ks.HoldsSet key

-- What a command does to the finite sets.
def effect (ks : Keyspace) : SetOp → Keyspace
  | .sadd key el => ks.insert key (.set (insert el (ks.members key)))
  | .srem key el =>
      if key ∈ ks then ks.insert key (.set ((ks.members key).erase el)) else ks
  | .sismember _ _ | .scard _ | .sinter _ => ks

-- The replies that are right: SINTER has the elements of the intersection in any order.
def Answers (ks : Keyspace) (r : Reply) : SetOp → Prop
  | .sadd _ _ => r = .ok
  | .srem key _ => r = if key ∈ ks then .ok else .error "no such key"
  | .sismember key el => r = if el ∈ ks.members key then .one else .zero
  | .scard key => r = .int (ks.members key).card
  | .sinter keys => ∃ elements, r = .multi elements ∧ elements.Nodup ∧
      ∀ el, el ∈ elements ↔ ∀ key ∈ keys, el ∈ ks.members key

-- The tables SADD adds to are not at their limit.
def Fits (ks : Keyspace) : SetOp → Prop
  | .sadd key _ => (key ∉ ks → ¬ks.Full) ∧ (ks.members key).card ≠ 2 ^ 27
  | _ => True

variable {ks : Keyspace} {op : SetOp}

theorem fits_iff (happlies : op.Applies ks) {m : Model} (hks : m.keyspace = ks)
    {argv : List Bytes} (hargs : op.Args argv) : m.HasRoom argv op.proc ↔ op.Fits ks := by
  subst hks
  cases op with
  | sadd key el =>
      obtain ⟨rfl, -⟩ := hargs
      refine and_congr_right fun _ => ?_
      constructor
      · intro hroom
        by_cases hmem : argv.getD 1 [] ∈ m.keyspace
        · exact hroom _ (happlies hmem).lookup_eq
        · rw [Keyspace.members_missing hmem]
          decide
      · intro hcard members hlook
        rwa [Keyspace.members_set hlook] at hcard
  | srem | sismember | scard | sinter => exact Iff.rfl

-- What the model does for a command with a single outcome.
theorem outcome_spec (happlies : op.Applies ks) (m : Model) {argv : List Bytes}
    (hargs : op.Args argv) (hsinter : ∀ keys, op ≠ .sinter keys) :
    ∃ f : Keyspace → Effect, m.outcome argv op.proc = some (m.apply f) ∧
      (f ks).keyspace = op.effect ks ∧ op.Answers ks (f ks).reply := by
  cases op with
  | sadd key el =>
      obtain ⟨rfl, rfl⟩ := hargs
      refine ⟨_, rfl, ?_⟩
      by_cases hmem : argv.getD 1 [] ∈ ks
      · rw [Keyspace.sadd, Keyspace.onSet, (happlies hmem).lookup_eq]
        exact ⟨rfl, rfl⟩
      · rw [Keyspace.sadd, Keyspace.onSet, Finmap.lookup_eq_none.mpr hmem, effect,
          Keyspace.members_missing hmem]
        exact ⟨rfl, rfl⟩
  | srem key el =>
      obtain ⟨rfl, rfl⟩ := hargs
      refine ⟨_, rfl, ?_⟩
      rw [Keyspace.srem, Keyspace.onSet, effect, Answers]
      by_cases hmem : argv.getD 1 [] ∈ ks
      · rw [(happlies hmem).lookup_eq, if_pos hmem, if_pos hmem]
        exact ⟨rfl, rfl⟩
      · rw [Finmap.lookup_eq_none.mpr hmem, if_neg hmem, if_neg hmem]
        exact ⟨rfl, rfl⟩
  | sismember key el =>
      obtain ⟨rfl, rfl⟩ := hargs
      refine ⟨_, rfl, ?_⟩
      rw [Keyspace.sismember, Keyspace.onSet, Keyspace.HoldsSet.lookup_eq happlies]
      exact ⟨rfl, rfl⟩
  | scard key =>
      obtain rfl := hargs
      refine ⟨_, rfl, ?_⟩
      rw [Keyspace.scard, Keyspace.onSet, Keyspace.HoldsSet.lookup_eq happlies]
      exact ⟨rfl, rfl⟩
  | sinter keys => exact absurd rfl (hsinter keys)

theorem sinter_perm {keys keys' elements elements' : List Bytes} (hperm : keys.Perm keys')
    (h : (SetOp.sinter keys).Answers ks (.multi elements))
    (h' : (SetOp.sinter keys').Answers ks (.multi elements')) : elements.Perm elements' := by
  obtain ⟨_, heq, hnodup, hmem⟩ := h
  obtain ⟨_, heq', hnodup', hmem'⟩ := h'
  cases heq
  cases heq'
  refine (List.perm_ext_iff_of_nodup hnodup hnodup').mpr fun el => ?_
  rw [hmem, hmem']
  exact forall_congr' fun key => imp_congr_left hperm.mem_iff

end SetOp

-- A call of one of the commands, with the arguments as the parser has them; qsort leaves
-- some order of the sets.
structure SetCall (ι : Type) where
  client : ι
  op : SetOp
  cmd : CutisCommand
  argv : List Bytes
  os : Os
  proc_eq : cmd.proc = op.proc
  call_ok : CallOk cmd argv
  args : op.Args argv
  qsort : ∀ dv, (os.qsort dv).Perm dv

inductive SetEvent (ι : Type)
  | call (c : SetCall ι)
  | other (a : Action ι) (ha : a.isCall = false)

namespace Maps

variable {ι : Type} [DecidableEq ι]

-- A command changes the finite sets of the database its client has selected, and the reply
-- is one of the right ones.
def setStep (m : Maps ι) : SetEvent ι → Maps ι × (Bytes → Prop)
  | .call c =>
      let ks := (m.view c.client).keyspace
      ({ m with dataset := m.dataset.set (m.selected c.client) (c.op.effect ks) },
        fun reply => ∃ r, c.op.Answers ks r ∧ reply = r.encode)
  | .other a _ => (m.other a, (· = []))

def SetApplies (m : Maps ι) : SetEvent ι → Prop
  | .call c => c.op.Applies (m.view c.client).keyspace
  | .other _ _ => True

def SetFits (m : Maps ι) : SetEvent ι → Prop
  | .call c => c.op.Fits (m.view c.client).keyspace
  | .other _ _ => True

end Maps

namespace System

variable {ι : Type} [DecidableEq ι]

def setStep (σ : System ι) : SetEvent ι → Except Fault (System ι × Bytes)
  | .call c => do
      let σ' ← σ.act (.call c.client c.cmd c.argv c.os)
      return (σ', σ.added σ' c.client)
  | .other a _ => do
      let σ' ← σ.act a
      return (σ', [])

-- The run goes through, with right replies, and every state is that of the finite sets.
def SetRefines (σ : System ι) (events : List (SetEvent ι)) : Prop :=
  Runs.Tracks setStep Maps.setStep (fun σ m => σ.maps = m) σ σ.maps events

section Steps

variable {σ σ' : System ι} {m : Maps ι}

-- The call of SINTER, for sets.
theorem sinter_answers (h : σ.Sound) (hstop : σ.stop = false) (c : SetCall ι) {keys : List Bytes}
    (hop : c.op = .sinter keys) (happlies : c.op.Applies (σ.model c.client).keyspace) :
    ∃ r σ', σ.act (.call c.client c.cmd c.argv c.os) = .ok σ' ∧
      σ.Answers c.client ((σ.model c.client).answer r) σ' ∧
      c.op.Answers (σ.model c.client).keyspace r := by
  have hproc := c.proc_eq
  have hargs := c.args
  have hargc := c.call_ok.argc
  rw [hop] at hproc hargs happlies
  rw [hproc] at hargc
  have htail : c.argv.tail = keys := hargs
  have hne : keys ≠ [] := by
    rw [← htail]
    refine List.ne_nil_of_length_pos ?_
    rw [List.length_tail]
    exact Nat.sub_pos_of_lt hargc
  obtain ⟨r, hmeets, hr⟩ := Session.sInterCommand_meets (h.session c.client c.argv) c.qsort htail
    hne (Keyspace.sinterSafe_of_sets happlies)
  have hcall : (σ.session c.client c.argv).Meets
      (c.cmd.proc.call c.os (σ.session c.client c.argv)) ((σ.model c.client).answer r) := by
    rw [hproc]
    exact hmeets
  obtain ⟨σ', hact, hanswers⟩ := act_answers hstop hcall
  refine ⟨r, σ', hact, hanswers, ?_⟩
  rw [hop]
  rcases hr with ⟨-, key, hkey, hmissing⟩ | ⟨elements, rfl, hnodup, hmem⟩
  · obtain ⟨members, hlook⟩ := happlies key hkey
    cases hlook.symm.trans hmissing
  · refine ⟨elements, rfl, hnodup, fun el => ?_⟩
    rw [hmem]
    exact Keyspace.inAll_iff happlies el

theorem maps_of_effect (c : SetCall ι) {o : Outcome} (h : σ.Answers c.client o σ')
    (hmodel : o.model = { σ.model c.client with
      dataset := (σ.model c.client).dataset.set (σ.model c.client).selected
        (c.op.effect (σ.model c.client).keyspace) }) :
    σ'.maps = (σ.maps.setStep (.call c)).1 := by
  rw [maps_of_answers h, hmodel]
  exact congrArg (Maps.mk _) (Function.update_eq_self c.client σ.maps.selected)

theorem setCall_answers (h : σ.Sound) (hstop : σ.stop = false) (c : SetCall ι)
    (happlies : c.op.Applies (σ.model c.client).keyspace)
    (hfits : c.op.Fits (σ.model c.client).keyspace) :
    ∃ o σ', σ.act (.call c.client c.cmd c.argv c.os) = .ok σ' ∧ σ.Answers c.client o σ' ∧
      c.op.Answers (σ.model c.client).keyspace o.reply ∧
      σ'.maps = (σ.maps.setStep (.call c)).1 := by
  by_cases hsinter : ∃ keys, c.op = .sinter keys
  · obtain ⟨keys, hop⟩ := hsinter
    obtain ⟨r, σ', hact, hanswers, hr⟩ := sinter_answers h hstop c hop happlies
    refine ⟨_, σ', hact, hanswers, hr, maps_of_effect c hanswers ?_⟩
    rw [hop, SetOp.effect, Model.set_keyspace (selected_lt h)]
    rfl
  · obtain ⟨f, ho, heffect, hr⟩ := SetOp.outcome_spec happlies (σ.model c.client) c.args
      fun keys hop => hsinter ⟨keys, hop⟩
    have hroom := (SetOp.fits_iff happlies rfl c.args).mpr hfits
    rw [← c.proc_eq] at ho hroom
    have hecho : c.cmd.proc ≠ .EchoCommand := by
      rw [c.proc_eq]
      cases c.op <;> exact nofun
    obtain ⟨σ', hact, hanswers⟩ := call_answers h c.call_ok hstop c.os hroom
      (fun he => absurd he hecho) ho
    refine ⟨_, σ', hact, hanswers, hr, maps_of_effect c hanswers ?_⟩
    rw [← heffect]
    rfl

theorem setStep_ok (σ : System ι) (m : Maps ι) (event : SetEvent ι) (h : σ.Follows m)
    (happlies : m.SetApplies event) (hfits : m.SetFits event) :
    ∃ next, setStep σ event = .ok next ∧ (m.setStep event).2 next.2 ∧
      next.1.Follows (m.setStep event).1 := by
  obtain ⟨hsound, hstop, rfl⟩ := h
  cases event with
  | call c =>
      obtain ⟨o, σ', hact, hanswers, hr, hmaps⟩ := setCall_answers hsound hstop c happlies hfits
      have hok : (Action.call c.client c.cmd c.argv c.os).Ok := c.call_ok
      refine ⟨(σ', o.reply.encode), ?_, ⟨o.reply, hr, rfl⟩, act_sound hsound hok hact,
        hanswers.stop.trans hstop, hmaps⟩
      rw [setStep, hact, ok_bind, added_of_answers hanswers]
      rfl
  | other a ha =>
      obtain ⟨σ', hact, hstop', hmaps⟩ := act_other hsound hstop ha
      have hok : a.Ok := by
        cases a with
        | call => cases ha
        | _ => trivial
      refine ⟨(σ', []), ?_, rfl, act_sound hsound hok hact, hstop', hmaps⟩
      rw [setStep, hact, ok_bind]
      rfl

theorem setStep_fault (σ : System ι) (m : Maps ι) (event : SetEvent ι) (h : σ.Follows m)
    (happlies : m.SetApplies event) (hfits : ¬m.SetFits event) :
    ∃ fault, setStep σ event = .error fault := by
  obtain ⟨hsound, -, rfl⟩ := h
  cases event with
  | call c =>
      have hroom : ¬(σ.model c.client).HasRoom c.argv c.cmd.proc := by
        rw [c.proc_eq]
        exact fun hroom => hfits ((SetOp.fits_iff happlies rfl c.args).mp hroom)
      have hno := call_no_room hsound c.call_ok hroom c.os
      cases hact : σ.act (.call c.client c.cmd c.argv c.os) with
      | error fault => exact ⟨fault, by rw [setStep, hact, error_bind]⟩
      | ok σ' => exact absurd ⟨σ', hact⟩ hno
  | other a ha => exact absurd trivial hfits

end Steps

theorem tracks_iff_fits {σ : System ι} (h : σ.Sound) (hstop : σ.stop = false)
    {events : List (SetEvent ι)}
    (happlies : Runs.Along Maps.setStep Maps.SetApplies σ.maps events) :
    σ.SetRefines events ↔ Runs.Along Maps.setStep Maps.SetFits σ.maps events :=
  Runs.tracks_iff (fun _ _ hfollows => hfollows.2.2) setStep_ok setStep_fault events σ σ.maps
    ⟨h, hstop, rfl⟩ happlies

-- On every run whose commands get missing keys and sets as they should, the server and the
-- finite sets agree exactly where no table has to grow beyond its limit; the elements SINTER
-- replies do not depend on the order of the keys.
theorem setRefines_iff {σ : System ι} (h : σ.Reachable) (hstop : σ.stop = false)
    (events : List (SetEvent ι))
    (happlies : Runs.Along Maps.setStep Maps.SetApplies σ.maps events) :
    (σ.SetRefines events ↔ Runs.Along Maps.setStep Maps.SetFits σ.maps events) ∧
      ∀ (ks : Keyspace) (keys keys' elements elements' : List Bytes), keys.Perm keys' →
        (SetOp.sinter keys).Answers ks (.multi elements) →
        (SetOp.sinter keys').Answers ks (.multi elements') → elements.Perm elements' :=
  ⟨tracks_iff_fits h.sound hstop happlies, fun _ _ _ _ _ => SetOp.sinter_perm⟩

def saddEntry : CutisCommand := ⟨"sadd", .SAddCommand, 3, .CUTIS_CMD_BULK⟩

def saddArgv : List Bytes := [sdsnew "sadd", sdsnew "key", sdsnew "value"]

theorem callOk_sadd : CallOk saddEntry saddArgv where
  mem := by decide
  accepts := by decide
  words := by decide
  payload := fun _ last hlast => by
    obtain rfl : last = sdsnew "value" := by simpa [saddArgv, eq_comm] using hlast
    decide

def saddCall : SetCall Unit where
  client := ()
  op := .sadd (sdsnew "key") (sdsnew "value")
  cmd := saddEntry
  argv := saddArgv
  os := plainOs
  proc_eq := rfl
  call_ok := callOk_sadd
  args := ⟨rfl, rfl⟩
  qsort := fun dv => List.Perm.refl dv

def sinterCall : SetCall Unit where
  client := ()
  op := .sinter [sdsnew "key"]
  cmd := sinterEntry
  argv := sinterArgv
  os := plainOs
  proc_eq := rfl
  call_ok := callOk_sinter
  args := rfl
  qsort := fun dv => List.Perm.refl dv

theorem setRefines_sadd_sinter :
    (init Unit 1).SetRefines [.call saddCall, .call sinterCall] := by
  have hkeyspace : ((init Unit 1).maps.view ()).keyspace = ∅ :=
    congrArg Model.keyspace (model_init ())
  have hnew : sdsnew "key" ∉ ((init Unit 1).maps.view ()).keyspace := by
    rw [hkeyspace]
    exact Finmap.notMem_empty
  refine (setRefines_iff (Runs.Reach.start (start_init Nat.one_pos)) rfl _ ?_).1.mpr ?_
  · refine ⟨fun hmem => absurd hmem hnew, fun key hkey => ?_, trivial⟩
    obtain rfl := List.mem_singleton.mp hkey
    exact ⟨_, Finmap.lookup_insert _⟩
  · refine ⟨⟨fun _ => ?_, ?_⟩, trivial, trivial⟩
    · show ¬((init Unit 1).maps.view ()).keyspace.Full
      rw [hkeyspace]
      exact not_full_empty
    · show (((init Unit 1).maps.view ()).keyspace.members (sdsnew "key")).card ≠ 2 ^ 27
      rw [Keyspace.members_missing hnew]
      decide

section FullSet

-- The members are the decimals below 2 ^ 27.
def fullSetEntries : List (DictEntry Bytes Unit) :=
  (List.range (2 ^ 27)).map fun i => { key := Decimal.print i, val := () }

def fullSet : Dict Bytes Unit := tableOf SetDictType 27 fullSetEntries

theorem sound_fullSet : fullSet.Sound SetDictType where
  toInv := by
    refine tableOf_inv _ (by omega) (by omega) ?_ ?_
    · rw [fullSetEntries, List.length_map, List.length_range]
    · rw [fullSetEntries, List.map_map]
      exact List.nodup_range.map Decimal.print_injective
  size_le := Nat.le_refl _

theorem card_fullSet : fullSet.members.card = 2 ^ 27 := by
  rw [card_members sound_fullSet, fullSet, tableOf_used, fullSetEntries, List.length_map,
    List.length_range]

def fullSetDatabase : Database :=
  tableOf sdsDictType 4 [{ key := sdsnew "key", val := .set fullSet }]

theorem soundDatabase_fullSet : SoundDatabase fullSetDatabase where
  toInv := tableOf_inv _ (by omega) (by omega) (by decide) (List.nodup_singleton _)
  size_le := Nat.pow_le_pow_right (by omega) (by omega)
  objects he hhe := by
    obtain rfl := List.mem_singleton.mp ((tableOf_entries _ _ _).mem_iff.mp hhe)
    exact sound_fullSet

theorem lookup_fullSet {key : Bytes} {v : Value} (h : fullSetDatabase.contents.lookup key = some v) :
    key = sdsnew "key" ∧ v = .set fullSet.members := by
  rw [Dict.lookup_contents, Option.map_eq_some_iff] at h
  obtain ⟨o, ho, rfl⟩ := h
  have hmem := (soundDatabase_fullSet.toInv.lookup_eq_some_iff key o).mp ho
  cases List.mem_singleton.mp ((tableOf_entries _ _ _).mem_iff.mp hmem)
  exact ⟨rfl, rfl⟩

theorem lookup_fullSet_key :
    fullSetDatabase.contents.lookup (sdsnew "key") = some (.set fullSet.members) := by
  have hlook := (soundDatabase_fullSet.toInv.lookup_eq_some_iff (sdsnew "key") (.set fullSet)).mpr
    ((tableOf_entries _ _ _).mem_iff.mpr (List.mem_singleton.mpr rfl))
  rw [Dict.lookup_contents, hlook]
  rfl

theorem clean_fullSet : fullSetDatabase.contents.Clean := by
  intro key v hlook
  obtain ⟨rfl, rfl⟩ := lookup_fullSet hlook
  refine ⟨by decide, fun el hel => ?_⟩
  rw [Dict.members, Finmap.mem_keys, Dict.mem_toFinmap] at hel
  obtain ⟨he, hhe, rfl⟩ := List.mem_map.mp hel
  obtain ⟨i, hi, rfl⟩ := List.mem_map.mp ((tableOf_entries _ _ _).mem_iff.mp hhe)
  have hlen := Decimal.length_print_le i
  rw [List.mem_range] at hi
  simp only
  omega

-- A server that has loaded one set at the limit.
def fullSetSystem : System Unit where
  server := { initServer 1 [] 0 with dict := [fullSetDatabase] }
  clients := fun _ => ⟨0, [], []⟩
  fs := fun _ => none
  child := none
  stop := false

theorem start_fullSet : fullSetSystem.Start where
  sound :=
    { dict := fun _ hdb => List.mem_singleton.mp hdb ▸ soundDatabase_fullSet
      clean := fun _ hks => List.mem_singleton.mp hks ▸ clean_fullSet
      selected := fun _ => Nat.one_pos
      db_num := Nat.one_pos }
  bg_saving := rfl
  child := rfl
  stop := rfl

-- SADD of one more member.
theorem not_setRefines_full :
    fullSetSystem.Reachable ∧ fullSetSystem.stop = false ∧
      Runs.Along Maps.setStep Maps.SetApplies fullSetSystem.maps [.call saddCall] ∧
      ¬fullSetSystem.SetRefines [.call saddCall] := by
  have hreach : fullSetSystem.Reachable := Runs.Reach.start start_fullSet
  have happlies : Runs.Along Maps.setStep Maps.SetApplies fullSetSystem.maps [.call saddCall] :=
    ⟨fun _ => ⟨_, lookup_fullSet_key⟩, trivial⟩
  refine ⟨hreach, rfl, happlies, fun hrefines => ?_⟩
  obtain ⟨-, hroom⟩ := ((tracks_iff_fits hreach.sound rfl happlies).mp hrefines).1
  refine hroom ?_
  show (fullSetDatabase.contents.members (sdsnew "key")).card = 2 ^ 27
  rw [Keyspace.members_set lookup_fullSet_key, card_fullSet]

end FullSet

end System

end Cutis

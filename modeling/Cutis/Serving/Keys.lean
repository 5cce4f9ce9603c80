import Cutis.Command.Locality
import Cutis.Serving.Answers

namespace Cutis

open History

variable {ι : Type} [DecidableEq ι]

-- A database with at most one key.
def Keyspace.single (key : Bytes) : Option Value → Keyspace
  | none => ∅
  | some v => (∅ : Keyspace).insert key v

-- A server that has nothing but this key.
def Model.ofCell (key : Bytes) (v : Option Value) : Model where
  dataset := [Keyspace.single key v]
  selected := 0

-- What one request does to the value of one key, and what it answers: a command on this key
-- alone does what it does where there is nothing else, and the value may be carried away or
-- another one brought in.
inductive CellServes (key : Bytes) : Option Value → ι × QueryEvent × Bytes → Option Value → Prop
  | command {i : ι} {cmd : CutisCommand} {argv : List Bytes} {v : Option Value} {o : Outcome} :
      cmd.proc.onKey = true → argv.getD 1 [] = key →
      (Model.ofCell key v).outcome argv cmd.proc = some o →
      CellServes key v (i, .proc cmd argv, o.reply.encode) (o.model.keyspace.lookup key)
  | refused {i : ι} {cmd : CutisCommand} {argv : List Bytes} {v : Option Value} {err : String} :
      cmd.proc.transfers = true →
      CellServes key v (i, .proc cmd argv, (Reply.error err).encode) v
  | taken {i : ι} {cmd : CutisCommand} {argv : List Bytes} {v : Value} :
      cmd.proc.transfers = true → argv.getD 1 [] = key →
      CellServes key (some v) (i, .proc cmd argv, Reply.ok.encode) none
  | given {i : ι} {cmd : CutisCommand} {argv : List Bytes} {v : Option Value} {w : Value} :
      cmd.proc.transfers = true → cmd.proc.target argv = key →
      (cmd.proc ≠ .RenameCommand → v = none) →
      CellServes key v (i, .proc cmd argv, Reply.ok.encode) (some w)

-- The choice of databases behind a request.
def selectedAfter (n : Nat) (selected : ι → Nat) : ι × QueryEvent × Bytes → ι → Nat
  | (i, .proc cmd argv, _) =>
      let id := atoi (argv.getD 1 [])
      if cmd.proc = .SelectCommand ∧ 0 ≤ id ∧ id < n then Function.update selected i id.toNat
      else selected
  | _ => selected

-- The requests that name this key in this database: the database is the one the client has
-- selected, or the one it moves the key to.
def actsOn (d : Nat) (key : Bytes) (selected : ι → Nat) : ι × QueryEvent × Bytes → Bool
  | (i, .proc cmd argv, _) =>
      match cmd.proc with
      | .RenameCommand | .RenamenxCommand =>
          selected i = d ∧ (argv.getD 1 [] = key ∨ argv.getD 2 [] = key)
      | .MoveCommand =>
          argv.getD 1 [] = key ∧ (selected i = d ∨ atoi (argv.getD 2 []) = d)
      | proc => proc.onKey ∧ selected i = d ∧ argv.getD 1 [] = key
  | _ => false

def Maps.value (d : Nat) (key : Bytes) (m : Maps ι) : Option Value :=
  (m.dataset.getD d ∅).lookup key

-- Every client has selected a database there is.
structure Maps.InRange (n : Nat) (m : Maps ι) : Prop where
  length : m.dataset.length = n
  selected : ∀ i, m.selected i < n

-- The history of one key: the requests that name it.
def keyHistory (m : Maps ι) (d : Nat) (key : Bytes) (served : List (ι × QueryEvent × Bytes)) :
    List (ι × QueryEvent × Bytes) :=
  actingOn (actsOn d key) (selectedAfter m.dataset.length) m.selected served

theorem Keyspace.lookup_single (key : Bytes) (v : Option Value) :
    (single key v).lookup key = v := by
  cases v with
  | none => rw [single, Finmap.lookup_empty]
  | some v => rw [single, Finmap.lookup_insert]

-- A key that is not there can be taken by RENAMENX, and by MOVE.
theorem Keyspace.renameWith_nx {ks : Keyspace} {key dst : Bytes}
    (h : (ks.renameWith key true dst).reply = .ok) : ks.lookup dst = none := by
  rw [renameWith] at h
  by_cases hsame : key = dst
  · rw [if_pos hsame] at h
    exact absurd h (Model.error_ne_ok _)
  · rw [if_neg hsame] at h
    cases hlook : ks.lookup key with
    | none =>
        rw [hlook] at h
        exact absurd h (Model.error_ne_ok _)
    | some v =>
        rw [hlook] at h
        dsimp only at h
        split_ifs at h with hmem
        · exact absurd h (Model.error_ne_ok _)
        · exact Finmap.lookup_eq_none.mpr fun hdst => hmem ⟨rfl, hdst⟩

theorem Model.move_target {m : Model} {key : Bytes} {id : Int}
    (h : (m.move key id).reply = .ok) : (m.dataset.getD id.toNat ∅).lookup key = none := by
  rw [move] at h
  by_cases hvalid : m.validIndex id
  · rw [if_neg (not_not.mpr hvalid)] at h
    by_cases hself : id = m.selected
    · rw [if_pos hself] at h
      exact absurd h (error_ne_ok _)
    · rw [if_neg hself] at h
      cases hlook : m.keyspace.lookup key with
      | none =>
          rw [hlook] at h
          exact absurd h (error_ne_ok _)
      | some v =>
          rw [hlook] at h
          dsimp only at h
          split_ifs at h with hmem
          · exact absurd h (error_ne_ok _)
          · exact Finmap.lookup_eq_none.mpr hmem
  · rw [if_pos hvalid] at h
    exact absurd h (error_ne_ok _)

namespace Maps

variable {m m' : Maps ι} {n d : Nat} {key : Bytes} {i : ι} {e : ι × QueryEvent × Bytes}

theorem put_view (m : Maps ι) (i : ι) : m.put i (m.view i) = m :=
  congrArg (Maps.mk _) (Function.update_eq_self _ _)

theorem put_selected {v : Model} (hv : v.selected = m.selected i) :
    (m.put i v).selected = m.selected := by
  rw [put, hv, Function.update_eq_self]

theorem InRange.put (h : m.InRange n) {v : Model} (hlength : v.dataset.length = n)
    (hsel : v.selected < n) : (m.put i v).InRange n where
  length := hlength
  selected j := by
    simp only [Maps.put]
    by_cases hj : j = i
    · subst hj
      rwa [Function.update_self]
    · rw [Function.update_of_ne hj]
      exact h.selected j

-- A step on one database, seen from one of them.
theorem value_apply (h : m.InRange n) (f : Keyspace → Effect) :
    (m.put i ((m.view i).apply f).model).value d key =
      if m.selected i = d then (f (m.view i).keyspace).keyspace.lookup key
      else m.value d key := by
  have hsel : m.selected i < m.dataset.length := h.length ▸ h.selected i
  split_ifs with hd
  · subst hd
    simp [value, put, Model.apply, view, List.getD_eq_getElem?_getD, hsel]
  · simp [value, put, Model.apply, view, List.getD_eq_getElem?_getD, List.getElem?_set_ne hd]

end Maps

-- The commands that neither work on one key nor carry a value change no database.
theorem Model.Serves.quiet {m v : Model} {argv : List Bytes} {proc : CommandProc} {bytes : Bytes}
    (hsel : m.selected < m.dataset.length) (hkey : proc.onKey = false)
    (htransfers : proc.transfers = false) (h : m.Serves argv proc v bytes) :
    v.dataset = m.dataset := by
  cases h with
  | outcome ho =>
      cases proc <;> first | (cases hkey; done) | (cases htransfers; done) | (cases ho; done) | skip
      case SelectCommand =>
        cases ho
        rw [Model.select]
        split_ifs <;> rfl
      case DbsizeCommand =>
        cases ho
        rw [apply_eq_self hsel rfl]
      case PingCommand => cases ho; rfl
      case EchoCommand => cases ho; rfl
  | _ => rfl

section Acts

variable {n d : Nat} {key : Bytes} {i : ι} {cmd : CutisCommand} {argv : List Bytes}
  {bytes : Bytes} {selected : ι → Nat}

omit [DecidableEq ι] in
theorem actsOn_onKey (hkey : cmd.proc.onKey = true) :
    actsOn d key selected (i, .proc cmd argv, bytes) = true ↔
      selected i = d ∧ argv.getD 1 [] = key := by
  simp only [actsOn]
  cases hproc : cmd.proc with
  | RenameCommand | RenamenxCommand | MoveCommand => rw [hproc] at hkey; cases hkey
  | _ => rw [hproc] at hkey; simp [hkey]

omit [DecidableEq ι] in
theorem actsOn_quiet (hkey : cmd.proc.onKey = false) (htransfers : cmd.proc.transfers = false) :
    actsOn d key selected (i, .proc cmd argv, bytes) = false := by
  simp only [actsOn]
  cases hproc : cmd.proc with
  | RenameCommand | RenamenxCommand | MoveCommand => rw [hproc] at htransfers; cases htransfers
  | _ => rw [hproc] at hkey; simp [hkey]

theorem selectedAfter_of_ne (hselect : cmd.proc ≠ .SelectCommand) :
    selectedAfter n selected (i, .proc cmd argv, bytes) = selected := by
  simp [selectedAfter, hselect]

end Acts

namespace Model

variable {m v : Model} {argv : List Bytes} {proc : CommandProc} {bytes : Bytes}

theorem Serves.outcome_of (hproc : proc.onKey = true ∨ proc.transfers = true)
    (h : m.Serves argv proc v bytes) :
    ∃ o, m.outcome argv proc = some o ∧ v = o.model ∧ bytes = o.reply.encode := by
  cases h with
  | @outcome _ o ho => exact ⟨o, ho, rfl, rfl⟩
  | control hcontrol =>
      rcases hcontrol with hcontrol | rfl
      · cases proc with
        | SaveCommand | BgsaveCommand | ShutDownCommand =>
            simp [CommandProc.onKey, CommandProc.transfers] at hproc
        | _ => cases hcontrol
      · simp [CommandProc.onKey, CommandProc.transfers] at hproc
  | _ => simp [CommandProc.onKey, CommandProc.transfers] at hproc

theorem outcome_selected {o : Outcome} (hselect : proc ≠ .SelectCommand)
    (ho : m.outcome argv proc = some o) : o.model.selected = m.selected := by
  cases proc with
  | SelectCommand => exact absurd rfl hselect
  | MoveCommand =>
      cases ho
      rcases m.move_cases (argv.getD 1 []) (atoi (argv.getD 2 [])) with ⟨err, hm⟩ | ⟨v, -, -, -, hm⟩
      · rw [hm]
        rfl
      · rw [hm]
  | _ => cases ho <;> rfl

theorem Serves.inRange (hsel : m.selected < m.dataset.length) (h : m.Serves argv proc v bytes) :
    v.dataset.length = m.dataset.length ∧ v.selected < m.dataset.length := by
  cases h with
  | outcome ho =>
      obtain ⟨hlength, hrange⟩ := outcome_inRange hsel ho
      exact ⟨hlength, hlength ▸ hrange⟩
  | _ => exact ⟨rfl, hsel⟩

theorem Serves.selected (hselect : proc ≠ .SelectCommand) (h : m.Serves argv proc v bytes) :
    v.selected = m.selected := by
  cases h with
  | outcome ho => exact outcome_selected hselect ho
  | _ => rfl

theorem Serves.select (h : m.Serves argv .SelectCommand v bytes) :
    v.selected = if m.validIndex (atoi (argv.getD 1 [])) then (atoi (argv.getD 1 [])).toNat
      else m.selected := by
  cases h with
  | outcome ho =>
      cases ho
      rw [Model.select]
      split_ifs <;> rfl
  | control hcontrol =>
      rcases hcontrol with hcontrol | hcontrol <;> cases hcontrol

end Model

section Step

variable {m m' : Maps ι} {n d : Nat} {key : Bytes} {e : ι × QueryEvent × Bytes}

-- A request keeps the databases there are, and moves only the choice of its client.
theorem Maps.Serves.inRange (h : m.InRange n) (hs : m.Serves e m') :
    m'.InRange n ∧ m'.selected = selectedAfter n m.selected e := by
  cases hs with
  | error => exact ⟨h, rfl⟩
  | @call i cmd argv v bytes hs =>
      have hsel : (m.view i).selected < (m.view i).dataset.length := h.length ▸ h.selected i
      obtain ⟨hlength, hrange⟩ := hs.inRange hsel
      refine ⟨h.put (hlength.trans h.length) (h.length ▸ hrange), ?_⟩
      by_cases hselect : cmd.proc = .SelectCommand
      · rw [hselect] at hs
        have hid : (m.view i).validIndex (atoi (argv.getD 1 [])) ↔
            0 ≤ atoi (argv.getD 1 []) ∧ atoi (argv.getD 1 []) < n := by
          rw [← h.length]
          rfl
        simp only [selectedAfter, hselect, true_and, put, hs.select, hid]
        split_ifs
        · rfl
        · exact Function.update_eq_self _ _
      · rw [selectedAfter_of_ne hselect]
        exact put_selected (hs.selected hselect)

-- What a command on one key does to it, and to the others.
theorem onKey_value (d : Nat) (key : Bytes) (h : m.InRange n) {i : ι} {cmd : CutisCommand} {argv : List Bytes} {v : Model}
    {bytes : Bytes} (hkey : cmd.proc.onKey = true) (hs : (m.view i).Serves argv cmd.proc v bytes) :
    (m.selected i = d ∧ argv.getD 1 [] = key →
      CellServes key (m.value d key) (i, .proc cmd argv, bytes) ((m.put i v).value d key)) ∧
    (¬(m.selected i = d ∧ argv.getD 1 [] = key) → (m.put i v).value d key = m.value d key) := by
  obtain ⟨o, ho, rfl, rfl⟩ := hs.outcome_of (Or.inl hkey)
  obtain ⟨f, hlocal, houtcome⟩ := Model.outcome_local argv hkey
  obtain rfl := Option.some.inj ((houtcome (m.view i)).symm.trans ho)
  rw [Maps.value_apply h]
  constructor
  · rintro ⟨rfl, rfl⟩
    have hlook : (m.view i).keyspace.lookup (argv.getD 1 []) =
        (Keyspace.single (argv.getD 1 []) (m.value (m.selected i) (argv.getD 1 []))).lookup
          (argv.getD 1 []) := (Keyspace.lookup_single _ _).symm
    have hcell := CellServes.command (i := i) hkey rfl
      (houtcome (Model.ofCell (argv.getD 1 []) (m.value (m.selected i) (argv.getD 1 []))))
    rw [if_pos rfl, hlocal.value _ _ hlook, Model.apply, hlocal.reply _ _ hlook]
    exact hcell
  · intro hother
    split_ifs with hd
    · have hne : key ≠ argv.getD 1 [] := fun hkey => hother ⟨hd, hkey.symm⟩
      rw [hlocal.others _ key hne, ← hd]
      rfl
    · rfl

-- RENAME and RENAMENX carry the value inside of the database.
theorem rename_value (h : m.InRange n) {i : ι} {cmd : CutisCommand} {argv : List Bytes}
    (htransfers : cmd.proc.transfers = true) (nx : Bool)
    (hnx : nx = false → cmd.proc = .RenameCommand)
    (htarget : cmd.proc.target argv = argv.getD 2 []) {o : Outcome}
    (ho : (m.view i).apply (Keyspace.renameWith · (argv.getD 1 []) nx (argv.getD 2 [])) = o) :
    (m.selected i = d ∧ (argv.getD 1 [] = key ∨ argv.getD 2 [] = key) →
      CellServes key (m.value d key) (i, .proc cmd argv, o.reply.encode)
        ((m.put i o.model).value d key)) ∧
    (¬(m.selected i = d ∧ (argv.getD 1 [] = key ∨ argv.getD 2 [] = key)) →
      (m.put i o.model).value d key = m.value d key) := by
  subst ho
  rw [Maps.value_apply h]
  have hvalue : (m.view i).keyspace.lookup key = m.value (m.selected i) key := rfl
  rcases (m.view i).keyspace.renameWith_cases (argv.getD 1 []) nx (argv.getD 2 []) with
    ⟨err, hks⟩ | ⟨v, hne, hlook, hks⟩
  · simp only [Model.apply, hks, Keyspace.answer, hvalue]
    constructor
    · rintro ⟨rfl, -⟩
      rw [if_pos rfl]
      exact .refused htransfers
    · intro _
      split_ifs with hd
      · rw [hd]
      · rfl
  · have hfree : cmd.proc ≠ .RenameCommand → m.value (m.selected i) (argv.getD 2 []) = none := by
      intro hproc
      have htrue : nx = true := by
        cases nx with
        | true => rfl
        | false => exact absurd (hnx rfl) hproc
      subst htrue
      have hok : ((m.view i).keyspace.renameWith (argv.getD 1 []) true (argv.getD 2 [])).reply =
          .ok := by rw [hks]
      exact Keyspace.renameWith_nx hok
    simp only [Model.apply, hks]
    constructor
    · rintro ⟨rfl, rfl | rfl⟩
      · rw [if_pos rfl, Finmap.lookup_erase, ← hvalue, hlook]
        exact .taken htransfers rfl
      · rw [if_pos rfl, Finmap.lookup_erase_ne (Ne.symm hne), Finmap.lookup_insert]
        exact .given htransfers htarget hfree
    · intro hother
      split_ifs with hd
      · have hsource : key ≠ argv.getD 1 [] := fun hkey => hother ⟨hd, Or.inl hkey.symm⟩
        have hdst : key ≠ argv.getD 2 [] := fun hkey => hother ⟨hd, Or.inr hkey.symm⟩
        rw [Finmap.lookup_erase_ne hsource, Finmap.lookup_insert_of_ne _ hdst, hvalue, hd]
      · rfl

theorem getD_set_set {ds : Dataset} {s id : Nat} (hs : s < ds.length) (hid : id < ds.length)
    (a b : Keyspace) : ((ds.set id a).set s b).getD d ∅ =
      if s = d then b else if id = d then a else ds.getD d ∅ := by
  simp only [List.getD_eq_getElem?_getD]
  split_ifs with hs' hid'
  · subst hs'
    simp [hs]
  · subst hid'
    rw [List.getElem?_set_ne hs', List.getElem?_set_self hid, Option.getD_some]
  · rw [List.getElem?_set_ne hs', List.getElem?_set_ne hid']

-- MOVE carries it to the same key of another database.
theorem move_value (h : m.InRange n) {i : ι} {cmd : CutisCommand} {argv : List Bytes}
    (hproc : cmd.proc = .MoveCommand) {o : Outcome}
    (ho : (m.view i).move (argv.getD 1 []) (atoi (argv.getD 2 [])) = o) :
    (argv.getD 1 [] = key ∧ (m.selected i = d ∨ atoi (argv.getD 2 []) = d) →
      CellServes key (m.value d key) (i, .proc cmd argv, o.reply.encode)
        ((m.put i o.model).value d key)) ∧
    (¬(argv.getD 1 [] = key ∧ (m.selected i = d ∨ atoi (argv.getD 2 []) = d)) →
      (m.put i o.model).value d key = m.value d key) := by
  have htransfers : cmd.proc.transfers = true := by rw [hproc]; rfl
  have htarget : cmd.proc.target argv = argv.getD 1 [] := by rw [hproc]; rfl
  have hsel : m.selected i < m.dataset.length := h.length ▸ h.selected i
  rcases (m.view i).move_cases (argv.getD 1 []) (atoi (argv.getD 2 [])) with
    ⟨err, hm⟩ | ⟨v, hvalid, hself, hlook, hm⟩
  · obtain rfl := hm.symm.trans ho
    have hput : m.put i ((m.view i).answer (.error err)).model = m := m.put_view i
    rw [hput]
    exact ⟨fun _ => .refused htransfers, fun _ => rfl⟩
  · have hok : ((m.view i).move (argv.getD 1 []) (atoi (argv.getD 2 []))).reply = .ok := by rw [hm]
    have hfree := Model.move_target hok
    obtain rfl := hm.symm.trans ho
    obtain ⟨id, hid⟩ := Int.eq_ofNat_of_zero_le hvalid.1
    have hlt : id < m.dataset.length := by
      have := hvalid.2
      rw [hid] at this
      exact Int.ofNat_lt.mp this
    have hne : m.selected i ≠ id := by
      intro heq
      refine hself ?_
      rw [hid, ← heq]
      rfl
    simp only [hid, Int.toNat_natCast, Nat.cast_inj] at hfree ⊢
    have hafter : (m.put i { m.view i with
        dataset := ((m.view i).dataset.set id (((m.view i).dataset.getD id ∅).insert
          (argv.getD 1 []) v)).set (m.view i).selected
            ((m.view i).keyspace.erase (argv.getD 1 [])) }).value d key =
        if m.selected i = d then ((m.view i).keyspace.erase (argv.getD 1 [])).lookup key
        else if id = d then ((m.dataset.getD id ∅).insert (argv.getD 1 []) v).lookup key
        else m.value d key := by
      simp only [Maps.value, Maps.put, Maps.view, getD_set_set hsel hlt]
      split_ifs <;> rfl
    rw [hafter]
    constructor
    · rintro ⟨rfl, hd⟩
      by_cases hsource : m.selected i = d
      · rw [if_pos hsource, Finmap.lookup_erase, ← hsource]
        have hvalue : m.value (m.selected i) (argv.getD 1 []) = some v := hlook
        rw [hvalue]
        exact .taken htransfers rfl
      · obtain rfl := hd.resolve_left hsource
        rw [if_neg hsource, if_pos rfl, Finmap.lookup_insert]
        exact .given htransfers htarget fun _ => hfree
    · intro hother
      split_ifs with hsource htarget
      · have hkey : key ≠ argv.getD 1 [] := fun hkey => hother ⟨hkey.symm, Or.inl hsource⟩
        rw [Finmap.lookup_erase_ne hkey, ← hsource]
        rfl
      · have hkey : key ≠ argv.getD 1 [] := fun hkey => hother ⟨hkey.symm, Or.inr htarget⟩
        rw [Finmap.lookup_insert_of_ne _ hkey, htarget]
        rfl
      · rfl

-- One request, seen from one key: it acts on the key, or leaves it as it is.
theorem Maps.Serves.value (h : m.InRange n) (hs : m.Serves e m') :
    (actsOn d key m.selected e = true → CellServes key (m.value d key) e (m'.value d key)) ∧
      (actsOn d key m.selected e = false → m'.value d key = m.value d key) := by
  cases hs with
  | error => exact ⟨fun hacts => absurd hacts Bool.false_ne_true, fun _ => rfl⟩
  | @call i cmd argv v bytes hs =>
      cases hkey : cmd.proc.onKey with
      | true =>
          have hvalue := onKey_value d key h hkey hs
          rw [← Bool.not_eq_true, actsOn_onKey hkey]
          exact hvalue
      | false =>
          cases htransfers : cmd.proc.transfers with
          | true =>
              obtain ⟨o, ho, rfl, rfl⟩ := hs.outcome_of (Or.inr htransfers)
              rw [← Bool.not_eq_true]
              cases hproc : cmd.proc <;> rw [hproc] at htransfers ho <;>
                first | (cases htransfers; done) | skip
              case RenameCommand =>
                simp only [actsOn, hproc, decide_eq_true_eq]
                exact rename_value h (by rw [hproc]; rfl) false (fun _ => hproc)
                  (by rw [hproc]; rfl) (Option.some.inj ho)
              case RenamenxCommand =>
                simp only [actsOn, hproc, decide_eq_true_eq]
                exact rename_value h (by rw [hproc]; rfl) true nofun (by rw [hproc]; rfl)
                  (Option.some.inj ho)
              case MoveCommand =>
                simp only [actsOn, hproc, decide_eq_true_eq]
                exact move_value h hproc (Option.some.inj ho)
          | false =>
              have hsel : (m.view i).selected < (m.view i).dataset.length :=
                h.length ▸ h.selected i
              have hsame : (m.put i v).value d key = m.value d key := by
                simp only [value, put, hs.quiet hsel hkey htransfers, view]
              rw [actsOn_quiet hkey htransfers]
              exact ⟨fun hacts => absurd hacts Bool.false_ne_true, fun _ => hsame⟩

end Step

namespace Serving

variable {m : Maps ι} {σ : Serving ι}

theorem Reached.inRange (h : Reached m σ) : m.InRange m.dataset.length := by
  refine Runs.Reach.invariant (I := fun _ m => m.InRange m.dataset.length) ?_ ?_ h
  · rintro σ m ⟨hstart, rfl⟩
    exact ⟨rfl, fun i => System.selected_lt hstart.inv.sound⟩
  · exact fun σ m event σ' ih _ _ => ih

-- The requests that name a key make up its history.
theorem Reached.key (h : Reached m σ) (hfit : ListingsFit σ.served) (d : Nat) (key : Bytes) :
    Legal (CellServes key) (m.value d key) (keyHistory m d key σ.served)
      (σ.system.maps.value d key) :=
  (h.inv hfit).legal.object (fun _ _ _ hm hs => (hs.value hm).1)
    (fun _ _ _ hm hs => (hs.value hm).2) (fun _ _ _ hm hs => hs.inRange hm) h.inRange

-- Every key is an object of its own, whatever the clients do to the others and whichever
-- database they have selected: what it holds and what is answered about it are those of the
-- requests that name it, one after the other in the order they were served.
theorem key_in_order (h : Reached m σ) (hfit : ListingsFit σ.served) (d : Nat) (key : Bytes) :
    (keyHistory m d key σ.served).Sublist σ.served ∧
      Legal (CellServes key) (m.value d key) (keyHistory m d key σ.served)
        (σ.system.maps.value d key) :=
  ⟨actingOn_sublist _ _ _ _, h.key hfit d key⟩

-- One client sets the key, the other reads it.
theorem key_in_order_session :
    ∃ σ : Serving Bool,
      (keyHistory (init Bool 1).system.maps 0 (sdsnew "k") σ.served).Sublist σ.served ∧
        Legal (CellServes (sdsnew "k")) none
          (keyHistory (init Bool 1).system.maps 0 (sdsnew "k") σ.served)
          (σ.system.maps.value 0 (sdsnew "k")) := by
  obtain ⟨σ, hreach, hfit, -⟩ := exists_session
  exact ⟨σ, key_in_order hreach hfit 0 (sdsnew "k")⟩

end Serving

end Cutis

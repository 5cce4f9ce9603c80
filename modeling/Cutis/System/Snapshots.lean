import Cutis.System.Saving

namespace Cutis

-- The list lengths that fit in the file.
def ShortLists (ds : Dataset) : Prop :=
  ∀ ks ∈ ds, ∀ key l, ks.lookup key = some (.list l) → l.length < 2 ^ 31

section Files

variable {dict : List Database}

theorem storable_of_sound (hdict : ∀ db ∈ dict, SoundDatabase db)
    (hclean : ∀ ks ∈ dataset dict, ks.Clean) (hlists : ShortLists (dataset dict)) :
    ∀ db ∈ dict, StorableDatabase db ∧ FitsDatabase db := by
  intro db hdb
  have hsound := hdict db hdb
  have hks := hclean db.contents (List.mem_map_of_mem hdb)
  have hlist := hlists db.contents (List.mem_map_of_mem hdb)
  have hlook {he : DictEntry Bytes CutisObject} (hhe : he ∈ db.entries) :
      db.contents.lookup he.key = some he.val.value := by
    rw [Dict.lookup_contents, (hsound.toInv.lookup_eq_some_iff he.key he.val).mpr hhe]
    rfl
  have hset {d : Dict Bytes Unit} {he : DictEntry Bytes CutisObject} (hhe : he ∈ db.entries)
      (hval : he.val = .set d) : d.Sound SetDictType := by
    have hobject := hsound.objects he hhe
    rwa [hval] at hobject
  refine ⟨⟨hsound.toInv, ?_, fun he hhe => ?_, fun he hhe => ?_⟩, hsound.used_le_limit,
    fun he hhe => ?_⟩
  · have := hsound.size_le
    omega
  · obtain ⟨⟨hword, hlen⟩, -⟩ := hks _ _ (hlook hhe)
    exact ⟨hword.1, hlen⟩
  · have hvalue := hlook hhe
    obtain ⟨-, hshort⟩ := hks _ _ hvalue
    cases hval : he.val with
    | string s =>
        rw [hval] at hshort
        exact hshort
    | list l =>
        rw [hval] at hshort hvalue
        exact ⟨hlist _ l hvalue, hshort⟩
    | set d =>
        rw [hval] at hshort
        have hd := hset hhe hval
        have hsize := hd.size_le
        refine ⟨hd.toInv, by omega, fun el hel => hshort el.key ?_⟩
        rw [Finmap.mem_keys, Dict.mem_toFinmap]
        exact List.mem_map_of_mem hel
  · cases hval : he.val with
    | set d => exact (hset hhe hval).used_le_limit
    | _ => trivial

theorem saveContent_succeeds {io : Stdio} (hdict : ∀ db ∈ dict, StorableDatabase db)
    (hio : io.Complete dict) : ∃ fp, saveContent io dict = some fp := by
  have hnoticed := PartialWrites.not_someNoticed
    (noticeable_saveWrites fun db hdb he hhe => ((hdict db hdb).keys he hhe).1) hio.1
  obtain ⟨calls, hw⟩ := @writeAll_some io _ { content := [], calls := 0 } hnoticed
  exact ⟨_, (saveContent_eq io dict fun db hdb => (hdict db hdb).iterable).trans hw⟩

end Files

namespace System

variable {ι : Type} [DecidableEq ι]

section Forgetting

-- A run with the databases of the last snapshot; at first those of the start.
def noteSnapshot (last : Dataset) (σ : System ι) (a : Action ι) (_ : System ι) : Dataset :=
  (σ.snapshot a).getD last

def snapshotRun : System ι × Dataset → Action ι → Except Fault (System ι × Dataset) :=
  Runs.noting act noteSnapshot

-- What the books call saved is in the last snapshot.
def Remembered (p : System ι × Dataset) : Prop :=
  p.1.server.dirty = 0 → dataset p.1.server.dict = p.2

theorem snapshotRun_ok {σ σ' : System ι} {a : Action ι} {last : Dataset}
    (hact : σ.act a = .ok σ') :
    snapshotRun (σ, last) a = .ok (σ', (σ.snapshot a).getD last) :=
  Runs.noting_eq_ok.mpr ⟨hact, rfl⟩

-- The cron call books a background save only where no database has changed since the
-- last snapshot, and the child puts its snapshot in place only where none has changed
-- since the fork or the change is still counted.
def BooksCurrent (p : System ι × Dataset) (a : Action ι) : Prop :=
  match a with
  | .cron io =>
      p.1.stop = false → p.1.server.bg_saving = true → io.books p.1.child = true →
        dataset p.1.server.dict = p.2
  | .childRename rename =>
      ∀ ds, p.1.snapshot (.childRename rename) = some ds → p.1.server.dirty = 0 →
        dataset p.1.server.dict = ds
  | _ => True

variable {σ σ' : System ι} {a : Action ι} {last : Dataset}

theorem saveDB_ok {io : Stdio} {fs fs' : FileSystem} {server server' : CutisServer}
    {filename : Bytes} {status : CutisStatus}
    (h : saveDB io fs server filename = (server', fs', status)) :
    server'.dict = server.dict ∧ server'.bg_saving = server.bg_saving ∧
      (status = .CUTIS_OK → server'.dirty = 0) ∧ (status = .CUTIS_ERR → server' = server) := by
  have hdict := saveDB_dict io fs server filename
  have hbg := saveDB_bg_saving io fs server filename
  rw [h] at hdict hbg
  refine ⟨hdict, hbg, ?_⟩
  rw [saveDB] at h
  split at h
  · cases h
    exact ⟨fun hok => absurd hok (by decide), fun _ => rfl⟩
  · split at h
    · cases h
      exact ⟨fun hok => absurd hok (by decide), fun _ => rfl⟩
    · dsimp only at h
      split at h <;> cases h
      · exact ⟨fun hok => absurd hok (by decide), fun _ => rfl⟩
      · exact ⟨fun _ => rfl, fun herr => absurd herr (by decide)⟩

-- A cron call always returns while the server runs.
theorem act_cron (h : σ.Sound) (hstop : σ.stop = false) (io : CronOs) :
    ∃ σ', σ.act (.cron io) = .ok σ' := by
  obtain ⟨dict, -, -, hcron⟩ := serverCron_eq io (s := σ.cronSession) h.dict
  rw [act, hstop, hcron]
  exact ⟨_, rfl⟩

theorem act_childRename (σ : System ι) (rename : Bool) : ∃ σ', σ.act (.childRename rename) = .ok σ' := by
  rw [act]
  split <;> exact ⟨_, rfl⟩

theorem remembered_step (h : σ.Sound) (hok : a.Ok) (hremembered : Remembered (σ, last))
    (hcond : BooksCurrent (σ, last) a) (hact : σ.act a = .ok σ') :
    Remembered (σ', (σ.snapshot a).getD last) := by
  cases act_saveStep h hok hact with
  | data _ _ _ _ dirty counted _ note =>
      intro hdirty
      have hzero : σ'.server.dirty = 0 := hdirty
      have hsame : dataset σ'.server.dict = dataset σ.server.dict := by
        by_contra hne
        have := counted hne
        omega
      have hbefore : σ.server.dirty = 0 := by omega
      rw [note]
      exact hsame.trans (hremembered hbefore)
  | save os status _ saved _ note =>
      obtain ⟨hdict, -, -, herr⟩ := saveDB_ok saved
      intro hdirty
      rw [note, hdict]
      cases status with
      | CUTIS_OK => rfl
      | CUTIS_ERR =>
          rw [herr rfl] at hdirty
          exact hremembered hdirty
  | start _ _ _ _ _ _ _ _ dirty _ hdataset note =>
      intro hdirty
      rw [note]
      exact hdataset.trans (hremembered (dirty ▸ hdirty))
  | wait io action waited =>
      subst action
      intro hdirty
      have hstop : σ.stop = false := by
        cases hstop : σ.stop with
        | false => rfl
        | true => rw [act, hstop] at hact; cases hact
      show dataset σ'.server.dict = last
      rw [waited.dataset]
      by_cases hbooks : io.books σ.child = true
      · exact hcond hstop waited.bg_saving hbooks
      · rw [waited.server.1, if_neg hbooks] at hdirty
        exact hremembered hdirty
  | child action server =>
      have hsame (hnote : σ.snapshot a = none) : Remembered (σ', (σ.snapshot a).getD last) := by
        rw [Remembered, hnote, server]
        exact hremembered
      cases act_childStep action hact with
      | idle _ note => exact hsame note
      | failed _ _ _ _ _ note => exact hsame note
      | written _ _ _ action => exact hsame (action ▸ rfl)
      | exited _ _ _ _ _ _ note => exact hsame note
      | killed _ _ action => exact hsame (action ▸ rfl)
      | renamed c _ _ _ _ _ _ _ _ note =>
          intro hdirty
          cases a with
          | call => cases action
          | childRename rename =>
              rw [note, server]
              exact hcond _ note (server ▸ hdirty)
          | _ => cases note

theorem remembered_iff (h : σ.Sound) (hok : a.Ok) (hremembered : Remembered (σ, last)) :
    (∀ p', snapshotRun (σ, last) a = .ok p' → Remembered p') ↔ BooksCurrent (σ, last) a := by
  have hrun (p' : System ι × Dataset) : snapshotRun (σ, last) a = .ok p' ↔
      σ.act a = .ok p'.1 ∧ p'.2 = (σ.snapshot a).getD last := Runs.noting_eq_ok
  constructor
  · intro hall
    cases a with
    | cron io =>
        intro hstop hbg hbooks
        obtain ⟨σ', hact⟩ := act_cron h hstop io
        have hafter := hall (σ', last) ((hrun _).mpr ⟨hact, rfl⟩)
        have hwaited := waited_of_cron h hbg hact
        have hzero := hwaited.server.1
        rw [if_pos hbooks] at hzero
        exact hwaited.dataset.symm.trans (hafter hzero)
    | childRename rename =>
        intro ds hnote hdirty
        obtain ⟨σ', hact⟩ := act_childRename σ rename
        have hafter := hall (σ', ds) ((hrun _).mpr ⟨hact, by rw [hnote]; rfl⟩)
        have hserver := (child_same rfl hact).1
        rw [Remembered, hserver] at hafter
        exact hafter hdirty
    | _ => trivial
  · intro hcond p' hp'
    obtain ⟨hact, hnote⟩ := (hrun p').mp hp'
    have hstep := remembered_step h hok hremembered hcond hact
    rwa [← hnote] at hstep

-- No database changes during a background save.
def Quiet (σ : System ι) (a : Action ι) : Prop :=
  σ.server.bg_saving = true → ∀ σ', σ.act a = .ok σ' →
    dataset σ'.server.dict = dataset σ.server.dict

-- What the child saves is what the server holds.
structure Attuned (p : System ι × Dataset) : Prop where
  sound : p.1.Sound
  truly : p.1.ExitsTruly
  attended : p.1.Attended
  remembered : Remembered p
  idle : p.1.server.bg_saving = false → p.1.child = none
  image : ∀ c, p.1.child = some c → dataset c.server.dict = dataset p.1.server.dict
  saved : ∀ c, p.1.child = some c → c.saved = some .CUTIS_OK → p.2 = dataset p.1.server.dict

omit [DecidableEq ι] in
theorem Attuned.booksCurrent {p : System ι × Dataset} (h : Attuned p) : BooksCurrent p a := by
  cases a with
  | cron io =>
      intro _ hbg hbooks
      obtain ⟨c, hc, hsig⟩ := h.attended hbg
      rw [hc] at hbooks
      cases hended : c.ended with
      | none => rw [books_running io hended] at hbooks; cases hbooks
      | some ended =>
          cases ended with
          | signaled sig => exact absurd hended (hsig sig)
          | exited code =>
              obtain ⟨saved, hsaved, rfl⟩ := h.truly c hc code hended
              have hok := (exited_status saved).mp ((books_ended io hended).mp hbooks)
              exact (h.saved c hc (hok ▸ hsaved)).symm
  | childRename rename =>
      intro ds hnote _
      rw [snapshot] at hnote
      split at hnote
      · next server tmpfile hchild =>
          split_ifs at hnote
          exact (h.image _ hchild).symm.trans (Option.some.inj hnote)
      · cases hnote
  | _ => trivial

theorem attuned_step {p p' : System ι × Dataset} (h : Attuned p) (hok : a.Ok)
    (hunharmed : a.Unharmed) (hquiet : p.1.Quiet a) (hrun : snapshotRun p a = .ok p') :
    Attuned p' := by
  obtain ⟨hact, hnote⟩ : p.1.act a = .ok p'.1 ∧ p'.2 = (p.1.snapshot a).getD p.2 :=
    Runs.noting_eq_ok.mp hrun
  have hremembered := remembered_step h.sound hok h.remembered h.booksCurrent hact
  rw [← hnote] at hremembered
  have hsound := act_sound h.sound hok hact
  have htruly := exitsTruly_step h.sound h.truly hok hact
  have hattended := attended_step h.sound h.attended hok hunharmed hact
  have hdataset (hchild : p.1.child ≠ none) :
      dataset p'.1.server.dict = dataset p.1.server.dict := by
    refine hquiet ?_ p'.1 hact
    by_contra hbg
    exact hchild (h.idle (by simpa using hbg))
  have hstill (hc : p'.1.child = p.1.child) (hbg : p'.1.server.bg_saving = p.1.server.bg_saving)
      (hlast : p'.2 = p.2 ∨ p'.2 = dataset p'.1.server.dict) : Attuned p' := by
    refine ⟨hsound, htruly, hattended, hremembered, fun hbg' => ?_, fun c hc' => ?_,
      fun c hc' hsaved => ?_⟩
    · exact hc.trans (h.idle (hbg ▸ hbg'))
    · rw [hc] at hc'
      exact (h.image c hc').trans (hdataset (by simp [hc'])).symm
    · rcases hlast with hlast | hlast
      · rw [hc] at hc'
        rw [hlast, hdataset (by simp [hc'])]
        exact h.saved c hc' hsaved
      · exact hlast
  have hnew {c c' : Child} (hc : p.1.child = some c) (hc' : p'.1.child = some c')
      (hserver : c'.server = c.server) (hsame : p'.1.server = p.1.server)
      (hsaved : c'.saved = some .CUTIS_OK → p'.2 = dataset p.1.server.dict) : Attuned p' := by
    refine ⟨hsound, htruly, hattended, hremembered, fun hbg => ?_, fun d hd => ?_, fun d hd => ?_⟩
    · rw [hsame] at hbg
      cases hc.symm.trans (h.idle hbg)
    · obtain rfl := Option.some.inj (hc'.symm.trans hd)
      rw [hserver, hsame]
      exact h.image c hc
    · obtain rfl := Option.some.inj (hc'.symm.trans hd)
      rw [hsame]
      exact hsaved
  cases act_saveStep h.sound hok hact with
  | data _ child bg_saving _ _ _ _ note =>
      exact hstill child bg_saving (Or.inl (by rw [hnote, note]; rfl))
  | save os status _ saved child note =>
      obtain ⟨hdict, hbg, -, -⟩ := saveDB_ok saved
      refine hstill child hbg ?_
      cases status with
      | CUTIS_OK => exact Or.inr (by rw [hnote, note, hdict]; rfl)
      | CUTIS_ERR => exact Or.inl (by rw [hnote, note]; rfl)
  | start os image action bg_saving child _ image_dataset _ _ _ hsame _ =>
      rw [if_pos (hunharmed.1 os action)] at child
      refine ⟨hsound, htruly, hattended, hremembered, fun hbg => ?_, fun c hc => ?_, fun c hc => ?_⟩
      · cases hbg.symm.trans bg_saving.2
      · obtain rfl := Option.some.inj (child.symm.trans hc)
        exact image_dataset.trans hsame.symm
      · obtain rfl := Option.some.inj (child.symm.trans hc)
        exact nofun
  | wait io action waited =>
      subst action
      rcases waited.child with ⟨-, child, hbg⟩ | ⟨-, child, hbg⟩
      · exact hstill child (hbg.trans waited.bg_saving.symm) (Or.inl (by rw [hnote]; rfl))
      · refine ⟨hsound, htruly, hattended, hremembered, fun _ => child, fun c hc => ?_, fun c hc => ?_⟩
        · cases child.symm.trans hc
        · cases child.symm.trans hc
  | child action server =>
      cases act_childStep action hact with
      | idle same note => exact hstill (by rw [same]) (by rw [same]) (Or.inl (by rw [hnote, note]; rfl))
      | failed c child _ child' _ _ => exact hnew child child' rfl server nofun
      | written c _ _ _ child running _ child' _ =>
          refine hnew child child' rfl server fun hsaved => ?_
          cases running.1.symm.trans hsaved
      | exited c saved child hsaved child' _ note =>
          refine hnew child child' rfl server fun hok' => ?_
          rw [hnote, note]
          exact h.saved c child hok'
      | killed _ sig action => exact absurd action (hunharmed.2 sig)
      | renamed c _ _ child _ _ _ child' _ note =>
          refine hnew child child' rfl server fun _ => ?_
          rw [hnote, note]
          exact h.image c child

-- Every change that is not counted is in the last snapshot, exactly in the runs in which
-- no cron call books a background save after a change, and no older snapshot is put over
-- a newer one.
theorem remembered_throughout_iff {σ : System ι} (h : σ.Start) (actions : List (Action ι))
    (hok : ∀ a ∈ actions, a.Ok) :
    (Runs.Throughout snapshotRun Remembered (σ, dataset σ.server.dict) actions ↔
      Runs.Always snapshotRun BooksCurrent (σ, dataset σ.server.dict) actions) ∧
    ((∀ a ∈ actions, a.Unharmed) →
      Runs.Always snapshotRun (fun p a => p.1.Quiet a) (σ, dataset σ.server.dict) actions →
      Runs.Throughout snapshotRun Remembered (σ, dataset σ.server.dict) actions) := by
  have hstart : Remembered (σ, dataset σ.server.dict) := fun _ => rfl
  have hnone (c : Child) : σ.child ≠ some c := by
    rw [h.child]
    exact nofun
  constructor
  · refine Runs.throughout_iff (I := fun p => p.1.Sound) (R := fun _ a => a.Ok) ?_ ?_ actions _
      h.sound ?_ hstart
    · intro p a p' hs ha hact
      exact act_sound hs ha (Runs.noting_eq_ok.mp hact).1
    · rintro ⟨σ, last⟩ a hs ha hP
      exact remembered_iff hs ha hP
    · exact Runs.always_of_forall fun _ a ha => hok a ha
  · intro hunharmed hquiet
    refine Runs.throughout_of_invariant (I := Attuned)
      (R := fun p a => (a.Ok ∧ a.Unharmed) ∧ p.1.Quiet a) ?_ ?_ actions _ ?_ ?_
    · exact fun p a p' hp ha hact => attuned_step hp ha.1.1 ha.1.2 ha.2 hact
    · exact fun p hp => hp.remembered
    · refine ⟨h.sound, fun c hc => absurd hc (hnone c), fun hbg => ?_, hstart, fun _ => h.child,
        fun c hc => absurd hc (hnone c), fun c hc => absurd hc (hnone c)⟩
      cases h.bg_saving.symm.trans hbg
    · refine (Runs.always_and actions _).mpr ⟨?_, hquiet⟩
      exact Runs.always_of_forall fun _ a ha => ⟨hok a ha, hunharmed a ha⟩

end Forgetting

section Examples

variable {σ : System Unit}

def keyedDataset : Dataset := [(∅ : Keyspace).insert (sdsnew "key") (.string (sdsnew "value"))]

theorem keyedDataset_ne : keyedDataset ≠ [∅] := by
  intro hsame
  have hkey := congrArg (Finmap.lookup (sdsnew "key")) (List.cons.inj hsame).1
  rw [Finmap.lookup_insert, Finmap.lookup_empty] at hkey
  cases hkey

theorem shortLists_keyed : ShortLists keyedDataset := by
  intro ks hks key l hlook
  rw [List.mem_singleton.mp hks] at hlook
  by_cases hkey : key = sdsnew "key"
  · rw [hkey, Finmap.lookup_insert] at hlook
    cases hlook
  · rw [Finmap.lookup_insert_of_ne _ hkey, Finmap.lookup_empty] at hlook
    cases hlook

theorem act_set (h : σ.Sound) (hstop : σ.stop = false)
    (hmodel : σ.model () = { dataset := [∅], selected := 0 }) :
    ∃ σ', σ.act (.call () setCommandEntry setArgv plainOs) = .ok σ' ∧ σ'.Sound ∧
      σ'.stop = false ∧ dataset σ'.server.dict = keyedDataset ∧ σ'.child = σ.child ∧
      σ'.server.bg_saving = σ.server.bg_saving := by
  have hroom : (σ.model ()).HasRoom setArgv .SetCommand := by
    rw [hmodel]
    exact not_full_empty
  obtain ⟨σ', hact, hanswers⟩ := call_answers h callOk_set hstop plainOs hroom nofun rfl
  obtain ⟨-, hchild, hbg, -⟩ := call_keeps h callOk_set rfl hact
  refine ⟨σ', hact, ?_, hanswers.stop.trans hstop, ?_, hchild, hbg⟩
  · have hok : (Action.call () setCommandEntry setArgv plainOs).Ok := callOk_set
    exact act_sound h hok hact
  · have hdataset := congrArg Model.dataset hanswers.model
    rw [hmodel] at hdataset
    exact hdataset

theorem act_childWrite {server : CutisServer} {io : Stdio} {fp : SaveFile}
    (hchild : σ.child = some ⟨server, none, none, none⟩) (hopen : io.fopen = true)
    (hcontent : saveContent io server.dict = some fp) :
    ∃ σ', σ.act (.childWrite io) = .ok σ' ∧ σ'.server = σ.server ∧ σ'.stop = σ.stop ∧
      σ'.child = some ⟨server, some io.tmpfile, none, none⟩ ∧
      σ'.fs io.tmpfile = some (fp.content.take (fp.content.length - io.fclose)) := by
  refine ⟨σ.childWrite ⟨server, none, none, none⟩ io, ?_, ?_⟩
  · simp only [act, hchild]
    rfl
  · simp only [childWrite, hopen, hcontent]
    exact ⟨rfl, rfl, rfl, Function.update_self _ _ _⟩

theorem act_childRename_ok {server : CutisServer} {tmpfile content : Bytes}
    (hchild : σ.child = some ⟨server, some tmpfile, none, none⟩) (hfile : σ.fs tmpfile = some content) :
    ∃ σ', σ.act (.childRename true) = .ok σ' ∧ σ'.server = σ.server ∧ σ'.stop = σ.stop ∧
      σ'.child = some ⟨server, some tmpfile, some .CUTIS_OK, none⟩ ∧
      σ'.fs CUTIS_DB_NAME = some content ∧
      σ.snapshot (.childRename true) = some (dataset server.dict) := by
  refine ⟨σ.childRename ⟨server, some tmpfile, none, none⟩ tmpfile true, ?_, ?_⟩
  · simp only [act, hchild]
    rfl
  · simp [childRename, hfile, snapshot, hchild, FileSystem.set]

theorem act_childExit {server : CutisServer} {tmpfile : Option Bytes} {saved : CutisStatus}
    (hchild : σ.child = some ⟨server, tmpfile, some saved, none⟩) :
    ∃ σ', σ.act .childExit = .ok σ' ∧ σ'.server = σ.server ∧ σ'.stop = σ.stop ∧ σ'.fs = σ.fs ∧
      σ'.child = some ⟨server, tmpfile, some saved, some (.exited (exitCode saved))⟩ := by
  refine ⟨{ σ with
    child := some ⟨server, tmpfile, some saved, some (.exited (exitCode saved))⟩ }, ?_, rfl, rfl, rfl,
    rfl⟩
  simp only [act, hchild]
  rfl

def savedRun (io : Stdio) : List (Action Unit) :=
  [.childWrite io, .childRename true, .childExit, cronTick]

-- The child saves what the server had at the fork, and a cron call books it.
structure ChildSaves (σ : System Unit) (io : Stdio) (image : CutisServer)
    (σ₁ σ₂ σ₃ σ₄ : System Unit) : Prop where
  write : σ.act (.childWrite io) = .ok σ₁
  rename : σ₁.act (.childRename true) = .ok σ₂
  exit : σ₂.act .childExit = .ok σ₃
  cron : σ₃.act cronTick = .ok σ₄
  server : σ₁.server = σ.server ∧ σ₂.server = σ.server ∧ σ₃.server = σ.server
  note : σ₁.snapshot (.childRename true) = some (dataset image.dict)
  file : ∃ fp, saveContent io image.dict = some fp ∧
    σ₄.fs CUTIS_DB_NAME = some (fp.content.take (fp.content.length - io.fclose))
  dirty : σ₄.server.dirty = 0
  dataset : dataset σ₄.server.dict = dataset σ.server.dict

theorem childSaves (h : σ.Sound) (hstop : σ.stop = false) (hbg : σ.server.bg_saving = true)
    {image : CutisServer} (hchild : σ.child = some ⟨image, none, none, none⟩) {io : Stdio}
    {fp : SaveFile} (hopen : io.fopen = true) (hcontent : saveContent io image.dict = some fp) :
    ∃ σ₁ σ₂ σ₃ σ₄, ChildSaves σ io image σ₁ σ₂ σ₃ σ₄ := by
  obtain ⟨σ₁, hact₁, hserver₁, hstop₁, hchild₁, hfile₁⟩ := act_childWrite hchild hopen hcontent
  obtain ⟨σ₂, hact₂, hserver₂, hstop₂, hchild₂, hfile₂, hnote⟩ := act_childRename_ok hchild₁ hfile₁
  obtain ⟨σ₃, hact₃, hserver₃, hstop₃, hfs₃, hchild₃⟩ := act_childExit hchild₂
  have hsound₁ := act_sound h (a := .childWrite io) trivial hact₁
  have hsound₂ := act_sound hsound₁ (a := .childRename true) trivial hact₂
  have hsound₃ := act_sound hsound₂ (a := .childExit) trivial hact₃
  have hserver : σ₃.server = σ.server := hserver₃.trans (hserver₂.trans hserver₁)
  obtain ⟨σ₄, hact₄⟩ := act_cron hsound₃ (hstop₃.trans (hstop₂.trans (hstop₁.trans hstop)))
    { os := plainOs, now := 0, stack := 0 }
  have hwaited := waited_of_cron hsound₃ (hserver ▸ hbg) hact₄
  have hbooks : CronOs.books { os := plainOs, now := 0, stack := 0 } σ₃.child = true :=
    hchild₃ ▸ (books_ended _ rfl).mpr ((exited_status _).mpr rfl)
  have hdirty := hwaited.server.1
  rw [if_pos hbooks] at hdirty
  refine ⟨σ₁, σ₂, σ₃, σ₄, hact₁, hact₂, hact₃, hact₄,
    ⟨hserver₁, hserver₂.trans hserver₁, hserver⟩, hnote, ⟨fp, hcontent, ?_⟩, hdirty, ?_⟩
  · rw [hwaited.fs, hfs₃, hfile₂]
  · rw [hwaited.dataset, hserver]

-- A key is set while the child saves the empty databases.
def forgettingRun : List (Action Unit) :=
  [bgsaveCall true, .call () setCommandEntry setArgv plainOs, .childWrite plainOs.stdio,
    .childRename true, .childExit, cronTick]

theorem saveContent_init :
    ∃ fp, saveContent plainOs.stdio (init Unit 1).server.dict = some fp := ⟨_, rfl⟩

theorem exists_saveContent (h : σ.Sound) (hlists : ShortLists (dataset σ.server.dict)) :
    ∃ fp, saveContent (idealStdio σ.server.dict) σ.server.dict = some fp :=
  saveContent_succeeds (fun db hdb => (storable_of_sound h.dict h.clean hlists db hdb).1)
    (idealStdio_succeeds _).complete

-- A key is set, and then saved in the background.
def bookedRun (io : Stdio) : List (Action Unit) :=
  .call () setCommandEntry setArgv plainOs :: bgsaveCall true :: savedRun io

theorem bookedRun_ok (io : Stdio) : ∀ a ∈ bookedRun io, a.Ok := by
  intro a ha
  simp only [bookedRun, savedRun, List.mem_cons, List.not_mem_nil, or_false] at ha
  rcases ha with rfl | rfl | rfl | rfl | rfl | rfl
  · exact callOk_set
  · exact bgsaveCall_ok true
  all_goals trivial

theorem act_booked (h : σ.Sound) (hstop : σ.stop = false) (hbg : σ.server.bg_saving = false)
    (hmodel : σ.model () = { dataset := [∅], selected := 0 }) :
    ∃ σ₁ σ₂ σ₃ σ₄ σ₅ σ₆, σ.act (.call () setCommandEntry setArgv plainOs) = .ok σ₁ ∧ σ₁.Sound ∧
      dataset σ₁.server.dict = keyedDataset ∧ σ₁.act (bgsaveCall true) = .ok σ₂ ∧
      σ₂.server.dict = σ₁.server.dict ∧ σ₂.child = some ⟨σ₁.server, none, none, none⟩ ∧
      ChildSaves σ₂ (idealStdio σ₁.server.dict) σ₁.server σ₃ σ₄ σ₅ σ₆ := by
  obtain ⟨σ₁, hact₁, hsound₁, hstop₁, hkeyed, -, hbg₁⟩ := act_set h hstop hmodel
  obtain ⟨σ₂, hact₂, hserver₂, hchild₂, -, -, hstop₂⟩ := act_bgsave hstop₁ (hbg₁.trans hbg) true
  have hsound₂ := act_sound hsound₁ (bgsaveCall_ok true) hact₂
  have hbg₂ : σ₂.server.bg_saving = true := by rw [hserver₂]
  have hdict₂ : σ₂.server.dict = σ₁.server.dict := by rw [hserver₂]
  obtain ⟨fp, hcontent⟩ := exists_saveContent hsound₁ (hkeyed ▸ shortLists_keyed)
  obtain ⟨σ₃, σ₄, σ₅, σ₆, hsaves⟩ := childSaves hsound₂ hstop₂ hbg₂ hchild₂ rfl hcontent
  exact ⟨σ₁, σ₂, σ₃, σ₄, σ₅, σ₆, hact₁, hsound₁, hkeyed, hact₂, hdict₂, hchild₂, hsaves⟩

theorem remembered_throughout_booked :
    ∃ io σ', Runs.Throughout snapshotRun Remembered
        (init Unit 1, dataset (init Unit 1).server.dict) (bookedRun io) ∧
      (bookedRun io).foldlM act (init Unit 1) = .ok σ' ∧ σ'.server.dirty = 0 ∧
      dataset σ'.server.dict = keyedDataset := by
  have hstart : (init Unit 1).Start := start_init Nat.one_pos
  obtain ⟨σ₁, σ₂, σ₃, σ₄, σ₅, σ₆, hact₁, -, hkeyed, hact₂, hdict₂, -, hsaves⟩ :=
    act_booked hstart.sound hstart.stop hstart.bg_saving (model_init ())
  refine ⟨idealStdio σ₁.server.dict, σ₆, ?_, ?_, hsaves.dirty, ?_⟩
  · refine (remembered_throughout_iff hstart _ (bookedRun_ok _)).1.mpr ?_
    have hrenames : BooksCurrent (σ₃, dataset (init Unit 1).server.dict) (.childRename true) := by
      intro ds hnote _
      obtain rfl := Option.some.inj (hsaves.note.symm.trans hnote)
      show dataset σ₃.server.dict = _
      rw [hsaves.server.1, hdict₂]
    have hbooks : BooksCurrent (σ₅, (σ₃.snapshot (.childRename true)).getD
        (dataset (init Unit 1).server.dict)) cronTick := by
      intro _ _ _
      show dataset σ₅.server.dict = _
      rw [hsaves.note, hsaves.server.2.2, hdict₂]
      rfl
    refine Runs.always_cons (snapshotRun_ok hact₁) trivial ?_
    refine Runs.always_cons (snapshotRun_ok hact₂) trivial ?_
    refine Runs.always_cons (snapshotRun_ok hsaves.write) trivial ?_
    refine Runs.always_cons (snapshotRun_ok hsaves.rename) hrenames ?_
    refine Runs.always_cons (snapshotRun_ok hsaves.exit) trivial ?_
    exact Runs.always_cons (snapshotRun_ok hsaves.cron) hbooks trivial
  · simp only [bookedRun, savedRun, List.foldlM_cons, hact₁, hact₂, ok_bind, hsaves.write,
      hsaves.rename, hsaves.exit, hsaves.cron]
    rfl
  · rw [hsaves.dataset, hdict₂, hkeyed]

theorem act_bgsave_init :
    ∃ σ : System Unit, (init Unit 1).act (bgsaveCall true) = .ok σ ∧ σ.Sound ∧ σ.stop = false ∧
      σ.server.bg_saving = true ∧ σ.child = some ⟨(init Unit 1).server, none, none, none⟩ ∧
      σ.model () = { dataset := [∅], selected := 0 } := by
  have hstart : (init Unit 1).Start := start_init Nat.one_pos
  obtain ⟨σ, hact, hserver, hchild, hdict, -, hstop⟩ :=
    act_bgsave hstart.stop hstart.bg_saving true
  refine ⟨σ, hact, act_sound hstart.sound (bgsaveCall_ok true) hact, hstop, ?_, hchild, ?_⟩
  · rw [hserver]
  · rw [← model_init (), model, hserver, hdict]
    rfl

theorem not_remembered_throughout :
    ¬Runs.Throughout snapshotRun Remembered (init Unit 1, dataset (init Unit 1).server.dict)
      forgettingRun := by
  obtain ⟨fp, hcontent⟩ := saveContent_init
  obtain ⟨σ₁, hact₁, hsound₁, hstop₁, hbg₁, hchild₁, hmodel₁⟩ := act_bgsave_init
  obtain ⟨σ₂, hact₂, hsound₂, hstop₂, hkeyed, hchild₂, hbg₂⟩ := act_set hsound₁ hstop₁ hmodel₁
  obtain ⟨σ₃, σ₄, σ₅, σ₆, hsaves⟩ :=
    childSaves hsound₂ hstop₂ (hbg₂.trans hbg₁) (hchild₂.trans hchild₁) rfl hcontent
  intro hrun
  have hrun₁ := hrun.2 _ (snapshotRun_ok hact₁)
  have hrun₂ := hrun₁.2 _ (snapshotRun_ok hact₂)
  have hrun₃ := hrun₂.2 _ (snapshotRun_ok hsaves.write)
  have hrun₄ := hrun₃.2 _ (snapshotRun_ok hsaves.rename)
  have hrun₅ := hrun₄.2 _ (snapshotRun_ok hsaves.exit)
  have hlast := (hrun₅.2 _ (snapshotRun_ok hsaves.cron)).here hsaves.dirty
  rw [hsaves.note] at hlast
  have hinit : dataset σ₂.server.dict = dataset (init Unit 1).server.dict :=
    hsaves.dataset.symm.trans hlast
  rw [dataset_init, hkeyed] at hinit
  exact keyedDataset_ne hinit

end Examples

end System

end Cutis

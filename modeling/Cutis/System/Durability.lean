import Cutis.System.Snapshots

namespace Cutis

-- What LoadDB makes of a file at the start of a server.
def Decodes (db_num : Nat) (file : Bytes) (ds : Dataset) : Prop :=
  ∀ (malloc : Nat → Bytes) (buf vbuf : Bytes) (empty : CutisServer), empty.db_num = db_num →
    (∀ db ∈ empty.dict, EmptyDatabase db) →
    ∃ loaded, loadDB malloc buf vbuf empty (some file) = .ok (loaded, .CUTIS_OK) ∧
      dataset loaded.dict = ds

-- Writes that SaveDB takes for whole are whole.
def Stdio.Whole (io : Stdio) (dict : List Database) : Prop :=
  (saveContent io dict).isSome → io.Complete dict

section Files

variable {dict : List Database}

theorem decodes_encodeFile (hint : dict.length < 2 ^ 31)
    (hdict : ∀ db ∈ dict, StorableDatabase db ∧ FitsDatabase db) :
    Decodes dict.length (encodeFile dict) (dataset dict) := by
  intro malloc buf vbuf empty hnum hempty
  exact loadDB_encodeFile malloc buf vbuf { initServer 0 [] 0 with dict } empty hnum hempty hint hdict

theorem Decodes.unique {db_num : Nat} {file : Bytes} {ds ds' : Dataset} (h : Decodes db_num file ds)
    (h' : Decodes db_num file ds') : ds = ds' := by
  obtain ⟨loaded, hload, hds⟩ := h (fun _ => []) [] [] (initServer db_num [] 0)
    (by simp [initServer, CutisServer.db_num]) (emptyDatabase_initServer _ _ _)
  obtain ⟨loaded', hload', hds'⟩ := h' (fun _ => []) [] [] (initServer db_num [] 0)
    (by simp [initServer, CutisServer.db_num]) (emptyDatabase_initServer _ _ _)
  cases hload.symm.trans hload'
  exact hds.symm.trans hds'

-- The temporary file after a whole write.
theorem content_of_whole {io : Stdio} {fp : SaveFile}
    (hdict : ∀ db ∈ dict, StorableDatabase db) (hwhole : io.Whole dict)
    (hcontent : saveContent io dict = some fp) :
    fp.content.take (fp.content.length - io.fclose) = encodeFile dict := by
  obtain ⟨hall, hfclose⟩ := hwhole (by rw [hcontent]; rfl)
  have hnoticed := PartialWrites.not_someNoticed
    (noticeable_saveWrites fun db hdb he hhe => ((hdict db hdb).keys he hhe).1) hall
  obtain ⟨calls, hw⟩ := @writeAll_some io _ { content := [], calls := 0 } hnoticed
  rw [saveContent_eq io dict fun db hdb => (hdict db hdb).iterable, hw] at hcontent
  obtain rfl := Option.some.inj hcontent
  rw [hfclose, Nat.sub_zero, List.take_length, List.nil_append,
    PartialWrites.stored_of_allWhole hall, written_saveWrites]

variable {io : Stdio} {fs fs' : FileSystem} {server server' : CutisServer} {status : CutisStatus}

theorem saveDB_file (h : saveDB io fs server CUTIS_DB_NAME = (server', fs', .CUTIS_OK)) :
    ∃ fp, saveContent io server.dict = some fp ∧
      fs' = (fs.set io.tmpfile none).set CUTIS_DB_NAME
        (some (fp.content.take (fp.content.length - io.fclose))) := by
  rw [saveDB] at h
  split at h
  · cases h
  · split at h
    · cases h
    · next fp hcontent =>
        dsimp only at h
        split at h <;> cases h
        exact ⟨fp, hcontent, rfl⟩

theorem FileSystem.set_self (name : Bytes) (content : Option Bytes) :
    fs.set name content name = content := Function.update_self _ _ _

theorem FileSystem.set_of_ne {name other : Bytes} {content : Option Bytes} (h : other ≠ name) :
    fs.set name content other = fs other := Function.update_of_ne h _ _

-- No other file than dump.cdb gets new content.
theorem saveDB_files (h : saveDB io fs server CUTIS_DB_NAME = (server', fs', status)) :
    (∀ name, name ≠ CUTIS_DB_NAME → fs' name = fs name ∨ fs' name = none) ∧
      (status = .CUTIS_ERR → fs' CUTIS_DB_NAME = fs CUTIS_DB_NAME) := by
  have hset (name : Bytes) : fs.set io.tmpfile none name = fs name ∨
      fs.set io.tmpfile none name = none := by
    by_cases hname : name = io.tmpfile
    · subst hname
      exact Or.inr (FileSystem.set_self _ _)
    · exact Or.inl (FileSystem.set_of_ne hname)
  have hkept : fs.set io.tmpfile none CUTIS_DB_NAME = fs CUTIS_DB_NAME :=
    FileSystem.set_of_ne (tmpfile_ne io).symm
  rw [saveDB] at h
  split at h
  · cases h
    exact ⟨fun _ _ => Or.inl rfl, fun _ => rfl⟩
  · split at h
    · cases h
      exact ⟨fun name _ => hset name, fun _ => hkept⟩
    · dsimp only at h
      split at h <;> cases h
      · exact ⟨fun name _ => hset name, fun _ => hkept⟩
      · refine ⟨fun name hname => ?_, fun herr => absurd herr (by decide)⟩
        rw [FileSystem.set_of_ne hname]
        exact hset name

end Files

namespace System

variable {ι : Type} [DecidableEq ι]

-- SAVE or SHUTDOWN has saved.
def SavesNow (σ : System ι) : Action ι → Bool
  | .call i cmd argv os => (σ.snapshot (.call i cmd argv os)).isSome
  | _ => false

-- The datasets the server has had since the last foreground save, the latest first.
def noteSeen (seen : Option (List Dataset)) (σ : System ι) (a : Action ι) (σ' : System ι) :
    Option (List Dataset) :=
  (if σ.SavesNow a then some [] else seen).map (dataset σ'.server.dict :: ·)

abbrev Watched (ι : Type) := System ι × Option (List Dataset)

def durableRun : Watched ι → Action ι → Except Fault (Watched ι) := Runs.noting act noteSeen

-- The file holds what the server had at the last foreground save or later.
def Durable (db_num : Nat) (p : Watched ι) : Prop :=
  ∀ seen, p.2 = some seen → ∃ file ds, p.1.fs CUTIS_DB_NAME = some file ∧
    Decodes db_num file ds ∧ ds ∈ seen

-- The child puts no older dataset in place.
def RenamesRecent (p : Watched ι) : Action ι → Prop
  | .childRename rename =>
      ∀ ds, p.1.snapshot (.childRename rename) = some ds → ∀ seen, p.2 = some seen → ds ∈ seen
  | _ => True

-- No write is cut short unnoticed, and no list is too long for the file.
def SavesWhole (σ : System ι) : Action ι → Prop
  | .call _ cmd _ os =>
      cmd.proc.saves = true → os.stdio.Whole σ.server.dict ∧ ShortLists (dataset σ.server.dict)
  | .childWrite io =>
      ∀ c, σ.child = some c → io.Whole c.server.dict ∧ ShortLists (dataset c.server.dict)
  | _ => True

-- SAVE and SHUTDOWN come while no background save is on.
def SavesAlone (σ : System ι) (a : Action ι) : Prop :=
  σ.SavesNow a = true → σ.server.bg_saving = false

-- What the child has is sound, and its temporary file is whole.
structure ChildOk (σ : System ι) (c : Child) : Prop where
  dict : ∀ db ∈ c.server.dict, SoundDatabase db
  clean : ∀ ks ∈ dataset c.server.dict, ks.Clean
  db_num : c.server.dict.length = σ.server.dict.length
  tmpfile : ∀ name, c.tmpfile = some name → name ≠ CUTIS_DB_NAME ∧
    ∀ content, σ.fs name = some content →
      Decodes c.server.dict.length content (dataset c.server.dict)

structure Tracked (db_num : Nat) (p : Watched ι) : Prop where
  sound : p.1.Sound
  db_num : p.1.server.dict.length = db_num
  seen : ∀ seen, p.2 = some seen → dataset p.1.server.dict ∈ seen
  child : ∀ c, p.1.child = some c → p.1.ChildOk c

section Durable

variable {σ σ' : System ι} {a : Action ι} {db_num : Nat}

omit [DecidableEq ι] in
theorem ChildOk.step {c c' : Child} (h : σ.ChildOk c) (hserver : c'.server = c.server)
    (htmpfile : c'.tmpfile = c.tmpfile)
    (hlen : σ'.server.dict.length = σ.server.dict.length)
    (hfs : ∀ name, name ≠ CUTIS_DB_NAME → σ'.fs name = σ.fs name ∨ σ'.fs name = none) :
    σ'.ChildOk c' := by
  refine ⟨hserver ▸ h.dict, hserver ▸ h.clean, by rw [hserver, hlen]; exact h.db_num,
    fun name hname => ?_⟩
  obtain ⟨hne, hcontent⟩ := h.tmpfile name (htmpfile ▸ hname)
  refine ⟨hne, fun content hfile => ?_⟩
  rw [hserver]
  rcases hfs name hne with hsame | hnone
  · exact hcontent content (hsame ▸ hfile)
  · cases hnone.symm.trans hfile

omit [DecidableEq ι] in
theorem not_savesNow (h : σ.snapshot a = none) : σ.SavesNow a = false := by
  cases a with
  | call => exact congrArg Option.isSome h
  | _ => rfl

omit [DecidableEq ι] in
theorem not_savesNow_of_child (h : a.ofChild = true) : σ.SavesNow a = false := by
  cases a with
  | call => cases h
  | _ => rfl

-- The files other than dump.cdb lose content at most, except for the one the child
-- writes.
theorem fs_of_set {fs : FileSystem} (name other : Bytes) :
    fs.set name none other = fs other ∨ fs.set name none other = none := by
  by_cases hother : other = name
  · subst hother
    exact Or.inr (FileSystem.set_self _ _)
  · exact Or.inl (FileSystem.set_of_ne hother)

theorem act_db_num (h : σ.Sound) (hok : a.Ok) (hact : σ.act a = .ok σ') :
    σ'.server.dict.length = σ.server.dict.length := by
  cases act_saveStep h hok hact with
  | data _ _ _ _ _ _ db_num _ => exact db_num
  | save _ _ _ saved _ _ => rw [(saveDB_ok saved).1]
  | start _ _ _ _ _ _ _ _ _ _ hdataset _ => exact length_of_dataset hdataset
  | wait _ _ waited => exact length_of_dataset waited.dataset
  | child _ server => rw [server]

theorem childOk_step (h : σ.Sound) (hok : a.Ok) (hwhole : σ.SavesWhole a)
    (hint : σ.server.dict.length < 2 ^ 31)
    (hchild : ∀ c, σ.child = some c → σ.ChildOk c) (hact : σ.act a = .ok σ') :
    ∀ c, σ'.child = some c → σ'.ChildOk c := by
  have hlen := act_db_num h hok hact
  have hsame (hc : σ'.child = σ.child)
      (hfs : ∀ name, name ≠ CUTIS_DB_NAME → σ'.fs name = σ.fs name ∨ σ'.fs name = none) :
      ∀ c, σ'.child = some c → σ'.ChildOk c :=
    fun c hc' => (hchild c (hc ▸ hc')).step rfl rfl hlen hfs
  have hkept (hfs : σ'.fs = σ.fs) (name : Bytes) (_ : name ≠ CUTIS_DB_NAME) :
      σ'.fs name = σ.fs name ∨ σ'.fs name = none := Or.inl (by rw [hfs])
  cases act_saveStep h hok hact with
  | data fs child _ _ _ _ _ _ => exact hsame child (hkept fs)
  | save _ _ _ saved child _ => exact hsame child (saveDB_files saved).1
  | start os image _ _ child sound image_dataset fs _ _ _ _ =>
      split_ifs at child
      · intro c hc
        obtain rfl := Option.some.inj (child.symm.trans hc)
        refine ⟨sound, image_dataset ▸ h.clean, ?_, nofun⟩
        rw [hlen]
        exact length_of_dataset image_dataset
      · exact hsame child (hkept fs)
  | wait io _ waited =>
      rcases waited.child with ⟨-, child, -⟩ | ⟨-, child, -⟩
      · exact hsame child (hkept waited.fs)
      · intro c hc
        cases child.symm.trans hc
  | child action _ =>
      cases act_childStep action hact with
      | idle same _ => exact same ▸ hchild
      | failed c child _ child' fs _ =>
          intro d hd
          obtain rfl := Option.some.inj (child'.symm.trans hd)
          refine (hchild c child).step rfl rfl hlen fun name _ => ?_
          rcases fs with fs | ⟨io, fs⟩ | ⟨tmpfile, -, fs⟩ <;> rw [fs]
          · exact Or.inl rfl
          · exact fs_of_set _ _
          · exact fs_of_set _ _
      | written c io fp action child _ content child' fs =>
          subst action
          intro d hd
          obtain rfl := Option.some.inj (child'.symm.trans hd)
          have hc := hchild c child
          obtain ⟨hwhole, hlists⟩ := hwhole c child
          have hstorable := storable_of_sound hc.dict hc.clean hlists
          refine ⟨hc.dict, hc.clean, by rw [hlen]; exact hc.db_num, fun name hname => ?_⟩
          obtain rfl := Option.some.inj hname
          refine ⟨tmpfile_ne io, fun file hfile => ?_⟩
          rw [fs, FileSystem.set_self] at hfile
          rw [content_of_whole (fun db hdb => (hstorable db hdb).1) hwhole content.2] at hfile
          obtain rfl := Option.some.inj hfile
          exact decodes_encodeFile (by rw [hc.db_num]; exact hint) hstorable
      | renamed c tmpfile content child _ _ _ child' fs _ =>
          intro d hd
          obtain rfl := Option.some.inj (child'.symm.trans hd)
          refine (hchild c child).step rfl rfl hlen fun name hname => ?_
          rw [fs, FileSystem.set_of_ne hname]
          exact fs_of_set _ _
      | exited c _ child _ child' fs _ =>
          intro d hd
          obtain rfl := Option.some.inj (child'.symm.trans hd)
          exact (hchild c child).step rfl rfl hlen (hkept fs)
      | killed c _ _ child child' fs =>
          intro d hd
          obtain rfl := Option.some.inj (child'.symm.trans hd)
          exact (hchild c child).step rfl rfl hlen (hkept fs)

variable {p p' : Watched ι}

omit [DecidableEq ι] in
-- Where the file stays, so does what it stands for.
theorem durable_kept (hdurable : Durable db_num p) (hsaves : p.1.SavesNow a = false)
    (hfs : p'.1.fs CUTIS_DB_NAME = p.1.fs CUTIS_DB_NAME)
    (hseen : p'.2 = noteSeen p.2 p.1 a p'.1) : Durable db_num p' := by
  intro seen' hseen'
  rw [hseen, noteSeen, hsaves] at hseen'
  obtain ⟨seen, hseen, rfl⟩ := Option.map_eq_some_iff.mp hseen'
  obtain ⟨file, ds, hfile, hdecodes, hmem⟩ := hdurable seen hseen
  exact ⟨file, ds, hfs.trans hfile, hdecodes, List.mem_cons_of_mem _ hmem⟩

theorem durable_step (h : Tracked db_num p) (hint : db_num < 2 ^ 31) (hok : a.Ok)
    (hwhole : p.1.SavesWhole a) (hdurable : Durable db_num p) (hrecent : RenamesRecent p a)
    (hact : p.1.act a = .ok p'.1) (hseen : p'.2 = noteSeen p.2 p.1 a p'.1) :
    Durable db_num p' := by
  cases act_saveStep h.sound hok hact with
  | data fs _ _ _ _ _ _ note =>
      exact durable_kept hdurable (not_savesNow note) (by rw [fs]) hseen
  | start _ _ _ _ _ _ _ fs _ _ _ note =>
      exact durable_kept hdurable (not_savesNow note) (by rw [fs]) hseen
  | wait io action waited =>
      subst action
      exact durable_kept hdurable rfl (by rw [waited.fs]) hseen
  | save os status action saved _ note =>
      obtain ⟨i, cmd, argv, rfl, hsaves⟩ := action
      cases status with
      | CUTIS_ERR =>
          have hnote : p.1.snapshot (.call i cmd argv os) = none := note
          exact durable_kept hdurable (not_savesNow hnote) ((saveDB_files saved).2 rfl) hseen
      | CUTIS_OK =>
          have hsavesNow : p.1.SavesNow (.call i cmd argv os) = true := congrArg Option.isSome note
          obtain ⟨hwritten, hlists⟩ := hwhole hsaves
          have hstorable := storable_of_sound h.sound.dict h.sound.clean hlists
          obtain ⟨fp, hcontent, hfs⟩ := saveDB_file saved
          rw [content_of_whole (fun db hdb => (hstorable db hdb).1) hwritten hcontent] at hfs
          intro seen hseen'
          rw [hseen, noteSeen, hsavesNow] at hseen'
          obtain rfl := Option.some.inj hseen'
          refine ⟨encodeFile p.1.server.dict, dataset p.1.server.dict, ?_, ?_, ?_⟩
          · rw [hfs, FileSystem.set_self]
          · rw [← h.db_num]
            exact decodes_encodeFile (by rw [h.db_num]; exact hint) hstorable
          · rw [(saveDB_ok saved).1]
            exact List.mem_singleton_self _
  | child action _ =>
      have hsaves := not_savesNow_of_child (σ := p.1) action
      cases act_childStep action hact with
      | idle same _ => exact durable_kept hdurable hsaves (by rw [same]) hseen
      | failed c child _ _ fs _ =>
          refine durable_kept hdurable hsaves ?_ hseen
          rcases fs with fs | ⟨io, fs⟩ | ⟨tmpfile, htmp, fs⟩ <;> rw [fs]
          · exact FileSystem.set_of_ne (tmpfile_ne io).symm
          · exact FileSystem.set_of_ne ((h.child c child).tmpfile tmpfile htmp).1.symm
      | written _ io _ _ _ _ _ _ fs =>
          refine durable_kept hdurable hsaves ?_ hseen
          rw [fs]
          exact FileSystem.set_of_ne (tmpfile_ne io).symm
      | exited _ _ _ _ _ fs _ => exact durable_kept hdurable hsaves (by rw [fs]) hseen
      | killed _ _ _ _ _ fs => exact durable_kept hdurable hsaves (by rw [fs]) hseen
      | renamed c tmpfile content child _ tmp file _ fs note =>
          have hc := h.child c child
          intro seen' hseen'
          rw [hseen, noteSeen, hsaves] at hseen'
          obtain ⟨seen, hbefore, rfl⟩ := Option.map_eq_some_iff.mp hseen'
          refine ⟨content, dataset c.server.dict, ?_, ?_, List.mem_cons_of_mem _ ?_⟩
          · rw [fs]
            exact FileSystem.set_self _ _
          · rw [← h.db_num, ← hc.db_num]
            exact (hc.tmpfile tmpfile tmp).2 content file
          · cases a with
            | call => cases action
            | childRename rename => exact hrecent _ note seen hbefore
            | _ => cases note

theorem durable_iff (h : Tracked db_num p) (hint : db_num < 2 ^ 31) (hok : a.Ok)
    (hwhole : p.1.SavesWhole a) (hdurable : Durable db_num p) :
    (∀ p', durableRun p a = .ok p' → Durable db_num p') ↔ RenamesRecent p a := by
  constructor
  · intro hall
    cases a with
    | childRename rename =>
        intro ds hnote seen hseen
        obtain ⟨σ', hact⟩ := act_childRename p.1 rename
        have hrun : durableRun p (.childRename rename) =
            .ok (σ', noteSeen p.2 p.1 (.childRename rename) σ') :=
          Runs.noting_eq_ok.mpr ⟨hact, rfl⟩
        have hafter : noteSeen p.2 p.1 (.childRename rename) σ' =
            some (dataset σ'.server.dict :: seen) := by
          rw [hseen]
          rfl
        obtain ⟨file, ds', hfile, hdecodes, hmem⟩ := hall _ hrun _ hafter
        cases act_childStep rfl hact with
        | renamed c tmpfile content child _ tmp hcontent _ fs note =>
            have hc := h.child c child
            obtain rfl := Option.some.inj (note.symm.trans hnote)
            have hcontent' : file = content := by
              rw [fs, FileSystem.set_self] at hfile
              exact (Option.some.inj hfile).symm
            have hchild := (hc.tmpfile tmpfile tmp).2 content hcontent
            rw [hc.db_num, h.db_num, ← hcontent'] at hchild
            rw [hchild.unique hdecodes]
            rcases List.mem_cons.mp hmem with heq | hmem
            · rw [heq, (child_same rfl hact).1]
              exact h.seen seen hseen
            · exact hmem
        | idle _ note => cases note.symm.trans hnote
        | failed _ _ _ _ _ note => cases note.symm.trans hnote
        | exited _ _ _ _ _ _ note => cases note.symm.trans hnote
        | written _ _ _ action => cases action
        | killed _ _ action => cases action
    | _ => trivial
  · intro hrecent p' hrun
    obtain ⟨hact, hseen⟩ := Runs.noting_eq_ok.mp hrun
    exact durable_step h hint hok hwhole hdurable hrecent hact hseen

theorem tracked_step (h : Tracked db_num p) (hint : db_num < 2 ^ 31) (hok : a.Ok)
    (hwhole : p.1.SavesWhole a) (hrun : durableRun p a = .ok p') : Tracked db_num p' := by
  obtain ⟨hact, hseen⟩ := Runs.noting_eq_ok.mp hrun
  refine ⟨act_sound h.sound hok hact, (act_db_num h.sound hok hact).trans h.db_num,
    fun seen hseen' => ?_, ?_⟩
  · rw [hseen, noteSeen] at hseen'
    obtain ⟨before, -, rfl⟩ := Option.map_eq_some_iff.mp hseen'
    exact List.mem_cons_self
  · exact childOk_step h.sound hok hwhole (by rw [h.db_num]; exact hint) h.child hact

-- A child is there only during a background save, and has saved what the server had at
-- the last foreground save or later.
structure Recent (p : Watched ι) : Prop where
  idle : p.1.server.bg_saving = false → p.1.child = none
  image : ∀ c, p.1.child = some c → ∀ seen, p.2 = some seen → dataset c.server.dict ∈ seen

omit [DecidableEq ι] in
theorem Recent.renamesRecent (h : Recent p) : RenamesRecent p a := by
  cases a with
  | childRename rename =>
      intro ds hnote
      rw [snapshot] at hnote
      split at hnote
      · next server tmpfile hchild =>
          split_ifs at hnote
          exact Option.some.inj hnote ▸ h.image _ hchild
      · cases hnote
  | _ => trivial

theorem recent_step (h : Recent p) (hsound : p.1.Sound) (hok : a.Ok) (halone : p.1.SavesAlone a)
    (hrun : durableRun p a = .ok p') : Recent p' := by
  obtain ⟨hact, hseen⟩ := Runs.noting_eq_ok.mp hrun
  have holder {c : Child} (hc : p.1.child = some c) (hsaves : p.1.SavesNow a = false) :
      ∀ seen, p'.2 = some seen → dataset c.server.dict ∈ seen := by
    intro seen hseen'
    rw [hseen, noteSeen, hsaves] at hseen'
    obtain ⟨before, hbefore, rfl⟩ := Option.map_eq_some_iff.mp hseen'
    exact List.mem_cons_of_mem _ (h.image c hc before hbefore)
  have hstill (hc : p'.1.child = p.1.child) (hbg : p'.1.server.bg_saving = p.1.server.bg_saving) :
      Recent p' := by
    refine ⟨fun hbg' => hc.trans (h.idle (hbg ▸ hbg')), fun c hc' => ?_⟩
    rw [hc] at hc'
    refine holder hc' ?_
    by_contra hsaves
    have hnone := h.idle (halone (by simpa using hsaves))
    cases hnone.symm.trans hc'
  have hnew {c c' : Child} (hc : p.1.child = some c) (hc' : p'.1.child = some c')
      (hserver : c'.server = c.server) (hsame : p'.1.server = p.1.server) (ha : a.ofChild = true) :
      Recent p' := by
    refine ⟨fun hbg => ?_, fun d hd => ?_⟩
    · rw [hsame] at hbg
      cases hc.symm.trans (h.idle hbg)
    · obtain rfl := Option.some.inj (hc'.symm.trans hd)
      rw [hserver]
      exact holder hc (not_savesNow_of_child ha)
  cases act_saveStep hsound hok hact with
  | data _ child bg_saving _ _ _ _ _ => exact hstill child bg_saving
  | save _ _ _ saved child _ => exact hstill child (saveDB_ok saved).2.1
  | start os image _ bg_saving child _ image_dataset _ _ _ hsame note =>
      split_ifs at child
      · refine ⟨fun hbg => ?_, fun c hc seen hseen' => ?_⟩
        · cases hbg.symm.trans bg_saving.2
        · obtain rfl := Option.some.inj (child.symm.trans hc)
          rw [hseen, noteSeen, not_savesNow note] at hseen'
          obtain ⟨before, -, rfl⟩ := Option.map_eq_some_iff.mp hseen'
          rw [image_dataset, ← hsame]
          exact List.mem_cons_self
      · have hnone := child.trans (h.idle bg_saving.1)
        exact ⟨fun _ => hnone, fun c hc => by cases hnone.symm.trans hc⟩
  | wait io _ waited =>
      rcases waited.child with ⟨-, child, hbg⟩ | ⟨-, child, hbg⟩
      · exact hstill child (hbg.trans waited.bg_saving.symm)
      · exact ⟨fun _ => child, fun c hc => by cases child.symm.trans hc⟩
  | child action server =>
      cases act_childStep action hact with
      | idle same _ => exact hstill (by rw [same]) (by rw [same])
      | failed c child _ child' _ _ => exact hnew child child' rfl server action
      | written c _ _ _ child _ _ child' _ => exact hnew child child' rfl server action
      | renamed c _ _ child _ _ _ child' _ _ => exact hnew child child' rfl server action
      | exited c _ child _ child' _ _ => exact hnew child child' rfl server action
      | killed c _ _ child child' _ => exact hnew child child' rfl server action

end Durable

section Examples

variable {σ : System Unit}

def saveEntryCommand : CutisCommand := ⟨"save", .SaveCommand, 1, .CUTIS_CMD_INLINE⟩

def saveCall (dict : List Database) : Action Unit :=
  .call () saveEntryCommand [sdsnew "save"] { plainOs with stdio := idealStdio dict }

theorem saveCall_ok (dict : List Database) : (saveCall dict).Ok where
  mem := by decide
  accepts := by decide
  words := by decide
  payload := nofun

theorem act_save (h : σ.Sound) (hstop : σ.stop = false)
    (hlists : ShortLists (dataset σ.server.dict)) :
    ∃ σ', σ.act (saveCall σ.server.dict) = .ok σ' ∧ σ'.server.dict = σ.server.dict ∧
      σ'.child = σ.child ∧ σ.SavesNow (saveCall σ.server.dict) = true ∧
      σ'.model () = σ.model () ∧ σ'.stop = false ∧
      σ'.server.bg_saving = σ.server.bg_saving := by
  have hstorable := storable_of_sound h.dict h.clean hlists
  have hio := idealStdio_succeeds σ.server.dict
  have hnoticed := PartialWrites.not_someNoticed (noticeable_saveWrites fun db hdb he hhe =>
    ((hstorable db hdb).1.keys he hhe).1) hio.complete.1
  have hfails : ¬(idealStdio σ.server.dict).Fails σ.server.dict := by
    simp only [Stdio.Fails, hio.fopen, hio.rename, hnoticed]
    decide
  have hsave := saveDB_done (fun db hdb => (hstorable db hdb).1.iterable) hfails σ.fs
  have hcall : saveEntryCommand.proc.call { plainOs with stdio := idealStdio σ.server.dict }
      (σ.session () [sdsnew "save"]) = .ok ({ σ.session () [sdsnew "save"] with
        server := (saveDB (idealStdio σ.server.dict) σ.fs σ.server CUTIS_DB_NAME).1
        fs := (saveDB (idealStdio σ.server.dict) σ.fs σ.server CUTIS_DB_NAME).2.1 }.addReply
        shared.ok) := by
    show saveCommand _ _ = _
    rw [saveCommand]
    simp only [session, hsave]
    rfl
  have hnote : σ.snapshot (saveCall σ.server.dict) = some (dataset σ.server.dict) :=
    (snapshot_of_saves rfl hsave).trans (if_pos rfl)
  refine ⟨_, act_call hstop hcall, saveDB_dict _ _ _ _, rfl, congrArg Option.isSome hnote, ?_, hstop,
    saveDB_bg_saving _ _ _ _⟩
  have hdict := saveDB_dict (idealStdio σ.server.dict) σ.fs σ.server CUTIS_DB_NAME
  exact congrArg (fun dict => Model.mk (dataset dict) (σ.clients ()).dict) hdict

theorem durableRun_ok {σ σ' : System Unit} {a : Action Unit} {seen : Option (List Dataset)}
    (hact : σ.act a = .ok σ') : durableRun (σ, seen) a = .ok (σ', noteSeen seen σ a σ') :=
  Runs.noting_eq_ok.mpr ⟨hact, rfl⟩

theorem idealStdio_whole (dict : List Database) : (idealStdio dict).Whole dict :=
  fun _ => (idealStdio_succeeds dict).complete

theorem shortLists_init : ShortLists (dataset (init Unit 1).server.dict) := by
  rw [dataset_init]
  intro ks hks key l hlook
  rw [List.eq_of_mem_replicate hks, Finmap.lookup_empty] at hlook
  cases hlook

omit [DecidableEq ι] in
theorem savesAlone_of_call {τ : System ι} {i : ι} {cmd : CutisCommand} {argv : List Bytes} {os : Os}
    (h : cmd.proc.saves = false) : τ.SavesAlone (.call i cmd argv os) := by
  intro hsaves
  rw [SavesNow, snapshot, h] at hsaves
  cases hsaves

omit [DecidableEq ι] in
theorem savesWhole_of_call {τ : System ι} {i : ι} {cmd : CutisCommand} {argv : List Bytes} {os : Os}
    (h : cmd.proc.saves = false) : τ.SavesWhole (.call i cmd argv os) :=
  fun hsaves => absurd (hsaves.symm.trans h) (by decide)

-- SAVE of the empty databases, and then a background save of a key.
def newerRun (io : Stdio) : List (Action Unit) :=
  saveCall (init Unit 1).server.dict :: bookedRun io

theorem newerRun_ok (io : Stdio) : ∀ a ∈ newerRun io, a.Ok := by
  intro a ha
  rcases List.mem_cons.mp ha with rfl | ha
  · exact saveCall_ok _
  · exact bookedRun_ok io a ha

end Examples

end System

end Cutis

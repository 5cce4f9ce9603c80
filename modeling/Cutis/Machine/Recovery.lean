import Cutis.Machine

namespace Cutis

namespace Machine

-- The databases a child saves are those some server has had, and its temporary file is
-- whole as long as it is there.
structure Attested (n : Nat) (had : List Dataset) (fs : FileSystem) (c : Child) : Prop where
  dict : ∀ db ∈ c.server.dict, SoundDatabase db
  clean : ∀ ks ∈ dataset c.server.dict, ks.Clean
  dbs : c.server.dict.length = n
  had : dataset c.server.dict ∈ had
  tmpfile : c.Saving → ∀ name, c.tmpfile = some name → name ≠ CUTIS_DB_NAME ∧
    ∀ content, fs name = some content → Decodes n content (dataset c.server.dict)

-- What a step means for dump.cdb.
inductive DiskStep {ι : Type} [DecidableEq ι] (n : Nat) (had : List Dataset) (σ : System ι)
    (a : Action ι) (σ' : System ι) : Prop
  | kept (note : σ.snapshot a = none) (file : σ'.fs CUTIS_DB_NAME = σ.fs CUTIS_DB_NAME)
      (others : ∀ name, name ≠ CUTIS_DB_NAME → σ'.fs name = σ.fs name ∨ σ'.fs name = none)
  | written (io : Stdio) (content : Bytes) (action : a = .childWrite io)
      (fs : σ'.fs = σ.fs.set io.tmpfile (some content))
  | placed (ds : Dataset) (file : Bytes) (note : σ.snapshot a = some ds) (seen : ds ∈ had)
      (placed : σ'.fs CUTIS_DB_NAME = some file ∧ Decodes n file ds)
      (others : ∀ name, name ≠ CUTIS_DB_NAME → σ'.fs name = σ.fs name ∨ σ'.fs name = none)

variable {ι : Type} [DecidableEq ι] {n : Nat} {had : List Dataset} {fs fs' : FileSystem}
  {c c' : Child} {σ σ' : System ι} {a : Action ι}

theorem Attested.step (h : Attested n had fs c) (hserver : c'.server = c.server)
    (htmpfile : c'.tmpfile = c.tmpfile) (hsaving : c'.Saving → c.Saving)
    (hfs : ∀ name, name ≠ CUTIS_DB_NAME → c'.Saving → c'.tmpfile = some name →
      fs' name = fs name ∨ fs' name = none) : Attested n had fs' c' := by
  refine ⟨hserver ▸ h.dict, hserver ▸ h.clean, hserver ▸ h.dbs, hserver ▸ h.had,
    fun hc' name hname => ?_⟩
  obtain ⟨hne, hcontent⟩ := h.tmpfile (hsaving hc') name (htmpfile ▸ hname)
  refine ⟨hne, fun content hfile => ?_⟩
  rw [hserver]
  rcases hfs name hne hc' hname with hsame | hnone
  · exact hcontent content (hsame ▸ hfile)
  · cases hnone.symm.trans hfile

theorem Attested.mono {had' : List Dataset} (h : Attested n had fs c) (hsub : had ⊆ had') :
    Attested n had' fs c := ⟨h.dict, h.clean, h.dbs, hsub h.had, h.tmpfile⟩

-- What is written whole can be read back.
theorem decodes_written {io : Stdio} {fp : SaveFile} {dict : List Database}
    (hdict : ∀ db ∈ dict, SoundDatabase db) (hclean : ∀ ks ∈ dataset dict, ks.Clean)
    (hlen : dict.length < 2 ^ 31) (hwhole : io.Whole dict) (hlists : ShortLists (dataset dict))
    (hcontent : saveContent io dict = some fp) :
    Decodes dict.length (fp.content.take (fp.content.length - io.fclose)) (dataset dict) := by
  have hstorable := storable_of_sound hdict hclean hlists
  rw [content_of_whole (fun db hdb => (hstorable db hdb).1) hwhole hcontent]
  exact decodes_encodeFile hlen hstorable

section System

variable (h : σ.Sound) (hok : a.Ok) (hwhole : σ.SavesWhole a) (hlen : σ.server.dict.length = n)
  (hint : n < 2 ^ 31) (hhad : dataset σ.server.dict ∈ had)
  (hchild : ∀ c, σ.child = some c → Attested n had σ.fs c) (hact : σ.act a = .ok σ')

include h hok hwhole hlen hint hhad hchild hact

theorem act_disk : DiskStep n had σ a σ' := by
  have hall (hfs : σ'.fs = σ.fs) (name : Bytes) (_ : name ≠ CUTIS_DB_NAME) :
      σ'.fs name = σ.fs name ∨ σ'.fs name = none := Or.inl (by rw [hfs])
  cases System.act_saveStep h hok hact with
  | data fs _ _ _ _ _ _ note => exact .kept note (by rw [fs]) (hall fs)
  | start _ _ _ _ _ _ _ fs _ _ _ note => exact .kept note (by rw [fs]) (hall fs)
  | wait io action waited => exact .kept (action ▸ rfl) (by rw [waited.fs]) (hall waited.fs)
  | save os status action saved _ note =>
      obtain ⟨i, cmd, argv, rfl, hsaves⟩ := action
      obtain ⟨hothers, hfailed⟩ := saveDB_files saved
      cases status with
      | CUTIS_ERR => exact .kept note (hfailed rfl) hothers
      | CUTIS_OK =>
          obtain ⟨hwritten, hlists⟩ := hwhole hsaves
          obtain ⟨fp, hcontent, hfs⟩ := saveDB_file saved
          refine .placed _ _ note hhad ⟨?_, hlen ▸ decodes_written h.dict h.clean
            (hlen ▸ hint) hwritten hlists hcontent⟩ hothers
          rw [hfs, FileSystem.set_self]
  | child action _ =>
      cases System.act_childStep action hact with
      | idle same note => exact .kept note (by rw [same]) (hall (by rw [same]))
      | failed c child running _ fs note =>
          rcases fs with fs | ⟨io, fs⟩ | ⟨tmpfile, htmp, fs⟩
          · exact .kept note (by rw [fs]) (hall fs)
          · refine .kept note ?_ fun name _ => ?_
            · rw [fs]
              exact FileSystem.set_of_ne (tmpfile_ne io).symm
            · rw [fs]
              exact System.fs_of_set _ _
          · refine .kept note ?_ fun name _ => ?_
            · rw [fs]
              exact FileSystem.set_of_ne ((hchild c child).tmpfile running tmpfile htmp).1.symm
            · rw [fs]
              exact System.fs_of_set _ _
      | written _ io _ action _ _ _ _ fs => exact .written io _ action fs
      | exited _ _ _ _ _ fs note => exact .kept note (by rw [fs]) (hall fs)
      | killed _ _ action _ _ fs => exact .kept (action ▸ rfl) (by rw [fs]) (hall fs)
      | renamed c tmpfile content child running tmp file _ fs note =>
          have hc := hchild c child
          refine .placed _ content note hc.had ⟨?_, (hc.tmpfile running tmpfile tmp).2 content file⟩
            fun name hname => ?_
          · rw [fs, FileSystem.set_self]
          · rw [fs, FileSystem.set_of_ne hname]
            exact System.fs_of_set _ _

-- The child of the server after a step.
theorem act_child (c : Child) (hc : σ'.child = some c) : Attested n had σ'.fs c := by
  have hsame (hc' : σ'.child = σ.child)
      (hfs : ∀ name, name ≠ CUTIS_DB_NAME → σ'.fs name = σ.fs name ∨ σ'.fs name = none) :
      Attested n had σ'.fs c :=
    (hchild c (hc' ▸ hc)).step rfl rfl id fun name hname _ _ => hfs name hname
  have hdone {d d' : Child} (hd : σ.child = some d) (hd' : σ'.child = some d')
      (hserver : d'.server = d.server) (htmpfile : d'.tmpfile = d.tmpfile)
      (hsaving : ¬d'.Saving) : Attested n had σ'.fs c := by
    obtain rfl := Option.some.inj (hd'.symm.trans hc)
    exact (hchild d hd).step hserver htmpfile (absurd · hsaving) fun _ _ h' => absurd h' hsaving
  have hall (hfs : σ'.fs = σ.fs) (name : Bytes) (_ : name ≠ CUTIS_DB_NAME) :
      σ'.fs name = σ.fs name ∨ σ'.fs name = none := Or.inl (by rw [hfs])
  cases System.act_saveStep h hok hact with
  | data fs child _ _ _ _ _ _ => exact hsame child (hall fs)
  | save _ _ _ saved child _ => exact hsame child (saveDB_files saved).1
  | start os image _ _ child sound image_dataset fs _ _ _ _ =>
      split_ifs at child
      · obtain rfl := Option.some.inj (child.symm.trans hc)
        exact ⟨sound, image_dataset ▸ h.clean, (System.length_of_dataset image_dataset).trans hlen,
          image_dataset ▸ hhad, nofun⟩
      · exact hsame child (hall fs)
  | wait io _ waited =>
      rcases waited.child with ⟨-, child, -⟩ | ⟨-, child, -⟩
      · exact hsame child (hall waited.fs)
      · cases child.symm.trans hc
  | child action _ =>
      cases System.act_childStep action hact with
      | idle same _ => exact same ▸ hchild c (same ▸ hc)
      | failed d child _ child' _ _ =>
          exact hdone child child' rfl rfl fun hsaving => by cases hsaving.1
      | written d io fp action child _ content child' fs =>
          subst action
          obtain rfl := Option.some.inj (child'.symm.trans hc)
          have hd := hchild d child
          obtain ⟨hwhole, hlists⟩ := hwhole d child
          refine ⟨hd.dict, hd.clean, hd.dbs, hd.had, fun _ name hname => ?_⟩
          obtain rfl := Option.some.inj hname
          refine ⟨tmpfile_ne io, fun file hfile => ?_⟩
          rw [fs, FileSystem.set_self] at hfile
          obtain rfl := Option.some.inj hfile
          exact hd.dbs ▸ decodes_written hd.dict hd.clean (hd.dbs ▸ hint) hwhole hlists content.2
      | renamed d _ _ child _ _ _ child' _ _ =>
          exact hdone child child' rfl rfl fun hsaving => by cases hsaving.1
      | exited d _ child _ child' _ _ =>
          exact hdone child child' rfl rfl fun hsaving => by cases hsaving.2
      | killed d _ _ child child' _ =>
          exact hdone child child' rfl rfl fun hsaving => by cases hsaving.2

end System

theorem child_stays (ha : a.ofChild = true) (hact : σ.act a = .ok σ') (hc : σ.child = some c) :
    ∃ d, σ'.child = some d := by
  cases System.act_childStep ha hact with
  | idle same _ => exact ⟨c, same ▸ hc⟩
  | failed _ _ _ child' _ _ => exact ⟨_, child'⟩
  | written _ _ _ _ _ _ _ child' _ => exact ⟨_, child'⟩
  | renamed _ _ _ _ _ _ _ child' _ _ => exact ⟨_, child'⟩
  | exited _ _ _ _ child' _ _ => exact ⟨_, child'⟩
  | killed _ _ _ _ child' _ => exact ⟨_, child'⟩

-- The file of another child.
theorem DiskStep.attested (h : DiskStep n had σ a σ') (hc : Attested n had σ.fs c)
    (hspares : ∀ io, a = .childWrite io → c.Saving → c.tmpfile ≠ some io.tmpfile) :
    Attested n had σ'.fs c := by
  refine hc.step rfl rfl id fun name hname hsaving htmpfile => ?_
  cases h with
  | kept _ _ others => exact others name hname
  | placed _ _ _ _ _ others => exact others name hname
  | written io content action fs =>
      have hne : name ≠ io.tmpfile := fun heq => hspares io action hsaving (heq ▸ htmpfile)
      rw [fs]
      exact Or.inl (FileSystem.set_of_ne hne)

theorem OnDisk.of_file {snap : Option Dataset} (h : OnDisk n fs snap)
    (hfile : fs' CUTIS_DB_NAME = fs CUTIS_DB_NAME) : OnDisk n fs' snap := by
  cases snap with
  | none => exact hfile.trans h
  | some ds =>
      obtain ⟨file, hbefore, hdecodes⟩ := h
      exact ⟨file, hfile.trans hbefore, hdecodes⟩

theorem DiskStep.onDisk (h : DiskStep n had σ a σ') {snap : Option Dataset}
    (hdisk : OnDisk n σ.fs snap) : OnDisk n σ'.fs ((σ.snapshot a).or snap) := by
  cases h with
  | kept note file _ =>
      rw [note]
      exact hdisk.of_file file
  | written io content action fs =>
      subst action
      refine hdisk.of_file ?_
      rw [fs]
      exact FileSystem.set_of_ne (tmpfile_ne io).symm
  | placed ds file note _ placed _ =>
      rw [note]
      exact ⟨file, placed⟩

theorem DiskStep.seen (h : DiskStep n had σ a σ') {ds : Dataset}
    (hds : σ.snapshot a = some ds) : ds ∈ had := by
  cases h with
  | kept note _ _ => cases note.symm.trans hds
  | written _ _ action _ =>
      subst action
      cases hds
  | placed _ _ note seen _ _ => exact Option.some.inj (note.symm.trans hds) ▸ seen

structure Kept (n : Nat) (m : Machine ι) (g : Notes) : Prop where
  sound : m.system.Sound
  dbs : m.system.server.dict.length = n
  had : dataset m.system.server.dict ∈ g.had
  clean : ∀ ds ∈ g.had, ds.length = n ∧ ∀ ks ∈ ds, ks.Clean
  snap : ∀ ds, g.snap = some ds → ds ∈ g.had
  onDisk : OnDisk n m.system.fs g.snap
  child : ∀ c, m.system.child = some c → Attested n g.had m.system.fs c
  orphans : ∀ c ∈ m.orphans, Attested n g.had m.system.fs c

variable {m m' : Machine ι} {g : Notes}

-- LoadDB changes nothing but the databases.
theorem loadDB_rest {malloc : Nat → Bytes} {buf vbuf : Bytes} {server loaded : CutisServer}
    {file : Option Bytes} {status : CutisStatus}
    (h : loadDB malloc buf vbuf server file = .ok (loaded, status)) :
    loaded = { server with dict := loaded.dict } := by
  cases file with
  | none =>
      cases h
      rfl
  | some file =>
      obtain ⟨⟨signature, buf', fp⟩, -, h⟩ := bind_eq_ok.mp h
      simp only at h
      split_ifs at h
      · cases h
        rfl
      · obtain ⟨dict, -, h⟩ := bind_eq_ok.mp h
        cases h
        rfl

omit [DecidableEq ι] in
-- A new server has what the last save put in place.
theorem boot_ok (h : Kept n m g) (hpos : 0 < n) (b : Boot) :
    ∃ σ : System ι, boot b m.system.server.db_num m.system.fs = .ok σ ∧ σ.Start ∧
      σ.fs = m.system.fs ∧ σ.server.dict.length = n ∧
      dataset σ.server.dict = g.snap.getD (List.replicate n ∅) := by
  have hempty := emptyDatabase_initServer n b.save_params b.time
  have hnum : (initServer n b.save_params b.time).db_num = n := List.length_replicate
  have hnone : dataset (initServer n b.save_params b.time).dict = List.replicate n ∅ :=
    (dataset_empty hempty).trans (congrArg (List.replicate · ∅) hnum)
  have hload : ∃ loaded status, loadDB b.malloc b.buf b.vbuf
      (initServer n b.save_params b.time) (m.system.fs CUTIS_DB_NAME) = .ok (loaded, status) ∧
      dataset loaded.dict = g.snap.getD (List.replicate n ∅) := by
    have hdisk := h.onDisk
    cases hsnap : g.snap with
    | none =>
        have hfile : m.system.fs CUTIS_DB_NAME = none := by rwa [hsnap] at hdisk
        rw [hfile]
        exact ⟨_, .CUTIS_ERR, rfl, hnone⟩
    | some ds =>
        rw [hsnap] at hdisk
        obtain ⟨file, hfile, hdecodes⟩ := hdisk
        obtain ⟨loaded, hloaded, hds⟩ := hdecodes b.malloc b.buf b.vbuf _ hnum hempty
        rw [hfile]
        exact ⟨loaded, _, hloaded, hds⟩
  obtain ⟨loaded, status, hloaded, hdataset⟩ := hload
  have hproper : (g.snap.getD (List.replicate n ∅)).length = n ∧
      ∀ ks ∈ g.snap.getD (List.replicate n ∅), ks.Clean := by
    cases hsnap : g.snap with
    | none =>
        refine ⟨List.length_replicate, fun ks hks key v hlook => ?_⟩
        rw [List.eq_of_mem_replicate hks, Finmap.lookup_empty] at hlook
        cases hlook
    | some ds => exact h.clean ds (h.snap ds hsnap)
  have hlen : loaded.dict.length = n := by
    rw [← hproper.1, ← hdataset]
    simp [dataset]
  have hdbs : m.system.server.db_num = n := h.dbs
  refine ⟨{
      server := loaded
      clients := fun _ => ⟨0, [], []⟩
      fs := m.system.fs
      child := none
      stop := false }, ?_, ⟨⟨loadDB_sound (fun db hdb => (hempty db hdb).1) hloaded, ?_, fun _ => ?_, ?_⟩,
    ?_, rfl, rfl⟩, rfl, hlen, hdataset⟩
  · rw [boot, hdbs, hloaded]
    rfl
  · exact hdataset ▸ hproper.2
  · exact hlen ▸ hpos
  · exact hlen ▸ hpos
  · rw [loadDB_rest hloaded]
    rfl

omit [DecidableEq ι] in
theorem Kept.noted (h : Kept n m g) {e : MachineEvent ι} (hsound : m'.system.Sound)
    (hdbs : m'.system.server.dict.length = n) (hseen : ∀ ds, m.snapshot e = some ds → ds ∈ g.had)
    (hdisk : OnDisk n m'.system.fs ((m.snapshot e).or g.snap))
    (hchild : ∀ c, m'.system.child = some c → Attested n g.had m'.system.fs c)
    (horphans : ∀ c ∈ m'.orphans, Attested n g.had m'.system.fs c) :
    Kept n m' (note g m e m') := by
  have hsub : g.had ⊆ (note g m e m').had := List.subset_cons_self _ _
  refine ⟨hsound, hdbs, List.mem_cons_self, fun ds hds => ?_, fun ds hds => hsub ?_, hdisk,
    fun c hc => (hchild c hc).mono hsub, fun c hc => (horphans c hc).mono hsub⟩
  · rcases List.mem_cons.mp hds with rfl | hds
    · exact ⟨(List.length_map _).trans hdbs, hsound.clean⟩
    · exact h.clean ds hds
  · rcases Option.or_eq_some_iff.mp hds with hds | ⟨-, hds⟩
    · exact hseen ds hds
    · exact h.snap ds hds

theorem action_kept (hint : n < 2 ^ 31) (h : Kept n m g) (hok : m.EventOk (.act a))
    (hact : m.system.act a = .ok σ) :
    Kept n { m with system := σ } (note g m (.act a) { m with system := σ }) := by
  obtain ⟨ha, hwhole, hspares⟩ := hok
  have hdisk := act_disk h.sound ha hwhole h.dbs hint h.had h.child hact
  refine h.noted (System.act_sound h.sound ha hact)
    ((System.act_db_num h.sound ha hact).trans h.dbs) (fun ds => hdisk.seen)
    (hdisk.onDisk h.onDisk) (act_child h.sound ha hwhole h.dbs hint h.had h.child hact)
    fun c hc => hdisk.attested (h.orphans c hc) fun io hio => hspares io hio c hc

theorem orphan_kept (hint : n < 2 ^ 31) (h : Kept n m g) {i : Nat}
    (hok : m.EventOk (.orphan i a)) (hact : m.act (.orphan i a) = .ok m') :
    Kept n m' (note g m (.orphan i a) m') := by
  obtain ⟨ha, hwhole, hspares⟩ := hok
  rw [act] at hact
  split at hact
  · next hi =>
      cases hact
      have hnote : m.snapshot (.orphan i a) = none := by rw [snapshot, hi]; rfl
      refine h.noted h.sound h.dbs (fun ds hds => ?_) ?_ h.child h.orphans
      · cases hnote.symm.trans hds
      · rw [hnote]
        exact h.onDisk
  · next c hi =>
      obtain ⟨σ, hstep, hact⟩ := bind_eq_ok.mp hact
      cases hact
      have hnote : m.snapshot (.orphan i a) = (m.adopt c).snapshot a := by rw [snapshot, hi]; rfl
      have hc := h.orphans c (List.mem_of_getElem? hi)
      have hchild (d : Child) (hd : (m.adopt c).child = some d) :
          Attested n g.had (m.adopt c).fs d := Option.some.inj hd ▸ hc
      have hsound : (m.adopt c).Sound := h.sound.of_same ⟨rfl, rfl, rfl⟩
      have hok : a.Ok := by cases a <;> trivial
      have hdisk := act_disk hsound hok (hwhole c hi) h.dbs hint h.had hchild hstep
      refine h.noted (h.sound.of_same ⟨rfl, rfl, rfl⟩) h.dbs ?_ ?_ (fun d hd => ?_) fun d hd => ?_
      · rw [hnote]
        exact fun ds => hdisk.seen
      · rw [hnote]
        exact hdisk.onDisk h.onDisk
      · refine hdisk.attested (h.child d hd) fun io hio => hspares io hio d ?_
        exact List.mem_append_left _ (Option.mem_toList.mpr hd)
      · obtain ⟨j, hj⟩ := List.mem_iff_getElem?.mp hd
        by_cases hij : i = j
        · subst hij
          rw [List.getElem?_set_self (List.getElem?_eq_some_iff.mp hi).1] at hj
          obtain rfl := Option.some.inj hj
          obtain ⟨d, hd⟩ := child_stays ha hstep rfl
          rw [hd]
          exact act_child hsound hok (hwhole c hi) h.dbs hint h.had hchild hstep d hd
        · rw [List.getElem?_set_ne hij] at hj
          refine hdisk.attested (h.orphans d (List.mem_of_getElem? hj)) fun io hio =>
            hspares io hio d (List.mem_append_right _ ?_)
          exact List.mem_eraseIdx_iff_getElem?.mpr ⟨j, Ne.symm hij, hj⟩

omit [DecidableEq ι] in
theorem boot_kept (hpos : 0 < n) (h : Kept n m g) {e : MachineEvent ι} {b : Boot}
    (hnote : m.snapshot e = none) (hboot : boot b m.system.server.db_num m.system.fs = .ok σ)
    {orphans : List Child} (horphans : ∀ c ∈ orphans, Attested n g.had m.system.fs c) :
    Kept n ⟨σ, orphans⟩ (note g m e ⟨σ, orphans⟩) := by
  obtain ⟨σ', hok, hstart, hfs, hlen, -⟩ := boot_ok h hpos b
  obtain rfl := Except.ok.inj (hok.symm.trans hboot)
  refine h.noted hstart.sound hlen (fun ds hds => ?_) ?_ (fun c hc => ?_) ?_
  · cases hnote.symm.trans hds
  · rw [hnote, hfs]
    exact h.onDisk
  · cases hstart.child.symm.trans hc
  · rw [hfs]
    exact horphans

theorem act_kept (hpos : 0 < n) (hint : n < 2 ^ 31) (h : Kept n m g) {e : MachineEvent ι}
    (hok : m.EventOk e) (hact : m.act e = .ok m') : Kept n m' (note g m e m') := by
  have hchildren : ∀ c ∈ m.system.child.toList ++ m.orphans, Attested n g.had m.system.fs c := by
    intro c hc
    rcases List.mem_append.mp hc with hc | hc
    · exact h.child c (Option.mem_toList.mp hc)
    · exact h.orphans c hc
  cases e with
  | act a =>
      obtain ⟨σ, hstep, hact⟩ := bind_eq_ok.mp hact
      cases hact
      exact action_kept hint h hok hstep
  | orphan i a => exact orphan_kept hint h hok hact
  | torn io content =>
      cases hact
      have htorn (c : Child) (hc : c ∈ m.system.child.toList ++ m.orphans) :
          Attested n g.had (m.system.fs.set io.tmpfile (some content)) c := by
        refine (hchildren c hc).step rfl rfl id fun name _ hsaving hname => Or.inl ?_
        exact FileSystem.set_of_ne fun heq => hok c hc hsaving (heq ▸ hname)
      have hfile : (m.system.fs.set io.tmpfile (some content)) CUTIS_DB_NAME =
          m.system.fs CUTIS_DB_NAME := FileSystem.set_of_ne (tmpfile_ne io).symm
      refine h.noted (h.sound.of_same ⟨rfl, rfl, rfl⟩) h.dbs nofun (h.onDisk.of_file hfile)
        (fun c hc => ?_) fun c hc => ?_
      · exact htorn c (List.mem_append_left _ (Option.mem_toList.mpr hc))
      · exact htorn c (List.mem_append_right _ hc)
  | restart b =>
      obtain ⟨σ, hboot, hact⟩ := bind_eq_ok.mp hact
      cases hact
      exact boot_kept hpos h rfl hboot hchildren
  | killAll b =>
      obtain ⟨σ, hboot, hact⟩ := bind_eq_ok.mp hact
      cases hact
      exact boot_kept hpos h rfl hboot fun c hc => by cases hc

omit [DecidableEq ι] in
theorem kept_start (h : Start n m g) : Kept n m g := by
  have hnone (c : Child) : m.system.child ≠ some c := by
    rw [h.system.child]
    exact nofun
  refine ⟨h.system.sound, h.dbs, ?_, fun ds hds => ?_, h.snap, h.onDisk,
    fun c hc => absurd hc (hnone c), fun c hc => ?_⟩
  · rw [h.had]
    exact List.mem_singleton_self _
  · rw [h.had] at hds
    rw [List.mem_singleton.mp hds]
    exact ⟨(List.length_map _).trans h.dbs, h.system.sound.clean⟩
  · rw [h.orphans] at hc
    cases hc

theorem Reached.kept (hpos : 0 < n) (hint : n < 2 ^ 31) (h : Reached n m g) : Kept n m g := by
  refine Runs.Reach.invariant (I := fun m g => Kept n m g) ?_ ?_ h
  · exact fun _ _ hstart => kept_start hstart
  · exact fun _ _ _ _ hkept hok hact => act_kept hpos hint hkept hok hact

-- Whenever the server or all processes are killed, a new server comes up with the
-- databases of the last save put in place, as some server had them at one time.
theorem restart_recovers (hpos : 0 < n) (hint : n < 2 ^ 31) (h : Reached n m g) (b : Boot) :
    (∀ ds, g.snap = some ds → ds ∈ g.had) ∧
    ∀ e, e = .restart b ∨ e = .killAll b → ∃ m', m.act e = .ok m' ∧ m'.system.Start ∧
      dataset m'.system.server.dict = g.snap.getD (List.replicate n ∅) := by
  have hkept := h.kept hpos hint
  obtain ⟨σ, hboot, hstart, -, -, hdataset⟩ := boot_ok hkept hpos b
  refine ⟨hkept.snap, fun e he => ?_⟩
  rcases he with rfl | rfl
  · refine ⟨⟨σ, m.system.child.toList ++ m.orphans⟩, ?_, hstart, hdataset⟩
    rw [act, hboot]
    rfl
  · refine ⟨⟨σ, []⟩, ?_, hstart, hdataset⟩
    rw [act, hboot]
    rfl

theorem Reached.acts (h : Reached n m g) (hok : m.EventOk (.act a))
    (hact : m.system.act a = .ok σ) :
    Reached n { m with system := σ } (note g m (.act a) { m with system := σ }) := by
  refine Runs.Reach.step (a := MachineEvent.act a) h hok ?_
  rw [act, hact]
  rfl

section Examples

def idleBoot : Boot where
  malloc := fun _ => []
  buf := []
  vbuf := []
  save_params := []
  time := 0

-- SET and SAVE on a new machine.
theorem exists_keyed : ∃ (m : Machine Unit) (g : Notes), Reached 1 m g ∧
    g.snap = some System.keyedDataset := by
  have hstart : (System.init Unit 1).Start := System.start_init Nat.one_pos
  obtain ⟨σ₁, hact₁, hsound₁, hstop₁, hkeyed, hchild₁, -⟩ :=
    System.act_set hstart.sound hstart.stop (System.model_init ())
  have hlists := hkeyed ▸ System.shortLists_keyed
  obtain ⟨σ₂, hact₂, -, -, hsaves, -⟩ := System.act_save hsound₁ hstop₁ hlists
  have h₀ : Reached 1 (⟨System.init Unit 1, []⟩ : Machine Unit)
      ⟨[dataset (System.init Unit 1).server.dict], none⟩ :=
    .start ⟨hstart, rfl, rfl, rfl, nofun, rfl⟩
  have hset : (System.init Unit 1).SavesWhole
      (.call () System.setCommandEntry System.setArgv System.plainOs) := by
    intro hsaves
    cases hsaves
  have h₁ := h₀.acts (a := .call () System.setCommandEntry System.setArgv System.plainOs)
    ⟨System.callOk_set, hset, fun _ => nofun⟩ hact₁
  have hsave : σ₁.SavesWhole (System.saveCall σ₁.server.dict) :=
    fun _ => ⟨System.idealStdio_whole _, hlists⟩
  have h₂ := h₁.acts (a := System.saveCall σ₁.server.dict) ⟨System.saveCall_ok _, hsave, fun _ => nofun⟩ hact₂
  refine ⟨_, _, h₂, ?_⟩
  obtain ⟨ds, hds⟩ := Option.isSome_iff_exists.mp hsaves
  have hsnap : σ₁.snapshot (System.saveCall σ₁.server.dict) = some System.keyedDataset := by
    have hdataset : ds = dataset σ₁.server.dict := by
      simp only [System.snapshot] at hds
      split_ifs at hds
      exact (Option.some.inj hds).symm
    rw [← hkeyed, ← hdataset]
    exact hds
  exact congrArg (Option.or · _) hsnap

theorem restart_recovers_keyed :
    ∃ (m m' : Machine Unit), m.act (.restart idleBoot) = .ok m' ∧
      dataset m'.system.server.dict = System.keyedDataset := by
  obtain ⟨m, g, hreached, hsnap⟩ := exists_keyed
  obtain ⟨-, hrestart⟩ := restart_recovers Nat.one_pos (by decide) hreached idleBoot
  obtain ⟨m', hact, -, hdataset⟩ := hrestart _ (Or.inl rfl)
  refine ⟨m, m', hact, ?_⟩
  rw [hdataset, hsnap]
  rfl

end Examples

end Machine

end Cutis

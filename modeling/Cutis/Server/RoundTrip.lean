import Cutis.Server.Load

namespace Cutis

section RoundTrip

-- Every call of a save succeeds.
structure Stdio.Succeeds (io : Stdio) (dict : List Database) : Prop where
  fopen : io.fopen = true
  rename : io.rename = true
  complete : io.Complete dict

-- What is saved is loaded again into empty databases.
def RoundTrips (server : CutisServer) : Prop :=
  ∀ (io : Stdio) (fs : FileSystem) (malloc : Nat → Bytes) (buf vbuf : Bytes) (empty : CutisServer),
    io.Succeeds server.dict → empty.db_num = server.db_num →
    (∀ db ∈ empty.dict, EmptyDatabase db) →
    ∃ loaded,
      loadDB malloc buf vbuf empty
          ((saveDB io fs server CUTIS_DB_NAME).2.1 CUTIS_DB_NAME) = .ok (loaded, .CUTIS_OK) ∧
      dataset loaded.dict = dataset server.dict

section Noticeable

-- No write is so short that its test takes it for a failure.
def Noticeable (ws : List (PartialWrites.Write UInt8)) : Prop := ∀ w ∈ ws, w.size ≤ w.data.length

theorem noticeable_append {first rest : List (PartialWrites.Write UInt8)} :
    Noticeable (first ++ rest) ↔ Noticeable first ∧ Noticeable rest :=
  List.forall_mem_append

theorem noticeable_flatMap {α : Type} {writes : α → List (PartialWrites.Write UInt8)} {l : List α}
    (h : ∀ x ∈ l, Noticeable (writes x)) : Noticeable (l.flatMap writes) := by
  intro w hw
  obtain ⟨x, hx, hw⟩ := List.mem_flatMap.mp hw
  exact h x hx w hw

theorem noticeable_lenWrite_cons (len : Nat) {ws : List (PartialWrites.Write UInt8)}
    (h : Noticeable ws) : Noticeable (lenWrite len :: ws) :=
  List.forall_mem_cons.mpr ⟨Nat.le_refl 4, h⟩

theorem noticeable_typeWrite_cons (type : UInt8) {ws : List (PartialWrites.Write UInt8)}
    (h : Noticeable ws) : Noticeable (typeWrite type :: ws) :=
  List.forall_mem_cons.mpr ⟨Nat.le_refl 1, h⟩

theorem noticeable_nil : Noticeable [] := fun _ hw => absurd hw List.not_mem_nil

theorem noticeable_stringWrites (s : Bytes) : Noticeable (stringWrites s) := by
  unfold stringWrites
  split_ifs with hs
  · exact noticeable_lenWrite_cons _ (List.forall_mem_singleton.mpr hs)
  · exact noticeable_lenWrite_cons _ noticeable_nil

theorem noticeable_objectWrites (o : CutisObject) : Noticeable (objectWrites o) := by
  cases o with
  | string s => exact noticeable_stringWrites s
  | list l =>
      exact noticeable_lenWrite_cons _ (noticeable_flatMap fun s _ => noticeable_stringWrites s)
  | set d =>
      exact noticeable_lenWrite_cons _ (noticeable_flatMap fun s _ => noticeable_stringWrites s)

theorem noticeable_entryWrites {de : DictEntry Bytes CutisObject} (hkey : de.key ≠ []) :
    Noticeable (entryWrites de) :=
  noticeable_append.mpr
    ⟨noticeable_typeWrite_cons _ (noticeable_lenWrite_cons _
      (List.forall_mem_singleton.mpr (List.length_pos_iff.mpr hkey))), noticeable_objectWrites _⟩

theorem noticeable_dictsWrites (j : Nat) {dict : List Database}
    (hdict : ∀ db ∈ dict, ∀ he ∈ db.entries, he.key ≠ []) : Noticeable (dictsWrites j dict) := by
  induction dict generalizing j with
  | nil => exact noticeable_nil
  | cons db rest ih =>
      have hrest := ih (j + 1) fun db hdb => hdict db (by simp [hdb])
      refine noticeable_append.mpr ⟨?_, hrest⟩
      unfold dictWrites
      split_ifs
      · exact noticeable_nil
      · exact noticeable_typeWrite_cons _ (noticeable_lenWrite_cons _
          (noticeable_flatMap fun de hde => noticeable_entryWrites (hdict db (by simp) de hde)))

theorem noticeable_saveWrites {dict : List Database}
    (hdict : ∀ db ∈ dict, ∀ he ∈ db.entries, he.key ≠ []) : Noticeable (saveWrites dict) :=
  List.forall_mem_cons.mpr ⟨Nat.le_refl 9, noticeable_append.mpr
    ⟨noticeable_dictsWrites 0 hdict, noticeable_typeWrite_cons _ noticeable_nil⟩⟩

end Noticeable

-- A successful save leaves the encoding of the databases.
theorem saveDB_succeeds {io : Stdio} {server : CutisServer}
    (hdict : ∀ db ∈ server.dict, StorableDatabase db) (hio : io.Succeeds server.dict)
    (fs : FileSystem) :
    (saveDB io fs server CUTIS_DB_NAME).2.1 CUTIS_DB_NAME = some (encodeFile server.dict) := by
  have hiter : ∀ db ∈ server.dict, IterableDatabase db := fun db hdb => (hdict db hdb).iterable
  have hnoticed := PartialWrites.not_someNoticed
    (noticeable_saveWrites fun db hdb he hhe => ((hdict db hdb).keys he hhe).1) hio.complete.1
  have hfails : ¬io.Fails server.dict := by
    simp only [Stdio.Fails, hio.fopen, hio.rename, hnoticed]
    decide
  rw [saveDB_done hiter hfails fs, PartialWrites.stored_of_allWhole hio.complete.1,
    written_saveWrites, hio.complete.2, Nat.sub_zero, List.take_length]
  simp [FileSystem.set]

theorem dataset_empty {dict : List Database} (h : ∀ db ∈ dict, EmptyDatabase db) :
    dataset dict = List.replicate dict.length ∅ := by
  refine List.eq_replicate_iff.mpr ⟨List.length_map _, fun ks hks => ?_⟩
  obtain ⟨db, hdb, rfl⟩ := List.mem_map.mp hks
  exact (h db hdb).2

-- A file of the grammar is loaded, where the tables can hold what it denotes.
theorem loadDB_of_denotes (malloc : Nat → Bytes) (buf vbuf : Bytes) {server : CutisServer}
    (hempty : ∀ db ∈ server.dict, EmptyDatabase db) {file : Bytes} {ds : Dataset}
    (h : Denotes server.db_num file ds) (hfits : ds.Fits) :
    ∃ loaded, loadDB malloc buf vbuf server (some file) = .ok (loaded, .CUTIS_OK) ∧
      dataset loaded.dict = ds := by
  obtain ⟨items, rest, rfl, hitems, hdenote⟩ := h
  obtain ⟨buf', hsig⟩ := loadBytes_append malloc CUTIS_DB_SIGNATURE
    (items.flatMap DumpItem.encode ++ CUTIS_EOF :: rest) buf (by decide)
  rw [CutisServer.db_num, ← dataset_empty hempty] at hdenote
  obtain ⟨dict, hload, hds⟩ := loadItems_encode malloc items rest
    ((items.flatMap DumpItem.encode ++ CUTIS_EOF :: rest).length + 1) 0 server.dict ds buf' vbuf
    (fun db hdb => (hempty db hdb).1) hitems hdenote hfits (by rw [List.length_append]; omega)
  have hcmp : ¬memcmp CUTIS_DB_SIGNATURE CUTIS_DB_SIGNATURE ≠ 0 := by decide
  have hnine : CUTIS_DB_SIGNATURE.length = 9 := rfl
  rw [hnine] at hsig
  refine ⟨{ server with dict }, ?_, hds⟩
  simp only [loadDB, hsig, bind, Except.bind, hcmp, if_false]
  rw [hload]
  rfl

theorem loadDB_encodeFile (malloc : Nat → Bytes) (buf vbuf : Bytes) (server empty : CutisServer)
    (hdb_num : empty.db_num = server.db_num) (hempty : ∀ db ∈ empty.dict, EmptyDatabase db)
    (hint : server.db_num < 2 ^ 31)
    (hdict : ∀ db ∈ server.dict, StorableDatabase db ∧ FitsDatabase db) :
    ∃ loaded,
      loadDB malloc buf vbuf empty (some (encodeFile server.dict)) = .ok (loaded, .CUTIS_OK) ∧
      dataset loaded.dict = dataset server.dict := by
  have hstorable : ∀ db ∈ server.dict, StorableDatabase db := fun db hdb => (hdict db hdb).1
  have hdenotes : Denotes empty.db_num (encodeFile server.dict) (dataset server.dict) := by
    rw [hdb_num]
    exact denotes_encodeFile hint hstorable
  exact loadDB_of_denotes malloc buf vbuf hempty hdenotes (fits_dataset hdict)

theorem loadDB_sound {malloc : Nat → Bytes} {buf vbuf : Bytes} {server loaded : CutisServer}
    {file : Option Bytes} {status : CutisStatus} (hdict : ∀ db ∈ server.dict, SoundDatabase db)
    (h : loadDB malloc buf vbuf server file = .ok (loaded, status)) :
    ∀ db ∈ loaded.dict, SoundDatabase db := by
  unfold loadDB at h
  cases file with
  | none =>
      cases h
      exact hdict
  | some file =>
      simp only at h
      obtain ⟨⟨signature, buf', fp⟩, -, h⟩ := bind_eq_ok.mp h
      simp only at h
      split_ifs at h
      · cases h
        exact hdict
      · obtain ⟨dict, hload, h⟩ := bind_eq_ok.mp h
        cases h
        exact loadItems_sound hdict hload

-- What sound databases with the same contents fit, these fit too.
theorem fitsDatabase_of_contents {db loaded : Database} (hdb : StorableDatabase db)
    (hloaded : SoundDatabase loaded) (h : loaded.contents = db.contents) : FitsDatabase db := by
  constructor
  · have hused : loaded.used = db.used := by
      rw [← hloaded.card_contents, h, Dict.contents, FiniteMap.keys_mapVals, hdb.card_keys]
    rw [← hused]
    exact hloaded.used_le_limit
  · intro he hhe
    cases hval : he.val with
    | string s => trivial
    | list l => trivial
    | set d =>
        have hlook := (hdb.lookup_eq_some_iff he.key he.val).mpr hhe
        have hvalue := congrArg (fun m => Finmap.lookup he.key m) h
        simp only [Dict.lookup_contents, hlook] at hvalue
        obtain ⟨o, ho, hovalue⟩ := Option.map_eq_some_iff.mp hvalue
        have hsound := hloaded.lookup_sound ho
        have hstorable := hdb.objects he hhe
        rw [hval] at hovalue hstorable
        cases o with
        | string s => cases hovalue
        | list l => cases hovalue
        | set d' =>
            have hsound' : d'.Sound SetDictType := hsound
            have hkeys : d'.toFinmap.keys = d.toFinmap.keys := Value.set.inj hovalue
            have hused : d'.used = d.used := by
              rw [← hsound'.toInv.card_keys, hkeys, hstorable.1.card_keys]
            rw [CutisObject.Fits, ← hused]
            exact hsound'.used_le_limit

-- Every write stores all it is given.
def idealStdio (dict : List Database) : Stdio where
  time := 0
  random := 0
  fopen := true
  fwrite _ := (encodeFile dict).length
  fclose := 0
  rename := true
  time_saved := 0

theorem idealStdio_succeeds (dict : List Database) : (idealStdio dict).Succeeds dict where
  fopen := rfl
  rename := rfl
  complete := ⟨PartialWrites.allWhole_of_le fun _ => by
    rw [written_saveWrites]
    exact Nat.le_refl _, rfl⟩

theorem emptyDatabase_initServer (db_num : Nat) (save_params : List SaveParam) (time : Int) :
    ∀ db ∈ (initServer db_num save_params time).dict, EmptyDatabase db := by
  intro db hdb
  obtain ⟨-, rfl⟩ := List.mem_replicate.mp hdb
  exact ⟨soundDatabase_dictCreate, Dict.contents_dictCreate⟩

theorem fits_of_roundTrips {server : CutisServer}
    (hdict : ∀ db ∈ server.dict, StorableDatabase db) (h : RoundTrips server) :
    ∀ db ∈ server.dict, FitsDatabase db := by
  have hempty := emptyDatabase_initServer server.db_num [] 0
  obtain ⟨loaded, hload, hdata⟩ := h (idealStdio server.dict) (fun _ => none) (fun _ => []) [] []
    (initServer server.db_num [] 0) (idealStdio_succeeds _) List.length_replicate hempty
  have hsound := loadDB_sound (fun db hdb => (hempty db hdb).1) hload
  intro db hdb
  have hmem : db.contents ∈ dataset loaded.dict := by
    rw [hdata]
    exact List.mem_map_of_mem hdb
  obtain ⟨db', hdb', hcontents⟩ := List.mem_map.mp hmem
  exact fitsDatabase_of_contents (hdict db hdb) (hsound db' hdb') hcontents

theorem roundTrips_iff (server : CutisServer) (hint : server.db_num < 2 ^ 31)
    (hdict : ∀ db ∈ server.dict, StorableDatabase db) :
    RoundTrips server ↔ ∀ db ∈ server.dict, FitsDatabase db := by
  constructor
  · exact fits_of_roundTrips hdict
  · intro hfits io fs malloc buf vbuf empty hio hdb_num hempty
    rw [saveDB_succeeds hdict hio fs]
    exact loadDB_encodeFile malloc buf vbuf server empty hdb_num hempty hint
      fun db hdb => ⟨hdict db hdb, hfits db hdb⟩

theorem storableDatabase_tableOf {k : Nat} (h4 : 4 ≤ k) (h30 : k ≤ 30)
    {entries : List (DictEntry Bytes CutisObject)} (hroom : entries.length ≤ 2 ^ k)
    (hnodup : (entries.map DictEntry.key).Nodup)
    (hkeys : ∀ he ∈ entries, he.key ≠ [] ∧ he.key.length < 2 ^ 31)
    (hobj : ∀ he ∈ entries, he.val.Storable) : StorableDatabase (tableOf sdsDictType k entries) where
  toInv := tableOf_inv _ h4 (by omega) hroom hnodup
  size_lt := Nat.pow_lt_pow_right (by omega) (by omega)
  keys he hhe := hkeys he ((tableOf_entries _ _ _).mem_iff.mp hhe)
  objects he hhe := hobj he ((tableOf_entries _ _ _).mem_iff.mp hhe)

-- A string, a list and a set, and the same key in another database.
def mixedEntries : List (DictEntry Bytes CutisObject) :=
  [{ key := sdsnew "s", val := .string (sdsnew "value") },
    { key := sdsnew "l", val := .list [sdsnew "a", [], sdsnew "b"] },
    { key := sdsnew "t"
      val := .set (tableOf SetDictType 4
        [{ key := sdsnew "m", val := () }, { key := sdsnew "n", val := () }]) }]

def mixedServer : CutisServer :=
  { initServer 2 [] 0 with
    dict := [tableOf sdsDictType 4 mixedEntries,
      tableOf sdsDictType 4 [{ key := sdsnew "s", val := .string [] }]] }

theorem mixedEntries_ok : ∀ he ∈ mixedEntries, he.val.Storable ∧ he.val.Fits := by
  intro he hhe
  simp only [mixedEntries, List.mem_cons, List.not_mem_nil, or_false] at hhe
  rcases hhe with rfl | rfl | rfl
  · exact ⟨by show (sdsnew "value").length < 2 ^ 31; decide, trivial⟩
  · refine ⟨?_, trivial⟩
    show [sdsnew "a", [], sdsnew "b"].length < 2 ^ 31 ∧
      ∀ s ∈ [sdsnew "a", [], sdsnew "b"], s.length < 2 ^ 31
    decide
  · refine ⟨⟨tableOf_inv _ (by decide) (by decide) (by decide) (by decide), by decide,
      fun he hhe => ?_⟩, ?_⟩
    · have hmem := (tableOf_entries _ _ _).mem_iff.mp hhe
      simp only [List.mem_cons, List.not_mem_nil, or_false] at hmem
      rcases hmem with rfl | rfl
      · decide
      · decide
    · show 2 ≤ 2 ^ 27
      decide

theorem storable_mixedServer :
    ∀ db ∈ mixedServer.dict, StorableDatabase db ∧ FitsDatabase db := by
  intro db hdb
  rcases List.mem_pair.mp hdb with rfl | rfl
  · refine ⟨storableDatabase_tableOf (by decide) (by decide) (by decide) (by decide) (by decide)
      fun he hhe => (mixedEntries_ok he hhe).1, by decide, fun he hhe => ?_⟩
    exact (mixedEntries_ok he ((tableOf_entries _ _ _).mem_iff.mp hhe)).2
  · refine ⟨storableDatabase_tableOf (by decide) (by decide) (by decide) (by decide) (by decide)
      fun he hhe => ?_, by decide, fun he hhe => ?_⟩
    · obtain rfl := List.mem_singleton.mp hhe
      exact Nat.two_pow_pos 31
    · obtain rfl := List.mem_singleton.mp ((tableOf_entries _ _ _).mem_iff.mp hhe)
      trivial

theorem roundTrips_mixedServer : RoundTrips mixedServer :=
  (roundTrips_iff mixedServer (by decide) fun db hdb => (storable_mixedServer db hdb).1).mpr
    fun db hdb => (storable_mixedServer db hdb).2

-- The keys are the decimals below n, each with an empty string.
def decimalEntries (n : Nat) : List (DictEntry Bytes CutisObject) :=
  (List.range n).map fun i => { key := Decimal.print i, val := .string [] }

theorem length_decimalEntries (n : Nat) : (decimalEntries n).length = n := by
  rw [decimalEntries, List.length_map, List.length_range]

theorem used_decimalEntries (T : DictType Bytes) (k n : Nat) :
    (tableOf T k (decimalEntries n)).used = n := length_decimalEntries n

theorem storableDatabase_decimalEntries {n k : Nat} (h4 : 4 ≤ k) (h30 : k ≤ 30) (hn : n ≤ 2 ^ k) :
    StorableDatabase (tableOf sdsDictType k (decimalEntries n)) := by
  refine storableDatabase_tableOf h4 h30 ?_ ?_ ?_ ?_
  · rwa [length_decimalEntries]
  · rw [decimalEntries, List.map_map]
    exact List.nodup_range.map Decimal.print_injective
  · intro he hhe
    obtain ⟨i, hi, rfl⟩ := List.mem_map.mp hhe
    have hlen := Decimal.length_print_le i
    have hpow : 2 ^ k ≤ 2 ^ 30 := Nat.pow_le_pow_right (by omega) h30
    rw [List.mem_range] at hi
    exact ⟨Decimal.print_ne_nil i, by simp only; omega⟩
  · intro he hhe
    obtain ⟨i, -, rfl⟩ := List.mem_map.mp hhe
    exact Nat.two_pow_pos 31

-- One database with one key more than any table that can be allocated holds.
def overfullServer : CutisServer :=
  { initServer 1 [] 0 with dict := [tableOf sdsDictType 28 (decimalEntries (2 ^ 27 + 1))] }

theorem not_roundTrips_overfullServer :
    (∀ db ∈ overfullServer.dict, StorableDatabase db ∧ db.used < 2 ^ 30) ∧
      ¬RoundTrips overfullServer := by
  have hstorable : ∀ db ∈ overfullServer.dict, StorableDatabase db := by
    intro db hdb
    rw [List.mem_singleton.mp hdb]
    exact storableDatabase_decimalEntries (by omega) (by omega) (by omega)
  refine ⟨fun db hdb => ⟨hstorable db hdb, ?_⟩, fun h => ?_⟩
  · rw [List.mem_singleton.mp hdb, used_decimalEntries]
    omega
  · have hfits := (fits_of_roundTrips hstorable h _ (List.mem_singleton.mpr rfl)).1
    rw [used_decimalEntries] at hfits
    omega

end RoundTrip

end Cutis

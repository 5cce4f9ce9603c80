import Cutis.Server.Grammar
import Cutis.Server.Save

namespace Cutis

section Read

theorem loadLen_htonl (n : Nat) (h : n < 2 ^ 32) (rest buf vbuf : Bytes) :
    loadLen { fp := htonl n ++ rest, buf, vbuf } = .ok (n, { fp := rest, buf, vbuf }) := by
  have hlen : ¬(htonl n ++ rest).length < 4 := by simp [htonl]
  have htake : (htonl n ++ rest).take 4 = htonl n := rfl
  have hdrop : (htonl n ++ rest).drop 4 = rest := rfl
  rw [loadLen, if_neg hlen, htake, hdrop, ntohl_htonl n h]
  rfl

variable (malloc : Nat → Bytes)

theorem loadBytes_append (s rest buf : Bytes) (hne : s ≠ []) :
    ∃ buf', loadBytes malloc s.length buf (s ++ rest) = .ok (s, buf', rest) := by
  have htake : (s ++ rest).take s.length = s := List.take_left
  have hdrop : (s ++ rest).drop s.length = rest := List.drop_left
  have hfull (tail : Bytes) : (s ++ tail).take s.length = s := List.take_left
  unfold loadBytes
  simp only [htake, hdrop, hne, if_false, hfull]
  split_ifs
  · exact ⟨_, rfl⟩
  · exact ⟨_, rfl⟩

theorem loadKey_encodeString (key rest : Bytes) (hne : key ≠ []) (hlen : key.length < 2 ^ 32)
    (buf vbuf : Bytes) :
    ∃ buf', loadKey malloc { fp := encodeString key ++ rest, buf, vbuf } =
      .ok (key, { fp := rest, buf := buf', vbuf }) := by
  obtain ⟨buf', hread⟩ := loadBytes_append malloc key rest buf hne
  refine ⟨buf', ?_⟩
  rw [loadKey, encodeString, List.append_assoc, loadLen_htonl _ hlen]
  simp only [bind, Except.bind, hread]
  rfl

theorem loadString_encodeString (s rest : Bytes) (hlen : s.length < 2 ^ 32) (buf vbuf : Bytes) :
    ∃ vbuf', loadString malloc { fp := encodeString s ++ rest, buf, vbuf } =
      .ok (s, { fp := rest, buf, vbuf := vbuf' }) := by
  rw [loadString, encodeString, List.append_assoc, loadLen_htonl _ hlen]
  cases s with
  | nil => exact ⟨vbuf, rfl⟩
  | cons c s =>
      obtain ⟨vbuf', hread⟩ := loadBytes_append malloc (c :: s) rest vbuf (List.cons_ne_nil _ _)
      refine ⟨vbuf', ?_⟩
      simp only [bind, Except.bind, List.length_cons, Nat.succ_pos, gt_iff_lt, if_true]
      rw [List.length_cons] at hread
      rw [hread]
      rfl

theorem loadListElements_encode (elements l : List Bytes) (rest : Bytes)
    (hlen : ∀ s ∈ elements, s.length < 2 ^ 32) (buf vbuf : Bytes) :
    ∃ vbuf', loadListElements malloc elements.length l
        { fp := elements.flatMap encodeString ++ rest, buf, vbuf } =
      .ok (l ++ elements, { fp := rest, buf, vbuf := vbuf' }) := by
  induction elements generalizing l vbuf with
  | nil => exact ⟨vbuf, by rw [List.append_nil]; rfl⟩
  | cons s elements ih =>
      obtain ⟨vbuf₁, hread⟩ := loadString_encodeString malloc s
        (elements.flatMap encodeString ++ rest) (hlen s (by simp)) buf vbuf
      obtain ⟨vbuf', hrest⟩ := ih (l ++ [s]) (fun s hs => hlen s (by simp [hs])) vbuf₁
      refine ⟨vbuf', ?_⟩
      rw [List.flatMap_cons, List.append_assoc, List.length_cons, loadListElements, hread]
      simpa [bind, Except.bind] using hrest

-- The members go into a set that has none of them yet.
theorem loadSetElements_encode (members : List Bytes) (set : Dict Bytes Unit) (rest : Bytes)
    (hset : set.Sound SetDictType) (hnodup : members.Nodup)
    (hnew : ∀ s ∈ members, s ∉ set.toFinmap) (hroom : set.used + members.length ≤ 2 ^ 27)
    (hlen : ∀ s ∈ members, s.length < 2 ^ 32) (buf vbuf : Bytes) :
    ∃ set' vbuf', loadSetElements malloc members.length set
        { fp := members.flatMap encodeString ++ rest, buf, vbuf } =
      .ok (set', { fp := rest, buf, vbuf := vbuf' }) ∧ set'.Sound SetDictType ∧
      set'.toFinmap.keys = set.toFinmap.keys ∪ members.toFinset := by
  induction members generalizing set vbuf with
  | nil => exact ⟨set, vbuf, rfl, hset, by simp⟩
  | cons s members ih =>
      rw [List.nodup_cons] at hnodup
      rw [List.length_cons] at hroom
      obtain ⟨vbuf₁, hread⟩ := loadString_encodeString malloc s
        (members.flatMap encodeString ++ rest) (hlen s (by simp)) buf vbuf
      have hlimit : ¬set.AtLimit := by
        rw [Dict.AtLimit]
        omega
      obtain ⟨set₁, hset₁, hadd, hmap⟩ := hset.dictAdd_ok setDictType_lawful s () hlimit
      have hs := hnew s (by simp)
      rw [if_neg hs] at hadd hmap
      have hused : set₁.used = set.used + 1 := by
        rw [← hset₁.card_keys, hmap, FiniteMap.keys_insert, Finset.card_insert_of_notMem,
          hset.card_keys]
        rwa [Finmap.mem_keys]
      obtain ⟨set', vbuf', hrest, hset', hkeys⟩ := ih set₁ hset₁ hnodup.2
        (fun t ht hmem => by
          rw [hmap, Finmap.mem_insert] at hmem
          rcases hmem with rfl | hmem
          · exact hnodup.1 ht
          · exact hnew t (by simp [ht]) hmem)
        (by omega) (fun t ht => hlen t (by simp [ht])) vbuf₁
      refine ⟨set', vbuf', ?_, hset', ?_⟩
      · rw [List.flatMap_cons, List.append_assoc, List.length_cons, loadSetElements, hread]
        simp only [bind, Except.bind, hadd, reduceCtorEq, if_false]
        exact hrest
      · rw [hkeys, hmap, FiniteMap.keys_insert, List.toFinset_cons, Finset.insert_union,
          Finset.union_insert]

end Read

section Storable

-- What the format can hold.
def CutisObject.Storable : CutisObject → Prop
  | .string s => s.length < 2 ^ 31
  | .list l => l.length < 2 ^ 31 ∧ ∀ s ∈ l, s.length < 2 ^ 31
  | .set d => d.Inv SetDictType ∧ d.size < 2 ^ 31 ∧ ∀ he ∈ d.entries, he.key.length < 2 ^ 31

structure StorableDatabase (db : Database) : Prop extends Dict.Inv sdsDictType db where
  size_lt : db.size < 2 ^ 31
  keys : ∀ he ∈ db.entries, he.key ≠ [] ∧ he.key.length < 2 ^ 31
  objects : ∀ he ∈ db.entries, he.val.Storable

-- What the tables can hold.
def CutisObject.Fits : CutisObject → Prop
  | .set d => d.used ≤ 2 ^ 27
  | _ => True

def FitsDatabase (db : Database) : Prop :=
  db.used ≤ 2 ^ 27 ∧ ∀ he ∈ db.entries, he.val.Fits

theorem CutisObject.Storable.iterable {o : CutisObject} (h : o.Storable) : o.Iterable := by
  cases o with
  | set d => exact ⟨h.1.toShape, h.2.1⟩
  | _ => trivial

theorem StorableDatabase.iterable {db : Database} (h : StorableDatabase db) :
    IterableDatabase db :=
  ⟨⟨h.toShape, h.size_lt⟩, fun he hhe => (h.objects he hhe).iterable⟩

def contentPairs (entries : List (DictEntry Bytes CutisObject)) : List (Bytes × Value) :=
  entries.map fun he => (he.key, he.val.value)

theorem contents_eq_ofPairs (db : Database) :
    db.contents = FiniteMap.ofPairs (contentPairs db.entries) := by
  rw [Dict.contents, Dict.toFinmap, FiniteMap.mapVals_ofPairs, List.map_map]
  rfl

end Storable

section LoadEntries

variable (malloc : Nat → Bytes)

theorem loadObject_encode (v : DumpValue) (rest : Bytes) (hv : v.Ok)
    (hfits : ∀ members, v.value = .set members → members.card ≤ 2 ^ 27) (buf vbuf : Bytes) :
    ∃ o vbuf', loadObject malloc v.type { fp := v.encode ++ rest, buf, vbuf } =
      .ok (o, { fp := rest, buf, vbuf := vbuf' }) ∧ o.Sound ∧ o.value = v.value := by
  cases v with
  | string s =>
      obtain ⟨vbuf', hread⟩ := loadString_encodeString malloc s rest hv buf vbuf
      refine ⟨.string s, vbuf', ?_, trivial, rfl⟩
      simp only [loadObject, DumpValue.type, if_true, DumpValue.encode, hread]
      rfl
  | list l =>
      obtain ⟨vbuf', hread⟩ := loadListElements_encode malloc l [] rest hv.2 buf vbuf
      refine ⟨.list l, vbuf', ?_, trivial, rfl⟩
      have hne : CUTIS_LIST ≠ CUTIS_STRING := by decide
      simp only [loadObject, DumpValue.type, hne, if_false, if_true, DumpValue.encode, encodeStrings,
        List.append_assoc]
      rw [loadLen_htonl _ hv.1]
      simp only [bind, Except.bind, hread]
      rfl
  | set members =>
      obtain ⟨⟨hcount, hlen⟩, hnodup⟩ := hv
      have hroom : members.length ≤ 2 ^ 27 := by
        rw [← List.toFinset_card_of_nodup hnodup]
        exact hfits _ rfl
      obtain ⟨set', vbuf', hread, hset', hkeys⟩ := loadSetElements_encode malloc members dictCreate
        rest (sound_dictCreate _) hnodup (fun s _ => Finmap.notMem_empty)
        (by simpa [dictCreate, dictReset] using hroom) hlen buf vbuf
      refine ⟨.set set', vbuf', ?_, hset', ?_⟩
      · have hne : CUTIS_SET ≠ CUTIS_STRING := by decide
        have hne' : CUTIS_SET ≠ CUTIS_LIST := by decide
        simp only [loadObject, DumpValue.type, hne, hne', if_false, if_true, DumpValue.encode,
          encodeStrings, List.append_assoc]
        rw [loadLen_htonl _ hcount]
        simp only [bind, Except.bind, hread]
        rfl
      · rw [CutisObject.value, hkeys, toFinmap_dictCreate, Finmap.keys_empty, Finset.empty_union,
          DumpValue.value]

theorem loadEntry_encode {db : Database} (hdb : SoundDatabase db)
    (hroom : db.contents.keys.card < 2 ^ 27) {key : Bytes} {v : DumpValue} (rest : Bytes)
    (hkey : key ≠ [] ∧ key.length < 2 ^ 32) (hv : v.Ok)
    (hfits : ∀ members, v.value = .set members → members.card ≤ 2 ^ 27) (hnew : key ∉ db.contents)
    (buf vbuf : Bytes) :
    ∃ db' buf' vbuf', loadEntry malloc v.type db
        { fp := encodeString key ++ (v.encode ++ rest), buf, vbuf } =
      .ok (db', { fp := rest, buf := buf', vbuf := vbuf' }) ∧ SoundDatabase db' ∧
      db'.contents = db.contents.insert key v.value := by
  obtain ⟨buf', hread⟩ := loadKey_encodeString malloc key (v.encode ++ rest) hkey.1 hkey.2 buf vbuf
  obtain ⟨o, vbuf', hobj, ho, hvalue⟩ := loadObject_encode malloc v rest hv hfits buf' vbuf
  have hlimit : ¬db.AtLimit := by
    rw [hdb.card_contents] at hroom
    rw [Dict.AtLimit]
    omega
  obtain ⟨db', hdb', hadd, hcontents⟩ := hdb.dictAdd_ok key ho hlimit
  rw [if_neg hnew] at hadd hcontents
  refine ⟨db', buf', vbuf', ?_, hdb', hvalue ▸ hcontents⟩
  rw [loadEntry, hread]
  simp only [bind, Except.bind, hobj, hadd, reduceCtorEq, if_false]
  rfl

theorem loadItems_item {type : UInt8} (htype : type ≠ CUTIS_EOF ∧ type ≠ CUTIS_SELECT_DB)
    {dbid : Nat} {dict : List Database} {db : Database} (hdict : dict[dbid]? = some db)
    (fuel : Nat) (fp buf vbuf : Bytes) :
    loadItems malloc (fuel + 1) dbid dict { fp := type :: fp, buf, vbuf } =
      (loadEntry malloc type db { fp, buf, vbuf }).bind fun r =>
        loadItems malloc fuel dbid (dict.set dbid r.1) r.2 := by
  rw [loadItems]
  simp only [loadType, bind, Except.bind, pure, Except.pure, htype.1, htype.2, if_false, hdict]

theorem loadItems_opcode {dict : List Database} (fuel current : Nat) (fp buf vbuf : Bytes) :
    loadItems malloc (fuel + 1) current dict { fp := CUTIS_SELECT_DB :: fp, buf, vbuf } =
      (loadLen { fp, buf, vbuf }).bind fun r =>
        if r.1 ≥ dict.length then .error .exit else loadItems malloc fuel r.1 dict r.2 := by
  have hne : CUTIS_SELECT_DB ≠ CUTIS_EOF := by decide
  rw [loadItems]
  simp only [loadType, bind, Except.bind, pure, Except.pure, hne, if_false, if_true]
  cases loadLen { fp, buf, vbuf } with
  | error fault => rfl
  | ok r => rfl

theorem loadItems_select {dbid : Nat} {dict : List Database} (hlt : dbid < dict.length)
    (h32 : dbid < 2 ^ 32) (fuel current : Nat) (fp buf vbuf : Bytes) :
    loadItems malloc (fuel + 1) current dict
        { fp := CUTIS_SELECT_DB :: (htonl dbid ++ fp), buf, vbuf } =
      loadItems malloc fuel dbid dict { fp, buf, vbuf } := by
  rw [loadItems_opcode, loadLen_htonl _ h32]
  exact if_neg (Nat.not_le.mpr hlt)

-- A database without entries.
def EmptyDatabase (db : Database) : Prop := SoundDatabase db ∧ db.contents = ∅

theorem getElem?_dataset (dict : List Database) (id : Nat) :
    (dataset dict)[id]? = dict[id]?.map Dict.contents := List.getElem?_map

-- The loop loads what the items denote, where the tables can hold it.
theorem loadItems_encode (items : List DumpItem) (rest : Bytes) :
    ∀ (fuel dbid : Nat) (dict : List Database) (ds : Dataset) (buf vbuf : Bytes),
      (∀ db ∈ dict, SoundDatabase db) → (∀ item ∈ items, item.Ok dict.length) →
      denote dbid (dataset dict) items = some ds → ds.Fits →
      (items.flatMap DumpItem.encode).length < fuel →
      ∃ dict', loadItems malloc fuel dbid dict
          { fp := items.flatMap DumpItem.encode ++ CUTIS_EOF :: rest, buf, vbuf } = .ok dict' ∧
        dataset dict' = ds := by
  induction items with
  | nil =>
      intro fuel dbid dict ds buf vbuf _ _ hdenote _ hfuel
      obtain ⟨fuel, rfl⟩ := Nat.exists_eq_add_one_of_ne_zero (Nat.ne_of_gt hfuel)
      exact ⟨dict, rfl, Option.some.inj hdenote⟩
  | cons item items ih =>
      intro fuel dbid dict ds buf vbuf hdict hitems hdenote hfits hfuel
      have hitem := hitems item (by simp)
      have hrest : ∀ item ∈ items, item.Ok dict.length := fun item hi => hitems item (by simp [hi])
      rw [List.flatMap_cons, List.length_append] at hfuel
      obtain ⟨fuel, rfl⟩ := Nat.exists_eq_add_one_of_ne_zero (Nat.ne_of_gt (Nat.zero_lt_of_lt hfuel))
      cases item with
      | select id =>
          simp only [DumpItem.encode, List.length_cons] at hfuel
          obtain ⟨dict', hload, hds⟩ := ih fuel id dict ds buf vbuf hdict hrest hdenote hfits (by omega)
          refine ⟨dict', ?_, hds⟩
          rw [List.flatMap_cons, List.append_assoc, DumpItem.encode, List.cons_append,
            loadItems_select malloc hitem.1 hitem.2]
          exact hload
      | entry key v =>
          simp only [DumpItem.encode, List.length_cons] at hfuel
          rw [denote, getElem?_dataset] at hdenote
          cases hget : dict[dbid]? with
          | none =>
              rw [hget] at hdenote
              cases hdenote
          | some db =>
              rw [hget] at hdenote
              dsimp only [Option.map_some] at hdenote
              split_ifs at hdenote with hnew
              have hdb := hdict db (List.mem_of_getElem? hget)
              have hks : (dataset dict)[dbid]? = some db.contents := by
                rw [getElem?_dataset, hget]
                rfl
              obtain ⟨hroom, hset⟩ := room_of_grows hks hnew (denote_grows hdenote) hfits
              obtain ⟨db', buf', vbuf', hload, hdb', hcontents⟩ := loadEntry_encode malloc hdb hroom
                (items.flatMap DumpItem.encode ++ CUTIS_EOF :: rest) hitem.1 hitem.2 hset hnew buf vbuf
              have hdataset : dataset (dict.set dbid db') =
                  (dataset dict).set dbid (db.contents.insert key v.value) := by
                rw [dataset_set, hcontents]
              obtain ⟨dict', hloads, hds⟩ := ih fuel dbid (dict.set dbid db') ds buf' vbuf'
                (forall_mem_set hdict hdb' dbid) (by simpa using hrest) (hdataset ▸ hdenote) hfits
                (by omega)
              refine ⟨dict', ?_, hds⟩
              rw [List.flatMap_cons, List.append_assoc, DumpItem.encode, List.cons_append,
                List.append_assoc, loadItems_item malloc v.type_ne hget, hload]
              exact hloads

end LoadEntries

section Saved

-- The items of a saved file.
def CutisObject.dump : CutisObject → DumpValue
  | .string s => .string s
  | .list l => .list l
  | .set d => .set (d.entries.map DictEntry.key)

def dumpEntry (de : DictEntry Bytes CutisObject) : DumpItem := .entry de.key de.val.dump

def dumpDict (j : Nat) (entries : List (DictEntry Bytes CutisObject)) : List DumpItem :=
  if entries = [] then [] else .select j :: entries.map dumpEntry

def dumpDicts : Nat → List Database → List DumpItem
  | _, [] => []
  | j, dict :: rest => dumpDict j dict.entries ++ dumpDicts (j + 1) rest

theorem encode_dumpEntry (de : DictEntry Bytes CutisObject) :
    (dumpEntry de).encode = encodeEntry de := by
  rw [dumpEntry, DumpItem.encode, encodeEntry]
  cases de.val <;> rfl

theorem encode_dumpDict (j : Nat) (entries : List (DictEntry Bytes CutisObject)) :
    (dumpDict j entries).flatMap DumpItem.encode = encodeDict j entries := by
  rw [dumpDict, encodeDict]
  split_ifs
  · rfl
  · have hmap : (entries.map dumpEntry).flatMap DumpItem.encode = entries.flatMap encodeEntry := by
      rw [List.flatMap_map]
      exact congrArg (List.flatMap · entries) (funext encode_dumpEntry)
    rw [List.flatMap_cons, hmap]
    rfl

theorem encode_dumpDicts (j : Nat) (dict : List Database) :
    (dumpDicts j dict).flatMap DumpItem.encode = encodeDicts j dict := by
  induction dict generalizing j with
  | nil => rfl
  | cons db dict ih =>
      rw [dumpDicts, List.flatMap_append, encode_dumpDict, ih, encodeDicts]

theorem dump_value {o : CutisObject} : o.dump.value = o.value := by
  cases o with
  | set d => rw [CutisObject.dump, DumpValue.value, CutisObject.value, Dict.keys_toFinmap]
  | _ => rfl

theorem dump_ok {o : CutisObject} (h : o.Storable) : o.dump.Ok := by
  have hlt : (2 : Nat) ^ 31 < 2 ^ 32 := by decide
  cases o with
  | string s => exact Nat.lt_trans h hlt
  | list l => exact ⟨Nat.lt_trans h.1 hlt, fun s hs => Nat.lt_trans (h.2 s hs) hlt⟩
  | set d =>
      obtain ⟨hinv, hsize, hlen⟩ := h
      refine ⟨⟨?_, fun s hs => ?_⟩, hinv.nodup⟩
      · rw [List.length_map, ← hinv.used_eq]
        exact Nat.lt_of_le_of_lt hinv.used_le (Nat.lt_trans hsize hlt)
      · obtain ⟨he, hhe, rfl⟩ := List.mem_map.mp hs
        exact Nat.lt_trans (hlen he hhe) hlt

theorem dumpDicts_ok {n : Nat} (hn : n < 2 ^ 31) (dict : List Database) (j : Nat)
    (hj : j + dict.length ≤ n) (hdict : ∀ db ∈ dict, StorableDatabase db) :
    ∀ item ∈ dumpDicts j dict, item.Ok n := by
  induction dict generalizing j with
  | nil => exact nofun
  | cons db dict ih =>
      rw [List.length_cons] at hj
      intro item hitem
      rcases List.mem_append.mp hitem with hitem | hitem
      · rw [dumpDict] at hitem
        split_ifs at hitem
        · cases hitem
        · rcases List.mem_cons.mp hitem with rfl | hitem
          · exact ⟨by omega, by omega⟩
          · obtain ⟨he, hhe, rfl⟩ := List.mem_map.mp hitem
            have hdb := hdict db (by simp)
            obtain ⟨hkey, hlen⟩ := hdb.keys he hhe
            exact ⟨⟨hkey, by omega⟩, dump_ok (hdb.objects he hhe)⟩
      · exact ih (j + 1) (by omega) (fun db hdb => hdict db (by simp [hdb])) item hitem

-- The entries of one database, after those done are already in.
theorem denote_entries {dbid : Nat} (todo : List (DictEntry Bytes CutisObject))
    (items : List DumpItem) :
    ∀ (done : List (DictEntry Bytes CutisObject)) (ds : Dataset),
      ds[dbid]? = some (FiniteMap.ofPairs (contentPairs done)) →
      ((done ++ todo).map DictEntry.key).Nodup →
      denote dbid ds (todo.map dumpEntry ++ items) =
        denote dbid (ds.set dbid (FiniteMap.ofPairs (contentPairs (done ++ todo)))) items := by
  induction todo with
  | nil =>
      intro done ds hget _
      obtain ⟨hlt, hks⟩ := List.getElem?_eq_some_iff.mp hget
      rw [List.append_nil, ← hks, List.set_getElem_self]
      rfl
  | cons de todo ih =>
      intro done ds hget hnodup
      have hassoc : done ++ de :: todo = (done ++ [de]) ++ todo := by simp
      rw [hassoc] at hnodup ⊢
      have hnodup' : ((contentPairs done ++ [(de.key, de.val.value)]).map Prod.fst).Nodup := by
        rw [List.map_append, List.nodup_append] at hnodup
        simpa [contentPairs, Function.comp_def] using hnodup.1
      have hnew : de.key ∉ FiniteMap.ofPairs (contentPairs done) := by
        rw [FiniteMap.mem_ofPairs]
        rw [List.map_append, List.nodup_append] at hnodup'
        exact fun hmem => hnodup'.2.2 _ hmem _ (by simp) rfl
      have hinsert : (FiniteMap.ofPairs (contentPairs done)).insert de.key de.val.value =
          FiniteMap.ofPairs (contentPairs (done ++ [de])) := by
        rw [← FiniteMap.ofPairs_append_singleton hnodup']
        simp [contentPairs]
      have hlt := (List.getElem?_eq_some_iff.mp hget).1
      rw [List.map_cons, List.cons_append, dumpEntry, denote, hget]
      dsimp only
      rw [if_neg hnew, dump_value, hinsert, ih (done ++ [de]) _ (List.getElem?_set_self hlt) hnodup,
        List.set_set]

-- The databases from number j on, after those before it.
theorem denote_dicts (dict : List Database) :
    ∀ (done : Dataset) (dbid : Nat), (∀ db ∈ dict, (db.entries.map DictEntry.key).Nodup) →
      denote dbid (done ++ List.replicate dict.length ∅) (dumpDicts done.length dict) =
        some (done ++ dataset dict) := by
  induction dict with
  | nil => exact fun done dbid _ => rfl
  | cons db dict ih =>
      intro done dbid hnodup
      have hrest : ∀ db ∈ dict, (db.entries.map DictEntry.key).Nodup := fun d hd =>
        hnodup d (by simp [hd])
      have hnext (dbid' : Nat) (ks : Keyspace) (hks : ks = db.contents) :
          denote dbid' (done ++ ks :: List.replicate dict.length ∅)
            (dumpDicts (done.length + 1) dict) = some (done ++ dataset (db :: dict)) := by
        have hdone := ih (done ++ [ks]) dbid' hrest
        rw [List.length_append, List.length_singleton] at hdone
        rw [List.append_cons, hdone, hks]
        simp [dataset]
      rw [List.length_cons, List.replicate_succ, dumpDicts, dumpDict]
      split_ifs with hnil
      · refine hnext dbid ∅ ?_
        rw [contents_eq_ofPairs, hnil]
        rfl
      · have hget : (done ++ ∅ :: List.replicate dict.length ∅)[done.length]? =
            some (FiniteMap.ofPairs (contentPairs [])) := by simp [contentPairs]
        rw [List.cons_append, denote, denote_entries db.entries _ [] _ hget (hnodup db (by simp)),
          List.set_append_right _ _ (Nat.le_refl _), Nat.sub_self, List.set_cons_zero]
        exact hnext done.length _ (contents_eq_ofPairs db).symm

theorem denotes_encodeFile {dict : List Database} (hint : dict.length < 2 ^ 31)
    (hdict : ∀ db ∈ dict, StorableDatabase db) :
    Denotes dict.length (encodeFile dict) (dataset dict) := by
  refine ⟨dumpDicts 0 dict, [], ?_, dumpDicts_ok hint dict 0 (by omega) hdict, ?_⟩
  · rw [encodeFile, encode_dumpDicts]
  · exact denote_dicts dict [] 0 fun db hdb => (hdict db hdb).nodup

theorem fits_dataset {dict : List Database}
    (hdict : ∀ db ∈ dict, StorableDatabase db ∧ FitsDatabase db) : (dataset dict).Fits := by
  intro ks hks
  obtain ⟨db, hdb, rfl⟩ := List.mem_map.mp hks
  obtain ⟨hstorable, hused, hfits⟩ := hdict db hdb
  constructor
  · rw [Dict.contents, FiniteMap.keys_mapVals, hstorable.card_keys]
    exact hused
  · intro key members hlook
    rw [Dict.lookup_contents, Option.map_eq_some_iff] at hlook
    obtain ⟨o, ho, hvalue⟩ := hlook
    have hhe := (hstorable.lookup_eq_some_iff key o).mp ho
    cases o with
    | string | list => cases hvalue
    | set d =>
        have hd : d.used ≤ 2 ^ 27 := hfits _ hhe
        have hstored := (hstorable.objects _ hhe).1
        obtain rfl := Value.set.inj hvalue
        rw [hstored.card_keys]
        exact hd

end Saved

section Returns

-- What a load that returns leaves behind.
variable {malloc : Nat → Bytes}

theorem loadSetElements_sound {llen : Nat} {set set' : Dict Bytes Unit} {s s' : LoadState}
    (hset : set.Sound SetDictType) (h : loadSetElements malloc llen set s = .ok (set', s')) :
    set'.Sound SetDictType := by
  induction llen generalizing set s with
  | zero =>
      cases h
      exact hset
  | succ llen ih =>
      rw [loadSetElements] at h
      obtain ⟨⟨el, s₁⟩, -, h⟩ := bind_eq_ok.mp h
      obtain ⟨⟨set₁, status⟩, hadd, h⟩ := bind_eq_ok.mp h
      simp only at h
      split_ifs at h
      · cases h
      · exact ih (hset.dictAdd_returns setDictType_lawful hadd) h

theorem loadObject_sound {type : UInt8} {o : CutisObject} {s s' : LoadState}
    (h : loadObject malloc type s = .ok (o, s')) : o.Sound := by
  unfold loadObject at h
  split_ifs at h
  · obtain ⟨⟨val, s₁⟩, -, h⟩ := bind_eq_ok.mp h
    cases h
    trivial
  · obtain ⟨⟨llen, s₁⟩, -, h⟩ := bind_eq_ok.mp h
    obtain ⟨⟨l, s₂⟩, -, h⟩ := bind_eq_ok.mp h
    cases h
    trivial
  · obtain ⟨⟨llen, s₁⟩, -, h⟩ := bind_eq_ok.mp h
    obtain ⟨⟨set, s₂⟩, hload, h⟩ := bind_eq_ok.mp h
    cases h
    exact loadSetElements_sound (sound_dictCreate _) hload

theorem loadEntry_sound {type : UInt8} {db db' : Database} {s s' : LoadState}
    (hdb : SoundDatabase db) (h : loadEntry malloc type db s = .ok (db', s')) :
    SoundDatabase db' := by
  rw [loadEntry] at h
  obtain ⟨⟨key, s₁⟩, -, h⟩ := bind_eq_ok.mp h
  obtain ⟨⟨o, s₂⟩, hobj, h⟩ := bind_eq_ok.mp h
  obtain ⟨⟨db₁, retval⟩, hadd, h⟩ := bind_eq_ok.mp h
  simp only at h
  split_ifs at h
  · cases h
  · cases h
    exact hdb.dictAdd_returns (loadObject_sound hobj) hadd

theorem loadItems_sound {fuel dbid : Nat} {dict dict' : List Database} {s : LoadState}
    (hdict : ∀ db ∈ dict, SoundDatabase db) (h : loadItems malloc fuel dbid dict s = .ok dict') :
    ∀ db ∈ dict', SoundDatabase db := by
  induction fuel generalizing dbid dict s with
  | zero => cases h
  | succ fuel ih =>
      rw [loadItems] at h
      obtain ⟨⟨type, s₁⟩, -, h⟩ := bind_eq_ok.mp h
      simp only at h
      split_ifs at h
      · cases h
        exact hdict
      · obtain ⟨⟨dbid', s₂⟩, -, h⟩ := bind_eq_ok.mp h
        simp only at h
        split_ifs at h
        · cases h
        · exact ih hdict h
      · cases hget : dict[dbid]? with
        | none =>
            rw [hget] at h
            cases h
        | some db =>
            rw [hget] at h
            obtain ⟨⟨db', s₂⟩, hload, h⟩ := bind_eq_ok.mp h
            have hdb' := loadEntry_sound (hdict _ (List.mem_of_getElem? hget)) hload
            exact ih (forall_mem_set hdict hdb' dbid) h

end Returns

end Cutis

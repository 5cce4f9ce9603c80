import Cutis.Server.RoundTrip

namespace Cutis

section Exact

variable {malloc : Nat → Bytes} {s s' : LoadState}

theorem htonl_ntohl (b3 b2 b1 b0 : UInt8) : htonl (ntohl [b3, b2, b1, b0]) = [b3, b2, b1, b0] := by
  have h3 := b3.toNat_lt
  have h2 := b2.toNat_lt
  have h1 := b1.toNat_lt
  have h0 := b0.toNat_lt
  have hbyte (n : Nat) (b : UInt8) (h : n % 256 = b.toNat) : n.toUInt8 = b := by
    apply UInt8.toNat_inj.mp
    simpa using h
  simp only [htonl, ntohl]
  rw [hbyte _ b3 (by omega), hbyte _ b2 (by omega), hbyte _ b1 (by omega), hbyte _ b0 (by omega)]

theorem loadLen_exact {n : Nat} (h : loadLen s = .ok (n, s')) :
    n < 2 ^ 32 ∧ s.fp = htonl n ++ s'.fp := by
  rw [loadLen] at h
  split_ifs at h with hlen
  cases h
  obtain ⟨b3, b2, b1, b0, rest, hfp⟩ : ∃ b3 b2 b1 b0 rest, s.fp = b3 :: b2 :: b1 :: b0 :: rest := by
    generalize s.fp = fp at hlen
    rcases fp with _ | ⟨b3, _ | ⟨b2, _ | ⟨b1, _ | ⟨b0, rest⟩⟩⟩⟩
    all_goals simp at hlen ⊢
  have h3 := b3.toNat_lt
  have h2 := b2.toNat_lt
  have h1 := b1.toNat_lt
  have h0 := b0.toNat_lt
  have htake : (b3 :: b2 :: b1 :: b0 :: rest).take 4 = [b3, b2, b1, b0] := rfl
  have hdrop : (b3 :: b2 :: b1 :: b0 :: rest).drop 4 = rest := rfl
  rw [hfp, htake, hdrop, htonl_ntohl]
  refine ⟨?_, rfl⟩
  simp only [ntohl]
  omega

-- A read that comes back took all it was asked for, or reached the end of the file.
theorem loadBytes_exact {n : Nat} {buf fp bytes buf' fp' : Bytes}
    (h : loadBytes malloc n buf fp = .ok (bytes, buf', fp')) :
    fp' = [] ∨ (bytes ≠ [] ∧ bytes.length = n ∧ fp = bytes ++ fp') := by
  by_cases hlen : fp.length ≤ n
  · refine Or.inl ?_
    have hdrop : fp.drop n = [] := List.drop_eq_nil_of_le hlen
    simp only [loadBytes] at h
    split_ifs at h <;> cases h <;> exact hdrop
  · refine Or.inr ?_
    have hgot : (fp.take n).length = n := List.length_take_of_le (Nat.le_of_not_le hlen)
    have htake (tail : Bytes) : (fp.take n ++ tail).take n = fp.take n :=
      List.take_left' hgot
    simp only [loadBytes, htake] at h
    split_ifs at h with hne <;> cases h <;> exact ⟨hne, hgot, (List.take_append_drop n fp).symm⟩

theorem loadString_exact {val : Bytes} (h : loadString malloc s = .ok (val, s')) :
    s'.fp = [] ∨ (val.length < 2 ^ 32 ∧ s.fp = encodeString val ++ s'.fp) := by
  rw [loadString] at h
  obtain ⟨⟨vlen, s₁⟩, hlen, h⟩ := bind_eq_ok.mp h
  obtain ⟨hlt, hfp⟩ := loadLen_exact hlen
  simp only at h
  split_ifs at h with hpos
  · obtain ⟨⟨val', vbuf, fp⟩, hread, h⟩ := bind_eq_ok.mp h
    cases h
    rcases loadBytes_exact hread with hend | ⟨-, hval, hrest⟩
    · exact Or.inl hend
    · refine Or.inr ⟨hval ▸ hlt, ?_⟩
      rw [hfp, hrest, encodeString, hval, List.append_assoc]
  · cases h
    obtain rfl : vlen = 0 := Nat.eq_zero_of_not_pos hpos
    exact Or.inr ⟨by decide, hfp⟩

theorem loadKey_exact {key : Bytes} (h : loadKey malloc s = .ok (key, s')) :
    s'.fp = [] ∨ ((key ≠ [] ∧ key.length < 2 ^ 32) ∧ s.fp = encodeString key ++ s'.fp) := by
  rw [loadKey] at h
  obtain ⟨⟨klen, s₁⟩, hlen, h⟩ := bind_eq_ok.mp h
  obtain ⟨hlt, hfp⟩ := loadLen_exact hlen
  obtain ⟨⟨key', buf, fp⟩, hread, h⟩ := bind_eq_ok.mp h
  cases h
  rcases loadBytes_exact hread with hend | ⟨hne, hkey, hrest⟩
  · exact Or.inl hend
  · refine Or.inr ⟨⟨hne, hkey ▸ hlt⟩, ?_⟩
    rw [hfp, hrest, encodeString, hkey, List.append_assoc]

-- Elements read one behind the other, the last one perhaps cut off.
theorem loadListElements_exact {llen : Nat} {l l' : List Bytes}
    (h : loadListElements malloc llen l s = .ok (l', s')) :
    s'.fp = [] ∨ ∃ elements : List Bytes, l' = l ++ elements ∧ elements.length = llen ∧
      (∀ el ∈ elements, el.length < 2 ^ 32) ∧ s.fp = elements.flatMap encodeString ++ s'.fp := by
  induction llen generalizing l s with
  | zero =>
      cases h
      exact Or.inr ⟨[], (List.append_nil _).symm, rfl, nofun, rfl⟩
  | succ llen ih =>
      rw [loadListElements] at h
      obtain ⟨⟨el, s₁⟩, hel, h⟩ := bind_eq_ok.mp h
      rcases ih h with hend | ⟨elements, rfl, hlen, hshort, hfp⟩
      · exact Or.inl hend
      · rcases loadString_exact hel with hend | ⟨hlt, hel⟩
        · rw [hend] at hfp
          exact Or.inl (List.append_eq_nil_iff.mp hfp.symm).2
        · refine Or.inr ⟨el :: elements, by simp, by simp [hlen], ?_, ?_⟩
          · exact List.forall_mem_cons.mpr ⟨hlt, hshort⟩
          · rw [hel, hfp, List.flatMap_cons, List.append_assoc]

-- An addition that succeeds is one of a new member.
theorem dictAdd_new {set set' : Dict Bytes Unit} {el : Bytes} {status : DictStatus}
    (hset : set.Sound SetDictType) (hadd : dictAdd SetDictType set el () = .ok (set', status))
    (hstatus : status ≠ .DICT_ERR) :
    set'.Sound SetDictType ∧ el ∉ set.toFinmap ∧
      set'.toFinmap.keys = insert el set.toFinmap.keys := by
  by_cases hlimit : set.AtLimit
  · obtain ⟨fault, hfault⟩ := hset.dictAdd_fault el () hlimit
    cases hfault.symm.trans hadd
  · obtain ⟨set₁, hset₁, hok, hmap⟩ := hset.dictAdd_ok setDictType_lawful el () hlimit
    cases hok.symm.trans hadd
    by_cases hel : el ∈ set.toFinmap
    · rw [if_pos hel] at hstatus
      exact absurd rfl hstatus
    · rw [if_neg hel] at hmap
      exact ⟨hset₁, hel, by rw [hmap, FiniteMap.keys_insert]⟩

theorem loadSetElements_exact {llen : Nat} {set set' : Dict Bytes Unit}
    (hset : set.Sound SetDictType) (h : loadSetElements malloc llen set s = .ok (set', s')) :
    s'.fp = [] ∨ ∃ elements : List Bytes, elements.length = llen ∧
      (∀ el ∈ elements, el.length < 2 ^ 32) ∧ elements.Nodup ∧
      (∀ el ∈ elements, el ∉ set.toFinmap.keys) ∧
      set'.toFinmap.keys = set.toFinmap.keys ∪ elements.toFinset ∧
      s.fp = elements.flatMap encodeString ++ s'.fp := by
  induction llen generalizing set s with
  | zero =>
      cases h
      exact Or.inr ⟨[], rfl, nofun, List.nodup_nil, nofun, by simp, rfl⟩
  | succ llen ih =>
      rw [loadSetElements] at h
      obtain ⟨⟨el, s₁⟩, hel, h⟩ := bind_eq_ok.mp h
      obtain ⟨⟨set₁, status⟩, hadd, h⟩ := bind_eq_ok.mp h
      simp only at h
      split_ifs at h with hstatus
      · cases h
      · obtain ⟨hset₁, hnew, hkeys⟩ := dictAdd_new hset hadd hstatus
        rcases ih hset₁ h with hend | ⟨elements, hlen, hshort, hnodup, hnews, hkeys', hfp⟩
        · exact Or.inl hend
        · rcases loadString_exact hel with hend | ⟨hlt, hel⟩
          · rw [hend] at hfp
            exact Or.inl (List.append_eq_nil_iff.mp hfp.symm).2
          · rw [hkeys] at hnews hkeys'
            have helements : el ∉ elements := fun hmem => hnews el hmem (Finset.mem_insert_self _ _)
            refine Or.inr ⟨el :: elements, by simp [hlen], List.forall_mem_cons.mpr ⟨hlt, hshort⟩,
              List.nodup_cons.mpr ⟨helements, hnodup⟩, List.forall_mem_cons.mpr ⟨?_, ?_⟩, ?_, ?_⟩
            · rwa [Finmap.mem_keys]
            · exact fun other hmem hin => hnews other hmem (Finset.mem_insert_of_mem hin)
            · rw [hkeys', List.toFinset_cons, Finset.insert_union, Finset.union_insert]
            · rw [hel, hfp, List.flatMap_cons, List.append_assoc]

theorem loadObject_exact {type : UInt8} {o : CutisObject}
    (h : loadObject malloc type s = .ok (o, s')) :
    s'.fp = [] ∨ ∃ v : DumpValue, v.type = type ∧ v.Ok ∧ o.value = v.value ∧
      s.fp = v.encode ++ s'.fp := by
  unfold loadObject at h
  split_ifs at h with hstring hlist hset
  · obtain ⟨⟨val, s₁⟩, hval, h⟩ := bind_eq_ok.mp h
    cases h
    rcases loadString_exact hval with hend | ⟨hlt, hfp⟩
    · exact Or.inl hend
    · exact Or.inr ⟨.string val, hstring.symm, hlt, rfl, hfp⟩
  · obtain ⟨⟨llen, s₁⟩, hlen, h⟩ := bind_eq_ok.mp h
    obtain ⟨⟨l, s₂⟩, hl, h⟩ := bind_eq_ok.mp h
    cases h
    obtain ⟨hlt, hfp₁⟩ := loadLen_exact hlen
    rcases loadListElements_exact hl with hend | ⟨elements, hl', rfl, hshort, hfp⟩
    · exact Or.inl hend
    · obtain rfl : l = elements := hl'
      refine Or.inr ⟨.list l, hlist.symm, ⟨hlt, hshort⟩, rfl, ?_⟩
      rw [hfp₁, hfp, DumpValue.encode, encodeStrings, List.append_assoc]
  · obtain ⟨⟨llen, s₁⟩, hlen, h⟩ := bind_eq_ok.mp h
    obtain ⟨⟨set, s₂⟩, hload, h⟩ := bind_eq_ok.mp h
    cases h
    obtain ⟨hlt, hfp₁⟩ := loadLen_exact hlen
    rcases loadSetElements_exact (sound_dictCreate _) hload with
      hend | ⟨elements, rfl, hshort, hnodup, -, hkeys, hfp⟩
    · exact Or.inl hend
    · refine Or.inr ⟨.set elements, hset.symm, ⟨⟨hlt, hshort⟩, hnodup⟩, ?_, ?_⟩
      · rw [CutisObject.value, hkeys, toFinmap_dictCreate, Finmap.keys_empty, Finset.empty_union,
          DumpValue.value]
      · rw [hfp₁, hfp, DumpValue.encode, encodeStrings, List.append_assoc]

theorem loadEntry_exact {type : UInt8} {db db' : Database} (hdb : SoundDatabase db)
    (h : loadEntry malloc type db s = .ok (db', s')) :
    s'.fp = [] ∨ ∃ key v, type = v.type ∧ (DumpItem.entry key v).Ok 0 ∧ key ∉ db.contents ∧
      db'.contents = db.contents.insert key v.value ∧
      s.fp = encodeString key ++ (v.encode ++ s'.fp) := by
  rw [loadEntry] at h
  obtain ⟨⟨key, s₁⟩, hkey, h⟩ := bind_eq_ok.mp h
  obtain ⟨⟨o, s₂⟩, hobj, h⟩ := bind_eq_ok.mp h
  obtain ⟨⟨db₁, retval⟩, hadd, h⟩ := bind_eq_ok.mp h
  simp only at h
  split_ifs at h with hretval
  · cases h
  · cases h
    rcases loadObject_exact hobj with hend | ⟨v, hv, hvok, hvalue, hfp⟩
    · exact Or.inl hend
    rcases loadKey_exact hkey with hend | ⟨hkeyok, hfp₁⟩
    · rw [hend] at hfp
      exact Or.inl (List.append_eq_nil_iff.mp hfp.symm).2
    have ho := loadObject_sound hobj
    by_cases hlimit : db.AtLimit
    · obtain ⟨fault, hfault⟩ := hdb.dictAdd_fault key o hlimit
      cases hfault.symm.trans hadd
    · obtain ⟨db₂, -, hok, hcontents⟩ := hdb.dictAdd_ok key ho hlimit
      cases hok.symm.trans hadd
      by_cases hmem : key ∈ db.contents
      · rw [if_pos hmem] at hretval
        exact absurd rfl hretval
      · rw [if_neg hmem, hvalue] at hcontents
        exact Or.inr ⟨key, v, hv.symm, ⟨hkeyok, hvok⟩, hmem, hcontents, hfp₁.trans (by rw [hfp])⟩

theorem loadItems_ended {fuel dbid : Nat} {dict dict' : List Database} (hend : s.fp = []) :
    loadItems malloc fuel dbid dict s ≠ .ok dict' := by
  intro h
  cases fuel with
  | zero => cases h
  | succ fuel =>
      rw [loadItems, loadType, hend] at h
      cases h

-- A load that comes back has read items up to an end mark.
theorem loadItems_exact {fuel dbid : Nat} {dict dict' : List Database}
    (hdict : ∀ db ∈ dict, SoundDatabase db) (h : loadItems malloc fuel dbid dict s = .ok dict') :
    ∃ items rest, s.fp = items.flatMap DumpItem.encode ++ CUTIS_EOF :: rest ∧
      (∀ item ∈ items, item.Ok dict.length) ∧
      denote dbid (dataset dict) items = some (dataset dict') := by
  induction fuel generalizing dbid dict s with
  | zero => cases h
  | succ fuel ih =>
      obtain ⟨fp, buf, vbuf⟩ := s
      cases fp with
      | nil => exact absurd h (loadItems_ended rfl)
      | cons type fp =>
          by_cases heof : type = CUTIS_EOF
          · subst heof
            rw [loadItems] at h
            cases h
            exact ⟨[], fp, rfl, List.forall_mem_nil _, rfl⟩
          by_cases hselect : type = CUTIS_SELECT_DB
          · subst hselect
            rw [loadItems_opcode] at h
            obtain ⟨⟨id, s₁⟩, hlen, h⟩ := bind_eq_ok.mp h
            obtain ⟨hlt, hfp⟩ := loadLen_exact hlen
            simp only at h
            split_ifs at h with hid
            obtain ⟨items, rest, hrest, hitems, hdenote⟩ := ih hdict h
            refine ⟨.select id :: items, rest, ?_, ?_, hdenote⟩
            · have hfp : fp = htonl id ++ s₁.fp := hfp
              rw [hfp, hrest, List.flatMap_cons, DumpItem.encode]
              simp
            · exact List.forall_mem_cons.mpr ⟨⟨Nat.lt_of_not_le hid, hlt⟩, hitems⟩
          · cases hget : dict[dbid]? with
            | none =>
                rw [loadItems] at h
                simp [loadType, bind, Except.bind, pure, Except.pure, heof, hselect, hget] at h
            | some db =>
                rw [loadItems_item malloc ⟨heof, hselect⟩ hget] at h
                obtain ⟨⟨db', s₁⟩, hload, hloads⟩ := bind_eq_ok.mp h
                have hdb := hdict db (List.mem_of_getElem? hget)
                rcases loadEntry_exact hdb hload with
                  hend | ⟨key, v, rfl, hok, hnew, hcontents, hfp⟩
                · exact absurd hloads (loadItems_ended hend)
                · have hdict' := forall_mem_set hdict (loadEntry_sound hdb hload) dbid
                  have hdataset : dataset (dict.set dbid db') =
                      (dataset dict).set dbid (db.contents.insert key v.value) := by
                    rw [dataset_set, hcontents]
                  obtain ⟨items, rest, hrest, hitems, hdenote⟩ := ih hdict' hloads
                  rw [hdataset] at hdenote
                  refine ⟨.entry key v :: items, rest, ?_, ?_, ?_⟩
                  · have hfp : fp = encodeString key ++ (v.encode ++ s₁.fp) := hfp
                    rw [hfp, hrest, List.flatMap_cons, DumpItem.encode]
                    simp
                  · exact List.forall_mem_cons.mpr ⟨hok, by simpa using hitems⟩
                  · rw [denote, getElem?_dataset, hget]
                    dsimp only [Option.map_some]
                    rw [if_neg hnew]
                    exact hdenote

end Exact

section Accepts

-- What LoadDB accepts are the files of the grammar, and the databases then hold what
-- the items denote.
def AcceptsGrammar (server : CutisServer) (file : Bytes) : Prop :=
  ∀ (malloc : Nat → Bytes) (buf vbuf : Bytes),
    ((∃ loaded, loadDB malloc buf vbuf server (some file) = .ok (loaded, .CUTIS_OK)) ↔
        ∃ ds, Denotes server.db_num file ds) ∧
      ∀ loaded, loadDB malloc buf vbuf server (some file) = .ok (loaded, .CUTIS_OK) →
        Denotes server.db_num file (dataset loaded.dict)

variable {server : CutisServer} (hempty : ∀ db ∈ server.dict, EmptyDatabase db)

include hempty

theorem denotes_of_loadDB {malloc : Nat → Bytes} {buf vbuf file : Bytes} {loaded : CutisServer}
    (h : loadDB malloc buf vbuf server (some file) = .ok (loaded, .CUTIS_OK)) :
    Denotes server.db_num file (dataset loaded.dict) := by
  simp only [loadDB] at h
  obtain ⟨⟨signature, buf', fp⟩, hsig, h⟩ := bind_eq_ok.mp h
  simp only at h
  split_ifs at h with hcmp
  · cases h
  · obtain ⟨dict, hload, h⟩ := bind_eq_ok.mp h
    cases h
    obtain ⟨items, rest, hfp, hitems, hdenote⟩ := loadItems_exact (fun db hdb => (hempty db hdb).1) hload
    rw [dataset_empty hempty] at hdenote
    refine ⟨items, rest, ?_, hitems, hdenote⟩
    have hfp : fp = items.flatMap DumpItem.encode ++ CUTIS_EOF :: rest := hfp
    rcases loadBytes_exact hsig with hend | ⟨-, hlen, hfile⟩
    · exact absurd hload (loadItems_ended hend)
    · have hsame : signature = CUTIS_DB_SIGNATURE := (memcmp_eq_zero_iff _ _ hlen).mp (not_not.mp hcmp)
      rw [hfile, hsame, hfp]

theorem fits_of_accepts {file : Bytes} (h : AcceptsGrammar server file) {ds : Dataset}
    (hds : Denotes server.db_num file ds) : ds.Fits := by
  obtain ⟨hiff, -⟩ := h (fun _ => []) [] []
  obtain ⟨loaded, hload⟩ := hiff.mpr ⟨ds, hds⟩
  have hsound := loadDB_sound (fun db hdb => (hempty db hdb).1) hload
  obtain rfl := denotes_unique hds (denotes_of_loadDB hempty hload)
  intro ks hks
  obtain ⟨db, hdb, rfl⟩ := List.mem_map.mp hks
  have hdb := hsound db hdb
  constructor
  · rw [hdb.card_contents]
    exact hdb.used_le_limit
  · intro key members hlook
    rw [Dict.lookup_contents, Option.map_eq_some_iff] at hlook
    obtain ⟨o, ho, hvalue⟩ := hlook
    have hobject := hdb.lookup_sound ho
    cases o with
    | string | list => cases hvalue
    | set d =>
        have hd : d.Sound SetDictType := hobject
        obtain rfl := Value.set.inj hvalue
        rw [hd.toInv.card_keys]
        exact hd.used_le_limit

-- A part of a saved file has no end mark where it would have to be.
theorem not_loadDB_prefix {dict : List Database} (hint : dict.length < 2 ^ 31)
    (hdict : ∀ db ∈ dict, StorableDatabase db) {part : Bytes} (hpart : part <+: encodeFile dict)
    (hne : part ≠ encodeFile dict) {malloc : Nat → Bytes} {buf vbuf : Bytes} {loaded : CutisServer} :
    loadDB malloc buf vbuf server (some part) ≠ .ok (loaded, .CUTIS_OK) := by
  intro h
  obtain ⟨items, rest, hfile, hitems, -⟩ := denotes_of_loadDB hempty h
  obtain ⟨tail, htail⟩ := hpart
  have hall : CUTIS_DB_SIGNATURE ++
        (items.flatMap DumpItem.encode ++ CUTIS_EOF :: (rest ++ tail)) =
      CUTIS_DB_SIGNATURE ++ ((dumpDicts 0 dict).flatMap DumpItem.encode ++ CUTIS_EOF :: []) := by
    rw [encode_dumpDicts, ← encodeFile, ← htail, hfile]
    simp
  have hsaved := dumpDicts_ok hint dict 0 (by omega) hdict
  obtain ⟨-, hnil⟩ := items_unique (max server.db_num dict.length)
    (fun item hi => (hitems item hi).mono (Nat.le_max_left _ _))
    (fun item hi => (hsaved item hi).mono (Nat.le_max_right _ _)) (List.append_cancel_left hall)
  rw [(List.append_eq_nil_iff.mp hnil).2, List.append_nil] at htail
  exact hne htail

-- LoadDB accepts the grammar, where the tables can hold what the file denotes; and no
-- strict part of a saved file is accepted.
theorem acceptsGrammar_iff (file : Bytes) :
    (AcceptsGrammar server file ↔ ∀ ds, Denotes server.db_num file ds → ds.Fits) ∧
      ∀ (saved : CutisServer) (io : Stdio) (fs : FileSystem) (content part : Bytes),
        saved.db_num < 2 ^ 31 → (∀ db ∈ saved.dict, StorableDatabase db) → io.Succeeds saved.dict →
        (saveDB io fs saved CUTIS_DB_NAME).2.1 CUTIS_DB_NAME = some content →
        part <+: content → part ≠ content →
        ∀ malloc buf vbuf loaded,
          loadDB malloc buf vbuf server (some part) ≠ .ok (loaded, .CUTIS_OK) := by
  constructor
  · constructor
    · exact fun h ds hds => fits_of_accepts hempty h hds
    · intro hfits malloc buf vbuf
      refine ⟨⟨?_, ?_⟩, fun loaded h => denotes_of_loadDB hempty h⟩
      · exact fun ⟨loaded, h⟩ => ⟨_, denotes_of_loadDB hempty h⟩
      · rintro ⟨ds, hds⟩
        obtain ⟨loaded, hload, -⟩ := loadDB_of_denotes malloc buf vbuf hempty hds (hfits ds hds)
        exact ⟨loaded, hload⟩
  · intro saved io fs content part hint hdict hio hsaved hpart hne malloc buf vbuf loaded
    rw [saveDB_succeeds hdict hio fs] at hsaved
    obtain rfl := Option.some.inj hsaved
    exact not_loadDB_prefix hempty hint hdict hpart hne

omit hempty

-- A dump of a string, a list and a set, and its parts.
theorem acceptsGrammar_mixed :
    AcceptsGrammar (initServer 2 [] 0) (encodeFile mixedServer.dict) ∧
      ∀ n < (encodeFile mixedServer.dict).length, ∀ malloc buf vbuf loaded,
        loadDB malloc buf vbuf (initServer 2 [] 0)
          (some ((encodeFile mixedServer.dict).take n)) ≠ .ok (loaded, .CUTIS_OK) := by
  have hempty := emptyDatabase_initServer 2 [] 0
  have hstorable : ∀ db ∈ mixedServer.dict, StorableDatabase db :=
    fun db hdb => (storable_mixedServer db hdb).1
  have hdenotes : Denotes (initServer 2 [] 0).db_num (encodeFile mixedServer.dict)
      (dataset mixedServer.dict) := denotes_encodeFile (by decide) hstorable
  constructor
  · refine (acceptsGrammar_iff hempty _).1.mpr fun ds hds => ?_
    obtain rfl := denotes_unique hdenotes hds
    exact fits_dataset storable_mixedServer
  · intro n hn
    have hio := idealStdio_succeeds mixedServer.dict
    refine (acceptsGrammar_iff hempty []).2 mixedServer _ (fun _ => none) _ _ (by decide) hstorable
      hio (saveDB_succeeds hstorable hio _) (List.take_prefix n _) fun hall => ?_
    have hlen := congrArg List.length hall
    rw [List.length_take] at hlen
    omega

-- A database with the decimals below n as keys.
theorem decimals_within {n k : Nat} (hdb : StorableDatabase (tableOf sdsDictType k (decimalEntries n))) :
    (dataset [tableOf sdsDictType k (decimalEntries n)]).Within n ∧
      (tableOf sdsDictType k (decimalEntries n)).contents.keys.card = n := by
  have hcard : (tableOf sdsDictType k (decimalEntries n)).contents.keys.card = n := by
    rw [Dict.contents, FiniteMap.keys_mapVals, hdb.card_keys, used_decimalEntries]
  refine ⟨fun ks hks => ?_, hcard⟩
  obtain rfl := List.mem_singleton.mp hks
  refine ⟨Nat.le_of_eq hcard, fun key members hlook => ?_⟩
  rw [Dict.lookup_contents, Option.map_eq_some_iff] at hlook
  obtain ⟨o, ho, hvalue⟩ := hlook
  have hmem := (tableOf_entries _ _ _).mem_iff.mp ((hdb.lookup_eq_some_iff key o).mp ho)
  obtain ⟨i, -, hentry⟩ := List.mem_map.mp hmem
  cases hentry
  cases hvalue

theorem not_accepts_decimals {n : Nat} (hlo : 2 ^ 27 < n) (hhi : n ≤ 2 ^ 28) :
    ∃ file ds, Denotes 1 file ds ∧ ds.Within n ∧ ¬AcceptsGrammar (initServer 1 [] 0) file := by
  have hdb := storableDatabase_decimalEntries (k := 28) (by omega) (by omega) hhi
  obtain ⟨hwithin, hcard⟩ := decimals_within hdb
  have hdenotes : Denotes 1 (encodeFile [tableOf sdsDictType 28 (decimalEntries n)])
      (dataset [tableOf sdsDictType 28 (decimalEntries n)]) := by
    refine @denotes_encodeFile [tableOf sdsDictType 28 (decimalEntries n)] ?_ fun db hmem => ?_
    · exact Nat.one_lt_two_pow (by decide)
    · exact List.mem_singleton.mp hmem ▸ hdb
  refine ⟨_, _, hdenotes, hwithin, fun h => ?_⟩
  have hfits := fits_of_accepts (emptyDatabase_initServer 1 [] 0) h hdenotes
  have hle := (hfits _ (List.mem_singleton.mpr rfl)).1
  omega

-- One entry more than a table can hold.
theorem not_acceptsGrammar_overfull :
    ∃ file ds, Denotes 1 file ds ∧ ds.Within (2 ^ 30 - 1) ∧
      ¬AcceptsGrammar (initServer 1 [] 0) file := by
  obtain ⟨file, ds, hdenotes, hwithin, hnot⟩ :=
    not_accepts_decimals (n := 2 ^ 27 + 1) (by omega) (by omega)
  refine ⟨file, ds, hdenotes, fun ks hks => ?_, hnot⟩
  obtain ⟨hcard, hset⟩ := hwithin ks hks
  refine ⟨by omega, fun key members hlook => ?_⟩
  have := hset key members hlook
  omega

end Accepts

end Cutis

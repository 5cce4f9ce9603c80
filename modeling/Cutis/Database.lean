import Cutis.Object

namespace Cutis

namespace Dict

theorem lookup_contents (db : Database) (key : Bytes) :
    db.contents.lookup key = (db.toFinmap.lookup key).map CutisObject.value :=
  FiniteMap.lookup_mapVals _ _ key

theorem mem_contents (db : Database) (key : Bytes) : key ∈ db.contents ↔ key ∈ db.toFinmap :=
  FiniteMap.mem_mapVals _ _ key

@[simp] theorem contents_dictCreate : (dictCreate : Database).contents = ∅ :=
  FiniteMap.mapVals_empty _

end Dict

namespace SoundDatabase

variable {db : Database}

theorem lookup_sound (h : SoundDatabase db) {key : Bytes} {o : CutisObject}
    (hlook : db.toFinmap.lookup key = some o) : o.Sound :=
  h.objects _ ((h.toInv.lookup_eq_some_iff key o).mp hlook)

theorem of_lookup (h : db.Sound sdsDictType)
    (hobj : ∀ key o, db.toFinmap.lookup key = some o → o.Sound) : SoundDatabase db :=
  ⟨h, fun he hhe => hobj he.key he.val ((h.toInv.lookup_eq_some_iff _ _).mpr hhe)⟩

theorem card_contents (h : SoundDatabase db) : db.contents.keys.card = db.used := by
  rw [Dict.contents, FiniteMap.keys_mapVals, h.toInv.card_keys]

theorem contents_eq_empty (h : SoundDatabase db) (hused : db.used = 0) : db.contents = ∅ := by
  have hkeys : db.contents.keys = ∅ := by
    rw [← Finset.card_eq_zero, h.card_contents, hused]
  apply Finmap.ext_lookup
  intro key
  rw [Finmap.lookup_empty, Finmap.lookup_eq_none, ← Finmap.mem_keys, hkeys]
  exact Finset.notMem_empty key

theorem atLimit_iff (h : SoundDatabase db) : db.AtLimit ↔ db.contents.keys.card = 2 ^ 27 := by
  rw [h.card_contents]
  rfl

-- A changed database whose values are old ones or a sound new one.
theorem of_insert (h : SoundDatabase db) {db' : Database} (h' : db'.Sound sdsDictType)
    {key : Bytes} {o : CutisObject} (ho : o.Sound)
    (hmap : db'.toFinmap = db.toFinmap.insert key o) :
    SoundDatabase db' ∧ db'.contents = db.contents.insert key o.value := by
  refine ⟨of_lookup h' fun other val hlook => ?_, ?_⟩
  · rw [hmap] at hlook
    by_cases hother : other = key
    · rw [hother, Finmap.lookup_insert] at hlook
      exact Option.some.inj hlook ▸ ho
    · rw [Finmap.lookup_insert_of_ne _ hother] at hlook
      exact h.lookup_sound hlook
  · rw [Dict.contents, hmap, FiniteMap.mapVals_insert]
    rfl

theorem of_eq (h : SoundDatabase db) {db' : Database} (h' : db'.Sound sdsDictType)
    (hmap : db'.toFinmap = db.toFinmap) : SoundDatabase db' ∧ db'.contents = db.contents := by
  refine ⟨of_lookup h' fun key o hlook => ?_, congrArg (FiniteMap.mapVals _) hmap⟩
  exact h.lookup_sound (hmap ▸ hlook)

theorem dictFind_none (h : SoundDatabase db) {key : Bytes}
    (hfind : dictFind sdsDictType db key = none) : db.contents.lookup key = none := by
  rw [Dict.lookup_contents, ← dictFind_map_val sdsDictType_lawful h.toInv, hfind]
  rfl

theorem dictFind_some (h : SoundDatabase db) {key : Bytes} {de : DictEntry Bytes CutisObject}
    (hfind : dictFind sdsDictType db key = some de) :
    de.key = key ∧ db.toFinmap.lookup key = some de.val ∧ de.val.Sound ∧
      db.contents.lookup key = some de.val.value := by
  have hlook : db.toFinmap.lookup key = some de.val := by
    rw [← dictFind_map_val sdsDictType_lawful h.toInv, hfind]
    rfl
  refine ⟨((dictFind_eq_some_iff sdsDictType_lawful h.toInv key de).mp hfind).2, hlook,
    h.lookup_sound hlook, ?_⟩
  rw [Dict.lookup_contents, hlook]
  rfl

theorem dictAdd_ok (h : SoundDatabase db) (key : Bytes) {o : CutisObject} (ho : o.Sound)
    (hlimit : ¬db.AtLimit) :
    ∃ db', SoundDatabase db' ∧
      dictAdd sdsDictType db key o =
        .ok (db', if key ∈ db.contents then .DICT_ERR else .DICT_OK) ∧
      db'.contents = if key ∈ db.contents then db.contents else db.contents.insert key o.value := by
  obtain ⟨db', h', hadd, hmap⟩ := h.toSound.dictAdd_ok sdsDictType_lawful key o hlimit
  simp only [← Dict.mem_contents] at hadd hmap
  refine ⟨db', ?_, hadd, ?_⟩ <;> split_ifs at hmap ⊢ with hkey
  · exact (h.of_eq h' hmap).1
  · exact (h.of_insert h' ho hmap).1
  · exact (h.of_eq h' hmap).2
  · exact (h.of_insert h' ho hmap).2

theorem dictAdd_fault (h : SoundDatabase db) (key : Bytes) (o : CutisObject)
    (hlimit : db.AtLimit) : ∃ fault, dictAdd sdsDictType db key o = .error fault :=
  h.toSound.dictAdd_fault key o hlimit

-- An addition that returns left a sound database.
theorem dictAdd_returns (h : SoundDatabase db) {key : Bytes} {o : CutisObject} (ho : o.Sound)
    {db' : Database} {status : DictStatus}
    (hadd : dictAdd sdsDictType db key o = .ok (db', status)) : SoundDatabase db' := by
  by_cases hlimit : db.AtLimit
  · obtain ⟨fault, hf⟩ := h.dictAdd_fault key o hlimit
    rw [hf] at hadd
    cases hadd
  · obtain ⟨db'', h'', hadd', -⟩ := h.dictAdd_ok key ho hlimit
    rw [hadd'] at hadd
    cases hadd
    exact h''

theorem dictReplace_ok (h : SoundDatabase db) (key : Bytes) {o : CutisObject} (ho : o.Sound)
    (hlimit : ¬db.AtLimit) :
    ∃ db' old, SoundDatabase db' ∧ dictReplace sdsDictType db key o = .ok (db', old) ∧
      db'.contents = db.contents.insert key o.value := by
  obtain ⟨db', h', hadd, hmap⟩ := h.toSound.dictReplace_ok sdsDictType_lawful key o hlimit
  obtain ⟨hsound, hcontents⟩ := h.of_insert h' ho hmap
  exact ⟨db', _, hsound, hadd, hcontents⟩

theorem dictGenericDelete_spec (h : SoundDatabase db) (key : Bytes) :
    SoundDatabase (dictGenericDelete sdsDictType db key).1 ∧
      (dictGenericDelete sdsDictType db key).1.contents = db.contents.erase key ∧
      ((dictGenericDelete sdsDictType db key).2 = none ↔ key ∉ db.contents) := by
  have h' := h.toSound.dictGenericDelete sdsDictType_lawful key
  obtain ⟨-, hmap, hentry⟩ := dictGenericDelete_map sdsDictType_lawful h.toInv key
  refine ⟨of_lookup h' fun other o hlook => ?_, ?_, ?_⟩
  · rw [hmap] at hlook
    by_cases hother : other = key
    · rw [hother, Finmap.lookup_erase] at hlook
      cases hlook
    · rw [Finmap.lookup_erase_ne hother] at hlook
      exact h.lookup_sound hlook
  · rw [Dict.contents, hmap, FiniteMap.mapVals_erase]
    rfl
  · rw [hentry, Option.map_eq_none_iff, Dict.mem_contents, Finmap.lookup_eq_none]

-- A change of the value of a key that is present.
theorem dictSetHashVal_spec (h : SoundDatabase db) {key : Bytes} {o : CutisObject} (ho : o.Sound)
    (hm : key ∈ db.contents) :
    SoundDatabase (dictSetHashVal sdsDictType db key o) ∧
      (dictSetHashVal sdsDictType db key o).contents = db.contents.insert key o.value := by
  rw [Dict.mem_contents] at hm
  obtain ⟨-, hmap⟩ := dictSetHashVal_map sdsDictType_lawful h.toInv key o hm
  exact h.of_insert (h.toSound.dictSetHashVal sdsDictType_lawful key o hm) ho hmap

theorem dictResize_ok (h : SoundDatabase db) :
    ∃ db', SoundDatabase db' ∧ dictResize sdsDictType db = .ok (db', .DICT_OK) ∧
      db'.contents = db.contents := by
  obtain ⟨db', h', hresize, hmap⟩ := h.toSound.dictResize_ok
  obtain ⟨hsound, hcontents⟩ := h.of_eq h' hmap
  exact ⟨db', hsound, hresize, hcontents⟩

end SoundDatabase

theorem soundDatabase_dictCreate : SoundDatabase dictCreate :=
  ⟨sound_dictCreate sdsDictType, fun _ hhe => absurd hhe List.not_mem_nil⟩

abbrev Dataset := List Keyspace

def dataset (dict : List Database) : Dataset := dict.map Dict.contents

theorem dataset_set (dict : List Database) (id : Nat) (db : Database) :
    dataset (dict.set id db) = (dataset dict).set id db.contents := List.map_set

end Cutis

import Mathlib.Data.Finmap

namespace FiniteMap

variable {K V : Type*} [DecidableEq K]

-- The finite map a list of pairs lists.
def ofPairs (pairs : List (K × V)) : Finmap fun _ : K => V :=
  (pairs.map fun p => (⟨p.1, p.2⟩ : Sigma fun _ : K => V)).toFinmap

@[simp] theorem ofPairs_nil : ofPairs ([] : List (K × V)) = ∅ := rfl

theorem ofPairs_cons (key : K) (val : V) (rest : List (K × V)) :
    ofPairs ((key, val) :: rest) = (ofPairs rest).insert key val :=
  @Finmap.toFinmap_cons K (fun _ => V) _ key val _

omit [DecidableEq K] in
theorem keys_toSigma (pairs : List (K × V)) :
    (pairs.map fun p => (⟨p.1, p.2⟩ : Sigma fun _ : K => V)).keys = pairs.map Prod.fst := by
  simp [List.keys, Function.comp_def]

theorem lookup_ofPairs (key : K) (pairs : List (K × V)) :
    (ofPairs pairs).lookup key =
      (pairs.map fun p => (⟨p.1, p.2⟩ : Sigma fun _ : K => V)).dlookup key :=
  Finmap.dlookup_list_toFinmap key _

theorem mem_ofPairs (key : K) (pairs : List (K × V)) :
    key ∈ ofPairs pairs ↔ key ∈ pairs.map Prod.fst := by
  rw [← Finmap.lookup_isSome, lookup_ofPairs, List.dlookup_isSome, keys_toSigma]

theorem lookup_eq_some_iff {pairs : List (K × V)} (hn : (pairs.map Prod.fst).Nodup) (key : K)
    (val : V) : (ofPairs pairs).lookup key = some val ↔ (key, val) ∈ pairs := by
  rw [← keys_toSigma] at hn
  rw [lookup_ofPairs, ← Option.mem_def, List.mem_dlookup_iff hn, List.mem_map]
  constructor
  · rintro ⟨⟨k, v⟩, hm, he⟩
    cases he
    exact hm
  · exact fun hm => ⟨_, hm, rfl⟩

-- The order of the pairs does not matter when the keys are distinct.
theorem ofPairs_perm {pairs pairs' : List (K × V)} (hn : (pairs.map Prod.fst).Nodup)
    (hp : pairs.Perm pairs') : ofPairs pairs = ofPairs pairs' := by
  have hn' := (hp.map Prod.fst).nodup_iff.mp hn
  apply Finmap.ext_lookup
  intro key
  apply Option.ext
  intro val
  rw [lookup_eq_some_iff hn, lookup_eq_some_iff hn', hp.mem_iff]

theorem ofPairs_append_singleton {pairs : List (K × V)} {key : K} {val : V}
    (hn : ((pairs ++ [(key, val)]).map Prod.fst).Nodup) :
    ofPairs (pairs ++ [(key, val)]) = (ofPairs pairs).insert key val := by
  rw [ofPairs_perm hn (List.perm_append_singleton _ _), ofPairs_cons]

theorem keys_ofPairs (pairs : List (K × V)) :
    (ofPairs pairs).keys = (pairs.map Prod.fst).toFinset := by
  ext key
  rw [Finmap.mem_keys, mem_ofPairs, List.mem_toFinset]

theorem card_keys_ofPairs {pairs : List (K × V)} (hn : (pairs.map Prod.fst).Nodup) :
    (ofPairs pairs).keys.card = pairs.length := by
  rw [keys_ofPairs, List.toFinset_card_of_nodup hn, List.length_map]

theorem erase_insert_of_notMem {key : K} (val : V) {m : Finmap fun _ : K => V} (hm : key ∉ m) :
    (m.insert key val).erase key = m := by
  apply Finmap.ext_lookup
  intro other
  by_cases ho : other = key
  · subst ho
    rw [Finmap.lookup_erase, Finmap.lookup_eq_none.mpr hm]
  · rw [Finmap.lookup_erase_ne ho, Finmap.lookup_insert_of_ne _ ho]

theorem erase_of_notMem {key : K} {m : Finmap fun _ : K => V} (hm : key ∉ m) :
    m.erase key = m := by
  apply Finmap.ext_lookup
  intro other
  by_cases ho : other = key
  · subst ho
    rw [Finmap.lookup_erase, Finmap.lookup_eq_none.mpr hm]
  · rw [Finmap.lookup_erase_ne ho]

theorem keys_insert (key : K) (val : V) (m : Finmap fun _ : K => V) :
    (m.insert key val).keys = Insert.insert key m.keys := by
  ext other
  rw [Finmap.mem_keys, Finmap.mem_insert, Finset.mem_insert, Finmap.mem_keys]

section MapVals

variable {W : Type*}

-- Apply a function to every value.
def mapVals (f : V → W) (m : Finmap fun _ : K => V) : Finmap fun _ : K => W where
  entries := m.entries.map fun p => ⟨p.1, f p.2⟩
  nodupKeys := by
    rw [← Multiset.nodup_keys, Multiset.keys, Multiset.map_map]
    exact Multiset.nodup_keys.mpr m.nodupKeys

theorem mem_entries_iff (m : Finmap fun _ : K => V) (key : K) (val : V) :
    (⟨key, val⟩ : Sigma fun _ : K => V) ∈ m.entries ↔ m.lookup key = some val :=
  Finmap.mem_lookup_iff.symm

theorem lookup_mapVals (f : V → W) (m : Finmap fun _ : K => V) (key : K) :
    (mapVals f m).lookup key = (m.lookup key).map f := by
  apply Option.ext
  intro w
  rw [← mem_entries_iff, mapVals, Multiset.mem_map, Option.map_eq_some_iff]
  constructor
  · rintro ⟨⟨k, v⟩, hm, he⟩
    cases he
    exact ⟨v, (mem_entries_iff m _ v).mp hm, rfl⟩
  · rintro ⟨v, hv, rfl⟩
    exact ⟨⟨key, v⟩, (mem_entries_iff m key v).mpr hv, rfl⟩

@[simp] theorem mapVals_empty (f : V → W) : mapVals f (∅ : Finmap fun _ : K => V) = ∅ := by
  apply Finmap.ext_lookup
  intro key
  rw [lookup_mapVals, Finmap.lookup_empty, Finmap.lookup_empty]
  rfl

theorem mem_mapVals (f : V → W) (m : Finmap fun _ : K => V) (key : K) :
    key ∈ mapVals f m ↔ key ∈ m := by
  rw [← Finmap.lookup_isSome, lookup_mapVals, Option.isSome_map, Finmap.lookup_isSome]

theorem keys_mapVals (f : V → W) (m : Finmap fun _ : K => V) : (mapVals f m).keys = m.keys := by
  ext key
  rw [Finmap.mem_keys, mem_mapVals, Finmap.mem_keys]

theorem mapVals_insert (f : V → W) (m : Finmap fun _ : K => V) (key : K) (val : V) :
    mapVals f (m.insert key val) = (mapVals f m).insert key (f val) := by
  apply Finmap.ext_lookup
  intro other
  by_cases ho : other = key
  · subst ho
    rw [lookup_mapVals, Finmap.lookup_insert, Finmap.lookup_insert]
    rfl
  · rw [lookup_mapVals, Finmap.lookup_insert_of_ne _ ho, Finmap.lookup_insert_of_ne _ ho,
      lookup_mapVals]

theorem mapVals_erase (f : V → W) (m : Finmap fun _ : K => V) (key : K) :
    mapVals f (m.erase key) = (mapVals f m).erase key := by
  apply Finmap.ext_lookup
  intro other
  by_cases ho : other = key
  · subst ho
    rw [lookup_mapVals, Finmap.lookup_erase, Finmap.lookup_erase]
    rfl
  · rw [lookup_mapVals, Finmap.lookup_erase_ne ho, Finmap.lookup_erase_ne ho, lookup_mapVals]

theorem mapVals_ofPairs (f : V → W) (pairs : List (K × V)) :
    mapVals f (ofPairs pairs) = ofPairs (pairs.map fun p => (p.1, f p.2)) := by
  induction pairs with
  | nil => exact mapVals_empty f
  | cons p rest ih => rw [List.map_cons, ofPairs_cons, ofPairs_cons, mapVals_insert, ih]

end MapVals

end FiniteMap

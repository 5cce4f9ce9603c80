import Cutis.Dict.Lemmas
import Cutis.Lib.FiniteMap
import Cutis.Lib.Runs

namespace Cutis

variable {K V : Type}

-- The comparison is equality, so that the hash respects it.
structure DictType.Lawful (T : DictType K) : Prop where
  compare_iff : ∀ key1 key2, T.keyCompare key1 key2 = true ↔ key1 = key2

-- The representation invariant of a table.
structure Dict.Inv (T : DictType K) (ht : Dict K V) : Prop extends Dict.Shape ht where
  placed : ht.SlotPlaced T
  nodup : (ht.entries.map DictEntry.key).Nodup

-- The tables that exist: no larger one can be allocated.
structure Dict.Sound (T : DictType K) (ht : Dict K V) : Prop extends Dict.Inv T ht where
  size_le : ht.size ≤ 2 ^ 27

-- No slot is left and the next size is too large to allocate.
def Dict.AtLimit (ht : Dict K V) : Prop := ht.used = 2 ^ 27

instance (ht : Dict K V) : Decidable ht.AtLimit := inferInstanceAs (Decidable (_ = _))

def DictEntry.toPair (he : DictEntry K V) : K × V := (he.key, he.val)

theorem map_fst_toPair (entries : List (DictEntry K V)) :
    (entries.map DictEntry.toPair).map Prod.fst = entries.map DictEntry.key := by
  simp [DictEntry.toPair, Function.comp_def]

theorem mem_map_toPair {entries : List (DictEntry K V)} {key : K} {val : V} :
    (key, val) ∈ entries.map DictEntry.toPair ↔ { key, val } ∈ entries := by
  rw [List.mem_map]
  constructor
  · rintro ⟨⟨k, v⟩, hm, he⟩
    cases he
    exact hm
  · exact fun hm => ⟨_, hm, rfl⟩

theorem sound_dictCreate (T : DictType K) : (dictCreate : Dict K V).Sound T where
  toShape := shape_dictReset
  placed := fun i h => absurd h (Nat.not_lt_zero i)
  nodup := List.nodup_nil
  size_le := Nat.zero_le _

-- A table of 2 ^ k slots with the given entries.
def tableOf (T : DictType K) (k : Nat) (entries : List (DictEntry K V)) : Dict K V :=
  rehashed T { table := [entries], size := 1, size_mask := 0, used := entries.length } (2 ^ k)

theorem tableOf_entries (T : DictType K) (k : Nat) (entries : List (DictEntry K V)) :
    (tableOf T k entries).entries.Perm entries := by
  have hperm := @entries_rehashed _ _ T
    { table := [entries], size := 1, size_mask := 0, used := entries.length }
    (2 ^ k) ⟨k, rfl⟩
  simpa [tableOf, Dict.entries] using hperm

@[simp] theorem tableOf_used (T : DictType K) (k : Nat) (entries : List (DictEntry K V)) :
    (tableOf T k entries).used = entries.length := rfl

@[simp] theorem tableOf_size (T : DictType K) (k : Nat) (entries : List (DictEntry K V)) :
    (tableOf T k entries).size = 2 ^ k := rfl

theorem tableOf_inv (T : DictType K) {k : Nat} (h4 : 4 ≤ k) (h31 : k ≤ 31)
    {entries : List (DictEntry K V)} (hroom : entries.length ≤ 2 ^ k)
    (hnodup : (entries.map DictEntry.key).Nodup) : (tableOf T k entries).Inv T where
  length_table := by simp [tableOf, rehashed]
  size_pow := Or.inr ⟨k, h4, h31, rfl⟩
  size_mask_eq := fun _ => rfl
  used_eq := (tableOf_entries T k entries).length_eq.symm
  used_le := hroom
  placed := slotPlaced_rehashed T _ _
  nodup := (((tableOf_entries T k entries).map _).nodup_iff).mpr hnodup

section Map

variable [DecidableEq K]

-- The finite map a table stands for.
def Dict.toFinmap (ht : Dict K V) : Finmap fun _ : K => V :=
  FiniteMap.ofPairs (ht.entries.map DictEntry.toPair)

@[simp] theorem toFinmap_dictCreate : (dictCreate : Dict K V).toFinmap = ∅ := rfl

variable {T : DictType K} {ht : Dict K V}

theorem Dict.Inv.lookup_eq_some_iff (hinv : ht.Inv T) (key : K) (val : V) :
    ht.toFinmap.lookup key = some val ↔ { key, val } ∈ ht.entries := by
  have hn := hinv.nodup
  rw [← map_fst_toPair] at hn
  rw [Dict.toFinmap, FiniteMap.lookup_eq_some_iff hn, mem_map_toPair]

theorem Dict.Inv.toFinmap_eq_of_perm (hinv : ht.Inv T) {entries : List (DictEntry K V)}
    (hp : ht.entries.Perm entries) :
    ht.toFinmap = FiniteMap.ofPairs (entries.map DictEntry.toPair) := by
  apply FiniteMap.ofPairs_perm
  · rw [map_fst_toPair]; exact hinv.nodup
  · exact hp.map _

theorem Dict.Inv.card_keys (hinv : ht.Inv T) : ht.toFinmap.keys.card = ht.used := by
  have hn := hinv.nodup
  rw [← map_fst_toPair] at hn
  rw [Dict.toFinmap, FiniteMap.card_keys_ofPairs hn, List.length_map, hinv.used_eq]

theorem Dict.mem_toFinmap (ht : Dict K V) (key : K) :
    key ∈ ht.toFinmap ↔ key ∈ ht.entries.map DictEntry.key := by
  rw [Dict.toFinmap, FiniteMap.mem_ofPairs, map_fst_toPair]

theorem Dict.keys_toFinmap (ht : Dict K V) :
    ht.toFinmap.keys = (ht.entries.map DictEntry.key).toFinset := by
  rw [Dict.toFinmap, FiniteMap.keys_ofPairs, map_fst_toPair]

omit [DecidableEq K] in
-- A search in the chain of the key's slot is a search in the whole table.
theorem Dict.Inv.mem_chain_iff (hinv : ht.Inv T) (he : DictEntry K V) :
    he ∈ ht.chain (ht.slot T he.key) ↔ he ∈ ht.entries :=
  (Buckets.mem_flatten_iff hinv.placed he).symm

omit [DecidableEq K] in
theorem dictFind_eq_some_iff (hT : T.Lawful) (hinv : ht.Inv T) (key : K) (he : DictEntry K V) :
    dictFind T ht key = some he ↔ he ∈ ht.entries ∧ he.key = key := by
  constructor
  · intro hfind
    obtain ⟨hslot, hkey, before, after, hchain, -⟩ := dictFind_eq_some T hinv.toShape key hfind
    refine ⟨?_, ((hT.compare_iff _ _).mp hkey).symm⟩
    apply Dict.mem_entries_of_chain (h := ht.slot T key)
    rw [Dict.chain_eq_getElem hslot, hchain]
    exact List.mem_append_right _ List.mem_cons_self
  · rintro ⟨hm, rfl⟩
    have hused : ht.used ≠ 0 := by
      rw [hinv.used_eq]
      exact (List.length_pos_of_mem hm).ne'
    rw [dictFind, if_neg hused]
    cases hfind : (ht.chain (ht.slot T he.key)).find? (fun x => T.keyCompare he.key x.key) with
    | none =>
        have hnot := List.find?_eq_none.mp hfind he ((hinv.mem_chain_iff he).mpr hm)
        exact absurd ((hT.compare_iff _ _).mpr rfl) hnot
    | some other =>
        have hkey := (hT.compare_iff he.key other.key).mp (List.find?_some
          (p := fun x : DictEntry K V => T.keyCompare he.key x.key) hfind)
        have hother := Dict.mem_entries_of_chain (List.mem_of_find?_eq_some hfind)
        exact congrArg some (List.inj_on_of_nodup_map hinv.nodup hother hm hkey.symm)

-- DictFind agrees with the map.
theorem dictFind_map_val (hT : T.Lawful) (hinv : ht.Inv T) (key : K) :
    (dictFind T ht key).map DictEntry.val = ht.toFinmap.lookup key := by
  apply Option.ext
  intro val
  rw [hinv.lookup_eq_some_iff, Option.map_eq_some_iff]
  constructor
  · rintro ⟨he, hfind, rfl⟩
    obtain ⟨hm, rfl⟩ := (dictFind_eq_some_iff hT hinv key he).mp hfind
    exact hm
  · exact fun hm => ⟨_, (dictFind_eq_some_iff hT hinv key _).mpr ⟨hm, rfl⟩, rfl⟩

theorem dictFind_eq (hT : T.Lawful) (hinv : ht.Inv T) (key : K) :
    dictFind T ht key = (ht.toFinmap.lookup key).map fun val => { key, val } := by
  rw [← dictFind_map_val hT hinv key]
  cases hfind : dictFind T ht key with
  | none => rfl
  | some he =>
      obtain ⟨-, rfl⟩ := (dictFind_eq_some_iff hT hinv key he).mp hfind
      rfl

theorem dictFind_isNone_iff (hT : T.Lawful) (hinv : ht.Inv T) (key : K) :
    dictFind T ht key = none ↔ key ∉ ht.toFinmap := by
  rw [dictFind_eq hT hinv, Option.map_eq_none_iff, Finmap.lookup_eq_none]

-- Overwriting a value is an insertion of a key the map has.
theorem dictSetHashVal_map (hT : T.Lawful) (hinv : ht.Inv T) (key : K) (val : V)
    (hm : key ∈ ht.toFinmap) :
    (dictSetHashVal T ht key val).Inv T ∧
      (dictSetHashVal T ht key val).toFinmap = ht.toFinmap.insert key val := by
  obtain ⟨old, hold⟩ := Finmap.mem_iff.mp hm
  have hfind : dictFind T ht key = some { key, val := old } := by
    rw [dictFind_eq hT hinv, hold]; rfl
  obtain ⟨hshape, hplaced, rest, hbefore, hafter⟩ :=
    dictSetHashVal_spec T hinv.toShape key val hfind
  have hinv' : (dictSetHashVal T ht key val).Inv T := by
    refine ⟨hshape, hplaced hinv.placed, ?_⟩
    rw [(hafter.map _).nodup_iff]
    exact (hbefore.map _).nodup_iff.mp hinv.nodup
  refine ⟨hinv', ?_⟩
  rw [hinv'.toFinmap_eq_of_perm hafter, hinv.toFinmap_eq_of_perm hbefore, List.map_cons,
    List.map_cons]
  simp only [DictEntry.toPair, FiniteMap.ofPairs_cons, Finmap.insert_insert]

theorem dictGenericDelete_map (hT : T.Lawful) (hinv : ht.Inv T) (key : K) :
    (dictGenericDelete T ht key).1.Inv T ∧
      (dictGenericDelete T ht key).1.toFinmap = ht.toFinmap.erase key ∧
      (dictGenericDelete T ht key).2 =
        (ht.toFinmap.lookup key).map fun val => { key, val } := by
  rw [dictGenericDelete_eq, ← dictFind_eq hT hinv]
  cases hfind : dictFind T ht key with
  | none =>
      have hnot := (dictFind_isNone_iff hT hinv key).mp hfind
      exact ⟨hinv, (FiniteMap.erase_of_notMem hnot).symm, rfl⟩
  | some he =>
      obtain ⟨hshape, hperm, hplaced⟩ := unlinked_spec T hinv.toShape key hfind
      obtain ⟨-, rfl⟩ := (dictFind_eq_some_iff hT hinv key he).mp hfind
      have hn := (hperm.map DictEntry.key).nodup_iff.mp hinv.nodup
      rw [List.map_cons, List.nodup_cons] at hn
      have hinv' : (unlinked T ht he.key).Inv T := ⟨hshape, hplaced hinv.placed, hn.2⟩
      refine ⟨hinv', ?_, rfl⟩
      rw [hinv.toFinmap_eq_of_perm hperm, List.map_cons]
      simp only [DictEntry.toPair, FiniteMap.ofPairs_cons]
      rw [FiniteMap.erase_insert_of_notMem]
      · rfl
      · rw [FiniteMap.mem_ofPairs, map_fst_toPair]
        exact hn.1

-- What an expansion leaves unchanged.
theorem dictExpandIfNeeded_map {ht' : Dict K V} {status : DictStatus} (hinv : ht.Inv T)
    (h : dictExpandIfNeeded T ht = .ok (ht', status)) :
    ht'.Inv T ∧ ht'.toFinmap = ht.toFinmap ∧ ht'.used = ht.used ∧
      (ht.size ≤ 2 ^ 27 → ht'.size ≤ 2 ^ 27) := by
  obtain ⟨hshape, hperm, -, hplaced, hsize⟩ := dictExpandIfNeeded_cases T hinv.toShape h
  have hinv' : ht'.Inv T :=
    ⟨hshape, hplaced hinv.placed, (hperm.map _).nodup_iff.mpr hinv.nodup⟩
  refine ⟨hinv', hinv'.toFinmap_eq_of_perm hperm, ?_, hsize⟩
  rw [hshape.used_eq, hinv.used_eq, hperm.length_eq]

theorem dictAdd_map (hT : T.Lawful) (hinv : ht.Inv T) (key : K) (val : V)
    (hroom : ht.used < ht.size ∨ ht.size < 2 ^ 27) :
    ∃ ht', ht'.Inv T ∧ (ht.size ≤ 2 ^ 27 → ht'.size ≤ 2 ^ 27) ∧
      if key ∈ ht.toFinmap then
        dictAdd T ht key val = .ok (ht', .DICT_ERR) ∧ ht'.toFinmap = ht.toFinmap
      else dictAdd T ht key val = .ok (ht', .DICT_OK) ∧
        ht'.toFinmap = ht.toFinmap.insert key val := by
  obtain ⟨ht', hexp⟩ := dictExpandIfNeeded_ok T hinv.toShape hroom
  obtain ⟨hinv', hmap, -, hsize⟩ := dictExpandIfNeeded_map hinv hexp
  obtain ⟨-, -, hlt, -, -⟩ := dictExpandIfNeeded_cases T hinv.toShape hexp
  have hany : (ht'.chain (ht'.slot T key)).any (fun he => T.keyCompare key he.key) = true ↔
      key ∈ ht.toFinmap := by
    rw [← hmap, Dict.mem_toFinmap, List.any_eq_true, List.mem_map]
    constructor
    · rintro ⟨he, hm, hkey⟩
      exact ⟨he, Dict.mem_entries_of_chain hm, ((hT.compare_iff _ _).mp hkey).symm⟩
    · rintro ⟨he, hm, rfl⟩
      exact ⟨he, (hinv'.mem_chain_iff he).mpr hm, (hT.compare_iff _ _).mpr rfl⟩
  by_cases hkey : key ∈ ht.toFinmap
  · refine ⟨ht', hinv', hsize, ?_⟩
    rw [if_pos hkey, dictAdd_eq, hexp]
    simp only [Except.bind, hany.mpr hkey, or_true, if_true]
    exact ⟨trivial, hmap⟩
  · obtain ⟨hshape, hperm, hplaced⟩ := linked_spec T hinv'.toShape (hlt rfl) key val
    have hinv'' : (linked T ht' key val).Inv T := by
      refine ⟨hshape, hplaced hinv'.placed, (hperm.map _).nodup_iff.mpr ?_⟩
      rw [List.map_cons, List.nodup_cons]
      refine ⟨?_, hinv'.nodup⟩
      rw [← Dict.mem_toFinmap, hmap]
      exact hkey
    refine ⟨linked T ht' key val, hinv'', hsize, ?_⟩
    rw [if_neg hkey, dictAdd_eq, hexp]
    simp only [Except.bind, mt hany.mp hkey, or_false, reduceCtorEq, if_false]
    refine ⟨trivial, ?_⟩
    rw [hinv''.toFinmap_eq_of_perm hperm, List.map_cons]
    simp only [DictEntry.toPair, FiniteMap.ofPairs_cons]
    rw [← hmap]
    rfl

end Map

namespace Dict.Sound

variable [DecidableEq K] {T : DictType K} {ht : Dict K V}

omit [DecidableEq K] in
theorem used_le_limit (h : ht.Sound T) : ht.used ≤ 2 ^ 27 := h.toInv.used_le.trans h.size_le

omit [DecidableEq K] in
theorem room (h : ht.Sound T) (hlimit : ¬ht.AtLimit) : ht.used < ht.size ∨ ht.size < 2 ^ 27 := by
  have := h.toInv.used_le
  have := h.size_le
  simp only [Dict.AtLimit] at hlimit
  omega

theorem dictAdd_ok (hT : T.Lawful) (h : ht.Sound T) (key : K) (val : V) (hlimit : ¬ht.AtLimit) :
    ∃ ht', ht'.Sound T ∧
      dictAdd T ht key val = .ok (ht', if key ∈ ht.toFinmap then .DICT_ERR else .DICT_OK) ∧
      ht'.toFinmap = if key ∈ ht.toFinmap then ht.toFinmap else ht.toFinmap.insert key val := by
  obtain ⟨ht', hinv, hsize, hadd⟩ := dictAdd_map hT h.toInv key val (h.room hlimit)
  refine ⟨ht', ⟨hinv, hsize h.size_le⟩, ?_⟩
  split_ifs with hkey
  · rwa [if_pos hkey] at hadd
  · rwa [if_neg hkey] at hadd

omit [DecidableEq K] in
-- At the limit even the addition of a key that is present fails: the table is
-- expanded before it is searched.
theorem dictAdd_fault (h : ht.Sound T) (key : K) (val : V) (hlimit : ht.AtLimit) :
    ∃ fault, dictAdd T ht key val = .error fault := by
  have hle := h.toInv.used_le
  have hsize := h.size_le
  simp only [Dict.AtLimit] at hlimit
  obtain ⟨fault, hf⟩ := dictExpandIfNeeded_fault T h.toShape (by omega) (by omega) (by omega)
  refine ⟨fault, ?_⟩
  rw [dictAdd_eq, hf]
  rfl

-- An addition that returns leaves a sound table.
theorem dictAdd_returns (hT : T.Lawful) (h : ht.Sound T) {key : K} {val : V} {ht' : Dict K V}
    {status : DictStatus} (hadd : dictAdd T ht key val = .ok (ht', status)) : ht'.Sound T := by
  by_cases hlimit : ht.AtLimit
  · obtain ⟨fault, hf⟩ := h.dictAdd_fault key val hlimit
    rw [hf] at hadd
    cases hadd
  · obtain ⟨ht'', h'', hadd', -⟩ := h.dictAdd_ok hT key val hlimit
    rw [hadd'] at hadd
    cases hadd
    exact h''

theorem dictReplace_ok (hT : T.Lawful) (h : ht.Sound T) (key : K) (val : V)
    (hlimit : ¬ht.AtLimit) :
    ∃ ht', ht'.Sound T ∧ dictReplace T ht key val = .ok (ht', ht.toFinmap.lookup key) ∧
      ht'.toFinmap = ht.toFinmap.insert key val := by
  obtain ⟨ht', h', hadd, hmap⟩ := h.dictAdd_ok hT key val hlimit
  unfold dictReplace
  rw [hadd]
  by_cases hkey : key ∈ ht.toFinmap
  · rw [if_pos hkey] at hmap ⊢
    obtain ⟨old, hold⟩ := Finmap.mem_iff.mp hkey
    have hfind : dictFind T ht' key = some { key, val := old } := by
      rw [dictFind_eq hT h'.toInv, hmap, hold]
      rfl
    obtain ⟨hinv, hset⟩ := dictSetHashVal_map hT h'.toInv key val (hmap ▸ hkey)
    refine ⟨_, ⟨hinv, h'.size_le⟩, ?_, hmap ▸ hset⟩
    simp [bind, Except.bind, hfind, hold, pure, Except.pure]
  · rw [if_neg hkey] at hmap ⊢
    refine ⟨ht', h', ?_, hmap⟩
    rw [Finmap.lookup_eq_none.mpr hkey]
    rfl

omit [DecidableEq K] in
theorem dictReplace_fault (h : ht.Sound T) (key : K) (val : V) (hlimit : ht.AtLimit) :
    ∃ fault, dictReplace T ht key val = .error fault := by
  obtain ⟨fault, hf⟩ := h.dictAdd_fault key val hlimit
  refine ⟨fault, ?_⟩
  rw [dictReplace, hf]
  rfl

theorem dictGenericDelete (hT : T.Lawful) (h : ht.Sound T) (key : K) :
    (dictGenericDelete T ht key).1.Sound T := by
  refine ⟨(dictGenericDelete_map hT h.toInv key).1, ?_⟩
  rw [dictGenericDelete_eq]
  cases dictFind T ht key <;> exact h.size_le

theorem dictSetHashVal (hT : T.Lawful) (h : ht.Sound T) (key : K) (val : V)
    (hm : key ∈ ht.toFinmap) : (dictSetHashVal T ht key val).Sound T :=
  ⟨(dictSetHashVal_map hT h.toInv key val hm).1, h.size_le⟩

theorem dictResize_ok (h : ht.Sound T) :
    ∃ ht', ht'.Sound T ∧ dictResize T ht = .ok (ht', .DICT_OK) ∧ ht'.toFinmap = ht.toFinmap := by
  have hused := h.used_le_limit
  unfold dictResize
  generalize hminimal : (if ht.used < DICT_HT_INITIAL_SIZE then DICT_HT_INITIAL_SIZE
    else ht.used) = minimal
  have hle : ht.used ≤ minimal := by
    by_cases hlt : ht.used < DICT_HT_INITIAL_SIZE
    · rw [if_pos hlt] at hminimal; omega
    · rw [if_neg hlt] at hminimal; omega
  have hmin : minimal ≤ 2 ^ 27 := by
    by_cases hlt : ht.used < DICT_HT_INITIAL_SIZE
    · rw [if_pos hlt, DICT_HT_INITIAL_SIZE] at hminimal; omega
    · rw [if_neg hlt] at hminimal; omega
  have hroom := dictNextPower_le _ 27 hmin (by omega) (by omega)
  obtain ⟨hshape, hperm⟩ := shape_rehashed T h.toShape _ hle (hmin.trans (by omega))
  have hinv : (rehashed T ht (dictNextPower minimal)).Inv T :=
    ⟨hshape, slotPlaced_rehashed T ht _, (hperm.map _).nodup_iff.mpr h.nodup⟩
  exact ⟨_, ⟨hinv, hroom⟩, dictExpand_ok T h.toShape _ hle hroom, hinv.toFinmap_eq_of_perm hperm⟩

end Dict.Sound

end Cutis

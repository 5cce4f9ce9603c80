import Cutis.Dict
import Cutis.Lib.Buckets
import Mathlib.Algebra.Order.Ring.Nat
import Mathlib.Tactic.Ring

namespace Cutis

variable {K V : Type}

-- What holds of a table whatever its hash function and key comparison do.
structure Dict.Shape (ht : Dict K V) : Prop where
  length_table : ht.table.length = ht.size
  size_pow : ht.size = 0 ∨ ∃ k, 4 ≤ k ∧ k ≤ 31 ∧ ht.size = 2 ^ k
  size_mask_eq : ht.size ≠ 0 → ht.size_mask = ht.size - 1
  used_eq : ht.used = ht.entries.length
  used_le : ht.used ≤ ht.size

def Dict.SlotPlaced (T : DictType K) (ht : Dict K V) : Prop :=
  Buckets.Placed (fun he : DictEntry K V => ht.slot T he.key) ht.table

theorem shape_dictReset : (dictReset : Dict K V).Shape where
  length_table := rfl
  size_pow := Or.inl rfl
  size_mask_eq := fun h => absurd rfl h
  used_eq := rfl
  used_le := Nat.le_refl _

theorem Dict.Shape.slot_lt {ht : Dict K V} (hs : ht.Shape) (T : DictType K) (key : K)
    (hne : ht.size ≠ 0) : ht.slot T key < ht.table.length := by
  obtain h | ⟨k, -, -, hk⟩ := hs.size_pow
  · exact absurd h hne
  · rw [hs.length_table, Dict.slot, hs.size_mask_eq hne, hk, Nat.and_two_pow_sub_one_eq_mod]
    exact Nat.mod_lt _ (Nat.two_pow_pos k)

theorem Dict.chain_eq_getElem {ht : Dict K V} {h : Nat} (hlt : h < ht.table.length) :
    ht.chain h = ht.table[h] := by
  simp [Dict.chain, hlt]

theorem Dict.Shape.size_ne_zero {ht : Dict K V} (hs : ht.Shape) (hu : ht.used ≠ 0) :
    ht.size ≠ 0 := by
  have := hs.used_le
  omega

theorem Dict.mem_entries_of_chain {ht : Dict K V} {h : Nat} {he : DictEntry K V}
    (hm : he ∈ ht.chain h) : he ∈ ht.entries := by
  by_cases hlt : h < ht.table.length
  · rw [Dict.chain_eq_getElem hlt] at hm
    exact List.mem_flatten.mpr ⟨_, List.getElem_mem hlt, hm⟩
  · simp [Dict.chain, hlt] at hm

section NextPower

theorem dictNextPowerLoop_spec (size fuel k : Nat) (h : size ≤ 2 ^ (k + fuel)) :
    ∃ j, k ≤ j ∧ j ≤ k + fuel ∧ dictNextPowerLoop size fuel (2 ^ k) = 2 ^ j ∧ size ≤ 2 ^ j ∧
      (j = k ∨ 2 ^ j < 2 * size) := by
  induction fuel generalizing k with
  | zero => exact ⟨k, Nat.le_refl _, Nat.le_refl _, rfl, h, Or.inl rfl⟩
  | succ fuel ih =>
      simp only [dictNextPowerLoop]
      split
      · rename_i hge
        exact ⟨k, Nat.le_refl _, by omega, rfl, hge, Or.inl rfl⟩
      · rename_i hlt
        have hdouble : 2 ^ k * 2 = 2 ^ (k + 1) := (pow_succ 2 k).symm
        have hfuel : k + 1 + fuel = k + (fuel + 1) := by omega
        obtain ⟨j, hkj, hj, heq, hle, hmin⟩ := ih (k + 1) (by rw [hfuel]; exact h)
        refine ⟨j, by omega, by omega, by rw [hdouble]; exact heq, hle, ?_⟩
        rcases hmin with rfl | hmin
        · exact Or.inr (by omega)
        · exact Or.inr hmin

-- The result is the least power of two from 16 on that is not below size.
theorem dictNextPower_spec (size : Nat) (h : size ≤ 2 ^ 31) :
    ∃ k, 4 ≤ k ∧ k ≤ 31 ∧ dictNextPower size = 2 ^ k ∧ size ≤ 2 ^ k ∧
      (k = 4 ∨ 2 ^ k < 2 * size) := by
  unfold dictNextPower
  split
  · exact ⟨31, by omega, by omega, rfl, by omega, Or.inr (by omega)⟩
  · rename_i hlt
    have hstart : DICT_HT_INITIAL_SIZE = 2 ^ 4 := rfl
    obtain ⟨j, h4, -, heq, hle, hmin⟩ := dictNextPowerLoop_spec size 32 4 (by omega)
    refine ⟨j, h4, ?_, by rw [hstart]; exact heq, hle, hmin⟩
    by_contra hj
    have hpow : (2 : Nat) ^ 32 ≤ 2 ^ j := Nat.pow_le_pow_right (by omega) (by omega)
    rcases hmin with rfl | hmin <;> omega

theorem le_dictNextPower (size : Nat) (h : size ≤ 2 ^ 31) : size ≤ dictNextPower size := by
  obtain ⟨k, -, -, heq, hle, -⟩ := dictNextPower_spec size h
  omega

theorem dictNextPower_le (size bound : Nat) (hb : size ≤ 2 ^ bound) (h4 : 4 ≤ bound)
    (h31 : bound ≤ 31) : dictNextPower size ≤ 2 ^ bound := by
  have hsize : size ≤ 2 ^ 31 := hb.trans (Nat.pow_le_pow_right (by omega) h31)
  obtain ⟨k, -, -, heq, -, hmin⟩ := dictNextPower_spec size hsize
  rw [heq]
  rcases hmin with rfl | hmin
  · exact Nat.pow_le_pow_right (by omega) h4
  · have hlt : 2 ^ k < 2 ^ (bound + 1) := by rw [pow_succ]; omega
    exact Nat.pow_le_pow_right (by omega) (Nat.lt_succ_iff.mp
      ((Nat.pow_lt_pow_iff_right (by omega)).mp hlt))

end NextPower

section Alloc

theorem allocTable_eq (real_size : Nat) (size : Int) :
    ((do
      let block ← dictAlloc size
      if block < real_size * POINTER_SIZE then
        throw .outOfBounds
      return List.replicate real_size []) : Except Fault (List (List (DictEntry K V)))) =
      if size < 0 then .error .segv
      else if size.toNat < real_size * POINTER_SIZE then .error .outOfBounds
      else .ok (List.replicate real_size []) := by
  unfold dictAlloc
  by_cases hneg : size < 0
  · rw [if_pos hneg, if_pos hneg]
    rfl
  · rw [if_neg hneg, if_neg hneg]
    by_cases hshort : size.toNat < real_size * POINTER_SIZE
    · rw [if_pos hshort]
      simp only [pure, Except.pure, bind, Except.bind, if_pos hshort]
      rfl
    · rw [if_neg hshort]
      simp only [pure, Except.pure, bind, Except.bind, if_neg hshort]

theorem dictAllocTable_eq (real_size : Nat) :
    (dictAllocTable real_size : Except Fault (List (List (DictEntry K V)))) =
      if toInt32 (real_size * POINTER_SIZE : Nat) < 0 then .error .segv
      else if (toInt32 (real_size * POINTER_SIZE : Nat)).toNat < real_size * POINTER_SIZE then
        .error .outOfBounds
      else .ok (List.replicate real_size []) :=
  allocTable_eq real_size _

-- Up to 2^27 slots the byte count fits an int.
theorem dictAllocTable_ok (real_size : Nat) (h : real_size ≤ 2 ^ 27) :
    (dictAllocTable real_size : Except Fault (List (List (DictEntry K V)))) =
      .ok (List.replicate real_size []) := by
  have hint : toInt32 (real_size * POINTER_SIZE : Nat) = (real_size * POINTER_SIZE : Nat) :=
    toInt32_natCast _ (by simp only [POINTER_SIZE]; omega)
  rw [dictAllocTable_eq, hint, if_neg (by omega), if_neg (by omega)]

-- From 2^28 slots on the int is negative or zero.
theorem dictAllocTable_fault (k : Nat) (h28 : 28 ≤ k) (h31 : k ≤ 31) :
    ∃ fault, (dictAllocTable (2 ^ k) : Except Fault (List (List (DictEntry K V)))) =
      .error fault := by
  obtain rfl | rfl | rfl | rfl : k = 28 ∨ k = 29 ∨ k = 30 ∨ k = 31 := by omega
  · exact ⟨.segv, by rw [dictAllocTable_eq, if_pos (by decide)]⟩
  · exact ⟨.outOfBounds, by rw [dictAllocTable_eq, if_neg (by decide), if_pos (by decide)]⟩
  · exact ⟨.outOfBounds, by rw [dictAllocTable_eq, if_neg (by decide), if_pos (by decide)]⟩
  · exact ⟨.outOfBounds, by rw [dictAllocTable_eq, if_neg (by decide), if_pos (by decide)]⟩

theorem dictAllocTable_cases {k : Nat} {table : List (List (DictEntry K V))} (h31 : k ≤ 31)
    (h : dictAllocTable (2 ^ k) = .ok table) : table = List.replicate (2 ^ k) [] ∧ k ≤ 27 := by
  have hk : k ≤ 27 := by
    by_contra hk
    obtain ⟨fault, hf⟩ := dictAllocTable_fault (K := K) (V := V) k (by omega) h31
    rw [hf] at h
    cases h
  rw [dictAllocTable_ok _ (Nat.pow_le_pow_right (by omega) hk)] at h
  exact ⟨(Except.ok.inj h).symm, hk⟩

end Alloc

section Expand

variable (T : DictType K)

theorem relinkChain_eq (size_mask : Nat) (chain : List (DictEntry K V))
    (table : List (List (DictEntry K V))) (used : Nat) :
    relinkChain T size_mask chain (table, used) =
      (Buckets.rehash (fun he => (T.hashFunction he.key).toNat &&& size_mask) chain table,
        used - chain.length) := by
  induction chain generalizing table used with
  | nil => rfl
  | cons he next ih =>
      simp only [relinkChain, ih, Buckets.rehash_cons, List.length_cons]
      congr 1
      omega

-- The countdown stops the loop only when no entry is left to relink.
theorem relinkTable_eq (size_mask : Nat) (chains table : List (List (DictEntry K V))) (used : Nat)
    (hused : used = chains.flatten.length) :
    relinkTable T size_mask chains (table, used) =
      (Buckets.rehash (fun he => (T.hashFunction he.key).toNat &&& size_mask)
        chains.flatten table, 0) := by
  induction chains generalizing table used with
  | nil => simp [relinkTable, hused]
  | cons chain rest ih =>
      rw [List.flatten_cons, List.length_append] at hused
      simp only [relinkTable]
      split
      · rw [relinkChain_eq, ih _ _ (by omega), List.flatten_cons, Buckets.rehash_append]
      · have hc : chain = [] := List.length_eq_zero_iff.mp (by omega)
        have hr : rest.flatten = [] := List.length_eq_zero_iff.mp (by omega)
        simp only [List.flatten_cons, hc, hr, List.append_nil, Buckets.rehash_nil]
        congr 1
        omega

-- The table dictExpand builds: every entry of the old table, relinked.
def rehashed (ht : Dict K V) (real_size : Nat) : Dict K V :=
  { table := Buckets.rehash
      (fun he => (T.hashFunction he.key).toNat &&& (real_size - 1)) ht.entries
      (List.replicate real_size [])
    size := real_size
    size_mask := real_size - 1
    used := ht.used }

theorem dictExpand_eq {ht : Dict K V} (hs : ht.Shape) (size : Nat) :
    dictExpand T ht size =
      if ht.used > size then .ok (ht, .DICT_ERR)
      else (dictAllocTable (K := K) (V := V) (dictNextPower size)).bind fun table =>
        .ok ({ rehashed T ht (dictNextPower size) with
          table := Buckets.rehash
            (fun he => (T.hashFunction he.key).toNat &&& (dictNextPower size - 1))
            ht.entries table }, .DICT_OK) := by
  unfold dictExpand
  by_cases hused : ht.used > size
  · simp [hused, pure, Except.pure]
  · simp only [hused, if_false, bind]
    congr 1
    funext table
    rw [relinkTable_eq T _ ht.table table ht.used hs.used_eq]
    simp [rehashed, Dict.entries, pure, Except.pure]

theorem dictExpand_ok {ht : Dict K V} (hs : ht.Shape) (size : Nat) (hused : ht.used ≤ size)
    (hroom : dictNextPower size ≤ 2 ^ 27) :
    dictExpand T ht size = .ok (rehashed T ht (dictNextPower size), .DICT_OK) := by
  rw [dictExpand_eq T hs, if_neg (by omega), dictAllocTable_ok _ hroom]
  rfl

theorem dictExpand_fault {ht : Dict K V} (hs : ht.Shape) (size : Nat) (hused : ht.used ≤ size)
    (hlarge : 2 ^ 27 < size) (hsize : size ≤ 2 ^ 31) :
    ∃ fault, dictExpand T ht size = .error fault := by
  obtain ⟨k, -, h31, heq, hle, -⟩ := dictNextPower_spec size hsize
  have h28 : 28 ≤ k := by
    by_contra h
    have := Nat.pow_le_pow_right (n := 2) (by omega) (show k ≤ 27 by omega)
    omega
  obtain ⟨fault, hf⟩ := dictAllocTable_fault (K := K) (V := V) k h28 h31
  refine ⟨fault, ?_⟩
  rw [dictExpand_eq T hs, if_neg (by omega), heq, hf]
  rfl

-- Whenever the expansion succeeds the outcome is the rehashed table.
theorem dictExpand_cases {ht ht' : Dict K V} {status : DictStatus} (hs : ht.Shape) (size : Nat)
    (hsize : size ≤ 2 ^ 31) (h : dictExpand T ht size = .ok (ht', status)) :
    (status = .DICT_ERR ∧ ht.used > size ∧ ht' = ht) ∨
      (status = .DICT_OK ∧ ht.used ≤ size ∧ ht' = rehashed T ht (dictNextPower size) ∧
        dictNextPower size ≤ 2 ^ 27) := by
  rw [dictExpand_eq T hs] at h
  split at h
  · rename_i hused
    cases h
    exact Or.inl ⟨rfl, hused, rfl⟩
  · rename_i hused
    obtain ⟨k, -, h31, heq, -, -⟩ := dictNextPower_spec size hsize
    rw [heq] at h ⊢
    cases halloc : dictAllocTable (K := K) (V := V) (2 ^ k) with
    | error fault => rw [halloc] at h; cases h
    | ok table =>
        obtain ⟨rfl, hk⟩ := dictAllocTable_cases h31 halloc
        rw [halloc] at h
        cases h
        exact Or.inr ⟨rfl, by omega, rfl, Nat.pow_le_pow_right (by omega) hk⟩

theorem entries_rehashed {ht : Dict K V} (real_size : Nat) (hpow : ∃ k, real_size = 2 ^ k) :
    (rehashed T ht real_size).entries.Perm ht.entries := by
  obtain ⟨k, hk⟩ := hpow
  have hperm := Buckets.rehash_perm
    (fun he : DictEntry K V => (T.hashFunction he.key).toNat &&& (real_size - 1)) ht.entries
    (List.replicate real_size []) (fun he _ => by
      rw [List.length_replicate, hk, Nat.and_two_pow_sub_one_eq_mod]
      exact Nat.mod_lt _ (Nat.two_pow_pos k))
  rw [Buckets.flatten_replicate_nil, List.append_nil] at hperm
  exact hperm

theorem slotPlaced_rehashed (ht : Dict K V) (real_size : Nat) :
    (rehashed T ht real_size).SlotPlaced T :=
  (Buckets.placed_replicate _ real_size).rehash _

theorem shape_rehashed {ht : Dict K V} (hs : ht.Shape) (size : Nat) (hused : ht.used ≤ size)
    (hsize : size ≤ 2 ^ 31) :
    (rehashed T ht (dictNextPower size)).Shape ∧
      (rehashed T ht (dictNextPower size)).entries.Perm ht.entries := by
  obtain ⟨k, h4, h31, heq, hle, -⟩ := dictNextPower_spec size hsize
  have hperm := @entries_rehashed _ _ T ht (dictNextPower size) ⟨k, heq⟩
  refine ⟨?_, hperm⟩
  constructor
  · simp [rehashed]
  · exact Or.inr ⟨k, h4, h31, heq⟩
  · exact fun _ => rfl
  · rw [hperm.length_eq]; exact hs.used_eq
  · simp only [rehashed]; omega

-- Room for one more entry, and what the expansion keeps.
theorem dictExpandIfNeeded_cases {ht ht' : Dict K V} {status : DictStatus} (hs : ht.Shape)
    (h : dictExpandIfNeeded T ht = .ok (ht', status)) :
    ht'.Shape ∧ ht'.entries.Perm ht.entries ∧ (status = .DICT_OK → ht'.used < ht'.size) ∧
      (ht.SlotPlaced T → ht'.SlotPlaced T) ∧ (ht.size ≤ 2 ^ 27 → ht'.size ≤ 2 ^ 27) := by
  have hbound : ht.size ≤ 2 ^ 30 ∨ ht.size = 2 ^ 31 := by
    rcases hs.size_pow with h | ⟨k, -, h31, hk⟩
    · omega
    · rcases Nat.lt_or_eq_of_le h31 with h31 | rfl
      · exact Or.inl (hk ▸ Nat.pow_le_pow_right (by omega) (by omega))
      · exact Or.inr hk
  have hgrow (size : Nat) (hsize : size ≤ 2 ^ 31) (hlt : ht.used ≤ size → ht.used < dictNextPower size)
      (h : dictExpand T ht size = .ok (ht', status)) :
      ht'.Shape ∧ ht'.entries.Perm ht.entries ∧ (status = .DICT_OK → ht'.used < ht'.size) ∧
        (ht.SlotPlaced T → ht'.SlotPlaced T) ∧ (ht.size ≤ 2 ^ 27 → ht'.size ≤ 2 ^ 27) := by
    rcases dictExpand_cases T hs size hsize h with ⟨rfl, -, rfl⟩ | ⟨rfl, hused, rfl, hroom⟩
    · exact ⟨hs, List.Perm.refl _, nofun, id, id⟩
    · obtain ⟨hshape, hperm⟩ := shape_rehashed T hs size hused hsize
      exact ⟨hshape, hperm, fun _ => hlt hused, fun _ => slotPlaced_rehashed T ht _, fun _ => hroom⟩
  unfold dictExpandIfNeeded at h
  split at h
  · rename_i hzero
    apply hgrow DICT_HT_INITIAL_SIZE (by decide) _ h
    intro _
    have := hs.used_le
    have := le_dictNextPower DICT_HT_INITIAL_SIZE (by decide)
    simp only [DICT_HT_INITIAL_SIZE] at *
    omega
  · rename_i hzero
    split at h
    · rename_i hfull
      apply hgrow _ (by omega) _ h
      intro hused
      have := le_dictNextPower (ht.size * 2 % 2 ^ 32) (by omega)
      omega
    · rename_i hfull
      cases h
      exact ⟨hs, List.Perm.refl _, fun _ => Nat.lt_of_le_of_ne hs.used_le hfull, id, id⟩

theorem dictExpandIfNeeded_ok {ht : Dict K V} (hs : ht.Shape)
    (hroom : ht.used < ht.size ∨ ht.size < 2 ^ 27) :
    ∃ ht', dictExpandIfNeeded T ht = .ok (ht', .DICT_OK) := by
  unfold dictExpandIfNeeded
  split
  · refine ⟨_, dictExpand_ok T hs _ ?_ (by decide)⟩
    have := hs.used_le
    omega
  · rename_i hzero
    split
    · rename_i hfull
      have hlt : ht.size < 2 ^ 27 := by omega
      rw [Nat.mod_eq_of_lt (by omega)]
      refine ⟨_, dictExpand_ok T hs _ (by omega) ?_⟩
      obtain h | ⟨k, h4, -, hk⟩ := hs.size_pow
      · exact absurd h hzero
      · have h27 : k < 27 := (Nat.pow_lt_pow_iff_right (by omega)).mp (hk ▸ hlt)
        apply dictNextPower_le _ 27 _ (by omega) (by omega)
        calc ht.size * 2 = 2 ^ (k + 1) := by rw [hk, pow_succ]
          _ ≤ 2 ^ 27 := Nat.pow_le_pow_right (by omega) (by omega)
    · exact ⟨ht, rfl⟩

-- A full table of 2^27 slots or more cannot be expanded.
theorem dictExpandIfNeeded_fault {ht : Dict K V} (hs : ht.Shape) (hfull : ht.used = ht.size)
    (hlo : 2 ^ 27 ≤ ht.size) (hhi : ht.size < 2 ^ 31) :
    ∃ fault, dictExpandIfNeeded T ht = .error fault := by
  have hzero : ht.size ≠ 0 := by omega
  unfold dictExpandIfNeeded
  rw [if_neg hzero, if_pos hfull]
  obtain h | ⟨k, -, h31, hk⟩ := hs.size_pow
  · exact absurd h hzero
  · have h31 : k < 31 := (Nat.pow_lt_pow_iff_right (by omega)).mp (hk ▸ hhi)
    have hpow : 2 ^ k ≤ 2 ^ 30 := Nat.pow_le_pow_right (by omega) (by omega)
    exact dictExpand_fault T hs _ (by omega) (by omega) (by omega)

end Expand

section Add

variable (T : DictType K)

-- The table with a new entry linked in front of its chain.
def linked (ht : Dict K V) (key : K) (val : V) : Dict K V :=
  { ht with
    table := ht.table.modify (ht.slot T key) ({ key, val } :: ·)
    used := ht.used + 1 }

theorem dictAdd_eq (ht : Dict K V) (key : K) (val : V) :
    dictAdd T ht key val =
      (dictExpandIfNeeded T ht).bind fun result =>
        if result.2 = .DICT_ERR ∨
            (result.1.chain (result.1.slot T key)).any (fun he => T.keyCompare key he.key) then
          .ok (result.1, .DICT_ERR)
        else .ok (linked T result.1 key val, .DICT_OK) := by
  unfold dictAdd dictKeyIndex
  cases hexp : dictExpandIfNeeded T ht with
  | error fault => rfl
  | ok result =>
      obtain ⟨ht', status⟩ := result
      cases status with
      | DICT_ERR => rfl
      | DICT_OK =>
          cases hany : (ht'.chain (ht'.slot T key)).any (fun he => T.keyCompare key he.key) <;>
            simp [bind, Except.bind, pure, Except.pure, hany, linked]

theorem linked_spec {ht : Dict K V} (hs : ht.Shape) (hlt : ht.used < ht.size) (key : K) (val : V) :
    (linked T ht key val).Shape ∧
      (linked T ht key val).entries.Perm ({ key, val } :: ht.entries) ∧
      (ht.SlotPlaced T → (linked T ht key val).SlotPlaced T) := by
  have hslot := hs.slot_lt T key (by omega)
  have hperm : (linked T ht key val).entries.Perm ({ key, val } :: ht.entries) :=
    Buckets.flatten_modify_perm ht.table (ht.slot T key) ({ key, val } :: ·) hslot
      [{ key, val }] [] (List.Perm.refl _)
  refine ⟨?_, hperm, ?_⟩
  · constructor
    · simpa [linked] using hs.length_table
    · exact hs.size_pow
    · exact hs.size_mask_eq
    · rw [hperm.length_eq, List.length_cons, ← hs.used_eq]; rfl
    · exact hlt
  · intro hp
    apply Buckets.Placed.modify hp
    intro h he hm
    rcases List.mem_cons.mp hm with rfl | hm
    · rfl
    · exact hp _ h he hm

theorem dictAdd_shape {ht ht' : Dict K V} {status : DictStatus} (hs : ht.Shape) (key : K) (val : V)
    (h : dictAdd T ht key val = .ok (ht', status)) :
    ht'.Shape ∧
      (status = .DICT_OK ∧ ht'.entries.Perm ({ key, val } :: ht.entries) ∨
        status = .DICT_ERR ∧ ht'.entries.Perm ht.entries) := by
  rw [dictAdd_eq] at h
  cases hexp : dictExpandIfNeeded T ht with
  | error fault => rw [hexp] at h; cases h
  | ok result =>
      obtain ⟨hshape, hperm, hlt, -, -⟩ := dictExpandIfNeeded_cases T hs hexp
      rw [hexp] at h
      simp only [Except.bind] at h
      split at h
      · cases h
        exact ⟨hshape, Or.inr ⟨rfl, hperm⟩⟩
      · rename_i hok
        cases h
        have hlt := hlt (by cases hr : result.2 <;> simp_all)
        obtain ⟨hshape', hperm', -⟩ := linked_spec T hshape hlt key val
        exact ⟨hshape', Or.inl ⟨rfl, hperm'.trans (hperm.cons _)⟩⟩

end Add

section Delete

variable (T : DictType K)

-- The table with the first entry for the key taken out of its chain.
def unlinked (ht : Dict K V) (key : K) : Dict K V :=
  { ht with
    table := ht.table.modify (ht.slot T key) (List.eraseP fun he => T.keyCompare key he.key)
    used := ht.used - 1 }

theorem dictGenericDelete_eq (ht : Dict K V) (key : K) :
    dictGenericDelete T ht key =
      match dictFind T ht key with
      | none => (ht, none)
      | some he => (unlinked T ht key, some he) := by
  unfold dictGenericDelete dictFind
  split
  · rfl
  · rfl

theorem dictFind_eq_some {ht : Dict K V} {he : DictEntry K V} (hs : ht.Shape) (key : K)
    (hfind : dictFind T ht key = some he) :
    ∃ hslot : ht.slot T key < ht.table.length, T.keyCompare key he.key ∧ ∃ before after,
      ht.table[ht.slot T key] = before ++ he :: after ∧
        ∀ x ∈ before, !T.keyCompare key x.key := by
  unfold dictFind at hfind
  split at hfind
  · cases hfind
  · rename_i hused
    have hslot := hs.slot_lt T key (hs.size_ne_zero hused)
    obtain ⟨hkey, before, after, hchain, hbefore⟩ := List.find?_eq_some_iff_append.mp hfind
    rw [Dict.chain_eq_getElem hslot] at hchain
    exact ⟨hslot, hkey, before, after, hchain, hbefore⟩

theorem unlinked_spec {ht : Dict K V} {he : DictEntry K V} (hs : ht.Shape) (key : K)
    (hfind : dictFind T ht key = some he) :
    (unlinked T ht key).Shape ∧ ht.entries.Perm (he :: (unlinked T ht key).entries) ∧
      (ht.SlotPlaced T → (unlinked T ht key).SlotPlaced T) := by
  obtain ⟨hslot, hkey, before, after, hchain, hbefore⟩ := dictFind_eq_some T hs key hfind
  have herase : (ht.table[ht.slot T key]).eraseP (fun he => T.keyCompare key he.key) =
      before ++ after := by
    rw [hchain, List.eraseP_append_right _ (by simpa using hbefore), List.eraseP_cons, hkey]
    rfl
  have hperm : (he :: (unlinked T ht key).entries).Perm ht.entries := by
    apply Buckets.flatten_modify_perm ht.table (ht.slot T key) _ hslot [] [he]
    rw [herase, hchain, List.nil_append]
    exact (@List.perm_middle _ he before after).symm
  have hlen := hperm.length_eq
  rw [List.length_cons, ← hs.used_eq] at hlen
  refine ⟨⟨?_, hs.size_pow, hs.size_mask_eq, ?_, ?_⟩, hperm.symm, ?_⟩
  · simpa [unlinked] using hs.length_table
  · exact (Nat.eq_sub_of_add_eq hlen).symm
  · exact (Nat.sub_le _ _).trans hs.used_le
  · intro hp
    apply Buckets.Placed.modify hp
    intro h x hx
    exact hp _ h x (List.mem_of_mem_eraseP hx)

end Delete

section SetVal

variable (T : DictType K)

theorem chainSetVal_eq (key : K) (val : V) (before after : List (DictEntry K V))
    (he : DictEntry K V) (hkey : T.keyCompare key he.key)
    (hbefore : ∀ x ∈ before, !T.keyCompare key x.key) :
    chainSetVal T key val (before ++ he :: after) = before ++ { he with val } :: after := by
  induction before with
  | nil => simp [chainSetVal, hkey]
  | cons x rest ih =>
      have hx : T.keyCompare key x.key = false := by simpa using hbefore x (by simp)
      simp only [List.cons_append, chainSetVal, hx]
      rw [ih (fun y hy => hbefore y (by simp [hy]))]
      rfl

-- Only the value of the entry dictFind returns changes.
theorem dictSetHashVal_spec {ht : Dict K V} {he : DictEntry K V} (hs : ht.Shape) (key : K) (val : V)
    (hfind : dictFind T ht key = some he) :
    (dictSetHashVal T ht key val).Shape ∧
      (ht.SlotPlaced T → (dictSetHashVal T ht key val).SlotPlaced T) ∧
      ∃ rest, ht.entries.Perm (he :: rest) ∧
        (dictSetHashVal T ht key val).entries.Perm ({ he with val } :: rest) := by
  obtain ⟨hslot, hkey, before, after, hchain, hbefore⟩ := dictFind_eq_some T hs key hfind
  have hset := chainSetVal_eq T key val before after he hkey hbefore
  have hsplit (x : DictEntry K V) (front back : List (DictEntry K V)) :
      (front ++ (before ++ x :: after ++ back)).Perm (x :: (front ++ (before ++ (after ++ back)))) := by
    rw [List.append_assoc, List.cons_append, ← List.append_assoc, ← List.append_assoc front]
    exact List.perm_middle
  let front := (ht.table.take (ht.slot T key)).flatten
  let back := (ht.table.drop (ht.slot T key + 1)).flatten
  have hold : ht.entries.Perm (he :: (front ++ (before ++ (after ++ back)))) := by
    rw [Dict.entries, Buckets.flatten_eq_split ht.table _ hslot, hchain]
    exact hsplit he front back
  have hnew : (dictSetHashVal T ht key val).entries.Perm
      ({ he with val } :: (front ++ (before ++ (after ++ back)))) := by
    rw [Dict.entries, dictSetHashVal, Buckets.flatten_modify ht.table _ _ hslot, hchain, hset]
    exact hsplit { he with val } front back
  refine ⟨⟨?_, hs.size_pow, hs.size_mask_eq, ?_, hs.used_le⟩, ?_, _, hold, hnew⟩
  · simpa [dictSetHashVal] using hs.length_table
  · rw [hnew.length_eq]
    exact hs.used_eq.trans hold.length_eq
  · intro hp
    apply Buckets.Placed.modify hp
    intro h x hx
    have hslots := hp _ h
    rw [hchain] at hx hslots
    rw [hset] at hx
    simp only [List.mem_append, List.mem_cons] at hx hslots
    rcases hx with hx | rfl | hx
    · exact hslots x (Or.inl hx)
    · exact hslots he (Or.inr (Or.inl rfl))
    · exact hslots x (Or.inr (Or.inr hx))

end SetVal

end Cutis

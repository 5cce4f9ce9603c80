import Cutis.System.Maps

namespace Cutis

-- The test of ServerCron before it calls DictResize.
def CallsResize (dict : Database) : Prop :=
  dict.size ≥ CUTIS_HT_MINSLOTS ∧ dict.used * 100 % 2 ^ 32 / dict.size < CUTIS_HT_MINFILL

instance (dict : Database) : Decidable (CallsResize dict) := inferInstanceAs (Decidable (_ ∧ _))

-- At least 16384 slots, and less than ten percent of them used.
def Sparse (dict : Database) : Prop := 16384 ≤ dict.size ∧ dict.used * 100 < 10 * dict.size

-- The sparse tables are those the cron function resizes, which keeps the mapping and
-- takes slots away.
structure ShrinksSparse (dict : Database) : Prop where
  calls_iff : CallsResize dict ↔ Sparse dict
  shrinks : CallsResize dict → ∃ dict', cronResize dict = .ok dict' ∧
    dict'.contents = dict.contents ∧ dict'.size < dict.size

-- The product does not wrap around, or wraps to ten percent of the slots at least.
def FillCounted (dict : Database) : Prop :=
  dict.size < 16384 ∨ dict.used * 100 < 2 ^ 32 ∨ 10 * dict.size ≤ dict.used * 100 % 2 ^ 32

section Tables

variable {dict : Database}

theorem cronResize_eq (dict : Database) :
    cronResize dict =
      if CallsResize dict then Prod.fst <$> dictResize sdsDictType dict else return dict := rfl

theorem callsResize_iff :
    CallsResize dict ↔ 16384 ≤ dict.size ∧ dict.used * 100 % 2 ^ 32 < 10 * dict.size := by
  rw [CallsResize, CUTIS_HT_MINSLOTS, CUTIS_HT_MINFILL]
  refine and_congr_right fun hsize => ?_
  rw [Nat.div_lt_iff_lt_mul (by omega)]

theorem callsResize_iff_sparse (h : SoundDatabase dict) :
    (CallsResize dict ↔ Sparse dict) ↔ FillCounted dict := by
  have hlimit := h.size_le
  rw [callsResize_iff, Sparse, FillCounted]
  omega

-- A sparse table has room for its entries in half of its slots.
theorem Sparse.shrinks (hsparse : Sparse dict) (h : SoundDatabase dict) :
    ∃ dict', dictResize sdsDictType dict = .ok (dict', .DICT_OK) ∧
      dict'.contents = dict.contents ∧ dict'.size < dict.size := by
  obtain ⟨hlarge, hfill⟩ := hsparse
  obtain ⟨dict', -, hresize, hcontents⟩ := h.dictResize_ok
  refine ⟨dict', hresize, hcontents, ?_⟩
  obtain ⟨k, h4, h31, hk⟩ := h.size_pow.resolve_left (by omega)
  have hk14 : 14 ≤ k := by
    by_contra hlt
    have hpow : 2 ^ k ≤ 2 ^ 13 := Nat.pow_le_pow_right (by decide) (by omega)
    omega
  have hhalf : 2 ^ k = 2 * 2 ^ (k - 1) := by
    rw [← Nat.pow_succ', Nat.succ_eq_add_one, Nat.sub_add_cancel (by omega)]
  generalize hminimal : (if dict.used < DICT_HT_INITIAL_SIZE then DICT_HT_INITIAL_SIZE
    else dict.used) = minimal
  have hbounds : dict.used ≤ minimal ∧ minimal ≤ 2 ^ (k - 1) := by
    rw [← hminimal, DICT_HT_INITIAL_SIZE]
    split_ifs <;> omega
  have hnext : dictNextPower minimal ≤ 2 ^ (k - 1) :=
    dictNextPower_le _ _ hbounds.2 (by omega) (by omega)
  have hroom : dictNextPower minimal ≤ 2 ^ 27 := hnext.trans (by have := h.size_le; omega)
  have hexpand := dictExpand_ok sdsDictType h.toShape minimal hbounds.1 hroom
  rw [dictResize, hminimal, hexpand] at hresize
  cases hresize
  show dictNextPower minimal < dict.size
  omega

theorem shrinksSparse_of_sound (h : SoundDatabase dict) :
    ShrinksSparse dict ↔ FillCounted dict := by
  rw [← callsResize_iff_sparse h]
  refine ⟨fun hshrinks => hshrinks.calls_iff, fun hcalls => ⟨hcalls, fun hresize => ?_⟩⟩
  obtain ⟨dict', hdict', hcontents, hsize⟩ := (hcalls.mp hresize).shrinks h
  refine ⟨dict', ?_, hcontents, hsize⟩
  rw [cronResize_eq, if_pos hresize, hdict']
  rfl

end Tables

namespace System

variable {ι : Type} [DecidableEq ι]

-- The decision is right exactly where the unsigned product of the percentage is.
theorem shrinksSparse_iff {σ : System ι} (h : σ.Reachable) {dict : Database}
    (hdict : dict ∈ σ.server.dict) : ShrinksSparse dict ↔ FillCounted dict :=
  shrinksSparse_of_sound (h.sound.dict dict hdict)

-- A thousand entries in 2^27 slots.
theorem shrinksSparse_thousand :
    ∃ dict ∈ (filled 1000).server.dict, dict.size = 2 ^ 27 ∧ dict.used = 1000 ∧ Sparse dict ∧
      ShrinksSparse dict ∧ ∃ dict', cronResize dict = .ok dict' ∧
        dict'.contents = dict.contents ∧ dict'.size < dict.size := by
  have hstart := start_filled (show 1000 ≤ 2 ^ 27 by decide)
  have hsize : (tableOf sdsDictType 27 (decimalEntries 1000)).size = 2 ^ 27 := rfl
  have hused : (tableOf sdsDictType 27 (decimalEntries 1000)).used = 1000 :=
    used_decimalEntries _ _ _
  have hsparse : Sparse (tableOf sdsDictType 27 (decimalEntries 1000)) := by
    rw [Sparse, hsize, hused]
    decide
  have hshrinks : ShrinksSparse (tableOf sdsDictType 27 (decimalEntries 1000)) :=
    (shrinksSparse_iff (Runs.Reach.start hstart) (List.mem_singleton.mpr rfl)).mpr
      (Or.inr (Or.inl (by rw [hused]; decide)))
  exact ⟨_, List.mem_singleton.mpr rfl, hsize, hused, hsparse, hshrinks,
    hshrinks.shrinks (hshrinks.calls_iff.mpr hsparse)⟩

-- 42949673 entries, the first number whose product wraps around, in 2^27 slots.
theorem not_shrinksSparse_filled :
    (filled 42949673).Reachable ∧
      ∃ dict ∈ (filled 42949673).server.dict, dict.size = 2 ^ 27 ∧ dict.used = 42949673 ∧
        ¬ShrinksSparse dict := by
  have hstart := start_filled (show 42949673 ≤ 2 ^ 27 by decide)
  have hsize : (tableOf sdsDictType 27 (decimalEntries 42949673)).size = 2 ^ 27 := rfl
  have hused : (tableOf sdsDictType 27 (decimalEntries 42949673)).used = 42949673 :=
    used_decimalEntries _ _ _
  refine ⟨Runs.Reach.start hstart, _, List.mem_singleton.mpr rfl, hsize, hused, ?_⟩
  rw [shrinksSparse_of_sound (soundDatabase_filled (by decide)), FillCounted, hsize, hused]
  decide

end System

end Cutis

import Cutis.Dict.Refinement
import Mathlib.Order.Interval.Finset.Nat

namespace Cutis

variable {K V : Type}

inductive DictOp (K V : Type)
  | add (key : K) (val : V)
  | replace (key : K) (val : V)
  | delete (key : K)
  | deleteNoFree (key : K)
  | resize
  | empty

def DictStatus.ofEntry (he : Option (DictEntry K V)) : DictStatus :=
  if he.isSome then .DICT_OK else .DICT_ERR

def dictStep (T : DictType K) (ht : Dict K V) : DictOp K V → Except Fault (Dict K V × DictStatus)
  | .add key val => dictAdd T ht key val
  | .replace key val => (dictReplace T ht key val).map fun result => (result.1, .DICT_OK)
  | .delete key => .ok ((dictDelete T ht key).1, .ofEntry (dictDelete T ht key).2)
  | .deleteNoFree key =>
      .ok ((dictDeleteNoFree T ht key).1, .ofEntry (dictDeleteNoFree T ht key).2)
  | .resize => dictResize T ht
  | .empty => .ok (dictEmpty ht, .DICT_OK)

-- The finite map the table stands for, and the status each operation owes.
def mapStep [DecidableEq K] (m : Finmap fun _ : K => V) :
    DictOp K V → (Finmap fun _ : K => V) × DictStatus
  | .add key val => if key ∈ m then (m, .DICT_ERR) else (m.insert key val, .DICT_OK)
  | .replace key val => (m.insert key val, .DICT_OK)
  | .delete key | .deleteNoFree key =>
      if key ∈ m then (m.erase key, .DICT_OK) else (m, .DICT_ERR)
  | .resize => (m, .DICT_OK)
  | .empty => (∅, .DICT_OK)

-- The operations that go through dictAdd.
def DictOp.adds : DictOp K V → Bool
  | .add _ _ | .replace _ _ => true
  | _ => false

variable [DecidableEq K]

def mapAfter (ops : List (DictOp K V)) : Finmap fun _ : K => V := (Runs.trace mapStep ∅ ops).1

-- After every part of the run the table has answered as the map does, finds
-- what the map holds and is well formed.
def RefinesMap (T : DictType K) (ops : List (DictOp K V)) : Prop :=
  ∀ done, done <+: ops → ∃ ht, Runs.run (dictStep T) dictCreate done =
      .ok (ht, (Runs.trace mapStep ∅ done).2) ∧
    (∀ key, (dictFind T ht key).map DictEntry.val = (mapAfter done).lookup key) ∧ ht.Inv T

def HoldsFewer (bound : Nat) (ops : List (DictOp K V)) : Prop :=
  ∀ done, done <+: ops → (mapAfter done).keys.card < bound

-- Additions are made only while the table holds fewer than 2^27 entries.
def RoomForAdds (ops : List (DictOp K V)) : Prop :=
  ∀ done op, done ++ [op] <+: ops → op.adds → (mapAfter done).keys.card < 2 ^ 27

-- The room an operation needs in the table of a map.
def DictOp.Fits (m : Finmap fun _ : K => V) (op : DictOp K V) : Prop :=
  op.adds → m.keys.card < 2 ^ 27

-- A table in use stands for a map.
def Represents (T : DictType K) (ht : Dict K V) (m : Finmap fun _ : K => V) : Prop :=
  ht.Sound T ∧ ht.toFinmap = m

variable {T : DictType K}

theorem Dict.Inv.atLimit_iff {ht : Dict K V} (h : ht.Inv T) :
    ht.AtLimit ↔ ht.toFinmap.keys.card = 2 ^ 27 := by
  rw [h.card_keys]; rfl

theorem dictStep_ok (hT : T.Lawful) (ht : Dict K V) (m : Finmap fun _ : K => V) (op : DictOp K V)
    (h : Represents T ht m) (hroom : op.Fits m) :
    ∃ ht', dictStep T ht op = .ok (ht', (mapStep m op).2) ∧
      Represents T ht' (mapStep m op).1 := by
  obtain ⟨h, rfl⟩ := h
  have hlimit (hadds : op.adds) : ¬ht.AtLimit := by
    rw [h.toInv.atLimit_iff]
    exact (hroom hadds).ne
  have hdelete (key : K) :
      (.ok ((dictGenericDelete T ht key).1, DictStatus.ofEntry (dictGenericDelete T ht key).2) :
          Except Fault _) =
        .ok ((dictGenericDelete T ht key).1, (mapStep ht.toFinmap (.delete key)).2) ∧
      (dictGenericDelete T ht key).1.Sound T ∧
      (dictGenericDelete T ht key).1.toFinmap = (mapStep ht.toFinmap (.delete key)).1 := by
    obtain ⟨-, hmap, hentry⟩ := dictGenericDelete_map hT h.toInv key
    refine ⟨?_, h.dictGenericDelete hT key, ?_⟩
    · rw [hentry]
      by_cases hm : key ∈ ht.toFinmap
      · obtain ⟨val, hval⟩ := Finmap.mem_iff.mp hm
        simp [mapStep, hm, hval, DictStatus.ofEntry]
      · simp [mapStep, hm, Finmap.lookup_eq_none.mpr hm, DictStatus.ofEntry]
    · rw [hmap]
      by_cases hm : key ∈ ht.toFinmap
      · simp [mapStep, hm]
      · simp [mapStep, hm, FiniteMap.erase_of_notMem hm]
  cases op with
  | add key val =>
      obtain ⟨ht', h', hadd, hmap⟩ := h.dictAdd_ok hT key val (hlimit rfl)
      refine ⟨ht', ?_, h', ?_⟩
      · simp only [dictStep, hadd, mapStep]
        split_ifs <;> rfl
      · simp only [hmap, mapStep]
        split_ifs <;> rfl
  | replace key val =>
      obtain ⟨ht', h', hreplace, hmap⟩ := h.dictReplace_ok hT key val (hlimit rfl)
      exact ⟨ht', by simp only [dictStep, hreplace, Except.map, mapStep], h', hmap⟩
  | delete key => exact ⟨_, hdelete key⟩
  | deleteNoFree key => exact ⟨_, hdelete key⟩
  | resize =>
      obtain ⟨ht', h', hresize, hmap⟩ := h.dictResize_ok
      exact ⟨ht', hresize, h', hmap⟩
  | empty => exact ⟨_, rfl, sound_dictCreate T, rfl⟩

theorem dictStep_fault (ht : Dict K V) (m : Finmap fun _ : K => V) (op : DictOp K V)
    (h : Represents T ht m) (hroom : ¬op.Fits m) : ∃ fault, dictStep T ht op = .error fault := by
  obtain ⟨h, rfl⟩ := h
  obtain ⟨hadds, hfull⟩ := Classical.not_imp.mp hroom
  have hlimit : ht.AtLimit := by
    have hcard := h.toInv.card_keys
    have hused := h.used_le_limit
    simp only [Dict.AtLimit]
    omega
  cases op with
  | add key val => exact h.dictAdd_fault key val hlimit
  | replace key val =>
      obtain ⟨fault, hf⟩ := h.dictReplace_fault key val hlimit
      exact ⟨fault, by simp only [dictStep, hf, Except.map]⟩
  | delete | deleteNoFree | resize | empty => cases hadds

theorem represents_dictCreate (T : DictType K) :
    Represents T (dictCreate : Dict K V) ∅ := ⟨sound_dictCreate T, toFinmap_dictCreate⟩

theorem refinesMap_of_room (hT : T.Lawful) {ops : List (DictOp K V)} (hroom : RoomForAdds ops) :
    RefinesMap T ops := by
  intro done hdone
  have halong : Runs.Along mapStep (fun m op => op.Fits m) ∅ ops :=
    (Runs.along_iff mapStep _ ∅ ops).mpr hroom
  obtain ⟨ht, hrun, hsound, hmap⟩ := Runs.run_simulates (dictStep_ok hT) done dictCreate ∅
    (represents_dictCreate T) (Runs.along_prefix halong hdone)
  refine ⟨ht, hrun, fun key => ?_, hsound.toInv⟩
  rw [dictFind_map_val hT hsound.toInv, hmap]
  rfl

theorem room_of_refinesMap (hT : T.Lawful) {ops : List (DictOp K V)} (h : RefinesMap T ops) :
    RoomForAdds ops := by
  obtain ⟨ht, hrun, -⟩ := h ops (List.prefix_refl ops)
  exact (Runs.along_iff mapStep _ ∅ ops).mp (Runs.along_of_run (dictStep_ok hT) dictStep_fault ops
    dictCreate ∅ (represents_dictCreate T) _ hrun)

-- The table is a finite map as long as no addition finds 2^27 entries.
theorem refinesMap_iff_room (T : DictType K) (hT : T.Lawful) (ops : List (DictOp K V)) :
    RefinesMap T ops ↔ RoomForAdds ops :=
  ⟨room_of_refinesMap hT, refinesMap_of_room hT⟩

def natDictType : DictType Nat where
  hashFunction key := key.toUInt32
  keyCompare key1 key2 := key1 == key2

theorem natDictType_lawful : natDictType.Lawful := ⟨fun _ _ => beq_iff_eq⟩

theorem refinesMap_add_one : RefinesMap natDictType [DictOp.add 1 'a', .delete 1] :=
  (refinesMap_iff_room natDictType natDictType_lawful _).mpr (by
    intro done op hprefix hadds
    obtain ⟨rest, hrest⟩ := hprefix
    match done, hrest with
    | [], _ => decide
    | [_], hrest => cases hrest; cases hadds
    | _ :: _ :: _, hrest => simp at hrest)

-- One addition more than a table can hold.
def fillingRun : List (DictOp Nat Unit) :=
  (List.range (2 ^ 27 + 1)).map fun key => .add key ()

theorem keys_mapAfter_range (n : Nat) :
    (mapAfter ((List.range n).map fun key => DictOp.add key ())).keys = Finset.range n := by
  induction n with
  | zero => rfl
  | succ n ih =>
      have hn : n ∉ mapAfter ((List.range n).map fun key => DictOp.add key ()) := by
        rw [← Finmap.mem_keys, ih, Finset.mem_range]
        exact Nat.lt_irrefl n
      rw [List.range_succ, List.map_append, mapAfter, Runs.trace_append]
      change (mapStep (mapAfter _) (.add n ())).1.keys = _
      rw [mapStep, if_neg hn, FiniteMap.keys_insert, ih, Finset.range_add_one]

theorem fillingRun_prefix {done : List (DictOp Nat Unit)} (h : done <+: fillingRun) :
    ∃ n, n ≤ 2 ^ 27 + 1 ∧ done = (List.range n).map fun key => .add key () := by
  refine ⟨min done.length (2 ^ 27 + 1), Nat.min_le_right _ _, ?_⟩
  conv_lhs => rw [List.prefix_iff_eq_take.mp h]
  rw [fillingRun, ← List.map_take, List.take_range]

theorem not_refinesMap_fillingRun :
    natDictType.Lawful ∧ HoldsFewer (2 ^ 30) fillingRun ∧ ¬RefinesMap natDictType fillingRun := by
  refine ⟨natDictType_lawful, ?_, ?_⟩
  · intro done hdone
    obtain ⟨n, hn, rfl⟩ := fillingRun_prefix hdone
    rw [keys_mapAfter_range, Finset.card_range]
    omega
  · intro h
    have hroom := room_of_refinesMap natDictType_lawful h
      ((List.range (2 ^ 27)).map fun key => .add key ()) (.add (2 ^ 27) ()) ?_ rfl
    · rw [keys_mapAfter_range, Finset.card_range] at hroom
      exact Nat.lt_irrefl _ hroom
    · rw [fillingRun, List.range_succ, List.map_append]
      exact List.prefix_refl _

end Cutis

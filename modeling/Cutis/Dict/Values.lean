import Cutis.Dict.Refinement
import Mathlib.Algebra.Order.Group.Multiset

namespace Cutis

variable {K V : Type}

-- The values of a table, each as often as entries hold it.
def Dict.vals (ht : Dict K V) : Multiset V := (ht.entries.map DictEntry.val : List V)

-- The keys of a table.
def Dict.keyList (ht : Dict K V) : Multiset K := (ht.entries.map DictEntry.key : List K)

section Clear

theorem clearTable_eq (table : List (List (DictEntry K V))) (used : Nat)
    (hused : used = table.flatten.length) : clearTable table used = table.flatten := by
  induction table generalizing used with
  | nil => rfl
  | cons chain rest ih =>
      rw [List.flatten_cons, List.length_append] at hused
      rw [clearTable, List.flatten_cons]
      split
      · rw [ih _ (by omega)]
      · have hchain : chain = [] := List.length_eq_zero_iff.mp (by omega)
        have hrest : rest.flatten = [] := List.length_eq_zero_iff.mp (by omega)
        rw [hchain, hrest, List.append_nil]

-- Clearing a table frees each of its entries once.
theorem Dict.Shape.dictClear_eq {ht : Dict K V} (hs : ht.Shape) : (dictClear ht).2 = ht.entries :=
  clearTable_eq ht.table ht.used hs.used_eq

end Clear

section Vals

variable {ht ht' : Dict K V}

@[simp] theorem vals_dictCreate : (dictCreate : Dict K V).vals = 0 := rfl

theorem vals_of_perm {entries : List (DictEntry K V)} (hp : ht.entries.Perm entries) :
    ht.vals = (entries.map DictEntry.val : List V) :=
  Multiset.coe_eq_coe.mpr (hp.map _)

theorem keyList_of_perm {entries : List (DictEntry K V)} (hp : ht.entries.Perm entries) :
    ht.keyList = (entries.map DictEntry.key : List K) :=
  Multiset.coe_eq_coe.mpr (hp.map _)

theorem vals_cons {he : DictEntry K V} {rest : List (DictEntry K V)}
    (hp : ht.entries.Perm (he :: rest)) :
    ht.vals = he.val ::ₘ (rest.map DictEntry.val : List V) :=
  vals_of_perm hp

theorem mem_vals {he : DictEntry K V} (h : he ∈ ht.entries) : he.val ∈ ht.vals :=
  Multiset.mem_coe.mpr (List.mem_map_of_mem h)

theorem dictFind_mem {T : DictType K} (hs : ht.Shape) {key : K} {de : DictEntry K V}
    (hfind : dictFind T ht key = some de) : de ∈ ht.entries := by
  obtain ⟨hslot, -, before, after, hchain, -⟩ := dictFind_eq_some T hs key hfind
  apply Dict.mem_entries_of_chain (h := ht.slot T key)
  rw [Dict.chain_eq_getElem hslot, hchain]
  exact List.mem_append_right _ List.mem_cons_self

-- What a deletion takes out.
theorem dictGenericDelete_vals {T : DictType K} (hs : ht.Shape) (key : K)
    {de : Option (DictEntry K V)} (hdel : dictGenericDelete T ht key = (ht', de)) :
    ht'.Shape ∧ de = dictFind T ht key ∧
      match de with
      | none => ht' = ht
      | some de => ht.vals = de.val ::ₘ ht'.vals ∧ ht.keyList = de.key ::ₘ ht'.keyList := by
  rw [dictGenericDelete_eq] at hdel
  cases hfind : dictFind T ht key with
  | none =>
      rw [hfind] at hdel
      cases hdel
      exact ⟨hs, rfl, rfl⟩
  | some he =>
      rw [hfind] at hdel
      cases hdel
      obtain ⟨hs', hperm, -⟩ := unlinked_spec T hs key hfind
      exact ⟨hs', rfl, vals_cons hperm, keyList_of_perm hperm⟩

-- What an addition adds.
theorem dictAdd_vals {T : DictType K} (hs : ht.Shape) {key : K} {val : V} {status : DictStatus}
    (hadd : dictAdd T ht key val = .ok (ht', status)) :
    ht'.Shape ∧
      match status with
      | .DICT_OK => ht'.vals = val ::ₘ ht.vals ∧ ht'.keyList = key ::ₘ ht.keyList
      | .DICT_ERR => ht'.vals = ht.vals ∧ ht'.keyList = ht.keyList := by
  obtain ⟨hs', ⟨rfl, hperm⟩ | ⟨rfl, hperm⟩⟩ := dictAdd_shape T hs key val hadd
  · exact ⟨hs', vals_cons hperm, keyList_of_perm hperm⟩
  · exact ⟨hs', vals_of_perm hperm, keyList_of_perm hperm⟩

end Vals

namespace Dict.Sound

variable [DecidableEq K] {T : DictType K} {ht ht' : Dict K V}

-- A key that is not found can be added.
theorem dictAdd_status (hT : T.Lawful) (h : ht.Sound T) {key : K} {val : V} {status : DictStatus}
    (hadd : dictAdd T ht key val = .ok (ht', status)) :
    status = .DICT_OK ↔ dictFind T ht key = none := by
  by_cases hlimit : ht.AtLimit
  · obtain ⟨fault, hf⟩ := h.dictAdd_fault key val hlimit
    rw [hf] at hadd
    cases hadd
  · obtain ⟨ht'', -, hadd', -⟩ := h.dictAdd_ok hT key val hlimit
    rw [hadd'] at hadd
    cases hadd
    rw [dictFind_isNone_iff hT h.toInv]
    split_ifs with hkey
    · exact ⟨nofun, fun hnot => absurd hkey hnot⟩
    · exact ⟨fun _ => hkey, fun _ => rfl⟩

-- A replacement gives the old value back.
theorem dictReplace_vals (hT : T.Lawful) (h : ht.Sound T) {key : K} {val : V} {old : Option V}
    (hrep : dictReplace T ht key val = .ok (ht', old)) :
    ht'.Sound T ∧ val ∈ ht'.vals ∧
      match old with
      | none => ht'.vals = val ::ₘ ht.vals
      | some old => old ::ₘ ht'.vals = val ::ₘ ht.vals := by
  unfold dictReplace at hrep
  cases hadd : dictAdd T ht key val with
  | error fault =>
      rw [hadd] at hrep
      cases hrep
  | ok added =>
      obtain ⟨ht₁, status⟩ := added
      have h₁ := h.dictAdd_returns hT hadd
      rw [hadd] at hrep
      cases status with
      | DICT_OK =>
          cases hrep
          have hvals := (dictAdd_vals h.toShape hadd).2.1
          exact ⟨h₁, hvals ▸ Multiset.mem_cons_self _ _, hvals⟩
      | DICT_ERR =>
          obtain ⟨-, hvals, -⟩ := dictAdd_vals h.toShape hadd
          simp only [bind, Except.bind, reduceCtorEq, if_false] at hrep
          cases hfind : dictFind T ht₁ key with
          | none =>
              rw [hfind] at hrep
              cases hrep
          | some de =>
              rw [hfind] at hrep
              cases hrep
              have hm : key ∈ ht₁.toFinmap := by
                by_contra hnot
                rw [(dictFind_isNone_iff hT h₁.toInv key).mpr hnot] at hfind
                cases hfind
              obtain ⟨-, -, rest, hbefore, hafter⟩ :=
                dictSetHashVal_spec T h₁.toShape key val hfind
              refine ⟨h₁.dictSetHashVal hT key val hm, ?_, ?_⟩
              · rw [vals_cons hafter]
                exact Multiset.mem_cons_self _ _
              calc de.val ::ₘ (Cutis.dictSetHashVal T ht₁ key val).vals
                  = de.val ::ₘ val ::ₘ ((rest.map DictEntry.val : List V) : Multiset V) := by
                    rw [vals_cons hafter]
                _ = val ::ₘ ht₁.vals := by rw [Multiset.cons_swap, vals_cons hbefore]
                _ = val ::ₘ ht.vals := by rw [hvals]

theorem dictResize_vals (h : ht.Sound T) {status : DictStatus}
    (hres : dictResize T ht = .ok (ht', status)) : ht'.Sound T ∧ ht'.vals = ht.vals := by
  obtain ⟨ht'', h'', hres', -⟩ := h.dictResize_ok
  rw [hres] at hres'
  cases hres'
  refine ⟨h'', ?_⟩
  unfold dictResize at hres
  have hused := h.used_le_limit
  have hminimal :
      (if ht.used < DICT_HT_INITIAL_SIZE then DICT_HT_INITIAL_SIZE else ht.used) ≤ 2 ^ 31 := by
    rw [DICT_HT_INITIAL_SIZE]
    split <;> omega
  rcases dictExpand_cases T h.toShape _ hminimal hres with ⟨-, -, rfl⟩ | ⟨-, hle, rfl, -⟩
  · rfl
  · exact vals_of_perm (shape_rehashed T h.toShape _ hle hminimal).2

end Dict.Sound

end Cutis

import Cutis.Dict.Lemmas

namespace Cutis

variable {K V : Type}

-- The entries an iterator has still to return.
def DictIterator.remaining (ht : Dict K V) (iter : DictIterator K V) : List (DictEntry K V) :=
  (if iter.entry = [] then [] else iter.next_entry) ++
    (ht.table.drop (iter.index + 1).toNat).flatten

-- What one call of dictNext owes: the first remaining entry, if there is one.
def NextReturns (ht : Dict K V) (remaining : List (DictEntry K V))
    (result : Option (DictEntry K V) × DictIterator K V) : Prop :=
  match remaining with
  | [] => result.1 = none
  | he :: rest => result.1 = some he ∧ result.2.remaining ht = rest ∧ -1 ≤ result.2.index

-- The scan over the slots from i on.
theorem dictNextLoop_scan {ht : Dict K V} (hs : ht.Shape) (hsize : ht.size < 2 ^ 31)
    (fuel i : Nat) (next_entry : List (DictEntry K V)) (hfuel : ht.size < fuel + i) :
    NextReturns ht (ht.table.drop i).flatten
      (dictNextLoop ht fuel { index := (i : Int) - 1, entry := [], next_entry }) := by
  have hint : toInt32 ht.size = ht.size := toInt32_natCast _ hsize
  induction fuel generalizing i with
  | zero =>
      rw [List.drop_eq_nil_of_le (by rw [hs.length_table]; omega)]
      rfl
  | succ fuel ih =>
      by_cases hi : i < ht.size
      · have hlt : i < ht.table.length := by rw [hs.length_table]; exact hi
        have hstop : ¬((i : Int) - 1 + 1 ≥ toInt32 ht.size) := by rw [hint]; omega
        have htoNat : ((i : Int) - 1 + 1).toNat = i := by omega
        rw [List.drop_eq_getElem_cons hlt, List.flatten_cons]
        simp only [dictNextLoop, true_and, hstop, if_false, if_true, htoNat,
          Dict.chain_eq_getElem hlt]
        cases hchain : ht.table[i] with
        | nil =>
            have hnext := ih (i + 1) (by omega)
            simpa [hchain, Int.sub_add_cancel] using hnext
        | cons he next =>
            exact ⟨rfl, by simp [DictIterator.remaining], by simp only; omega⟩
      · have hstop : (i : Int) - 1 + 1 ≥ toInt32 ht.size := by rw [hint]; omega
        rw [List.drop_eq_nil_of_le (by rw [hs.length_table]; omega)]
        simp only [dictNextLoop, true_and, hstop, if_true]
        rfl

theorem dictNext_spec {ht : Dict K V} (hs : ht.Shape) (hsize : ht.size < 2 ^ 31)
    (iter : DictIterator K V) (hindex : -1 ≤ iter.index) :
    NextReturns ht (iter.remaining ht) (dictNext ht iter) := by
  obtain ⟨index, entry, next_entry⟩ := iter
  obtain ⟨i, rfl⟩ : ∃ i : Nat, index = (i : Int) - 1 :=
    ⟨(index + 1).toNat, by simp only at hindex; omega⟩
  have htoNat : ((i : Int) - 1 + 1).toNat = i := by omega
  cases entry with
  | nil =>
      have hscan := dictNextLoop_scan hs hsize (ht.size + 2) i next_entry (by omega)
      simpa [DictIterator.remaining, htoNat, dictNext] using hscan
  | cons current rest =>
      cases next_entry with
      | nil =>
          have hscan := dictNextLoop_scan hs hsize (ht.size + 1) i [] (by omega)
          simpa [DictIterator.remaining, htoNat, dictNext, dictNextLoop] using hscan
      | cons he next =>
          simp only [dictNext, dictNextLoop, DictIterator.remaining, htoNat]
          exact ⟨rfl, by simp [DictIterator.remaining], hindex⟩

theorem dictIterateLoop_eq {ht : Dict K V} (hs : ht.Shape) (hsize : ht.size < 2 ^ 31) (fuel : Nat)
    (iter : DictIterator K V) (hindex : -1 ≤ iter.index)
    (hfuel : (iter.remaining ht).length < fuel) :
    dictIterateLoop ht fuel iter = iter.remaining ht := by
  induction fuel generalizing iter with
  | zero => omega
  | succ fuel ih =>
      have hnext := dictNext_spec hs hsize iter hindex
      obtain ⟨⟨he, iter'⟩, hres⟩ : ∃ r, dictNext ht iter = r := ⟨_, rfl⟩
      rw [hres] at hnext
      cases hrem : iter.remaining ht with
      | nil =>
          rw [hrem] at hnext
          obtain rfl : he = none := hnext
          simp only [dictIterateLoop, hres]
      | cons entry rest =>
          rw [hrem] at hnext hfuel
          obtain ⟨rfl, hrest, hindex'⟩ :
              he = some entry ∧ iter'.remaining ht = rest ∧ -1 ≤ iter'.index := hnext
          simp only [dictIterateLoop, hres]
          rw [ih iter' hindex' (by rw [hrest]; simpa using hfuel), hrest]

-- A whole iteration returns every entry once, slot by slot.
theorem dictIterate_eq {ht : Dict K V} (hs : ht.Shape) (hsize : ht.size < 2 ^ 31) :
    dictIterate ht = ht.entries := by
  have hrem : (dictGetIterator : DictIterator K V).remaining ht = ht.entries := rfl
  have hstart : -1 ≤ (dictGetIterator : DictIterator K V).index := Int.le_refl _
  rw [dictIterate, dictIterateLoop_eq hs hsize _ _ hstart (by rw [hrem, hs.used_eq]; omega), hrem]

-- Even in a table too large for the index an iteration returns entries only.
theorem dictNextLoop_mem {ht : Dict K V} (fuel : Nat) {iter iter' : DictIterator K V}
    {he : DictEntry K V} (hnext : ∀ x ∈ iter.next_entry, x ∈ ht.entries)
    (h : dictNextLoop ht fuel iter = (some he, iter')) :
    he ∈ ht.entries ∧ ∀ x ∈ iter'.next_entry, x ∈ ht.entries := by
  induction fuel generalizing iter with
  | zero => cases h
  | succ fuel ih =>
      rw [dictNextLoop] at h
      split at h
      · cases h
      · dsimp only at h
        split at h
        · rename_i first next hentry
          have hmem : ∀ x ∈ first :: next, x ∈ ht.entries := by
            rw [← hentry]
            split
            · exact fun x => Dict.mem_entries_of_chain
            · exact hnext
          cases h
          exact ⟨hmem he List.mem_cons_self, fun x hx => hmem x (List.mem_cons_of_mem _ hx)⟩
        · refine ih ?_ h
          split <;> exact hnext

theorem dictIterateLoop_mem {ht : Dict K V} (fuel : Nat) {iter : DictIterator K V}
    {he : DictEntry K V} (hnext : ∀ x ∈ iter.next_entry, x ∈ ht.entries)
    (h : he ∈ dictIterateLoop ht fuel iter) : he ∈ ht.entries := by
  induction fuel generalizing iter with
  | zero => cases h
  | succ fuel ih =>
      rw [dictIterateLoop] at h
      split at h
      · cases h
      · rename_i first iter' hfirst
        obtain ⟨hmem, hnext'⟩ := dictNextLoop_mem _ hnext hfirst
        rcases List.mem_cons.mp h with rfl | h
        · exact hmem
        · exact ih hnext' h

theorem dictIterate_mem {ht : Dict K V} {he : DictEntry K V} (h : he ∈ dictIterate ht) :
    he ∈ ht.entries :=
  dictIterateLoop_mem _ (fun _ hx => absurd hx List.not_mem_nil) h

end Cutis

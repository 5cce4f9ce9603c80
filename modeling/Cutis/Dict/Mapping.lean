import Cutis.Dict.Values

namespace Cutis

variable {K V K' V' : Type}

def DictEntry.map (f : K → K') (g : V → V') (he : DictEntry K V) : DictEntry K' V' :=
  { key := f he.key, val := g he.val }

-- The table with other keys and values in the same places.
def Dict.map (f : K → K') (g : V → V') (ht : Dict K V) : Dict K' V' where
  table := ht.table.map (List.map (DictEntry.map f g))
  size := ht.size
  size_mask := ht.size_mask
  used := ht.used

-- A key is hashed and compared as the one it is mapped to.
structure DictType.Maps (T : DictType K) (T' : DictType K') (f : K → K') : Prop where
  hash : ∀ key, T'.hashFunction (f key) = T.hashFunction key
  compare : ∀ key1 key2, T'.keyCompare (f key1) (f key2) = T.keyCompare key1 key2

-- An entry linked into a chain.
theorem map_link (f : K → K') (g : V → V') (table : List (List (DictEntry K V))) (h : Nat)
    (he : DictEntry K V) :
    (table.map (List.map (DictEntry.map f g))).modify h (DictEntry.map f g he :: ·) =
      (table.modify h (he :: ·)).map (List.map (DictEntry.map f g)) :=
  (Buckets.map_modify (f := (he :: ·)) (DictEntry.map f g) (fun _ => rfl) table h).symm

namespace Dict

variable (f : K → K') (g : V → V') (ht : Dict K V)

@[simp] theorem map_size : (ht.map f g).size = ht.size := rfl

@[simp] theorem map_used : (ht.map f g).used = ht.used := rfl

@[simp] theorem map_size_mask : (ht.map f g).size_mask = ht.size_mask := rfl

@[simp] theorem map_table : (ht.map f g).table = ht.table.map (List.map (DictEntry.map f g)) := rfl

@[simp] theorem chain_map (h : Nat) :
    (ht.map f g).chain h = (ht.chain h).map (DictEntry.map f g) := by
  rw [chain, chain, map_table, List.getD_eq_getElem?_getD, List.getD_eq_getElem?_getD,
    List.getElem?_map]
  cases ht.table[h]? <;> rfl

-- Only the keys and values that are in the table count.
theorem map_congr {f f' : K → K'} {g g' : V → V'} {ht : Dict K V}
    (h : ∀ he ∈ ht.entries, f' he.key = f he.key ∧ g' he.val = g he.val) :
    ht.map f' g' = ht.map f g := by
  have htable : ht.table.map (List.map (DictEntry.map f' g')) =
      ht.table.map (List.map (DictEntry.map f g)) := by
    refine List.map_congr_left fun chain hchain => List.map_congr_left fun he hhe => ?_
    obtain ⟨hkey, hval⟩ := h he (List.mem_flatten_of_mem hchain hhe)
    rw [DictEntry.map, DictEntry.map, hkey, hval]
  rw [map, map, htable]

end Dict

section SetVal

variable (T : DictType K)

theorem chainSetVal_chainSetVal (key : K) (val val' : V) (chain : List (DictEntry K V)) :
    chainSetVal T key val' (chainSetVal T key val chain) = chainSetVal T key val' chain := by
  induction chain with
  | nil => rfl
  | cons he next ih =>
      by_cases hkey : T.keyCompare key he.key = true
      · simp only [chainSetVal, hkey, if_true]
      · simp only [chainSetVal, hkey, if_false, ih, Bool.false_eq_true]

-- Of two assignments to one value the later counts.
theorem dictSetHashVal_dictSetHashVal (ht : Dict K V) (key : K) (val val' : V) :
    dictSetHashVal T (dictSetHashVal T ht key val) key val' = dictSetHashVal T ht key val' := by
  have hcomp : chainSetVal T key val' ∘ chainSetVal T key val = chainSetVal T key val' :=
    funext (chainSetVal_chainSetVal T key val val')
  simp only [dictSetHashVal, Dict.slot, List.modify_modify_eq, hcomp]

end SetVal

-- Whatever is mapped, the operations keep the entries in their places.
namespace DictType.Maps

variable {T : DictType K} {T' : DictType K'} {f : K → K'} (hT : T.Maps T' f) (g : V → V')
  (ht : Dict K V) (key : K) (val : V)

include hT

theorem slot : (ht.map f g).slot T' (f key) = ht.slot T key := by
  rw [Dict.slot, Dict.slot, hT.hash]
  rfl

theorem find? (chain : List (DictEntry K V)) :
    (chain.map (DictEntry.map f g)).find? (fun he => T'.keyCompare (f key) he.key) =
      (chain.find? fun he => T.keyCompare key he.key).map (DictEntry.map f g) := by
  rw [List.find?_map]
  simp only [Function.comp_def, DictEntry.map, hT.compare]

theorem any (chain : List (DictEntry K V)) :
    (chain.map (DictEntry.map f g)).any (fun he => T'.keyCompare (f key) he.key) =
      chain.any fun he => T.keyCompare key he.key := by
  rw [List.any_map]
  simp only [Function.comp_def, DictEntry.map, hT.compare]

theorem dictFind :
    dictFind T' (ht.map f g) (f key) = (dictFind T ht key).map (DictEntry.map f g) := by
  rw [Cutis.dictFind, Cutis.dictFind, hT.slot, Dict.chain_map, hT.find?, Dict.map_used]
  split <;> rfl

theorem relinkChain (size_mask : Nat) (chain : List (DictEntry K V))
    (table : List (List (DictEntry K V))) (used : Nat) :
    relinkChain T' size_mask (chain.map (DictEntry.map f g))
        (table.map (List.map (DictEntry.map f g)), used) =
      ((relinkChain T size_mask chain (table, used)).1.map (List.map (DictEntry.map f g)),
        (relinkChain T size_mask chain (table, used)).2) := by
  induction chain generalizing table used with
  | nil => rfl
  | cons he next ih =>
      rw [List.map_cons, Cutis.relinkChain, Cutis.relinkChain]
      rw [map_link, DictEntry.map, hT.hash, ih]

theorem relinkTable (size_mask : Nat) (chains table : List (List (DictEntry K V))) (used : Nat) :
    relinkTable T' size_mask (chains.map (List.map (DictEntry.map f g)))
        (table.map (List.map (DictEntry.map f g)), used) =
      ((relinkTable T size_mask chains (table, used)).1.map (List.map (DictEntry.map f g)),
        (relinkTable T size_mask chains (table, used)).2) := by
  induction chains generalizing table used with
  | nil => rfl
  | cons chain rest ih =>
      rw [List.map_cons, Cutis.relinkTable, Cutis.relinkTable]
      split
      · rw [hT.relinkChain, ih]
      · rfl

theorem dictExpand (size : Nat) :
    dictExpand T' (ht.map f g) size =
      (dictExpand T ht size).map fun result => (result.1.map f g, result.2) := by
  unfold Cutis.dictExpand
  rw [Dict.map_used]
  split
  · rfl
  · simp only [dictAllocTable_eq]
    split
    · rfl
    · split
      · rfl
      · have hslots : List.replicate (dictNextPower size) ([] : List (DictEntry K' V')) =
            (List.replicate (dictNextPower size) []).map (List.map (DictEntry.map f g)) := by
          rw [List.map_replicate]
          rfl
        simp only [ok_bind]
        rw [Dict.map_table, hslots, hT.relinkTable]
        simp only
        split <;> rfl

theorem dictExpandIfNeeded :
    dictExpandIfNeeded T' (ht.map f g) =
      (dictExpandIfNeeded T ht).map fun result => (result.1.map f g, result.2) := by
  unfold Cutis.dictExpandIfNeeded
  rw [Dict.map_size, Dict.map_used, hT.dictExpand, hT.dictExpand]
  split
  · rfl
  · split <;> rfl

theorem linked : linked T' (ht.map f g) (f key) (g val) = (linked T ht key val).map f g := by
  have hlink := map_link f g ht.table (ht.slot T key) ⟨key, val⟩
  rw [Cutis.linked, hT.slot]
  exact congrArg (fun table => (⟨table, ht.size, ht.size_mask, ht.used + 1⟩ : Dict K' V')) hlink

theorem dictAdd :
    dictAdd T' (ht.map f g) (f key) (g val) =
      (dictAdd T ht key val).map fun result => (result.1.map f g, result.2) := by
  rw [dictAdd_eq, dictAdd_eq, hT.dictExpandIfNeeded]
  cases Cutis.dictExpandIfNeeded T ht with
  | error fault => rfl
  | ok result =>
      simp only [Except.map, Except.bind, hT.slot, Dict.chain_map, hT.any, hT.linked]
      split <;> rfl

theorem chainSetVal (chain : List (DictEntry K V)) :
    chainSetVal T' (f key) (g val) (chain.map (DictEntry.map f g)) =
      (chainSetVal T key val chain).map (DictEntry.map f g) := by
  induction chain with
  | nil => rfl
  | cons he next ih =>
      rw [List.map_cons, Cutis.chainSetVal, Cutis.chainSetVal, ih, DictEntry.map, hT.compare]
      split <;> rfl

theorem dictSetHashVal :
    dictSetHashVal T' (ht.map f g) (f key) (g val) = (dictSetHashVal T ht key val).map f g := by
  rw [Cutis.dictSetHashVal, hT.slot, Dict.map_table,
    ← Buckets.map_modify _ fun chain => (hT.chainSetVal g key val chain).symm]
  rfl

-- What one value is mapped to changes, and the table holds that value once.
theorem dictSetHashVal_map {ht : Dict K V} {key : K} {de : DictEntry K V} {g g' : V → V'}
    (hs : ht.Shape) (hfind : Cutis.dictFind T ht key = some de) (hnodup : ht.vals.Nodup)
    (hg : ∀ val ∈ ht.vals, val ≠ de.val → g' val = g val) :
    Cutis.dictSetHashVal T' (ht.map f g) (f key) (g' de.val) = ht.map f g' := by
  obtain ⟨hslot, hkey, before, after, hchain, hbefore⟩ := dictFind_eq_some T hs key hfind
  set front := ht.table.take (ht.slot T key)
  set back := ht.table.drop (ht.slot T key + 1)
  have htable : ht.table = front ++ (before ++ de :: after) :: back := by
    rw [← hchain, ← List.drop_eq_getElem_cons hslot, List.take_append_drop]
  have hentries : ht.entries =
      (front.flatten ++ before) ++ de :: (after ++ back.flatten) := by
    rw [Dict.entries, htable, List.flatten_append, List.flatten_cons]
    simp only [List.append_assoc, List.cons_append]
  have hother (he : DictEntry K V)
      (hhe : he ∈ (front.flatten ++ before) ++ (after ++ back.flatten)) :
      DictEntry.map f g' he = DictEntry.map f g he := by
    have hmem : he ∈ ht.entries := by
      rw [hentries]
      exact List.perm_middle.mem_iff.mpr (List.mem_cons_of_mem _ hhe)
    have hne : he.val ≠ de.val := by
      rw [Dict.vals, hentries, List.map_append, List.map_cons, Multiset.coe_nodup,
        List.nodup_middle, List.nodup_cons, ← List.map_append] at hnodup
      exact fun heq => hnodup.1 (heq ▸ List.mem_map_of_mem hhe)
    rw [DictEntry.map, DictEntry.map, hg _ (mem_vals hmem) hne]
  simp only [List.mem_append] at hother
  have hpart (chains : List (List (DictEntry K V)))
      (hchains : ∀ he ∈ chains.flatten, DictEntry.map f g' he = DictEntry.map f g he) :
      chains.map (List.map (DictEntry.map f g)) = chains.map (List.map (DictEntry.map f g')) :=
    List.map_congr_left fun chain hc => List.map_congr_left fun he hhe =>
      (hchains he (List.mem_flatten_of_mem hc hhe)).symm
  have hset : Cutis.chainSetVal T' (f key) (g' de.val)
      ((before ++ de :: after).map (DictEntry.map f g)) =
        (before ++ de :: after).map (DictEntry.map f g') := by
    have hbefore' : ∀ x ∈ before.map (DictEntry.map f g), !T'.keyCompare (f key) x.key := by
      intro x hx
      obtain ⟨he, hhe, rfl⟩ := List.mem_map.mp hx
      rw [DictEntry.map, hT.compare]
      exact hbefore he hhe
    rw [List.map_append, List.map_cons,
      chainSetVal_eq T' _ _ _ _ _ ((hT.compare _ _).trans hkey) hbefore', List.map_append,
      List.map_cons, List.map_congr_left fun he hhe => hother he (Or.inl (Or.inr hhe)),
      List.map_congr_left fun he hhe => hother he (Or.inr (Or.inl hhe))]
    rfl
  have hmapped : (ht.table.map (List.map (DictEntry.map f g))).modify (ht.slot T key)
      (Cutis.chainSetVal T' (f key) (g' de.val)) =
        ht.table.map (List.map (DictEntry.map f g')) := by
    rw [List.modify_eq_take_cons_drop (by rwa [List.length_map]), ← List.map_take, ← List.map_drop,
      List.getElem_map, hchain, hset, hpart front fun he hhe => hother he (Or.inl (Or.inl hhe)),
      hpart back fun he hhe => hother he (Or.inr (Or.inr hhe)), htable]
    simp only [List.map_append, List.map_cons]
  rw [Cutis.dictSetHashVal, hT.slot, Dict.map_table, hmapped]
  rfl

theorem dictReplace :
    dictReplace T' (ht.map f g) (f key) (g val) =
      (dictReplace T ht key val).map fun result => (result.1.map f g, result.2.map g) := by
  unfold Cutis.dictReplace
  rw [hT.dictAdd]
  cases Cutis.dictAdd T ht key val with
  | error fault => rfl
  | ok result =>
      simp only [Except.map, ok_bind]
      split
      · rfl
      · rw [hT.dictFind]
        cases Cutis.dictFind T result.1 key with
        | none => rfl
        | some he =>
            simp only [Option.map_some, hT.dictSetHashVal]
            rfl

theorem unlinked : unlinked T' (ht.map f g) (f key) = (unlinked T ht key).map f g := by
  have herase (chain : List (DictEntry K V)) :
      (chain.map (DictEntry.map f g)).eraseP (fun he => T'.keyCompare (f key) he.key) =
        (chain.eraseP fun he => T.keyCompare key he.key).map (DictEntry.map f g) := by
    rw [List.eraseP_map]
    simp only [Function.comp_def, DictEntry.map, hT.compare]
  rw [Cutis.unlinked, hT.slot, Dict.map_table,
    ← Buckets.map_modify _ fun chain => (herase chain).symm]
  rfl

theorem dictGenericDelete :
    dictGenericDelete T' (ht.map f g) (f key) =
      ((dictGenericDelete T ht key).1.map f g,
        (dictGenericDelete T ht key).2.map (DictEntry.map f g)) := by
  rw [dictGenericDelete_eq, dictGenericDelete_eq, hT.dictFind]
  cases Cutis.dictFind T ht key with
  | none => rfl
  | some he => simp only [Option.map_some, hT.unlinked]

theorem dictResize :
    dictResize T' (ht.map f g) =
      (dictResize T ht).map fun result => (result.1.map f g, result.2) := by
  unfold Cutis.dictResize
  rw [Dict.map_used, hT.dictExpand]

end DictType.Maps

section Walks

variable (f : K → K') (g : V → V') (ht : Dict K V)

theorem dictRandomLoop_map (random : List Nat) :
    dictRandomLoop (ht.map f g) random =
      (dictRandomLoop ht random).map fun result =>
        (result.1.map (DictEntry.map f g), result.2) := by
  induction random with
  | nil => rfl
  | cons r random ih =>
      simp only [dictRandomLoop, Dict.chain_map, Dict.map_size_mask, ih, List.map_eq_nil_iff]
      split
      · rfl
      · cases random with
        | nil => rfl
        | cons r rest =>
            simp only [List.length_map, List.getElem?_map]
            rfl

theorem dictGetRandomKey_map (random : List Nat) :
    dictGetRandomKey (ht.map f g) random =
      (dictGetRandomKey ht random).map fun result =>
        (result.1.map (DictEntry.map f g), result.2) := by
  rw [dictGetRandomKey, dictGetRandomKey, Dict.map_used, dictRandomLoop_map]
  split <;> rfl

def DictIterator.map (iter : DictIterator K V) : DictIterator K' V' where
  index := iter.index
  entry := iter.entry.map (DictEntry.map f g)
  next_entry := iter.next_entry.map (DictEntry.map f g)

theorem dictNextLoop_map (fuel : Nat) (iter : DictIterator K V) :
    dictNextLoop (ht.map f g) fuel (iter.map f g) =
      ((dictNextLoop ht fuel iter).1.map (DictEntry.map f g),
        (dictNextLoop ht fuel iter).2.map f g) := by
  induction fuel generalizing iter with
  | zero => rfl
  | succ fuel ih =>
      obtain ⟨index, entry, next_entry⟩ := iter
      rw [dictNextLoop, dictNextLoop]
      simp only [DictIterator.map, List.map_eq_nil_iff, Dict.map_size]
      split
      · rfl
      · cases entry with
        | nil =>
            simp only [if_true, Dict.chain_map]
            cases ht.chain (index + 1).toNat with
            | nil => exact ih ⟨index + 1, [], next_entry⟩
            | cons he next => rfl
        | cons current rest =>
            cases next_entry with
            | nil => exact ih ⟨index, [], []⟩
            | cons he next => rfl

theorem dictIterateLoop_map (fuel : Nat) (iter : DictIterator K V) :
    dictIterateLoop (ht.map f g) fuel (iter.map f g) =
      (dictIterateLoop ht fuel iter).map (DictEntry.map f g) := by
  induction fuel generalizing iter with
  | zero => rfl
  | succ fuel ih =>
      rw [dictIterateLoop, dictIterateLoop, dictNext, dictNext, Dict.map_size, dictNextLoop_map]
      obtain ⟨he, iter'⟩ := dictNextLoop ht (ht.size + 2) iter
      cases he with
      | none => rfl
      | some he => simp only [Option.map_some, ih, List.map_cons]

theorem dictIterate_map : dictIterate (ht.map f g) = (dictIterate ht).map (DictEntry.map f g) :=
  dictIterateLoop_map f g ht (ht.used + 1) dictGetIterator

end Walks

end Cutis

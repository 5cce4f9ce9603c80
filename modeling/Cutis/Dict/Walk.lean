import Cutis.Dict.Iteration
import Cutis.Dict.Simulation

namespace Cutis

namespace LinkedDict

variable {K V : Type}

-- Where an iterator is in a table: the entries it has passed and those still to come.
-- The entry returned last may be gone, so that only the saved next one is followed.
inductive Position (chains : List (List (EntryId × DictEntry K V))) (iter : LinkedIterator) :
    List (EntryId × DictEntry K V) → List (EntryId × DictEntry K V) → Prop
  | between (h : Nat) (hentry : iter.entry = none) (hindex : iter.index + 1 = h) :
      Position chains iter (chains.take h).flatten (chains.drop h).flatten
  | within (h : Nat) (xs ys : List (EntryId × DictEntry K V)) (hentry : iter.entry ≠ none)
      (hindex : iter.index = h) (hnext : iter.next_entry = ys.head?.map Prod.fst)
      (hchain : chains[h]? = some (xs ++ ys)) :
      Position chains iter ((chains.take h).flatten ++ xs) (ys ++ (chains.drop (h + 1)).flatten)

-- The iterator has just returned an entry.
structure Returned (chains : List (List (EntryId × DictEntry K V))) (iter : LinkedIterator)
    (he : EntryId) (entry : DictEntry K V) (done rest : List (EntryId × DictEntry K V))
    (h : Nat) (xs ys : List (EntryId × DictEntry K V)) : Prop where
  entry_ne : iter.entry ≠ none
  index_eq : iter.index = h
  next_eq : iter.next_entry = ys.head?.map Prod.fst
  chain_eq : chains[h]? = some (xs ++ (he, entry) :: ys)
  done_eq : done = (chains.take h).flatten ++ xs
  rest_eq : rest = ys ++ (chains.drop (h + 1)).flatten

-- What one call of dictNext owes.
def NextReturns (chains : List (List (EntryId × DictEntry K V)))
    (done rest : List (EntryId × DictEntry K V))
    (result : Except Fault (Option EntryId × LinkedIterator)) : Prop :=
  match rest with
  | [] => ∃ iter, result = .ok (none, iter)
  | (he, entry) :: rest => ∃ iter, result = .ok (some he, iter) ∧
      ∃ h xs ys, Returned chains iter he entry done rest h xs ys

section Next

variable {ht : LinkedDict K V} {chains : List (List (EntryId × DictEntry K V))}
  {done rest : List (EntryId × DictEntry K V)}

theorem position_flatten {iter : LinkedIterator} (hpos : Position chains iter done rest) :
    chains.flatten = done ++ rest := by
  cases hpos with
  | between h _ _ => rw [← List.flatten_append, List.take_append_drop]
  | within h xs ys _ _ _ hchain =>
      obtain ⟨hlt, hget⟩ := List.getElem?_eq_some_iff.mp hchain
      rw [Buckets.flatten_eq_split chains h hlt, hget]
      simp only [List.append_assoc]

-- The scan over the slots from h on.
theorem dictNextLoop_between (hl : ht.Holds chains) (hlen : chains.length = ht.size)
    (hsize : ht.size < 2 ^ 31) {fuel h : Nat} (hfuel : ht.size < fuel + h) (hfuel' : 0 < fuel)
    {iter : LinkedIterator} (hentry : iter.entry = none) (hindex : iter.index + 1 = h) :
    NextReturns chains (chains.take h).flatten (chains.drop h).flatten
      (ht.dictNextLoop fuel iter) := by
  have hint : toInt32 ht.size = ht.size := toInt32_natCast _ hsize
  induction fuel generalizing h iter with
  | zero => exact absurd hfuel' (Nat.lt_irrefl 0)
  | succ fuel ih =>
      rw [dictNextLoop]
      by_cases hlt : h < ht.size
      · have hgo : ¬(iter.entry = none ∧ iter.index + 1 ≥ toInt32 ht.size) := by
          rw [hint, hindex]
          omega
        have hin : h < chains.length := by omega
        have hchain : chains[h]? = some chains[h] := List.getElem?_eq_getElem hin
        obtain ⟨start, hhead, hseg⟩ := Chains.Linked.exists_head hl hchain
        have hadvance : ht.advance iter = .ok { iter with index := h, entry := start } := by
          simp only [advance, hentry, hindex, Int.toNat_natCast, getSlot_eq hhead, ok_bind]
          rfl
        rw [if_neg hgo, hadvance, List.drop_eq_getElem_cons hin, List.flatten_cons]
        simp only [ok_bind]
        cases hcase : chains[h] with
        | nil =>
            rw [hcase] at hseg
            obtain rfl : start = none := hseg
            have hnext := @ih (h + 1) (by omega) (by omega)
              { iter with index := h, entry := none } rfl rfl
            rw [List.take_succ_eq_append_getElem hin] at hnext
            simpa [hcase] using hnext
        | cons x ys =>
            obtain ⟨he, entry⟩ := x
            rw [hcase] at hseg hchain
            obtain rfl : start = some he := hseg.1
            have hmem := @Chains.Linked.memory_eq _ _ _ [] _ _ _ _ _ _ hl hchain
            simp only [read_eq hmem, ok_bind]
            exact ⟨_, rfl, h, [], ys, Option.some_ne_none _, rfl, rfl, hchain,
              (List.append_nil _).symm, rfl⟩
      · have hstop : iter.entry = none ∧ iter.index + 1 ≥ toInt32 ht.size := by
          rw [hint, hindex]
          exact ⟨hentry, by omega⟩
        rw [if_pos hstop, List.drop_eq_nil_of_le (by omega)]
        exact ⟨_, rfl⟩

theorem dictNext_spec (hl : ht.Holds chains) (hlen : chains.length = ht.size)
    (hsize : ht.size < 2 ^ 31) {iter : LinkedIterator} (hpos : Position chains iter done rest) :
    NextReturns chains done rest (ht.dictNext iter) := by
  cases hpos with
  | between h hentry hindex =>
      exact dictNextLoop_between hl hlen hsize (by omega) (by omega) hentry hindex
  | within h xs ys hentry hindex hnext hchain =>
      have hgo : ¬(iter.entry = none ∧ iter.index + 1 ≥ toInt32 ht.size) :=
        fun hstop => hentry hstop.1
      have hadvance : ht.advance iter = .ok { iter with entry := iter.next_entry } := by
        rw [advance]
        cases hcase : iter.entry with
        | none => exact absurd hcase hentry
        | some _ => rfl
      rw [dictNext, dictNextLoop, if_neg hgo, hadvance]
      simp only [ok_bind]
      cases ys with
      | nil =>
          obtain ⟨hlt, hget⟩ := List.getElem?_eq_some_iff.mp hchain
          have hdone : (chains.take h).flatten ++ xs = (chains.take (h + 1)).flatten := by
            rw [List.take_succ_eq_append_getElem hlt, hget, List.flatten_concat, List.append_nil]
          rw [hdone, List.nil_append]
          simp only [hnext, List.head?_nil, Option.map_none]
          exact dictNextLoop_between hl hlen hsize (by omega) (by omega) rfl (by rw [hindex]; rfl)
      | cons y ys =>
          obtain ⟨he, entry⟩ := y
          simp only [hnext, List.head?_cons, Option.map_some,
            read_eq (Chains.Linked.memory_eq hl hchain), ok_bind]
          exact ⟨_, rfl, h, xs, ys, Option.some_ne_none _, hindex, rfl, hchain, rfl, rfl⟩

end Next

section Choose

variable {T : DictType K} {ht : LinkedDict K V}
  {chains : List (List (EntryId × DictEntry K V))} {iter : LinkedIterator} {he : EntryId}
  {entry : DictEntry K V} {done rest : List (EntryId × DictEntry K V)} {h : Nat}
  {xs ys : List (EntryId × DictEntry K V)}

-- The entry returned last stays.
theorem Returned.keep (hret : Returned chains iter he entry done rest h xs ys) :
    Position chains iter (done ++ [(he, entry)]) rest := by
  rw [hret.done_eq, hret.rest_eq, List.append_assoc]
  refine .within h (xs ++ [(he, entry)]) ys hret.entry_ne hret.index_eq hret.next_eq ?_
  rw [List.append_assoc, List.singleton_append]
  exact hret.chain_eq

-- It is taken out of its chain.
theorem Returned.erase (hret : Returned chains iter he entry done rest h xs ys)
    {f : List (EntryId × DictEntry K V) → List (EntryId × DictEntry K V)}
    (hf : f (xs ++ (he, entry) :: ys) = xs ++ ys) :
    Position (chains.modify h f) iter done rest := by
  have hchain : (chains.modify h f)[h]? = some (xs ++ ys) := by
    rw [List.getElem?_modify_eq, hret.chain_eq, Option.map_eq_map, Option.map_some, hf]
  have htake : (chains.modify h f).take h = chains.take h := by
    rw [List.take_modify, List.modify_eq_self (by rw [List.length_take]; omega)]
  have hdrop : (chains.modify h f).drop (h + 1) = chains.drop (h + 1) := by
    rw [List.drop_modify_of_lt _ _ _ _ (Nat.lt_succ_self h)]
  rw [hret.done_eq, hret.rest_eq, ← htake, ← hdrop]
  exact .within h xs ys hret.entry_ne hret.index_eq hret.next_eq hchain

-- The key leads back to the slot the iterator is in and to the entry itself.
theorem Returned.slot_eq (hT : T.Lawful) (hinv : (ht.toDict chains).Inv T)
    (hret : Returned chains iter he entry done rest h xs ys) :
    ht.slot T entry.key = h ∧
      (xs ++ (he, entry) :: ys).eraseP (hasKey T entry.key) = xs ++ ys := by
  obtain ⟨hlt, hget⟩ := List.getElem?_eq_some_iff.mp hret.chain_eq
  constructor
  · apply hinv.placed h (by rwa [toDict, List.length_map])
    simp only [toDict, List.getElem_map, hget, List.map_append, List.map_cons]
    exact List.mem_append_right _ List.mem_cons_self
  · have hnodup := hinv.nodup
    rw [toDict_entries, List.map_map, Buckets.flatten_eq_split chains h hlt, hget,
      List.append_assoc, List.map_append, List.map_append, List.nodup_append, List.nodup_append]
      at hnodup
    obtain ⟨-, ⟨-, -, hdisj⟩, -⟩ := hnodup
    have hxs (x) (hx : x ∈ xs) : ¬hasKey T entry.key x = true := by
      intro hkey
      exact hdisj _ (List.mem_map_of_mem hx) _ List.mem_cons_self
        ((hT.compare_iff _ _).mp hkey).symm
    have hkey : hasKey T entry.key (he, entry) = true := (hT.compare_iff _ _).mpr rfl
    rw [List.eraseP_append_right _ hxs, List.eraseP_cons_of_pos hkey]

theorem Returned.delete_spec (hT : T.Lawful) (hl : ht.Holds chains) (hinv : (ht.toDict chains).Inv T)
    (hret : Returned chains iter he entry done rest h xs ys) :
    ∃ ht' chains' freed, ht.dictGenericDelete T entry.key = .ok (ht', freed) ∧
      ht'.Holds chains' ∧ (ht'.toDict chains').Inv T ∧ ht'.size = ht.size ∧
      Position chains' iter done rest := by
  classical
  obtain ⟨hslot, herase⟩ := hret.slot_eq hT hinv
  obtain ⟨ht', hdelete, hl', hdict⟩ := dictGenericDelete_spec hl hinv.toShape T entry.key
  refine ⟨ht', _, _, hdelete, hl', ?_, ?_, ?_⟩
  · rw [hdict]
    exact (dictGenericDelete_map hT hinv entry.key).1
  · have hsize := congrArg Dict.size hdict
    rw [dictGenericDelete_eq] at hsize
    split at hsize <;> exact hsize
  · rw [hslot]
    exact hret.erase herase

-- What the caller's choice leaves.
theorem choose_spec (hT : T.Lawful) (hl : ht.Holds chains) (hinv : (ht.toDict chains).Inv T)
    (hret : Returned chains iter he entry done rest h xs ys) (choice : IterChoice) :
    ∃ ht' chains', ht.choose T he choice = .ok ht' ∧ ht'.Holds chains' ∧
      (ht'.toDict chains').Inv T ∧ ht'.size = ht.size ∧
      Position chains' iter (done ++ if choice = .keep then [(he, entry)] else []) rest := by
  have hread := read_eq (Chains.Linked.memory_eq hl hret.chain_eq)
  obtain ⟨ht', chains', freed, hdelete, hl', hinv', hsize, hpos⟩ := hret.delete_spec hT hl hinv
  rw [← List.append_nil done] at hpos
  cases choice with
  | keep => exact ⟨ht, chains, rfl, hl, hinv, rfl, hret.keep⟩
  | delete =>
      refine ⟨ht', chains', ?_, hl', hinv', hsize, hpos⟩
      simp only [choose, hread, ok_bind, dictDelete, hdelete]
      rfl
  | deleteNoFree =>
      refine ⟨ht', chains', ?_, hl', hinv', hsize, hpos⟩
      simp only [choose, hread, ok_bind, dictDeleteNoFree, hdelete]
      rfl

end Choose

section Iterate

variable {T : DictType K} {ht : LinkedDict K V}
  {chains : List (List (EntryId × DictEntry K V))}

theorem iterateLoop_spec (hT : T.Lawful) (choice : EntryId → IterChoice) (hl : ht.Holds chains)
    (hinv : (ht.toDict chains).Inv T) (hsize : ht.size < 2 ^ 31) {iter : LinkedIterator}
    {done rest : List (EntryId × DictEntry K V)} (hpos : Position chains iter done rest)
    {fuel : Nat} (hfuel : rest.length < fuel) :
    ∃ ht' chains', iterateLoop T choice fuel iter ht = .ok (rest.map Prod.fst, ht') ∧
      ht'.Holds chains' ∧ (ht'.toDict chains').Inv T ∧
      chains'.flatten = done ++ rest.filter fun x => choice x.1 = .keep := by
  induction rest generalizing ht chains iter done fuel with
  | nil =>
      obtain ⟨fuel, rfl⟩ : ∃ n, fuel = n + 1 := ⟨fuel - 1, by simp at hfuel; omega⟩
      obtain ⟨iter', hnext⟩ := dictNext_spec hl (length_eq hinv.toShape) hsize hpos
      refine ⟨ht, chains, ?_, hl, hinv, position_flatten hpos⟩
      simp only [iterateLoop, hnext, ok_bind]
      rfl
  | cons x rest ih =>
      obtain ⟨he, entry⟩ := x
      obtain ⟨fuel, rfl⟩ : ∃ n, fuel = n + 1 := ⟨fuel - 1, by simp at hfuel; omega⟩
      obtain ⟨iter', hnext, h, xs, ys, hret⟩ :=
        dictNext_spec hl (length_eq hinv.toShape) hsize hpos
      obtain ⟨ht₁, chains₁, hchoose, hl₁, hinv₁, hsize₁, hpos₁⟩ :=
        choose_spec hT hl hinv hret (choice he)
      obtain ⟨ht', chains', hloop, hl', hinv', hflat⟩ :=
        ih hl₁ hinv₁ (by omega) hpos₁ (Nat.lt_of_succ_lt_succ hfuel)
      refine ⟨ht', chains', ?_, hl', hinv', ?_⟩
      · simp only [iterateLoop, hnext, ok_bind, hchoose, hloop]
        rfl
      · rw [hflat, List.append_assoc]
        by_cases hkeep : choice he = .keep <;> simp [hkeep]

-- Whatever the caller deletes, the iteration returns each entry once, and what is left
-- are the entries that were kept.
theorem iterate_spec (hT : T.Lawful) (choice : EntryId → IterChoice) (hl : ht.Holds chains)
    (hinv : (ht.toDict chains).Inv T) (hsize : ht.size < 2 ^ 31) :
    ∃ ht' chains', iterate T choice ht = .ok (chains.flatten.map Prod.fst, ht') ∧
      ht'.Holds chains' ∧ (ht'.toDict chains').Inv T ∧
      chains'.flatten = chains.flatten.filter fun x => choice x.1 = .keep := by
  have hpos : Position chains dictGetIterator [] chains.flatten := .between 0 rfl rfl
  exact iterateLoop_spec hT choice hl hinv hsize hpos (by rw [used_eq hinv.toShape]; omega)

end Iterate

theorem iterate_tolerates_deletion (T : DictType K) (hT : T.Lawful) (ht : LinkedDict K V)
    (hr : Reachable T ht) (hsize : ht.size < 2 ^ 31) (choice : EntryId → IterChoice) :
    ∃ chains, ht.Holds chains ∧ (chains.flatten.map Prod.fst).Nodup ∧
      ∃ ht' chains', iterate T choice ht = .ok (chains.flatten.map Prod.fst, ht') ∧
        ht'.Holds chains' ∧ (ht'.toDict chains').Inv T ∧
        chains'.flatten = chains.flatten.filter fun x => choice x.1 = .keep := by
  obtain ⟨chains, hl, hsound⟩ := hr.exists_chains hT
  exact ⟨chains, hl, hl.nodup, iterate_spec hT choice hl hsound.toInv hsize⟩

-- Two entries in one slot.
def colliding : LinkedDict Nat Char where
  nodes := Function.update (Function.update (fun _ => none) 100 (some ⟨⟨3, 'a'⟩, none⟩)) 200
    (some ⟨⟨19, 'b'⟩, some 100⟩)
  table := (List.replicate 16 none).set 3 (some 200)
  size := 16
  size_mask := 15
  used := 2

theorem reachable_colliding : Reachable natDictType colliding := by
  have hone : (dictCreate : LinkedDict Nat Char).step natDictType 100 (.add 3 'a') = .ok
      ({ nodes := Function.update (fun _ => none) 100 (some ⟨⟨3, 'a'⟩, none⟩)
         table := (List.replicate 16 none).set 3 (some 100)
         size := 16
         size_mask := 15
         used := 1 }, .DICT_OK) := rfl
  exact .step 200 (.add 19 'b') (.step 100 (.add 3 'a') .create rfl hone) rfl
    (show _ = Except.ok (colliding, DictStatus.DICT_OK) from rfl)

theorem iterate_colliding :
    let choice : EntryId → IterChoice := fun he => if he = 200 then .delete else .keep
    ∃ chains, colliding.Holds chains ∧ (chains.flatten.map Prod.fst).Nodup ∧
      ∃ ht' chains', iterate natDictType choice colliding =
          .ok (chains.flatten.map Prod.fst, ht') ∧
        ht'.Holds chains' ∧ (ht'.toDict chains').Inv natDictType ∧
        chains'.flatten = chains.flatten.filter fun x => choice x.1 = .keep :=
  iterate_tolerates_deletion natDictType natDictType_lawful colliding reachable_colliding
    (by decide) _

end LinkedDict

end Cutis

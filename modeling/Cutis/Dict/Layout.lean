import Cutis.Dict.Linked
import Cutis.Lib.Chains

namespace Cutis

namespace LinkedDict

variable {K V : Type}

-- The entries with the links between them.
def memory (ht : LinkedDict K V) (he : EntryId) : Option (DictEntry K V × Option EntryId) :=
  (ht.nodes he).map fun entry => (entry.toDictEntry, entry.next)

-- The chains of the table, slot by slot.
def Holds (ht : LinkedDict K V) (chains : List (List (EntryId × DictEntry K V))) : Prop :=
  Chains.Linked ht.memory ht.table chains

-- The table without its addresses.
def toDict (ht : LinkedDict K V) (chains : List (List (EntryId × DictEntry K V))) : Dict K V where
  table := chains.map (List.map Prod.snd)
  size := ht.size
  size_mask := ht.size_mask
  used := ht.used

def hasKey (T : DictType K) (key : K) (x : EntryId × DictEntry K V) : Bool :=
  T.keyCompare key x.2.key

section Memory

variable {ht : LinkedDict K V} {he : EntryId} {entry : DictEntry K V} {next : Option EntryId}

@[simp] theorem memory_write (ht : LinkedDict K V) (he : EntryId)
    (entry : Option (LinkedEntry K V)) :
    (ht.write he entry).memory =
      Function.update ht.memory he (entry.map fun entry => (entry.toDictEntry, entry.next)) := by
  funext q
  change (Function.update ht.nodes he entry q).map _ = _
  by_cases hq : q = he
  · subst hq
    rw [Function.update_self, Function.update_self]
  · rw [Function.update_of_ne hq, Function.update_of_ne hq]
    rfl

theorem read_eq (h : ht.memory he = some (entry, next)) :
    ht.read he = .ok { toDictEntry := entry, next } := by
  obtain ⟨node, hnode, hnode'⟩ := Option.map_eq_some_iff.mp h
  cases hnode'
  rw [read, hnode]
  rfl

theorem setNext_eq (h : ht.memory he = some (entry, next)) (next' : Option EntryId) :
    ht.setNext he next' = .ok (ht.write he (some { toDictEntry := entry, next := next' })) := by
  rw [setNext, read_eq h]
  rfl

theorem getSlot_eq {h : Nat} {start : Option EntryId} (hhead : ht.table[h]? = some start) :
    ht.getSlot h = .ok start := by
  rw [getSlot, hhead]
  rfl

theorem setSlot_eq {h : Nat} {start : Option EntryId} (hhead : ht.table[h]? = some start)
    (start' : Option EntryId) :
    ht.setSlot h start' = .ok { ht with table := ht.table.set h start' } := by
  obtain ⟨hlt, -⟩ := List.getElem?_eq_some_iff.mp hhead
  rw [setSlot, if_pos hlt]
  rfl

end Memory

section Values

variable {ht : LinkedDict K V} {chains : List (List (EntryId × DictEntry K V))}

@[simp] theorem toDict_used (ht : LinkedDict K V)
    (chains : List (List (EntryId × DictEntry K V))) : (ht.toDict chains).used = ht.used := rfl

@[simp] theorem toDict_size (ht : LinkedDict K V)
    (chains : List (List (EntryId × DictEntry K V))) : (ht.toDict chains).size = ht.size := rfl

@[simp] theorem toDict_slot (ht : LinkedDict K V)
    (chains : List (List (EntryId × DictEntry K V))) (T : DictType K) (key : K) :
    (ht.toDict chains).slot T key = ht.slot T key := rfl

theorem toDict_entries (ht : LinkedDict K V) (chains : List (List (EntryId × DictEntry K V))) :
    (ht.toDict chains).entries = chains.flatten.map Prod.snd :=
  List.map_flatten.symm

theorem toDict_chain {h : Nat} {chain : List (EntryId × DictEntry K V)}
    (hchain : chains[h]? = some chain) : (ht.toDict chains).chain h = chain.map Prod.snd := by
  simp [toDict, Dict.chain, hchain]

theorem used_eq (hs : (ht.toDict chains).Shape) : ht.used = chains.flatten.length := by
  have hused := hs.used_eq
  rwa [toDict_entries, List.length_map] at hused

theorem length_eq (hs : (ht.toDict chains).Shape) : chains.length = ht.size := by
  have hlength := hs.length_table
  rwa [toDict, List.length_map] at hlength

theorem length_chain_le {h : Nat} {chain : List (EntryId × DictEntry K V)}
    (hs : (ht.toDict chains).Shape) (hchain : chains[h]? = some chain) :
    chain.length ≤ ht.used := by
  obtain ⟨hlt, rfl⟩ := List.getElem?_eq_some_iff.mp hchain
  rw [used_eq hs, Buckets.flatten_eq_split chains h hlt, List.length_append, List.length_append]
  omega

-- The slot of a key is one of the table.
theorem exists_chain (hs : (ht.toDict chains).Shape) (T : DictType K) (key : K)
    (hsize : ht.size ≠ 0) : ∃ chain, chains[ht.slot T key]? = some chain := by
  have hslot := hs.slot_lt T key hsize
  rw [toDict, List.length_map] at hslot
  exact ⟨_, List.getElem?_eq_getElem hslot⟩

end Values

section Search

variable {T : DictType K} {ht : LinkedDict K V} {chains : List (List (EntryId × DictEntry K V))}
  {key : K}

theorem findLoop_eq {chain : List (EntryId × DictEntry K V)} {start : Option EntryId} {fuel : Nat}
    (hseg : Chains.Segment ht.memory start chain none) (hfuel : chain.length ≤ fuel) :
    ht.findLoop T key fuel start = .ok ((chain.find? (hasKey T key)).map Prod.fst) := by
  induction chain generalizing start fuel with
  | nil =>
      obtain rfl : start = none := hseg
      cases fuel <;> rfl
  | cons x rest ih =>
      obtain ⟨he, entry⟩ := x
      obtain ⟨rfl, next, hmem, hrest⟩ := hseg
      cases fuel with
      | zero => exact absurd hfuel (by simp)
      | succ fuel =>
          rw [findLoop, read_eq hmem, ok_bind]
          cases hkey : T.keyCompare key entry.key with
          | true => simp [hasKey, hkey]; rfl
          | false =>
              have hfind := ih hrest (Nat.le_of_succ_le_succ hfuel)
              simpa [hasKey, hkey] using hfind

-- The search of a key in its chain.
theorem findLoop_slot (hl : ht.Holds chains) (hs : (ht.toDict chains).Shape) (T : DictType K)
    (key : K) (hsize : ht.size ≠ 0) :
    ∃ start chain, ht.table[ht.slot T key]? = some start ∧
      chains[ht.slot T key]? = some chain ∧ ht.getSlot (ht.slot T key) = .ok start ∧
      ht.findLoop T key ht.used start = .ok ((chain.find? (hasKey T key)).map Prod.fst) := by
  obtain ⟨chain, hchain⟩ := exists_chain hs T key hsize
  obtain ⟨start, hhead, hseg⟩ := Chains.Linked.exists_head hl hchain
  exact ⟨start, chain, hhead, hchain, getSlot_eq hhead,
    findLoop_eq hseg (length_chain_le hs hchain)⟩

end Search

section Delete

variable {T : DictType K} {ht : LinkedDict K V} {chains : List (List (EntryId × DictEntry K V))}
  {key : K} {h : Nat}

theorem deleteLoop_none {chain : List (EntryId × DictEntry K V)} {start prev : Option EntryId}
    {fuel : Nat} (hseg : Chains.Segment ht.memory start chain none) (hfuel : chain.length ≤ fuel)
    (hkey : ∀ x ∈ chain, hasKey T key x = false) :
    ht.deleteLoop T key h fuel prev start = .ok (ht, none) := by
  induction chain generalizing start prev fuel with
  | nil =>
      obtain rfl : start = none := hseg
      cases fuel <;> rfl
  | cons x rest ih =>
      obtain ⟨he, entry⟩ := x
      obtain ⟨rfl, next, hmem, hrest⟩ := hseg
      cases fuel with
      | zero => exact absurd hfuel (by simp)
      | succ fuel =>
          have hentry : T.keyCompare key entry.key = false := hkey _ List.mem_cons_self
          rw [deleteLoop, read_eq hmem, ok_bind]
          have hloop := @ih next (some he) fuel hrest (Nat.le_of_succ_le_succ hfuel)
            fun x hx => hkey x (List.mem_cons_of_mem _ hx)
          simpa [hentry] using hloop

-- The entry the loop has reached is taken out of its chain.
theorem unlink_spec {done ys : List (EntryId × DictEntry K V)} {he : EntryId}
    {entry : DictEntry K V} (hl : ht.Holds chains)
    (hchain : chains[h]? = some (done ++ (he, entry) :: ys))
    (hdone : ∀ x ∈ done, hasKey T key x = false) (hkey : hasKey T key (he, entry) = true) :
    ∃ next ht', ht.memory he = some (entry, next) ∧
      ht.unlink h (done.getLast?.map Prod.fst) next = .ok ht' ∧
      (ht'.write he none).Holds (chains.modify h (List.eraseP (hasKey T key))) ∧
      ∀ chains', ht'.toDict chains' = ht.toDict chains' := by
  have herase : (done ++ (he, entry) :: ys).eraseP (hasKey T key) = done ++ ys := by
    rw [List.eraseP_append_right _ fun x hx => Bool.not_eq_true _ ▸ hdone x hx,
      List.eraseP_cons_of_pos hkey]
  obtain ⟨start, hhead, -⟩ := Chains.Linked.exists_head hl hchain
  obtain ⟨next, hmem, hlinked⟩ := Chains.Linked.unlink hl hchain herase
  cases hlast : done.getLast? with
  | none =>
      rw [hlast] at hlinked
      refine ⟨next, _, hmem, setSlot_eq hhead next, ?_, fun _ => rfl⟩
      rw [Holds, memory_write]
      exact hlinked
  | some last =>
      rw [hlast] at hlinked
      obtain ⟨hprev, hlinked⟩ := hlinked
      refine ⟨next, _, hmem, setNext_eq hprev next, ?_, fun _ => rfl⟩
      rw [Holds, memory_write, memory_write]
      exact hlinked

theorem deleteLoop_some {done xs ys : List (EntryId × DictEntry K V)} {he : EntryId}
    {entry : DictEntry K V} {start : Option EntryId} {fuel : Nat} (hl : ht.Holds chains)
    (hchain : chains[h]? = some (done ++ (xs ++ (he, entry) :: ys)))
    (hdone : ∀ x ∈ done, hasKey T key x = false) (hxs : ∀ x ∈ xs, hasKey T key x = false)
    (hkey : hasKey T key (he, entry) = true)
    (hseg : Chains.Segment ht.memory start (xs ++ (he, entry) :: ys) none)
    (hfuel : xs.length < fuel) :
    ∃ ht', ht.deleteLoop T key h fuel (done.getLast?.map Prod.fst) start =
        .ok (ht', some entry) ∧
      ht'.Holds (chains.modify h (List.eraseP (hasKey T key))) ∧
      ∀ chains', ht'.toDict chains' = { ht.toDict chains' with used := ht.used - 1 } := by
  obtain ⟨fuel, rfl⟩ : ∃ n, fuel = n + 1 := ⟨fuel - 1, by omega⟩
  induction xs generalizing done start fuel with
  | nil =>
      obtain ⟨rfl, -⟩ := hseg
      obtain ⟨next, ht', hmem, hunlink, hl', hdict⟩ := unlink_spec hl hchain hdone hkey
      have hentry : T.keyCompare key entry.key = true := hkey
      have hused : ht'.used = ht.used := congrArg Dict.used (hdict [])
      refine ⟨{ ht'.write he none with used := ht.used - 1 }, ?_, hl', fun chains' => ?_⟩
      · rw [deleteLoop, read_eq hmem, ok_bind]
        simp only [hentry, if_true, hunlink, ok_bind, hused]
        rfl
      · rw [← hdict chains']
        rfl
  | cons x xs ih =>
      obtain ⟨q, other⟩ := x
      obtain ⟨rfl, next, hmem, hrest⟩ := hseg
      have hother : T.keyCompare key other.key = false := hxs _ List.mem_cons_self
      obtain ⟨fuel, rfl⟩ : ∃ n, fuel = n + 1 :=
        ⟨fuel - 1, by rw [List.length_cons] at hfuel; omega⟩
      have hloop := @ih (done ++ [(q, other)]) next (by simpa using hchain) ?_
        (fun x hx => hxs x (List.mem_cons_of_mem _ hx)) hrest fuel (Nat.lt_of_succ_lt_succ hfuel)
      · rw [List.getLast?_concat] at hloop
        rw [deleteLoop, read_eq hmem, ok_bind]
        simpa [hother] using hloop
      · intro x hx
        rcases List.mem_append.mp hx with hx | hx
        · exact hdone x hx
        · rw [List.mem_singleton.mp hx]
          exact hother

-- A deletion takes the entry of the key out of its chain, as the table without
-- addresses does.
theorem dictGenericDelete_spec (hl : ht.Holds chains) (hs : (ht.toDict chains).Shape)
    (T : DictType K) (key : K) :
    ∃ ht', ht.dictGenericDelete T key =
        .ok (ht', (Cutis.dictGenericDelete T (ht.toDict chains) key).2) ∧
      ht'.Holds (chains.modify (ht.slot T key) (List.eraseP (hasKey T key))) ∧
      ht'.toDict (chains.modify (ht.slot T key) (List.eraseP (hasKey T key))) =
        (Cutis.dictGenericDelete T (ht.toDict chains) key).1 := by
  unfold dictGenericDelete Cutis.dictGenericDelete
  simp only [toDict_used, toDict_slot]
  by_cases hused : ht.used = 0
  · have hempty : chains.flatten = [] := List.length_eq_zero_iff.mp (by rw [← used_eq hs, hused])
    have hsame : chains.modify (ht.slot T key) (List.eraseP (hasKey T key)) = chains := by
      refine Buckets.modify_eq_self fun chain hchain => ?_
      rw [List.flatten_eq_nil_iff.mp hempty chain (List.mem_of_getElem? hchain)]
      rfl
    rw [hsame]
    simp only [hused, if_true]
    exact ⟨ht, rfl, hl, rfl⟩
  · obtain ⟨chain, hchain⟩ := exists_chain hs T key (hs.size_ne_zero hused)
    obtain ⟨start, hhead, hseg⟩ := Chains.Linked.exists_head hl hchain
    have hfuel := length_chain_le hs hchain
    have hvalue : ((ht.toDict chains).chain (ht.slot T key)).find?
          (fun he => T.keyCompare key he.key) =
        (chain.find? (hasKey T key)).map Prod.snd := by
      rw [toDict_chain hchain, List.find?_map]
      rfl
    simp only [hused, if_false, hvalue, getSlot_eq hhead, ok_bind]
    cases hfind : chain.find? (hasKey T key) with
    | none =>
        have hkey (x) (hx : x ∈ chain) : hasKey T key x = false :=
          Bool.not_eq_true _ ▸ List.find?_eq_none.mp hfind x hx
        have hsame : chains.modify (ht.slot T key) (List.eraseP (hasKey T key)) = chains := by
          refine Buckets.modify_eq_self fun other hother => ?_
          obtain rfl := Option.some.inj (hchain.symm.trans hother)
          exact List.eraseP_of_forall_not fun x hx => by rw [hkey x hx]; exact Bool.false_ne_true
        rw [hsame]
        exact ⟨ht, deleteLoop_none hseg hfuel hkey, hl, rfl⟩
    | some x =>
        obtain ⟨he, entry⟩ := x
        obtain ⟨hkey, xs, ys, rfl, hxs⟩ := List.find?_eq_some_iff_append.mp hfind
        have hlt : xs.length < ht.used := by
          rw [List.length_append, List.length_cons] at hfuel
          omega
        obtain ⟨ht', hdelete, hl', hdict⟩ := @deleteLoop_some _ _ _ _ _ _ _ [] _ _ _ _ _ _ hl hchain
          (fun _ hx => absurd hx List.not_mem_nil) (fun x hx => by simpa using hxs x hx) hkey hseg
          hlt
        refine ⟨ht', hdelete, hl', ?_⟩
        have herase (bucket : List (EntryId × DictEntry K V)) :
            (bucket.eraseP (hasKey T key)).map Prod.snd =
              (bucket.map Prod.snd).eraseP fun he => T.keyCompare key he.key := by
          rw [List.eraseP_map]
          rfl
        rw [hdict, toDict, Buckets.map_modify Prod.snd herase]
        rfl

end Delete

end LinkedDict

end Cutis

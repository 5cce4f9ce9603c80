import Cutis.Lib.Buckets
import Mathlib.Logic.Function.Basic

namespace Chains

variable {ι α : Type*}

-- The items linked from one pointer up to another, each with its address. For an
-- address the memory gives the item there and the pointer to the next one.
def Segment (memory : ι → Option (α × Option ι)) : Option ι → List (ι × α) → Option ι → Prop
  | start, [], stop => start = stop
  | start, (p, item) :: rest, stop =>
      start = some p ∧ ∃ next, memory p = some (item, next) ∧ Segment memory next rest stop

variable {memory memory' : ι → Option (α × Option ι)} {start stop : Option ι}
  {xs ys : List (ι × α)} {p : ι} {item : α}

theorem segment_append :
    Segment memory start (xs ++ ys) stop ↔
      ∃ middle, Segment memory start xs middle ∧ Segment memory middle ys stop := by
  induction xs generalizing start with
  | nil => exact ⟨fun h => ⟨start, rfl, h⟩, fun ⟨_, heq, h⟩ => heq ▸ h⟩
  | cons x xs ih =>
      obtain ⟨p, item⟩ := x
      constructor
      · rintro ⟨hstart, next, hp, h⟩
        obtain ⟨middle, hxs, hys⟩ := ih.mp h
        exact ⟨middle, ⟨hstart, next, hp, hxs⟩, hys⟩
      · rintro ⟨middle, ⟨hstart, next, hp, hxs⟩, hys⟩
        exact ⟨hstart, next, hp, ih.mpr ⟨middle, hxs, hys⟩⟩

-- Only the memory at the addresses of the items counts.
theorem Segment.congr (h : Segment memory start xs stop)
    (heq : ∀ q ∈ xs.map Prod.fst, memory' q = memory q) : Segment memory' start xs stop := by
  induction xs generalizing start with
  | nil => exact h
  | cons x xs ih =>
      obtain ⟨p, item⟩ := x
      obtain ⟨hstart, next, hp, h⟩ := h
      refine ⟨hstart, next, (heq p List.mem_cons_self).trans hp, ih h fun q hq => ?_⟩
      exact heq q (List.mem_cons_of_mem _ hq)

-- The pointer to a chain is the address of its first item.
theorem Segment.start_eq (h : Segment memory start xs none) :
    start = xs.head?.map Prod.fst := by
  cases xs with
  | nil => exact h
  | cons x xs => exact h.1

theorem Segment.exists_memory (h : Segment memory start xs stop) (hmem : (p, item) ∈ xs) :
    ∃ next, memory p = some (item, next) := by
  induction xs generalizing start with
  | nil => cases hmem
  | cons x xs ih =>
      obtain ⟨hstart, next, hp, h⟩ := h
      rcases List.mem_cons.mp hmem with rfl | hmem
      · exact ⟨next, hp⟩
      · exact ih h hmem

section Update

variable [DecidableEq ι]

-- A change of the memory elsewhere.
theorem Segment.update (h : Segment memory start xs stop) (hp : p ∉ xs.map Prod.fst)
    (contents : Option (α × Option ι)) :
    Segment (Function.update memory p contents) start xs stop := by
  refine h.congr fun q hq => Function.update_of_ne ?_ _ _
  rintro rfl
  exact hp hq

-- An item linked in front.
theorem Segment.push (h : Segment memory start xs stop) (hp : p ∉ xs.map Prod.fst) (item : α) :
    Segment (Function.update memory p (some (item, start))) (some p) ((p, item) :: xs) stop :=
  ⟨rfl, start, Function.update_self _ _ _, h.update hp _⟩

-- An item taken out by a change of the link in front of it.
theorem Segment.unlink {prev : ι} {before : α}
    (h : Segment memory start (xs ++ (prev, before) :: (p, item) :: ys) stop)
    (hnodup : ((xs ++ (prev, before) :: (p, item) :: ys).map Prod.fst).Nodup) :
    ∃ next, memory prev = some (before, some p) ∧ memory p = some (item, next) ∧
      Segment (Function.update memory prev (some (before, next))) start
        (xs ++ (prev, before) :: ys) stop := by
  obtain ⟨middle, hxs, hstart, _, hprev, rfl, next, hp, hys⟩ := segment_append.mp h
  rw [List.map_append, List.map_cons, List.map_cons, List.nodup_append, List.nodup_cons] at hnodup
  obtain ⟨-, ⟨hys_prev, -⟩, hdisj⟩ := hnodup
  refine ⟨next, hprev, hp, segment_append.mpr ⟨middle, ?_, hstart, next, ?_, ?_⟩⟩
  · exact hxs.update (fun hmem => hdisj prev hmem prev List.mem_cons_self rfl) _
  · exact Function.update_self _ _ _
  · exact hys.update (fun hmem => hys_prev (List.mem_cons_of_mem _ hmem)) _

-- An item overwritten where it is.
theorem Segment.assign {next : Option ι}
    (h : Segment memory start (xs ++ (p, item) :: ys) stop)
    (hnodup : ((xs ++ (p, item) :: ys).map Prod.fst).Nodup) (hp : memory p = some (item, next))
    (item' : α) :
    Segment (Function.update memory p (some (item', next))) start (xs ++ (p, item') :: ys)
      stop := by
  obtain ⟨middle, hxs, hmiddle, next', hp', hys⟩ := segment_append.mp h
  obtain rfl : next = next' := congrArg Prod.snd (Option.some.inj (hp.symm.trans hp'))
  rw [List.map_append, List.map_cons, List.nodup_append, List.nodup_cons] at hnodup
  obtain ⟨-, ⟨hys_p, -⟩, hdisj⟩ := hnodup
  refine segment_append.mpr ⟨middle, ?_, hmiddle, next, Function.update_self _ _ _, ?_⟩
  · exact hxs.update (fun hmem => hdisj p hmem p List.mem_cons_self rfl) _
  · exact hys.update hys_p _

end Update

-- A table of chains: every slot points to the first item of its chain, and no two items
-- share an address.
structure Linked (memory : ι → Option (α × Option ι)) (heads : List (Option ι))
    (chains : List (List (ι × α))) : Prop where
  length_eq : heads.length = chains.length
  segment : ∀ {h : Nat} {start : Option ι} {chain : List (ι × α)}, heads[h]? = some start →
    chains[h]? = some chain → Segment memory start chain none
  nodup : (chains.flatten.map Prod.fst).Nodup

variable {heads : List (Option ι)} {chains : List (List (ι × α))} {h i : Nat}
  {chain : List (ι × α)}

theorem linked_replicate (memory : ι → Option (α × Option ι)) (n : Nat) :
    Linked memory (List.replicate n none) (List.replicate n []) where
  length_eq := by rw [List.length_replicate, List.length_replicate]
  segment := fun hhead hchain => by
    obtain ⟨-, rfl⟩ := List.getElem?_eq_some_iff.mp hhead
    obtain ⟨-, rfl⟩ := List.getElem?_eq_some_iff.mp hchain
    rw [List.getElem_replicate, List.getElem_replicate]
    rfl
  nodup := by rw [Buckets.flatten_replicate_nil]; exact List.nodup_nil

theorem mem_ids (hchain : chains[h]? = some chain) {q : ι} (hq : q ∈ chain.map Prod.fst) :
    q ∈ chains.flatten.map Prod.fst := by
  obtain ⟨x, hx, rfl⟩ := List.mem_map.mp hq
  exact List.mem_map_of_mem (List.mem_flatten.mpr ⟨chain, List.mem_of_getElem? hchain, hx⟩)

theorem set_head (hhead : heads[h]? = some start) : heads.set h start = heads := by
  obtain ⟨hlt, rfl⟩ := List.getElem?_eq_some_iff.mp hhead
  exact List.set_getElem_self hlt

namespace Linked

theorem tail {slot : Option ι} (hl : Linked memory (slot :: heads) (chain :: chains)) :
    Segment memory slot chain none ∧ Linked memory heads chains := by
  refine ⟨@hl.segment 0 _ _ rfl rfl, Nat.succ.inj hl.length_eq,
    @fun h _ _ hhead hchain => @hl.segment (h + 1) _ _ hhead hchain, ?_⟩
  have hnodup := hl.nodup
  rw [List.flatten_cons, List.map_append, List.nodup_append] at hnodup
  exact hnodup.2.1

-- Only the memory at the addresses of the items counts.
theorem congr (hl : Linked memory heads chains)
    (heq : ∀ q ∈ chains.flatten.map Prod.fst, memory' q = memory q) :
    Linked memory' heads chains where
  length_eq := hl.length_eq
  segment := fun hhead hchain =>
    (hl.segment hhead hchain).congr fun q hq => heq q (mem_ids hchain hq)
  nodup := hl.nodup

theorem exists_head (hl : Linked memory heads chains) (hchain : chains[h]? = some chain) :
    ∃ start, heads[h]? = some start ∧ Segment memory start chain none := by
  obtain ⟨hlt, -⟩ := List.getElem?_eq_some_iff.mp hchain
  have hhead := List.getElem?_eq_getElem (hl.length_eq ▸ hlt)
  exact ⟨_, hhead, hl.segment hhead hchain⟩

theorem nodup_chain (hl : Linked memory heads chains) (hchain : chains[h]? = some chain) :
    (chain.map Prod.fst).Nodup := by
  have hnodup := hl.nodup
  rw [List.map_flatten, List.nodup_flatten] at hnodup
  exact hnodup.1 _ (List.mem_map_of_mem (List.mem_of_getElem? hchain))

-- The memory at an item points to the item behind it.
theorem memory_eq (hl : Linked memory heads chains)
    (hchain : chains[h]? = some (xs ++ (p, item) :: ys)) :
    memory p = some (item, ys.head?.map Prod.fst) := by
  obtain ⟨start, -, hseg⟩ := hl.exists_head hchain
  obtain ⟨-, -, -, next, hmem, hys⟩ := segment_append.mp hseg
  rw [hmem, hys.start_eq]

theorem exists_memory (hl : Linked memory heads chains) {q : ι}
    (hq : q ∈ chains.flatten.map Prod.fst) : ∃ contents, memory q = some contents := by
  obtain ⟨⟨q, item⟩, hx, rfl⟩ := List.mem_map.mp hq
  obtain ⟨chain, hchain, hx⟩ := List.mem_flatten.mp hx
  obtain ⟨h, hchain⟩ := List.mem_iff_getElem?.mp hchain
  obtain ⟨start, -, hseg⟩ := hl.exists_head hchain
  obtain ⟨next, hmem⟩ := hseg.exists_memory hx
  exact ⟨_, hmem⟩

-- Different slots hold different items.
theorem disjoint (hl : Linked memory heads chains) {other : List (ι × α)} (hne : h ≠ i)
    (hchain : chains[h]? = some chain) (hother : chains[i]? = some other) {q : ι}
    (hq : q ∈ other.map Prod.fst) : q ∉ chain.map Prod.fst := by
  have hnodup := hl.nodup
  rw [List.map_flatten, List.nodup_flatten] at hnodup
  obtain ⟨hlt, rfl⟩ := List.getElem?_eq_some_iff.mp hchain
  obtain ⟨hlt', rfl⟩ := List.getElem?_eq_some_iff.mp hother
  have hpairwise := List.pairwise_iff_getElem.mp hnodup.2
  rcases Nat.lt_or_gt_of_ne hne with hlt_i | hlt_i
  · have hdisj := hpairwise h i (by rwa [List.length_map]) (by rwa [List.length_map]) hlt_i
    rw [List.getElem_map, List.getElem_map] at hdisj
    exact fun hmem => hdisj hmem hq
  · have hdisj := hpairwise i h (by rwa [List.length_map]) (by rwa [List.length_map]) hlt_i
    rw [List.getElem_map, List.getElem_map] at hdisj
    exact fun hmem => hdisj hq hmem

-- One chain is changed, and the memory of the others is not.
theorem modify (hl : Linked memory heads chains) (hchain : chains[h]? = some chain)
    {f : List (ι × α) → List (ι × α)} (hseg : Segment memory' start (f chain) none)
    (hframe : ∀ q ∈ chains.flatten.map Prod.fst, q ∉ chain.map Prod.fst → memory' q = memory q)
    (hnodup : ((chains.modify h f).flatten.map Prod.fst).Nodup) :
    Linked memory' (heads.set h start) (chains.modify h f) where
  length_eq := by rw [List.length_set, List.length_modify, hl.length_eq]
  segment := fun {i start' other} hhead hother => by
    rw [List.getElem?_modify] at hother
    obtain ⟨old, hold, rfl⟩ := Option.map_eq_some_iff.mp hother
    by_cases hi : h = i
    · subst hi
      obtain ⟨hlt, -⟩ := List.getElem?_eq_some_iff.mp hchain
      rw [List.getElem?_set_self (hl.length_eq ▸ hlt)] at hhead
      obtain rfl := Option.some.inj hhead
      obtain rfl := Option.some.inj (hchain.symm.trans hold)
      rw [if_pos rfl]
      exact hseg
    · rw [List.getElem?_set_ne hi] at hhead
      rw [if_neg hi]
      exact (hl.segment hhead hold).congr fun q hq =>
        hframe q (mem_ids hold hq) (hl.disjoint hi hchain hold hq)
  nodup := hnodup

section Update

variable [DecidableEq ι]

-- The memory is changed only where none of the items is.
theorem update (hl : Linked memory heads chains) (hp : p ∉ chains.flatten.map Prod.fst)
    (contents : Option (α × Option ι)) :
    Linked (Function.update memory p contents) heads chains := by
  refine hl.congr fun q hq => Function.update_of_ne ?_ _ _
  rintro rfl
  exact hp hq

-- A new item in front of a chain.
theorem push (hl : Linked memory heads chains) (hchain : chains[h]? = some chain)
    (hhead : heads[h]? = some start) (hp : p ∉ chains.flatten.map Prod.fst) (item : α) :
    Linked (Function.update memory p (some (item, start))) (heads.set h (some p))
      (chains.modify h ((p, item) :: ·)) := by
  obtain ⟨hlt, rfl⟩ := List.getElem?_eq_some_iff.mp hchain
  have hperm : (chains.modify h ((p, item) :: ·)).flatten.Perm ((p, item) :: chains.flatten) :=
    Buckets.flatten_modify_perm chains h _ hlt [(p, item)] [] (List.Perm.refl _)
  refine hl.modify hchain ?_ ?_ ?_
  · exact (hl.segment hhead hchain).push (fun hmem => hp (mem_ids hchain hmem)) item
  · intro q hq _
    refine Function.update_of_ne ?_ _ _
    rintro rfl
    exact hp hq
  · rw [(hperm.map Prod.fst).nodup_iff]
    exact List.nodup_cons.mpr ⟨hp, hl.nodup⟩

theorem assign (hl : Linked memory heads chains)
    (hchain : chains[h]? = some (xs ++ (p, item) :: ys)) (item' : α) :
    Linked (Function.update memory p (some (item', ys.head?.map Prod.fst))) heads
      (chains.modify h fun _ => xs ++ (p, item') :: ys) := by
  obtain ⟨hlt, hget⟩ := List.getElem?_eq_some_iff.mp hchain
  obtain ⟨start, hhead, hseg⟩ := hl.exists_head hchain
  rw [← set_head hhead]
  refine hl.modify hchain ?_ ?_ ?_
  · exact hseg.assign (hl.nodup_chain hchain) (hl.memory_eq hchain) item'
  · intro q _ hq
    refine Function.update_of_ne ?_ _ _
    rintro rfl
    exact hq (by simp)
  · have hnodup := hl.nodup
    rw [Buckets.flatten_eq_split chains h hlt, hget] at hnodup
    rw [Buckets.flatten_modify chains h _ hlt]
    simpa using hnodup

-- An item is taken out of its chain and of the memory: the link in front of it, which may
-- be the slot itself, then points to the item behind it.
theorem unlink (hl : Linked memory heads chains)
    (hchain : chains[h]? = some (xs ++ (p, item) :: ys)) {f : List (ι × α) → List (ι × α)}
    (hf : f (xs ++ (p, item) :: ys) = xs ++ ys) :
    ∃ next, memory p = some (item, next) ∧
      match xs.getLast? with
      | none => Linked (Function.update memory p none) (heads.set h next) (chains.modify h f)
      | some (prev, before) => memory prev = some (before, some p) ∧
          Linked (Function.update (Function.update memory prev (some (before, next))) p none)
            heads (chains.modify h f) := by
  obtain ⟨hlt, hget⟩ := List.getElem?_eq_some_iff.mp hchain
  obtain ⟨start, hhead, hseg⟩ := hl.exists_head hchain
  have hperm : ((p, item) :: (chains.modify h f).flatten).Perm chains.flatten := by
    apply Buckets.flatten_modify_perm chains h f hlt [] [(p, item)]
    rw [hget, hf]
    exact (@List.perm_middle _ (p, item) xs ys).symm
  have hnodup := (hperm.map Prod.fst).nodup_iff.mpr hl.nodup
  rw [List.map_cons, List.nodup_cons] at hnodup
  obtain ⟨hp, hnodup⟩ := hnodup
  rcases List.eq_nil_or_concat xs with rfl | ⟨zs, ⟨prev, before⟩, rfl⟩
  · obtain ⟨-, next, hmem, hys⟩ := hseg
    refine ⟨next, hmem, (hl.modify hchain ?_ (fun _ _ _ => rfl) hnodup).update hp none⟩
    rw [hf]
    exact hys
  · rw [List.concat_eq_append] at hf hchain hseg ⊢
    rw [List.append_assoc, List.singleton_append] at hf hchain hseg
    obtain ⟨next, hprev, hmem, hseg'⟩ := hseg.unlink (hl.nodup_chain hchain)
    refine ⟨next, hmem, ?_⟩
    rw [List.getLast?_concat]
    refine ⟨hprev, Linked.update ?_ hp none⟩
    rw [← set_head hhead]
    refine hl.modify hchain ?_ ?_ hnodup
    · rw [hf, List.append_assoc, List.singleton_append]
      exact hseg'
    · intro q _ hq
      refine Function.update_of_ne ?_ _ _
      rintro rfl
      exact hq (by simp)

end Update

end Linked

end Chains

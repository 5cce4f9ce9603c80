import Cutis.AdList.Lemmas
import Mathlib.Data.List.Induction

namespace Cutis

namespace AdList

variable {α : Type}

section Delete

variable {l : AdList α} {prev next : Option NodeId} {xs ys : List (NodeId × α)} {p : NodeId}
  {value : α}

-- The nodes before the deleted one, relinked to what comes behind it.
theorem unlinkNext_spec (hseg : Segment l.nodes none xs next) (hnodup : (xs.map Prod.fst).Nodup)
    (q : Option NodeId) :
    ∃ l', l.unlinkNext (lastOr xs none) q = .ok l' ∧ Segment l'.nodes none xs q ∧
      (∀ r, r ∉ xs.map Prod.fst → l'.nodes r = l.nodes r) ∧
      l'.head = (if xs = [] then q else l.head) ∧ l'.tail = l.tail ∧ l'.len = l.len := by
  rcases List.eq_nil_or_concat xs with rfl | ⟨ys, ⟨p, v⟩, rfl⟩
  · exact ⟨_, rfl, trivial, fun _ _ => rfl, rfl, rfl, rfl⟩
  · rw [List.concat_eq_append] at hseg hnodup ⊢
    obtain ⟨node, hset, hseg'⟩ := setNext_last hseg hnodup q
    rw [lastOr_concat]
    refine ⟨_, hset, hseg', fun r hr => Function.update_of_ne ?_ _ _, ?_, rfl, rfl⟩
    · rintro rfl
      exact hr (by simp)
    · rw [if_neg (by simp)]
      rfl

-- The nodes behind it, relinked to what comes before it.
theorem unlinkPrev_spec (hseg : Segment l.nodes prev xs none) (hnodup : (xs.map Prod.fst).Nodup)
    (q : Option NodeId) :
    ∃ l', l.unlinkPrev q (firstOr xs none) = .ok l' ∧ Segment l'.nodes q xs none ∧
      (∀ r, r ∉ xs.map Prod.fst → l'.nodes r = l.nodes r) ∧ l'.head = l.head ∧
      l'.tail = (if xs = [] then q else l.tail) ∧ l'.len = l.len := by
  cases xs with
  | nil => exact ⟨_, rfl, trivial, fun _ _ => rfl, rfl, rfl, rfl⟩
  | cons x xs =>
      obtain ⟨p, v⟩ := x
      obtain ⟨node, hset, hseg'⟩ := setPrev_first hseg hnodup q
      refine ⟨_, hset, hseg', fun r hr => Function.update_of_ne ?_ _ _, rfl, rfl, rfl⟩
      rintro rfl
      exact hr (by simp)

theorem listDelNode_spec (h : l.Holds (xs ++ (p, value) :: ys)) :
    ∃ l', l.listDelNode p = .ok l' ∧ l'.Holds (xs ++ ys) := by
  obtain ⟨hxs, hp, hys⟩ := segment_append.mp h.linked
  have hids := h.nodup
  rw [List.map_append, List.map_cons, List.nodup_append, List.nodup_cons] at hids
  obtain ⟨hxs_nodup, ⟨hp_ys, hys_nodup⟩, hdisj⟩ := hids
  have hp_xs : p ∉ xs.map Prod.fst := fun hmem => hdisj p hmem p List.mem_cons_self rfl
  obtain ⟨l₁, heq₁, hseg₁, hframe₁, hhead₁, htail₁, hlen₁⟩ :=
    unlinkNext_spec hxs hxs_nodup (firstOr ys none)
  have hys₁ : Segment l₁.nodes (some p) ys none := by
    refine (segment_congr fun q hq => hframe₁ q fun hmem => ?_).mpr hys
    exact hdisj q hmem q (List.mem_cons_of_mem _ hq) rfl
  obtain ⟨l₂, heq₂, hseg₂, hframe₂, hhead₂, htail₂, hlen₂⟩ :=
    unlinkPrev_spec hys₁ hys_nodup (lastOr xs none)
  have hxs₂ : Segment l₂.nodes none xs (firstOr ys none) := by
    refine (segment_congr fun q hq => hframe₂ q fun hmem => ?_).mpr hseg₁
    exact hdisj q hq q (List.mem_cons_of_mem _ hmem) rfl
  have hlen : UInt32.ofNat (xs ++ (p, value) :: ys).length - 1 = UInt32.ofNat (xs ++ ys).length := by
    rw [List.length_append, List.length_cons, ← Nat.add_assoc, ofNat_succ, UInt32.add_sub_cancel,
      List.length_append]
  refine ⟨{ l₂.write p none with len := l₂.len - 1 }, ?_, ⟨?_, ?_, ?_, ?_, ?_⟩⟩
  · simp only [listDelNode, read_eq hp, heq₁, heq₂, ok_bind]
    rfl
  · exact segment_append.mpr ⟨segment_write hxs₂ hp_xs none, segment_write hseg₂ hp_ys none⟩
  · rw [List.map_append, List.nodup_append]
    exact ⟨hxs_nodup, hys_nodup, fun a ha b hb => hdisj a ha b (List.mem_cons_of_mem _ hb)⟩
  · show l₂.head = _
    rw [hhead₂, hhead₁, h.head]
    cases xs <;> rfl
  · show l₂.tail = _
    rw [htail₂, htail₁, h.tail, lastOr_append, lastOr_append, lastOr_cons]
    cases ys with
    | nil => rfl
    | cons y ys =>
        obtain ⟨q, v⟩ := y
        rw [if_neg (List.cons_ne_nil _ _), lastOr_cons, lastOr_cons]
  · show l₂.len - 1 = _
    rw [hlen₂, hlen₁, h.len, hlen]

end Delete

section Walk

variable {l : AdList α} {prev next : Option NodeId} {xs : List (NodeId × α)}

theorem walkNext_eq (hseg : Segment l.nodes prev xs none) (k : Nat) :
    l.walkNext k (firstOr xs none) = .ok (xs[k]?.map Prod.fst) := by
  induction xs generalizing prev k with
  | nil => cases k <;> rfl
  | cons x xs ih =>
      obtain ⟨p, value⟩ := x
      cases k with
      | zero => rfl
      | succ k =>
          rw [firstOr_cons, walkNext, read_eq hseg.1, ok_bind, List.getElem?_cons_succ]
          exact ih hseg.2 k

theorem walkPrev_eq (hseg : Segment l.nodes none xs next) (k : Nat) :
    l.walkPrev k (lastOr xs none) = .ok (xs.reverse[k]?.map Prod.fst) := by
  induction xs using List.reverseRecOn generalizing next k with
  | nil => cases k <;> rfl
  | append_singleton xs x ih =>
      obtain ⟨p, value⟩ := x
      obtain ⟨hxs, hp, -⟩ := segment_append.mp hseg
      rw [List.reverse_append, List.reverse_singleton, List.singleton_append, lastOr_concat]
      cases k with
      | zero => rfl
      | succ k =>
          rw [walkPrev, read_eq hp, ok_bind, List.getElem?_cons_succ]
          exact ih hxs k

-- The position an index means, counted from the end where it is negative.
def position (n : Nat) (index : Int) : Int := if index < 0 then n + index else index

-- The node at a position, if there is one.
def nodeAt (xs : List (NodeId × α)) (i : Int) : Option NodeId :=
  if 0 ≤ i then xs[i.toNat]?.map Prod.fst else none

theorem listIndex_spec (h : l.Holds xs) (hshort : xs.length < 2 ^ 31) {index : Int}
    (hlo : -2 ^ 31 ≤ index) (hhi : index < 2 ^ 31) :
    l.listIndex index = .ok (nodeAt xs (position xs.length index)) := by
  rw [listIndex, position]
  split_ifs with hneg
  · have hsteps : (toInt32 (toInt32 (-index) - 1)).toNat = (-index - 1).toNat := by
      by_cases hmin : index = -2 ^ 31
      · subst hmin
        decide
      · rw [toInt32_eq_self (-index) (by omega) (by omega), toInt32_eq_self _ (by omega) (by omega)]
    rw [hsteps, h.tail, walkPrev_eq h.linked, nodeAt]
    split_ifs with hpos
    · rw [List.getElem?_reverse (by omega)]
      congr 3
      omega
    · rw [List.getElem?_eq_none (by rw [List.length_reverse]; omega)]
      rfl
  · rw [h.head, walkNext_eq h.linked, nodeAt, if_pos (by omega)]

end Walk

section Follow

variable {l : AdList α} {prev next : Option NodeId} {xs : List (NodeId × α)}

theorem followNext_eq (hseg : Segment l.nodes prev xs none) {fuel : Nat}
    (hfuel : xs.length ≤ fuel) : l.followNext fuel (firstOr xs none) = .ok xs := by
  induction xs generalizing prev fuel with
  | nil => cases fuel <;> rfl
  | cons x xs ih =>
      obtain ⟨p, value⟩ := x
      cases fuel with
      | zero => cases hfuel
      | succ fuel =>
          rw [firstOr_cons, followNext, read_eq hseg.1, ok_bind]
          simp only [ih hseg.2 (Nat.le_of_succ_le_succ hfuel), ok_bind]
          rfl

theorem followPrev_eq (hseg : Segment l.nodes none xs next) {fuel : Nat}
    (hfuel : xs.length ≤ fuel) : l.followPrev fuel (lastOr xs none) = .ok xs.reverse := by
  induction xs using List.reverseRecOn generalizing next fuel with
  | nil => cases fuel <;> rfl
  | append_singleton xs x ih =>
      obtain ⟨p, value⟩ := x
      obtain ⟨hxs, hp, -⟩ := segment_append.mp hseg
      rw [List.length_append, List.length_singleton] at hfuel
      rw [List.reverse_append, List.reverse_singleton, List.singleton_append, lastOr_concat]
      cases fuel with
      | zero => omega
      | succ fuel =>
          rw [followPrev, read_eq hp, ok_bind]
          simp only [ih hxs (Nat.le_of_succ_le_succ hfuel), ok_bind]
          rfl

-- What the list shows to its users: the sequence along both links, its length, and
-- null ends where it is empty.
structure Shows (l : AdList α) (xs : List (NodeId × α)) : Prop where
  next : l.followNext xs.length l.head = .ok xs
  prev : l.followPrev xs.length l.tail = .ok xs.reverse
  len : l.len.toNat = xs.length
  head : l.head = none ↔ xs = []
  tail : l.tail = none ↔ xs = []

theorem Holds.shows (h : l.Holds xs) (hshort : xs.length < 2 ^ 31) : l.Shows xs where
  next := h.head ▸ followNext_eq h.linked (Nat.le_refl _)
  prev := h.tail ▸ followPrev_eq h.linked (Nat.le_refl _)
  len := h.len_toNat hshort
  head := by
    rw [h.head]
    cases xs <;> simp [firstOr]
  tail := by
    rw [h.tail]
    rcases List.eq_nil_or_concat xs with rfl | ⟨ys, ⟨p, v⟩, rfl⟩
    · simp
    · simp

end Follow

section Search

variable {l : AdList α} {xs : List (NodeId × α)} (found : α → Bool)

theorem searchFrom_eq {ys : List (NodeId × α)} {prev : Option NodeId}
    (hseg : Segment l.nodes prev ys none) {fuel : Nat} (hfuel : ys.length < fuel) :
    l.searchFrom found fuel { next := firstOr ys none, direction := .AL_START_HEAD } =
      .ok ((ys.find? fun x => found x.2).map Prod.fst) := by
  induction ys generalizing prev fuel with
  | nil =>
      obtain ⟨fuel, rfl⟩ : ∃ k, fuel = k + 1 := ⟨fuel - 1, by omega⟩
      rfl
  | cons y ys ih =>
      obtain ⟨p, value⟩ := y
      obtain ⟨fuel, rfl⟩ : ∃ k, fuel = k + 1 := ⟨fuel - 1, by omega⟩
      obtain ⟨hp, hys⟩ := hseg
      have hnext : l.listNextElement
          { next := firstOr ((p, value) :: ys) none, direction := .AL_START_HEAD } =
            .ok (some p, { next := firstOr ys none, direction := .AL_START_HEAD }) := by
        simp only [listNextElement, firstOr_cons, read_eq hp, ok_bind]
        rfl
      simp only [searchFrom, hnext, ok_bind, read_eq hp, List.find?_cons]
      cases found value with
      | true => rfl
      | false => exact ih hys (Nat.lt_of_succ_lt_succ hfuel)

theorem listSearchKey_spec (h : l.Holds xs) (hshort : xs.length < 2 ^ 31) :
    l.listSearchKey found = .ok ((xs.find? fun x => found x.2).map Prod.fst) := by
  rw [listSearchKey, listGetIterator, h.head, h.len_toNat hshort]
  exact searchFrom_eq found h.linked (Nat.lt_succ_self _)

end Search

section Visit

variable {l : AdList α} (delete : NodeId → Bool)

-- What is left where the chosen nodes are deleted.
def kept (delete : NodeId → Bool) (xs : List (NodeId × α)) : List (NodeId × α) :=
  xs.filter fun x => !delete x.1

-- The node just returned stands between the nodes that stay and those still to come.
theorem visit_current {xs ys : List (NodeId × α)} {p : NodeId} {value : α}
    (h : l.Holds (xs ++ (p, value) :: ys)) {iter iter' : ListIter} (fuel : Nat)
    (hnext : l.listNextElement iter = .ok (some p, iter')) :
    ∃ l₁, l₁.Holds (xs ++ kept delete [(p, value)] ++ ys) ∧
      ∀ visited l', visit delete fuel iter' l₁ = .ok (visited, l') →
        visit delete (fuel + 1) iter l = .ok (p :: visited, l') := by
  cases hp : delete p with
  | false =>
      refine ⟨l, ?_, fun visited l' hvisit => ?_⟩
      · rw [kept, List.filter_cons_of_pos (by simp [hp]), List.filter_nil, List.append_assoc]
        exact h
      · simp only [visit, hnext, ok_bind, hp, Bool.false_eq_true, if_false, pure, Except.pure,
          hvisit]
  | true =>
      obtain ⟨l₁, hdel, h₁⟩ := listDelNode_spec h
      refine ⟨l₁, ?_, fun visited l' hvisit => ?_⟩
      · rw [kept, List.filter_cons_of_neg (by simp [hp]), List.filter_nil, List.append_nil]
        exact h₁
      · simp only [visit, hnext, ok_bind, hp, if_true, hdel, pure, Except.pure, hvisit]

theorem kept_append (xs ys : List (NodeId × α)) :
    kept delete (xs ++ ys) = kept delete xs ++ kept delete ys :=
  List.filter_append xs ys

theorem visit_next {xs : List (NodeId × α)} (ys : List (NodeId × α)) (h : l.Holds (xs ++ ys))
    {fuel : Nat} (hfuel : ys.length < fuel) :
    ∃ l', visit delete fuel { next := firstOr ys none, direction := .AL_START_HEAD } l =
        .ok (ys.map Prod.fst, l') ∧ l'.Holds (xs ++ kept delete ys) := by
  induction ys generalizing xs l fuel with
  | nil =>
      obtain ⟨fuel, rfl⟩ : ∃ k, fuel = k + 1 := ⟨fuel - 1, by omega⟩
      exact ⟨l, rfl, h⟩
  | cons y ys ih =>
      obtain ⟨p, value⟩ := y
      obtain ⟨fuel, rfl⟩ : ∃ k, fuel = k + 1 := ⟨fuel - 1, by omega⟩
      obtain ⟨-, hp, -⟩ := segment_append.mp h.linked
      have hnext : l.listNextElement
          { next := firstOr ((p, value) :: ys) none, direction := .AL_START_HEAD } =
            .ok (some p, { next := firstOr ys none, direction := .AL_START_HEAD }) := by
        simp only [listNextElement, firstOr_cons, read_eq hp, ok_bind]
        rfl
      obtain ⟨l₁, h₁, hvisit⟩ := visit_current delete h fuel hnext
      obtain ⟨l', hrest, h'⟩ := ih h₁ (Nat.lt_of_succ_lt_succ hfuel)
      refine ⟨l', hvisit _ l' hrest, ?_⟩
      rw [← List.singleton_append, kept_append, ← List.append_assoc]
      exact h'

theorem visit_prev {ys : List (NodeId × α)} (xs : List (NodeId × α)) (h : l.Holds (xs ++ ys))
    {fuel : Nat} (hfuel : xs.length < fuel) :
    ∃ l', visit delete fuel { next := lastOr xs none, direction := .AL_START_TAIL } l =
        .ok ((xs.map Prod.fst).reverse, l') ∧ l'.Holds (kept delete xs ++ ys) := by
  induction xs using List.reverseRecOn generalizing ys l fuel with
  | nil =>
      obtain ⟨fuel, rfl⟩ : ∃ k, fuel = k + 1 := ⟨fuel - 1, by omega⟩
      exact ⟨l, rfl, h⟩
  | append_singleton xs x ih =>
      obtain ⟨p, value⟩ := x
      obtain ⟨fuel, rfl⟩ : ∃ k, fuel = k + 1 := ⟨fuel - 1, by omega⟩
      rw [List.append_assoc, List.singleton_append] at h
      obtain ⟨-, hp, -⟩ := segment_append.mp h.linked
      have hnext : l.listNextElement
          { next := lastOr (xs ++ [(p, value)]) none, direction := .AL_START_TAIL } =
            .ok (some p, { next := lastOr xs none, direction := .AL_START_TAIL }) := by
        simp only [listNextElement, lastOr_concat, read_eq hp, ok_bind]
        rfl
      obtain ⟨l₁, h₁, hvisit⟩ := visit_current delete h fuel hnext
      rw [List.append_assoc] at h₁
      rw [List.length_append, List.length_singleton] at hfuel
      obtain ⟨l', hrest, h'⟩ := ih h₁ (Nat.lt_of_succ_lt_succ hfuel)
      refine ⟨l', ?_, ?_⟩
      · rw [List.map_append, List.reverse_append]
        exact hvisit _ l' hrest
      · rw [kept_append, List.append_assoc]
        exact h'

end Visit

section Runs

-- The sequence an operation leaves.
def Op.apply : Op α → List (NodeId × α) → List (NodeId × α)
  | .addHead node value, xs => (node, value) :: xs
  | .addTail node value, xs => xs ++ [(node, value)]
  | .delete node, xs => xs.filter fun x => x.1 ≠ node

-- A new node is in a block that is not in use, a deleted one is in the list, and the
-- list stays below 2^31 nodes.
def Op.Ok (xs : List (NodeId × α)) : Op α → Prop
  | .addHead node _ | .addTail node _ => node ∉ xs.map Prod.fst ∧ xs.length + 1 < 2 ^ 31
  | .delete node => node ∈ xs.map Prod.fst

def Op.AllOk : List (NodeId × α) → List (Op α) → Prop
  | _, [] => True
  | xs, op :: ops => op.Ok xs ∧ Op.AllOk (op.apply xs) ops

def sequenceAfter (ops : List (Op α)) : List (NodeId × α) := ops.foldl (fun xs op => op.apply xs) []

theorem filter_ne {xs ys : List (NodeId × α)} {p : NodeId} {value : α}
    (h : ((xs ++ (p, value) :: ys).map Prod.fst).Nodup) :
    (xs ++ (p, value) :: ys).filter (fun x => x.1 ≠ p) = xs ++ ys := by
  rw [List.map_append, List.map_cons, List.nodup_append, List.nodup_cons] at h
  obtain ⟨-, ⟨hys, -⟩, hdisj⟩ := h
  rw [List.filter_append, List.filter_cons_of_neg (by simp)]
  congr 1
  · refine List.filter_eq_self.mpr fun x hx => ?_
    have hne := hdisj x.1 (List.mem_map_of_mem hx) p List.mem_cons_self
    simpa using hne
  · refine List.filter_eq_self.mpr fun x hx => ?_
    have hne : x.1 ≠ p := fun heq => hys (heq ▸ List.mem_map.mpr ⟨x, hx, rfl⟩)
    simpa using hne

theorem step_spec {l : AdList α} {xs : List (NodeId × α)} (h : l.Holds xs)
    (hshort : xs.length < 2 ^ 31) {op : Op α} (hop : op.Ok xs) :
    ∃ l', l.step op = .ok l' ∧ l'.Holds (op.apply xs) ∧ (op.apply xs).length < 2 ^ 31 := by
  cases op with
  | addHead node value =>
      obtain ⟨l', hadd, h'⟩ := listAddNodeHead_spec h hop.1 hshort value
      exact ⟨l', hadd, h', hop.2⟩
  | addTail node value =>
      obtain ⟨l', hadd, h'⟩ := listAddNodeTail_spec h hop.1 hshort value
      refine ⟨l', hadd, h', ?_⟩
      rw [Op.apply, List.length_append]
      exact hop.2
  | delete node =>
      obtain ⟨⟨p, value⟩, hmem, rfl⟩ := List.mem_map.mp hop
      obtain ⟨xs, ys, rfl⟩ := List.append_of_mem hmem
      obtain ⟨l', hdel, h'⟩ := listDelNode_spec h
      refine ⟨l', hdel, ?_, ?_⟩
      · rw [Op.apply, filter_ne h.nodup]
        exact h'
      · exact Nat.lt_of_le_of_lt (List.length_filter_le _ _) hshort

theorem run_spec {l : AdList α} {xs : List (NodeId × α)} (h : l.Holds xs)
    (hshort : xs.length < 2 ^ 31) {ops : List (Op α)} (hops : Op.AllOk xs ops) :
    ∃ l', l.run ops = .ok l' ∧ l'.Holds (ops.foldl (fun xs op => op.apply xs) xs) ∧
      (ops.foldl (fun xs op => op.apply xs) xs).length < 2 ^ 31 := by
  induction ops generalizing l xs with
  | nil => exact ⟨l, rfl, h, hshort⟩
  | cons op ops ih =>
      obtain ⟨l₁, hstep, h₁, hshort₁⟩ := step_spec h hshort hops.1
      obtain ⟨l', hrun, h'⟩ := ih h₁ hshort₁ hops.2
      refine ⟨l', ?_, h'⟩
      rw [run, hstep, ok_bind]
      exact hrun

-- The nodes in the order of an iteration.
def inOrder (direction : Direction) (xs : List (NodeId × α)) : List NodeId :=
  match direction with
  | .AL_START_HEAD => xs.map Prod.fst
  | .AL_START_TAIL => (xs.map Prod.fst).reverse

theorem visit_spec {l : AdList α} {xs : List (NodeId × α)} (h : l.Holds xs)
    (direction : Direction) (delete : NodeId → Bool) :
    ∃ l', visit delete (xs.length + 1) (l.listGetIterator direction) l =
        .ok (inOrder direction xs, l') ∧ l'.Holds (kept delete xs) := by
  cases direction with
  | AL_START_HEAD =>
      rw [listGetIterator, h.head]
      have h' : l.Holds ([] ++ xs) := h
      exact visit_next delete xs h' (Nat.lt_succ_self _)
  | AL_START_TAIL =>
      rw [listGetIterator, h.tail]
      have h' := h
      rw [← List.append_nil xs] at h'
      obtain ⟨l', hvisit, hl'⟩ := visit_prev delete xs h' (Nat.lt_succ_self _)
      rw [List.append_nil] at hl'
      exact ⟨l', hvisit, hl'⟩

-- The linked list is the sequence the operations make, and so is what indexing and
-- iterating see of it.
theorem refines_sequence (ops : List (Op α)) (h : Op.AllOk [] ops) :
    ∃ l : AdList α, listCreate.run ops = .ok l ∧ l.Shows (sequenceAfter ops) ∧
      ((sequenceAfter ops).map Prod.fst).Nodup ∧
      (∀ index : Int, -2 ^ 31 ≤ index → index < 2 ^ 31 →
        l.listIndex index =
          .ok (nodeAt (sequenceAfter ops) (position (sequenceAfter ops).length index))) ∧
      ∀ (direction : Direction) (delete : NodeId → Bool), ∃ l',
        visit delete ((sequenceAfter ops).length + 1) (l.listGetIterator direction) l =
            .ok (inOrder direction (sequenceAfter ops), l') ∧
          l'.Shows (kept delete (sequenceAfter ops)) := by
  obtain ⟨l, hrun, hl, hshort⟩ := run_spec holds_listCreate (Nat.two_pow_pos 31) h
  refine ⟨l, hrun, hl.shows hshort, hl.nodup, fun index hlo hhi => listIndex_spec hl hshort hlo hhi,
    fun direction delete => ?_⟩
  obtain ⟨l', hvisit, hl'⟩ := visit_spec hl direction delete
  exact ⟨l', hvisit, hl'.shows (Nat.lt_of_le_of_lt (List.length_filter_le _ _) hshort)⟩

theorem refines_sequence_three :
    ∃ l : AdList Nat, listCreate.run [.addTail 7 1, .addHead 3 0, .addTail 9 2, .delete 7] = .ok l ∧
      l.Shows [(3, 0), (9, 2)] := by
  have h := @refines_sequence Nat [.addTail 7 1, .addHead 3 0, .addTail 9 2, .delete 7]
    (by simp [Op.AllOk, Op.Ok, Op.apply])
  obtain ⟨l, hrun, hshows, -⟩ := h
  exact ⟨l, hrun, hshows⟩

end Runs

end AdList

end Cutis

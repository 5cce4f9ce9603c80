import Cutis.AdList
import Mathlib.Data.List.Basic
import Mathlib.Data.List.Nodup
import Mathlib.Data.List.Induction

namespace Cutis

namespace AdList

variable {α : Type}

-- The address of the first or last of some nodes, or of what comes beyond them.
def firstOr (xs : List (NodeId × α)) (next : Option NodeId) : Option NodeId :=
  (xs.head?.map Prod.fst).or next

def lastOr (xs : List (NodeId × α)) (prev : Option NodeId) : Option NodeId :=
  (xs.getLast?.map Prod.fst).or prev

-- Nodes that follow each other in memory, between the neighbours prev and next.
def Segment (nodes : NodeId → Option (ListNode α)) :
    Option NodeId → List (NodeId × α) → Option NodeId → Prop
  | _, [], _ => True
  | prev, (p, value) :: rest, next =>
      nodes p = some { prev, next := firstOr rest next, value } ∧ Segment nodes (some p) rest next

-- The list holds these nodes in this order.
structure Holds (l : AdList α) (xs : List (NodeId × α)) : Prop where
  linked : Segment l.nodes none xs none
  nodup : (xs.map Prod.fst).Nodup
  head : l.head = firstOr xs none
  tail : l.tail = lastOr xs none
  len : l.len = UInt32.ofNat xs.length

section Segments

variable {nodes nodes' : NodeId → Option (ListNode α)} {prev next : Option NodeId}
  {xs ys : List (NodeId × α)} {p : NodeId} {value : α}

@[simp] theorem firstOr_nil : firstOr ([] : List (NodeId × α)) next = next := rfl

@[simp] theorem firstOr_cons : firstOr ((p, value) :: xs) next = some p := rfl

@[simp] theorem lastOr_nil : lastOr ([] : List (NodeId × α)) prev = prev := rfl

@[simp] theorem lastOr_concat : lastOr (xs ++ [(p, value)]) prev = some p := by
  rw [lastOr, List.getLast?_concat]
  rfl

theorem lastOr_cons : lastOr ((p, value) :: xs) prev = lastOr xs (some p) := by
  rcases List.eq_nil_or_concat xs with rfl | ⟨ys, ⟨q, v⟩, rfl⟩
  · rfl
  · rw [List.concat_eq_append, ← List.cons_append, lastOr_concat, lastOr_concat]

theorem firstOr_append : firstOr (xs ++ ys) next = firstOr xs (firstOr ys next) := by
  cases xs with
  | nil => rfl
  | cons x xs => rfl

theorem lastOr_append : lastOr (xs ++ ys) prev = lastOr ys (lastOr xs prev) := by
  induction xs generalizing prev with
  | nil => rfl
  | cons x xs ih =>
      obtain ⟨p, value⟩ := x
      rw [List.cons_append, lastOr_cons, lastOr_cons, ih]

theorem segment_append :
    Segment nodes prev (xs ++ ys) next ↔
      Segment nodes prev xs (firstOr ys next) ∧ Segment nodes (lastOr xs prev) ys next := by
  induction xs generalizing prev with
  | nil => exact ⟨fun h => ⟨trivial, h⟩, And.right⟩
  | cons x xs ih =>
      obtain ⟨p, value⟩ := x
      rw [List.cons_append, Segment, Segment, ih, firstOr_append, lastOr_cons, and_assoc]

theorem segment_congr (h : ∀ q ∈ xs.map Prod.fst, nodes' q = nodes q) :
    Segment nodes' prev xs next ↔ Segment nodes prev xs next := by
  induction xs generalizing prev with
  | nil => exact Iff.rfl
  | cons x xs ih =>
      obtain ⟨p, value⟩ := x
      rw [Segment, Segment, h p (by simp), ih fun q hq => h q (by simp [hq])]

end Segments

section Pointers

variable {l : AdList α} {prev next : Option NodeId} {xs : List (NodeId × α)} {p : NodeId}
  {value : α}

theorem read_eq {node : ListNode α} (h : l.nodes p = some node) : l.read p = .ok node := by
  rw [read, h]
  rfl

-- A change of the link at the end of some nodes.
theorem setNext_last (hseg : Segment l.nodes prev (xs ++ [(p, value)]) next)
    (hnodup : ((xs ++ [(p, value)]).map Prod.fst).Nodup) (q : Option NodeId) :
    ∃ node, l.setNext p q = .ok (l.write p (some node)) ∧
      Segment (l.write p (some node)).nodes prev (xs ++ [(p, value)]) q := by
  rw [segment_append] at hseg
  obtain ⟨hxs, hp, -⟩ := hseg
  refine ⟨{ prev := lastOr xs prev, next := q, value }, ?_, ?_⟩
  · rw [setNext, read_eq hp]
    rfl
  · rw [segment_append]
    refine ⟨(segment_congr fun r hr => ?_).mpr hxs, ?_, trivial⟩
    · refine Function.update_of_ne ?_ _ _
      rintro rfl
      rw [List.map_append, List.map_singleton, List.nodup_append] at hnodup
      exact hnodup.2.2 r hr r (by simp) rfl
    · exact Function.update_self _ _ _

-- A change of the link at their start.
theorem setPrev_first (hseg : Segment l.nodes prev ((p, value) :: xs) next)
    (hnodup : (((p, value) :: xs).map Prod.fst).Nodup) (q : Option NodeId) :
    ∃ node, l.setPrev p q = .ok (l.write p (some node)) ∧
      Segment (l.write p (some node)).nodes q ((p, value) :: xs) next := by
  obtain ⟨hp, hxs⟩ := hseg
  refine ⟨{ prev := q, next := firstOr xs next, value }, ?_, ?_⟩
  · rw [setPrev, read_eq hp]
    rfl
  · refine ⟨Function.update_self _ _ _, (segment_congr fun r hr => ?_).mpr hxs⟩
    refine Function.update_of_ne ?_ _ _
    rintro rfl
    rw [List.map_cons, List.nodup_cons] at hnodup
    exact hnodup.1 hr

theorem segment_write (hseg : Segment l.nodes prev xs next) (hp : p ∉ xs.map Prod.fst)
    (node : Option (ListNode α)) : Segment (l.write p node).nodes prev xs next := by
  refine (segment_congr fun q hq => ?_).mpr hseg
  refine Function.update_of_ne ?_ _ _
  rintro rfl
  exact hp hq

end Pointers

theorem holds_listCreate : (listCreate : AdList α).Holds [] :=
  ⟨trivial, List.nodup_nil, rfl, rfl, rfl⟩

section Add

variable {l : AdList α} {xs : List (NodeId × α)} {p : NodeId}

theorem Holds.len_toNat (h : l.Holds xs) (hshort : xs.length < 2 ^ 31) :
    l.len.toNat = xs.length := by
  rw [h.len, UInt32.toNat_ofNat_of_lt']
  exact Nat.lt_trans hshort (by decide)

theorem Holds.len_eq_zero_iff (h : l.Holds xs) (hshort : xs.length < 2 ^ 31) :
    l.len = 0 ↔ xs = [] := by
  rw [← UInt32.toNat_inj, h.len_toNat hshort, ← List.length_eq_zero_iff]
  rfl

theorem ofNat_succ (n : Nat) : UInt32.ofNat (n + 1) = UInt32.ofNat n + 1 := by
  rw [UInt32.ofNat_add]
  rfl

theorem listAddNodeHead_spec (h : l.Holds xs) (hp : p ∉ xs.map Prod.fst)
    (hshort : xs.length < 2 ^ 31) (value : α) :
    ∃ l', l.listAddNodeHead p value = .ok l' ∧ l'.Holds ((p, value) :: xs) := by
  unfold listAddNodeHead
  have hnodup := List.nodup_cons.mpr ⟨hp, h.nodup⟩
  cases xs with
  | nil =>
      rw [if_pos ((h.len_eq_zero_iff hshort).mpr rfl)]
      refine ⟨_, rfl, ⟨Function.update_self _ _ _, trivial⟩, hnodup, rfl, rfl, ?_⟩
      exact congrArg (· + 1) h.len
  | cons x xs =>
      obtain ⟨q, v⟩ := x
      have hhead : l.head = some q := h.head
      rw [if_neg (mt (h.len_eq_zero_iff hshort).mp (List.cons_ne_nil _ _)), hhead]
      have hseg := segment_write h.linked hp (some { prev := none, next := some q, value })
      obtain ⟨node, hset, hseg'⟩ := setPrev_first hseg h.nodup (some p)
      have hne : p ≠ q := by
        rintro rfl
        exact hp (by simp)
      simp only [hset, ok_bind]
      refine ⟨_, rfl, ⟨?_, hseg'⟩, hnodup, rfl, ?_, ?_⟩
      · exact (Function.update_of_ne hne _ _).trans (Function.update_self _ _ _)
      · have htail := h.tail
        rw [lastOr_cons] at htail
        rw [lastOr_cons, lastOr_cons]
        exact htail
      · exact (congrArg (· + 1) h.len).trans (ofNat_succ _).symm

theorem listAddNodeTail_spec (h : l.Holds xs) (hp : p ∉ xs.map Prod.fst)
    (hshort : xs.length < 2 ^ 31) (value : α) :
    ∃ l', l.listAddNodeTail p value = .ok l' ∧ l'.Holds (xs ++ [(p, value)]) := by
  unfold listAddNodeTail
  have hnodup : ((xs ++ [(p, value)]).map Prod.fst).Nodup := by
    rw [List.map_append, List.map_singleton, List.nodup_append]
    refine ⟨h.nodup, List.nodup_singleton _, fun a ha b hb => ?_⟩
    rw [List.mem_singleton.mp hb]
    rintro rfl
    exact hp ha
  rcases List.eq_nil_or_concat xs with rfl | ⟨ys, ⟨q, v⟩, rfl⟩
  · rw [if_pos ((h.len_eq_zero_iff hshort).mpr rfl)]
    refine ⟨_, rfl, ⟨Function.update_self _ _ _, trivial⟩, hnodup, rfl, rfl, ?_⟩
    exact congrArg (· + 1) h.len
  · rw [List.concat_eq_append] at h hp hshort hnodup ⊢
    have htail : l.tail = some q := h.tail.trans lastOr_concat
    have hnonempty : ys ++ [(q, v)] ≠ [] := by simp
    rw [if_neg (mt (h.len_eq_zero_iff hshort).mp hnonempty), htail]
    have hseg := segment_write h.linked hp (some { prev := some q, next := none, value })
    obtain ⟨node, hset, hseg'⟩ := setNext_last hseg h.nodup (some p)
    have hne : p ≠ q := by
      rintro rfl
      exact hp (by simp)
    simp only [hset, ok_bind]
    refine ⟨_, rfl, segment_append.mpr ⟨hseg', ?_, trivial⟩, hnodup, ?_, lastOr_concat.symm, ?_⟩
    · rw [lastOr_concat]
      exact (Function.update_of_ne hne _ _).trans (Function.update_self _ _ _)
    · rw [firstOr_append]
      refine h.head.trans ?_
      cases ys <;> rfl
    · rw [@List.length_append _ (ys ++ [(q, v)])]
      exact (congrArg (· + 1) h.len).trans (ofNat_succ _).symm

-- A list made by adding the values one by one at the tail.
theorem exists_holds (values : List α) (hshort : values.length < 2 ^ 31) :
    ∃ (l : AdList α) (xs : List (NodeId × α)), l.Holds xs ∧ xs.map Prod.snd = values ∧
      xs.map Prod.fst = List.range values.length := by
  induction values using List.reverseRecOn with
  | nil => exact ⟨listCreate, [], holds_listCreate, rfl, rfl⟩
  | append_singleton values value ih =>
      rw [List.length_append, List.length_singleton] at hshort
      obtain ⟨l, xs, hl, hvalues, hnodes⟩ := ih (by omega)
      have hlen : xs.length = values.length := by rw [← hvalues, List.length_map]
      have hnew : values.length ∉ xs.map Prod.fst := by simp [hnodes]
      obtain ⟨l', -, hl'⟩ := listAddNodeTail_spec hl hnew (by omega) value
      refine ⟨l', _, hl', by rw [List.map_append, hvalues]; rfl, ?_⟩
      rw [List.map_append, hnodes, List.length_append, List.length_singleton, List.range_succ]
      rfl

end Add

end AdList

end Cutis

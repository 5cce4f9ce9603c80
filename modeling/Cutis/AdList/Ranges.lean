import Cutis.AdList.Sequence
import Cutis.Command.Ranges

namespace Cutis

namespace AdList

variable {α : Type}

section Loops

-- The loop of LRANGE: the values of that many nodes from a node on. A null node is
-- dereferenced.
def takeValues (l : AdList α) : Nat → Option NodeId → Except Fault (List α)
  | 0, _ => return []
  | _ + 1, none => throw .segv
  | j + 1, some ln => do
      let node ← l.read ln
      return node.value :: (← takeValues l j node.next)

-- The part of LRANGE between its type test and the reply.
def lrange (l : AdList α) (start endIdx : Int) : Except Fault (List α) :=
  match rangeBounds (toInt32 l.len.toNat) start endIdx with
  | none => return []
  | some (start, endIdx) => do
      let ln ← l.listIndex start
      l.takeValues (endIdx - start + 1).toNat ln

-- The loops of LTRIM.
def delFirst : Nat → AdList α → Except Fault (AdList α)
  | 0, l => return l
  | j + 1, l =>
      match l.head with
      | none => throw .segv
      | some ln => do delFirst j (← l.listDelNode ln)

def delLast : Nat → AdList α → Except Fault (AdList α)
  | 0, l => return l
  | j + 1, l =>
      match l.tail with
      | none => throw .segv
      | some ln => do delLast j (← l.listDelNode ln)

def ltrim (l : AdList α) (start endIdx : Int) : Except Fault (AdList α) := do
  let llen := toInt32 l.len.toNat
  let (ltrim, rtrim) :=
    match rangeBounds llen start endIdx with
    | none => (llen, 0)
    | some (start, endIdx) => (start, llen - endIdx - 1)
  let l ← delFirst ltrim.toNat l
  delLast rtrim.toNat l

end Loops

section Ranges

variable {l : AdList α} {xs : List (NodeId × α)}

theorem takeValues_eq {prev : Option NodeId} (hseg : Segment l.nodes prev xs none) {n : Nat}
    (hn : n ≤ xs.length) :
    l.takeValues n (firstOr xs none) = .ok ((xs.take n).map Prod.snd) := by
  induction xs generalizing prev n with
  | nil =>
      obtain rfl : n = 0 := by simpa using hn
      rfl
  | cons x xs ih =>
      obtain ⟨p, value⟩ := x
      cases n with
      | zero => rfl
      | succ n =>
          rw [firstOr_cons, takeValues, read_eq hseg.1, ok_bind]
          simp only [ih hseg.2 (Nat.le_of_succ_le_succ hn), ok_bind]
          rfl

theorem delFirst_spec (h : l.Holds xs) {n : Nat} (hn : n ≤ xs.length) :
    ∃ l', delFirst n l = .ok l' ∧ l'.Holds (xs.drop n) := by
  induction n generalizing l xs with
  | zero => exact ⟨l, rfl, h⟩
  | succ n ih =>
      cases xs with
      | nil => cases hn
      | cons x xs =>
          obtain ⟨p, value⟩ := x
          obtain ⟨l₁, hdel, h₁⟩ : ∃ l₁, l.listDelNode p = .ok l₁ ∧ l₁.Holds ([] ++ xs) :=
            listDelNode_spec h
          obtain ⟨l', hrest, h'⟩ := ih h₁ (Nat.le_of_succ_le_succ hn)
          refine ⟨l', ?_, h'⟩
          simp only [delFirst, h.head, firstOr_cons, hdel, ok_bind]
          exact hrest

theorem delLast_spec (h : l.Holds xs) {n : Nat} (hn : n ≤ xs.length) :
    ∃ l', delLast n l = .ok l' ∧ l'.Holds (xs.take (xs.length - n)) := by
  induction n generalizing l xs with
  | zero =>
      rw [Nat.sub_zero, List.take_length]
      exact ⟨l, rfl, h⟩
  | succ n ih =>
      rcases List.eq_nil_or_concat xs with rfl | ⟨ys, ⟨p, value⟩, rfl⟩
      · cases hn
      · rw [List.concat_eq_append] at h hn ⊢
        rw [List.length_append, List.length_singleton] at hn ⊢
        obtain ⟨l₁, hdel, h₁⟩ := listDelNode_spec h
        rw [List.append_nil] at h₁
        obtain ⟨l', hrest, h'⟩ := ih h₁ (Nat.le_of_succ_le_succ hn)
        refine ⟨l', ?_, ?_⟩
        · simp only [delLast, h.tail, lastOr_concat, hdel, ok_bind]
          exact hrest
        · rw [Nat.add_sub_add_right, List.take_append_of_le_length (by omega)]
          exact h'

variable (h : l.Holds xs) (hshort : xs.length < 2 ^ 31)

include h hshort

theorem toInt32_len : toInt32 l.len.toNat = xs.length := by
  rw [h.len_toNat hshort, toInt32_natCast _ hshort]

end Ranges

section Commands

variable {l : AdList Bytes} {xs : List (NodeId × Bytes)} (h : l.Holds xs)
  (hshort : xs.length < 2 ^ 31) (start endIdx : Int)

include h hshort

theorem lrange_eq :
    l.lrange start endIdx = .ok (Keyspace.range (xs.map Prod.snd) start endIdx) := by
  rw [lrange, Keyspace.range, toInt32_len h hshort, List.length_map, toInt32_natCast _ hshort]
  cases hbounds : rangeBounds xs.length start endIdx with
  | none => rfl
  | some bounds =>
      obtain ⟨a, b⟩ := bounds
      obtain ⟨ha, hab, hb⟩ := Session.rangeBounds_some hbounds
      have hnode : nodeAt xs (position xs.length a) = firstOr (xs.drop a.toNat) none := by
        rw [position, if_neg (by omega), nodeAt, if_pos ha, firstOr, Option.or_none,
          List.head?_drop]
      have hsplit := h.linked
      rw [← List.take_append_drop a.toNat xs, segment_append] at hsplit
      have hvalues := takeValues_eq hsplit.2 (n := (b - a + 1).toNat)
        (by rw [List.length_drop]; omega)
      have hindex : l.listIndex a = .ok (nodeAt xs (position xs.length a)) :=
        listIndex_spec h hshort (by omega) (by omega)
      simp only [hindex, hnode, ok_bind, hvalues]
      rw [List.map_take, List.map_drop]

theorem ltrim_spec :
    ∃ l' ys, l.ltrim start endIdx = .ok l' ∧ l'.Holds ys ∧ ys.length < 2 ^ 31 ∧
      ys.map Prod.snd = Keyspace.trimmed (xs.map Prod.snd) start endIdx := by
  rw [ltrim, Keyspace.trimmed, toInt32_len h hshort, List.length_map, toInt32_natCast _ hshort]
  cases hbounds : rangeBounds xs.length start endIdx with
  | none =>
      obtain ⟨l', hdel, h'⟩ := delFirst_spec h (Nat.le_refl xs.length)
      refine ⟨l', _, ?_, h', ?_, List.map_drop⟩
      · simp only [Int.toNat_natCast, hdel, ok_bind]
        rfl
      · rw [List.length_drop]
        omega
  | some bounds =>
      obtain ⟨a, b⟩ := bounds
      obtain ⟨ha, hab, hb⟩ := Session.rangeBounds_some hbounds
      obtain ⟨l₁, hdel₁, h₁⟩ := delFirst_spec h (n := a.toNat) (by omega)
      obtain ⟨l₂, hdel₂, h₂⟩ := delLast_spec h₁ (n := (xs.length - b - 1).toNat)
        (by rw [List.length_drop]; omega)
      refine ⟨l₂, _, ?_, h₂, ?_, ?_⟩
      · simp only [hdel₁, ok_bind, hdel₂]
      · rw [List.length_take, List.length_drop]
        omega
      · rw [List.map_take, List.map_drop, List.length_drop]

end Commands

end AdList

end Cutis

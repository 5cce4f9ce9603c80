import Cutis.AdList.Sequence
import Cutis.Command.Lists

namespace Cutis

section Positions

variable {α : Type}

-- The elements at the positions from s to e.
def between (l : List α) (s e : Int) : List α :=
  (l.zipIdx.filter fun x => s ≤ (x.2 : Int) ∧ (x.2 : Int) ≤ e).map Prod.fst

-- The range as the documentation of LRANGE describes it.
def documentedRange (l : List α) (start endIdx : Int) : List α :=
  between l (AdList.position l.length start) (AdList.position l.length endIdx)

theorem filter_zipIdx (l : List α) (a b k : Nat) :
    ((l.zipIdx k).filter fun x => a ≤ x.2 ∧ x.2 < b).map Prod.fst =
      (l.drop (a - k)).take (b - max a k) := by
  induction l generalizing k with
  | nil => simp
  | cons x l ih =>
      rw [List.zipIdx_cons, List.filter_cons]
      by_cases hlow : k < a
      · rw [if_neg (by simp; omega), ih]
        obtain ⟨d, hd⟩ : ∃ d, a - k = d + 1 := ⟨a - k - 1, by omega⟩
        rw [hd, List.drop_succ_cons]
        congr 2 <;> omega
      · have hdrop : a - k = 0 := by omega
        have hdrop' : a - (k + 1) = 0 := by omega
        by_cases hhigh : k < b
        · have htake : b - max a k = b - max a (k + 1) + 1 := by omega
          rw [if_pos (by simp; omega), List.map_cons, ih, hdrop, hdrop', htake]
          rfl
        · have htake : b - max a k = 0 := by omega
          have htake' : b - max a (k + 1) = 0 := by omega
          rw [if_neg (by simp; omega), ih, htake, htake', List.take_zero, List.take_zero]

theorem between_eq {l : List α} {s e : Int} (hs : 0 ≤ s) :
    between l s e = (l.drop s.toNat).take (e - s + 1).toNat := by
  have hbounds := filter_zipIdx l s.toNat (e + 1).toNat 0
  have hfilter : (fun x : α × Nat => decide (s ≤ (x.2 : Int) ∧ (x.2 : Int) ≤ e)) =
      fun x => decide (s.toNat ≤ x.2 ∧ x.2 < (e + 1).toNat) := by
    funext x
    rw [decide_eq_decide]
    omega
  rw [between, hfilter, hbounds]
  congr 1
  omega

theorem between_of_neg {l : List α} {s e : Int} (hs : s ≤ 0) : between l s e = between l 0 e := by
  rw [between, between]
  congr 2
  funext x
  rw [decide_eq_decide]
  omega

theorem between_of_lt {l : List α} {s e : Int} (h : e < s ∨ e < 0 ∨ l.length ≤ s) :
    between l s e = [] := by
  rw [between, List.map_eq_nil_iff, List.filter_eq_nil_iff]
  intro x hx
  have hlt : x.2 < l.length := (List.mem_zipIdx' (x := x.1) (i := x.2) hx).1
  simp only [decide_eq_true_eq]
  omega

theorem between_cap {l : List α} {s e : Int} (h : l.length ≤ e) :
    between l s e = between l s (l.length - 1) := by
  rw [between, between]
  congr 1
  refine List.filter_congr fun x hx => ?_
  have hlt : x.2 < l.length := (List.mem_zipIdx' (x := x.1) (i := x.2) hx).1
  rw [decide_eq_decide]
  omega

theorem keyspaceRange_eq {l : List Bytes} (hshort : l.length < 2 ^ 31) {start endIdx : Int}
    (hstart : -2 ^ 31 ≤ start ∧ start < 2 ^ 31) (hend : -2 ^ 31 ≤ endIdx ∧ endIdx < 2 ^ 31) :
    Keyspace.range l start endIdx =
      between l (max (AdList.position l.length start) 0) (max (AdList.position l.length endIdx) 0) := by
  have hlen := toInt32_natCast l.length hshort
  have hposition : ∀ {index : Int}, -2 ^ 31 ≤ index ∧ index < 2 ^ 31 →
      (if index < 0 then toInt32 (l.length + index) else index) =
        AdList.position l.length index := by
    intro index hindex
    rw [AdList.position]
    split_ifs with hneg
    · exact toInt32_eq_self _ (by omega) (by omega)
    · rfl
  have hclamp : ∀ p : Int, (if p < 0 then 0 else p) = max p 0 := by
    intro p
    split_ifs <;> omega
  rw [Keyspace.range, rangeBounds, hlen]
  simp only [hposition hstart, hposition hend, hclamp]
  generalize AdList.position l.length start = s
  generalize AdList.position l.length endIdx = e
  split_ifs with hempty hover
  · exact (between_of_lt (by omega)).symm
  · rw [between_cap hover, between_eq (by omega)]
  · rw [between_eq (by omega)]

theorem atoi_range (arg : Bytes) : -2 ^ 31 ≤ atoi arg ∧ atoi arg < 2 ^ 31 := by
  refine ⟨?_, toInt32_lt _⟩
  have hlo := @Int.le_bmod (strtoll arg) (2 ^ 32) (by omega)
  simpa [atoi, toInt32] using hlo

end Positions

namespace Session

variable {s : Session} {key arg2 arg3 : Bytes} {l : List Bytes}

theorem lRange_meets_range (h : s.Sound) (hkey : s.client.argv[1]? = some key)
    (harg2 : s.client.argv[2]? = some arg2) (harg3 : s.client.argv[3]? = some arg3)
    (hl : s.model.keyspace.lookup key = some (.list l)) :
    s.Meets (lRangeCommand s)
      (s.model.apply (·.answer (.multi (Keyspace.range l (atoi arg2) (atoi arg3))))) := by
  have hmeets := lRangeCommand_meets h hkey harg2 harg3
  have happly : s.model.apply (Keyspace.lrange · key (atoi arg2) (atoi arg3)) =
      s.model.apply (·.answer (.multi (Keyspace.range l (atoi arg2) (atoi arg3)))) := by
    rw [Model.apply, Model.apply, Keyspace.lrange, Keyspace.onList, hl]
  rwa [happly] at hmeets

-- The clamp of a negative end puts it on the first element.
theorem range_before_first (hl : l ≠ []) {start endIdx : Int} (hshort : l.length < 2 ^ 31)
    (hstart : -2 ^ 31 ≤ start ∧ start < 2 ^ 31) (hend : -2 ^ 31 ≤ endIdx ∧ endIdx < 2 ^ 31)
    (hs : AdList.position l.length start ≤ 0) (he : AdList.position l.length endIdx < 0) :
    Keyspace.range l start endIdx = [l.head hl] := by
  rw [keyspaceRange_eq hshort hstart hend, max_eq_right hs, max_eq_right (by omega),
    between_eq (le_refl _)]
  cases l with
  | nil => exact absurd rfl hl
  | cons x l => simp

theorem range_documented {start endIdx : Int} (hshort : l.length < 2 ^ 31)
    (hstart : -2 ^ 31 ≤ start ∧ start < 2 ^ 31) (hend : -2 ^ 31 ≤ endIdx ∧ endIdx < 2 ^ 31)
    (hfirst : ¬(l ≠ [] ∧ AdList.position l.length endIdx < 0 ∧
      AdList.position l.length start ≤ 0)) :
    Keyspace.range l start endIdx = documentedRange l start endIdx := by
  rw [keyspaceRange_eq hshort hstart hend, documentedRange]
  generalize AdList.position l.length start = s at hfirst ⊢
  generalize AdList.position l.length endIdx = e at hfirst ⊢
  by_cases he : e < 0
  · rw [between_of_lt (s := s) (Or.inr (Or.inl he))]
    refine between_of_lt ?_
    by_cases hl : l = []
    · right; right
      rw [hl, List.length_nil]
      omega
    · have hs : ¬s ≤ 0 := fun hs => hfirst ⟨hl, he, hs⟩
      omega
  · rw [max_eq_left (by omega : 0 ≤ e)]
    rcases le_total s 0 with hs | hs
    · rw [max_eq_right hs, between_of_neg hs]
    · rw [max_eq_left hs]

-- LTRIM keeps what LRANGE replies.
theorem trimmed_eq_range {l : List Bytes} (hshort : l.length < 2 ^ 31) (start endIdx : Int) :
    Keyspace.trimmed l start endIdx = Keyspace.range l start endIdx := by
  rw [Keyspace.trimmed, Keyspace.range, toInt32_natCast l.length hshort]
  cases hbounds : rangeBounds l.length start endIdx with
  | none => exact List.drop_length
  | some bounds =>
      obtain ⟨a, b⟩ := bounds
      obtain ⟨ha, hab, hb⟩ := rangeBounds_some hbounds
      show (l.drop a.toNat).take _ = (l.drop a.toNat).take _
      congr 1
      omega

theorem lTrim_meets_range (h : s.Sound) (hkey : s.client.argv[1]? = some key)
    (harg2 : s.client.argv[2]? = some arg2) (harg3 : s.client.argv[3]? = some arg3)
    (hl : s.model.keyspace.lookup key = some (.list l)) (hshort : l.length < 2 ^ 31) :
    s.Meets (lTrimCommand s) (s.model.apply
      (·.store key (.list (Keyspace.range l (atoi arg2) (atoi arg3))) .ok)) := by
  have hmeets := lTrimCommand_meets h hkey harg2 harg3
  have happly : s.model.apply (Keyspace.ltrim · key (atoi arg2) (atoi arg3)) =
      s.model.apply (·.store key (.list (Keyspace.range l (atoi arg2) (atoi arg3))) .ok) := by
    rw [Model.apply, Model.apply, Keyspace.ltrim, Keyspace.onList, hl]
    simp only [trimmed_eq_range hshort]
  rwa [happly] at hmeets

end Session

end Cutis

import Cutis.Command.Ranges
import Cutis.Sds.Capacity

namespace Cutis

section Bytes

variable {s : Bytes} {start endIdx : Int}

-- The converted positions are put on the first and on the last byte where they lie
-- outside of the string.
theorem sdsrange_clamped (hs : s ≠ []) (start endIdx : Int) :
    sdsrange s start endIdx =
      if max (AdList.position s.length start) 0 > max (AdList.position s.length endIdx) 0 then []
      else between s (min (max (AdList.position s.length start) 0) (s.length - 1))
        (min (max (AdList.position s.length endIdx) 0) (s.length - 1)) := by
  have hpos : 0 < s.length := List.length_pos_iff.mpr hs
  have hposition (index : Int) :
      (if index < 0 then max ((s.length : Int) + index) 0 else index) =
        max (AdList.position s.length index) 0 := by
    rw [AdList.position]
    split_ifs <;> omega
  have hclamp (p : Int) : (if p ≥ (s.length : Int) then (s.length : Int) - 1 else p) =
      min p (s.length - 1) := by
    split_ifs <;> omega
  have hlen : ¬(s.length : Int) = 0 := by omega
  rw [sdsrange]
  simp only [hlen, if_false, hposition, hclamp]
  generalize AdList.position s.length start = a
  generalize AdList.position s.length endIdx = b
  by_cases hcross : max a 0 > max b 0
  · simp only [hcross, if_true, ne_eq, not_true, if_false]
  · have hsome : max b 0 - max a 0 + 1 ≠ 0 := by omega
    have horder : ¬min (max a 0) ((s.length : Int) - 1) > min (max b 0) (s.length - 1) := by omega
    simp only [hcross, if_false, hsome, ne_eq, not_false_eq_true, if_true, horder]
    rw [between_eq (by omega)]

-- A range before or behind the string, where the clamp leaves one byte of it.
def Misplaced (n : Nat) (start endIdx : Int) : Prop :=
  AdList.position n endIdx < 0 ∧ AdList.position n start ≤ 0 ∨
    (n : Int) ≤ AdList.position n start ∧ AdList.position n start ≤ AdList.position n endIdx

instance (n : Nat) (start endIdx : Int) : Decidable (Misplaced n start endIdx) :=
  inferInstanceAs (Decidable (_ ∨ _))

theorem sdsrange_named (hplaced : ¬(s ≠ [] ∧ Misplaced s.length start endIdx)) :
    sdsrange s start endIdx = documentedRange s start endIdx := by
  by_cases hs : s = []
  · subst hs
    rfl
  have hpos : 0 < s.length := List.length_pos_iff.mpr hs
  have hplaced : ¬Misplaced s.length start endIdx := fun h => hplaced ⟨hs, h⟩
  rw [sdsrange_clamped hs, documentedRange]
  rw [Misplaced] at hplaced
  generalize AdList.position s.length start = a at hplaced ⊢
  generalize AdList.position s.length endIdx = b at hplaced ⊢
  split_ifs with hcross
  · exact (between_of_lt (by omega)).symm
  · have hb : between s a b = between s a (min (max b 0) (s.length - 1)) := by
      by_cases hover : (s.length : Int) ≤ b
      · rw [between_cap hover]
        congr 1
        omega
      · congr 1
        omega
    rw [hb]
    rcases le_total a 0 with ha | ha
    · rw [between_of_neg ha]
      congr 1
      omega
    · congr 1
      omega

theorem sdsrange_misplaced (hs : s ≠ []) (h : Misplaced s.length start endIdx) :
    sdsrange s start endIdx ≠ [] ∧ documentedRange s start endIdx = [] := by
  have hpos : 0 < s.length := List.length_pos_iff.mpr hs
  rw [sdsrange_clamped hs, documentedRange]
  rw [Misplaced] at h
  generalize AdList.position s.length start = a at h ⊢
  generalize AdList.position s.length endIdx = b at h ⊢
  refine ⟨?_, between_of_lt (by omega)⟩
  have hcross : ¬max a 0 > max b 0 := by omega
  rw [if_neg hcross, between_eq (by omega)]
  apply List.ne_nil_of_length_pos
  rw [List.length_take, List.length_drop]
  omega

theorem sdsrange_eq_named_iff :
    sdsrange s start endIdx = documentedRange s start endIdx ↔
      ¬(s ≠ [] ∧ Misplaced s.length start endIdx) := by
  constructor
  · rintro heq ⟨hs, h⟩
    obtain ⟨hne, hempty⟩ := sdsrange_misplaced hs h
    exact hne (heq.trans hempty)
  · exact sdsrange_named

end Bytes

namespace SdsHdr

theorem layout_inj {text spare text' spare' : Bytes} (h : layout text spare = layout text' spare') :
    text = text' := by
  have hlen : text.length = text'.length := Int.ofNat.inj (congrArg SdsHdr.len h)
  exact (List.append_inj (congrArg SdsHdr.buf h) hlen).1

-- The string is left with a text and some room behind it.
def Leaves (s : SdsHdr) (start endIdx : Int) (text : Bytes) : Prop :=
  ∃ room, s.sdsrange start endIdx = .ok (layout text room)

variable {text spare : Bytes}

theorem leaves_iff (hsize : text.length + spare.length < 2 ^ 63) (start endIdx : Int)
    (part : Bytes) :
    (layout text spare).Leaves start endIdx part ↔ Cutis.sdsrange text start endIdx = part := by
  obtain ⟨room, hrange, -⟩ := sdsrange_layout hsize start endIdx
  constructor
  · rintro ⟨room', hrange'⟩
    exact layout_inj (Except.ok.inj (hrange.symm.trans hrange'))
  · rintro rfl
    exact ⟨room, hrange⟩

-- The named bytes are left but where the clamp finds a byte for a range outside of the
-- string, and never too little or too much is dropped from its start.
theorem sdsrange_leaves_iff (hsize : text.length + spare.length < 2 ^ 63) :
    (∀ start endIdx, (layout text spare).Leaves start endIdx (documentedRange text start endIdx) ↔
      ¬(text ≠ [] ∧ Misplaced text.length start endIdx)) ∧
    ∀ k : Nat, k ≤ text.length → (layout text spare).Leaves k (-1) (text.drop k) := by
  refine ⟨fun start endIdx => ?_, fun k hk => ?_⟩
  · rw [leaves_iff hsize]
    exact sdsrange_eq_named_iff
  · rw [leaves_iff hsize]
    exact sdsrange_drop text k hk

theorem sdsrange_leaves_middle :
    (layout (sdsnew "abc") []).Leaves (-2) 1 (sdsnew "b") :=
  ((sdsrange_leaves_iff (by decide)).1 (-2) 1).mpr (by decide)

-- A start behind the end of the string, and an end before its start.
theorem not_sdsrange_leaves :
    ¬(layout (sdsnew "abc") []).Leaves 5 7 (documentedRange (sdsnew "abc") 5 7) ∧
      ¬(layout (sdsnew "abc") []).Leaves 0 (-5) (documentedRange (sdsnew "abc") 0 (-5)) := by
  constructor
  · rw [leaves_iff (by decide)]
    decide
  · rw [leaves_iff (by decide)]
    decide

end SdsHdr

end Cutis

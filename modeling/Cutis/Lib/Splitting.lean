import Mathlib.Data.List.Infix

namespace Splitting

variable {α : Type*} {sep s t : List α} {tokens : List (List α)}

-- A list cut at a separator: each cut is made where the separator first comes.
inductive Splits (sep : List α) : List α → List (List α) → Prop
  | last {s : List α} : ¬sep <:+: s → Splits sep s [s]
  | cut {t s : List α} {tokens : List (List α)} :
      (∀ i < t.length, ¬sep <+: (t ++ sep ++ s).drop i) → Splits sep s tokens →
        Splits sep (t ++ sep ++ s) (t :: tokens)

theorem Splits.ne_nil (h : Splits sep s tokens) : tokens ≠ [] := by
  cases h with
  | last hs => exact List.cons_ne_nil _ _
  | cut ht h => exact List.cons_ne_nil _ _

theorem Splits.intercalate_eq (h : Splits sep s tokens) : sep.intercalate tokens = s := by
  induction h with
  | last hs => exact List.intercalate_singleton
  | cut ht h ih => rw [List.intercalate_cons_of_ne_nil h.ne_nil, ih]

theorem exists_drop_of_infix (hsep : sep ≠ []) (h : sep <:+: t) :
    ∃ i < t.length, sep <+: t.drop i := by
  obtain ⟨before, after, rfl⟩ := h
  have hpos := List.length_pos_iff.mpr hsep
  refine ⟨before.length, by simp only [List.length_append]; omega, ?_⟩
  rw [List.append_assoc, List.drop_left]
  exact List.prefix_append sep after

theorem Splits.not_infix (hsep : sep ≠ []) (h : Splits sep s tokens) (ht : t ∈ tokens) :
    ¬sep <:+: t := by
  induction h with
  | last hs =>
      obtain rfl := List.mem_singleton.mp ht
      exact hs
  | cut hfirst h ih =>
      rcases List.mem_cons.mp ht with rfl | ht
      · intro hinfix
        obtain ⟨i, hi, hstarts⟩ := exists_drop_of_infix hsep hinfix
        refine hfirst i hi (hstarts.trans ?_)
        rw [List.append_assoc, List.drop_append_of_le_length hi.le]
        exact List.prefix_append _ _
      · exact ih ht

end Splitting

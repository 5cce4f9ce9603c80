import Mathlib.Data.List.Forall2
import Mathlib.Data.List.Infix

namespace Wildcard

variable {α : Type*}

-- A piece of a pattern takes one letter, or any word.
inductive Piece (α : Type*)
  | one (accepts : α → Bool)
  | star

def Piece.Takes : Piece α → List α → Prop
  | .one accepts, word => ∃ a, word = [a] ∧ accepts a = true
  | .star, _ => True

-- The word can be cut into parts that the pieces take, in order.
def Matches (pieces : List (Piece α)) (word : List α) : Prop :=
  ∃ parts, List.Forall₂ Piece.Takes pieces parts ∧ parts.flatten = word

-- The pieces match a part at the start of the word, and some of it is left.
def Reaches (pieces : List (Piece α)) (word : List α) : Prop :=
  ∃ u v, word = u ++ v ∧ v ≠ [] ∧ Matches pieces u

variable {accepts : α → Bool} {piece : Piece α} {pieces : List (Piece α)} {a : α} {word : List α}

theorem matches_nil : Matches [] word ↔ word = [] := by
  constructor
  · rintro ⟨parts, hparts, rfl⟩
    cases hparts
    rfl
  · rintro rfl
    exact ⟨[], List.Forall₂.nil, rfl⟩

theorem matches_cons :
    Matches (piece :: pieces) word ↔ ∃ u v, word = u ++ v ∧ piece.Takes u ∧ Matches pieces v := by
  constructor
  · rintro ⟨parts, hparts, rfl⟩
    cases hparts with
    | cons htakes hrest => exact ⟨_, _, List.flatten_cons, htakes, _, hrest, rfl⟩
  · rintro ⟨u, v, rfl, htakes, parts, hparts, rfl⟩
    exact ⟨u :: parts, List.Forall₂.cons htakes hparts, List.flatten_cons⟩

theorem reaches_nil : Reaches ([] : List (Piece α)) word ↔ word ≠ [] := by
  constructor
  · rintro ⟨u, v, rfl, hv, -⟩ hnil
    exact hv (List.append_eq_nil_iff.mp hnil).2
  · exact fun h => ⟨[], word, rfl, h, matches_nil.mpr rfl⟩

theorem not_reaches_empty : ¬Reaches pieces [] := by
  rintro ⟨u, v, hsplit, hv, -⟩
  exact hv (List.append_eq_nil_iff.mp hsplit.symm).2

theorem reaches_cons :
    Reaches (piece :: pieces) word ↔ ∃ u v, word = u ++ v ∧ piece.Takes u ∧ Reaches pieces v := by
  constructor
  · rintro ⟨u, v, rfl, hv, hmatches⟩
    obtain ⟨first, rest, rfl, htakes, hrest⟩ := matches_cons.mp hmatches
    exact ⟨first, rest ++ v, List.append_assoc _ _ _, htakes, rest, v, rfl, hv, hrest⟩
  · rintro ⟨first, rest, rfl, htakes, u, v, rfl, hv, hmatches⟩
    exact ⟨first ++ u, v, (List.append_assoc _ _ _).symm, hv,
      matches_cons.mpr ⟨first, u, rfl, htakes, hmatches⟩⟩

section One

theorem matches_one_cons :
    Matches (.one accepts :: pieces) (a :: word) ↔ accepts a = true ∧ Matches pieces word := by
  rw [matches_cons]
  constructor
  · rintro ⟨u, v, hsplit, ⟨b, rfl, hb⟩, hrest⟩
    obtain ⟨rfl, rfl⟩ := List.cons.inj hsplit
    exact ⟨hb, hrest⟩
  · rintro ⟨ha, hrest⟩
    exact ⟨[a], word, rfl, ⟨a, rfl, ha⟩, hrest⟩

theorem not_matches_one_empty : ¬Matches (.one accepts :: pieces) [] := by
  rw [matches_cons]
  rintro ⟨u, v, hsplit, ⟨b, rfl, -⟩, -⟩
  cases hsplit

theorem reaches_one_cons :
    Reaches (.one accepts :: pieces) (a :: word) ↔ accepts a = true ∧ Reaches pieces word := by
  rw [reaches_cons]
  constructor
  · rintro ⟨u, v, hsplit, ⟨b, rfl, hb⟩, hrest⟩
    obtain ⟨rfl, rfl⟩ := List.cons.inj hsplit
    exact ⟨hb, hrest⟩
  · rintro ⟨ha, hrest⟩
    exact ⟨[a], word, rfl, ⟨a, rfl, ha⟩, hrest⟩

end One

section Star

theorem matches_star : Matches (.star :: pieces) word ↔ ∃ v, v <:+ word ∧ Matches pieces v := by
  rw [matches_cons]
  constructor
  · rintro ⟨u, v, rfl, -, hrest⟩
    exact ⟨v, List.suffix_append u v, hrest⟩
  · rintro ⟨v, ⟨u, rfl⟩, hrest⟩
    exact ⟨u, v, rfl, trivial, hrest⟩

theorem reaches_star : Reaches (.star :: pieces) word ↔ ∃ v, v <:+ word ∧ Reaches pieces v := by
  rw [reaches_cons]
  constructor
  · rintro ⟨u, v, rfl, -, hrest⟩
    exact ⟨v, List.suffix_append u v, hrest⟩
  · rintro ⟨v, ⟨u, rfl⟩, hrest⟩
    exact ⟨u, v, rfl, trivial, hrest⟩

-- What a suffix of a word may be.
theorem exists_suffix_cons {P : List α → Prop} :
    (∃ v, v <:+ a :: word ∧ P v) ↔ P (a :: word) ∨ ∃ v, v <:+ word ∧ P v := by
  constructor
  · rintro ⟨v, hv, hP⟩
    rcases List.suffix_cons_iff.mp hv with rfl | hv
    · exact Or.inl hP
    · exact Or.inr ⟨v, hv, hP⟩
  · rintro (hP | ⟨v, hv, hP⟩)
    · exact ⟨_, List.suffix_rfl, hP⟩
    · exact ⟨v, hv.trans (List.suffix_cons a word), hP⟩

theorem matches_star_cons :
    Matches (.star :: pieces) (a :: word) ↔
      Matches pieces (a :: word) ∨ Matches (.star :: pieces) word := by
  rw [matches_star, matches_star, exists_suffix_cons]

theorem reaches_star_cons :
    Reaches (.star :: pieces) (a :: word) ↔
      Reaches pieces (a :: word) ∨ Reaches (.star :: pieces) word := by
  rw [reaches_star, reaches_star, exists_suffix_cons]

theorem matches_star_empty : Matches (.star :: pieces) [] ↔ Matches pieces [] := by
  rw [matches_star]
  constructor
  · rintro ⟨v, hv, hrest⟩
    rwa [List.suffix_nil.mp hv] at hrest
  · exact fun h => ⟨[], List.suffix_rfl, h⟩

-- Stars in a row are one star.
theorem matches_star_star :
    Matches (.star :: .star :: pieces) word ↔ Matches (.star :: pieces) word := by
  rw [matches_star, matches_star]
  constructor
  · rintro ⟨v, hv, hrest⟩
    obtain ⟨w, hw, hrest⟩ := matches_star.mp hrest
    exact ⟨w, hw.trans hv, hrest⟩
  · rintro ⟨v, hv, hrest⟩
    exact ⟨v, hv, matches_star.mpr ⟨v, List.suffix_rfl, hrest⟩⟩

theorem reaches_star_star :
    Reaches (.star :: .star :: pieces) word ↔ Reaches (.star :: pieces) word := by
  rw [reaches_star, reaches_star]
  constructor
  · rintro ⟨v, hv, hrest⟩
    obtain ⟨w, hw, hrest⟩ := reaches_star.mp hrest
    exact ⟨w, hw.trans hv, hrest⟩
  · rintro ⟨v, hv, hrest⟩
    exact ⟨v, hv, reaches_star.mpr ⟨v, List.suffix_rfl, hrest⟩⟩

end Star

end Wildcard

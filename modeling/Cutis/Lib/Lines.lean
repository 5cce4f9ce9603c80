import Mathlib.Data.List.Infix

namespace Lines

variable {α : Type*} {n : ℕ} {eol : α} {l s : List α} {ls : List (List α)}

-- One line off the front, with its end, of n elements at most.
def next [DecidableEq α] : ℕ → α → List α → List α × List α
  | 0, _, s => ([], s)
  | _, _, [] => ([], [])
  | n + 1, eol, a :: s =>
      if a = eol then ([a], s) else (a :: (next n eol s).1, (next n eol s).2)

-- The line l in front of s stops at its end of line, where it is full, or with the text.
structure IsLine (n : ℕ) (eol : α) (l s : List α) : Prop where
  le : l.length ≤ n
  inside : eol ∉ l.dropLast
  ends : l.getLast? = some eol ∨ l.length = n ∨ s = []

-- A text cut into lines.
inductive Cut (n : ℕ) (eol : α) : List α → List (List α) → Prop
  | nil : Cut n eol [] []
  | line {l s : List α} {ls : List (List α)} :
      l ≠ [] → IsLine n eol l s → Cut n eol s ls → Cut n eol (l ++ s) (l :: ls)

section Next

variable [DecidableEq α]

theorem next_append (n : ℕ) (eol : α) (s : List α) :
    (next n eol s).1 ++ (next n eol s).2 = s := by
  induction s generalizing n with
  | nil => cases n <;> rfl
  | cons a s ih =>
      cases n with
      | zero => rfl
      | succ n =>
          rw [next]
          split
          · rfl
          · rw [List.cons_append, ih]

theorem next_ne_nil (hn : 0 < n) (hs : s ≠ []) : (next n eol s).1 ≠ [] := by
  obtain ⟨a, s, rfl⟩ := List.exists_cons_of_ne_nil hs
  obtain ⟨n, rfl⟩ := Nat.exists_eq_succ_of_ne_zero hn.ne'
  rw [next]
  split <;> exact List.cons_ne_nil _ _

omit [DecidableEq α] in
theorem isLine_cons {a : α} (ha : a ≠ eol) (hl : l ≠ [] ∨ n = 0 ∨ s = [])
    (h : IsLine n eol l s) : IsLine (n + 1) eol (a :: l) s := by
  cases l with
  | nil =>
      refine ⟨by simp, by simp, Or.inr ?_⟩
      rcases hl with hl | rfl | hs
      · exact absurd rfl hl
      · exact Or.inl rfl
      · exact Or.inr hs
  | cons b l =>
      refine ⟨Nat.succ_le_succ h.le, ?_, ?_⟩
      · rw [List.dropLast_cons_of_ne_nil (List.cons_ne_nil _ _), List.mem_cons, not_or]
        exact ⟨ha.symm, h.inside⟩
      · rw [List.getLast?_cons_cons, List.length_cons, Nat.add_right_cancel_iff]
        exact h.ends

theorem isLine_next (n : ℕ) (eol : α) (s : List α) :
    IsLine n eol (next n eol s).1 (next n eol s).2 := by
  induction s generalizing n with
  | nil => cases n <;> exact ⟨Nat.zero_le _, List.not_mem_nil, Or.inr (Or.inr rfl)⟩
  | cons a s ih =>
      cases n with
      | zero => exact ⟨le_rfl, List.not_mem_nil, Or.inr (Or.inl rfl)⟩
      | succ n =>
          rw [next]
          split
          · rename_i ha
            exact ⟨by simp, by simp, Or.inl (by simp [ha])⟩
          · rename_i ha
            refine isLine_cons ha ?_ (ih n)
            by_cases hn : n = 0
            · exact Or.inr (Or.inl hn)
            · by_cases hs : s = []
              · subst hs
                refine Or.inr (Or.inr ?_)
                cases n <;> rfl
              · exact Or.inl (next_ne_nil (Nat.pos_of_ne_zero hn) hs)

theorem next_line (h : IsLine n eol l s) (hl : l ≠ []) : next n eol (l ++ s) = (l, s) := by
  induction l generalizing n with
  | nil => exact absurd rfl hl
  | cons a l ih =>
      obtain ⟨m, rfl⟩ : ∃ m, n = m + 1 := ⟨n - 1, by have := h.le; simp at this; omega⟩
      rw [List.cons_append, next]
      by_cases hlast : l = []
      · subst hlast
        by_cases ha : a = eol
        · rw [if_pos ha]
          rfl
        · rw [if_neg ha]
          rcases h.ends with hend | hfull | hs
          · exact absurd (Option.some.inj hend) ha
          · obtain rfl : m = 0 := by simpa using hfull.symm
            rfl
          · subst hs
            cases m <;> rfl
      · have hinside := h.inside
        rw [List.dropLast_cons_of_ne_nil hlast, List.mem_cons, not_or] at hinside
        have hline : IsLine m eol l s := by
          refine ⟨Nat.le_of_succ_le_succ h.le, hinside.2, ?_⟩
          have hends := h.ends
          obtain ⟨b, l', rfl⟩ := List.exists_cons_of_ne_nil hlast
          rwa [List.getLast?_cons_cons, List.length_cons, Nat.add_right_cancel_iff] at hends
        rw [if_neg (Ne.symm hinside.1), ih hline hlast]

-- Every text has its lines.
theorem exists_cut (hn : 0 < n) (eol : α) (s : List α) : ∃ ls, Cut n eol s ls := by
  induction hlen : s.length using Nat.strong_induction_on generalizing s with
  | h len ih =>
      by_cases hs : s = []
      · exact ⟨[], hs ▸ .nil⟩
      · have hne : (next n eol s).1 ≠ [] := next_ne_nil hn hs
        have happend := next_append n eol s
        have hshort : (next n eol s).2.length < len := by
          have hpos := List.length_pos_iff.mpr hne
          rw [← hlen, ← happend, List.length_append]
          simp only [happend]
          omega
        obtain ⟨ls, hcut⟩ := ih _ hshort _ rfl
        refine ⟨(next n eol s).1 :: ls, ?_⟩
        have hline := Cut.line hne (isLine_next n eol s) hcut
        rwa [happend] at hline

end Next

-- Lines that are short enough are told apart again.
theorem cut_flatMap (h : ∀ l ∈ ls, l.length < n ∧ eol ∉ l) :
    Cut n eol (ls.flatMap (· ++ [eol])) (ls.map (· ++ [eol])) := by
  induction ls with
  | nil => exact .nil
  | cons l rest ih =>
      obtain ⟨hlen, hl⟩ := h l List.mem_cons_self
      rw [List.flatMap_cons, List.map_cons]
      refine .line (by simp) ⟨?_, ?_, Or.inl ?_⟩ (ih fun l' hl' => h l' (List.mem_cons_of_mem _ hl'))
      · rw [List.length_append]
        exact hlen
      · rwa [List.dropLast_concat]
      · exact List.getLast?_concat

end Lines

import Mathlib.Data.List.Basic

namespace PrefixCode

variable {μ β : Type*}

-- What a code word stands for, and what follows it, can be read off.
def IsPrefixCode (encode : μ → List β) (ok : μ → Prop) : Prop :=
  ∀ a b, ok a → ok b → ∀ r r', encode a ++ r = encode b ++ r' → a = b ∧ r = r'

-- Code words of one length.
theorem of_length {encode : μ → List β} {ok : μ → Prop} {n : Nat}
    (hlen : ∀ a, (encode a).length = n)
    (hinj : ∀ a b, ok a → ok b → encode a = encode b → a = b) : IsPrefixCode encode ok := by
  intro a b ha hb r r' h
  obtain ⟨henc, hrest⟩ := List.append_inj h ((hlen a).trans (hlen b).symm)
  exact ⟨hinj a b ha hb henc, hrest⟩

variable {encode : μ → List β} {ok : μ → Prop}

-- A known number of words.
theorem flatMap_inj (h : IsPrefixCode encode ok) {l l' : List μ} (hlen : l.length = l'.length)
    (hl : ∀ a ∈ l, ok a) (hl' : ∀ a ∈ l', ok a) {r r' : List β}
    (heq : l.flatMap encode ++ r = l'.flatMap encode ++ r') : l = l' ∧ r = r' := by
  induction l generalizing l' with
  | nil =>
      obtain rfl := List.length_eq_zero_iff.mp hlen.symm
      exact ⟨rfl, heq⟩
  | cons a l ih =>
      cases l' with
      | nil => cases hlen
      | cons b l' =>
          simp only [List.flatMap_cons, List.append_assoc] at heq
          obtain ⟨rfl, hrest⟩ := h a b (hl a (by simp)) (hl' b (by simp)) _ _ heq
          obtain ⟨rfl, hr⟩ := ih (Nat.succ.inj hlen) (fun c hc => hl c (by simp [hc]))
            (fun c hc => hl' c (by simp [hc])) hrest
          exact ⟨rfl, hr⟩

-- Any number of words up to a mark that starts no word.
theorem terminated_inj (h : IsPrefixCode encode ok) {mark : β}
    (hmark : ∀ a, (encode a).head? ≠ some mark) (hne : ∀ a, encode a ≠ []) {l l' : List μ}
    (hl : ∀ a ∈ l, ok a) (hl' : ∀ a ∈ l', ok a) {r r' : List β}
    (heq : l.flatMap encode ++ mark :: r = l'.flatMap encode ++ mark :: r') : l = l' ∧ r = r' := by
  have hstart (a : μ) (s t : List β) : encode a ++ s ≠ mark :: t := by
    intro hs
    cases henc : encode a with
    | nil => exact hne a henc
    | cons c word =>
        rw [henc] at hs
        have hhead := hmark a
        rw [henc] at hhead
        exact hhead (congrArg some (List.cons.inj hs).1)
  induction l generalizing l' with
  | nil =>
      cases l' with
      | nil => exact ⟨rfl, (List.cons.inj heq).2⟩
      | cons b l' =>
          rw [List.flatMap_cons, List.append_assoc] at heq
          exact absurd heq.symm (hstart b _ _)
  | cons a l ih =>
      rw [List.flatMap_cons, List.append_assoc] at heq
      cases l' with
      | nil => exact absurd heq (hstart a _ _)
      | cons b l' =>
          rw [List.flatMap_cons, List.append_assoc] at heq
          obtain ⟨rfl, hrest⟩ := h a b (hl a (by simp)) (hl' b (by simp)) _ _ heq
          obtain ⟨rfl, hr⟩ := ih (fun c hc => hl c (by simp [hc]))
            (fun c hc => hl' c (by simp [hc])) hrest
          exact ⟨rfl, hr⟩

end PrefixCode

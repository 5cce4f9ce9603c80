import Mathlib.Init

namespace Lockstep

universe u v

variable {ε : Type*} {α γ : Type u} {β δ : Type v} {R : α → β → Prop} {x : Except ε α}
  {y : Except ε β}

-- Two computations that fail alike, or return related results.
inductive Alike (R : α → β → Prop) : Except ε α → Except ε β → Prop
  | ok {a : α} {b : β} (h : R a b) : Alike R (.ok a) (.ok b)
  | error (e : ε) : Alike R (.error e) (.error e)

namespace Alike

theorem bind {S : γ → δ → Prop} {f : α → Except ε γ} {g : β → Except ε δ} (h : Alike R x y)
    (hf : ∀ a b, R a b → Alike S (f a) (g b)) : Alike S (x >>= f) (y >>= g) := by
  cases h with
  | ok h => exact hf _ _ h
  | error e => exact .error e

theorem known (h : Alike R x y) : Alike (fun a b => x = .ok a ∧ R a b) x y := by
  cases h with
  | ok h => exact .ok ⟨rfl, h⟩
  | error e => exact .error e

-- A computation that does the same on the images.
theorem of_map {f : α → β} (h : y = x.map f) : Alike (fun a b => x = .ok a ∧ b = f a) x y := by
  subst h
  cases x with
  | ok a => exact .ok ⟨rfl, rfl⟩
  | error e => exact .error e

theorem left {a : α} (h : Alike R (.ok a) y) : ∃ b, y = .ok b ∧ R a b := by
  cases h with
  | ok h => exact ⟨_, rfl, h⟩

end Alike

end Lockstep

import Mathlib.Data.List.Basic

namespace Streaming

variable {σ β ο : Type*}

section Steps

variable (advance : σ → Option σ → List ο → Prop)

-- A machine that takes messages off its buffer. It may close itself, and then no
-- state is left.
inductive Steps : σ → Option σ → List ο → Prop
  | refl (s : σ) : Steps s (some s) []
  | step {s s' : σ} {last : Option σ} {out more : List ο} :
      advance s (some s') out → Steps s' last more → Steps s last (out ++ more)
  | close {s : σ} {out : List ο} : advance s none out → Steps s none out

-- No message is complete.
def Stuck (s : σ) : Prop := ∀ next out, ¬advance s next out

end Steps

variable {advance : σ → Option σ → List ο → Prop}

namespace Steps

theorem single {s s' : σ} {out : List ο} (h : advance s (some s') out) :
    Steps advance s (some s') out := by
  simpa using Steps.step h (.refl s')

theorem trans {s s' : σ} {last : Option σ} {out more : List ο} (h : Steps advance s (some s') out)
    (h' : Steps advance s' last more) : Steps advance s last (out ++ more) := by
  generalize hmid : some s' = mid at h
  induction h with
  | refl s =>
      cases hmid
      exact h'
  | step hs _ ih =>
      rw [List.append_assoc]
      exact .step hs (ih hmid)
  | close _ => cases hmid

-- A machine that is stuck or closed at the end has done all there is to do, so
-- that the end and the output are the only ones possible.
theorem unique
    (hdet : ∀ s next out next' out', advance s next out → advance s next' out' →
      next = next' ∧ out = out')
    {s : σ} {last last' : Option σ} {out out' : List ο} (h : Steps advance s last out)
    (h' : Steps advance s last' out') (hlast : ∀ s' ∈ last, Stuck advance s')
    (hlast' : ∀ s' ∈ last', Stuck advance s') : last = last' ∧ out = out' := by
  induction h generalizing last' out' with
  | refl s =>
      cases h' with
      | refl => exact ⟨rfl, rfl⟩
      | step hs _ => exact absurd hs (hlast s rfl _ _)
      | close hs => exact absurd hs (hlast s rfl _ _)
  | step hs _ ih =>
      cases h' with
      | refl => exact absurd hs (hlast' _ rfl _ _)
      | step hs' hrest =>
          obtain ⟨hnext, rfl⟩ := hdet _ _ _ _ _ hs hs'
          cases hnext
          obtain ⟨rfl, rfl⟩ := ih hrest hlast hlast'
          exact ⟨rfl, rfl⟩
      | close hs' =>
          obtain ⟨hnext, -⟩ := hdet _ _ _ _ _ hs hs'
          cases hnext
  | close hs =>
      cases h' with
      | refl => exact absurd hs (hlast' _ rfl _ _)
      | step hs' _ =>
          obtain ⟨hnext, -⟩ := hdet _ _ _ _ _ hs hs'
          cases hnext
      | close hs' =>
          obtain ⟨-, rfl⟩ := hdet _ _ _ _ _ hs hs'
          exact ⟨rfl, rfl⟩

end Steps

section Feed

variable {feed : σ → List β → σ}
  (hfeed : ∀ s next out buf, advance s next out → advance (feed s buf) (next.map (feed · buf)) out)

include hfeed

-- Later input does not change what is done with the input so far.
theorem Steps.extend {s : σ} {last : Option σ} {out : List ο} (h : Steps advance s last out)
    (buf : List β) : Steps advance (feed s buf) (last.map (feed · buf)) out := by
  induction h with
  | refl s => exact .refl _
  | step hs _ ih => exact .step (hfeed _ _ _ _ hs) ih
  | close hs => exact .close (hfeed _ _ _ _ hs)

end Feed

end Streaming

import Mathlib.Data.List.Infix
import Mathlib.Tactic.SplitIfs

namespace History

variable {σ α β ι : Type*}

section Legal

variable (step : σ → α → σ → Prop)

-- The entries of a history happen one after the other.
inductive Legal : σ → List α → σ → Prop
  | nil (s : σ) : Legal s [] s
  | cons {s s' s'' : σ} {e : α} {rest : List α} :
      step s e s' → Legal s' rest s'' → Legal s (e :: rest) s''

variable {step} {s s' s'' : σ} {e : α} {first rest : List α}

theorem Legal.single (h : step s e s') : Legal step s [e] s' := .cons h (.nil s')

theorem Legal.eq_of_nil (h : Legal step s [] s') : s = s' := by
  cases h
  rfl

theorem Legal.append (h : Legal step s first s') (h' : Legal step s' rest s'') :
    Legal step s (first ++ rest) s'' := by
  induction h with
  | nil s => exact h'
  | cons he _ ih => exact .cons he (ih h')

theorem legal_append_iff :
    Legal step s (first ++ rest) s'' ↔ ∃ s', Legal step s first s' ∧ Legal step s' rest s'' := by
  constructor
  · intro h
    induction first generalizing s with
    | nil => exact ⟨s, .nil s, h⟩
    | cons e first ih =>
        cases h with
        | cons he hrest =>
            obtain ⟨s', hfirst, hlast⟩ := ih hrest
            exact ⟨s', .cons he hfirst, hlast⟩
  · rintro ⟨s', hfirst, hlast⟩
    exact hfirst.append hlast

-- What every entry preserves holds at the end.
theorem Legal.invariant {P : σ → Prop} (hstep : ∀ s e s', e ∈ first → P s → step s e s' → P s')
    (h : Legal step s first s') (hs : P s) : P s' := by
  induction h with
  | nil s => exact hs
  | cons he _ ih =>
      refine ih (fun s e s' hmem => hstep s e s' (List.mem_cons_of_mem _ hmem)) ?_
      exact hstep _ _ _ List.mem_cons_self hs he

-- A history of one object is one of another that follows it.
theorem Legal.simulates {τ β : Type*} (R : σ → τ → Prop) {f : α → β} {tstep : τ → β → τ → Prop}
    (hstep : ∀ s e s' t, e ∈ first → R s t → step s e s' → ∃ t', R s' t' ∧ tstep t (f e) t')
    (h : Legal step s first s') {t : τ} (hs : R s t) :
    ∃ t', R s' t' ∧ Legal tstep t (first.map f) t' := by
  induction h generalizing t with
  | nil s => exact ⟨t, hs, .nil t⟩
  | cons he _ ih =>
      obtain ⟨t₁, hs₁, hfirst⟩ := hstep _ _ _ _ List.mem_cons_self hs he
      obtain ⟨t', hs', hrest⟩ := ih (fun s e s' t hmem => hstep s e s' t (List.mem_cons_of_mem _ hmem)) hs₁
      exact ⟨t', hs', .cons hfirst hrest⟩

end Legal

section Object

variable {γ τ : Type*} (acts : γ → α → Bool) (next : γ → α → γ)

-- The entries that act on one object. Where an entry acts may depend on those before it.
def actingOn : γ → List α → List α
  | _, [] => []
  | g, e :: rest =>
      if acts g e then e :: actingOn (next g e) rest else actingOn (next g e) rest

theorem actingOn_sublist (g : γ) (h : List α) : (actingOn acts next g h).Sublist h := by
  induction h generalizing g with
  | nil => exact .slnil
  | cons e rest ih =>
      rw [actingOn]
      split_ifs
      · exact (ih _).cons_cons e
      · exact (ih _).cons e

variable {acts next} {step : σ → α → σ → Prop} {context : σ → γ} {view : σ → τ}
  {ostep : τ → α → τ → Prop} {P : σ → Prop}

-- An object that only its own entries change has a history of its own.
theorem Legal.object
    (hacts : ∀ s e s', P s → step s e s' → acts (context s) e = true →
      ostep (view s) e (view s'))
    (hframe : ∀ s e s', P s → step s e s' → acts (context s) e = false → view s' = view s)
    (hnext : ∀ s e s', P s → step s e s' → P s' ∧ context s' = next (context s) e)
    {s s' : σ} {h : List α} (hs : P s) (hlegal : Legal step s h s') :
    Legal ostep (view s) (actingOn acts next (context s) h) (view s') := by
  induction hlegal with
  | nil s => exact .nil _
  | @cons s s₁ s' e rest he _ ih =>
      obtain ⟨hs₁, hcontext⟩ := hnext s e s₁ hs he
      have hrest := ih hs₁
      rw [hcontext] at hrest
      rw [actingOn]
      cases hact : acts (context s) e with
      | true =>
          rw [if_pos rfl]
          exact .cons (hacts s e s₁ hs he hact) hrest
      | false =>
          rw [if_neg Bool.false_ne_true]
          rwa [hframe s e s₁ hs he hact] at hrest

end Object

section Party

variable [DecidableEq ι] (i : ι)

-- The entries of one party.
def ofParty (h : List (ι × α)) : List α :=
  h.filterMap fun e => if e.1 = i then some e.2 else none

@[simp] theorem ofParty_nil : ofParty i ([] : List (ι × α)) = [] := rfl

@[simp] theorem ofParty_append (h h' : List (ι × α)) :
    ofParty i (h ++ h') = ofParty i h ++ ofParty i h' :=
  List.filterMap_append

@[simp] theorem ofParty_self (l : List α) : ofParty i (l.map (i, ·)) = l := by
  simp [ofParty, List.filterMap_map]

variable {i}

theorem ofParty_of_ne {j : ι} (hj : j ≠ i) (l : List α) : ofParty i (l.map (j, ·)) = [] := by
  simp [ofParty, List.filterMap_map, hj]

end Party

end History

import Mathlib.Data.List.Infix

namespace Runs

variable {σ α ι ο ε : Type*}

-- Run a step that may fail over a list of inputs and collect the outputs.
def run (step : σ → ι → Except ε (σ × ο)) : σ → List ι → Except ε (σ × List ο)
  | s, [] => .ok (s, [])
  | s, input :: rest =>
      (step s input).bind fun next =>
        (run step next.1 rest).bind fun last => .ok (last.1, next.2 :: last.2)

-- The same for a step that always succeeds.
def trace (step : α → ι → α × ο) : α → List ι → α × List ο
  | a, [] => (a, [])
  | a, input :: rest =>
      ((trace step (step a input).1 rest).1, (step a input).2 :: (trace step (step a input).1 rest).2)

-- Every input meets a condition in the state it arrives in.
def Along (step : α → ι → α × ο) (ok : α → ι → Prop) : α → List ι → Prop
  | _, [] => True
  | a, input :: rest => ok a input ∧ Along step ok (step a input).1 rest

theorem run_append {step : σ → ι → Except ε (σ × ο)} {s s' : σ} {first rest : List ι}
    {out : List ο} (h : run step s first = .ok (s', out)) :
    run step s (first ++ rest) =
      (run step s' rest).bind fun last => .ok (last.1, out ++ last.2) := by
  induction first generalizing s out with
  | nil =>
      cases h
      rw [List.nil_append]
      cases run step _ rest <;> rfl
  | cons input first ih =>
      cases hstep : step s input with
      | error e =>
          simp only [run, hstep, Except.bind] at h
          cases h
      | ok next =>
          cases hfirst : run step next.1 first with
          | error e =>
              simp only [run, hstep, hfirst, Except.bind] at h
              cases h
          | ok last =>
              simp only [run, hstep, hfirst, Except.bind] at h
              cases h
              simp only [List.cons_append, run, hstep, ih hfirst, Except.bind]
              cases run step _ rest <;> rfl

theorem trace_append (step : α → ι → α × ο) (a : α) (first rest : List ι) :
    trace step a (first ++ rest) =
      ((trace step (trace step a first).1 rest).1,
        (trace step a first).2 ++ (trace step (trace step a first).1 rest).2) := by
  induction first generalizing a with
  | nil => rfl
  | cons input first ih => simp [trace, ih]

theorem along_append (step : α → ι → α × ο) (ok : α → ι → Prop) (a : α) (first rest : List ι) :
    Along step ok a (first ++ rest) ↔
      Along step ok a first ∧ Along step ok (trace step a first).1 rest := by
  induction first generalizing a with
  | nil => simp [Along, trace]
  | cons input first ih => simp [Along, trace, ih, and_assoc]

-- The condition holds along a run exactly when it holds at each of its steps.
theorem along_iff (step : α → ι → α × ο) (ok : α → ι → Prop) (a : α) (inputs : List ι) :
    Along step ok a inputs ↔
      ∀ done input, done ++ [input] <+: inputs → ok (trace step a done).1 input := by
  constructor
  · rintro h done input ⟨rest, rfl⟩
    rw [List.append_assoc, along_append] at h
    exact h.2.1
  · intro h
    induction inputs generalizing a with
    | nil => trivial
    | cons input rest ih =>
        refine ⟨h [] input ⟨rest, rfl⟩, ih _ fun done next hd => ?_⟩
        obtain ⟨tail, rfl⟩ := hd
        exact h (input :: done) next ⟨tail, rfl⟩

theorem along_prefix {step : α → ι → α × ο} {ok : α → ι → Prop} {a : α} {done inputs : List ι}
    (h : Along step ok a inputs) (hd : done <+: inputs) : Along step ok a done := by
  obtain ⟨rest, rfl⟩ := hd
  exact ((along_append step ok a done rest).mp h).1

-- A step that matches the abstract one wherever the condition holds makes whole
-- runs match.
theorem run_simulates {step : σ → ι → Except ε (σ × ο)} {astep : α → ι → α × ο}
    {R : σ → α → Prop} {ok : α → ι → Prop}
    (hstep : ∀ s a input, R s a → ok a input →
      ∃ s', step s input = .ok (s', (astep a input).2) ∧ R s' (astep a input).1)
    (inputs : List ι) (s : σ) (a : α) (hR : R s a) (hok : Along astep ok a inputs) :
    ∃ s', run step s inputs = .ok (s', (trace astep a inputs).2) ∧
      R s' (trace astep a inputs).1 := by
  induction inputs generalizing s a with
  | nil => exact ⟨s, rfl, hR⟩
  | cons input rest ih =>
      obtain ⟨hinput, hrest⟩ := hok
      obtain ⟨s', hs', hR'⟩ := hstep s a input hR hinput
      obtain ⟨last, hlast, hR⟩ := ih s' _ hR' hrest
      refine ⟨last, ?_, hR⟩
      simp only [run, hs', Except.bind, hlast, trace]

-- A run that goes through has met the condition at every step.
theorem along_of_run {step : σ → ι → Except ε (σ × ο)} {astep : α → ι → α × ο}
    {R : σ → α → Prop} {ok : α → ι → Prop}
    (hstep : ∀ s a input, R s a → ok a input →
      ∃ s', step s input = .ok (s', (astep a input).2) ∧ R s' (astep a input).1)
    (hfail : ∀ s a input, R s a → ¬ok a input → ∃ fault, step s input = .error fault)
    (inputs : List ι) (s : σ) (a : α) (hR : R s a) (result : σ × List ο)
    (hrun : run step s inputs = .ok result) : Along astep ok a inputs := by
  induction inputs generalizing s a result with
  | nil => trivial
  | cons input rest ih =>
      by_cases hok : ok a input
      · obtain ⟨s', hs', hR'⟩ := hstep s a input hR hok
        refine ⟨hok, ?_⟩
        simp only [run, hs', Except.bind] at hrun
        cases hlast : run step s' rest with
        | error fault => rw [hlast] at hrun; cases hrun
        | ok last => exact ih s' _ hR' last hlast
      · obtain ⟨fault, hf⟩ := hfail s a input hR hok
        simp only [run, hf, Except.bind] at hrun
        cases hrun

section Tracks

variable {step : σ → ι → Except ε (σ × ο)} {astep : α → ι → α × (ο → Prop)} {R I : σ → α → Prop}
  {pre ok : α → ι → Prop}

-- The run goes through, every output is one that the abstract step allows, and the states
-- stay related.
def Tracks (step : σ → ι → Except ε (σ × ο)) (astep : α → ι → α × (ο → Prop))
    (R : σ → α → Prop) : σ → α → List ι → Prop
  | s, a, [] => R s a
  | s, a, input :: rest =>
      R s a ∧ ∃ next, step s input = .ok next ∧ (astep a input).2 next.2 ∧
        Tracks step astep R next.1 (astep a input).1 rest

-- Where a step that does not meet the condition fails, the runs that are tracked are those
-- that meet it all along.
theorem tracks_iff (hR : ∀ s a, I s a → R s a)
    (hstep : ∀ s a input, I s a → pre a input → ok a input →
      ∃ next, step s input = .ok next ∧ (astep a input).2 next.2 ∧ I next.1 (astep a input).1)
    (hfail : ∀ s a input, I s a → pre a input → ¬ok a input → ∃ e, step s input = .error e)
    (inputs : List ι) (s : σ) (a : α) (hI : I s a) (hpre : Along astep pre a inputs) :
    Tracks step astep R s a inputs ↔ Along astep ok a inputs := by
  induction inputs generalizing s a with
  | nil => exact iff_of_true (hR s a hI) trivial
  | cons input rest ih =>
      obtain ⟨hinput, hrest⟩ := hpre
      by_cases hok : ok a input
      · obtain ⟨next, hnext, hallowed, hI'⟩ := hstep s a input hI hinput hok
        constructor
        · rintro ⟨-, next', hnext', -, htracks⟩
          obtain rfl := Except.ok.inj (hnext.symm.trans hnext')
          exact ⟨hok, (ih _ _ hI' hrest).mp htracks⟩
        · rintro ⟨-, halong⟩
          exact ⟨hR s a hI, next, hnext, hallowed, (ih _ _ hI' hrest).mpr halong⟩
      · obtain ⟨e, he⟩ := hfail s a input hI hinput hok
        refine iff_of_false ?_ fun h => hok h.1
        rintro ⟨-, next, hnext, -⟩
        cases he.symm.trans hnext

end Tracks

section Reach

variable {γ : Type*} (act : σ → α → Except ε σ) (next : γ → σ → α → σ → γ)
  (start : σ → γ → Prop) (ok : γ → σ → α → Prop)

-- The states of all runs whose actions meet a condition, with what has been noted
-- along the way.
inductive Reach : σ → γ → Prop
  | start {s : σ} {g : γ} : start s g → Reach s g
  | step {s s' : σ} {g : γ} {a : α} : Reach s g → ok g s a → act s a = .ok s' →
      Reach s' (next g s a s')

variable {act next start ok}

theorem Reach.invariant {I : σ → γ → Prop} (hstart : ∀ s g, start s g → I s g)
    (hstep : ∀ s g a s', I s g → ok g s a → act s a = .ok s' → I s' (next g s a s'))
    {s : σ} {g : γ} (h : Reach act next start ok s g) : I s g := by
  induction h with
  | start hs => exact hstart _ _ hs
  | step _ hok hact ih => exact hstep _ _ _ _ ih hok hact

end Reach

section Always

variable {act : σ → α → Except ε σ} {P Q : σ → α → Prop} {ok : α → Prop} {I : σ → Prop}

-- Every action of a run meets a condition in the state it comes in.
def Always (act : σ → α → Except ε σ) (P : σ → α → Prop) : σ → List α → Prop
  | _, [] => True
  | s, a :: rest => P s a ∧ ∀ s', act s a = .ok s' → Always act P s' rest

theorem always_cons {s s' : σ} {a : α} {rest : List α} (hact : act s a = .ok s') (hP : P s a)
    (hrest : Always act P s' rest) : Always act P s (a :: rest) := by
  refine ⟨hP, fun t ht => ?_⟩
  obtain rfl := Except.ok.inj (hact.symm.trans ht)
  exact hrest

theorem always_of_forall {actions : List α} {s : σ} (h : ∀ s, ∀ a ∈ actions, P s a) :
    Always act P s actions := by
  induction actions generalizing s with
  | nil => trivial
  | cons a rest ih =>
      exact ⟨h s a (by simp), fun _ _ => ih fun s b hb => h s b (by simp [hb])⟩

theorem always_of_invariant (hstep : ∀ s a s', I s → ok a → act s a = .ok s' → I s')
    (hP : ∀ s a, I s → ok a → P s a) (actions : List α) (s : σ) (hs : I s)
    (hok : ∀ a ∈ actions, ok a) : Always act P s actions := by
  induction actions generalizing s with
  | nil => trivial
  | cons a rest ih =>
      have ha := hok a (by simp)
      exact ⟨hP s a hs ha, fun s' hact =>
        ih s' (hstep s a s' hs ha hact) fun b hb => hok b (by simp [hb])⟩

-- Two conditions that agree where an invariant holds agree on every run.
theorem always_iff (hstep : ∀ s a s', I s → ok a → act s a = .ok s' → I s')
    (hiff : ∀ s a, I s → ok a → (P s a ↔ Q s a)) (actions : List α) (s : σ) (hs : I s)
    (hok : ∀ a ∈ actions, ok a) : Always act P s actions ↔ Always act Q s actions := by
  induction actions generalizing s with
  | nil => exact Iff.rfl
  | cons a rest ih =>
      have ha := hok a (by simp)
      refine and_congr (hiff s a hs ha) (forall_congr' fun s' => imp_congr_right fun hact => ?_)
      exact ih s' (hstep s a s' hs ha hact) fun b hb => hok b (by simp [hb])

-- The same where the actions meet a condition of their own along the run.
theorem always_congr {R : σ → α → Prop}
    (hstep : ∀ s a s', I s → R s a → act s a = .ok s' → I s')
    (hiff : ∀ s a, I s → R s a → (P s a ↔ Q s a)) (actions : List α) (s : σ) (hs : I s)
    (hR : Always act R s actions) : Always act P s actions ↔ Always act Q s actions := by
  induction actions generalizing s with
  | nil => exact Iff.rfl
  | cons a rest ih =>
      obtain ⟨ha, hrest⟩ := hR
      refine and_congr (hiff s a hs ha) (forall_congr' fun s' => imp_congr_right fun hact => ?_)
      exact ih s' (hstep s a s' hs ha hact) (hrest s' hact)

theorem always_and (actions : List α) (s : σ) :
    Always act (fun s a => P s a ∧ Q s a) s actions ↔
      Always act P s actions ∧ Always act Q s actions := by
  induction actions generalizing s with
  | nil => exact ⟨fun _ => ⟨trivial, trivial⟩, fun _ => trivial⟩
  | cons a rest ih =>
      constructor
      · rintro ⟨⟨hP, hQ⟩, hrest⟩
        exact ⟨⟨hP, fun s' hact => ((ih s').mp (hrest s' hact)).1⟩,
          ⟨hQ, fun s' hact => ((ih s').mp (hrest s' hact)).2⟩⟩
      · rintro ⟨⟨hP, hrest⟩, ⟨hQ, hrest'⟩⟩
        exact ⟨⟨hP, hQ⟩, fun s' hact => (ih s').mpr ⟨hrest s' hact, hrest' s' hact⟩⟩

end Always

section Throughout

variable {act : σ → α → Except ε σ} {P I : σ → Prop} {Q R : σ → α → Prop}

-- Every state of a run has a property.
def Throughout (act : σ → α → Except ε σ) (P : σ → Prop) : σ → List α → Prop
  | s, [] => P s
  | s, a :: rest => P s ∧ ∀ s', act s a = .ok s' → Throughout act P s' rest

theorem Throughout.here {s : σ} {actions : List α} (h : Throughout act P s actions) : P s := by
  cases actions with
  | nil => exact h
  | cons a rest => exact h.1

theorem Throughout.imp {s : σ} {actions : List α} (hPI : ∀ s, P s → I s)
    (h : Throughout act P s actions) : Throughout act I s actions := by
  induction actions generalizing s with
  | nil => exact hPI s h
  | cons a rest ih => exact ⟨hPI s h.1, fun s' hact => ih (h.2 s' hact)⟩

-- An invariant that is kept as long as the states meet a condition.
theorem throughout_and_always {C : σ → Prop}
    (hstep : ∀ s a s', I s → C s → act s a = .ok s' → I s') (hP : ∀ s, I s → C s → P s)
    (hQ : ∀ s a, I s → C s → Q s a) (actions : List α) (s : σ) (hs : I s)
    (hC : Throughout act C s actions) : Throughout act P s actions ∧ Always act Q s actions := by
  induction actions generalizing s with
  | nil => exact ⟨hP s hs hC, trivial⟩
  | cons a rest ih =>
      have hrest (s' : σ) (hact : act s a = .ok s') :=
        ih s' (hstep s a s' hs hC.1 hact) (hC.2 s' hact)
      exact ⟨⟨hP s hs hC.1, fun s' hact => (hrest s' hact).1⟩,
        ⟨hQ s a hs hC.1, fun s' hact => (hrest s' hact).2⟩⟩

-- The property holds all along exactly where each step meets the condition under
-- which it keeps the property.
theorem throughout_iff (hstep : ∀ s a s', I s → R s a → act s a = .ok s' → I s')
    (hiff : ∀ s a, I s → R s a → P s → ((∀ s', act s a = .ok s' → P s') ↔ Q s a))
    (actions : List α) (s : σ) (hs : I s) (hR : Always act R s actions) (hP : P s) :
    Throughout act P s actions ↔ Always act Q s actions := by
  induction actions generalizing s with
  | nil => exact ⟨fun _ => trivial, fun _ => hP⟩
  | cons a rest ih =>
      obtain ⟨ha, hrest⟩ := hR
      have hkeep := hiff s a hs ha hP
      constructor
      · rintro ⟨-, h⟩
        refine ⟨hkeep.mp fun s' hact => (h s' hact).here, fun s' hact => ?_⟩
        exact (ih s' (hstep s a s' hs ha hact) (hrest s' hact) (h s' hact).here).mp (h s' hact)
      · rintro ⟨hQ, h⟩
        refine ⟨hP, fun s' hact => ?_⟩
        exact (ih s' (hstep s a s' hs ha hact) (hrest s' hact) (hkeep.mpr hQ s' hact)).mpr
          (h s' hact)

theorem throughout_of_invariant (hstep : ∀ s a s', I s → R s a → act s a = .ok s' → I s')
    (hP : ∀ s, I s → P s) (actions : List α) (s : σ) (hs : I s) (hR : Always act R s actions) :
    Throughout act P s actions := by
  induction actions generalizing s with
  | nil => exact hP s hs
  | cons a rest ih =>
      exact ⟨hP s hs, fun s' hact => ih s' (hstep s a s' hs hR.1 hact) (hR.2 s' hact)⟩

end Throughout

section Noting

variable {γ : Type*} (act : σ → α → Except ε σ) (next : γ → σ → α → σ → γ)

-- A run that takes notes of what happens.
def noting (p : σ × γ) (a : α) : Except ε (σ × γ) :=
  (act p.1 a).map fun s' => (s', next p.2 p.1 a s')

variable {act next}

theorem noting_eq_ok {p p' : σ × γ} {a : α} :
    noting act next p a = .ok p' ↔ act p.1 a = .ok p'.1 ∧ p'.2 = next p.2 p.1 a p'.1 := by
  rw [noting]
  cases h : act p.1 a with
  | error e => exact ⟨nofun, fun hp => by cases hp.1⟩
  | ok s' =>
      constructor
      · intro hp
        cases hp
        exact ⟨rfl, rfl⟩
      · rintro ⟨hs, hg⟩
        obtain ⟨p₁, p₂⟩ := p'
        obtain rfl := Except.ok.inj hs
        exact congrArg (fun g => Except.ok (_, g)) hg.symm

end Noting

end Runs

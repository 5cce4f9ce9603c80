import Cutis.Event.Descriptors
import Cutis.Event.Timeout
import Mathlib.Data.List.Nodup

namespace Cutis

-- A program as the event loop sees it: the list of the file events in its state, and what the
-- handler of an event does, called with a mask.
structure Program (σ φ : Type) where
  events : σ → List φ
  plain : φ → AeFileEvent
  file_proc : σ → φ → Nat → Except Fault σ

-- A call of file_proc, with the state it is called in.
structure HandlerCall (σ φ : Type) where
  state : σ
  fe : φ
  mask : Nat

namespace Program

variable {σ φ : Type} (p : Program σ φ)

def fd (call : HandlerCall σ φ) : Int := (p.plain call.fe).fd

-- The loop of AeProcessEvents over the file events, from a node on; a call of a handler
-- makes it start again.
def dispatch : Nat → List φ → FdSets → σ → Except Fault (List (HandlerCall σ φ) × σ)
  | _, [], _, s => return ([], s)
  | 0, _ :: _, _, _ => throw .hang
  | fuel + 1, fe :: next, sets, s => do
      let mask ← sets.firedMask (p.plain fe)
      if mask = 0 then dispatch fuel next sets s
      else
        let s' ← p.file_proc s fe mask
        let sets ← sets.clear (p.plain fe).fd
        let (calls, last) ← dispatch fuel (p.events s') sets s'
        return ({ state := s, fe, mask } :: calls, last)

-- AeProcessEvents up to the time events. The files that are ready are in the sets of ready.
def processFileEvents (fuel : Nat) (ready : FdSets) (s : σ) :
    Except Fault (List (HandlerCall σ φ) × σ) := do
  let sets ← FdSets.fill ((p.events s).map p.plain)
  let sets := sets.select ready
  if 0 < sets.count then p.dispatch fuel (p.events s) sets s
  else return ([], s)

-- Each call is made in the state that the calls before it leave.
inductive Follows : σ → List (HandlerCall σ φ) → σ → Prop
  | nil (s : σ) : Follows s [] s
  | cons {s s' last : σ} {fe : φ} {mask : Nat} {calls : List (HandlerCall σ φ)} :
      p.file_proc s fe mask = .ok s' → Follows s' calls last →
      Follows s ({ state := s, fe, mask } :: calls) last

-- What the calls of a pass have to be, for what select reports: one at most for each file, of
-- events that are registered and ready, until no ready event is left whose file got none.
structure Right (sets : FdSets) (s : σ) (calls : List (HandlerCall σ φ)) (last : σ) : Prop where
  follows : p.Follows s calls last
  once : (calls.map p.fd).Nodup
  registered : ∀ call ∈ calls, call.fe ∈ p.events call.state
  ready : ∀ call ∈ calls, call.mask ≠ 0 ∧ call.mask = sets.mask (p.plain call.fe)
  served : ∀ fe ∈ p.events last, sets.mask (p.plain fe) ≠ 0 → (p.plain fe).fd ∈ calls.map p.fd

-- The pass comes to an end, with the right calls.
def Safe (ready : FdSets) (s : σ) : Prop :=
  ∃ fuel sets calls last, FdSets.fill ((p.events s).map p.plain) = .ok sets ∧
    p.processFileEvents fuel ready s = .ok (calls, last) ∧ p.Right (sets.select ready) s calls last

-- Every descriptor that is registered has a bit.
def Bounded (s : σ) : Prop := ∀ fe ∈ p.events s, FdSets.Fits (p.plain fe)

-- All handlers return.
def Returns : Prop := ∀ s fe mask, ∃ s', p.file_proc s fe mask = .ok s'

-- The walk along the list comes to this event.
def Arrives (sets : FdSets) (s : σ) (fe : φ) : Prop :=
  ∃ passed rest, p.events s = passed ++ fe :: rest ∧
    ∀ other ∈ passed, sets.mask (p.plain other) = 0

-- The states the pass comes to, with what is left in the sets: each call is of the first event
-- that is ready.
inductive Comes : FdSets → σ → FdSets → σ → Prop
  | here (sets : FdSets) (s : σ) : Comes sets s sets s
  | call {sets sets' : FdSets} {s s' s'' : σ} {fe : φ} :
      p.Arrives sets s fe → sets.mask (p.plain fe) ≠ 0 →
      p.file_proc s fe (sets.mask (p.plain fe)) = .ok s' →
      Comes (sets.without (p.plain fe).fd) s' sets' s'' → Comes sets s sets' s''

-- Every descriptor the walk of a pass comes to has a bit.
def WalkFits (ready : FdSets) (s : σ) : Prop :=
  ∀ sets, FdSets.fill ((p.events s).map p.plain) = .ok sets →
    ∀ left s', p.Comes (sets.select ready) s left s' →
      ∀ fe, p.Arrives left s' fe → FdSets.Fits (p.plain fe)

-- The first event that is ready in a state where all descriptors have a bit.
structure Next (sets : FdSets) (s : σ) (fe : φ) : Prop where
  bounded : p.Bounded s
  first : p.Arrives sets s fe
  ready : sets.mask (p.plain fe) ≠ 0

-- No handler that is called there registers a descriptor that has none.
def Keeps : Prop := ∀ sets s fe s', p.Next sets s fe →
  p.file_proc s fe (sets.mask (p.plain fe)) = .ok s' → p.Bounded s'

variable {p} {sets ready : FdSets} {s s' last : σ} {fe : φ} {calls : List (HandlerCall σ φ)}

theorem right_nil (h : ∀ fe ∈ p.events s, sets.mask (p.plain fe) = 0) : p.Right sets s [] s where
  follows := .nil s
  once := List.nodup_nil
  registered := by simp
  ready := by simp
  served fe hfe hmask := absurd (h fe hfe) hmask

-- A call, and the calls that are right for the sets without its file.
theorem Right.cons (hmem : fe ∈ p.events s) (hmask : sets.mask (p.plain fe) ≠ 0)
    (hproc : p.file_proc s fe (sets.mask (p.plain fe)) = .ok s')
    (h : p.Right (sets.without (p.plain fe).fd) s' calls last) :
    p.Right sets s ({ state := s, fe, mask := sets.mask (p.plain fe) } :: calls) last := by
  have hother (call : HandlerCall σ φ) (hcall : call ∈ calls) :
      p.fd call ≠ (p.plain fe).fd ∧
        (sets.without (p.plain fe).fd).mask (p.plain call.fe) = sets.mask (p.plain call.fe) := by
    obtain ⟨hne, heq⟩ := h.ready call hcall
    rw [heq, FdSets.mask_without] at hne
    have hfd : (p.plain call.fe).fd ≠ (p.plain fe).fd := fun hfd => hne (if_pos hfd)
    exact ⟨hfd, by rw [FdSets.mask_without, if_neg hfd]⟩
  refine ⟨.cons hproc h.follows, ?_, ?_, ?_, fun fe' hfe' hmask' => ?_⟩
  · rw [List.map_cons, List.nodup_cons]
    refine ⟨fun hfd => ?_, h.once⟩
    obtain ⟨call, hcall, hfd⟩ := List.mem_map.mp hfd
    exact (hother call hcall).1 hfd
  · exact List.forall_mem_cons.mpr ⟨hmem, h.registered⟩
  · refine List.forall_mem_cons.mpr ⟨⟨hmask, rfl⟩, fun call hcall => ?_⟩
    rw [← (hother call hcall).2]
    exact h.ready call hcall
  · rw [List.map_cons, List.mem_cons]
    by_cases hfd : (p.plain fe').fd = (p.plain fe).fd
    · exact Or.inl hfd
    · refine Or.inr (h.served fe' hfe' ?_)
      rwa [FdSets.mask_without, if_neg hfd]

-- The nodes that are passed since the last call are not ready.
theorem dispatch_right {fuel : Nat} (passed : List φ) {rest : List φ}
    (hloop : p.dispatch fuel rest sets s = .ok (calls, last)) (hsplit : p.events s = passed ++ rest)
    (hpassed : ∀ fe ∈ passed, sets.mask (p.plain fe) = 0) : p.Right sets s calls last := by
  induction fuel generalizing sets s passed rest calls with
  | zero =>
      cases rest with
      | nil =>
          cases hloop
          rw [List.append_nil] at hsplit
          exact right_nil (hsplit ▸ hpassed)
      | cons fe next => cases hloop
  | succ fuel ih =>
      cases rest with
      | nil =>
          cases hloop
          rw [List.append_nil] at hsplit
          exact right_nil (hsplit ▸ hpassed)
      | cons fe next =>
          rw [dispatch] at hloop
          obtain ⟨mask, hfired, hloop⟩ := bind_eq_ok.mp hloop
          obtain rfl := FdSets.mask_of_firedMask hfired
          split_ifs at hloop with hmask
          · refine ih (passed ++ [fe]) hloop (by rw [hsplit]; simp) fun other hother => ?_
            rcases List.mem_append.mp hother with hother | hother
            · exact hpassed other hother
            · rwa [List.mem_singleton.mp hother]
          · obtain ⟨s', hproc, hloop⟩ := bind_eq_ok.mp hloop
            rw [FdSets.clear_ok (FdSets.inSet_of_mask hmask), ok_bind] at hloop
            obtain ⟨⟨rest', last'⟩, hrest, hloop⟩ := bind_eq_ok.mp hloop
            cases hloop
            have hright := ih [] hrest (List.nil_append _).symm (by simp)
            exact hright.cons (by simp [hsplit]) hmask hproc

theorem right_of_processFileEvents {fuel : Nat}
    (hpass : p.processFileEvents fuel ready s = .ok (calls, last)) :
    ∃ sets, FdSets.fill ((p.events s).map p.plain) = .ok sets ∧
      p.Right (sets.select ready) s calls last := by
  obtain ⟨sets, hfill, hpass⟩ := bind_eq_ok.mp hpass
  refine ⟨sets, hfill, ?_⟩
  dsimp only at hpass
  split_ifs at hpass with hcount
  · exact dispatch_right [] hpass (List.nil_append _).symm (by simp)
  · cases hpass
    refine right_nil fun fe _ => ?_
    exact FdSets.mask_of_count (Nat.eq_zero_of_not_pos hcount) _

theorem Arrives.mem (h : p.Arrives sets s fe) : fe ∈ p.events s := by
  obtain ⟨passed, rest, hsplit, -⟩ := h
  simp [hsplit]

theorem arrives_of_mem (hquiet : ∀ other, sets.mask (p.plain other) = 0) (h : fe ∈ p.events s) :
    p.Arrives sets s fe := by
  obtain ⟨passed, rest, hsplit⟩ := List.append_of_mem h
  exact ⟨passed, rest, hsplit, fun other _ => hquiet other⟩

-- The walk comes to no event behind the first one that is ready.
theorem Arrives.mem_or_eq {passed rest : List φ} {other : φ} (h : p.Arrives sets s other)
    (hsplit : p.events s = passed ++ fe :: rest) (hmask : sets.mask (p.plain fe) ≠ 0) :
    other ∈ passed ∨ other = fe := by
  obtain ⟨before, after, hother, hbefore⟩ := h
  rcases List.append_eq_append_iff.mp (hsplit.symm.trans hother) with
    ⟨gap, rfl, hgap⟩ | ⟨gap, rfl, hgap⟩
  · cases gap with
    | nil => exact Or.inr (List.cons.inj hgap).1.symm
    | cons first gap =>
        obtain rfl := (List.cons.inj hgap).1
        exact absurd (hbefore fe (by simp)) hmask
  · cases gap with
    | nil => exact Or.inr (List.cons.inj hgap).1
    | cons first gap =>
        obtain rfl := (List.cons.inj hgap).1
        exact Or.inl (by simp)

theorem comes_of_quiet {left : FdSets} (hquiet : ∀ fe ∈ p.events s, sets.mask (p.plain fe) = 0)
    (h : p.Comes sets s left s') : left = sets ∧ s' = s := by
  cases h with
  | here => exact ⟨rfl, rfl⟩
  | call harrives hmask _ _ => exact absurd (hquiet _ harrives.mem) hmask

-- The loop ends: a call takes its file out of the sets, and between two calls the list
-- only gets shorter.
theorem dispatch_ends (hreturns : p.Returns) (n : Nat) (sets : FdSets) (s : σ)
    (passed rest : List φ) (hcount : sets.count < n)
    (hfits : ∀ left s', p.Comes sets s left s' →
      ∀ fe, p.Arrives left s' fe → FdSets.Fits (p.plain fe))
    (hsplit : p.events s = passed ++ rest)
    (hpassed : ∀ fe ∈ passed, sets.mask (p.plain fe) = 0) :
    ∃ fuel result, p.dispatch fuel rest sets s = .ok result := by
  induction n generalizing sets s passed rest with
  | zero => exact absurd hcount (Nat.not_lt_zero _)
  | succ n ih =>
      induction rest generalizing passed with
      | nil => exact ⟨0, ([], s), by rfl⟩
      | cons fe next ihrest =>
          have harrives : p.Arrives sets s fe := ⟨passed, next, hsplit, hpassed⟩
          have hfired := FdSets.firedMask_ok (hfits sets s (.here sets s) fe harrives) sets
          by_cases hmask : sets.mask (p.plain fe) = 0
          · have hboth : ∀ other ∈ passed ++ [fe], sets.mask (p.plain other) = 0 := by
              intro other hother
              rcases List.mem_append.mp hother with hother | hother
              · exact hpassed other hother
              · rwa [List.mem_singleton.mp hother]
            obtain ⟨fuel, result, hloop⟩ := ihrest (passed ++ [fe]) (by rw [hsplit]; simp) hboth
            refine ⟨fuel + 1, result, ?_⟩
            rw [dispatch, hfired, ok_bind, if_pos hmask]
            exact hloop
          · obtain ⟨s', hproc⟩ := hreturns s fe (sets.mask (p.plain fe))
            have hless := Nat.lt_of_lt_of_le (FdSets.count_without hmask) (Nat.le_of_lt_succ hcount)
            obtain ⟨fuel, result, hloop⟩ := ih _ s' [] _ hless
              (fun left s'' hcomes => hfits left s'' (.call harrives hmask hproc hcomes))
              (List.nil_append _).symm (by simp)
            refine ⟨fuel + 1, ({ state := s, fe, mask := sets.mask (p.plain fe) } :: result.1,
              result.2), ?_⟩
            rw [dispatch, hfired, ok_bind, if_neg hmask, hproc, ok_bind,
              FdSets.clear_ok (FdSets.inSet_of_mask hmask), ok_bind, hloop]
            rfl

-- At the end of a list without a ready event the walk has come to all of it.
theorem fits_of_quiet {left : FdSets}
    (hall : ∀ fe ∈ p.events s, sets.mask (p.plain fe) = 0 ∧ FdSets.Fits (p.plain fe))
    (hcomes : p.Comes sets s left s') (harrives : p.Arrives left s' fe) :
    FdSets.Fits (p.plain fe) := by
  obtain ⟨rfl, rfl⟩ := comes_of_quiet (fun fe hfe => (hall fe hfe).1) hcomes
  exact (hall fe harrives.mem).2

-- A loop that ends has come to no descriptor without a bit.
theorem fits_of_dispatch {fuel : Nat} (passed : List φ) {rest : List φ}
    (hloop : p.dispatch fuel rest sets s = .ok (calls, last)) (hsplit : p.events s = passed ++ rest)
    (hpassed : ∀ fe ∈ passed, sets.mask (p.plain fe) = 0 ∧ FdSets.Fits (p.plain fe))
    {left : FdSets} (hcomes : p.Comes sets s left s') (harrives : p.Arrives left s' fe) :
    FdSets.Fits (p.plain fe) := by
  induction fuel generalizing sets s passed rest calls last with
  | zero =>
      cases rest with
      | nil =>
          rw [List.append_nil] at hsplit
          exact fits_of_quiet (hsplit ▸ hpassed) hcomes harrives
      | cons fe next => cases hloop
  | succ fuel ih =>
      cases rest with
      | nil =>
          rw [List.append_nil] at hsplit
          exact fits_of_quiet (hsplit ▸ hpassed) hcomes harrives
      | cons first next =>
          rw [dispatch] at hloop
          obtain ⟨mask, hfired, hloop⟩ := bind_eq_ok.mp hloop
          have hfits := FdSets.fits_of_firedMask hfired
          obtain rfl := FdSets.mask_of_firedMask hfired
          split_ifs at hloop with hmask
          · refine ih (passed ++ [first]) hloop (by rw [hsplit]; simp) (fun other hother => ?_)
              hcomes
            rcases List.mem_append.mp hother with hother | hother
            · exact hpassed other hother
            · rw [List.mem_singleton.mp hother]
              exact ⟨hmask, hfits⟩
          · obtain ⟨s₁, hproc, hloop⟩ := bind_eq_ok.mp hloop
            rw [FdSets.clear_ok (FdSets.inSet_of_mask hmask), ok_bind] at hloop
            obtain ⟨⟨rest', last'⟩, hrest, -⟩ := bind_eq_ok.mp hloop
            cases hcomes with
            | here =>
                rcases harrives.mem_or_eq hsplit hmask with hfe | rfl
                · exact (hpassed fe hfe).2
                · exact hfits
            | call hfirst hready hcall hcomes =>
                rcases hfirst.mem_or_eq hsplit hmask with hfe | rfl
                · exact absurd (hpassed _ hfe).1 hready
                · obtain rfl := Except.ok.inj (hproc.symm.trans hcall)
                  exact ih [] hrest (List.nil_append _).symm (by simp) hcomes

theorem bounded_of_safe (h : p.Safe ready s) : p.Bounded s := by
  obtain ⟨fuel, sets, calls, last, hfill, -⟩ := h
  by_contra hout
  rw [FdSets.fill_error (mt List.forall_mem_map.mp hout)] at hfill
  cases hfill

-- The pass is safe exactly if every descriptor that it comes to has a bit.
theorem safe_iff (hreturns : p.Returns) : p.Safe ready s ↔ p.Bounded s ∧ p.WalkFits ready s := by
  constructor
  · intro hsafe
    have hbounded := bounded_of_safe hsafe
    refine ⟨hbounded, fun sets hfill left s' hcomes fe harrives => ?_⟩
    obtain ⟨fuel, sets', calls, last, hfill', hpass, -⟩ := hsafe
    obtain rfl := Except.ok.inj (hfill'.symm.trans hfill)
    rw [processFileEvents, hfill, ok_bind] at hpass
    dsimp only at hpass
    split_ifs at hpass with hcount
    · exact fits_of_dispatch [] hpass (List.nil_append _).symm (by simp) hcomes harrives
    · refine fits_of_quiet (fun other hother => ⟨?_, hbounded other hother⟩) hcomes harrives
      exact FdSets.mask_of_count (Nat.eq_zero_of_not_pos hcount) _
  · rintro ⟨hbounded, hwalk⟩
    obtain ⟨sets, hfill, -⟩ := FdSets.fill_ok (List.forall_mem_map.mpr hbounded)
    obtain ⟨fuel, result, hloop⟩ := dispatch_ends hreturns _ (sets.select ready) s [] _
      (Nat.lt_succ_self _) (hwalk sets hfill) (List.nil_append _).symm (by simp)
    have hpass : ∃ result, p.processFileEvents fuel ready s = .ok result := by
      rw [processFileEvents, hfill, ok_bind]
      by_cases hcount : 0 < (sets.select ready).count
      · exact ⟨result, (if_pos hcount).trans hloop⟩
      · exact ⟨([], s), if_neg hcount⟩
    obtain ⟨⟨calls, last⟩, hpass⟩ := hpass
    obtain ⟨sets', hfill', hright⟩ := right_of_processFileEvents hpass
    exact ⟨fuel, sets', calls, last, hfill', hpass, hright⟩

theorem Comes.bounded (hkeeps : p.Keeps) {left : FdSets} (hcomes : p.Comes sets s left s')
    (h : p.Bounded s) : p.Bounded s' := by
  induction hcomes with
  | here => exact h
  | call harrives hmask hproc _ ih => exact ih (hkeeps _ _ _ _ ⟨h, harrives, hmask⟩ hproc)

theorem walkFits_of_keeps (hkeeps : p.Keeps) (h : p.Bounded s) : p.WalkFits ready s :=
  fun _ _ _ _ hcomes fe harrives => hcomes.bounded hkeeps h fe harrives.mem

-- The walk comes to the whole list when no file is ready but the one whose handler registers a
-- descriptor without a bit.
theorem exists_not_walkFits (h : ¬p.Keeps) : ∃ ready s, p.Bounded s ∧ ¬p.WalkFits ready s := by
  obtain ⟨sets, s, fe, s', hnext, hproc, hout⟩ : ∃ sets s fe s', p.Next sets s fe ∧
      p.file_proc s fe (sets.mask (p.plain fe)) = .ok s' ∧ ¬p.Bounded s' := by
    rw [Keeps] at h
    push Not at h
    exact h
  refine ⟨sets.only (p.plain fe).fd, s, hnext.bounded, fun hwalk => hout fun other hother => ?_⟩
  obtain ⟨full, hfill, hcovers⟩ := FdSets.fill_ok (List.forall_mem_map.mpr hnext.bounded)
  obtain ⟨passed, rest, hsplit, hpassed⟩ := hnext.first
  have hmask : (full.select (sets.only (p.plain fe).fd)).mask (p.plain fe) =
      sets.mask (p.plain fe) :=
    FdSets.mask_select_only (hcovers _ (List.mem_map_of_mem (by simp [hsplit]))) sets
  have hfirst : p.Arrives (full.select (sets.only (p.plain fe).fd)) s fe :=
    ⟨passed, rest, hsplit, fun before hbefore =>
      FdSets.mask_select_only_eq_zero (hpassed before hbefore) full _⟩
  have hquiet (other : φ) : ((full.select (sets.only (p.plain fe).fd)).without
      (p.plain fe).fd).mask (p.plain other) = 0 :=
    FdSets.mask_select_only_without full sets _ _
  exact hwalk full hfill _ s'
    (.call hfirst (hmask ▸ hnext.ready) (hmask ▸ hproc) (.here _ _)) other
    (arrives_of_mem hquiet hother)

end Program

-- A program with the timers of its event loop, to which its handlers do these things.
def Program.timed {σ φ : Type} (p : Program σ φ) (ops : σ → φ → Nat → List TimerOp) :
    Program (σ × Timers) φ where
  events s := p.events s.1
  plain := p.plain
  file_proc s fe mask := do
    return (← p.file_proc s.1 fe mask, (ops s.1 fe mask).foldl TimerOp.run s.2)

namespace Program

section Timed

variable {σ φ : Type} {p : Program σ φ} {ops : σ → φ → Nat → List TimerOp}
  {s last : σ × Timers} {calls : List (HandlerCall (σ × Timers) φ)}

-- What the calls of a pass do to the timers.
def timerOps (ops : σ → φ → Nat → List TimerOp) (calls : List (HandlerCall (σ × Timers) φ)) :
    List TimerOp :=
  calls.flatMap fun call => ops call.state.1 call.fe call.mask

theorem timed_follows (h : (p.timed ops).Follows s calls last) :
    last.2 = (timerOps ops calls).foldl TimerOp.run s.2 := by
  induction h with
  | nil => rfl
  | cons hproc _ ih =>
      obtain ⟨s', -, hproc⟩ := bind_eq_ok.mp hproc
      cases hproc
      rw [ih]
      simp only [timerOps, List.flatMap_cons, List.foldl_append]

-- The time events come after the pass, on the timers as its calls leave them.
theorem timed_aeProcessEvents {fuel : Nat} {ready : FdSets}
    (hpass : (p.timed ops).processFileEvents fuel ready s = .ok (calls, last)) (now : Clock)
    (checks : List TimerCheck) :
    Timers.aeProcessEvents.next s.2 { now, handlers := timerOps ops calls, checks } =
      Timers.processTimeEvents (last.2.time_event_next_id - 1) checks last.2.time_event_head
        last.2 := by
  obtain ⟨sets, -, hright⟩ := right_of_processFileEvents hpass
  rw [Timers.aeProcessEvents.next, timed_follows hright.follows]

end Timed

end Program

-- What a handler does to the list of events.
inductive FileOp
  | create (fd : Int) (mask : Nat) (proc : AeFileProc)
  | delete (fd : Int) (mask : Nat)

namespace FileOp

def run (events : List AeFileEvent) : FileOp → List AeFileEvent
  | .create fd mask proc => aeCreateFileEvent events fd mask proc
  | .delete fd mask => aeDeleteFileEvent events fd mask

def Fits : FileOp → Prop
  | .create fd _ _ => InSet fd
  | .delete _ _ => True

variable {events : List AeFileEvent}

theorem fits_change {fd : Int} {mask : Nat} {proc : AeFileProc} {changed : List AeFileEvent}
    (h : ∀ fe ∈ events, FdSets.Fits fe)
    (hchange : aeChangeFileEvent fd mask proc events = some changed) :
    ∀ fe ∈ changed, FdSets.Fits fe := by
  induction events generalizing changed with
  | nil => cases hchange
  | cons fe rest ih =>
      obtain ⟨hfe, hrest⟩ := List.forall_mem_cons.mp h
      rw [aeChangeFileEvent] at hchange
      split_ifs at hchange with hfound
      · obtain rfl := Option.some.inj hchange
        exact List.forall_mem_cons.mpr ⟨hfe, hrest⟩
      · obtain ⟨rest', hrest', rfl⟩ := Option.map_eq_some_iff.mp hchange
        exact List.forall_mem_cons.mpr ⟨hfe, ih hrest hrest'⟩

theorem fits_run (h : ∀ fe ∈ events, FdSets.Fits fe) {op : FileOp} (hop : op.Fits) :
    ∀ fe ∈ run events op, FdSets.Fits fe := by
  cases op with
  | create fd mask proc =>
      rw [run, aeCreateFileEvent]
      cases hchange : aeChangeFileEvent fd mask proc events with
      | none => exact List.forall_mem_cons.mpr ⟨fun _ => hop, h⟩
      | some changed => exact fits_change h hchange
  | delete fd mask => exact fun fe hfe => h fe (List.mem_of_mem_eraseP hfe)

end FileOp

namespace Program

-- Handlers that register and delete file events and do nothing else.
def ofOps (handler : AeFileEvent → Nat → List FileOp) : Program (List AeFileEvent) AeFileEvent where
  events := id
  plain := id
  file_proc events fe mask := return (handler fe mask).foldl FileOp.run events

variable {handler : AeFileEvent → Nat → List FileOp}

theorem ofOps_returns (handler : AeFileEvent → Nat → List FileOp) : (ofOps handler).Returns :=
  fun _ _ _ => ⟨_, rfl⟩

-- It is enough that no handler registers a descriptor without a bit.
theorem ofOps_keeps (h : ∀ fe mask, InSet fe.fd → ∀ op ∈ handler fe mask, op.Fits) :
    (ofOps handler).Keeps := by
  intro sets events fe events' hnext hproc
  cases hproc
  have hrun (ops : List FileOp) (hops : ∀ op ∈ ops, op.Fits) (events : List AeFileEvent)
      (hevents : ∀ fe ∈ events, FdSets.Fits fe) :
      ∀ fe ∈ ops.foldl FileOp.run events, FdSets.Fits fe := by
    induction ops generalizing events with
    | nil => exact hevents
    | cons op ops ih =>
        obtain ⟨hop, hops⟩ := List.forall_mem_cons.mp hops
        exact ih hops _ (FileOp.fits_run hevents hop)
  exact hrun _ (h _ _ (FdSets.inSet_of_mask hnext.ready)) _ hnext.bounded

-- A connection, a request on it and its reply.
def echo (fe : AeFileEvent) (_ : Nat) : List FileOp :=
  match fe.file_proc with
  | .AcceptHandler => [.create 5 AE_READABLE .ReadQueryFromClient]
  | .ReadQueryFromClient => [.create fe.fd AE_WRITABLE .SendReplyToClient]
  | .SendReplyToClient => [.delete fe.fd AE_WRITABLE]

end Program

end Cutis

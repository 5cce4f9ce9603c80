import Cutis.Event.Timeout
import Mathlib.Data.List.Nodup
import Mathlib.Data.List.Perm.Subperm

namespace Cutis

-- What one call of a time_proc does to the timers, what it returns, and the state it
-- leaves everything else in.
structure TimerCall (ω : Type) where
  ops : List TimerOp
  ret : Int
  world : ω

def TimerCall.check {ω : Type} (call : TimerCall ω) (now : Clock) : TimerCheck where
  now
  ops := call.ops
  ret := call.ret
  later := now

-- The time_proc of each timer, which is called with the id of its timer.
abbrev TimeProc (ω : Type) := ω → Timers → Int → TimerCall ω

structure Firing where
  id : Int
  ops : List TimerOp
  ret : Int

-- The callbacks end their timer or ask for a period, and leave the deletion of their own
-- timer to the loop.
structure TimeProc.Permitted {ω : Type} (proc : TimeProc ω) : Prop where
  ret : ∀ world loop id, (proc world loop id).ret = AE_NOMORE ∨ 1 ≤ (proc world loop id).ret
  own : ∀ world loop id, TimerOp.delete id ∉ (proc world loop id).ops

-- The timer as the loop sets it after a call that asks for a period.
def AeTimeEvent.setAgain (te : AeTimeEvent) (ret : Int) (now : Clock) : AeTimeEvent where
  id := te.id
  when_sec := (aeAddMillisecondsToNow ret now).1
  when_ms := (aeAddMillisecondsToNow ret now).2

namespace Timers

section Loop

variable {ω : Type} (proc : TimeProc ω) (now : Clock) (max_id : Int)

-- The loop over the timers, from a node on, where every reading of the clock is the same.
-- The results are the calls made, in order, and the timers that are left.
def timerLoop : Nat → ω → List AeTimeEvent → Timers → Except Fault (List Firing × Timers)
  | 0, _, _, _ => throw .hang
  | _ + 1, _, [], loop => return ([], loop)
  | fuel + 1, world, te :: next, loop =>
      if te.id > max_id then timerLoop fuel world next loop
      else if due te now then do
        let call := proc world loop te.id
        let loop ← loop.timerCalled te.id (call.check now)
        let rest ← timerLoop fuel call.world loop.time_event_head loop
        return ({ id := te.id, ops := call.ops, ret := call.ret } :: rest.1, rest.2)
      else timerLoop fuel world next loop

-- The part of AeProcessEvents that checks the time events.
def fireTimers (fuel : Nat) (world : ω) (loop : Timers) : Except Fault (List Firing × Timers) :=
  timerLoop proc now (loop.time_event_next_id - 1) fuel world loop.time_event_head loop

-- The loop is one of those that get an answer for every look at a timer.
theorem processTimeEvents_of_timerLoop {fuel : Nat} {world : ω} {te : List AeTimeEvent}
    {loop loop' : Timers} {log : List Firing}
    (h : timerLoop proc now max_id fuel world te loop = .ok (log, loop')) :
    ∃ checks, (∀ check ∈ checks, check.now = now ∧ check.later = now) ∧
      processTimeEvents max_id checks te loop = .ok loop' := by
  induction fuel generalizing world te loop log with
  | zero => cases h
  | succ fuel ih =>
      cases te with
      | nil =>
          cases h
          exact ⟨[], fun _ hcheck => absurd hcheck List.not_mem_nil, rfl⟩
      | cons te next =>
          rw [timerLoop] at h
          by_cases hnew : te.id > max_id
          · rw [if_pos hnew] at h
            obtain ⟨checks, hclock, hrun⟩ := ih h
            have hskip : skipNew max_id (te :: next) = skipNew max_id next := by
              rw [skipNew, List.dropWhile_cons_of_pos (by simpa using hnew)]
              rfl
            refine ⟨checks, hclock, ?_⟩
            cases checks with
            | nil => rwa [processTimeEvents, hskip, ← processTimeEvents]
            | cons check checks => rwa [processTimeEvents, hskip, ← processTimeEvents]
          · have hkeep : skipNew max_id (te :: next) = te :: next := by
              rw [skipNew, List.dropWhile_cons_of_neg (by simpa using hnew)]
            rw [if_neg hnew] at h
            by_cases hdue : due te now = true
            · rw [if_pos hdue] at h
              obtain ⟨loop₁, hcalled, h⟩ := bind_eq_ok.mp h
              obtain ⟨rest, hrest, h⟩ := bind_eq_ok.mp h
              cases h
              obtain ⟨checks, hclock, hrun⟩ := ih hrest
              refine ⟨(proc world loop te.id).check now :: checks,
                List.forall_mem_cons.mpr ⟨⟨rfl, rfl⟩, hclock⟩, ?_⟩
              have hdue' : due te ((proc world loop te.id).check now).now = true := hdue
              rw [processTimeEvents, hkeep]
              simp only [hdue', if_true, hcalled, ok_bind]
              exact hrun
            · rw [if_neg hdue] at h
              obtain ⟨checks, hclock, hrun⟩ := ih h
              refine ⟨{ now, ops := [], ret := AE_NOMORE, later := now } :: checks,
                List.forall_mem_cons.mpr ⟨⟨rfl, rfl⟩, hclock⟩, ?_⟩
              rw [processTimeEvents, hkeep]
              simp only [hdue]
              exact hrun

end Loop

-- The loop gives every timer an id of its own, counting up.
structure Numbered (loop : Timers) : Prop where
  nodup : (loop.time_event_head.map AeTimeEvent.id).Nodup
  lt_next : ∀ te ∈ loop.time_event_head, te.id < loop.time_event_next_id

section Numbered

variable {loop : Timers} {te : AeTimeEvent}

theorem Numbered.eq_of_id (h : loop.Numbered) {other : AeTimeEvent}
    (hte : te ∈ loop.time_event_head) (hother : other ∈ loop.time_event_head)
    (hid : te.id = other.id) : te = other :=
  List.inj_on_of_nodup_map h.nodup hte hother hid

theorem mem_eraseP_id {timers : List AeTimeEvent}
    (hnodup : (timers.map AeTimeEvent.id).Nodup) (id : Int) :
    te ∈ timers.eraseP (fun te => te.id = id) ↔ te ∈ timers ∧ te.id ≠ id := by
  induction timers with
  | nil => simp
  | cons first rest ih =>
      rw [List.map_cons, List.nodup_cons] at hnodup
      by_cases hfirst : first.id = id
      · rw [List.eraseP_cons_of_pos (by simpa using hfirst), List.mem_cons]
        constructor
        · intro hmem
          refine ⟨Or.inr hmem, fun hid => hnodup.1 ?_⟩
          rw [hfirst, ← hid]
          exact List.mem_map_of_mem hmem
        · rintro ⟨rfl | hmem, hid⟩
          · exact absurd hfirst hid
          · exact hmem
      · rw [List.eraseP_cons_of_neg (by simpa using hfirst), List.mem_cons, List.mem_cons,
          ih hnodup.2]
        constructor
        · rintro (rfl | ⟨hmem, hid⟩)
          · exact ⟨Or.inl rfl, hfirst⟩
          · exact ⟨Or.inr hmem, hid⟩
        · rintro ⟨rfl | hmem, hid⟩
          · exact Or.inl rfl
          · exact Or.inr ⟨hmem, hid⟩

theorem Numbered.delete (h : loop.Numbered) (id : Int) :
    (loop.aeDeleteTimeEvent id).Numbered where
  nodup := h.nodup.sublist (List.eraseP_sublist.map _)
  lt_next := fun te hte => h.lt_next te (List.mem_of_mem_eraseP hte)

theorem Numbered.run (h : loop.Numbered) (op : TimerOp) :
    (op.run loop).Numbered ∧ loop.time_event_next_id ≤ (op.run loop).time_event_next_id := by
  cases op with
  | create milliseconds now =>
      refine ⟨⟨?_, fun te hte => ?_⟩, Int.le_add_one (Int.le_refl _)⟩
      · refine List.nodup_cons.mpr ⟨fun hmem => ?_, h.nodup⟩
        obtain ⟨te, hte, hid⟩ := List.mem_map.mp hmem
        exact absurd hid (Int.ne_of_lt (h.lt_next te hte))
      · rcases List.mem_cons.mp hte with rfl | hte
        · exact Int.lt_succ _
        · exact Int.lt_trans (h.lt_next te hte) (Int.lt_succ _)
  | delete id => exact ⟨h.delete id, Int.le_refl _⟩

-- What operations do to the timers there were.
theorem Numbered.ops (h : loop.Numbered) (ops : List TimerOp) :
    (ops.foldl TimerOp.run loop).Numbered ∧
      loop.time_event_next_id ≤ (ops.foldl TimerOp.run loop).time_event_next_id ∧
      ∀ te : AeTimeEvent, te.id < loop.time_event_next_id →
        (te ∈ (ops.foldl TimerOp.run loop).time_event_head ↔
          te ∈ loop.time_event_head ∧ TimerOp.delete te.id ∉ ops) := by
  induction ops generalizing loop with
  | nil => exact ⟨h, Int.le_refl _, fun te _ => by simp⟩
  | cons op ops ih =>
      obtain ⟨hop, hnext⟩ := h.run op
      obtain ⟨hnumbered, hnext', hmem⟩ := ih hop
      refine ⟨hnumbered, Int.le_trans hnext hnext', fun te hte => ?_⟩
      rw [List.foldl_cons, hmem te (Int.lt_of_lt_of_le hte hnext), List.mem_cons, not_or]
      cases op with
      | create milliseconds now =>
          have hne : te ∈ (TimerOp.run loop (.create milliseconds now)).time_event_head ↔
              te ∈ loop.time_event_head := by
            refine ⟨fun hmem => ?_, List.mem_cons_of_mem _⟩
            rcases List.mem_cons.mp hmem with rfl | hmem
            · exact absurd hte (Int.lt_irrefl _)
            · exact hmem
          rw [hne]
          simp
      | delete id =>
          rw [TimerOp.run, Timers.aeDeleteTimeEvent, mem_eraseP_id h.nodup id]
          simp only [TimerOp.delete.injEq, and_assoc]

theorem Numbered.setTimer (h : loop.Numbered) {id : Int} {time : Int × Int} {loop' : Timers}
    (hset : loop.setTimer id time = .ok loop') : loop'.Numbered := by
  rw [Timers.setTimer] at hset
  split_ifs at hset
  obtain rfl := Except.ok.inj hset
  constructor
  · have hids : (loop.time_event_head.map fun te =>
        if te.id = id then { te with when_sec := time.1, when_ms := time.2 } else te).map
          AeTimeEvent.id = loop.time_event_head.map AeTimeEvent.id := by
      rw [List.map_map]
      refine List.map_congr_left fun te _ => ?_
      rw [Function.comp_apply]
      split_ifs <;> rfl
    rw [hids]
    exact h.nodup
  · intro te hte
    obtain ⟨old, hold, rfl⟩ := List.mem_map.mp hte
    have hlt := h.lt_next old hold
    split_ifs <;> exact hlt

theorem Numbered.called (h : loop.Numbered) {id : Int} {check : TimerCheck} {loop' : Timers}
    (hcalled : loop.timerCalled id check = .ok loop') : loop'.Numbered := by
  obtain ⟨hops, -⟩ := h.ops check.ops
  rw [timerCalled] at hcalled
  split_ifs at hcalled
  · exact hops.setTimer hcalled
  · obtain rfl := Except.ok.inj hcalled
    exact hops.delete id

theorem Numbered.aeProcessEvents {call : ProcessCall} {loop' : Timers} (h : loop.Numbered)
    (hprocess : loop.aeProcessEvents call = .ok loop') : loop'.Numbered :=
  aeProcessEvents_keeps (C := fun _ => True) (fun _ _ _ _ h _ hcalled => h.called hcalled)
    (h.ops call.handlers).1 (fun _ _ => trivial) hprocess

theorem numbered_aeCreateEventLoop : aeCreateEventLoop.Numbered := ⟨List.nodup_nil, nofun⟩

-- In every run of the event loop the ids are distinct and have been handed out.
theorem numbered_throughout (setup : List TimerOp) (calls : List ProcessCall) :
    Runs.Throughout Timers.aeProcessEvents Numbered
      (setup.foldl TimerOp.run aeCreateEventLoop) calls :=
  Runs.throughout_of_invariant (R := fun _ _ => True)
    (fun _ _ _ h _ hact => h.aeProcessEvents hact) (fun _ h => h) calls _
    (numbered_aeCreateEventLoop.ops setup).1
    (Runs.always_of_forall fun _ _ _ => trivial)

theorem setTimer_spec (h : loop.Numbered) (hte : te ∈ loop.time_event_head) (time : Int × Int) :
    ∃ loop', loop.setTimer te.id time = .ok loop' ∧ loop'.Numbered ∧
      loop'.time_event_next_id = loop.time_event_next_id ∧
      ∀ other : AeTimeEvent, other ∈ loop'.time_event_head ↔
        if other.id = te.id then other = { te with when_sec := time.1, when_ms := time.2 }
        else other ∈ loop.time_event_head := by
  have hany : loop.time_event_head.any (fun other => other.id = te.id) = true :=
    List.any_eq_true.mpr ⟨te, hte, by simp⟩
  have hset : loop.setTimer te.id time = .ok { loop with
      time_event_head := loop.time_event_head.map fun other =>
        if other.id = te.id then { other with when_sec := time.1, when_ms := time.2 }
        else other } := by
    rw [setTimer, if_pos hany]
    rfl
  refine ⟨_, hset, h.setTimer hset, rfl, fun other => ?_⟩
  rw [List.mem_map]
  constructor
  · rintro ⟨old, hold, rfl⟩
    by_cases hid : old.id = te.id
    · rw [if_pos hid, if_pos hid, h.eq_of_id hold hte hid]
    · rw [if_neg hid, if_neg hid]
      exact hold
  · by_cases hid : other.id = te.id
    · rw [if_pos hid]
      rintro rfl
      exact ⟨te, hte, if_pos rfl⟩
    · rw [if_neg hid]
      exact fun hother => ⟨other, hother, if_neg hid⟩

-- What a call for a timer leaves of the timers there were.
def AfterCall (loop : Timers) (te : AeTimeEvent) (ops : List TimerOp) (ret : Int) (later : Clock)
    (loop' : Timers) : Prop :=
  ∀ other : AeTimeEvent, other.id < loop.time_event_next_id →
    (other ∈ loop'.time_event_head ↔
      if other.id = te.id then ret ≠ AE_NOMORE ∧ other = te.setAgain ret later
      else other ∈ loop.time_event_head ∧ TimerOp.delete other.id ∉ ops)

-- A call of the time_proc of a timer, and what the loop does with the timer after it.
theorem timerCalled_spec (h : loop.Numbered) (hte : te ∈ loop.time_event_head)
    {check : TimerCheck} (hown : TimerOp.delete te.id ∉ check.ops) :
    ∃ loop', loop.timerCalled te.id check = .ok loop' ∧ loop'.Numbered ∧
      loop.time_event_next_id ≤ loop'.time_event_next_id ∧
      AfterCall loop te check.ops check.ret check.later loop' := by
  obtain ⟨hops, hnext, hmem⟩ := h.ops check.ops
  have hstays := (hmem te (h.lt_next te hte)).mpr ⟨hte, hown⟩
  rw [timerCalled]
  by_cases hret : check.ret = AE_NOMORE
  · rw [if_neg (not_not.mpr hret)]
    refine ⟨_, rfl, hops.delete te.id, hnext, fun other hother => ?_⟩
    rw [Timers.aeDeleteTimeEvent, mem_eraseP_id hops.nodup, hmem other hother]
    by_cases hid : other.id = te.id
    · simp [hid, hret]
    · simp [hid]
  · rw [if_pos hret]
    obtain ⟨loop', hset, hloop', hnext', hmem'⟩ :=
      setTimer_spec hops hstays (aeAddMillisecondsToNow check.ret check.later)
    refine ⟨loop', hset, hloop', hnext' ▸ hnext, fun other hother => ?_⟩
    rw [hmem' other]
    by_cases hid : other.id = te.id
    · simp [hid, hret, AeTimeEvent.setAgain]
    · rw [if_neg hid, if_neg hid, hmem other hother]

end Numbered

section Times

theorem aeAddMillisecondsToNow_millis (milliseconds : Int) (now : Clock) :
    (aeAddMillisecondsToNow milliseconds now).1 * 1000 +
      (aeAddMillisecondsToNow milliseconds now).2 = now.millis + milliseconds := by
  have hsplit := Int.mul_tdiv_add_tmod milliseconds 1000
  simp only [aeAddMillisecondsToNow, Clock.millis]
  split_ifs
  · dsimp only
    omega
  · dsimp only
    omega

theorem due_iff {te : AeTimeEvent} {now : Clock} :
    due te now = true ↔ te.when_sec < (aeGetTime now).1 ∨
      ((aeGetTime now).1 = te.when_sec ∧ te.when_ms ≤ (aeGetTime now).2) := by
  simp [due]

-- A timer that is set again is not due at the same reading.
theorem not_due_again {ret : Int} (hret : 1 ≤ ret) (now : Clock) (te : AeTimeEvent) :
    ¬due (te.setAgain ret now) now = true := by
  have hmillis := aeAddMillisecondsToNow_millis ret now
  have hlt := aeAddMillisecondsToNow_ms ret now
  have hpos := aeAddMillisecondsToNow_nonneg (Int.le_trans (by decide) hret) now
  have hms := aeGetTime_ms now
  simp only [Clock.millis] at hmillis
  rw [due_iff]
  simp only [AeTimeEvent.setAgain]
  omega

end Times

section Dispatch

-- The timers the loop calls.
def Pending (max_id : Int) (now : Clock) (te : AeTimeEvent) : Prop :=
  te.id ≤ max_id ∧ due te now = true

instance (max_id : Int) (now : Clock) (te : AeTimeEvent) : Decidable (Pending max_id now te) :=
  inferInstanceAs (Decidable (_ ∧ _))

-- A callback deleted the timer.
def Deleted (id : Int) (log : List Firing) : Prop := ∃ f ∈ log, TimerOp.delete id ∈ f.ops

-- A callback deleted the timer before its turn.
def DeletedFirst (id : Int) : List Firing → Prop
  | [] => False
  | f :: rest => f.id ≠ id ∧ (TimerOp.delete id ∈ f.ops ∨ DeletedFirst id rest)

-- What the calls of the loop come to.
structure Dispatched (max_id : Int) (now : Clock) (loop : Timers) (log : List Firing)
    (loop' : Timers) : Prop where
  nodup : (log.map Firing.id).Nodup
  of_pending : ∀ f ∈ log, ∃ te ∈ loop.time_event_head, te.id = f.id ∧ Pending max_id now te
  fired : ∀ te ∈ loop.time_event_head, Pending max_id now te →
    (te.id ∈ log.map Firing.id ↔ ¬DeletedFirst te.id log)
  kept : ∀ te : AeTimeEvent, te.id ≤ max_id → te.id ∉ log.map Firing.id →
    (te ∈ loop'.time_event_head ↔ te ∈ loop.time_event_head ∧ ¬Deleted te.id log)
  gone : ∀ before f after, log = before ++ f :: after → f.ret = AE_NOMORE ∨ Deleted f.id after →
    ∀ te ∈ loop'.time_event_head, te.id ≠ f.id
  set : ∀ before f after, log = before ++ f :: after → f.ret ≠ AE_NOMORE →
    ¬Deleted f.id after → ∃ te ∈ loop'.time_event_head,
      te.id = f.id ∧ te.millis = now.millis + f.ret

theorem deleted_cons {id : Int} {f : Firing} {log : List Firing} :
    Deleted id (f :: log) ↔ TimerOp.delete id ∈ f.ops ∨ Deleted id log := by
  simp [Deleted]

theorem dispatched_nil {max_id : Int} {now : Clock} {loop : Timers}
    (hnone : ∀ te ∈ loop.time_event_head, ¬Pending max_id now te) :
    Dispatched max_id now loop [] loop where
  nodup := List.nodup_nil
  of_pending := fun _ hf => absurd hf List.not_mem_nil
  fired := fun te hte hpending => absurd hpending (hnone te hte)
  kept := fun _ _ _ => ⟨fun hte => ⟨hte, fun ⟨_, hf, _⟩ => absurd hf List.not_mem_nil⟩, And.left⟩
  gone := fun before f after h => by simp at h
  set := fun before f after h => by simp at h

section AfterCall

variable {max_id : Int} {now : Clock} {loop loop₁ loop' : Timers} {te : AeTimeEvent}
  {ops : List TimerOp} {ret : Int} {log : List Firing}

-- With a period of a millisecond or more the timer that was called is not pending again, and
-- what is pending was so before, and was not deleted.
theorem AfterCall.pending (hcalled : AfterCall loop te ops ret now loop₁)
    (hmax : max_id < loop.time_event_next_id) (hret : ret = AE_NOMORE ∨ 1 ≤ ret)
    {other : AeTimeEvent} (hother : other ∈ loop₁.time_event_head)
    (hpending : Pending max_id now other) :
    other.id ≠ te.id ∧ other ∈ loop.time_event_head ∧ TimerOp.delete other.id ∉ ops := by
  rw [hcalled other (Int.lt_of_le_of_lt hpending.1 hmax)] at hother
  by_cases hid : other.id = te.id
  · rw [if_pos hid] at hother
    obtain ⟨hnot, rfl⟩ := hother
    exact absurd hpending.2 (not_due_again (hret.resolve_left hnot) now te)
  · rw [if_neg hid] at hother
    exact ⟨hid, hother⟩

-- So are the timers that the rest of the loop calls.
theorem AfterCall.called (hcalled : AfterCall loop te ops ret now loop₁)
    (hmax : max_id < loop.time_event_next_id) (hret : ret = AE_NOMORE ∨ 1 ≤ ret)
    (hrest : Dispatched max_id now loop₁ log loop') {id : Int} (hid : id ∈ log.map Firing.id) :
    id ≠ te.id ∧ TimerOp.delete id ∉ ops := by
  obtain ⟨f, hf, rfl⟩ := List.mem_map.mp hid
  obtain ⟨other, hother, hother_id, hpending⟩ := hrest.of_pending f hf
  obtain ⟨hne, -, hdelete⟩ := hcalled.pending hmax hret hother hpending
  rw [hother_id] at hne hdelete
  exact ⟨hne, hdelete⟩

-- One call, and those after it.
theorem dispatched_cons (hmax : max_id < loop.time_event_next_id)
    (hte : te ∈ loop.time_event_head) (hpending : Pending max_id now te)
    (hret : ret = AE_NOMORE ∨ 1 ≤ ret) (hcalled : AfterCall loop te ops ret now loop₁)
    (hrest : Dispatched max_id now loop₁ log loop') :
    Dispatched max_id now loop ({ id := te.id, ops, ret } :: log) loop' := by
  have hother (other : AeTimeEvent) (hid : other.id ≠ te.id) (hle : other.id ≤ max_id) :
      other ∈ loop₁.time_event_head ↔
        other ∈ loop.time_event_head ∧ TimerOp.delete other.id ∉ ops := by
    rw [hcalled other (Int.lt_of_le_of_lt hle hmax), if_neg hid]
  have honce : te.id ∉ log.map Firing.id := fun hmem =>
    (hcalled.called hmax hret hrest hmem).1 rfl
  have hself (other : AeTimeEvent) (hid : other.id = te.id) :
      other ∈ loop'.time_event_head ↔
        (ret ≠ AE_NOMORE ∧ other = te.setAgain ret now) ∧ ¬Deleted te.id log := by
    have hlt : other.id < loop.time_event_next_id :=
      Int.lt_of_le_of_lt (hid ▸ hpending.1) hmax
    rw [hrest.kept other (hid ▸ hpending.1) (hid ▸ honce), hcalled other hlt, if_pos hid, hid]
  constructor
  · exact List.nodup_cons.mpr ⟨honce, hrest.nodup⟩
  · intro f hf
    rcases List.mem_cons.mp hf with rfl | hf
    · exact ⟨te, hte, rfl, hpending⟩
    · obtain ⟨other, hmem₁, hid, hdue⟩ := hrest.of_pending f hf
      exact ⟨other, (hcalled.pending hmax hret hmem₁ hdue).2.1, hid, hdue⟩
  · intro t ht hdue
    by_cases hid : t.id = te.id
    · rw [hid]
      exact ⟨fun _ hfirst => hfirst.1 rfl, fun _ => List.mem_cons_self⟩
    · rw [List.map_cons, List.mem_cons, or_iff_right hid, DeletedFirst,
        and_iff_right (Ne.symm hid), not_or]
      by_cases hdelete : TimerOp.delete t.id ∈ ops
      · exact ⟨fun hmem => absurd hdelete (hcalled.called hmax hret hrest hmem).2,
          fun hnot => absurd hdelete hnot.1⟩
      · rw [and_iff_right hdelete]
        exact hrest.fired t ((hother t hid hdue.1).mpr ⟨ht, hdelete⟩) hdue
  · intro t hle hnot
    rw [List.map_cons, List.mem_cons, not_or] at hnot
    rw [hrest.kept t hle hnot.2, hother t hnot.1 hle, deleted_cons, not_or, and_assoc]
  · intro before f after hsplit hend
    cases before with
    | nil =>
        obtain ⟨rfl, rfl⟩ := List.cons.inj hsplit
        intro t ht hid
        obtain ⟨⟨hnot, -⟩, hkept⟩ := (hself t hid).mp ht
        exact hend.elim hnot hkept
    | cons first before =>
        obtain ⟨-, hsplit⟩ := List.cons.inj hsplit
        exact hrest.gone before f after hsplit hend
  · intro before f after hsplit hnot hkept
    cases before with
    | nil =>
        obtain ⟨rfl, rfl⟩ := List.cons.inj hsplit
        exact ⟨_, (hself (te.setAgain ret now) rfl).mpr ⟨⟨hnot, rfl⟩, hkept⟩, rfl,
          aeAddMillisecondsToNow_millis ret now⟩
    | cons first before =>
        obtain ⟨-, hsplit⟩ := List.cons.inj hsplit
        exact hrest.set before f after hsplit hnot hkept

theorem fewer_pending (hmax : max_id < loop.time_event_next_id)
    (hte : te ∈ loop.time_event_head) (hpending : Pending max_id now te)
    (hret : ret = AE_NOMORE ∨ 1 ≤ ret) (hnumbered : loop₁.Numbered)
    (hcalled : AfterCall loop te ops ret now loop₁) :
    (loop₁.time_event_head.filter (Pending max_id now ·)).length <
      (loop.time_event_head.filter (Pending max_id now ·)).length := by
  have hrest (other) (hother : other ∈ loop₁.time_event_head.filter (Pending max_id now ·)) :
      other.id ≠ te.id ∧ other ∈ loop.time_event_head.filter (Pending max_id now ·) := by
    rw [List.mem_filter, decide_eq_true_eq] at hother
    obtain ⟨hmem, hdue⟩ := hother
    obtain ⟨hid, hmem, -⟩ := hcalled.pending hmax hret hmem hdue
    exact ⟨hid, List.mem_filter.mpr ⟨hmem, decide_eq_true hdue⟩⟩
  have hnodup : (te :: loop₁.time_event_head.filter (Pending max_id now ·)).Nodup :=
    List.nodup_cons.mpr ⟨fun hmem => (hrest te hmem).1 rfl,
      (List.Nodup.of_map _ hnumbered.nodup).filter _⟩
  refine (List.subperm_of_subset hnodup fun other hother => ?_).length_le
  rcases List.mem_cons.mp hother with rfl | hother
  · exact List.mem_filter.mpr ⟨hte, decide_eq_true hpending⟩
  · exact (hrest other hother).2

end AfterCall

variable {ω : Type} {proc : TimeProc ω} {now : Clock} {max_id : Int} {loop : Timers}

theorem timerLoop_skip {before : List AeTimeEvent}
    (hbefore : ∀ te ∈ before, ¬Pending max_id now te) (fuel : Nat) (world : ω)
    (rest : List AeTimeEvent) :
    timerLoop proc now max_id (before.length + fuel) world (before ++ rest) loop =
      timerLoop proc now max_id fuel world rest loop := by
  induction before with
  | nil => rw [List.length_nil, Nat.zero_add, List.nil_append]
  | cons te before ih =>
      have hte := hbefore te List.mem_cons_self
      have hlength : (te :: before).length + fuel = before.length + fuel + 1 := by
        rw [List.length_cons]
        omega
      rw [hlength, List.cons_append, timerLoop]
      by_cases hnew : te.id > max_id
      · rw [if_pos hnew]
        exact ih fun other hother => hbefore other (List.mem_cons_of_mem _ hother)
      · have hdue : ¬due te now = true := fun hdue => hte ⟨Int.not_lt.mp hnew, hdue⟩
        rw [if_neg hnew, if_neg hdue]
        exact ih fun other hother => hbefore other (List.mem_cons_of_mem _ hother)

-- With enough fuel the loop ends: every call leaves fewer pending timers.
theorem timerLoop_dispatches (hproc : proc.Permitted) (h : loop.Numbered)
    (hmax : max_id < loop.time_event_next_id) (world : ω) :
    ∃ bound log loop', Dispatched max_id now loop log loop' ∧ ∀ fuel, bound ≤ fuel →
      timerLoop proc now max_id fuel world loop.time_event_head loop = .ok (log, loop') := by
  obtain ⟨n, hn⟩ : ∃ n, (loop.time_event_head.filter (Pending max_id now ·)).length < n :=
    ⟨_, Nat.lt_succ_self _⟩
  induction n generalizing loop world with
  | zero => exact absurd hn (Nat.not_lt_zero _)
  | succ n ih =>
      cases hfind : loop.time_event_head.find? (Pending max_id now ·) with
      | none =>
          have hnone (te) (hte : te ∈ loop.time_event_head) : ¬Pending max_id now te := by
            simpa using List.find?_eq_none.mp hfind te hte
          refine ⟨loop.time_event_head.length + 1, [], loop, dispatched_nil hnone,
            fun fuel hfuel => ?_⟩
          obtain ⟨k, rfl⟩ : ∃ k, fuel = loop.time_event_head.length + (k + 1) :=
            ⟨fuel - loop.time_event_head.length - 1, by omega⟩
          have hskip := @timerLoop_skip _ proc now max_id loop _ hnone (k + 1) world []
          rwa [List.append_nil] at hskip
      | some te =>
          obtain ⟨hpending, before, after, hhead, hbefore⟩ :=
            List.find?_eq_some_iff_append.mp hfind
          replace hpending : Pending max_id now te := by simpa using hpending
          have hnone (other) (hother : other ∈ before) : ¬Pending max_id now other := by
            simpa using hbefore other hother
          have hte : te ∈ loop.time_event_head := by
            rw [hhead]
            exact List.mem_append_right _ List.mem_cons_self
          have hret := hproc.ret world loop te.id
          have hown := hproc.own world loop te.id
          obtain ⟨call, hcall⟩ : ∃ call, proc world loop te.id = call := ⟨_, rfl⟩
          rw [hcall] at hret hown
          obtain ⟨loop₁, hcalled, hnumbered, hnext, hmem⟩ :=
            @timerCalled_spec loop te h hte (call.check now) hown
          have hfewer := fewer_pending hmax hte hpending hret hnumbered hmem
          obtain ⟨bound, log, loop', hdispatched, hrun⟩ :=
            ih hnumbered (Int.lt_of_lt_of_le hmax hnext) call.world (by omega)
          refine ⟨before.length + (bound + 1), _, loop',
            dispatched_cons hmax hte hpending hret hmem hdispatched, fun fuel hfuel => ?_⟩
          obtain ⟨k, rfl⟩ : ∃ k, fuel = before.length + (k + 1) :=
            ⟨fuel - before.length - 1, by omega⟩
          rw [hhead, timerLoop_skip hnone, timerLoop, if_neg (Int.not_lt.mpr hpending.1),
            if_pos hpending.2]
          simp only [hcall, hcalled, ok_bind, hrun k (by omega)]
          rfl

end Dispatch

-- The timers that are due fire once each, unless a callback deletes them before their
-- turn. A timer that fired is gone or set again, unless a callback deletes it after that.
theorem timers_fire_once {ω : Type} (proc : TimeProc ω) (hproc : proc.Permitted) (now : Clock)
    (loop : Timers) (h : loop.Numbered) (world : ω) :
    ∃ bound log loop',
      (∀ fuel, bound ≤ fuel → fireTimers proc now fuel world loop = .ok (log, loop')) ∧
      (∀ te ∈ loop.time_event_head, due te now = true → ¬DeletedFirst te.id log →
        (log.map Firing.id).count te.id = 1) ∧
      (∀ f ∈ log, ∃ te ∈ loop.time_event_head, te.id = f.id ∧ due te now = true) ∧
      ∀ before f after, log = before ++ f :: after →
        (f.ret = AE_NOMORE → ∀ te ∈ loop'.time_event_head, te.id ≠ f.id) ∧
        (f.ret ≠ AE_NOMORE → ¬Deleted f.id after → ∃ te ∈ loop'.time_event_head,
          te.id = f.id ∧ te.millis = now.millis + f.ret) := by
  obtain ⟨bound, log, loop', hdispatched, hrun⟩ :=
    timerLoop_dispatches hproc h (Int.sub_one_lt_of_le (Int.le_refl loop.time_event_next_id)) world
  refine ⟨bound, log, loop', hrun, fun te hte hdue hnot => ?_, fun f hf => ?_,
    fun before f after hsplit => ⟨fun hret => ?_, fun hret hkept => ?_⟩⟩
  · have hpending : Pending (loop.time_event_next_id - 1) now te :=
      ⟨Int.le_sub_one_of_lt (h.lt_next te hte), hdue⟩
    exact List.count_eq_one_of_mem hdispatched.nodup ((hdispatched.fired te hte hpending).mpr hnot)
  · obtain ⟨te, hte, hid, hpending⟩ := hdispatched.of_pending f hf
    exact ⟨te, hte, hid, hpending.2⟩
  · exact hdispatched.gone before f after hsplit (Or.inl hret)
  · exact hdispatched.set before f after hsplit hret hkept

-- The timers of the calls that asked for a period, whatever the callbacks after them did.
def AllSet (now : Clock) (log : List Firing) (loop' : Timers) : Prop :=
  ∀ f ∈ log, f.ret ≠ AE_NOMORE → ∃ te ∈ loop'.time_event_head,
    te.id = f.id ∧ te.millis = now.millis + f.ret

-- The first timer asks for ten milliseconds, and the second ends itself and the first.
def endingProc : TimeProc Unit := fun _ _ id =>
  if id = 1 then { ops := [], ret := 10, world := () }
  else { ops := [.delete 1], ret := AE_NOMORE, world := () }

def twoTimers : Timers :=
  [TimerOp.create 0 (clockAt 0), .create 0 (clockAt 0)].foldl TimerOp.run aeCreateEventLoop

theorem endingProc_permitted : endingProc.Permitted where
  ret := fun _ _ id => by
    rw [endingProc]
    split_ifs
    · exact Or.inr (by decide)
    · exact Or.inl rfl
  own := fun _ _ id => by
    rw [endingProc]
    split_ifs with hid
    · exact List.not_mem_nil
    · simpa using hid

theorem twoTimers_numbered : twoTimers.Numbered :=
  (numbered_aeCreateEventLoop.ops _).1

theorem timers_fire_once_two :
    ∃ bound log loop',
      (∀ fuel, bound ≤ fuel →
        fireTimers endingProc (clockAt 0) fuel () twoTimers = .ok (log, loop')) ∧
      (∀ te ∈ twoTimers.time_event_head, due te (clockAt 0) = true → ¬DeletedFirst te.id log →
        (log.map Firing.id).count te.id = 1) ∧
      (∀ f ∈ log, ∃ te ∈ twoTimers.time_event_head, te.id = f.id ∧ due te (clockAt 0) = true) ∧
      ∀ before f after, log = before ++ f :: after →
        (f.ret = AE_NOMORE → ∀ te ∈ loop'.time_event_head, te.id ≠ f.id) ∧
        (f.ret ≠ AE_NOMORE → ¬Deleted f.id after → ∃ te ∈ loop'.time_event_head,
          te.id = f.id ∧ te.millis = (clockAt 0).millis + f.ret) :=
  timers_fire_once endingProc endingProc_permitted (clockAt 0) twoTimers twoTimers_numbered ()

-- The first timer asked for a period and is gone.
theorem not_allSet_two :
    ¬∀ (proc : TimeProc Unit) (now : Clock) (loop : Timers) (fuel : Nat) (log : List Firing)
      (loop' : Timers), proc.Permitted → loop.Numbered →
        fireTimers proc now fuel () loop = .ok (log, loop') → AllSet now log loop' := by
  intro hall
  have hrun : fireTimers endingProc (clockAt 0) 4 () twoTimers =
      .ok ([{ id := 1, ops := [], ret := 10 }, { id := 0, ops := [.delete 1], ret := AE_NOMORE }],
        { time_event_next_id := 2, time_event_head := [] }) := rfl
  obtain ⟨te, hte, -⟩ := hall endingProc (clockAt 0) twoTimers 4 _ _ endingProc_permitted
    twoTimers_numbered hrun _ List.mem_cons_self (by decide)
  exact absurd hte List.not_mem_nil

end Timers

end Cutis

import Cutis.Basic
import Cutis.Lib.Runs

namespace Cutis

def AE_NOMORE : Int := -1

structure AeTimeEvent where
  id : Int
  when_sec : Int
  when_ms : Int
deriving DecidableEq, Repr

-- A reading of gettimeofday.
structure Clock where
  tv_sec : Int
  tv_usec : Int
  normal : 0 ≤ tv_usec ∧ tv_usec < 1000000

structure Timeval where
  tv_sec : Int
  tv_usec : Int
deriving DecidableEq, Repr

-- The part of an event loop that its timers are in.
structure Timers where
  time_event_next_id : Int
  time_event_head : List AeTimeEvent
deriving DecidableEq, Repr

def aeGetTime (tv : Clock) : Int × Int := (tv.tv_sec, tv.tv_usec.tdiv 1000)

def aeAddMillisecondsToNow (milliseconds : Int) (tv : Clock) : Int × Int :=
  let (cur_sec, cur_ms) := aeGetTime tv
  let sec := cur_sec + milliseconds.tdiv 1000
  let ms := cur_ms + milliseconds.tmod 1000
  if ms ≥ 1000 then (sec + 1, ms - 1000) else (sec, ms)

def AeTimeEvent.earlier (te nearest : AeTimeEvent) : Prop :=
  te.when_sec < nearest.when_sec ∨
    (te.when_sec = nearest.when_sec ∧ te.when_ms < nearest.when_ms)

instance (te nearest : AeTimeEvent) : Decidable (te.earlier nearest) :=
  inferInstanceAs (Decidable (_ ∨ _))

-- The loop of AeSearchNearestTimer, from a node on.
def searchNearest : Option AeTimeEvent → List AeTimeEvent → Option AeTimeEvent
  | nearest, [] => nearest
  | none, te :: next => searchNearest (some te) next
  | some nearest, te :: next => searchNearest (some (if te.earlier nearest then te else nearest)) next

namespace Timers

variable (loop : Timers)

def aeCreateTimeEvent (milliseconds : Int) (now : Clock) : Timers :=
  let (when_sec, when_ms) := aeAddMillisecondsToNow milliseconds now
  { time_event_next_id := loop.time_event_next_id + 1
    time_event_head :=
      { id := loop.time_event_next_id, when_sec, when_ms } :: loop.time_event_head }

def aeDeleteTimeEvent (id : Int) : Timers :=
  { loop with time_event_head := loop.time_event_head.eraseP fun te => te.id = id }

def aeSearchNearestTimer : Option AeTimeEvent := searchNearest none loop.time_event_head

end Timers

-- The timeout of the call of select, where there is a timer.
def timeoutUntil (shortest : AeTimeEvent) (now : Clock) : Timeval :=
  let (now_sec, now_ms) := aeGetTime now
  if shortest.when_ms < now_ms then
    { tv_sec := shortest.when_sec - now_sec - 1
      tv_usec := (shortest.when_ms + 1000 - now_ms) * 1000 }
  else
    { tv_sec := shortest.when_sec - now_sec
      tv_usec := (shortest.when_ms - now_ms) * 1000 }

-- What select accepts.
def Timeval.Valid (tv : Timeval) : Prop := 0 ≤ tv.tv_sec ∧ 0 ≤ tv.tv_usec ∧ tv.tv_usec < 1000000

instance (tv : Timeval) : Decidable tv.Valid := inferInstanceAs (Decidable (_ ∧ _))

-- What handlers and timer callbacks do to the timers.
inductive TimerOp
  | create (milliseconds : Int) (now : Clock)
  | delete (id : Int)

def TimerOp.run (loop : Timers) : TimerOp → Timers
  | .create milliseconds now => loop.aeCreateTimeEvent milliseconds now
  | .delete id => loop.aeDeleteTimeEvent id

-- One look at a timer: the clock, and where the timer is due what its callback does
-- and returns, and the clock at its new setting.
structure TimerCheck where
  now : Clock
  ops : List TimerOp
  ret : Int
  later : Clock

def due (te : AeTimeEvent) (now : Clock) : Bool :=
  let (now_sec, now_ms) := aeGetTime now
  now_sec > te.when_sec || (now_sec == te.when_sec && now_ms ≥ te.when_ms)

namespace Timers

-- The assignments through te after the callback, which may have freed it.
def setTimer (loop : Timers) (id : Int) (time : Int × Int) : Except Fault Timers :=
  if loop.time_event_head.any (·.id = id) then
    return { loop with
      time_event_head := loop.time_event_head.map fun te =>
        if te.id = id then { te with when_sec := time.1, when_ms := time.2 } else te }
  else throw .useAfterFree

def timerCalled (loop : Timers) (id : Int) (check : TimerCheck) : Except Fault Timers :=
  let loop := check.ops.foldl TimerOp.run loop
  if check.ret ≠ AE_NOMORE then loop.setTimer id (aeAddMillisecondsToNow check.ret check.later)
  else return loop.aeDeleteTimeEvent id

-- The timers set since the loop began are passed over.
def skipNew (max_id : Int) (te : List AeTimeEvent) : List AeTimeEvent :=
  te.dropWhile fun te => te.id > max_id

-- The loop over the timers, from a node on. It ends where no timer is left to look at;
-- a call with no answer for a look does not return.
def processTimeEvents (max_id : Int) :
    List TimerCheck → List AeTimeEvent → Timers → Except Fault Timers
  | [], te, loop => if (skipNew max_id te).isEmpty then return loop else throw .hang
  | check :: checks, te, loop =>
      match skipNew max_id te with
      | [] => return loop
      | te :: next =>
          if due te check.now then do
            let loop ← loop.timerCalled te.id check
            processTimeEvents max_id checks loop.time_event_head loop
          else processTimeEvents max_id checks next loop

-- One call of AeProcessEvents: the clock for the timeout, what the file handlers do to
-- the timers, and the looks at the timers.
structure ProcessCall where
  now : Clock
  handlers : List TimerOp
  checks : List TimerCheck

-- The timeout of its select.
def selectTimeout (loop : Timers) (now : Clock) : Option Timeval :=
  loop.aeSearchNearestTimer.map (timeoutUntil · now)

-- AeProcessEvents with AE_ALL_EVENTS. A select with a timeout it does not accept fails
-- with EINVAL.
def aeProcessEvents (loop : Timers) (call : ProcessCall) : Except Fault Timers :=
  match loop.selectTimeout call.now with
  | some tv =>
      if tv.Valid then next
      else throw .exit
  | none => next
where
  next :=
    let loop := call.handlers.foldl TimerOp.run loop
    processTimeEvents (loop.time_event_next_id - 1) call.checks loop.time_event_head loop

-- The loop of AeCreateEventLoop.
def aeCreateEventLoop : Timers := { time_event_next_id := 0, time_event_head := [] }

end Timers

section Times

-- The time of a reading and of a timer in milliseconds.
def Clock.millis (now : Clock) : Int := (aeGetTime now).1 * 1000 + (aeGetTime now).2

def AeTimeEvent.millis (te : AeTimeEvent) : Int := te.when_sec * 1000 + te.when_ms

-- The clock has gone past the time of a timer.
def Clock.Past (now : Clock) (te : AeTimeEvent) : Prop :=
  te.when_sec < (aeGetTime now).1 ∨
    (te.when_sec = (aeGetTime now).1 ∧ te.when_ms < (aeGetTime now).2)

theorem aeGetTime_ms (now : Clock) : 0 ≤ (aeGetTime now).2 ∧ (aeGetTime now).2 < 1000 := by
  have hnormal := now.normal
  rw [aeGetTime, Int.tdiv_eq_ediv_of_nonneg hnormal.1]
  omega

theorem aeAddMillisecondsToNow_ms (milliseconds : Int) (now : Clock) :
    (aeAddMillisecondsToNow milliseconds now).2 < 1000 := by
  have hms := aeGetTime_ms now
  have hrest := Int.tmod_lt_of_pos milliseconds (by decide : (0 : Int) < 1000)
  simp only [aeAddMillisecondsToNow]
  split_ifs <;> omega

theorem aeAddMillisecondsToNow_nonneg {milliseconds : Int} (h : 0 ≤ milliseconds) (now : Clock) :
    0 ≤ (aeAddMillisecondsToNow milliseconds now).2 := by
  have hms := aeGetTime_ms now
  have hrest := Int.tmod_nonneg 1000 h
  simp only [aeAddMillisecondsToNow]
  split_ifs <;> omega

variable {te : AeTimeEvent} {now : Clock}

theorem timeoutUntil_left :
    (timeoutUntil te now).tv_sec * 1000000 + (timeoutUntil te now).tv_usec =
      1000 * (te.millis - now.millis) := by
  simp only [timeoutUntil, AeTimeEvent.millis, Clock.millis]
  split_ifs
  · dsimp only
    omega
  · dsimp only
    omega

-- Where the borrow leaves a timeout that select accepts.
theorem timeoutUntil_valid (hte : te.when_ms < 1000) :
    (timeoutUntil te now).Valid ↔
      ¬now.Past te ∧ (aeGetTime now).2 ≤ te.when_ms + 1000 := by
  have hms := aeGetTime_ms now
  simp only [timeoutUntil, Timeval.Valid, Clock.Past]
  split_ifs
  · dsimp only
    omega
  · dsimp only
    omega

end Times

section Nearest

theorem not_earlier_trans {a b c : AeTimeEvent} (hab : ¬a.earlier b) (hbc : ¬b.earlier c) :
    ¬a.earlier c := by
  simp only [AeTimeEvent.earlier] at *
  omega

theorem searchNearest_some (nearest : AeTimeEvent) (rest : List AeTimeEvent) :
    ∃ te, searchNearest (some nearest) rest = some te ∧ te ∈ nearest :: rest ∧
      ∀ other ∈ nearest :: rest, ¬other.earlier te := by
  induction rest generalizing nearest with
  | nil =>
      refine ⟨nearest, rfl, List.mem_singleton_self _, fun other hother => ?_⟩
      rw [List.mem_singleton.mp hother, AeTimeEvent.earlier]
      omega
  | cons next rest ih =>
      obtain ⟨te, hte, hmem, hleast⟩ := ih (if next.earlier nearest then next else nearest)
      have hfirst := hleast _ List.mem_cons_self
      have hrest : ∀ other ∈ rest, ¬other.earlier te := fun other hother =>
        hleast other (List.mem_cons_of_mem _ hother)
      refine ⟨te, hte, ?_, ?_⟩
      · split_ifs at hmem
        · exact List.mem_cons_of_mem _ hmem
        · rcases List.mem_cons.mp hmem with rfl | hmem
          · exact List.mem_cons_self
          · exact List.mem_cons_of_mem _ (List.mem_cons_of_mem _ hmem)
      · intro other hother
        have hboth : ¬next.earlier te ∧ ¬nearest.earlier te := by
          split_ifs at hfirst with hearlier
          · refine ⟨hfirst, not_earlier_trans ?_ hfirst⟩
            simp only [AeTimeEvent.earlier] at *
            omega
          · exact ⟨not_earlier_trans hearlier hfirst, hfirst⟩
        rcases List.mem_cons.mp hother with rfl | hother
        · exact hboth.2
        · rcases List.mem_cons.mp hother with rfl | hother
          · exact hboth.1
          · exact hrest other hother

namespace Timers

variable {loop : Timers}

-- No timer comes before it.
def Nearest (loop : Timers) (te : AeTimeEvent) : Prop :=
  te ∈ loop.time_event_head ∧ ∀ other ∈ loop.time_event_head, ¬other.earlier te

theorem aeSearchNearestTimer_nearest {te : AeTimeEvent} (h : loop.aeSearchNearestTimer = some te) :
    loop.Nearest te := by
  rw [aeSearchNearestTimer] at h
  cases hhead : loop.time_event_head with
  | nil =>
      rw [hhead] at h
      cases h
  | cons first rest =>
      obtain ⟨te', hte', hmem, hleast⟩ := searchNearest_some first rest
      rw [hhead, searchNearest, hte'] at h
      obtain rfl := Option.some.inj h
      rw [Nearest, hhead]
      exact ⟨hmem, hleast⟩

theorem aeSearchNearestTimer_of_nearest {te : AeTimeEvent} (h : loop.Nearest te) :
    ∃ te', loop.aeSearchNearestTimer = some te' ∧ te'.when_sec = te.when_sec ∧
      te'.when_ms = te.when_ms := by
  obtain ⟨hmem, hleast⟩ := h
  cases hhead : loop.time_event_head with
  | nil =>
      rw [hhead] at hmem
      cases hmem
  | cons first rest =>
      obtain ⟨te', hte', hmem', hleast'⟩ := searchNearest_some first rest
      rw [hhead] at hmem hleast
      have hle := hleast te' hmem'
      have hle' := hleast' te hmem
      simp only [AeTimeEvent.earlier] at hle hle'
      refine ⟨te', ?_, by omega, by omega⟩
      rw [aeSearchNearestTimer, hhead]
      exact hte'

theorem exists_nearest {te : AeTimeEvent} (h : te ∈ loop.time_event_head) :
    ∃ nearest, loop.Nearest nearest := by
  cases hhead : loop.time_event_head with
  | nil =>
      rw [hhead] at h
      cases h
  | cons first rest =>
      obtain ⟨nearest, -, hmem, hleast⟩ := searchNearest_some first rest
      refine ⟨nearest, ?_⟩
      rw [Nearest, hhead]
      exact ⟨hmem, hleast⟩

-- The timeout that select gets is one it accepts, and is what is left until the nearest
-- timer.
structure Right (loop : Timers) (now : Clock) (tv : Timeval) : Prop where
  valid : tv.Valid
  left : ∀ te, loop.Nearest te →
    tv.tv_sec * 1000000 + tv.tv_usec = 1000 * (te.millis - now.millis)

def TimeoutRight (loop : Timers) (call : ProcessCall) : Prop :=
  ∀ tv, loop.selectTimeout call.now = some tv → loop.Right call.now tv

-- The clock has not gone past the nearest timer; its milliseconds fit a borrow of one
-- second.
def InTime (loop : Timers) (call : ProcessCall) : Prop :=
  ∀ te, loop.Nearest te →
    ¬call.now.Past te ∧ (aeGetTime call.now).2 ≤ te.when_ms + 1000

-- The clock has not gone past any timer.
def NonePast (loop : Timers) (call : ProcessCall) : Prop :=
  ∀ te ∈ loop.time_event_head, ¬call.now.Past te

-- The times the timers are set to.
def Times (T : Int × Int → Prop) (loop : Timers) : Prop :=
  ∀ te ∈ loop.time_event_head, T (te.when_sec, te.when_ms)

theorem timeoutRight_iff (h : loop.Times (·.2 < 1000)) (call : ProcessCall) :
    loop.TimeoutRight call ↔ loop.InTime call := by
  constructor
  · intro hright te hte
    obtain ⟨te', hsearch, hsec, hms⟩ := aeSearchNearestTimer_of_nearest hte
    have htv : loop.selectTimeout call.now = some (timeoutUntil te' call.now) := by
      rw [selectTimeout, hsearch]
      rfl
    have hnear := aeSearchNearestTimer_nearest hsearch
    have hvalid := (timeoutUntil_valid (h te' hnear.1)).mp (hright _ htv).valid
    rwa [Clock.Past, hsec, hms] at hvalid
  · intro hin tv htv
    obtain ⟨te, hsearch, rfl⟩ := Option.map_eq_some_iff.mp htv
    have hnear := aeSearchNearestTimer_nearest hsearch
    refine ⟨(timeoutUntil_valid (h te hnear.1)).mpr (hin te hnear), fun other hother => ?_⟩
    obtain ⟨te', hsearch', hsec, hms⟩ := aeSearchNearestTimer_of_nearest hother
    obtain rfl := Option.some.inj (hsearch.symm.trans hsearch')
    rw [timeoutUntil_left, AeTimeEvent.millis, AeTimeEvent.millis, hsec, hms]

theorem inTime_iff (h : loop.Times (0 ≤ ·.2)) (call : ProcessCall) :
    loop.InTime call ↔ loop.NonePast call := by
  have hms := aeGetTime_ms call.now
  constructor
  · intro hin te hte hpast
    obtain ⟨nearest, hnear⟩ := exists_nearest hte
    have hearlier := hnear.2 te hte
    refine (hin nearest hnear).1 ?_
    simp only [AeTimeEvent.earlier, Clock.Past] at hearlier hpast ⊢
    omega
  · intro hnone te hte
    have hpos : 0 ≤ te.when_ms := h te hte.1
    exact ⟨hnone te hte.1, by omega⟩

end Timers

end Nearest

section Keeps

namespace Timers

variable {I : Timers → Prop} {C : TimerCheck → Prop} {loop loop' : Timers}

-- What the calls of the timers keep, the loop over the timers keeps.
theorem processTimeEvents_keeps
    (hcalled : ∀ loop loop' id check, I loop → C check → loop.timerCalled id check = .ok loop' →
      I loop') {max_id : Int} {checks : List TimerCheck} {te : List AeTimeEvent} (h : I loop)
    (hchecks : ∀ check ∈ checks, C check)
    (hprocess : processTimeEvents max_id checks te loop = .ok loop') : I loop' := by
  induction checks generalizing te loop with
  | nil =>
      rw [processTimeEvents] at hprocess
      split_ifs at hprocess
      obtain rfl := Except.ok.inj hprocess
      exact h
  | cons check checks ih =>
      have hrest : ∀ check ∈ checks, C check := fun check' hcheck =>
        hchecks check' (List.mem_cons_of_mem _ hcheck)
      rw [processTimeEvents] at hprocess
      split at hprocess
      · obtain rfl := Except.ok.inj hprocess
        exact h
      · split_ifs at hprocess
        · obtain ⟨called, hcall, hprocess⟩ := bind_eq_ok.mp hprocess
          exact ih (hcalled _ _ _ _ h (hchecks _ List.mem_cons_self) hcall) hrest hprocess
        · exact ih h hrest hprocess

theorem aeProcessEvents_keeps
    (hcalled : ∀ loop loop' id check, I loop → C check → loop.timerCalled id check = .ok loop' →
      I loop') {call : ProcessCall} (h : I (call.handlers.foldl TimerOp.run loop))
    (hchecks : ∀ check ∈ call.checks, C check) (hprocess : loop.aeProcessEvents call = .ok loop') :
    I loop' := by
  have hnext : ∀ result, aeProcessEvents.next loop call = result → result = .ok loop' →
      I loop' := by
    rintro result rfl hresult
    exact processTimeEvents_keeps hcalled h hchecks hresult
  rw [aeProcessEvents] at hprocess
  split at hprocess
  · split_ifs at hprocess
    exact hnext _ rfl hprocess
  · exact hnext _ rfl hprocess

end Timers

end Keeps

section Runs

variable {D : Int → Prop} {T : Int × Int → Prop}

-- The delays a timer is set with.
def TimerOp.Delays (D : Int → Prop) : TimerOp → Prop
  | .create milliseconds _ => D milliseconds
  | .delete _ => True

structure TimerCheck.Delays (D : Int → Prop) (check : TimerCheck) : Prop where
  ops : ∀ op ∈ check.ops, op.Delays D
  ret : check.ret ≠ AE_NOMORE → D check.ret

structure Timers.ProcessCall.Delays (D : Int → Prop) (call : Timers.ProcessCall) : Prop where
  handlers : ∀ op ∈ call.handlers, op.Delays D
  checks : ∀ check ∈ call.checks, check.Delays D

namespace Timers

variable (hset : ∀ milliseconds now, D milliseconds → T (aeAddMillisecondsToNow milliseconds now))
  {loop : Timers}

theorem times_delete (h : loop.Times T) (id : Int) : (loop.aeDeleteTimeEvent id).Times T :=
  fun te hte => h te (List.mem_of_mem_eraseP hte)

include hset

theorem times_run (h : loop.Times T) {op : TimerOp} (hop : op.Delays D) :
    (op.run loop).Times T := by
  cases op with
  | create milliseconds now =>
      intro te hte
      rcases List.mem_cons.mp hte with rfl | hte
      · exact hset milliseconds now hop
      · exact h te hte
  | delete id => exact times_delete h id

theorem times_ops {ops : List TimerOp} (h : loop.Times T) (hops : ∀ op ∈ ops, op.Delays D) :
    (ops.foldl TimerOp.run loop).Times T := by
  induction ops generalizing loop with
  | nil => exact h
  | cons op ops ih =>
      exact ih (times_run hset h (hops op List.mem_cons_self)) fun op' hop =>
        hops op' (List.mem_cons_of_mem _ hop)

theorem times_called (h : loop.Times T) {id : Int} {check : TimerCheck} (hcheck : check.Delays D)
    {loop' : Timers} (hcalled : loop.timerCalled id check = .ok loop') : loop'.Times T := by
  have hops := times_ops hset h hcheck.ops
  rw [timerCalled] at hcalled
  split_ifs at hcalled with hret
  · rw [setTimer] at hcalled
    split_ifs at hcalled
    obtain rfl := Except.ok.inj hcalled
    intro te hte
    obtain ⟨old, hold, rfl⟩ := List.mem_map.mp hte
    split_ifs
    · exact hset check.ret check.later (hcheck.ret hret)
    · exact hops old hold
  · obtain rfl := Except.ok.inj hcalled
    exact times_delete hops id

theorem times_aeProcessEvents (h : loop.Times T) {call : ProcessCall} (hcall : call.Delays D)
    {loop' : Timers} (hprocess : loop.aeProcessEvents call = .ok loop') : loop'.Times T :=
  aeProcessEvents_keeps (fun _ _ _ _ h hcheck hcalled => times_called hset h hcheck hcalled)
    (times_ops hset h hcall.handlers) hcall.checks hprocess

end Timers

end Runs

-- The timeouts of a run are right exactly where no reading for one comes too late. With
-- no negative delays that is a reading past the time of some timer.
theorem timeouts_right_iff (setup : List TimerOp) (calls : List Timers.ProcessCall) :
    (Runs.Always Timers.aeProcessEvents Timers.TimeoutRight
        (setup.foldl TimerOp.run Timers.aeCreateEventLoop) calls ↔
      Runs.Always Timers.aeProcessEvents Timers.InTime
        (setup.foldl TimerOp.run Timers.aeCreateEventLoop) calls) ∧
    ((∀ op ∈ setup, op.Delays (0 ≤ ·)) → (∀ call ∈ calls, call.Delays (0 ≤ ·)) →
      (Runs.Always Timers.aeProcessEvents Timers.TimeoutRight
          (setup.foldl TimerOp.run Timers.aeCreateEventLoop) calls ↔
        Runs.Always Timers.aeProcessEvents Timers.NonePast
          (setup.foldl TimerOp.run Timers.aeCreateEventLoop) calls)) := by
  have hms : ∀ milliseconds now, True → (aeAddMillisecondsToNow milliseconds now).2 < 1000 :=
    fun milliseconds now _ => aeAddMillisecondsToNow_ms milliseconds now
  have hpos : ∀ milliseconds now, 0 ≤ milliseconds →
      0 ≤ (aeAddMillisecondsToNow milliseconds now).2 :=
    fun _ now h => aeAddMillisecondsToNow_nonneg h now
  have hops : ∀ op : TimerOp, op.Delays fun _ => True := by
    intro op
    cases op <;> trivial
  have hany : ∀ call : Timers.ProcessCall, call.Delays fun _ => True := fun call =>
    ⟨fun op _ => hops op, fun _ _ => ⟨fun op _ => hops op, fun _ => trivial⟩⟩
  have hempty {T : Int × Int → Prop} : Timers.aeCreateEventLoop.Times T := nofun
  have hstart : (setup.foldl TimerOp.run Timers.aeCreateEventLoop).Times (·.2 < 1000) :=
    Timers.times_ops hms hempty fun op _ => hops op
  have hall := Runs.always_iff (I := fun loop => loop.Times (·.2 < 1000))
    (fun _ call _ h (_ : True) hact => Timers.times_aeProcessEvents hms h (hany call) hact)
    (fun _ call h _ => Timers.timeoutRight_iff h call) calls _ hstart fun _ _ => trivial
  refine ⟨hall, fun hsetup hcalls => hall.trans ?_⟩
  exact Runs.always_iff (I := fun loop => loop.Times (0 ≤ ·.2))
    (fun _ _ _ h hcall hact => Timers.times_aeProcessEvents hpos h hcall hact)
    (fun _ call h _ => Timers.inTime_iff h call) calls _ (Timers.times_ops hpos hempty hsetup) hcalls

def clockAt (tv_sec : Nat) : Clock := ⟨tv_sec, 0, by decide⟩

-- The timer of the server, which is set before the databases are loaded.
def serverTimer : List TimerOp := [.create 1000 (clockAt 0)]

def firstCall (now : Clock) : Timers.ProcessCall where
  now
  handlers := []
  checks := [{ now, ops := [], ret := 1000, later := now }]

theorem timeouts_right_in_time :
    Runs.Always Timers.aeProcessEvents Timers.TimeoutRight
      (serverTimer.foldl TimerOp.run Timers.aeCreateEventLoop) [firstCall (clockAt 1)] := by
  have hiff := (timeouts_right_iff serverTimer [firstCall (clockAt 1)]).2
    (by simp [serverTimer, TimerOp.Delays]) fun call hcall => by
      obtain rfl := List.mem_singleton.mp hcall
      refine ⟨fun _ hop => absurd hop List.not_mem_nil, fun check hcheck => ?_⟩
      obtain rfl := List.mem_singleton.mp hcheck
      exact ⟨fun _ hop => absurd hop List.not_mem_nil, fun _ => Int.natCast_nonneg 1000⟩
  refine hiff.mpr ⟨fun te hte => ?_, fun _ _ => trivial⟩
  obtain rfl := List.mem_singleton.mp hte
  simp only [Clock.Past]
  decide

-- The load took more than a second: the clock is past the timer at the first select, and
-- the server exits.
theorem not_timeouts_right_late :
    ¬Runs.Always Timers.aeProcessEvents Timers.TimeoutRight
        (serverTimer.foldl TimerOp.run Timers.aeCreateEventLoop) [firstCall (clockAt 2)] ∧
      Timers.aeProcessEvents (serverTimer.foldl TimerOp.run Timers.aeCreateEventLoop)
        (firstCall (clockAt 2)) = .error .exit := by
  refine ⟨fun h => ?_, by rfl⟩
  have hvalid := (h.1 { tv_sec := -1, tv_usec := 0 } (by decide)).valid
  exact absurd hvalid (by decide)

end Cutis

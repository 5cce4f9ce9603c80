import Mathlib.Data.List.Basic
import Mathlib.Tactic.SplitIfs

namespace Cutis

def AE_READABLE : Nat := 1
def AE_WRITABLE : Nat := 2

inductive AeFileProc
  | AcceptHandler
  | ReadQueryFromClient
  | SendReplyToClient
deriving DecidableEq, Repr

structure AeFileEvent where
  fd : Int
  mask : Nat
  file_proc : AeFileProc
deriving DecidableEq, Repr

-- The search of AeCreateFileEvent, which changes an event that it finds.
def aeChangeFileEvent (fd : Int) (mask : Nat) (proc : AeFileProc) :
    List AeFileEvent → Option (List AeFileEvent)
  | [] => none
  | fe :: rest =>
      if fe.fd = fd ∧ fe.mask &&& mask ≠ 0 then some ({ fe with file_proc := proc } :: rest)
      else (aeChangeFileEvent fd mask proc rest).map (fe :: ·)

-- The list of an event loop starts at file_event_head.
def aeCreateFileEvent (events : List AeFileEvent) (fd : Int) (mask : Nat) (proc : AeFileProc) :
    List AeFileEvent :=
  (aeChangeFileEvent fd mask proc events).getD ({ fd, mask, file_proc := proc } :: events)

def aeDeleteFileEvent (events : List AeFileEvent) (fd : Int) (mask : Nat) : List AeFileEvent :=
  events.eraseP fun fe => fe.fd = fd ∧ fe.mask = mask

-- The events of one file.
def eventsOf (events : List AeFileEvent) (fd : Int) : List AeFileEvent :=
  events.filter fun fe => fe.fd = fd

section Lemmas

variable {events : List AeFileEvent} {fd other : Int} {mask : Nat} {proc : AeFileProc}

theorem aeChangeFileEvent_eq_none
    (h : ∀ fe ∈ eventsOf events fd, fe.mask &&& mask = 0) :
    aeChangeFileEvent fd mask proc events = none := by
  induction events with
  | nil => rfl
  | cons fe rest ih =>
      have hrest : ∀ fe ∈ eventsOf rest fd, fe.mask &&& mask = 0 := by
        intro fe' hfe'
        obtain ⟨hmem, hfd⟩ := List.mem_filter.mp hfe'
        exact h fe' (List.mem_filter.mpr ⟨List.mem_cons_of_mem _ hmem, hfd⟩)
      have hhead : ¬(fe.fd = fd ∧ fe.mask &&& mask ≠ 0) := by
        rintro ⟨hfd, hmask⟩
        exact hmask (h fe (List.mem_filter.mpr ⟨List.mem_cons_self, by simpa using hfd⟩))
      rw [aeChangeFileEvent, if_neg hhead, ih hrest]
      rfl

theorem eventsOf_create_new (h : ∀ fe ∈ eventsOf events fd, fe.mask &&& mask = 0) :
    eventsOf (aeCreateFileEvent events fd mask proc) fd =
      { fd, mask, file_proc := proc } :: eventsOf events fd := by
  rw [aeCreateFileEvent, aeChangeFileEvent_eq_none h, Option.getD_none, eventsOf,
    List.filter_cons_of_pos (by simp), eventsOf]

theorem eventsOf_change_other (hfd : other ≠ fd) {changed : List AeFileEvent}
    (h : aeChangeFileEvent other mask proc events = some changed) :
    eventsOf changed fd = eventsOf events fd := by
  induction events generalizing changed with
  | nil => cases h
  | cons fe rest ih =>
      rw [aeChangeFileEvent] at h
      split_ifs at h with hfe
      · obtain rfl := Option.some.inj h
        have hne : fe.fd ≠ fd := fun heq => hfd (hfe.1.symm.trans heq)
        simp [eventsOf, hne]
      · obtain ⟨rest', hrest, rfl⟩ := Option.map_eq_some_iff.mp h
        have ih := ih hrest
        simp only [eventsOf] at ih ⊢
        rw [List.filter_cons, List.filter_cons, ih]

-- The events of other files stay.
theorem eventsOf_create_other (hfd : other ≠ fd) :
    eventsOf (aeCreateFileEvent events other mask proc) fd = eventsOf events fd := by
  rw [aeCreateFileEvent]
  cases h : aeChangeFileEvent other mask proc events with
  | none => simp [eventsOf, hfd]
  | some changed => exact eventsOf_change_other hfd h

theorem eventsOf_delete :
    eventsOf (aeDeleteFileEvent events fd mask) fd =
      (eventsOf events fd).eraseP fun fe => fe.mask = mask := by
  induction events with
  | nil => rfl
  | cons fe rest ih =>
      simp only [eventsOf, aeDeleteFileEvent] at ih ⊢
      by_cases hfd : fe.fd = fd
      · by_cases hmask : fe.mask = mask
        · simp [hfd, hmask]
        · simpa [hfd, hmask] using ih
      · simpa [hfd] using ih

theorem eventsOf_delete_other (hfd : other ≠ fd) :
    eventsOf (aeDeleteFileEvent events other mask) fd = eventsOf events fd := by
  induction events with
  | nil => rfl
  | cons fe rest ih =>
      simp only [eventsOf, aeDeleteFileEvent] at ih ⊢
      by_cases hfe : fe.fd = other ∧ fe.mask = mask
      · have hne : fe.fd ≠ fd := fun heq => hfd (hfe.1.symm.trans heq)
        simp [hfe.1, hfe.2, hfd]
      · rw [List.eraseP_cons_of_neg (by simpa using hfe), List.filter_cons, List.filter_cons, ih]

end Lemmas

end Cutis

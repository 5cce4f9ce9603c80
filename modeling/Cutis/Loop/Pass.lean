import Cutis.Event.Dispatch
import Cutis.Loop.Reached

namespace Cutis

variable {ι : Type} [DecidableEq ι]

namespace Loop

variable {σ : Loop ι} {m : Maps ι}

-- The server in a pass over its file events, with the number of the calls so far. The system
-- answers the calls of the handlers by their number.
def program (io : Nat → HandlerIo ι) : Program (Loop ι × Nat) (FileEvent ι) where
  events s := s.1.events
  plain := FileEvent.plain
  file_proc s fe _ := do return (← s.1.fire fe (io s.2), s.2 + 1)

-- What the system answers to the handler of an event.
def IoOk (σ : Loop ι) (fe : FileEvent ι) (io : HandlerIo ι) : Prop :=
  (∀ i fd node, io.accepted = some (i, fd, node) → σ.AcceptOk i fd node) ∧
    (∀ i c, fe.client_data = some i → (σ.serving.links i).query = some c →
      Serving.ReadOk c io.nread) ∧ ∀ k dv, ((io.os k).qsort dv).Perm dv

variable {io : Nat → HandlerIo ι} {s last : Loop ι × Nat}
  {calls : List (HandlerCall (Loop ι × Nat) (FileEvent ι))}

-- Its calls are steps of the event loop.
theorem follows_reached (hfollows : (program io).Follows s calls last) (h : Reached m s.1)
    (hregistered : ∀ call ∈ calls, call.fe ∈ call.state.1.events)
    (hio : ∀ call ∈ calls, call.state.1.IoOk call.fe (io call.state.2)) : Reached m last.1 := by
  induction hfollows with
  | nil => exact h
  | @cons s s' last fe mask calls hproc _ ih =>
      obtain ⟨hmem, hregistered⟩ := List.forall_mem_cons.mp hregistered
      obtain ⟨hfe, hio⟩ := List.forall_mem_cons.mp hio
      obtain ⟨σ', hfire, hproc⟩ := bind_eq_ok.mp hproc
      cases hproc
      exact ih (Runs.Reach.step (a := LoopEvent.fire fe (io s.2)) h ⟨hmem, hfe⟩ hfire)
        hregistered hio

-- A pass over the file events of the server makes the right calls, and takes it from a state
-- that its event loop reaches to another one.
theorem processFileEvents_reached {fuel : Nat} {ready : FdSets} (h : Reached m σ)
    (hpass : (program io).processFileEvents fuel ready (σ, 0) = .ok (calls, last))
    (hio : ∀ call ∈ calls, call.state.1.IoOk call.fe (io call.state.2)) :
    (∃ sets, FdSets.fill (σ.events.map FileEvent.plain) = .ok sets ∧
      (program io).Right (sets.select ready) (σ, 0) calls last) ∧ Reached m last.1 := by
  obtain ⟨sets, hfill, hright⟩ := Program.right_of_processFileEvents hpass
  exact ⟨⟨sets, hfill, hright⟩, follows_reached hright.follows h hright.registered hio⟩

-- What select is called for: the listening socket and the connections that are open.
theorem bounded_iff (h : Reached m σ) (hfit : ListingsFit σ.serving.served) (n : Nat) :
    (program io).Bounded (σ, n) ↔
      InSet σ.fd ∧ ∀ i, (σ.serving.links i).query ≠ none → InSet (σ.client_fd i) := by
  obtain ⟨xs, hinv⟩ := h.inv hfit
  have hevents := hinv.wired.events
  constructor
  · intro hbounded
    refine ⟨hbounded _ ((hevents _).mpr (Or.inl rfl)) (Or.inl ?_), fun i hopen => ?_⟩
    · exact (by decide : AE_READABLE &&& AE_READABLE ≠ 0)
    · exact hbounded (FileEvent.readEvent (σ.client_fd i) i)
        ((hevents _).mpr (Or.inr ⟨i, (hinv.opens i).mpr hopen, Or.inl rfl⟩))
        (Or.inl (by decide : AE_READABLE &&& AE_READABLE ≠ 0))
  · rintro ⟨hlisten, hopen⟩ fe hfe -
    rcases (hevents fe).mp hfe with rfl | ⟨i, hi, hown⟩
    · exact hlisten
    · have hfd := hopen i ((hinv.opens i).mp hi)
      rcases hown with rfl | ⟨-, rfl⟩
      · exact hfd
      · exact hfd

end Loop

end Cutis

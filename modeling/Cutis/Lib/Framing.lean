import Cutis.Lib.Runs
import Mathlib.Logic.Function.Basic

namespace Framing

variable {μ β σ ο ε ι : Type*}

-- Messages sent one after the other.
def stream (encode : μ → List β) (ms : List μ) : List β := ms.flatMap encode

-- The messages that lie within the first n bytes of their stream.
def delivered (encode : μ → List β) : List μ → Nat → List μ
  | [], _ => []
  | m :: rest, n =>
      if (encode m).length ≤ n then m :: delivered encode rest (n - (encode m).length) else []

section Delivered

variable (encode : μ → List β)

@[simp] theorem stream_nil : stream encode [] = [] := rfl

@[simp] theorem stream_cons (m : μ) (rest : List μ) :
    stream encode (m :: rest) = encode m ++ stream encode rest := rfl

theorem stream_append (first rest : List μ) :
    stream encode (first ++ rest) = stream encode first ++ stream encode rest :=
  List.flatMap_append

theorem delivered_append (first rest : List μ) (n : Nat) :
    delivered encode (first ++ rest) ((stream encode first).length + n) =
      first ++ delivered encode rest n := by
  induction first with
  | nil => simp
  | cons m first ih =>
      have hle : (encode m).length ≤ (stream encode (m :: first)).length + n := by
        simp only [stream_cons, List.length_append]
        omega
      have hsub : (stream encode (m :: first)).length + n - (encode m).length =
          (stream encode first).length + n := by
        simp only [stream_cons, List.length_append]
        omega
      rw [List.cons_append, delivered, if_pos hle, hsub, ih, List.cons_append]

theorem delivered_initial (ms : List μ) (n : Nat) : delivered encode ms n <+: ms := by
  induction ms generalizing n with
  | nil => exact List.prefix_rfl
  | cons m rest ih =>
      rw [delivered]
      split_ifs
      · exact List.prefix_cons_inj m |>.mpr (ih _)
      · exact List.nil_prefix

-- The first message is still to be completed by the unread bytes.
def Incomplete (rest : List μ) (unread : List β) : Prop :=
  (unread.length ≤ (stream encode rest).length) ∧
    ∀ m tail, rest = m :: tail → (stream encode tail).length < unread.length

theorem eq_nil_of_incomplete {rest : List μ} (h : Incomplete encode rest ([] : List β)) :
    rest = [] := by
  cases rest with
  | nil => rfl
  | cons m tail => exact absurd (h.2 m tail rfl) (Nat.not_lt_zero _)

theorem delivered_eq_nil {rest : List μ} {unread : List β} (h : Incomplete encode rest unread) :
    delivered encode rest ((stream encode rest).length - unread.length) = [] := by
  cases rest with
  | nil => rfl
  | cons m tail =>
      have hlt := h.2 m tail rfl
      have hle := h.1
      rw [delivered, if_neg]
      simp only [stream_cons, List.length_append] at hle ⊢
      omega

end Delivered

section Interleaving

variable [DecidableEq ι]

-- What one party gets of a list of reads.
def readBy (i : ι) (reads : List (ι × List β)) : List β :=
  reads.flatMap fun read => if read.1 = i then read.2 else []

-- What one party puts out during the reads.
def outputBy (i : ι) (log : List ((ι × List β) × List ο)) : List ο :=
  log.flatMap fun entry => if entry.1.1 = i then entry.2 else []

-- A read moves the party it is addressed to.
def sessionStep (step : σ → List β → Except ε (σ × List ο)) (s : ι → σ) (read : ι × List β) :
    Except ε ((ι → σ) × List ο) :=
  (step (s read.1) read.2).map fun next => (Function.update s read.1 next.1, next.2)

variable {encode : μ → List β} {step : σ → List β → Except ε (σ × List ο)} {call : μ → ο}
  {Waiting : List μ → List β → σ → Prop} {Chunk : List β → Prop}

omit [DecidableEq ι] in
-- Reads that need not be all there is to come put out the messages they complete.
theorem run_delivered
    (hstep : ∀ rest chunk unread s, Chunk chunk → Waiting rest (chunk ++ unread) s →
      ∃ fin rest' s', step s chunk = .ok (s', fin.map call) ∧ rest = fin ++ rest' ∧
        Waiting rest' unread s')
    (reads : List (List β)) (hchunks : ∀ chunk ∈ reads, Chunk chunk) (s : σ) (rest : List μ)
    (unread : List β) (hwaiting : Waiting rest (reads.flatten ++ unread) s) :
    ∃ fin rest' s' log, Runs.run step s reads = .ok (s', log) ∧ log.flatten = fin.map call ∧
      rest = fin ++ rest' ∧ Waiting rest' unread s' := by
  induction reads generalizing s rest with
  | nil => exact ⟨[], rest, s, [], rfl, rfl, rfl, hwaiting⟩
  | cons chunk reads ih =>
      rw [List.flatten_cons, List.append_assoc] at hwaiting
      obtain ⟨fin, rest', s', hread, rfl, hwaiting'⟩ :=
        hstep rest chunk _ s (hchunks chunk List.mem_cons_self) hwaiting
      obtain ⟨more, rest'', s'', log, hrun, hlog, rfl, hlast⟩ :=
        ih (fun buf hbuf => hchunks buf (List.mem_cons_of_mem _ hbuf)) s' rest' hwaiting'
      refine ⟨fin ++ more, rest'', s'', fin.map call :: log, ?_, ?_, ?_, hlast⟩
      · simp only [Runs.run, hread, Except.bind, hrun]
      · rw [List.flatten_cons, hlog, List.map_append]
      · rw [List.append_assoc]

-- The messages that are complete once a part of the stream is read.
theorem delivered_of_incomplete {fin rest : List μ} {before unread : List β}
    (h : before ++ unread = stream encode (fin ++ rest)) (hrest : Incomplete encode rest unread) :
    delivered encode (fin ++ rest) before.length = fin := by
  have hlen := congrArg List.length h
  rw [stream_append, List.length_append, List.length_append] at hlen
  have hle := hrest.1
  have hcount : before.length =
      (stream encode fin).length + ((stream encode rest).length - unread.length) := by omega
  rw [hcount, delivered_append, delivered_eq_nil encode hrest, List.append_nil]

-- A decoder that keeps its waiting state from one read to the next puts out each
-- message at the read that completes it, however the streams are cut and mixed.
theorem run_session
    (hstep : ∀ rest chunk unread s, Chunk chunk → Waiting rest (chunk ++ unread) s →
      ∃ fin rest' s', step s chunk = .ok (s', fin.map call) ∧ rest = fin ++ rest' ∧
        Waiting rest' unread s')
    (hincomplete : ∀ rest unread s, Waiting rest unread s → Incomplete encode rest unread)
    (reads : List (ι × List β)) (hchunks : ∀ read ∈ reads, Chunk read.2) (s : ι → σ)
    (rest : ι → List μ) (unread : ι → List β) (hwaiting : ∀ i, Waiting (rest i) (unread i) (s i))
    (hreads : ∀ i, readBy i reads = unread i) :
    ∃ s' log, Runs.run (sessionStep step) s reads = .ok (s', log) ∧ log.length = reads.length ∧
      (∀ i, Waiting [] [] (s' i)) ∧
      ∀ k i, outputBy i ((reads.zip log).take k) =
        (delivered encode (rest i) ((stream encode (rest i)).length - (unread i).length +
          (readBy i (reads.take k)).length)).map call := by
  induction reads generalizing s rest unread with
  | nil =>
      refine ⟨s, [], rfl, rfl, fun i => ?_, fun k i => ?_⟩
      · have hnil : unread i = [] := (hreads i).symm
        have hi := hnil ▸ hwaiting i
        rwa [eq_nil_of_incomplete encode (hincomplete _ _ _ hi)] at hi
      · have hnone := delivered_eq_nil encode (hincomplete _ _ _ (hwaiting i))
        simp [outputBy, readBy, hnone]
  | cons read reads ih =>
      obtain ⟨j, chunk⟩ := read
      have hsplit : unread j = chunk ++ readBy j reads := by
        rw [← hreads j]
        simp [readBy]
      have hother (i : ι) (hi : i ≠ j) : readBy i reads = unread i := by
        rw [← hreads i]
        simp [readBy, Ne.symm hi]
      obtain ⟨fin, restj, sj, hread, hrest, hj⟩ := hstep (rest j) chunk (readBy j reads) (s j)
        (hchunks (j, chunk) (by simp)) (hsplit ▸ hwaiting j)
      obtain ⟨s', log, hrun, hlen, hfinal, hlog⟩ := ih
        (fun read hmem => hchunks read (by simp [hmem])) (Function.update s j sj)
        (Function.update rest j restj) (Function.update unread j (readBy j reads))
        (fun i => by
          by_cases hi : i = j
          · subst hi
            simpa using hj
          · simpa [Function.update_of_ne hi] using hwaiting i)
        (fun i => by
          by_cases hi : i = j
          · subst hi
            simp
          · simpa [Function.update_of_ne hi] using hother i hi)
      refine ⟨s', fin.map call :: log, ?_, by simp [hlen], hfinal, fun k i => ?_⟩
      · have hone : sessionStep step s (j, chunk) =
            .ok (Function.update s j sj, fin.map call) := by
          rw [sessionStep, hread]
          rfl
        simp only [Runs.run, hone, Except.bind, hrun]
      · cases k with
        | zero =>
            have hnone := delivered_eq_nil encode (hincomplete _ _ _ (hwaiting i))
            simp [outputBy, readBy, hnone]
        | succ k =>
            have hk := hlog k i
            rw [List.zip_cons_cons, List.take_succ_cons, List.take_succ_cons]
            by_cases hi : i = j
            · subst hi
              have hle := (hincomplete _ _ _ hj).1
              have hcount : (stream encode (rest i)).length - (unread i).length +
                  (readBy i ((i, chunk) :: reads.take k)).length =
                    (stream encode fin).length + ((stream encode restj).length -
                      (readBy i reads).length + (readBy i (reads.take k)).length) := by
                have hbefore := (hincomplete _ _ _ (hwaiting i)).1
                rw [hrest, stream_append, hsplit] at hbefore ⊢
                simp only [readBy, List.flatMap_cons, if_true, List.length_append] at hbefore hle ⊢
                omega
              rw [hcount, hrest, delivered_append, List.map_append]
              simp only [Function.update_self] at hk
              rw [← hk]
              simp [outputBy]
            · simp only [Function.update_of_ne hi] at hk
              simpa [outputBy, readBy, Ne.symm hi] using hk

end Interleaving

end Framing

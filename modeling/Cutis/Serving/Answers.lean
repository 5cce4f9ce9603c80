import Cutis.Serving.Order
import Cutis.System.Calls

namespace Cutis

open Framing History

variable {ι : Type} [DecidableEq ι]

namespace Serving

section Runs

-- No client has been accepted yet.
structure Start (σ : Serving ι) : Prop where
  system : σ.system.Start
  clients : ∀ i, σ.system.clients i = ⟨0, [], []⟩
  links : ∀ i, σ.links i = .fresh
  served : σ.served = []

-- The states of all runs, with the maps the server started from.
def Reached (m : Maps ι) (σ : Serving ι) : Prop :=
  Runs.Reach act (fun m _ _ _ => m) (fun σ m => Start σ ∧ σ.system.maps = m) (fun _ σ e => σ.Ok e)
    σ m

variable {σ σ' : Serving ι} {m : Maps ι} {i : ι}

-- Empty databases, and no client.
def init (ι : Type) [DecidableEq ι] (db_num : Nat) : Serving ι where
  system := System.init ι db_num
  links := fun _ => .fresh
  served := []

theorem start_init {db_num : Nat} (hpos : 0 < db_num) : (init ι db_num).Start where
  system := System.start_init hpos
  clients := fun _ => rfl
  links := fun _ => rfl
  served := rfl

theorem Start.inv (h : σ.Start) : σ.Inv σ.system.maps where
  sound := h.system.sound
  legal := by
    rw [h.served]
    exact .nil _
  owed := fun i => by
    have hanswers : σ.answers i = [] := by rw [answers, h.served]; rfl
    have hlink := h.links i
    refine ⟨⟨some createClientQuery, [], ?_, ?_, Or.inl ?_⟩, ?_, ?_, fun _ => ?_, ?_, ?_⟩
    · rw [hlink]
      rfl
    · rw [asked, h.served]
      rfl
    · rw [hlink]
      rfl
    · rw [h.served]
      exact inStep_nil
    · rw [hlink]
      exact List.nil_prefix
    · rw [h.clients i]
    · intro hne
      rw [hlink] at hne
      exact absurd rfl hne
    · intro c hc
      rw [hlink] at hc
      cases hc

theorem act_extends {event : NetEvent ι} (hs : σ.act event = .ok σ') : σ.served <+: σ'.served := by
  cases event with
  | accept i fd | timer io | child a =>
      obtain ⟨system, -, hs⟩ := bind_eq_ok.mp hs
      cases hs
      exact List.prefix_rfl
  | timeout i =>
      cases hs
      exact List.prefix_rfl
  | readable i nread os =>
      rw [act, readable] at hs
      cases hc : (σ.links i).query with
      | none =>
          rw [hc] at hs
          cases hs
          exact List.prefix_rfl
      | some c =>
          rw [hc] at hs
          obtain ⟨⟨query, events⟩, -, hs⟩ := bind_eq_ok.mp hs
          obtain ⟨σ₁, hperform, hs⟩ := bind_eq_ok.mp hs
          have hserved : σ'.served = σ₁.served := by
            cases query <;> (cases hs; rfl)
          rw [hserved]
          exact performAll_extends hperform
  | writable i results errno =>
      rw [act, writable] at hs
      cases hc : (σ.links i).query with
      | none =>
          rw [hc] at hs
          cases hs
          exact List.prefix_rfl
      | some c =>
          rw [hc] at hs
          obtain ⟨⟨send, written, nwritten, errno'⟩, -, hs⟩ := bind_eq_ok.mp hs
          dsimp only at hs
          split_ifs at hs <;> (cases hs; exact List.prefix_rfl)

theorem Reached.inv (h : Reached m σ) (hfit : ListingsFit σ.served) : σ.Inv m := by
  refine Runs.Reach.invariant (I := fun σ m => ListingsFit σ.served → σ.Inv m) ?_ ?_ h hfit
  · rintro σ m ⟨hstart, rfl⟩ -
    exact hstart.inv
  · intro σ m event σ' ih hok hact hfit
    exact act_inv (ih (hfit.mono (act_extends hact))) hok hact hfit

-- However the reads and writes of the clients are cut and mixed, with the timer and the child
-- in between, the server has done one request after the other, each in full and at a time
-- when nothing else happened. A client finds its own in the order it sent them, reads the
-- beginning of the answers to them, and will get the rest from the queue.
theorem served_in_order (h : Reached m σ) (hfit : ListingsFit σ.served) :
    Legal Maps.Serves m σ.served σ.system.maps ∧
      ∀ i, (∃ query events, connection (σ.links i).received = .ok (query, events) ∧
          σ.asked i = events.filter QueryEvent.answered) ∧
        (σ.links i).written <+: σ.answers i ∧
        ((σ.links i).query ≠ none →
          (σ.links i).written ++ (σ.sendClient i).unsent = σ.answers i) := by
  have hinv := h.inv hfit
  refine ⟨hinv.legal, fun i => ?_⟩
  have howed := hinv.owed i
  obtain ⟨query, events, hrun, hasked, -⟩ := howed.asked
  refine ⟨⟨query, events, hrun, hasked⟩, howed.written, fun hne => ?_⟩
  obtain ⟨c, hc⟩ := Option.ne_none_iff_exists'.mp hne
  exact (howed.live c hc).written

omit [DecidableEq ι] in
theorem listingsFit_of_lt {served : List (ι × QueryEvent × Bytes)}
    (h : ∀ e ∈ served, e.2.2.length < 2 ^ 31) : ListingsFit served :=
  fun _ _ _ _ hmem _ => h _ hmem

omit [DecidableEq ι] in
theorem ok_data {c : ClientQuery} {buf : Bytes} (hc : (σ.links i).query = some c)
    (hlen : buf.length ≤ CUTIS_QUERY_BUF_LEN) (hbuf : (c.query_buf ++ buf).length < 2 ^ 31) :
    σ.Ok (.readable i (.data buf) fun _ => System.plainOs) := by
  refine ⟨fun c' hc' => ?_, fun _ dv => List.Perm.refl dv⟩
  obtain rfl := Option.some.inj (hc.symm.trans hc')
  exact ⟨hlen, hbuf⟩

-- Two clients, one with a payload that comes in two reads, and a write that stores a part.
theorem exists_session :
    ∃ σ : Serving Bool, Reached (init Bool 1).system.maps σ ∧ ListingsFit σ.served ∧
      (σ.links true).query ≠ none ∧
      (σ.links true).received.flatten ++ sdsnew "NG\r\n" =
        stream Request.encode [setRequest, pingRequest] ∧
      (σ.links true).written = sdsnew "+OK" ∧ σ.answers true = sdsnew "+OK\r\n" ∧
      σ.answers false = sdsnew "nil\r\n" := by
  have hstart : Reached (init Bool 1).system.maps (init Bool 1) :=
    Runs.Reach.start ⟨start_init Nat.one_pos, rfl⟩
  have haccept := Runs.Reach.step (a := NetEvent.accept true 7) hstart rfl rfl
  have haccept' := Runs.Reach.step (a := NetEvent.accept false 8) haccept rfl rfl
  have hset := Runs.Reach.step (a := NetEvent.readable true (.data (sdsnew "set k 2\r\n\n")) fun _ => System.plainOs)
    haccept' (ok_data rfl (by decide) (by decide)) rfl
  have hget := Runs.Reach.step (a := NetEvent.readable false (.data (sdsnew "get k\r\n")) fun _ => System.plainOs)
    hset (ok_data rfl (by decide) (by decide)) rfl
  have hset' := Runs.Reach.step
    (a := NetEvent.readable true (.data ([NUL, CR, LF] ++ sdsnew "PI")) fun _ => System.plainOs)
    hget (ok_data rfl (by decide) (by decide)) rfl
  have hwrite := Runs.Reach.step (a := NetEvent.writable true [.accepts 3] 0) hset' trivial rfl
  refine ⟨_, hwrite, listingsFit_of_lt (by decide), by decide, by decide, by decide, by decide,
    by decide⟩

theorem served_in_order_session :
    ∃ σ : Serving Bool, Legal Maps.Serves (init Bool 1).system.maps σ.served σ.system.maps ∧
      (σ.links true).written = sdsnew "+OK" ∧
      (σ.links true).written ++ (σ.sendClient true).unsent = sdsnew "+OK\r\n" := by
  obtain ⟨σ, hreach, hfit, hopen, -, hwritten, hanswers, -⟩ := exists_session
  obtain ⟨hlegal, hclients⟩ := served_in_order hreach hfit
  obtain ⟨-, -, hqueue⟩ := hclients true
  exact ⟨σ, hlegal, hwritten, (hqueue hopen).trans hanswers⟩

end Runs

section Draining

theorem length_skipEmpty_le (reply : List Bytes) : (skipEmpty reply).length ≤ reply.length := by
  induction reply with
  | nil => exact Nat.le_refl 0
  | cons msg rest ih =>
      rw [skipEmpty]
      split_ifs
      · exact Nat.le_succ_of_le ih
      · exact Nat.le_refl _

-- The room a socket needs so that no write stores a part only.
def wholeWrites (n : Nat) : List WriteResult := List.replicate n (.accepts (2 ^ 31))

theorem sendLoop_drains {c : SendClient} (hplaced : c.Placed) (hshort : ShortReplies c.reply)
    (written : Bytes) (nwritten : Int) (hnwritten : nwritten ≠ -1) (errno : Nat) {n : Nat}
    (hn : c.reply.length ≤ n) :
    ∃ c' nwritten', sendLoop c written nwritten errno (wholeWrites n) =
        .ok (c', written ++ c.unsent, nwritten', errno) ∧ c'.reply = [] ∧ nwritten' ≠ -1 := by
  induction n generalizing c written nwritten with
  | zero =>
      have hnil : c.reply = [] := List.length_eq_zero_iff.mp (Nat.le_zero.mp hn)
      refine ⟨{ c with reply := [] }, nwritten, ?_, rfl, hnwritten⟩
      rw [wholeWrites, List.replicate_zero, sendLoop, SendClient.unsent, hnil, List.append_nil]
      rfl
  | succ n ih =>
      obtain ⟨hplaced', hunsent⟩ := skip_placed hplaced hshort
      obtain ⟨-, hshort', hhead⟩ := skipEmpty_spec hshort
      have hle := Nat.le_trans (length_skipEmpty_le c.reply) hn
      obtain ⟨fd, reply, sent_len⟩ := c
      obtain ⟨sent, rfl⟩ : ∃ sent : Nat, sent_len = sent := Int.eq_ofNat_of_zero_le hplaced.nonneg
      rw [wholeWrites, List.replicate_succ, sendLoop]
      cases hskip : skipEmpty reply with
      | nil =>
          simp only [hskip] at hunsent ⊢
          exact ⟨_, _, by rw [← hunsent]; simp [SendClient.unsent]; rfl, rfl, hnwritten⟩
      | cons msg rest =>
          simp only [hskip] at hplaced' hunsent hshort' hhead hle ⊢
          have hsent : sent < msg.length :=
            Int.ofNat_lt.mp (hplaced'.inside msg rfl (hhead msg rfl))
          have hlen := hshort' msg List.mem_cons_self
          have hroom : min (2 ^ 31) (msg.length - sent) = msg.length - sent := by omega
          obtain ⟨hnext, hshort'', hbytes, -⟩ :=
            advance_placed (c := ⟨fd, reply, sent⟩) hlen hsent rfl hshort' (Nat.le_refl _)
          have hreply : (advance ⟨fd, reply, sent⟩ msg rest (msg.length - sent : Nat)).reply = rest := by
            have hall : toInt32 ((sent : Int) + (msg.length - sent : Nat)) = toInt32 msg.length := by
              congr 1
              omega
            rw [advance, if_pos hall]
          rw [writeMsg_accepts hlen hsent, ok_bind, hroom]
          have hpos : ¬((msg.length - sent : Nat) : Int) ≤ 0 := by omega
          obtain ⟨c', nwritten', hloop, hc'⟩ := ih hnext hshort''
            (written ++ (msg.drop sent).take (msg.length - sent)) (msg.length - sent : Nat)
            (by omega) (by rw [hreply]; exact Nat.le_of_succ_le_succ hle)
          refine ⟨c', nwritten', ?_, hc'⟩
          dsimp only
          rw [if_neg hpos]
          refine hloop.trans ?_
          rw [List.append_assoc, hbytes, ← hunsent]
          rfl

end Draining

section Requests

variable {σ : Serving ι} {m : Maps ι} {i : ι}

-- What the parser has called of a stream of requests that is read in part.
theorem connection_delivered {requests : List Request} {reads : List Bytes} {unread : Bytes}
    (hchunks : ∀ buf ∈ reads, QueryChunk buf)
    (hstream : reads.flatten ++ unread = stream Request.encode requests) :
    ∃ query, connection reads = .ok (query,
      (delivered Request.encode requests reads.flatten.length).map Request.call) := by
  have hwaiting : Waiting requests (reads.flatten ++ unread) (some createClientQuery) := by
    refine .line hstream fun r tail _ => ?_
    rw [List.length_nil]
    exact Nat.succ_pos _
  obtain ⟨fin, rest, query, log, hrun, hlog, rfl, hlast⟩ :=
    run_delivered readClient_step reads hchunks _ requests unread hwaiting
  have hfin := delivered_of_incomplete hstream (waiting_incomplete rest unread query hlast)
  refine ⟨query, ?_⟩
  rw [connection, hrun, hfin, ← hlog]
  rfl

-- The queue of an open connection can be sent to its end.
theorem writable_drains {c : ClientQuery}
    (hc : (σ.links i).query = some c) (hlive : σ.Live i c) (errno : Nat) :
    ∃ results σ', σ.act (.writable i results errno) = .ok σ' ∧
      (σ'.links i).written = σ.answers i ∧ (σ'.system.clients i).reply = [] := by
  obtain ⟨send, nwritten, hloop, hnil, hnwritten⟩ := sendLoop_drains hlive.placed hlive.short
    (σ.links i).written 0 (by decide) errno (Nat.le_refl _)
  refine ⟨wholeWrites (σ.sendClient i).reply.length,
    σ.sent i { send with sent_len := 0 } ((σ.links i).written ++ (σ.sendClient i).unsent), ?_, ?_, ?_⟩
  · have hlength : send.reply.length = 0 := List.length_eq_zero_iff.mpr hnil
    rw [act, writable, hc]
    dsimp only
    rw [hloop, ok_bind]
    dsimp only
    rw [if_neg fun herror => hnwritten herror.1, if_pos hlength]
    rfl
  · rw [← hlive.written]
    simp [sent]
  · simpa [sent, System.setReply] using hnil

-- A client that sends requests of the documented form: those that have arrived in full are
-- called, once and in their order, each has one answer, and a client that reads the answers
-- one by one gets them all when its socket takes what is queued.
theorem requests_answered (h : Reached m σ) (hfit : ListingsFit σ.served)
    (hopen : (σ.links i).query ≠ none) {requests : List Request} {unread : Bytes}
    (hstream : (σ.links i).received.flatten ++ unread = stream Request.encode requests)
    (hstays : ∀ r ∈ requests, r.cmd.proc ≠ .ShutDownCommand) :
    σ.asked i =
        (delivered Request.encode requests (σ.links i).received.flatten.length).map Request.call ∧
      (∀ more, readAnswers (σ.asked i) (σ.answers i ++ more) = some more) ∧
      ∀ errno, ∃ results σ', σ.act (.writable i results errno) = .ok σ' ∧
        (σ'.links i).written = σ.answers i ∧ (σ'.system.clients i).reply = [] := by
  have howed := (h.inv hfit).owed i
  obtain ⟨c, hc⟩ := Option.ne_none_iff_exists'.mp hopen
  obtain ⟨query, events, hrun, hasked, -⟩ := howed.asked
  obtain ⟨query', hrun'⟩ := connection_delivered (howed.chunks hopen) hstream
  obtain ⟨-, hevents⟩ := Prod.mk.inj (Except.ok.inj (hrun.symm.trans hrun'))
  have hcalled : σ.asked i =
      (delivered Request.encode requests (σ.links i).received.flatten.length).map
        Request.call := by
    rw [hasked, hevents, List.filter_eq_self]
    intro event hevent
    obtain ⟨r, -, rfl⟩ := List.mem_map.mp hevent
    rfl
  refine ⟨hcalled, howed.inStep fun e he => ?_, writable_drains hc (howed.live c hc)⟩
  have hmem : e.1 ∈ σ.asked i := List.mem_map_of_mem he
  rw [hcalled] at hmem
  obtain ⟨r, hr, hcall⟩ := List.mem_map.mp hmem
  rw [← hcall]
  simpa [Request.call, QueryEvent.stays] using hstays r ((delivered_initial _ _ _).subset hr)

-- The first of two requests has arrived, and a part of the second.
theorem requests_answered_session :
    ∃ σ : Serving Bool, σ.asked true = [setRequest.call] ∧
      (∀ more, readAnswers (σ.asked true) (σ.answers true ++ more) = some more) ∧
      (σ.links true).written = sdsnew "+OK" ∧
      ∃ results σ', σ.act (.writable true results 0) = .ok σ' ∧
        (σ'.links true).written = sdsnew "+OK\r\n" := by
  obtain ⟨σ, hreach, hfit, hopen, hstream, hwritten, hanswers, -⟩ := exists_session
  obtain ⟨hasked, hread, hdrains⟩ := requests_answered hreach hfit hopen hstream (by decide)
  obtain ⟨results, σ', hact, hall, -⟩ := hdrains 0
  have hreceived : (σ.links true).received.flatten = sdsnew "set k 2\r\n\n" ++ [NUL, CR, LF] ++ sdsnew "PI" :=
    List.append_cancel_right (hstream.trans (by decide))
  have hdelivered : (delivered Request.encode [setRequest, pingRequest]
      (σ.links true).received.flatten.length).map Request.call = [setRequest.call] := by
    rw [hreceived]
    rfl
  exact ⟨σ, hasked.trans hdelivered, hread, hwritten, results, σ', hact, hall.trans hanswers⟩

end Requests

end Serving

end Cutis

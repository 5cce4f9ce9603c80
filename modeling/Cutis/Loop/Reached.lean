import Cutis.Loop.Registered

namespace Cutis

variable {ι : Type} [DecidableEq ι]

namespace Loop

open FileEvent

variable {σ σ' : Loop ι} {m : Maps ι} {xs : List (NodeId × ι)} {i : ι}

section Serves

-- What the handlers do to the databases, the queues and the sockets is what the server
-- without its lists does.
theorem freeClient_serving (h : σ.freeClient i = .ok σ') : σ'.serving = σ.serving.freeClient i := by
  obtain ⟨ln, -, h⟩ := bind_eq_ok.mp h
  cases ln with
  | none => cases h
  | some ln =>
      obtain ⟨clients, -, h⟩ := bind_eq_ok.mp h
      cases h
      rfl

theorem readQuery_serving {io : HandlerIo ι} (h : σ.readQuery i io = .ok σ') :
    σ.serving.act (.readable i io.nread io.os) = .ok σ'.serving := by
  rw [readQuery] at h
  rw [Serving.act, Serving.readable]
  cases hc : (σ.serving.links i).query with
  | none =>
      rw [hc] at h
      cases h
  | some c =>
      rw [hc] at h
      obtain ⟨⟨query, calls⟩, hread, h⟩ := bind_eq_ok.mp h
      obtain ⟨serving, hperform, h⟩ := bind_eq_ok.mp h
      dsimp only at h ⊢
      rw [hread, ok_bind]
      dsimp only
      rw [hperform, ok_bind]
      cases query with
      | none =>
          rw [freeClient_serving h]
          rfl
      | some c' =>
          cases h
          rfl

theorem sendReply_serving {io : HandlerIo ι} (h : σ.sendReply i io = .ok σ') :
    σ.serving.act (.writable i io.results io.errno) = .ok σ'.serving := by
  rw [sendReply] at h
  rw [Serving.act, Serving.writable]
  cases hc : (σ.serving.links i).query with
  | none =>
      rw [hc] at h
      cases h
  | some c =>
      rw [hc] at h
      obtain ⟨⟨send, written, nwritten, errno⟩, hloop, h⟩ := bind_eq_ok.mp h
      dsimp only at h ⊢
      rw [hloop, ok_bind]
      dsimp only
      split_ifs at h ⊢ with herror hempty
      · rw [freeClient_serving h]
        rfl
      all_goals
        cases h
        rfl

theorem closeFrom_induct {P : Serving ι → Prop}
    (hstep : ∀ serving i, P serving → P (serving.freeClient i)) {now : Int} {fuel : Nat}
    {iter : AdList.ListIter} (h : P σ.serving) (hs : closeFrom now fuel iter σ = .ok σ') :
    P σ'.serving := by
  induction fuel generalizing σ iter with
  | zero => cases hs
  | succ fuel ih =>
      rw [closeFrom] at hs
      obtain ⟨⟨ln, iter'⟩, -, hs⟩ := bind_eq_ok.mp hs
      cases ln with
      | none =>
          cases hs
          exact h
      | some ln =>
          obtain ⟨node, -, hs⟩ := bind_eq_ok.mp hs
          obtain ⟨σ₁, hfree, hs⟩ := bind_eq_ok.mp hs
          refine ih ?_ hs
          rw [closeIdle] at hfree
          split_ifs at hfree
          · rw [freeClient_serving hfree]
            exact hstep _ _ h
          · cases hfree
            exact h

end Serves

section Runs

-- The address of a client that connects, that of its node and its descriptor are not in
-- use; a registered event fires.
structure AcceptOk (σ : Loop ι) (i : ι) (fd : Int) (node : NodeId) : Prop where
  client : σ.serving.links i = .fresh
  node : σ.clients.nodes node = none
  len : σ.clients.len.toNat + 1 < 2 ^ 31
  listening : fd ≠ σ.fd
  open_fd : ∀ j, (σ.serving.links j).query ≠ none → σ.client_fd j ≠ fd

def Ok (σ : Loop ι) : LoopEvent ι → Prop
  | .fire fe io =>
      fe ∈ σ.events ∧ (∀ i fd node, io.accepted = some (i, fd, node) → σ.AcceptOk i fd node) ∧
        (∀ i c, fe.client_data = some i → (σ.serving.links i).query = some c →
          Serving.ReadOk c io.nread) ∧ ∀ k dv, ((io.os k).qsort dv).Perm dv
  | .cron _ _ => True
  | .child a => a.ofChild = true

-- No client has been accepted yet.
structure Start (σ : Loop ι) : Prop where
  serving : σ.serving.Start
  clients : σ.clients = AdList.listCreate
  events : σ.events = [⟨σ.fd, AE_READABLE, .AcceptHandler, none⟩]

omit [DecidableEq ι] in
theorem start_startServer {serving : Serving ι} (h : serving.Start) (fd max_idle_time : Int) :
    (startServer serving fd max_idle_time).Start :=
  ⟨h, rfl, rfl⟩

def Reached (m : Maps ι) (σ : Loop ι) : Prop :=
  Runs.Reach act (fun m _ _ _ => m) (fun σ m => Start σ ∧ σ.serving.system.maps = m)
    (fun _ σ e => σ.Ok e) σ m

theorem createClient_serving {fd : Int} {node : NodeId} {now : Int}
    (h : σ.createClient i fd node now = .ok σ') :
    σ.serving.act (.accept i fd) = .ok σ'.serving ∧
      ∃ clients, σ.clients.listAddNodeTail node i = .ok clients ∧ σ'.clients = clients ∧
        σ'.fd = σ.fd ∧ σ'.events = create σ.events (readEvent fd i) := by
  obtain ⟨serving, hact, h⟩ := bind_eq_ok.mp h
  obtain ⟨clients, hadd, h⟩ := bind_eq_ok.mp h
  cases h
  exact ⟨hact, clients, hadd, rfl, rfl, rfl⟩

-- A step of the event loop is some steps of the server without the lists.
theorem act_induct {P : Serving ι → Prop}
    (hstep : ∀ serving event serving', P serving → serving.Ok event →
      serving.act event = .ok serving' → P serving')
    (h : P σ.serving) {e : LoopEvent ι} (hok : σ.Ok e) (hs : σ.act e = .ok σ') : P σ'.serving := by
  cases e with
  | fire fe io =>
      obtain ⟨-, haccept, hread, hqsort⟩ := hok
      rw [act, fire] at hs
      split at hs
      · rw [acceptHandler] at hs
        cases haccepted : io.accepted with
        | none =>
            rw [haccepted] at hs
            cases hs
            exact h
        | some accepted =>
            obtain ⟨i, fd, node⟩ := accepted
            rw [haccepted] at hs
            obtain ⟨hact, -⟩ := createClient_serving hs
            exact hstep _ (.accept i fd) _ h (haccept i fd node haccepted).client hact
      · next i _ hdata =>
          exact hstep _ (.readable i io.nread io.os) _ h ⟨fun c hc => hread i c hdata hc, hqsort⟩
            (readQuery_serving hs)
      · next i _ hdata =>
          exact hstep _ (.writable i io.results io.errno) _ h trivial (sendReply_serving hs)
      · cases hs
  | cron io now =>
      obtain ⟨σ₁, hclose, hs⟩ := bind_eq_ok.mp hs
      obtain ⟨serving, hact, hs⟩ := bind_eq_ok.mp hs
      cases hs
      refine hstep _ (.timer io) _ ?_ trivial hact
      rw [cronClients] at hclose
      split_ifs at hclose
      · exact closeFrom_induct (fun serving i hP => hstep _ (.timeout i) _ hP trivial rfl) h hclose
      · cases hclose
        exact h
  | child a =>
      obtain ⟨serving, hact, hs⟩ := bind_eq_ok.mp hs
      cases hs
      exact hstep _ (.child a) _ h hok hact

theorem Reached.serving (h : Reached m σ) : Serving.Reached m σ.serving := by
  refine Runs.Reach.invariant (I := fun σ m => Serving.Reached m σ.serving) ?_ ?_ h
  · rintro σ m ⟨hstart, hmaps⟩
    exact Runs.Reach.start ⟨hstart.serving, hmaps⟩
  · intro σ m e σ' ih hok hs
    exact act_induct (fun _ _ _ hP hok hact => Runs.Reach.step hP hok hact) ih hok hs

end Runs

section Invariant

-- The clients in the list are those that are open.
structure Inv (m : Maps ι) (σ : Loop ι) (xs : List (NodeId × ι)) : Prop where
  serving : σ.serving.Inv m
  wired : σ.Wired xs
  opens : ∀ i, i ∈ xs.map Prod.snd ↔ (σ.serving.links i).query ≠ none

omit [DecidableEq ι] in
-- A client of the list with its node.
theorem exists_node (hi : i ∈ xs.map Prod.snd) : ∃ before ln after, xs = before ++ (ln, i) :: after := by
  obtain ⟨⟨ln, j⟩, hx, rfl⟩ := List.mem_map.mp hi
  obtain ⟨before, after, rfl⟩ := List.append_of_mem hx
  exact ⟨before, ln, after, rfl⟩

theorem Inv.start (h : σ.Start) : σ.Inv σ.serving.system.maps [] where
  serving := h.serving.inv
  wired :=
    { holds := h.clients ▸ AdList.holds_listCreate
      short := Nat.two_pow_pos 31
      nodup := List.nodup_nil
      fds := fun i hi => absurd hi List.not_mem_nil
      apart := fun i hi => absurd hi List.not_mem_nil
      keys := by simp [h.events, keys]
      events := fun fe => by simp [h.events, Wants] }
  opens := fun i => by
    rw [h.serving.links i]
    exact iff_of_false List.not_mem_nil fun hne => hne rfl

theorem Inv.accept (h : σ.Inv m xs) {fd : Int} {node : NodeId} {now : Int}
    (hok : σ.AcceptOk i fd node) (hs : σ.createClient i fd node now = .ok σ') :
    ∃ xs', σ'.Wired xs' ∧ ∀ j, j ∈ xs'.map Prod.snd ↔ (σ'.serving.links j).query ≠ none := by
  obtain ⟨hact, clients, hadd, hclients, hfd, hevents⟩ := createClient_serving hs
  obtain ⟨system, hgo, hserving⟩ := bind_eq_ok.mp hact
  have hserving : σ.serving.createClient system i fd = σ'.serving := Except.ok.inj hserving
  obtain ⟨system, hconnect, rfl⟩ := System.goOn_eq_ok.mp hgo
  cases hconnect
  have hlink : σ'.serving.links i = { Link.fresh with fd, query := some createClientQuery } := by
    rw [← hserving]
    simp [Serving.createClient]
  have hlinks (j : ι) (hj : j ≠ i) : σ'.serving.links j = σ.serving.links j := by
    rw [← hserving]
    simp [Serving.createClient, Function.update_of_ne hj]
  have hreply : σ'.reply i = [] := by
    rw [reply, ← hserving]
    simp [Serving.createClient]
  have hothers (j : ι) (hj : j ≠ i) : σ'.reply j = σ.reply j := by
    rw [reply, reply, ← hserving]
    simp [Serving.createClient, Function.update_of_ne hj]
  have hi : i ∉ xs.map Prod.snd := by
    rw [h.opens i, hok.client]
    exact fun hne => hne rfl
  have hlen := hok.len
  rw [h.wired.holds.len_toNat h.wired.short] at hlen
  refine ⟨xs ++ [(node, i)], h.wired.accept hi hok.node hlen hok.listening
    (fun j hj => hok.open_fd j ((h.opens j).mp hj)) hadd hclients hfd (by rw [client_fd, hlink])
    (fun j hj => by rw [client_fd, client_fd, hlinks j hj]) hothers hreply hevents, fun j => ?_⟩
  rw [List.map_append, List.mem_append, List.map_singleton, List.mem_singleton]
  by_cases hj : j = i
  · subst hj
    rw [hlink]
    exact iff_of_true (Or.inr rfl) (Option.some_ne_none _)
  · rw [hlinks j hj, ← h.opens j]
    simp [hj]

-- A client is freed in the middle of a handler, when what the lists are about is not yet in
-- order for it.
theorem free_wired (h : σ.Wired xs) (hi : i ∈ xs.map Prod.snd) {serving : Serving ι}
    (hfds : ∀ j, (serving.links j).fd = σ.client_fd j)
    (hothers : ∀ j, j ≠ i → (serving.system.clients j).reply = σ.reply j)
    (hopens : ∀ j, j ≠ i → (j ∈ xs.map Prod.snd ↔ (serving.links j).query ≠ none))
    (hs : freeClient { σ with serving } i = .ok σ') :
    ∃ xs', σ'.Wired xs' ∧ ∀ j, j ∈ xs'.map Prod.snd ↔ (σ'.serving.links j).query ≠ none := by
  obtain ⟨before, ln, after, rfl⟩ := exists_node hi
  obtain ⟨σ₁, hfree, hwired, hserving₁, -⟩ := h.free
  have hserving := freeClient_serving hs
  have hnot : i ∉ (before ++ after).map Prod.snd := by
    have hnodup := h.nodup
    rw [List.map_append, List.map_cons] at hnodup
    rw [List.map_append]
    exact (List.nodup_middle.mp hnodup).notMem
  have hsame : σ'.clients = σ₁.clients ∧ σ'.events = σ₁.events ∧ σ'.fd = σ₁.fd := by
    obtain ⟨found, hfound, hs⟩ := bind_eq_ok.mp hs
    obtain ⟨found', hfound', hfree⟩ := bind_eq_ok.mp hfree
    obtain rfl := Except.ok.inj (hfound'.symm.trans hfound)
    cases found' with
    | none => cases hs
    | some ln' =>
        obtain ⟨clients, hdel, hs⟩ := bind_eq_ok.mp hs
        obtain ⟨clients', hdel', hfree⟩ := bind_eq_ok.mp hfree
        obtain rfl := Except.ok.inj (hdel'.symm.trans hdel)
        cases hs
        cases hfree
        refine ⟨rfl, ?_, rfl⟩
        have hfd : (serving.links i).fd = σ.client_fd i := hfds i
        simp only [client_fd] at hfd ⊢
        rw [hfd]
  have hlink (serving : Serving ι) (j : ι) (hj : j ≠ i) :
      (serving.freeClient i).links j = serving.links j ∧
        ((serving.freeClient i).system.clients j).reply = (serving.system.clients j).reply := by
    simp [Serving.freeClient, System.setReply, Function.update_of_ne hj]
  have hne (j : ι) (hj : j ∈ (before ++ after).map Prod.snd) : j ≠ i := fun heq => hnot (heq ▸ hj)
  refine ⟨before ++ after, hwired.of_same hsame.1 hsame.2.1 hsame.2.2 (fun j hj => ?_)
    fun j hj => ?_, fun j => ?_⟩
  · rw [client_fd, client_fd, hserving, hserving₁, (hlink _ j (hne j hj)).1,
      (hlink _ j (hne j hj)).1]
    exact hfds j
  · rw [reply, reply, hserving, hserving₁, (hlink _ j (hne j hj)).2, (hlink _ j (hne j hj)).2]
    show (serving.system.clients j).reply ≠ [] ↔ _
    rw [hothers j (hne j hj)]
    rfl
  · rw [hserving]
    by_cases hj : j = i
    · subst hj
      refine iff_of_false hnot ?_
      simp [Serving.freeClient]
    · rw [(hlink _ j hj).1]
      have hopen := hopens j hj
      rw [← hopen]
      simp [hj]

theorem Inv.read (h : σ.Inv m xs) {io : HandlerIo ι}
    (hread : ∀ c, (σ.serving.links i).query = some c → Serving.ReadOk c io.nread)
    (hqsort : ∀ k dv, ((io.os k).qsort dv).Perm dv) (hs : σ.readQuery i io = .ok σ')
    (hfit : ListingsFit σ'.serving.served) :
    ∃ xs', σ'.Wired xs' ∧ ∀ j, j ∈ xs'.map Prod.snd ↔ (σ'.serving.links j).query ≠ none := by
  rw [readQuery] at hs
  cases hc : (σ.serving.links i).query with
  | none =>
      rw [hc] at hs
      cases hs
  | some c =>
      rw [hc] at hs
      obtain ⟨⟨query, calls⟩, hquery, hs⟩ := bind_eq_ok.mp hs
      obtain ⟨serving, hperform, hs⟩ := bind_eq_ok.mp hs
      dsimp only at hs
      have hi : i ∈ xs.map Prod.snd := by
        rw [h.opens i, hc]
        exact Option.some_ne_none c
      have hlive := (h.serving.owed i).live c hc
      have hreads := Serving.readQuery_reads hlive.rests hlive.words (hread c hc) hquery
      have hserved : σ'.serving.served = serving.served := by
        cases query with
        | none => rw [freeClient_serving hs]; rfl
        | some c' => cases hs; rfl
      obtain ⟨entries, added, hdone⟩ := Serving.performAll_performed h.serving.sound hqsort
        hreads.ok hperform (hserved ▸ hfit)
      have hlinks : serving.links = σ.serving.links := hdone.links
      have hadded : ((serving.system.clients i).reply.drop
          (σ.serving.system.clients i).reply.length) = added := by
        rw [hdone.queued, List.drop_left]
      rw [hadded] at hs
      -- The state before the test whether the client has to be freed.
      generalize hσ₁ : ({ σ with
        serving := serving.setLink i { serving.links i with
          query, received := (serving.links i).received ++ io.nread.bytes }
        last_interaction :=
          if io.nread.bytes.flatten = [] then σ.last_interaction
          else Function.update σ.last_interaction i io.now
        events := addReplies (σ.client_fd i) i (σ.serving.system.clients i).reply.length added
          σ.events } : Loop ι) = σ₁ at hs
      have hlink₁ : (σ₁.serving.links i).query = query := by
        rw [← hσ₁]
        simp
      have hlinks₁ (j : ι) (hj : j ≠ i) : σ₁.serving.links j = σ.serving.links j := by
        rw [← hσ₁]
        simp [Serving.setLink, Function.update_of_ne hj, hlinks]
      have hwired₁ : σ₁.Wired xs := by
        refine h.wired.queue hi added ?_ ?_ (fun j => ?_) (fun j hj => ?_) ?_ ?_
        · rw [← hσ₁]
        · rw [← hσ₁]
        · by_cases hj : j = i
          · subst hj
            rw [← hσ₁]
            simp [client_fd, hlinks]
          · rw [client_fd, client_fd, hlinks₁ j hj]
        · rw [← hσ₁]
          exact congrArg CutisClient.reply (hdone.others j hj)
        · rw [← hσ₁]
          exact hdone.queued
        · rw [← hσ₁]
          rfl
      have hopens₁ (j : ι) (hj : j ≠ i) :
          j ∈ xs.map Prod.snd ↔ (σ₁.serving.links j).query ≠ none := by
        rw [hlinks₁ j hj]
        exact h.opens j
      cases query with
      | none => exact free_wired hwired₁ hi (fun _ => rfl) (fun _ _ => rfl) hopens₁ hs
      | some c' =>
          cases hs
          refine ⟨xs, hwired₁, fun j => ?_⟩
          by_cases hj : j = i
          · subst hj
            exact iff_of_true hi (by rw [hlink₁]; exact Option.some_ne_none c')
          · exact hopens₁ j hj

theorem Inv.write (h : σ.Inv m xs) {io : HandlerIo ι} (hs : σ.sendReply i io = .ok σ') :
    ∃ xs', σ'.Wired xs' ∧ ∀ j, j ∈ xs'.map Prod.snd ↔ (σ'.serving.links j).query ≠ none := by
  rw [sendReply] at hs
  cases hc : (σ.serving.links i).query with
  | none =>
      rw [hc] at hs
      cases hs
  | some c =>
      rw [hc] at hs
      have hi : i ∈ xs.map Prod.snd := by
        rw [h.opens i, hc]
        exact Option.some_ne_none c
      have hlive := (h.serving.owed i).live c hc
      obtain ⟨send, written, nwritten, errno, hloop, -, -, -, -, hold⟩ := sendLoop_spec hlive.placed
        hlive.short (σ.serving.links i).written 0 io.errno io.results
      dsimp only at hs
      rw [hloop, ok_bind] at hs
      dsimp only at hs
      -- The connections and the queues of the others are as before.
      have hlink (send : SendClient) (j : ι) :
          ((σ.serving.sent i send written).links j).query = (σ.serving.links j).query ∧
            ((σ.serving.sent i send written).links j).fd = (σ.serving.links j).fd := by
        by_cases hj : j = i
        · subst hj
          simp [Serving.sent]
        · simp [Serving.sent, Function.update_of_ne hj]
      have hothers (send : SendClient) (j : ι) (hj : j ≠ i) :
          ((σ.serving.sent i send written).system.clients j).reply = σ.reply j := by
        simp [Serving.sent, System.setReply, Function.update_of_ne hj, reply]
      have hqueue (send : SendClient) :
          ((σ.serving.sent i send written).system.clients i).reply = send.reply := by
        simp [Serving.sent, System.setReply]
      have hopens (send : SendClient) (j : ι) :
          j ∈ xs.map Prod.snd ↔ ((σ.serving.sent i send written).links j).query ≠ none := by
        rw [(hlink send j).1]
        exact h.opens j
      by_cases herror : nwritten = -1 ∧ errno ≠ EAGAIN
      · rw [if_pos herror] at hs
        exact free_wired h.wired hi (fun j => (hlink send j).2) (hothers send)
          (fun j _ => hopens send j) hs
      · rw [if_neg herror] at hs
        by_cases hempty : send.reply.length = 0
        · have hnil : send.reply = [] := List.length_eq_zero_iff.mp hempty
          rw [if_pos hempty] at hs
          cases hs
          refine ⟨xs, h.wired.sent hi rfl rfl (fun j => (hlink _ j).2) (hothers _) ?_ ?_, hopens _⟩
          · exact fun hne => absurd ((hqueue _).trans hnil) hne
          · exact (if_pos ((hqueue _).trans hnil)).symm
        · rw [if_neg hempty] at hs
          cases hs
          have hne : send.reply ≠ [] := fun hnil => hempty (List.length_eq_zero_iff.mpr hnil)
          refine ⟨xs, h.wired.sent hi rfl rfl (fun j => (hlink _ j).2) (hothers _) ?_ ?_, hopens _⟩
          · exact fun _ => hold hne
          · exact (if_neg fun hnil => hne ((hqueue _).symm.trans hnil)).symm

-- The connections that are not among those that are closed.
theorem links_foldl_freeClient (closing : List ι) (serving : Serving ι) {j : ι} (hj : j ∉ closing) :
    (closing.foldl Serving.freeClient serving).links j = serving.links j ∧
      (closing.foldl Serving.freeClient serving).system.clients j = serving.system.clients j := by
  induction closing generalizing serving with
  | nil => exact ⟨rfl, rfl⟩
  | cons i closing ih =>
      obtain ⟨hji, hrest⟩ : j ≠ i ∧ j ∉ closing := by simpa using hj
      obtain ⟨hlink, hclient⟩ := ih (serving.freeClient i) hrest
      rw [List.foldl_cons, hlink, hclient]
      exact ⟨Function.update_of_ne hji _ _, Function.update_of_ne hji _ _⟩

theorem closed_foldl_freeClient (closing : List ι) (serving : Serving ι) {j : ι} (hj : j ∈ closing) :
    ((closing.foldl Serving.freeClient serving).links j).query = none := by
  induction closing generalizing serving with
  | nil => cases hj
  | cons i closing ih =>
      rw [List.foldl_cons]
      by_cases hrest : j ∈ closing
      · exact ih (serving.freeClient i) hrest
      · obtain rfl := (List.mem_cons.mp hj).resolve_right hrest
        rw [(links_foldl_freeClient closing _ hrest).1]
        simp [Serving.freeClient]

-- The clients that are idle for too long, and the others.
theorem Inv.closeTimeout (h : σ.Inv m xs) (now : Int) :
    ∃ σ', σ.closeTimeoutClients now = .ok σ' ∧
      σ'.Wired (xs.filter fun x => !σ.idle now x.2) ∧
      ∀ i, if (σ.serving.links i).query ≠ none ∧ σ.idle now i then
        (σ'.serving.links i).query = none
      else
        σ'.serving.links i = σ.serving.links i ∧
          σ'.serving.system.clients i = σ.serving.system.clients i := by
  obtain ⟨σ', hclose, hwired, hserving⟩ := closeTimeoutClients_wired h.wired now
  refine ⟨σ', hclose, hwired, fun i => ?_⟩
  have hclosing : i ∈ (xs.map Prod.snd).filter (σ.idle now) ↔
      (σ.serving.links i).query ≠ none ∧ σ.idle now i := by
    rw [List.mem_filter, h.opens i]
  rw [hserving]
  split_ifs with hi
  · exact closed_foldl_freeClient _ _ (hclosing.mpr hi)
  · exact links_foldl_freeClient _ _ (mt hclosing.mp hi)

theorem Inv.close (h : σ.Inv m xs) {now : Int} (hs : σ.cronClients now = .ok σ') :
    ∃ xs', σ'.Wired xs' ∧ ∀ j, j ∈ xs'.map Prod.snd ↔ (σ'.serving.links j).query ≠ none := by
  rw [cronClients] at hs
  split_ifs at hs
  · obtain ⟨σ₁, hclose, hwired, hlinks⟩ := h.closeTimeout now
    obtain rfl := Except.ok.inj (hclose.symm.trans hs)
    refine ⟨_, hwired, fun j => ?_⟩
    have hstays : j ∈ (xs.filter fun x => !σ.idle now x.2).map Prod.snd ↔
        j ∈ xs.map Prod.snd ∧ σ.idle now j = false := by
      simp only [List.mem_map, List.mem_filter, Bool.not_eq_true']
      constructor
      · rintro ⟨x, ⟨hx, hidle⟩, rfl⟩
        exact ⟨⟨x, hx, rfl⟩, hidle⟩
      · rintro ⟨⟨x, hx, rfl⟩, hidle⟩
        exact ⟨x, ⟨hx, hidle⟩, rfl⟩
    have hj := hlinks j
    rw [hstays, h.opens j]
    split_ifs at hj with hclosing
    · rw [hj]
      exact iff_of_false (fun hkept => by simp [hclosing.2] at hkept) fun hne => hne rfl
    · rw [hj.1]
      refine and_iff_left_of_imp fun hopen => ?_
      simpa [hopen] using hclosing
  · cases hs
    exact ⟨xs, h.wired, h.opens⟩

-- The timer and the child leave the clients alone.
theorem timer_clients {serving serving' : Serving ι} {io : CronOs}
    (hs : serving.act (.timer io) = .ok serving') :
    serving'.links = serving.links ∧ serving'.system.clients = serving.system.clients := by
  obtain ⟨system, hgo, hs⟩ := bind_eq_ok.mp hs
  cases hs
  obtain ⟨system, hact, rfl⟩ := System.goOn_eq_ok.mp hgo
  obtain ⟨s, -, hact⟩ := bind_eq_ok.mp hact
  cases hact
  exact ⟨rfl, rfl⟩

theorem child_clients {serving serving' : Serving ι} {a : Action ι} (ha : a.ofChild = true)
    (hs : serving.act (.child a) = .ok serving') :
    serving'.links = serving.links ∧ serving'.system.clients = serving.system.clients := by
  obtain ⟨system, hact, hs⟩ := bind_eq_ok.mp hs
  cases hs
  exact ⟨rfl, (System.child_same ha hact).2.1⟩

omit [DecidableEq ι] in
theorem wired_of_clients {serving : Serving ι} (h : σ.Wired xs)
    (hopens : ∀ j, j ∈ xs.map Prod.snd ↔ (σ.serving.links j).query ≠ none)
    (hsame : serving.links = σ.serving.links ∧ serving.system.clients = σ.serving.system.clients) :
    ({ σ with serving } : Loop ι).Wired xs ∧
      ∀ j, j ∈ xs.map Prod.snd ↔ (serving.links j).query ≠ none := by
  obtain ⟨hlinks, hclients⟩ := hsame
  refine ⟨h.of_same rfl rfl rfl (fun j _ => ?_) fun j _ => ?_, fun j => ?_⟩
  · rw [client_fd, client_fd, hlinks]
  · rw [reply, reply, hclients]
  · rw [hlinks]
    exact hopens j

theorem act_inv (h : σ.Inv m xs) {e : LoopEvent ι} (hok : σ.Ok e) (hs : σ.act e = .ok σ')
    (hserving : σ'.serving.Inv m) (hfit : ListingsFit σ'.serving.served) :
    ∃ xs', σ'.Inv m xs' := by
  suffices ∃ xs', σ'.Wired xs' ∧ ∀ j, j ∈ xs'.map Prod.snd ↔ (σ'.serving.links j).query ≠ none by
    obtain ⟨xs', hwired, hopens⟩ := this
    exact ⟨xs', hserving, hwired, hopens⟩
  cases e with
  | fire fe io =>
      obtain ⟨-, haccept, hread, hqsort⟩ := hok
      rw [act, fire] at hs
      split at hs
      · rw [acceptHandler] at hs
        cases haccepted : io.accepted with
        | none =>
            rw [haccepted] at hs
            cases hs
            exact ⟨xs, h.wired, h.opens⟩
        | some accepted =>
            obtain ⟨i, fd, node⟩ := accepted
            rw [haccepted] at hs
            exact h.accept (haccept i fd node haccepted) hs
      · next i _ hdata => exact h.read (fun c hc => hread i c hdata hc) hqsort hs hfit
      · next i _ hdata => exact h.write hs
      · cases hs
  | cron io now =>
      obtain ⟨σ₁, hclose, hs⟩ := bind_eq_ok.mp hs
      obtain ⟨serving, hact, hs⟩ := bind_eq_ok.mp hs
      cases hs
      obtain ⟨xs', hwired, hopens⟩ := h.close hclose
      exact ⟨xs', wired_of_clients hwired hopens (timer_clients hact)⟩
  | child a =>
      obtain ⟨serving, hact, hs⟩ := bind_eq_ok.mp hs
      cases hs
      exact ⟨xs, wired_of_clients h.wired h.opens (child_clients hok hact)⟩

theorem Reached.inv (h : Reached m σ) (hfit : ListingsFit σ.serving.served) :
    ∃ xs, σ.Inv m xs := by
  refine (Runs.Reach.invariant (I := fun σ m => Serving.Reached m σ.serving ∧
    (ListingsFit σ.serving.served → ∃ xs, σ.Inv m xs)) ?_ ?_ h).2 hfit
  · rintro σ m ⟨hstart, rfl⟩
    exact ⟨Runs.Reach.start ⟨hstart.serving, rfl⟩, fun _ => ⟨[], Inv.start hstart⟩⟩
  · rintro σ m e σ' ⟨hreach, ih⟩ hok hs
    have hreach' : Serving.Reached m σ'.serving :=
      act_induct (fun _ _ _ hP hok hact => Runs.Reach.step hP hok hact) hreach hok hs
    refine ⟨hreach', fun hfit => ?_⟩
    have hmore : σ.serving.served <+: σ'.serving.served :=
      act_induct (P := fun serving => σ.serving.served <+: serving.served)
        (fun _ _ _ hP _ hact => hP.trans (Serving.act_extends hact)) List.prefix_rfl hok hs
    obtain ⟨xs, hinv⟩ := ih (hfit.mono hmore)
    exact act_inv hinv hok hs (hreach'.inv hfit) hfit

end Invariant

section Session

def sessionIo (accepted : Option (Bool × Int × NodeId)) (buf : Bytes) (now : Int) :
    HandlerIo Bool where
  accepted
  nread := .data buf
  os := fun _ => System.plainOs
  results := []
  errno := 0
  now

-- Two clients connect, and one of them asks for something later.
theorem exists_session :
    ∃ σ : Loop Bool, Reached (Serving.init Bool 1).system.maps σ ∧ ListingsFit σ.serving.served ∧
      (∀ i, (σ.serving.links i).query ≠ none) ∧ σ.reply true = [sdsnew "+PONG\r\n"] ∧
      σ.reply false = [] ∧ σ.max_idle_time = 300 ∧ σ.last_interaction true = 200 ∧
      σ.last_interaction false = 0 := by
  have hstart : Reached (Serving.init Bool 1).system.maps
      (startServer (Serving.init Bool 1) 4 300) :=
    Runs.Reach.start ⟨start_startServer (Serving.start_init Nat.one_pos) 4 300, rfl⟩
  have hqsort (os : Nat → Os) (hos : ∀ k, (os k).qsort = id) (k : Nat) (dv : List (Dict Bytes Unit)) :
      ((os k).qsort dv).Perm dv := by
    rw [hos k]
    exact List.Perm.refl dv
  have haccepted {σ : Loop Bool} {accepted : Option (Bool × Int × NodeId)} {i : Bool} {fd : Int}
      {node : NodeId} (hio : accepted = some (i, fd, node)) (hok : σ.AcceptOk i fd node)
      (j : Bool) (fd' : Int) (node' : NodeId) (h : accepted = some (j, fd', node')) :
      σ.AcceptOk j fd' node' := by
    cases hio.symm.trans h
    exact hok
  have hping {σ : Loop Bool} {c : ClientQuery} (hquery : (σ.serving.links true).query = some c)
      (hlen : (c.query_buf ++ sdsnew "ping\r\n").length < 2 ^ 31) (i : Bool) (c' : ClientQuery)
      (hdata : some true = some i) (hc : (σ.serving.links i).query = some c') :
      Serving.ReadOk c' (.data (sdsnew "ping\r\n")) := by
    cases hdata
    cases hquery.symm.trans hc
    exact ⟨by decide, hlen⟩
  have haccept := Runs.Reach.step
    (a := LoopEvent.fire ⟨4, AE_READABLE, .AcceptHandler, none⟩ (sessionIo (some (true, 7, 0)) [] 0))
    hstart ⟨by decide, haccepted rfl ⟨rfl, rfl, by decide, by decide, by decide⟩,
      fun _ _ hdata => (by cases hdata), hqsort _ fun _ => rfl⟩ rfl
  have haccept' := Runs.Reach.step
    (a := LoopEvent.fire ⟨4, AE_READABLE, .AcceptHandler, none⟩ (sessionIo (some (false, 8, 1)) [] 0))
    haccept ⟨by decide, haccepted rfl ⟨rfl, rfl, by decide, by decide, by decide⟩,
      fun _ _ hdata => (by cases hdata), hqsort _ fun _ => rfl⟩ rfl
  have hread := Runs.Reach.step
    (a := LoopEvent.fire (readEvent 7 true) (sessionIo none (sdsnew "ping\r\n") 200))
    haccept' ⟨by decide, fun _ _ _ h => (by cases h), hping rfl (by decide),
      hqsort _ fun _ => rfl⟩ rfl
  refine ⟨_, hread, Serving.listingsFit_of_lt (by decide), by decide, by decide, by decide, rfl, rfl,
    rfl⟩

end Session

section Results

-- In every run of the event loop a registered event is for a client that is there, and
-- FreeClient finds it in the list; a client that is there waits for input exactly once, and to
-- write exactly while it has something to write. What the clients see is what they see of the
-- server without its lists.
theorem clients_registered (h : Reached m σ) (hfit : ListingsFit σ.serving.served) :
    Serving.Reached m σ.serving ∧
      (∀ fe ∈ σ.events, ∀ i, fe.client_data = some i →
        (σ.serving.links i).query ≠ none ∧ fe.fd = σ.client_fd i ∧
          ∃ ln, σ.clients.listSearchKey (· = i) = .ok (some ln)) ∧
      ∀ i, (σ.serving.links i).query ≠ none →
        (∀ j, (σ.serving.links j).query ≠ none → σ.client_fd i = σ.client_fd j → i = j) ∧
          σ.events.count (readEvent (σ.client_fd i) i) = 1 ∧
          σ.events.count (writeEvent (σ.client_fd i) i) = if σ.reply i = [] then 0 else 1 := by
  obtain ⟨xs, hinv⟩ := h.inv hfit
  have hwired := hinv.wired
  have hnodup : σ.events.Nodup := hwired.keys.of_map _
  refine ⟨h.serving, fun fe hfe i hdata => ?_, fun i hopen => ⟨fun j hj heq => ?_, ?_, ?_⟩⟩
  · rcases (hwired.events fe).mp hfe with rfl | ⟨j, hj, hown⟩
    · cases hdata
    · obtain ⟨rfl, hfd⟩ : j = i ∧ fe.fd = σ.client_fd j := by
        rcases hown with rfl | ⟨-, rfl⟩ <;> exact ⟨Option.some.inj hdata, rfl⟩
      obtain ⟨before, ln, after, rfl⟩ := exists_node hj
      exact ⟨(hinv.opens j).mp hj, hfd, ln, listSearchKey_client hwired⟩
  · exact hwired.fds i ((hinv.opens i).mpr hopen) j ((hinv.opens j).mpr hj) heq
  · refine List.count_eq_one_of_mem hnodup ((hwired.events _).mpr (Or.inr ⟨i, ?_, Or.inl rfl⟩))
    exact (hinv.opens i).mpr hopen
  · split_ifs with hnil
    · refine List.count_eq_zero_of_not_mem fun hmem => ?_
      rcases hwired.wants_own ((hinv.opens i).mpr hopen) hmem rfl with hread | ⟨hne, -⟩
      · cases congrArg FileEvent.mask hread
      · exact hne hnil
    · refine List.count_eq_one_of_mem hnodup
        ((hwired.events _).mpr (Or.inr ⟨i, ?_, Or.inr ⟨hnil, rfl⟩⟩))
      exact (hinv.opens i).mpr hopen

theorem clients_registered_session :
    ∃ σ : Loop Bool, σ.events.count (writeEvent (σ.client_fd true) true) = 1 ∧
      σ.events.count (writeEvent (σ.client_fd false) false) = 0 ∧
      σ.events.count (readEvent (σ.client_fd false) false) = 1 := by
  obtain ⟨σ, hreach, hfit, hopen, htrue, hfalse, -⟩ := exists_session
  obtain ⟨-, -, hclients⟩ := clients_registered hreach hfit
  obtain ⟨-, -, hwrite⟩ := hclients true (hopen true)
  obtain ⟨-, hread', hwrite'⟩ := hclients false (hopen false)
  rw [htrue] at hwrite
  rw [hfalse] at hwrite'
  exact ⟨σ, hwrite, hwrite', hread'⟩

-- CloseTimeoutClients frees nodes of the list it walks along: it comes to an end, closes the
-- connections that have been idle for too long and no others, and leaves the list and the
-- events in order.
theorem idle_clients_closed (h : Reached m σ) (hfit : ListingsFit σ.serving.served) (now : Int) :
    ∃ σ' xs, σ.closeTimeoutClients now = .ok σ' ∧ σ.clients.Holds xs ∧
      σ'.Wired (xs.filter fun x => !σ.idle now x.2) ∧
      ∀ i, if (σ.serving.links i).query ≠ none ∧ σ.idle now i then
        (σ'.serving.links i).query = none
      else
        σ'.serving.links i = σ.serving.links i ∧
          σ'.serving.system.clients i = σ.serving.system.clients i := by
  obtain ⟨xs, hinv⟩ := h.inv hfit
  obtain ⟨σ', hclose, hwired, hlinks⟩ := hinv.closeTimeout now
  exact ⟨σ', xs, hclose, hinv.wired.holds, hwired, hlinks⟩

-- One client has been idle for 400 seconds, the other for 200.
theorem idle_clients_closed_session :
    ∃ σ σ' : Loop Bool, σ.closeTimeoutClients 400 = .ok σ' ∧
      (σ'.serving.links true).query ≠ none ∧ (σ'.serving.links false).query = none := by
  obtain ⟨σ, hreach, hfit, hopen, -, -, hmax, htrue, hfalse⟩ := exists_session
  obtain ⟨σ', xs, hclose, -, -, hlinks⟩ := idle_clients_closed hreach hfit 400
  have hstays := hlinks true
  have hcloses := hlinks false
  have hidle : σ.idle 400 true = false := by rw [idle, htrue, hmax]; decide
  have hidle' : σ.idle 400 false = true := by rw [idle, hfalse, hmax]; decide
  rw [if_neg (by simp [hidle])] at hstays
  rw [if_pos ⟨hopen false, hidle'⟩] at hcloses
  exact ⟨σ, σ', hclose, by rw [hstays.1]; exact hopen true, hcloses⟩

end Results

end Loop

end Cutis

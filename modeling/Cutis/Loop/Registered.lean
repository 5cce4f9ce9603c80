import Cutis.AdList.Sequence
import Cutis.Loop
import Cutis.Serving.Answers

namespace Cutis

variable {ι : Type}

namespace FileEvent

-- What AeDeleteFileEvent looks for.
def keys (events : List (FileEvent ι)) : List (Int × Nat) := events.map fun fe => (fe.fd, fe.mask)

section Lists

variable {events : List (FileEvent ι)} {fe new : FileEvent ι} {fd : Int} {mask : Nat}

theorem plain_change :
    (change new events).map (·.map plain) =
      aeChangeFileEvent new.fd new.mask new.file_proc (events.map plain) := by
  induction events with
  | nil => rfl
  | cons fe rest ih =>
      rw [List.map_cons, change, aeChangeFileEvent]
      by_cases hfe : fe.fd = new.fd ∧ fe.mask &&& new.mask ≠ 0
      · have hplain : fe.plain.fd = new.fd ∧ fe.plain.mask &&& new.mask ≠ 0 := hfe
        rw [if_pos hfe, if_pos hplain]
        rfl
      · have hplain : ¬(fe.plain.fd = new.fd ∧ fe.plain.mask &&& new.mask ≠ 0) := hfe
        rw [if_neg hfe, if_neg hplain, ← ih, Option.map_map, Option.map_map]
        rfl

-- Apart from the client the lists are those of the event loop alone.
theorem plain_create :
    (create events new).map plain =
      aeCreateFileEvent (events.map plain) new.fd new.mask new.file_proc := by
  rw [create, aeCreateFileEvent, ← plain_change]
  cases change new events <;> rfl

theorem plain_delete :
    (delete events fd mask).map plain = aeDeleteFileEvent (events.map plain) fd mask := by
  induction events with
  | nil => rfl
  | cons fe rest ih =>
      simp only [delete, aeDeleteFileEvent, List.map_cons, List.eraseP_cons] at ih ⊢
      by_cases hfe : fe.fd = fd ∧ fe.mask = mask
      · simp [hfe, plain]
      · simpa [hfe, plain] using ih

theorem create_new (h : ∀ fe ∈ events, fe.fd = new.fd → fe.mask &&& new.mask = 0) :
    create events new = new :: events := by
  have hnone : change new events = none := by
    induction events with
    | nil => rfl
    | cons fe rest ih =>
        have hfe : ¬(fe.fd = new.fd ∧ fe.mask &&& new.mask ≠ 0) := fun hfe =>
          hfe.2 (h fe List.mem_cons_self hfe.1)
        rw [change, if_neg hfe, ih fun fe' hmem => h fe' (List.mem_cons_of_mem _ hmem)]
        rfl
  rw [create, hnone, Option.getD_none]

theorem keys_delete (h : (keys events).Nodup) : (keys (delete events fd mask)).Nodup :=
  h.sublist (List.Sublist.map _ List.eraseP_sublist)

theorem mem_delete (h : (keys events).Nodup) :
    fe ∈ delete events fd mask ↔ fe ∈ events ∧ ¬(fe.fd = fd ∧ fe.mask = mask) := by
  induction events with
  | nil => simp [delete]
  | cons fe' rest ih =>
      obtain ⟨hfe', hrest⟩ := List.nodup_cons.mp h
      rw [delete]
      by_cases hkey : fe'.fd = fd ∧ fe'.mask = mask
      · rw [List.eraseP_cons_of_pos (by simpa using hkey), List.mem_cons]
        constructor
        · intro hmem
          refine ⟨Or.inr hmem, fun hsame => hfe' ?_⟩
          show (fe'.fd, fe'.mask) ∈ keys rest
          rw [hkey.1, hkey.2, ← hsame.1, ← hsame.2]
          exact List.mem_map_of_mem hmem
        · rintro ⟨rfl | hmem, hne⟩
          · exact absurd hkey hne
          · exact hmem
      · rw [List.eraseP_cons_of_neg (by simpa using hkey), List.mem_cons, List.mem_cons]
        have ih := ih hrest
        rw [delete] at ih
        rw [ih]
        constructor
        · rintro (rfl | ⟨hmem, hne⟩)
          · exact ⟨Or.inl rfl, hkey⟩
          · exact ⟨Or.inr hmem, hne⟩
        · rintro ⟨rfl | hmem, hne⟩
          · exact Or.inl rfl
          · exact Or.inr ⟨hmem, hne⟩

-- AddReply registers the client once, when its queue was empty.
theorem addReplies_eq (fd : Int) (i : ι) (length : Nat) (added : List Bytes)
    (events : List (FileEvent ι)) :
    addReplies fd i length added events =
      if length = 0 ∧ added ≠ [] then create events (writeEvent fd i) else events := by
  have hlater (length : Nat) (added : List Bytes) (events : List (FileEvent ι)) (h : length ≠ 0) :
      addReplies fd i length added events = events := by
    induction added generalizing length with
    | nil => rfl
    | cons o rest ih => rw [addReplies, if_neg h, ih (length + 1) (Nat.succ_ne_zero _)]
  cases added with
  | nil => rw [if_neg fun h => h.2 rfl, addReplies]
  | cons o rest =>
      rw [addReplies, hlater _ _ _ (Nat.succ_ne_zero _)]
      simp

end Lists

end FileEvent

namespace Loop

open FileEvent

variable [DecidableEq ι]

def reply (σ : Loop ι) (i : ι) : List Bytes := (σ.serving.system.clients i).reply

-- The events that have to be registered for the clients there are.
def Wants (σ : Loop ι) (clients : List ι) (fe : FileEvent ι) : Prop :=
  fe = ⟨σ.fd, AE_READABLE, .AcceptHandler, none⟩ ∨
    ∃ i ∈ clients, fe = readEvent (σ.client_fd i) i ∨
      σ.reply i ≠ [] ∧ fe = writeEvent (σ.client_fd i) i

-- The list of the clients and the list of the events agree.
structure Wired (σ : Loop ι) (xs : List (NodeId × ι)) : Prop where
  holds : σ.clients.Holds xs
  short : xs.length < 2 ^ 31
  nodup : (xs.map Prod.snd).Nodup
  fds : ∀ i ∈ xs.map Prod.snd, ∀ j ∈ xs.map Prod.snd, σ.client_fd i = σ.client_fd j → i = j
  apart : ∀ i ∈ xs.map Prod.snd, σ.client_fd i ≠ σ.fd
  keys : (keys σ.events).Nodup
  events : ∀ fe, fe ∈ σ.events ↔ σ.Wants (xs.map Prod.snd) fe

section Wiring

variable {σ σ' : Loop ι} {xs ys : List (NodeId × ι)} {i : ι}

omit [DecidableEq ι] in
-- The events of the descriptor of a client.
theorem Wired.wants_own (h : σ.Wired xs) (hi : i ∈ xs.map Prod.snd) {fe : FileEvent ι}
    (hfe : fe ∈ σ.events) (hfd : fe.fd = σ.client_fd i) :
    fe = readEvent (σ.client_fd i) i ∨ σ.reply i ≠ [] ∧ fe = writeEvent (σ.client_fd i) i := by
  rcases (h.events fe).mp hfe with rfl | ⟨j, hj, hown⟩
  · exact absurd hfd.symm (h.apart i hi)
  · have hfd' : fe.fd = σ.client_fd j := by
      rcases hown with rfl | ⟨-, rfl⟩ <;> rfl
    obtain rfl := h.fds j hj i hi (hfd'.symm.trans hfd)
    exact hown

omit [DecidableEq ι] in
-- Whatever else changes, the descriptors and which queues are empty count.
theorem Wired.of_same (h : σ.Wired xs) (hclients : σ'.clients = σ.clients)
    (hevents : σ'.events = σ.events) (hfd : σ'.fd = σ.fd)
    (hfds : ∀ i ∈ xs.map Prod.snd, σ'.client_fd i = σ.client_fd i)
    (hreply : ∀ i ∈ xs.map Prod.snd, (σ'.reply i ≠ [] ↔ σ.reply i ≠ [])) : σ'.Wired xs where
  holds := hclients ▸ h.holds
  short := h.short
  nodup := h.nodup
  fds := fun i hi j hj heq => h.fds i hi j hj (by rwa [hfds i hi, hfds j hj] at heq)
  apart := fun i hi => by
    rw [hfds i hi, hfd]
    exact h.apart i hi
  keys := hevents ▸ h.keys
  events := fun fe => by
    rw [hevents, h.events fe, Wants, Wants, hfd]
    refine or_congr_right (exists_congr fun i => and_congr_right fun hi => ?_)
    rw [hfds i hi, hreply i hi]

omit [DecidableEq ι] in
-- A client with an empty queue gets its first strings.
theorem Wired.queue (h : σ.Wired xs) (hi : i ∈ xs.map Prod.snd) (added : List Bytes)
    (hclients : σ'.clients = σ.clients) (hfd : σ'.fd = σ.fd)
    (hfds : ∀ j, σ'.client_fd j = σ.client_fd j) (hothers : ∀ j, j ≠ i → σ'.reply j = σ.reply j)
    (hreply : σ'.reply i = σ.reply i ++ added)
    (hevents : σ'.events = addReplies (σ.client_fd i) i (σ.reply i).length added σ.events) :
    σ'.Wired xs := by
  rw [addReplies_eq] at hevents
  by_cases hfirst : (σ.reply i).length = 0 ∧ added ≠ []
  · obtain ⟨hlength, hadded⟩ := hfirst
    have hnil : σ.reply i = [] := List.length_eq_zero_iff.mp hlength
    rw [if_pos ⟨hlength, hadded⟩] at hevents
    have hnew : ∀ fe ∈ σ.events, fe.fd = (writeEvent (σ.client_fd i) i).fd →
        fe.mask &&& (writeEvent (σ.client_fd i) i).mask = 0 := by
      intro fe hfe heq
      rcases h.wants_own hi hfe heq with rfl | ⟨hne, -⟩
      · exact (by decide : AE_READABLE &&& AE_WRITABLE = 0)
      · exact absurd hnil hne
    rw [create_new hnew] at hevents
    refine ⟨hclients ▸ h.holds, h.short, h.nodup, fun j hj k hk heq => ?_, fun j hj => ?_, ?_,
      fun fe => ?_⟩
    · exact h.fds j hj k hk (by rwa [hfds j, hfds k] at heq)
    · rw [hfds j, hfd]
      exact h.apart j hj
    · rw [hevents]
      refine List.nodup_cons.mpr ⟨fun hmem => ?_, h.keys⟩
      obtain ⟨fe, hfe, hkey⟩ := List.mem_map.mp hmem
      obtain ⟨hkey₁, hkey₂⟩ := Prod.mk.inj hkey
      rcases h.wants_own hi hfe hkey₁ with rfl | ⟨hne, -⟩
      · cases hkey₂
      · exact hne hnil
    · rw [hevents, List.mem_cons, h.events fe, Wants, Wants, hfd]
      constructor
      · rintro (rfl | hlisten | ⟨j, hj, hown⟩)
        · refine Or.inr ⟨i, hi, Or.inr ⟨?_, by rw [hfds i]⟩⟩
          rw [hreply, hnil, List.nil_append]
          exact hadded
        · exact Or.inl hlisten
        · refine Or.inr ⟨j, hj, ?_⟩
          rw [hfds j]
          refine hown.imp_right fun hown => ⟨?_, hown.2⟩
          by_cases hji : j = i
          · exact absurd hnil (hji ▸ hown.1)
          · rw [hothers j hji]
            exact hown.1
      · rintro (hlisten | ⟨j, hj, hown⟩)
        · exact Or.inr (Or.inl hlisten)
        · rw [hfds j] at hown
          by_cases hji : j = i
          · subst hji
            rcases hown with hread | ⟨-, hwrite⟩
            · exact Or.inr (Or.inr ⟨j, hj, Or.inl hread⟩)
            · exact Or.inl hwrite
          · rw [hothers j hji] at hown
            exact Or.inr (Or.inr ⟨j, hj, hown⟩)
  · rw [if_neg hfirst] at hevents
    refine h.of_same hclients hevents hfd (fun j _ => hfds j) fun j _ => ?_
    by_cases hji : j = i
    · subst hji
      rw [hreply, ne_eq, List.append_eq_nil_iff]
      by_cases hadded : added = []
      · simp [hadded]
      · have hne : σ.reply j ≠ [] := fun hnil => hfirst ⟨by rw [hnil]; rfl, hadded⟩
        simp [hne]
    · rw [hothers j hji]

section Free

variable {before after : List (NodeId × ι)} {ln : NodeId}

theorem listSearchKey_client (h : σ.Wired (before ++ (ln, i) :: after)) :
    σ.clients.listSearchKey (· = i) = .ok (some ln) := by
  rw [AdList.listSearchKey_spec _ h.holds h.short, List.find?_append]
  have hbefore : before.find? (fun x => decide (x.2 = i)) = none := by
    rw [List.find?_eq_none]
    intro x hx hxi
    have hnodup := h.nodup
    rw [List.map_append, List.map_cons, List.nodup_append] at hnodup
    exact hnodup.2.2 x.2 (List.mem_map_of_mem hx) i List.mem_cons_self (by simpa using hxi)
  rw [hbefore, Option.none_or, List.find?_cons_of_pos (by simp)]
  rfl

-- The client is found, and nothing of it stays behind.
theorem Wired.free (h : σ.Wired (before ++ (ln, i) :: after)) :
    ∃ σ', σ.freeClient i = .ok σ' ∧ σ'.Wired (before ++ after) ∧
      σ'.serving = σ.serving.freeClient i ∧ σ'.last_interaction = σ.last_interaction ∧
      σ'.max_idle_time = σ.max_idle_time := by
  obtain ⟨clients, hdel, hholds⟩ := AdList.listDelNode_spec h.holds
  have hmem (j : ι) : j ∈ (before ++ (ln, i) :: after).map Prod.snd ↔
      j = i ∨ j ∈ (before ++ after).map Prod.snd := by
    simp only [List.map_append, List.map_cons, List.mem_append, List.mem_cons]
    tauto
  have hnot : i ∉ (before ++ after).map Prod.snd := by
    have hnodup := h.nodup
    rw [List.map_append, List.map_cons] at hnodup
    rw [List.map_append]
    exact (List.nodup_middle.mp hnodup).notMem
  have hsub : (before ++ after).Sublist (before ++ (ln, i) :: after) :=
    List.Sublist.append_left (List.sublist_cons_self _ _) before
  have hi := (hmem i).mpr (Or.inl rfl)
  have hfree : σ.freeClient i = .ok { σ with
      serving := σ.serving.freeClient i
      clients
      events := delete (delete σ.events (σ.client_fd i) AE_READABLE) (σ.client_fd i)
        AE_WRITABLE } := by
    rw [freeClient, listSearchKey_client h, ok_bind]
    dsimp only
    rw [hdel]
    rfl
  refine ⟨_, hfree, ?_, rfl, rfl, rfl⟩
  have hfds (j : ι) : ((σ.serving.freeClient i).links j).fd = (σ.serving.links j).fd := by
    by_cases hj : j = i
    · subst hj
      simp [Serving.freeClient]
    · simp [Serving.freeClient, Function.update_of_ne hj]
  refine ⟨hholds, Nat.lt_of_le_of_lt hsub.length_le h.short, h.nodup.sublist (hsub.map _),
    fun j hj k hk heq => ?_, fun j hj => ?_, keys_delete (keys_delete h.keys), fun fe => ?_⟩
  · refine h.fds j ((hmem j).mpr (Or.inr hj)) k ((hmem k).mpr (Or.inr hk)) ?_
    exact (hfds j).symm.trans (heq.trans (hfds k))
  · exact fun heq => h.apart j ((hmem j).mpr (Or.inr hj)) ((hfds j).symm.trans heq)
  · show fe ∈ delete (delete σ.events (σ.client_fd i) AE_READABLE) (σ.client_fd i) AE_WRITABLE ↔ _
    rw [mem_delete (keys_delete h.keys), mem_delete h.keys, h.events fe]
    constructor
    · rintro ⟨⟨hwants, hread⟩, hwrite⟩
      rcases hwants with hlisten | ⟨j, hj, hown⟩
      · exact Or.inl hlisten
      · have hji : j ≠ i := by
          rintro rfl
          rcases hown with rfl | ⟨-, rfl⟩
          · exact hread ⟨rfl, rfl⟩
          · exact hwrite ⟨rfl, rfl⟩
        refine Or.inr ⟨j, ((hmem j).mp hj).resolve_left hji, ?_⟩
        rw [client_fd, hfds j]
        simpa [reply, client_fd, Serving.freeClient, System.setReply, Function.update_of_ne hji] using hown
    · rintro (hlisten | ⟨j, hj, hown⟩)
      · subst hlisten
        exact ⟨⟨Or.inl rfl, fun hkey => h.apart i hi hkey.1.symm⟩,
          fun hkey => h.apart i hi hkey.1.symm⟩
      · have hji : j ≠ i := by
          rintro rfl
          exact hnot hj
        have hj' := (hmem j).mpr (Or.inr hj)
        have hown' : fe = readEvent (σ.client_fd j) j ∨
            σ.reply j ≠ [] ∧ fe = writeEvent (σ.client_fd j) j := by
          rw [client_fd, hfds j] at hown
          simpa [reply, client_fd, Serving.freeClient, System.setReply, Function.update_of_ne hji] using hown
        have hfd : fe.fd = σ.client_fd j := by
          rcases hown' with rfl | ⟨-, rfl⟩ <;> rfl
        have hne : ¬fe.fd = σ.client_fd i := fun heq => hji (h.fds j hj' i hi (hfd.symm.trans heq))
        exact ⟨⟨Or.inr ⟨j, hj', hown'⟩, fun hkey => hne hkey.1⟩, fun hkey => hne hkey.1⟩

end Free

section Send

-- The queue of one client is sent in part, or to its end.
theorem Wired.sent (h : σ.Wired xs) (hi : i ∈ xs.map Prod.snd) (hclients : σ'.clients = σ.clients)
    (hfd : σ'.fd = σ.fd) (hfds : ∀ j, σ'.client_fd j = σ.client_fd j)
    (hothers : ∀ j, j ≠ i → σ'.reply j = σ.reply j) (hold : σ'.reply i ≠ [] → σ.reply i ≠ [])
    (hevents : σ'.events =
      if σ'.reply i = [] then delete σ.events (σ.client_fd i) AE_WRITABLE else σ.events) :
    σ'.Wired xs := by
  by_cases hnil : σ'.reply i = []
  · rw [if_pos hnil] at hevents
    refine ⟨hclients ▸ h.holds, h.short, h.nodup, fun j hj k hk heq => ?_, fun j hj => ?_, ?_,
      fun fe => ?_⟩
    · exact h.fds j hj k hk (by rwa [hfds j, hfds k] at heq)
    · rw [hfds j, hfd]
      exact h.apart j hj
    · rw [hevents]
      exact keys_delete h.keys
    · rw [hevents, mem_delete h.keys, h.events fe, Wants, Wants, hfd]
      constructor
      · rintro ⟨hlisten | ⟨j, hj, hown⟩, hne⟩
        · exact Or.inl hlisten
        · refine Or.inr ⟨j, hj, ?_⟩
          rw [hfds j]
          by_cases hji : j = i
          · subst hji
            rcases hown with hread | ⟨-, rfl⟩
            · exact Or.inl hread
            · exact absurd ⟨rfl, rfl⟩ hne
          · rw [hothers j hji]
            exact hown
      · rintro (hlisten | ⟨j, hj, hown⟩)
        · refine ⟨Or.inl hlisten, fun hkey => ?_⟩
          rw [hlisten] at hkey
          exact h.apart i hi hkey.1.symm
        · rw [hfds j] at hown
          by_cases hji : j = i
          · subst hji
            obtain rfl := hown.resolve_right fun hwrite => hwrite.1 hnil
            refine ⟨Or.inr ⟨j, hj, Or.inl rfl⟩, fun hkey => ?_⟩
            exact absurd hkey.2 (by decide : AE_READABLE ≠ AE_WRITABLE)
          · rw [hothers j hji] at hown
            refine ⟨Or.inr ⟨j, hj, hown⟩, fun hkey => hji (h.fds j hj i hi ?_)⟩
            rcases hown with rfl | ⟨-, rfl⟩
            · exact hkey.1
            · exact hkey.1
  · rw [if_neg hnil] at hevents
    refine h.of_same hclients hevents hfd (fun j _ => hfds j) fun j _ => ?_
    by_cases hji : j = i
    · subst hji
      exact iff_of_true hnil (hold hnil)
    · rw [hothers j hji]

end Send

section Accept

omit [DecidableEq ι] in
-- A client whose address and descriptor are not in use.
theorem Wired.accept (h : σ.Wired xs) (hi : i ∉ xs.map Prod.snd) {node : NodeId}
    (hnode : σ.clients.nodes node = none) (hshort : xs.length + 1 < 2 ^ 31) {fd : Int}
    (hlisten : fd ≠ σ.fd) (hfree : ∀ j ∈ xs.map Prod.snd, σ.client_fd j ≠ fd) {clients : AdList ι}
    (hadd : σ.clients.listAddNodeTail node i = .ok clients) (hclients : σ'.clients = clients)
    (hfd : σ'.fd = σ.fd) (hown : σ'.client_fd i = fd)
    (hfds : ∀ j, j ≠ i → σ'.client_fd j = σ.client_fd j)
    (hothers : ∀ j, j ≠ i → σ'.reply j = σ.reply j) (hreply : σ'.reply i = [])
    (hevents : σ'.events = create σ.events (readEvent fd i)) : σ'.Wired (xs ++ [(node, i)]) := by
  have hfresh : node ∉ xs.map Prod.fst := by
    intro hmem
    obtain ⟨⟨p, j⟩, hx, rfl⟩ := List.mem_map.mp hmem
    obtain ⟨first, rest, rfl⟩ := List.append_of_mem hx
    obtain ⟨-, hp, -⟩ := AdList.segment_append.mp h.holds.linked
    cases hp.symm.trans hnode
  obtain ⟨clients', hadd', hholds⟩ := AdList.listAddNodeTail_spec h.holds hfresh h.short i
  obtain rfl := Except.ok.inj (hadd'.symm.trans hadd)
  have hmem (j : ι) : j ∈ (xs ++ [(node, i)]).map Prod.snd ↔ j ∈ xs.map Prod.snd ∨ j = i := by
    simp
  have hnone : ∀ fe ∈ σ.events, fe.fd ≠ fd := by
    intro fe hfe heq
    rcases (h.events fe).mp hfe with rfl | ⟨j, hj, rfl | ⟨-, rfl⟩⟩
    · exact hlisten heq.symm
    · exact hfree j hj heq
    · exact hfree j hj heq
  rw [create_new fun fe hfe heq => absurd heq (hnone fe hfe)] at hevents
  have hne (j : ι) (hj : j ∈ xs.map Prod.snd) : j ≠ i := fun heq => hi (heq ▸ hj)
  refine ⟨hclients ▸ hholds, by simpa using hshort, ?_, fun j hj k hk heq => ?_, fun j hj => ?_, ?_,
    fun fe => ?_⟩
  · rw [List.map_append, List.map_singleton]
    exact List.nodup_append.mpr ⟨h.nodup, List.nodup_singleton _, fun j hj k hk => by
      rw [List.mem_singleton.mp hk]
      exact hne j hj⟩
  · rcases (hmem j).mp hj with hold | hnew
    · rw [hfds j (hne j hold)] at heq
      rcases (hmem k).mp hk with hold' | hnew'
      · rw [hfds k (hne k hold')] at heq
        exact h.fds j hold k hold' heq
      · rw [hnew', hown] at heq
        exact absurd heq (hfree j hold)
    · rw [hnew, hown] at heq
      rcases (hmem k).mp hk with hold' | hnew'
      · rw [hfds k (hne k hold')] at heq
        exact absurd heq.symm (hfree k hold')
      · exact hnew.trans hnew'.symm
  · rcases (hmem j).mp hj with hj | rfl
    · rw [hfds j (hne j hj), hfd]
      exact h.apart j hj
    · rw [hown, hfd]
      exact hlisten
  · rw [hevents]
    refine List.nodup_cons.mpr ⟨fun hkey => ?_, h.keys⟩
    obtain ⟨fe, hfe, heq⟩ := List.mem_map.mp hkey
    exact hnone fe hfe (Prod.mk.inj heq).1
  · rw [hevents, List.mem_cons, h.events fe, Wants, Wants, hfd]
    constructor
    · rintro (rfl | hwants | ⟨j, hj, hwants⟩)
      · exact Or.inr ⟨i, (hmem i).mpr (Or.inr rfl), Or.inl (by rw [hown])⟩
      · exact Or.inl hwants
      · refine Or.inr ⟨j, (hmem j).mpr (Or.inl hj), ?_⟩
        rw [hfds j (hne j hj), hothers j (hne j hj)]
        exact hwants
    · rintro (hwants | ⟨j, hj, hwants⟩)
      · exact Or.inr (Or.inl hwants)
      · rcases (hmem j).mp hj with hj | rfl
        · rw [hfds j (hne j hj), hothers j (hne j hj)] at hwants
          exact Or.inr (Or.inr ⟨j, hj, hwants⟩)
        · rw [hown] at hwants
          exact Or.inl (hwants.resolve_right fun hwrite => hwrite.1 hreply)

end Accept

section Close

-- The clients from a node of the list on are looked at, and the idle ones are freed.
theorem closeFrom_spec {now : Int} (before after : List (NodeId × ι)) {fuel : Nat}
    (h : σ.Wired (before ++ after)) (hfuel : after.length < fuel) :
    ∃ σ', closeFrom now fuel
        { next := AdList.firstOr after none, direction := .AL_START_HEAD } σ = .ok σ' ∧
      σ'.Wired (before ++ after.filter fun x => !σ.idle now x.2) ∧
      σ'.serving = ((after.map Prod.snd).filter (σ.idle now)).foldl Serving.freeClient σ.serving := by
  induction after generalizing σ before fuel with
  | nil =>
      obtain ⟨fuel, rfl⟩ : ∃ k, fuel = k + 1 := ⟨fuel - 1, by omega⟩
      exact ⟨σ, rfl, h, rfl⟩
  | cons x after ih =>
      obtain ⟨ln, i⟩ := x
      obtain ⟨fuel, rfl⟩ : ∃ k, fuel = k + 1 := ⟨fuel - 1, by omega⟩
      obtain ⟨-, hln, -⟩ := AdList.segment_append.mp h.holds.linked
      have hnext : σ.clients.listNextElement
          { next := AdList.firstOr ((ln, i) :: after) none, direction := .AL_START_HEAD } =
            .ok (some ln, { next := AdList.firstOr after none, direction := .AL_START_HEAD }) := by
        simp only [AdList.listNextElement, AdList.firstOr_cons, AdList.read_eq hln, ok_bind]
        rfl
      have hfuel' : after.length < fuel := Nat.lt_of_succ_lt_succ hfuel
      cases hidle : σ.idle now i with
      | false =>
          have hmove : before ++ (ln, i) :: after = (before ++ [(ln, i)]) ++ after := by simp
          rw [hmove] at h
          obtain ⟨σ', hclose, hwired, hserving⟩ := ih (before ++ [(ln, i)]) h hfuel'
          refine ⟨σ', ?_, ?_, ?_⟩
          · have hkeep : σ.closeIdle now i = .ok σ := by
              rw [closeIdle, hidle, if_neg Bool.false_ne_true]
              rfl
            simp only [closeFrom, hnext, ok_bind, AdList.read_eq hln, hkeep]
            exact hclose
          · rw [List.filter_cons_of_pos (by simp [hidle])]
            rw [List.append_assoc, List.singleton_append] at hwired
            exact hwired
          · rw [hserving, List.map_cons, List.filter_cons_of_neg (by simp [hidle])]
      | true =>
          obtain ⟨σ₁, hfree, hwired₁, hserving₁, hlast, hmax⟩ := h.free
          have hsame : σ₁.idle now = σ.idle now := by
            funext j
            rw [idle, idle, hlast, hmax]
          obtain ⟨σ', hclose, hwired, hserving⟩ := ih before hwired₁ hfuel'
          rw [hsame] at hwired hserving
          refine ⟨σ', ?_, ?_, ?_⟩
          · have hclosed : σ.closeIdle now i = .ok σ₁ := by rw [closeIdle, if_pos hidle, hfree]
            simp only [closeFrom, hnext, ok_bind, AdList.read_eq hln, hclosed]
            exact hclose
          · rw [List.filter_cons_of_neg (by simp [hidle])]
            exact hwired
          · rw [hserving, hserving₁, List.map_cons, List.filter_cons_of_pos (by simp [hidle])]
            rfl

theorem closeTimeoutClients_wired (h : σ.Wired xs) (now : Int) :
    ∃ σ', σ.closeTimeoutClients now = .ok σ' ∧
      σ'.Wired (xs.filter fun x => !σ.idle now x.2) ∧
      σ'.serving = ((xs.map Prod.snd).filter (σ.idle now)).foldl Serving.freeClient σ.serving := by
  rw [closeTimeoutClients, AdList.listGetIterator, h.holds.head, h.holds.len_toNat h.short]
  exact closeFrom_spec [] xs h (Nat.lt_succ_self _)

end Close

end Wiring

end Loop

end Cutis

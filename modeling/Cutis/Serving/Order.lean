import Cutis.Serving

namespace Cutis

open History

variable {ι : Type} [DecidableEq ι]

-- One request of one client, at a time when nothing else happens.
inductive Maps.Serves (m : Maps ι) : ι × QueryEvent × Bytes → Maps ι → Prop
  | call {i : ι} {cmd : CutisCommand} {argv : List Bytes} {v : Model} {bytes : Bytes} :
      (m.view i).Serves argv cmd.proc v bytes → Maps.Serves m (i, .proc cmd argv, bytes) (m.put i v)
  | error {i : ι} {s : Bytes} : Maps.Serves m (i, .addReplySds s, s) m

def QueryEvent.answered : QueryEvent → Bool
  | .freeClient => false
  | _ => true

-- No listing of KEYS is too long for an int.
def ListingsFit (served : List (ι × QueryEvent × Bytes)) : Prop :=
  ∀ i cmd argv bytes, (i, QueryEvent.proc cmd argv, bytes) ∈ served → cmd.proc = .KeysCommand →
    bytes.length < 2 ^ 31

omit [DecidableEq ι] in
theorem ListingsFit.mono {served more : List (ι × QueryEvent × Bytes)}
    (h : ListingsFit more) (hmore : served <+: more) : ListingsFit served :=
  fun i cmd argv bytes hmem => h i cmd argv bytes (hmore.subset hmem)

-- A client that reads one answer for each of its requests, in their order.
def readAnswers : List QueryEvent → Bytes → Option Bytes
  | [], s => some s
  | .proc cmd _ :: rest, s => (cmd.proc.replyKind.read s).bind (readAnswers rest)
  | .addReplySds _ :: rest, s => (ReplyKind.line.read s).bind (readAnswers rest)
  | .freeClient :: rest, s => readAnswers rest s

theorem readAnswers_append (events more : List QueryEvent) (s : Bytes) :
    readAnswers (events ++ more) s = (readAnswers events s).bind (readAnswers more) := by
  induction events generalizing s with
  | nil => rfl
  | cons event events ih =>
      cases event with
      | proc cmd argv =>
          simp only [List.cons_append, readAnswers]
          cases cmd.proc.replyKind.read s with
          | none => rfl
          | some s => exact ih s
      | addReplySds reply =>
          simp only [List.cons_append, readAnswers]
          cases ReplyKind.line.read s with
          | none => rfl
          | some s => exact ih s
      | freeClient => exact ih s

-- SHUTDOWN is the one command that may answer nothing.
def QueryEvent.stays : QueryEvent → Bool
  | .proc cmd _ => cmd.proc != .ShutDownCommand
  | _ => true

-- The answers can be told apart.
def InStep (entries : List (QueryEvent × Bytes)) : Prop :=
  (∀ e ∈ entries, e.1.stays = true) →
    ∀ more, readAnswers (entries.map Prod.fst) (entries.flatMap Prod.snd ++ more) = some more

theorem inStep_nil : InStep [] := fun _ _ => rfl

theorem InStep.append {entries entries' : List (QueryEvent × Bytes)} (h : InStep entries)
    (h' : InStep entries') : InStep (entries ++ entries') := by
  intro hstays more
  have hfirst := h (fun e he => hstays e (List.mem_append_left _ he))
  have hrest := h' (fun e he => hstays e (List.mem_append_right _ he))
  rw [List.map_append, List.flatMap_append, List.append_assoc, readAnswers_append, hfirst,
    Option.bind_some, hrest]

namespace System

variable {σ σ' : System ι} {a : Action ι}

theorem goOn_eq_ok :
    σ.goOn a = .ok σ' ↔ ∃ σ₁, ({ σ with stop := false } : System ι).act a = .ok σ₁ ∧
      σ' = { σ₁ with stop := σ.stop || σ₁.stop } := by
  constructor
  · intro h
    obtain ⟨σ₁, hact, h⟩ := bind_eq_ok.mp h
    cases h
    exact ⟨σ₁, hact, rfl⟩
  · rintro ⟨σ₁, hact, rfl⟩
    rw [goOn, hact]
    rfl

omit [DecidableEq ι] in
theorem Sound.setStop (h : σ.Sound) (stop : Bool) : ({ σ with stop } : System ι).Sound :=
  ⟨h.dict, h.clean, h.selected, h.db_num⟩

theorem goOn_sound (h : σ.Sound) (ha : a.Ok) (hs : σ.goOn a = .ok σ') : σ'.Sound := by
  obtain ⟨σ₁, hact, rfl⟩ := goOn_eq_ok.mp hs
  exact (act_sound (h.setStop false) ha hact).setStop _

theorem goOn_call {i : ι} {cmd : CutisCommand} {argv : List Bytes} {os : Os}
    (hs : σ.goOn (.call i cmd argv os) = .ok σ') :
    ∃ s', cmd.proc.call os (({ σ with stop := false } : System ι).session i argv) = .ok s' ∧
      σ'.clients = Function.update σ.clients i { s'.client with argv := [] } ∧
      σ'.maps = σ.maps.put i s'.model := by
  obtain ⟨σ₁, hact, rfl⟩ := goOn_eq_ok.mp hs
  obtain ⟨-, s', hrun, rfl⟩ := call_of_act hact
  refine ⟨s', hrun, rfl, congrArg (Maps.mk _) (funext fun j => ?_)⟩
  by_cases hj : j = i
  · subst hj
    simp [leave, Session.model]
  · simp [leave, Function.update_of_ne hj, maps]

end System

namespace Serving

-- What one client has asked, and what it was answered.
def asked (σ : Serving ι) (i : ι) : List QueryEvent := (ofParty i σ.served).map Prod.fst

def answers (σ : Serving ι) (i : ι) : Bytes := (ofParty i σ.served).flatMap Prod.snd

section Record

variable (σ : Serving ι) (i j : ι) (link : Link) (c : SendClient) (written : Bytes)

@[simp] theorem asked_setLink : (σ.setLink i link).asked j = σ.asked j := rfl

@[simp] theorem answers_setLink : (σ.setLink i link).answers j = σ.answers j := rfl

@[simp] theorem links_setLink : (σ.setLink i link).links i = link := Function.update_self _ _ _

@[simp] theorem system_setLink : (σ.setLink i link).system = σ.system := rfl

@[simp] theorem answers_freeClient : (σ.freeClient i).answers j = σ.answers j := rfl

@[simp] theorem answers_sent : (σ.sent i c written).answers j = σ.answers j := rfl

end Record

variable {σ σ' σ'' : Serving ι} {i : ι}

-- The events of one client have been performed.
structure Performed (σ : Serving ι) (i : ι) (events : List QueryEvent)
    (entries : List (QueryEvent × Bytes)) (reply : List Bytes) (σ' : Serving ι) : Prop where
  links : σ'.links = σ.links
  others : ∀ j, j ≠ i → σ'.system.clients j = σ.system.clients j
  sound : σ'.system.Sound
  queued : (σ'.system.clients i).reply = (σ.system.clients i).reply ++ reply
  short : ShortReplies reply
  served : σ'.served = σ.served ++ entries.map (i, ·)
  asked : entries.map Prod.fst = events.filter QueryEvent.answered
  answers : entries.flatMap Prod.snd = reply.flatten
  inStep : InStep entries
  legal : Legal Maps.Serves σ.system.maps (entries.map (i, ·)) σ'.system.maps

theorem Performed.refl (h : σ.system.Sound) : σ.Performed i [] [] [] σ where
  links := rfl
  others := fun _ _ => rfl
  sound := h
  queued := by simp
  short := fun _ hmsg => absurd hmsg List.not_mem_nil
  served := by simp
  asked := rfl
  answers := rfl
  inStep := inStep_nil
  legal := .nil _

theorem Performed.trans {events more : List QueryEvent} {entries entries' : List (QueryEvent × Bytes)}
    {reply reply' : List Bytes} (h : σ.Performed i events entries reply σ')
    (h' : σ'.Performed i more entries' reply' σ'') :
    σ.Performed i (events ++ more) (entries ++ entries') (reply ++ reply') σ'' where
  links := h'.links.trans h.links
  others := fun j hj => (h'.others j hj).trans (h.others j hj)
  sound := h'.sound
  queued := by rw [h'.queued, h.queued, List.append_assoc]
  short := by
    intro msg hmsg
    rcases List.mem_append.mp hmsg with hmsg | hmsg
    · exact h.short msg hmsg
    · exact h'.short msg hmsg
  served := by rw [h'.served, h.served, List.map_append, List.append_assoc]
  asked := by rw [List.map_append, h.asked, h'.asked, List.filter_append]
  answers := by rw [List.flatMap_append, h.answers, h'.answers, List.flatten_append]
  inStep := h.inStep.append h'.inStep
  legal := by
    rw [List.map_append]
    exact h.legal.append h'.legal

theorem Performed.asked_eq {events : List QueryEvent} {entries : List (QueryEvent × Bytes)}
    {reply : List Bytes} (h : σ.Performed i events entries reply σ') :
    σ'.asked i = σ.asked i ++ events.filter QueryEvent.answered := by
  rw [Serving.asked, h.served, ofParty_append, ofParty_self, List.map_append, h.asked]
  rfl

theorem Performed.answers_eq {events : List QueryEvent} {entries : List (QueryEvent × Bytes)}
    {reply : List Bytes} (h : σ.Performed i events entries reply σ') :
    σ'.answers i = σ.answers i ++ reply.flatten := by
  rw [Serving.answers, h.served, ofParty_append, ofParty_self, List.flatMap_append, h.answers]
  rfl

section Perform

-- A call is one step of the maps.
theorem perform_call (h : σ.system.Sound) {os : Os} (hqsort : ∀ dv, (os.qsort dv).Perm dv)
    {cmd : CutisCommand} {argv : List Bytes} (hcall : CallOk cmd argv)
    (hs : σ.perform i os (.proc cmd argv) = .ok σ') (hfit : ListingsFit σ'.served) :
    ∃ entries reply, σ.Performed i [.proc cmd argv] entries reply σ' := by
  obtain ⟨system, hact, hs⟩ := bind_eq_ok.mp hs
  cases hs
  have hsound := System.goOn_sound (a := .call i cmd argv os) h hcall hact
  obtain ⟨s', hrun, hclients, hmaps⟩ := System.goOn_call hact
  have hsession := (h.setStop false).session i argv
  obtain ⟨reply, hqueued, hserves, hread⟩ := Session.call_served hsession hcall rfl hqsort hrun
  have hreply : (system.clients i).reply = (σ.system.clients i).reply ++ reply := by
    rw [hclients, Function.update_self]
    exact hqueued
  have hanswer : answer σ.system system i = reply.flatten := by
    rw [answer, hreply, List.drop_left]
  refine ⟨[(.proc cmd argv, reply.flatten)], reply, rfl, fun j hj => ?_, hsound, hreply, ?_, ?_, rfl,
    by simp, fun hstays more => ?_, ?_⟩
  · show system.clients j = _
    rw [hclients, Function.update_of_ne hj]
  · by_cases hkeys : cmd.proc = .KeysCommand
    · intro msg hmsg
      have hlen := hfit i cmd argv _ (List.mem_append_right _ (List.mem_singleton.mpr rfl)) hkeys
      rw [hanswer] at hlen
      refine Nat.lt_of_le_of_lt ?_ hlen
      exact (List.sublist_flatten_of_mem hmsg).length_le
    · obtain ⟨reply', hreply', hshort⟩ :=
        Session.call_short hsession hcall rfl hqsort hkeys hrun
      exact List.append_cancel_left (hqueued.symm.trans hreply') ▸ hshort
  · rw [hanswer]
    rfl
  · have hne : cmd.proc ≠ .ShutDownCommand := by
      simpa [QueryEvent.stays] using hstays _ List.mem_cons_self
    simp [readAnswers, hread hne more]
  · refine .single ?_
    show Maps.Serves σ.system.maps _ system.maps
    rw [hmaps]
    exact .call hserves

theorem perform_performed (h : σ.system.Sound) {os : Os} (hqsort : ∀ dv, (os.qsort dv).Perm dv)
    {event : QueryEvent} (hevent : EventsOk [event]) (hs : σ.perform i os event = .ok σ')
    (hfit : ListingsFit σ'.served) :
    ∃ entries reply, σ.Performed i [event] entries reply σ' := by
  cases event with
  | proc cmd argv =>
      exact perform_call h hqsort (hevent.calls cmd argv (List.mem_singleton.mpr rfl)) hs hfit
  | addReplySds s =>
      cases hs
      have hother (j : ι) (hj : j ≠ i) : (σ.system.setReply i
          ((σ.system.clients i).reply ++ [s])).clients j = σ.system.clients j :=
        Function.update_of_ne hj _ _
      have hdict (j : ι) : ((σ.system.setReply i
          ((σ.system.clients i).reply ++ [s])).clients j).dict = (σ.system.clients j).dict := by
        by_cases hj : j = i
        · subst hj
          simp [System.setReply]
        · rw [hother j hj]
      refine ⟨[(.addReplySds s, s)], [s], rfl, hother,
        ⟨h.dict, h.clean, fun j => by rw [hdict]; exact h.selected j, h.db_num⟩, ?_, ?_, rfl, rfl,
        by simp, fun _ more => ?_, ?_⟩
      · simp [System.setReply]
      · intro msg hmsg
        rw [List.mem_singleton.mp hmsg]
        obtain ⟨-, -, -, hlen⟩ := hevent.errors s (List.mem_singleton.mpr rfl)
        exact Nat.lt_trans hlen (by decide)
      · obtain ⟨text, rfl, htext, -⟩ := hevent.errors s (List.mem_singleton.mpr rfl)
        have hfits : (Reply.line text).Fits .line := htext
        have hread := Reply.read_encode hfits more
        simpa [readAnswers, Reply.encode] using hread
      · have hmaps : (σ.system.setReply i ((σ.system.clients i).reply ++ [s])).maps =
            σ.system.maps := congrArg (Maps.mk _) (funext hdict)
        refine .single ?_
        rw [hmaps]
        exact .error
  | freeClient =>
      cases hs
      exact ⟨[], [], rfl, fun _ _ => rfl, h, by simp, fun _ hmsg => absurd hmsg List.not_mem_nil,
        by simp, rfl, rfl, inStep_nil, .nil _⟩

theorem perform_extends {os : Os} {event : QueryEvent} (hs : σ.perform i os event = .ok σ') :
    σ.served <+: σ'.served := by
  cases event with
  | proc cmd argv =>
      obtain ⟨system, -, hs⟩ := bind_eq_ok.mp hs
      cases hs
      exact List.prefix_append _ _
  | addReplySds s =>
      cases hs
      exact List.prefix_append _ _
  | freeClient =>
      cases hs
      exact List.prefix_rfl

theorem performAll_extends {os : Nat → Os} {k : Nat} {events : List QueryEvent}
    (hs : performAll i os k events σ = .ok σ') : σ.served <+: σ'.served := by
  induction events generalizing σ k with
  | nil =>
      cases hs
      exact List.prefix_rfl
  | cons event rest ih =>
      obtain ⟨σ₁, hfirst, hs⟩ := bind_eq_ok.mp hs
      exact (perform_extends hfirst).trans (ih hs)

-- All that one read has asked for.
theorem performAll_performed (h : σ.system.Sound) {os : Nat → Os}
    (hqsort : ∀ k dv, ((os k).qsort dv).Perm dv) {k : Nat} {events : List QueryEvent}
    (hevents : EventsOk events) (hs : performAll i os k events σ = .ok σ')
    (hfit : ListingsFit σ'.served) :
    ∃ entries reply, σ.Performed i events entries reply σ' := by
  induction events generalizing σ k with
  | nil =>
      cases hs
      exact ⟨[], [], .refl h⟩
  | cons event rest ih =>
      obtain ⟨σ₁, hfirst, hs⟩ := bind_eq_ok.mp hs
      have hfit₁ := hfit.mono (performAll_extends hs)
      have hevent : EventsOk [event] :=
        ⟨fun cmd argv hmem => hevents.calls cmd argv (by simpa using Or.inl (List.mem_singleton.mp hmem)),
          fun s hmem => hevents.errors s (by simpa using Or.inl (List.mem_singleton.mp hmem))⟩
      have hrest : EventsOk rest :=
        ⟨fun cmd argv hmem => hevents.calls cmd argv (List.mem_cons_of_mem _ hmem),
          fun s hmem => hevents.errors s (List.mem_cons_of_mem _ hmem)⟩
      obtain ⟨entries, reply, hone⟩ := perform_performed h (hqsort k) hevent hfirst hfit₁
      obtain ⟨entries', reply', hmore⟩ := ih hone.sound hrest hs
      exact ⟨_, _, hone.trans hmore⟩

end Perform

section Reading

theorem connection_snoc {reads : List Bytes} {c : ClientQuery} {events more : List QueryEvent}
    {query : Option ClientQuery} {buf : Bytes} (h : connection reads = .ok (some c, events))
    (hread : readClient (some c) buf = .ok (query, more)) :
    connection (reads ++ [buf]) = .ok (query, events ++ more) := by
  rw [connection] at h
  cases hrun : Runs.run readClient (some createClientQuery) reads with
  | error e =>
      rw [hrun] at h
      cases h
  | ok last =>
      obtain ⟨last, log⟩ := last
      rw [hrun] at h
      cases h
      rw [connection, Runs.run_append hrun]
      simp [Runs.run, hread, Except.bind, Except.map]

def ReadOk (c : ClientQuery) : ReadResult → Prop
  | .data buf => buf.length ≤ CUTIS_QUERY_BUF_LEN ∧ (c.query_buf ++ buf).length < 2 ^ 31
  | _ => True

-- What a read gives, and how the connection accounts for it.
structure Reads (c : ClientQuery) (nread : ReadResult) (query : Option ClientQuery)
    (events : List QueryEvent) : Prop where
  ok : EventsOk events
  next : ∀ c' ∈ query, Rests c' ∧ HoldsWords c'
  idle : nread.bytes = [] → events.filter QueryEvent.answered = []
  chunk : query ≠ none → ∀ buf ∈ nread.bytes, QueryChunk buf
  stream : ∀ reads before, connection reads = .ok (some c, before) →
    ∃ query' after, connection (reads ++ nread.bytes) = .ok (query', after) ∧
      after.filter QueryEvent.answered =
        before.filter QueryEvent.answered ++ events.filter QueryEvent.answered ∧
      (query = none ∨ query = query')

theorem readQuery_reads {c : ClientQuery} (hrests : Rests c) (hwords : HoldsWords c)
    {nread : ReadResult} (hok : ReadOk c nread) {query : Option ClientQuery}
    {events : List QueryEvent} (h : readQueryFromClient c nread = .ok (query, events)) :
    Reads c nread query events := by
  cases nread with
  | again =>
      cases h
      refine ⟨eventsOk_nil, fun c' hc => ?_, fun _ => rfl, fun _ _ hbuf => ?_,
        fun reads before hrun => ?_⟩
      · exact Option.some.inj hc ▸ ⟨hrests, hwords⟩
      · cases hbuf
      · exact ⟨_, _, by simpa [ReadResult.bytes] using hrun, by simp, Or.inr rfl⟩
  | error =>
      cases h
      refine ⟨eventsOk_freeClient, fun c' hc => absurd hc (Option.not_mem_none c'), fun _ => rfl,
        fun hne => absurd rfl hne, fun reads before hrun => ?_⟩
      exact ⟨_, _, by simpa [ReadResult.bytes] using hrun,
        by simp [QueryEvent.answered], Or.inl rfl⟩
  | data buf =>
      have hread : readClient (some c) buf = .ok (query, events) := h
      have hstream (reads : List Bytes) (before : List QueryEvent)
          (hrun : connection reads = .ok (some c, before)) :=
        connection_snoc hrun hread
      by_cases hbuf : buf = []
      · rw [readQueryFromClient, if_pos hbuf] at h
        cases h
        refine ⟨eventsOk_freeClient, fun c' hc => absurd hc (Option.not_mem_none c'),
          fun hnil => absurd hnil (List.cons_ne_nil _ _), fun hne => absurd rfl hne,
          fun reads before hrun => ?_⟩
        exact ⟨_, _, hstream reads before hrun, List.filter_append _ _, Or.inl rfl⟩
      · have hchunk : QueryChunk buf := ⟨hbuf, hok.1⟩
        obtain ⟨hcalls, hnext⟩ := readClient_calls hrests hwords hchunk hok.2 hread
        refine ⟨hcalls, hnext, fun hnil => absurd hnil (List.cons_ne_nil _ _), fun _ buf' hmem => ?_,
          fun reads before hrun => ?_⟩
        · rw [List.mem_singleton.mp hmem]
          exact hchunk
        · exact ⟨_, _, hstream reads before hrun, List.filter_append _ _, Or.inr rfl⟩

end Reading

section Connections

-- A connection that is open: what it waits for, and that it has got or will get every
-- answer it is owed.
structure Live (σ : Serving ι) (i : ι) (c : ClientQuery) : Prop where
  rests : Rests c
  words : HoldsWords c
  placed : (σ.sendClient i).Placed
  short : ShortReplies (σ.system.clients i).reply
  written : (σ.links i).written ++ (σ.sendClient i).unsent = σ.answers i

-- What holds of every connection, also of those that are closed.
structure Owed (σ : Serving ι) (i : ι) : Prop where
  asked : ∃ query events, connection (σ.links i).received = .ok (query, events) ∧
    σ.asked i = events.filter QueryEvent.answered ∧
    ((σ.links i).query = none ∨ (σ.links i).query = query)
  inStep : InStep (ofParty i σ.served)
  written : (σ.links i).written <+: σ.answers i
  unread : (σ.links i).received = [] → (σ.system.clients i).dict = 0
  chunks : (σ.links i).query ≠ none → ∀ buf ∈ (σ.links i).received, QueryChunk buf
  live : ∀ c, (σ.links i).query = some c → σ.Live i c

-- The client, its connection and the record about it are all these speak of.
theorem Owed.of_same (h : σ.Owed i) (hlink : σ'.links i = σ.links i)
    (hclient : σ'.system.clients i = σ.system.clients i)
    (hserved : ofParty i σ'.served = ofParty i σ.served) : σ'.Owed i := by
  have hasked : σ'.asked i = σ.asked i := congrArg (List.map Prod.fst) hserved
  have hanswers : σ'.answers i = σ.answers i := congrArg (List.flatMap Prod.snd) hserved
  have hsend : σ'.sendClient i = σ.sendClient i := by
    rw [sendClient, hlink, hclient]
    rfl
  refine ⟨?_, hserved ▸ h.inStep, ?_, ?_, hlink ▸ h.chunks, fun c hc => ?_⟩
  · rw [hlink, hasked]
    exact h.asked
  · rw [hlink, hanswers]
    exact h.written
  · rw [hlink, hclient]
    exact h.unread
  · have hlive := h.live c (hlink ▸ hc)
    exact ⟨hlive.rests, hlive.words, hsend ▸ hlive.placed, hclient ▸ hlive.short, by
      rw [hlink, hsend, hanswers]
      exact hlive.written⟩

-- Another client's events are none of its business.
theorem Performed.owed_other {events : List QueryEvent} {entries : List (QueryEvent × Bytes)}
    {reply : List Bytes} (h : σ.Performed i events entries reply σ') {j : ι} (hj : j ≠ i)
    (howed : σ.Owed j) : σ'.Owed j := by
  refine howed.of_same (by rw [h.links]) (h.others j hj) ?_
  rw [h.served, ofParty_append, ofParty_of_ne (Ne.symm hj), List.append_nil]

theorem Owed.close (h : σ.Owed i) : (σ.freeClient i).Owed i where
  asked := by
    obtain ⟨query, events, hrun, hasked, -⟩ := h.asked
    refine ⟨query, events, ?_, hasked, Or.inl ?_⟩
    · simpa [freeClient] using hrun
    · simp [freeClient]
  inStep := h.inStep
  written := by
    have hwritten : ((σ.freeClient i).links i).written = (σ.links i).written := by
      simp [freeClient]
    rw [hwritten]
    exact h.written
  unread := by simpa [freeClient, System.setReply] using h.unread
  chunks := by
    intro hne
    simp [freeClient] at hne
  live := by
    intro c hc
    simp [freeClient] at hc

theorem freeClient_other {j : ι} (hj : j ≠ i) (h : σ.Owed j) : (σ.freeClient i).Owed j :=
  h.of_same (Function.update_of_ne hj _ _) (Function.update_of_ne hj _ _) rfl

-- The strings that come behind those in the queue.
theorem placed_append {c : SendClient} (h : c.Placed) (reply : List Bytes) :
    ({ c with reply := c.reply ++ reply } : SendClient).Placed ∧
      ({ c with reply := c.reply ++ reply } : SendClient).unsent = c.unsent ++ reply.flatten := by
  obtain ⟨fd, queue, sent_len⟩ := c
  cases queue with
  | nil =>
      obtain rfl : sent_len = 0 := h.zero fun msg hmsg => absurd hmsg (Option.not_mem_none msg)
      refine ⟨⟨Int.le_refl 0, fun msg _ hne => ?_, fun _ => rfl⟩, ?_⟩
      · exact Int.natCast_pos.mpr (List.length_pos_iff.mpr hne)
      · cases reply <;> simp [SendClient.unsent]
  | cons msg rest =>
      exact ⟨⟨h.nonneg, h.inside, h.zero⟩, by simp [SendClient.unsent]⟩

-- The client of a read, once its requests have been performed.
theorem Performed.live {events : List QueryEvent} {entries : List (QueryEvent × Bytes)}
    {reply : List Bytes} (h : σ.Performed i events entries reply σ') {c c' : ClientQuery}
    (hlive : σ.Live i c) (hrests : Rests c') (hwords : HoldsWords c') : σ'.Live i c' := by
  have hlink : σ'.links i = σ.links i := by rw [h.links]
  have hsend : σ'.sendClient i =
      { σ.sendClient i with reply := (σ.sendClient i).reply ++ reply } := by
    rw [sendClient, hlink, h.queued]
    rfl
  obtain ⟨hplaced, hunsent⟩ := placed_append hlive.placed reply
  have hanswers := h.answers_eq
  refine ⟨hrests, hwords, hsend ▸ hplaced, fun msg hmsg => ?_, ?_⟩
  · rw [h.queued] at hmsg
    rcases List.mem_append.mp hmsg with hmsg | hmsg
    · exact hlive.short msg hmsg
    · exact h.short msg hmsg
  · rw [hlink, hsend, hunsent, ← List.append_assoc, hlive.written, hanswers]

-- The client that has read, before it is freed where its stream ended.
theorem Performed.owed {c : ClientQuery} {nread : ReadResult} {query : Option ClientQuery}
    {events : List QueryEvent} {entries : List (QueryEvent × Bytes)} {reply : List Bytes}
    (h : σ.Performed i events entries reply σ') (hc : (σ.links i).query = some c)
    (howed : σ.Owed i) (hreads : Reads c nread query events) :
    (σ'.setLink i { σ'.links i with
      query, received := (σ'.links i).received ++ nread.bytes }).Owed i := by
  have hlink : σ'.links i = σ.links i := by rw [h.links]
  have hasked := h.asked_eq
  have hanswers := h.answers_eq
  have hlive := howed.live c hc
  obtain ⟨query₀, before, hrun, hbefore, hquery⟩ := howed.asked
  obtain rfl : query₀ = some c := by
    rcases hquery with hquery | hquery
    · rw [hc] at hquery
      cases hquery
    · rw [← hquery, hc]
  obtain ⟨query', after, hrun', hafter, hnext⟩ := hreads.stream _ _ hrun
  refine ⟨⟨query', after, ?_, ?_, ?_⟩, ?_, ?_, ?_, ?_, fun c' hc' => ?_⟩
  · simpa [hlink] using hrun'
  · exact hasked.trans ((congrArg (· ++ _) hbefore).trans hafter.symm)
  · simpa using hnext
  · have hserved : ofParty i σ'.served = ofParty i σ.served ++ entries := by
      rw [h.served, ofParty_append, ofParty_self]
    show InStep (ofParty i σ'.served)
    rw [hserved]
    exact howed.inStep.append h.inStep
  · have hwritten := howed.written.trans (List.prefix_append _ reply.flatten)
    rw [← hanswers] at hwritten
    simpa [hlink] using hwritten
  · intro hnil
    simp only [links_setLink, hlink, List.append_eq_nil_iff] at hnil
    have hnone := hreads.idle hnil.2
    rw [← h.asked, List.map_eq_nil_iff] at hnone
    subst hnone
    have hmaps := h.legal.eq_of_nil
    have hdict := congrFun (congrArg Maps.selected hmaps) i
    exact hdict.symm.trans (howed.unread hnil.1)
  · intro hne buf hbuf
    simp only [links_setLink, hlink] at hne hbuf
    rcases List.mem_append.mp hbuf with hbuf | hbuf
    · refine howed.chunks ?_ buf hbuf
      rw [hc]
      exact Option.some_ne_none c
    · exact hreads.chunk hne buf hbuf
  · have hsome : query = some c' := by simpa using hc'
    obtain ⟨hrests, hwords⟩ := hreads.next c' hsome
    have hlive' := h.live hlive hrests hwords
    have hsend : (σ'.setLink i { σ'.links i with
        query, received := (σ'.links i).received ++ nread.bytes }).sendClient i =
          σ'.sendClient i := by
      simp [sendClient]
    refine ⟨hrests, hwords, hsend ▸ hlive'.placed, hlive'.short, ?_⟩
    rw [hsend]
    simpa using hlive'.written

-- The client after a part of its queue is written.
theorem Owed.sent (h : σ.Owed i) {c : ClientQuery} (hc : (σ.links i).query = some c)
    {send : SendClient} {written : Bytes} (hfd : send.fd = (σ.links i).fd) (hplaced : send.Placed)
    (hshort : ShortReplies send.reply)
    (hstream : written ++ send.unsent = (σ.links i).written ++ (σ.sendClient i).unsent) :
    (σ.sent i send written).Owed i := by
  have hlive := h.live c hc
  have hsend : (σ.sent i send written).sendClient i = send := by
    obtain ⟨fd, reply, sent_len⟩ := send
    obtain rfl : fd = (σ.links i).fd := hfd
    simp [sendClient, Serving.sent, System.setReply]
  have hlink : (σ.sent i send written).links i =
      { σ.links i with sent_len := send.sent_len, written } := by
    simp [Serving.sent]
  rw [hlive.written] at hstream
  refine ⟨?_, h.inStep, ?_, ?_, ?_, fun c' hc' => ?_⟩
  · rw [hlink]
    exact h.asked
  · rw [hlink, answers_sent, ← hstream]
    exact List.prefix_append _ _
  · rw [hlink]
    simpa [Serving.sent, System.setReply] using h.unread
  · rw [hlink]
    exact h.chunks
  · have hsame : (σ.links i).query = some c' := by simpa [hlink] using hc'
    have hlive' := h.live c' hsame
    refine ⟨hlive'.rests, hlive'.words, by rw [hsend]; exact hplaced, ?_, ?_⟩
    · simpa [Serving.sent, System.setReply] using hshort
    · rw [hsend, hlink, answers_sent]
      exact hstream

end Connections

section Steps

-- The whole server: the requests served so far make up one order, and every connection
-- is owed its part of it.
structure Inv (m : Maps ι) (σ : Serving ι) : Prop where
  sound : σ.system.Sound
  legal : Legal Maps.Serves m σ.served σ.system.maps
  owed : ∀ i, σ.Owed i

variable {m : Maps ι}

-- What no client takes part in changes none of this.
theorem Inv.of_same (h : σ.Inv m) {system : System ι} (hsound : system.Sound)
    (hmaps : system.maps = σ.system.maps) (hclients : system.clients = σ.system.clients) :
    ({ σ with system } : Serving ι).Inv m where
  sound := hsound
  legal := by
    have hlegal := h.legal
    rwa [← hmaps] at hlegal
  owed := fun i => (h.owed i).of_same rfl (by rw [hclients]) rfl

theorem maps_setReply (σ : System ι) (i : ι) (reply : List Bytes) :
    (σ.setReply i reply).maps = σ.maps := by
  refine congrArg (Maps.mk _) (funext fun j => ?_)
  by_cases hj : j = i
  · subst hj
    simp [System.setReply]
  · simp [System.setReply, Function.update_of_ne hj]

theorem sound_setReply {σ : System ι} (h : σ.Sound) (i : ι) (reply : List Bytes) :
    (σ.setReply i reply).Sound where
  dict := h.dict
  clean := h.clean
  selected := fun j => by
    have hdict := congrFun (congrArg Maps.selected (maps_setReply σ i reply)) j
    exact Nat.lt_of_le_of_lt (Nat.le_of_eq hdict) (h.selected j)
  db_num := h.db_num

theorem Inv.free (h : σ.Inv m) (i : ι) : (σ.freeClient i).Inv m where
  sound := sound_setReply h.sound i []
  legal := by
    have hlegal := h.legal
    rwa [← maps_setReply σ.system i []] at hlegal
  owed := fun j => by
    by_cases hj : j = i
    · subst hj
      exact (h.owed j).close
    · exact freeClient_other hj (h.owed j)

theorem accept_inv (h : σ.Inv m) {fd : Int} (hfresh : σ.links i = .fresh)
    (hs : σ.act (.accept i fd) = .ok σ') : σ'.Inv m := by
  obtain ⟨system, hgo, hs⟩ := bind_eq_ok.mp hs
  cases hs
  have hsound := System.goOn_sound (a := .connect i) h.sound trivial hgo
  obtain ⟨system, hact, rfl⟩ := System.goOn_eq_ok.mp hgo
  cases hact
  have howed := h.owed i
  have hdict : (σ.system.clients i).dict = 0 := howed.unread (by rw [hfresh]; rfl)
  obtain ⟨query, events, hrun, hasked, -⟩ := howed.asked
  rw [hfresh] at hrun
  cases hrun
  have hnone : ofParty i σ.served = [] := List.map_eq_nil_iff.mp hasked
  refine ⟨hsound, ?_, fun j => ?_⟩
  · have hsame : Function.update σ.system.maps.selected i 0 = σ.system.maps.selected := by
      rw [← hdict]
      exact Function.update_eq_self i _
    have hmaps : ({ σ.system with
        clients := Function.update σ.system.clients i ⟨0, [], []⟩ } : System ι).maps =
          σ.system.maps :=
      (System.maps_update σ.system i ⟨0, [], []⟩).trans (congrArg (Maps.mk _) hsame)
    have hlegal := h.legal
    rwa [← hmaps] at hlegal
  · by_cases hj : j = i
    · subst hj
      refine ⟨⟨some createClientQuery, [], ?_, hasked, Or.inr ?_⟩, ?_, ?_, ?_, fun _ buf hbuf => ?_,
        fun c hc => ?_⟩
      · simp only [createClient, Function.update_self]
        rfl
      · simp [createClient]
      · exact hnone ▸ inStep_nil
      · simp [createClient, Link.fresh]
      · simp [createClient]
      · simp [createClient, Link.fresh] at hbuf
      · obtain rfl : createClientQuery = c := by simpa [createClient] using hc
        refine ⟨.line [], fun w hw => absurd hw List.not_mem_nil, ?_, ?_, ?_⟩
        · refine ⟨?_, fun msg hmsg => ?_, fun _ => ?_⟩
          · simp [sendClient, createClient, Link.fresh]
          · simp [sendClient, createClient] at hmsg
          · simp [sendClient, createClient, Link.fresh]
        · simp [ShortReplies, createClient]
        · have hanswers (system : System ι) : (σ.createClient system j fd).answers j = [] := by
            rw [answers, createClient, hnone]
            rfl
          rw [hanswers]
          simp [sendClient, createClient, Link.fresh, SendClient.unsent]
    · exact (h.owed j).of_same (Function.update_of_ne hj _ _) (Function.update_of_ne hj _ _) rfl

theorem readable_inv (h : σ.Inv m) {nread : ReadResult} {os : Nat → Os}
    (hok : ∀ c, (σ.links i).query = some c → ReadOk c nread)
    (hqsort : ∀ k dv, ((os k).qsort dv).Perm dv) (hs : σ.readable i nread os = .ok σ')
    (hfit : ListingsFit σ'.served) : σ'.Inv m := by
  rw [readable] at hs
  cases hc : (σ.links i).query with
  | none =>
      rw [hc] at hs
      cases hs
      exact h
  | some c =>
      rw [hc] at hs
      obtain ⟨⟨query, events⟩, hread, hs⟩ := bind_eq_ok.mp hs
      obtain ⟨σ₁, hperform, hs⟩ := bind_eq_ok.mp hs
      have hlive := (h.owed i).live c hc
      have hreads := readQuery_reads hlive.rests hlive.words (hok c hc) hread
      have hserved : σ'.served = σ₁.served := by
        cases query <;> (cases hs; rfl)
      obtain ⟨entries, reply, hdone⟩ := performAll_performed h.sound hqsort hreads.ok hperform
        (hserved ▸ hfit)
      have hinv : (σ₁.setLink i { σ₁.links i with
          query, received := (σ₁.links i).received ++ nread.bytes }).Inv m := by
        refine ⟨hdone.sound, ?_, fun j => ?_⟩
        · have hlegal := h.legal.append hdone.legal
          rwa [← hdone.served] at hlegal
        · by_cases hj : j = i
          · subst hj
            exact hdone.owed hc (h.owed j) hreads
          · exact (hdone.owed_other hj (h.owed j)).of_same (Function.update_of_ne hj _ _) rfl rfl
      cases query with
      | none =>
          cases hs
          exact hinv.free i
      | some c' =>
          cases hs
          exact hinv

theorem sent_inv (h : σ.Inv m) {c : ClientQuery} (hc : (σ.links i).query = some c)
    {send : SendClient} {written : Bytes} (hfd : send.fd = (σ.links i).fd) (hplaced : send.Placed)
    (hshort : ShortReplies send.reply)
    (hstream : written ++ send.unsent = (σ.links i).written ++ (σ.sendClient i).unsent) :
    (σ.sent i send written).Inv m where
  sound := sound_setReply h.sound i send.reply
  legal := by
    have hlegal := h.legal
    rwa [← maps_setReply σ.system i send.reply] at hlegal
  owed := fun j => by
    by_cases hj : j = i
    · subst hj
      exact (h.owed j).sent hc hfd hplaced hshort hstream
    · exact (h.owed j).of_same (Function.update_of_ne hj _ _) (Function.update_of_ne hj _ _) rfl

theorem writable_inv (h : σ.Inv m) {results : List WriteResult} {errno : Nat}
    (hs : σ.writable i results errno = .ok σ') : σ'.Inv m := by
  rw [writable] at hs
  cases hc : (σ.links i).query with
  | none =>
      rw [hc] at hs
      cases hs
      exact h
  | some c =>
      rw [hc] at hs
      have hlive := (h.owed i).live c hc
      obtain ⟨send, written, nwritten, errno', hloop, hplaced, hshort, hstream, hfd, -⟩ :=
        sendLoop_spec hlive.placed hlive.short (σ.links i).written 0 errno results
      have hsent := sent_inv h hc hfd hplaced hshort hstream
      dsimp only at hs
      rw [hloop, ok_bind] at hs
      dsimp only at hs
      split_ifs at hs with herror hempty
      · cases hs
        exact hsent.free i
      · cases hs
        have hnil : send.reply = [] := List.length_eq_zero_iff.mp hempty
        have hunsent : ({ send with sent_len := 0 } : SendClient).unsent = send.unsent := by
          simp [SendClient.unsent, hnil]
        refine sent_inv h hc hfd ⟨Int.le_refl 0, fun msg hmsg => ?_, fun _ => rfl⟩ hshort
          (by rw [hunsent, hstream])
        rw [hnil] at hmsg
        cases hmsg
      · cases hs
        exact hsent

-- A connection is accepted once, a read brings no more than fits in its buffer, qsort
-- keeps the elements it sorts.
def Ok (σ : Serving ι) : NetEvent ι → Prop
  | .accept i _ => σ.links i = .fresh
  | .readable i nread os =>
      (∀ c, (σ.links i).query = some c → ReadOk c nread) ∧ ∀ k dv, ((os k).qsort dv).Perm dv
  | .child a => a.ofChild = true
  | _ => True

theorem act_inv (h : σ.Inv m) {event : NetEvent ι} (hok : σ.Ok event) (hs : σ.act event = .ok σ')
    (hfit : ListingsFit σ'.served) : σ'.Inv m := by
  cases event with
  | accept i fd => exact accept_inv h hok hs
  | readable i nread os => exact readable_inv h hok.1 hok.2 hs hfit
  | writable i results errno => exact writable_inv h hs
  | timeout i =>
      cases hs
      exact h.free i
  | timer io =>
      obtain ⟨system, hgo, hs⟩ := bind_eq_ok.mp hs
      cases hs
      have hsound := System.goOn_sound (a := .cron io) h.sound trivial hgo
      obtain ⟨system, hact, rfl⟩ := System.goOn_eq_ok.mp hgo
      obtain ⟨system', hact', -, hmaps⟩ := System.act_other (h.sound.setStop false) rfl
        (a := .cron io) rfl
      obtain rfl := Except.ok.inj (hact.symm.trans hact')
      refine h.of_same hsound hmaps ?_
      obtain ⟨s, -, hact⟩ := bind_eq_ok.mp hact
      cases hact
      rfl
  | child a =>
      obtain ⟨system, hact, hs⟩ := bind_eq_ok.mp hs
      cases hs
      have hsound := h.sound.of_same (System.child_same hok hact)
      obtain ⟨hserver, hclients, -⟩ := System.child_same hok hact
      exact h.of_same hsound (by rw [System.maps, hserver, hclients]; rfl) hclients

end Steps

end Serving

end Cutis

import Cutis.Basic
import Cutis.Event
import Cutis.Lib.Runs

namespace Cutis

def EAGAIN : Nat := 11

-- The fields of a client that the writing of its replies uses.
structure SendClient where
  fd : Int
  reply : List Bytes
  sent_len : Int

-- A client until it is freed, the event loop, and the bytes written to the client's
-- socket.
structure SendState where
  client : Option SendClient
  events : List AeFileEvent
  written : Bytes

-- A call of write: the socket has room for so many bytes, or there is an error.
inductive WriteResult
  | accepts (room : Nat)
  | error (errno : Nat)
deriving DecidableEq, Repr

-- write(c->fd, msg + sent_len, count): the bytes written, the result and errno. The
-- string has a terminator behind it.
def writeMsg (msg : Bytes) (sent_len : Int) (count : Nat) (errno : Nat) :
    WriteResult → Except Fault (Bytes × Int × Nat)
  | .error e => return ([], -1, e)
  | .accepts room =>
      let n := min room count
      if 0 ≤ sent_len ∧ sent_len.toNat + n ≤ msg.length + 1 then
        return (((msg ++ [NUL]).drop sent_len.toNat).take n, toInt32 n, errno)
      else throw .outOfBounds

-- The passes of the loop that drop a string. Its length is converted to int.
def skipEmpty : List Bytes → List Bytes
  | [] => []
  | msg :: rest => if toInt32 msg.length = 0 then skipEmpty rest else msg :: rest

-- The size_t argument of write.
def writeCount (len sent_len : Int) : Nat := (toInt32 (len - sent_len) % 2 ^ 64).toNat

-- What a write that stored something does to the client.
def advance (c : SendClient) (msg : Bytes) (rest : List Bytes) (nwritten : Int) : SendClient :=
  let len := toInt32 msg.length
  let sent_len := toInt32 (c.sent_len + nwritten)
  if sent_len = len then { c with reply := rest, sent_len := 0 }
  else { c with reply := msg :: rest, sent_len }

-- The loop of SendReplyToClient. The results are those of its calls of write; when
-- they are used up, the socket takes nothing more.
def sendLoop (c : SendClient) (written : Bytes) (nwritten : Int) (errno : Nat) :
    List WriteResult → Except Fault (SendClient × Bytes × Int × Nat)
  | [] =>
      let reply := skipEmpty c.reply
      if reply = [] then return ({ c with reply }, written, nwritten, errno)
      else return ({ c with reply }, written, -1, EAGAIN)
  | result :: results =>
      match skipEmpty c.reply with
      | [] => return ({ c with reply := [] }, written, nwritten, errno)
      | msg :: rest => do
          let (bytes, nwritten, errno) ←
            writeMsg msg c.sent_len (writeCount (toInt32 msg.length) c.sent_len) errno result
          let written := written ++ bytes
          if nwritten ≤ 0 then return ({ c with reply := msg :: rest }, written, nwritten, errno)
          else sendLoop (advance c msg rest nwritten) written nwritten errno results

def freeClient (s : SendState) (c : SendClient) : SendState where
  client := none
  events := aeDeleteFileEvent (aeDeleteFileEvent s.events c.fd AE_READABLE) c.fd AE_WRITABLE
  written := s.written

-- The value errno has before the call counts where write reports no error.
def sendReplyToClient (s : SendState) (results : List WriteResult) (errno : Nat) :
    Except Fault SendState :=
  match s.client with
  | none => throw .useAfterFree
  | some c => do
      let (c, written, nwritten, errno) ← sendLoop c s.written 0 errno results
      let s := { s with client := some c, written }
      if nwritten = -1 ∧ errno ≠ EAGAIN then return freeClient s c
      else if c.reply.length = 0 then
        return { s with
          client := some { c with sent_len := 0 }
          events := aeDeleteFileEvent s.events c.fd AE_WRITABLE }
      else return s

-- AddReply and AddReplySds.
def queueReply (s : SendState) (o : Bytes) : Except Fault SendState :=
  match s.client with
  | none => throw .useAfterFree
  | some c =>
      let events :=
        if c.reply.length = 0 then aeCreateFileEvent s.events c.fd AE_WRITABLE .SendReplyToClient
        else s.events
      return { s with client := some { c with reply := c.reply ++ [o] }, events }

-- The bytes of the queue that are not written yet.
def SendClient.unsent (c : SendClient) : Bytes :=
  match c.reply with
  | [] => []
  | msg :: rest => msg.drop c.sent_len.toNat ++ rest.flatten

-- The offset is one into the first element.
structure SendClient.Placed (c : SendClient) : Prop where
  nonneg : 0 ≤ c.sent_len
  inside : ∀ msg ∈ c.reply.head?, msg ≠ [] → c.sent_len < msg.length
  zero : (∀ msg ∈ c.reply.head?, msg = []) → c.sent_len = 0

-- The lengths fit in an int.
def ShortReplies (reply : List Bytes) : Prop := ∀ msg ∈ reply, msg.length < 2 ^ 31

section Loop

theorem ShortReplies.tail {msg : Bytes} {rest : List Bytes} (h : ShortReplies (msg :: rest)) :
    ShortReplies rest :=
  fun o ho => h o (List.mem_cons_of_mem _ ho)

theorem length_eq_zero_iff {msg : Bytes} (h : msg.length < 2 ^ 31) :
    toInt32 msg.length = 0 ↔ msg = [] := by
  rw [toInt32_natCast _ h, Int.natCast_eq_zero, List.length_eq_zero_iff]

theorem skipEmpty_cons {msg : Bytes} (h : msg.length < 2 ^ 31) (hne : msg ≠ [])
    (rest : List Bytes) : skipEmpty (msg :: rest) = msg :: rest := by
  rw [skipEmpty, if_neg (mt (length_eq_zero_iff h).mp hne)]

theorem skipEmpty_nil_cons (rest : List Bytes) : skipEmpty ([] :: rest) = skipEmpty rest := by
  rw [skipEmpty, if_pos ((length_eq_zero_iff (by decide)).mpr rfl)]

theorem skipEmpty_spec {reply : List Bytes} (h : ShortReplies reply) :
    (skipEmpty reply).flatten = reply.flatten ∧ ShortReplies (skipEmpty reply) ∧
      ∀ msg ∈ (skipEmpty reply).head?, msg ≠ [] := by
  induction reply with
  | nil => exact ⟨rfl, nofun, nofun⟩
  | cons msg rest ih =>
      by_cases hmsg : msg = []
      · subst hmsg
        rw [skipEmpty_nil_cons, List.flatten_cons, List.nil_append]
        exact ih h.tail
      · rw [skipEmpty_cons (h msg (by simp)) hmsg]
        refine ⟨rfl, h, fun o ho => ?_⟩
        obtain rfl := Option.some.inj ho
        exact hmsg

variable {c : SendClient}

-- Dropping empty strings leaves what is unsent, and the offset.
theorem skip_placed (hplaced : c.Placed) (hshort : ShortReplies c.reply) :
    ({ c with reply := skipEmpty c.reply } : SendClient).Placed ∧
      ({ c with reply := skipEmpty c.reply } : SendClient).unsent = c.unsent := by
  obtain ⟨hflatten, -, hhead⟩ := skipEmpty_spec hshort
  obtain ⟨fd, reply, sent_len⟩ := c
  cases reply with
  | nil => exact ⟨hplaced, rfl⟩
  | cons msg rest =>
      by_cases hmsg : msg = []
      · subst hmsg
        obtain rfl : sent_len = 0 := hplaced.zero fun o ho => (Option.some.inj ho).symm
        simp only [skipEmpty_nil_cons] at hflatten hhead ⊢
        refine ⟨⟨Int.le_refl 0, fun o ho hne => ?_, fun _ => rfl⟩, ?_⟩
        · exact Int.natCast_pos.mpr (List.length_pos_iff.mpr hne)
        · simp only [SendClient.unsent]
          cases hskip : skipEmpty rest with
          | nil => simpa [hskip] using hflatten
          | cons o os => simpa [hskip] using hflatten
      · simp only [skipEmpty_cons (hshort msg (by simp)) hmsg]
        exact ⟨hplaced, trivial⟩

section Write

variable {msg : Bytes} {rest : List Bytes} {sent : Nat} (hlen : msg.length < 2 ^ 31)
  (hsent : sent < msg.length)

include hlen hsent

theorem writeCount_eq : writeCount (toInt32 msg.length) sent = msg.length - sent := by
  have hsub : (msg.length : Int) - sent = (msg.length - sent : Nat) := by omega
  rw [writeCount, toInt32_natCast _ hlen, hsub, toInt32_natCast _ (by omega)]
  omega

-- A call of write stores a piece of what is left of the string.
theorem writeMsg_accepts (errno room : Nat) :
    writeMsg msg sent (writeCount (toInt32 msg.length) sent) errno (.accepts room) =
      .ok ((msg.drop sent).take (min room (msg.length - sent)), (min room (msg.length - sent) : Nat),
        errno) := by
  have hfits : 0 ≤ (sent : Int) ∧
      (sent : Int).toNat + min room (msg.length - sent) ≤ msg.length + 1 := by omega
  have hbytes : ((msg ++ [NUL]).drop sent).take (min room (msg.length - sent)) =
      (msg.drop sent).take (min room (msg.length - sent)) := by
    rw [List.drop_append_of_le_length (by omega), List.take_append_of_le_length]
    rw [List.length_drop]
    omega
  have hint : min room (msg.length - sent) < 2 ^ 31 := by omega
  rw [writeCount_eq hlen hsent, writeMsg, if_pos hfits, Int.toNat_natCast, hbytes,
    toInt32_natCast _ hint]
  rfl

theorem advance_placed (hc : c.sent_len = sent) (hrest : ShortReplies (msg :: rest)) {n : Nat}
    (hn : n ≤ msg.length - sent) :
    (advance c msg rest n).Placed ∧ ShortReplies (advance c msg rest n).reply ∧
      (msg.drop sent).take n ++ (advance c msg rest n).unsent = msg.drop sent ++ rest.flatten ∧
      (advance c msg rest n).fd = c.fd := by
  have hnext : toInt32 (c.sent_len + n) = (sent + n : Nat) := by
    rw [hc, ← Int.natCast_add, toInt32_natCast _ (by omega)]
  rw [advance, hnext, toInt32_natCast _ hlen]
  split_ifs with hall
  · have hwhole : n = msg.length - sent := by omega
    refine ⟨⟨Int.le_refl 0, fun o _ hne => ?_, fun _ => rfl⟩, hrest.tail, ?_, rfl⟩
    · exact Int.natCast_pos.mpr (List.length_pos_iff.mpr hne)
    · rw [List.take_of_length_le (by rw [List.length_drop, hwhole])]
      refine congrArg (msg.drop sent ++ ·) ?_
      cases rest <;> rfl
  · refine ⟨⟨Int.natCast_nonneg _, fun o ho _ => ?_, fun h => ?_⟩, hrest, ?_, rfl⟩
    · obtain rfl := Option.some.inj ho
      show ((sent + n : Nat) : Int) < _
      omega
    · have hnil := h msg rfl
      rw [hnil] at hsent
      exact absurd hsent (Nat.not_lt_zero _)
    · show (msg.drop sent).take n ++ (msg.drop (sent + n) ++ rest.flatten) = _
      rw [← List.append_assoc, ← List.drop_drop, List.take_append_drop]

end Write

-- The loop moves bytes from the queue to the socket.
theorem sendLoop_spec (hplaced : c.Placed) (hshort : ShortReplies c.reply) (written : Bytes)
    (nwritten : Int) (errno : Nat) (results : List WriteResult) :
    ∃ c' written' nwritten' errno',
      sendLoop c written nwritten errno results = .ok (c', written', nwritten', errno') ∧
        c'.Placed ∧ ShortReplies c'.reply ∧ written' ++ c'.unsent = written ++ c.unsent ∧
        c'.fd = c.fd ∧ (c'.reply ≠ [] → c.reply ≠ []) := by
  induction results generalizing c written nwritten errno with
  | nil =>
      obtain ⟨hplaced', hunsent⟩ := skip_placed hplaced hshort
      have hshort' := (skipEmpty_spec hshort).2.1
      have hold : skipEmpty c.reply ≠ [] → c.reply ≠ [] := by
        intro hne hnil
        rw [hnil] at hne
        exact hne rfl
      have hbytes := congrArg (written ++ ·) hunsent
      rw [sendLoop]
      split
      · exact ⟨_, _, _, _, rfl, hplaced', hshort', hbytes, rfl, hold⟩
      · exact ⟨_, _, _, _, rfl, hplaced', hshort', hbytes, rfl, hold⟩
  | cons result results ih =>
      obtain ⟨hplaced', hunsent⟩ := skip_placed hplaced hshort
      obtain ⟨-, hshort', hhead⟩ := skipEmpty_spec hshort
      obtain ⟨fd, reply, sent_len⟩ := c
      obtain ⟨sent, rfl⟩ : ∃ sent : Nat, sent_len = sent :=
        Int.eq_ofNat_of_zero_le hplaced.nonneg
      rw [sendLoop]
      cases hskip : skipEmpty reply with
      | nil =>
          simp only [hskip] at hplaced' hunsent hshort' ⊢
          exact ⟨_, _, _, _, rfl, hplaced', hshort', congrArg (written ++ ·) hunsent, rfl,
            fun hne => absurd rfl hne⟩
      | cons msg rest =>
          have hold : reply ≠ [] := by
            rintro rfl
            cases hskip
          simp only [hskip] at hplaced' hunsent hshort' hhead ⊢
          have hne : msg ≠ [] := hhead msg rfl
          have hsent : sent < msg.length := Int.ofNat_lt.mp (hplaced'.inside msg rfl hne)
          have hlen := hshort' msg (by simp)
          cases result with
          | error e =>
              exact ⟨_, _, _, _, rfl, hplaced', hshort', by
                rw [List.append_nil]
                exact congrArg (written ++ ·) hunsent, rfl, fun _ => hold⟩
          | accepts room =>
              rw [writeMsg_accepts hlen hsent, ok_bind]
              split_ifs with hstop
              · have hzero : ((min room (msg.length - sent) : Nat) : Int) ≤ 0 := hstop
                have hzero : min room (msg.length - sent) = 0 := by omega
                refine ⟨_, _, _, _, rfl, hplaced', hshort', ?_, rfl, fun _ => hold⟩
                rw [hzero, List.take_zero, List.append_nil, hunsent]
              · obtain ⟨hnext, hshort'', hbytes, hfd⟩ :=
                  advance_placed (c := ⟨fd, reply, sent⟩) hlen hsent rfl hshort'
                    (Nat.min_le_right room (msg.length - sent))
                obtain ⟨c', written', nwritten', errno', hloop, hc₁, hc₂, hc₃, hc₄, -⟩ :=
                  ih hnext hshort'' (written ++ (msg.drop sent).take (min room (msg.length - sent)))
                    (min room (msg.length - sent) : Nat) errno
                refine ⟨c', written', nwritten', errno', hloop, hc₁, hc₂, ?_, hc₄.trans hfd,
                  fun _ => hold⟩
                rw [hc₃, List.append_assoc, hbytes, ← hunsent]
                rfl

end Loop

section Registration

def writableEvent (fd : Int) : AeFileEvent := ⟨fd, AE_WRITABLE, .SendReplyToClient⟩

-- The events of a client: it waits until it can write as long as it has replies.
def Armed (events : List AeFileEvent) (fd : Int) (reply : List Bytes) : Prop :=
  ∃ own : List AeFileEvent, (∀ fe ∈ own, fe.mask = AE_READABLE) ∧
    eventsOf events fd = if reply = [] then own else writableEvent fd :: own

variable {events : List AeFileEvent} {fd : Int} {reply : List Bytes}

theorem armed_iff (h : Armed events fd reply) :
    (∃ fe ∈ events, fe.fd = fd ∧ fe.mask = AE_WRITABLE) ↔ reply ≠ [] := by
  obtain ⟨own, hown, hevents⟩ := h
  constructor
  · rintro ⟨fe, hmem, hfd, hmask⟩ hreply
    rw [if_pos hreply] at hevents
    have hfe : fe ∈ eventsOf events fd := List.mem_filter.mpr ⟨hmem, by simpa using hfd⟩
    have hread := hown fe (hevents ▸ hfe)
    rw [hmask] at hread
    exact absurd hread (by decide)
  · intro hreply
    rw [if_neg hreply] at hevents
    have hfe : writableEvent fd ∈ eventsOf events fd := by
      rw [hevents]
      exact List.mem_cons_self
    exact ⟨_, (List.mem_filter.mp hfe).1, rfl, rfl⟩

theorem armed_add (h : Armed events fd reply) (o : Bytes) :
    Armed (if reply.length = 0 then aeCreateFileEvent events fd AE_WRITABLE .SendReplyToClient
      else events) fd (reply ++ [o]) := by
  obtain ⟨own, hown, hevents⟩ := h
  refine ⟨own, hown, ?_⟩
  rw [if_neg (List.append_ne_nil_of_right_ne_nil _ (List.cons_ne_nil _ _))]
  by_cases hreply : reply = []
  · rw [if_pos hreply] at hevents
    rw [if_pos (List.length_eq_zero_iff.mpr hreply), eventsOf_create_new, hevents]
    · rfl
    · intro fe hfe
      rw [hown fe (hevents ▸ hfe)]
      rfl
  · rw [if_neg hreply] at hevents
    rw [if_neg (mt List.length_eq_zero_iff.mp hreply), hevents]

theorem armed_delete (h : Armed events fd reply) :
    Armed (aeDeleteFileEvent events fd AE_WRITABLE) fd [] := by
  obtain ⟨own, hown, hevents⟩ := h
  have hnone : own.eraseP (fun fe => fe.mask = AE_WRITABLE) = own := by
    refine List.eraseP_of_forall_not fun fe hfe => ?_
    rw [hown fe hfe]
    decide
  refine ⟨own, hown, ?_⟩
  rw [if_pos rfl, eventsOf_delete, hevents]
  split_ifs
  · exact hnone
  · exact List.eraseP_cons_of_pos (decide_eq_true rfl)

theorem armed_nonempty {reply' : List Bytes} (h : Armed events fd reply) (hreply : reply ≠ [])
    (hreply' : reply' ≠ []) : Armed events fd reply' := by
  obtain ⟨own, hown, hevents⟩ := h
  exact ⟨own, hown, by rw [hevents, if_neg hreply, if_neg hreply']⟩

end Registration

section Runs

-- The events of a run: what happens to the client, and what happens to the events of
-- other files.
inductive SendEvent
  | addReply (o : Bytes)
  | send (results : List WriteResult) (errno : Nat)
  | create (fd : Int) (mask : Nat) (proc : AeFileProc)
  | delete (fd : Int) (mask : Nat)

namespace SendState

def act (s : SendState) : SendEvent → Except Fault SendState
  | .addReply o => queueReply s o
  | .send results errno => sendReplyToClient s results errno
  | .create fd mask proc => return { s with events := aeCreateFileEvent s.events fd mask proc }
  | .delete fd mask => return { s with events := aeDeleteFileEvent s.events fd mask }

-- A client before its first reply.
def Start (s : SendState) (added : Bytes) : Prop :=
  added = [] ∧ s.written = [] ∧ ∃ fd, s.client = some { fd, reply := [], sent_len := 0 } ∧
    ∀ fe ∈ s.events, fe.fd = fd → fe.mask = AE_READABLE

-- All replies so far.
def nextAdded (added : Bytes) (_ : SendState) (e : SendEvent) (_ : SendState) : Bytes :=
  match e with
  | .addReply o => added ++ o
  | _ => added

-- The file of an open client is no other file.
def Apart (s : SendState) : SendEvent → Prop
  | .create fd _ _ | .delete fd _ => ∀ c, s.client = some c → fd ≠ c.fd
  | _ => True

def Run (ok : SendEvent → Prop) : SendState → Bytes → Prop :=
  Runs.Reach act nextAdded Start fun _ s e => s.Apart e ∧ ok e

-- What the client gets is what was added, and it waits exactly while it has replies.
structure Intact (s : SendState) (added : Bytes) (c : SendClient) : Prop where
  stream : s.written ++ c.unsent = added
  placed : c.Placed
  registered : (∃ fe ∈ s.events, fe.fd = c.fd ∧ fe.mask = AE_WRITABLE) ↔ c.reply ≠ []

end SendState

-- The length of the reply fits in an int.
def SendEvent.Short : SendEvent → Prop
  | .addReply o => o.length < 2 ^ 31
  | _ => True

namespace SendState

variable {s s' : SendState} {added : Bytes} {c : SendClient}

structure Inv (s : SendState) (added : Bytes) (c : SendClient) : Prop where
  stream : s.written ++ c.unsent = added
  placed : c.Placed
  short : ShortReplies c.reply
  armed : Armed s.events c.fd c.reply

theorem Inv.intact (h : s.Inv added c) : s.Intact added c :=
  ⟨h.stream, h.placed, armed_iff h.armed⟩

theorem inv_queueReply (hc : s.client = some c) (h : s.Inv added c) {o : Bytes}
    (ho : o.length < 2 ^ 31) :
    ∃ s' c', queueReply s o = .ok s' ∧ s'.client = some c' ∧ s'.Inv (added ++ o) c' := by
  obtain ⟨hstream, hplaced, hshort, harmed⟩ := h
  refine ⟨_, { c with reply := c.reply ++ [o] }, by rw [queueReply, hc]; rfl, rfl,
    ?_, ?_, ?_, armed_add harmed o⟩
  · have hunsent : ({ c with reply := c.reply ++ [o] } : SendClient).unsent = c.unsent ++ o := by
      cases hreply : c.reply with
      | nil =>
          have hzero : c.sent_len = 0 := hplaced.zero (by rw [hreply]; exact nofun)
          simp [SendClient.unsent, hreply, hzero]
      | cons msg rest => simp [SendClient.unsent, hreply]
    rw [hunsent, ← List.append_assoc, hstream]
  · cases hreply : c.reply with
    | nil =>
        have hzero : c.sent_len = 0 := hplaced.zero (by rw [hreply]; exact nofun)
        refine ⟨hplaced.nonneg, fun msg hmsg hne => ?_, fun _ => hzero⟩
        show c.sent_len < _
        rw [hzero]
        exact Int.natCast_pos.mpr (List.length_pos_iff.mpr hne)
    | cons msg rest =>
        have hhead : (c.reply ++ [o]).head? = c.reply.head? := by rw [hreply]; rfl
        refine ⟨hplaced.nonneg, fun m hm => hplaced.inside m ?_, fun hm => hplaced.zero ?_⟩
        · rw [hreply]
          exact hm
        · rw [hreply]
          exact hm
  · intro msg hmsg
    rcases List.mem_append.mp hmsg with hmsg | hmsg
    · exact hshort msg hmsg
    · exact List.mem_singleton.mp hmsg ▸ ho

-- An error other than EAGAIN ends the client.
theorem inv_sendReply (hc : s.client = some c) (h : s.Inv added c) (results : List WriteResult)
    (errno : Nat) :
    ∃ s', sendReplyToClient s results errno = .ok s' ∧
      (s'.client = none ∨ ∃ c', s'.client = some c' ∧ s'.Inv added c') := by
  obtain ⟨hstream, hplaced, hshort, harmed⟩ := h
  obtain ⟨c', written, nwritten, errno', hloop, hplaced', hshort', hstream', hfd, hold⟩ :=
    sendLoop_spec hplaced hshort s.written 0 errno results
  rw [hstream] at hstream'
  rw [← hfd] at harmed
  rw [sendReplyToClient, hc]
  dsimp only
  rw [hloop, ok_bind]
  dsimp only
  split_ifs with hfailed hempty
  · exact ⟨_, rfl, Or.inl rfl⟩
  · have hreply : c'.reply = [] := List.length_eq_zero_iff.mp hempty
    have hzero : c'.sent_len = 0 := hplaced'.zero (by rw [hreply]; exact nofun)
    have hsame : ({ c' with sent_len := 0 } : SendClient) = c' := by
      rw [← hzero]
    rw [hsame]
    refine ⟨_, rfl, Or.inr ⟨c', rfl, hstream', hplaced', hshort', ?_⟩⟩
    rw [hreply]
    exact armed_delete harmed
  · have hne : c'.reply ≠ [] := mt List.length_eq_zero_iff.mpr hempty
    exact ⟨_, rfl, Or.inr ⟨c', rfl, hstream', hplaced', hshort',
      armed_nonempty harmed (hold hne) hne⟩⟩

-- One event keeps the invariant, and the server comes back from it.
theorem inv_act (hc : s.client = some c) (h : s.Inv added c) {e : SendEvent}
    (hapart : s.Apart e) (hshort : e.Short) :
    ∃ s', s.act e = .ok s' ∧
      (s'.client = none ∨ ∃ c', s'.client = some c' ∧ s'.Inv (nextAdded added s e s') c') := by
  cases e with
  | addReply o =>
      obtain ⟨s', c', hact, hc', hinv⟩ := inv_queueReply hc h hshort
      exact ⟨s', hact, Or.inr ⟨c', hc', hinv⟩⟩
  | send results errno => exact inv_sendReply hc h results errno
  | create fd mask proc =>
      refine ⟨_, rfl, Or.inr ⟨c, hc, h.stream, h.placed, h.short, ?_⟩⟩
      rw [Armed, eventsOf_create_other (hapart c hc)]
      exact h.armed
  | delete fd mask =>
      refine ⟨_, rfl, Or.inr ⟨c, hc, h.stream, h.placed, h.short, ?_⟩⟩
      rw [Armed, eventsOf_delete_other (hapart c hc)]
      exact h.armed

theorem inv_start (h : s.Start added) : ∃ c, s.client = some c ∧ s.Inv added c := by
  obtain ⟨rfl, hwritten, fd, hc, hevents⟩ := h
  refine ⟨_, hc, by rw [hwritten]; rfl, ⟨Int.le_refl 0, nofun, fun _ => rfl⟩, nofun,
    eventsOf s.events fd, fun fe hfe => ?_, by rw [if_pos rfl]⟩
  obtain ⟨hmem, hfd⟩ := List.mem_filter.mp hfe
  exact hevents fe hmem (by simpa using hfd)

theorem inv_run (h : Run SendEvent.Short s added) :
    s.client = none ∨ ∃ c, s.client = some c ∧ s.Inv added c := by
  refine Runs.Reach.invariant
    (I := fun s added => s.client = none ∨ ∃ c, s.client = some c ∧ s.Inv added c) ?_ ?_ h
  · exact fun _ _ hs => Or.inr (inv_start hs)
  · rintro s added e s' (hnone | ⟨c, hc, hinv⟩) ⟨hapart, hshort⟩ hact
    · refine Or.inl ?_
      cases e with
      | addReply => simp only [act, queueReply, hnone] at hact; cases hact
      | send => simp only [act, sendReplyToClient, hnone] at hact; cases hact
      | create | delete => cases hact; exact hnone
    · obtain ⟨s'', hact', hinv'⟩ := inv_act hc hinv hapart hshort
      obtain rfl := Except.ok.inj (hact'.symm.trans hact)
      exact hinv'

-- In every run whose replies have lengths that fit in an int, the stream is intact in
-- every state reached, and every event is got through.
theorem intact_of_short (h : Run SendEvent.Short s added) (hc : s.client = some c) :
    s.Intact added c ∧ ∀ e, s.Apart e → e.Short → ∃ s', s.act e = .ok s' := by
  rcases inv_run h with hnone | ⟨c', hc', hinv⟩
  · cases hnone.symm.trans hc
  · obtain rfl := Option.some.inj (hc'.symm.trans hc)
    refine ⟨hinv.intact, fun e hapart hshort => ?_⟩
    obtain ⟨s', hact, -⟩ := inv_act hc hinv hapart hshort
    exact ⟨s', hact⟩

def fresh : SendState where
  client := some { fd := 5, reply := [], sent_len := 0 }
  events := [⟨5, AE_READABLE, .ReadQueryFromClient⟩]
  written := []

def queued (o : Bytes) : SendState where
  client := some { fd := 5, reply := [o], sent_len := 0 }
  events := [writableEvent 5, ⟨5, AE_READABLE, .ReadQueryFromClient⟩]
  written := []

theorem start_fresh : fresh.Start [] :=
  ⟨rfl, rfl, 5, rfl, fun fe hfe _ => by rw [List.mem_singleton.mp hfe]⟩

theorem run_queued (ok : SendEvent → Prop) (o : Bytes) (ho : ok (.addReply o)) :
    Run ok (queued o) o := by
  have hstart : Run ok fresh [] := Runs.Reach.start start_fresh
  have hact : fresh.act (.addReply o) = .ok (queued o) := rfl
  have hapart : fresh.Apart (.addReply o) := trivial
  exact Runs.Reach.step hstart ⟨hapart, ho⟩ hact

-- Two replies, of which the socket has taken three bytes.
def partlySent : SendState where
  client := some { fd := 5, reply := [sdsnew "+OK\r\n", sdsnew ":1\r\n"], sent_len := 3 }
  events := [writableEvent 5, ⟨5, AE_READABLE, .ReadQueryFromClient⟩]
  written := sdsnew "+OK"

theorem act_partlySent :
    act { queued (sdsnew "+OK\r\n") with
        client := some { fd := 5, reply := [sdsnew "+OK\r\n", sdsnew ":1\r\n"], sent_len := 0 } }
      (.send [.accepts 3, .error EAGAIN] 0) = .ok partlySent := by
  have hloop : sendLoop { fd := 5, reply := [sdsnew "+OK\r\n", sdsnew ":1\r\n"], sent_len := 0 } []
      0 0 [.accepts 3, .error EAGAIN] =
        .ok ({ fd := 5, reply := [sdsnew "+OK\r\n", sdsnew ":1\r\n"], sent_len := 3 },
          sdsnew "+OK", -1, EAGAIN) := by
    have hskip : skipEmpty [sdsnew "+OK\r\n", sdsnew ":1\r\n"] =
        [sdsnew "+OK\r\n", sdsnew ":1\r\n"] := by decide
    have hfirst : writeMsg (sdsnew "+OK\r\n") 0 (writeCount (toInt32 (sdsnew "+OK\r\n").length) 0) 0
        (.accepts 3) = .ok (sdsnew "+OK", 3, 0) := by decide +kernel
    have hrest : advance { fd := 5, reply := [sdsnew "+OK\r\n", sdsnew ":1\r\n"], sent_len := 0 }
        (sdsnew "+OK\r\n") [sdsnew ":1\r\n"] 3 =
          { fd := 5, reply := [sdsnew "+OK\r\n", sdsnew ":1\r\n"], sent_len := 3 } := by
      rw [advance, if_neg (by decide)]
      rfl
    rw [sendLoop]
    dsimp only
    rw [hskip]
    dsimp only
    rw [hfirst, ok_bind]
    dsimp only
    rw [if_neg (by decide), hrest, sendLoop]
    dsimp only
    rw [hskip]
    rfl
  rw [act, sendReplyToClient, queued]
  dsimp only
  rw [hloop]
  rfl

theorem intact_partlySent :
    partlySent.Intact (sdsnew "+OK\r\n:1\r\n")
      { fd := 5, reply := [sdsnew "+OK\r\n", sdsnew ":1\r\n"], sent_len := 3 } := by
  have hshort (o : Bytes) (ho : o.length < 100) : SendEvent.Short (.addReply o) := by
    show o.length < 2 ^ 31
    omega
  have hone := run_queued SendEvent.Short (sdsnew "+OK\r\n") (hshort _ (by decide))
  have htwo := Runs.Reach.step (a := SendEvent.addReply (sdsnew ":1\r\n")) hone
    ⟨trivial, hshort _ (by decide)⟩ rfl
  have hsent := Runs.Reach.step (a := SendEvent.send [.accepts 3, .error EAGAIN] 0)
    htwo ⟨trivial, trivial⟩ act_partlySent
  exact (intact_of_short hsent rfl).1

theorem sendReplyToClient_queued {o : Bytes} (ho : toInt32 o.length = 0) :
    sendReplyToClient (queued o) [] 0 = .ok fresh := by
  have hskip : skipEmpty [o] = [] := by
    rw [skipEmpty, if_pos ho]
    rfl
  have hloop : sendLoop { fd := 5, reply := [o], sent_len := 0 } [] 0 0 [] =
      .ok ({ fd := 5, reply := [], sent_len := 0 }, [], 0, 0) := by
    rw [sendLoop, hskip]
    rfl
  rw [sendReplyToClient, queued]
  dsimp only
  rw [hloop]
  rfl

-- A reply of 2^32 bytes is dropped as if it were empty.
theorem not_intact_long :
    ∃ s added c, Run (fun _ => True) s added ∧ s.client = some c ∧ ¬s.Intact added c := by
  have hlen : ((List.replicate (2 ^ 32) 0 : Bytes).length : Int) = 2 ^ 32 := by
    rw [List.length_replicate]
    rfl
  have hzero : toInt32 (List.replicate (2 ^ 32) 0 : Bytes).length = 0 := by
    rw [hlen]
    decide
  have hrun := run_queued (fun _ => True) (List.replicate (2 ^ 32) 0) trivial
  have hact : (queued (List.replicate (2 ^ 32) 0)).act (.send [] 0) = .ok fresh :=
    sendReplyToClient_queued hzero
  have hapart : (queued (List.replicate (2 ^ 32) 0)).Apart (.send [] 0) := trivial
  refine ⟨fresh, List.replicate (2 ^ 32) 0, _, Runs.Reach.step hrun ⟨hapart, trivial⟩ hact, rfl,
    fun h => ?_⟩
  have hnil : [] = (List.replicate (2 ^ 32) 0 : Bytes) := h.stream
  have hlen' := congrArg (fun o : Bytes => (o.length : Int)) hnil
  rw [hlen] at hlen'
  exact absurd hlen' (by decide)

end SendState

end Runs

end Cutis

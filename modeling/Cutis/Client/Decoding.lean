import Cutis.Client.Request
import Cutis.Lib.Framing

namespace Cutis

open Framing in
-- What a client holds between reads: the start of a line, or the words of a
-- bulk command and the start of its payload.
inductive Waiting : List Request → Bytes → Option ClientQuery → Prop
  | line {rest : List Request} {buf unread : Bytes} :
      buf ++ unread = stream Request.encode rest →
      (∀ r tail, rest = r :: tail → buf.length < r.line.length + 2) →
      Waiting rest unread (some { query_buf := buf, argv := [], bulk_len := -1 })
  | payload {r : Request} {tail : List Request} {payload buf unread : Bytes} :
      r.payload = some payload →
      buf ++ unread = payload ++ CR :: LF :: stream Request.encode tail →
      buf.length < payload.length + 2 →
      Waiting (r :: tail) unread (some (r.awaitPayload payload buf))

section Parse

open Framing

-- What the loop does with the result of one pass.
def continueParse (fuel : Nat) (pass : ParseStatus × Option ClientQuery × List QueryEvent) :
    Except Fault (Option ClientQuery × List QueryEvent) :=
  match pass.1, pass.2.1 with
  | .CUTIS_AGAIN, some c =>
      (parseQueryLoop fuel c).bind fun last => .ok (last.1, pass.2.2 ++ last.2)
  | _, c => .ok (c, pass.2.2)

theorem parseQueryLoop_succ (fuel : Nat) (c : ClientQuery) :
    parseQueryLoop (fuel + 1) c =
      (if c.bulk_len = -1 then parseNonBulkQuery c else parseBulkQuery c).bind
        (continueParse fuel) := by
  rw [parseQueryLoop]
  split_ifs
  · cases parseNonBulkQuery c with
    | error fault => rfl
    | ok pass =>
        obtain ⟨res, c', events⟩ := pass
        cases res <;> cases c' <;> rfl
  · cases parseBulkQuery c with
    | error fault => rfl
    | ok pass =>
        obtain ⟨res, c', events⟩ := pass
        cases res <;> cases c' <;> rfl

-- The outcome of parsing what is in the buffer: the finished requests are
-- called in order and the client waits for the rest.
def Parses (fuel : Nat) (c : ClientQuery) (rest : List Request) (unread : Bytes) : Prop :=
  ∃ fin rest' s', parseQueryLoop fuel c = .ok (s', fin.map Request.call) ∧ rest = fin ++ rest' ∧
    Waiting rest' unread s'

theorem processThenParse_eq {c c' : ClientQuery} {events : List QueryEvent}
    (h : processCommand c = .ok (some c', events)) :
    processThenParse c =
      .ok (if c'.query_buf.length > 0 then .CUTIS_AGAIN else .CUTIS_OK, some c', events) := by
  rw [processThenParse, h]
  simp only [bind, Except.bind, pure, Except.pure]
  split_ifs <;> rfl

theorem continueParse_again {fuel : Nat} {c : ClientQuery} {events more : List QueryEvent}
    {last : Option ClientQuery} (h : parseQueryLoop fuel c = .ok (last, more)) :
    Except.bind (.ok (.CUTIS_AGAIN, some c, events)) (continueParse fuel) =
      .ok (last, events ++ more) := by
  simp only [Except.bind, continueParse, h]

theorem split_prefix {buf unread first more : Bytes} (h : buf ++ unread = first ++ more)
    (hlen : first.length ≤ buf.length) : ∃ buf', buf = first ++ buf' ∧ buf' ++ unread = more := by
  obtain ⟨buf', rfl⟩ := List.prefix_of_prefix_length_le (h ▸ List.prefix_append first more)
    (List.prefix_append buf unread) hlen
  refine ⟨buf', rfl, ?_⟩
  rw [List.append_assoc] at h
  exact List.append_cancel_left h

-- A call, and the requests after it if there is more input.
theorem parse_called {r : Request} {tail : List Request} {c : ClientQuery} {buf unread : Bytes}
    {fuel : Nat}
    (hcall : processCommand c =
      .ok (some { query_buf := buf, argv := [], bulk_len := -1 }, [r.call]))
    (hbuf : buf ++ unread = stream Request.encode tail)
    (htail : Parses fuel { query_buf := buf, argv := [], bulk_len := -1 } tail unread) :
    ∃ fin rest' s', (processThenParse c).bind (continueParse fuel) =
        .ok (s', fin.map Request.call) ∧ r :: tail = fin ++ rest' ∧ Waiting rest' unread s' := by
  by_cases hmore : buf.length > 0
  · obtain ⟨fin, rest', s', hparse, hrest, hwaiting⟩ := htail
    refine ⟨r :: fin, rest', s', ?_, by rw [hrest, List.cons_append], hwaiting⟩
    rw [processThenParse_eq hcall, if_pos hmore, continueParse_again hparse]
    rfl
  · have hnil : buf = [] := List.length_eq_zero_iff.mp (by omega)
    subst hnil
    refine ⟨[r], tail, some { query_buf := [], argv := [], bulk_len := -1 }, ?_, rfl,
      .line hbuf fun _ _ _ => by simp⟩
    rw [processThenParse_eq hcall, if_neg hmore]
    rfl

-- A buffer without a whole line waits for more, unless it is too long for one.
theorem parseQueryLoop_partial {buf : Bytes} (hclean : LF ∉ buf) (hshort : ¬buf.length ≥ 1024)
    (fuel : Nat) :
    parseQueryLoop (fuel + 1) { query_buf := buf, argv := [], bulk_len := -1 } =
      .ok (some { query_buf := buf, argv := [], bulk_len := -1 }, []) := by
  rw [parseQueryLoop_succ]
  simp only [if_true, parseNonBulkQuery, strchr_of_notMem hclean, hshort, if_false, pure,
    Except.pure, Except.bind, continueParse]

theorem parse_incomplete_line {r : Request} {tail : List Request} {buf unread : Bytes} {fuel : Nat}
    (hbuf : buf ++ unread = stream Request.encode (r :: tail))
    (hshort : buf.length < r.line.length + 2) :
    Parses (fuel + 1) { query_buf := buf, argv := [], bulk_len := -1 } (r :: tail) unread := by
  have hclean : LF ∉ buf := by
    have hpre : buf <+: r.line ++ [CR] := by
      have hline : r.line ++ [CR] <+: buf ++ unread := by
        rw [hbuf, stream_cons, Request.encode]
        exact ⟨LF :: (r.body ++ stream Request.encode tail), by simp⟩
      exact List.prefix_of_prefix_length_le (List.prefix_append buf unread) hline
        (by simp only [List.length_append, List.length_singleton]; omega)
    intro hmem
    rcases List.mem_append.mp (hpre.subset hmem) with hmem | hmem
    · exact r.line_clean.1 hmem
    · exact absurd (List.mem_singleton.mp hmem) (by decide)
  have hle := r.line_le
  have hlong : ¬buf.length ≥ 1024 := by
    rw [Request.line, Request.words] at hshort
    omega
  refine ⟨[], r :: tail, _, parseQueryLoop_partial hclean hlong fuel, rfl,
    .line hbuf fun r' tail' h => ?_⟩
  obtain ⟨rfl, rfl⟩ := List.cons.inj h
  exact hshort

theorem parseBulkQuery_wait {c : ClientQuery} (h : ¬c.bulk_len ≤ toInt32 c.query_buf.length) :
    parseBulkQuery c = .ok (.CUTIS_OK, some c, []) := if_neg h

theorem parseBulkQuery_take {c c' : ClientQuery} (h : c.bulk_len ≤ toInt32 c.query_buf.length)
    (harg : setArg c (c.query_buf.take (c.bulk_len - 2).toNat) = .ok c') :
    parseBulkQuery c =
      processThenParse { c' with query_buf := sdsrange c'.query_buf c'.bulk_len (-1) } := by
  rw [parseBulkQuery, if_pos h, harg]
  rfl

-- A bulk command goes on waiting when its payload is not there yet.
theorem parse_incomplete_payload {r : Request} {tail : List Request} {payload buf unread : Bytes}
    {fuel : Nat} (hpayload : r.payload = some payload)
    (hbuf : buf ++ unread = payload ++ CR :: LF :: stream Request.encode tail)
    (hshort : buf.length < payload.length + 2) :
    Parses (fuel + 1) (r.awaitPayload payload buf) (r :: tail) unread := by
  have hlen := r.payload_le payload hpayload
  have hne : ¬(r.awaitPayload payload buf).bulk_len = -1 := by
    simp only [Request.awaitPayload]
    omega
  have hnot : ¬(r.awaitPayload payload buf).bulk_len ≤
      toInt32 (r.awaitPayload payload buf).query_buf.length := by
    simp only [Request.awaitPayload]
    rw [toInt32_natCast _ (by omega)]
    omega
  refine ⟨[], r :: tail, _, ?_, rfl, .payload hpayload hbuf hshort⟩
  rw [parseQueryLoop_succ, if_neg hne, parseBulkQuery_wait hnot]
  rfl

theorem parse_payload {r : Request} {tail : List Request} {payload buf unread : Bytes} {fuel : Nat}
    (hpayload : r.payload = some payload)
    (hbuf : buf ++ unread = stream Request.encode tail)
    (hint : (payload ++ CR :: LF :: buf).length < 2 ^ 31)
    (htail : Parses fuel { query_buf := buf, argv := [], bulk_len := -1 } tail unread) :
    Parses (fuel + 1) (r.awaitPayload payload (payload ++ CR :: LF :: buf)) (r :: tail) unread := by
  generalize hfullbuf : payload ++ CR :: LF :: buf = query_buf at hint ⊢
  have hle : payload.length + 2 ≤ query_buf.length := by
    simp only [← hfullbuf, List.length_append, List.length_cons]
    omega
  have hne : ¬(r.awaitPayload payload query_buf).bulk_len = -1 := by
    simp only [Request.awaitPayload]
    omega
  have hfull : (r.awaitPayload payload query_buf).bulk_len ≤
      toInt32 (r.awaitPayload payload query_buf).query_buf.length := by
    simp only [Request.awaitPayload]
    rw [toInt32_natCast _ hint]
    omega
  have htake : query_buf.take ((payload.length : Int) + 2 - 2).toNat = payload := by
    have hnat : ((payload.length : Int) + 2 - 2).toNat = payload.length := by omega
    rw [hnat, ← hfullbuf, List.take_left]
  have hroom : (sdstolower r.name :: r.args).length < CUTIS_MAX_ARGS := by
    have := r.words_le
    simp only [hpayload, Option.toList_some, List.length_singleton] at this
    rw [List.length_cons]
    omega
  have harg : setArg (r.awaitPayload payload query_buf)
      (query_buf.take ((payload.length : Int) + 2 - 2).toNat) =
        .ok { r.awaitPayload payload query_buf with
              argv := sdstolower r.name :: r.args ++ [payload] } := by
    rw [htake]
    exact if_pos hroom
  have hdrop : sdsrange query_buf ((payload.length : Int) + 2) (-1) = buf := by
    have hdropped := sdsrange_drop query_buf (payload.length + 2) hle
    rw [Nat.cast_add, Nat.cast_ofNat] at hdropped
    rw [hdropped, ← hfullbuf, ← List.drop_drop, List.drop_left]
    rfl
  have hname : sdstolower (sdstolower r.name) = sdsnew r.cmd.name := by
    rw [r.name_eq]
    exact (cmdTable_names r.cmd_mem).2.2
  have hcall := processCommand_complete r (sdstolower r.name) hname buf (payload.length + 2)
    fun _ => by omega
  rw [hpayload, Option.toList_some] at hcall
  obtain ⟨fin, rest', s', hparse, hrest, hwaiting⟩ := parse_called hcall hbuf htail
  refine ⟨fin, rest', s', ?_, hrest, hwaiting⟩
  rw [parseQueryLoop_succ, if_neg hne, parseBulkQuery_take hfull harg, ← hparse]
  simp only [Request.awaitPayload, hdrop]

theorem parseNonBulkQuery_line (r : Request) (buf : Bytes) :
    parseNonBulkQuery { query_buf := r.line ++ CR :: LF :: buf, argv := [], bulk_len := -1 } =
      processThenParse { query_buf := buf, argv := r.words, bulk_len := -1 } := by
  have hclean : LF ∉ r.line ++ [CR] := by
    rw [List.mem_append, not_or]
    exact ⟨r.line_clean.1, by decide⟩
  have hnul : NUL ∉ r.line ++ [CR] := by
    rw [List.mem_append, not_or]
    exact ⟨r.line_clean.2, by decide⟩
  have hfind := strchr_append hclean hnul (by decide) buf
  rw [List.append_assoc, List.singleton_append, List.length_append, List.length_singleton] at hfind
  have hdrop : (r.line ++ CR :: LF :: buf).drop (r.line.length + 1 + 1) = buf := by
    rw [Nat.add_assoc, ← List.drop_drop, List.drop_left]
    rfl
  simp only [parseNonBulkQuery, hfind, hdrop, queryLine_crlf r.line_clean.2,
    r.line_length_ne_zero, if_false, r.split_line, bind, Except.bind, r.pushWords_words]

-- The request after a complete line; the requests after it are parsed in turn.
theorem parse_line (r : Request) {tail : List Request} {buf unread : Bytes} {fuel : Nat}
    (hbuf : buf ++ unread = r.body ++ stream Request.encode tail) (hint : buf.length < 2 ^ 31)
    (hfuel : buf.length < fuel)
    (htail : ∀ (buf' unread' : Bytes) (fuel' : Nat), buf' ++ unread' = stream Request.encode tail →
      buf'.length ≤ buf.length → buf'.length < fuel' →
      Parses fuel' { query_buf := buf', argv := [], bulk_len := -1 } tail unread') :
    Parses (fuel + 1) { query_buf := r.line ++ ([CR, LF] ++ buf), argv := [], bulk_len := -1 }
      (r :: tail) unread := by
  have hpass : parseQueryLoop (fuel + 1)
      { query_buf := r.line ++ ([CR, LF] ++ buf), argv := [], bulk_len := -1 } =
        (processThenParse { query_buf := buf, argv := r.words, bulk_len := -1 }).bind
          (continueParse fuel) := by
    rw [parseQueryLoop_succ, if_pos rfl]
    exact congrArg (fun pass => Except.bind pass (continueParse fuel)) (parseNonBulkQuery_line r buf)
  unfold Parses
  rw [hpass]
  cases hpayload : r.payload with
  | none =>
      have hbody : buf ++ unread = stream Request.encode tail := by
        simpa [Request.body, hpayload] using hbuf
      have hcall := processCommand_complete r r.name r.name_eq buf (-1) (by simp [hpayload])
      have hwords : r.name :: r.args ++ r.payload.toList = r.words := by
        simp [Request.words, bulkLenWords, hpayload]
      rw [hwords] at hcall
      exact parse_called hcall hbody (htail buf unread fuel hbody (Nat.le_refl _) hfuel)
  | some payload =>
      have hbody : buf ++ unread = payload ++ CR :: LF :: stream Request.encode tail := by
        simpa [Request.body, hpayload] using hbuf
      have hbulk := processCommand_bulk r hpayload buf
      by_cases hfull : buf.length ≥ payload.length + 2
      · obtain ⟨buf', rfl, hrest'⟩ := split_prefix
          (show buf ++ unread = (payload ++ [CR, LF]) ++ stream Request.encode tail by
            simpa using hbody)
          (by simpa only [List.length_append, List.length_cons, List.length_nil] using hfull)
        have htake : (payload ++ [CR, LF] ++ buf').take payload.length = payload := by
          rw [List.append_assoc, List.take_left]
        have hdrop : (payload ++ [CR, LF] ++ buf').drop (payload.length + 2) = buf' := by
          rw [List.drop_left' (by simp)]
        rw [if_pos hfull, htake, hdrop] at hbulk
        have hevent : r.call = .proc r.cmd (sdstolower r.name :: r.args ++ [payload]) := by
          rw [Request.call, hpayload]
          rfl
        rw [← hevent] at hbulk
        simp only [List.length_append] at hfuel
        exact parse_called hbulk hrest'
          (htail buf' unread fuel hrest' (by simp only [List.length_append]; omega) (by omega))
      · rw [if_neg hfull] at hbulk
        by_cases hmore : buf.length > 0
        · cases fuel with
          | zero => omega
          | succ fuel =>
              obtain ⟨fin, rest', s', hparse, hrest, hwaiting⟩ :=
                @parse_incomplete_payload _ _ _ _ _ fuel hpayload hbody (by omega)
              refine ⟨fin, rest', s', ?_, hrest, hwaiting⟩
              rw [processThenParse_eq hbulk, Request.awaitPayload_query_buf, if_pos hmore,
                continueParse_again hparse, List.nil_append]
        · refine ⟨[], r :: tail, some (r.awaitPayload payload buf), ?_, rfl,
            .payload hpayload hbody (by omega)⟩
          rw [processThenParse_eq hbulk, Request.awaitPayload_query_buf, if_neg hmore]
          rfl

-- All requests in the buffer, by induction on the requests.
theorem parse_lines (rest : List Request) :
    ∀ (buf unread : Bytes) (fuel : Nat), buf ++ unread = stream Request.encode rest →
      buf.length < 2 ^ 31 → buf.length < fuel →
      Parses fuel { query_buf := buf, argv := [], bulk_len := -1 } rest unread := by
  induction rest with
  | nil =>
      intro buf unread fuel hbuf _ hfuel
      obtain ⟨rfl, rfl⟩ := List.append_eq_nil_iff.mp hbuf
      cases fuel with
      | zero => omega
      | succ fuel =>
          exact ⟨[], [], _, parseQueryLoop_partial List.not_mem_nil (by decide) fuel, rfl,
            .line rfl fun r tail h => absurd h.symm (List.cons_ne_nil r tail)⟩
  | cons r tail ih =>
      intro buf unread fuel hbuf hint hfuel
      cases fuel with
      | zero => omega
      | succ fuel =>
          by_cases hshort : buf.length < r.line.length + 2
          · exact parse_incomplete_line hbuf hshort
          · obtain ⟨buf₁, rfl, hbuf₁⟩ := split_prefix
              (show buf ++ unread = (r.line ++ [CR, LF]) ++ (r.body ++ stream Request.encode tail) by
                rw [hbuf, stream_cons, Request.encode]
                simp)
              (by simp only [List.length_append, List.length_cons, List.length_nil]; omega)
            simp only [List.length_append, List.length_cons, List.length_nil] at hint hfuel
            rw [List.append_assoc]
            exact parse_line r hbuf₁ (by omega) (by omega) fun buf unread fuel hbuf hle hfuel =>
              ih buf unread fuel hbuf (by omega) hfuel

end Parse

section Reads

open Framing

-- A read on a connection; a freed client has none.
def readClient (c : Option ClientQuery) (buf : Bytes) :
    Except Fault (Option ClientQuery × List QueryEvent) :=
  match c with
  | none => return (none, [])
  | some c => readQueryFromClient c (.data buf)

def QueryChunk (buf : Bytes) : Prop := buf ≠ [] ∧ buf.length ≤ CUTIS_QUERY_BUF_LEN

theorem readClient_step (rest : List Request) (chunk unread : Bytes) (s : Option ClientQuery)
    (hchunk : QueryChunk chunk) (hwaiting : Waiting rest (chunk ++ unread) s) :
    ∃ fin rest' s', readClient s chunk = .ok (s', fin.map Request.call) ∧ rest = fin ++ rest' ∧
      Waiting rest' unread s' := by
  obtain ⟨hne, hlen⟩ := hchunk
  rw [CUTIS_QUERY_BUF_LEN] at hlen
  cases hwaiting with
  | @line rest buf _ hbuf hshort =>
      rw [← List.append_assoc] at hbuf
      have hint : (buf ++ chunk).length < 2 ^ 31 := by
        rw [List.length_append]
        cases rest with
        | nil =>
            rw [stream_nil, List.append_assoc, List.append_eq_nil_iff] at hbuf
            rw [hbuf.1, List.length_nil]
            omega
        | cons r tail =>
            have hline := hshort r tail rfl
            have hle := r.line_le
            rw [Request.line, Request.words] at hline
            omega
      simp only [readClient, readQueryFromClient, hne, if_false, parseQuery]
      exact parse_lines rest (buf ++ chunk) unread _ hbuf hint (by omega)
  | @payload r tail payload buf _ hpayload hbuf hshort =>
      rw [← List.append_assoc] at hbuf
      have hle := r.payload_le payload hpayload
      have hint : (buf ++ chunk).length < 2 ^ 31 := by
        rw [List.length_append]
        omega
      simp only [readClient, readQueryFromClient, hne, if_false, parseQuery]
      by_cases hwait : (buf ++ chunk).length < payload.length + 2
      · exact parse_incomplete_payload hpayload hbuf hwait
      · obtain ⟨buf', hsplit, hrest⟩ := split_prefix
          (show (buf ++ chunk) ++ unread = (payload ++ [CR, LF]) ++ stream Request.encode tail by
            simpa using hbuf)
          (by simpa only [List.length_append, List.length_cons, List.length_nil] using
            Nat.le_of_not_lt hwait)
        have hfull : buf ++ chunk = payload ++ CR :: LF :: buf' := by simpa using hsplit
        have hlen' : buf'.length + 2 ≤ (buf ++ chunk).length := by
          rw [hfull, List.length_append, List.length_cons, List.length_cons]
          omega
        have htail := parse_lines tail buf' unread ((buf ++ chunk).length + 1) hrest (by omega)
          (by omega)
        have hparse := parse_payload hpayload hrest (hfull ▸ hint) htail
        rw [← hfull] at hparse
        exact hparse

theorem waiting_incomplete (rest : List Request) (unread : Bytes) (s : Option ClientQuery)
    (h : Waiting rest unread s) : Incomplete Request.encode rest unread := by
  cases h with
  | @line rest buf _ hbuf hshort =>
      have hlen := congrArg List.length hbuf
      rw [List.length_append] at hlen
      refine ⟨by omega, ?_⟩
      rintro r tail rfl
      have hline := hshort r tail rfl
      simp only [stream_cons, Request.encode, List.length_append, List.length_cons] at hlen
      omega
  | @payload r tail payload buf _ hpayload hbuf hshort =>
      have hlen := congrArg List.length hbuf
      simp only [List.length_append, List.length_cons] at hlen
      constructor
      · simp only [stream_cons, Request.encode, Request.body, hpayload, Option.toList_some,
          List.map_cons, List.map_nil, List.flatten_cons, List.length_append, List.length_cons]
        omega
      · rintro _ _ h
        obtain ⟨rfl, rfl⟩ := List.cons.inj h
        omega

theorem waiting_nil {s : Option ClientQuery} (h : Waiting [] [] s) : s = some createClientQuery := by
  cases h with
  | line hbuf _ =>
      rw [List.append_nil] at hbuf
      rw [hbuf]
      rfl

-- Every request is called once, at the read that delivers its last byte, and
-- nothing else happens, for any number of clients and any order of their reads.
theorem requests_decoded {ι : Type} [DecidableEq ι] (requests : ι → List Request)
    (reads : List (ι × Bytes)) (hchunks : ∀ read ∈ reads, QueryChunk read.2)
    (hreads : ∀ i, readBy i reads = stream Request.encode (requests i)) :
    ∃ clients log,
      Runs.run (sessionStep readClient) (fun _ => some createClientQuery) reads =
        .ok (clients, log) ∧
      log.length = reads.length ∧ (∀ i, clients i = some createClientQuery) ∧
      ∀ k i, outputBy i ((reads.zip log).take k) =
        (delivered Request.encode (requests i) (readBy i (reads.take k)).length).map
          Request.call := by
  obtain ⟨clients, log, hrun, hlen, hfinal, hlog⟩ := run_session readClient_step
    waiting_incomplete reads hchunks (fun _ => some createClientQuery) requests
    (fun i => stream Request.encode (requests i))
    (fun i => .line rfl fun _ _ _ => Nat.zero_lt_succ _) hreads
  refine ⟨clients, log, hrun, hlen, fun i => ?_, fun k i => ?_⟩
  · exact waiting_nil (hfinal i)
  · rw [hlog, Nat.sub_self, Nat.zero_add]

def pingRequest : Request where
  cmd := ⟨"ping", .PingCommand, 1, .CUTIS_CMD_INLINE⟩
  name := sdsnew "PING"
  args := []
  payload := none
  cmd_mem := by decide
  name_eq := by decide
  words_ok := by unfold Word; decide
  payload_iff := by decide
  accepted := by decide
  words_le := by decide
  line_le := by decide
  payload_le := nofun

def setRequest : Request where
  cmd := ⟨"set", .SetCommand, 3, .CUTIS_CMD_BULK⟩
  name := sdsnew "set"
  args := [sdsnew "k"]
  payload := some [LF, NUL]
  cmd_mem := by decide
  name_eq := by decide
  words_ok := by unfold Word; decide
  payload_iff := by decide
  accepted := by decide
  words_le := by decide
  line_le := by decide
  payload_le := by
    rintro p hp
    cases hp
    decide

-- Two clients, the first of them cut inside its payload.
theorem requests_decoded_set_ping :
    ∃ clients log,
      Runs.run (sessionStep readClient) (fun _ => some createClientQuery)
        [(true, sdsnew "set k 2\r\n\n"), (false, sdsnew "PING\r\n"), (true, [NUL, CR, LF])] =
          .ok (clients, log) ∧
      log.length = 3 ∧ (∀ i, clients i = some createClientQuery) ∧
      ∀ k i, outputBy i
          (([(true, sdsnew "set k 2\r\n\n"), (false, sdsnew "PING\r\n"), (true, [NUL, CR, LF])].zip
            log).take k) =
        (delivered Request.encode (if i then [setRequest] else [pingRequest])
          (readBy i ([(true, sdsnew "set k 2\r\n\n"), (false, sdsnew "PING\r\n"),
            (true, [NUL, CR, LF])].take k)).length).map Request.call :=
  requests_decoded (fun i : Bool => if i then [setRequest] else [pingRequest])
    [(true, sdsnew "set k 2\r\n\n"), (false, sdsnew "PING\r\n"), (true, [NUL, CR, LF])]
    (by unfold QueryChunk; decide) (by decide)

end Reads

end Cutis

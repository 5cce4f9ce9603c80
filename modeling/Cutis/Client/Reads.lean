import Cutis.Client.Parsing

namespace Cutis

section Runs

-- Every pass of the parse loop during the reads starts in a state with the
-- property, up to a read that does not return.
def AlongReads (P : ClientQuery → Prop) : Option ClientQuery → List Bytes → Prop
  | none, _ => True
  | some _, [] => True
  | some c, buf :: reads =>
      AllPasses P { c with query_buf := c.query_buf ++ buf } ∧
        ∀ last events, readClient (some c) buf = .ok (last, events) → AlongReads P last reads

variable {P Q : ClientQuery → Prop} {c : ClientQuery}

theorem alongReads_none (P : ClientQuery → Prop) (reads : List Bytes) : AlongReads P none reads := by
  cases reads <;> trivial

theorem readClient_eq (c : ClientQuery) {buf : Bytes} (hbuf : QueryChunk buf) :
    readClient (some c) buf = parseQuery { c with query_buf := c.query_buf ++ buf } := by
  rw [readClient, readQueryFromClient, if_neg hbuf.1]

theorem readClient_spec (h : Rests c) {buf : Bytes} (hbuf : QueryChunk buf) :
    (AllPasses (¬SpacesOnly ·) { c with query_buf := c.query_buf ++ buf } ∧
      ∃ last events, readClient (some c) buf = .ok (last, events) ∧
        Parsed { c with query_buf := c.query_buf ++ buf } last events) ∨
    ¬AllPasses (¬SpacesOnly ·) { c with query_buf := c.query_buf ++ buf } ∧
      readClient (some c) buf = .error .useAfterFree := by
  rw [readClient_eq c hbuf, parseQuery]
  exact parseQueryLoop_spec _ (h.read hbuf) (by omega)

theorem readClient_rests (h : Rests c) {buf : Bytes} (hbuf : QueryChunk buf)
    {c' : ClientQuery} {events : List QueryEvent}
    (hread : readClient (some c) buf = .ok (some c', events)) : Rests c' := by
  rcases readClient_spec h hbuf with ⟨-, last, events', hok, hparsed⟩ | ⟨-, herror⟩
  · obtain ⟨rfl, rfl⟩ := Prod.mk.inj (Except.ok.inj (hok.symm.trans hread))
    cases hparsed with
    | rests _ hrests _ => exact hrests
  · rw [herror] at hread
    cases hread

-- What holds wherever the head of the loop is a proper one.
theorem AlongReads.imp (himp : ∀ c, Head c → P c → Q c) {reads : List Bytes}
    (hreads : ∀ buf ∈ reads, QueryChunk buf) (h : Rests c) (halong : AlongReads P (some c) reads) :
    AlongReads Q (some c) reads := by
  induction reads generalizing c with
  | nil => trivial
  | cons buf reads ih =>
      have hbuf := hreads buf (by simp)
      obtain ⟨hpasses, hrest⟩ := halong
      refine ⟨fun c' hc => himp c' (allPasses_head (h.read hbuf) c' hc) (hpasses c' hc), ?_⟩
      intro last events hread
      cases last with
      | none => exact alongReads_none Q reads
      | some c' =>
          exact ih (fun buf hmem => hreads buf (by simp [hmem])) (readClient_rests h hbuf hread)
            (hrest _ _ hread)

end Runs

section Dispatch

-- The client as a pass hands it to ProcessCommand, if it does.
def dispatched (c : ClientQuery) : Except Fault (Option ClientQuery) :=
  if c.bulk_len = -1 then
    match strchr c.query_buf LF with
    | none => return none
    | some p => do
        let query := queryLine c.query_buf p
        let c := { c with query_buf := c.query_buf.drop (p + 1) }
        if query.length = 0 then
          return none
        match ← sdssplitlen query [SPACE] with
        | none => throw .abort
        | some argv => return some (pushWords c argv)
  else if c.bulk_len ≤ toInt32 c.query_buf.length then do
    let c ← setArg c (c.query_buf.take (c.bulk_len - 2).toNat)
    return some { c with query_buf := sdsrange c.query_buf c.bulk_len (-1) }
  else
    return none

-- The call is the last thing a pass does, but for the test for more input.
theorem parsePass_dispatched {c d : ClientQuery} (h : dispatched c = .ok (some d)) :
    parsePass c = processThenParse d := by
  unfold dispatched at h
  unfold parsePass
  split_ifs at h ⊢ with hmode hfull
  · unfold parseNonBulkQuery
    cases hp : strchr c.query_buf LF with
    | none => rw [hp] at h; cases h
    | some p =>
        rw [hp] at h
        simp only [sdssplitlen_eq, bind, Except.bind] at h ⊢
        split_ifs at h ⊢ with hline
        · cases h
        · obtain rfl := Option.some.inj (Except.ok.inj h)
          rfl
  · unfold parseBulkQuery
    rw [if_pos hfull]
    cases harg : setArg c (c.query_buf.take (c.bulk_len - 2).toNat) with
    | error fault => rw [harg] at h; cases h
    | ok c' =>
        rw [harg] at h
        obtain rfl := Option.some.inj (Except.ok.inj h)
        rfl
  · cases h

-- A pass without a call runs no command.
theorem parsePass_not_dispatched {c : ClientQuery} (h : dispatched c = .ok none) :
    ∃ last events, parsePass c = .ok (.CUTIS_OK, last, events) ∧
      ∀ cmd argv, .proc cmd argv ∉ events := by
  unfold dispatched at h
  unfold parsePass
  split_ifs at h ⊢ with hmode hfull
  · unfold parseNonBulkQuery
    cases hp : strchr c.query_buf LF with
    | none =>
        split_ifs with hlong
        · exact ⟨none, _, rfl, fun cmd argv hmem => by simp at hmem⟩
        · exact ⟨some c, _, rfl, fun cmd argv => List.not_mem_nil⟩
    | some p =>
        rw [hp] at h
        simp only [sdssplitlen_eq, bind, Except.bind] at h ⊢
        split_ifs at h ⊢ with hline
        · exact ⟨_, _, rfl, fun cmd argv => List.not_mem_nil⟩
        · cases h
  · cases harg : setArg c (c.query_buf.take (c.bulk_len - 2).toNat) with
    | error fault => rw [harg] at h; cases h
    | ok c' => rw [harg] at h; cases h
  · unfold parseBulkQuery
    rw [if_neg hfull]
    exact ⟨_, _, rfl, fun cmd argv => List.not_mem_nil⟩

-- ProcessCommand finds a command word, and no more arguments than there are slots.
def DispatchOk (c : ClientQuery) : Prop :=
  ∀ d, dispatched c = .ok (some d) →
    1 ≤ d.argv.length ∧ d.argv.length ≤ CUTIS_MAX_ARGS ∧ ∀ arg ∈ d.argv.head?, arg ≠ []

theorem dispatched_line {query_buf : Bytes} {p : Nat} (hp : strchr query_buf LF = some p)
    (hline : queryLine query_buf p ≠ []) :
    dispatched { query_buf, argv := [], bulk_len := -1 } = .ok (some
      { query_buf := query_buf.drop (p + 1)
        argv := (lineWords (queryLine query_buf p)).take CUTIS_MAX_ARGS
        bulk_len := -1 }) := by
  have hlen : ¬(queryLine query_buf p).length = 0 := fun h => hline (List.length_eq_zero_iff.mp h)
  simp only [dispatched, if_true, hp, hlen, if_false, sdssplitlen_eq, bind, Except.bind, pushWords,
    List.nil_append, List.length_nil, Nat.sub_zero, lineWords]
  rfl

theorem dispatched_blank {query_buf : Bytes} {p : Nat} (hp : strchr query_buf LF = some p)
    (hline : queryLine query_buf p = []) :
    dispatched { query_buf, argv := [], bulk_len := -1 } = .ok none := by
  simp only [dispatched, if_true, hp, hline, List.length_nil]
  rfl

theorem dispatched_payload {cmd : CutisCommand} {argv : List Bytes} {n : Nat}
    (hawait : Awaits cmd argv n) (query_buf : Bytes) {d : ClientQuery}
    (h : dispatched { query_buf, argv, bulk_len := n + 2 } = .ok (some d)) :
    n + 2 ≤ query_buf.length ∧ d.argv = argv ++ [query_buf.take n] := by
  have hne : ¬(n : Int) + 2 = -1 := by omega
  have htake : ((n : Int) + 2 - 2).toNat = n := by omega
  have hroom : argv.length < CUTIS_MAX_ARGS := by
    have := hawait.argc
    rw [CUTIS_MAX_ARGS]
    omega
  have harg : setArg ⟨query_buf, argv, n + 2⟩ (query_buf.take n) =
      .ok ⟨query_buf, argv ++ [query_buf.take n], n + 2⟩ := if_pos hroom
  rw [dispatched, if_neg hne] at h
  simp only [htake, harg] at h
  split_ifs at h with hfull
  · have hle := toInt32_natCast_le query_buf.length
    obtain rfl := Option.some.inj (Except.ok.inj h)
    exact ⟨by omega, rfl⟩
  · cases h

-- Only a line of spaces leaves ProcessCommand without a command word.
theorem dispatchOk_iff {c : ClientQuery} (h : Head c) : DispatchOk c ↔ ¬SpacesOnly c := by
  cases h with
  | line query_buf =>
      constructor
      · rintro hok ⟨-, p, hp, hline, hall⟩
        have hargs := (hok _ (dispatched_line hp hline)).1
        rw [(lineWords_eq_nil_iff _).mpr hall] at hargs
        simp at hargs
      · intro hspaces d hd
        cases hp : strchr query_buf LF with
        | none =>
            rw [dispatched, if_pos rfl, hp] at hd
            cases hd
        | some p =>
            by_cases hline : queryLine query_buf p = []
            · rw [dispatched_blank hp hline] at hd
              cases hd
            · obtain rfl := Option.some.inj (Except.ok.inj ((dispatched_line hp hline).symm.trans hd))
              cases hwords : lineWords (queryLine query_buf p) with
              | nil => exact absurd ⟨rfl, p, hp, hline, (lineWords_eq_nil_iff _).mp hwords⟩ hspaces
              | cons name args =>
                  have hname := (word_of_line hp (hwords ▸ List.mem_cons_self)).1
                  refine ⟨by simp [CUTIS_MAX_ARGS], List.length_take_le _ _, fun arg harg => ?_⟩
                  obtain rfl : name = arg := by simpa [CUTIS_MAX_ARGS] using harg
                  exact hname
  | @payload cmd query_buf argv n hawait hshort =>
      constructor
      · rintro - ⟨hmode, -⟩
        simp only at hmode
        omega
      · intro _ d hd
        obtain ⟨-, hargs⟩ := dispatched_payload hawait query_buf hd
        obtain ⟨name, args, rfl, -, -, hlookup⟩ := hawait.name
        have hargc := hawait.argc
        rw [hargs]
        refine ⟨by simp, ?_, fun arg harg => ?_⟩
        · rw [List.length_append, List.length_singleton, CUTIS_MAX_ARGS]
          omega
        · obtain rfl : name = arg := by simpa using harg
          rintro rfl
          have hnone : lookupCommand [] = none := by decide
          rw [hnone] at hlookup
          cases hlookup

end Dispatch

section Invariant

-- The state in which the parse functions leave an open client.
def ParserState (c : ClientQuery) : Prop :=
  (c.bulk_len = -1 ∧ c.argv = []) ∨
    ∃ name cmd, c.argv.head? = some name ∧ lookupCommand name = some cmd ∧
      cmd.type = .CUTIS_CMD_BULK ∧ (c.argv.length : Int) = cmd.arity - 1 ∧
      2 ≤ c.bulk_len ∧ c.bulk_len ≤ 2 ^ 30 + 2 ∧ (c.query_buf.length : Int) < c.bulk_len

-- The payload ParseBulkQuery copies lies in the buffer, and argv has a slot for it.
def BulkCopyOk (c : ClientQuery) : Prop :=
  c.bulk_len ≠ -1 → c.bulk_len ≤ toInt32 c.query_buf.length →
    0 ≤ c.bulk_len - 2 ∧ c.bulk_len - 2 ≤ c.query_buf.length ∧ c.argv.length < CUTIS_MAX_ARGS

-- The same for the payload ProcessCommand finds in the buffer already.
def CommandCopyOk (c : ClientQuery) : Prop :=
  ∀ d name args cmd, dispatched c = .ok (some d) → d.bulk_len = -1 → d.argv = name :: args →
    lookupCommand (sdstolower name) = some cmd → cmd.accepts d.argv.length = true →
    cmd.type = .CUTIS_CMD_BULK →
    ∀ count, count = atoi ((sdstolower name :: args).getLast (List.cons_ne_nil _ _)) →
      0 ≤ count → count ≤ CUTIS_MAX_STRING_LENGTH → count + 2 ≤ d.query_buf.length →
      0 ≤ count ∧ count ≤ d.query_buf.length ∧ d.argv.length - 1 < CUTIS_MAX_ARGS

theorem Rests.parserState {c : ClientQuery} (h : Rests c) : ParserState c := by
  cases h with
  | line query_buf => exact Or.inl ⟨rfl, rfl⟩
  | @payload cmd query_buf argv n hawait hshort =>
      obtain ⟨name, args, rfl, -, -, hlookup⟩ := hawait.name
      have hlen := hawait.len
      have harity := hawait.arity
      refine Or.inr ⟨name, cmd, rfl, hlookup, hawait.type, ?_, ?_, ?_, ?_⟩ <;> simp only <;> omega

theorem Head.bulkCopyOk {c : ClientQuery} (h : Head c) : BulkCopyOk c := by
  cases h with
  | line query_buf => exact fun hne => absurd rfl hne
  | @payload cmd query_buf argv n hawait hshort =>
      intro _ hfull
      have hle := toInt32_natCast_le query_buf.length
      have hargc := hawait.argc
      simp only [CUTIS_MAX_ARGS] at hfull ⊢
      omega

theorem commandCopyOk_of_dispatchOk {c : ClientQuery} (h : DispatchOk c) : CommandCopyOk c := by
  intro d name args cmd hd _ _ _ _ _ count _ hpos _ hfull
  have hargs := (h d hd).2.1
  rw [CUTIS_MAX_ARGS] at hargs ⊢
  exact ⟨hpos, by omega, by omega⟩

theorem reads_return {c : ClientQuery} (h : Rests c) (reads : List Bytes)
    (hreads : ∀ buf ∈ reads, QueryChunk buf) (hspaces : AlongReads (¬SpacesOnly ·) (some c) reads) :
    ∃ last log, Runs.run readClient (some c) reads = .ok (last, log) ∧ ∀ c' ∈ last, Rests c' := by
  induction reads generalizing c with
  | nil => exact ⟨some c, [], rfl, fun c' hc => by obtain rfl := Option.some.inj hc; exact h⟩
  | cons buf reads ih =>
      have hbuf := hreads buf (by simp)
      have hrest : ∀ buf ∈ reads, QueryChunk buf := fun buf hmem => hreads buf (by simp [hmem])
      rcases readClient_spec h hbuf with ⟨-, last, events, hok, -⟩ | ⟨hnot, -⟩
      · cases last with
        | none =>
            have hnone (reads : List Bytes) : ∃ log,
                Runs.run readClient none reads = .ok (none, log) := by
              induction reads with
              | nil => exact ⟨[], rfl⟩
              | cons buf reads ih =>
                  obtain ⟨log, hlog⟩ := ih
                  exact ⟨[] :: log, by
                    simp only [Runs.run, readClient, pure, Except.pure, Except.bind, hlog]⟩
            obtain ⟨log, hlog⟩ := hnone reads
            refine ⟨none, events :: log, ?_, fun c' hc => absurd hc (Option.not_mem_none c')⟩
            simp only [Runs.run, hok, Except.bind, hlog]
        | some c' =>
            obtain ⟨last, log, hrun, hlast⟩ := ih (readClient_rests h hbuf hok) hrest
              (hspaces.2 _ _ hok)
            refine ⟨last, events :: log, ?_, hlast⟩
            simp only [Runs.run, hok, Except.bind, hrun]
      · exact absurd hspaces.1 hnot

-- A read that returns has passed no line of spaces.
theorem alongReads_of_run {c : ClientQuery} (h : Rests c) (reads : List Bytes)
    (hreads : ∀ buf ∈ reads, QueryChunk buf) {result : Option ClientQuery × List (List QueryEvent)}
    (hrun : Runs.run readClient (some c) reads = .ok result) :
    AlongReads (¬SpacesOnly ·) (some c) reads := by
  induction reads generalizing c result with
  | nil => trivial
  | cons buf reads ih =>
      have hbuf := hreads buf (by simp)
      rcases readClient_spec h hbuf with ⟨hpasses, last, events, hok, -⟩ | ⟨-, herror⟩
      · refine ⟨hpasses, fun last' events' hread => ?_⟩
        obtain ⟨rfl, rfl⟩ := Prod.mk.inj (Except.ok.inj (hok.symm.trans hread))
        simp only [Runs.run, hok, Except.bind] at hrun
        cases last with
        | none => exact alongReads_none _ reads
        | some c' =>
            cases hrest : Runs.run readClient (some c') reads with
            | error fault =>
                rw [hrest] at hrun
                cases hrun
            | ok rest =>
                exact ih (readClient_rests h hbuf hok) (fun buf hmem => hreads buf (by simp [hmem]))
                  hrest
      · simp only [Runs.run, herror, Except.bind] at hrun
        cases hrun

theorem AlongReads.front {P : ClientQuery → Prop} {c : Option ClientQuery} {done reads : List Bytes}
    (h : AlongReads P c reads) (hdone : done <+: reads) : AlongReads P c done := by
  obtain ⟨rest, rfl⟩ := hdone
  induction done generalizing c with
  | nil => cases c <;> trivial
  | cons buf done ih =>
      cases c with
      | none => trivial
      | some c => exact ⟨h.1, fun last events hread => ih (h.2 last events hread)⟩

-- ParseQuery returns on every read and leaves an open client in one of the two states, and
-- all copies stay within the buffer and the argument slots.
structure ParserSafe (reads : List Bytes) : Prop where
  returns : ∀ done, done <+: reads → ∃ last log,
    Runs.run readClient (some createClientQuery) done = .ok (last, log) ∧ ∀ c ∈ last, ParserState c
  bulk_copies : AlongReads BulkCopyOk (some createClientQuery) reads
  command_copies : AlongReads CommandCopyOk (some createClientQuery) reads

theorem not_spacesOnly {c : ClientQuery} {p : Nat} {b : UInt8}
    (hp : strchr c.query_buf LF = some p) (hb : b ∈ queryLine c.query_buf p) (hne : b ≠ SPACE) :
    ¬SpacesOnly c := by
  rintro ⟨-, q, hq, -, hall⟩
  obtain rfl := Option.some.inj (hp.symm.trans hq)
  exact hne (hall b hb)

-- The passes over a SET whose payload comes in two reads.
theorem passes_set :
    parsePass ⟨sdsnew "set k 3\r\nab", [], -1⟩ =
        .ok (.CUTIS_AGAIN, some ⟨sdsnew "ab", [sdsnew "set", sdsnew "k"], 5⟩, []) ∧
      parsePass ⟨sdsnew "ab", [sdsnew "set", sdsnew "k"], 5⟩ =
        .ok (.CUTIS_OK, some ⟨sdsnew "ab", [sdsnew "set", sdsnew "k"], 5⟩, []) ∧
      readClient (some createClientQuery) (sdsnew "set k 3\r\nab") =
        .ok (some ⟨sdsnew "ab", [sdsnew "set", sdsnew "k"], 5⟩, []) ∧
      parsePass ⟨sdsnew "abc\r\n", [sdsnew "set", sdsnew "k"], 5⟩ = .ok (.CUTIS_OK,
        some createClientQuery, [.proc ⟨"set", .SetCommand, 3, .CUTIS_CMD_BULK⟩
          [sdsnew "set", sdsnew "k", sdsnew "abc"]]) :=
  ⟨by decide, by decide, by decide, by decide⟩

-- A line without its line end.
def chomp (line : Bytes) : Bytes := if line.getLast? = some CR then line.dropLast else line

def NoSpaceLine (stream : Bytes) : Prop :=
  ∀ line ∈ stream.splitOn LF, chomp line ≠ [] → ∃ b ∈ chomp line, b ≠ SPACE

end Invariant

end Cutis

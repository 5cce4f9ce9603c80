import Cutis.Client.Reads

namespace Cutis

open Streaming

-- What is left of a stream that has arrived as a whole, and what it has called.
inductive Settled (c : ClientQuery) : Option ClientQuery → List QueryEvent → Prop
  | rests {c' : ClientQuery} {events : List QueryEvent} : Steps Advance c (some c') events →
      Stuck Advance c' → (c'.bulk_len = -1 → c'.query_buf.length < 1024) →
      Settled c (some c') events
  | quit {events : List QueryEvent} : Steps Advance c none events → Settled c none events
  | tooLong {c' : ClientQuery} {events : List QueryEvent} : Steps Advance c (some c') events →
      c'.bulk_len = -1 → strchr c'.query_buf LF = none → 1024 ≤ c'.query_buf.length →
      Settled c none (events ++ [.freeClient])

-- Every line the parser comes to is shorter than 1024 bytes.
def ShortLines (c : ClientQuery) : Prop :=
  ∀ c' events, Steps Advance c (some c') events → c'.bulk_len = -1 →
    ∀ p, strchr c'.query_buf LF = some p → p < 1024

section Settled

variable {c c' : ClientQuery}

theorem settled_unique {last last' : Option ClientQuery} {events events' : List QueryEvent}
    (h : Settled c last events) (h' : Settled c last' events') : last = last' ∧ events = events' := by
  have hunique {next next' : Option ClientQuery} {out out' : List QueryEvent} :=
    @Steps.unique _ _ Advance advance_unique c next next' out out'
  have hsome {d : ClientQuery} (hd : Stuck Advance d) : ∀ s ∈ some d, Stuck Advance s :=
    fun s hs => Option.some.inj hs ▸ hd
  cases h with
  | rests hs hstuck hshort =>
      cases h' with
      | rests hs' hstuck' _ => exact hunique hs hs' (hsome hstuck) (hsome hstuck')
      | quit hs' => exact hunique hs hs' (hsome hstuck) nofun
      | tooLong hs' hmode hp hlong =>
          obtain ⟨heq, -⟩ := hunique hs hs' (hsome hstuck) (hsome (stuck_line hmode hp))
          obtain rfl := Option.some.inj heq
          exact absurd (hshort hmode) (Nat.not_lt_of_le hlong)
  | quit hs =>
      cases h' with
      | rests hs' hstuck' _ => exact hunique hs hs' nofun (hsome hstuck')
      | quit hs' => exact hunique hs hs' nofun nofun
      | tooLong hs' hmode hp _ =>
          obtain ⟨heq, -⟩ := hunique hs hs' nofun (hsome (stuck_line hmode hp))
          cases heq
  | tooLong hs hmode hp hlong =>
      cases h' with
      | rests hs' hstuck' hshort =>
          obtain ⟨heq, -⟩ := hunique hs hs' (hsome (stuck_line hmode hp)) (hsome hstuck')
          obtain rfl := Option.some.inj heq
          exact absurd (hshort hmode) (Nat.not_lt_of_le hlong)
      | quit hs' =>
          obtain ⟨heq, -⟩ := hunique hs hs' (hsome (stuck_line hmode hp)) nofun
          cases heq
      | tooLong hs' hmode' hp' _ =>
          obtain ⟨-, rfl⟩ := hunique hs hs' (hsome (stuck_line hmode hp))
            (hsome (stuck_line hmode' hp'))
          exact ⟨rfl, rfl⟩

def feed (c : ClientQuery) (buf : Bytes) : ClientQuery :=
  { c with query_buf := c.query_buf ++ buf }

theorem feed_feed (c : ClientQuery) (buf buf' : Bytes) :
    feed (feed c buf) buf' = feed c (buf ++ buf') := by
  simp [feed]

theorem strchr_of_append {s buf : Bytes} {p : Nat} (h : strchr (s ++ buf) LF = some p)
    (hp : p < s.length) : strchr s LF = some p := by
  obtain ⟨line, rest, heq, rfl, hline, hnul⟩ := strchr_split h
  have hall : line ++ [LF] <+: s ++ buf :=
    ⟨rest, by rw [heq, List.append_assoc, List.singleton_append]⟩
  have hpre := List.prefix_of_prefix_length_le hall (List.prefix_append s buf)
    (by simp only [List.length_append, List.length_singleton]; omega)
  obtain ⟨tail, rfl⟩ := hpre
  rw [List.append_assoc, List.singleton_append]
  exact strchr_append hline hnul (by decide) tail

-- What the parser does with some input it does with more input, too.
theorem steps_feed {events : List QueryEvent} (hs : Steps Advance c (some c') events)
    (buf : Bytes) : Steps Advance (feed c buf) (some (feed c' buf)) events :=
  hs.extend advance_feed buf

-- A client that was freed would have been freed with more input as well.
theorem Settled.closed {events : List QueryEvent} (h : Settled c none events) {buf : Bytes}
    (hlines : ShortLines (feed c buf)) : Settled (feed c buf) none events := by
  cases h with
  | quit hs => exact .quit (hs.extend advance_feed buf)
  | @tooLong c' events hs hmode hp hlong =>
      have hs' := steps_feed hs buf
      refine .tooLong hs' hmode ?_ (by simp only [feed, List.length_append]; omega)
      cases hp' : strchr (feed c' buf).query_buf LF with
      | none => rfl
      | some p =>
          have hshort := hlines _ _ hs' hmode p hp'
          rw [strchr_of_append hp' (by omega)] at hp
          cases hp

theorem Settled.feed_trans {last : Option ClientQuery} {events more : List QueryEvent}
    {buf : Bytes} (h : Settled c (some c') events) (h' : Settled (feed c' buf) last more) :
    Settled (feed c buf) last (events ++ more) := by
  cases h with
  | rests hs _ _ =>
      have hs' := steps_feed hs buf
      cases h' with
      | rests hrest hstuck hshort => exact .rests (hs'.trans hrest) hstuck hshort
      | quit hrest => exact .quit (hs'.trans hrest)
      | tooLong hrest hmode hp hlong =>
          rw [← List.append_assoc]
          exact .tooLong (hs'.trans hrest) hmode hp hlong

theorem Parsed.settled {last : Option ClientQuery} {events : List QueryEvent}
    (h : Parsed c last events) (hstalls : AllPasses (¬Stalls ·) c) : Settled c last events := by
  cases h with
  | rests hs hrests hend => exact .rests hs (hend hstalls).1 (hend hstalls).2
  | quit hs => exact .quit hs
  | tooLong hs hmode hp hlong => exact .tooLong hs hmode hp hlong

theorem ShortLines.next {buf : Bytes} {events : List QueryEvent}
    (hlines : ShortLines (feed c buf)) (h : Settled c (some c') events) :
    ShortLines (feed c' buf) := by
  cases h with
  | rests hs _ _ =>
      intro d more hd hmode p hp
      have hs' := steps_feed hs buf
      exact hlines d _ (hs'.trans hd) hmode p hp

end Settled

section Lines

theorem advance_suffix {c c' : ClientQuery} {events : List QueryEvent}
    (h : Advance c (some c') events) : c'.query_buf <:+ c.query_buf := by
  generalize hnext : some c' = next at h
  cases h with
  | blank => cases hnext; exact List.drop_suffix _ _
  | @line p next' _ _ _ _ _ =>
      cases next' with
      | none => cases hnext
      | some d => cases hnext; exact List.drop_suffix _ _
  | payload => cases hnext; exact List.drop_suffix _ _

theorem steps_suffix {c c' : ClientQuery} {events : List QueryEvent}
    (h : Steps Advance c (some c') events) : c'.query_buf <:+ c.query_buf := by
  generalize hlast : some c' = last at h
  induction h with
  | refl => cases hlast; exact List.suffix_refl _
  | step hs _ ih => exact (ih hlast).trans (advance_suffix hs)
  | close => cases hlast

-- The lines of the parser are parts of the lines of the stream.
theorem shortLines_of_stream {c : ClientQuery}
    (h : ∀ before line after, c.query_buf = before ++ line ++ LF :: after → LF ∉ line →
      line.length < 1024) : ShortLines c := by
  intro c' events hs _ p hp
  obtain ⟨before, hbefore⟩ := steps_suffix hs
  obtain ⟨line, after, hsplit, rfl, hline, -⟩ := strchr_split hp
  exact h before line after (by rw [← hbefore, hsplit, List.append_assoc]) hline

end Lines

section Chunks

-- A parse pass that neither leaves complete requests behind a blank line nor
-- meets a line without a word.
def Clear (c : ClientQuery) : Prop := ¬Stalls c ∧ ¬SpacesOnly c

theorem clear_of_word {c : ClientQuery} {p : Nat} {b : UInt8}
    (hp : strchr c.query_buf LF = some p) (hb : b ∈ queryLine c.query_buf p) (hne : b ≠ SPACE) :
    Clear c := by
  refine ⟨?_, not_spacesOnly hp hb hne⟩
  rintro ⟨-, q, hq, hline, -⟩
  obtain rfl := Option.some.inj (hp.symm.trans hq)
  rw [hline] at hb
  exact List.not_mem_nil hb

theorem clear_payload {c : ClientQuery} (h : c.bulk_len ≠ -1) : Clear c :=
  ⟨fun hs => h hs.1, fun hs => h hs.1⟩

-- The reads on a connection: what is left of the client, and all it has called.
def connection (reads : List Bytes) : Except Fault (Option ClientQuery × List QueryEvent) :=
  (Runs.run readClient (some createClientQuery) reads).map fun last => (last.1, last.2.flatten)

theorem run_closed (reads : List Bytes) :
    ∃ log, Runs.run readClient none reads = .ok (none, log) ∧ log.flatten = [] := by
  induction reads with
  | nil => exact ⟨[], rfl, rfl⟩
  | cons buf reads ih =>
      obtain ⟨log, hlog, hflat⟩ := ih
      refine ⟨[] :: log, ?_, by simpa using hflat⟩
      simp only [Runs.run, readClient, pure, Except.pure, Except.bind, hlog]

-- Reads that are all clear come to where the stream as a whole leads.
theorem run_settled {c : ClientQuery} (h : Rests c) (hrest : Settled c (some c) [])
    (reads : List Bytes) (hreads : ∀ buf ∈ reads, QueryChunk buf)
    (hclear : AlongReads Clear (some c) reads) (hlines : ShortLines (feed c reads.flatten)) :
    ∃ last log, Runs.run readClient (some c) reads = .ok (last, log) ∧
      Settled (feed c reads.flatten) last log.flatten := by
  induction reads generalizing c with
  | nil =>
      refine ⟨some c, [], rfl, ?_⟩
      have hnil : feed c [] = c := by simp [feed]
      rw [List.flatten_nil, hnil]
      exact hrest
  | cons buf reads ih =>
      have hbuf := hreads buf (by simp)
      rw [List.flatten_cons, ← feed_feed] at hlines ⊢
      rcases readClient_spec h hbuf with ⟨-, last, events, hok, hparsed⟩ | ⟨hnot, -⟩
      swap
      · exact absurd (hclear.1.imp fun _ hc => hc.2) hnot
      have hsettled := hparsed.settled (hclear.1.imp fun _ hc => hc.1)
      change Settled (feed c buf) last events at hsettled
      cases last with
      | none =>
          obtain ⟨log, hlog, hflat⟩ := run_closed reads
          refine ⟨none, events :: log, ?_, ?_⟩
          · simp only [Runs.run, hok, Except.bind, hlog]
          · rw [List.flatten_cons, hflat, List.append_nil]
            exact hsettled.closed hlines
      | some c' =>
          have hlines' := hlines.next hsettled
          have hrest' : Settled c' (some c') [] := by
            cases hsettled with
            | rests _ hstuck hshort => exact .rests (.refl c') hstuck hshort
          obtain ⟨last, log, hrun, hlast⟩ := ih (readClient_rests h hbuf hok) hrest'
            (fun buf hmem => hreads buf (by simp [hmem])) (hclear.2 _ _ hok) hlines'
          refine ⟨last, events :: log, ?_, ?_⟩
          · simp only [Runs.run, hok, Except.bind, hrun]
          · rw [List.flatten_cons]
            exact hsettled.feed_trans hlast

end Chunks

end Cutis

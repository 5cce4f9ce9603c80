import Cutis.Client.Chunking
import Cutis.Command

namespace Cutis

section Serve

def QueryEvent.perform (os : Os) (s : Session) : QueryEvent → Except Fault Session
  | .proc cmd argv => cmd.proc.call os { s with client := { s.client with argv } }
  | .addReplySds reply => return s.addReplySds reply
  | .freeClient => return s

-- Each event has its own answers of the system.
def serve (os : Nat → Os) : Nat → List QueryEvent → Session → Except Fault Session
  | _, [], s => return s
  | k, event :: rest, s => do serve os (k + 1) rest (← event.perform (os k) s)

-- What a connection makes of its reads: what is left of the client, the calls, and
-- the session with the databases and the reply queue.
def converse (os : Nat → Os) (s : Session) (reads : List Bytes) :
    Except Fault (Option ClientQuery × List QueryEvent × Session) := do
  let (c, events) ← connection reads
  let s ← serve os 0 events s
  return (c, events, s)

end Serve

section Chunks

def freshClient (stream : Bytes) : ClientQuery := feed createClientQuery stream

theorem connection_settled (reads : List Bytes) (hreads : ∀ buf ∈ reads, QueryChunk buf)
    (hclear : AlongReads Clear (some createClientQuery) reads)
    (hlines : ShortLines (freshClient reads.flatten)) :
    ∃ last events, connection reads = .ok (last, events) ∧
      Settled (freshClient reads.flatten) last events := by
  have hfresh : Settled createClientQuery (some createClientQuery) [] :=
    .rests (.refl _) (stuck_line rfl rfl) fun _ => by decide
  obtain ⟨last, log, hrun, hsettled⟩ := run_settled (.line []) hfresh reads hreads hclear hlines
  refine ⟨last, log.flatten, ?_, hsettled⟩
  rw [connection, createClientQuery, hrun]
  rfl

-- However a stream is cut, as long as no read delivers a blank line together with
-- what follows it, the connection comes to the same end.
theorem chunking_irrelevant (stream : Bytes) (reads reads' : List Bytes)
    (hcut : reads.flatten = stream) (hcut' : reads'.flatten = stream)
    (hreads : ∀ buf ∈ reads, QueryChunk buf) (hreads' : ∀ buf ∈ reads', QueryChunk buf)
    (hlines : ShortLines (freshClient stream))
    (hclear : AlongReads Clear (some createClientQuery) reads)
    (hclear' : AlongReads Clear (some createClientQuery) reads') :
    ∃ last events, connection reads = .ok (last, events) ∧ connection reads' = .ok (last, events) ∧
      ∀ os s, converse os s reads = converse os s reads' := by
  obtain ⟨last, events, hrun, hsettled⟩ := connection_settled reads hreads hclear (hcut ▸ hlines)
  obtain ⟨last', events', hrun', hsettled'⟩ := connection_settled reads' hreads' hclear'
    (hcut' ▸ hlines)
  rw [hcut] at hsettled
  rw [hcut'] at hsettled'
  obtain ⟨rfl, rfl⟩ := settled_unique hsettled hsettled'
  refine ⟨last, events, hrun, hrun', fun os s => ?_⟩
  rw [converse, converse, hrun, hrun']

-- A read that brings an empty line and a request leaves the request unread.
theorem not_chunking_blankLine :
    ¬∀ reads reads' : List Bytes, reads.flatten = reads'.flatten →
      (∀ buf ∈ reads, QueryChunk buf) → (∀ buf ∈ reads', QueryChunk buf) →
      (∀ before line after, reads.flatten = before ++ line ++ LF :: after → LF ∉ line →
        line.length < 1024) →
      connection reads = connection reads' := by
  intro h
  have hshort (before line after : Bytes)
      (heq : [sdsnew "\r\nping\r\n"].flatten = before ++ line ++ LF :: after) :
      line.length < 1024 := by
    have hlen := congrArg List.length heq
    have hstream : [sdsnew "\r\nping\r\n"].flatten.length = 8 := by decide
    simp only [hstream, List.length_append, List.length_cons] at hlen
    omega
  have hsame := h [sdsnew "\r\nping\r\n"] [sdsnew "\r\n", sdsnew "ping\r\n"] (by decide)
    (by unfold QueryChunk; decide) (by unfold QueryChunk; decide)
    fun before line after heq _ => hshort before line after heq
  revert hsame
  decide

-- A bulk request that arrives in one read or in two.
theorem chunking_irrelevant_set :
    ∃ last events,
      connection [sdsnew "set k 3\r\nabc\r\n"] = .ok (last, events) ∧
      connection [sdsnew "set k 3\r\nab", sdsnew "c\r\n"] = .ok (last, events) ∧
      ∀ os s, converse os s [sdsnew "set k 3\r\nabc\r\n"] =
        converse os s [sdsnew "set k 3\r\nab", sdsnew "c\r\n"] := by
  refine chunking_irrelevant (sdsnew "set k 3\r\nabc\r\n") _ _ (by decide) (by decide)
    (by unfold QueryChunk; decide) (by unfold QueryChunk; decide) ?_ ?_ ?_
  · refine shortLines_of_stream fun before line after heq _ => ?_
    have hlen := congrArg List.length heq
    have hstream : (freshClient (sdsnew "set k 3\r\nabc\r\n")).query_buf.length = 14 := by decide
    simp only [hstream, List.length_append, List.length_cons] at hlen
    omega
  · have hpass : parsePass ⟨sdsnew "set k 3\r\nabc\r\n", [], -1⟩ = .ok (.CUTIS_OK,
        some createClientQuery, [.proc ⟨"set", .SetCommand, 3, .CUTIS_CMD_BULK⟩
          [sdsnew "set", sdsnew "k", sdsnew "abc"]]) := by decide
    refine ⟨.of_stop (clear_of_word (p := 8) (b := 115) (by decide) (by decide) (by decide)) hpass,
      fun last events _ => ?_⟩
    cases last <;> trivial
  · obtain ⟨hfirst, hsecond, hread, hthird⟩ := passes_set
    refine ⟨.of_again (clear_of_word (p := 8) (b := 115) (by decide) (by decide) (by decide)) hfirst
      (.of_stop (clear_payload (by decide)) hsecond), fun last events hlast => ?_⟩
    cases hread.symm.trans hlast
    refine ⟨.of_stop (clear_payload (by decide)) hthird, fun last events _ => ?_⟩
    cases last <;> trivial

end Chunks

end Cutis

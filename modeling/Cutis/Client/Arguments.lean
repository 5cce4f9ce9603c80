import Cutis.Client.Reads
import Cutis.Command.Calls

namespace Cutis

open Streaming

-- The arguments a client holds between two lines are words.
def HoldsWords (c : ClientQuery) : Prop := ∀ w ∈ c.argv, ShortWord w

def ErrorLine (s : Bytes) : Prop := ∃ text, s = text ++ [CR, LF] ∧ LF ∉ text ∧ s.length < 100

-- The calls among the events are those of complete requests.
structure EventsOk (events : List QueryEvent) : Prop where
  calls : ∀ cmd argv, QueryEvent.proc cmd argv ∈ events → CallOk cmd argv
  errors : ∀ s, QueryEvent.addReplySds s ∈ events → ErrorLine s

section Words

theorem eventsOk_nil : EventsOk [] where
  calls := fun _ _ h => absurd h List.not_mem_nil
  errors := fun _ h => absurd h List.not_mem_nil

theorem EventsOk.append {events more : List QueryEvent} (h : EventsOk events)
    (h' : EventsOk more) : EventsOk (events ++ more) where
  calls := fun cmd argv hmem => (List.mem_append.mp hmem).elim (h.calls cmd argv) (h'.calls cmd argv)
  errors := fun s hmem => (List.mem_append.mp hmem).elim (h.errors s) (h'.errors s)

theorem eventsOk_proc {cmd : CutisCommand} {argv : List Bytes} (h : CallOk cmd argv) :
    EventsOk [.proc cmd argv] where
  calls := by
    intro cmd' argv' hmem
    obtain ⟨rfl, rfl⟩ := QueryEvent.proc.inj (List.mem_singleton.mp hmem)
    exact h
  errors := fun s hmem => by cases List.mem_singleton.mp hmem

theorem eventsOk_error {s : Bytes} (h : ErrorLine s) : EventsOk [.addReplySds s] where
  calls := fun cmd argv hmem => by cases List.mem_singleton.mp hmem
  errors := by
    intro s' hmem
    obtain rfl := QueryEvent.addReplySds.inj (List.mem_singleton.mp hmem)
    exact h

theorem eventsOk_freeClient : EventsOk [.freeClient] where
  calls := fun cmd argv hmem => by cases List.mem_singleton.mp hmem
  errors := fun s hmem => by cases List.mem_singleton.mp hmem

-- A byte below the letters is its own lower case.
theorem tolower_eq {c b : UInt8} (hb : b.toNat < 65) (h : tolower c = b) : c = b := by
  unfold tolower at h
  split_ifs at h with hupper
  · have hlow := congrArg UInt8.toNat h
    simp only [UInt8.le_iff_toNat_le, UInt8.toNat_add] at hupper hlow
    have h65 : (65 : UInt8).toNat = 65 := rfl
    have h90 : (90 : UInt8).toNat = 90 := rfl
    have h32 : (32 : UInt8).toNat = 32 := rfl
    omega
  · exact h

theorem notMem_sdstolower {w : Bytes} {b : UInt8} (hb : b.toNat < 65) (h : b ∉ w) :
    b ∉ sdstolower w := by
  intro hmem
  obtain ⟨c, hc, hlow⟩ := List.mem_map.mp hmem
  exact h (tolower_eq hb hlow ▸ hc)

theorem ShortWord.sdstolower {w : Bytes} (h : ShortWord w) : ShortWord (sdstolower w) := by
  obtain ⟨⟨hne, hspace, hline, hnul⟩, hlen⟩ := h
  refine ⟨⟨?_, notMem_sdstolower (by decide) hspace, notMem_sdstolower (by decide) hline,
    notMem_sdstolower (by decide) hnul⟩, ?_⟩
  · simpa [Cutis.sdstolower] using hne
  · simpa [Cutis.sdstolower] using hlen

theorem length_mem_splitOn {line w : Bytes} (hw : w ∈ line.splitOn SPACE) :
    w.length ≤ line.length := by
  induction line generalizing w with
  | nil =>
      obtain rfl : w = [] := by simpa using hw
      exact Nat.le_refl _
  | cons c line ih =>
      rw [List.splitOn_cons_eq_if_modifyHead] at hw
      cases hsplit : line.splitOn SPACE with
      | nil => exact absurd hsplit (List.splitOn_ne_nil _ _)
      | cons t ts =>
          have ht := ih (w := t) (by simp [hsplit])
          rw [hsplit] at hw
          rw [List.length_cons]
          split_ifs at hw
          · rcases List.mem_cons.mp hw with rfl | hw
            · exact Nat.zero_le _
            · exact Nat.le_succ_of_le (ih (hsplit ▸ hw))
          · rw [List.modifyHead_cons] at hw
            rcases List.mem_cons.mp hw with rfl | hw
            · rw [List.length_cons]
              omega
            · exact Nat.le_succ_of_le (ih (hsplit ▸ List.mem_cons_of_mem _ hw))

theorem length_queryLine_le (query_buf : Bytes) (p : Nat) :
    (queryLine query_buf p).length ≤ query_buf.length := by
  have htake : (query_buf.take p).length ≤ query_buf.length := List.length_take_le' _ _
  rw [queryLine, sdsupdatelen]
  refine (List.takeWhile_sublist _).length_le.trans ?_
  split_ifs
  · exact (List.dropLast_sublist _).length_le.trans htake
  · exact htake

theorem shortWord_of_line {query_buf w : Bytes} {p : Nat} (hp : strchr query_buf LF = some p)
    (hlen : query_buf.length < 2 ^ 31) (hw : w ∈ lineWords (queryLine query_buf p)) :
    ShortWord w := by
  have hle := length_mem_splitOn (List.mem_filter.mp hw).1
  have hline := length_queryLine_le query_buf p
  exact ⟨word_of_line hp hw, by omega⟩

end Words

section Calls

variable {cmd : CutisCommand}

theorem callOk_inline {name : Bytes} {args : List Bytes}
    (hlookup : lookupCommand (sdstolower name) = some cmd)
    (haccepts : cmd.accepts (args.length + 1) = true) (hinline : cmd.type = .CUTIS_CMD_INLINE)
    (hwords : ∀ w ∈ name :: args, ShortWord w) : CallOk cmd (sdstolower name :: args) := by
  have hmem := (lookupCommand_mem hlookup).1
  have hnot : ¬cmd.proc.bulk = true := by
    rw [← (cmdTable_type hmem).1, hinline]
    decide
  refine ⟨hmem, haccepts, fun w hw => ?_, fun hbulk => absurd hbulk hnot⟩
  rw [if_neg hnot] at hw
  rcases List.mem_cons.mp hw with rfl | hw
  · exact (hwords name List.mem_cons_self).sdstolower
  · exact hwords w (List.mem_cons_of_mem _ hw)

theorem callOk_payload {argv : List Bytes} {n : Nat} (h : Awaits cmd argv n)
    (hwords : ∀ w ∈ argv, ShortWord w) {payload : Bytes} (hlen : payload.length ≤ n) :
    CallOk cmd (argv ++ [payload]) := by
  obtain ⟨name, args, hargv, -, -, hlookup⟩ := h.name
  have hmem := (lookupCommand_mem hlookup).1
  have hbulk := (cmdTable_type hmem).1.mp h.type
  have harity := h.arity
  refine ⟨hmem, ?_, fun w hw => ?_, fun _ last hlast => ?_⟩
  · rw [accepts_of_pos (by omega), harity]
    simp
  · rw [if_pos hbulk, List.dropLast_concat] at hw
    exact hwords w hw
  · rw [List.getLast?_concat, Option.mem_some_iff] at hlast
    have := h.len
    rw [← hlast]
    omega

-- The error replies are lines.
theorem processCommand_errors {c : ClientQuery} {next : Option ClientQuery} {s : Bytes}
    (h : processCommand c = .ok (next, [.addReplySds s])) : ErrorLine s := by
  have hline (text : Bytes) (htext : LF ∉ text ∧ text.length < 98) (heq : s = text ++ [CR, LF]) :
      ErrorLine s := by
    refine ⟨text, heq, htext.1, ?_⟩
    rw [heq, List.length_append, List.length_cons, List.length_singleton]
    omega
  obtain ⟨query_buf, argv, bulk_len⟩ := c
  cases argv with
  | nil => cases h
  | cons name args =>
      simp only [processCommand] at h
      split at h
      · cases h
      · split at h
        · cases h
          exact hline (sdsnew "-ERR unknown command") (by decide) (by decide)
        · split at h
          · cases h
            exact hline (sdsnew "-ERR wrong number of arguments") (by decide) (by decide)
          · split at h
            · split at h
              · cases h
                exact hline (sdsnew "-ERR invalid bulk write count") (by decide) (by decide)
              · split at h
                · obtain ⟨d, -, h⟩ := bind_eq_ok.mp h
                  cases h
                · cases h
            · cases h

-- The words of a line make a call, or are kept until the payload is there.
theorem processCommand_calls {name : Bytes} {args : List Bytes}
    (hwords : ∀ w ∈ name :: args, ShortWord w) {next : Option ClientQuery}
    {events : List QueryEvent}
    (h : processCommand { query_buf := [], argv := name :: args, bulk_len := -1 } =
      .ok (next, events)) :
    EventsOk events ∧ ∀ c ∈ next, HoldsWords c := by
  have hempty (query_buf : Bytes) : HoldsWords { query_buf, argv := [], bulk_len := -1 } :=
    fun w hw => absurd hw List.not_mem_nil
  rcases processCommand_cases name args with hproc | ⟨s, hproc⟩ |
    ⟨cmd, hlookup, haccepts, hinline, hproc⟩ | ⟨cmd, front, n, hawait, hfront, hproc⟩
  · obtain ⟨rfl, rfl⟩ := Prod.mk.inj (Except.ok.inj ((hproc []).symm.trans h))
    exact ⟨eventsOk_freeClient, fun c hc => absurd hc (Option.not_mem_none c)⟩
  · obtain ⟨rfl, rfl⟩ := Prod.mk.inj (Except.ok.inj ((hproc []).symm.trans h))
    refine ⟨eventsOk_error (processCommand_errors h), fun c hc => ?_⟩
    exact Option.some.inj hc ▸ hempty []
  · obtain ⟨rfl, rfl⟩ := Prod.mk.inj (Except.ok.inj ((hproc []).symm.trans h))
    refine ⟨eventsOk_proc (callOk_inline hlookup haccepts hinline hwords), fun c hc => ?_⟩
    exact Option.some.inj hc ▸ hempty []
  · have hwait := hproc []
    rw [if_neg (by simp)] at hwait
    obtain ⟨rfl, rfl⟩ := Prod.mk.inj (Except.ok.inj (hwait.symm.trans h))
    refine ⟨eventsOk_nil, fun c hc w hw => ?_⟩
    obtain rfl := Option.some.inj hc
    rcases List.mem_cons.mp hw with rfl | hw
    · exact (hwords name List.mem_cons_self).sdstolower
    · exact hwords w (List.mem_cons_of_mem _ (hfront.subset hw))

theorem advance_calls {c : ClientQuery} {next : Option ClientQuery} {events : List QueryEvent}
    (hlen : c.query_buf.length < 2 ^ 31) (hwords : HoldsWords c) (h : Advance c next events) :
    EventsOk events ∧
      ∀ c' ∈ next, HoldsWords c' ∧ c'.query_buf.length ≤ c.query_buf.length := by
  cases h with
  | @blank p hmode hp hline =>
      refine ⟨eventsOk_nil, fun c' hc => ?_⟩
      obtain rfl := Option.some.inj hc
      exact ⟨hwords, by simp only [List.length_drop]; omega⟩
  | @line p next events hmode hp hline hproc =>
      have htake (w : Bytes) (hw : w ∈ (lineWords (queryLine c.query_buf p)).take CUTIS_MAX_ARGS) :
          ShortWord w := shortWord_of_line hp hlen (List.mem_of_mem_take hw)
      cases hargv : (lineWords (queryLine c.query_buf p)).take CUTIS_MAX_ARGS with
      | nil =>
          rw [hargv] at hproc
          cases hproc
      | cons name args =>
          rw [hargv] at hproc htake
          obtain ⟨hcalls, hnext⟩ := processCommand_calls htake hproc
          refine ⟨hcalls, fun c' hc => ?_⟩
          obtain ⟨d, hd, rfl⟩ := Option.mem_map.mp hc
          exact ⟨hnext d hd, by simp only [List.length_drop]; omega⟩
  | @payload cmd n hmode hawait hfull =>
      refine ⟨eventsOk_proc (callOk_payload hawait hwords (List.length_take_le _ _)),
        fun c' hc => ?_⟩
      obtain rfl := Option.some.inj hc
      exact ⟨fun w hw => absurd hw List.not_mem_nil, by simp only [List.length_drop]; omega⟩

-- All messages taken off the buffer in one go.
theorem steps_calls {c : ClientQuery} {last : Option ClientQuery} {events : List QueryEvent}
    (h : Steps Advance c last events) (hlen : c.query_buf.length < 2 ^ 31)
    (hwords : HoldsWords c) : EventsOk events ∧ ∀ c' ∈ last, HoldsWords c' := by
  induction h with
  | refl c => exact ⟨eventsOk_nil, fun c' hc => Option.some.inj hc ▸ hwords⟩
  | step hs _ ih =>
      obtain ⟨hcalls, hnext⟩ := advance_calls hlen hwords hs
      obtain ⟨hholds, hle⟩ := hnext _ rfl
      obtain ⟨hrest, hlast⟩ := ih (by omega) hholds
      exact ⟨hcalls.append hrest, hlast⟩
  | close hs => exact ⟨(advance_calls hlen hwords hs).1, fun c hc => absurd hc (Option.not_mem_none c)⟩

-- A read of any bytes makes calls of complete requests only.
theorem readClient_calls {c : ClientQuery} (h : Rests c) (hwords : HoldsWords c) {buf : Bytes}
    (hbuf : QueryChunk buf) (hlen : (c.query_buf ++ buf).length < 2 ^ 31)
    {last : Option ClientQuery} {events : List QueryEvent}
    (hread : readClient (some c) buf = .ok (last, events)) :
    EventsOk events ∧ ∀ c' ∈ last, Rests c' ∧ HoldsWords c' := by
  rcases readClient_spec h hbuf with ⟨-, last', events', hok, hparsed⟩ | ⟨-, herror⟩
  swap
  · rw [herror] at hread
    cases hread
  obtain ⟨rfl, rfl⟩ := Prod.mk.inj (Except.ok.inj (hok.symm.trans hread))
  cases hparsed with
  | rests hsteps hrests _ =>
      obtain ⟨hcalls, hlast⟩ := steps_calls hsteps hlen hwords
      exact ⟨hcalls, fun c' hc => ⟨Option.some.inj hc ▸ hrests, hlast c' hc⟩⟩
  | quit hsteps =>
      exact ⟨(steps_calls hsteps hlen hwords).1, fun c' hc => absurd hc (Option.not_mem_none c')⟩
  | tooLong hsteps _ _ _ =>
      obtain ⟨hcalls, -⟩ := steps_calls hsteps hlen hwords
      exact ⟨hcalls.append eventsOk_freeClient,
        fun c' hc => absurd hc (Option.not_mem_none c')⟩

end Calls

end Cutis

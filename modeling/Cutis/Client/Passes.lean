import Cutis.Client.Decoding
import Cutis.Lib.Streaming
import Mathlib.Logic.Relation

namespace Cutis

-- The words of a line: its maximal runs of bytes other than a space.
def lineWords (line : Bytes) : List Bytes := (line.splitOn SPACE).filter (·.length > 0)

-- One pass of the loop in ParseQuery.
def parsePass (c : ClientQuery) : Except Fault (ParseStatus × Option ClientQuery × List QueryEvent) :=
  if c.bulk_len = -1 then parseNonBulkQuery c else parseBulkQuery c

-- The client between a bulk command and its payload.
structure Awaits (cmd : CutisCommand) (argv : List Bytes) (n : Nat) : Prop where
  name : ∃ name args, argv = name :: args ∧ sdstolower name = name ∧ cstr name ≠ sdsnew "quit" ∧
    lookupCommand name = some cmd
  type : cmd.type = .CUTIS_CMD_BULK
  arity : cmd.arity = argv.length + 1
  argc : argv.length = 2 ∨ argv.length = 3
  len : n ≤ 2 ^ 30

section Words

-- The bytes of a line other than spaces are those of its tokens.
theorem mem_splitOn (line : Bytes) :
    (∀ w ∈ line.splitOn SPACE, SPACE ∉ w ∧ ∀ b ∈ w, b ∈ line) ∧
      ∀ b ∈ line, b ≠ SPACE → ∃ w ∈ line.splitOn SPACE, b ∈ w := by
  induction line with
  | nil => simp
  | cons c line ih =>
      obtain ⟨hwords, hbytes⟩ := ih
      rw [List.splitOn_cons_eq_if_modifyHead]
      cases hsplit : line.splitOn SPACE with
      | nil => exact absurd hsplit (List.splitOn_ne_nil _ _)
      | cons t ts =>
          rw [hsplit] at hwords hbytes
          split_ifs with hc
          · have hspace : c = SPACE := by simpa using hc
            refine ⟨fun w hw => ?_, fun b hb hne => ?_⟩
            · rcases List.mem_cons.mp hw with rfl | hw
              · simp
              · exact ⟨(hwords w hw).1, fun b hb => List.mem_cons_of_mem _ ((hwords w hw).2 b hb)⟩
            · rcases List.mem_cons.mp hb with rfl | hb
              · exact absurd hspace hne
              · obtain ⟨w, hw, hbw⟩ := hbytes b hb hne
                exact ⟨w, List.mem_cons_of_mem _ hw, hbw⟩
          · have hspace : c ≠ SPACE := by simpa using hc
            rw [List.modifyHead_cons]
            refine ⟨fun w hw => ?_, fun b hb hne => ?_⟩
            · rcases List.mem_cons.mp hw with rfl | hw
              · obtain ⟨hclean, hmem⟩ := hwords t (by simp)
                refine ⟨?_, fun b hb => ?_⟩
                · rw [List.mem_cons, not_or]
                  exact ⟨Ne.symm hspace, hclean⟩
                · rcases List.mem_cons.mp hb with rfl | hb
                  · exact List.mem_cons_self
                  · exact List.mem_cons_of_mem _ (hmem b hb)
              · obtain ⟨hclean, hmem⟩ := hwords w (List.mem_cons_of_mem _ hw)
                exact ⟨hclean, fun b hb => List.mem_cons_of_mem _ (hmem b hb)⟩
            · rcases List.mem_cons.mp hb with rfl | hb
              · exact ⟨b :: t, List.mem_cons_self, List.mem_cons_self⟩
              · obtain ⟨w, hw, hbw⟩ := hbytes b hb hne
                rcases List.mem_cons.mp hw with rfl | hw
                · exact ⟨c :: w, List.mem_cons_self, List.mem_cons_of_mem _ hbw⟩
                · exact ⟨w, List.mem_cons_of_mem _ hw, hbw⟩

theorem mem_lineWords {line w : Bytes} (hw : w ∈ lineWords line) :
    w ≠ [] ∧ SPACE ∉ w ∧ ∀ b ∈ w, b ∈ line := by
  obtain ⟨hsplit, hlen⟩ := List.mem_filter.mp hw
  exact ⟨List.length_pos_iff.mp (by simpa using hlen), (mem_splitOn line).1 w hsplit⟩

theorem lineWords_eq_nil_iff (line : Bytes) : lineWords line = [] ↔ ∀ b ∈ line, b = SPACE := by
  constructor
  · intro hnil b hb
    by_contra hne
    obtain ⟨w, hw, hbw⟩ := (mem_splitOn line).2 b hb hne
    have hmem : w ∈ lineWords line :=
      List.mem_filter.mpr ⟨hw, by simpa using List.length_pos_of_mem hbw⟩
    rw [hnil] at hmem
    exact List.not_mem_nil hmem
  · intro hall
    apply List.eq_nil_iff_forall_not_mem.mpr
    intro w hw
    obtain ⟨hne, hclean, hmem⟩ := mem_lineWords hw
    obtain ⟨b, hb⟩ := List.exists_mem_of_ne_nil w hne
    exact hclean (hall b (hmem b hb) ▸ hb)

theorem queryLine_clean {query_buf : Bytes} {p : Nat} (hp : strchr query_buf LF = some p) :
    LF ∉ queryLine query_buf p ∧ NUL ∉ queryLine query_buf p := by
  obtain ⟨line, rest, rfl, rfl, hline, hnul⟩ := strchr_split hp
  have hsub : ∀ b ∈ queryLine (line ++ LF :: rest) line.length, b ∈ line := by
    intro b hb
    rw [queryLine, sdsupdatelen, List.take_left] at hb
    have hb := (List.takeWhile_sublist _).mem hb
    split_ifs at hb
    · exact (List.dropLast_sublist _).mem hb
    · exact hb
  exact ⟨fun h => hline (hsub _ h), fun h => hnul (hsub _ h)⟩

-- The words of a request line.
theorem word_of_line {query_buf w : Bytes} {p : Nat} (hp : strchr query_buf LF = some p)
    (hw : w ∈ lineWords (queryLine query_buf p)) : Word w := by
  obtain ⟨hne, hspace, hmem⟩ := mem_lineWords hw
  obtain ⟨hline, hnul⟩ := queryLine_clean hp
  exact ⟨hne, hspace, fun h => hline (hmem _ h), fun h => hnul (hmem _ h)⟩

end Words

section Process

theorem lookupCommand_mem {name : Bytes} {cmd : CutisCommand} (h : lookupCommand name = some cmd) :
    cmd ∈ cmdTable ∧ sdsnew cmd.name = cstr name := by
  refine ⟨List.mem_of_find?_eq_some h, ?_⟩
  simpa using List.find?_some h

theorem cmdTable_bulk {cmd : CutisCommand} (h : cmd ∈ cmdTable) (hbulk : cmd.type = .CUTIS_CMD_BULK) :
    cmd.arity = 3 ∨ cmd.arity = 4 := by
  revert cmd
  decide

theorem accepts_of_pos {cmd : CutisCommand} (hpos : 0 < cmd.arity) (argc : Nat) :
    cmd.accepts argc = true ↔ cmd.arity = argc := by
  have hlow : ¬(argc : Int) < -cmd.arity := by omega
  simp [CutisCommand.accepts, hpos, hlow]

theorem tolower_tolower (c : UInt8) : tolower (tolower c) = tolower c := by
  unfold tolower
  split_ifs with hupper hagain
  · simp only [UInt8.le_iff_toNat_le, UInt8.toNat_add] at hupper hagain
    have h65 : (65 : UInt8).toNat = 65 := rfl
    have h90 : (90 : UInt8).toNat = 90 := rfl
    have h32 : (32 : UInt8).toNat = 32 := rfl
    omega
  · rfl
  · rfl

theorem sdstolower_sdstolower (s : Bytes) : sdstolower (sdstolower s) = sdstolower s := by
  simp only [sdstolower, List.map_map]
  exact List.map_congr_left fun c _ => tolower_tolower c

variable {cmd : CutisCommand} {argv : List Bytes} {n : Nat}

-- The payload completes the arguments.
theorem processCommand_payload (h : Awaits cmd argv n) (payload query_buf : Bytes) :
    processCommand { query_buf, argv := argv ++ [payload], bulk_len := n + 2 } =
      .ok (some { query_buf, argv := [], bulk_len := -1 }, [.proc cmd (argv ++ [payload])]) := by
  obtain ⟨name, args, rfl, hlower, hquit, hlookup⟩ := h.name
  have harity := h.arity
  have haccepts : cmd.accepts (name :: (args ++ [payload])).length = true := by
    rw [accepts_of_pos (by omega), harity]
    simp
  have hbulk : ¬(cmd.type = .CUTIS_CMD_BULK ∧ (n : Int) + 2 = -1) := by omega
  simp only [processCommand, List.cons_append, hlower, hquit, if_false, hlookup, haccepts,
    Bool.not_true, Bool.false_eq_true, hbulk, resetClient]
  rfl

section Named

variable {name : Bytes} {args : List Bytes}

theorem lookupCommand_ne_quit (h : lookupCommand name = some cmd) : cstr name ≠ sdsnew "quit" := by
  obtain ⟨hmem, hname⟩ := lookupCommand_mem h
  have hnames : ∀ cmd ∈ cmdTable, sdsnew cmd.name ≠ sdsnew "quit" := by decide
  exact hname ▸ hnames cmd hmem

variable (hlookup : lookupCommand (sdstolower name) = some cmd)

include hlookup

theorem processCommand_rejected (haccepts : ¬cmd.accepts (args.length + 1) = true)
    (query_buf : Bytes) :
    processCommand { query_buf, argv := name :: args, bulk_len := -1 } =
      .ok (some { query_buf, argv := [], bulk_len := -1 },
        [.addReplySds (sdsnew "-ERR wrong number of arguments\r\n")]) := by
  simp only [processCommand, lookupCommand_ne_quit hlookup, if_false, hlookup, List.length_cons,
    haccepts, Bool.not_false, if_true]
  rfl

theorem processCommand_inline (haccepts : cmd.accepts (args.length + 1) = true)
    (hinline : cmd.type = .CUTIS_CMD_INLINE) (query_buf : Bytes) :
    processCommand { query_buf, argv := name :: args, bulk_len := -1 } =
      .ok (some { query_buf, argv := [], bulk_len := -1 },
        [.proc cmd (sdstolower name :: args)]) := by
  simp only [processCommand, lookupCommand_ne_quit hlookup, if_false, hlookup, List.length_cons,
    haccepts, Bool.not_true, Bool.false_eq_true, hinline, reduceCtorEq, false_and]
  rfl

section Count

variable {last : Bytes} (haccepts : cmd.accepts (args.length + 2) = true)
  (hbulk : cmd.type = .CUTIS_CMD_BULK)

include haccepts hbulk

theorem processCommand_invalid_count
    (hrange : atoi last < 0 ∨ atoi last > CUTIS_MAX_STRING_LENGTH) (query_buf : Bytes) :
    processCommand { query_buf, argv := name :: args ++ [last], bulk_len := -1 } =
      .ok (some { query_buf, argv := [], bulk_len := -1 },
        [.addReplySds (sdsnew "-ERR invalid bulk write count\r\n")]) := by
  have hlast : (sdstolower name :: (args ++ [last])).getLast (List.cons_ne_nil _ _) = last := by
    simp
  have hargc : (sdstolower name :: (args ++ [last])).length = args.length + 2 := by simp
  simp only [processCommand, List.cons_append, lookupCommand_ne_quit hlookup, if_false, hlookup,
    hargc, haccepts, Bool.not_true, Bool.false_eq_true, hbulk, true_and, if_true, hlast, hrange]
  rfl

-- The client that waits for the payload.
theorem awaits_of_count (hle : n ≤ 2 ^ 30) :
    Awaits cmd (sdstolower name :: args) n := by
  have harity := cmdTable_bulk (lookupCommand_mem hlookup).1 hbulk
  have hargc := (accepts_of_pos (by omega) _).mp haccepts
  exact
    { name := ⟨sdstolower name, args, rfl, sdstolower_sdstolower name,
        lookupCommand_ne_quit hlookup, hlookup⟩
      type := hbulk
      arity := by simp only [List.length_cons]; omega
      argc := by simp only [List.length_cons]; omega
      len := hle }

theorem processCommand_count (hcount : atoi last = n) (hle : n ≤ 2 ^ 30) (query_buf : Bytes) :
    processCommand { query_buf, argv := name :: args ++ [last], bulk_len := -1 } =
      if n + 2 ≤ query_buf.length then
        .ok (some { query_buf := query_buf.drop (n + 2), argv := [], bulk_len := -1 },
          [.proc cmd (sdstolower name :: args ++ [query_buf.take n])])
      else
        .ok (some { query_buf, argv := sdstolower name :: args, bulk_len := n + 2 }, []) := by
  have hargs := (awaits_of_count hlookup haccepts hbulk hle).argc
  have hlast : (sdstolower name :: (args ++ [last])).getLast (List.cons_ne_nil _ _) = last := by
    simp
  have hdrop : (sdstolower name :: (args ++ [last])).dropLast = sdstolower name :: args := by
    rw [← List.cons_append, List.dropLast_concat]
  have hargc : (sdstolower name :: (args ++ [last])).length = args.length + 2 := by simp
  have hroom : (sdstolower name :: args).length < CUTIS_MAX_ARGS := by
    rw [CUTIS_MAX_ARGS]
    omega
  have hrange : ¬((n : Int) < 0 ∨ (n : Int) > CUTIS_MAX_STRING_LENGTH) := by
    simp only [CUTIS_MAX_STRING_LENGTH]
    omega
  have htake : ((n : Int) + 2 - 2).toNat = n := by omega
  have hbuf : (query_buf.length : Int) ≥ n + 2 ↔ n + 2 ≤ query_buf.length := by omega
  simp only [processCommand, List.cons_append, lookupCommand_ne_quit hlookup, if_false, hlookup,
    hargc, haccepts, Bool.not_true, Bool.false_eq_true, hbulk, true_and, if_true, hlast, hcount,
    hrange, hdrop, hbuf, htake]
  split_ifs with hfull
  · have hdropped := sdsrange_drop query_buf (n + 2) hfull
    simp only [Nat.cast_add, Nat.cast_ofNat] at hdropped
    simp only [setArg, hroom, if_true, bind, Except.bind, pure, Except.pure, hdropped, resetClient,
      List.cons_append]
  · rfl

end Count

end Named

-- What ProcessCommand does with the words of a line, whatever is in the buffer.
theorem processCommand_cases (name : Bytes) (args : List Bytes) :
    (∀ query_buf, processCommand { query_buf, argv := name :: args, bulk_len := -1 } =
      .ok (none, [.freeClient])) ∨
    (∃ s, ∀ query_buf, processCommand { query_buf, argv := name :: args, bulk_len := -1 } =
      .ok (some { query_buf, argv := [], bulk_len := -1 }, [.addReplySds s])) ∨
    (∃ cmd, lookupCommand (sdstolower name) = some cmd ∧ cmd.accepts (args.length + 1) = true ∧
      cmd.type = .CUTIS_CMD_INLINE ∧
      ∀ query_buf, processCommand { query_buf, argv := name :: args, bulk_len := -1 } =
        .ok (some { query_buf, argv := [], bulk_len := -1 },
          [.proc cmd (sdstolower name :: args)])) ∨
    ∃ cmd front n, Awaits cmd (sdstolower name :: front) n ∧ front <+: args ∧ ∀ query_buf,
      processCommand { query_buf, argv := name :: args, bulk_len := -1 } =
        if n + 2 ≤ query_buf.length then
          .ok (some { query_buf := query_buf.drop (n + 2), argv := [], bulk_len := -1 },
            [.proc cmd (sdstolower name :: front ++ [query_buf.take n])])
        else
          .ok (some { query_buf, argv := sdstolower name :: front, bulk_len := n + 2 }, []) := by
  cases hlookup : lookupCommand (sdstolower name) with
  | none =>
      by_cases hquit : cstr (sdstolower name) = sdsnew "quit"
      · refine Or.inl fun query_buf => ?_
        simp only [processCommand, hquit, if_true]
        rfl
      · refine Or.inr (Or.inl ⟨sdsnew "-ERR unknown command\r\n", fun query_buf => ?_⟩)
        simp only [processCommand, hquit, if_false, hlookup]
        rfl
  | some cmd =>
      refine Or.inr ?_
      by_cases haccepts : cmd.accepts (args.length + 1) = true
      swap
      · exact Or.inl ⟨_, processCommand_rejected hlookup haccepts⟩
      cases htype : cmd.type with
      | CUTIS_CMD_INLINE =>
          exact Or.inr (Or.inl
            ⟨cmd, rfl, haccepts, htype, processCommand_inline hlookup haccepts htype⟩)
      | CUTIS_CMD_BULK =>
          have harity := cmdTable_bulk (lookupCommand_mem hlookup).1 htype
          have hargc := (accepts_of_pos (by omega) _).mp haccepts
          rcases List.eq_nil_or_concat' args with rfl | ⟨front, last, rfl⟩
          · simp only [List.length_nil] at hargc
            omega
          rw [List.length_append, List.length_singleton] at haccepts
          by_cases hrange : atoi last < 0 ∨ atoi last > CUTIS_MAX_STRING_LENGTH
          · exact Or.inl ⟨_, processCommand_invalid_count hlookup haccepts htype hrange⟩
          have hlt := not_or.mp hrange
          simp only [CUTIS_MAX_STRING_LENGTH] at hlt
          have hcount : atoi last = (atoi last).toNat := by omega
          exact Or.inr (Or.inr ⟨cmd, front, _,
            awaits_of_count hlookup haccepts htype (by omega), List.prefix_append _ _,
            processCommand_count hlookup haccepts htype hcount (by omega)⟩)

end Process

section Passes

-- The loop reads a blank line, and leaves bytes behind it in the buffer.
def Stalls (c : ClientQuery) : Prop :=
  c.bulk_len = -1 ∧ ∃ p, strchr c.query_buf LF = some p ∧ queryLine c.query_buf p = [] ∧
    p + 1 < c.query_buf.length

-- The loop reads a line of spaces only.
def SpacesOnly (c : ClientQuery) : Prop :=
  c.bulk_len = -1 ∧ ∃ p, strchr c.query_buf LF = some p ∧ queryLine c.query_buf p ≠ [] ∧
    ∀ b ∈ queryLine c.query_buf p, b = SPACE

-- What the head of the loop finds: the start of a line, or of a payload.
inductive Head : ClientQuery → Prop
  | line (query_buf : Bytes) : Head { query_buf, argv := [], bulk_len := -1 }
  | payload {cmd : CutisCommand} {query_buf : Bytes} {argv : List Bytes} {n : Nat} :
      Awaits cmd argv n → query_buf.length < n + 2 + CUTIS_QUERY_BUF_LEN →
      Head { query_buf, argv, bulk_len := n + 2 }

-- What the client holds between reads.
inductive Rests : ClientQuery → Prop
  | line (query_buf : Bytes) : Rests { query_buf, argv := [], bulk_len := -1 }
  | payload {cmd : CutisCommand} {query_buf : Bytes} {argv : List Bytes} {n : Nat} :
      Awaits cmd argv n → query_buf.length < n + 2 → Rests { query_buf, argv, bulk_len := n + 2 }

theorem Rests.read {c : ClientQuery} (h : Rests c) {buf : Bytes} (hbuf : QueryChunk buf) :
    Head { c with query_buf := c.query_buf ++ buf } := by
  have hlen := hbuf.2
  cases h with
  | line query_buf => exact .line _
  | payload hawait hshort =>
      refine .payload hawait ?_
      simp only [List.length_append]
      omega

theorem Rests.head {c : ClientQuery} (h : Rests c) : Head c := by
  cases h with
  | line query_buf => exact .line _
  | payload hawait hshort => exact .payload hawait (by omega)

-- One message off the buffer: a line, or the payload of the last one. The words
-- of a line are looked at without what follows it.
inductive Advance (c : ClientQuery) : Option ClientQuery → List QueryEvent → Prop
  | blank {p : Nat} : c.bulk_len = -1 → strchr c.query_buf LF = some p →
      queryLine c.query_buf p = [] →
      Advance c (some { c with query_buf := c.query_buf.drop (p + 1) }) []
  | line {p : Nat} {next : Option ClientQuery} {events : List QueryEvent} :
      c.bulk_len = -1 → strchr c.query_buf LF = some p → queryLine c.query_buf p ≠ [] →
      processCommand
        { query_buf := []
          argv := (lineWords (queryLine c.query_buf p)).take CUTIS_MAX_ARGS
          bulk_len := -1 } = .ok (next, events) →
      Advance c (next.map ({ · with query_buf := c.query_buf.drop (p + 1) })) events
  | payload {cmd : CutisCommand} {n : Nat} :
      c.bulk_len = n + 2 → Awaits cmd c.argv n → n + 2 ≤ c.query_buf.length →
      Advance c (some { query_buf := c.query_buf.drop (n + 2), argv := [], bulk_len := -1 })
        [.proc cmd (c.argv ++ [c.query_buf.take n])]

theorem awaits_unique {cmd cmd' : CutisCommand} {argv : List Bytes} {n n' : Nat}
    (h : Awaits cmd argv n) (h' : Awaits cmd' argv n') : cmd = cmd' := by
  obtain ⟨name, args, rfl, -, -, hlookup⟩ := h.name
  obtain ⟨name', args', hargv, -, -, hlookup'⟩ := h'.name
  obtain ⟨rfl, -⟩ := List.cons.inj hargv
  exact Option.some.inj (hlookup.symm.trans hlookup')

theorem advance_unique (c : ClientQuery) (next : Option ClientQuery) (events : List QueryEvent)
    (next' : Option ClientQuery) (events' : List QueryEvent) (h : Advance c next events)
    (h' : Advance c next' events') : next = next' ∧ events = events' := by
  cases h with
  | blank hmode hp hline =>
      cases h' with
      | blank _ hp' _ =>
          obtain rfl := Option.some.inj (hp.symm.trans hp')
          exact ⟨rfl, rfl⟩
      | line _ hp' hline' _ =>
          obtain rfl := Option.some.inj (hp.symm.trans hp')
          exact absurd hline hline'
      | payload hmode' _ _ => omega
  | line hmode hp hline hproc =>
      cases h' with
      | blank _ hp' hline' =>
          obtain rfl := Option.some.inj (hp.symm.trans hp')
          exact absurd hline' hline
      | line _ hp' hline' hproc' =>
          obtain rfl := Option.some.inj (hp.symm.trans hp')
          obtain ⟨rfl, rfl⟩ := Prod.mk.inj (Except.ok.inj (hproc.symm.trans hproc'))
          exact ⟨rfl, rfl⟩
      | payload hmode' _ _ => omega
  | @payload cmd n hmode hawait hlen =>
      cases h' with
      | blank hmode' _ _ => omega
      | line hmode' _ _ _ => omega
      | @payload cmd' n' hmode' hawait' _ =>
          obtain rfl : n = n' := by omega
          obtain rfl := awaits_unique hawait hawait'
          exact ⟨rfl, rfl⟩

-- The newline found stays the first one when more input follows.
theorem strchr_append_right {s : Bytes} {p : Nat} (h : strchr s LF = some p) (buf : Bytes) :
    strchr (s ++ buf) LF = some p := by
  obtain ⟨line, rest, rfl, rfl, hline, hnul⟩ := strchr_split h
  rw [List.append_assoc, List.cons_append]
  exact strchr_append hline hnul (by decide) _

theorem strchr_lt {s : Bytes} {c : UInt8} {p : Nat} (h : strchr s c = some p) : p < s.length := by
  obtain ⟨line, rest, rfl, rfl, -⟩ := strchr_split h
  simp

theorem queryLine_append {s : Bytes} {p : Nat} (hp : p < s.length) (buf : Bytes) :
    queryLine (s ++ buf) p = queryLine s p := by
  rw [queryLine, queryLine, List.take_append_of_le_length (by omega)]

-- More input leaves the first message as it is.
theorem advance_feed (c : ClientQuery) (next : Option ClientQuery) (events : List QueryEvent)
    (buf : Bytes) (h : Advance c next events) :
    Advance { c with query_buf := c.query_buf ++ buf }
      (next.map fun c => { c with query_buf := c.query_buf ++ buf }) events := by
  cases h with
  | @blank p hmode hp hline =>
      have hlt := strchr_lt hp
      have hfed := @Advance.blank { c with query_buf := c.query_buf ++ buf } p hmode
        (strchr_append_right hp buf) ((queryLine_append hlt buf).trans hline)
      simp only [List.drop_append_of_le_length (show p + 1 ≤ c.query_buf.length from hlt)] at hfed
      exact hfed
  | @line p next events hmode hp hline hproc =>
      have hlt := strchr_lt hp
      have hfed := @Advance.line { c with query_buf := c.query_buf ++ buf } p next events hmode
        (strchr_append_right hp buf) (by rwa [queryLine_append hlt])
        (by rwa [queryLine_append hlt])
      simp only [List.drop_append_of_le_length (show p + 1 ≤ c.query_buf.length from hlt)] at hfed
      rwa [Option.map_map]
  | @payload cmd n hmode hawait hlen =>
      have hfed := @Advance.payload { c with query_buf := c.query_buf ++ buf } cmd n hmode hawait
        (by simp only [List.length_append]; omega)
      simp only [List.drop_append_of_le_length hlen,
        List.take_append_of_le_length (show n ≤ c.query_buf.length by omega)] at hfed
      exact hfed

end Passes

end Cutis

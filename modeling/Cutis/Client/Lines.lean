import Cutis.Client.Parsing

namespace Cutis

section Words

-- The words of a line as it was sent, with or without a carriage return at its end.
def requestWords (line : Bytes) : List Bytes :=
  lineWords (if line.getLast? = some CR then line.dropLast else line)

theorem queryLine_eq {line : Bytes} (hnul : NUL ∉ line) (rest : Bytes) :
    queryLine (line ++ LF :: rest) line.length =
      if line.getLast? = some CR then line.dropLast else line := by
  rw [queryLine, List.take_left, sdsupdatelen]
  refine cstr_eq_self fun hmem => hnul ?_
  split_ifs at hmem
  · exact (List.dropLast_sublist _).mem hmem
  · exact hmem

-- The handler gets all the words of the line, or the client an error.
def WordsKept (line rest : Bytes) (cmd : CutisCommand) (name : Bytes) (args : List Bytes) : Prop :=
  (∃ status, parsePass ⟨line ++ LF :: rest, [], -1⟩ =
    .ok (status, some ⟨rest, [], -1⟩, [.proc cmd (sdstolower name :: args)])) ∨
  ∃ status reply, parsePass ⟨line ++ LF :: rest, [], -1⟩ =
    .ok (status, some ⟨rest, [], -1⟩, [.addReplySds (sdsnew "-ERR " ++ reply)])

theorem parsePass_request {line : Bytes} (hlf : LF ∉ line) (hnul : NUL ∉ line) (rest : Bytes)
    {name : Bytes} {args : List Bytes} (hwords : requestWords line = name :: args) :
    parsePass ⟨line ++ LF :: rest, [], -1⟩ =
      processThenParse ⟨rest, name :: args.take 15, -1⟩ := by
  have hp := strchr_append hlf hnul (by decide) rest
  have hline := queryLine_eq hnul rest
  rw [requestWords, ← hline] at hwords
  have hne : queryLine (line ++ LF :: rest) line.length ≠ [] := by
    intro hnil
    rw [hnil] at hwords
    cases hwords
  have hdrop : (line ++ LF :: rest).drop (line.length + 1) = rest := by
    rw [← List.drop_drop, List.drop_left]
    rfl
  rw [parsePass_line hp hne, hwords, hdrop]
  rfl

theorem cmdTable_arity {cmd : CutisCommand} (h : cmd ∈ cmdTable) :
    (cmd.name = "sinter" ∧ cmd.arity = -2) ∨
      (cmd.name ≠ "sinter" ∧ 0 < cmd.arity ∧ cmd.arity ≤ 4) := by
  revert cmd
  decide

-- Words are lost exactly where SINTER gets more of them than there are slots.
theorem wordsKept_iff {line : Bytes} (hlf : LF ∉ line) (hnul : NUL ∉ line) (rest : Bytes)
    {name : Bytes} {args : List Bytes} (hwords : requestWords line = name :: args)
    {cmd : CutisCommand} (hlookup : lookupCommand (sdstolower name) = some cmd)
    (hinline : cmd.type = .CUTIS_CMD_INLINE) :
    WordsKept line rest cmd name args ↔
      ¬(cmd.name = "sinter" ∧ CUTIS_MAX_ARGS < args.length + 1) := by
  have hpass := parsePass_request hlf hnul rest hwords
  have hmem := (lookupCommand_mem hlookup).1
  by_cases haccepts : cmd.accepts ((args.take 15).length + 1) = true
  · have hproc := processCommand_inline hlookup haccepts hinline rest
    rw [processThenParse_eq hproc] at hpass
    have hkept : WordsKept line rest cmd name args ↔ args.take 15 = args := by
      rw [WordsKept, hpass]
      constructor
      · rintro (⟨status, h⟩ | ⟨status, reply, h⟩)
        · simp only [Except.ok.injEq, Prod.mk.injEq, List.cons.injEq, QueryEvent.proc.injEq,
            true_and, and_true] at h
          exact h.2
        · simp at h
      · intro h
        rw [h]
        exact Or.inl ⟨_, rfl⟩
    rw [hkept, List.take_eq_self_iff]
    rcases cmdTable_arity hmem with ⟨hname, -⟩ | ⟨hname, hpos, hle⟩
    · simp only [hname, true_and, CUTIS_MAX_ARGS]
      omega
    · have hargc := (accepts_of_pos hpos _).mp haccepts
      rw [List.length_take] at hargc
      simp only [hname, false_and, not_false_iff, iff_true]
      omega
  · have hproc := processCommand_rejected hlookup haccepts rest
    rw [processThenParse_eq hproc] at hpass
    have hreply : sdsnew "-ERR wrong number of arguments\r\n" =
        sdsnew "-ERR " ++ sdsnew "wrong number of arguments\r\n" := by decide
    rw [hreply] at hpass
    refine iff_of_true (Or.inr ⟨_, _, hpass⟩) ?_
    rintro ⟨hname, hlong⟩
    rw [CUTIS_MAX_ARGS] at hlong
    apply haccepts
    have harity : cmd.arity = -2 := by
      rcases cmdTable_arity hmem with ⟨-, h⟩ | ⟨h, -⟩
      · exact h
      · exact absurd hname h
    have hargc : (args.take 15).length = 15 := by
      rw [List.length_take]
      omega
    rw [CutisCommand.accepts, harity, hargc]
    decide

-- SINTER with seventeen words.
theorem not_wordsKept_sinter :
    requestWords (sdsnew "sinter a b c d e f g h i j k l m n o p") =
        sdsnew "sinter" :: (sdsnew "abcdefghijklmnop").map ([·]) ∧
      ¬WordsKept (sdsnew "sinter a b c d e f g h i j k l m n o p") []
        ⟨"sinter", .SInterCommand, -2, .CUTIS_CMD_INLINE⟩ (sdsnew "sinter")
        ((sdsnew "abcdefghijklmnop").map ([·])) := by
  refine ⟨by decide, ?_⟩
  have hpass : parsePass ⟨sdsnew "sinter a b c d e f g h i j k l m n o p" ++ [LF], [], -1⟩ =
      .ok (.CUTIS_OK, some ⟨[], [], -1⟩, [.proc ⟨"sinter", .SInterCommand, -2, .CUTIS_CMD_INLINE⟩
        (sdsnew "sinter" :: (sdsnew "abcdefghijklmno").map ([·]))]) := by decide
  rintro (⟨status, h⟩ | ⟨status, reply, h⟩)
  · have hproc := (Prod.mk.inj (Prod.mk.inj (Except.ok.inj (hpass.symm.trans h))).2).2
    revert hproc
    decide
  · have hproc := (Prod.mk.inj (Prod.mk.inj (Except.ok.inj (hpass.symm.trans h))).2).2
    simp at hproc

theorem wordsKept_type :
    WordsKept (sdsnew " TYPE  k\r") [] ⟨"type", .TypeCommand, 2, .CUTIS_CMD_INLINE⟩ (sdsnew "TYPE")
        [sdsnew "k"] ↔
      ¬("type" = "sinter" ∧ CUTIS_MAX_ARGS < 2) :=
  wordsKept_iff (by decide) (by decide) [] (by decide) (by decide) rfl

end Words

section Counts

-- A bulk command waits for the n bytes of its payload and the line end behind
-- them, or takes them from the buffer, or is refused.
def CountMeant (name : Bytes) (args : List Bytes) (text : Bytes) (cmd : CutisCommand) (n : Int) :
    Prop :=
  ∀ query_buf, processCommand ⟨query_buf, name :: args ++ [text], -1⟩ =
    if 0 ≤ n ∧ n ≤ 2 ^ 30 then
      if n.toNat + 2 ≤ query_buf.length then
        .ok (some ⟨query_buf.drop (n.toNat + 2), [], -1⟩,
          [.proc cmd (sdstolower name :: args ++ [query_buf.take n.toNat])])
      else
        .ok (some ⟨query_buf, sdstolower name :: args, n + 2⟩, [])
    else
      .ok (some ⟨query_buf, [], -1⟩, [.addReplySds (sdsnew "-ERR invalid bulk write count\r\n")])

theorem countMeant_iff {name : Bytes} {args : List Bytes} {text : Bytes} {cmd : CutisCommand}
    {n : Int} (htext : NumberText text n) (hlookup : lookupCommand (sdstolower name) = some cmd)
    (haccepts : cmd.accepts (args.length + 2) = true) (hbulk : cmd.type = .CUTIS_CMD_BULK) :
    CountMeant name args text cmd n ↔
      (0 ≤ n ∧ n ≤ 2 ^ 30) ∨ ¬(0 ≤ atoiValue n ∧ atoiValue n ≤ 2 ^ 30) := by
  have hatoi := atoi_text htext
  by_cases hmeant : 0 ≤ n ∧ n ≤ 2 ^ 30
  · refine iff_of_true (fun query_buf => ?_) (Or.inl hmeant)
    have hcount : atoi text = n.toNat := by
      rw [hatoi, atoiValue_eq_self (by omega) (by omega)]
      omega
    rw [if_pos hmeant, processCommand_count hlookup haccepts hbulk hcount (by omega)]
    have hnat : ((n.toNat : Nat) : Int) = n := by omega
    rw [hnat]
  · rw [or_iff_right hmeant]
    constructor
    · rintro h ⟨hlo, hhi⟩
      have hcount : atoi text = (atoiValue n).toNat := by
        rw [hatoi]
        omega
      have hempty := h []
      rw [if_neg hmeant, processCommand_count hlookup haccepts hbulk hcount (by omega),
        if_neg (by simp)] at hempty
      cases hempty
    · intro hout query_buf
      have hrange : atoi text < 0 ∨ atoi text > CUTIS_MAX_STRING_LENGTH := by
        rw [hatoi]
        simp only [CUTIS_MAX_STRING_LENGTH]
        omega
      rw [if_neg hmeant, processCommand_invalid_count hlookup haccepts hbulk hrange]

end Counts

end Cutis

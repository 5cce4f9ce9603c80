import Cutis.Client.Lemmas

namespace Cutis

-- A word of a request line.
def Word (w : Bytes) : Prop := w ≠ [] ∧ SPACE ∉ w ∧ LF ∉ w ∧ NUL ∉ w

instance (w : Bytes) : Decidable (Word w) := inferInstanceAs (Decidable (_ ∧ _))

-- The length of a word fits in an int, as that of any line does.
def ShortWord (w : Bytes) : Prop := Word w ∧ w.length < 2 ^ 31

instance (w : Bytes) : Decidable (ShortWord w) := inferInstanceAs (Decidable (_ ∧ _))

def bulkLenWords (payload : Option Bytes) : List Bytes :=
  payload.toList.map fun p => Decimal.print p.length

-- The words of a line, without its line end.
def joinWords (words : List Bytes) : Bytes := [SPACE].intercalate words

-- A request of the documented form. The payload of a bulk command is announced
-- by its length at the end of the line.
structure Request where
  cmd : CutisCommand
  name : Bytes
  args : List Bytes
  payload : Option Bytes
  cmd_mem : cmd ∈ cmdTable
  name_eq : sdstolower name = sdsnew cmd.name
  words_ok : ∀ w ∈ name :: args, Word w
  payload_iff : payload.isSome ↔ cmd.type = .CUTIS_CMD_BULK
  accepted : cmd.accepts (1 + args.length + payload.toList.length) = true
  words_le : 1 + args.length + payload.toList.length ≤ CUTIS_MAX_ARGS
  line_le : (joinWords (name :: args ++ bulkLenWords payload)).length + 2 ≤ 1024
  payload_le : ∀ p ∈ payload, p.length ≤ 2 ^ 30

namespace Request

def words (r : Request) : List Bytes := r.name :: r.args ++ bulkLenWords r.payload

def line (r : Request) : Bytes := joinWords r.words

def body (r : Request) : Bytes := (r.payload.toList.map fun p => p ++ [CR, LF]).flatten

def encode (r : Request) : Bytes := r.line ++ CR :: LF :: r.body

-- The handler call the request stands for.
def call (r : Request) : QueryEvent :=
  .proc r.cmd (sdstolower r.name :: r.args ++ r.payload.toList)

-- The client while the payload is read.
def awaitPayload (r : Request) (payload query_buf : Bytes) : ClientQuery where
  query_buf
  argv := sdstolower r.name :: r.args
  bulk_len := payload.length + 2

@[simp] theorem awaitPayload_query_buf (r : Request) (payload query_buf : Bytes) :
    (r.awaitPayload payload query_buf).query_buf = query_buf := rfl

end Request

section Words

theorem word_print (n : Nat) : Word (Decimal.print n) := by
  have hdigit (c : UInt8) (hc : Decimal.isDigit c = false) : c ∉ Decimal.print n := by
    intro h
    rw [Decimal.isDigit_of_mem_print h] at hc
    cases hc
  exact ⟨Decimal.print_ne_nil n, hdigit _ (by decide), hdigit _ (by decide), hdigit _ (by decide)⟩

theorem Request.words_word (r : Request) : ∀ w ∈ r.words, Word w := by
  intro w hw
  rcases List.mem_append.mp hw with hw | hw
  · exact r.words_ok w hw
  · obtain ⟨p, -, rfl⟩ := List.mem_map.mp hw
    exact word_print _

theorem joinWords_cons (w : Bytes) (rest : List Bytes) :
    joinWords (w :: rest) = w ++ if rest = [] then [] else SPACE :: joinWords rest := by
  cases rest with
  | nil => simp [joinWords]
  | cons w' rest => simp [joinWords, List.intercalate_cons_cons]

theorem notMem_joinWords {c : UInt8} (hc : c ≠ SPACE) {words : List Bytes}
    (h : ∀ w ∈ words, c ∉ w) : c ∉ joinWords words := by
  induction words with
  | nil => exact List.not_mem_nil
  | cons w rest ih =>
      rw [joinWords_cons, List.mem_append, not_or]
      refine ⟨h w (by simp), ?_⟩
      split_ifs
      · exact List.not_mem_nil
      · rw [List.mem_cons, not_or]
        exact ⟨hc, ih fun w hw => h w (by simp [hw])⟩

theorem Request.line_clean (r : Request) : LF ∉ r.line ∧ NUL ∉ r.line :=
  ⟨notMem_joinWords (by decide) fun w hw => (r.words_word w hw).2.2.1,
    notMem_joinWords (by decide) fun w hw => (r.words_word w hw).2.2.2⟩

theorem Request.line_length_ne_zero (r : Request) : r.line.length ≠ 0 := by
  have hname := List.length_pos_iff.mpr (r.words_word r.name (by simp [Request.words])).1
  rw [Request.line, Request.words, List.cons_append, joinWords_cons, List.length_append]
  omega

theorem Request.split_line (r : Request) : sdssplitlen r.line [SPACE] = .ok (some r.words) := by
  rw [sdssplitlen_eq, Request.line, joinWords,
    List.splitOn_intercalate SPACE (fun w hw => (r.words_word w hw).2.1)]
  exact List.cons_ne_nil _ _

theorem Request.pushWords_words (r : Request) (query_buf : Bytes) :
    pushWords { query_buf, argv := [], bulk_len := -1 } r.words =
      { query_buf, argv := r.words, bulk_len := -1 } := by
  have hfilter : r.words.filter (·.length > 0) = r.words :=
    List.filter_eq_self.mpr fun w hw => by
      simpa [List.length_pos_iff] using (r.words_word w hw).1
  have hlen : r.words.length ≤ CUTIS_MAX_ARGS := by
    have := r.words_le
    simp only [Request.words, bulkLenWords, List.cons_append, List.length_cons,
      List.length_append, List.length_map]
    omega
  simp only [pushWords, hfilter, List.nil_append, List.length_nil, Nat.sub_zero,
    List.take_of_length_le hlen]

end Words

section Process

theorem cmdTable_names {cmd : CutisCommand} (h : cmd ∈ cmdTable) :
    lookupCommand (sdsnew cmd.name) = some cmd ∧ cstr (sdsnew cmd.name) ≠ sdsnew "quit" ∧
      sdstolower (sdsnew cmd.name) = sdsnew cmd.name := by
  revert cmd
  decide

-- The handler runs once the arguments are complete: no payload belongs to the
-- command, or the payload has been read.
theorem processCommand_complete (r : Request) (name : Bytes)
    (hname : sdstolower name = sdsnew r.cmd.name) (query_buf : Bytes) (bulk_len : Int)
    (hbulk : r.payload.isSome → bulk_len ≠ -1) :
    processCommand { query_buf, argv := name :: r.args ++ r.payload.toList, bulk_len } =
      .ok (some { query_buf, argv := [], bulk_len := -1 }, [r.call]) := by
  obtain ⟨hlookup, hquit, hlower⟩ := cmdTable_names r.cmd_mem
  have hargc : (sdsnew r.cmd.name :: (r.args ++ r.payload.toList)).length =
      1 + r.args.length + r.payload.toList.length := by
    simp only [List.length_cons, List.length_append]
    omega
  have hnot : ¬(r.cmd.type = .CUTIS_CMD_BULK ∧ bulk_len = -1) := fun h =>
    hbulk (r.payload_iff.mpr h.1) h.2
  simp only [processCommand, List.cons_append, hname, hquit, if_false, hlookup, hargc, r.accepted,
    Bool.not_true, Bool.false_eq_true, hnot, resetClient, Request.call, r.name_eq]
  rfl

-- With the length as its last argument a bulk command takes its payload from
-- the buffer, or waits for it.
theorem processCommand_bulk (r : Request) {payload : Bytes} (hpayload : r.payload = some payload)
    (query_buf : Bytes) :
    processCommand { query_buf, argv := r.words, bulk_len := -1 } =
      if query_buf.length ≥ payload.length + 2 then
        .ok (some { query_buf := query_buf.drop (payload.length + 2), argv := [], bulk_len := -1 },
          [.proc r.cmd (sdstolower r.name :: r.args ++ [query_buf.take payload.length])])
      else
        .ok (some (r.awaitPayload payload query_buf), []) := by
  obtain ⟨hlookup, hquit, -⟩ := cmdTable_names r.cmd_mem
  have hlen := r.payload_le payload hpayload
  have hwords : r.words = r.name :: (r.args ++ [Decimal.print payload.length]) := by
    simp [Request.words, bulkLenWords, hpayload]
  have hargs := r.words_le
  have haccepted := r.accepted
  simp only [hpayload, Option.toList_some, List.length_singleton] at hargs haccepted
  have hargc : (sdsnew r.cmd.name :: (r.args ++ [Decimal.print payload.length])).length =
      1 + r.args.length + 1 := by
    simp only [List.length_cons, List.length_append, List.length_nil]
    omega
  have hbulk : r.cmd.type = .CUTIS_CMD_BULK := r.payload_iff.mp (by simp [hpayload])
  have hlast : (sdsnew r.cmd.name :: (r.args ++ [Decimal.print payload.length])).getLast
      (List.cons_ne_nil _ _) = Decimal.print payload.length := by
    rw [List.getLast_cons (List.concat_ne_nil _ _), List.getLast_concat]
  have hrange : ¬((payload.length : Int) < 0 ∨ (payload.length : Int) > CUTIS_MAX_STRING_LENGTH) := by
    simp only [CUTIS_MAX_STRING_LENGTH]
    omega
  have hdrop : (sdsnew r.cmd.name :: (r.args ++ [Decimal.print payload.length])).dropLast =
      sdsnew r.cmd.name :: r.args := by
    rw [← List.cons_append, List.dropLast_concat]
  have hroom : (sdsnew r.cmd.name :: r.args).length < CUTIS_MAX_ARGS := by
    rw [List.length_cons]
    omega
  have htake : ((payload.length : Int) + 2 - 2).toNat = payload.length := by omega
  have hbuf : (query_buf.length : Int) ≥ payload.length + 2 ↔
      query_buf.length ≥ payload.length + 2 := by omega
  simp only [processCommand, hwords, r.name_eq, hquit, if_false, hlookup, hargc, haccepted,
    Bool.not_true, Bool.false_eq_true, hbulk, true_and, if_true, hlast,
    atoi_print _ (by omega : payload.length < 2 ^ 31), hrange, hdrop, hbuf, htake]
  split_ifs with hfull
  · have hdropped := sdsrange_drop query_buf (payload.length + 2) hfull
    simp only [Nat.cast_add, Nat.cast_ofNat] at hdropped
    simp only [setArg, hroom, if_true, bind, Except.bind, pure, Except.pure, hdropped, resetClient]
  · rw [Request.awaitPayload, r.name_eq]
    rfl

end Process

end Cutis

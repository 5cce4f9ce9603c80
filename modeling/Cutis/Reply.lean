import Cutis.Session

namespace Cutis

-- What a command answers.
inductive Reply
  | line (text : Bytes)
  | bulk (s : Bytes)
  | bulkError (err : Bytes)
  | multi (elements : List Bytes)
deriving DecidableEq

namespace Reply

def ofString (text : String) : Reply := .line (sdsnew text)

def ok : Reply := ofString "+OK"
def nil : Reply := ofString "nil"
def zero : Reply := ofString "0"
def one : Reply := ofString "1"

def int (n : Int) : Reply := .line (printInt n)

def error (err : String) : Reply := ofString ("-ERR " ++ err)

def encodeBulk (s : Bytes) : Bytes := Decimal.print s.length ++ CR :: LF :: (s ++ [CR, LF])

def encode : Reply → Bytes
  | .line text => text ++ [CR, LF]
  | .bulk s => encodeBulk s
  | .bulkError err => MINUS :: encodeBulk err
  | .multi elements => Decimal.print elements.length ++ CR :: LF :: elements.flatMap encodeBulk

end Reply

-- The way a client reads the answer to a command.
inductive ReplyKind
  | line
  | bulk
  | multi
deriving DecidableEq, Repr

section Reading

-- A line up to its CRLF, and the bytes behind it.
def readLine (s : Bytes) : Option (Bytes × Bytes) := do
  let p ← s.idxOf? LF
  let line := s.take p
  if line.getLast? = some CR then some (line.dropLast, s.drop (p + 1)) else none

-- A count line: digits, with a minus sign for an error.
def readCount (line : Bytes) : Option (Bool × Nat) :=
  let negative := line.head? == some MINUS
  let digits := if negative then line.tail else line
  if digits ≠ [] ∧ digits.all Decimal.isDigit then some (negative, Decimal.value digits) else none

-- The lines that stand for a whole answer where a count is expected.
def isNilOrError (line : Bytes) : Bool :=
  line == sdsnew "nil" || (sdsnew "-ERR").isPrefixOf line

-- That many bytes and CRLF; the result is what follows.
def readBytes (n : Nat) (s : Bytes) : Option Bytes :=
  if (s.drop n).take 2 = [CR, LF] then some (s.drop (n + 2)) else none

def readBulk (s : Bytes) : Option Bytes := do
  let (line, rest) ← readLine s
  if isNilOrError line then some rest
  else
    let (_, n) ← readCount line
    readBytes n rest

def readBulks : Nat → Bytes → Option Bytes
  | 0, s => some s
  | n + 1, s => do
      let rest ← readBulk s
      readBulks n rest

def readMulti (s : Bytes) : Option Bytes := do
  let (line, rest) ← readLine s
  if isNilOrError line then some rest
  else
    let (negative, n) ← readCount line
    if negative then readBytes n rest else readBulks n rest

-- One answer off the front of the bytes a client receives.
def ReplyKind.read : ReplyKind → Bytes → Option Bytes
  | .line, s => (readLine s).map Prod.snd
  | .bulk, s => readBulk s
  | .multi, s => readMulti s

end Reading

namespace Reply

-- The answers a client that reads this kind understands.
def Fits (r : Reply) (kind : ReplyKind) : Prop :=
  match kind, r with
  | .line, .line text => LF ∉ text
  | .bulk, .line text => LF ∉ text ∧ isNilOrError text
  | .bulk, .bulk _ => True
  | .bulk, .bulkError _ => True
  | .multi, .line text => LF ∉ text ∧ isNilOrError text
  | .multi, .bulkError _ => True
  | .multi, .multi _ => True
  | _, _ => False

theorem readLine_append {text : Bytes} (htext : LF ∉ text) (rest : Bytes) :
    readLine (text ++ CR :: LF :: rest) = some (text, rest) := by
  have hsplit : text ++ CR :: LF :: rest = (text ++ [CR]) ++ LF :: rest := by simp
  have hcr : LF ∉ text ++ [CR] := by
    rw [List.mem_append, not_or]
    exact ⟨htext, by decide⟩
  have hlen : (text ++ [CR]).length + 1 = (text ++ [CR, LF]).length := by simp
  rw [readLine, hsplit, idxOf?_append hcr]
  simp only [Option.bind_eq_bind, Option.bind_some, List.take_left, List.getLast?_concat, if_true,
    List.dropLast_concat]
  rw [hlen]
  simp

theorem head_print (n : Nat) : ∃ c digits, Decimal.print n = c :: digits ∧ Decimal.isDigit c := by
  cases h : Decimal.print n with
  | nil => exact absurd h (Decimal.print_ne_nil n)
  | cons c digits => exact ⟨c, digits, rfl, Decimal.isDigit_of_mem_print (n := n) (by simp [h])⟩

-- A count is no other line.
theorem print_clean (n : Nat) : LF ∉ Decimal.print n ∧ isNilOrError (Decimal.print n) = false ∧
    isNilOrError (MINUS :: Decimal.print n) = false ∧ (Decimal.print n).head? ≠ some MINUS := by
  obtain ⟨c, digits, hprint, hc⟩ := head_print n
  have hne (b : UInt8) (hb : Decimal.isDigit b = false) : c ≠ b := by
    rintro rfl
    rw [hb] at hc
    cases hc
  refine ⟨fun h => ?_, ?_, ?_, ?_⟩
  · have hlf := Decimal.isDigit_of_mem_print h
    exact absurd hlf (by decide)
  · simp [hprint, isNilOrError, sdsnew, List.isPrefixOf, hne 110 (by decide),
      Ne.symm (hne 45 (by decide))]
  · simp [hprint, isNilOrError, sdsnew, List.isPrefixOf, MINUS, Ne.symm (hne 69 (by decide))]
  · simpa [hprint] using hne MINUS (by decide)

theorem readCount_print (n : Nat) : readCount (Decimal.print n) = some (false, n) := by
  have hminus : ((Decimal.print n).head? == some MINUS) = false := by
    simpa using (print_clean n).2.2.2
  have hdigits : (Decimal.print n).all Decimal.isDigit = true :=
    List.all_eq_true.mpr fun c hc => Decimal.isDigit_of_mem_print hc
  simp only [readCount, hminus, Bool.false_eq_true, if_false, ne_eq, Decimal.print_ne_nil n,
    not_false_eq_true, hdigits, and_self, if_true, Decimal.value_print]

theorem readCount_minus (n : Nat) : readCount (MINUS :: Decimal.print n) = some (true, n) := by
  have hdigits : (Decimal.print n).all Decimal.isDigit = true :=
    List.all_eq_true.mpr fun c hc => Decimal.isDigit_of_mem_print hc
  simp only [readCount, List.head?_cons, beq_self_eq_true, if_true, List.tail_cons, ne_eq,
    Decimal.print_ne_nil n, not_false_eq_true, hdigits, and_self, Decimal.value_print]

theorem readBytes_append (s rest : Bytes) :
    readBytes s.length (s ++ CR :: LF :: rest) = some rest := by
  rw [readBytes, List.drop_left]
  have hdrop : (s ++ CR :: LF :: rest).drop (s.length + 2) = rest := by
    rw [List.drop_append]
    simp
  simp [hdrop]

theorem encodeBulk_append (s rest : Bytes) :
    encodeBulk s ++ rest = Decimal.print s.length ++ CR :: LF :: (s ++ CR :: LF :: rest) := by
  simp [encodeBulk]

theorem readBulk_encodeBulk (s rest : Bytes) : readBulk (encodeBulk s ++ rest) = some rest := by
  obtain ⟨hlf, hnil, -⟩ := print_clean s.length
  rw [readBulk, encodeBulk_append, readLine_append hlf]
  simp only [Option.bind_eq_bind, Option.bind_some, hnil, Bool.false_eq_true, if_false,
    readCount_print, readBytes_append]

theorem readBulks_encodeBulk (elements : List Bytes) (rest : Bytes) :
    readBulks elements.length (elements.flatMap encodeBulk ++ rest) = some rest := by
  induction elements with
  | nil => rfl
  | cons el elements ih =>
      rw [List.length_cons, readBulks, List.flatMap_cons, List.append_assoc, readBulk_encodeBulk]
      exact ih

theorem line_append (text rest : Bytes) :
    (Reply.line text).encode ++ rest = text ++ CR :: LF :: rest := by
  simp [encode]

-- A client reads exactly the answer, whatever follows it.
theorem read_encode {kind : ReplyKind} {r : Reply} (h : r.Fits kind) (rest : Bytes) :
    kind.read (r.encode ++ rest) = some rest := by
  cases kind with
  | line =>
      cases r with
      | line text => rw [ReplyKind.read, line_append, readLine_append h, Option.map_some]
      | bulk | bulkError | multi => cases h
  | bulk =>
      cases r with
      | line text =>
          rw [ReplyKind.read, readBulk, line_append, readLine_append h.1]
          simp only [Option.bind_eq_bind, Option.bind_some, h.2, if_true]
      | bulk s => exact readBulk_encodeBulk s rest
      | bulkError err =>
          obtain ⟨hlf, -, hnil, -⟩ := print_clean err.length
          have hminus : LF ∉ MINUS :: Decimal.print err.length := by
            simpa using ⟨by decide, hlf⟩
          rw [ReplyKind.read, readBulk, encode, List.cons_append, encodeBulk_append,
            ← List.cons_append, readLine_append hminus]
          simp only [Option.bind_eq_bind, Option.bind_some, hnil, Bool.false_eq_true, if_false,
            readCount_minus, readBytes_append]
      | multi => cases h
  | multi =>
      cases r with
      | line text =>
          rw [ReplyKind.read, readMulti, line_append, readLine_append h.1]
          simp only [Option.bind_eq_bind, Option.bind_some, h.2, if_true]
      | bulk => cases h
      | bulkError err =>
          obtain ⟨hlf, -, hnil, -⟩ := print_clean err.length
          have hminus : LF ∉ MINUS :: Decimal.print err.length := by
            simpa using ⟨by decide, hlf⟩
          rw [ReplyKind.read, readMulti, encode, List.cons_append, encodeBulk_append,
            ← List.cons_append, readLine_append hminus]
          simp only [Option.bind_eq_bind, Option.bind_some, hnil, Bool.false_eq_true, if_false,
            readCount_minus, if_true, readBytes_append]
      | multi elements =>
          obtain ⟨hlf, hnil, -⟩ := print_clean elements.length
          rw [ReplyKind.read, readMulti, encode, List.append_assoc, List.cons_append,
            List.cons_append, readLine_append hlf]
          simp only [Option.bind_eq_bind, Option.bind_some, hnil, Bool.false_eq_true, if_false,
            readCount_print, readBulks_encodeBulk]

end Reply

end Cutis

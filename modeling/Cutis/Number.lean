import Cutis.Lib.Decimal
import Cutis.Sds

namespace Cutis

def LLONG_MAX : Int := 2 ^ 63 - 1
def LLONG_MIN : Int := -2 ^ 63

def MINUS : UInt8 := 45
def PLUS : UInt8 := 43

def isspace (c : UInt8) : Bool := c == SPACE || (9 ≤ c && c ≤ 13)

-- The number of the digits at the start of s, saturated to 64 bits.
def strtollDigits (negative : Bool) (s : Bytes) : Int :=
  let n : Int := Decimal.value (s.takeWhile Decimal.isDigit)
  if negative then max LLONG_MIN (-n) else min LLONG_MAX n

-- strtoll and strtol in base 10: white space, an optional sign, digits.
def strtoll (s : Bytes) : Int :=
  match s.dropWhile isspace with
  | [] => 0
  | c :: rest =>
      if c = MINUS then strtollDigits true rest
      else if c = PLUS then strtollDigits false rest
      else strtollDigits false (c :: rest)

-- (int)strtol(s, NULL, 10)
def atoi (s : Bytes) : Int := toInt32 (strtoll s)

-- The %d and %lld conversions.
def printInt (n : Int) : Bytes :=
  if n < 0 then MINUS :: Decimal.print n.natAbs else Decimal.print n.toNat

theorem takeWhile_print (n : Nat) (rest : Bytes) (hrest : ∀ c ∈ rest.head?, ¬Decimal.isDigit c) :
    (Decimal.print n ++ rest).takeWhile Decimal.isDigit = Decimal.print n := by
  rw [List.takeWhile_append_of_pos fun c hc => Decimal.isDigit_of_mem_print hc]
  cases rest with
  | nil => simp
  | cons c rest => simp [hrest c (by simp)]

theorem strtoll_of_isDigit {c : UInt8} (rest : Bytes) (hc : Decimal.isDigit c = true) :
    strtoll (c :: rest) = strtollDigits false (c :: rest) := by
  simp only [Decimal.isDigit, Bool.and_eq_true, decide_eq_true_eq, UInt8.le_iff_toNat_le] at hc
  have h48 : (48 : UInt8).toNat = 48 := rfl
  have hspace : isspace c = false := by
    simp only [isspace, SPACE, Bool.or_eq_false_iff, beq_eq_false_iff_ne, Bool.and_eq_false_iff,
      decide_eq_false_iff_not, UInt8.le_iff_toNat_le]
    refine ⟨?_, Or.inr ?_⟩
    · rintro rfl
      exact absurd hc.1 (by decide)
    · have h13 : (13 : UInt8).toNat = 13 := rfl
      omega
  have hminus : c ≠ MINUS := by
    rintro rfl
    exact absurd hc.1 (by decide)
  have hplus : c ≠ PLUS := by
    rintro rfl
    exact absurd hc.1 (by decide)
  rw [strtoll, List.dropWhile_cons_of_neg (by simp [hspace])]
  simp only [hminus, hplus, if_false]

theorem strtoll_print (n : Nat) (rest : Bytes) (hrest : ∀ c ∈ rest.head?, ¬Decimal.isDigit c) :
    strtoll (Decimal.print n ++ rest) = min LLONG_MAX n := by
  have htake := takeWhile_print n rest hrest
  cases hprint : Decimal.print n with
  | nil => exact absurd hprint (Decimal.print_ne_nil n)
  | cons c digits =>
      have hc : Decimal.isDigit c = true := Decimal.isDigit_of_mem_print (n := n) (by simp [hprint])
      rw [hprint] at htake
      rw [List.cons_append, strtoll_of_isDigit _ hc, strtollDigits, ← List.cons_append, htake,
        ← hprint, Decimal.value_print]
      rfl

-- A decimal that fits in an int is read back.
theorem atoi_print (n : Nat) (hn : n < 2 ^ 31) : atoi (Decimal.print n) = n := by
  have hread := strtoll_print n [] (by simp)
  rw [List.append_nil] at hread
  rw [atoi, hread, Int.min_eq_right (by simp only [LLONG_MAX]; omega), toInt32_natCast n hn]

-- The text is an optional minus sign and digits, and stands for n.
def NumberText (text : Bytes) (n : Int) : Prop :=
  ∃ digits, digits ≠ [] ∧ (∀ c ∈ digits, Decimal.isDigit c = true) ∧
    ((text = digits ∧ n = Decimal.value digits) ∨
      (text = MINUS :: digits ∧ n = -(Decimal.value digits : Int)))

-- The range of a long, and the low 32 bits.
def atoiValue (n : Int) : Int := toInt32 (max LLONG_MIN (min LLONG_MAX n))

theorem strtoll_text {text : Bytes} {n : Int} (h : NumberText text n) :
    strtoll text = max LLONG_MIN (min LLONG_MAX n) := by
  obtain ⟨digits, hne, hdigits, h⟩ := h
  have htake : digits.takeWhile Decimal.isDigit = digits := by
    simpa using @List.takeWhile_append_of_pos _ Decimal.isDigit digits [] hdigits
  rcases h with ⟨rfl, rfl⟩ | ⟨rfl, rfl⟩
  · cases text with
    | nil => exact absurd rfl hne
    | cons c rest =>
        rw [strtoll_of_isDigit _ (hdigits c (by simp)), strtollDigits, htake]
        simp only [LLONG_MIN, LLONG_MAX, Bool.false_eq_true, if_false]
        omega
  · have hspace : isspace MINUS = false := by decide
    rw [strtoll, List.dropWhile_cons_of_neg (by simp [hspace])]
    simp only [if_true, strtollDigits, htake, LLONG_MIN, LLONG_MAX]
    omega

theorem atoi_text {text : Bytes} {n : Int} (h : NumberText text n) : atoi text = atoiValue n := by
  rw [atoi, strtoll_text h, atoiValue]

theorem atoiValue_eq_self {n : Int} (hlo : -2 ^ 31 ≤ n) (hhi : n < 2 ^ 31) : atoiValue n = n := by
  have hclamp : max LLONG_MIN (min LLONG_MAX n) = n := by
    simp only [LLONG_MIN, LLONG_MAX]
    omega
  rw [atoiValue, hclamp, toInt32_eq_self n hlo hhi]

theorem printInt_natCast (n : Nat) : printInt n = Decimal.print n := by
  rw [printInt, if_neg (by omega), Int.toNat_natCast]

end Cutis

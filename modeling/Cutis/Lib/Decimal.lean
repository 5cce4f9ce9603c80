import Mathlib.Data.Nat.Digits.Defs

namespace Decimal

def digit (d : Nat) : UInt8 := (48 + d).toUInt8

def isDigit (c : UInt8) : Bool := 48 ≤ c && c ≤ 57

-- The digits of a number in ASCII, most significant first.
def print (n : Nat) : List UInt8 :=
  if n = 0 then [digit 0] else (Nat.digits 10 n).reverse.map digit

def value (digits : List UInt8) : Nat :=
  digits.foldl (fun acc c => acc * 10 + (c.toNat - 48)) 0

theorem digit_toNat {d : Nat} (h : d < 10) : (digit d).toNat = 48 + d := by
  have hd : (48 + d) % 256 = 48 + d := by omega
  simp [digit, hd]

theorem isDigit_digit {d : Nat} (h : d < 10) : isDigit (digit d) = true := by
  simp only [isDigit, Bool.and_eq_true, decide_eq_true_eq, UInt8.le_iff_toNat_le, digit_toNat h]
  constructor
  · simp
  · simp only [UInt8.toNat_ofNat]
    omega

-- All digits but the last are those of the number divided by ten.
theorem print_eq (n : Nat) :
    print n = (if n < 10 then [] else print (n / 10)) ++ [digit (n % 10)] := by
  by_cases hn : n = 0
  · subst hn
    rfl
  · rw [print, if_neg hn, Nat.digits_def' (by decide) (Nat.pos_of_ne_zero hn), List.reverse_cons,
      List.map_append, List.map_singleton]
    split_ifs with hlt
    · rw [Nat.div_eq_of_lt hlt, Nat.digits_zero]
      rfl
    · rw [print, if_neg (by omega)]

theorem print_length_le {n k : Nat} (h : n < 10 ^ (k + 1)) : (print n).length ≤ k + 1 := by
  induction k generalizing n with
  | zero =>
      rw [print_eq, if_pos (by simpa using h)]
      simp
  | succ k ih =>
      rw [print_eq]
      split_ifs
      · simp
      · have hdiv : n / 10 < 10 ^ (k + 1) := by
          rw [Nat.pow_succ] at h
          omega
        have := ih hdiv
        rw [List.length_append, List.length_singleton]
        omega

theorem print_ne_nil (n : Nat) : print n ≠ [] := by
  rw [print_eq]
  simp

theorem length_print_le (n : Nat) : (print n).length ≤ n + 1 := by
  induction n using Nat.strong_induction_on with
  | _ n ih =>
      rw [print_eq, List.length_append, List.length_singleton]
      split_ifs with hlt
      · simp
      · have := ih (n / 10) (by omega)
        omega

theorem isDigit_of_mem_print {n : Nat} {c : UInt8} (h : c ∈ print n) : isDigit c = true := by
  induction n using Nat.strong_induction_on with
  | _ n ih =>
      rw [print_eq, List.mem_append, List.mem_singleton] at h
      rcases h with h | rfl
      · split_ifs at h with hlt
        · cases h
        · exact ih (n / 10) (by omega) h
      · exact isDigit_digit (Nat.mod_lt _ (by decide))

theorem value_append_singleton (digits : List UInt8) (c : UInt8) :
    value (digits ++ [c]) = value digits * 10 + (c.toNat - 48) := by
  rw [value, List.foldl_append]
  rfl

theorem value_print (n : Nat) : value (print n) = n := by
  induction n using Nat.strong_induction_on with
  | _ n ih =>
      rw [print_eq, value_append_singleton, digit_toNat (Nat.mod_lt _ (by decide))]
      split_ifs with hlt
      · simp only [value, List.foldl_nil]
        omega
      · rw [ih (n / 10) (by omega)]
        omega

theorem print_injective : Function.Injective print :=
  Function.LeftInverse.injective value_print

end Decimal

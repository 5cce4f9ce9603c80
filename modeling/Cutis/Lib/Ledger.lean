import Mathlib.Algebra.BigOperators.Group.List.Basic
import Mathlib.Algebra.Order.Group.Multiset

namespace Ledger

section Sums

variable {α M : Type*} [AddCommMonoid M] (f : α → M) {l : List α} {i : ℕ} {a : α}

-- What one entry of a list adds to a sum over the list.
theorem sum_set (h : l[i]? = some a) (b : α) :
    ((l.set i b).map f).sum + f a = (l.map f).sum + f b := by
  induction l generalizing i with
  | nil => cases h
  | cons x rest ih =>
      cases i with
      | zero =>
          obtain rfl : x = a := Option.some.inj h
          rw [List.set_cons_zero, List.map_cons, List.sum_cons, List.map_cons, List.sum_cons,
            add_comm, add_comm (f b), ← add_assoc]
      | succ i =>
          rw [List.set_cons_succ, List.map_cons, List.sum_cons, List.map_cons, List.sum_cons,
            add_assoc, ih h, add_assoc]

theorem sum_eraseIdx (h : l[i]? = some a) :
    ((l.eraseIdx i).map f).sum + f a = (l.map f).sum := by
  induction l generalizing i with
  | nil => cases h
  | cons x rest ih =>
      cases i with
      | zero =>
          obtain rfl : x = a := Option.some.inj h
          rw [List.eraseIdx_cons_zero, List.map_cons, List.sum_cons, add_comm]
      | succ i =>
          rw [List.eraseIdx_cons_succ, List.map_cons, List.sum_cons, List.map_cons, List.sum_cons,
            add_assoc, ih h]

theorem sum_append_singleton (b : α) : ((l ++ [b]).map f).sum = (l.map f).sum + f b := by
  rw [List.map_append, List.sum_append, List.map_singleton, List.sum_singleton]

theorem mem_sum {β : Type*} (f : α → Multiset β) (l : List α) (b : β) :
    b ∈ (l.map f).sum ↔ ∃ a ∈ l, b ∈ f a := by
  induction l with
  | nil => simp
  | cons x rest ih =>
      rw [List.map_cons, List.sum_cons, Multiset.mem_add, ih]
      simp

theorem coe_flatMap {β : Type*} (f : α → List β) (l : List α) :
    (l.flatMap f : Multiset β) = (l.map fun a => (f a : Multiset β)).sum := by
  induction l with
  | nil => rfl
  | cons x rest ih => rw [List.flatMap_cons, ← Multiset.coe_add, ih, List.map_cons, List.sum_cons]

end Sums

section Counters

variable {w n : ℕ}

-- A counter of w bits one step on, and back.
theorem ofNat_succ : BitVec.ofNat w (n + 1) = BitVec.ofNat w n + 1 := by
  rw [BitVec.ofNat_add]
  rfl

theorem ofNat_succ_sub : BitVec.ofNat w (n + 1) - 1 = BitVec.ofNat w n := by
  rw [ofNat_succ, BitVec.add_sub_cancel]

theorem ofNat_eq_zero_iff (h : n < 2 ^ w) : BitVec.ofNat w n = 0 ↔ n = 0 := by
  rw [← BitVec.toNat_inj, BitVec.toNat_ofNat, Nat.mod_eq_of_lt h]
  simp

theorem toInt_ofNat (h : n < 2 ^ 31) : (BitVec.ofNat 32 n).toInt = n := by
  rw [BitVec.toInt_ofNat', Int.bmod_eq_of_le] <;> omega

end Counters

end Ledger

import Mathlib.Algebra.Group.Int.Defs
import Mathlib.Algebra.Group.Nat.Defs
import Mathlib.Data.Int.Notation

namespace Cutis

-- An sds string: its bytes, without the terminator.
abbrev Bytes := List UInt8

def sdsnew (init : String) : Bytes :=
  init.toList.map fun c => c.toNat.toUInt8

def CR : UInt8 := 13
def LF : UInt8 := 10
def NUL : UInt8 := 0
def SPACE : UInt8 := 32

-- What stops the process, or leaves the behaviour the language defines.
inductive Fault
  | segv
  | outOfBounds
  | useAfterFree
  | abort
  | hang
  | exit
deriving DecidableEq, Repr

theorem bind_eq_ok {α β : Type} {x : Except Fault α} {f : α → Except Fault β} {b : β} :
    (x >>= f) = .ok b ↔ ∃ a, x = .ok a ∧ f a = .ok b := by
  cases x with
  | error fault => exact ⟨nofun, nofun⟩
  | ok a => exact ⟨fun h => ⟨a, rfl, h⟩, fun ⟨_, ha, h⟩ => Except.ok.inj ha ▸ h⟩

section Bind

variable {α β : Type} (f : α → Except Fault β)

theorem ok_bind (a : α) : (.ok a >>= f) = f a := rfl

theorem error_bind (fault : Fault) : (.error fault >>= f) = .error fault := rfl

end Bind

-- What holds of the elements of a list holds after a write of one more such element.
theorem forall_mem_set {α : Type} {P : α → Prop} {l : List α} (hl : ∀ a ∈ l, P a) {b : α}
    (hb : P b) (i : Nat) : ∀ a ∈ l.set i b, P a := by
  intro a ha
  rcases List.mem_or_eq_of_mem_set ha with ha | rfl
  · exact hl a ha
  · exact hb

-- Conversion to a signed 32-bit int.
def toInt32 (n : Int) : Int := n.bmod (2 ^ 32)

-- Conversion to a signed 64-bit long long.
def toInt64 (n : Int) : Int := n.bmod (2 ^ 64)

theorem toInt32_eq_self (n : Int) (hlo : -2 ^ 31 ≤ n) (hhi : n < 2 ^ 31) : toInt32 n = n := by
  apply Int.bmod_eq_of_le <;> omega

theorem toInt32_natCast (n : Nat) (h : n < 2 ^ 31) : toInt32 n = n :=
  toInt32_eq_self n (by omega) (by omega)

theorem toInt32_lt (n : Int) : toInt32 n < 2 ^ 31 := by
  have := @Int.bmod_lt n (2 ^ 32) (by omega)
  simpa [toInt32] using this

theorem toInt32_natCast_le (n : Nat) : toInt32 n ≤ n := by
  rw [toInt32, Int.bmod_def]
  split <;> omega

end Cutis

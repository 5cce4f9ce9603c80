import Mathlib.Data.List.Infix
import Mathlib.Tactic.SplitIfs

namespace PartialWrites

variable {α : Type*}

-- A request to write some data, made of items of the given size. A write that
-- stores no whole item is noticed, any other one counts as done.
structure Write (α : Type*) where
  data : List α
  size : Nat

-- The accepted lengths are given by call number.
def Noticed (accept : Nat → Nat) (call : Nat) (w : Write α) : Prop :=
  min (accept call) w.data.length < w.size

def Whole (accept : Nat → Nat) (call : Nat) (w : Write α) : Prop :=
  w.data.length ≤ accept call

instance (accept : Nat → Nat) (call : Nat) (w : Write α) : Decidable (Noticed accept call w) :=
  inferInstanceAs (Decidable (_ < _))

def written : List (Write α) → List α
  | [] => []
  | w :: rest => w.data ++ written rest

def stored (accept : Nat → Nat) : Nat → List (Write α) → List α
  | _, [] => []
  | call, w :: rest => w.data.take (accept call) ++ stored accept (call + 1) rest

-- Some write from the given call number on is noticed.
def SomeNoticed (accept : Nat → Nat) : Nat → List (Write α) → Prop
  | _, [] => False
  | call, w :: rest => Noticed accept call w ∨ SomeNoticed accept (call + 1) rest

def AllWhole (accept : Nat → Nat) : Nat → List (Write α) → Prop
  | _, [] => True
  | call, w :: rest => Whole accept call w ∧ AllWhole accept (call + 1) rest

instance decidableAllWhole (accept : Nat → Nat) :
    (call : Nat) → (ws : List (Write α)) → Decidable (AllWhole accept call ws)
  | _, [] => isTrue trivial
  | call, w :: rest =>
      @instDecidableAnd _ _ (inferInstanceAs (Decidable (w.data.length ≤ accept call)))
        (decidableAllWhole accept (call + 1) rest)

@[simp] theorem written_nil : written ([] : List (Write α)) = [] := rfl

@[simp] theorem written_cons (w : Write α) (rest : List (Write α)) :
    written (w :: rest) = w.data ++ written rest := rfl

@[simp] theorem written_append (first rest : List (Write α)) :
    written (first ++ rest) = written first ++ written rest := by
  induction first with
  | nil => rfl
  | cons w first ih => rw [List.cons_append, written_cons, ih, written_cons, List.append_assoc]

theorem length_stored_le (accept : Nat → Nat) (call : Nat) (ws : List (Write α)) :
    (stored accept call ws).length ≤ (written ws).length := by
  induction ws generalizing call with
  | nil => exact Nat.le_refl _
  | cons w rest ih =>
      have hrest := ih (call + 1)
      simp only [stored, written_cons, List.length_append, List.length_take]
      omega

-- What is missing from one write is made up for by no other.
theorem allWhole_iff_length (accept : Nat → Nat) (call : Nat) (ws : List (Write α)) :
    AllWhole accept call ws ↔ (stored accept call ws).length = (written ws).length := by
  induction ws generalizing call with
  | nil => simp [AllWhole, stored]
  | cons w rest ih =>
      have hle := length_stored_le accept (call + 1) rest
      simp only [AllWhole, Whole, ih, stored, written_cons, List.length_append, List.length_take]
      omega

theorem allWhole_of_le {accept : Nat → Nat} {call : Nat} {ws : List (Write α)}
    (h : ∀ call, (written ws).length ≤ accept call) : AllWhole accept call ws := by
  induction ws generalizing call with
  | nil => trivial
  | cons w rest ih =>
      simp only [written_cons, List.length_append] at h
      exact ⟨(Nat.le_add_right _ _).trans (h call),
        ih fun call => (Nat.le_add_left _ _).trans (h call)⟩

theorem stored_of_allWhole {accept : Nat → Nat} {call : Nat} {ws : List (Write α)}
    (h : AllWhole accept call ws) : stored accept call ws = written ws := by
  induction ws generalizing call with
  | nil => rfl
  | cons w rest ih =>
      rw [stored, ih h.2, List.take_of_length_le h.1, written_cons]

-- A whole write that stores anything goes unnoticed.
theorem not_someNoticed {accept : Nat → Nat} {call : Nat} {ws : List (Write α)}
    (hsize : ∀ w ∈ ws, w.size ≤ w.data.length) (h : AllWhole accept call ws) :
    ¬SomeNoticed accept call ws := by
  induction ws generalizing call with
  | nil => exact not_false
  | cons w rest ih =>
      have hw := hsize w (by simp)
      have hwhole : w.data.length ≤ accept call := h.1
      rw [SomeNoticed, Noticed, not_or]
      exact ⟨by omega, ih (fun w hw => hsize w (by simp [hw])) h.2⟩

-- The stored bytes, less some lost at the end, are those written exactly when
-- every write was whole and nothing was lost.
theorem take_stored_eq_iff (accept : Nat → Nat) (call : Nat) (ws : List (Write α)) (lost : Nat)
    (hne : written ws ≠ []) :
    (stored accept call ws).take ((stored accept call ws).length - lost) = written ws ↔
      AllWhole accept call ws ∧ lost = 0 := by
  have hle := length_stored_le accept call ws
  have hpos := List.length_pos_iff.mpr hne
  constructor
  · intro h
    have hlen := congrArg List.length h
    rw [List.length_take] at hlen
    exact ⟨(allWhole_iff_length accept call ws).mpr (by omega), by omega⟩
  · rintro ⟨hall, rfl⟩
    rw [Nat.sub_zero, List.take_length, stored_of_allWhole hall]

end PartialWrites

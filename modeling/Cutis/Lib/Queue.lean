import Cutis.Lib.History

namespace Queue

open History

variable {α : Type*}

-- What the users of a queue see: an element put in, what was taken out, none where the
-- queue was empty, or a look at it.
inductive Event (α : Type*)
  | push (a : α)
  | pop (taken : Option α)
  | look
deriving DecidableEq

inductive Serves : List α → Event α → List α → Prop
  | push (l : List α) (a : α) : Serves l (.push a) (l ++ [a])
  | pop (a : α) (l : List α) : Serves (a :: l) (.pop (some a)) l
  | empty : Serves [] (.pop none) []
  | look (l : List α) : Serves l .look l

def pushed (h : List (Event α)) : List α :=
  h.filterMap fun e => match e with
    | .push a => some a
    | _ => none

def popped (h : List (Event α)) : List α :=
  h.filterMap fun e => match e with
    | .pop taken => taken
    | _ => none

variable {l l' : List α} {h before after : List (Event α)} {e : Event α}

theorem serves_fifo (he : Serves l e l') : l ++ pushed [e] = popped [e] ++ l' := by
  cases he <;> simp [pushed, popped]

theorem pushed_cons (e : Event α) (h : List (Event α)) : pushed (e :: h) = pushed [e] ++ pushed h :=
  List.filterMap_append (l := [e])

theorem popped_cons (e : Event α) (h : List (Event α)) : popped (e :: h) = popped [e] ++ popped h :=
  List.filterMap_append (l := [e])

-- What comes out is what went in, in that order; the rest is still there.
theorem legal_fifo (hlegal : Legal Serves l h l') : l ++ pushed h = popped h ++ l' := by
  induction hlegal with
  | nil l => simp [pushed, popped]
  | @cons l l₁ l' e h he _ ih =>
      calc l ++ pushed (e :: h) = l ++ pushed [e] ++ pushed h := by
            rw [pushed_cons e h, List.append_assoc]
        _ = popped [e] ++ (l₁ ++ pushed h) := by rw [serves_fifo he, List.append_assoc]
        _ = popped (e :: h) ++ l' := by rw [ih, popped_cons e h, List.append_assoc]

-- Nothing comes out only where all that went in is out.
theorem legal_empty (hlegal : Legal Serves l (before ++ .pop none :: after) l') :
    l ++ pushed before = popped before := by
  obtain ⟨l₁, hbefore, hrest⟩ := legal_append_iff.mp hlegal
  have hfifo := legal_fifo hbefore
  cases hrest with
  | cons he _ =>
      cases he
      rwa [List.append_nil] at hfifo

end Queue

import Cutis.Basic
import Mathlib.Logic.Function.Basic

namespace Cutis

-- The address of a node; the null pointer is none.
abbrev NodeId := Nat

structure ListNode (α : Type) where
  prev : Option NodeId
  next : Option NodeId
  value : α
deriving DecidableEq, Repr

-- A list with the memory its nodes are in. The counter is an unsigned int.
structure AdList (α : Type) where
  nodes : NodeId → Option (ListNode α)
  head : Option NodeId
  tail : Option NodeId
  len : UInt32

namespace AdList

variable {α : Type}

def listCreate : AdList α := { nodes := fun _ => none, head := none, tail := none, len := 0 }

section Memory

variable (l : AdList α)

def read (p : NodeId) : Except Fault (ListNode α) :=
  match l.nodes p with
  | some node => return node
  | none => throw .useAfterFree

def write (p : NodeId) (node : Option (ListNode α)) : AdList α :=
  { l with nodes := Function.update l.nodes p node }

-- Assignments through a pointer.
def setPrev (p : NodeId) (prev : Option NodeId) : Except Fault (AdList α) := do
  return l.write p (some { ← l.read p with prev })

def setNext (p : NodeId) (next : Option NodeId) : Except Fault (AdList α) := do
  return l.write p (some { ← l.read p with next })

end Memory

section Operations

variable (l : AdList α)

-- The address of the new node is the one zmalloc returns.
def listAddNodeHead (node : NodeId) (value : α) : Except Fault (AdList α) :=
  if l.len = 0 then
    return { l.write node (some { prev := none, next := none, value }) with
      head := some node
      tail := some node
      len := l.len + 1 }
  else
    match l.head with
    | none => throw .segv
    | some head => do
        let l := l.write node (some { prev := none, next := some head, value })
        let l ← l.setPrev head (some node)
        return { l with head := some node, len := l.len + 1 }

def listAddNodeTail (node : NodeId) (value : α) : Except Fault (AdList α) :=
  if l.len = 0 then
    return { l.write node (some { prev := none, next := none, value }) with
      head := some node
      tail := some node
      len := l.len + 1 }
  else
    match l.tail with
    | none => throw .segv
    | some tail => do
        let l := l.write node (some { prev := some tail, next := none, value })
        let l ← l.setNext tail (some node)
        return { l with tail := some node, len := l.len + 1 }

-- Link the two neighbours of a node to each other.
def unlinkNext (prev next : Option NodeId) : Except Fault (AdList α) :=
  match prev with
  | some prev => l.setNext prev next
  | none => return { l with head := next }

def unlinkPrev (prev next : Option NodeId) : Except Fault (AdList α) :=
  match next with
  | some next => l.setPrev next prev
  | none => return { l with tail := prev }

-- The caller's free method gets the value, and does not touch the list.
def listDelNode (node : NodeId) : Except Fault (AdList α) := do
  let n ← l.read node
  let l ← l.unlinkNext n.prev n.next
  let l ← l.unlinkPrev n.prev n.next
  return { l.write node none with len := l.len - 1 }

-- The loop of listIndex and of the callers that walk from a node.
def walkNext : Nat → Option NodeId → Except Fault (Option NodeId)
  | 0, node => return node
  | _ + 1, none => return none
  | index + 1, some node => do walkNext index (← l.read node).next

def walkPrev : Nat → Option NodeId → Except Fault (Option NodeId)
  | 0, node => return node
  | _ + 1, none => return none
  | index + 1, some node => do walkPrev index (← l.read node).prev

-- The negation and the subtraction are those of an int.
def listIndex (index : Int) : Except Fault (Option NodeId) :=
  if index < 0 then l.walkPrev (toInt32 (toInt32 (-index) - 1)).toNat l.tail
  else l.walkNext index.toNat l.head

end Operations

inductive Direction
  | AL_START_HEAD
  | AL_START_TAIL
deriving DecidableEq, Repr

structure ListIter where
  next : Option NodeId
  direction : Direction
deriving DecidableEq, Repr

def listGetIterator (l : AdList α) : Direction → ListIter
  | .AL_START_HEAD => { next := l.head, direction := .AL_START_HEAD }
  | .AL_START_TAIL => { next := l.tail, direction := .AL_START_TAIL }

def listNextElement (l : AdList α) (iter : ListIter) : Except Fault (Option NodeId × ListIter) :=
  match iter.next with
  | none => return (none, iter)
  | some current => do
      let node ← l.read current
      match iter.direction with
      | .AL_START_HEAD => return (some current, { iter with next := node.next })
      | .AL_START_TAIL => return (some current, { iter with next := node.prev })

-- The loop of listSearchKey. Without a match method of the list the values are compared
-- themselves.
def searchFrom (l : AdList α) (found : α → Bool) : Nat → ListIter → Except Fault (Option NodeId)
  | 0, _ => throw .hang
  | fuel + 1, iter => do
      match ← l.listNextElement iter with
      | (none, _) => return none
      | (some node, iter) =>
          if found (← l.read node).value then return some node else searchFrom l found fuel iter

def listSearchKey (l : AdList α) (found : α → Bool) : Except Fault (Option NodeId) :=
  l.searchFrom found (l.len.toNat + 1) (l.listGetIterator .AL_START_HEAD)

-- A loop over an iterator, whose caller deletes the nodes it chooses right after it
-- gets them. The results are the nodes in the order of the visits and the list that is
-- left.
def visit (delete : NodeId → Bool) :
    Nat → ListIter → AdList α → Except Fault (List NodeId × AdList α)
  | 0, _, _ => throw .hang
  | fuel + 1, iter, l => do
      match ← l.listNextElement iter with
      | (none, _) => return ([], l)
      | (some node, iter) =>
          let l ← if delete node then l.listDelNode node else pure l
          let (visited, l) ← visit delete fuel iter l
          return (node :: visited, l)

-- The operations of a run.
inductive Op (α : Type)
  | addHead (node : NodeId) (value : α)
  | addTail (node : NodeId) (value : α)
  | delete (node : NodeId)

def step (l : AdList α) : Op α → Except Fault (AdList α)
  | .addHead node value => l.listAddNodeHead node value
  | .addTail node value => l.listAddNodeTail node value
  | .delete node => l.listDelNode node

def run (l : AdList α) : List (Op α) → Except Fault (AdList α)
  | [] => return l
  | op :: ops => do run (← l.step op) ops

-- The nodes with their values, along one of the links.
def followNext (l : AdList α) : Nat → Option NodeId → Except Fault (List (NodeId × α))
  | _, none => return []
  | 0, some _ => throw .hang
  | fuel + 1, some p => do
      let node ← l.read p
      return (p, node.value) :: (← followNext l fuel node.next)

def followPrev (l : AdList α) : Nat → Option NodeId → Except Fault (List (NodeId × α))
  | _, none => return []
  | 0, some _ => throw .hang
  | fuel + 1, some p => do
      let node ← l.read p
      return (p, node.value) :: (← followPrev l fuel node.prev)

end AdList

end Cutis

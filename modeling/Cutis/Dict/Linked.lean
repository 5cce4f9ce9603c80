import Cutis.Dict.Operations
import Mathlib.Logic.Function.Basic

namespace Cutis

-- The address of an entry; the null pointer is none.
abbrev EntryId := Nat

-- An entry as it lies in memory.
structure LinkedEntry (K V : Type) extends DictEntry K V where
  next : Option EntryId
deriving DecidableEq, Repr

-- A table with the memory its entries are in. A slot points to the first entry of its
-- chain.
structure LinkedDict (K V : Type) where
  nodes : EntryId → Option (LinkedEntry K V)
  table : List (Option EntryId)
  size : Nat
  size_mask : Nat
  used : Nat

structure LinkedIterator where
  index : Int
  entry : Option EntryId
  next_entry : Option EntryId
deriving DecidableEq, Repr

namespace LinkedDict

variable {K V : Type}

def dictCreate : LinkedDict K V :=
  { nodes := fun _ => none, table := [], size := 0, size_mask := 0, used := 0 }

section Memory

variable (ht : LinkedDict K V)

def read (he : EntryId) : Except Fault (LinkedEntry K V) :=
  match ht.nodes he with
  | some entry => return entry
  | none => throw .useAfterFree

def write (he : EntryId) (entry : Option (LinkedEntry K V)) : LinkedDict K V :=
  { ht with nodes := Function.update ht.nodes he entry }

def setNext (he : EntryId) (next : Option EntryId) : Except Fault (LinkedDict K V) := do
  return ht.write he (some { ← ht.read he with next })

def getSlot (h : Nat) : Except Fault (Option EntryId) :=
  match ht.table[h]? with
  | some he => return he
  | none => throw .outOfBounds

def setSlot (h : Nat) (he : Option EntryId) : Except Fault (LinkedDict K V) :=
  if h < ht.table.length then return { ht with table := ht.table.set h he }
  else throw .outOfBounds

def dictReset : LinkedDict K V := { ht with table := [], size := 0, size_mask := 0, used := 0 }

-- The slot of a key, hash & size_mask.
def slot (T : DictType K) (key : K) : Nat := (T.hashFunction key).toNat &&& ht.size_mask

end Memory

section Expand

variable (T : DictType K)

-- The cleared slots of a new table.
def allocTable (real_size : Nat) : Except Fault (List (Option EntryId)) := do
  let block ← dictAlloc (toInt32 (real_size * POINTER_SIZE : Nat))
  if block < real_size * POINTER_SIZE then
    throw .outOfBounds
  return List.replicate real_size none

-- The loop over a chain. The new table comes with the memory, and with the number of
-- entries the old table still has.
def relinkChain : Nat → Option EntryId → LinkedDict K V × Nat → Except Fault (LinkedDict K V × Nat)
  | _, none, acc => return acc
  | 0, some _, _ => throw .hang
  | fuel + 1, some he, acc => do
      let entry ← acc.1.read he
      let h := acc.1.slot T entry.key
      let n ← acc.1.setNext he (← acc.1.getSlot h)
      let n ← n.setSlot h (some he)
      relinkChain fuel entry.next (n, acc.2 - 1)

def relinkTable : List (Option EntryId) → LinkedDict K V × Nat → Except Fault (LinkedDict K V × Nat)
  | [], acc => return acc
  | he :: rest, acc =>
      if acc.2 > 0 then do relinkTable rest (← relinkChain T acc.2 he acc) else return acc

def dictExpand (ht : LinkedDict K V) (size : Nat) : Except Fault (LinkedDict K V × DictStatus) := do
  let real_size := dictNextPower size
  if ht.used > size then
    return (ht, .DICT_ERR)
  let table ← allocTable real_size
  let n := { ht with table, size := real_size, size_mask := real_size - 1 }
  let acc ← relinkTable T ht.table (n, ht.used)
  if acc.2 ≠ 0 then
    throw .abort
  return (acc.1, .DICT_OK)

def dictExpandIfNeeded (ht : LinkedDict K V) : Except Fault (LinkedDict K V × DictStatus) :=
  if ht.size = 0 then dictExpand T ht DICT_HT_INITIAL_SIZE
  else if ht.used = ht.size then dictExpand T ht (ht.size * 2 % 2 ^ 32)
  else return (ht, .DICT_OK)

def dictResize (ht : LinkedDict K V) : Except Fault (LinkedDict K V × DictStatus) :=
  let minimal := if ht.used < DICT_HT_INITIAL_SIZE then DICT_HT_INITIAL_SIZE else ht.used
  dictExpand T ht minimal

end Expand

section Operations

variable (T : DictType K) (ht : LinkedDict K V)

-- The search along a chain. A chain has at most used entries, which is the fuel the
-- callers give.
def findLoop (key : K) : Nat → Option EntryId → Except Fault (Option EntryId)
  | _, none => return none
  | 0, some _ => throw .hang
  | fuel + 1, some he => do
      let entry ← ht.read he
      if T.keyCompare key entry.key then
        return some he
      findLoop key fuel entry.next

def dictFind (key : K) : Except Fault (Option EntryId) :=
  if ht.used = 0 then return none
  else do ht.findLoop T key ht.used (← ht.getSlot (ht.slot T key))

def dictKeyIndex (key : K) : Except Fault (LinkedDict K V × Option Nat) := do
  let result ← dictExpandIfNeeded T ht
  if result.2 = .DICT_ERR then
    return (result.1, none)
  let h := result.1.slot T key
  match ← result.1.findLoop T key result.1.used (← result.1.getSlot h) with
  | some _ => return (result.1, none)
  | none => return (result.1, some h)

-- The address of the new entry is the one zmalloc returns.
def dictAdd (entry : EntryId) (key : K) (val : V) : Except Fault (LinkedDict K V × DictStatus) := do
  let result ← ht.dictKeyIndex T key
  match result.2 with
  | none => return (result.1, .DICT_ERR)
  | some index => do
      let next ← result.1.getSlot index
      let ht ← (result.1.write entry (some { key, val, next })).setSlot index (some entry)
      return ({ ht with used := ht.used + 1 }, .DICT_OK)

-- The second component is the old value.
def dictReplace (entry : EntryId) (key : K) (val : V) :
    Except Fault (LinkedDict K V × Option V) := do
  let result ← ht.dictAdd T entry key val
  if result.2 = .DICT_OK then
    return (result.1, none)
  match ← result.1.dictFind T key with
  | none => throw .segv
  | some he => do
      let old ← result.1.read he
      return (result.1.write he (some { old with val }), some old.val)

-- Take an entry out of its chain: prev_he is the entry before it, if there is one.
def unlink (h : Nat) (prev_he next : Option EntryId) : Except Fault (LinkedDict K V) :=
  match prev_he with
  | some prev_he => ht.setNext prev_he next
  | none => ht.setSlot h next

def deleteLoop (key : K) (h : Nat) : Nat → Option EntryId → Option EntryId →
    Except Fault (LinkedDict K V × Option (DictEntry K V))
  | _, _, none => return (ht, none)
  | 0, _, some _ => throw .hang
  | fuel + 1, prev_he, some he => do
      let entry ← ht.read he
      if T.keyCompare key entry.key then
        let ht ← ht.unlink h prev_he entry.next
        return ({ ht.write he none with used := ht.used - 1 }, some entry.toDictEntry)
      deleteLoop key h fuel (some he) entry.next

-- The entry that is freed; none stands for DICT_ERR.
def dictGenericDelete (key : K) : Except Fault (LinkedDict K V × Option (DictEntry K V)) :=
  if ht.used = 0 then return (ht, none)
  else do
    let h := ht.slot T key
    ht.deleteLoop T key h ht.used none (← ht.getSlot h)

def dictDelete (key : K) : Except Fault (LinkedDict K V × Option (DictEntry K V)) :=
  ht.dictGenericDelete T key

def dictDeleteNoFree (key : K) : Except Fault (LinkedDict K V × Option (DictEntry K V)) :=
  ht.dictGenericDelete T key

end Operations

section Clear

def clearChain : Nat → Option EntryId → LinkedDict K V → Except Fault (LinkedDict K V)
  | _, none, ht => return ht
  | 0, some _, _ => throw .hang
  | fuel + 1, some he, ht => do
      let entry ← ht.read he
      clearChain fuel entry.next { ht.write he none with used := ht.used - 1 }

def clearTable : List (Option EntryId) → LinkedDict K V → Except Fault (LinkedDict K V)
  | [], ht => return ht
  | he :: rest, ht =>
      if ht.used > 0 then do clearTable rest (← clearChain ht.used he ht) else return ht

def dictEmpty (ht : LinkedDict K V) : Except Fault (LinkedDict K V) := do
  return (← clearTable ht.table ht).dictReset

end Clear

section Iteration

variable (ht : LinkedDict K V)

def dictGetIterator : LinkedIterator := { index := -1, entry := none, next_entry := none }

-- One turn of the loop of DictNext, up to the test of the entry.
def advance (iter : LinkedIterator) : Except Fault LinkedIterator :=
  match iter.entry with
  | none => do
      let index := iter.index + 1
      return { iter with index, entry := ← ht.getSlot index.toNat }
  | some _ => return { iter with entry := iter.next_entry }

-- One call looks at no more than size + 2 pointers.
def dictNextLoop : Nat → LinkedIterator → Except Fault (Option EntryId × LinkedIterator)
  | 0, _ => throw .hang
  | fuel + 1, iter => do
      if iter.entry = none ∧ iter.index + 1 ≥ toInt32 ht.size then
        return (none, { iter with index := iter.index + 1 })
      let iter ← ht.advance iter
      match iter.entry with
      | none => dictNextLoop fuel iter
      | some he => return (some he, { iter with next_entry := (← ht.read he).next })

def dictNext (iter : LinkedIterator) : Except Fault (Option EntryId × LinkedIterator) :=
  ht.dictNextLoop (ht.size + 2) iter

end Iteration

-- What the caller does with an entry it was given.
inductive IterChoice
  | keep
  | delete
  | deleteNoFree
deriving DecidableEq, Repr

def choose (T : DictType K) (ht : LinkedDict K V) (he : EntryId) :
    IterChoice → Except Fault (LinkedDict K V)
  | .keep => return ht
  | .delete => do return (← ht.dictDelete T (← ht.read he).key).1
  | .deleteNoFree => do return (← ht.dictDeleteNoFree T (← ht.read he).key).1

-- A loop over DictNext. The results are the entries returned, in order, and the table
-- that is left.
def iterateLoop (T : DictType K) (choice : EntryId → IterChoice) :
    Nat → LinkedIterator → LinkedDict K V → Except Fault (List EntryId × LinkedDict K V)
  | 0, _, _ => throw .hang
  | fuel + 1, iter, ht => do
      let result ← ht.dictNext iter
      match result.1 with
      | none => return ([], ht)
      | some he => do
          let ht ← ht.choose T he (choice he)
          let rest ← iterateLoop T choice fuel result.2 ht
          return (he :: rest.1, rest.2)

def iterate (T : DictType K) (choice : EntryId → IterChoice) (ht : LinkedDict K V) :
    Except Fault (List EntryId × LinkedDict K V) :=
  iterateLoop T choice (ht.used + 1) dictGetIterator ht

-- The address is one that is free, for the operations that allocate an entry.
def step (T : DictType K) (ht : LinkedDict K V) (entry : EntryId) :
    DictOp K V → Except Fault (LinkedDict K V × DictStatus)
  | .add key val => ht.dictAdd T entry key val
  | .replace key val => do return ((← ht.dictReplace T entry key val).1, .DICT_OK)
  | .delete key => do
      let result ← ht.dictDelete T key
      return (result.1, .ofEntry result.2)
  | .deleteNoFree key => do
      let result ← ht.dictDeleteNoFree T key
      return (result.1, .ofEntry result.2)
  | .resize => dictResize T ht
  | .empty => do return (← ht.dictEmpty, .DICT_OK)

-- The tables the operations lead to.
inductive Reachable (T : DictType K) : LinkedDict K V → Prop
  | create : Reachable T dictCreate
  | step {ht ht' : LinkedDict K V} {status : DictStatus} (entry : EntryId) (op : DictOp K V) :
      Reachable T ht → ht.nodes entry = none → ht.step T entry op = .ok (ht', status) →
        Reachable T ht'

end LinkedDict

end Cutis

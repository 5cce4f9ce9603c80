import Cutis.Basic

namespace Cutis

def DICT_HT_INITIAL_SIZE : Nat := 16

-- sizeof(DictEntry*)
def POINTER_SIZE : Nat := 8

inductive DictStatus
  | DICT_OK
  | DICT_ERR
deriving DecidableEq, Repr

structure DictType (K : Type) where
  hashFunction : K → UInt32
  keyCompare : K → K → Bool

structure DictEntry (K V : Type) where
  key : K
  val : V
deriving DecidableEq, Repr

-- A chain is the list of the entries linked from one slot, first entry first.
structure Dict (K V : Type) where
  table : List (List (DictEntry K V))
  size : Nat
  size_mask : Nat
  used : Nat
deriving DecidableEq, Repr

variable {K V : Type}

def dictReset : Dict K V := { table := [], size := 0, size_mask := 0, used := 0 }

def dictCreate : Dict K V := dictReset

namespace Dict

def entries (ht : Dict K V) : List (DictEntry K V) := ht.table.flatten

def chain (ht : Dict K V) (h : Nat) : List (DictEntry K V) := ht.table.getD h []

-- The slot of a key, hash & size_mask.
def slot (T : DictType K) (ht : Dict K V) (key : K) : Nat :=
  (T.hashFunction key).toNat &&& ht.size_mask

end Dict

-- The loop doubles i from 16 until it reaches size. The fuel is never used up
-- for the sizes below 2^31 the caller passes.
def dictNextPowerLoop (size : Nat) : Nat → Nat → Nat
  | 0, i => i
  | fuel + 1, i => if i ≥ size then i else dictNextPowerLoop size fuel (i * 2)

def dictNextPower (size : Nat) : Nat :=
  if size ≥ 2 ^ 31 then 2 ^ 31 else dictNextPowerLoop size 32 DICT_HT_INITIAL_SIZE

-- The parameter is an int, which the byte counts of the callers are converted
-- to; zmalloc takes it back to a size_t and writes the block header through
-- the pointer malloc returned. A negative size asks for nearly 2^64 bytes, so
-- that pointer is null. The result is the number of bytes in the block.
def dictAlloc (size : Int) : Except Fault Nat :=
  if size < 0 then throw .segv else return size.toNat

-- Allocate and clear the slots of a table.
def dictAllocTable (real_size : Nat) : Except Fault (List (List (DictEntry K V))) := do
  let block ← dictAlloc (toInt32 (real_size * POINTER_SIZE : Nat))
  if block < real_size * POINTER_SIZE then
    throw .outOfBounds
  return List.replicate real_size []

-- Relink the entries of one chain into the new table.
def relinkChain (T : DictType K) (size_mask : Nat) :
    List (DictEntry K V) → List (List (DictEntry K V)) × Nat → List (List (DictEntry K V)) × Nat
  | [], acc => acc
  | he :: next_he, (table, used) =>
      let h := (T.hashFunction he.key).toNat &&& size_mask
      relinkChain T size_mask next_he (table.modify h (he :: ·), used - 1)

def relinkTable (T : DictType K) (size_mask : Nat) :
    List (List (DictEntry K V)) → List (List (DictEntry K V)) × Nat →
      List (List (DictEntry K V)) × Nat
  | [], acc => acc
  | chain :: rest, (table, used) =>
      if used > 0 then relinkTable T size_mask rest (relinkChain T size_mask chain (table, used))
      else (table, used)

def dictExpand (T : DictType K) (ht : Dict K V) (size : Nat) :
    Except Fault (Dict K V × DictStatus) := do
  let real_size := dictNextPower size
  if ht.used > size then
    return (ht, .DICT_ERR)
  let size_mask := real_size - 1
  let table ← dictAllocTable real_size
  let (table, left) := relinkTable T size_mask ht.table (table, ht.used)
  if left ≠ 0 then
    throw .abort
  return ({ table, size := real_size, size_mask, used := ht.used }, .DICT_OK)

def dictExpandIfNeeded (T : DictType K) (ht : Dict K V) :
    Except Fault (Dict K V × DictStatus) :=
  if ht.size = 0 then dictExpand T ht DICT_HT_INITIAL_SIZE
  else if ht.used = ht.size then dictExpand T ht (ht.size * 2 % 2 ^ 32)
  else return (ht, .DICT_OK)

-- The slot a new key goes to, or none where the code returns -1.
def dictKeyIndex (T : DictType K) (ht : Dict K V) (key : K) :
    Except Fault (Dict K V × Option Nat) := do
  let (ht, status) ← dictExpandIfNeeded T ht
  if status = .DICT_ERR then
    return (ht, none)
  let h := ht.slot T key
  if (ht.chain h).any (fun he => T.keyCompare key he.key) then
    return (ht, none)
  return (ht, some h)

def dictAdd (T : DictType K) (ht : Dict K V) (key : K) (val : V) :
    Except Fault (Dict K V × DictStatus) := do
  let (ht, index) ← dictKeyIndex T ht key
  match index with
  | none => return (ht, .DICT_ERR)
  | some index =>
      let table := ht.table.modify index ({ key, val } :: ·)
      return ({ ht with table, used := ht.used + 1 }, .DICT_OK)

def dictFind (T : DictType K) (ht : Dict K V) (key : K) : Option (DictEntry K V) :=
  if ht.used = 0 then none
  else (ht.chain (ht.slot T key)).find? (fun he => T.keyCompare key he.key)

-- Overwrite the value of the first entry of a chain that holds the key.
def chainSetVal (T : DictType K) (key : K) (val : V) :
    List (DictEntry K V) → List (DictEntry K V)
  | [] => []
  | he :: next =>
      if T.keyCompare key he.key then { he with val } :: next
      else he :: chainSetVal T key val next

-- Assign to the val field of the entry dictFind returns for the key. It also
-- models a change made through the pointer stored there.
def dictSetHashVal (T : DictType K) (ht : Dict K V) (key : K) (val : V) : Dict K V :=
  { ht with table := ht.table.modify (ht.slot T key) (chainSetVal T key val) }

-- The second component is the old value, which the value destructor gets.
def dictReplace (T : DictType K) (ht : Dict K V) (key : K) (val : V) :
    Except Fault (Dict K V × Option V) := do
  let (ht, status) ← dictAdd T ht key val
  if status = .DICT_OK then
    return (ht, none)
  match dictFind T ht key with
  | none => throw .segv
  | some entry => return (dictSetHashVal T ht key val, some entry.val)

-- The unlinked entry; none stands for DICT_ERR. DictDelete passes its key and
-- value to the destructors, DictDeleteNoFree does not.
def dictGenericDelete (T : DictType K) (ht : Dict K V) (key : K) :
    Dict K V × Option (DictEntry K V) :=
  if ht.used = 0 then (ht, none)
  else
    let h := ht.slot T key
    match (ht.chain h).find? (fun he => T.keyCompare key he.key) with
    | none => (ht, none)
    | some he =>
        let table := ht.table.modify h (List.eraseP fun he => T.keyCompare key he.key)
        ({ ht with table, used := ht.used - 1 }, some he)

def dictDelete (T : DictType K) (ht : Dict K V) (key : K) :
    Dict K V × Option (DictEntry K V) :=
  dictGenericDelete T ht key

def dictDeleteNoFree (T : DictType K) (ht : Dict K V) (key : K) :
    Dict K V × Option (DictEntry K V) :=
  dictGenericDelete T ht key

-- The entries the clearing loop frees, in order.
def clearTable : List (List (DictEntry K V)) → Nat → List (DictEntry K V)
  | [], _ => []
  | chain :: rest, used =>
      if used > 0 then chain ++ clearTable rest (used - chain.length) else []

def dictClear (ht : Dict K V) : Dict K V × List (DictEntry K V) :=
  (dictReset, clearTable ht.table ht.used)

def dictEmpty (ht : Dict K V) : Dict K V := (dictClear ht).1

def dictResize (T : DictType K) (ht : Dict K V) : Except Fault (Dict K V × DictStatus) :=
  let minimal := if ht.used < DICT_HT_INITIAL_SIZE then DICT_HT_INITIAL_SIZE else ht.used
  dictExpand T ht minimal

-- A pointer to an entry is the part of its chain that starts there, and [] is
-- the null pointer.
structure DictIterator (K V : Type) where
  index : Int
  entry : List (DictEntry K V)
  next_entry : List (DictEntry K V)

def dictGetIterator : DictIterator K V := { index := -1, entry := [], next_entry := [] }

-- One call of DictNext scans at most size + 1 slots.
def dictNextLoop (ht : Dict K V) :
    Nat → DictIterator K V → Option (DictEntry K V) × DictIterator K V
  | 0, iter => (none, iter)
  | fuel + 1, iter =>
      if iter.entry = [] ∧ iter.index + 1 ≥ toInt32 ht.size then
        (none, { iter with index := iter.index + 1 })
      else
        let iter :=
          if iter.entry = [] then
            { iter with index := iter.index + 1, entry := ht.chain (iter.index + 1).toNat }
          else { iter with entry := iter.next_entry }
        match iter.entry with
        | he :: next => (some he, { iter with next_entry := next })
        | [] => dictNextLoop ht fuel iter

def dictNext (ht : Dict K V) (iter : DictIterator K V) :
    Option (DictEntry K V) × DictIterator K V :=
  dictNextLoop ht (ht.size + 2) iter

-- The entries a loop over DictNext sees when its body leaves the table alone.
def dictIterateLoop (ht : Dict K V) : Nat → DictIterator K V → List (DictEntry K V)
  | 0, _ => []
  | fuel + 1, iter =>
      match dictNext ht iter with
      | (none, _) => []
      | (some he, iter) => he :: dictIterateLoop ht fuel iter

def dictIterate (ht : Dict K V) : List (DictEntry K V) :=
  dictIterateLoop ht (ht.used + 1) dictGetIterator

-- The random() results are drawn from a list: one for each slot tried, and one
-- for the position in the chain. The loop goes on while the slot is empty.
def dictRandomLoop (ht : Dict K V) : List Nat → Except Fault (Option (DictEntry K V) × List Nat)
  | [] => throw .hang
  | r :: random =>
      let chain := ht.chain (r &&& ht.size_mask)
      if chain = [] then dictRandomLoop ht random
      else
        match random with
        | [] => throw .hang
        | r :: random => return (chain[r % chain.length]?, random)

def dictGetRandomKey (ht : Dict K V) (random : List Nat) :
    Except Fault (Option (DictEntry K V) × List Nat) :=
  if ht.used = 0 then return (none, random) else dictRandomLoop ht random

-- Bernstein's hash: hash * 33 + c for each byte.
def dictGenHashFunction (buf : Bytes) : UInt32 :=
  buf.foldl (fun hash c => ((hash <<< 5) + hash) + c.toUInt32) 5381

end Cutis

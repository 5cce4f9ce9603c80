import Cutis.Object
import Cutis.Session

namespace Cutis

-- The address of an object.
abbrev ObjectId := Nat

-- What the pointer of an object leads to, by the type of the object. What is left of
-- the pointer once that is freed is released.
inductive ObjectPtr
  | string (ptr : Option Bytes)
  | list (ptr : List ObjectId)
  | set (ptr : Dict ObjectId Unit)
  | released
deriving DecidableEq

-- The count is an int.
structure HeapObject where
  ptr : ObjectPtr
  refcount : BitVec 32
deriving DecidableEq

-- All objects that were ever allocated, and the list of those that wait for reuse.
structure Heap where
  objects : List HeapObject
  free_objs : List ObjectId
deriving DecidableEq

-- The objects in the nodes of a list or the keys of a set.
def ObjectPtr.elements : ObjectPtr → List ObjectId
  | .list l => l
  | .set d => d.entries.map DictEntry.key
  | _ => []

-- The objects listRelease and DictRelease pass to the free methods, in order.
def ObjectPtr.freed : ObjectPtr → List ObjectId
  | .list l => l
  | .set d => (dictClear d).2.map DictEntry.key
  | _ => []

namespace Heap

def ptr (h : Heap) (o : ObjectId) : ObjectPtr := (h.objects[o]?.map HeapObject.ptr).getD .released

-- The string of a string object.
def bytes (h : Heap) (o : ObjectId) : Bytes :=
  match h.ptr o with
  | .string (some s) => s
  | _ => []

-- Assign to o->ptr, or change what it points to.
def setPtr (h : Heap) (o : ObjectId) (ptr : ObjectPtr) : Heap :=
  { h with objects := h.objects.modify o fun ob => { ob with ptr } }

def createCutisObject (h : Heap) (ptr : ObjectPtr) : ObjectId × Heap :=
  match h.free_objs with
  | o :: rest => (o, { objects := h.objects.set o { ptr, refcount := 1 }, free_objs := rest })
  | [] => (h.objects.length, { h with objects := h.objects ++ [{ ptr, refcount := 1 }] })

def incrRefCount (h : Heap) (o : ObjectId) : Heap :=
  { h with objects := h.objects.modify o fun ob => { ob with refcount := ob.refcount + 1 } }

-- The free methods of a list and of a set call the function again, for their
-- elements.
def decrRefCountLoop : Nat → Heap → ObjectId → Heap
  | 0, h, _ => h
  | depth + 1, h, o =>
      match h.objects[o]? with
      | none => h
      | some ob =>
          let refcount := ob.refcount - 1
          if refcount = 0 then
            let h := { h with objects := h.objects.set o { ptr := .released, refcount } }
            let h := ob.ptr.freed.foldl (decrRefCountLoop depth) h
            { h with free_objs := o :: h.free_objs }
          else { h with objects := h.objects.set o { ob with refcount } }

-- The elements of a list or a set are strings, so that the calls nest twice.
def decrRefCount (h : Heap) (o : ObjectId) : Heap := decrRefCountLoop 2 h o

-- The members of a set, hashed and compared through the objects that hold them.
def SetDictType (h : Heap) : DictType ObjectId where
  hashFunction o := dictGenHashFunction (h.bytes o)
  keyCompare o1 o2 := sdsDictKeyCompare (h.bytes o1) (h.bytes o2)

end Heap

structure SharedObject where
  crlf : ObjectId
  ok : ObjectId
  err : ObjectId
  zerobulk : ObjectId
  nil : ObjectId
  zero : ObjectId
  one : ObjectId
  pong : ObjectId
deriving DecidableEq

namespace SharedObject

def toList (shared : SharedObject) : List ObjectId :=
  [shared.crlf, shared.ok, shared.err, shared.zerobulk, shared.nil, shared.zero, shared.one,
    shared.pong]

end SharedObject

def initSharedObjects (h : Heap) : SharedObject × Heap :=
  let (crlf, h) := h.createCutisObject (.string (some (sdsnew "\r\n")))
  let (ok, h) := h.createCutisObject (.string (some (sdsnew "+OK\r\n")))
  let (err, h) := h.createCutisObject (.string (some (sdsnew "-ERR\r\n")))
  let (zerobulk, h) := h.createCutisObject (.string (some (sdsnew "0\r\n\r\n")))
  let (nil, h) := h.createCutisObject (.string (some (sdsnew "nil\r\n")))
  let (zeroObj, h) := h.createCutisObject (.string (some (sdsnew "0\r\n")))
  let (one, h) := h.createCutisObject (.string (some (sdsnew "1\r\n")))
  let (pong, h) := h.createCutisObject (.string (some (sdsnew "+PONG\r\n")))
  ({ crlf, ok, err, zerobulk, nil, zero := zeroObj, one, pong }, h)

-- A database with the objects it holds.
abbrev HeapDict := Dict Bytes ObjectId

-- A client with its reply queue.
structure HeapClient where
  dict : Nat
  reply : List ObjectId
  sent_len : Int
deriving DecidableEq

-- What a handler works on: the objects, the databases and the client whose command
-- it runs.
structure HeapSession where
  heap : Heap
  shared : SharedObject
  dict : List HeapDict
  client : HeapClient
  argv : List Bytes

namespace HeapSession

variable (s : HeapSession)

-- The slots of argv behind the last argument hold no string.
def arg (i : Nat) : Except Fault Bytes :=
  match s.argv[i]? with
  | some arg => return arg
  | none => throw .useAfterFree

def database (id : Nat) : Except Fault HeapDict :=
  match s.dict[id]? with
  | some dict => return dict
  | none => throw .outOfBounds

def db : Except Fault HeapDict := s.database s.client.dict

def setDatabase (id : Nat) (dict : HeapDict) : HeapSession := { s with dict := s.dict.set id dict }

def setDB (dict : HeapDict) : HeapSession := s.setDatabase s.client.dict dict

def createCutisObject (ptr : ObjectPtr) : ObjectId × HeapSession :=
  let (o, heap) := s.heap.createCutisObject ptr
  (o, { s with heap })

def incrRefCount (o : ObjectId) : HeapSession := { s with heap := s.heap.incrRefCount o }

def decrRefCount (o : ObjectId) : HeapSession := { s with heap := s.heap.decrRefCount o }

def setPtr (o : ObjectId) (ptr : ObjectPtr) : HeapSession := { s with heap := s.heap.setPtr o ptr }

def addReply (o : ObjectId) : HeapSession :=
  { s with client := { s.client with reply := s.client.reply ++ [o] } }.incrRefCount o

def addReplySds (str : Bytes) : HeapSession :=
  let (o, s) := s.createCutisObject (.string (some str))
  (s.addReply o).decrRefCount o

-- The three parts of a bulk reply.
def addBulk (el : ObjectId) : HeapSession :=
  ((s.addReplySds (intLine (s.heap.bytes el).length)).addReply el).addReply s.shared.crlf

end HeapSession

end Cutis

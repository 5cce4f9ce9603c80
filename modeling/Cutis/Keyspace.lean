import Cutis.Command
import Cutis.Database
import Cutis.Reply

namespace Cutis

-- What a command does to the database of its client.
structure Effect where
  keyspace : Keyspace
  changes : Nat
  reply : Reply

namespace Keyspace

variable (ks : Keyspace) (key : Bytes)

def answer (reply : Reply) : Effect := { keyspace := ks, changes := 0, reply }

def store (key : Bytes) (v : Value) (reply : Reply) : Effect :=
  { keyspace := ks.insert key v, changes := 1, reply }

def onString (missing : Effect) (wrong : Reply) (f : Bytes → Effect) : Effect :=
  match ks.lookup key with
  | none => missing
  | some (.string s) => f s
  | some _ => ks.answer wrong

def onList (missing : Effect) (wrong : Reply) (f : List Bytes → Effect) : Effect :=
  match ks.lookup key with
  | none => missing
  | some (.list l) => f l
  | some _ => ks.answer wrong

def onSet (missing : Effect) (wrong : Reply) (f : Finset Bytes → Effect) : Effect :=
  match ks.lookup key with
  | none => missing
  | some (.set members) => f members
  | some _ => ks.answer wrong

section Strings

def set (val : Bytes) : Effect := ks.store key (.string val) .ok

def setnx (val : Bytes) : Effect :=
  if key ∈ ks then { ks.answer .ok with changes := 1 } else ks.set key val

def get : Effect :=
  ks.onString key (ks.answer .nil)
    (.bulkError (sdsnew "GET against key not holding a string value")) fun s => ks.answer (.bulk s)

def exists? : Effect := ks.answer (if key ∈ ks then .one else .zero)

def del : Effect :=
  { keyspace := ks.erase key, changes := if key ∈ ks then 1 else 0, reply := .ok }

def number : Int :=
  match ks.lookup key with
  | some (.string s) => strtoll (cstr s)
  | _ => 0

def incrBy (incr : Int) : Effect :=
  let value := toInt64 (ks.number key + incr)
  ks.store key (.string (printInt value)) (.int value)

end Strings

section Lists

def push (whereEnd : ListEnd) (el : Bytes) : Effect :=
  ks.onList key (ks.store key (.list [el]) .ok)
    (.ofString "-ERR push against existing key not holding a list ") fun l =>
      ks.store key (.list (listAddNode l el whereEnd)) .ok

def pop (whereEnd : ListEnd) : Effect :=
  ks.onList key (ks.answer .nil) (.bulkError (sdsnew "POP against key not holding a list value"))
    fun l =>
      match listPop l whereEnd with
      | none => ks.answer .nil
      | some (el, l) => ks.store key (.list l) (.bulk el)

def llen : Effect :=
  ks.onList key (ks.answer .zero) (.int (-1)) fun l => ks.answer (.int (toInt32 l.length))

def lindex (index : Int) : Effect :=
  ks.onList key (ks.answer .nil)
    (.bulkError (sdsnew "LINDEX against key not holding a list value")) fun l =>
      ks.answer ((listIndex l index).elim .nil .bulk)

-- The elements LRANGE replies and LTRIM keeps.
def range (l : List Bytes) (start endIdx : Int) : List Bytes :=
  match rangeBounds (toInt32 l.length) start endIdx with
  | none => []
  | some (start, endIdx) => (l.drop start.toNat).take (endIdx - start + 1).toNat

def lrange (start endIdx : Int) : Effect :=
  ks.onList key (ks.answer .nil)
    (.bulkError (sdsnew "LRANGE against key not holding a list value")) fun l =>
      ks.answer (.multi (range l start endIdx))

-- What LTRIM leaves of a list.
def trimmed (l : List Bytes) (start endIdx : Int) : List Bytes :=
  match rangeBounds (toInt32 l.length) start endIdx with
  | none => l.drop (toInt32 l.length).toNat
  | some (start, endIdx) =>
      (l.drop start.toNat).take
        (l.length - start.toNat - (toInt32 l.length - endIdx - 1).toNat)

def ltrim (start endIdx : Int) : Effect :=
  ks.onList key (ks.answer (.error "no such key"))
    (.error "LTRIM against key not holding a list value") fun l =>
      ks.store key (.list (trimmed l start endIdx)) .ok

def lset (index : Int) (el : Bytes) : Effect :=
  ks.onList key (ks.answer (.error "no such key"))
    (.error "LSET against key not holding a list value") fun l =>
      match listIndex l index with
      | none => ks.answer (.error "index out of range")
      | some _ => ks.store key (.list (listSetIndex l index el)) .ok

end Lists

section Sets

def sadd (el : Bytes) : Effect :=
  ks.onSet key (ks.store key (.set {el}) .ok)
    (.error "SADD against key not holding a set value") fun members =>
      { keyspace := ks.insert key (.set (insert el members))
        changes := if el ∈ members then 0 else 1
        reply := .ok }

def srem (el : Bytes) : Effect :=
  ks.onSet key (ks.answer (.error "no such key"))
    (.error "SREM against key not holding a set value") fun members =>
      { keyspace := ks.insert key (.set (members.erase el))
        changes := if el ∈ members then 1 else 0
        reply := .ok }

def sismember (el : Bytes) : Effect :=
  ks.onSet key (ks.answer (.int (-1))) (.int (-1)) fun members =>
    ks.answer (if el ∈ members then .one else .zero)

def scard : Effect :=
  ks.onSet key (ks.answer .zero) (.int (-1)) fun members => ks.answer (.int members.card)

end Sets

section Keys

def type : Effect :=
  ks.answer <| match ks.lookup key with
    | none => .ofString "none"
    | some (.string _) => .ofString "string"
    | some (.list _) => .ofString "list"
    | some (.set _) => .ofString "set"

def renameWith (nx : Bool) (dst : Bytes) : Effect :=
  if key = dst then ks.answer (.error "src and dest key are the same")
  else
    match ks.lookup key with
    | none => ks.answer (.error "no such key")
    | some v =>
        if nx ∧ dst ∈ ks then ks.answer (.error "destination key exists")
        else { keyspace := (ks.insert dst v).erase key, changes := 1, reply := .ok }

def dbsize : Effect := ks.answer (.int ks.keys.card)

end Keys

end Keyspace

-- The server as its clients see it: a vector of finite maps, and the index one
-- client has selected.
structure Model where
  dataset : Dataset
  selected : Nat

structure Outcome where
  model : Model
  changes : Nat
  reply : Reply

namespace Model

variable (m : Model)

def keyspace : Keyspace := m.dataset.getD m.selected ∅

def answer (reply : Reply) : Outcome := { model := m, changes := 0, reply }

-- A command that works on the selected database only.
def apply (f : Keyspace → Effect) : Outcome :=
  let effect := f m.keyspace
  { model := { m with dataset := m.dataset.set m.selected effect.keyspace }
    changes := effect.changes
    reply := effect.reply }

def validIndex (id : Int) : Prop := 0 ≤ id ∧ id < m.dataset.length

instance (id : Int) : Decidable (m.validIndex id) := inferInstanceAs (Decidable (_ ∧ _))

def select (id : Int) : Outcome :=
  if m.validIndex id then { model := { m with selected := id.toNat }, changes := 0, reply := .ok }
  else m.answer (.error "invalid DB index")

def move (key : Bytes) (id : Int) : Outcome :=
  if ¬m.validIndex id then m.answer (.error "target DB out of range")
  else if id = m.selected then m.answer (.error "source DB is the same as target DB")
  else
    match m.keyspace.lookup key with
    | none => m.answer (.error "no such key")
    | some v =>
        let target := m.dataset.getD id.toNat ∅
        if key ∈ target then m.answer (.error "target DB already contains the moved key")
        else
          let dataset := (m.dataset.set id.toNat (target.insert key v)).set m.selected
            (m.keyspace.erase key)
          { model := { m with dataset }, changes := 1, reply := .ok }

end Model

end Cutis

import Cutis.Dict.Refinement
import Cutis.Sds

namespace Cutis

def CUTIS_STRING : UInt8 := 0
def CUTIS_LIST : UInt8 := 1
def CUTIS_SET : UInt8 := 2

def sdsDictKeyCompare (key1 key2 : Bytes) : Bool := sdscmp key1 key2 == 0

-- The keys of a database.
def sdsDictType : DictType Bytes where
  hashFunction := dictGenHashFunction
  keyCompare := sdsDictKeyCompare

-- The members of a set, hashed and compared through the string they hold.
def SetDictType : DictType Bytes where
  hashFunction := dictGenHashFunction
  keyCompare := sdsDictKeyCompare

-- An object by its value: list nodes and set members are string objects, and
-- the value of a set entry is null.
inductive CutisObject
  | string (ptr : Bytes)
  | list (ptr : List Bytes)
  | set (ptr : Dict Bytes Unit)

def CutisObject.type : CutisObject → UInt8
  | .string _ => CUTIS_STRING
  | .list _ => CUTIS_LIST
  | .set _ => CUTIS_SET

def createSetObject : CutisObject := .set dictCreate

abbrev Database := Dict Bytes CutisObject

theorem sdsDictType_lawful : sdsDictType.Lawful where
  compare_iff key1 key2 := by
    simp only [sdsDictType, sdsDictKeyCompare, beq_iff_eq, sdscmp_eq_zero_iff]

theorem setDictType_lawful : SetDictType.Lawful := sdsDictType_lawful

-- What a client can observe of a value.
inductive Value
  | string (s : Bytes)
  | list (elements : List Bytes)
  | set (members : Finset Bytes)
deriving DecidableEq

def CutisObject.value : CutisObject → Value
  | .string s => .string s
  | .list l => .list l
  | .set d => .set d.toFinmap.keys

abbrev Keyspace := Finmap fun _ : Bytes => Value

-- The finite map from keys to values a database stands for.
def Dict.contents (db : Database) : Keyspace := FiniteMap.mapVals CutisObject.value db.toFinmap

def CutisObject.Sound : CutisObject → Prop
  | .set d => d.Sound SetDictType
  | _ => True

-- The databases the server can hold.
structure SoundDatabase (db : Database) : Prop extends Dict.Sound sdsDictType db where
  objects : ∀ he ∈ db.entries, he.val.Sound

end Cutis

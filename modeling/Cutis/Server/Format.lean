import Cutis.Dict.Iteration
import Cutis.Server

namespace Cutis

-- The dump format, by the entries of the tables.
def encodeString (s : Bytes) : Bytes := htonl s.length ++ s

def encodeStrings (l : List Bytes) : Bytes := htonl l.length ++ l.flatMap encodeString

def encodeObject : CutisObject → Bytes
  | .string s => encodeString s
  | .list l => encodeStrings l
  | .set d => encodeStrings (d.entries.map DictEntry.key)

def encodeEntry (de : DictEntry Bytes CutisObject) : Bytes :=
  de.val.type :: (encodeString de.key ++ encodeObject de.val)

def encodeDict (j : Nat) (entries : List (DictEntry Bytes CutisObject)) : Bytes :=
  if entries = [] then [] else CUTIS_SELECT_DB :: (htonl j ++ entries.flatMap encodeEntry)

def encodeDicts : Nat → List Database → Bytes
  | _, [] => []
  | j, dict :: rest => encodeDict j dict.entries ++ encodeDicts (j + 1) rest

def encodeFile (dict : List Database) : Bytes :=
  CUTIS_DB_SIGNATURE ++ (encodeDicts 0 dict ++ [CUTIS_EOF])

end Cutis

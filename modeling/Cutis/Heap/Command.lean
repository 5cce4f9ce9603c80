import Cutis.Command
import Cutis.Heap

namespace Cutis.Heap

-- What the system and the C library answer during one call: the results of random,
-- the order qsort leaves, the result of SaveDB, whether a child is saving, and the
-- time of the last save.
structure Answers where
  random : List Nat
  qsort : List (Dict ObjectId Unit) → List (Dict ObjectId Unit)
  qsort_perm : ∀ dv, (qsort dv).Perm dv
  saved : CutisStatus
  bg_saving : Bool
  last_save : Int

section Strings

-- DictReplace, whose value destructor drops the old value.
def dictReplaceValue (s : HeapSession) (key : Bytes) (o : ObjectId) : Except Fault HeapSession := do
  let (db, old) ← dictReplace sdsDictType (← s.db) key o
  match old with
  | none => return s.setDB db
  | some old => return (s.setDB db).decrRefCount old

def setGenericCommand (s : HeapSession) (nx : Bool) : Except Fault HeapSession := do
  let key ← s.arg 1
  let (o, s) := s.createCutisObject (.string (some (← s.arg 2)))
  let (db, ret) ← dictAdd sdsDictType (← s.db) key o
  let s := s.setDB db
  if ret = .DICT_ERR then
    if nx then return (s.decrRefCount o).addReply s.shared.ok
    else
      let s ← dictReplaceValue s key o
      return s.addReply s.shared.ok
  else return s.addReply s.shared.ok

def getCommand (s : HeapSession) : Except Fault HeapSession := do
  match dictFind sdsDictType (← s.db) (← s.arg 1) with
  | none => return s.addReply s.shared.nil
  | some de =>
      match s.heap.ptr de.val with
      | .string _ => return s.addBulk de.val
      | .released => throw .useAfterFree
      | _ => return s.addReplySds (bulkError "GET against key not holding a string value")

def setCommand (s : HeapSession) : Except Fault HeapSession := setGenericCommand s false

def setnxCommand (s : HeapSession) : Except Fault HeapSession := setGenericCommand s true

def existsCommand (s : HeapSession) : Except Fault HeapSession := do
  match dictFind sdsDictType (← s.db) (← s.arg 1) with
  | none => return s.addReply s.shared.zero
  | some _ => return s.addReply s.shared.one

-- DictDelete on a database, whose value destructor drops the value.
def dictDeleteValue (s : HeapSession) (key : Bytes) : Except Fault HeapSession := do
  let (db, de) := dictDelete sdsDictType (← s.db) key
  match de with
  | none => return s.setDB db
  | some de => return (s.setDB db).decrRefCount de.val

def delCommand (s : HeapSession) : Except Fault HeapSession := do
  let s ← dictDeleteValue s (← s.arg 1)
  return s.addReply s.shared.ok

def incrValue (s : HeapSession) (de : Option (DictEntry Bytes ObjectId)) : Except Fault Int :=
  match de with
  | none => return 0
  | some de =>
      match s.heap.ptr de.val with
      | .string _ => return strtoll (cstr (s.heap.bytes de.val))
      | .released => throw .useAfterFree
      | _ => return 0

def incrDecrCommand (s : HeapSession) (incr : Int) : Except Fault HeapSession := do
  let key ← s.arg 1
  let value := toInt64 ((← incrValue s (dictFind sdsDictType (← s.db) key)) + incr)
  let (o, s) := s.createCutisObject (.string (some (printInt value)))
  let (db, retval) ← dictAdd sdsDictType (← s.db) key o
  let s := s.setDB db
  let s ← if retval = .DICT_ERR then dictReplaceValue s key o else pure s
  return (s.addReply o).addReply s.shared.crlf

def incrCommand (s : HeapSession) : Except Fault HeapSession := incrDecrCommand s 1

def decrCommand (s : HeapSession) : Except Fault HeapSession := incrDecrCommand s (-1)

def randomKeyCommand (os : Answers) (s : HeapSession) : Except Fault HeapSession := do
  match ← dictGetRandomKey (← s.db) os.random with
  | (none, _) => return s.addReply s.shared.crlf
  | (some de, _) => return (s.addReplySds de.key).addReply s.shared.crlf

end Strings

section Lists

def listAddNode (l : List ObjectId) (el : ObjectId) : ListEnd → List ObjectId
  | .CUTIS_HEAD => el :: l
  | .CUTIS_TAIL => l ++ [el]

-- The position of a node, counted from the tail where the index is negative.
def listIndex (l : List ObjectId) (index : Int) : Option Nat :=
  if index < 0 then
    if (-index - 1).toNat < l.length then some (l.length - 1 - (-index - 1).toNat) else none
  else if index.toNat < l.length then some index.toNat else none

def pushGenericCommand (s : HeapSession) (whereEnd : ListEnd) : Except Fault HeapSession := do
  let (el, s) := s.createCutisObject (.string (some (← s.arg 2)))
  let key ← s.arg 1
  match dictFind sdsDictType (← s.db) key with
  | none =>
      let (o, s) := s.createCutisObject (.list [])
      let s := s.setPtr o (.list (listAddNode [] el whereEnd))
      let (db, _) ← dictAdd sdsDictType (← s.db) key o
      return (s.setDB db).addReply s.shared.ok
  | some de =>
      match s.heap.ptr de.val with
      | .list l =>
          return (s.setPtr de.val (.list (listAddNode l el whereEnd))).addReply s.shared.ok
      | .released => throw .useAfterFree
      | _ =>
          return (s.decrRefCount el).addReplySds
            (sdsnew "-ERR push against existing key not holding a list \r\n")

def rPushCommand (s : HeapSession) : Except Fault HeapSession := pushGenericCommand s .CUTIS_TAIL

def lPushCommand (s : HeapSession) : Except Fault HeapSession := pushGenericCommand s .CUTIS_HEAD

-- The first or last element and the list without its node.
def listPop (l : List ObjectId) : ListEnd → Option (ObjectId × List ObjectId)
  | .CUTIS_HEAD => l.head?.map fun el => (el, l.tail)
  | .CUTIS_TAIL => l.getLast?.map fun el => (el, l.dropLast)

def popGenericCommand (s : HeapSession) (whereEnd : ListEnd) : Except Fault HeapSession := do
  match dictFind sdsDictType (← s.db) (← s.arg 1) with
  | none => return s.addReply s.shared.nil
  | some de =>
      match s.heap.ptr de.val with
      | .list l =>
          match listPop l whereEnd with
          | none => return s.addReply s.shared.nil
          | some (el, l) =>
              return ((s.addBulk el).setPtr de.val (.list l)).decrRefCount el
      | .released => throw .useAfterFree
      | _ => return s.addReplySds (bulkError "POP against key not holding a list value")

def rPopCommand (s : HeapSession) : Except Fault HeapSession := popGenericCommand s .CUTIS_TAIL

def lPopCommand (s : HeapSession) : Except Fault HeapSession := popGenericCommand s .CUTIS_HEAD

def lLenCommand (s : HeapSession) : Except Fault HeapSession := do
  match dictFind sdsDictType (← s.db) (← s.arg 1) with
  | none => return s.addReply s.shared.zero
  | some de =>
      match s.heap.ptr de.val with
      | .list l => return s.addReplySds (intLine l.length)
      | .released => throw .useAfterFree
      | _ => return s.addReplySds (sdsnew "-1\r\n")

def lIndexCommand (s : HeapSession) : Except Fault HeapSession := do
  let de := dictFind sdsDictType (← s.db) (← s.arg 1)
  let index := atoi (← s.arg 2)
  match de with
  | none => return s.addReply s.shared.nil
  | some de =>
      match s.heap.ptr de.val with
      | .list l =>
          match (listIndex l index).bind (l[·]?) with
          | none => return s.addReply s.shared.nil
          | some el => return s.addBulk el
      | .released => throw .useAfterFree
      | _ => return s.addReplySds (bulkError "LINDEX against key not holding a list value")

-- Reply the given number of elements from a node on.
def addRange : Nat → List ObjectId → HeapSession → Except Fault HeapSession
  | 0, _, s => return s
  | _ + 1, [], _ => throw .segv
  | j + 1, el :: next, s => addRange j next (s.addBulk el)

def lRangeCommand (s : HeapSession) : Except Fault HeapSession := do
  let de := dictFind sdsDictType (← s.db) (← s.arg 1)
  let start := atoi (← s.arg 2)
  let endIdx := atoi (← s.arg 3)
  match de with
  | none => return s.addReply s.shared.nil
  | some de =>
      match s.heap.ptr de.val with
      | .list l =>
          match rangeBounds (toInt32 l.length) start endIdx with
          | none => return s.addReply s.shared.zero
          | some (start, endIdx) =>
              let range_len := endIdx - start + 1
              addRange range_len.toNat (l.drop start.toNat) (s.addReplySds (intLine range_len))
      | .released => throw .useAfterFree
      | _ => return s.addReplySds (bulkError "LRANGE against key not holding a list value")

-- Delete nodes at one end of the list in o; a null node is dereferenced.
def delNodes (o : ObjectId) (whereEnd : ListEnd) :
    Nat → List ObjectId → HeapSession → Except Fault (List ObjectId × HeapSession)
  | 0, l, s => return (l, s)
  | j + 1, l, s =>
      match listPop l whereEnd with
      | none => throw .segv
      | some (el, l) => delNodes o whereEnd j l ((s.setPtr o (.list l)).decrRefCount el)

def lTrimCommand (s : HeapSession) : Except Fault HeapSession := do
  let de := dictFind sdsDictType (← s.db) (← s.arg 1)
  let start := atoi (← s.arg 2)
  let endIdx := atoi (← s.arg 3)
  match de with
  | none => return s.addReplySds (sdsnew "-ERR no such key\r\n")
  | some de =>
      match s.heap.ptr de.val with
      | .list l =>
          let llen := toInt32 l.length
          let (ltrim, rtrim) :=
            match rangeBounds llen start endIdx with
            | none => (llen, 0)
            | some (start, endIdx) => (start, llen - endIdx - 1)
          let (l, s) ← delNodes de.val .CUTIS_HEAD ltrim.toNat l s
          let (_, s) ← delNodes de.val .CUTIS_TAIL rtrim.toNat l s
          return s.addReply s.shared.ok
      | .released => throw .useAfterFree
      | _ =>
          return s.addReplySds (sdsnew "-ERR LTRIM against key not holding a list value\r\n")

def lSetCommand (s : HeapSession) : Except Fault HeapSession := do
  let index := atoi (← s.arg 2)
  match dictFind sdsDictType (← s.db) (← s.arg 1) with
  | none => return s.addReplySds (sdsnew "-ERR no such key\r\n")
  | some de =>
      match s.heap.ptr de.val with
      | .list l =>
          match listIndex l index with
          | none => return s.addReplySds (sdsnew "-ERR index out of range\r\n")
          | some i =>
              let s := s.decrRefCount (l.getD i 0)
              let (el, s) := s.createCutisObject (.string (some (← s.arg 3)))
              return (s.setPtr de.val (.list (l.set i el))).addReply s.shared.ok
      | .released => throw .useAfterFree
      | _ =>
          return s.addReplySds (sdsnew "-ERR LSET against key not holding a list value\r\n")

end Lists

section Sets

-- The object of the set SADD works on.
def sAddSet (s : HeapSession) (key : Bytes) : Except Fault (HeapSession × Option ObjectId) := do
  match dictFind sdsDictType (← s.db) key with
  | none =>
      let (set, s) := s.createCutisObject (.set dictCreate)
      let (db, _) ← dictAdd sdsDictType (← s.db) key set
      return (s.setDB db, some set)
  | some de =>
      match s.heap.ptr de.val with
      | .set _ => return (s, some de.val)
      | .released => throw .useAfterFree
      | _ => return (s, none)

-- DictAdd of a new object to the set in an object.
def sAddElement (s : HeapSession) (set : ObjectId) (str : Bytes) : Except Fault HeapSession :=
  let (el, s) := s.createCutisObject (.string (some str))
  match s.heap.ptr set with
  | .set d => do
      let (d, status) ← dictAdd s.heap.SetDictType d el ()
      let s := s.setPtr set (.set d)
      return if status = .DICT_OK then s else s.decrRefCount el
  | _ => throw .useAfterFree

def sAddCommand (s : HeapSession) : Except Fault HeapSession := do
  let key ← s.arg 1
  match ← sAddSet s key with
  | (s, none) =>
      return s.addReplySds (sdsnew "-ERR SADD against key not holding a set value\r\n")
  | (s, some set) =>
      let s ← sAddElement s set (← s.arg 2)
      return s.addReply s.shared.ok

def sRemCommand (s : HeapSession) : Except Fault HeapSession := do
  match dictFind sdsDictType (← s.db) (← s.arg 1) with
  | none => return s.addReplySds (sdsnew "-ERR no such key\r\n")
  | some de =>
      match s.heap.ptr de.val with
      | .set d =>
          let (el, s) := s.createCutisObject (.string (some (← s.arg 2)))
          let (d, member) := dictDelete s.heap.SetDictType d el
          let s := s.setPtr de.val (.set d)
          let s :=
            match member with
            | none => s
            | some member => s.decrRefCount member.key
          let s := s.setPtr el (.string none)
          return (s.decrRefCount el).addReply s.shared.ok
      | .released => throw .useAfterFree
      | _ =>
          return s.addReplySds (sdsnew "-ERR SREM against key not holding a set value\r\n")

def sIsMemberCommand (s : HeapSession) : Except Fault HeapSession := do
  match dictFind sdsDictType (← s.db) (← s.arg 1) with
  | none => return s.addReplySds (sdsnew "-1\r\n")
  | some de =>
      match s.heap.ptr de.val with
      | .set d =>
          let (el, s) := s.createCutisObject (.string (some (← s.arg 2)))
          let s :=
            match dictFind s.heap.SetDictType d el with
            | some _ => s.addReply s.shared.one
            | none => s.addReply s.shared.zero
          let s := s.setPtr el (.string none)
          return s.decrRefCount el
      | .released => throw .useAfterFree
      | _ => return s.addReplySds (sdsnew "-1\r\n")

def sCardCommand (s : HeapSession) : Except Fault HeapSession := do
  match dictFind sdsDictType (← s.db) (← s.arg 1) with
  | none => return s.addReply s.shared.zero
  | some de =>
      match s.heap.ptr de.val with
      | .set d => return s.addReplySds (intLine d.used)
      | .released => throw .useAfterFree
      | _ => return s.addReplySds (sdsnew "-1\r\n")

-- The sets the keys name, in the order of the keys; none where a key is missing.
-- After the reply to a key of another type dv is freed, and then written to.
def sInterSets (s : HeapSession) (db : HeapDict) :
    List Bytes → Except Fault (Option (List (Dict ObjectId Unit)))
  | [] => return some []
  | key :: keys =>
      match dictFind sdsDictType db key with
      | none => return none
      | some de =>
          match s.heap.ptr de.val with
          | .set d => do
              let dv ← sInterSets s db keys
              return dv.map (d :: ·)
          | _ => throw .useAfterFree

-- The loop over the members of the smallest set, with the count so far.
def sInterLoop (dv : List (Dict ObjectId Unit)) :
    List (DictEntry ObjectId Unit) → HeapSession → Nat → HeapSession × Nat
  | [], s, cardinality => (s, cardinality)
  | de :: rest, s, cardinality =>
      if dv.all fun d => (dictFind s.heap.SetDictType d de.key).isSome then
        sInterLoop dv rest (s.addBulk de.key) (cardinality + 1)
      else sInterLoop dv rest s cardinality

def sInterReply (os : Answers) (s : HeapSession) (dv : List (Dict ObjectId Unit)) :
    Except Fault HeapSession :=
  match os.qsort dv with
  | [] => throw .outOfBounds
  | smallest :: others =>
      -- The pointer of lenobj is null until the count is known.
      let (lenobj, s) := s.createCutisObject (.string none)
      let s := (s.addReply lenobj).decrRefCount lenobj
      let (s, cardinality) := sInterLoop others (dictIterate smallest) s 0
      return s.setPtr lenobj (.string (some (intLine cardinality)))

def sInterCommand (os : Answers) (s : HeapSession) : Except Fault HeapSession := do
  match ← sInterSets s (← s.db) s.argv.tail with
  | none => return s.addReplySds (bulkError "No such key")
  | some dv => sInterReply os s dv

end Sets

section Keys

def typeCommand (s : HeapSession) : Except Fault HeapSession := do
  match dictFind sdsDictType (← s.db) (← s.arg 1) with
  | none => return (s.addReplySds (sdsnew "none")).addReply s.shared.crlf
  | some de =>
      match s.heap.ptr de.val with
      | .string _ => return (s.addReplySds (sdsnew "string")).addReply s.shared.crlf
      | .list _ => return (s.addReplySds (sdsnew "list")).addReply s.shared.crlf
      | .set _ => return (s.addReplySds (sdsnew "set")).addReply s.shared.crlf
      | .released => throw .useAfterFree

-- The number of the database SelectDB switches to.
def selectDB (s : HeapSession) (id : Int) : Option Nat :=
  if id < 0 ∨ id ≥ s.dict.length then none else some id.toNat

def selectCommand (s : HeapSession) : Except Fault HeapSession := do
  match selectDB s (atoi (← s.arg 1)) with
  | none => return s.addReplySds (sdsnew "-ERR invalid DB index\r\n")
  | some dict => return { s with client := { s.client with dict } }.addReply s.shared.ok

def moveCommand (s : HeapSession) : Except Fault HeapSession := do
  let src := s.client.dict
  match selectDB s (atoi (← s.arg 2)) with
  | none => return s.addReplySds (sdsnew "-ERR target DB out of range\r\n")
  | some dst =>
      if src = dst then
        return s.addReplySds (sdsnew "-ERR source DB is the same as target DB\r\n")
      else
        let key ← s.arg 1
        match dictFind sdsDictType (← s.db) key with
        | none => return s.addReplySds (sdsnew "-ERR no such key\r\n")
        | some de =>
            let (dict, ret) ← dictAdd sdsDictType (← s.database dst) de.key de.val
            let s := s.setDatabase dst dict
            if ret = .DICT_ERR then
              return s.addReplySds (sdsnew "-ERR target DB already contains the moved key\r\n")
            else
              let (db, _) := dictDeleteNoFree sdsDictType (← s.db) key
              return (s.setDB db).addReply s.shared.ok

def renameGenericCommand (s : HeapSession) (nx : Bool) : Except Fault HeapSession := do
  let src ← s.arg 1
  let dst ← s.arg 2
  if sdscmp src dst = 0 then
    return s.addReplySds (sdsnew "-ERR src and dest key are the same\r\n")
  else
    match dictFind sdsDictType (← s.db) src with
    | none => return s.addReplySds (sdsnew "-ERR no such key\r\n")
    | some de =>
        let o := de.val
        let s := s.incrRefCount o
        let (db, ret) ← dictAdd sdsDictType (← s.db) dst o
        let s := s.setDB db
        if ret = .DICT_ERR then
          if nx then
            return (s.decrRefCount o).addReplySds (sdsnew "-ERR destination key exists\r\n")
          else
            let s ← dictReplaceValue s dst o
            let s ← dictDeleteValue s src
            return s.addReply s.shared.ok
        else
          let s ← dictDeleteValue s src
          return s.addReply s.shared.ok

def renameCommand (s : HeapSession) : Except Fault HeapSession := renameGenericCommand s false

def renamenxCommand (s : HeapSession) : Except Fault HeapSession := renameGenericCommand s true

def keysLoop (pattern : Bytes) : List (DictEntry Bytes ObjectId) → Bytes → Except Fault Bytes
  | [], keys => return keys
  | de :: rest, keys => do
      if ← keysMatch pattern de.key then keysLoop pattern rest (keys ++ de.key ++ [SPACE])
      else keysLoop pattern rest keys

def keysCommand (s : HeapSession) : Except Fault HeapSession := do
  let pattern ← s.arg 1
  let keys ← keysLoop pattern (dictIterate (← s.db)) []
  let keys := sdstrim keys [SPACE]
  return s.addReplySds
    (Decimal.print keys.length ++ sdsnew "\r\n" ++ keys ++ sdsnew "\r\n")

def dbsizeCommand (s : HeapSession) : Except Fault HeapSession := do
  return s.addReplySds (Decimal.print (← s.db).used ++ sdsnew "\r\n")

end Keys

section Control

-- SaveDB reads the objects only.
def saveCommand (os : Answers) (s : HeapSession) : Except Fault HeapSession :=
  match os.saved with
  | .CUTIS_OK => return s.addReply s.shared.ok
  | .CUTIS_ERR => return s.addReply s.shared.err

def bgsaveCommand (os : Answers) (s : HeapSession) : Except Fault HeapSession :=
  if os.bg_saving then
    return s.addReplySds (sdsnew "-ERR background save already in process\r\n")
  else saveCommand os s

def shutDownCommand (os : Answers) (s : HeapSession) : Except Fault HeapSession :=
  match os.saved with
  | .CUTIS_OK => return s
  | .CUTIS_ERR => return s.addReplySds (sdsnew "-ERR can't quit, problems saving the DB\r\n")

def pingCommand (s : HeapSession) : Except Fault HeapSession := return s.addReply s.shared.pong

def echoCommand (s : HeapSession) : Except Fault HeapSession := do
  let str ← s.arg 1
  return ((s.addReplySds (intLine str.length)).addReplySds str).addReply s.shared.crlf

-- The %lu conversion of a time_t.
def lastSaveCommand (os : Answers) (s : HeapSession) : Except Fault HeapSession :=
  return s.addReplySds (Decimal.print (os.last_save % 2 ^ 64).toNat ++ sdsnew "\r\n")

end Control

def call (os : Answers) (s : HeapSession) : CommandProc → Except Fault HeapSession
  | .GetCommand => getCommand s
  | .SetCommand => setCommand s
  | .SetnxCommand => setnxCommand s
  | .ExistsCommand => existsCommand s
  | .DelCommand => delCommand s
  | .IncrCommand => incrCommand s
  | .DecrCommand => decrCommand s
  | .RPushCommand => rPushCommand s
  | .LPushCommand => lPushCommand s
  | .RPopCommand => rPopCommand s
  | .LPopCommand => lPopCommand s
  | .LLenCommand => lLenCommand s
  | .LIndexCommand => lIndexCommand s
  | .LRangeCommand => lRangeCommand s
  | .LTrimCommand => lTrimCommand s
  | .LSetCommand => lSetCommand s
  | .SAddCommand => sAddCommand s
  | .SRemCommand => sRemCommand s
  | .SIsMemberCommand => sIsMemberCommand s
  | .SCardCommand => sCardCommand s
  | .SInterCommand => sInterCommand os s
  | .SelectCommand => selectCommand s
  | .MoveCommand => moveCommand s
  | .RenameCommand => renameCommand s
  | .RenamenxCommand => renamenxCommand s
  | .RandomKeyCommand => randomKeyCommand os s
  | .KeysCommand => keysCommand s
  | .DbsizeCommand => dbsizeCommand s
  | .SaveCommand => saveCommand os s
  | .BgsaveCommand => bgsaveCommand os s
  | .ShutDownCommand => shutDownCommand os s
  | .PingCommand => pingCommand s
  | .EchoCommand => echoCommand s
  | .LastSaveCommand => lastSaveCommand os s
  | .TypeCommand => typeCommand s

end Cutis.Heap

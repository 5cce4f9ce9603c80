import Cutis.Command.Table
import Cutis.Session
import Cutis.StringMatch

namespace Cutis

inductive ListEnd
  | CUTIS_HEAD
  | CUTIS_TAIL
deriving DecidableEq, Repr

section Strings

-- What follows a DictAdd: an existing key gets the value now, unless nx is set.
def replaceExisting (db : Database) (ret : DictStatus) (nx : Bool) (key : Bytes) (o : CutisObject) :
    Except Fault Database :=
  if ret = .DICT_ERR ∧ nx = false then Prod.fst <$> dictReplace sdsDictType db key o
  else return db

def setGenericCommand (s : Session) (nx : Bool) : Except Fault Session := do
  let key ← s.arg 1
  let o := CutisObject.string (← s.arg 2)
  let (db, ret) ← dictAdd sdsDictType (← s.db) key o
  let db ← replaceExisting db ret nx key o
  return (s.setDB db).dirtied.addReply shared.ok

def getCommand (s : Session) : Except Fault Session := do
  match dictFind sdsDictType (← s.db) (← s.arg 1) with
  | none => return s.addReply shared.nil
  | some de =>
      match de.val with
      | .string o => return addBulk s o
      | _ => return s.addReplySds (bulkError "GET against key not holding a string value")

def setCommand (s : Session) : Except Fault Session := setGenericCommand s false

def setnxCommand (s : Session) : Except Fault Session := setGenericCommand s true

def existsCommand (s : Session) : Except Fault Session := do
  match dictFind sdsDictType (← s.db) (← s.arg 1) with
  | none => return s.addReply shared.zero
  | some _ => return s.addReply shared.one

def delCommand (s : Session) : Except Fault Session := do
  let (db, de) := dictDelete sdsDictType (← s.db) (← s.arg 1)
  let s := s.setDB db
  return (if de.isSome then s.dirtied else s).addReply shared.ok

-- The number a string stands for; other values count as 0.
def incrValue (de : Option (DictEntry Bytes CutisObject)) : Int :=
  match de with
  | none => 0
  | some de =>
      match de.val with
      | .string o => strtoll (cstr o)
      | _ => 0

def incrDecrCommand (s : Session) (incr : Int) : Except Fault Session := do
  let key ← s.arg 1
  let db ← s.db
  let value := toInt64 (incrValue (dictFind sdsDictType db key) + incr)
  let newval := printInt value
  let (db, retval) ← dictAdd sdsDictType db key (.string newval)
  let db ← replaceExisting db retval false key (.string newval)
  return ((s.setDB db).dirtied.addReply newval).addReply shared.crlf

def incrCommand (s : Session) : Except Fault Session := incrDecrCommand s 1

def decrCommand (s : Session) : Except Fault Session := incrDecrCommand s (-1)

def randomKeyCommand (os : Os) (s : Session) : Except Fault Session := do
  match ← dictGetRandomKey (← s.db) os.random with
  | (none, _) => return s.addReply shared.crlf
  | (some de, _) => return (s.addReplySds de.key).addReply shared.crlf

end Strings

section Lists

-- Of a list object only its nodes are kept: the value of each one is a string.
def listAddNode (l : List Bytes) (el : Bytes) : ListEnd → List Bytes
  | .CUTIS_HEAD => el :: l
  | .CUTIS_TAIL => l ++ [el]

-- The node at a position, counted from the tail where it is negative.
def listIndex (l : List Bytes) (index : Int) : Option Bytes :=
  if index < 0 then l.reverse[(-index - 1).toNat]? else l[index.toNat]?

def pushGenericCommand (s : Session) (whereEnd : ListEnd) : Except Fault Session := do
  let el ← s.arg 2
  let db ← s.db
  let key ← s.arg 1
  match dictFind sdsDictType db key with
  | none =>
      let (db, _) ← dictAdd sdsDictType db key (.list (listAddNode [] el whereEnd))
      return (s.setDB db).dirtied.addReply shared.ok
  | some de =>
      match de.val with
      | .list l =>
          let db := dictSetHashVal sdsDictType db key (.list (listAddNode l el whereEnd))
          return (s.setDB db).dirtied.addReply shared.ok
      | _ =>
          return s.addReplySds (sdsnew "-ERR push against existing key not holding a list \r\n")

def rPushCommand (s : Session) : Except Fault Session := pushGenericCommand s .CUTIS_TAIL

def lPushCommand (s : Session) : Except Fault Session := pushGenericCommand s .CUTIS_HEAD

-- The first or last element and the list without its node.
def listPop (l : List Bytes) : ListEnd → Option (Bytes × List Bytes)
  | .CUTIS_HEAD => l.head?.map fun el => (el, l.tail)
  | .CUTIS_TAIL => l.getLast?.map fun el => (el, l.dropLast)

def popGenericCommand (s : Session) (whereEnd : ListEnd) : Except Fault Session := do
  let db ← s.db
  let key ← s.arg 1
  match dictFind sdsDictType db key with
  | none => return s.addReply shared.nil
  | some de =>
      match de.val with
      | .list l =>
          match listPop l whereEnd with
          | none => return s.addReply shared.nil
          | some (el, l) =>
              return ((addBulk s el).setDB (dictSetHashVal sdsDictType db key (.list l))).dirtied
      | _ => return s.addReplySds (bulkError "POP against key not holding a list value")

def rPopCommand (s : Session) : Except Fault Session := popGenericCommand s .CUTIS_TAIL

def lPopCommand (s : Session) : Except Fault Session := popGenericCommand s .CUTIS_HEAD

def lLenCommand (s : Session) : Except Fault Session := do
  match dictFind sdsDictType (← s.db) (← s.arg 1) with
  | none => return s.addReply shared.zero
  | some de =>
      match de.val with
      | .list l => return s.addReplySds (intLine l.length)
      | _ => return s.addReplySds (sdsnew "-1\r\n")

def lIndexCommand (s : Session) : Except Fault Session := do
  let de := dictFind sdsDictType (← s.db) (← s.arg 1)
  let index := atoi (← s.arg 2)
  match de with
  | none => return s.addReply shared.nil
  | some de =>
      match de.val with
      | .list l =>
          match listIndex l index with
          | none => return s.addReply shared.nil
          | some el => return addBulk s el
      | _ => return s.addReplySds (bulkError "LINDEX against key not holding a list value")

-- The conversion of the indexes of LRANGE and LTRIM and their sanity checks: the
-- positions of the range, or none where it is empty.
def rangeBounds (llen start endIdx : Int) : Option (Int × Int) :=
  let start := if start < 0 then toInt32 (llen + start) else start
  let endIdx := if endIdx < 0 then toInt32 (llen + endIdx) else endIdx
  let start := if start < 0 then 0 else start
  let endIdx := if endIdx < 0 then 0 else endIdx
  if start > endIdx ∨ start ≥ llen then none
  else some (start, if endIdx ≥ llen then llen - 1 else endIdx)

-- Reply the given number of elements from a node on.
def addRange : Nat → List Bytes → Session → Except Fault Session
  | 0, _, s => return s
  | _ + 1, [], _ => throw .segv
  | j + 1, el :: next, s => addRange j next (addBulk s el)

def lRangeCommand (s : Session) : Except Fault Session := do
  let de := dictFind sdsDictType (← s.db) (← s.arg 1)
  let start := atoi (← s.arg 2)
  let endIdx := atoi (← s.arg 3)
  match de with
  | none => return s.addReply shared.nil
  | some de =>
      match de.val with
      | .list l =>
          match rangeBounds (toInt32 l.length) start endIdx with
          | none => return s.addReply shared.zero
          | some (start, endIdx) =>
              let range_len := endIdx - start + 1
              let ln := l.drop start.toNat
              addRange range_len.toNat ln (s.addReplySds (intLine range_len))
      | _ => return s.addReplySds (bulkError "LRANGE against key not holding a list value")

-- Delete nodes at one end; a null node is dereferenced.
def delNodes (whereEnd : ListEnd) : Nat → List Bytes → Except Fault (List Bytes)
  | 0, l => return l
  | j + 1, l =>
      match listPop l whereEnd with
      | none => throw .segv
      | some (_, l) => delNodes whereEnd j l

-- The part of LTRIM between its bounds tests and the reply.
def trimNodes (l : List Bytes) (start endIdx : Int) : Except Fault (List Bytes) := do
  let llen := toInt32 l.length
  let (ltrim, rtrim) :=
    match rangeBounds llen start endIdx with
    | none => (llen, 0)
    | some (start, endIdx) => (start, llen - endIdx - 1)
  let l ← delNodes .CUTIS_HEAD ltrim.toNat l
  delNodes .CUTIS_TAIL rtrim.toNat l

def lTrimCommand (s : Session) : Except Fault Session := do
  let db ← s.db
  let key ← s.arg 1
  let start := atoi (← s.arg 2)
  let endIdx := atoi (← s.arg 3)
  match dictFind sdsDictType db key with
  | none => return s.addReplySds (sdsnew "-ERR no such key\r\n")
  | some de =>
      match de.val with
      | .list l =>
          let l ← trimNodes l start endIdx
          return ((s.setDB (dictSetHashVal sdsDictType db key (.list l))).addReply shared.ok).dirtied
      | _ =>
          return s.addReplySds (sdsnew "-ERR LTRIM against key not holding a list value\r\n")

-- Assign to the value of the node listIndex finds.
def listSetIndex (l : List Bytes) (index : Int) (el : Bytes) : List Bytes :=
  if index < 0 then (l.reverse.set (-index - 1).toNat el).reverse else l.set index.toNat el

def lSetCommand (s : Session) : Except Fault Session := do
  let index := atoi (← s.arg 2)
  let db ← s.db
  let key ← s.arg 1
  match dictFind sdsDictType db key with
  | none => return s.addReplySds (sdsnew "-ERR no such key\r\n")
  | some de =>
      match de.val with
      | .list l =>
          match listIndex l index with
          | none => return s.addReplySds (sdsnew "-ERR index out of range\r\n")
          | some _ =>
              let l := listSetIndex l index (← s.arg 3)
              let db := dictSetHashVal sdsDictType db key (.list l)
              return ((s.setDB db).addReply shared.ok).dirtied
      | _ =>
          return s.addReplySds (sdsnew "-ERR LSET against key not holding a list value\r\n")

end Lists

section Sets

-- The set SADD works on, in the database that holds it.
def sAddSet (db : Database) (key : Bytes) : Except Fault (Database × Option (Dict Bytes Unit)) :=
  match dictFind sdsDictType db key with
  | none => do
      let (db, _) ← dictAdd sdsDictType db key createSetObject
      return (db, some dictCreate)
  | some de =>
      match de.val with
      | .set set => return (db, some set)
      | _ => return (db, none)

def sAddCommand (s : Session) : Except Fault Session := do
  let key ← s.arg 1
  match ← sAddSet (← s.db) key with
  | (_, none) =>
      return s.addReplySds (sdsnew "-ERR SADD against key not holding a set value\r\n")
  | (db, some set) =>
      let (set, status) ← dictAdd SetDictType set (← s.arg 2) ()
      let s := s.setDB (dictSetHashVal sdsDictType db key (.set set))
      return (if status = .DICT_OK then s.dirtied else s).addReply shared.ok

def sRemCommand (s : Session) : Except Fault Session := do
  let db ← s.db
  let key ← s.arg 1
  match dictFind sdsDictType db key with
  | none => return s.addReplySds (sdsnew "-ERR no such key\r\n")
  | some de =>
      match de.val with
      | .set set =>
          let (set, el) := dictDelete SetDictType set (← s.arg 2)
          let s := s.setDB (dictSetHashVal sdsDictType db key (.set set))
          return (if el.isSome then s.dirtied else s).addReply shared.ok
      | _ =>
          return s.addReplySds (sdsnew "-ERR SREM against key not holding a set value\r\n")

def sIsMemberCommand (s : Session) : Except Fault Session := do
  match dictFind sdsDictType (← s.db) (← s.arg 1) with
  | none => return s.addReplySds (sdsnew "-1\r\n")
  | some de =>
      match de.val with
      | .set set =>
          match dictFind SetDictType set (← s.arg 2) with
          | some _ => return s.addReply shared.one
          | none => return s.addReply shared.zero
      | _ => return s.addReplySds (sdsnew "-1\r\n")

def sCardCommand (s : Session) : Except Fault Session := do
  match dictFind sdsDictType (← s.db) (← s.arg 1) with
  | none => return s.addReply shared.zero
  | some de =>
      match de.val with
      | .set set => return s.addReplySds (intLine set.used)
      | _ => return s.addReplySds (sdsnew "-1\r\n")

-- The sets the keys name, in the order of the keys. A missing key ends the
-- command; its result is none. After the reply to a key of another type dv is
-- freed, and the assignment to dv[j] that follows writes to it.
def sInterSets (db : Database) : List Bytes → Except Fault (Option (List (Dict Bytes Unit)))
  | [] => return some []
  | key :: keys =>
      match dictFind sdsDictType db key with
      | none => return none
      | some de =>
          match de.val with
          | .set set => do
              let dv ← sInterSets db keys
              return dv.map (set :: ·)
          | _ => throw .useAfterFree

-- The loop over the members of the smallest set, with the count so far.
def sInterLoop (dv : List (Dict Bytes Unit)) :
    List (DictEntry Bytes Unit) → Session → Nat → Session × Nat
  | [], s, cardinality => (s, cardinality)
  | de :: rest, s, cardinality =>
      if dv.all fun set => (dictFind SetDictType set de.key).isSome then
        sInterLoop dv rest (addBulk s de.key) (cardinality + 1)
      else sInterLoop dv rest s cardinality

-- The string of lenobj, at position j of the queue, once it is known.
def setReply (s : Session) (j : Nat) (ptr : Bytes) : Session :=
  { s with client := { s.client with reply := s.client.reply.set j ptr } }

-- The elements of the reply, behind a count that is put in place at the end.
def sInterElements (s : Session) (smallest : Dict Bytes Unit) (others : List (Dict Bytes Unit)) :
    Session :=
  -- The pointer of lenobj is null until the count is known.
  let lenobj := s.client.reply.length
  let loop := sInterLoop others (dictIterate smallest) (s.addReply []) 0
  setReply loop.1 lenobj (intLine loop.2)

def sInterReply (os : Os) (s : Session) (dv : List (Dict Bytes Unit)) : Except Fault Session :=
  match os.qsort dv with
  | [] => throw .outOfBounds
  | smallest :: others => return sInterElements s smallest others

def sInterCommand (os : Os) (s : Session) : Except Fault Session := do
  match ← sInterSets (← s.db) s.client.argv.tail with
  | none => return s.addReplySds (bulkError "No such key")
  | some dv => sInterReply os s dv

end Sets

section Keys

def typeCommand (s : Session) : Except Fault Session := do
  let type :=
    match dictFind sdsDictType (← s.db) (← s.arg 1) with
    | none => sdsnew "none"
    | some de =>
        match de.val with
        | .string _ => sdsnew "string"
        | .list _ => sdsnew "list"
        | .set _ => sdsnew "set"
  return (s.addReplySds type).addReply shared.crlf

def selectCommand (s : Session) : Except Fault Session := do
  match selectDB s (atoi (← s.arg 1)) with
  | none => return s.addReplySds (sdsnew "-ERR invalid DB index\r\n")
  | some s => return s.addReply shared.ok

def moveCommand (s : Session) : Except Fault Session := do
  let src := s.client.dict
  match selectDB s (atoi (← s.arg 2)) with
  | none => return s.addReplySds (sdsnew "-ERR target DB out of range\r\n")
  | some target =>
      -- c->dict is set back to src, which leaves s.
      let dst := target.client.dict
      if src = dst then
        return s.addReplySds (sdsnew "-ERR source DB is the same as target DB\r\n")
      else
        let key ← s.arg 1
        match dictFind sdsDictType (← s.db) key with
        | none => return s.addReplySds (sdsnew "-ERR no such key\r\n")
        | some de =>
            let (dict, ret) ← dictAdd sdsDictType (← s.dict dst) de.key de.val
            let s := s.setDict dst dict
            if ret = .DICT_ERR then
              return s.addReplySds (sdsnew "-ERR target DB already contains the moved key\r\n")
            else
              let (dict, _) := dictDeleteNoFree sdsDictType (← s.db) key
              return (s.setDB dict).dirtied.addReply shared.ok

def renameGenericCommand (s : Session) (nx : Bool) : Except Fault Session := do
  let src ← s.arg 1
  let dst ← s.arg 2
  if sdscmp src dst = 0 then
    return s.addReplySds (sdsnew "-ERR src and dest key are the same\r\n")
  else
    let db ← s.db
    match dictFind sdsDictType db src with
    | none => return s.addReplySds (sdsnew "-ERR no such key\r\n")
    | some de =>
        let o := de.val
        let (db, ret) ← dictAdd sdsDictType db dst o
        if ret = .DICT_ERR ∧ nx then
          return (s.setDB db).addReplySds (sdsnew "-ERR destination key exists\r\n")
        else
          let db ← replaceExisting db ret nx dst o
          let (db, _) := dictDelete sdsDictType db src
          return (s.setDB db).dirtied.addReply shared.ok

def renameCommand (s : Session) : Except Fault Session := renameGenericCommand s false

def renamenxCommand (s : Session) : Except Fault Session := renameGenericCommand s true

-- The test of one key; *pattern is compared with the string "*" first.
def keysMatch (pattern key : Bytes) : Except Fault Bool :=
  if cstr pattern = sdsnew "*" then return true else stringMatch pattern key false

def keysLoop (pattern : Bytes) :
    List (DictEntry Bytes CutisObject) → Bytes → Except Fault Bytes
  | [], keys => return keys
  | de :: rest, keys => do
      if ← keysMatch pattern de.key then keysLoop pattern rest (keys ++ de.key ++ [SPACE])
      else keysLoop pattern rest keys

def keysCommand (s : Session) : Except Fault Session := do
  let pattern ← s.arg 1
  let keys ← keysLoop pattern (dictIterate (← s.db)) []
  let keys := sdstrim keys [SPACE]
  return s.addReplySds (Decimal.print keys.length ++ shared.crlf ++ keys ++ shared.crlf)

def dbsizeCommand (s : Session) : Except Fault Session := do
  return s.addReplySds (Decimal.print (← s.db).used ++ shared.crlf)

end Keys

section Control

def saveCommand (os : Os) (s : Session) : Except Fault Session :=
  match saveDB os.stdio s.fs s.server CUTIS_DB_NAME with
  | (server, fs, .CUTIS_OK) => return { s with server, fs }.addReply shared.ok
  | (server, fs, .CUTIS_ERR) => return { s with server, fs }.addReply shared.err

-- The parent takes its branch for a failed fork too.
def saveDBBackground (os : Os) (s : Session) : Session × CutisStatus :=
  if s.server.bg_saving then (s, .CUTIS_ERR)
  else
    let image : Child := { server := s.server, tmpfile := none, saved := none, ended := none }
    let child := if os.fork then some image else s.child
    ({ s with server := { s.server with bg_saving := true }, child }, .CUTIS_OK)

def bgsaveCommand (os : Os) (s : Session) : Except Fault Session :=
  if s.server.bg_saving then
    return s.addReplySds (sdsnew "-ERR background save already in process\r\n")
  else
    match saveDBBackground os s with
    | (s, .CUTIS_OK) => return s.addReply shared.ok
    | (s, .CUTIS_ERR) => return s.addReply shared.err

def shutDownCommand (os : Os) (s : Session) : Except Fault Session :=
  match saveDB os.stdio s.fs s.server CUTIS_DB_NAME with
  | (server, fs, .CUTIS_OK) => return { s with server, fs, stop := true }
  | (server, fs, .CUTIS_ERR) =>
      return { s with server, fs }.addReplySds (sdsnew "-ERR can't quit, problems saving the DB\r\n")

def pingCommand (s : Session) : Except Fault Session := return s.addReply shared.pong

def echoCommand (s : Session) : Except Fault Session := do
  return addBulk s (← s.arg 1)

-- The %lu conversion of a time_t.
def lastSaveCommand (s : Session) : Except Fault Session :=
  return s.addReplySds (Decimal.print (s.server.last_save % 2 ^ 64).toNat ++ shared.crlf)

end Control

def CommandProc.call (os : Os) (s : Session) : CommandProc → Except Fault Session
  | .GetCommand => getCommand s
  | .SetCommand => setCommand s
  | .SetnxCommand => setnxCommand s
  | .ExistsCommand => existsCommand s
  | .DelCommand => delCommand s
  | .IncrCommand => incrCommand s
  | .DecrCommand => decrCommand s
  | .RPushCommand => rPushCommand s
  | .LPushCommand => lPushCommand s
  | .RPopCommand => rPopCommand s
  | .LPopCommand => lPopCommand s
  | .LLenCommand => lLenCommand s
  | .LIndexCommand => lIndexCommand s
  | .LRangeCommand => lRangeCommand s
  | .LTrimCommand => lTrimCommand s
  | .LSetCommand => lSetCommand s
  | .SAddCommand => sAddCommand s
  | .SRemCommand => sRemCommand s
  | .SIsMemberCommand => sIsMemberCommand s
  | .SCardCommand => sCardCommand s
  | .SInterCommand => sInterCommand os s
  | .SelectCommand => selectCommand s
  | .MoveCommand => moveCommand s
  | .RenameCommand => renameCommand s
  | .RenamenxCommand => renamenxCommand s
  | .RandomKeyCommand => randomKeyCommand os s
  | .KeysCommand => keysCommand s
  | .DbsizeCommand => dbsizeCommand s
  | .SaveCommand => saveCommand os s
  | .BgsaveCommand => bgsaveCommand os s
  | .ShutDownCommand => shutDownCommand os s
  | .PingCommand => pingCommand s
  | .EchoCommand => echoCommand s
  | .LastSaveCommand => lastSaveCommand s
  | .TypeCommand => typeCommand s

end Cutis

import Cutis.Number
import Cutis.Object

namespace Cutis

def CUTIS_LOAD_BUF_LEN : Nat := 1024
def CUTIS_HT_MINFILL : Nat := 10
def CUTIS_HT_MINSLOTS : Nat := 16384
def CUTIS_DB_SIGNATURE : Bytes := sdsnew "CUTIS0000"
def CUTIS_SELECT_DB : UInt8 := 254
def CUTIS_EOF : UInt8 := 255
def CUTIS_DB_NAME : Bytes := sdsnew "dump.cdb"

inductive CutisStatus
  | CUTIS_OK
  | CUTIS_ERR
deriving DecidableEq, Repr

structure SaveParam where
  seconds : Int
  changes : Int
deriving DecidableEq, Repr

structure CutisServer where
  dict : List Database
  dirty : Nat
  last_save : Int
  bg_saving : Bool
  cron_loops : Int
  save_params : List SaveParam

def CutisServer.db_num (server : CutisServer) : Nat := server.dict.length

def initServer (db_num : Nat) (save_params : List SaveParam) (time : Int) : CutisServer where
  dict := List.replicate db_num dictCreate
  dirty := 0
  last_save := time
  bg_saving := false
  cron_loops := 0
  save_params

-- The files by name.
abbrev FileSystem := Bytes → Option Bytes

def FileSystem.set (fs : FileSystem) (name : Bytes) (content : Option Bytes) : FileSystem :=
  Function.update fs name content

-- What the system answers to the calls of one SaveDB: the number of bytes each
-- fwrite stores, in call order, out of those it is asked to, and the number of
-- stored bytes that a failing fclose leaves out of the file.
structure Stdio where
  time : Int
  random : Nat
  fopen : Bool
  fwrite : Nat → Nat
  fclose : Nat
  rename : Bool
  time_saved : Int

-- snprintf with CUTIS_TMP_FILENAME, which always fits.
def Stdio.tmpfile (io : Stdio) : Bytes :=
  sdsnew "dump-" ++ printInt (toInt32 io.time) ++ sdsnew "." ++ Decimal.print io.random ++
    sdsnew ".cdb"

-- The temporary file while it is written.
structure SaveFile where
  content : Bytes
  calls : Nat

-- The result is the number of whole items stored.
def fwrite (io : Stdio) (ptr : Bytes) (size nmemb : Nat) (fp : SaveFile) : SaveFile × Nat :=
  let stored := min (io.fwrite fp.calls) (size * nmemb)
  ({ content := fp.content ++ ptr.take stored, calls := fp.calls + 1 }, stored / size)

-- A write and its test; none stands for CutisSaveDBRelease.
def saveWrite (io : Stdio) (ptr : Bytes) (size nmemb : Nat) (fp : SaveFile) : Option SaveFile :=
  let (fp, items) := fwrite io ptr size nmemb fp
  if items = 0 then none else some fp

-- htonl of a value converted to uint32_t.
def htonl (n : Nat) : Bytes :=
  [(n / 2 ^ 24).toUInt8, (n / 2 ^ 16).toUInt8, (n / 2 ^ 8).toUInt8, n.toUInt8]

def saveType (io : Stdio) (type : UInt8) (fp : SaveFile) : Option SaveFile :=
  saveWrite io [type] 1 1 fp

def saveLen (io : Stdio) (len : Nat) (fp : SaveFile) : Option SaveFile :=
  saveWrite io (htonl len) 4 1 fp

-- A length and that many bytes, if there are any.
def saveString (io : Stdio) (s : Bytes) (fp : SaveFile) : Option SaveFile := do
  let fp ← saveLen io s.length fp
  if s.length > 0 then saveWrite io s 1 s.length fp else return fp

def saveStrings (io : Stdio) : List Bytes → SaveFile → Option SaveFile
  | [], fp => some fp
  | s :: rest, fp => do
      let fp ← saveString io s fp
      saveStrings io rest fp

def saveObject (io : Stdio) (o : CutisObject) (fp : SaveFile) : Option SaveFile :=
  match o with
  | .string val => saveString io val fp
  | .list l => do
      let fp ← saveLen io l.length fp
      saveStrings io l fp
  | .set set => do
      let fp ← saveLen io set.used fp
      saveStrings io ((dictIterate set).map DictEntry.key) fp

def saveEntry (io : Stdio) (de : DictEntry Bytes CutisObject) (fp : SaveFile) : Option SaveFile := do
  let fp ← saveType io de.val.type fp
  let fp ← saveLen io de.key.length fp
  let fp ← saveWrite io de.key 1 de.key.length fp
  saveObject io de.val fp

def saveEntries (io : Stdio) :
    List (DictEntry Bytes CutisObject) → SaveFile → Option SaveFile
  | [], fp => some fp
  | de :: rest, fp => do
      let fp ← saveEntry io de fp
      saveEntries io rest fp

-- The databases from number j on; an empty one leaves nothing in the file.
def saveDicts (io : Stdio) : Nat → List Database → SaveFile → Option SaveFile
  | _, [], fp => some fp
  | j, dict :: rest, fp =>
      if dict.used = 0 then saveDicts io (j + 1) rest fp
      else do
        let fp ← saveType io CUTIS_SELECT_DB fp
        let fp ← saveLen io j fp
        let fp ← saveEntries io (dictIterate dict) fp
        saveDicts io (j + 1) rest fp

def saveContent (io : Stdio) (dict : List Database) : Option SaveFile := do
  let fp ← saveWrite io CUTIS_DB_SIGNATURE 9 1 { content := [], calls := 0 }
  let fp ← saveDicts io 0 dict fp
  saveType io CUTIS_EOF fp

def saveDB (io : Stdio) (fs : FileSystem) (server : CutisServer) (filename : Bytes) :
    CutisServer × FileSystem × CutisStatus :=
  if !io.fopen then (server, fs, .CUTIS_ERR)
  else
    match saveContent io server.dict with
    | none => (server, fs.set io.tmpfile none, .CUTIS_ERR)
    | some fp =>
        -- The result of fclose is not looked at.
        let content := fp.content.take (fp.content.length - io.fclose)
        if !io.rename then (server, fs.set io.tmpfile none, .CUTIS_ERR)
        else
          ({ server with dirty := 0, last_save := io.time_saved },
            (fs.set io.tmpfile none).set filename (some content), .CUTIS_OK)

-- The unread part of the file and the two buffers on the stack.
structure LoadState where
  fp : Bytes
  buf : Bytes
  vbuf : Bytes

-- A failed read ends the process through CutisLoadDBRelease.
def loadType (s : LoadState) : Except Fault (UInt8 × LoadState) :=
  match s.fp with
  | [] => throw .exit
  | type :: fp => return (type, { s with fp })

def ntohl : Bytes → Nat
  | [b3, b2, b1, b0] => b3.toNat * 2 ^ 24 + b2.toNat * 2 ^ 16 + b1.toNat * 2 ^ 8 + b0.toNat
  | _ => 0

def loadLen (s : LoadState) : Except Fault (Nat × LoadState) :=
  if s.fp.length < 4 then throw .exit
  else return (ntohl (s.fp.take 4), { s with fp := s.fp.drop 4 })

-- Read n bytes into a stack buffer or, above its size, into a new block. Only a
-- read of no byte at all fails; after a shorter one the old bytes of the buffer
-- stay behind those read. The results are the n bytes, the stack buffer and the
-- rest of the file.
def loadBytes (malloc : Nat → Bytes) (n : Nat) (buf fp : Bytes) :
    Except Fault (Bytes × Bytes × Bytes) :=
  let got := fp.take n
  if got = [] then throw .exit
  else if n ≤ CUTIS_LOAD_BUF_LEN then
    let buf := got ++ buf.drop got.length
    return (buf.take n, buf, fp.drop n)
  else
    return ((got ++ (malloc n).drop got.length).take n, buf, fp.drop n)

def loadKey (malloc : Nat → Bytes) (s : LoadState) : Except Fault (Bytes × LoadState) := do
  let (klen, s) ← loadLen s
  let (key, buf, fp) ← loadBytes malloc klen s.buf s.fp
  return (key, { s with buf, fp })

def loadString (malloc : Nat → Bytes) (s : LoadState) : Except Fault (Bytes × LoadState) := do
  let (vlen, s) ← loadLen s
  if vlen > 0 then
    let (val, vbuf, fp) ← loadBytes malloc vlen s.vbuf s.fp
    return (val, { s with vbuf, fp })
  else
    return ([], s)

def loadListElements (malloc : Nat → Bytes) :
    Nat → List Bytes → LoadState → Except Fault (List Bytes × LoadState)
  | 0, l, s => return (l, s)
  | llen + 1, l, s => do
      let (el, s) ← loadString malloc s
      loadListElements malloc llen (l ++ [el]) s

def loadSetElements (malloc : Nat → Bytes) :
    Nat → Dict Bytes Unit → LoadState → Except Fault (Dict Bytes Unit × LoadState)
  | 0, set, s => return (set, s)
  | llen + 1, set, s => do
      let (el, s) ← loadString malloc s
      let (set, status) ← dictAdd SetDictType set el ()
      if status = .DICT_ERR then
        throw .abort
      loadSetElements malloc llen set s

def loadObject (malloc : Nat → Bytes) (type : UInt8) (s : LoadState) :
    Except Fault (CutisObject × LoadState) :=
  if type = CUTIS_STRING then do
    let (val, s) ← loadString malloc s
    return (.string val, s)
  else if type = CUTIS_LIST then do
    let (llen, s) ← loadLen s
    let (l, s) ← loadListElements malloc llen [] s
    return (.list l, s)
  else if type = CUTIS_SET then do
    let (llen, s) ← loadLen s
    let (set, s) ← loadSetElements malloc llen dictCreate s
    return (.set set, s)
  else
    throw .abort

-- One item of the file: a key and its value, added to the database dict.
def loadEntry (malloc : Nat → Bytes) (type : UInt8) (dict : Database) (s : LoadState) :
    Except Fault (Database × LoadState) := do
  let (key, s) ← loadKey malloc s
  let (o, s) ← loadObject malloc type s
  let (dict, retval) ← dictAdd sdsDictType dict key o
  if retval = .DICT_ERR then
    throw .exit
  return (dict, s)

-- The loop over the items, with the number of the database they go to. Each
-- item takes a byte at least, so that the length of the file bounds the loop.
def loadItems (malloc : Nat → Bytes) :
    Nat → Nat → List Database → LoadState → Except Fault (List Database)
  | 0, _, _, _ => throw .hang
  | fuel + 1, dbid, dict, s => do
      let (type, s) ← loadType s
      if type = CUTIS_EOF then
        return dict
      else if type = CUTIS_SELECT_DB then
        let (dbid, s) ← loadLen s
        if dbid ≥ dict.length then
          throw .exit
        loadItems malloc fuel dbid dict s
      else
        match dict[dbid]? with
        | none => throw .outOfBounds
        | some db =>
            let (db, s) ← loadEntry malloc type db s
            loadItems malloc fuel dbid (dict.set dbid db) s

-- The content of the file is none where fopen fails. The buffers and the blocks
-- malloc returns hold any bytes at first.
def loadDB (malloc : Nat → Bytes) (buf vbuf : Bytes) (server : CutisServer) (file : Option Bytes) :
    Except Fault (CutisServer × CutisStatus) :=
  match file with
  | none => return (server, .CUTIS_ERR)
  | some file => do
      let (signature, buf, fp) ← loadBytes malloc 9 buf file
      if memcmp signature CUTIS_DB_SIGNATURE ≠ 0 then
        return (server, .CUTIS_ERR)
      let dict ← loadItems malloc (fp.length + 1) 0 server.dict { fp, buf, vbuf }
      return ({ server with dict }, .CUTIS_OK)

end Cutis

import Cutis.Sds

namespace Cutis

-- Conversion to size_t.
def sizeT (n : Int) : Nat := (n % 2 ^ 64).toNat

-- A string with its header. The buffer is what the allocator gave behind the header.
structure SdsHdr where
  len : Int
  free : Int
  buf : Bytes
deriving DecidableEq, Repr

namespace SdsHdr

section Memory

variable (s : SdsHdr)

def readByte (off : Nat) : Except Fault UInt8 :=
  match s.buf[off]? with
  | some c => return c
  | none => throw .outOfBounds

def read (off n : Nat) : Except Fault Bytes :=
  if off + n ≤ s.buf.length then return (s.buf.drop off).take n else throw .outOfBounds

-- memcpy into the buffer.
def write (off : Nat) (bytes : Bytes) : Except Fault SdsHdr :=
  if off + bytes.length ≤ s.buf.length then
    return { s with
      buf := s.buf.take off ++ (bytes ++ s.buf.drop (off + bytes.length)) }
  else throw .outOfBounds

-- The memory that is new holds any bytes.
def zrealloc (newsize : Nat) (junk : Nat → UInt8) : SdsHdr :=
  { s with buf := s.buf.take newsize ++ (List.range (newsize - s.buf.length)).map junk }

def sdslen : Nat := sizeT s.len

def sdsavail : Nat := sizeT s.free

def sdsMakeRoomFor (addlen : Nat) (junk : Nat → UInt8) : SdsHdr :=
  if s.sdsavail ≥ addlen then s
  else
    let len := s.sdslen
    let newlen := (len + addlen) * 2 % 2 ^ 64
    { s.zrealloc (newlen + 1) junk with free := toInt64 ((newlen : Int) - len) }

end Memory

-- The bytes of init, or zeros for a null pointer.
def sdsnewlen (init : Option Bytes) (initlen : Nat) (junk : Nat → UInt8) : Except Fault SdsHdr := do
  let sh : SdsHdr :=
    { len := toInt64 initlen, free := 0, buf := (List.range (initlen + 1)).map junk }
  let sh ← sh.write 0 ((init.getD (List.replicate initlen NUL)).take initlen)
  sh.write initlen [NUL]

section Operations

variable (s : SdsHdr)

def sdscatlen (t : Bytes) (junk : Nat → UInt8) : Except Fault SdsHdr := do
  let curlen := s.sdslen
  let s := s.sdsMakeRoomFor t.length junk
  let s ← s.write curlen t
  let s := { s with
    len := toInt64 (curlen + t.length)
    free := toInt64 (s.free - t.length) }
  s.write s.sdslen [NUL]

def sdscpylen (t : Bytes) (junk : Nat → UInt8) : Except Fault SdsHdr := do
  let totlen := sizeT (s.free + s.len)
  let s := if totlen < t.length then s.sdsMakeRoomFor (t.length - totlen) junk else s
  let totlen := sizeT (s.free + s.len)
  let s ← s.write 0 t
  let s ← s.write t.length [NUL]
  return { s with
    len := toInt64 t.length
    free := toInt64 ((totlen : Int) - t.length) }

-- The loop of sdscatprintf over the buffer of vsnprintf, which takes the text up to its
-- size and the terminator.
def printText (text : Bytes) : Nat → Nat → Except Fault Bytes
  | 0, _ => throw .hang
  | fuel + 1, buflen =>
      if toInt32 text.length > 0 ∧ sizeT (toInt32 text.length) ≥ buflen then
        printText text fuel (sizeT (toInt32 text.length + 1))
      else return text.take (buflen - 1)

def sdscatprintf (text : Bytes) (junk : Nat → UInt8) : Except Fault SdsHdr := do
  let buf ← printText text 2 32
  s.sdscatlen (cstr buf) junk

-- strchr of the byte in cset finds the terminator too.
def inSet (cset : Bytes) (c : UInt8) : Bool := cset.contains c || c == NUL

-- The loops of sdstrim over sp, and over the end of the bytes that are left.
def skipLeft (cset : Bytes) : Nat → Nat → Except Fault Nat
  | 0, sp => return sp
  | left + 1, sp => do
      if inSet cset (← s.readByte sp) then skipLeft cset left (sp + 1) else return sp

def skipRight (cset : Bytes) : Nat → Except Fault Nat
  | 0 => return 0
  | ep + 1 => do
      if inSet cset (← s.readByte ep) then skipRight cset ep else return ep + 1

-- memmove to the start of the buffer, where it moves anything.
def moveDown (off n : Nat) : Except Fault SdsHdr :=
  if off ≠ 0 then do s.write 0 (← s.read off n) else return s

def setLen (newlen : Nat) : SdsHdr :=
  { s with
    len := toInt64 newlen
    free := toInt64 (s.free + (s.len - newlen)) }

def sdstrim (cset : Bytes) : Except Fault SdsHdr := do
  let sp ← s.skipLeft cset s.sdslen 0
  let ep ← s.skipRight cset s.sdslen
  let len := ep - sp
  let s ← s.moveDown sp len
  let s ← s.write len [NUL]
  return s.setLen len

def sdsrange (start endIdx : Int) : Except Fault SdsHdr :=
  let len : Int := s.sdslen
  if len = 0 then return s
  else do
    let start := if start < 0 then max (len + start) 0 else start
    let endIdx := if endIdx < 0 then max (len + endIdx) 0 else endIdx
    let newlen := if start > endIdx then 0 else (endIdx - start) + 1
    let (start, newlen) :=
      if newlen ≠ 0 then
        let start := if start ≥ len then len - 1 else start
        let endIdx := if endIdx ≥ len then len - 1 else endIdx
        (start, if start > endIdx then 0 else (endIdx - start) + 1)
      else (0, 0)
    let s ← s.moveDown start.toNat newlen.toNat
    let s ← s.write newlen.toNat [NUL]
    return s.setLen newlen.toNat

def sdsupdatelen : Except Fault SdsHdr :=
  match s.buf.idxOf? NUL with
  | some strlen =>
      let reallen := toInt32 strlen
      return { s with len := reallen, free := s.free + (s.len - reallen) }
  | none => throw .outOfBounds

def lowerFrom : Nat → Nat → SdsHdr → Except Fault SdsHdr
  | 0, _, s => return s
  | left + 1, j, s => do
      let s ← s.write j [tolower (← s.readByte j)]
      lowerFrom left (j + 1) s

def sdstolower : Except Fault SdsHdr := lowerFrom s.sdslen 0 s

end Operations

end SdsHdr

-- The operations of a run.
inductive SdsOp
  | catlen (t : Bytes) (junk : Nat → UInt8)
  | cpylen (t : Bytes) (junk : Nat → UInt8)
  | catprintf (text : Bytes) (junk : Nat → UInt8)
  | trim (cset : Bytes)
  | range (start endIdx : Int)
  | updatelen
  | tolower

def SdsHdr.step (s : SdsHdr) : SdsOp → Except Fault SdsHdr
  | .catlen t junk => s.sdscatlen t junk
  | .cpylen t junk => s.sdscpylen t junk
  | .catprintf text junk => s.sdscatprintf text junk
  | .trim cset => s.sdstrim cset
  | .range start endIdx => s.sdsrange start endIdx
  | .updatelen => s.sdsupdatelen
  | .tolower => s.sdstolower

end Cutis

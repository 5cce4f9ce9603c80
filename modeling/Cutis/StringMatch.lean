import Cutis.Sds

namespace Cutis

def STAR : UInt8 := 42
def DASH : UInt8 := 45
def QUESTION : UInt8 := 63
def LBRACKET : UInt8 := 91
def BACKSLASH : UInt8 := 92
def RBRACKET : UInt8 := 93
def CARET : UInt8 := 94

-- A char converted to int; char is signed.
def charInt (c : UInt8) : Int := (c.toNat : Int).bmod 256

def tolowerInt (c : Int) : Int := if 65 ≤ c ∧ c ≤ 90 then c + 32 else c

def sameChar (no_case : Bool) (c1 c2 : UInt8) : Bool :=
  if no_case then tolower c1 == tolower c2 else c1 == c2

-- The test of a range of a class, its ends in either order.
def inRange (no_case : Bool) (first last char : UInt8) : Bool :=
  let start := if charInt first > charInt last then charInt last else charInt first
  let endChar := if charInt first > charInt last then charInt first else charInt last
  let lower := fun c => if no_case then tolowerInt c else c
  decide (lower (charInt char) ≥ lower start ∧ lower (charInt char) ≤ lower endChar)

-- The members of a class, from one past its bracket. The pattern pointer is the
-- rest of the pattern and pat_len its length. The results are the flag and the
-- pattern behind the class. A backslash right before the terminator takes the
-- pointer past it, where the loop reads on.
def matchClass (no_case : Bool) (char : UInt8) :
    Nat → Bool → Bytes → Except Fault (Bool × Bytes)
  | 0, _, _ => throw .hang
  | _ + 1, isMatch, [] => return (isMatch, [])
  | fuel + 1, isMatch, c :: pattern =>
      if c = BACKSLASH then
        match pattern with
        | [] => throw .outOfBounds
        | escaped :: pattern => matchClass no_case char fuel (isMatch || escaped == char) pattern
      else if c = RBRACKET then
        return (isMatch, pattern)
      else
        match pattern with
        | dash :: last :: rest =>
            if dash = DASH then
              matchClass no_case char fuel (isMatch || inRange no_case c last char) rest
            else matchClass no_case char fuel (isMatch || sameChar no_case c char) pattern
        | _ => matchClass no_case char fuel (isMatch || sameChar no_case c char) pattern

-- The loop of a star over the places where the rest of the pattern may match.
def matchStar (matchRest : Bytes → Except Fault Bool) : Bytes → Except Fault Bool
  | [] => return false
  | char :: string => do
      if ← matchRest (char :: string) then return true
      matchStar matchRest string

-- One pass for each item of the pattern. The string is empty at the start of a
-- pass only if StringMatch was called with an empty one; the pointer then moves
-- past its terminator.
def stringMatchLoop (no_case : Bool) : Nat → Bytes → Bytes → Except Fault Bool
  | 0, _, _ => throw .hang
  | _ + 1, [], string => return string.isEmpty
  | fuel + 1, c :: pattern, string =>
      -- The end of a pass, behind the item and the byte it matched.
      let next (pattern string : Bytes) : Except Fault Bool :=
        if string = [] then return (pattern.dropWhile (· == STAR)).isEmpty
        else stringMatchLoop no_case fuel pattern string
      let literal (c : UInt8) (pattern : Bytes) : Except Fault Bool :=
        match string with
        | [] => if sameChar no_case c NUL then throw .outOfBounds else return false
        | char :: string => if sameChar no_case c char then next pattern string else return false
      if c = STAR then
        let pattern := pattern.dropWhile (· == STAR)
        if pattern = [] then return true
        else matchStar (stringMatchLoop no_case fuel pattern) string
      else if c = QUESTION then
        match string with
        | [] => return false
        | _ :: string => next pattern string
      else if c = LBRACKET then
        match string with
        | [] => throw .outOfBounds
        | char :: string => do
            let negated := pattern.head? == some CARET
            let (isMatch, pattern) ←
              matchClass no_case char (pattern.length + 1) false
                (if negated then pattern.tail else pattern)
            if isMatch == negated then return false else next pattern string
      else if c = BACKSLASH then
        match pattern with
        | [] => literal BACKSLASH []
        | escaped :: pattern => literal escaped pattern
      else
        literal c pattern

def stringMatch (pattern string : Bytes) (no_case : Bool) : Except Fault Bool :=
  stringMatchLoop no_case (pattern.length + 1) pattern string

end Cutis

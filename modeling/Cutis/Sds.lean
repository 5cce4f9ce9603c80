import Mathlib.Tactic.SplitIfs
import Cutis.Basic

namespace Cutis

-- The part of a buffer a C string function sees.
def cstr (s : Bytes) : Bytes := s.takeWhile (· ≠ NUL)

-- The offset of the first c before the terminator.
def strchr (s : Bytes) (c : UInt8) : Option Nat := (cstr s).idxOf? c

-- Both buffers hold the number of bytes compared.
def memcmp : Bytes → Bytes → Int
  | c1 :: s1, c2 :: s2 => if c1 = c2 then memcmp s1 s2 else (c1.toNat : Int) - c2.toNat
  | _, _ => 0

def sdscmp (s1 s2 : Bytes) : Int :=
  let minlen := min s1.length s2.length
  let cmp := memcmp (s1.take minlen) (s2.take minlen)
  if cmp = 0 then (s1.length : Int) - s2.length else cmp

def tolower (c : UInt8) : UInt8 := if 65 ≤ c ∧ c ≤ 90 then c + 32 else c

def sdstolower (s : Bytes) : Bytes := s.map tolower

-- strchr finds the terminator of cset too, so NUL bytes are trimmed with it.
def sdstrim (s cset : Bytes) : Bytes :=
  let trimmed := fun c => cset.contains c || c == NUL
  ((s.dropWhile trimmed).reverse.dropWhile trimmed).reverse

def sdsupdatelen (s : Bytes) : Bytes := cstr s

-- The bytes of s from start on, newlen of them.
def sdsrange (s : Bytes) (start endIdx : Int) : Bytes :=
  let len : Int := s.length
  if len = 0 then s
  else
    let start := if start < 0 then max (len + start) 0 else start
    let endIdx := if endIdx < 0 then max (len + endIdx) 0 else endIdx
    let newlen := if start > endIdx then 0 else (endIdx - start) + 1
    if newlen ≠ 0 then
      let start := if start ≥ len then len - 1 else start
      let endIdx := if endIdx ≥ len then len - 1 else endIdx
      let newlen := if start > endIdx then 0 else (endIdx - start) + 1
      (s.drop start.toNat).take newlen.toNat
    else []

-- Store a token; the array holds the given number of slots.
def storeToken (tokens : List Bytes) (slots : Nat) (token : Bytes) : Except Fault (List Bytes) :=
  if tokens.length < slots then return tokens ++ [token] else throw .outOfBounds

-- The scan of sdssplitlen from j on, with the start of the current token and
-- the tokens stored so far. It ends within length s + 1 steps.
def sdssplitLoop (s sep : Bytes) :
    Nat → Nat → Nat → List Bytes → Nat → Except Fault (List Bytes)
  | 0, _, start, tokens, slots => storeToken tokens slots (s.drop start)
  | fuel + 1, j, start, tokens, slots =>
      if (j : Int) < (s.length : Int) - ((sep.length : Int) - 1) then do
        let slots := if slots < tokens.length + 2 then slots * 2 else slots
        if (s.drop j).take sep.length = sep then
          let tokens ← storeToken tokens slots ((s.drop start).take (j - start))
          sdssplitLoop s sep fuel (j + sep.length) (j + sep.length) tokens slots
        else
          sdssplitLoop s sep fuel (j + 1) start tokens slots
      else
        storeToken tokens slots (s.drop start)

-- None stands for the null pointer. The source takes the lengths as ints: from 2^31 bytes on
-- its int is another one (TokenArray.sdssplitlen takes it), and a negative one gives null.
def sdssplitlen (s sep : Bytes) : Except Fault (Option (List Bytes)) :=
  if sep.length < 1 then return none
  else some <$> sdssplitLoop s sep (s.length + 1) 0 0 [] 5

theorem cstr_eq_self {s : Bytes} (h : NUL ∉ s) : cstr s = s := by
  have htake := @List.takeWhile_append_of_pos _ (fun c => c ≠ NUL) s []
    fun c hc => by simpa using fun he : c = NUL => h (he ▸ hc)
  simpa [cstr] using htake

theorem idxOf?_append {line : Bytes} {c : UInt8} (hc : c ∉ line) (rest : Bytes) :
    (line ++ c :: rest).idxOf? c = some line.length := by
  induction line with
  | nil => simp [List.idxOf?_cons]
  | cons b line ih =>
      rw [List.mem_cons, not_or] at hc
      rw [List.cons_append, List.idxOf?_cons, if_neg (by simpa using Ne.symm hc.1), ih hc.2]
      rfl

theorem memcmp_eq_zero_iff (s1 s2 : Bytes) (h : s1.length = s2.length) :
    memcmp s1 s2 = 0 ↔ s1 = s2 := by
  induction s1 generalizing s2 with
  | nil =>
      cases s2 with
      | nil => simp [memcmp]
      | cons c2 s2 => simp at h
  | cons c1 s1 ih =>
      cases s2 with
      | nil => simp at h
      | cons c2 s2 =>
          simp only [List.length_cons, Nat.add_right_cancel_iff] at h
          rw [memcmp]
          split_ifs with hc
          · rw [ih s2 h, hc]
            simp
          · have hne : c1.toNat ≠ c2.toNat := fun he => hc (UInt8.toNat_inj.mp he)
            constructor
            · omega
            · intro he
              exact absurd (List.cons.inj he).1 hc

theorem sdscmp_eq_zero_iff (s1 s2 : Bytes) : sdscmp s1 s2 = 0 ↔ s1 = s2 := by
  unfold sdscmp
  simp only
  constructor
  · intro h
    split_ifs at h with hcmp
    · have hlen : s1.length = s2.length := by omega
      rw [hlen, Nat.min_self, ← hlen, List.take_length, hlen, List.take_length,
        memcmp_eq_zero_iff s1 s2 hlen] at hcmp
      exact hcmp
    · exact absurd h hcmp
  · rintro rfl
    rw [if_pos ((memcmp_eq_zero_iff _ _ rfl).mpr rfl), Int.sub_self]

-- Dropping what has been consumed, as the callers do.
theorem sdsrange_drop (s : Bytes) (k : Nat) (hk : k ≤ s.length) :
    sdsrange s k (-1) = s.drop k := by
  by_cases hs : s.length = 0
  · simp [sdsrange, List.length_eq_zero_iff.mp hs]
  · have hlen : ¬((s.length : Int) = 0) := by omega
    have hstart : ¬((k : Int) < 0) := by omega
    have hneg : (-1 : Int) < 0 := by omega
    have hend : max ((s.length : Int) + -1) 0 = (s.length : Int) - 1 := by omega
    simp only [sdsrange, hlen, hstart, hneg, hend, if_false, if_true]
    by_cases hlast : k = s.length
    · have hgt : (k : Int) > (s.length : Int) - 1 := by omega
      simp only [hgt, if_true, ne_eq, not_true, if_false]
      rw [hlast, List.drop_length]
    · have hgt : ¬((k : Int) > (s.length : Int) - 1) := by omega
      have hnew : ¬((s.length : Int) - 1 - k + 1 = 0) := by omega
      have hge : ¬((k : Int) ≥ s.length) := by omega
      have hge' : ¬((s.length : Int) - 1 ≥ s.length) := by omega
      have hcount : ((s.length : Int) - 1 - k + 1).toNat = (s.drop k).length := by
        rw [List.length_drop]
        omega
      simp only [hgt, hnew, hge, hge', if_false, ne_eq, not_false_eq_true, if_true, hcount,
        Int.toNat_natCast, List.take_length]

end Cutis

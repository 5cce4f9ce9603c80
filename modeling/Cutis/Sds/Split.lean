import Cutis.Lib.Splitting
import Cutis.Sds.Buffer

namespace Cutis

-- The array of tokens, in a block with room for some of them.
structure TokenArray where
  tokens : List Bytes
  slots : Nat
  within : tokens.length ≤ slots

-- sizeof(sds)
def SDS_SIZE : Nat := 8

-- A read of n bytes from an offset on.
def bytesAt (s : Bytes) (off n : Int) : Except Fault Bytes :=
  if 0 ≤ off ∧ 0 ≤ n ∧ off + n ≤ s.length then return (s.drop off.toNat).take n.toNat
  else throw .outOfBounds

namespace TokenArray

def zmalloc (size : Nat) : TokenArray where
  tokens := []
  slots := size / SDS_SIZE
  within := Nat.zero_le _

def zrealloc (array : TokenArray) (size : Nat) : TokenArray where
  tokens := array.tokens.take (size / SDS_SIZE)
  slots := size / SDS_SIZE
  within := List.length_take_le _ _

-- The assignment to tokens[elements].
def store (array : TokenArray) (token : Bytes) : Except Fault TokenArray :=
  if h : array.tokens.length < array.slots then
    return {
      tokens := array.tokens ++ [token]
      slots := array.slots
      within := by
        rw [List.length_append]
        exact h }
  else throw .outOfBounds

end TokenArray

-- The comparisons at s + j.
def firstByteIs (s : Bytes) (j : Int) (sep : Bytes) : Except Fault Bool := do
  return (← bytesAt s j 1) == (← bytesAt sep 0 1)

def separatorAt (s : Bytes) (j : Int) (sep : Bytes) (seplen : Int) : Except Fault Bool := do
  let same ← if seplen = 1 then firstByteIs s j sep else pure false
  if same then return true
  else return memcmp (← bytesAt s j seplen) (← bytesAt sep 0 seplen) == 0

-- Room for the next token and the final one.
def makeRoom (slots : Int) (array : TokenArray) : Int × TokenArray :=
  if slots < toInt32 (toInt32 array.tokens.length + 2) then
    let slots := toInt32 (slots * 2)
    (slots, array.zrealloc (sizeT (SDS_SIZE * slots)))
  else (slots, array)

-- The loop of sdssplitlen with its counts, which are ints.
def TokenArray.splitLoop (s : Bytes) (len : Int) (sep : Bytes) (seplen : Int) :
    Nat → Int → Int → Int → TokenArray → Except Fault TokenArray
  | 0, _, _, _, _ => throw .hang
  | fuel + 1, slots, start, j, array =>
      if j < toInt32 (len - toInt32 (seplen - 1)) then do
        let room := makeRoom slots array
        if ← separatorAt s j sep seplen then
          let array ← room.2.store (← bytesAt s start (toInt32 (j - start)))
          splitLoop s len sep seplen fuel room.1 (toInt32 (j + seplen))
            (toInt32 (toInt32 (j + seplen - 1) + 1)) array
        else splitLoop s len sep seplen fuel room.1 start (toInt32 (j + 1)) room.2
      else do array.store (← bytesAt s start (toInt32 (len - start)))

-- Every allocation succeeds. A pass takes j at least one byte on.
def TokenArray.sdssplitlen (s : Bytes) (len : Int) (sep : Bytes) (seplen : Int) :
    Except Fault (Option TokenArray) :=
  if seplen < 1 ∨ len < 0 then return none
  else
    some <$>
      TokenArray.splitLoop s len sep seplen (len.toNat + 1) 5 0 0 (.zmalloc (SDS_SIZE * 5))

section Leftmost

open Splitting

variable {s sep : Bytes}

theorem storeToken_eq {tokens : List Bytes} {slots : Nat} (h : tokens.length < slots)
    (token : Bytes) : storeToken tokens slots token = .ok (tokens ++ [token]) := if_pos h

theorem prefix_drop_iff {j : Nat} : sep <+: s.drop j ↔ (s.drop j).take sep.length = sep :=
  List.prefix_iff_eq_take.trans eq_comm

-- The token at start ends where the separator first comes from there on.
theorem splits_cut {start j : Nat} {rest : List Bytes} (hstart : start ≤ j)
    (hnone : ∀ i, start ≤ i → i < j → ¬sep <+: s.drop i) (hj : sep <+: s.drop j)
    (hrest : Splits sep (s.drop (j + sep.length)) rest) :
    Splits sep (s.drop start) ((s.drop start).take (j - start) :: rest) := by
  obtain ⟨after, hafter⟩ := hj
  have hlen : (s.drop j).length = sep.length + after.length := by
    rw [← hafter, List.length_append]
  rw [List.length_drop] at hlen
  have hdrop : s.drop (j + sep.length) = after := by
    rw [← List.drop_drop, ← hafter, List.drop_left]
  have hcut : s.drop start = (s.drop start).take (j - start) ++ sep ++ s.drop (j + sep.length) := by
    conv_lhs => rw [← List.take_append_drop (j - start) (s.drop start)]
    rw [List.drop_drop, Nat.add_sub_cancel' hstart, ← hafter, hdrop, List.append_assoc]
  have htoken : ((s.drop start).take (j - start)).length ≤ j - start := List.length_take_le _ _
  have hsplits : Splits sep ((s.drop start).take (j - start) ++ sep ++ s.drop (j + sep.length))
      ((s.drop start).take (j - start) :: rest) := by
    refine .cut (fun i hi => ?_) hrest
    rw [← hcut, List.drop_drop]
    exact hnone (start + i) (by omega) (by omega)
  rwa [← hcut] at hsplits

theorem splits_last {start j : Nat} (hsep : sep ≠ []) (hj : s.length < j + sep.length)
    (hnone : ∀ i, start ≤ i → i < j → ¬sep <+: s.drop i) :
    Splits sep (s.drop start) [s.drop start] := by
  refine .last fun hinfix => ?_
  obtain ⟨i, hi, hprefix⟩ := exists_drop_of_infix hsep hinfix
  rw [List.drop_drop] at hprefix
  have hle := hprefix.length_le
  have hpos := List.length_pos_iff.mpr hsep
  rw [List.length_drop] at hle hi
  exact hnone (start + i) (by omega) (by omega) hprefix

-- What is read from j on is cut behind the tokens stored, and the room is enough.
theorem sdssplitLoop_splits (hsep : sep ≠ []) (fuel j start : Nat) (tokens : List Bytes)
    (slots : Nat) (hfuel : s.length < fuel + j) (hstart : start ≤ j) (hj : j ≤ s.length)
    (hslots : tokens.length < slots) (hnone : ∀ i, start ≤ i → i < j → ¬sep <+: s.drop i) :
    ∃ rest, sdssplitLoop s sep fuel j start tokens slots = .ok (tokens ++ rest) ∧
      Splits sep (s.drop start) rest := by
  have hpos := List.length_pos_iff.mpr hsep
  induction fuel generalizing j start tokens slots with
  | zero => omega
  | succ fuel ih =>
      rw [sdssplitLoop]
      by_cases hlt : (j : Int) < (s.length : Int) - ((sep.length : Int) - 1)
      · generalize hroom : (if slots < tokens.length + 2 then slots * 2 else slots) = slots'
        have hslots' : tokens.length + 1 < slots' := by
          rw [← hroom]
          split_ifs <;> omega
        rw [if_pos hlt]
        by_cases hfound : sep <+: s.drop j
        · have hle := hfound.length_le
          rw [List.length_drop] at hle
          obtain ⟨rest, hrun, hsplits⟩ := ih (j + sep.length) (j + sep.length)
            (tokens ++ [(s.drop start).take (j - start)]) slots' (by omega) (le_refl _) (by omega)
            (by simpa using hslots') (by omega)
          refine ⟨(s.drop start).take (j - start) :: rest, ?_,
            splits_cut hstart hnone hfound hsplits⟩
          rw [if_pos (prefix_drop_iff.mp hfound), storeToken_eq (by omega), ok_bind, hrun,
            List.append_assoc]
          rfl
        · rw [if_neg fun htake => hfound (prefix_drop_iff.mpr htake)]
          exact ih _ _ _ _ (by omega) (by omega) (by omega) (by omega) fun i hi hij => by
            rcases Nat.lt_succ_iff_lt_or_eq.mp hij with hij | rfl
            · exact hnone i hi hij
            · exact hfound
      · rw [if_neg hlt]
        exact ⟨_, storeToken_eq hslots _, splits_last hsep (by omega) hnone⟩

end Leftmost

section Ints

variable {s sep : Bytes}

theorem bytesAt_eq {off n : Nat} (h : off + n ≤ s.length) :
    bytesAt s off n = .ok ((s.drop off).take n) := by
  rw [bytesAt, if_pos (by omega), Int.toNat_natCast, Int.toNat_natCast]
  rfl

theorem separatorAt_eq (hsep : sep ≠ []) {j : Nat} (hj : j + sep.length ≤ s.length) :
    separatorAt s j sep sep.length = .ok (decide ((s.drop j).take sep.length = sep)) := by
  have hpos := List.length_pos_iff.mpr hsep
  have hsame : bytesAt sep 0 sep.length = .ok sep := by
    have hread := @bytesAt_eq sep 0 sep.length (by omega)
    rwa [List.drop_zero, List.take_length] at hread
  have hlen : ((s.drop j).take sep.length).length = sep.length := by
    rw [List.length_take, List.length_drop]
    omega
  have hcmp : (memcmp ((s.drop j).take sep.length) sep == 0) =
      decide ((s.drop j).take sep.length = sep) := by
    rw [Bool.eq_iff_iff, beq_iff_eq, decide_eq_true_iff, memcmp_eq_zero_iff _ _ hlen]
  have hfirst (hone : sep.length = 1) :
      firstByteIs s j sep = .ok (decide ((s.drop j).take sep.length = sep)) := by
    have hread : bytesAt s j 1 = .ok ((s.drop j).take sep.length) := by
      rw [hone]
      exact bytesAt_eq (n := 1) (by omega)
    have hread' : bytesAt sep 0 1 = .ok sep := by
      rw [← hsame, hone]
      rfl
    rw [firstByteIs, hread, hread']
    exact congrArg Except.ok (beq_eq_decide _ _)
  rw [separatorAt, hsame, bytesAt_eq hj]
  by_cases hone : sep.length = 1
  · rw [if_pos (by omega), hfirst hone, ok_bind, ok_bind, ok_bind, hcmp]
    by_cases heq : (s.drop j).take sep.length = sep
    · rw [decide_eq_true heq]
      rfl
    · rw [decide_eq_false heq]
      rfl
  · rw [if_neg (by omega), pure_bind, ok_bind, ok_bind, hcmp]
    rfl

theorem zrealloc_eq (array : TokenArray) {slots : Nat} (hle : array.slots ≤ slots)
    (hslots : slots < 2 ^ 31) :
    (array.zrealloc (sizeT (SDS_SIZE * slots))).slots = slots ∧
      (array.zrealloc (sizeT (SDS_SIZE * slots))).tokens = array.tokens := by
  have hsize : sizeT (SDS_SIZE * slots) / SDS_SIZE = slots := by
    rw [sizeT, SDS_SIZE]
    omega
  have hroom : array.tokens.length ≤ sizeT (SDS_SIZE * slots) / SDS_SIZE := by
    rw [hsize]
    exact array.within.trans hle
  exact ⟨hsize, List.take_of_length_le hroom⟩

theorem store_eq (array : TokenArray) (token : Bytes) :
    (array.store token).map TokenArray.tokens = storeToken array.tokens array.slots token := by
  rw [TokenArray.store, storeToken]
  split_ifs <;> rfl

theorem store_ok {array stored : TokenArray} {token : Bytes} (h : array.store token = .ok stored) :
    stored.tokens = array.tokens ++ [token] ∧ stored.slots = array.slots := by
  unfold TokenArray.store at h
  split at h
  · cases h
    exact ⟨rfl, rfl⟩
  · cases h

theorem makeRoom_eq (array : TokenArray) (hshort : array.tokens.length + 2 ≤ 2 ^ 30) :
    ∃ grown : TokenArray, makeRoom array.slots array = ((grown.slots : Int), grown) ∧
      grown.slots =
        (if array.slots < array.tokens.length + 2 then array.slots * 2 else array.slots) ∧
      grown.tokens = array.tokens := by
  have helements : toInt32 (toInt32 array.tokens.length + 2) = array.tokens.length + 2 := by
    rw [toInt32_natCast _ (by omega), toInt32_eq_self _ (by omega) (by omega)]
  unfold makeRoom
  rw [helements]
  by_cases hgrow : array.slots < array.tokens.length + 2
  · have hdouble : toInt32 ((array.slots : Int) * 2) = (array.slots * 2 : Nat) := by
      rw [toInt32_eq_self _ (by omega) (by omega)]
      omega
    obtain ⟨hslots, htokens⟩ :=
      zrealloc_eq array (show array.slots ≤ array.slots * 2 by omega) (by omega)
    rw [if_pos (by omega), if_pos hgrow, hdouble]
    exact ⟨_, by rw [hslots], hslots, htokens⟩
  · rw [if_neg (by omega), if_neg hgrow]
    exact ⟨array, rfl, rfl, rfl⟩

-- No count overflows: the tokens are at most as many as the bytes that end them.
theorem splitLoop_eq (hs : s.length < 2 ^ 30) (hsep : sep ≠ []) (hseplen : sep.length < 2 ^ 31)
    (fuel start j : Nat) (array : TokenArray) (hfuel : s.length < fuel + j) (hstart : start ≤ j)
    (hj : j ≤ s.length) (htokens : array.tokens.length ≤ start) :
    (TokenArray.splitLoop s s.length sep sep.length fuel array.slots start j array).map
        TokenArray.tokens =
      sdssplitLoop s sep fuel j start array.tokens array.slots := by
  have hpos := List.length_pos_iff.mpr hsep
  have hbound : toInt32 ((s.length : Int) - toInt32 (sep.length - 1)) =
      (s.length : Int) - ((sep.length : Int) - 1) := by
    rw [toInt32_eq_self ((sep.length : Int) - 1) (by omega) (by omega),
      toInt32_eq_self _ (by omega) (by omega)]
  induction fuel generalizing j start array with
  | zero => omega
  | succ fuel ih =>
      rw [TokenArray.splitLoop, sdssplitLoop, hbound]
      by_cases hlt : (j : Int) < (s.length : Int) - ((sep.length : Int) - 1)
      · obtain ⟨grown, hgrown, hslots, hsame⟩ := makeRoom_eq array (by omega)
        have htoken : bytesAt s start (toInt32 ((j : Int) - start)) =
            .ok ((s.drop start).take (j - start)) := by
          rw [toInt32_eq_self _ (by omega) (by omega), ← Int.natCast_sub hstart]
          exact bytesAt_eq (by omega)
        rw [if_pos hlt, if_pos hlt, separatorAt_eq hsep (by omega)]
        simp only [hgrown, ok_bind, ← hslots, htoken]
        by_cases hfound : (s.drop j).take sep.length = sep
        · have hle := (prefix_drop_iff.mpr hfound).length_le
          rw [List.length_drop] at hle
          have hend : j + sep.length ≤ s.length := by omega
          have hleft : s.length < fuel + (j + sep.length) := by omega
          have hcount : array.tokens.length + 1 ≤ j + sep.length := by omega
          have hlast : toInt32 ((j : Int) + sep.length - 1) = (j : Int) + sep.length - 1 :=
            toInt32_eq_self _ (by omega) (by omega)
          have hnext : toInt32 ((j : Int) + sep.length) = (j + sep.length : Nat) := by
            rw [toInt32_eq_self _ (by omega) (by omega), Int.natCast_add]
          have hstore := store_eq grown ((s.drop start).take (j - start))
          rw [hsame] at hstore
          rw [if_pos hfound, ← hstore]
          simp only [hfound, decide_true, if_true, hlast, Int.sub_add_cancel, hnext]
          cases hstored : grown.store ((s.drop start).take (j - start)) with
          | error fault => rfl
          | ok stored =>
              obtain ⟨htokens', hslots'⟩ := store_ok hstored
              have hrest := ih (j + sep.length) (j + sep.length) stored hleft (le_refl _) hend (by
                rw [htokens', hsame, List.length_append]
                exact hcount)
              rw [hslots'] at hrest
              exact hrest
        · have hnext : toInt32 ((j : Int) + 1) = (j + 1 : Nat) :=
            toInt32_eq_self _ (by omega) (by omega)
          have hrest := ih start (j + 1) grown (by omega) (by omega) (by omega)
            (by rw [hsame]; exact htokens)
          rw [hsame] at hrest
          simp only [hfound, decide_false, if_false, hnext]
          exact hrest
      · have htoken : bytesAt s start (toInt32 ((s.length : Int) - start)) =
            .ok (s.drop start) := by
          rw [toInt32_eq_self _ (by omega) (by omega), ← Int.natCast_sub (hstart.trans hj)]
          rw [bytesAt_eq (by omega), List.take_of_length_le (by rw [List.length_drop])]
        rw [if_neg hlt, if_neg hlt, htoken, ok_bind]
        exact store_eq array _

end Ints

variable {s sep : Bytes} (hsep : sep ≠ [])

include hsep

theorem sdssplitlen_splits :
    ∃ tokens, sdssplitlen s sep = .ok (some tokens) ∧ Splitting.Splits sep s tokens := by
  have hpos := List.length_pos_iff.mpr hsep
  obtain ⟨tokens, htokens, hsplits⟩ := sdssplitLoop_splits hsep (s.length + 1) 0 0 [] 5
    (Nat.lt_succ_self _) (le_refl _) (Nat.zero_le _) (by decide) (by omega)
  rw [List.drop_zero] at hsplits
  refine ⟨tokens, ?_, hsplits⟩
  rw [sdssplitlen, if_neg (by omega), htokens]
  rfl

-- The two models of the function agree.
theorem sdssplitlen_agrees (hs : s.length < 2 ^ 30) (hseplen : sep.length < 2 ^ 31) :
    (TokenArray.sdssplitlen s s.length sep sep.length).map (Option.map TokenArray.tokens) =
      sdssplitlen s sep := by
  have hpos := List.length_pos_iff.mpr hsep
  have hloop := splitLoop_eq hs hsep hseplen (s.length + 1) 0 0 (.zmalloc (SDS_SIZE * 5))
    (Nat.lt_succ_self _) (le_refl _) (Nat.zero_le _) (le_refl _)
  rw [TokenArray.sdssplitlen, sdssplitlen, if_neg (by omega), if_neg (by omega),
    Int.toNat_natCast]
  have hstart : sdssplitLoop s sep (s.length + 1) 0 0 [] 5 = _ := hloop.symm
  rw [hstart]
  change Except.map _ (Except.map some (TokenArray.splitLoop s s.length sep sep.length
    (s.length + 1) 5 0 0 (.zmalloc (SDS_SIZE * 5)))) = Except.map some (Except.map _
      (TokenArray.splitLoop s s.length sep sep.length (s.length + 1) 5 0 0 (.zmalloc (SDS_SIZE * 5))))
  cases TokenArray.splitLoop s s.length sep sep.length (s.length + 1) 5 0 0
    (.zmalloc (SDS_SIZE * 5)) <;> rfl

-- Each separator ends a token, and every token has its slot.
theorem sdssplitlen_exact (hs : s.length < 2 ^ 30) (hseplen : sep.length < 2 ^ 31) :
    ∃ array, TokenArray.sdssplitlen s s.length sep sep.length = .ok (some array) ∧
      array.tokens ≠ [] ∧ sep.intercalate array.tokens = s ∧
      (∀ token ∈ array.tokens, ¬sep <:+: token) ∧ array.tokens.length ≤ array.slots := by
  obtain ⟨tokens, htokens, hsplits⟩ := sdssplitlen_splits hsep
  have hagrees := (sdssplitlen_agrees hsep hs hseplen).trans htokens
  match hrun : TokenArray.sdssplitlen s s.length sep sep.length with
  | .error fault =>
      rw [hrun] at hagrees
      cases hagrees
  | .ok none =>
      rw [hrun] at hagrees
      cases hagrees
  | .ok (some array) =>
      rw [hrun] at hagrees
      obtain rfl : array.tokens = tokens := Option.some.inj (Except.ok.inj hagrees)
      exact ⟨array, rfl, hsplits.ne_nil, hsplits.intercalate_eq,
        fun token ht => hsplits.not_infix hsep ht, array.within⟩

omit hsep

theorem sdssplitlen_overlapping :
    ∃ array, TokenArray.sdssplitlen (sdsnew "aaab") 4 (sdsnew "aa") 2 = .ok (some array) ∧
      array.tokens ≠ [] ∧ (sdsnew "aa").intercalate array.tokens = sdsnew "aaab" ∧
      (∀ token ∈ array.tokens, ¬sdsnew "aa" <:+: token) ∧ array.tokens.length ≤ array.slots :=
  @sdssplitlen_exact (sdsnew "aaab") (sdsnew "aa") (by decide) (by decide) (by decide)

end Cutis

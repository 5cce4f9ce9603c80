import Cutis.StringMatch.Pattern

namespace Cutis

open Wildcard

-- A read through a pointer, at an offset of a string that ends with its terminator.
def readAt (s : Bytes) (i : Nat) : Except Fault UInt8 :=
  match (s ++ [NUL])[i]? with
  | some c => return c
  | none => throw .outOfBounds

section Loops

variable (pat str : Bytes) (no_case : Bool)

-- The loops over stars, which look at pattern[1] or at pattern[0].
def skipStars (ahead : Nat) : Nat → Nat → Int → Except Fault (Nat × Int)
  | 0, _, _ => throw .hang
  | fuel + 1, pattern, pat_len => do
      if (← readAt pat (pattern + ahead)) = STAR then
        skipStars ahead fuel (pattern + 1) (pat_len - 1)
      else return (pattern, pat_len)

-- The loop of a star over the string.
def tryPlaces (matchRest : Nat → Int → Except Fault Bool) :
    Nat → Nat → Int → Except Fault Bool
  | 0, _, _ => throw .hang
  | fuel + 1, string, str_len =>
      if str_len = 0 then return false
      else do
        if ← matchRest string str_len then return true
        tryPlaces matchRest fuel (string + 1) (str_len - 1)

-- The loop over a class. The results are match and the pattern where it stops.
def classLoop (string : Nat) : Nat → Nat → Int → Bool → Except Fault (Bool × Nat × Int)
  | 0, _, _, _ => throw .hang
  | fuel + 1, pattern, pat_len, isMatch => do
      let c ← readAt pat pattern
      if c = BACKSLASH then
        let escaped ← readAt pat (pattern + 1)
        let char ← readAt str string
        classLoop string fuel (pattern + 2) (pat_len - 2) (isMatch || escaped == char)
      else if c = RBRACKET then return (isMatch, pattern, pat_len)
      else if pat_len = 0 then return (isMatch, pattern - 1, pat_len + 1)
      else
        let dash ← readAt pat (pattern + 1)
        if dash = DASH ∧ pat_len ≥ 3 then
          let last ← readAt pat (pattern + 2)
          let char ← readAt str string
          classLoop string fuel (pattern + 3) (pat_len - 3) (isMatch || inRange no_case c last char)
        else
          let char ← readAt str string
          classLoop string fuel (pattern + 1) (pat_len - 1) (isMatch || sameChar no_case c char)

-- The end of a turn, behind the byte of the string.
def endTurn (matchRest : Nat → Int → Nat → Int → Except Fault Bool) (string : Nat) (str_len : Int)
    (pattern : Nat) (pat_len : Int) : Except Fault Bool :=
  if str_len - 1 = 0 then do
    let (_, pat_len) ← skipStars pat 0 (pat.length + 1) (pattern + 1) (pat_len - 1)
    return pat_len == 0
  else matchRest (pattern + 1) (pat_len - 1) (string + 1) (str_len - 1)

-- The turns of the outer loop, with both pointers as offsets.
def matchAt : Nat → Nat → Int → Nat → Int → Except Fault Bool
  | 0, _, _, _, _ => throw .hang
  | fuel + 1, pattern, pat_len, string, str_len =>
      let next := endTurn pat (matchAt fuel) string str_len
      if pat_len = 0 then return str_len == 0
      else do
        let c ← readAt pat pattern
        if c = STAR then
          let (pattern, pat_len) ← skipStars pat 1 (pat.length + 1) pattern pat_len
          if pat_len = 1 then return true
          else tryPlaces (matchAt fuel (pattern + 1) (pat_len - 1)) (str.length + 1) string str_len
        else if c = QUESTION then
          if str_len = 0 then return false else next pattern pat_len
        else if c = LBRACKET then
          let negated := (← readAt pat (pattern + 1)) == CARET
          let start := if negated then 2 else 1
          let (isMatch, pattern, pat_len) ←
            classLoop pat str no_case string (pat.length + 2) (pattern + start) (pat_len - start)
              false
          if isMatch == negated then return false else next pattern pat_len
        else
          let skip := if c = BACKSLASH ∧ pat_len ≥ 2 then 1 else 0
          let c ← readAt pat (pattern + skip)
          let char ← readAt str string
          if sameChar no_case c char then next (pattern + skip) (pat_len - skip) else return false

end Loops

def stringMatchAt (pat str : Bytes) (no_case : Bool) : Except Fault Bool :=
  matchAt pat str no_case (pat.length + 1) 0 pat.length 0 str.length

section Reads

theorem readAt_append (before rest : Bytes) (k : Nat) :
    readAt (before ++ rest) (before.length + k) = readAt rest k := by
  rw [readAt, readAt, List.append_assoc, List.getElem?_append_right (Nat.le_add_right _ _),
    Nat.add_sub_cancel_left]

theorem readAt_start (before rest : Bytes) :
    readAt (before ++ rest) before.length = readAt rest 0 := readAt_append before rest 0

@[simp] theorem readAt_nil_zero : readAt [] 0 = .ok NUL := rfl

@[simp] theorem readAt_cons_zero (c : UInt8) (rest : Bytes) : readAt (c :: rest) 0 = .ok c := rfl

@[simp] theorem readAt_cons_succ (c : UInt8) (rest : Bytes) (k : Nat) :
    readAt (c :: rest) (k + 1) = readAt rest k := rfl

end Reads

section Stars

theorem skipStars_end (before rest : Bytes) {fuel : Nat} (hfuel : rest.length < fuel) :
    ∃ pattern, skipStars (before ++ rest) 0 fuel before.length rest.length =
      .ok (pattern, ((rest.dropWhile (· == STAR)).length : Int)) := by
  induction rest generalizing before fuel with
  | nil =>
      obtain ⟨fuel, rfl⟩ : ∃ k, fuel = k + 1 := ⟨fuel - 1, by omega⟩
      refine ⟨before.length, ?_⟩
      rw [skipStars, Nat.add_zero, readAt_start, readAt_nil_zero, ok_bind, if_neg (by decide)]
      rfl
  | cons c rest ih =>
      obtain ⟨fuel, rfl⟩ : ∃ k, fuel = k + 1 := ⟨fuel - 1, by omega⟩
      rw [skipStars, Nat.add_zero, readAt_start, readAt_cons_zero, ok_bind]
      by_cases hc : c = STAR
      · subst hc
        obtain ⟨pattern, hskip⟩ := ih (before ++ [STAR]) (Nat.lt_of_succ_lt_succ hfuel)
        rw [List.append_assoc, List.length_append, List.length_singleton] at hskip
        refine ⟨pattern, ?_⟩
        rw [if_pos rfl, List.dropWhile_cons_of_pos (by simp), ← hskip, List.length_cons]
        congr 1
        omega
      · rw [if_neg hc, List.dropWhile_cons_of_neg (by simpa using hc)]
        exact ⟨before.length, rfl⟩

-- A run of stars, up to its last.
theorem skipStars_run (before rest : Bytes) {fuel : Nat} (hfuel : rest.length < fuel) :
    ∃ passed, before ++ STAR :: rest = passed ++ STAR :: rest.dropWhile (· == STAR) ∧
      skipStars (before ++ STAR :: rest) 1 fuel before.length (rest.length + 1) =
        .ok (passed.length, ((rest.dropWhile (· == STAR)).length + 1 : Int)) := by
  induction rest generalizing before fuel with
  | nil =>
      obtain ⟨fuel, rfl⟩ : ∃ k, fuel = k + 1 := ⟨fuel - 1, by omega⟩
      refine ⟨before, rfl, ?_⟩
      rw [skipStars, readAt_append, readAt_cons_succ, readAt_nil_zero, ok_bind, if_neg (by decide)]
      rfl
  | cons c rest ih =>
      obtain ⟨fuel, rfl⟩ : ∃ k, fuel = k + 1 := ⟨fuel - 1, by omega⟩
      rw [skipStars, readAt_append, readAt_cons_succ, readAt_cons_zero, ok_bind]
      by_cases hc : c = STAR
      · subst hc
        obtain ⟨passed, hsplit, hskip⟩ := ih (before ++ [STAR]) (Nat.lt_of_succ_lt_succ hfuel)
        rw [List.append_assoc] at hsplit hskip
        rw [List.length_append, List.length_singleton] at hskip
        refine ⟨passed, ?_, ?_⟩
        · rw [List.dropWhile_cons_of_pos (by simp)]
          exact hsplit
        · rw [if_pos rfl, List.dropWhile_cons_of_pos (by simp), ← hskip, List.length_cons]
          congr 1
          omega
      · rw [if_neg hc, List.dropWhile_cons_of_neg (by simpa using hc)]
        exact ⟨before, rfl, rfl⟩

theorem tryPlaces_eq {matchRest : Nat → Int → Except Fault Bool}
    {matchList : Bytes → Except Fault Bool} {str : Bytes}
    (h : ∀ passed left, str = passed ++ left → left ≠ [] →
      matchRest passed.length left.length = matchList left)
    (passed left : Bytes) (hstr : str = passed ++ left) {fuel : Nat} (hfuel : left.length < fuel) :
    tryPlaces matchRest fuel passed.length left.length = matchStar matchList left := by
  induction left generalizing passed fuel with
  | nil =>
      obtain ⟨fuel, rfl⟩ : ∃ k, fuel = k + 1 := ⟨fuel - 1, by omega⟩
      rw [tryPlaces, List.length_nil]
      rfl
  | cons char left ih =>
      obtain ⟨fuel, rfl⟩ : ∃ k, fuel = k + 1 := ⟨fuel - 1, by omega⟩
      have hrest := ih (passed ++ [char]) (by rw [hstr]; simp) (Nat.lt_of_succ_lt_succ hfuel)
      rw [List.length_append, List.length_singleton] at hrest
      have hlen : ((char :: left).length : Int) - 1 = left.length := by
        rw [List.length_cons]
        omega
      rw [tryPlaces, if_neg (by rw [List.length_cons]; omega),
        h passed _ hstr (List.cons_ne_nil _ _), matchStar, hlen, hrest]

end Stars

section Class

variable {str : Bytes} {no_case : Bool} {string : Nat} {char : UInt8}

-- What the loop over a class comes to: the pointer stops one before the rest of the
-- pattern.
def ClassResult (no_case : Bool) (char : UInt8) (pat : Bytes) (isMatch : Bool)
    (parsed : Option (List ClassMember × Bytes)) (result : Except Fault (Bool × Nat × Int)) :
    Prop :=
  match parsed with
  | none => result = .error .outOfBounds
  | some (members, behind) =>
      ∃ passed, pat = passed ++ behind ∧ passed ≠ [] ∧
        result = .ok
          (isMatch || members.any (·.has no_case char), passed.length - 1, behind.length + 1)

theorem ClassResult.member {pat : Bytes} {isMatch : Bool} {m : ClassMember} {rest behind : Bytes}
    {result : Except Fault (Bool × Nat × Int)} (hstep : classStep rest = .member m behind)
    (h : ClassResult no_case char pat (isMatch || m.has no_case char) (parseClass behind) result) :
    ClassResult no_case char pat isMatch (parseClass rest) result := by
  rw [parseClass_member hstep]
  cases hparse : parseClass behind with
  | none =>
      rw [hparse] at h
      exact h
  | some parsed =>
      obtain ⟨members, last⟩ := parsed
      rw [hparse] at h
      obtain ⟨passed, hpat, hne, hresult⟩ := h
      refine ⟨passed, hpat, hne, ?_⟩
      rw [hresult, Bool.or_assoc]
      rfl

theorem classLoop_eq (hchar : readAt str string = .ok char) (before rest : Bytes)
    (hbefore : before ≠ []) {fuel : Nat} (hfuel : rest.length + 1 < fuel)
    (isMatch : Bool) :
    ClassResult no_case char (before ++ rest) isMatch (parseClass rest)
      (classLoop (before ++ rest) str no_case string fuel before.length rest.length isMatch) := by
  induction fuel generalizing before rest isMatch with
  | zero => omega
  | succ fuel ih =>
      -- The rest of the loop behind some more bytes of the class.
      have hmore : ∀ (more behind : Bytes) (isMatch : Bool), more ≠ [] → rest = more ++ behind →
          ClassResult no_case char (before ++ rest) isMatch (parseClass behind)
            (classLoop (before ++ rest) str no_case string fuel (before.length + more.length)
              (rest.length - more.length) isMatch) := by
        rintro more behind isMatch hmore rfl
        have hlen := List.length_pos_of_ne_nil hmore
        rw [List.length_append] at hfuel
        have hnext := ih (before ++ more) behind (by simp [hbefore]) (by omega) isMatch
        rw [List.append_assoc, List.length_append] at hnext
        have hrest : ((more ++ behind).length : Int) - more.length = behind.length := by
          rw [List.length_append]
          omega
        rw [hrest]
        exact hnext
      rw [classLoop, readAt_start]
      cases rest with
      | nil =>
          rw [readAt_nil_zero, ok_bind, if_neg (by decide), if_neg (by decide), if_pos (by rfl),
            parseClass_stop rfl]
          exact ⟨before, by simp, hbefore, by simp [pure, Except.pure]⟩
      | cons c rest =>
          have hpos : ¬((c :: rest).length : Int) = 0 := by
            rw [List.length_cons]
            omega
          have hsingle (hstep : classStep (c :: rest) = .member (.single c) rest) :
              ClassResult no_case char (before ++ c :: rest) isMatch (parseClass (c :: rest))
                (classLoop (before ++ c :: rest) str no_case string fuel (before.length + 1)
                  ((c :: rest).length - 1) (isMatch || sameChar no_case c char)) :=
            ClassResult.member hstep (hmore [c] rest _ (List.cons_ne_nil _ _) rfl)
          rw [readAt_cons_zero, ok_bind]
          by_cases hescape : c = BACKSLASH
          · subst hescape
            rw [if_pos rfl, readAt_append, readAt_cons_succ]
            cases rest with
            | nil =>
                -- The pointer is past the terminator at the next turn.
                obtain ⟨fuel, rfl⟩ : ∃ k, fuel = k + 1 :=
                  ⟨fuel - 1, by rw [List.length_singleton] at hfuel; omega⟩
                have hpast : readAt [BACKSLASH] 2 = .error .outOfBounds := rfl
                rw [readAt_nil_zero, ok_bind, hchar, ok_bind, classLoop, readAt_append, hpast,
                  parseClass_dangling rfl]
                rfl
            | cons escaped rest =>
                have hstep : classStep (BACKSLASH :: escaped :: rest) =
                    .member (.escaped escaped) rest := rfl
                rw [readAt_cons_zero, ok_bind, hchar, ok_bind]
                exact ClassResult.member hstep
                  (hmore [BACKSLASH, escaped] rest _ (List.cons_ne_nil _ _) rfl)
          by_cases hend : c = RBRACKET
          · subst hend
            have hstop : classStep (RBRACKET :: rest) = .stop rest := rfl
            rw [if_neg hescape, if_pos rfl, parseClass_stop hstop]
            exact ⟨before ++ [RBRACKET], by simp, by simp, by simp [pure, Except.pure]⟩
          rw [if_neg hescape, if_neg hend, if_neg hpos, readAt_append, readAt_cons_succ]
          cases rest with
          | nil =>
              rw [readAt_nil_zero, ok_bind, if_neg fun h => absurd h.1 (by decide), hchar, ok_bind]
              exact hsingle (classStep_single hescape hend (by simp))
          | cons dash rest =>
              rw [readAt_cons_zero, ok_bind]
              cases rest with
              | nil =>
                  rw [if_neg fun h => absurd h.2 (by simp), hchar, ok_bind]
                  exact hsingle (classStep_single hescape hend (by simp))
              | cons last rest =>
                  have hlong : ((c :: dash :: last :: rest).length : Int) ≥ 3 := by
                    simp only [List.length_cons]
                    omega
                  by_cases hdash : dash = DASH
                  · subst hdash
                    have hstep := classStep_range hescape hend last rest
                    rw [if_pos ⟨rfl, hlong⟩, readAt_append, readAt_cons_succ, readAt_cons_succ,
                      readAt_cons_zero, ok_bind, hchar, ok_bind]
                    exact ClassResult.member hstep
                      (hmore [c, DASH, last] rest _ (List.cons_ne_nil _ _) rfl)
                  · rw [if_neg fun h => hdash h.1, hchar, ok_bind]
                    refine hsingle (classStep_single hescape hend fun last' rest' h => ?_)
                    exact hdash (List.cons.inj h).1

end Class

section Open

variable (before rest : Bytes)

theorem readAt_caret : ∃ d, readAt (before ++ LBRACKET :: rest) (before.length + 1) = .ok d ∧
    (d == CARET) = (rest.head? == some CARET) := by
  rw [readAt_append, readAt_cons_succ]
  cases rest with
  | nil => exact ⟨NUL, rfl, rfl⟩
  | cons d rest => exact ⟨d, rfl, rfl⟩

theorem classBody_start : ∃ opened, before ++ LBRACKET :: rest = opened ++ classBody rest ∧
    opened ≠ [] ∧ opened.length = before.length + (if rest.head? == some CARET then 2 else 1) ∧
    ((classBody rest).length : Int) = (LBRACKET :: rest).length -
      ((if rest.head? == some CARET then 2 else 1 : Nat) : Int) := by
  rw [classBody]
  split_ifs with hcaret
  · obtain ⟨rest, rfl⟩ : ∃ behind, rest = CARET :: behind := by
      cases rest with
      | nil => cases hcaret
      | cons d rest => exact ⟨rest, by rw [Option.some.inj (eq_of_beq hcaret)]⟩
    refine ⟨before ++ [LBRACKET, CARET], by simp, by simp, by simp, ?_⟩
    simp only [List.tail_cons, List.length_cons]
    omega
  · refine ⟨before ++ [LBRACKET], by simp, by simp, by simp, ?_⟩
    rw [List.length_cons]
    omega

end Open

section Turns

-- A matcher on offsets comes to the same as one on the rests of the two strings.
def Agree (pat str : Bytes) (matchRest : Nat → Int → Nat → Int → Except Fault Bool)
    (matchList : Bytes → Bytes → Except Fault Bool) : Prop :=
  ∀ before rest passed left, pat = before ++ rest → str = passed ++ left → left ≠ [] →
    matchRest before.length rest.length passed.length left.length = matchList rest left

variable {pat str : Bytes} {matchRest : Nat → Int → Nat → Int → Except Fault Bool}
  {matchList : Bytes → Bytes → Except Fault Bool} (hagree : Agree pat str matchRest matchList)

include hagree

-- The pointer is one before the rest of the pattern.
theorem endTurn_eq {passed left done behind : Bytes} {char : UInt8}
    (hstr : str = passed ++ char :: left) (hdone : pat = done ++ behind) (hne : done ≠ []) :
    endTurn pat matchRest passed.length (char :: left).length (done.length - 1)
        (behind.length + 1) =
      if left = [] then return (behind.dropWhile (· == STAR)).isEmpty
      else matchList behind left := by
  have hpos := List.length_pos_of_ne_nil hne
  have hlen : ((char :: left).length : Int) - 1 = left.length := by
    rw [List.length_cons]
    omega
  rw [endTurn, hlen, Nat.sub_add_cancel hpos, Int.add_sub_cancel]
  by_cases hempty : left = []
  · obtain ⟨pattern, hskip⟩ := @skipStars_end done behind (pat.length + 1)
      (by rw [hdone, List.length_append]; omega)
    rw [← hdone] at hskip
    rw [if_pos hempty, if_pos (by rw [hempty]; rfl), hskip, ok_bind]
    cases behind.dropWhile (· == STAR) <;> rfl
  · have hsome := List.length_pos_of_ne_nil hempty
    have hrest := hagree done behind (passed ++ [char]) left hdone (by rw [hstr]; simp) hempty
    rw [List.length_append, List.length_singleton] at hrest
    rw [if_neg hempty, if_neg (by omega)]
    exact hrest

-- The turn of a star.
theorem starTurn_eq {before rest passed left : Bytes} (hpat : pat = before ++ STAR :: rest)
    (hstr : str = passed ++ left) :
    (do
      let (pattern, pat_len) ←
        skipStars pat 1 (pat.length + 1) before.length (STAR :: rest).length
      if pat_len = 1 then return true
      else
        tryPlaces (matchRest (pattern + 1) (pat_len - 1)) (str.length + 1) passed.length
          left.length) =
      if rest.dropWhile (· == STAR) = [] then return true
      else matchStar (matchList (rest.dropWhile (· == STAR))) left := by
  obtain ⟨run, hrun, hskip⟩ := @skipStars_run before rest (pat.length + 1)
    (by rw [hpat, List.length_append, List.length_cons]; omega)
  rw [← hpat] at hrun hskip
  have hplaces := @tryPlaces_eq
    (matchRest (run.length + 1) ((rest.dropWhile (· == STAR)).length + 1 - 1))
    (matchList (rest.dropWhile (· == STAR))) str
    (fun passed left hstr hleft => by
      have hrest := hagree (run ++ [STAR]) (rest.dropWhile (· == STAR)) passed left
        (by rw [hrun]; simp) hstr hleft
      rw [List.length_append, List.length_singleton] at hrest
      rw [Int.add_sub_cancel]
      exact hrest)
    passed left hstr (str.length + 1) (by rw [hstr, List.length_append]; omega)
  have hcons : ((STAR :: rest).length : Int) = rest.length + 1 := by
    rw [List.length_cons]
    rfl
  rw [hcons, hskip, ok_bind]
  dsimp only
  rw [hplaces]
  cases rest.dropWhile (· == STAR) with
  | nil => rfl
  | cons d behind =>
      rw [if_neg (by rw [List.length_cons]; omega), if_neg (List.cons_ne_nil _ _)]

-- The turn of a class.
theorem classTurn_eq {no_case : Bool} {before rest passed left : Bytes} {char : UInt8}
    (hpat : pat = before ++ LBRACKET :: rest) (hstr : str = passed ++ char :: left) :
    (do
      let negated := (← readAt pat (before.length + 1)) == CARET
      let start := if negated then 2 else 1
      let (isMatch, pattern, pat_len) ←
        classLoop pat str no_case passed.length (pat.length + 2) (before.length + start)
          ((LBRACKET :: rest).length - start) false
      if isMatch == negated then return false
      else endTurn pat matchRest passed.length (char :: left).length pattern pat_len) =
    (do
      let negated := rest.head? == some CARET
      let (isMatch, pattern) ←
        matchClass no_case char (rest.length + 1) false (if negated then rest.tail else rest)
      if isMatch == negated then return false
      else if left = [] then return (pattern.dropWhile (· == STAR)).isEmpty
      else matchList pattern left) := by
  have hchar : readAt str passed.length = .ok char := by
    rw [hstr, readAt_start, readAt_cons_zero]
  obtain ⟨d, hcaret, hnegated⟩ := readAt_caret before rest
  obtain ⟨opened, hopened, hne, hstart, hcount⟩ := classBody_start before rest
  rw [← hpat] at hcaret hopened
  have hloop := @classLoop_eq str no_case passed.length char hchar opened (classBody rest)
    hne (pat.length + 2) (by rw [hopened, List.length_append]; omega) false
  rw [← hopened, hstart, hcount] at hloop
  rw [hcaret, ok_bind, hnegated]
  dsimp only
  change _ = (matchClass no_case char (rest.length + 1) false (classBody rest) >>= _)
  rw [matchClass_eq (Nat.lt_succ_of_le (classBody_length rest)) false]
  cases hparse : parseClass (classBody rest) with
  | none =>
      rw [hparse] at hloop
      rw [hloop]
      rfl
  | some parsed =>
      obtain ⟨members, behind⟩ := parsed
      rw [hparse] at hloop
      obtain ⟨done, hdone, hsome, hresult⟩ := hloop
      rw [hresult, ok_bind]
      dsimp only [ok_bind]
      congr 1
      exact endTurn_eq hagree hstr hdone hsome

end Turns

-- The matcher on offsets and the one on the rests of the two strings take the same turns.
theorem matchAt_eq (pat str : Bytes) (no_case : Bool) (fuel : Nat) :
    Agree pat str (matchAt pat str no_case fuel) (stringMatchLoop no_case fuel) := by
  induction fuel with
  | zero => exact fun _ _ _ _ _ _ _ => rfl
  | succ fuel ih =>
      intro before rest passed left hpat hstr hleft
      obtain ⟨char, left, rfl⟩ := List.exists_cons_of_ne_nil hleft
      rw [matchAt]
      cases rest with
      | nil => rfl
      | cons c rest =>
          have hchar : readAt str passed.length = .ok char := by
            rw [hstr, readAt_start, readAt_cons_zero]
          have hread : readAt pat before.length = .ok c := by
            rw [hpat, readAt_start, readAt_cons_zero]
          have hsome : ¬((char :: left).length : Int) = 0 := by
            rw [List.length_cons]
            omega
          have hmore : ¬((c :: rest).length : Int) = 0 := by
            rw [List.length_cons]
            omega
          have hnext := @endTurn_eq _ _ _ _ ih passed left (before ++ [c]) rest char hstr
            (by rw [hpat]; simp) (by simp)
          rw [List.length_append, List.length_singleton, Nat.add_sub_cancel] at hnext
          rw [stringMatchLoop.eq_def]
          dsimp only
          rw [if_neg hmore, hread, ok_bind]
          by_cases hstar : c = STAR
          · subst hstar
            rw [if_pos rfl, if_pos rfl]
            exact starTurn_eq ih hpat hstr
          by_cases hany : c = QUESTION
          · rw [if_neg hstar, if_pos hany, if_neg hsome, if_neg hstar, if_pos hany]
            exact hnext
          by_cases hclass : c = LBRACKET
          · subst hclass
            rw [if_neg hstar, if_neg hany, if_pos rfl, if_neg hstar, if_neg hany, if_pos rfl]
            exact classTurn_eq ih hpat hstr
          rw [if_neg hstar, if_neg hany, if_neg hclass, if_neg hstar, if_neg hany, if_neg hclass]
          by_cases hescape : c = BACKSLASH
          · subst hescape
            rw [if_pos rfl]
            cases rest with
            | nil =>
                rw [if_neg fun h => absurd h.2 (by decide), Nat.add_zero, hread, ok_bind, hchar,
                  ok_bind]
                dsimp only
                rw [← hnext]
                rfl
            | cons escaped rest =>
                have hthere := @endTurn_eq _ _ _ _ ih passed left (before ++ [BACKSLASH, escaped])
                  rest char hstr (by rw [hpat]; simp) (by simp)
                rw [List.length_append] at hthere
                have hlong : ((BACKSLASH :: escaped :: rest).length : Int) ≥ 2 := by
                  simp only [List.length_cons]
                  omega
                have hread : readAt pat (before.length + 1) = .ok escaped := by
                  rw [hpat, readAt_append, readAt_cons_succ, readAt_cons_zero]
                have hcount : ((BACKSLASH :: escaped :: rest).length : Int) - ((1 : Nat) : Int) =
                    rest.length + 1 := by
                  simp only [List.length_cons]
                  omega
                rw [if_pos ⟨rfl, hlong⟩, hread, ok_bind, hchar, ok_bind, hcount]
                dsimp only
                rw [← hthere]
                rfl
          · rw [if_neg hescape, if_neg fun h => hescape h.1, Nat.add_zero, hread, ok_bind, hchar,
              ok_bind, ← hnext]
            rfl

theorem stringMatchAt_eq (pat : Bytes) {str : Bytes} (no_case : Bool) (h : str ≠ []) :
    stringMatchAt pat str no_case = globResult (parsePattern no_case pat) str := by
  rw [← stringMatchLoop_eq (Nat.lt_succ_self pat.length) h]
  exact matchAt_eq pat str no_case (pat.length + 1) [] pat [] str rfl rfl h

-- Every read of the two strings is in bounds, and the matcher ends, except on a pattern
-- whose class is cut off behind a backslash, where a string gets as far as that class.
theorem stringMatch_in_bounds_iff (pat str : Bytes) (no_case : Bool) (h : str ≠ []) :
    (∃ b, stringMatchAt pat str no_case = .ok b) ↔
      ¬((parsePattern no_case pat).dangling = true ∧
        Reaches (parsePattern no_case pat).pieces str) := by
  rw [stringMatchAt_eq pat no_case h, globResult, verdict]
  split_ifs with hfault
  · refine ⟨?_, fun hno => absurd hfault hno⟩
    rintro ⟨b, hb⟩
    cases hb
  · exact ⟨fun _ => hfault, fun _ => ⟨_, rfl⟩⟩

theorem stringMatch_in_bounds_star : ∃ b, stringMatchAt [97, STAR] [97, 98] false = .ok b :=
  (stringMatch_in_bounds_iff [97, STAR] [97, 98] false (List.cons_ne_nil _ _)).mpr
    fun h => absurd h.1 (by
      rw [parsePattern_piece rfl, parsePattern_star, parsePattern_nil]
      exact Bool.false_ne_true)

-- The class loop runs over the end of the pattern "[\".
theorem stringMatch_open_class :
    stringMatchAt [LBRACKET, BACKSLASH] [97] false = .error .outOfBounds := by decide

end Cutis

import Cutis.Lib.Wildcard
import Cutis.StringMatch

namespace Cutis

open Wildcard

inductive ClassMember
  | single (c : UInt8)
  | escaped (c : UInt8)
  | range (first last : UInt8)
deriving DecidableEq, Repr

def ClassMember.has (no_case : Bool) (char : UInt8) : ClassMember → Bool
  | .single c => sameChar no_case c char
  | .escaped c => c == char
  | .range first last => inRange no_case first last char

-- What comes next in a class: its end, a member, or a backslash right before the end of
-- the pattern.
inductive ClassStep
  | stop (rest : Bytes)
  | dangling
  | member (m : ClassMember) (rest : Bytes)

def classStep : Bytes → ClassStep
  | [] => .stop []
  | c :: pattern =>
      if c = BACKSLASH then
        match pattern with
        | [] => .dangling
        | escaped :: pattern => .member (.escaped escaped) pattern
      else if c = RBRACKET then .stop pattern
      else
        match pattern with
        | dash :: last :: rest =>
            if dash = DASH then .member (.range c last) rest else .member (.single c) pattern
        | _ => .member (.single c) pattern

theorem classStep_range {c : UInt8} (hescape : c ≠ BACKSLASH) (hend : c ≠ RBRACKET) (last : UInt8)
    (rest : Bytes) : classStep (c :: DASH :: last :: rest) = .member (.range c last) rest := by
  rw [classStep.eq_def]
  dsimp only
  rw [if_neg hescape, if_neg hend, if_pos rfl]

theorem classStep_single {c : UInt8} {pattern : Bytes} (hescape : c ≠ BACKSLASH)
    (hend : c ≠ RBRACKET) (hdash : ∀ last rest, pattern ≠ DASH :: last :: rest) :
    classStep (c :: pattern) = .member (.single c) pattern := by
  rw [classStep.eq_def]
  dsimp only
  rw [if_neg hescape, if_neg hend]
  split
  · rename_i dash last rest
    rw [if_neg fun h => hdash last rest (by rw [h])]
  · rfl

theorem classStep_length {pattern rest : Bytes} {m : ClassMember}
    (h : classStep pattern = .member m rest) : rest.length < pattern.length := by
  unfold classStep at h
  split at h
  · cases h
  · split_ifs at h
    · split at h <;> cases h
      simp only [List.length_cons]
      omega
    · split at h
      · split_ifs at h <;> cases h <;> simp only [List.length_cons] <;> omega
      · cases h
        exact Nat.lt_succ_self _

theorem classStep_stop_length {pattern rest : Bytes} (h : classStep pattern = .stop rest) :
    rest.length ≤ pattern.length := by
  unfold classStep at h
  split at h
  · cases h
    exact Nat.le_refl _
  · split_ifs at h
    · split at h <;> cases h
    · cases h
      simp
    · split at h
      · split_ifs at h
      · cases h

-- The members of a class and the pattern behind it.
def parseClass (pattern : Bytes) : Option (List ClassMember × Bytes) :=
  match _h : classStep pattern with
  | .stop rest => some ([], rest)
  | .dangling => none
  | .member m rest => (parseClass rest).map (Prod.map (m :: ·) id)
termination_by pattern.length
decreasing_by exact classStep_length _h

section Class

variable {no_case : Bool} {char : UInt8} {pattern rest : Bytes} {m : ClassMember}

theorem parseClass_stop (h : classStep pattern = .stop rest) :
    parseClass pattern = some ([], rest) := by
  rw [parseClass]
  split <;> simp_all

theorem parseClass_dangling (h : classStep pattern = .dangling) : parseClass pattern = none := by
  rw [parseClass]
  split <;> simp_all

theorem parseClass_member (h : classStep pattern = .member m rest) :
    parseClass pattern = (parseClass rest).map (Prod.map (m :: ·) id) := by
  rw [parseClass]
  split <;> simp_all

theorem parseClass_length {members : List ClassMember}
    (h : parseClass pattern = some (members, rest)) : rest.length ≤ pattern.length := by
  induction hn : pattern.length using Nat.strong_induction_on generalizing pattern members with
  | _ n ih =>
      cases hstep : classStep pattern with
      | stop behind =>
          rw [parseClass_stop hstep] at h
          cases h
          exact hn ▸ classStep_stop_length hstep
      | dangling =>
          rw [parseClass_dangling hstep] at h
          cases h
      | member m behind =>
          rw [parseClass_member hstep] at h
          obtain ⟨⟨members', rest'⟩, hparse, heq⟩ := Option.map_eq_some_iff.mp h
          cases heq
          have hlt := classStep_length hstep
          exact Nat.le_of_lt (Nat.lt_of_le_of_lt (ih _ (hn ▸ hlt) hparse rfl) (hn ▸ hlt))

-- One turn of the loop over a class.
theorem matchClass_step (fuel : Nat) (isMatch : Bool) (pattern : Bytes) :
    matchClass no_case char (fuel + 1) isMatch pattern =
      match classStep pattern with
      | .stop rest => .ok (isMatch, rest)
      | .dangling => .error .outOfBounds
      | .member m rest => matchClass no_case char fuel (isMatch || m.has no_case char) rest := by
  cases pattern with
  | nil => rfl
  | cons c pattern =>
      rw [matchClass.eq_def, classStep.eq_def]
      dsimp only
      split_ifs
      · cases pattern <;> rfl
      · rfl
      · cases pattern with
        | nil => rfl
        | cons dash pattern =>
            cases pattern with
            | nil => rfl
            | cons last rest =>
                dsimp only
                split_ifs <;> rfl

theorem matchClass_eq {fuel : Nat} (hfuel : pattern.length < fuel) (isMatch : Bool) :
    matchClass no_case char fuel isMatch pattern =
      match parseClass pattern with
      | none => .error .outOfBounds
      | some (members, rest) => .ok (isMatch || members.any (·.has no_case char), rest) := by
  induction fuel generalizing pattern isMatch with
  | zero => cases hfuel
  | succ fuel ih =>
      rw [matchClass_step]
      cases hstep : classStep pattern with
      | stop rest => simp [parseClass_stop hstep]
      | dangling => simp [parseClass_dangling hstep]
      | member m rest =>
          have hlt := classStep_length hstep
          show matchClass no_case char fuel _ rest = _
          rw [parseClass_member hstep, ih (by omega)]
          cases parseClass rest with
          | none => rfl
          | some result => simp [Bool.or_assoc]

end Class

-- The members of a class, from one past its bracket.
def classBody (pattern : Bytes) : Bytes :=
  if pattern.head? == some CARET then pattern.tail else pattern

def classPiece (no_case : Bool) (pattern : Bytes) (members : List ClassMember) : Piece UInt8 :=
  .one fun char => members.any (·.has no_case char) != (pattern.head? == some CARET)

-- What comes next in a pattern: its end, a piece, or a class that a backslash leaves
-- without an end.
inductive PatternStep
  | stop
  | dangling
  | piece (p : Piece UInt8) (rest : Bytes)

def patternStep (no_case : Bool) : Bytes → PatternStep
  | [] => .stop
  | c :: pattern =>
      if c = STAR then .piece .star pattern
      else if c = QUESTION then .piece (.one fun _ => true) pattern
      else if c = LBRACKET then
        match parseClass (classBody pattern) with
        | none => .dangling
        | some (members, rest) => .piece (classPiece no_case pattern members) rest
      else if c = BACKSLASH then
        match pattern with
        | [] => .piece (.one (sameChar no_case BACKSLASH)) []
        | escaped :: pattern => .piece (.one (sameChar no_case escaped)) pattern
      else .piece (.one (sameChar no_case c)) pattern

theorem classBody_length (pattern : Bytes) : (classBody pattern).length ≤ pattern.length := by
  rw [classBody]
  split_ifs
  · rw [List.length_tail]
    exact Nat.sub_le _ _
  · exact Nat.le_refl _

theorem patternStep_length {no_case : Bool} {pattern rest : Bytes} {p : Piece UInt8}
    (h : patternStep no_case pattern = .piece p rest) : rest.length < pattern.length := by
  cases pattern with
  | nil => cases h
  | cons c pattern =>
      have hbody := classBody_length pattern
      rw [patternStep.eq_def] at h
      dsimp only at h
      rw [List.length_cons]
      split_ifs at h
      · cases h
        exact Nat.lt_succ_self _
      · cases h
        exact Nat.lt_succ_self _
      · cases hclass : parseClass (classBody pattern) with
        | none =>
            rw [hclass] at h
            cases h
        | some result =>
            obtain ⟨members, behind⟩ := result
            rw [hclass] at h
            cases h
            have hle := parseClass_length hclass
            omega
      · cases pattern with
        | nil =>
            cases h
            exact Nat.lt_succ_self _
        | cons escaped pattern =>
            cases h
            rw [List.length_cons]
            omega
      · cases h
        exact Nat.lt_succ_self _

-- The pieces of a pattern, and whether a class without an end follows them.
structure GlobPattern where
  pieces : List (Piece UInt8)
  dangling : Bool

def GlobPattern.cons (p : Piece UInt8) (g : GlobPattern) : GlobPattern :=
  { g with pieces := p :: g.pieces }

def parsePattern (no_case : Bool) (pattern : Bytes) : GlobPattern :=
  match _h : patternStep no_case pattern with
  | .stop => { pieces := [], dangling := false }
  | .dangling => { pieces := [], dangling := true }
  | .piece p rest => (parsePattern no_case rest).cons p
termination_by pattern.length
decreasing_by exact patternStep_length _h

section Parse

variable {no_case : Bool} {pattern rest : Bytes} {p : Piece UInt8}

theorem parsePattern_stop (h : patternStep no_case pattern = .stop) :
    parsePattern no_case pattern = { pieces := [], dangling := false } := by
  rw [parsePattern]
  split <;> simp_all

theorem parsePattern_dangling (h : patternStep no_case pattern = .dangling) :
    parsePattern no_case pattern = { pieces := [], dangling := true } := by
  rw [parsePattern]
  split <;> simp_all

theorem parsePattern_piece (h : patternStep no_case pattern = .piece p rest) :
    parsePattern no_case pattern = (parsePattern no_case rest).cons p := by
  rw [parsePattern]
  split <;> simp_all

theorem parsePattern_nil : parsePattern no_case [] = { pieces := [], dangling := false } :=
  parsePattern_stop rfl

theorem parsePattern_star :
    parsePattern no_case (STAR :: pattern) = (parsePattern no_case pattern).cons .star :=
  parsePattern_piece rfl

end Parse

open Classical in
noncomputable def verdict (faults succeeds : Prop) : Except Fault Bool :=
  if faults then .error .outOfBounds else .ok (decide succeeds)

section Verdict

variable {faults faults' succeeds succeeds' : Prop} {b : Bool}

theorem verdict_congr (hf : faults ↔ faults') (hs : succeeds ↔ succeeds') :
    verdict faults succeeds = verdict faults' succeeds' := by
  rw [propext hf, propext hs]

theorem verdict_fault (h : faults) : verdict faults succeeds = .error .outOfBounds := if_pos h

theorem verdict_ok (h : ¬faults) (hb : b = true ↔ succeeds) : verdict faults succeeds = .ok b := by
  classical
  rw [verdict, if_neg h, Except.ok.injEq, Bool.eq_iff_iff, hb, decide_eq_true_iff]

end Verdict

-- What StringMatch makes of a pattern: it reads on where the end of a class is missing,
-- if some of the string is left there.
noncomputable def globResult (g : GlobPattern) (string : Bytes) : Except Fault Bool :=
  verdict (g.dangling = true ∧ Reaches g.pieces string)
    (g.dangling = false ∧ Matches g.pieces string)

section Result

variable {g : GlobPattern} {accepts : UInt8 → Bool} {char : UInt8} {string : Bytes}

theorem globResult_empty {b : Bool} (h : b = true ↔ g.dangling = false ∧ Matches g.pieces []) :
    globResult g [] = .ok b :=
  verdict_ok (fun hreach => not_reaches_empty hreach.2) h

theorem globResult_one :
    globResult (g.cons (.one accepts)) (char :: string) =
      if accepts char then globResult g string else .ok false := by
  split_ifs with haccepts
  · refine verdict_congr ?_ ?_
    · simp [GlobPattern.cons, reaches_one_cons, haccepts]
    · simp [GlobPattern.cons, matches_one_cons, haccepts]
  · refine verdict_ok ?_ ?_
    · simp [GlobPattern.cons, reaches_one_cons, haccepts]
    · simp [GlobPattern.cons, matches_one_cons, haccepts]

theorem globResult_star_star :
    globResult ((g.cons .star).cons .star) string = globResult (g.cons .star) string :=
  verdict_congr (and_congr_right' reaches_star_star) (and_congr_right' matches_star_star)

theorem globResult_dangling (h : string ≠ []) :
    globResult { pieces := [], dangling := true } string = .error .outOfBounds :=
  verdict_fault ⟨rfl, reaches_nil.mpr h⟩

-- A star at the end.
theorem globResult_star_end :
    globResult { pieces := [.star], dangling := false } string = .ok true := by
  have hmatch : Matches [Piece.star] string :=
    matches_star.mpr ⟨[], List.nil_suffix, matches_nil.mpr rfl⟩
  exact verdict_ok (by simp) (iff_of_true rfl ⟨rfl, hmatch⟩)

-- The loop of a star tries every place, up to the first that matches or faults.
theorem matchStar_eq (hempty : ¬(g.dangling = false ∧ Matches g.pieces []))
    {matchRest : Bytes → Except Fault Bool}
    (hrest : ∀ string, string ≠ [] → matchRest string = globResult g string) :
    matchStar matchRest string = globResult (g.cons .star) string := by
  induction string with
  | nil =>
      refine (globResult_empty ?_).symm
      simp only [GlobPattern.cons, matches_star_empty, Bool.false_eq_true, false_iff]
      exact hempty
  | cons char string ih =>
      rw [matchStar, hrest _ (List.cons_ne_nil _ _), ih]
      by_cases hreach : g.dangling = true ∧ Reaches g.pieces (char :: string)
      · have hhere : globResult g (char :: string) = .error .outOfBounds := verdict_fault hreach
        have hstar : globResult (g.cons .star) (char :: string) = .error .outOfBounds :=
          verdict_fault ⟨hreach.1, reaches_star_cons.mpr (Or.inl hreach.2)⟩
        rw [hhere, hstar]
        rfl
      · by_cases hmatch : g.dangling = false ∧ Matches g.pieces (char :: string)
        · have hnone : ¬(g.dangling = true ∧ Reaches (.star :: g.pieces) (char :: string)) := by
            simp [hmatch.1]
          rw [globResult, verdict_ok hreach (iff_of_true rfl hmatch), ok_bind, if_pos rfl,
            globResult]
          exact (verdict_ok hnone
            (iff_of_true rfl ⟨hmatch.1, matches_star_cons.mpr (Or.inl hmatch.2)⟩)).symm
        · rw [globResult, verdict_ok hreach (iff_of_false Bool.false_ne_true hmatch), ok_bind,
            if_neg Bool.false_ne_true]
          refine verdict_congr (and_congr_right fun hd => ?_) (and_congr_right fun hd => ?_)
          · have hhere : ¬Reaches g.pieces (char :: string) := fun h => hreach ⟨hd, h⟩
            simp [GlobPattern.cons, reaches_star_cons, hhere]
          · have hhere : ¬Matches g.pieces (char :: string) := fun h => hmatch ⟨hd, h⟩
            simp [GlobPattern.cons, matches_star_cons, hhere]

end Result

section Stars

variable {no_case : Bool} {string : Bytes}

-- A run of stars stands for one.
theorem globResult_stars (pattern : Bytes) :
    globResult (parsePattern no_case (STAR :: pattern)) string =
      globResult ((parsePattern no_case (pattern.dropWhile (· == STAR))).cons .star) string := by
  induction pattern with
  | nil => rw [parsePattern_star, List.dropWhile_nil]
  | cons c pattern ih =>
      by_cases hc : c = STAR
      · subst hc
        rw [parsePattern_star, parsePattern_star, globResult_star_star, ← parsePattern_star, ih,
          List.dropWhile_cons_of_pos (by simp)]
      · rw [parsePattern_star, List.dropWhile_cons_of_neg (by simpa using hc)]

theorem patternStep_one {c : UInt8} (hc : c ≠ STAR) (pattern : Bytes) :
    patternStep no_case (c :: pattern) = .dangling ∨
      ∃ accepts rest, patternStep no_case (c :: pattern) = .piece (.one accepts) rest := by
  rw [patternStep.eq_def]
  dsimp only
  rw [if_neg hc]
  split_ifs
  · exact Or.inr ⟨_, _, rfl⟩
  · cases parseClass (classBody pattern) with
    | none => exact Or.inl rfl
    | some result => exact Or.inr ⟨_, _, rfl⟩
  · cases pattern with
    | nil => exact Or.inr ⟨_, _, rfl⟩
    | cons escaped pattern => exact Or.inr ⟨_, _, rfl⟩
  · exact Or.inr ⟨_, _, rfl⟩

-- A pattern that begins with no star does not match the empty string.
theorem not_matches_empty {c : UInt8} (hc : c ≠ STAR) (pattern : Bytes) :
    ¬((parsePattern no_case (c :: pattern)).dangling = false ∧
      Matches (parsePattern no_case (c :: pattern)).pieces []) := by
  rintro ⟨hdangling, hmatches⟩
  rcases @patternStep_one no_case c hc pattern with hstep | ⟨accepts, rest, hstep⟩
  · rw [parsePattern_dangling hstep] at hdangling
    cases hdangling
  · rw [parsePattern_piece hstep] at hmatches
    exact not_matches_one_empty hmatches

-- Behind the end of the string only stars match.
theorem globResult_at_end (pattern : Bytes) :
    globResult (parsePattern no_case pattern) [] = .ok (pattern.dropWhile (· == STAR)).isEmpty := by
  refine globResult_empty ?_
  induction pattern with
  | nil =>
      rw [parsePattern_nil]
      exact iff_of_true rfl ⟨rfl, matches_nil.mpr rfl⟩
  | cons c pattern ih =>
      by_cases hc : c = STAR
      · subst hc
        rw [List.dropWhile_cons_of_pos (by simp), ih, parsePattern_star]
        exact and_congr_right' matches_star_empty.symm
      · rw [List.dropWhile_cons_of_neg (by simpa using hc)]
        exact iff_of_false Bool.false_ne_true (not_matches_empty hc pattern)

end Stars

section Turns

variable {no_case : Bool} {n : Nat} {c char : UInt8} {pattern rest string : Bytes}

-- A matcher that is right for every pattern below a length.
def RightBelow (no_case : Bool) (n : Nat) (matchRest : Bytes → Bytes → Except Fault Bool) : Prop :=
  ∀ pattern string, pattern.length < n → string ≠ [] →
    matchRest pattern string = globResult (parsePattern no_case pattern) string

variable {matchRest : Bytes → Bytes → Except Fault Bool} (hright : RightBelow no_case n matchRest)

include hright

-- The turn of a piece that takes one byte.
theorem globResult_oneTurn {accepts : UInt8 → Bool} (hrest : rest.length < n)
    (hstep : patternStep no_case (c :: pattern) = .piece (.one accepts) rest) :
    (if accepts char then
      if string = [] then .ok (rest.dropWhile (· == STAR)).isEmpty else matchRest rest string
    else .ok false) =
      globResult (parsePattern no_case (c :: pattern)) (char :: string) := by
  rw [parsePattern_piece hstep, globResult_one]
  by_cases hempty : string = []
  · rw [if_pos hempty, hempty, globResult_at_end]
  · rw [if_neg hempty, hright rest string hrest hempty]

theorem globResult_starTurn (hpattern : pattern.length < n) :
    (if pattern.dropWhile (· == STAR) = [] then .ok true
    else matchStar (matchRest (pattern.dropWhile (· == STAR))) string) =
      globResult (parsePattern no_case (STAR :: pattern)) string := by
  rw [globResult_stars]
  have hsuffix := List.dropWhile_suffix (l := pattern) (· == STAR)
  have hhead := List.head?_dropWhile_not (· == STAR) pattern
  cases hrest : pattern.dropWhile (· == STAR) with
  | nil =>
      rw [if_pos rfl, parsePattern_nil]
      exact globResult_star_end.symm
  | cons first rest =>
      rw [hrest] at hsuffix hhead
      have hfirst : first ≠ STAR := by simpa using hhead
      have hlength : (first :: rest).length < n :=
        Nat.lt_of_le_of_lt hsuffix.length_le hpattern
      rw [if_neg (List.cons_ne_nil _ _)]
      exact matchStar_eq (not_matches_empty hfirst rest) fun word hword =>
        hright _ word hlength hword

omit hright in
theorem patternStep_class (pattern : Bytes) :
    patternStep no_case (LBRACKET :: pattern) =
      match parseClass (classBody pattern) with
      | none => .dangling
      | some (members, rest) => .piece (classPiece no_case pattern members) rest := by
  rw [patternStep.eq_def]
  dsimp only
  rw [if_neg (by decide), if_neg (by decide), if_pos rfl]

theorem globResult_classTurn (hpattern : pattern.length < n) :
    (do
      let (isMatch, rest) ←
        matchClass no_case char (pattern.length + 1) false (classBody pattern)
      if isMatch == (pattern.head? == some CARET) then return false
      else if string = [] then return (rest.dropWhile (· == STAR)).isEmpty
      else matchRest rest string) =
      globResult (parsePattern no_case (LBRACKET :: pattern)) (char :: string) := by
  have hbody := classBody_length pattern
  have hstep := @patternStep_class no_case pattern
  rw [matchClass_eq (Nat.lt_succ_of_le hbody) false]
  cases hparse : parseClass (classBody pattern) with
  | none =>
      rw [hparse] at hstep
      rw [parsePattern_dangling hstep, globResult_dangling (List.cons_ne_nil _ _)]
      rfl
  | some result =>
      obtain ⟨members, rest⟩ := result
      rw [hparse] at hstep
      have hrest : rest.length < n := by
        have hle := parseClass_length hparse
        omega
      rw [← globResult_oneTurn hright hrest hstep]
      simp only [ok_bind, Bool.false_or]
      by_cases hout : (members.any (·.has no_case char) == (pattern.head? == some CARET)) = true
      · have hnot : ¬(members.any (·.has no_case char) != (pattern.head? == some CARET)) = true := by
          simp only [bne, hout]
          decide
        rw [if_pos hout, if_neg hnot]
        rfl
      · have hin : (members.any (·.has no_case char) != (pattern.head? == some CARET)) = true := by
          simpa only [bne, Bool.not_eq_true', Bool.not_eq_true] using hout
        rw [if_neg hout, if_pos hin]
        rfl

end Turns

theorem stringMatchLoop_eq {no_case : Bool} {fuel : Nat} {pattern string : Bytes}
    (hfuel : pattern.length < fuel) (hstring : string ≠ []) :
    stringMatchLoop no_case fuel pattern string =
      globResult (parsePattern no_case pattern) string := by
  induction fuel generalizing pattern string with
  | zero => cases hfuel
  | succ fuel ih =>
      have hright : RightBelow no_case fuel (stringMatchLoop no_case fuel) :=
        fun _ _ hpattern hstring => ih hpattern hstring
      obtain ⟨char, string, rfl⟩ := List.exists_cons_of_ne_nil hstring
      cases pattern with
      | nil =>
          rw [parsePattern_nil]
          exact (verdict_ok (by simp) (by simp [matches_nil])).symm
      | cons c pattern =>
          have hpattern : pattern.length < fuel := Nat.lt_of_succ_lt_succ hfuel
          rw [stringMatchLoop.eq_def]
          dsimp only
          by_cases hstar : c = STAR
          · subst hstar
            rw [if_pos rfl]
            exact globResult_starTurn hright hpattern
          by_cases hany : c = QUESTION
          · subst hany
            rw [if_neg hstar, if_pos rfl]
            exact @globResult_oneTurn _ _ _ _ _ _ _ _ hright (fun _ => true) hpattern rfl
          by_cases hclass : c = LBRACKET
          · subst hclass
            rw [if_neg hstar, if_neg hany, if_pos rfl]
            exact globResult_classTurn hright hpattern
          by_cases hescape : c = BACKSLASH
          · subst hescape
            rw [if_neg hstar, if_neg hany, if_neg hclass, if_pos rfl]
            cases pattern with
            | nil => exact globResult_oneTurn hright hpattern rfl
            | cons escaped pattern =>
                exact globResult_oneTurn hright (Nat.lt_of_succ_lt hpattern) rfl
          · rw [if_neg hstar, if_neg hany, if_neg hclass, if_neg hescape]
            refine globResult_oneTurn hright hpattern ?_
            rw [patternStep.eq_def]
            dsimp only
            rw [if_neg hstar, if_neg hany, if_neg hclass, if_neg hescape]

end Cutis

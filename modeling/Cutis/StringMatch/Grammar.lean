import Cutis.StringMatch.Pattern

namespace Cutis

open Wildcard

-- The items a pattern is written with.
inductive GlobItem
  | literal (c : UInt8)
  | escaped (c : UInt8)
  | any
  | star
  | cls (negated : Bool) (members : List ClassMember)
deriving DecidableEq, Repr

section Encoding

def ClassMember.encode : ClassMember → Bytes
  | .single c => [c]
  | .escaped c => [BACKSLASH, c]
  | .range first last => [first, DASH, last]

def encodeMembers (members : List ClassMember) : Bytes := members.flatMap ClassMember.encode

def GlobItem.encode : GlobItem → Bytes
  | .literal c => [c]
  | .escaped c => [BACKSLASH, c]
  | .any => [QUESTION]
  | .star => [STAR]
  | .cls negated members =>
      LBRACKET :: ((if negated then [CARET] else []) ++ (encodeMembers members ++ [RBRACKET]))

def encodeItems (items : List GlobItem) : Bytes := items.flatMap GlobItem.encode

end Encoding

section WellFormed

def ClassMember.Ok : ClassMember → Prop
  | .single c | .range c _ => c ≠ RBRACKET ∧ c ≠ BACKSLASH
  | .escaped _ => True

-- No single byte has a dash right behind it.
def MembersOk : List ClassMember → Prop
  | [] => True
  | m :: members =>
      m.Ok ∧ (∀ c, m = .single c → (encodeMembers members).head? ≠ some DASH) ∧ MembersOk members

def GlobItem.Ok : GlobItem → Prop
  | .literal c => c ≠ STAR ∧ c ≠ QUESTION ∧ c ≠ LBRACKET ∧ c ≠ BACKSLASH
  | .escaped _ | .any | .star => True
  | .cls negated members =>
      MembersOk members ∧ (negated = false → (encodeMembers members).head? ≠ some CARET)

def Ascii (s : Bytes) : Prop := ∀ c ∈ s, 1 ≤ c ∧ c ≤ 127

instance (s : Bytes) : Decidable (Ascii s) := List.decidableBAll _ s

end WellFormed

section Meaning

def ClassMember.Contains : ClassMember → UInt8 → Prop
  | .single x, c | .escaped x, c => c = x
  | .range first last, c => (first ≤ c ∧ c ≤ last) ∨ (last ≤ c ∧ c ≤ first)

-- The parts of a string that an item matches.
def GlobItem.Takes : GlobItem → Bytes → Prop
  | .literal c, part | .escaped c, part => part = [c]
  | .any, part => ∃ c, part = [c]
  | .star, _ => True
  | .cls negated members, part =>
      ∃ c, part = [c] ∧ if negated then ∀ m ∈ members, ¬m.Contains c else ∃ m ∈ members, m.Contains c

-- The string can be cut into consecutive parts that the items match, in order.
def ItemsMatch (items : List GlobItem) (string : Bytes) : Prop :=
  ∃ parts, List.Forall₂ GlobItem.Takes items parts ∧ parts.flatten = string

end Meaning

section Parsing

variable {m : ClassMember} {members : List ClassMember}

theorem classStep_encode (hm : m.Ok) (rest : Bytes)
    (hdash : ∀ c, m = .single c → rest.head? ≠ some DASH) :
    classStep (m.encode ++ rest) = .member m rest := by
  cases m with
  | single c =>
      refine classStep_single hm.2 hm.1 fun last behind hrest => hdash c rfl ?_
      have hrest : rest = DASH :: last :: behind := hrest
      rw [hrest, List.head?_cons]
  | escaped c => rfl
  | range first last => exact classStep_range hm.2 hm.1 last rest

-- What a class begins with.
theorem head_members {rest : Bytes} {c : UInt8}
    (h : (encodeMembers members ++ RBRACKET :: rest).head? = some c) :
    c = RBRACKET ∨ (encodeMembers members).head? = some c := by
  cases hmem : encodeMembers members with
  | nil =>
      rw [hmem] at h
      exact Or.inl (Option.some.inj h).symm
  | cons d tail =>
      rw [hmem] at h
      exact Or.inr h

theorem parseClass_encode (hmembers : MembersOk members) (rest : Bytes) :
    parseClass (encodeMembers members ++ RBRACKET :: rest) = some (members, rest) := by
  induction members with
  | nil => exact parseClass_stop rfl
  | cons m members ih =>
      obtain ⟨hm, hdash, hrest⟩ := hmembers
      have hhead : ∀ c, m = .single c →
          (encodeMembers members ++ RBRACKET :: rest).head? ≠ some DASH := by
        intro c hc hhead
        rcases head_members hhead with hbracket | hdash'
        · exact absurd hbracket (by decide)
        · exact hdash c hc hdash'
      have hstep := classStep_encode hm (encodeMembers members ++ RBRACKET :: rest) hhead
      have hsplit : encodeMembers (m :: members) ++ RBRACKET :: rest =
          m.encode ++ (encodeMembers members ++ RBRACKET :: rest) := by
        rw [encodeMembers, List.flatMap_cons, List.append_assoc]
        rfl
      rw [hsplit, parseClass_member hstep, ih hrest]
      rfl

-- The piece an item stands for.
def GlobItem.piece : GlobItem → Piece UInt8
  | .literal c | .escaped c => .one (sameChar false c)
  | .any => .one fun _ => true
  | .star => .star
  | .cls negated members => .one fun char => members.any (·.has false char) != negated

theorem patternStep_encode {item : GlobItem} (h : item.Ok) (rest : Bytes) :
    patternStep false (item.encode ++ rest) = .piece item.piece rest := by
  cases item with
  | literal c =>
      obtain ⟨hstar, hany, hclass, hescape⟩ := h
      show patternStep false (c :: rest) = _
      rw [patternStep.eq_def]
      dsimp only
      rw [if_neg hstar, if_neg hany, if_neg hclass, if_neg hescape]
      rfl
  | escaped c => rfl
  | any => rfl
  | star => rfl
  | cls negated members =>
      obtain ⟨hmembers, hcaret⟩ := h
      have hparse := parseClass_encode hmembers rest
      rw [GlobItem.encode, List.cons_append, List.append_assoc, List.append_assoc,
        List.singleton_append, patternStep.eq_def]
      dsimp only
      rw [if_neg (by decide), if_neg (by decide), if_pos rfl]
      cases negated with
      | true =>
          have hbody : classBody ([CARET] ++ (encodeMembers members ++ RBRACKET :: rest)) =
              encodeMembers members ++ RBRACKET :: rest := rfl
          rw [if_pos rfl, hbody, hparse]
          rfl
      | false =>
          have hhead : ((encodeMembers members ++ RBRACKET :: rest).head? == some CARET) = false := by
            rw [beq_eq_false_iff_ne]
            intro hhead
            rcases head_members hhead with hbracket | hcaret'
            · exact absurd hbracket (by decide)
            · exact hcaret rfl hcaret'
          have hbody : classBody (encodeMembers members ++ RBRACKET :: rest) =
              encodeMembers members ++ RBRACKET :: rest := by
            rw [classBody, hhead]
            rfl
          rw [if_neg Bool.false_ne_true, List.nil_append, hbody, hparse]
          simp only [classPiece, hhead, GlobItem.piece]

theorem parsePattern_encode {items : List GlobItem} (h : ∀ item ∈ items, item.Ok) :
    parsePattern false (encodeItems items) =
      { pieces := items.map GlobItem.piece, dangling := false } := by
  induction items with
  | nil => exact parsePattern_nil
  | cons item items ih =>
      rw [encodeItems, List.flatMap_cons,
        parsePattern_piece (patternStep_encode (h item List.mem_cons_self) _)]
      have hrest := ih fun other hother => h other (List.mem_cons_of_mem _ hother)
      rw [encodeItems] at hrest
      rw [hrest]
      rfl

end Parsing

section Correctness

theorem charInt_ascii {c : UInt8} (h : c ≤ 127) : charInt c = c.toNat := by
  have hlt : c.toNat ≤ 127 := h
  apply Int.bmod_eq_of_le <;> omega

theorem has_iff {m : ClassMember} {char : UInt8} (hm : ∀ c ∈ m.encode, c ≤ 127)
    (hchar : char ≤ 127) : m.has false char = true ↔ m.Contains char := by
  cases m with
  | single c =>
      show (c == char) = true ↔ char = c
      rw [beq_iff_eq, eq_comm]
  | escaped c =>
      show (c == char) = true ↔ char = c
      rw [beq_iff_eq, eq_comm]
  | range first last =>
      have hfirst := charInt_ascii (hm first (by simp [ClassMember.encode]))
      have hlast := charInt_ascii (hm last (by simp [ClassMember.encode]))
      have hc := charInt_ascii hchar
      simp only [ClassMember.has, inRange, ClassMember.Contains, hfirst, hlast, hc,
        UInt8.le_iff_toNat_le, decide_eq_true_iff, Bool.false_eq_true, if_false]
      split_ifs <;> omega

theorem any_has_iff {members : List ClassMember} {char : UInt8}
    (hmembers : ∀ c ∈ encodeMembers members, c ≤ 127) (hchar : char ≤ 127) :
    members.any (·.has false char) = true ↔ ∃ m ∈ members, m.Contains char := by
  rw [List.any_eq_true]
  refine exists_congr fun m => and_congr_right fun hm => has_iff (fun c hc => ?_) hchar
  exact hmembers c (List.mem_flatMap.mpr ⟨m, hm, hc⟩)

theorem takes_iff {item : GlobItem} (hitem : ∀ c ∈ item.encode, c ≤ 127) {part : Bytes}
    (hpart : ∀ c ∈ part, c ≤ 127) : item.piece.Takes part ↔ item.Takes part := by
  cases item with
  | literal c | escaped c =>
      constructor
      · rintro ⟨char, rfl, hsame⟩
        have heq : c = char := by simpa [sameChar] using hsame
        rw [heq]
        rfl
      · rintro rfl
        exact ⟨c, rfl, by simp [sameChar]⟩
  | any => exact exists_congr fun c => and_iff_left rfl
  | star => exact Iff.rfl
  | cls negated members =>
      have hmembers : ∀ c ∈ encodeMembers members, c ≤ 127 := fun c hc =>
        hitem c (by simp [GlobItem.encode, hc])
      refine exists_congr fun char => and_congr_right fun hchar => ?_
      have hhas := any_has_iff hmembers (hpart char (by simp [hchar]))
      cases negated with
      | true =>
          dsimp only
          rw [if_pos rfl, Bool.bne_true, Bool.not_eq_true', ← Bool.not_eq_true, hhas]
          simp only [not_exists, not_and]
      | false =>
          dsimp only
          rw [if_neg Bool.false_ne_true, Bool.bne_false, hhas]

theorem matches_iff {items : List GlobItem} (hitems : ∀ c ∈ encodeItems items, c ≤ 127)
    {string : Bytes} (hstring : ∀ c ∈ string, c ≤ 127) :
    Matches (items.map GlobItem.piece) string ↔ ItemsMatch items string := by
  have hparts : ∀ parts : List Bytes, (∀ c ∈ parts.flatten, c ≤ 127) →
      (List.Forall₂ Piece.Takes (items.map GlobItem.piece) parts ↔
        List.Forall₂ GlobItem.Takes items parts) := by
    intro parts hall
    rw [List.forall₂_map_left_iff]
    induction items generalizing parts with
    | nil => cases parts <;> simp
    | cons item items ih =>
        cases parts with
        | nil => simp
        | cons part parts =>
            rw [List.forall₂_cons, List.forall₂_cons]
            refine and_congr (takes_iff (fun c hc => ?_) fun c hc => ?_) (ih (fun c hc => ?_) parts
              fun c hc => ?_)
            · exact hitems c (by simp [encodeItems, hc])
            · exact hall c (by simp [hc])
            · exact hitems c (by
                rw [encodeItems, List.flatMap_cons]
                exact List.mem_append_right _ hc)
            · exact hall c (by
                rw [List.flatten_cons]
                exact List.mem_append_right _ hc)
  refine exists_congr fun parts => and_congr_left fun hflat => hparts parts ?_
  rw [hflat]
  exact hstring

-- StringMatch decides whether the items of a pattern match a string.
theorem stringMatch_correct {items : List GlobItem} {string : Bytes}
    (hitems : ∀ item ∈ items, item.Ok) (hpattern : Ascii (encodeItems items))
    (hstring : Ascii string) (hne : string ≠ []) :
    ∃ b, stringMatch (encodeItems items) string false = .ok b ∧
      (b = true ↔ ItemsMatch items string) := by
  classical
  have hmatches := matches_iff (fun c hc => (hpattern c hc).2) fun c hc => (hstring c hc).2
  refine ⟨decide (ItemsMatch items string), ?_, decide_eq_true_iff⟩
  rw [stringMatch, stringMatchLoop_eq (Nat.lt_succ_self _) hne, parsePattern_encode hitems]
  refine verdict_ok (by simp) ?_
  rw [decide_eq_true_iff, ← hmatches]
  simp

-- The pattern h*[a-c] and the string hab.
def starredItems : List GlobItem := [.literal 104, .star, .cls false [.range 97 99]]

theorem stringMatch_correct_starred :
    ∃ b, stringMatch (sdsnew "h*[a-c]") (sdsnew "hab") false = .ok b ∧
      (b = true ↔ ItemsMatch starredItems (sdsnew "hab")) := by
  have hencode : encodeItems starredItems = sdsnew "h*[a-c]" := by decide
  rw [← hencode]
  refine stringMatch_correct ?_ (by decide) (by decide) (by decide)
  intro item hitem
  simp only [starredItems, List.mem_cons, List.not_mem_nil, or_false] at hitem
  rcases hitem with rfl | rfl | rfl
  · exact ⟨by decide, by decide, by decide, by decide⟩
  · trivial
  · exact ⟨⟨⟨by decide, by decide⟩, nofun, trivial⟩, fun _ => by decide⟩

end Correctness

end Cutis

import Cutis.Client.Request
import Cutis.Config.Loading
import Mathlib.Data.List.DropRight

namespace Cutis

-- A line of a configuration file as one writes it.
inductive ConfigLine
  | blank
  | comment (text : Bytes)
  | directive (d : Directive)
deriving DecidableEq

-- A byte that sdstrim stops at.
def Solid (c : UInt8) : Prop := c ∉ sdsnew " \t\r\n" ∧ c ≠ NUL

instance (c : UInt8) : Decidable (Solid c) := inferInstanceAs (Decidable (_ ∧ _))

-- A word that is no white space.
def Token (w : Bytes) : Prop := w ≠ [] ∧ ∀ c ∈ w, Solid c

instance (w : Bytes) : Decidable (Token w) := @instDecidableAnd _ _ _ (List.decidableBAll _ w)

namespace Directive

def words : Directive → List Bytes
  | port n => [sdsnew "port", printInt n]
  | timeout n => [sdsnew "timeout", printInt n]
  | save seconds changes => [sdsnew "save", printInt seconds, printInt changes]
  | dir path => [sdsnew "dir", path]
  | loglevel level => [sdsnew "loglevel", level.name]
  | logfile name => [sdsnew "logfile", name]
  | databases n => [sdsnew "databases", printInt n]

-- The values a directive may have.
def Ok : Directive → Prop
  | port n => 1 ≤ n ∧ n ≤ 65535
  | timeout n => 1 ≤ n ∧ n < 2 ^ 31
  | save seconds changes => (1 ≤ seconds ∧ seconds < 2 ^ 31) ∧ 0 ≤ changes ∧ changes < 2 ^ 31
  | dir path => Token path
  | loglevel _ => True
  | logfile name => Token name
  | databases n => 1 ≤ n ∧ n < 2 ^ 31

instance : (d : Directive) → Decidable d.Ok
  | port _ => inferInstanceAs (Decidable (_ ∧ _))
  | timeout _ => inferInstanceAs (Decidable (_ ∧ _))
  | save _ _ => inferInstanceAs (Decidable (_ ∧ _))
  | dir path => inferInstanceAs (Decidable (Token path))
  | loglevel _ => inferInstanceAs (Decidable True)
  | logfile name => inferInstanceAs (Decidable (Token name))
  | databases _ => inferInstanceAs (Decidable (_ ∧ _))

end Directive

namespace ConfigLine

def print : ConfigLine → Bytes
  | blank => []
  | comment text => HASH :: text
  | directive d => joinWords d.words

def said : ConfigLine → Option Directive
  | directive d => some d
  | _ => none

def Ok (line : ConfigLine) : Prop :=
  (line.print.length < CUTIS_CONFIG_LINE_MAX ∧ LF ∉ line.print) ∧ ∀ d ∈ line.said, d.Ok

instance (line : ConfigLine) : Decidable line.Ok := inferInstanceAs (Decidable (_ ∧ _))

end ConfigLine

def printConfig (lines : List ConfigLine) : Bytes := lines.flatMap fun line => line.print ++ [LF]

section Trim

def trimmed (c : UInt8) : Bool := (sdsnew " \t\r\n").contains c || c == NUL

theorem trimmed_eq_false {c : UInt8} : trimmed c = false ↔ Solid c := by
  simp [trimmed, Solid]

theorem configLine_eq (buf : Bytes) :
    configLine buf = ((cstr buf).dropWhile trimmed).rdropWhile trimmed := rfl

-- White space at the end goes, what starts and ends otherwise stays.
theorem configLine_concat {s : Bytes} (hs : s ≠ []) (hnul : NUL ∉ s)
    (hends : ∀ c, s.head? = some c ∨ s.getLast? = some c → Solid c) :
    configLine (s ++ [LF]) = s := by
  obtain ⟨c, rest, rfl⟩ := List.exists_cons_of_ne_nil hs
  have hcstr : cstr (c :: rest ++ [LF]) = c :: rest ++ [LF] :=
    cstr_eq_self fun hmem => (List.mem_append.mp hmem).elim hnul (by decide)
  have hfirst : ¬trimmed c = true := by
    simpa using trimmed_eq_false.mpr (hends c (Or.inl rfl))
  rw [configLine_eq, hcstr, List.cons_append, List.dropWhile_cons_of_neg hfirst,
    ← List.cons_append, List.rdropWhile_concat_pos _ _ _ (by decide), List.rdropWhile_eq_self_iff]
  intro hne
  have hlast := trimmed_eq_false.mpr (hends _ (Or.inr (List.getLast?_eq_getLast_of_ne_nil hne)))
  simp [hlast]

theorem head?_configLine {c : UInt8} (hc : Solid c) (rest : Bytes) :
    (configLine (c :: rest)).head? = some c := by
  have hfirst : ¬trimmed c = true := by simpa using trimmed_eq_false.mpr hc
  have hcstr : cstr (c :: rest) = c :: cstr rest := by
    rw [cstr, List.takeWhile_cons_of_pos (by simpa using hc.2)]
    rfl
  rw [configLine_eq, hcstr, List.dropWhile_cons_of_neg hfirst]
  have hkept : (c :: cstr rest).rdropWhile trimmed ≠ [] := by
    rw [ne_eq, List.rdropWhile_eq_nil_iff]
    exact fun h => hfirst (h c List.mem_cons_self)
  obtain ⟨tail, htail⟩ := List.rdropWhile_prefix trimmed (l := c :: cstr rest)
  obtain ⟨b, l, hb⟩ := List.exists_cons_of_ne_nil hkept
  rw [hb] at htail ⊢
  exact congrArg some (List.cons.inj htail).1

theorem joinWords_ne_nil {words : List Bytes} (hne : words ≠ []) (h : ∀ w ∈ words, Token w) :
    joinWords words ≠ [] := by
  obtain ⟨w, rest, rfl⟩ := List.exists_cons_of_ne_nil hne
  rw [joinWords_cons]
  exact List.append_ne_nil_of_left_ne_nil (h w List.mem_cons_self).1 _

theorem ends_joinWords {words : List Bytes} (h : ∀ w ∈ words, Token w) {c : UInt8}
    (hc : (joinWords words).head? = some c ∨ (joinWords words).getLast? = some c) : Solid c := by
  induction words with
  | nil => simp [joinWords] at hc
  | cons w rest ih =>
      obtain ⟨hne, hsolid⟩ := h w List.mem_cons_self
      have hrest (w' : Bytes) (hw' : w' ∈ rest) : Token w' := h w' (List.mem_cons_of_mem _ hw')
      rw [joinWords_cons] at hc
      rcases hc with hc | hc
      · rw [List.head?_append_of_ne_nil _ hne] at hc
        exact hsolid c (List.mem_of_head? hc)
      · by_cases hlast : rest = []
        · rw [if_pos hlast, List.append_nil] at hc
          exact hsolid c (List.mem_of_getLast? hc)
        · obtain ⟨b, l, hb⟩ := List.exists_cons_of_ne_nil (joinWords_ne_nil hlast hrest)
          rw [if_neg hlast, hb, List.getLast?_append_of_ne_nil _ (List.cons_ne_nil _ _),
            List.getLast?_cons_cons, ← hb] at hc
          exact ih hrest (Or.inr hc)

-- The words of a line that is written with single spaces.
theorem configLine_joinWords {words : List Bytes} (hne : words ≠ []) (h : ∀ w ∈ words, Token w) :
    configLine (joinWords words ++ [LF]) = joinWords words ∧
      (joinWords words).splitOn SPACE = words := by
  have hnul : NUL ∉ joinWords words :=
    notMem_joinWords (by decide) fun w hw hmem => ((h w hw).2 NUL hmem).2 rfl
  have hspace (w : Bytes) (hw : w ∈ words) : SPACE ∉ w := fun hmem =>
    ((h w hw).2 SPACE hmem).1 (by decide)
  refine ⟨configLine_concat (joinWords_ne_nil hne h) hnul fun c hc => ends_joinWords h hc, ?_⟩
  rw [joinWords, List.splitOn_intercalate SPACE hspace hne]

end Trim

section RoundTrip

theorem solid_of_isDigit {c : UInt8} (h : Decimal.isDigit c = true) : Solid c := by
  constructor
  · intro hmem
    have hcases : c = 32 ∨ c = 9 ∨ c = 13 ∨ c = 10 := by
      have htext : sdsnew " \t\r\n" = [32, 9, 13, 10] := by decide
      simpa [htext] using hmem
    rcases hcases with rfl | rfl | rfl | rfl <;> exact absurd h (by decide)
  · rintro rfl
    exact absurd h (by decide)

theorem token_printInt {n : Int} (hn : 0 ≤ n) : Token (printInt n) := by
  obtain ⟨k, rfl⟩ := Int.eq_ofNat_of_zero_le hn
  rw [printInt_natCast]
  exact ⟨Decimal.print_ne_nil k, fun c hc => solid_of_isDigit (Decimal.isDigit_of_mem_print hc)⟩

theorem atoi_printInt {n : Int} (hlo : 0 ≤ n) (hhi : n < 2 ^ 31) : atoi (printInt n) = n := by
  obtain ⟨k, rfl⟩ := Int.eq_ofNat_of_zero_le hlo
  rw [printInt_natCast, atoi_print k (by omega)]

theorem Directive.Ok.spells {d : Directive} (h : d.Ok) :
    d.words ≠ [] ∧ (∀ w ∈ d.words, Token w) ∧ d.Spells d.words := by
  cases d with
  | port n =>
      have hn : 0 ≤ n := by have := h.1; omega
      have hsmall : n < 2 ^ 31 := by have := h.2; omega
      refine ⟨List.cons_ne_nil _ _, ?_, _, _, rfl, by decide, atoi_printInt hn hsmall, h⟩
      simp only [words, List.forall_mem_cons]
      exact ⟨by decide, token_printInt hn, nofun⟩
  | timeout n =>
      have hn : 0 ≤ n := by have := h.1; omega
      refine ⟨List.cons_ne_nil _ _, ?_, _, _, rfl, by decide, atoi_printInt hn h.2, h.1⟩
      simp only [words, List.forall_mem_cons]
      exact ⟨by decide, token_printInt hn, nofun⟩
  | save seconds changes =>
      obtain ⟨hseconds, hchanges⟩ := h
      have hn : 0 ≤ seconds := by have := hseconds.1; omega
      refine ⟨List.cons_ne_nil _ _, ?_, _, _, _, rfl, by decide, atoi_printInt hn hseconds.2,
        atoi_printInt hchanges.1 hchanges.2, hseconds.1, hchanges.1⟩
      simp only [words, List.forall_mem_cons]
      exact ⟨by decide, token_printInt hn, token_printInt hchanges.1, nofun⟩
  | dir path =>
      refine ⟨List.cons_ne_nil _ _, ?_, _, rfl, by decide⟩
      simp only [words, List.forall_mem_cons]
      exact ⟨by decide, h, nofun⟩
  | loglevel level =>
      refine ⟨List.cons_ne_nil _ _, ?_, _, rfl, by decide⟩
      simp only [words, List.forall_mem_cons]
      exact ⟨by decide, by cases level <;> decide, nofun⟩
  | logfile name =>
      refine ⟨List.cons_ne_nil _ _, ?_, _, rfl, by decide⟩
      simp only [words, List.forall_mem_cons]
      exact ⟨by decide, h, nofun⟩
  | databases n =>
      have hn : 0 ≤ n := by have := h.1; omega
      refine ⟨List.cons_ne_nil _ _, ?_, _, _, rfl, by decide, atoi_printInt hn h.2, h.1⟩
      simp only [words, List.forall_mem_cons]
      exact ⟨by decide, token_printInt hn, nofun⟩

theorem Directive.head?_words (d : Directive) : (joinWords d.words).head? ≠ some HASH := by
  cases d <;>
    (rw [Directive.words, joinWords_cons, List.head?_append_of_ne_nil _ (by decide)]; decide)

theorem ConfigLine.Ok.meaning {line : ConfigLine} (h : line.Ok) :
    Says (line.print ++ [LF]) line.said := by
  cases line with
  | blank => exact .blank (by decide)
  | comment text => exact .comment (head?_configLine (by decide) _)
  | directive d =>
      obtain ⟨hne, htokens, hspells⟩ := (h.2 d rfl).spells
      obtain ⟨hline, hwords⟩ := configLine_joinWords hne htokens
      have hprint : configLine ((ConfigLine.directive d).print ++ [LF]) = joinWords d.words := hline
      refine .directive ?_ ?_ ?_
      · rw [hprint]
        exact joinWords_ne_nil hne htokens
      · rw [hprint]
        exact d.head?_words
      · rw [hprint, hwords]
        exact hspells

variable {os : ConfigOs} {lines : List ConfigLine}

theorem followed_print (h : ∀ line ∈ lines, line.Ok) (count : Nat)
    (hgranted : ∀ i d, lines[i]? = some (.directive d) →
      Directive.Granted os (count + i + 1) d) :
    Followed os count (lines.map fun line => line.print ++ [LF])
      (lines.map ConfigLine.said) := by
  induction lines generalizing count with
  | nil => exact .nil
  | cons line rest ih =>
      refine .cons (h line List.mem_cons_self).meaning (fun d hd => ?_) (ih ?_ _ fun i d hi => ?_)
      · obtain rfl : line = .directive d := by
          cases line with
          | directive d' => exact congrArg ConfigLine.directive (Option.some.inj hd)
          | blank => cases hd
          | comment text => cases hd
        exact hgranted 0 d rfl
      · exact fun line' hline' => h line' (List.mem_cons_of_mem _ hline')
      · have hnum : count + (i + 1) + 1 = count + 1 + i + 1 := by omega
        exact hnum ▸ hgranted (i + 1) d hi

-- A configuration that is written down is read back.
theorem config_read_back (server : ServerConfig) (h : ∀ line ∈ lines, line.Ok)
    (hgranted : ∀ i d, lines[i]? = some (.directive d) → Directive.Granted os (i + 1) d) :
    loadServerConfig os server (some (printConfig lines)) =
      .ok (applyAll server (lines.map ConfigLine.said), .CUTIS_OK, []) := by
  have hcut := @Lines.cut_flatMap _ CUTIS_CONFIG_LINE_MAX LF (lines.map ConfigLine.print)
    (fun l hl => by
      obtain ⟨line, hline, rfl⟩ := List.mem_map.mp hl
      exact (h line hline).1)
  rw [List.flatMap_map, List.map_map] at hcut
  refine loadServerConfig_of_followed hcut (followed_print h 0 fun i d hi => ?_)
  rw [Nat.zero_add]
  exact hgranted i d hi

def grantingOs : ConfigOs where
  chdir := fun _ _ => none
  fopen := fun _ _ => none

def sampleConfig : List ConfigLine :=
  [.comment (sdsnew " ports"), .directive (.port 7000), .blank, .directive (.save 900 1),
    .directive (.save 60 10000), .directive (.dir (sdsnew "./")),
    .directive (.loglevel .CUTIS_NOTICE), .directive (.logfile (sdsnew "stdout"))]

theorem config_read_back_sample :
    loadServerConfig grantingOs (resetServerSaveParams initServerConfig)
      (some (printConfig sampleConfig)) =
    .ok ({ initServerConfig with
        port := 7000
        save_params := [⟨900, 1⟩, ⟨60, 10000⟩]
        cwd := [sdsnew "./"]
        verbosity := .CUTIS_NOTICE }, .CUTIS_OK, []) :=
  config_read_back (resetServerSaveParams initServerConfig) (by decide) fun i d _ => by
    cases d <;> first | trivial | exact Or.inr rfl

end RoundTrip

end Cutis

import Cutis.AdList.Ranges
import Cutis.System.Types

namespace Cutis

namespace System

variable {ι : Type} [DecidableEq ι]

def lrangeEntry : CutisCommand := ⟨"lrange", .LRangeCommand, 4, .CUTIS_CMD_INLINE⟩

def ltrimEntry : CutisCommand := ⟨"ltrim", .LTrimCommand, 4, .CUTIS_CMD_INLINE⟩

-- A call that replies these elements and does nothing else.
def RepliesElements (σ : System ι) (i : ι) (cmd : CutisCommand) (argv : List Bytes)
    (elements : List Bytes) : Prop :=
  ∀ os, ∃ σ', σ.act (.call i cmd argv os) = .ok σ' ∧
    σ.Answers i ((σ.model i).answer (.multi elements)) σ'

section Calls

variable {σ : System ι} {i : ι} {key arg2 arg3 : Bytes} {argv l : List Bytes}

omit [DecidableEq ι] in
theorem Answers.encode_eq {σ' : System ι} {o o' : Outcome} (h : σ.Answers i o σ')
    (h' : σ.Answers i o' σ') : o.reply.encode = o'.reply.encode :=
  List.append_cancel_left (h.reply.symm.trans h'.reply)

-- One element is not none.
theorem not_replies_both {cmd : CutisCommand} {x : Bytes}
    (h : σ.RepliesElements i cmd argv [x]) : ¬σ.RepliesElements i cmd argv [] := by
  intro h'
  obtain ⟨σ₁, hact, hone⟩ := h plainOs
  obtain ⟨σ₂, hact', hnone⟩ := h' plainOs
  obtain rfl := Except.ok.inj (hact.symm.trans hact')
  have hdigits : Decimal.print 1 = [49] ∧ Decimal.print 0 = [48] := by decide
  have hencode := congrArg List.head? (hone.encode_eq hnone)
  simp only [Model.answer, Reply.encode, List.length_singleton, List.length_nil, hdigits.1,
    hdigits.2, List.cons_append, List.head?_cons, Option.some.injEq] at hencode
  exact absurd hencode (by decide)

variable (h : σ.Sound) (hstop : σ.stop = false) (hkey : argv[1]? = some key)
  (harg2 : argv[2]? = some arg2) (harg3 : argv[3]? = some arg3)
  (hl : (σ.model i).keyspace.lookup key = some (.list l))

include h hstop hkey harg2 harg3 hl

theorem lrange_replies : σ.RepliesElements i lrangeEntry argv
    (Keyspace.range l (atoi arg2) (atoi arg3)) := by
  intro os
  have hmeets := Session.lRange_meets_range (h.session i argv) hkey harg2 harg3 hl
  have hanswer : (σ.model i).apply
      (·.answer (.multi (Keyspace.range l (atoi arg2) (atoi arg3)))) =
        (σ.model i).answer (.multi (Keyspace.range l (atoi arg2) (atoi arg3))) :=
    Model.apply_answer (selected_lt h) rfl
  have hmeets' : (σ.session i argv).Meets (lrangeEntry.proc.call os (σ.session i argv))
      ((σ.model i).answer (.multi (Keyspace.range l (atoi arg2) (atoi arg3)))) :=
    hanswer ▸ hmeets
  exact act_answers hstop hmeets'

theorem ltrim_stores (hshort : l.length < 2 ^ 31) (os : Os) :
    ∃ σ', σ.act (.call i ltrimEntry argv os) = .ok σ' ∧
      σ.Answers i ((σ.model i).apply
        (·.store key (.list (Keyspace.range l (atoi arg2) (atoi arg3))) .ok)) σ' :=
  act_answers hstop (Session.lTrim_meets_range (h.session i argv) hkey harg2 harg3 hl hshort)

end Calls

-- LRANGE replies the documented range, but for an end before the first element with a
-- start that is not behind it.
theorem lrange_documented_iff {σ : System ι} (h : σ.Reachable) (hstop : σ.stop = false) {i : ι}
    {key arg2 arg3 : Bytes} {argv l : List Bytes} (hkey : argv[1]? = some key)
    (harg2 : argv[2]? = some arg2) (harg3 : argv[3]? = some arg3)
    (hl : (σ.model i).keyspace.lookup key = some (.list l)) (hshort : l.length < 2 ^ 31) :
    σ.RepliesElements i lrangeEntry argv (documentedRange l (atoi arg2) (atoi arg3)) ↔
      ¬(l ≠ [] ∧ AdList.position l.length (atoi arg3) < 0 ∧
        AdList.position l.length (atoi arg2) ≤ 0) := by
  have hreplies := lrange_replies h.sound hstop hkey harg2 harg3 hl
  constructor
  · rintro hdoc ⟨hne, he, hs⟩
    have hrange := Session.range_before_first hne hshort (atoi_range arg2) (atoi_range arg3) hs he
    have hempty : documentedRange l (atoi arg2) (atoi arg3) = [] :=
      between_of_lt (Or.inr (Or.inl he))
    rw [hrange] at hreplies
    rw [hempty] at hdoc
    exact not_replies_both hreplies hdoc
  · intro hfirst
    rwa [Session.range_documented hshort (atoi_range arg2) (atoi_range arg3) hfirst] at hreplies

def lrangeArgv (start endIdx : String) : List Bytes :=
  [sdsnew "lrange", sdsnew "key", sdsnew start, sdsnew endIdx]

theorem lrangeArgv_key (start endIdx : String) :
    (lrangeArgv start endIdx)[1]? = some (sdsnew "key") := rfl

def letters : List Bytes := [sdsnew "a", sdsnew "b", sdsnew "c", sdsnew "d", sdsnew "e"]

theorem exists_letters :
    ∃ σ : System Unit, σ.Reachable ∧ σ.stop = false ∧
      σ.model () = { dataset := keyed (.list letters), selected := 0 } :=
  exists_elements (by decide) (by decide)

theorem lookup_letters {σ : System Unit}
    (hmodel : σ.model () = { dataset := keyed (.list letters), selected := 0 }) :
    (σ.model ()).keyspace.lookup (sdsnew "key") = some (.list letters) := by
  rw [hmodel]
  exact Finmap.lookup_insert _

-- A range inside the list, and one that goes beyond its end.
theorem lrange_documented_letters :
    ∃ σ : System Unit, (σ.model ()).dataset = keyed (.list letters) ∧
      σ.RepliesElements () lrangeEntry (lrangeArgv "1" "-2")
        [sdsnew "b", sdsnew "c", sdsnew "d"] ∧
      σ.RepliesElements () lrangeEntry (lrangeArgv "-2" "100") [sdsnew "d", sdsnew "e"] := by
  obtain ⟨σ, hreach, hstop, hmodel⟩ := exists_letters
  have hlook := lookup_letters hmodel
  refine ⟨σ, by rw [hmodel], ?_, ?_⟩
  · exact (lrange_documented_iff hreach hstop (lrangeArgv_key "1" "-2") rfl rfl hlook
      (by decide)).mpr (by decide)
  · exact (lrange_documented_iff hreach hstop (lrangeArgv_key "-2" "100") rfl rfl hlook
      (by decide)).mpr (by decide)

-- The range from 0 to -2 of a list of one element: its end lies before the element.
theorem not_lrange_documented :
    ∃ σ : System Unit, σ.Reachable ∧ σ.stop = false ∧
      (σ.model ()).keyspace.lookup (sdsnew "key") = some (.list [sdsnew "value"]) ∧
      ¬σ.RepliesElements () lrangeEntry (lrangeArgv "0" "-2")
        (documentedRange [sdsnew "value"] (atoi (sdsnew "0")) (atoi (sdsnew "-2"))) := by
  obtain ⟨σ, hreach, hstop, hmodel⟩ := exists_list
  have hlook := lookup_list hmodel
  have hreplies := lrange_replies hreach.sound hstop (lrangeArgv_key "0" "-2") rfl rfl hlook
  have hrange : Keyspace.range [sdsnew "value"] (atoi (sdsnew "0")) (atoi (sdsnew "-2")) =
      [sdsnew "value"] := by decide
  have hempty : documentedRange [sdsnew "value"] (atoi (sdsnew "0")) (atoi (sdsnew "-2")) = [] := by
    decide
  rw [hrange] at hreplies
  rw [hempty]
  exact ⟨σ, hreach, hstop, hlook, not_replies_both hreplies⟩

-- LTRIM leaves what LRANGE would have replied, in the database and, node for node, in
-- the list itself.
theorem ltrim_keeps_lrange {σ : System ι} (h : σ.Reachable) (hstop : σ.stop = false) {i : ι}
    {key arg2 arg3 : Bytes} {argv l : List Bytes} (hkey : argv[1]? = some key)
    (harg2 : argv[2]? = some arg2) (harg3 : argv[3]? = some arg3)
    (hl : (σ.model i).keyspace.lookup key = some (.list l)) (hshort : l.length < 2 ^ 31) :
    ∃ range, σ.RepliesElements i lrangeEntry argv range ∧
      (∀ os, ∃ σ', σ.act (.call i ltrimEntry argv os) = .ok σ' ∧
        σ.Answers i ((σ.model i).apply (·.store key (.list range) .ok)) σ') ∧
      ∀ (list : AdList Bytes) xs, list.Holds xs → xs.map Prod.snd = l →
        list.lrange (atoi arg2) (atoi arg3) = .ok range ∧
        ∃ list' ys, list.ltrim (atoi arg2) (atoi arg3) = .ok list' ∧ list'.Shows ys ∧
          ys.map Prod.snd = range := by
  refine ⟨Keyspace.range l (atoi arg2) (atoi arg3), lrange_replies h.sound hstop hkey harg2 harg3 hl,
    ltrim_stores h.sound hstop hkey harg2 harg3 hl hshort, ?_⟩
  rintro list xs hlist rfl
  have hnodes : xs.length < 2 ^ 31 := by simpa using hshort
  obtain ⟨list', ys, htrim, hlist', hlen, hvalues⟩ := AdList.ltrim_spec hlist hnodes (atoi arg2)
    (atoi arg3)
  refine ⟨AdList.lrange_eq hlist hnodes _ _, list', ys, htrim, hlist'.shows hlen, ?_⟩
  rw [hvalues, Session.trimmed_eq_range hshort]

-- LTRIM takes the first and the last of five elements away.
theorem ltrim_keeps_lrange_letters :
    ∃ σ : System Unit, (σ.model ()).dataset = keyed (.list letters) ∧
      σ.RepliesElements () lrangeEntry (lrangeArgv "1" "-2")
        [sdsnew "b", sdsnew "c", sdsnew "d"] ∧
      ∃ σ', σ.act (.call () ltrimEntry (lrangeArgv "1" "-2") plainOs) = .ok σ' ∧
        (σ'.model ()).dataset = keyed (.list [sdsnew "b", sdsnew "c", sdsnew "d"]) := by
  obtain ⟨σ, hreach, hstop, hmodel⟩ := exists_letters
  obtain ⟨range, hreplies, htrim, hlinked⟩ := ltrim_keeps_lrange hreach hstop
    (lrangeArgv_key "1" "-2") rfl rfl (lookup_letters hmodel) (by decide)
  obtain rfl : range = [sdsnew "b", sdsnew "c", sdsnew "d"] := by
    obtain ⟨list, xs, hlist, hvalues, -⟩ := AdList.exists_holds letters (by decide)
    have hnodes : xs.length < 2 ^ 31 := by
      rw [← List.length_map Prod.snd, hvalues]
      decide
    have hlrange := (hlinked list xs hlist hvalues).1
    rw [AdList.lrange_eq hlist hnodes, hvalues] at hlrange
    exact (Except.ok.inj hlrange).symm.trans (by decide)
  obtain ⟨σ', hact, hanswers⟩ := htrim plainOs
  refine ⟨σ, by rw [hmodel], hreplies, σ', hact, ?_⟩
  rw [hanswers.model, hmodel]
  show [((∅ : Keyspace).insert (sdsnew "key") (.list letters)).insert (sdsnew "key") _] = _
  rw [Finmap.insert_insert]
  rfl

end System

end Cutis

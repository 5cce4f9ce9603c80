import Cutis.Client.Passes

namespace Cutis

open Streaming

-- What one pass does, as messages taken off the buffer.
inductive Passed (c : ClientQuery) : ParseStatus × Option ClientQuery × List QueryEvent → Prop
  | wait : Stuck Advance c → (c.bulk_len = -1 → c.query_buf.length < 1024) → Rests c →
      Passed c (.CUTIS_OK, some c, [])
  | tooLong : c.bulk_len = -1 → strchr c.query_buf LF = none → 1024 ≤ c.query_buf.length →
      Passed c (.CUTIS_OK, none, [.freeClient])
  | quit {events : List QueryEvent} : Steps Advance c none events →
      Passed c (.CUTIS_OK, none, events)
  | again {c' : ClientQuery} {events : List QueryEvent} : Steps Advance c (some c') events →
      Head c' → c'.query_buf.length < c.query_buf.length → Passed c (.CUTIS_AGAIN, some c', events)
  | done {c' : ClientQuery} {events : List QueryEvent} : Steps Advance c (some c') events →
      Rests c' → (c'.query_buf = [] ∨ Stalls c) → Passed c (.CUTIS_OK, some c', events)

section Passes

theorem stuck_line {c : ClientQuery} (hmode : c.bulk_len = -1) (hp : strchr c.query_buf LF = none) :
    Stuck Advance c := by
  intro next events h
  cases h with
  | blank _ hp' _ => rw [hp] at hp'; cases hp'
  | line _ hp' _ _ => rw [hp] at hp'; cases hp'
  | payload hmode' _ _ => omega

theorem stuck_payload {c : ClientQuery} {n : Nat} (hmode : c.bulk_len = n + 2)
    (hshort : c.query_buf.length < n + 2) : Stuck Advance c := by
  intro next events h
  cases h with
  | blank hmode' _ _ => omega
  | line hmode' _ _ _ => omega
  | payload hmode' _ hlen => omega

theorem Rests.stuck_nil {c : ClientQuery} (h : Rests c) (hnil : c.query_buf = []) :
    Stuck Advance c := by
  cases h with
  | line query_buf =>
      obtain rfl : query_buf = [] := hnil
      exact stuck_line rfl rfl
  | payload hawait hshort => exact stuck_payload rfl hshort

-- The test for more input that follows a call of ProcessCommand.
theorem passed_of_process {c d c' : ClientQuery} {events : List QueryEvent}
    (hproc : processCommand d = .ok (some c', events)) (hsteps : Steps Advance c (some c') events)
    (hrests : Rests c') (hlen : c'.query_buf.length < c.query_buf.length) :
    ∃ result, processThenParse d = .ok result ∧ Passed c result := by
  refine ⟨_, processThenParse_eq hproc, ?_⟩
  split_ifs with hmore
  · exact .again hsteps hrests.head hlen
  · exact .done hsteps hrests (Or.inl (List.length_eq_zero_iff.mp (by omega)))

theorem parsePass_line {query_buf : Bytes} {p : Nat} (hp : strchr query_buf LF = some p)
    (hline : queryLine query_buf p ≠ []) :
    parsePass { query_buf, argv := [], bulk_len := -1 } =
      processThenParse
        { query_buf := query_buf.drop (p + 1)
          argv := (lineWords (queryLine query_buf p)).take CUTIS_MAX_ARGS
          bulk_len := -1 } := by
  have hlen : ¬(queryLine query_buf p).length = 0 := fun h => hline (List.length_eq_zero_iff.mp h)
  simp only [parsePass, if_true, parseNonBulkQuery, hp, hlen, if_false, sdssplitlen_eq]
  simp only [bind, Except.bind, pushWords, List.nil_append, List.length_nil, Nat.sub_zero,
    lineWords]

theorem parsePass_payload {cmd : CutisCommand} {argv : List Bytes} {n : Nat}
    (hawait : Awaits cmd argv n) {query_buf : Bytes} (hfull : n + 2 ≤ query_buf.length)
    (hint : query_buf.length < 2 ^ 31) :
    parsePass { query_buf, argv, bulk_len := n + 2 } =
      processThenParse
        { query_buf := query_buf.drop (n + 2)
          argv := argv ++ [query_buf.take n]
          bulk_len := n + 2 } := by
  have hne : ¬(n : Int) + 2 = -1 := by omega
  have htake : ((n : Int) + 2 - 2).toNat = n := by omega
  have hroom : argv.length < CUTIS_MAX_ARGS := by
    have := hawait.argc
    rw [CUTIS_MAX_ARGS]
    omega
  have hdropped := sdsrange_drop query_buf (n + 2) hfull
  simp only [Nat.cast_add, Nat.cast_ofNat] at hdropped
  have hle : (n : Int) + 2 ≤ toInt32 query_buf.length := by
    rw [toInt32_natCast _ hint]
    omega
  have harg : setArg { query_buf, argv, bulk_len := n + 2 } (query_buf.take n) =
      .ok { query_buf, argv := argv ++ [query_buf.take n], bulk_len := n + 2 } := if_pos hroom
  rw [parsePass, if_neg hne, parseBulkQuery, if_pos hle, htake, harg, ok_bind, hdropped]

variable {c : ClientQuery}

theorem parsePass_words {query_buf : Bytes} {p : Nat} (hp : strchr query_buf LF = some p)
    (hline : queryLine query_buf p ≠ []) {name : Bytes} {args : List Bytes}
    (hwords : (lineWords (queryLine query_buf p)).take CUTIS_MAX_ARGS = name :: args) :
    ∃ result, parsePass { query_buf, argv := [], bulk_len := -1 } = .ok result ∧
      Passed { query_buf, argv := [], bulk_len := -1 } result := by
  have hlt := strchr_lt hp
  have hshorter : (query_buf.drop (p + 1)).length < query_buf.length := by
    rw [List.length_drop]
    omega
  have hadvance (next : Option ClientQuery) (events : List QueryEvent)
      (hproc : processCommand { query_buf := [], argv := name :: args, bulk_len := -1 } =
        .ok (next, events)) :=
    Advance.line (c := { query_buf, argv := [], bulk_len := -1 }) rfl hp hline
      (show processCommand _ = .ok (next, events) by rw [hwords]; exact hproc)
  rw [parsePass_line hp hline, hwords]
  rcases processCommand_cases name args with hproc | ⟨s, hproc⟩ | ⟨cmd, -, -, -, hproc⟩ |
    ⟨cmd, front, n, hawait, -, hproc⟩
  · refine ⟨(.CUTIS_OK, none, [.freeClient]), ?_, .quit (.close (hadvance none _ (hproc [])))⟩
    rw [processThenParse, hproc]
    rfl
  · exact passed_of_process (hproc _) (.single (hadvance _ _ (hproc []))) (.line _) hshorter
  · exact passed_of_process (hproc _) (.single (hadvance _ _ (hproc []))) (.line _) hshorter
  · have hempty := hproc []
    rw [if_neg (by simp)] at hempty
    have hfirst := hadvance _ _ hempty
    have hrest := hproc (query_buf.drop (p + 1))
    split_ifs at hrest with hfull
    · have hsecond := Advance.payload (c := ⟨query_buf.drop (p + 1), _, n + 2⟩) rfl hawait hfull
      refine passed_of_process hrest (Steps.step hfirst (.single hsecond)) (.line _) ?_
      simp only [List.length_drop] at hshorter ⊢
      omega
    · exact passed_of_process hrest (.single hfirst) (.payload hawait (by omega)) hshorter

theorem parsePass_spec (h : Head c) (hspaces : ¬SpacesOnly c) :
    ∃ result, parsePass c = .ok result ∧ Passed c result := by
  cases h with
  | line query_buf =>
      cases hp : strchr query_buf LF with
      | none =>
          by_cases hlong : query_buf.length ≥ 1024
          · refine ⟨_, ?_, .tooLong rfl hp hlong⟩
            simp only [parsePass, if_true, parseNonBulkQuery, hp, hlong]
            rfl
          · refine ⟨_, ?_, .wait (stuck_line rfl hp) (fun _ => Nat.lt_of_not_le hlong) (.line _)⟩
            simp only [parsePass, if_true, parseNonBulkQuery, hp, hlong, if_false]
            rfl
      | some p =>
          by_cases hline : queryLine query_buf p = []
          · have hblank := Advance.blank (c := { query_buf, argv := [], bulk_len := -1 }) rfl hp hline
            refine ⟨_, ?_, .done (.single hblank) (.line _) ?_⟩
            · simp only [parsePass, if_true, parseNonBulkQuery, hp, hline, List.length_nil]
              rfl
            · by_cases hmore : p + 1 < query_buf.length
              · exact Or.inr ⟨rfl, p, hp, hline, hmore⟩
              · exact Or.inl (List.drop_eq_nil_of_le (Nat.le_of_not_lt hmore))
          · cases hwords : (lineWords (queryLine query_buf p)).take CUTIS_MAX_ARGS with
            | nil =>
                have hnil : lineWords (queryLine query_buf p) = [] := by
                  rcases List.take_eq_nil_iff.mp hwords with h | h
                  · cases h
                  · exact h
                exact absurd ⟨rfl, p, hp, hline, (lineWords_eq_nil_iff _).mp hnil⟩ hspaces
            | cons name args => exact parsePass_words hp hline hwords
  | @payload cmd query_buf argv n hawait hshort =>
      have hlen := hawait.len
      rw [CUTIS_QUERY_BUF_LEN] at hshort
      by_cases hfull : n + 2 ≤ query_buf.length
      · rw [parsePass_payload hawait hfull (by omega)]
        refine passed_of_process (processCommand_payload hawait _ _)
          (.single (.payload (c := { query_buf, argv, bulk_len := n + 2 }) rfl hawait hfull))
          (.line _) ?_
        simp only [List.length_drop]
        omega
      · have hne : ¬(n : Int) + 2 = -1 := by omega
        have hnot : ¬(n : Int) + 2 ≤ toInt32 query_buf.length := by
          rw [toInt32_natCast _ (by omega)]
          omega
        refine ⟨_, ?_, .wait (stuck_payload rfl (by simpa using hfull)) (fun h => absurd h hne)
          (.payload hawait (by omega))⟩
        rw [parsePass, if_neg hne, parseBulkQuery_wait (c := ⟨query_buf, argv, n + 2⟩) hnot]

-- The string in argv[0] is one of an earlier request.
theorem parsePass_spaces (h : Head c) (hspaces : SpacesOnly c) :
    parsePass c = .error .useAfterFree := by
  obtain ⟨hmode, p, hp, hline, hall⟩ := hspaces
  cases h with
  | line query_buf =>
      rw [parsePass_line hp hline, (lineWords_eq_nil_iff _).mpr hall]
      rfl
  | payload hawait hshort =>
      simp only at hmode
      omega

end Passes

section Loop

-- The loop in ParseQuery goes on from one state to the next.
def Repeats (c c' : ClientQuery) : Prop :=
  ∃ events, parsePass c = .ok (.CUTIS_AGAIN, some c', events)

-- Every pass of the loop starts in a state with the property.
def AllPasses (P : ClientQuery → Prop) (c : ClientQuery) : Prop :=
  ∀ c', Relation.ReflTransGen Repeats c c' → P c'

variable {P Q : ClientQuery → Prop} {c : ClientQuery}

theorem AllPasses.here (h : AllPasses P c) : P c := h c .refl

theorem AllPasses.next {c' : ClientQuery} (h : AllPasses P c) (hc : Repeats c c') : AllPasses P c' :=
  fun d hd => h d (.head hc hd)

theorem AllPasses.of_stop {last : Option ClientQuery} {events : List QueryEvent} (h : P c)
    (hpass : parsePass c = .ok (.CUTIS_OK, last, events)) : AllPasses P c := by
  intro c' hc
  rcases Relation.ReflTransGen.cases_head hc with rfl | ⟨d, ⟨more, hmore⟩, -⟩
  · exact h
  · cases hpass.symm.trans hmore

theorem AllPasses.of_again {c' : ClientQuery} {events : List QueryEvent} (h : P c)
    (hpass : parsePass c = .ok (.CUTIS_AGAIN, some c', events)) (hnext : AllPasses P c') :
    AllPasses P c := by
  intro d hd
  rcases Relation.ReflTransGen.cases_head hd with rfl | ⟨e, ⟨more, hmore⟩, hed⟩
  · exact h
  · cases hpass.symm.trans hmore
    exact hnext d hed

theorem head_of_repeats {c' : ClientQuery} (h : Head c) (hc : Repeats c c') : Head c' := by
  obtain ⟨events, hpass⟩ := hc
  by_cases hspaces : SpacesOnly c
  · rw [parsePass_spaces h hspaces] at hpass
    cases hpass
  · obtain ⟨result, hresult, hpassed⟩ := parsePass_spec h hspaces
    obtain rfl := Except.ok.inj (hresult.symm.trans hpass)
    cases hpassed with
    | again _ hhead _ => exact hhead

theorem allPasses_head (h : Head c) : AllPasses Head c := by
  intro c' hc
  induction hc with
  | refl => exact h
  | tail _ hstep ih => exact head_of_repeats ih hstep

theorem AllPasses.imp (himp : ∀ c, P c → Q c) (h : AllPasses P c) : AllPasses Q c :=
  fun c' hc => himp c' (h c' hc)

-- What the whole loop does: it stops where no message is complete, at a blank
-- line, or with the client freed.
inductive Parsed (c : ClientQuery) : Option ClientQuery → List QueryEvent → Prop
  | rests {c' : ClientQuery} {events : List QueryEvent} : Steps Advance c (some c') events →
      Rests c' → (AllPasses (¬Stalls ·) c → Stuck Advance c' ∧
        (c'.bulk_len = -1 → c'.query_buf.length < 1024)) → Parsed c (some c') events
  | quit {events : List QueryEvent} : Steps Advance c none events → Parsed c none events
  | tooLong {c' : ClientQuery} {events : List QueryEvent} : Steps Advance c (some c') events →
      c'.bulk_len = -1 → strchr c'.query_buf LF = none → 1024 ≤ c'.query_buf.length →
      Parsed c none (events ++ [.freeClient])

theorem Parsed.step {c' : ClientQuery} {last : Option ClientQuery} {events more : List QueryEvent}
    (hsteps : Steps Advance c (some c') events) (hrepeats : Repeats c c') (h : Parsed c' last more) :
    Parsed c last (events ++ more) := by
  cases h with
  | rests hrest hrests hstuck =>
      exact .rests (hsteps.trans hrest) hrests fun hall => hstuck (hall.next hrepeats)
  | quit hrest => exact .quit (hsteps.trans hrest)
  | tooLong hrest hmode hp hlong =>
      rw [← List.append_assoc]
      exact .tooLong (hsteps.trans hrest) hmode hp hlong

theorem parsePass_loop (fuel : Nat) (c : ClientQuery) :
    parseQueryLoop (fuel + 1) c = (parsePass c).bind (continueParse fuel) :=
  parseQueryLoop_succ fuel c

-- The loop ends: each pass that asks for another one shortens the buffer.
theorem parseQueryLoop_spec (fuel : Nat) (h : Head c) (hfuel : c.query_buf.length < fuel) :
    (AllPasses (¬SpacesOnly ·) c ∧
      ∃ last events, parseQueryLoop fuel c = .ok (last, events) ∧ Parsed c last events) ∨
    ¬AllPasses (¬SpacesOnly ·) c ∧ parseQueryLoop fuel c = .error .useAfterFree := by
  induction fuel generalizing c with
  | zero => omega
  | succ fuel ih =>
      rw [parsePass_loop]
      by_cases hspaces : SpacesOnly c
      · rw [parsePass_spaces h hspaces]
        exact Or.inr ⟨fun hall => hall.here hspaces, rfl⟩
      obtain ⟨result, hresult, hpassed⟩ := parsePass_spec h hspaces
      rw [hresult]
      cases hpassed with
      | wait hstuck hshort hrests =>
          exact Or.inl ⟨.of_stop hspaces hresult, _, _, rfl,
            .rests (.refl c) hrests fun _ => ⟨hstuck, hshort⟩⟩
      | tooLong hmode hp hlong =>
          exact Or.inl ⟨.of_stop hspaces hresult, _, _, rfl, .tooLong (.refl c) hmode hp hlong⟩
      | quit hsteps => exact Or.inl ⟨.of_stop hspaces hresult, _, _, rfl, .quit hsteps⟩
      | done hsteps hrests hend =>
          refine Or.inl ⟨.of_stop hspaces hresult, _, _, rfl, .rests hsteps hrests fun hall => ?_⟩
          rcases hend with hnil | hstalls
          · exact ⟨hrests.stuck_nil hnil, fun _ => by rw [hnil, List.length_nil]; omega⟩
          · exact absurd hstalls hall.here
      | @again c' events hsteps hhead hlt =>
          have hrepeats : Repeats c c' := ⟨events, hresult⟩
          rcases ih hhead (by omega) with ⟨hall, last, more, hloop, hparsed⟩ | ⟨hnot, hloop⟩
          · exact Or.inl ⟨.of_again hspaces hresult hall, last, events ++ more,
              continueParse_again hloop, .step hsteps hrepeats hparsed⟩
          · refine Or.inr ⟨fun hall => hnot (hall.next hrepeats), ?_⟩
            simp only [Except.bind, continueParse, hloop]

end Loop

end Cutis

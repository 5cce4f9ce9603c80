import Cutis.Client

namespace Cutis

section Lines

theorem strchr_append {line : Bytes} {c : UInt8} (hc : c ∉ line) (hnul : NUL ∉ line) (hne : c ≠ NUL)
    (rest : Bytes) : strchr (line ++ c :: rest) c = some line.length := by
  have hcstr : cstr (line ++ c :: rest) = line ++ c :: cstr rest := by
    rw [cstr, List.takeWhile_append_of_pos fun b hb => by
      simpa using fun he : b = NUL => hnul (he ▸ hb)]
    simp [hne, cstr]
  rw [strchr, hcstr, idxOf?_append hc]

theorem strchr_split {s : Bytes} {c : UInt8} {p : Nat} (h : strchr s c = some p) :
    ∃ line rest, s = line ++ c :: rest ∧ line.length = p ∧ c ∉ line ∧ NUL ∉ line := by
  induction s generalizing p with
  | nil => cases h
  | cons b s ih =>
      by_cases hnul : b = NUL
      · rw [strchr, cstr, List.takeWhile_cons_of_neg (by simpa using hnul)] at h
        cases h
      rw [strchr, cstr, List.takeWhile_cons_of_pos (by simpa using hnul), List.idxOf?_cons] at h
      split_ifs at h with hb
      · obtain rfl := Option.some.inj h
        obtain rfl : b = c := by simpa using hb
        exact ⟨[], s, rfl, rfl, List.not_mem_nil, List.not_mem_nil⟩
      · obtain ⟨q, hq, rfl⟩ := Option.map_eq_some_iff.mp h
        obtain ⟨line, rest, rfl, hlen, hline, hclean⟩ := ih hq
        refine ⟨b :: line, rest, rfl, by rw [List.length_cons, hlen], ?_, ?_⟩
        · rw [List.mem_cons, not_or]
          exact ⟨fun he => hb (by simp [he]), hline⟩
        · rw [List.mem_cons, not_or]
          exact ⟨Ne.symm hnul, hclean⟩

theorem strchr_of_notMem {s : Bytes} {c : UInt8} (hc : c ∉ s) : strchr s c = none := by
  rw [strchr, List.idxOf?_eq_none_iff]
  exact fun h => hc ((List.takeWhile_sublist _).mem h)

theorem queryLine_crlf {line : Bytes} (hnul : NUL ∉ line) (rest : Bytes) :
    queryLine (line ++ CR :: LF :: rest) (line.length + 1) = line := by
  have htake : (line ++ CR :: LF :: rest).take (line.length + 1) = line ++ [CR] := by
    rw [List.take_append, List.take_of_length_le (by omega)]
    simp
  rw [queryLine, htake]
  simp only [List.getLast?_append, List.getLast?_singleton, Option.some_or, if_true,
    List.dropLast_concat]
  exact cstr_eq_self hnul

end Lines

section Split

-- The token being read is put in front of the first one of the rest. The room
-- in the token array is enough at every step.
theorem sdssplitLoop_eq (s : Bytes) (sep : UInt8) (fuel j start : Nat) (tokens : List Bytes)
    (slots : Nat) (hfuel : s.length < fuel + j) (hstart : start ≤ j) (hj : j ≤ s.length)
    (hslots : tokens.length < slots) :
    sdssplitLoop s [sep] fuel j start tokens slots =
      .ok (tokens ++ ((s.drop j).splitOn sep).modifyHead ((s.drop start).take (j - start) ++ ·)) := by
  induction fuel generalizing j start tokens slots with
  | zero => omega
  | succ fuel ih =>
      rw [sdssplitLoop]
      by_cases hlt : j < s.length
      · have hcond : (j : Int) < (s.length : Int) - (([sep].length : Int) - 1) := by
          simp only [List.length_singleton]
          omega
        generalize hroom : (if slots < tokens.length + 2 then slots * 2 else slots) = slots'
        have hslots' : tokens.length + 1 < slots' := by
          rw [← hroom]
          split_ifs <;> omega
        have hdrop : s.drop j = s[j] :: s.drop (j + 1) := List.drop_eq_getElem_cons hlt
        have hone : ((s.drop j).take [sep].length = [sep]) ↔ s[j] = sep := by
          rw [hdrop, List.length_singleton, List.take_succ_cons, List.take_zero, List.cons.injEq,
            and_iff_left rfl]
        rw [if_pos hcond, hdrop, List.splitOn_cons_eq_if_modifyHead]
        simp only [← hdrop, hone, beq_iff_eq]
        split_ifs with hsep
        · have hstore : storeToken tokens slots' ((s.drop start).take (j - start)) =
              .ok (tokens ++ [(s.drop start).take (j - start)]) := if_pos (by omega)
          rw [hstore]
          refine (ih (j + 1) (j + 1) _ slots' (by omega) (Nat.le_refl _) hlt (by simpa)).trans ?_
          cases hrest : (s.drop (j + 1)).splitOn sep with
          | nil => exact absurd hrest (List.splitOn_ne_nil _ _)
          | cons t ts => simp
        · rw [ih (j + 1) start tokens slots' (by omega) (by omega) hlt (by omega)]
          have hgrow : (s.drop start).take (j + 1 - start) =
              (s.drop start).take (j - start) ++ [s[j]] := by
            rw [Nat.sub_add_comm hstart, List.take_add_one, List.getElem?_drop,
              Nat.add_sub_cancel' hstart, List.getElem?_eq_getElem hlt]
            rfl
          cases hrest : (s.drop (j + 1)).splitOn sep with
          | nil => exact absurd hrest (List.splitOn_ne_nil _ _)
          | cons t ts => simp [hgrow]
      · have hcond : ¬(j : Int) < (s.length : Int) - (([sep].length : Int) - 1) := by
          simp only [List.length_singleton]
          omega
        have hlen : (s.drop start).length ≤ j - start := by
          rw [List.length_drop]
          omega
        rw [if_neg hcond, List.drop_eq_nil_of_le (by omega : s.length ≤ j), List.splitOn_nil,
          storeToken, if_pos hslots, List.take_of_length_le hlen]
        simp [pure, Except.pure]

theorem sdssplitlen_eq (s : Bytes) (sep : UInt8) :
    sdssplitlen s [sep] = .ok (some (s.splitOn sep)) := by
  have hloop := sdssplitLoop_eq s sep (s.length + 1) 0 0 [] 5 (by omega) (by omega) (by omega)
    (by decide)
  rw [sdssplitlen, if_neg (by simp), hloop]
  cases hsplit : s.splitOn sep with
  | nil => exact absurd hsplit (List.splitOn_ne_nil _ _)
  | cons t ts => simp [hsplit, Functor.map, Except.map]

end Split

end Cutis

import Cutis.Config.Directives
import Mathlib.Data.List.ReduceOption

namespace Cutis

-- What a line says: nothing, where it is blank or a comment, or a directive.
inductive Says : Bytes → Option Directive → Prop
  | blank {buf : Bytes} : configLine buf = [] → Says buf none
  | comment {buf : Bytes} : (configLine buf).head? = some HASH → Says buf none
  | directive {buf : Bytes} {d : Directive} : configLine buf ≠ [] →
      (configLine buf).head? ≠ some HASH → d.Spells ((configLine buf).splitOn SPACE) →
      Says buf (some d)

-- The lines from a number on say this, and the system lets it be done.
inductive Followed (os : ConfigOs) : Nat → List Bytes → List (Option Directive) → Prop
  | nil {count : Nat} : Followed os count [] []
  | cons {count : Nat} {buf : Bytes} {said : Option Directive} {bufs : List Bytes}
      {rest : List (Option Directive)} : Says buf said →
      (∀ d, said = some d → d.Granted os (count + 1)) → Followed os (count + 1) bufs rest →
      Followed os count (buf :: bufs) (said :: rest)

-- The directives in their order.
def applyAll (server : ServerConfig) (said : List (Option Directive)) : ServerConfig :=
  said.reduceOption.foldl Directive.apply server

-- The loop of LoadServerConfig over lines that have been read.
def runLines (os : ConfigOs) : Nat → ServerConfig → List Bytes → ServerConfig × Option ConfigError
  | _, server, [] => (server, none)
  | count, server, buf :: rest =>
      if (configLine buf).head? = some HASH ∨ configLine buf = [] then
        runLines os (count + 1) server rest
      else
        match execDirective os (count + 1) server ((configLine buf).splitOn SPACE) with
        | (server, none) => runLines os (count + 1) server rest
        | (server, some err) =>
            (server, some { line_num := toInt32 ↑(count + 1), line := configLine buf, err })

section Load

variable {os : ConfigOs} {count fuel : Nat} {server server' : ServerConfig} {fp file : Bytes}
  {bufs : List Bytes}

theorem toInt32_succ (n : Nat) : toInt32 (toInt32 n + 1) = toInt32 ↑(n + 1) :=
  Int.bmod_add_bmod

theorem loadConfigLoop_eq (hcut : Lines.Cut CUTIS_CONFIG_LINE_MAX LF fp bufs)
    (hfuel : fp.length < fuel) :
    loadConfigLoop os fuel count (toInt32 count) server fp = .ok (runLines os count server bufs) := by
  induction hcut generalizing fuel count server with
  | nil =>
      obtain ⟨fuel, rfl⟩ := Nat.exists_eq_succ_of_ne_zero (Nat.ne_of_gt hfuel)
      rfl
  | @line buf fp bufs hne hline hcut ih =>
      obtain ⟨fuel, rfl⟩ := Nat.exists_eq_succ_of_ne_zero (Nat.ne_zero_of_lt hfuel)
      have hread : fgets (CUTIS_CONFIG_LINE_MAX + 1) (buf ++ fp) = some (buf, fp) := by
        rw [fgets, if_neg (by simp [hne]), Nat.add_sub_cancel, Lines.next_line hline hne]
      have hrest : fp.length < fuel := by
        have := List.length_pos_iff.mpr hne
        rw [List.length_append] at hfuel
        omega
      rw [loadConfigLoop, hread, runLines]
      simp only [toInt32_succ]
      split_ifs with hskip
      · exact ih hrest
      · rw [sdssplitlen_eq, ok_bind]
        simp only
        obtain ⟨server', _ | err⟩ := execDirective os (count + 1) server _
        · exact ih hrest
        · rfl

theorem loadConfigLoop_start (hcut : Lines.Cut CUTIS_CONFIG_LINE_MAX LF file bufs) :
    loadConfigLoop os (file.length + 1) 0 0 server file = .ok (runLines os 0 server bufs) :=
  loadConfigLoop_eq hcut (Nat.lt_succ_self _)

theorem applyAll_none (said : List (Option Directive)) :
    applyAll server (none :: said) = applyAll server said := by
  rw [applyAll, List.reduceOption_cons_of_none, applyAll]

theorem applyAll_some (d : Directive) (said : List (Option Directive)) :
    applyAll server (some d :: said) = applyAll (d.apply server) said := by
  rw [applyAll, List.reduceOption_cons_of_some, List.foldl_cons, applyAll]

-- The run over one line that says something that can be done.
theorem runLines_cons {buf : Bytes} {said : Option Directive} (hsaid : Says buf said)
    (hgranted : ∀ d, said = some d → d.Granted os (count + 1)) :
    runLines os count server (buf :: bufs) =
      runLines os (count + 1) (applyAll server [said]) bufs := by
  cases hsaid with
  | blank hblank => rw [runLines, if_pos (Or.inr hblank), applyAll_none, applyAll]; rfl
  | comment hhash => rw [runLines, if_pos (Or.inl hhash), applyAll_none, applyAll]; rfl
  | @directive d hne hhash hspells =>
      rw [runLines, if_neg (not_or.mpr ⟨hhash, hne⟩),
        execDirective_of_spells hspells (hgranted d rfl), applyAll_some, applyAll]
      rfl

-- The run goes through exactly where each line says something that can be done.
theorem runLines_of_followed {said : List (Option Directive)} (h : Followed os count bufs said)
    (rest : List Bytes) : runLines os count server (bufs ++ rest) =
      runLines os (count + bufs.length) (applyAll server said) rest := by
  induction h generalizing server with
  | nil => rfl
  | @cons count buf said bufs saids hsaid hgranted _ ih =>
      have hall : applyAll (applyAll server [said]) saids = applyAll server (said :: saids) := by
        cases said with
        | none => rw [applyAll_none, applyAll_none, applyAll]; rfl
        | some d => rw [applyAll_some, applyAll_some, applyAll]; rfl
      rw [List.cons_append, runLines_cons hsaid hgranted, ih, hall, List.length_cons]
      congr 1
      omega

-- A line in which an error is found.
theorem runLines_failed {buf : Bytes}
    (hbad : ∀ said, Says buf said → ∃ d, said = some d ∧ ¬d.Granted os (count + 1)) :
    ∃ server' err, execDirective os (count + 1) server ((configLine buf).splitOn SPACE) =
        (server', some err) ∧ runLines os count server (buf :: bufs) =
      (server', some { line_num := toInt32 ↑(count + 1), line := configLine buf, err }) := by
  have hdirective : ¬((configLine buf).head? = some HASH ∨ configLine buf = []) := by
    rintro (hhash | hblank)
    · obtain ⟨d, hd, -⟩ := hbad none (.comment hhash)
      cases hd
    · obtain ⟨d, hd, -⟩ := hbad none (.blank hblank)
      cases hd
  rw [runLines, if_neg hdirective]
  rcases hexec : execDirective os (count + 1) server ((configLine buf).splitOn SPACE) with
    ⟨server', _ | err⟩
  · obtain ⟨d, hspells, hgranted, -⟩ := execDirective_ok_iff.mp hexec
    obtain ⟨hhash, hblank⟩ := not_or.mp hdirective
    obtain ⟨d', hd', hrefused⟩ := hbad _ (.directive hblank hhash hspells)
    exact absurd (Option.some.inj hd' ▸ hgranted) hrefused
  · exact ⟨server', err, rfl, rfl⟩

-- The lines are followed to their end, or up to the first one that cannot be.
theorem followed_or (os : ConfigOs) (count : Nat) (bufs : List Bytes) :
    (∃ said, Followed os count bufs said) ∨
      ∃ done buf rest said, bufs = done ++ buf :: rest ∧ Followed os count done said ∧
        ∀ said', Says buf said' →
          ∃ d, said' = some d ∧ ¬d.Granted os (count + done.length + 1) := by
  induction bufs generalizing count with
  | nil => exact Or.inl ⟨[], .nil⟩
  | cons buf bufs ih =>
      by_cases hgood : ∃ said, Says buf said ∧ ∀ d, said = some d → d.Granted os (count + 1)
      · obtain ⟨said, hsaid, hgranted⟩ := hgood
        rcases ih (count + 1) with ⟨saids, h⟩ | ⟨done, bad, rest, saids, rfl, h, hbad⟩
        · exact Or.inl ⟨_, .cons hsaid hgranted h⟩
        · refine Or.inr ⟨buf :: done, bad, rest, _, rfl, .cons hsaid hgranted h, ?_⟩
          have hnum : count + 1 + done.length = count + (done.length + 1) := by omega
          rwa [hnum] at hbad
      · push Not at hgood
        exact Or.inr ⟨[], buf, bufs, [], rfl, .nil, hgood⟩

theorem loadServerConfig_of_followed {said : List (Option Directive)}
    (hcut : Lines.Cut CUTIS_CONFIG_LINE_MAX LF file bufs) (h : Followed os 0 bufs said) :
    loadServerConfig os server (some file) = .ok (applyAll server said, .CUTIS_OK, []) := by
  have hrun : runLines os 0 server (bufs ++ []) = _ := runLines_of_followed h []
  rw [List.append_nil] at hrun
  rw [loadServerConfig, loadConfigLoop_start hcut, hrun]
  rfl

end Load

-- What the rest of the program relies on.
structure ServerConfig.Valid (server : ServerConfig) : Prop where
  port : 1 ≤ server.port ∧ server.port ≤ 65535
  max_idle_time : 1 ≤ server.max_idle_time ∧ server.max_idle_time < 2 ^ 31
  save_params : ∀ sp ∈ server.save_params, 1 ≤ sp.seconds ∧ 0 ≤ sp.changes
  db_num : 1 ≤ server.db_num ∧ server.db_num < 2 ^ 31

section Valid

variable {os : ConfigOs} {count : Nat} {server : ServerConfig} {bufs : List Bytes}
  {said : List (Option Directive)}

theorem valid_initServerConfig : initServerConfig.Valid := by
  refine ⟨by decide, by decide, ?_, by decide⟩
  decide

theorem valid_resetServerSaveParams (h : server.Valid) : (resetServerSaveParams server).Valid :=
  ⟨h.port, h.max_idle_time, nofun, h.db_num⟩

theorem valid_apply (h : server.Valid) {d : Directive} {words : List Bytes}
    (hspells : d.Spells words) : (d.apply server).Valid := by
  cases d with
  | port n =>
      obtain ⟨w, arg, -, -, -, hrange⟩ := hspells
      exact ⟨hrange, h.max_idle_time, h.save_params, h.db_num⟩
  | timeout n =>
      obtain ⟨w, arg, -, -, rfl, hrange⟩ := hspells
      exact ⟨h.port, ⟨hrange, toInt32_lt _⟩, h.save_params, h.db_num⟩
  | save seconds changes =>
      obtain ⟨w, arg, arg', -, -, -, -, hrange⟩ := hspells
      refine ⟨h.port, h.max_idle_time, fun sp hsp => ?_, h.db_num⟩
      rcases List.mem_append.mp hsp with hsp | hsp
      · exact h.save_params sp hsp
      · rw [List.mem_singleton.mp hsp]
        exact hrange
  | databases n =>
      obtain ⟨w, arg, -, -, rfl, hrange⟩ := hspells
      exact ⟨h.port, h.max_idle_time, h.save_params, hrange, toInt32_lt _⟩
  | dir path => exact ⟨h.port, h.max_idle_time, h.save_params, h.db_num⟩
  | loglevel level => exact ⟨h.port, h.max_idle_time, h.save_params, h.db_num⟩
  | logfile name => exact ⟨h.port, h.max_idle_time, h.save_params, h.db_num⟩

theorem valid_applyAll (h : server.Valid) (hfollowed : Followed os count bufs said) :
    (applyAll server said).Valid := by
  induction hfollowed generalizing server with
  | nil => exact h
  | cons hsaid _ _ ih =>
      cases hsaid with
      | blank _ =>
          rw [applyAll_none]
          exact ih h
      | comment _ =>
          rw [applyAll_none]
          exact ih h
      | directive _ _ hspells =>
          rw [applyAll_some]
          exact ih (valid_apply h hspells)

end Valid

-- LoadServerConfig comes to an end on every file. It succeeds exactly where every line says
-- something that can be done, with the effect of the directives in their order, and else
-- reports the first line that does not.
theorem loadServerConfig_cases (os : ConfigOs) (server : ServerConfig) (file : Bytes) :
    ∃ bufs, Lines.Cut CUTIS_CONFIG_LINE_MAX LF file bufs ∧
      ((∃ said, Followed os 0 bufs said ∧
          loadServerConfig os server (some file) = .ok (applyAll server said, .CUTIS_OK, [])) ∨
        ∃ done buf rest said server' err, bufs = done ++ buf :: rest ∧ Followed os 0 done said ∧
          (∀ said', Says buf said' → ∃ d, said' = some d ∧ ¬d.Granted os (done.length + 1)) ∧
          execDirective os (done.length + 1) (applyAll server said)
            ((configLine buf).splitOn SPACE) = (server', some err) ∧
          loadServerConfig os server (some file) = .ok (server', .CUTIS_ERR,
            (ConfigError.mk (toInt32 ↑(done.length + 1)) (configLine buf) err).print)) := by
  obtain ⟨bufs, hcut⟩ := Lines.exists_cut (n := CUTIS_CONFIG_LINE_MAX) (by decide) LF file
  refine ⟨bufs, hcut, ?_⟩
  rcases followed_or os 0 bufs with ⟨said, h⟩ | ⟨done, buf, rest, said, rfl, h, hbad⟩
  · exact Or.inl ⟨said, h, loadServerConfig_of_followed hcut h⟩
  · rw [Nat.zero_add] at hbad
    have hrun : runLines os 0 server (done ++ buf :: rest) = _ :=
      runLines_of_followed h (buf :: rest)
    rw [Nat.zero_add] at hrun
    obtain ⟨server', err, hexec, hfailed⟩ : ∃ server' err, execDirective os (done.length + 1)
        (applyAll server said) ((configLine buf).splitOn SPACE) = (server', some err) ∧
        runLines os done.length (applyAll server said) (buf :: rest) = _ := runLines_failed hbad
    refine Or.inr ⟨done, buf, rest, said, server', err, rfl, h, hbad, hexec, ?_⟩
    rw [loadServerConfig, loadConfigLoop_start hcut, hrun, hfailed]
    rfl

-- A server is started exactly where every line of the file can be followed, and then with a
-- valid configuration.
theorem config_loaded (os : ConfigOs) (file : Bytes) :
    ∃ bufs, Lines.Cut CUTIS_CONFIG_LINE_MAX LF file bufs ∧
      ((∃ said, Followed os 0 bufs said ∧
          mainConfig os (some (some file)) =
            .ok (some (applyAll (resetServerSaveParams initServerConfig) said)) ∧
          (applyAll (resetServerSaveParams initServerConfig) said).Valid) ∨
        ∃ done buf rest said server err, bufs = done ++ buf :: rest ∧ Followed os 0 done said ∧
          (∀ said', Says buf said' → ∃ d, said' = some d ∧ ¬d.Granted os (done.length + 1)) ∧
          execDirective os (done.length + 1)
            (applyAll (resetServerSaveParams initServerConfig) said)
            ((configLine buf).splitOn SPACE) = (server, some err) ∧
          loadServerConfig os (resetServerSaveParams initServerConfig) (some file) =
            .ok (server, .CUTIS_ERR,
              (ConfigError.mk (toInt32 ↑(done.length + 1)) (configLine buf) err).print) ∧
          mainConfig os (some (some file)) = .ok none) := by
  obtain ⟨bufs, hcut, h⟩ :=
    loadServerConfig_cases os (resetServerSaveParams initServerConfig) file
  refine ⟨bufs, hcut, ?_⟩
  rcases h with ⟨said, hfollowed, hload⟩ |
    ⟨done, buf, rest, said, server, err, hbufs, hfollowed, hbad, hexec, hload⟩
  · refine Or.inl ⟨said, hfollowed, ?_, ?_⟩
    · rw [mainConfig, hload]
      rfl
    · exact valid_applyAll (valid_resetServerSaveParams valid_initServerConfig) hfollowed
  · refine Or.inr ⟨done, buf, rest, said, server, err, hbufs, hfollowed, hbad, hexec, hload, ?_⟩
    rw [mainConfig, hload]
    rfl

end Cutis

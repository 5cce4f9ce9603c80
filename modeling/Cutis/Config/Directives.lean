import Cutis.Client.Lemmas
import Cutis.Config

namespace Cutis

-- What a line of a configuration file may ask for.
inductive Directive
  | port (n : Int)
  | timeout (n : Int)
  | save (seconds changes : Int)
  | dir (path : Bytes)
  | loglevel (level : LogLevel)
  | logfile (name : Bytes)
  | databases (n : Int)
deriving DecidableEq, Repr

def LogLevel.name : LogLevel → Bytes
  | .CUTIS_DEBUG => sdsnew "debug"
  | .CUTIS_NOTICE => sdsnew "notice"
  | .CUTIS_WARNING => sdsnew "warning"

namespace Directive

-- The words of a line that asks for d; the first one in any case.
def Spells (d : Directive) (words : List Bytes) : Prop :=
  match d with
  | port n => ∃ w arg, words = [w, arg] ∧ sdstolower w = sdsnew "port" ∧ atoi arg = n ∧
      1 ≤ n ∧ n ≤ 65535
  | timeout n => ∃ w arg, words = [w, arg] ∧ sdstolower w = sdsnew "timeout" ∧ atoi arg = n ∧ 1 ≤ n
  | save seconds changes => ∃ w arg arg', words = [w, arg, arg'] ∧ sdstolower w = sdsnew "save" ∧
      atoi arg = seconds ∧ atoi arg' = changes ∧ 1 ≤ seconds ∧ 0 ≤ changes
  | dir path => ∃ w, words = [w, path] ∧ sdstolower w = sdsnew "dir"
  | loglevel level => ∃ w, words = [w, level.name] ∧ sdstolower w = sdsnew "loglevel"
  | logfile name => ∃ w, words = [w, name] ∧ sdstolower w = sdsnew "logfile"
  | databases n => ∃ w arg, words = [w, arg] ∧ sdstolower w = sdsnew "databases" ∧ atoi arg = n ∧
      1 ≤ n

-- The system lets the process do what the directive on a line asks for.
def Granted (os : ConfigOs) (count : Nat) : Directive → Prop
  | dir path => os.chdir count path = none
  | logfile name => name = sdsnew "stdout" ∨ os.fopen count name = none
  | _ => True

def apply (server : ServerConfig) : Directive → ServerConfig
  | port n => { server with port := n }
  | timeout n => { server with max_idle_time := n }
  | save seconds changes => appendServerSaveParams server seconds changes
  | dir path => { server with cwd := path :: server.cwd }
  | loglevel level => { server with verbosity := level }
  | logfile name => { server with log_file := if name = sdsnew "stdout" then none else some name }
  | databases n => { server with db_num := n }

end Directive

section Exec

variable {os : ConfigOs} {count : Nat} {server server' : ServerConfig} {words : List Bytes}

-- A test whose failure is an error.
theorem checked_iff {p : Prop} [Decidable p] {failed done : ServerConfig} {err : Bytes} :
    (if p then (failed, some err) else (done, none)) = (server', none) ↔ ¬p ∧ server' = done := by
  split_ifs with h <;> simp [h, eq_comm]

theorem setPort_ok_iff {arg : Bytes} : setPort server arg = (server', none) ↔
    (1 ≤ atoi arg ∧ atoi arg ≤ 65535) ∧ server' = (Directive.port (atoi arg)).apply server := by
  rw [setPort, checked_iff]
  refine and_congr_left' ?_
  simp only
  omega

theorem setTimeout_ok_iff {arg : Bytes} : setTimeout server arg = (server', none) ↔
    1 ≤ atoi arg ∧ server' = (Directive.timeout (atoi arg)).apply server := by
  rw [setTimeout, checked_iff]
  refine and_congr_left' ?_
  simp only
  omega

theorem setSave_ok_iff {arg arg' : Bytes} : setSave server arg arg' = (server', none) ↔
    (1 ≤ atoi arg ∧ 0 ≤ atoi arg') ∧
      server' = (Directive.save (atoi arg) (atoi arg')).apply server := by
  rw [setSave, checked_iff]
  refine and_congr_left' ?_
  omega

theorem setDatabases_ok_iff {arg : Bytes} : setDatabases server arg = (server', none) ↔
    1 ≤ atoi arg ∧ server' = (Directive.databases (atoi arg)).apply server := by
  rw [setDatabases, checked_iff]
  refine and_congr_left' ?_
  simp only
  omega

theorem setDir_ok_iff {arg : Bytes} : setDir os count server arg = (server', none) ↔
    os.chdir count arg = none ∧ server' = (Directive.dir arg).apply server := by
  rw [setDir]
  cases os.chdir count arg with
  | none => simp [Directive.apply, eq_comm]
  | some strerror => simp

theorem setLogLevel_ok_iff {arg : Bytes} : setLogLevel server arg = (server', none) ↔
    ∃ level : LogLevel, arg = level.name ∧ server' = (Directive.loglevel level).apply server := by
  rw [setLogLevel]
  constructor
  · intro h
    split_ifs at h with hdebug hnotice hwarning
    · exact ⟨.CUTIS_DEBUG, hdebug, (Prod.mk.inj h).1.symm⟩
    · exact ⟨.CUTIS_NOTICE, hnotice, (Prod.mk.inj h).1.symm⟩
    · exact ⟨.CUTIS_WARNING, hwarning, (Prod.mk.inj h).1.symm⟩
    · cases (Prod.mk.inj h).2
  · rintro ⟨level, rfl, rfl⟩
    cases level <;> rfl

theorem setLogFile_ok_iff {arg : Bytes} : setLogFile os count server arg = (server', none) ↔
    (arg = sdsnew "stdout" ∨ os.fopen count arg = none) ∧
      server' = (Directive.logfile arg).apply server := by
  rw [setLogFile, Directive.apply]
  by_cases hout : arg = sdsnew "stdout"
  · simp only [hout, if_true, true_or, true_and, Prod.mk.injEq, and_true, eq_comm]
  · simp only [hout, if_false, false_or]
    cases os.fopen count arg with
    | none => simp [eq_comm]
    | some strerror => simp

theorem spells_of_execDirective (h : execDirective os count server words = (server', none)) :
    ∃ d : Directive, d.Spells words ∧ d.Granted os count ∧ server' = d.apply server := by
  simp only [execDirective] at h
  split_ifs at h with hport htimeout hsave hdir hlevel hfile hdatabases
  · obtain ⟨w, arg, rfl⟩ := List.length_eq_two.mp hport.2
    obtain ⟨hrange, hserver⟩ := setPort_ok_iff.mp h
    exact ⟨.port _, ⟨w, arg, rfl, hport.1, rfl, hrange⟩, trivial, hserver⟩
  · obtain ⟨w, arg, rfl⟩ := List.length_eq_two.mp htimeout.2
    obtain ⟨hrange, hserver⟩ := setTimeout_ok_iff.mp h
    exact ⟨.timeout _, ⟨w, arg, rfl, htimeout.1, rfl, hrange⟩, trivial, hserver⟩
  · obtain ⟨w, arg, arg', rfl⟩ := List.length_eq_three.mp hsave.2
    obtain ⟨hrange, hserver⟩ := setSave_ok_iff.mp h
    exact ⟨.save _ _, ⟨w, arg, arg', rfl, hsave.1, rfl, rfl, hrange⟩, trivial, hserver⟩
  · obtain ⟨w, arg, rfl⟩ := List.length_eq_two.mp hdir.2
    obtain ⟨hgranted, hserver⟩ := setDir_ok_iff.mp h
    exact ⟨.dir _, ⟨w, rfl, hdir.1⟩, hgranted, hserver⟩
  · obtain ⟨w, arg, rfl⟩ := List.length_eq_two.mp hlevel.2
    obtain ⟨level, harg, hserver⟩ := setLogLevel_ok_iff.mp h
    obtain rfl : arg = level.name := harg
    exact ⟨.loglevel _, ⟨w, rfl, hlevel.1⟩, trivial, hserver⟩
  · obtain ⟨w, arg, rfl⟩ := List.length_eq_two.mp hfile.2
    obtain ⟨hgranted, hserver⟩ := setLogFile_ok_iff.mp h
    exact ⟨.logfile _, ⟨w, rfl, hfile.1⟩, hgranted, hserver⟩
  · obtain ⟨w, arg, rfl⟩ := List.length_eq_two.mp hdatabases.2
    obtain ⟨hrange, hserver⟩ := setDatabases_ok_iff.mp h
    exact ⟨.databases _, ⟨w, arg, rfl, hdatabases.1, rfl, hrange⟩, trivial, hserver⟩
  · cases (Prod.mk.inj h).2

theorem other {name name' : Bytes} {argc n : Nat} (h : name ≠ name') : ¬(name = name' ∧ argc = n) :=
  fun hname => h hname.1

theorem execDirective_of_spells {d : Directive} (hspells : d.Spells words)
    (hgranted : d.Granted os count) :
    execDirective os count server words = (d.apply server, none) := by
  cases d with
  | port n =>
      obtain ⟨w, arg, rfl, hname, rfl, hrange⟩ := hspells
      simp only [execDirective, List.getD_cons_zero, hname]
      rw [if_pos ⟨trivial, rfl⟩]
      exact setPort_ok_iff.mpr ⟨hrange, rfl⟩
  | timeout n =>
      obtain ⟨w, arg, rfl, hname, rfl, hrange⟩ := hspells
      simp only [execDirective, List.getD_cons_zero, hname]
      rw [if_neg (other (by decide)), if_pos ⟨trivial, rfl⟩]
      exact setTimeout_ok_iff.mpr ⟨hrange, rfl⟩
  | save seconds changes =>
      obtain ⟨w, arg, arg', rfl, hname, rfl, rfl, hrange⟩ := hspells
      simp only [execDirective, List.getD_cons_zero, hname]
      rw [if_neg (other (by decide)), if_neg (other (by decide)), if_pos ⟨trivial, rfl⟩]
      exact setSave_ok_iff.mpr ⟨hrange, rfl⟩
  | dir path =>
      obtain ⟨w, rfl, hname⟩ := hspells
      simp only [execDirective, List.getD_cons_zero, hname]
      rw [if_neg (other (by decide)), if_neg (other (by decide)), if_neg (other (by decide)),
        if_pos ⟨trivial, rfl⟩]
      exact setDir_ok_iff.mpr ⟨hgranted, rfl⟩
  | loglevel level =>
      obtain ⟨w, rfl, hname⟩ := hspells
      simp only [execDirective, List.getD_cons_zero, hname]
      rw [if_neg (other (by decide)), if_neg (other (by decide)), if_neg (other (by decide)),
        if_neg (other (by decide)), if_pos ⟨trivial, rfl⟩]
      exact setLogLevel_ok_iff.mpr ⟨level, rfl, rfl⟩
  | logfile name =>
      obtain ⟨w, rfl, hname⟩ := hspells
      simp only [execDirective, List.getD_cons_zero, hname]
      rw [if_neg (other (by decide)), if_neg (other (by decide)), if_neg (other (by decide)),
        if_neg (other (by decide)), if_neg (other (by decide)), if_pos ⟨trivial, rfl⟩]
      exact setLogFile_ok_iff.mpr ⟨hgranted, rfl⟩
  | databases n =>
      obtain ⟨w, arg, rfl, hname, rfl, hrange⟩ := hspells
      simp only [execDirective, List.getD_cons_zero, hname]
      rw [if_neg (other (by decide)), if_neg (other (by decide)), if_neg (other (by decide)),
        if_neg (other (by decide)), if_neg (other (by decide)), if_neg (other (by decide)),
        if_pos ⟨trivial, rfl⟩]
      exact setDatabases_ok_iff.mpr ⟨hrange, rfl⟩

theorem execDirective_ok_iff :
    execDirective os count server words = (server', none) ↔
      ∃ d : Directive, d.Spells words ∧ d.Granted os count ∧ server' = d.apply server := by
  constructor
  · exact spells_of_execDirective
  · rintro ⟨d, hspells, hgranted, rfl⟩
    exact execDirective_of_spells hspells hgranted

end Exec

end Cutis

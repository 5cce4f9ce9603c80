import Cutis.Command.Queries

namespace Cutis

-- The number of arguments a handler reads, its name included.
def CommandProc.argc : CommandProc → Nat
  | .RandomKeyCommand | .DbsizeCommand | .SaveCommand | .BgsaveCommand | .ShutDownCommand
  | .PingCommand | .LastSaveCommand => 1
  | .GetCommand | .ExistsCommand | .DelCommand | .IncrCommand | .DecrCommand | .RPopCommand
  | .LPopCommand | .LLenCommand | .SCardCommand | .SInterCommand | .SelectCommand | .KeysCommand
  | .EchoCommand | .TypeCommand => 2
  | .SetCommand | .SetnxCommand | .RPushCommand | .LPushCommand | .LIndexCommand | .SAddCommand
  | .SRemCommand | .SIsMemberCommand | .MoveCommand | .RenameCommand | .RenamenxCommand => 3
  | .LRangeCommand | .LTrimCommand | .LSetCommand => 4

theorem argc_le {cmd : CutisCommand} (hmem : cmd ∈ cmdTable) {argc : Nat}
    (haccepts : cmd.accepts argc = true) : cmd.proc.argc ≤ argc := by
  have htable : ∀ cmd ∈ cmdTable,
      (0 < cmd.arity ∧ cmd.arity = cmd.proc.argc) ∨ -cmd.arity = cmd.proc.argc := by decide
  simp only [CutisCommand.accepts, Bool.not_eq_true', Bool.or_eq_false_iff, Bool.and_eq_false_iff,
    decide_eq_false_iff_not, bne_eq_false_iff_eq] at haccepts
  rcases htable cmd hmem with ⟨hpos, harity⟩ | harity
  · rcases haccepts.1 with h | h <;> omega
  · omega

namespace Model

-- What the abstract model does for a command. The results of SINTER, RANDOMKEY and
-- KEYS depend on orders that no client sees, and the others act on the server.
def outcome (m : Model) (argv : List Bytes) : CommandProc → Option Outcome
  | .GetCommand => m.apply (Keyspace.get · (argv.getD 1 []))
  | .SetCommand => m.apply (Keyspace.set · (argv.getD 1 []) (argv.getD 2 []))
  | .SetnxCommand => m.apply (Keyspace.setnx · (argv.getD 1 []) (argv.getD 2 []))
  | .ExistsCommand => m.apply (Keyspace.exists? · (argv.getD 1 []))
  | .DelCommand => m.apply (Keyspace.del · (argv.getD 1 []))
  | .IncrCommand => m.apply (Keyspace.incrBy · (argv.getD 1 []) 1)
  | .DecrCommand => m.apply (Keyspace.incrBy · (argv.getD 1 []) (-1))
  | .RPushCommand => m.apply (Keyspace.push · (argv.getD 1 []) .CUTIS_TAIL (argv.getD 2 []))
  | .LPushCommand => m.apply (Keyspace.push · (argv.getD 1 []) .CUTIS_HEAD (argv.getD 2 []))
  | .RPopCommand => m.apply (Keyspace.pop · (argv.getD 1 []) .CUTIS_TAIL)
  | .LPopCommand => m.apply (Keyspace.pop · (argv.getD 1 []) .CUTIS_HEAD)
  | .LLenCommand => m.apply (Keyspace.llen · (argv.getD 1 []))
  | .LIndexCommand => m.apply (Keyspace.lindex · (argv.getD 1 []) (atoi (argv.getD 2 [])))
  | .LRangeCommand =>
      m.apply (Keyspace.lrange · (argv.getD 1 []) (atoi (argv.getD 2 [])) (atoi (argv.getD 3 [])))
  | .LTrimCommand =>
      m.apply (Keyspace.ltrim · (argv.getD 1 []) (atoi (argv.getD 2 [])) (atoi (argv.getD 3 [])))
  | .LSetCommand =>
      m.apply (Keyspace.lset · (argv.getD 1 []) (atoi (argv.getD 2 [])) (argv.getD 3 []))
  | .SAddCommand => m.apply (Keyspace.sadd · (argv.getD 1 []) (argv.getD 2 []))
  | .SRemCommand => m.apply (Keyspace.srem · (argv.getD 1 []) (argv.getD 2 []))
  | .SIsMemberCommand => m.apply (Keyspace.sismember · (argv.getD 1 []) (argv.getD 2 []))
  | .SCardCommand => m.apply (Keyspace.scard · (argv.getD 1 []))
  | .SelectCommand => m.select (atoi (argv.getD 1 []))
  | .MoveCommand => m.move (argv.getD 1 []) (atoi (argv.getD 2 []))
  | .RenameCommand => m.apply (Keyspace.renameWith · (argv.getD 1 []) false (argv.getD 2 []))
  | .RenamenxCommand => m.apply (Keyspace.renameWith · (argv.getD 1 []) true (argv.getD 2 []))
  | .DbsizeCommand => m.apply Keyspace.dbsize
  | .TypeCommand => m.apply (Keyspace.type · (argv.getD 1 []))
  | .PingCommand => m.answer (.ofString "+PONG")
  | .EchoCommand => m.answer (.bulk (argv.getD 1 []))
  | .SInterCommand | .RandomKeyCommand | .KeysCommand | .SaveCommand | .BgsaveCommand
  | .ShutDownCommand | .LastSaveCommand => none

-- No table the command adds to is at its limit.
def HasRoom (m : Model) (argv : List Bytes) : CommandProc → Prop
  | .SetCommand | .SetnxCommand | .IncrCommand | .DecrCommand => ¬m.keyspace.Full
  | .RPushCommand | .LPushCommand => argv.getD 1 [] ∉ m.keyspace → ¬m.keyspace.Full
  | .SAddCommand =>
      (argv.getD 1 [] ∉ m.keyspace → ¬m.keyspace.Full) ∧
        ∀ members, m.keyspace.lookup (argv.getD 1 []) = some (.set members) → members.card ≠ 2 ^ 27
  | .MoveCommand =>
      m.validIndex (atoi (argv.getD 2 [])) → atoi (argv.getD 2 []) ≠ m.selected →
        argv.getD 1 [] ∈ m.keyspace → ¬(m.dataset.getD (atoi (argv.getD 2 [])).toNat ∅).Full
  | .RenameCommand | .RenamenxCommand =>
      argv.getD 1 [] ≠ argv.getD 2 [] → argv.getD 1 [] ∈ m.keyspace → ¬m.keyspace.Full
  | _ => True

end Model

namespace Session

section Calls

variable {s : Session} {proc : CommandProc} {argv : List Bytes}

theorem getD_arg (hargs : s.client.argv = argv) {i : Nat} (hi : i < argv.length) :
    s.client.argv[i]? = some (argv.getD i []) := by
  rw [hargs, List.getD_eq_getElem?_getD, List.getElem?_eq_getElem hi]
  rfl

-- A handler does what the model does, and the data tables have room for it.
theorem call_meets (h : s.Sound) (os : Os) (hargs : s.client.argv = argv)
    (hargc : proc.argc ≤ argv.length) (hroom : s.model.HasRoom argv proc)
    (hecho : proc = .EchoCommand → (argv.getD 1 []).length < 2 ^ 31) {o : Outcome}
    (ho : s.model.outcome argv proc = some o) : s.Meets (proc.call os s) o := by
  have harg (i : Nat) (hi : i < proc.argc) : s.client.argv[i]? = some (argv.getD i []) :=
    getD_arg hargs (Nat.lt_of_lt_of_le hi hargc)
  cases proc <;> cases ho
  case GetCommand => exact getCommand_meets h (harg 1 (by decide))
  case SetCommand => exact setCommand_meets h (harg 1 (by decide)) (harg 2 (by decide)) hroom
  case SetnxCommand => exact setnxCommand_meets h (harg 1 (by decide)) (harg 2 (by decide)) hroom
  case ExistsCommand => exact existsCommand_meets h (harg 1 (by decide))
  case DelCommand => exact delCommand_meets h (harg 1 (by decide))
  case IncrCommand => exact incrDecrCommand_meets h (harg 1 (by decide)) hroom 1
  case DecrCommand => exact incrDecrCommand_meets h (harg 1 (by decide)) hroom (-1)
  case RPushCommand =>
    exact pushGenericCommand_meets h (harg 1 (by decide)) (harg 2 (by decide)) _ hroom
  case LPushCommand =>
    exact pushGenericCommand_meets h (harg 1 (by decide)) (harg 2 (by decide)) _ hroom
  case RPopCommand => exact popGenericCommand_meets h (harg 1 (by decide)) _
  case LPopCommand => exact popGenericCommand_meets h (harg 1 (by decide)) _
  case LLenCommand => exact lLenCommand_meets h (harg 1 (by decide))
  case LIndexCommand => exact lIndexCommand_meets h (harg 1 (by decide)) (harg 2 (by decide))
  case LRangeCommand =>
    exact lRangeCommand_meets h (harg 1 (by decide)) (harg 2 (by decide)) (harg 3 (by decide))
  case LTrimCommand =>
    exact lTrimCommand_meets h (harg 1 (by decide)) (harg 2 (by decide)) (harg 3 (by decide))
  case LSetCommand =>
    exact lSetCommand_meets h (harg 1 (by decide)) (harg 2 (by decide)) (harg 3 (by decide))
  case SAddCommand =>
    exact sAddCommand_meets h (harg 1 (by decide)) (harg 2 (by decide)) hroom.1 hroom.2
  case SRemCommand => exact sRemCommand_meets h (harg 1 (by decide)) (harg 2 (by decide))
  case SIsMemberCommand => exact sIsMemberCommand_meets h (harg 1 (by decide)) (harg 2 (by decide))
  case SCardCommand => exact sCardCommand_meets h (harg 1 (by decide))
  case SelectCommand => exact selectCommand_meets h (harg 1 (by decide))
  case MoveCommand => exact moveCommand_meets h (harg 1 (by decide)) (harg 2 (by decide)) hroom
  case RenameCommand =>
    exact renameGenericCommand_meets h false (harg 1 (by decide)) (harg 2 (by decide)) hroom
  case RenamenxCommand =>
    exact renameGenericCommand_meets h true (harg 1 (by decide)) (harg 2 (by decide)) hroom
  case DbsizeCommand => exact dbsizeCommand_meets h
  case PingCommand => exact pingCommand_meets h
  case EchoCommand => exact echoCommand_meets h (harg 1 (by decide)) (hecho rfl)
  case TypeCommand => exact typeCommand_meets h (harg 1 (by decide))

-- At the limit of a table the process is lost.
theorem call_fault (h : s.Sound) (os : Os) (hargs : s.client.argv = argv)
    (hargc : proc.argc ≤ argv.length) (hroom : ¬s.model.HasRoom argv proc) :
    ∃ fault, proc.call os s = .error fault := by
  have harg (i : Nat) (hi : i < proc.argc) : s.client.argv[i]? = some (argv.getD i []) :=
    getD_arg hargs (Nat.lt_of_lt_of_le hi hargc)
  cases proc <;> first | exact absurd trivial hroom | skip
  case SetCommand => exact setGenericCommand_fault h (not_not.mp hroom) false
  case SetnxCommand => exact setGenericCommand_fault h (not_not.mp hroom) true
  case IncrCommand => exact incrDecrCommand_fault h (not_not.mp hroom) 1
  case DecrCommand => exact incrDecrCommand_fault h (not_not.mp hroom) (-1)
  case RPushCommand =>
    obtain ⟨hnew, hfull⟩ := Classical.not_imp.mp hroom
    exact pushGenericCommand_fault h (harg 1 (by decide)) _ hnew (not_not.mp hfull)
  case LPushCommand =>
    obtain ⟨hnew, hfull⟩ := Classical.not_imp.mp hroom
    exact pushGenericCommand_fault h (harg 1 (by decide)) _ hnew (not_not.mp hfull)
  case SAddCommand =>
    refine sAddCommand_fault h (harg 1 (by decide)) ?_
    rcases Classical.not_and_iff_not_or_not.mp hroom with hkey | hset
    · obtain ⟨hnew, hfull⟩ := Classical.not_imp.mp hkey
      exact Or.inl ⟨hnew, not_not.mp hfull⟩
    · push Not at hset
      exact Or.inr hset
  case MoveCommand =>
    unfold Model.HasRoom at hroom
    push Not at hroom
    obtain ⟨hvalid, hsel, hmem, hfull⟩ := hroom
    exact moveCommand_fault h (harg 1 (by decide)) (harg 2 (by decide)) hvalid hsel hmem hfull
  case RenameCommand =>
    unfold Model.HasRoom at hroom
    push Not at hroom
    obtain ⟨hne, hmem, hfull⟩ := hroom
    exact renameGenericCommand_fault h false (harg 1 (by decide)) (harg 2 (by decide)) hne hmem hfull
  case RenamenxCommand =>
    unfold Model.HasRoom at hroom
    push Not at hroom
    obtain ⟨hne, hmem, hfull⟩ := hroom
    exact renameGenericCommand_fault h true (harg 1 (by decide)) (harg 2 (by decide)) hne hmem hfull

end Calls

end Session

end Cutis

import Cutis.System.Types

namespace Cutis

-- How a client reads the answer to a command.
def CommandProc.replyKind : CommandProc → ReplyKind
  | .GetCommand | .RPopCommand | .LPopCommand | .LIndexCommand | .KeysCommand | .EchoCommand => .bulk
  | .LRangeCommand | .SInterCommand => .multi
  | _ => .line

namespace Reply

theorem notMem_printInt (n : Int) : LF ∉ printInt n := by
  have hdigits (k : Nat) : LF ∉ Decimal.print k := (print_clean k).1
  rw [printInt]
  split_ifs
  · intro hmem
    rcases List.mem_cons.mp hmem with h | h
    · exact absurd h (by decide)
    · exact hdigits _ h
  · exact hdigits _

theorem fits_int (n : Int) : (Reply.int n).Fits .line := notMem_printInt n

theorem fits_line {text : String} (h : LF ∉ sdsnew text) : (ofString text).Fits .line := h

theorem fits_nil (kind : ReplyKind) : nil.Fits kind := by
  cases kind with
  | line => exact (by decide : LF ∉ sdsnew "nil")
  | bulk => exact (by decide : LF ∉ sdsnew "nil" ∧ isNilOrError (sdsnew "nil") = true)
  | multi => exact (by decide : LF ∉ sdsnew "nil" ∧ isNilOrError (sdsnew "nil") = true)

theorem fits_bulk (s : Bytes) : (Reply.bulk s).Fits .bulk := trivial

theorem fits_multi (elements : List Bytes) : (Reply.multi elements).Fits .multi := trivial

theorem fits_bulkError (err : Bytes) {kind : ReplyKind} (hkind : kind ≠ .line) :
    (Reply.bulkError err).Fits kind := by
  cases kind with
  | line => exact absurd rfl hkind
  | bulk | multi => trivial

end Reply

namespace Keyspace

variable {ks : Keyspace} {key : Bytes} {missing : Effect} {wrong : Reply} {kind : ReplyKind}
  (hmissing : missing.reply.Fits kind) (hwrong : wrong.Fits kind)

include hmissing hwrong

theorem onString_fits {f : Bytes → Effect} (hf : ∀ s, (f s).reply.Fits kind) :
    (ks.onString key missing wrong f).reply.Fits kind := by
  rw [onString]
  split
  · exact hmissing
  · exact hf _
  · exact hwrong

theorem onList_fits {f : List Bytes → Effect} (hf : ∀ l, (f l).reply.Fits kind) :
    (ks.onList key missing wrong f).reply.Fits kind := by
  rw [onList]
  split
  · exact hmissing
  · exact hf _
  · exact hwrong

theorem onSet_fits {f : Finset Bytes → Effect} (hf : ∀ members, (f members).reply.Fits kind) :
    (ks.onSet key missing wrong f).reply.Fits kind := by
  rw [onSet]
  split
  · exact hmissing
  · exact hf _
  · exact hwrong

end Keyspace

namespace Keyspace

variable {ks : Keyspace} {key : Bytes}

theorem fits_ok : Reply.ok.Fits .line := Reply.fits_line (by decide)

theorem setnx_fits (val : Bytes) : (ks.setnx key val).reply.Fits .line := by
  rw [setnx]
  split_ifs <;> exact fits_ok

theorem exists_fits : (ks.exists? key).reply.Fits .line := by
  rw [exists?]
  split_ifs
  · exact Reply.fits_int 1
  · exact Reply.fits_int 0

theorem pop_fits (whereEnd : ListEnd) : (ks.pop key whereEnd).reply.Fits .bulk := by
  refine onList_fits (Reply.fits_nil _) (Reply.fits_bulkError _ (by decide)) fun l => ?_
  split
  · exact Reply.fits_nil _
  · exact Reply.fits_bulk _

theorem lindex_fits (index : Int) : (ks.lindex key index).reply.Fits .bulk := by
  refine onList_fits (Reply.fits_nil _) (Reply.fits_bulkError _ (by decide)) fun l => ?_
  cases listIndex l index with
  | none => exact Reply.fits_nil _
  | some el => exact Reply.fits_bulk el

theorem lset_fits (index : Int) (el : Bytes) : (ks.lset key index el).reply.Fits .line := by
  refine onList_fits (Reply.fits_line (by decide)) (Reply.fits_line (by decide)) fun l => ?_
  split
  · exact Reply.fits_line (by decide)
  · exact fits_ok

theorem sismember_fits (el : Bytes) : (ks.sismember key el).reply.Fits .line := by
  refine onSet_fits (Reply.fits_int _) (Reply.fits_int _) fun members => ?_
  rw [answer]
  split_ifs
  · exact Reply.fits_int 1
  · exact Reply.fits_int 0

theorem type_fits : (ks.type key).reply.Fits .line := by
  rw [type, answer]
  split <;> exact Reply.fits_line (by decide)

theorem renameWith_fits (nx : Bool) (dst : Bytes) : (ks.renameWith key nx dst).reply.Fits .line := by
  rw [renameWith]
  by_cases hsame : key = dst
  · rw [if_pos hsame]
    exact Reply.fits_line (by decide)
  · rw [if_neg hsame]
    cases ks.lookup key with
    | none => exact Reply.fits_line (by decide)
    | some v =>
        dsimp only
        split_ifs
        · exact Reply.fits_line (by decide)
        · exact fits_ok

end Keyspace

namespace Model

variable {m : Model}

theorem select_fits (id : Int) : (m.select id).reply.Fits .line := by
  rw [select]
  split_ifs
  · exact Keyspace.fits_ok
  · exact Reply.fits_line (by decide)

theorem move_fits (key : Bytes) (id : Int) : (m.move key id).reply.Fits .line := by
  rw [move]
  by_cases hvalid : m.validIndex id
  · rw [if_neg (not_not.mpr hvalid)]
    by_cases hsame : id = m.selected
    · rw [if_pos hsame]
      exact Reply.fits_line (by decide)
    · rw [if_neg hsame]
      cases m.keyspace.lookup key with
      | none => exact Reply.fits_line (by decide)
      | some v =>
          dsimp only
          split_ifs
          · exact Reply.fits_line (by decide)
          · exact Keyspace.fits_ok
  · rw [if_pos hvalid]
    exact Reply.fits_line (by decide)

-- Every answer is one that a client of the command understands.
theorem outcome_fits {argv : List Bytes} {proc : CommandProc} {o : Outcome}
    (ho : m.outcome argv proc = some o) : o.reply.Fits proc.replyKind := by
  have hok := Keyspace.fits_ok
  cases proc <;> cases ho
  case GetCommand =>
    exact Keyspace.onString_fits (Reply.fits_nil _) (Reply.fits_bulkError _ (by decide)) Reply.fits_bulk
  case SetCommand => exact hok
  case SetnxCommand => exact Keyspace.setnx_fits _
  case ExistsCommand => exact Keyspace.exists_fits
  case DelCommand => exact hok
  case IncrCommand => exact Reply.fits_int _
  case DecrCommand => exact Reply.fits_int _
  case RPushCommand => exact Keyspace.onList_fits hok (Reply.fits_line (by decide)) fun _ => hok
  case LPushCommand => exact Keyspace.onList_fits hok (Reply.fits_line (by decide)) fun _ => hok
  case RPopCommand => exact Keyspace.pop_fits _
  case LPopCommand => exact Keyspace.pop_fits _
  case LLenCommand =>
    exact Keyspace.onList_fits (Reply.fits_int 0) (Reply.fits_int _) fun _ => Reply.fits_int _
  case LIndexCommand => exact Keyspace.lindex_fits _
  case LRangeCommand =>
    have hnil := Reply.fits_nil .multi
    exact Keyspace.onList_fits hnil (Reply.fits_bulkError _ (by decide)) fun _ => Reply.fits_multi _
  case LTrimCommand =>
    exact Keyspace.onList_fits (Reply.fits_line (by decide)) (Reply.fits_line (by decide)) fun _ => hok
  case LSetCommand => exact Keyspace.lset_fits _ _
  case SAddCommand => exact Keyspace.onSet_fits hok (Reply.fits_line (by decide)) fun _ => hok
  case SRemCommand =>
    exact Keyspace.onSet_fits (Reply.fits_line (by decide)) (Reply.fits_line (by decide)) fun _ => hok
  case SIsMemberCommand => exact Keyspace.sismember_fits _
  case SCardCommand =>
    exact Keyspace.onSet_fits (Reply.fits_int 0) (Reply.fits_int _) fun _ => Reply.fits_int _
  case SelectCommand => exact select_fits _
  case MoveCommand => exact move_fits _ _
  case RenameCommand => exact Keyspace.renameWith_fits _ _
  case RenamenxCommand => exact Keyspace.renameWith_fits _ _
  case DbsizeCommand => exact Reply.fits_int _
  case PingCommand => exact Reply.fits_line (by decide)
  case EchoCommand => trivial
  case TypeCommand => exact Keyspace.type_fits

end Model

namespace System

variable {ι : Type} [DecidableEq ι]

-- The call adds exactly one answer to the queue of its client.
def OneReply (σ : System ι) (i : ι) (cmd : CutisCommand) (argv : List Bytes) (os : Os) : Prop :=
  ∃ σ' bytes, σ.act (.call i cmd argv os) = .ok σ' ∧
    (σ'.clients i).reply.flatten = (σ.clients i).reply.flatten ++ bytes ∧
    ∀ rest, cmd.proc.replyKind.read (bytes ++ rest) = some rest

-- The C library: qsort leaves the elements, and the results of random hit a slot of
-- the table that is not empty before they end.
structure LibOk (σ : System ι) (i : ι) (os : Os) : Prop where
  qsort : ∀ dv, (os.qsort dv).Perm dv
  random : ∀ db, σ.server.dict[(σ.clients i).dict]? = some db → db.used ≠ 0 →
    Session.RandomHits db os.random

section Replies

variable {σ : System ι} {i : ι} {cmd : CutisCommand} {argv : List Bytes} {os : Os}

theorem oneReply_of_meets (hstop : σ.stop = false) {o : Outcome}
    (hfits : o.reply.Fits cmd.proc.replyKind)
    (h : (σ.session i argv).Meets (cmd.proc.call os (σ.session i argv)) o) :
    σ.OneReply i cmd argv os := by
  obtain ⟨σ', hact, hanswers⟩ := act_answers hstop h
  exact ⟨σ', o.reply.encode, hact, hanswers.reply, Reply.read_encode hfits⟩

theorem not_oneReply_of_fault {fault : Fault}
    (h : cmd.proc.call os (σ.session i argv) = .error fault) : ¬σ.OneReply i cmd argv os := by
  rintro ⟨σ', -, hact, -⟩
  obtain ⟨-, s', hs, -⟩ := call_of_act hact
  cases h.symm.trans hs

-- SAVE and BGSAVE touch no client but for the line they answer.
theorem oneReply_of_line (hstop : σ.stop = false) (hkind : cmd.proc.replyKind = .line)
    {s' : Session} (hs : cmd.proc.call os (σ.session i argv) = .ok s') {text : Bytes}
    (htext : LF ∉ text)
    (hreply : s'.client.reply = (σ.clients i).reply ++ [text ++ [CR, LF]]) :
    σ.OneReply i cmd argv os := by
  refine ⟨σ.leave i s', text ++ [CR, LF], act_call hstop hs, ?_, fun rest => ?_⟩
  · simp [leave, hreply]
  · have hfits : (Reply.line text).Fits .line := htext
    rw [hkind]
    exact Reply.read_encode hfits rest

theorem saveCommand_reply (os : Os) (s : Session) :
    ∃ s' text, saveCommand os s = .ok s' ∧ LF ∉ text ∧
      s'.client.reply = s.client.reply ++ [text ++ [CR, LF]] := by
  unfold saveCommand
  split
  · exact ⟨_, sdsnew "+OK", rfl, by decide, rfl⟩
  · exact ⟨_, sdsnew "-ERR", rfl, by decide, rfl⟩

theorem bgsaveCommand_reply (os : Os) (s : Session) :
    ∃ s' text, bgsaveCommand os s = .ok s' ∧ LF ∉ text ∧
      s'.client.reply = s.client.reply ++ [text ++ [CR, LF]] := by
  unfold bgsaveCommand saveDBBackground
  split
  · refine ⟨_, sdsnew "-ERR background save already in process", rfl, by decide, ?_⟩
    rfl
  · exact ⟨_, sdsnew "+OK", rfl, by decide, rfl⟩

variable (h : σ.Sound) (hcall : CallOk cmd argv)

include h hcall

theorem oneReply_sinter (hstop : σ.stop = false) (hos : σ.LibOk i os)
    (hproc : cmd.proc = .SInterCommand) (hsafe : (σ.model i).keyspace.SinterSafe argv.tail) :
    σ.OneReply i cmd argv os := by
  have hargc := hcall.argc
  rw [hproc] at hargc
  have hne : argv.tail ≠ [] := by
    refine List.ne_nil_of_length_pos ?_
    rw [List.length_tail]
    exact Nat.sub_pos_of_lt hargc
  obtain ⟨r, hmeets, hr⟩ :=
    Session.sInterCommand_meets (h.session i argv) hos.qsort rfl hne hsafe
  have hcall' : (σ.session i argv).Meets (cmd.proc.call os (σ.session i argv))
      ((σ.model i).answer r) := by
    rw [hproc]
    exact hmeets
  refine oneReply_of_meets hstop ?_ hcall'
  rw [hproc]
  rcases hr with ⟨rfl, -⟩ | ⟨elements, rfl, -⟩
  · exact Reply.fits_bulkError _ (by decide)
  · exact Reply.fits_multi elements

omit hcall in
-- No key holds a line feed.
theorem oneReply_randomKey (hstop : σ.stop = false) (hos : σ.LibOk i os)
    (hproc : cmd.proc = .RandomKeyCommand) : σ.OneReply i cmd argv os := by
  have hsession := h.session i argv
  have hclean := Session.clean_keyspace hsession
  have hrandom : ∀ db, (σ.session i argv).db = .ok db → db.used ≠ 0 →
      Session.RandomHits db os.random := by
    intro db hdb
    obtain ⟨db', hdb', -, -, hget⟩ := Session.db_eq hsession
    obtain rfl := Except.ok.inj (hdb.symm.trans hdb')
    exact hos.random db hget
  obtain ⟨line, hmeets, hline⟩ := Session.randomKeyCommand_meets hsession hrandom
  have hcall' : (σ.session i argv).Meets (cmd.proc.call os (σ.session i argv))
      ((σ.model i).answer (.line line)) := by
    rw [hproc]
    exact hmeets
  refine oneReply_of_meets hstop ?_ hcall'
  rw [hproc]
  rcases hline with hmem | ⟨rfl, -⟩
  · obtain ⟨v, hlook⟩ := Finmap.mem_iff.mp hmem
    exact (hclean line v hlook).1.1.2.2.1
  · exact List.not_mem_nil

theorem oneReply_keys (hstop : σ.stop = false) (hproc : cmd.proc = .KeysCommand) :
    σ.OneReply i cmd argv os ↔
      Session.MatchesInBounds (σ.model i).keyspace (argv.getD 1 []) := by
  have hargc := hcall.argc
  rw [hproc] at hargc
  have hsession := h.session i argv
  have hpattern : (σ.session i argv).client.argv[1]? = some (argv.getD 1 []) :=
    Session.getD_arg rfl hargc
  constructor
  · intro hone
    by_contra hmatch
    obtain ⟨fault, hfault⟩ := Session.keysCommand_fault hsession hpattern hmatch
    have hfault' : cmd.proc.call os (σ.session i argv) = .error fault := by
      rw [hproc]
      exact hfault
    exact not_oneReply_of_fault hfault' hone
  · intro hmatch
    obtain ⟨body, hmeets⟩ := Session.keysCommand_meets hsession hpattern hmatch
    have hcall' : (σ.session i argv).Meets (cmd.proc.call os (σ.session i argv))
        ((σ.model i).answer (.bulk body)) := by
      rw [hproc]
      exact hmeets
    refine oneReply_of_meets hstop ?_ hcall'
    rw [hproc]
    exact Reply.fits_bulk body

theorem oneReply_outcome (hstop : σ.stop = false) {o : Outcome}
    (ho : (σ.model i).outcome argv cmd.proc = some o) :
    σ.OneReply i cmd argv os ↔ (σ.model i).HasRoom argv cmd.proc := by
  have hsession := h.session i argv
  constructor
  · intro hone
    by_contra hroom
    obtain ⟨fault, hfault⟩ := Session.call_fault hsession os rfl hcall.argc hroom
    exact not_oneReply_of_fault hfault hone
  · intro hroom
    have hecho : cmd.proc = .EchoCommand → (argv.getD 1 []).length < 2 ^ 31 := by
      intro he
      exact (hcall.key (by rw [he]; decide)).2
    exact oneReply_of_meets hstop (Model.outcome_fits ho)
      (Session.call_meets hsession os rfl hcall.argc hroom hecho ho)

end Replies

-- Every call but SHUTDOWN adds one complete answer, unless a table cannot grow,
-- SINTER meets a key of another type before a missing one, or StringMatch leaves the
-- pattern of KEYS.
theorem oneReply_iff {σ : System ι} (h : σ.Reachable) (hstop : σ.stop = false) {i : ι}
    {cmd : CutisCommand} {argv : List Bytes} (hcall : CallOk cmd argv)
    (hshut : cmd.proc ≠ .ShutDownCommand) {os : Os} (hos : σ.LibOk i os) :
    σ.OneReply i cmd argv os ↔ (σ.model i).HasRoom argv cmd.proc ∧
      (cmd.proc = .SInterCommand → (σ.model i).keyspace.SinterSafe argv.tail) ∧
      (cmd.proc = .KeysCommand →
        Session.MatchesInBounds (σ.model i).keyspace (argv.getD 1 [])) := by
  cases ho : (σ.model i).outcome argv cmd.proc with
  | some o =>
      rw [oneReply_outcome h.sound hcall hstop ho]
      refine ⟨fun hroom => ⟨hroom, fun hp => ?_, fun hp => ?_⟩, And.left⟩ <;>
        (rw [hp] at ho; cases ho)
  | none =>
      have hsession := h.sound.session i argv
      generalize hproc : cmd.proc = proc at *
      cases proc <;> first | (cases ho; done) | skip
      case SInterCommand =>
        constructor
        · intro hone
          refine ⟨trivial, fun _ => ?_, nofun⟩
          by_contra hsafe
          obtain ⟨fault, hfault⟩ := Session.sInterCommand_fault hsession hsafe
          exact not_oneReply_of_fault (by rw [hproc]; exact hfault) hone
        · intro hcond
          exact oneReply_sinter h.sound hcall hstop hos hproc (hcond.2.1 rfl)
      case RandomKeyCommand =>
        exact iff_of_true (oneReply_randomKey h.sound hstop hos hproc) ⟨trivial, nofun, nofun⟩
      case KeysCommand =>
        rw [oneReply_keys h.sound hcall hstop hproc]
        exact ⟨fun hmatch => ⟨trivial, nofun, fun _ => hmatch⟩, fun hcond => hcond.2.2 rfl⟩
      case SaveCommand =>
        obtain ⟨s', text, hs, htext, hreply⟩ := saveCommand_reply os (σ.session i argv)
        refine iff_of_true ?_ ⟨trivial, nofun, nofun⟩
        exact oneReply_of_line hstop (by rw [hproc]; rfl) (by rw [hproc]; exact hs) htext hreply
      case BgsaveCommand =>
        obtain ⟨s', text, hs, htext, hreply⟩ := bgsaveCommand_reply os (σ.session i argv)
        refine iff_of_true ?_ ⟨trivial, nofun, nofun⟩
        exact oneReply_of_line hstop (by rw [hproc]; rfl) (by rw [hproc]; exact hs) htext hreply
      case ShutDownCommand => exact absurd rfl hshut
      case LastSaveCommand =>
        have hmeets := Session.lastSaveCommand_meets hsession
        refine iff_of_true ?_ ⟨trivial, nofun, nofun⟩
        refine oneReply_of_meets hstop (o := (σ.model i).answer _) ?_ (by rw [hproc]; exact hmeets)
        rw [hproc]
        exact Reply.fits_int _

theorem libOk_empty (os : Os) (hqsort : ∀ dv, (os.qsort dv).Perm dv) :
    (init Unit 1).LibOk () os where
  qsort := hqsort
  random := fun db hdb hused => by
    obtain rfl := Option.some.inj hdb
    exact absurd rfl hused

theorem oneReply_set : (init Unit 1).OneReply () setCommandEntry setArgv plainOs := by
  have hreach : (init Unit 1).Reachable := Runs.Reach.start (start_init Nat.one_pos)
  refine (oneReply_iff hreach rfl callOk_set (by decide)
    (libOk_empty plainOs fun dv => List.Perm.refl dv)).mpr ⟨?_, nofun, nofun⟩
  rw [model_init]
  exact not_full_empty

def sinterEntry : CutisCommand := ⟨"sinter", .SInterCommand, -2, .CUTIS_CMD_INLINE⟩

def sinterArgv : List Bytes := [sdsnew "sinter", sdsnew "key"]

theorem callOk_sinter : CallOk sinterEntry sinterArgv where
  mem := by decide
  accepts := by decide
  words := by decide
  payload := nofun

-- SINTER of a list answers nothing that can be read.
theorem not_oneReply_sinter :
    ∃ σ : System Unit, σ.Reachable ∧ σ.stop = false ∧ CallOk sinterEntry sinterArgv ∧
      ∀ os, ¬σ.OneReply () sinterEntry sinterArgv os := by
  obtain ⟨σ, hreach, hstop, hmodel⟩ := exists_list
  refine ⟨σ, hreach, hstop, callOk_sinter, fun os => ?_⟩
  have hsafe : ¬(σ.model ()).keyspace.SinterSafe sinterArgv.tail := by
    intro h
    rw [hmodel] at h
    change listKeyspace.SinterSafe [sdsnew "key"] at h
    rw [Keyspace.SinterSafe, listKeyspace_lookup] at h
    exact h
  obtain ⟨fault, hfault⟩ := Session.sInterCommand_fault (hreach.sound.session () sinterArgv) hsafe
  have hcall : sinterEntry.proc.call os (σ.session () sinterArgv) = .error fault := hfault
  exact not_oneReply_of_fault hcall

end System

end Cutis

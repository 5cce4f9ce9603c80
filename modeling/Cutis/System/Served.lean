import Cutis.Command.Listing
import Cutis.Command.Pieces
import Cutis.System.Replies

namespace Cutis

namespace Model

variable (m : Model) (argv : List Bytes)

-- What a call may do to the databases and the client's choice of one, and the bytes it
-- answers. SINTER, KEYS and RANDOMKEY answer in an order no client sees; the control
-- commands answer a line, and SHUTDOWN nothing where it succeeds.
inductive Serves : CommandProc → Model → Bytes → Prop
  | outcome {proc : CommandProc} {o : Outcome} : m.outcome argv proc = some o →
      Serves proc o.model o.reply.encode
  | noSuchKey {key : Bytes} : key ∈ argv.tail → m.keyspace.lookup key = none →
      Serves .SInterCommand m (Reply.bulkError (sdsnew "No such key")).encode
  | inter {elements : List Bytes} : elements.Nodup →
      (∀ el, el ∈ elements ↔ m.keyspace.InAll argv.tail el) →
      Serves .SInterCommand m (Reply.multi elements).encode
  | keys {keys : List Bytes} : keys.Nodup →
      (∀ key, key ∈ keys ↔
        key ∈ m.keyspace ∧ stringMatch (argv.getD 1 []) key false = .ok true) →
      Serves .KeysCommand m (Reply.bulk ([SPACE].intercalate keys)).encode
  | noKey : m.keyspace = ∅ → Serves .RandomKeyCommand m (Reply.line []).encode
  | randomKey {key : Bytes} : key ∈ m.keyspace →
      Serves .RandomKeyCommand m (Reply.line key).encode
  | control {proc : CommandProc} {text : Bytes} :
      proc.control = true ∨ proc = .LastSaveCommand → LF ∉ text →
      Serves proc m (Reply.line text).encode
  | shutDown : Serves .ShutDownCommand m []

end Model

namespace Session

variable {s s' : Session}

-- A call of a handler, as its client and the others see it. The client can tell where
-- the answer ends.
structure Served (s : Session) (argv : List Bytes) (proc : CommandProc) (s' : Session)
    (reply : List Bytes) : Prop where
  queued : s'.client.reply = s.client.reply ++ reply
  serves : s.model.Serves argv proc s'.model reply.flatten
  read : proc ≠ .ShutDownCommand →
    ∀ more, proc.replyKind.read (reply.flatten ++ more) = some more

theorem served_of_meets {argv : List Bytes} {proc : CommandProc} {result : Except Fault Session}
    {o : Outcome} (h : s.Meets result o) (hs : result = .ok s')
    (hserves : s.model.Serves argv proc o.model o.reply.encode)
    (hfits : o.reply.Fits proc.replyKind) : ∃ reply, s.Served argv proc s' reply := by
  obtain ⟨s'', hok, dict, selected, reply, rfl, -, hmodel, hreply⟩ := h
  obtain rfl := Except.ok.inj (hok.symm.trans hs)
  refine ⟨reply, rfl, ?_, fun _ more => ?_⟩
  · rw [hmodel, ← hreply] at hserves
    exact hserves
  · rw [hreply]
    exact Reply.read_encode hfits more

-- The same where the handler leaves the databases alone.
theorem served_of_reply {argv : List Bytes} {proc : CommandProc} {reply : List Bytes} {r : Reply}
    (hqueued : s'.client.reply = s.client.reply ++ reply) (hmodel : s'.model = s.model)
    (hreply : reply.flatten = r.encode) (hserves : s.model.Serves argv proc s.model r.encode)
    (hfits : r.Fits proc.replyKind) : ∃ reply, s.Served argv proc s' reply := by
  refine ⟨reply, hqueued, ?_, fun _ more => ?_⟩
  · rw [hmodel, hreply]
    exact hserves
  · rw [hreply]
    exact Reply.read_encode hfits more

section Serves

variable (h : s.Sound) {cmd : CutisCommand} {argv : List Bytes}

include h

-- KEYS shows the keys that match.
theorem keys_served (hcall : CallOk cmd argv) (hargs : s.client.argv = argv)
    (hproc : cmd.proc = .KeysCommand) (hs : keysCommand s = .ok s') :
    ∃ reply, s.Served argv .KeysCommand s' reply := by
  have hargc := hcall.argc
  have hclean := clean_keyspace h
  rw [hproc] at hargc
  have hpattern := (hcall.key (by rw [hproc]; decide)).1.2.2.2
  have harg := getD_arg hargs (Nat.lt_of_lt_of_le (by decide : 1 < 2) hargc)
  obtain ⟨db, hdb, hsound, hks, -⟩ := db_eq h
  have hmatch : MatchesInBounds s.model.keyspace (argv.getD 1 []) := by
    by_contra hnot
    obtain ⟨fault, hfault⟩ := keysCommand_fault h harg hnot
    cases hfault.symm.trans hs
  have hmem (key : Bytes) : key ∈ db.toFinmap ↔ key ∈ s.model.keyspace := by
    rw [hks, Dict.mem_contents]
  have hlistable (key : Bytes) (hkey : key ∈ db.toFinmap) : Listable key := by
    obtain ⟨v, hlook⟩ := Finmap.mem_iff.mp ((hmem key).mp hkey)
    obtain ⟨hne, hspace, -, hnul⟩ := (hclean key v hlook).1.1
    exact ⟨hne, hspace, hnul⟩
  have hends (key : Bytes) (hkey : key ∈ db.toFinmap) :
      ∃ b, stringMatch (argv.getD 1 []) key false = .ok b := by
    obtain ⟨b, hb⟩ := hmatch key ((hmem key).mp hkey)
    exact ⟨b, (keysMatch_eq hpattern (hlistable key hkey).1).symm.trans hb⟩
  obtain ⟨body, hbody, hnodup, hlisted, -⟩ := keysCommand_lists hdb hsound.toInv
    (Nat.lt_of_le_of_lt hsound.size_le (by decide)) hlistable harg hpattern hends
  obtain rfl := Except.ok.inj (hbody.symm.trans hs)
  have hjoined : [SPACE].intercalate (listed body) = body := by
    rw [listed]
    split_ifs with hnil
    · simp [hnil]
    · exact List.intercalate_splitOn SPACE
  have hserves : s.model.Serves argv .KeysCommand s.model
      (Reply.bulk ([SPACE].intercalate (listed body))).encode :=
    .keys hnodup fun key => by rw [hlisted, hmem]
  rw [hjoined] at hserves
  have hbytes : [Decimal.print body.length ++ [CR, LF] ++ body ++ [CR, LF]].flatten =
      (Reply.bulk body).encode := by
    simp [Reply.encode, Reply.encodeBulk]
  exact served_of_reply rfl rfl hbytes hserves (Reply.fits_bulk body)

theorem inter_served (hcall : CallOk cmd argv) (hargs : s.client.argv = argv)
    (hproc : cmd.proc = .SInterCommand) {os : Os} (hqsort : ∀ dv, (os.qsort dv).Perm dv)
    (hs : sInterCommand os s = .ok s') : ∃ reply, s.Served argv .SInterCommand s' reply := by
  have hargc := hcall.argc
  rw [hproc] at hargc
  have hne : argv.tail ≠ [] := by
    refine List.ne_nil_of_length_pos ?_
    rw [List.length_tail]
    exact Nat.sub_pos_of_lt hargc
  have hsafe : s.model.keyspace.SinterSafe argv.tail := by
    by_contra hnot
    obtain ⟨fault, hfault⟩ : ∃ fault, sInterCommand os s = .error fault :=
      sInterCommand_fault h (hargs ▸ hnot)
    cases hfault.symm.trans hs
  obtain ⟨r, hmeets, hr⟩ := sInterCommand_meets h hqsort (by rw [hargs]) hne hsafe
  rcases hr with ⟨rfl, key, hkey, hlook⟩ | ⟨elements, rfl, hnodup, hmem⟩
  · exact served_of_meets hmeets hs (.noSuchKey hkey hlook) (Reply.fits_bulkError _ (by decide))
  · exact served_of_meets hmeets hs (.inter hnodup hmem) (Reply.fits_multi elements)

theorem randomKey_served {os : Os} (hs : randomKeyCommand os s = .ok s') :
    ∃ reply, s.Served argv .RandomKeyCommand s' reply := by
  rcases randomKeyCommand_cases h hs with ⟨hempty, rfl⟩ | ⟨key, hkey, rfl⟩
  · exact served_of_reply rfl rfl (flatten_line []) (.noKey hempty)
      (List.not_mem_nil : (Reply.line []).Fits .line)
  · obtain ⟨v, hlook⟩ := Finmap.mem_iff.mp hkey
    have hfits : (Reply.line key).Fits .line := (clean_keyspace h key v hlook).1.1.2.2.1
    exact served_of_reply rfl rfl (flatten_line key) (.randomKey hkey) hfits

omit h in
theorem control_served {proc : CommandProc} (hproc : proc.control = true) {os : Os}
    (hs : proc.call os s = .ok s') : ∃ reply, s.Served argv proc s' reply := by
  obtain ⟨hdict, hselected⟩ := System.control_dict hproc hs
  have hmodel : s'.model = s.model := by rw [model, model, hdict, hselected]
  have hline (text : Bytes) (htext : LF ∉ text) (hkind : proc.replyKind = .line)
      (hqueued : s'.client.reply = s.client.reply ++ [text ++ [CR, LF]]) :
      ∃ reply, s.Served argv proc s' reply := by
    have hfits : (Reply.line text).Fits .line := htext
    exact served_of_reply (r := .line text) hqueued hmodel List.flatten_singleton
      (.control (Or.inl hproc) htext) (hkind ▸ hfits)
  cases proc <;> first | (cases hproc; done) | skip
  case SaveCommand =>
    change saveCommand os s = .ok s' at hs
    unfold saveCommand at hs
    split at hs
    · cases hs
      exact hline (sdsnew "+OK") (by decide) rfl rfl
    · cases hs
      exact hline (sdsnew "-ERR") (by decide) rfl rfl
  case BgsaveCommand =>
    change bgsaveCommand os s = .ok s' at hs
    unfold bgsaveCommand saveDBBackground at hs
    split at hs
    · cases hs
      exact hline (sdsnew "-ERR background save already in process") (by decide) rfl rfl
    · cases hs
      exact hline (sdsnew "+OK") (by decide) rfl rfl
  case ShutDownCommand =>
    change shutDownCommand os s = .ok s' at hs
    unfold shutDownCommand at hs
    split at hs
    · cases hs
      refine ⟨[], by simp, ?_, fun hne => absurd rfl hne⟩
      rw [hmodel]
      exact .shutDown
    · cases hs
      exact hline (sdsnew "-ERR can't quit, problems saving the DB") (by decide) rfl rfl

-- Whatever the databases hold, a call that returns did one of the things its command may do.
theorem call_served (hcall : CallOk cmd argv) (hargs : s.client.argv = argv) {os : Os}
    (hqsort : ∀ dv, (os.qsort dv).Perm dv) (hs : cmd.proc.call os s = .ok s') :
    ∃ reply, s.Served argv cmd.proc s' reply := by
  cases ho : s.model.outcome argv cmd.proc with
  | some o =>
      have hroom : s.model.HasRoom argv cmd.proc := by
        by_contra hnot
        obtain ⟨fault, hfault⟩ := call_fault h os hargs hcall.argc hnot
        cases hfault.symm.trans hs
      have hecho : cmd.proc = .EchoCommand → (argv.getD 1 []).length < 2 ^ 31 := by
        intro he
        exact (hcall.key (by rw [he]; decide)).2
      exact served_of_meets (call_meets h os hargs hcall.argc hroom hecho ho) hs (.outcome ho)
        (Model.outcome_fits ho)
  | none =>
      have hkeys (hproc : cmd.proc = .KeysCommand) (hs : keysCommand s = .ok s') :=
        keys_served h hcall hargs hproc hs
      have hinter (hproc : cmd.proc = .SInterCommand) (hs : sInterCommand os s = .ok s') :=
        inter_served h hcall hargs hproc hqsort hs
      generalize cmd.proc = proc at *
      cases proc <;> first | (cases ho; done) | skip
      case SInterCommand => exact hinter rfl hs
      case RandomKeyCommand => exact randomKey_served h hs
      case KeysCommand => exact hkeys rfl hs
      case SaveCommand => exact control_served rfl hs
      case BgsaveCommand => exact control_served rfl hs
      case ShutDownCommand => exact control_served rfl hs
      case LastSaveCommand =>
        exact served_of_meets (lastSaveCommand_meets h) hs
          (.control (Or.inr rfl) (Reply.notMem_printInt _)) (Reply.fits_int _)

end Serves

end Session

end Cutis

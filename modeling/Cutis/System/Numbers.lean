import Cutis.Client.Lines
import Cutis.System.Calls

namespace Cutis

theorem Reply.head_error (err : String) : (Reply.error err).encode.head? = some MINUS := by
  rw [Reply.error, Reply.ofString, Reply.encode, sdsnew, String.toList_append]
  rfl

theorem Reply.ok_ne_error (err : String) : Reply.ok.encode ≠ (Reply.error err).encode := by
  intro h
  have hhead := congrArg List.head? h
  rw [head_error] at hhead
  revert hhead
  decide

namespace Model

variable {m : Model} {key : Bytes} {id : Int}

-- The target of MOVE can take one more key.
def MoveRoom (m : Model) (key : Bytes) (id : Int) : Prop :=
  m.validIndex id → id ≠ m.selected → key ∈ m.keyspace → ¬(m.dataset.getD id.toNat ∅).Full

def MoveFails (m : Model) (key : Bytes) (id : Int) : Prop :=
  ¬m.validIndex id ∨ id = m.selected ∨ key ∉ m.keyspace ∨ key ∈ m.dataset.getD id.toNat ∅

theorem move_fails (h : m.MoveFails key id) : ∃ err, m.move key id = m.answer (.error err) := by
  rw [move]
  by_cases hvalid : m.validIndex id
  · rw [if_neg (not_not.mpr hvalid)]
    by_cases hself : id = m.selected
    · exact ⟨_, if_pos hself⟩
    · rw [if_neg hself]
      cases hlook : m.keyspace.lookup key with
      | none => exact ⟨_, rfl⟩
      | some v =>
          have hmem : key ∈ m.keyspace := Finmap.mem_of_lookup_eq_some hlook
          rcases h with h | h | h | h
          · exact absurd hvalid h
          · exact absurd h hself
          · exact absurd hmem h
          · exact ⟨_, if_pos h⟩
  · exact ⟨_, if_pos hvalid⟩

theorem move_ok (h : ¬m.MoveFails key id) : (m.move key id).reply = .ok := by
  simp only [MoveFails, not_or, not_not] at h
  obtain ⟨hvalid, hself, hmem, htarget⟩ := h
  obtain ⟨v, hlook⟩ := Finmap.mem_iff.mp hmem
  rw [move, if_neg (not_not.mpr hvalid), if_neg hself, hlook]
  simp only [htarget, if_false]

end Model

namespace System

variable {ι : Type} [DecidableEq ι]

omit [DecidableEq ι] in
theorem Answers.reply_eq {σ σ' : System ι} {i : ι} {o o' : Outcome} (h : σ.Answers i o σ')
    (h' : σ.Answers i o' σ') : o.reply.encode = o'.reply.encode :=
  List.append_cancel_left (h.reply.symm.trans h'.reply)

section Indexes

-- SELECT takes the database with number n, or refuses and changes nothing.
def SelectMeant (σ : System ι) (i : ι) (cmd : CutisCommand) (argv : List Bytes) (n : Int) : Prop :=
  ∀ os, ∃ σ', σ.act (.call i cmd argv os) = .ok σ' ∧
    if (σ.model i).validIndex n then σ.Answers i ((σ.model i).select n) σ'
    else ∃ err, σ.Answers i ((σ.model i).answer (.error err)) σ'

-- MOVE has the database with number n as its target, or changes nothing.
def MoveMeant (σ : System ι) (i : ι) (cmd : CutisCommand) (argv : List Bytes) (n : Int) : Prop :=
  ∀ os, ∃ σ', σ.act (.call i cmd argv os) = .ok σ' ∧
    if (σ.model i).validIndex n then σ.Answers i ((σ.model i).move (argv.getD 1 []) n) σ'
    else ∃ err, σ.Answers i ((σ.model i).answer (.error err)) σ'

variable {σ : System ι} {i : ι} {cmd : CutisCommand} {argv : List Bytes} {n : Int}
  (h : σ.Sound) (hstop : σ.stop = false) (hint : σ.server.db_num < 2 ^ 31)
  (hcall : CallOk cmd argv)

omit [DecidableEq ι] in
theorem atoiValue_valid (hint : σ.server.db_num < 2 ^ 31) (hvalid : (σ.model i).validIndex n) :
    atoiValue n = n := by
  obtain ⟨hlo, hhi⟩ := hvalid
  have hlen : (σ.model i).dataset.length = σ.server.db_num := by
    simp [model, dataset, CutisServer.db_num]
  exact atoiValue_eq_self (by omega) (by omega)

include h hstop hint hcall

theorem selectMeant_iff (hproc : cmd.proc = .SelectCommand)
    (htext : NumberText (argv.getD 1 []) n) :
    σ.SelectMeant i cmd argv n ↔
      (σ.model i).validIndex n ∨ ¬(σ.model i).validIndex (atoiValue n) := by
  have ho : (σ.model i).outcome argv cmd.proc = some ((σ.model i).select (atoiValue n)) := by
    rw [hproc, Model.outcome, atoi_text htext]
  have hroom : (σ.model i).HasRoom argv cmd.proc := by
    rw [hproc]
    trivial
  have hecho : cmd.proc = .EchoCommand → (argv.getD 1 []).length < 2 ^ 31 := by
    rw [hproc]
    exact nofun
  constructor
  · intro hmeant
    by_contra hnot
    simp only [not_or, not_not] at hnot
    obtain ⟨hinvalid, hvalid⟩ := hnot
    obtain ⟨σ', hact, hanswers⟩ := hmeant plainOs
    rw [if_neg hinvalid] at hanswers
    obtain ⟨err, herr⟩ := hanswers
    obtain ⟨σ'', hact', hanswers⟩ := call_answers h hcall hstop plainOs hroom hecho ho
    obtain rfl := Except.ok.inj (hact'.symm.trans hact)
    rw [Model.select, if_pos hvalid] at hanswers
    exact Reply.ok_ne_error err (hanswers.reply_eq herr)
  · intro hcond os
    obtain ⟨σ', hact, hanswers⟩ := call_answers h hcall hstop os hroom hecho ho
    refine ⟨σ', hact, ?_⟩
    by_cases hvalid : (σ.model i).validIndex n
    · rwa [if_pos hvalid, ← atoiValue_valid hint hvalid]
    · rw [if_neg hvalid]
      rw [Model.select, if_neg (hcond.resolve_left hvalid)] at hanswers
      exact ⟨_, hanswers⟩

theorem moveMeant_iff (hproc : cmd.proc = .MoveCommand) (htext : NumberText (argv.getD 2 []) n) :
    σ.MoveMeant i cmd argv n ↔
      (σ.model i).MoveRoom (argv.getD 1 []) (atoiValue n) ∧
        ((σ.model i).validIndex n ∨ (σ.model i).MoveFails (argv.getD 1 []) (atoiValue n)) := by
  have ho : (σ.model i).outcome argv cmd.proc =
      some ((σ.model i).move (argv.getD 1 []) (atoiValue n)) := by
    rw [hproc, Model.outcome, atoi_text htext]
  have hroom : (σ.model i).HasRoom argv cmd.proc ↔
      (σ.model i).MoveRoom (argv.getD 1 []) (atoiValue n) := by
    rw [hproc, Model.HasRoom, atoi_text htext, Model.MoveRoom]
  have hecho : cmd.proc = .EchoCommand → (argv.getD 1 []).length < 2 ^ 31 := by
    rw [hproc]
    exact nofun
  constructor
  · intro hmeant
    obtain ⟨σ', hact, hanswers⟩ := hmeant plainOs
    have hmoves : (σ.model i).MoveRoom (argv.getD 1 []) (atoiValue n) := by
      by_contra hfull
      exact call_no_room h hcall (fun hr => hfull (hroom.mp hr)) plainOs ⟨σ', hact⟩
    refine ⟨hmoves, ?_⟩
    by_contra hnot
    rw [not_or] at hnot
    obtain ⟨hinvalid, hmoved⟩ := hnot
    rw [if_neg hinvalid] at hanswers
    obtain ⟨err, herr⟩ := hanswers
    obtain ⟨σ'', hact', hanswers⟩ :=
      call_answers h hcall hstop plainOs (hroom.mpr hmoves) hecho ho
    obtain rfl := Except.ok.inj (hact'.symm.trans hact)
    have hreply := hanswers.reply_eq herr
    rw [Model.move_ok hmoved] at hreply
    exact Reply.ok_ne_error err hreply
  · rintro ⟨hmoves, hcond⟩ os
    obtain ⟨σ', hact, hanswers⟩ := call_answers h hcall hstop os (hroom.mpr hmoves) hecho ho
    refine ⟨σ', hact, ?_⟩
    by_cases hvalid : (σ.model i).validIndex n
    · rwa [if_pos hvalid, ← atoiValue_valid hint hvalid]
    · rw [if_neg hvalid]
      obtain ⟨err, herr⟩ := Model.move_fails (hcond.resolve_left hvalid)
      exact ⟨err, herr ▸ hanswers⟩

omit h hstop hint hcall

-- A number is taken for what it says exactly where the conversion to an int keeps
-- it, or where what it turns into is refused just the same.
theorem numbersMeant_iff {σ : System ι} (h : σ.Reachable) (hstop : σ.stop = false)
    (hint : σ.server.db_num < 2 ^ 31) (i : ι) {text : Bytes} {n : Int} (htext : NumberText text n) :
    (∀ cmd argv, CallOk cmd argv → cmd.proc = .SelectCommand → argv.getD 1 [] = text →
      (σ.SelectMeant i cmd argv n ↔
        (σ.model i).validIndex n ∨ ¬(σ.model i).validIndex (atoiValue n))) ∧
    (∀ cmd argv, CallOk cmd argv → cmd.proc = .MoveCommand → argv.getD 2 [] = text →
      (σ.MoveMeant i cmd argv n ↔
        (σ.model i).MoveRoom (argv.getD 1 []) (atoiValue n) ∧
          ((σ.model i).validIndex n ∨ (σ.model i).MoveFails (argv.getD 1 []) (atoiValue n)))) ∧
    (∀ name args cmd, lookupCommand (sdstolower name) = some cmd →
      cmd.accepts (args.length + 2) = true → cmd.type = .CUTIS_CMD_BULK →
      (CountMeant name args text cmd n ↔
        (0 ≤ n ∧ n ≤ 2 ^ 30) ∨ ¬(0 ≤ atoiValue n ∧ atoiValue n ≤ 2 ^ 30))) := by
  refine ⟨fun cmd argv hcall hproc harg => ?_, fun cmd argv hcall hproc harg => ?_,
    fun name args cmd hlookup haccepts hbulk => ?_⟩
  · exact selectMeant_iff h.sound hstop hint hcall hproc (harg ▸ htext)
  · exact moveMeant_iff h.sound hstop hint hcall hproc (harg ▸ htext)
  · exact countMeant_iff htext hlookup haccepts hbulk

def selectCommandEntry : CutisCommand := ⟨"select", .SelectCommand, 2, .CUTIS_CMD_INLINE⟩

def selectArgv (text : Bytes) : List Bytes := [sdsnew "select", text]

theorem getD_selectArgv (text : Bytes) : (selectArgv text).getD 1 [] = text := rfl

theorem callOk_select {text : Bytes} (htext : ShortWord text) :
    CallOk selectCommandEntry (selectArgv text) where
  mem := by decide
  accepts := by
    show selectCommandEntry.accepts 2 = true
    decide
  words w hw := by
    have hname : ShortWord (sdsnew "select") := by decide
    have hmem : w = sdsnew "select" ∨ w = text := by
      simpa [selectCommandEntry, CommandProc.bulk, selectArgv] using hw
    rcases hmem with rfl | rfl
    · exact hname
    · exact htext
  payload := nofun

theorem numberText_print (n : Nat) : NumberText (Decimal.print n) n :=
  ⟨Decimal.print n, Decimal.print_ne_nil n, fun _ => Decimal.isDigit_of_mem_print,
    Or.inl ⟨rfl, by rw [Decimal.value_print]⟩⟩

def moveEntry : CutisCommand := ⟨"move", .MoveCommand, 3, .CUTIS_CMD_INLINE⟩

def moveArgv (text : Bytes) : List Bytes := [sdsnew "move", sdsnew "key", text]

theorem callOk_move {text : Bytes} (htext : ShortWord text) : CallOk moveEntry (moveArgv text) where
  mem := by decide
  accepts := by
    show moveEntry.accepts 3 = true
    decide
  words w hw := by
    have hname : ShortWord (sdsnew "move") ∧ ShortWord (sdsnew "key") := by decide
    have hmem : w = sdsnew "move" ∨ w = sdsnew "key" ∨ w = text := by
      simpa [moveEntry, CommandProc.bulk, moveArgv] using hw
    rcases hmem with rfl | rfl | rfl
    · exact hname.1
    · exact hname.2
    · exact htext
  payload := nofun

-- Sixteen databases, the first one with a key.
def sixteen : Dataset :=
  (∅ : Keyspace).insert (sdsnew "key") (.string (sdsnew "value")) :: List.replicate 15 ∅

theorem exists_sixteen :
    ∃ σ : System Unit, σ.Reachable ∧ σ.stop = false ∧
      σ.model () = { dataset := sixteen, selected := 0 } := by
  have hinit : (init Unit 16).model () = { dataset := List.replicate 16 ∅, selected := 0 } := by
    rw [model, dataset_init]
    rfl
  have hstart : (init Unit 16).Reachable := Runs.Reach.start (start_init (by decide))
  have hroom : ((init Unit 16).model ()).HasRoom setArgv .SetCommand := by
    rw [hinit]
    exact not_full_empty
  obtain ⟨σ, hreach, hstop, -, hanswers⟩ :=
    hstart.call callOk_set rfl plainOs hroom (by decide) rfl
  refine ⟨σ, hreach, hstop, ?_⟩
  rw [hanswers.model, hinit]
  rfl

theorem shortWord_print {n : Nat} (hn : n < 10 ^ 10) : ShortWord (Decimal.print n) := by
  have hlen : (Decimal.print n).length ≤ 9 + 1 := Decimal.print_length_le hn
  exact ⟨word_print n, by omega⟩

theorem numbersMeant_three :
    ∃ σ : System Unit, σ.Reachable ∧ σ.server.db_num = 16 ∧ sdsnew "key" ∈ (σ.model ()).keyspace ∧
      σ.SelectMeant () selectCommandEntry (selectArgv (Decimal.print 3)) 3 ∧
      σ.MoveMeant () moveEntry (moveArgv (Decimal.print 3)) 3 ∧
      CountMeant (sdsnew "SET") [sdsnew "key"] (Decimal.print 3) setCommandEntry 3 := by
  obtain ⟨σ, hreach, hstop, hmodel⟩ := exists_sixteen
  have hnum : σ.server.db_num = 16 := by
    have hlen := congrArg (fun m : Model => m.dataset.length) hmodel
    simpa [model, dataset, sixteen, CutisServer.db_num] using hlen
  have hword : ShortWord (Decimal.print 3) := shortWord_print (by norm_num)
  have hvalid : (σ.model ()).validIndex (3 : Nat) := by
    rw [hmodel]
    exact ⟨by norm_num, by norm_num [sixteen]⟩
  obtain ⟨hselect, hmove, hcount⟩ :=
    numbersMeant_iff hreach hstop (by omega) () (numberText_print 3)
  refine ⟨σ, hreach, hnum, ?_, ?_, ?_, ?_⟩
  · rw [hmodel]
    exact Finmap.mem_of_lookup_eq_some (Finmap.lookup_insert _)
  · exact (hselect _ _ (callOk_select hword) rfl rfl).mpr (Or.inl hvalid)
  · refine (hmove _ _ (callOk_move hword) rfl rfl).mpr ⟨fun _ _ _ => ?_, Or.inl hvalid⟩
    rw [hmodel]
    exact not_full_empty
  · exact (hcount (sdsnew "SET") [sdsnew "key"] setCommandEntry (by decide) (by decide) rfl).mpr
      (Or.inl ⟨by norm_num, by norm_num⟩)

-- The int that 2^32 turns into is 0.
theorem not_selectMeant_overflow :
    ¬(init Unit 1).SelectMeant () selectCommandEntry (selectArgv (Decimal.print (2 ^ 32)))
      (2 ^ 32 : Nat) := by
  have htext : NumberText ((selectArgv (Decimal.print (2 ^ 32))).getD 1 []) (2 ^ 32 : Nat) := by
    rw [getD_selectArgv]
    exact numberText_print _
  have hword : ShortWord (Decimal.print (2 ^ 32)) := shortWord_print (by norm_num)
  have hvalue : atoiValue (2 ^ 32 : Nat) = 0 := by
    norm_num [atoiValue, LLONG_MIN, LLONG_MAX, toInt32, Int.bmod_def]
  rw [selectMeant_iff (start_init Nat.one_pos).sound rfl (by decide) (callOk_select hword) rfl
    htext, hvalue, model_init]
  rintro (⟨-, hhi⟩ | hinvalid)
  · norm_num at hhi
  · exact hinvalid ⟨Int.le_refl _, by decide⟩

end Indexes

end System

end Cutis

import Cutis.Client.Sending
import Cutis.Command.Calls

namespace Cutis

theorem printInt_length {n : Int} (hlo : -2 ^ 63 ≤ n) (hhi : n < 2 ^ 63) :
    (printInt n).length ≤ 20 := by
  have hprint (k : Nat) (hk : k ≤ 2 ^ 63) : (Decimal.print k).length ≤ 19 :=
    Decimal.print_length_le (Nat.lt_of_le_of_lt hk (by decide))
  rw [printInt]
  split_ifs
  · have := hprint n.natAbs (by omega)
    rw [List.length_cons]
    omega
  · have := hprint n.toNat (by omega)
    omega

theorem length_intLine (n : Int) : (intLine n).length ≤ 22 := by
  have hhi := toInt32_lt n
  have hlo : -2 ^ 31 ≤ toInt32 n := by
    have := @Int.le_bmod n (2 ^ 32) (by decide)
    simpa [toInt32] using this
  have hprint := printInt_length (n := toInt32 n) (by omega) (by omega)
  have hcrlf : shared.crlf.length = 2 := by decide
  rw [intLine, List.length_append, hcrlf]
  omega

namespace Session

variable {s s' s'' : Session}

-- The strings a handler queues have lengths that fit in an int.
def AddsShort (s s' : Session) : Prop :=
  ∃ reply, s'.client.reply = s.client.reply ++ reply ∧ ShortReplies reply

section Pieces

theorem addsShort_one {o : Bytes} (h : s'.client.reply = s.client.reply ++ [o])
    (ho : o.length < 2 ^ 31) : s.AddsShort s' :=
  ⟨[o], h, fun _ hmsg => List.mem_singleton.mp hmsg ▸ ho⟩

theorem addsShort_crlf {o : Bytes} (h : s'.client.reply = s.client.reply ++ [o, shared.crlf])
    (ho : o.length < 2 ^ 31) : s.AddsShort s' := by
  refine ⟨_, h, fun msg hmsg => ?_⟩
  rcases List.mem_cons.mp hmsg with rfl | hmsg
  · exact ho
  · rw [List.mem_singleton.mp hmsg]
    decide

theorem short_intLine (n : Int) : (intLine n).length < 2 ^ 31 :=
  Nat.lt_of_le_of_lt (length_intLine n) (by decide)

theorem short_bulkError {err : String} (h : (sdsnew err).length ≤ 100) :
    (bulkError err).length < 2 ^ 31 := by
  have hline := length_intLine (-((sdsnew err).length : Int))
  have hcrlf : shared.crlf.length = 2 := by decide
  rw [bulkError, List.length_append, List.length_append, hcrlf]
  omega

theorem short_bulkParts {el : Bytes} (hel : el.length < 2 ^ 31) : ShortReplies (bulkParts el) := by
  intro msg hmsg
  simp only [bulkParts, List.mem_cons, List.not_mem_nil, or_false] at hmsg
  rcases hmsg with hmsg | hmsg | hmsg
  · exact hmsg ▸ short_intLine _
  · exact hmsg ▸ hel
  · rw [hmsg, crlf_eq]
    exact Nat.lt_of_le_of_lt (Nat.le_refl 2) (by decide)

theorem addsShort_bulk {o : Bytes} (h : s'.client.reply = s.client.reply ++ bulkParts o)
    (ho : o.length < 2 ^ 31) : s.AddsShort s' :=
  ⟨_, h, short_bulkParts ho⟩

-- A count line and the elements behind it.
theorem short_multi (n : Int) {elements : List Bytes} (hel : ∀ el ∈ elements, el.length < 2 ^ 31) :
    ShortReplies (intLine n :: elements.flatMap bulkParts) := by
  intro msg hmsg
  rcases List.mem_cons.mp hmsg with rfl | hmsg
  · exact short_intLine _
  · obtain ⟨el, hmem, hpart⟩ := List.mem_flatMap.mp hmsg
    exact short_bulkParts (hel el hmem) msg hpart

end Pieces

section Handlers

variable (h : s.Sound)

include h

-- The strings in the value of a key are short.
theorem found_short {db : Database} (hdb : s.db = .ok db) {key : Bytes}
    {de : DictEntry Bytes CutisObject} (hfind : dictFind sdsDictType db key = some de) :
    ShortWord de.key ∧ de.val.value.Short := by
  obtain ⟨db', hdb', hsound, hks, -⟩ := db_eq h
  obtain rfl := Except.ok.inj (hdb.symm.trans hdb')
  obtain ⟨hkey, -, -, hlook⟩ := hsound.dictFind_some hfind
  exact hkey ▸ clean_keyspace h key _ (hks ▸ hlook)

theorem getCommand_short (hs : getCommand s = .ok s') : s.AddsShort s' := by
  obtain ⟨db, hdb, hs⟩ := bind_eq_ok.mp hs
  obtain ⟨key, -, hs⟩ := bind_eq_ok.mp hs
  split at hs
  · cases hs
    exact addsShort_one rfl (by decide)
  · next de hfind =>
    have hvalue := (found_short h hdb hfind).2
    split at hs
    · next o hval =>
      cases hs
      rw [hval] at hvalue
      exact addsShort_bulk (by simp [addBulk, addReply, addReplySds, bulkParts]) hvalue
    · cases hs
      exact addsShort_one rfl (short_bulkError (by decide))

theorem popGenericCommand_short (whereEnd : ListEnd) (hs : popGenericCommand s whereEnd = .ok s') :
    s.AddsShort s' := by
  obtain ⟨db, hdb, hs⟩ := bind_eq_ok.mp hs
  obtain ⟨key, -, hs⟩ := bind_eq_ok.mp hs
  split at hs
  · cases hs
    exact addsShort_one rfl (by decide)
  · next de hfind =>
    have hvalue := (found_short h hdb hfind).2
    split at hs
    · next l hval =>
      rw [hval] at hvalue
      split at hs
      · cases hs
        exact addsShort_one rfl (by decide)
      · next el l' hpop =>
        have hel : el ∈ l := by
          cases whereEnd with
          | CUTIS_HEAD =>
              obtain ⟨a, ha, heq⟩ := Option.map_eq_some_iff.mp hpop
              obtain ⟨rfl, -⟩ := Prod.mk.inj heq
              exact List.mem_of_head? ha
          | CUTIS_TAIL =>
              obtain ⟨a, ha, heq⟩ := Option.map_eq_some_iff.mp hpop
              obtain ⟨rfl, -⟩ := Prod.mk.inj heq
              exact List.mem_of_getLast? ha
        cases hs
        refine addsShort_bulk (o := el) ?_ (hvalue el hel)
        simp [addBulk, addReply, addReplySds, bulkParts, setDB, setDict, dirtied]
    · cases hs
      exact addsShort_one rfl (short_bulkError (by decide))

theorem lIndexCommand_short (hs : lIndexCommand s = .ok s') : s.AddsShort s' := by
  obtain ⟨db, hdb, hs⟩ := bind_eq_ok.mp hs
  obtain ⟨key, -, hs⟩ := bind_eq_ok.mp hs
  obtain ⟨arg₂, -, hs⟩ := bind_eq_ok.mp hs
  dsimp only at hs
  split at hs
  · cases hs
    exact addsShort_one rfl (by decide)
  · next de hfind =>
    have hvalue := (found_short h hdb hfind).2
    split at hs
    · next l hval =>
      rw [hval] at hvalue
      split at hs
      · cases hs
        exact addsShort_one rfl (by decide)
      · next el hel =>
        cases hs
        refine addsShort_bulk (o := el) (by simp [addBulk, addReply, addReplySds, bulkParts]) ?_
        refine hvalue el ?_
        rw [listIndex] at hel
        split_ifs at hel
        · exact List.mem_reverse.mp (List.mem_of_getElem? hel)
        · exact List.mem_of_getElem? hel
    · cases hs
      exact addsShort_one rfl (short_bulkError (by decide))

omit h in
theorem addRange_short {l : List Bytes} (hl : ∀ el ∈ l, el.length < 2 ^ 31) (n : Nat)
    (hs : addRange n l s = .ok s') : s.AddsShort s' := by
  induction n generalizing l s with
  | zero =>
      cases hs
      exact ⟨[], by simp, fun msg hmsg => absurd hmsg List.not_mem_nil⟩
  | succ n ih =>
      cases l with
      | nil => cases hs
      | cons el next =>
          obtain ⟨reply, hreply, hshort⟩ := ih (fun el hel => hl el (List.mem_cons_of_mem _ hel)) hs
          refine ⟨bulkParts el ++ reply, ?_, fun msg hmsg => ?_⟩
          · rw [hreply]
            simp [addBulk, addReply, addReplySds, bulkParts]
          · rcases List.mem_append.mp hmsg with hmsg | hmsg
            · exact short_bulkParts (hl el List.mem_cons_self) msg hmsg
            · exact hshort msg hmsg

theorem lRangeCommand_short (hs : lRangeCommand s = .ok s') : s.AddsShort s' := by
  obtain ⟨db, hdb, hs⟩ := bind_eq_ok.mp hs
  obtain ⟨key, -, hs⟩ := bind_eq_ok.mp hs
  obtain ⟨arg₂, -, hs⟩ := bind_eq_ok.mp hs
  obtain ⟨arg₃, -, hs⟩ := bind_eq_ok.mp hs
  dsimp only at hs
  split at hs
  · cases hs
    exact addsShort_one rfl (by decide)
  · next de hfind =>
    have hvalue := (found_short h hdb hfind).2
    split at hs
    · next l hval =>
      rw [hval] at hvalue
      split at hs
      · cases hs
        exact addsShort_one rfl (by decide)
      · next start endIdx hbounds =>
        obtain ⟨reply, hreply, hshort⟩ :=
          addRange_short (fun el hel => hvalue el (List.mem_of_mem_drop hel)) _ hs
        refine ⟨intLine (endIdx - start + 1) :: reply, by simp [hreply, addReplySds, addReply], ?_⟩
        intro msg hmsg
        rcases List.mem_cons.mp hmsg with rfl | hmsg
        · exact short_intLine _
        · exact hshort msg hmsg
    · cases hs
      exact addsShort_one rfl (short_bulkError (by decide))

theorem sInterCommand_short {os : Os} (hqsort : ∀ dv, (os.qsort dv).Perm dv)
    (hs : sInterCommand os s = .ok s') : s.AddsShort s' := by
  obtain ⟨db, hdb, hsound, hks, -⟩ := db_eq h
  rw [sInterCommand, hdb, ok_bind] at hs
  obtain ⟨sets, hsets, hs⟩ := bind_eq_ok.mp hs
  cases sets with
  | none =>
      cases hs
      exact addsShort_one rfl (short_bulkError (by decide))
  | some dv =>
      change sInterReply os s dv = .ok s' at hs
      cases hsorted : os.qsort dv with
      | nil =>
          rw [sInterReply, hsorted] at hs
          cases hs
      | cons smallest others =>
          have hperm := hqsort dv
          rw [hsorted] at hperm
          rw [sInterReply_eq hsorted, sInterElements_eq] at hs
          cases hs
          refine ⟨_, rfl, short_multi _ ?_⟩
          by_cases hsafe : db.contents.SinterSafe s.client.argv.tail
          · rcases sInterSets_ok hsound hsafe with ⟨hnone, -⟩ | ⟨dv', hok, hdv⟩
            · cases hnone.symm.trans hsets
            · obtain rfl := Option.some.inj (Except.ok.inj (hok.symm.trans hsets))
              exact short_interMembers hdv hperm (hks ▸ clean_keyspace h)
          · obtain ⟨fault, hfault⟩ := sInterSets_fault hsound hsafe
            cases hfault.symm.trans hsets

omit h

theorem setGenericCommand_short (nx : Bool) (hs : setGenericCommand s nx = .ok s') :
    s.AddsShort s' := by
  obtain ⟨key, -, hs⟩ := bind_eq_ok.mp hs
  obtain ⟨val, -, hs⟩ := bind_eq_ok.mp hs
  obtain ⟨db, -, hs⟩ := bind_eq_ok.mp hs
  obtain ⟨⟨db', ret⟩, -, hs⟩ := bind_eq_ok.mp hs
  obtain ⟨db'', -, hs⟩ := bind_eq_ok.mp hs
  cases hs
  exact addsShort_one rfl (by decide)

theorem existsCommand_short (hs : existsCommand s = .ok s') : s.AddsShort s' := by
  obtain ⟨db, -, hs⟩ := bind_eq_ok.mp hs
  obtain ⟨key, -, hs⟩ := bind_eq_ok.mp hs
  split at hs <;> (cases hs; exact addsShort_one rfl (by decide))

theorem delCommand_short (hs : delCommand s = .ok s') : s.AddsShort s' := by
  obtain ⟨db, -, hs⟩ := bind_eq_ok.mp hs
  obtain ⟨key, -, hs⟩ := bind_eq_ok.mp hs
  cases hs
  refine addsShort_one (o := shared.ok) ?_ (by decide)
  dsimp only
  split_ifs <;> rfl

theorem incrDecrCommand_short (incr : Int) (hs : incrDecrCommand s incr = .ok s') :
    s.AddsShort s' := by
  obtain ⟨key, -, hs⟩ := bind_eq_ok.mp hs
  obtain ⟨db, -, hs⟩ := bind_eq_ok.mp hs
  obtain ⟨⟨db', ret⟩, -, hs⟩ := bind_eq_ok.mp hs
  obtain ⟨db'', -, hs⟩ := bind_eq_ok.mp hs
  cases hs
  refine addsShort_crlf (List.append_assoc _ _ _)
    (Nat.lt_of_le_of_lt (printInt_length ?_ ?_) (by decide))
  · have := @Int.le_bmod (incrValue (dictFind sdsDictType db key) + incr) (2 ^ 64) (by decide)
    simpa [toInt64] using this
  · have := @Int.bmod_lt (incrValue (dictFind sdsDictType db key) + incr) (2 ^ 64) (by decide)
    simpa [toInt64] using this

theorem pushGenericCommand_short (whereEnd : ListEnd)
    (hs : pushGenericCommand s whereEnd = .ok s') : s.AddsShort s' := by
  obtain ⟨el, -, hs⟩ := bind_eq_ok.mp hs
  obtain ⟨db, -, hs⟩ := bind_eq_ok.mp hs
  obtain ⟨key, -, hs⟩ := bind_eq_ok.mp hs
  split at hs
  · obtain ⟨⟨db', status⟩, -, hs⟩ := bind_eq_ok.mp hs
    cases hs
    exact addsShort_one rfl (by decide)
  · split at hs <;> (cases hs; exact addsShort_one rfl (by decide))

theorem lLenCommand_short (hs : lLenCommand s = .ok s') : s.AddsShort s' := by
  obtain ⟨db, -, hs⟩ := bind_eq_ok.mp hs
  obtain ⟨key, -, hs⟩ := bind_eq_ok.mp hs
  split at hs
  · cases hs
    exact addsShort_one rfl (by decide)
  · split at hs
    · cases hs
      exact addsShort_one rfl (short_intLine _)
    · cases hs
      exact addsShort_one rfl (by decide)

theorem lTrimCommand_short (hs : lTrimCommand s = .ok s') : s.AddsShort s' := by
  obtain ⟨db, -, hs⟩ := bind_eq_ok.mp hs
  obtain ⟨key, -, hs⟩ := bind_eq_ok.mp hs
  obtain ⟨arg₂, -, hs⟩ := bind_eq_ok.mp hs
  obtain ⟨arg₃, -, hs⟩ := bind_eq_ok.mp hs
  dsimp only at hs
  split at hs
  · cases hs
    exact addsShort_one rfl (by decide)
  · split at hs
    · obtain ⟨l, -, hs⟩ := bind_eq_ok.mp hs
      cases hs
      exact addsShort_one rfl (by decide)
    · cases hs
      exact addsShort_one rfl (by decide)

theorem lSetCommand_short (hs : lSetCommand s = .ok s') : s.AddsShort s' := by
  obtain ⟨arg₂, -, hs⟩ := bind_eq_ok.mp hs
  obtain ⟨db, -, hs⟩ := bind_eq_ok.mp hs
  obtain ⟨key, -, hs⟩ := bind_eq_ok.mp hs
  split at hs
  · cases hs
    exact addsShort_one rfl (by decide)
  · split at hs
    · split at hs
      · cases hs
        exact addsShort_one rfl (by decide)
      · obtain ⟨arg₃, -, hs⟩ := bind_eq_ok.mp hs
        cases hs
        exact addsShort_one rfl (by decide)
    · cases hs
      exact addsShort_one rfl (by decide)

theorem sAddCommand_short (hs : sAddCommand s = .ok s') : s.AddsShort s' := by
  obtain ⟨key, -, hs⟩ := bind_eq_ok.mp hs
  obtain ⟨db, -, hs⟩ := bind_eq_ok.mp hs
  obtain ⟨⟨db', set⟩, -, hs⟩ := bind_eq_ok.mp hs
  cases set with
  | none =>
      cases hs
      exact addsShort_one rfl (by decide)
  | some set =>
      obtain ⟨el, -, hs⟩ := bind_eq_ok.mp hs
      obtain ⟨⟨set', status⟩, -, hs⟩ := bind_eq_ok.mp hs
      cases hs
      refine addsShort_one (o := shared.ok) ?_ (by decide)
      split_ifs <;> rfl

theorem sRemCommand_short (hs : sRemCommand s = .ok s') : s.AddsShort s' := by
  obtain ⟨db, -, hs⟩ := bind_eq_ok.mp hs
  obtain ⟨key, -, hs⟩ := bind_eq_ok.mp hs
  split at hs
  · cases hs
    exact addsShort_one rfl (by decide)
  · split at hs
    · obtain ⟨el, -, hs⟩ := bind_eq_ok.mp hs
      cases hs
      refine addsShort_one (o := shared.ok) ?_ (by decide)
      dsimp only
      split_ifs <;> rfl
    · cases hs
      exact addsShort_one rfl (by decide)

theorem sIsMemberCommand_short (hs : sIsMemberCommand s = .ok s') : s.AddsShort s' := by
  obtain ⟨db, -, hs⟩ := bind_eq_ok.mp hs
  obtain ⟨key, -, hs⟩ := bind_eq_ok.mp hs
  split at hs
  · cases hs
    exact addsShort_one rfl (by decide)
  · split at hs
    · obtain ⟨el, -, hs⟩ := bind_eq_ok.mp hs
      split at hs <;> (cases hs; exact addsShort_one rfl (by decide))
    · cases hs
      exact addsShort_one rfl (by decide)

theorem sCardCommand_short (hs : sCardCommand s = .ok s') : s.AddsShort s' := by
  obtain ⟨db, -, hs⟩ := bind_eq_ok.mp hs
  obtain ⟨key, -, hs⟩ := bind_eq_ok.mp hs
  split at hs
  · cases hs
    exact addsShort_one rfl (by decide)
  · split at hs
    · cases hs
      exact addsShort_one rfl (short_intLine _)
    · cases hs
      exact addsShort_one rfl (by decide)

theorem typeCommand_short (hs : typeCommand s = .ok s') : s.AddsShort s' := by
  obtain ⟨db, -, hs⟩ := bind_eq_ok.mp hs
  obtain ⟨key, -, hs⟩ := bind_eq_ok.mp hs
  cases hs
  refine addsShort_crlf (List.append_assoc _ _ _) ?_
  split
  · decide
  · split <;> decide

theorem selectCommand_short (hs : selectCommand s = .ok s') : s.AddsShort s' := by
  obtain ⟨arg, -, hs⟩ := bind_eq_ok.mp hs
  rw [selectDB] at hs
  split_ifs at hs <;> (cases hs; exact addsShort_one rfl (by decide))

theorem moveCommand_short (hs : moveCommand s = .ok s') : s.AddsShort s' := by
  obtain ⟨arg, -, hs⟩ := bind_eq_ok.mp hs
  split at hs
  · cases hs
    exact addsShort_one rfl (by decide)
  · dsimp only at hs
    split at hs
    · cases hs
      exact addsShort_one rfl (by decide)
    · obtain ⟨key, -, hs⟩ := bind_eq_ok.mp hs
      obtain ⟨db, -, hs⟩ := bind_eq_ok.mp hs
      split at hs
      · cases hs
        exact addsShort_one rfl (by decide)
      · obtain ⟨dst, -, hs⟩ := bind_eq_ok.mp hs
        obtain ⟨⟨dict, ret⟩, -, hs⟩ := bind_eq_ok.mp hs
        dsimp only at hs
        split at hs
        · cases hs
          exact addsShort_one rfl (by decide)
        · obtain ⟨db', -, hs⟩ := bind_eq_ok.mp hs
          cases hs
          exact addsShort_one rfl (by decide)

theorem renameGenericCommand_short (nx : Bool) (hs : renameGenericCommand s nx = .ok s') :
    s.AddsShort s' := by
  obtain ⟨src, -, hs⟩ := bind_eq_ok.mp hs
  obtain ⟨dst, -, hs⟩ := bind_eq_ok.mp hs
  split at hs
  · cases hs
    exact addsShort_one rfl (by decide)
  · obtain ⟨db, -, hs⟩ := bind_eq_ok.mp hs
    split at hs
    · cases hs
      exact addsShort_one rfl (by decide)
    · obtain ⟨⟨db', ret⟩, -, hs⟩ := bind_eq_ok.mp hs
      dsimp only at hs
      split at hs
      · cases hs
        exact addsShort_one rfl (by decide)
      · obtain ⟨db'', -, hs⟩ := bind_eq_ok.mp hs
        cases hs
        exact addsShort_one rfl (by decide)

theorem saveCommand_short (os : Os) (hs : saveCommand os s = .ok s') : s.AddsShort s' := by
  unfold saveCommand at hs
  split at hs <;> (cases hs; exact addsShort_one rfl (by decide))

theorem bgsaveCommand_short (os : Os) (hs : bgsaveCommand os s = .ok s') : s.AddsShort s' := by
  unfold bgsaveCommand saveDBBackground at hs
  split at hs <;> (cases hs; exact addsShort_one rfl (by decide))

theorem shutDownCommand_short (os : Os) (hs : shutDownCommand os s = .ok s') : s.AddsShort s' := by
  unfold shutDownCommand at hs
  split at hs
  · cases hs
    exact ⟨[], by simp, fun msg hmsg => absurd hmsg List.not_mem_nil⟩
  · cases hs
    exact addsShort_one rfl (by decide)

theorem short_printed {n : Nat} (hn : n < 2 ^ 64) :
    (Decimal.print n ++ shared.crlf).length < 2 ^ 31 := by
  have hprint := Decimal.print_length_le (Nat.lt_of_lt_of_le hn (by decide : 2 ^ 64 ≤ 10 ^ (19 + 1)))
  have hcrlf : shared.crlf.length = 2 := by decide
  rw [List.length_append, hcrlf]
  omega

theorem lastSaveCommand_short (hs : lastSaveCommand s = .ok s') : s.AddsShort s' := by
  cases hs
  exact addsShort_one rfl (short_printed (by omega))

-- What the loop on random finds is an entry of the table.
theorem dictRandomLoop_mem {ht : Database} {random rest : List Nat}
    {de : Option (DictEntry Bytes CutisObject)} (hs : dictRandomLoop ht random = .ok (de, rest)) :
    ∃ he ∈ ht.entries, de = some he := by
  induction random with
  | nil => cases hs
  | cons r random ih =>
      unfold dictRandomLoop at hs
      by_cases hchain : ht.chain (r &&& ht.size_mask) = []
      · simp only [hchain, if_true] at hs
        exact ih hs
      · cases random with
        | nil =>
            simp only [hchain, if_false] at hs
            cases hs
        | cons r' random =>
            have hlt : r' % (ht.chain (r &&& ht.size_mask)).length <
                (ht.chain (r &&& ht.size_mask)).length :=
              Nat.mod_lt _ (List.length_pos_iff.mpr hchain)
            simp only [hchain, if_false, List.getElem?_eq_getElem hlt] at hs
            cases hs
            exact ⟨_, Dict.mem_entries_of_chain (List.getElem_mem hlt), rfl⟩

theorem randomKeyCommand_cases (h : s.Sound) {os : Os} (hs : randomKeyCommand os s = .ok s') :
    (s.model.keyspace = ∅ ∧ s' = s.after s.server.dict s.client.dict 0 [shared.crlf]) ∨
      ∃ key ∈ s.model.keyspace,
        s' = s.after s.server.dict s.client.dict 0 [key, shared.crlf] := by
  obtain ⟨db, hdb, hsound, hks, -⟩ := db_eq h
  rw [randomKeyCommand, hdb, ok_bind] at hs
  obtain ⟨⟨de, rest⟩, hrandom, hs⟩ := bind_eq_ok.mp hs
  rw [dictGetRandomKey] at hrandom
  split_ifs at hrandom with hused
  · cases hrandom
    cases hs
    exact Or.inl ⟨hks ▸ hsound.contents_eq_empty hused, rfl⟩
  · obtain ⟨he, hmem, rfl⟩ := dictRandomLoop_mem hrandom
    cases hs
    refine Or.inr ⟨he.key, ?_, addReply_two s he.key shared.crlf⟩
    rw [hks, Dict.mem_contents, Dict.mem_toFinmap]
    exact List.mem_map_of_mem hmem

theorem randomKeyCommand_short (h : s.Sound) {os : Os} (hs : randomKeyCommand os s = .ok s') :
    s.AddsShort s' := by
  rcases randomKeyCommand_cases h hs with ⟨-, rfl⟩ | ⟨key, hkey, rfl⟩
  · exact addsShort_one rfl (by decide)
  · obtain ⟨v, hlook⟩ := Finmap.mem_iff.mp hkey
    exact addsShort_crlf rfl (clean_keyspace h key v hlook).1.2

theorem dbsizeCommand_short (h : s.Sound) (hs : dbsizeCommand s = .ok s') : s.AddsShort s' := by
  obtain ⟨db, hdb, hsound, -, -⟩ := db_eq h
  rw [dbsizeCommand, hdb, ok_bind] at hs
  cases hs
  exact addsShort_one rfl
    (short_printed (Nat.lt_of_le_of_lt hsound.used_le_limit (by decide)))

end Handlers

-- The strings a call queues are short; only the listing of KEYS may get too long.
theorem call_short (h : s.Sound) {cmd : CutisCommand} {argv : List Bytes}
    (hcall : CallOk cmd argv) (hargs : s.client.argv = argv) {os : Os}
    (hqsort : ∀ dv, (os.qsort dv).Perm dv) (hkeys : cmd.proc ≠ .KeysCommand)
    (hs : cmd.proc.call os s = .ok s') : s.AddsShort s' := by
  have hargc := hcall.argc
  have hword := hcall.key
  generalize cmd.proc = proc at *
  cases proc
  case GetCommand => exact getCommand_short h hs
  case SetCommand => exact setGenericCommand_short false hs
  case SetnxCommand => exact setGenericCommand_short true hs
  case ExistsCommand => exact existsCommand_short hs
  case DelCommand => exact delCommand_short hs
  case IncrCommand => exact incrDecrCommand_short 1 hs
  case DecrCommand => exact incrDecrCommand_short (-1) hs
  case RandomKeyCommand => exact randomKeyCommand_short h hs
  case RPushCommand => exact pushGenericCommand_short .CUTIS_TAIL hs
  case LPushCommand => exact pushGenericCommand_short .CUTIS_HEAD hs
  case RPopCommand => exact popGenericCommand_short h .CUTIS_TAIL hs
  case LPopCommand => exact popGenericCommand_short h .CUTIS_HEAD hs
  case LLenCommand => exact lLenCommand_short hs
  case LIndexCommand => exact lIndexCommand_short h hs
  case LRangeCommand => exact lRangeCommand_short h hs
  case LTrimCommand => exact lTrimCommand_short hs
  case LSetCommand => exact lSetCommand_short hs
  case SAddCommand => exact sAddCommand_short hs
  case SRemCommand => exact sRemCommand_short hs
  case SIsMemberCommand => exact sIsMemberCommand_short hs
  case SCardCommand => exact sCardCommand_short hs
  case SInterCommand => exact sInterCommand_short h hqsort hs
  case SelectCommand => exact selectCommand_short hs
  case MoveCommand => exact moveCommand_short hs
  case RenameCommand => exact renameGenericCommand_short false hs
  case RenamenxCommand => exact renameGenericCommand_short true hs
  case KeysCommand => exact absurd rfl hkeys
  case DbsizeCommand => exact dbsizeCommand_short h hs
  case SaveCommand => exact saveCommand_short os hs
  case BgsaveCommand => exact bgsaveCommand_short os hs
  case ShutDownCommand => exact shutDownCommand_short os hs
  case PingCommand =>
    cases hs
    exact addsShort_one rfl (by decide)
  case EchoCommand =>
    have harg := getD_arg hargs (Nat.lt_of_lt_of_le (by decide : 1 < 2) hargc)
    change echoCommand s = .ok s' at hs
    rw [echoCommand, arg_eq harg, ok_bind] at hs
    cases hs
    refine addsShort_bulk (o := argv.getD 1 []) ?_ (hword (by decide)).2
    simp [addBulk, addReply, addReplySds, bulkParts]
  case LastSaveCommand => exact lastSaveCommand_short hs
  case TypeCommand => exact typeCommand_short hs

end Session

end Cutis

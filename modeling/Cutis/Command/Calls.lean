import Cutis.Client.Passes
import Cutis.Command.Effects

namespace Cutis

-- The handlers whose last argument is a payload.
def CommandProc.bulk : CommandProc → Bool
  | .SetCommand | .SetnxCommand | .RPushCommand | .LPushCommand | .LSetCommand | .SAddCommand
  | .SRemCommand | .SIsMemberCommand => true
  | _ => false

-- A call as the parser makes it: the arguments are words of a line, and the last
-- one of a bulk command a payload.
structure CallOk (cmd : CutisCommand) (argv : List Bytes) : Prop where
  mem : cmd ∈ cmdTable
  accepts : cmd.accepts argv.length = true
  words : ∀ w ∈ (if cmd.proc.bulk then argv.dropLast else argv), ShortWord w
  payload : cmd.proc.bulk = true → ∀ last ∈ argv.getLast?, last.length ≤ 2 ^ 30

theorem cmdTable_type {cmd : CutisCommand} (hmem : cmd ∈ cmdTable) :
    (cmd.type = .CUTIS_CMD_BULK ↔ cmd.proc.bulk = true) ∧
      (cmd.proc.bulk = true → cmd.arity = cmd.proc.argc ∧ 3 ≤ cmd.proc.argc) := by
  revert cmd
  decide

namespace CallOk

variable {cmd : CutisCommand} {argv : List Bytes} (h : CallOk cmd argv)

include h

theorem argc : cmd.proc.argc ≤ argv.length := argc_le h.mem h.accepts

theorem bulk_argc (hbulk : cmd.proc.bulk = true) :
    argv.length = cmd.proc.argc ∧ 3 ≤ cmd.proc.argc := by
  obtain ⟨harity, hle⟩ := (cmdTable_type h.mem).2 hbulk
  have hargc := (accepts_of_pos (by omega) _).mp h.accepts
  exact ⟨by omega, hle⟩

theorem word {i : Nat} (hi : i < argv.length) (hlast : cmd.proc.bulk = true → i + 1 < argv.length) :
    ShortWord (argv.getD i []) := by
  rw [List.getD_eq_getElem?_getD, List.getElem?_eq_getElem hi]
  apply h.words
  split_ifs with hbulk
  · have hlt : i < argv.dropLast.length := by
      have := hlast hbulk
      rw [List.length_dropLast]
      omega
    have hget : argv.dropLast[i] = argv[i] := List.getElem_dropLast hlt
    exact hget ▸ List.getElem_mem hlt
  · exact List.getElem_mem hi

-- The first argument behind the name is a key.
theorem key (hargc : 2 ≤ cmd.proc.argc) : ShortWord (argv.getD 1 []) := by
  have hle := h.argc
  refine h.word (by omega) fun hbulk => ?_
  have := h.bulk_argc hbulk
  omega

theorem short (hbulk : cmd.proc.bulk = true) : (argv.getD (cmd.proc.argc - 1) []).length < 2 ^ 31 := by
  obtain ⟨hlen, hle⟩ := h.bulk_argc hbulk
  have hlast : argv.getLast? = some (argv.getD (cmd.proc.argc - 1) []) := by
    rw [List.getLast?_eq_getElem?, List.getD_eq_getElem?_getD, hlen,
      List.getElem?_eq_getElem (by omega)]
    rfl
  have := h.payload hbulk _ hlast
  omega

end CallOk

namespace Keyspace

section Clean

variable {ks : Keyspace} (hks : ks.Clean) {key : Bytes}

include hks

theorem Clean.insert (hkey : ShortWord key) {v : Value} (hv : v.Short) : Clean (ks.insert key v) := by
  intro other w hlook
  by_cases hother : other = key
  · subst hother
    rw [Finmap.lookup_insert] at hlook
    obtain rfl := Option.some.inj hlook
    exact ⟨hkey, hv⟩
  · rw [Finmap.lookup_insert_of_ne _ hother] at hlook
    exact hks _ _ hlook

theorem Clean.erase : Clean (ks.erase key) := by
  intro other w hlook
  by_cases hother : other = key
  · rw [hother, Finmap.lookup_erase] at hlook
    cases hlook
  · rw [Finmap.lookup_erase_ne hother] at hlook
    exact hks _ _ hlook

theorem Clean.onString {missing : Effect} {wrong : Reply} {f : Bytes → Effect}
    (hmissing : missing.keyspace.Clean)
    (hf : ∀ s, ks.lookup key = some (.string s) → (f s).keyspace.Clean) :
    (ks.onString key missing wrong f).keyspace.Clean := by
  rw [Keyspace.onString]
  split
  · exact hmissing
  · next hlook => exact hf _ hlook
  · exact hks

theorem Clean.onList {missing : Effect} {wrong : Reply} {f : List Bytes → Effect}
    (hmissing : missing.keyspace.Clean)
    (hf : ∀ l, ks.lookup key = some (.list l) → (f l).keyspace.Clean) :
    (ks.onList key missing wrong f).keyspace.Clean := by
  rw [Keyspace.onList]
  split
  · exact hmissing
  · next hlook => exact hf _ hlook
  · exact hks

theorem Clean.onSet {missing : Effect} {wrong : Reply} {f : Finset Bytes → Effect}
    (hmissing : missing.keyspace.Clean)
    (hf : ∀ members, ks.lookup key = some (.set members) → (f members).keyspace.Clean) :
    (ks.onSet key missing wrong f).keyspace.Clean := by
  rw [Keyspace.onSet]
  split
  · exact hmissing
  · next hlook => exact hf _ hlook
  · exact hks

theorem Clean.push (hkey : ShortWord key) (whereEnd : ListEnd) {el : Bytes} (hel : el.length < 2 ^ 31) :
    (ks.push key whereEnd el).keyspace.Clean := by
  refine hks.onList (hks.insert hkey (by simpa [Value.Short] using hel)) fun l hlook => ?_
  refine hks.insert hkey fun e he => ?_
  have hl := (hks key _ hlook).2
  cases whereEnd with
  | CUTIS_HEAD =>
      rcases List.mem_cons.mp he with rfl | he
      · exact hel
      · exact hl e he
  | CUTIS_TAIL =>
      rcases List.mem_append.mp he with he | he
      · exact hl e he
      · exact List.mem_singleton.mp he ▸ hel

theorem Clean.pop (whereEnd : ListEnd) : (ks.pop key whereEnd).keyspace.Clean := by
  refine hks.onList hks fun l hlook => ?_
  obtain ⟨hkey, hl⟩ := hks key _ hlook
  cases whereEnd with
  | CUTIS_HEAD =>
      cases hhead : l.head? with
      | none =>
          simp only [listPop, hhead, Option.map_none]
          exact hks
      | some el =>
          simp only [listPop, hhead, Option.map_some]
          exact hks.insert hkey fun e he => hl e (List.mem_of_mem_tail he)
  | CUTIS_TAIL =>
      cases hlast : l.getLast? with
      | none =>
          simp only [listPop, hlast, Option.map_none]
          exact hks
      | some el =>
          simp only [listPop, hlast, Option.map_some]
          exact hks.insert hkey fun e he => hl e ((List.dropLast_sublist l).mem he)

theorem Clean.ltrim (start endIdx : Int) : (ks.ltrim key start endIdx).keyspace.Clean := by
  refine hks.onList hks fun l hlook => ?_
  obtain ⟨hkey, hl⟩ := hks key _ hlook
  refine hks.insert hkey fun e he => hl e ?_
  rw [trimmed] at he
  split at he
  · exact List.mem_of_mem_drop he
  · exact List.mem_of_mem_drop (List.mem_of_mem_take he)

theorem Clean.lset (index : Int) {el : Bytes} (hel : el.length < 2 ^ 31) :
    (ks.lset key index el).keyspace.Clean := by
  refine hks.onList hks fun l hlook => ?_
  obtain ⟨hkey, hl⟩ := hks key _ hlook
  split
  · exact hks
  · refine hks.insert hkey fun e he => ?_
    rw [listSetIndex] at he
    split_ifs at he
    · have hreverse (e) (he : e ∈ l.reverse) : e.length < 2 ^ 31 := hl e (List.mem_reverse.mp he)
      exact forall_mem_set hreverse hel _ e (List.mem_reverse.mp he)
    · exact forall_mem_set hl hel _ e he

theorem Clean.sadd (hkey : ShortWord key) {el : Bytes} (hel : el.length < 2 ^ 31) :
    (ks.sadd key el).keyspace.Clean := by
  refine hks.onSet (hks.insert hkey (by simpa [Value.Short] using hel)) fun members hlook => ?_
  refine hks.insert hkey fun e he => ?_
  rcases Finset.mem_insert.mp he with rfl | he
  · exact hel
  · exact (hks key _ hlook).2 e he

theorem Clean.srem (el : Bytes) : (ks.srem key el).keyspace.Clean := by
  refine hks.onSet hks fun members hlook => ?_
  obtain ⟨hkey, hl⟩ := hks key _ hlook
  exact hks.insert hkey fun e he => hl e (Finset.mem_of_mem_erase he)

theorem Clean.renameWith (nx : Bool) {dst : Bytes} (hdst : ShortWord dst) :
    (ks.renameWith key nx dst).keyspace.Clean := by
  rw [Keyspace.renameWith]
  by_cases hsame : key = dst
  · rw [if_pos hsame]
    exact hks
  · rw [if_neg hsame]
    cases hlook : ks.lookup key with
    | none => exact hks
    | some v =>
        dsimp only
        split_ifs
        · exact hks
        · exact (hks.insert hdst (hks key _ hlook).2).erase

theorem Clean.incrBy (hkey : ShortWord key) (incr : Int) : (ks.incrBy key incr).keyspace.Clean := by
  refine hks.insert hkey ?_
  have hprint (n : Nat) (hn : n ≤ 2 ^ 63) : (Decimal.print n).length ≤ 19 :=
    Decimal.print_length_le (Nat.lt_of_le_of_lt hn (by decide))
  have hlo : -2 ^ 63 ≤ toInt64 (ks.number key + incr) := by
    have := @Int.le_bmod (ks.number key + incr) (2 ^ 64) (by decide)
    simpa [toInt64] using this
  have hhi : toInt64 (ks.number key + incr) < 2 ^ 63 := by
    have := @Int.bmod_lt (ks.number key + incr) (2 ^ 64) (by decide)
    simpa [toInt64] using this
  generalize toInt64 (ks.number key + incr) = value at hlo hhi
  rw [Value.Short, printInt]
  split_ifs
  · have := hprint value.natAbs (by omega)
    rw [List.length_cons]
    omega
  · have := hprint value.toNat (by omega)
    omega

end Clean

end Keyspace

namespace Model

section Clean

variable {m : Model}

def Clean (m : Model) : Prop := ∀ ks ∈ m.dataset, ks.Clean

theorem clean_getD (hm : m.Clean) (id : Nat) : (m.dataset.getD id ∅).Clean := by
  rw [List.getD_eq_getElem?_getD]
  cases hget : m.dataset[id]? with
  | none => exact fun key v hlook => by cases hlook
  | some ks => exact hm ks (List.mem_of_getElem? hget)

theorem clean_apply (hm : m.Clean) {f : Keyspace → Effect}
    (hf : m.keyspace.Clean → (f m.keyspace).keyspace.Clean) : (m.apply f).model.Clean := by
  intro ks hks
  rcases List.mem_or_eq_of_mem_set hks with hks | rfl
  · exact hm ks hks
  · exact hf (clean_getD hm m.selected)

theorem clean_move (hm : m.Clean) (key : Bytes) (id : Int) : (m.move key id).model.Clean := by
  rw [move]
  by_cases hvalid : m.validIndex id
  · rw [if_neg (not_not.mpr hvalid)]
    by_cases hsame : id = m.selected
    · rw [if_pos hsame]
      exact hm
    · rw [if_neg hsame]
      cases hlook : m.keyspace.lookup key with
      | none => exact hm
      | some v =>
          dsimp only
          split_ifs
          · exact hm
          · have hks : m.keyspace.Clean := clean_getD hm m.selected
            obtain ⟨hkey, hv⟩ := hks key v hlook
            intro ks hmem
            rcases List.mem_or_eq_of_mem_set hmem with hmem | rfl
            · rcases List.mem_or_eq_of_mem_set hmem with hmem | rfl
              · exact hm ks hmem
              · exact (clean_getD hm id.toNat).insert hkey hv
            · exact hks.erase
  · rw [if_pos hvalid]
    exact hm

-- The keys stay words, and the strings short.
theorem outcome_clean (hm : m.Clean) {cmd : CutisCommand} {argv : List Bytes} (h : CallOk cmd argv)
    {o : Outcome} (ho : m.outcome argv cmd.proc = some o) : o.model.Clean := by
  have hshort := h.short
  have hkey := h.key
  have hargc := h.argc
  have hbulk := fun hb => h.bulk_argc hb
  have hdst (hinline : cmd.proc.bulk = false) (hle : 3 ≤ cmd.proc.argc) : ShortWord (argv.getD 2 []) :=
    h.word (by omega) fun hb => absurd (hinline.symm.trans hb) (by decide)
  have hsame (f : Keyspace → Effect) (hf : ∀ ks, (f ks).keyspace = ks) : (m.apply f).model.Clean :=
    clean_apply hm fun hks => by rw [hf]; exact hks
  generalize hproc : cmd.proc = proc at *
  cases proc <;> cases ho
  case GetCommand => exact clean_apply hm fun hks => hks.onString hks fun _ _ => hks
  case SetCommand => exact clean_apply hm fun hks => hks.insert (hkey (by decide)) (hshort rfl)
  case SetnxCommand =>
    refine clean_apply hm fun hks => ?_
    rw [Keyspace.setnx]
    split_ifs
    · exact hks
    · exact hks.insert (hkey (by decide)) (hshort rfl)
  case ExistsCommand => exact hsame _ fun _ => rfl
  case DelCommand => exact clean_apply hm fun hks => hks.erase
  case IncrCommand => exact clean_apply hm fun hks => hks.incrBy (hkey (by decide)) _
  case DecrCommand => exact clean_apply hm fun hks => hks.incrBy (hkey (by decide)) _
  case RPushCommand => exact clean_apply hm fun hks => hks.push (hkey (by decide)) _ (hshort rfl)
  case LPushCommand => exact clean_apply hm fun hks => hks.push (hkey (by decide)) _ (hshort rfl)
  case RPopCommand => exact clean_apply hm fun hks => hks.pop _
  case LPopCommand => exact clean_apply hm fun hks => hks.pop _
  case LLenCommand => exact clean_apply hm fun hks => hks.onList hks fun _ _ => hks
  case LIndexCommand => exact clean_apply hm fun hks => hks.onList hks fun _ _ => hks
  case LRangeCommand => exact clean_apply hm fun hks => hks.onList hks fun _ _ => hks
  case LTrimCommand => exact clean_apply hm fun hks => hks.ltrim _ _
  case LSetCommand => exact clean_apply hm fun hks => hks.lset _ (hshort rfl)
  case SAddCommand => exact clean_apply hm fun hks => hks.sadd (hkey (by decide)) (hshort rfl)
  case SRemCommand => exact clean_apply hm fun hks => hks.srem _
  case SIsMemberCommand => exact clean_apply hm fun hks => hks.onSet hks fun _ _ => hks
  case SCardCommand => exact clean_apply hm fun hks => hks.onSet hks fun _ _ => hks
  case SelectCommand =>
    rw [select]
    split_ifs
    · exact hm
    · exact hm
  case MoveCommand => exact clean_move hm _ _
  case RenameCommand =>
    exact clean_apply hm fun hks => hks.renameWith false (hdst rfl (by decide))
  case RenamenxCommand =>
    exact clean_apply hm fun hks => hks.renameWith true (hdst rfl (by decide))
  case DbsizeCommand => exact hsame _ fun _ => rfl
  case PingCommand => exact hm
  case EchoCommand => exact hm
  case TypeCommand => exact hsame _ fun _ => rfl

end Clean

end Model

end Cutis

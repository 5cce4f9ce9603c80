import Cutis.Command.Outcomes

namespace Cutis

-- The replies that report an error: a line with -ERR, or a negative count.
def Reply.isError : Reply → Bool
  | .line text => (sdsnew "-ERR").isPrefixOf text
  | .bulkError _ => true
  | .bulk _ | .multi _ => false

-- A change is counted and not reported as an error, and an error leaves no trace.
structure Effect.Counts (ks : Keyspace) (e : Effect) : Prop where
  counted : e.keyspace ≠ ks → 0 < e.changes ∧ e.reply.isError = false
  failed : e.reply.isError = true → e.keyspace = ks ∧ e.changes = 0

structure Outcome.Counts (m : Model) (o : Outcome) : Prop where
  counted : o.model.dataset ≠ m.dataset → 0 < o.changes ∧ o.reply.isError = false
  failed : o.reply.isError = true → o.model = m ∧ o.changes = 0

theorem isError_ok : Reply.ok.isError = false := by decide

theorem Outcome.counts_ok {m : Model} {o : Outcome} (hr : o.reply.isError = false)
    (hchanges : o.model.dataset ≠ m.dataset → 0 < o.changes) : o.Counts m :=
  ⟨fun h => ⟨hchanges h, hr⟩, fun h => absurd (hr.symm.trans h) (by decide)⟩

theorem isError_int (n : Int) : (Reply.int n).isError = false := by
  have herr : sdsnew "-ERR" = [MINUS, 69, 82, 82] := by decide
  rw [Reply.isError.eq_def, Reply.int]
  simp only [herr]
  cases hprint : printInt n with
  | nil => rfl
  | cons c rest =>
      cases rest with
      | nil => simp [List.isPrefixOf]
      | cons d rest =>
          have hd : Decimal.isDigit d = true := by
            rw [printInt] at hprint
            split_ifs at hprint
            · obtain ⟨-, hdigits⟩ := List.cons.inj hprint
              exact Decimal.isDigit_of_mem_print (n := n.natAbs) (by simp [hdigits])
            · exact Decimal.isDigit_of_mem_print (n := n.toNat) (by simp [hprint])
          have hne : ¬(69 : UInt8) = d := by
            rintro rfl
            revert hd
            decide
          simp [List.isPrefixOf, hne]

namespace Keyspace

section Counts

variable {ks : Keyspace} {key : Bytes}

theorem answer_counts (r : Reply) : (ks.answer r).Counts ks :=
  ⟨fun h => absurd rfl h, fun _ => ⟨rfl, rfl⟩⟩

theorem store_counts (v : Value) {r : Reply} (hr : r.isError = false) :
    (ks.store key v r).Counts ks :=
  ⟨fun _ => ⟨Nat.one_pos, hr⟩, fun h => absurd (hr.symm.trans h) (by decide)⟩

section Typed

variable {missing : Effect} {wrong : Reply} (hmissing : missing.Counts ks)

include hmissing

theorem onString_counts {f : Bytes → Effect} (hf : ∀ s, (f s).Counts ks) :
    (ks.onString key missing wrong f).Counts ks := by
  rw [onString]
  split
  · exact hmissing
  · exact hf _
  · exact answer_counts wrong

theorem onList_counts {f : List Bytes → Effect} (hf : ∀ l, (f l).Counts ks) :
    (ks.onList key missing wrong f).Counts ks := by
  rw [onList]
  split
  · exact hmissing
  · exact hf _
  · exact answer_counts wrong

theorem onSet_counts {f : Finset Bytes → Effect}
    (hf : ∀ members, ks.lookup key = some (.set members) → (f members).Counts ks) :
    (ks.onSet key missing wrong f).Counts ks := by
  rw [onSet]
  split
  · exact hmissing
  · next hlook => exact hf _ hlook
  · exact answer_counts wrong

end Typed

theorem insert_self {v : Value} (h : ks.lookup key = some v) : ks.insert key v = ks := by
  apply Finmap.ext_lookup
  intro other
  by_cases hother : other = key
  · rw [hother, Finmap.lookup_insert, h]
  · rw [Finmap.lookup_insert_of_ne _ hother]

-- A change that is counted only where there is one.
theorem counts_of_changed {e : Effect} (hchanges : e.changes = 0 → e.keyspace = ks)
    (hr : e.reply.isError = false) : e.Counts ks :=
  ⟨fun h => ⟨Nat.pos_of_ne_zero fun hz => h (hchanges hz), hr⟩,
    fun h => absurd (hr.symm.trans h) (by decide)⟩

theorem set_counts (val : Bytes) : (ks.set key val).Counts ks := store_counts _ (by decide)

theorem setnx_counts (val : Bytes) : (ks.setnx key val).Counts ks := by
  rw [setnx]
  split_ifs
  · exact counts_of_changed (fun h => absurd h (by simp)) isError_ok
  · exact set_counts val

theorem del_counts : (ks.del key).Counts ks := by
  refine counts_of_changed (fun h => ?_) isError_ok
  by_cases hmem : key ∈ ks
  · simp [del, hmem] at h
  · exact Finmap.ext_lookup fun other => by
      by_cases hother : other = key
      · rw [hother, del, Finmap.lookup_erase, Finmap.lookup_eq_none.mpr hmem]
      · rw [del, Finmap.lookup_erase_ne hother]

theorem incrBy_counts (incr : Int) : (ks.incrBy key incr).Counts ks :=
  store_counts _ (isError_int _)

theorem push_counts (whereEnd : ListEnd) (el : Bytes) : (ks.push key whereEnd el).Counts ks :=
  onList_counts (store_counts _ (by decide)) fun _ => store_counts _ (by decide)

theorem pop_counts (whereEnd : ListEnd) : (ks.pop key whereEnd).Counts ks := by
  refine onList_counts (answer_counts _) fun l => ?_
  split
  · exact answer_counts _
  · exact store_counts _ rfl

theorem ltrim_counts (start endIdx : Int) : (ks.ltrim key start endIdx).Counts ks :=
  onList_counts (answer_counts _) fun _ => store_counts _ (by decide)

theorem lset_counts (index : Int) (el : Bytes) : (ks.lset key index el).Counts ks := by
  refine onList_counts (answer_counts _) fun l => ?_
  split
  · exact answer_counts _
  · exact store_counts _ (by decide)

theorem sadd_counts (el : Bytes) : (ks.sadd key el).Counts ks := by
  refine onSet_counts (store_counts _ (by decide)) fun members hlook => ?_
  refine counts_of_changed (fun h => ?_) isError_ok
  by_cases hmem : el ∈ members
  · simp only [Finset.insert_eq_self.mpr hmem]
    exact insert_self hlook
  · simp [hmem] at h

theorem srem_counts (el : Bytes) : (ks.srem key el).Counts ks := by
  refine onSet_counts (answer_counts _) fun members hlook => ?_
  refine counts_of_changed (fun h => ?_) isError_ok
  by_cases hmem : el ∈ members
  · simp [hmem] at h
  · simp only [Finset.erase_eq_of_notMem hmem]
    exact insert_self hlook

theorem renameWith_counts (nx : Bool) (dst : Bytes) : (ks.renameWith key nx dst).Counts ks := by
  rw [renameWith]
  by_cases hsame : key = dst
  · rw [if_pos hsame]
    exact answer_counts _
  · rw [if_neg hsame]
    cases ks.lookup key with
    | none => exact answer_counts _
    | some v =>
        dsimp only
        split_ifs
        · exact answer_counts _
        · exact counts_of_changed (fun h => absurd h Nat.one_ne_zero) isError_ok

end Counts

end Keyspace

namespace Model

section Counts

variable {m : Model} (hsel : m.selected < m.dataset.length)

include hsel

theorem set_keyspace : m.dataset.set m.selected m.keyspace = m.dataset := by
  rw [keyspace, List.getD_eq_getElem?_getD, List.getElem?_eq_getElem hsel]
  exact List.set_getElem_self hsel

theorem apply_counts {f : Keyspace → Effect} (hf : (f m.keyspace).Counts m.keyspace) :
    (m.apply f).Counts m := by
  have hsame (hks : (f m.keyspace).keyspace = m.keyspace) : (m.apply f).model = m := by
    rw [apply, hks, set_keyspace hsel]
  refine ⟨fun h => hf.counted fun hks => h ?_, fun h => ?_⟩
  · rw [hsame hks]
  · obtain ⟨hks, hchanges⟩ := hf.failed h
    exact ⟨hsame hks, hchanges⟩

omit hsel in
theorem answer_counts (r : Reply) : (m.answer r).Counts m :=
  ⟨fun h => absurd rfl h, fun _ => ⟨rfl, rfl⟩⟩

omit hsel in
theorem select_counts (id : Int) : (m.select id).Counts m := by
  rw [select]
  split_ifs
  · exact Outcome.counts_ok isError_ok fun h => absurd rfl h
  · exact answer_counts _

omit hsel in
theorem move_counts (key : Bytes) (id : Int) : (m.move key id).Counts m := by
  rw [move]
  by_cases hvalid : m.validIndex id
  · rw [if_neg (not_not.mpr hvalid)]
    by_cases hsame : id = m.selected
    · rw [if_pos hsame]
      exact answer_counts _
    · rw [if_neg hsame]
      cases m.keyspace.lookup key with
      | none => exact answer_counts _
      | some v =>
          dsimp only
          split_ifs
          · exact answer_counts _
          · exact Outcome.counts_ok isError_ok fun _ => Nat.one_pos
  · rw [if_pos hvalid]
    exact answer_counts _

-- No mutation goes uncounted and no error mutates.
theorem outcome_counts {argv : List Bytes} {proc : CommandProc} {o : Outcome}
    (ho : m.outcome argv proc = some o) : o.Counts m := by
  cases proc <;> cases ho
  case GetCommand =>
    exact apply_counts hsel
      (Keyspace.onString_counts (Keyspace.answer_counts _) fun _ => Keyspace.answer_counts _)
  case SetCommand => exact apply_counts hsel (Keyspace.set_counts _)
  case SetnxCommand => exact apply_counts hsel (Keyspace.setnx_counts _)
  case ExistsCommand => exact apply_counts hsel (Keyspace.answer_counts _)
  case DelCommand => exact apply_counts hsel Keyspace.del_counts
  case IncrCommand => exact apply_counts hsel (Keyspace.incrBy_counts _)
  case DecrCommand => exact apply_counts hsel (Keyspace.incrBy_counts _)
  case RPushCommand => exact apply_counts hsel (Keyspace.push_counts _ _)
  case LPushCommand => exact apply_counts hsel (Keyspace.push_counts _ _)
  case RPopCommand => exact apply_counts hsel (Keyspace.pop_counts _)
  case LPopCommand => exact apply_counts hsel (Keyspace.pop_counts _)
  case LLenCommand =>
    exact apply_counts hsel
      (Keyspace.onList_counts (Keyspace.answer_counts _) fun _ => Keyspace.answer_counts _)
  case LIndexCommand =>
    exact apply_counts hsel
      (Keyspace.onList_counts (Keyspace.answer_counts _) fun _ => Keyspace.answer_counts _)
  case LRangeCommand =>
    exact apply_counts hsel
      (Keyspace.onList_counts (Keyspace.answer_counts _) fun _ => Keyspace.answer_counts _)
  case LTrimCommand => exact apply_counts hsel (Keyspace.ltrim_counts _ _)
  case LSetCommand => exact apply_counts hsel (Keyspace.lset_counts _ _)
  case SAddCommand => exact apply_counts hsel (Keyspace.sadd_counts _)
  case SRemCommand => exact apply_counts hsel (Keyspace.srem_counts _)
  case SIsMemberCommand =>
    exact apply_counts hsel
      (Keyspace.onSet_counts (Keyspace.answer_counts _) fun _ _ => Keyspace.answer_counts _)
  case SCardCommand =>
    exact apply_counts hsel
      (Keyspace.onSet_counts (Keyspace.answer_counts _) fun _ _ => Keyspace.answer_counts _)
  case SelectCommand => exact select_counts _
  case MoveCommand => exact move_counts _ _
  case RenameCommand => exact apply_counts hsel (Keyspace.renameWith_counts _ _)
  case RenamenxCommand => exact apply_counts hsel (Keyspace.renameWith_counts _ _)
  case DbsizeCommand => exact apply_counts hsel (Keyspace.answer_counts _)
  case PingCommand => exact answer_counts _
  case EchoCommand => exact answer_counts _
  case TypeCommand => exact apply_counts hsel (Keyspace.answer_counts _)

end Counts

section Selected

variable {m : Model}

def InRange (m : Model) (o : Outcome) : Prop :=
  o.model.dataset.length = m.dataset.length ∧ o.model.selected < o.model.dataset.length

theorem apply_inRange (hsel : m.selected < m.dataset.length) (f : Keyspace → Effect) :
    m.InRange (m.apply f) :=
  ⟨List.length_set, by simpa [apply] using hsel⟩

theorem select_inRange (hsel : m.selected < m.dataset.length) (id : Int) :
    m.InRange (m.select id) := by
  rw [select]
  split_ifs with hvalid
  · refine ⟨rfl, ?_⟩
    have hlo := hvalid.1
    have hhi := hvalid.2
    simp only
    omega
  · exact ⟨rfl, hsel⟩

theorem move_inRange (hsel : m.selected < m.dataset.length) (key : Bytes) (id : Int) :
    m.InRange (m.move key id) := by
  have hsame (r : Reply) : m.InRange (m.answer r) := ⟨rfl, hsel⟩
  rw [move]
  by_cases hvalid : m.validIndex id
  · rw [if_neg (not_not.mpr hvalid)]
    by_cases hself : id = m.selected
    · rw [if_pos hself]
      exact hsame _
    · rw [if_neg hself]
      cases m.keyspace.lookup key with
      | none => exact hsame _
      | some v =>
          dsimp only
          split_ifs
          · exact hsame _
          · exact ⟨by simp, by simpa using hsel⟩
  · rw [if_pos hvalid]
    exact hsame _

theorem outcome_inRange (hsel : m.selected < m.dataset.length) {argv : List Bytes}
    {proc : CommandProc} {o : Outcome} (ho : m.outcome argv proc = some o) : m.InRange o := by
  cases proc <;> cases ho
  case SelectCommand => exact select_inRange hsel _
  case MoveCommand => exact move_inRange hsel _ _
  case PingCommand => exact ⟨rfl, hsel⟩
  case EchoCommand => exact ⟨rfl, hsel⟩
  all_goals exact apply_inRange hsel _

end Selected

end Model

end Cutis

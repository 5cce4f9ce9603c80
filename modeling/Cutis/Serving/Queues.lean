import Cutis.Lib.Queue
import Cutis.Serving.Keys

namespace Cutis

open History

variable {ι : Type}

-- What a client takes from the answer to a pop.
def poppedText (bytes : Bytes) : Option Bytes := do
  let (line, rest) ← readLine bytes
  if isNilOrError line then none
  else
    let (_, n) ← readCount line
    some (rest.take n)

-- Elements are put in at one end of a list and taken out at the other.
def CommandProc.pushAt : ListEnd → CommandProc
  | .CUTIS_TAIL => .RPushCommand
  | .CUTIS_HEAD => .LPushCommand

def CommandProc.popBehind : ListEnd → CommandProc
  | .CUTIS_TAIL => .LPopCommand
  | .CUTIS_HEAD => .RPopCommand

-- The elements of a list in the order they are to be taken out.
def queueOf (whereEnd : ListEnd) (l : List Bytes) : List Bytes :=
  match whereEnd with
  | .CUTIS_TAIL => l
  | .CUTIS_HEAD => l.reverse

-- The elements of a key that is missing or a list.
def listOf : Option Value → Option (List Bytes)
  | none => some []
  | some (.list l) => some l
  | some _ => none

def queueEvent (whereEnd : ListEnd) : ι × QueryEvent × Bytes → Queue.Event Bytes
  | (_, .proc cmd argv, bytes) =>
      if cmd.proc = .pushAt whereEnd then .push (argv.getD 2 [])
      else if cmd.proc = .popBehind whereEnd then .pop (poppedText bytes)
      else .look
  | _ => .look

-- The requests of those that use a list as a queue.
def QueueUse (whereEnd : ListEnd) : ι × QueryEvent × Bytes → Prop
  | (_, .proc cmd _, _) =>
      cmd.proc = .pushAt whereEnd ∨ cmd.proc = .popBehind whereEnd ∨ cmd.proc.writes = false
  | _ => True

instance (whereEnd : ListEnd) (e : ι × QueryEvent × Bytes) : Decidable (QueueUse whereEnd e) :=
  match e with
  | (_, .proc _ _, _) => inferInstanceAs (Decidable (_ ∨ _ ∨ _))
  | (_, .addReplySds _, _) | (_, .freeClient, _) => isTrue trivial

theorem poppedText_bulk (s : Bytes) : poppedText (Reply.bulk s).encode = some s := by
  obtain ⟨hlf, hnil, -⟩ := Reply.print_clean s.length
  rw [poppedText, Reply.encode, Reply.encodeBulk, Reply.readLine_append hlf]
  simp [hnil, Reply.readCount_print]

theorem poppedText_nil : poppedText Reply.nil.encode = none := by decide

namespace Keyspace

variable {ks : Keyspace} {key : Bytes} {r wrong : Reply}

-- A command that only answers.
theorem onString_answer (f : Bytes → Reply) :
    (ks.onString key (ks.answer r) wrong fun s => ks.answer (f s)).keyspace = ks := by
  rw [onString]
  split <;> rfl

theorem onList_answer (f : List Bytes → Reply) :
    (ks.onList key (ks.answer r) wrong fun l => ks.answer (f l)).keyspace = ks := by
  rw [onList]
  split <;> rfl

theorem onSet_answer (f : Finset Bytes → Reply) :
    (ks.onSet key (ks.answer r) wrong fun members => ks.answer (f members)).keyspace = ks := by
  rw [onSet]
  split <;> rfl

end Keyspace

theorem Model.outcome_reads {m : Model} (hsel : m.selected < m.dataset.length) {argv : List Bytes}
    {proc : CommandProc} (hkey : proc.onKey = true) (hwrites : proc.writes = false) {o : Outcome}
    (ho : m.outcome argv proc = some o) : o.model = m := by
  have hsame (f : Keyspace → Effect) (hf : (f m.keyspace).keyspace = m.keyspace) :
      (m.apply f).model = m := apply_eq_self hsel hf
  cases proc <;> first | (cases hkey; done) | (cases hwrites; done) | cases ho
  case GetCommand => exact hsame _ (Keyspace.onString_answer _)
  case ExistsCommand => exact hsame _ rfl
  case LLenCommand => exact hsame _ (Keyspace.onList_answer _)
  case LIndexCommand => exact hsame _ (Keyspace.onList_answer _)
  case LRangeCommand => exact hsame _ (Keyspace.onList_answer _)
  case SIsMemberCommand => exact hsame _ (Keyspace.onSet_answer _)
  case SCardCommand => exact hsame _ (Keyspace.onSet_answer _)
  case TypeCommand => exact hsame _ rfl

section Step

variable {key : Bytes} {v v' : Option Value} {l : List Bytes} {whereEnd : ListEnd}

theorem queueOf_push (el : Bytes) :
    queueOf whereEnd (listAddNode l el whereEnd) = queueOf whereEnd l ++ [el] := by
  cases whereEnd <;> simp [queueOf, listAddNode]

theorem push_cell (key : Bytes) (whereEnd : ListEnd) (hv : listOf v = some l) (el : Bytes) :
    ∃ l', listOf (((Keyspace.single key v).push key whereEnd el).keyspace.lookup key) = some l' ∧
      queueOf whereEnd l' = queueOf whereEnd l ++ [el] := by
  have hlook := Keyspace.lookup_single key v
  rw [Keyspace.push, Keyspace.onList, hlook]
  cases v with
  | none =>
      obtain rfl := Option.some.inj hv
      refine ⟨[el], ?_, ?_⟩
      · simp [Keyspace.store, listOf]
      · cases whereEnd <;> rfl
  | some v =>
      cases v with
      | list l₁ =>
          obtain rfl := Option.some.inj hv
          refine ⟨listAddNode l₁ el whereEnd, ?_, queueOf_push el⟩
          simp [Keyspace.store, listOf]
      | string s => cases hv
      | set members => cases hv

-- The end behind the one that elements are put in at.
def ListEnd.behind : ListEnd → ListEnd
  | .CUTIS_TAIL => .CUTIS_HEAD
  | .CUTIS_HEAD => .CUTIS_TAIL

theorem listPop_behind (whereEnd : ListEnd) (l : List Bytes) :
    (listPop l whereEnd.behind = none ∧ queueOf whereEnd l = []) ∨
      ∃ el l', listPop l whereEnd.behind = some (el, l') ∧
        queueOf whereEnd l = el :: queueOf whereEnd l' := by
  cases whereEnd with
  | CUTIS_TAIL =>
      cases l with
      | nil => exact Or.inl ⟨rfl, rfl⟩
      | cons el l => exact Or.inr ⟨el, l, rfl, rfl⟩
  | CUTIS_HEAD =>
      cases l using List.reverseRecOn with
      | nil => exact Or.inl ⟨rfl, rfl⟩
      | append_singleton l el =>
          refine Or.inr ⟨el, l, ?_, ?_⟩
          · simp [listPop, ListEnd.behind]
          · simp [queueOf]

-- A pop takes the element that is in front, none where there is none.
theorem pop_cell (key : Bytes) (whereEnd : ListEnd) (hv : listOf v = some l) :
    ∃ taken l', poppedText ((Keyspace.single key v).pop key whereEnd.behind).reply.encode = taken ∧
      listOf (((Keyspace.single key v).pop key whereEnd.behind).keyspace.lookup key) = some l' ∧
      Queue.Serves (queueOf whereEnd l) (.pop taken) (queueOf whereEnd l') := by
  have hlook := Keyspace.lookup_single key v
  rw [Keyspace.pop, Keyspace.onList, hlook]
  cases v with
  | none =>
      obtain rfl := Option.some.inj hv
      refine ⟨none, [], poppedText_nil, congrArg listOf hlook, ?_⟩
      have hnil : queueOf whereEnd [] = [] := by cases whereEnd <;> rfl
      rw [hnil]
      exact .empty
  | some v =>
      cases v with
      | list l₁ =>
          obtain rfl := Option.some.inj hv
          simp only
          rcases listPop_behind whereEnd l₁ with ⟨hpop, hnil⟩ | ⟨el, l', hpop, hcons⟩
          · rw [hpop]
            refine ⟨none, l₁, poppedText_nil, congrArg listOf hlook, ?_⟩
            rw [hnil]
            exact .empty
          · rw [hpop]
            refine ⟨some el, l', poppedText_bulk el, ?_, ?_⟩
            · simp [Keyspace.store, listOf]
            · rw [hcons]
              exact .pop el _
      | string s => cases hv
      | set members => cases hv

theorem queueEvent_look {i : ι} {cmd : CutisCommand} {argv : List Bytes} {bytes : Bytes}
    (hwrites : cmd.proc.writes = false) :
    queueEvent whereEnd (i, .proc cmd argv, bytes) = .look := by
  have hpush : cmd.proc ≠ .pushAt whereEnd := by
    intro h
    rw [h] at hwrites
    cases whereEnd <;> cases hwrites
  have hpop : cmd.proc ≠ .popBehind whereEnd := by
    intro h
    rw [h] at hwrites
    cases whereEnd <;> cases hwrites
  simp [queueEvent, hpush, hpop]

theorem outcome_pushAt (m : Model) (argv : List Bytes) :
    m.outcome argv (.pushAt whereEnd) =
      some (m.apply (Keyspace.push · (argv.getD 1 []) whereEnd (argv.getD 2 []))) := by
  cases whereEnd <;> rfl

theorem outcome_popBehind (m : Model) (argv : List Bytes) :
    m.outcome argv (.popBehind whereEnd) =
      some (m.apply (Keyspace.pop · (argv.getD 1 []) whereEnd.behind)) := by
  cases whereEnd <;> rfl

-- The value of the key holds this queue.
def HoldsQueue (whereEnd : ListEnd) (v : Option Value) (q : List Bytes) : Prop :=
  ∃ l, listOf v = some l ∧ q = queueOf whereEnd l

-- One request of those that use the list as a queue is one of a queue.
theorem queue_step {e : ι × QueryEvent × Bytes} {q : List Bytes} (huse : QueueUse whereEnd e)
    (hq : HoldsQueue whereEnd v q) (hs : CellServes key v e v') :
    ∃ q', HoldsQueue whereEnd v' q' ∧ Queue.Serves q (queueEvent whereEnd e) q' := by
  obtain ⟨l, hv, rfl⟩ := hq
  have htransfers {cmd : CutisCommand} (h : cmd.proc.transfers = true) :
      ¬(cmd.proc = .pushAt whereEnd ∨ cmd.proc = .popBehind whereEnd ∨ cmd.proc.writes = false) := by
    cases hproc : cmd.proc with
    | RenameCommand | RenamenxCommand | MoveCommand => cases whereEnd <;> decide
    | _ => rw [hproc] at h; cases h
  cases hs with
  | refused h => exact absurd huse (htransfers h)
  | taken h => exact absurd huse (htransfers h)
  | given h => exact absurd huse (htransfers h)
  | @command i cmd argv v o hkey hargv ho =>
      rcases huse with hpush | hpop | hwrites
      · obtain ⟨l', hl', hqueue⟩ := push_cell key whereEnd hv (argv.getD 2 [])
        have hevent : queueEvent whereEnd (i, .proc cmd argv, o.reply.encode) =
            .push (argv.getD 2 []) := by simp [queueEvent, hpush]
        rw [hpush, outcome_pushAt, hargv] at ho
        cases ho
        refine ⟨_, ⟨l', hl', rfl⟩, ?_⟩
        rw [hevent, hqueue]
        exact .push _ _
      · obtain ⟨taken, l', htaken, hl', hqueue⟩ := pop_cell key whereEnd hv
        have hne : CommandProc.popBehind whereEnd ≠ .pushAt whereEnd := by
          cases whereEnd <;> decide
        have hevent : queueEvent whereEnd (i, .proc cmd argv, o.reply.encode) =
            .pop (poppedText o.reply.encode) := by simp [queueEvent, hpop, hne]
        rw [hpop, outcome_popBehind, hargv] at ho
        cases ho
        refine ⟨_, ⟨l', hl', rfl⟩, ?_⟩
        rw [hevent]
        exact htaken ▸ hqueue
      · have hsame : o.model = Model.ofCell key v := Model.outcome_reads (Nat.one_pos) hkey hwrites ho
        refine ⟨_, ⟨l, ?_, rfl⟩, ?_⟩
        · rw [hsame]
          exact (congrArg listOf (Keyspace.lookup_single key v)).trans hv
        · rw [queueEvent_look hwrites]
          exact .look _

end Step

namespace Serving

variable [DecidableEq ι] {m : Maps ι} {σ : Serving ι}

-- A list that clients only push to at one end and pop from at the other is a queue: whoever
-- pops gets the elements in the order they were pushed, whoever pushed them; none is lost,
-- none comes out twice, and a pop finds nothing only where all have come out.
theorem list_is_queue (h : Reached m σ) (hfit : ListingsFit σ.served) {d : Nat} {key : Bytes}
    (whereEnd : ListEnd) {l : List Bytes} (hlist : listOf (m.value d key) = some l)
    (huse : ∀ e ∈ keyHistory m d key σ.served, QueueUse whereEnd e) :
    ∃ l', listOf (σ.system.maps.value d key) = some l' ∧
      queueOf whereEnd l ++
          Queue.pushed ((keyHistory m d key σ.served).map (queueEvent whereEnd)) =
        Queue.popped ((keyHistory m d key σ.served).map (queueEvent whereEnd)) ++
          queueOf whereEnd l' ∧
      ∀ before after,
        (keyHistory m d key σ.served).map (queueEvent whereEnd) = before ++ .pop none :: after →
          queueOf whereEnd l ++ Queue.pushed before = Queue.popped before := by
  have hlegal := h.key hfit d key
  obtain ⟨q', ⟨l', hl', rfl⟩, hqueue⟩ := hlegal.simulates (HoldsQueue whereEnd)
    (fun _ _ _ _ he hq hs => queue_step (huse _ he) hq hs) ⟨l, hlist, rfl⟩
  refine ⟨l', hl', ?_, fun before after hsplit => ?_⟩
  · exact Queue.legal_fifo hqueue
  · rw [hsplit] at hqueue
    exact Queue.legal_empty hqueue

-- One client pushes two elements, the other pops one of them.
theorem exists_queue :
    ∃ σ : Serving Bool, Reached (init Bool 1).system.maps σ ∧ ListingsFit σ.served ∧
      (∀ e ∈ keyHistory (init Bool 1).system.maps 0 (sdsnew "q") σ.served,
        QueueUse .CUTIS_TAIL e) ∧
      (keyHistory (init Bool 1).system.maps 0 (sdsnew "q") σ.served).map
          (queueEvent .CUTIS_TAIL) =
        [.pop none, .push (sdsnew "a"), .push (sdsnew "b"), .pop (some (sdsnew "a"))] := by
  have hstart : Reached (init Bool 1).system.maps (init Bool 1) :=
    Runs.Reach.start ⟨start_init Nat.one_pos, rfl⟩
  have haccept := Runs.Reach.step (a := NetEvent.accept true 7) hstart rfl rfl
  have haccept' := Runs.Reach.step (a := NetEvent.accept false 8) haccept rfl rfl
  have hnone := Runs.Reach.step
    (a := NetEvent.readable false (.data (sdsnew "lpop q\r\n")) fun _ => System.plainOs)
    haccept' (ok_data rfl (by decide) (by decide)) rfl
  have hpush := Runs.Reach.step
    (a := NetEvent.readable true (.data (sdsnew "rpush q 1\r\na\r\nrpush q 1\r\nb\r\n"))
      fun _ => System.plainOs)
    hnone (ok_data rfl (by decide) (by decide)) rfl
  have hpop := Runs.Reach.step
    (a := NetEvent.readable false (.data (sdsnew "lpop q\r\n")) fun _ => System.plainOs)
    hpush (ok_data rfl (by decide) (by decide)) rfl
  exact ⟨_, hpop, listingsFit_of_lt (by decide), by decide, by decide⟩

theorem list_is_queue_session :
    ∃ (σ : Serving Bool) (l' : List Bytes),
      listOf (σ.system.maps.value 0 (sdsnew "q")) = some l' ∧
        [sdsnew "a", sdsnew "b"] = sdsnew "a" :: l' := by
  obtain ⟨σ, hreach, hfit, huse, hevents⟩ := exists_queue
  obtain ⟨l', hl', hfifo, -⟩ := list_is_queue hreach hfit .CUTIS_TAIL rfl huse
  rw [hevents] at hfifo
  exact ⟨σ, l', hl', hfifo⟩

end Serving

end Cutis

import Cutis.Command.Effects

namespace Cutis

-- The commands that work on the one key they name.
def CommandProc.onKey : CommandProc → Bool
  | .GetCommand | .SetCommand | .SetnxCommand | .ExistsCommand | .DelCommand | .IncrCommand
  | .DecrCommand | .RPushCommand | .LPushCommand | .RPopCommand | .LPopCommand | .LLenCommand
  | .LIndexCommand | .LRangeCommand | .LTrimCommand | .LSetCommand | .SAddCommand | .SRemCommand
  | .SIsMemberCommand | .SCardCommand | .TypeCommand => true
  | _ => false

-- The commands that carry a value from one key to another.
def CommandProc.transfers : CommandProc → Bool
  | .RenameCommand | .RenamenxCommand | .MoveCommand => true
  | _ => false

-- The key under which the value is to be found then.
def CommandProc.target (argv : List Bytes) : CommandProc → Bytes
  | .MoveCommand => argv.getD 1 []
  | _ => argv.getD 2 []

namespace Keyspace

-- What a command does and answers depends on the value of one key, and changes no other.
structure Local (key : Bytes) (f : Keyspace → Effect) : Prop where
  reply : ∀ ks ks', ks.lookup key = ks'.lookup key → (f ks).reply = (f ks').reply
  value : ∀ ks ks', ks.lookup key = ks'.lookup key →
    (f ks).keyspace.lookup key = (f ks').keyspace.lookup key
  others : ∀ ks other, other ≠ key → (f ks).keyspace.lookup other = ks.lookup other

theorem mem_congr {ks ks' : Keyspace} {key : Bytes} (h : ks.lookup key = ks'.lookup key) :
    key ∈ ks ↔ key ∈ ks' := by
  rw [← Finmap.lookup_isSome, h, Finmap.lookup_isSome]

section Local

variable {key : Bytes}

theorem local_answer {r : Keyspace → Reply}
    (hr : ∀ ks ks', ks.lookup key = ks'.lookup key → r ks = r ks') :
    Local key fun ks => ks.answer (r ks) where
  reply := hr
  value _ _ h := h
  others _ _ _ := rfl

theorem local_const (r : Reply) : Local key fun ks => ks.answer r := local_answer fun _ _ _ => rfl

theorem local_insert {v : Keyspace → Value} {changes : Keyspace → Nat} {r : Keyspace → Reply}
    (hv : ∀ ks ks', ks.lookup key = ks'.lookup key → v ks = v ks')
    (hr : ∀ ks ks', ks.lookup key = ks'.lookup key → r ks = r ks') :
    Local key fun ks =>
      { keyspace := ks.insert key (v ks), changes := changes ks, reply := r ks } where
  reply := hr
  value ks ks' h := by simp only [Finmap.lookup_insert, hv ks ks' h]
  others ks other hother := Finmap.lookup_insert_of_ne _ hother

theorem local_store (v : Value) (r : Reply) : Local key fun ks => ks.store key v r :=
  local_insert (fun _ _ _ => rfl) fun _ _ _ => rfl

section Typed

variable {missing : Keyspace → Effect} {wrong : Reply} (hmissing : Local key missing)

include hmissing

theorem local_onString {f : Keyspace → Bytes → Effect} (hf : ∀ s, Local key (f · s)) :
    Local key fun ks => ks.onString key (missing ks) wrong (f ks) where
  reply ks ks' h := by
    simp only [onString, h]
    split
    · exact hmissing.reply ks ks' h
    · exact (hf _).reply ks ks' h
    · rfl
  value ks ks' h := by
    simp only [onString, h]
    split
    · exact hmissing.value ks ks' h
    · exact (hf _).value ks ks' h
    · exact h
  others ks other hother := by
    simp only [onString]
    split
    · exact hmissing.others ks other hother
    · exact (hf _).others ks other hother
    · rfl

theorem local_onList {f : Keyspace → List Bytes → Effect} (hf : ∀ l, Local key (f · l)) :
    Local key fun ks => ks.onList key (missing ks) wrong (f ks) where
  reply ks ks' h := by
    simp only [onList, h]
    split
    · exact hmissing.reply ks ks' h
    · exact (hf _).reply ks ks' h
    · rfl
  value ks ks' h := by
    simp only [onList, h]
    split
    · exact hmissing.value ks ks' h
    · exact (hf _).value ks ks' h
    · exact h
  others ks other hother := by
    simp only [onList]
    split
    · exact hmissing.others ks other hother
    · exact (hf _).others ks other hother
    · rfl

theorem local_onSet {f : Keyspace → Finset Bytes → Effect} (hf : ∀ members, Local key (f · members)) :
    Local key fun ks => ks.onSet key (missing ks) wrong (f ks) where
  reply ks ks' h := by
    simp only [onSet, h]
    split
    · exact hmissing.reply ks ks' h
    · exact (hf _).reply ks ks' h
    · rfl
  value ks ks' h := by
    simp only [onSet, h]
    split
    · exact hmissing.value ks ks' h
    · exact (hf _).value ks ks' h
    · exact h
  others ks other hother := by
    simp only [onSet]
    split
    · exact hmissing.others ks other hother
    · exact (hf _).others ks other hother
    · rfl

end Typed

theorem set_local (val : Bytes) : Local key (Keyspace.set · key val) := local_store _ _

theorem setnx_local (val : Bytes) : Local key (Keyspace.setnx · key val) where
  reply ks ks' _ := by
    rw [setnx, setnx]
    split_ifs <;> rfl
  value ks ks' h := by
    simp only [setnx, mem_congr h]
    split_ifs
    · exact h
    · exact (set_local val).value ks ks' h
  others ks other hother := by
    rw [setnx]
    split_ifs
    · rfl
    · exact (set_local val).others ks other hother

theorem get_local : Local key (Keyspace.get · key) :=
  local_onString (local_const _) fun _ => local_const _

theorem exists_local : Local key (Keyspace.exists? · key) :=
  local_answer fun ks ks' h => by simp only [mem_congr h]

theorem del_local : Local key (Keyspace.del · key) where
  reply _ _ _ := rfl
  value ks ks' _ := by simp only [del, Finmap.lookup_erase]
  others ks other hother := Finmap.lookup_erase_ne hother

theorem incrBy_local (incr : Int) : Local key (Keyspace.incrBy · key incr) := by
  have hnumber (ks ks' : Keyspace) (h : ks.lookup key = ks'.lookup key) :
      ks.number key = ks'.number key := by rw [number, number, h]
  exact local_insert (fun ks ks' h => by rw [hnumber ks ks' h])
    fun ks ks' h => by rw [hnumber ks ks' h]

theorem push_local (whereEnd : ListEnd) (el : Bytes) :
    Local key (Keyspace.push · key whereEnd el) :=
  local_onList (local_store _ _) fun _ => local_store _ _

theorem pop_local (whereEnd : ListEnd) : Local key (Keyspace.pop · key whereEnd) := by
  refine local_onList (local_const _) fun l => ?_
  cases listPop l whereEnd with
  | none => exact local_const _
  | some popped => exact local_store _ _

theorem llen_local : Local key (Keyspace.llen · key) :=
  local_onList (local_const _) fun _ => local_const _

theorem lindex_local (index : Int) : Local key (Keyspace.lindex · key index) :=
  local_onList (local_const _) fun _ => local_const _

theorem lrange_local (start endIdx : Int) : Local key (Keyspace.lrange · key start endIdx) :=
  local_onList (local_const _) fun _ => local_const _

theorem ltrim_local (start endIdx : Int) : Local key (Keyspace.ltrim · key start endIdx) :=
  local_onList (local_const _) fun _ => local_store _ _

theorem lset_local (index : Int) (el : Bytes) : Local key (Keyspace.lset · key index el) := by
  refine local_onList (local_const _) fun l => ?_
  cases Cutis.listIndex l index with
  | none => exact local_const _
  | some old => exact local_store _ _

theorem sadd_local (el : Bytes) : Local key (Keyspace.sadd · key el) :=
  local_onSet (local_store _ _) fun _ => local_insert (fun _ _ _ => rfl) fun _ _ _ => rfl

theorem srem_local (el : Bytes) : Local key (Keyspace.srem · key el) :=
  local_onSet (local_const _) fun _ => local_insert (fun _ _ _ => rfl) fun _ _ _ => rfl

theorem sismember_local (el : Bytes) : Local key (Keyspace.sismember · key el) :=
  local_onSet (local_const _) fun _ => local_const _

theorem scard_local : Local key (Keyspace.scard · key) :=
  local_onSet (local_const _) fun _ => local_const _

theorem type_local : Local key (Keyspace.type · key) :=
  local_answer fun ks ks' h => by rw [h]

end Local

end Keyspace

namespace Model

-- A command on one key works on the selected database through that key.
theorem outcome_local (argv : List Bytes) {proc : CommandProc} (hproc : proc.onKey = true) :
    ∃ f, Keyspace.Local (argv.getD 1 []) f ∧ ∀ m : Model, m.outcome argv proc = some (m.apply f) := by
  open Keyspace in
  cases proc <;> first | (cases hproc; done) | skip
  case GetCommand => exact ⟨_, get_local, fun _ => rfl⟩
  case SetCommand => exact ⟨_, set_local _, fun _ => rfl⟩
  case SetnxCommand => exact ⟨_, setnx_local _, fun _ => rfl⟩
  case ExistsCommand => exact ⟨_, exists_local, fun _ => rfl⟩
  case DelCommand => exact ⟨_, del_local, fun _ => rfl⟩
  case IncrCommand => exact ⟨_, incrBy_local _, fun _ => rfl⟩
  case DecrCommand => exact ⟨_, incrBy_local _, fun _ => rfl⟩
  case RPushCommand => exact ⟨_, push_local _ _, fun _ => rfl⟩
  case LPushCommand => exact ⟨_, push_local _ _, fun _ => rfl⟩
  case RPopCommand => exact ⟨_, pop_local _, fun _ => rfl⟩
  case LPopCommand => exact ⟨_, pop_local _, fun _ => rfl⟩
  case LLenCommand => exact ⟨_, llen_local, fun _ => rfl⟩
  case LIndexCommand => exact ⟨_, lindex_local _, fun _ => rfl⟩
  case LRangeCommand => exact ⟨_, lrange_local _ _, fun _ => rfl⟩
  case LTrimCommand => exact ⟨_, ltrim_local _ _, fun _ => rfl⟩
  case LSetCommand => exact ⟨_, lset_local _ _, fun _ => rfl⟩
  case SAddCommand => exact ⟨_, sadd_local _, fun _ => rfl⟩
  case SRemCommand => exact ⟨_, srem_local _, fun _ => rfl⟩
  case SIsMemberCommand => exact ⟨_, sismember_local _, fun _ => rfl⟩
  case SCardCommand => exact ⟨_, scard_local, fun _ => rfl⟩
  case TypeCommand => exact ⟨_, type_local, fun _ => rfl⟩

end Model

end Cutis

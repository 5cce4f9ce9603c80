import Cutis.Client.Request
import Cutis.Keyspace

namespace Cutis

def Value.Short : Value → Prop
  | .string s => s.length < 2 ^ 31
  | .list l => ∀ el ∈ l, el.length < 2 ^ 31
  | .set members => ∀ el ∈ members, el.length < 2 ^ 31

-- The keys are words of a request, and every string has a length that fits in an int.
def Keyspace.Clean (ks : Keyspace) : Prop :=
  ∀ key v, ks.lookup key = some v → ShortWord key ∧ v.Short

namespace Session

structure Sound (s : Session) : Prop where
  dict : ∀ db ∈ s.server.dict, SoundDatabase db
  selected : s.client.dict < s.server.dict.length
  clean : ∀ ks ∈ dataset s.server.dict, ks.Clean

def model (s : Session) : Model := { dataset := dataset s.server.dict, selected := s.client.dict }

-- The session after a command that changed the databases and added replies.
def after (s : Session) (dict : List Database) (selected changes : Nat) (reply : List Bytes) :
    Session :=
  { s with
    server := { s.server with dict, dirty := s.server.dirty + changes }
    client := { s.client with dict := selected, reply := s.client.reply ++ reply } }

-- The handler did what the outcome says, and nothing else.
def Follows (s : Session) (o : Outcome) (s' : Session) : Prop :=
  ∃ dict selected reply, s' = s.after dict selected o.changes reply ∧
    (∀ db ∈ dict, SoundDatabase db) ∧ o.model = ⟨dataset dict, selected⟩ ∧
    reply.flatten = o.reply.encode

section Primitives

variable {s : Session}

theorem arg_eq {i : Nat} {arg : Bytes} (h : s.client.argv[i]? = some arg) : s.arg i = .ok arg := by
  rw [Session.arg, h]
  rfl

theorem dict_eq (h : s.Sound) {id : Nat} (hid : id < s.server.dict.length) :
    ∃ db, s.dict id = .ok db ∧ s.server.dict[id]? = some db ∧ SoundDatabase db ∧
      s.model.dataset.getD id ∅ = db.contents := by
  have hget : s.server.dict[id]? = some s.server.dict[id] := List.getElem?_eq_getElem hid
  refine ⟨s.server.dict[id], ?_, hget, h.dict _ (List.getElem_mem hid), ?_⟩
  · rw [Session.dict, hget]
    rfl
  · rw [model, dataset, List.getD_eq_getElem?_getD, List.getElem?_map, hget]
    rfl

theorem db_eq (h : s.Sound) :
    ∃ db, s.db = .ok db ∧ SoundDatabase db ∧ s.model.keyspace = db.contents ∧
      s.server.dict[s.client.dict]? = some db := by
  obtain ⟨db, hdb, hget, hsound, hks⟩ := dict_eq h h.selected
  exact ⟨db, hdb, hsound, hks, hget⟩

theorem dataset_set_getD {id : Nat} (hid : id < s.server.dict.length) :
    (dataset s.server.dict).set id (s.model.dataset.getD id ∅) = s.model.dataset := by
  have hlt : id < s.model.dataset.length := by
    rw [model, dataset, List.length_map]
    exact hid
  have hget : s.model.dataset.getD id ∅ = s.model.dataset[id] := by
    rw [List.getD_eq_getElem?_getD]
    exact congrArg (Option.getD · ∅) (List.getElem?_eq_getElem hlt)
  rw [hget]
  exact List.set_getElem_self hlt

theorem clean_keyspace (h : s.Sound) : s.model.keyspace.Clean := by
  obtain ⟨db, -, -, hks, hget⟩ := db_eq h
  rw [hks]
  exact h.clean _ (List.mem_map_of_mem (List.mem_of_getElem? hget))

end Primitives

section Outcomes

variable {s : Session} {f : Keyspace → Effect}

-- The handler returns, and did what the outcome says.
def Meets (s : Session) (result : Except Fault Session) (o : Outcome) : Prop :=
  ∃ s', result = .ok s' ∧ s.Follows o s'

theorem meets_answer (h : s.Sound) {reply : List Bytes} {r : Reply}
    (hf : f s.model.keyspace = s.model.keyspace.answer r) (hreply : reply.flatten = r.encode) :
    s.Meets (.ok (s.after s.server.dict s.client.dict 0 reply)) (s.model.apply f) := by
  refine ⟨_, rfl, s.server.dict, s.client.dict, reply, ?_, h.dict, ?_, ?_⟩
  · rw [Model.apply, hf]
    rfl
  · rw [Model.apply, hf]
    exact congrArg (Model.mk · _) (dataset_set_getD h.selected)
  · rw [Model.apply, hf]
    exact hreply

theorem meets_set {db : Database} (hdb : SoundDatabase db) {n : Nat} {reply : List Bytes}
    (h : s.Sound) (hks : db.contents = (f s.model.keyspace).keyspace)
    (hchanges : n = (f s.model.keyspace).changes)
    (hreply : reply.flatten = (f s.model.keyspace).reply.encode) :
    s.Meets (.ok (s.after (s.server.dict.set s.client.dict db) s.client.dict n reply))
      (s.model.apply f) := by
  refine ⟨_, rfl, s.server.dict.set s.client.dict db, s.client.dict, reply, ?_, ?_, ?_, hreply⟩
  · rw [hchanges]
    rfl
  · exact forall_mem_set h.dict hdb _
  · rw [dataset_set, hks]
    rfl

end Outcomes

section Replies

theorem flatten_ok : [shared.ok].flatten = Reply.ok.encode := by decide
theorem flatten_nil : [shared.nil].flatten = Reply.nil.encode := by decide
theorem flatten_zero : [shared.zero].flatten = Reply.zero.encode := by decide
theorem flatten_one : [shared.one].flatten = Reply.one.encode := by decide

theorem crlf_eq : shared.crlf = [CR, LF] := by decide

theorem flatten_line (text : Bytes) : [text, shared.crlf].flatten = (Reply.line text).encode := by
  rw [crlf_eq]
  simp [Reply.encode]

theorem flatten_intLine (n : Int) : [intLine n].flatten = (Reply.int (toInt32 n)).encode := by
  rw [intLine, crlf_eq]
  simp [Reply.int, Reply.encode]

theorem intLine_length {n : Nat} (h : n < 2 ^ 31) : intLine n = Decimal.print n ++ [CR, LF] := by
  rw [intLine, toInt32_natCast n h, printInt_natCast, crlf_eq]

theorem flatten_bulkError (err : String)
    (h : 0 < (sdsnew err).length ∧ (sdsnew err).length < 2 ^ 31) :
    [bulkError err].flatten = (Reply.bulkError (sdsnew err)).encode := by
  obtain ⟨hpos, hlt⟩ := h
  have hneg : -((sdsnew err).length : Int) < 0 := by omega
  rw [bulkError, intLine, toInt32_eq_self _ (by omega) (by omega), printInt, if_pos hneg, crlf_eq]
  simp [Reply.encode, Reply.encodeBulk]

def bulkParts (el : Bytes) : List Bytes := [intLine el.length, el, shared.crlf]

theorem flatten_bulk {el : Bytes} (h : el.length < 2 ^ 31) :
    (bulkParts el).flatten = (Reply.bulk el).encode := by
  rw [bulkParts, intLine_length h, crlf_eq]
  simp [Reply.encode, Reply.encodeBulk]

theorem addReply_two (s : Session) (o1 o2 : Bytes) :
    (s.addReply o1).addReply o2 = s.after s.server.dict s.client.dict 0 [o1, o2] := by
  simp [addReply, after]

theorem addBulk_eq (s : Session) (el : Bytes) :
    addBulk s el = s.after s.server.dict s.client.dict 0 (bulkParts el) := by
  simp [addBulk, addReply, addReplySds, after, bulkParts]

end Replies

end Session

end Cutis

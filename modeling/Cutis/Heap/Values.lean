import Cutis.Dict.Mapping
import Cutis.Heap.Keys
import Cutis.Lib.Lockstep

namespace Cutis

open Lockstep

theorem sdsDictType_maps : sdsDictType.Maps sdsDictType id := ⟨fun _ => rfl, fun _ _ => rfl⟩

namespace Heap

-- What an object stands for, read through its pointers.
def object (h : Heap) (o : ObjectId) : CutisObject :=
  match h.ptr o with
  | .list l => .list (l.map h.bytes)
  | .set d => .set (d.map h.bytes id)
  | _ => .string (h.bytes o)

def database (h : Heap) (d : HeapDict) : Database := d.map id h.object

theorem setDictType_maps (h : Heap) : h.SetDictType.Maps Cutis.SetDictType h.bytes :=
  ⟨fun _ => rfl, fun _ _ => rfl⟩

variable {h h' : Heap} {o : ObjectId}

theorem bytes_of_ptr {str : Option Bytes} (hptr : h.ptr o = .string str) :
    h.bytes o = str.getD [] := by
  rw [bytes, hptr]
  cases str <;> rfl

theorem object_string {str : Option Bytes} (hptr : h.ptr o = .string str) :
    h.object o = .string (str.getD []) := by
  rw [object, hptr, ← bytes_of_ptr hptr]

theorem object_list {l : List ObjectId} (hptr : h.ptr o = .list l) :
    h.object o = .list (l.map h.bytes) := by
  rw [object, hptr]

theorem object_set {d : Dict ObjectId Unit} (hptr : h.ptr o = .set d) :
    h.object o = .set (d.map h.bytes id) := by
  rw [object, hptr]

-- An object and its elements decide what it stands for.
theorem object_congr (hptr : h'.ptr o = h.ptr o)
    (helements : ∀ e ∈ (h.ptr o).elements, h'.ptr e = h.ptr e) : h'.object o = h.object o := by
  have hbytes (e : ObjectId) (he : e ∈ (h.ptr o).elements) : h'.bytes e = h.bytes e := by
    rw [bytes, bytes, helements e he]
  cases hp : h.ptr o with
  | list l =>
      rw [hp] at hbytes hptr
      rw [object_list hp, object_list hptr]
      exact congrArg _ (List.map_congr_left hbytes)
  | set d =>
      rw [hp] at hbytes hptr
      rw [object_set hp, object_set hptr, Dict.map_congr fun he hhe =>
        ⟨hbytes _ (List.mem_map_of_mem hhe), rfl⟩]
  | string str =>
      rw [hp] at hptr
      rw [object_string hp, object_string hptr]
  | released => simp only [object, bytes, hptr, hp]

theorem database_congr {d : HeapDict} (hobject : ∀ o ∈ d.vals, h'.object o = h.object o) :
    h'.database d = h.database d :=
  Dict.map_congr fun _ hhe => ⟨rfl, hobject _ (mem_vals hhe)⟩

end Heap

-- The strings of the shared replies.
def SharedObject.strings : List Bytes :=
  [shared.crlf, shared.ok, shared.err, sdsnew "0\r\n\r\n", shared.nil, shared.zero, shared.one,
    shared.pong]

namespace HeapSession

-- The values of all databases.
def values (s : HeapSession) : Multiset ObjectId := (s.dict.map Dict.vals).sum

-- No two entries of the databases share an object.
def Lone (s : HeapSession) : Prop := s.values.Nodup

-- A session of values that stands for what a session of objects holds.
structure Shows (s : HeapSession) (v : Session) : Prop where
  dict : v.server.dict = s.dict.map s.heap.database
  selected : v.client.dict = s.client.dict
  inRange : s.client.dict < s.dict.length
  argv : v.client.argv = s.argv
  reply : v.client.reply = s.client.reply.map s.heap.bytes
  shared : s.shared.toList.map s.heap.bytes = SharedObject.strings

-- The objects that decide what a session stands for.
def Seen (s : HeapSession) (a : ObjectId) : Prop :=
  a ∈ s.roots ∨ ∃ o ∈ s.roots, a ∈ (s.heap.ptr o).elements

variable {s s' : HeapSession} {v : Session}

theorem mem_roots_of_value {a : ObjectId} (ha : a ∈ s.values) : a ∈ s.roots :=
  Multiset.mem_add.mpr (Or.inl (Multiset.mem_add.mpr (Or.inr ha)))

theorem mem_roots_of_reply {a : ObjectId} (ha : a ∈ s.client.reply) : a ∈ s.roots :=
  Multiset.mem_add.mpr (Or.inr (Multiset.mem_coe.mpr ha))

theorem mem_roots_of_shared {a : ObjectId} (ha : a ∈ s.shared.toList) : a ∈ s.roots :=
  Multiset.mem_add.mpr (Or.inl (Multiset.mem_add.mpr (Or.inl (Multiset.mem_coe.mpr ha))))

theorem mem_values {d : HeapDict} (hd : d ∈ s.dict) {a : ObjectId} (ha : a ∈ d.vals) :
    a ∈ s.values := by
  rw [values, Ledger.mem_sum]
  exact ⟨d, hd, ha⟩

namespace Shows

-- Other objects may change.
theorem frame (h : s.Shows v) {heap : Heap} (hsame : ∀ a, s.Seen a → heap.ptr a = s.heap.ptr a) :
    Shows { s with heap } v where
  dict := by
    refine h.dict.trans (List.map_congr_left fun d hd => (Heap.database_congr fun o ho => ?_).symm)
    have hroot := mem_roots_of_value (mem_values hd ho)
    exact Heap.object_congr (hsame o (Or.inl hroot)) fun e he => hsame e (Or.inr ⟨o, hroot, he⟩)
  selected := h.selected
  inRange := h.inRange
  argv := h.argv
  reply := h.reply.trans (List.map_congr_left fun o ho =>
    (bytes_congr (hsame o (Or.inl (mem_roots_of_reply ho)))).symm)
  shared := (List.map_congr_left fun o ho =>
    bytes_congr (hsame o (Or.inl (mem_roots_of_shared ho)))).trans h.shared

-- Where the values have stayed, so has what a database stands for.
theorem database_eq {v' : Session} (h : s.Shows v) (h' : s'.Shows v')
    (hdict : s'.dict = s.dict) (hv : v'.server.dict = v.server.dict) {d : HeapDict}
    (hd : d ∈ s.dict) : s'.heap.database d = s.heap.database d := by
  have hmap := h'.dict.symm.trans (hv.trans h.dict)
  rw [hdict] at hmap
  exact List.map_inj_left.mp hmap d hd

section Shared

variable (h : s.Shows v)

include h

theorem bytes_shared :
    s.heap.bytes s.shared.crlf = Cutis.shared.crlf ∧ s.heap.bytes s.shared.ok = Cutis.shared.ok ∧
      s.heap.bytes s.shared.err = Cutis.shared.err ∧
      s.heap.bytes s.shared.zerobulk = sdsnew "0\r\n\r\n" ∧
      s.heap.bytes s.shared.nil = Cutis.shared.nil ∧
      s.heap.bytes s.shared.zero = Cutis.shared.zero ∧
      s.heap.bytes s.shared.one = Cutis.shared.one ∧
      s.heap.bytes s.shared.pong = Cutis.shared.pong := by
  have hshared := h.shared
  simpa only [SharedObject.toList, SharedObject.strings, List.map_cons, List.map_nil,
    List.cons.injEq, and_true] using hshared

theorem crlf : s.heap.bytes s.shared.crlf = Cutis.shared.crlf := h.bytes_shared.1

theorem ok : s.heap.bytes s.shared.ok = Cutis.shared.ok := h.bytes_shared.2.1

theorem err : s.heap.bytes s.shared.err = Cutis.shared.err := h.bytes_shared.2.2.1

theorem nil : s.heap.bytes s.shared.nil = Cutis.shared.nil := h.bytes_shared.2.2.2.2.1

theorem zero : s.heap.bytes s.shared.zero = Cutis.shared.zero := h.bytes_shared.2.2.2.2.2.1

theorem one : s.heap.bytes s.shared.one = Cutis.shared.one := h.bytes_shared.2.2.2.2.2.2.1

theorem pong : s.heap.bytes s.shared.pong = Cutis.shared.pong := h.bytes_shared.2.2.2.2.2.2.2

end Shared

section Reads

variable (h : s.Shows v)

include h

theorem database (id : Nat) :
    Alike (fun d db => s.dict[id]? = some d ∧ db = s.heap.database d) (s.database id)
      (v.dict id) := by
  have hget : v.server.dict[id]? = s.dict[id]?.map s.heap.database := by
    rw [h.dict, List.getElem?_map]
  rw [HeapSession.database, Session.dict, hget]
  cases hd : s.dict[id]? with
  | none => exact .error _
  | some d => exact .ok ⟨rfl, rfl⟩

theorem db :
    Alike (fun d db => s.dict[s.client.dict]? = some d ∧ db = s.heap.database d) s.db v.db := by
  have hdatabase := h.database s.client.dict
  rw [← h.selected] at hdatabase ⊢
  rwa [HeapSession.db, ← h.selected]

theorem db_eq : ∃ d, s.dict[s.client.dict]? = some d ∧ s.db = .ok d ∧
    v.db = .ok (s.heap.database d) := by
  obtain ⟨d, hd⟩ : ∃ d, s.dict[s.client.dict]? = some d :=
    ⟨_, List.getElem?_eq_getElem h.inRange⟩
  have hdb : s.db = .ok d := by rw [HeapSession.db, HeapSession.database, hd]; rfl
  obtain ⟨db, hdb', hd', rfl⟩ := Alike.left (hdb ▸ h.db)
  exact ⟨d, hd, hdb, hdb'⟩

theorem arg (i : Nat) : Alike Eq (s.arg i) (v.arg i) := by
  rw [HeapSession.arg, Session.arg, h.argv]
  cases s.argv[i]? with
  | none => exact .error _
  | some arg => exact .ok rfl

end Reads

theorem dirtied (h : s.Shows v) : s.Shows v.dirtied :=
  ⟨h.dict, h.selected, h.inRange, h.argv, h.reply, h.shared⟩

-- A string put into the queue.
theorem push (h : s.Shows v) (o : ObjectId) :
    Shows { s with client := { s.client with reply := s.client.reply ++ [o] } }
      (v.addReply (s.heap.bytes o)) where
  dict := h.dict
  selected := h.selected
  inRange := h.inRange
  argv := h.argv
  reply := by
    rw [Session.addReply, List.map_append, h.reply]
    rfl
  shared := h.shared

theorem setDatabase (h : s.Shows v) (id : Nat) (d : HeapDict) :
    (s.setDatabase id d).Shows (v.setDict id (s.heap.database d)) where
  dict := by
    rw [Session.setDict, h.dict, HeapSession.setDatabase, List.map_set]
  selected := h.selected
  inRange := by
    rw [HeapSession.setDatabase, List.length_set]
    exact h.inRange
  argv := h.argv
  reply := h.reply
  shared := h.shared

theorem setDB (h : s.Shows v) (d : HeapDict) :
    (s.setDB d).Shows (v.setDB (s.heap.database d)) := by
  rw [Session.setDB, h.selected]
  exact h.setDatabase _ d

end Shows

variable {O T U : Multiset ObjectId} {s₀ : HeapSession} {o : ObjectId} {n : Nat}

theorem Seen.held {a : ObjectId} (ha : s.Seen a) : a ∈ s.held O T := by
  rcases ha with ha | ⟨o, -, ha⟩
  · exact Keeps.mem_of_roots (Multiset.mem_add.mpr (Or.inr ha))
  · exact Keeps.mem_of_inner (Heap.mem_inner_of_ptr ha)

theorem Keeps.ptr_cases (h : Keeps O s₀ s T n) (ho : o ∈ s.held O T) :
    (∃ str, s.heap.ptr o = .string str ∧ s.heap.object o = .string (s.heap.bytes o)) ∨
      (∃ l, s.heap.ptr o = .list l ∧ s.heap.object o = .list (l.map s.heap.bytes)) ∨
      ∃ m, s.heap.ptr o = .set m ∧ s.heap.object o = .set (m.map s.heap.bytes id) := by
  cases hptr : s.heap.ptr o with
  | string str =>
      refine Or.inl ⟨str, rfl, ?_⟩
      rw [Heap.object_string hptr, Heap.bytes_of_ptr hptr]
  | list l => exact Or.inr (Or.inl ⟨l, rfl, Heap.object_list hptr⟩)
  | set m => exact Or.inr (Or.inr ⟨m, rfl, Heap.object_set hptr⟩)
  | released => exact absurd hptr (h.inv.live o ho)

-- A handler that was called in s₀ has come to s, where the values are those of v.
structure Mirrors (O : Multiset ObjectId) (s₀ s : HeapSession) (T : Multiset ObjectId) (n : Nat)
    (v : Session) : Prop where
  keeps : Keeps O s₀ s T n
  shows : s.Shows v
  length : s.dict.length = s₀.dict.length

namespace Mirrors

theorem create (h : Mirrors O s₀ s T n v) {p : ObjectPtr} (hp : p.elements = [])
    (hlive : p ≠ .released) (hshape : ∀ d, p = .set d → d.Shape) :
    ∃ o heap, s.createCutisObject p = (o, { s with heap }) ∧
      Mirrors O s₀ { s with heap } (o ::ₘ T) (n + 1) v ∧ o ∉ s.held O T ∧
      ¬Seen { s with heap } o ∧ heap.ptr o = p ∧ ∀ a, a ≠ o → heap.ptr a = s.heap.ptr a := by
  obtain ⟨o, heap, heq, hkeeps, hfresh, hheld, hself, hother⟩ := h.keeps.create hp hlive hshape
  have hunseen : ¬Seen { s with heap } o := fun ho => hfresh (hheld ▸ ho.held)
  refine ⟨o, heap, heq, ⟨hkeeps, h.shows.frame fun a ha => hother a ?_, h.length⟩, hfresh, hunseen,
    hself, hother⟩
  rintro rfl
  exact hfresh ha.held

theorem createString (h : Mirrors O s₀ s T n v) (str : Option Bytes) :
    ∃ o heap, s.createCutisObject (.string str) = (o, { s with heap }) ∧
      Mirrors O s₀ { s with heap } (o ::ₘ T) (n + 1) v ∧ o ∉ s.held O T ∧
      ¬Seen { s with heap } o ∧ heap.ptr o = .string str ∧
      ∀ a, a ≠ o → heap.ptr a = s.heap.ptr a :=
  h.create rfl nofun nofun

theorem createList (h : Mirrors O s₀ s T n v) :
    ∃ o heap, s.createCutisObject (.list []) = (o, { s with heap }) ∧
      Mirrors O s₀ { s with heap } (o ::ₘ T) (n + 1) v ∧ o ∉ s.held O T ∧
      ¬Seen { s with heap } o ∧ heap.ptr o = .list [] ∧
      ∀ a, a ≠ o → heap.ptr a = s.heap.ptr a :=
  h.create rfl (by simp) (by simp)

theorem createSet (h : Mirrors O s₀ s T n v) :
    ∃ o heap, s.createCutisObject (.set dictCreate) = (o, { s with heap }) ∧
      Mirrors O s₀ { s with heap } (o ::ₘ T) (n + 1) v ∧ o ∉ s.held O T ∧
      ¬Seen { s with heap } o ∧ heap.ptr o = .set dictCreate ∧
      ∀ a, a ≠ o → heap.ptr a = s.heap.ptr a :=
  h.create rfl (by simp) fun _ hd => ObjectPtr.set.inj hd ▸ shape_dictReset

-- A change of an object that only the handler holds.
theorem setOwned (h : Mirrors O s₀ s T n v) {p : ObjectPtr} (hkeeps : Keeps O s₀ (s.setPtr o p) U n)
    (hunseen : ¬s.Seen o) : Mirrors O s₀ (s.setPtr o p) U n v := by
  refine ⟨hkeeps, h.shows.frame fun a ha => Heap.ptr_setPtr_of_ne ?_ p, h.length⟩
  rintro rfl
  exact hunseen ha

theorem addReply (h : Mirrors O s₀ s T n v) (ho : o ∈ s.held O T) :
    Mirrors O s₀ (s.addReply o) T (n + 1) (v.addReply (s.heap.bytes o)) := by
  obtain ⟨hkeeps, -, -⟩ := h.keeps.addReply ho
  obtain ⟨-, -, hptr⟩ := Heap.Inv.incrRefCount h.keeps.inv ho
  exact ⟨hkeeps, (h.shows.push o).frame fun a _ => hptr a, h.length⟩

theorem addShared (h : Mirrors O s₀ s T n v) (ho : o ∈ s.shared.toList) {str : Bytes}
    (hstr : s.heap.bytes o = str) : Mirrors O s₀ (s.addReply o) T (n + 1) (v.addReply str) :=
  hstr ▸ h.addReply (Keeps.mem_shared ho)

theorem incrRefCount (h : Mirrors O s₀ s T n v) (ho : o ∈ s.held O T) :
    Mirrors O s₀ (s.incrRefCount o) (o ::ₘ T) (n + 1) v := by
  obtain ⟨-, -, hptr⟩ := Heap.Inv.incrRefCount h.keeps.inv ho
  exact ⟨h.keeps.incrRefCount ho, h.shows.frame fun a _ => hptr a, h.length⟩

theorem decrRefCount (h : Mirrors O s₀ s (o ::ₘ T) n v) (hn : n ≤ 2 ^ 31) :
    Mirrors O s₀ (s.decrRefCount o) T n v := by
  obtain ⟨hkeeps, hptr⟩ := h.keeps.decrRefCount hn
  refine ⟨hkeeps, h.shows.frame fun a ha => hptr a ?_, h.length⟩
  rcases ha with ha | ⟨p, hp, ha⟩
  · exact Keeps.mem_of_roots (Multiset.mem_add.mpr (Or.inr ha))
  · have hp_ptr := hptr p (Keeps.mem_of_roots (Multiset.mem_add.mpr (Or.inr hp)))
    rw [← hp_ptr] at ha
    exact Keeps.mem_of_inner (Heap.mem_inner_of_ptr ha)

-- A new string, held by nothing else before it was put into the queue.
theorem addNew (h : Mirrors O s₀ s T n v) (str : Option Bytes) :
    ∃ o heap, s.createCutisObject (.string str) = (o, { s with heap }) ∧ o ∉ s.held O T ∧
      Mirrors O s₀ ((HeapSession.addReply { s with heap } o).decrRefCount o) T (n + 2)
        (v.addReply (str.getD [])) ∧
      ((HeapSession.addReply { s with heap } o).decrRefCount o).heap.ptr o = .string str ∧
      Grows O T s ((HeapSession.addReply { s with heap } o).decrRefCount o) := by
  obtain ⟨o, heap, heq, hfresh, hkeeps, hself, hgrows⟩ := h.keeps.addNew str
  refine ⟨o, heap, heq, hfresh, ⟨hkeeps, ?_, h.length⟩, hself, hgrows⟩
  have hshows := (h.shows.frame fun a ha => (hgrows a ha.held).2).push o
  rwa [← Heap.bytes_of_ptr hself]

theorem addReplySds (h : Mirrors O s₀ s T n v) (str : Bytes) :
    Mirrors O s₀ (s.addReplySds str) T (n + 2) (v.addReplySds str) := by
  obtain ⟨o, heap, heq, -, hmirrors, -⟩ := h.addNew (some str)
  rw [HeapSession.addReplySds, heq]
  exact hmirrors

theorem addCrlf (h : Mirrors O s₀ s T n v) :
    Mirrors O s₀ (s.addReply s.shared.crlf) T (n + 1) (v.addReply Cutis.shared.crlf) :=
  h.addShared (by simp) h.shows.crlf

theorem addOk (h : Mirrors O s₀ s T n v) :
    Mirrors O s₀ (s.addReply s.shared.ok) T (n + 1) (v.addReply Cutis.shared.ok) :=
  h.addShared (by simp) h.shows.ok

theorem addNil (h : Mirrors O s₀ s T n v) :
    Mirrors O s₀ (s.addReply s.shared.nil) T (n + 1) (v.addReply Cutis.shared.nil) :=
  h.addShared (by simp) h.shows.nil

theorem addZero (h : Mirrors O s₀ s T n v) :
    Mirrors O s₀ (s.addReply s.shared.zero) T (n + 1) (v.addReply Cutis.shared.zero) :=
  h.addShared (by simp) h.shows.zero

theorem addOne (h : Mirrors O s₀ s T n v) :
    Mirrors O s₀ (s.addReply s.shared.one) T (n + 1) (v.addReply Cutis.shared.one) :=
  h.addShared (by simp) h.shows.one

theorem addBulk (h : Mirrors O s₀ s T n v) (ho : o ∈ s.held O T) {el : Bytes}
    (hel : s.heap.bytes o = el) : Mirrors O s₀ (s.addBulk o) T (n + 4) (Cutis.addBulk v el) := by
  subst hel
  obtain ⟨-, hgrows⟩ := h.keeps.addReplySds (intLine (s.heap.bytes o).length)
  obtain ⟨ho₁, hptr₁⟩ := hgrows o ho
  have h₂ := (h.addReplySds (intLine (s.heap.bytes o).length)).addReply ho₁
  rw [bytes_congr hptr₁] at h₂
  exact h₂.addCrlf

-- A database that takes over values, or hands them back.
theorem setDatabase (h : Mirrors O s₀ s T n v) {id : Nat} {d d' : HeapDict}
    (hd : s.dict[id]? = some d) (hd' : d'.Sound sdsDictType) (hmoved : U + d'.vals = T + d.vals) :
    Mirrors O s₀ (s.setDatabase id d') U n (v.setDict id (s.heap.database d')) :=
  ⟨(h.keeps.setDatabase hd hd' hmoved).1, h.shows.setDatabase id d',
    List.length_set.trans h.length⟩

theorem setSelected (h : Mirrors O s₀ s T n v) {dict : Nat} (hdict : dict < s.dict.length) :
    Mirrors O s₀ { s with client := { s.client with dict } } T n
      { v with client := { v.client with dict } } :=
  ⟨h.keeps.setSelected dict, ⟨h.shows.dict, rfl, hdict, h.shows.argv, h.shows.reply,
    h.shows.shared⟩, h.length⟩

theorem dirtied (h : Mirrors O s₀ s T n v) : Mirrors O s₀ s T n v.dirtied :=
  ⟨h.keeps, h.shows.dirtied, h.length⟩

theorem dirtied_if (h : Mirrors O s₀ s T n v) (c : Prop) [Decidable c] :
    Mirrors O s₀ s T n (if c then v.dirtied else v) := by
  split
  · exact h.dirtied
  · exact h

end Mirrors

section Lone

theorem Lone.of_le {M : Multiset ObjectId} (hM : M.Nodup) (hle : s.values ≤ M) : s.Lone :=
  Multiset.nodup_of_le hle hM

theorem Lone.fresh (hlone : s.Lone) (hfresh : o ∉ s.held O T) : (o ::ₘ s.values).Nodup :=
  Multiset.nodup_cons.mpr
    ⟨fun ho => hfresh (Seen.held (Or.inl (mem_roots_of_value ho))), hlone⟩

theorem values_setDatabase {id : Nat} {d : HeapDict} (hd : s.dict[id]? = some d) (d' : HeapDict) :
    (s.setDatabase id d').values + d.vals = s.values + d'.vals :=
  Ledger.sum_set Dict.vals hd d'

theorem Lone.vals (hlone : s.Lone) {id : Nat} {d : HeapDict} (hd : s.dict[id]? = some d) :
    d.vals.Nodup := by
  have hsum := Ledger.sum_eraseIdx Dict.vals hd
  exact Multiset.nodup_of_le ((Multiset.le_add_left _ _).trans_eq hsum) hlone

theorem Lone.disjoint (hlone : s.Lone) {id id' : Nat} {d d' : HeapDict} (hd : s.dict[id]? = some d)
    (hd' : s.dict[id']? = some d') (hne : id' ≠ id) {a : ObjectId} (ha : a ∈ d.vals) :
    a ∉ d'.vals := by
  intro ha'
  have hsum := Ledger.sum_eraseIdx Dict.vals hd
  have hrest : a ∈ ((s.dict.eraseIdx id).map Dict.vals).sum :=
    (Ledger.mem_sum _ _ _).mpr ⟨d', List.mem_eraseIdx_iff_getElem?.mpr ⟨id', hne, hd'⟩, ha'⟩
  rw [Lone, values, ← hsum, Multiset.nodup_add] at hlone
  exact Multiset.disjoint_left.mp hlone.2.2 hrest ha

end Lone

section Containers

variable {d : HeapDict} {key : Bytes} {de : DictEntry Bytes ObjectId}

theorem bytes_of_container {h : Heap} (hptr : ∀ str, h.ptr o ≠ .string str) : h.bytes o = [] := by
  rw [Heap.bytes]
  split
  · rename_i str hstr
    exact absurd hstr (hptr _)
  · rfl

-- What a container has come to stand for, in the place where the databases hold it.
theorem Shows.setObject (h : s.Shows v) (hlone : s.Lone) (hd : s.dict[s.client.dict]? = some d)
    (hsound : d.Sound sdsDictType) (hfind : dictFind sdsDictType d key = some de) {heap : Heap}
    (hobject : ∀ a ∈ s.values, a ≠ de.val → heap.object a = s.heap.object a)
    (hbytes : ∀ a ∈ s.roots, heap.bytes a = s.heap.bytes a) :
    Shows { s with heap }
      (v.setDB (dictSetHashVal sdsDictType (s.heap.database d) key (heap.object de.val))) where
  dict := by
    have hset : dictSetHashVal sdsDictType (s.heap.database d) key (heap.object de.val) =
        heap.database d :=
      sdsDictType_maps.dictSetHashVal_map hsound.toShape hfind (hlone.vals hd) fun a ha hne =>
        hobject a (mem_values (List.mem_of_getElem? hd) ha) hne
    rw [hset, Session.setDB, Session.setDict, h.dict, h.selected]
    apply List.ext_getElem?
    intro id
    rw [List.getElem?_map]
    by_cases hid : id = s.client.dict
    · rw [hid, List.getElem?_set_self (by rw [List.length_map]; exact h.inRange), hd]
      rfl
    · rw [List.getElem?_set_ne (Ne.symm hid), List.getElem?_map]
      cases hd' : s.dict[id]? with
      | none => rfl
      | some d' =>
          have hval := mem_vals (dictFind_mem hsound.toShape hfind)
          refine congrArg some (Heap.database_congr fun a ha => ?_).symm
          refine hobject a (mem_values (List.mem_of_getElem? hd') ha) ?_
          rintro rfl
          exact hlone.disjoint hd hd' hid hval ha
  selected := h.selected
  inRange := h.inRange
  argv := h.argv
  reply := h.reply.trans (List.map_congr_left fun a ha => (hbytes a (mem_roots_of_reply ha)).symm)
  shared := (List.map_congr_left fun a ha => hbytes a (mem_roots_of_shared ha)).trans h.shared

-- A list or a set that has changed in its place.
theorem Mirrors.setContainer (h : Mirrors O s₀ s T n v) (hlone : s.Lone)
    (hd : s.dict[s.client.dict]? = some d) (hfind : dictFind sdsDictType d key = some de)
    {p : ObjectPtr} (hkeeps : Keeps O s₀ (s.setPtr de.val p) U n)
    (hold : ∀ str, s.heap.ptr de.val ≠ .string str) (hnew : ∀ str, p ≠ .string str) :
    Mirrors O s₀ (s.setPtr de.val p) U n (v.setDB (dictSetHashVal sdsDictType
      (s.heap.database d) key ((s.heap.setPtr de.val p).object de.val))) := by
  have hsound := h.keeps.sound d (List.mem_of_getElem? hd)
  have hval : de.val ∈ s.roots :=
    mem_roots_of_value (mem_values (List.mem_of_getElem? hd)
      (mem_vals (dictFind_mem hsound.toShape hfind)))
  have hself : (s.heap.setPtr de.val p).ptr de.val = p :=
    Heap.ptr_setPtr_self (h.keeps.inv.created _ (Seen.held (O := O) (T := T) (Or.inl hval))) p
  refine ⟨hkeeps, h.shows.setObject hlone hd hsound hfind (fun a ha hne => ?_) fun a ha => ?_,
    h.length⟩
  · refine Heap.object_congr (Heap.ptr_setPtr_of_ne hne p) fun e he => Heap.ptr_setPtr_of_ne ?_ p
    rintro rfl
    obtain ⟨str, hstr⟩ := h.keeps.inv.strings a de.val he
    exact hold str hstr
  · by_cases hne : a = de.val
    · rw [hne, bytes_of_container hold, bytes_of_container (by rw [hself]; exact hnew)]
    · exact bytes_congr (Heap.ptr_setPtr_of_ne hne p)

-- Its elements are strings, and keep their bytes.
theorem Keeps.bytes_element (h : Keeps O s₀ s T n) {p : ObjectPtr}
    (hold : ∀ str, s.heap.ptr o ≠ .string str)
    (hstrings : ∀ e ∈ p.elements, e ∈ (s.heap.ptr o).elements ∨ ∃ str, s.heap.ptr e = .string str)
    {e : ObjectId} (he : e ∈ p.elements) : (s.heap.setPtr o p).bytes e = s.heap.bytes e := by
  refine bytes_congr (Heap.ptr_setPtr_of_ne ?_ p)
  rintro rfl
  rcases hstrings e he with hel | ⟨str, hstr⟩
  · obtain ⟨str, hstr⟩ := h.inv.strings e e hel
    exact hold str hstr
  · exact hold str hstr

theorem Keeps.map_setList (h : Keeps O s₀ s T n) {l m : List ObjectId} (hl : s.heap.ptr o = .list l)
    (hstrings : ∀ e ∈ m, e ∈ l ∨ ∃ str, s.heap.ptr e = .string str) :
    m.map (s.heap.setPtr o (.list m)).bytes = m.map s.heap.bytes :=
  List.map_congr_left fun _ he =>
    h.bytes_element (p := .list m) (fun str => by simp [hl]) (by rwa [hl]) he

theorem Keeps.map_setSet (h : Keeps O s₀ s T n) {m m' : Dict ObjectId Unit}
    (hm : s.heap.ptr o = .set m)
    (hstrings : ∀ e ∈ m'.keyList, e ∈ m.keyList ∨ ∃ str, s.heap.ptr e = .string str) :
    m'.map (s.heap.setPtr o (.set m')).bytes id = m'.map s.heap.bytes id :=
  Dict.map_congr fun _ hhe =>
    ⟨h.bytes_element (p := .set m') (fun str => by simp [hm]) (by rw [hm]; exact hstrings)
      (List.mem_map_of_mem hhe), rfl⟩

theorem Mirrors.setList (h : Mirrors O s₀ s T n v) (hlone : s.Lone)
    (hd : s.dict[s.client.dict]? = some d) (hfind : dictFind sdsDictType d key = some de)
    {l m : List ObjectId} (hl : s.heap.ptr de.val = .list l)
    (hmoved : U + (m : Multiset ObjectId) = T + (l : Multiset ObjectId))
    (hstrings : ∀ e ∈ m, e ∈ l ∨ ∃ str, s.heap.ptr e = .string str) :
    Mirrors O s₀ (s.setPtr de.val (.list m)) U n (v.setDB (dictSetHashVal sdsDictType
      (s.heap.database d) key (.list (m.map s.heap.bytes)))) := by
  have hval := Keeps.mem_of_roots (T := T) (h.keeps.mem_of_find hd hfind)
  have hcontainer (str : Option Bytes) : s.heap.ptr de.val ≠ .string str := by rw [hl]; nofun
  have hkeeps := (Heap.setList_keeps h.keeps hval hl hmoved hstrings).1
  have hset := h.setContainer hlone hd hfind hkeeps hcontainer nofun
  have hself := Heap.ptr_setPtr_self (h.keeps.inv.created _ hval) (.list m)
  rwa [Heap.object_list hself, h.keeps.map_setList hl hstrings] at hset

theorem Mirrors.setSet (h : Mirrors O s₀ s T n v) (hlone : s.Lone)
    (hd : s.dict[s.client.dict]? = some d) (hfind : dictFind sdsDictType d key = some de)
    {m m' : Dict ObjectId Unit} (hm : s.heap.ptr de.val = .set m) (hm' : m'.Shape)
    (hmoved : U + m'.keyList = T + m.keyList)
    (hstrings : ∀ e ∈ m'.keyList, e ∈ m.keyList ∨ ∃ str, s.heap.ptr e = .string str) :
    Mirrors O s₀ (s.setPtr de.val (.set m')) U n (v.setDB (dictSetHashVal sdsDictType
      (s.heap.database d) key (.set (m'.map s.heap.bytes id)))) := by
  have hval := Keeps.mem_of_roots (T := T) (h.keeps.mem_of_find hd hfind)
  have hcontainer (str : Option Bytes) : s.heap.ptr de.val ≠ .string str := by rw [hm]; nofun
  have hkeeps := (Heap.setSet_keeps h.keeps hval hm hm' hmoved hstrings).1
  have hset := h.setContainer hlone hd hfind hkeeps hcontainer nofun
  have hself := Heap.ptr_setPtr_self (h.keeps.inv.created _ hval) (.set m')
  rwa [Heap.object_set hself, h.keeps.map_setSet hm hstrings] at hset

end Containers

-- What a handler that was called in s has come to.
structure Ends (s s' : HeapSession) (v' : Session) : Prop where
  shows : s'.Shows v'
  lone : s'.Lone
  length : s'.dict.length = s.dict.length

theorem Mirrors.ends (h : Mirrors O s₀ s T n v) (hlone : s.Lone) : s₀.Ends s v :=
  ⟨h.shows, hlone, h.length⟩

-- Called in a session of objects that stands for a session of values, a handler does what
-- the other does with the values.
def Simulates (f : HeapSession → Except Fault HeapSession)
    (g : Session → Except Fault Session) : Prop :=
  ∀ ⦃O s v⦄, Mirrors O s s 0 0 v → s.Lone → Alike s.Ends (f s) (g v)

end HeapSession

end Cutis

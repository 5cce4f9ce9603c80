import Cutis.Heap.Command
import Cutis.Heap.Containers
import Mathlib.Tactic.Abel

namespace Cutis

@[simp] theorem SharedObject.mem_toList {shared : SharedObject} {o : ObjectId} :
    o ∈ shared.toList ↔ o = shared.crlf ∨ o = shared.ok ∨ o = shared.err ∨ o = shared.zerobulk ∨
      o = shared.nil ∨ o = shared.zero ∨ o = shared.one ∨ o = shared.pong := by
  simp [SharedObject.toList]

namespace HeapSession

-- The places outside of the objects that a handler sees: the shared replies, the
-- values of the databases and the entries of the client's queue.
def roots (s : HeapSession) : Multiset ObjectId :=
  (s.shared.toList : Multiset ObjectId) + (s.dict.map Dict.vals).sum +
    (s.client.reply : Multiset ObjectId)

-- All places that hold objects: O are those of the other clients, and T those of the
-- variables of the handler.
def held (s : HeapSession) (O T : Multiset ObjectId) : Multiset ObjectId :=
  T + (O + s.roots) + s.heap.inner

-- A handler that was called in s₀ has come to s. The counts may have grown by n.
structure Keeps (O : Multiset ObjectId) (s₀ s : HeapSession) (T : Multiset ObjectId) (n : Nat) :
    Prop where
  inv : s.heap.Inv (T + (O + s.roots))
  bound : ∀ a, (s.held O T).count a < 2 ^ 31 + n
  sound : ∀ d ∈ s.dict, d.Sound sdsDictType
  shared : s.shared = s₀.shared
  reply : s₀.client.reply <+: s.client.reply
  bytes : ∀ a ∈ O + (s₀.client.reply : Multiset ObjectId), s.heap.bytes a = s₀.heap.bytes a

-- A step that only adds places, and leaves what was there.
def Grows (O T : Multiset ObjectId) (s s' : HeapSession) : Prop :=
  ∀ a ∈ s.held O T, a ∈ s'.held O T ∧ s'.heap.ptr a = s.heap.ptr a

section Shared

variable (s : HeapSession)

@[simp] theorem addReply_shared (o : ObjectId) : (s.addReply o).shared = s.shared := rfl

@[simp] theorem addReplySds_shared (str : Bytes) : (s.addReplySds str).shared = s.shared := rfl

@[simp] theorem addBulk_shared (o : ObjectId) : (s.addBulk o).shared = s.shared := rfl

@[simp] theorem decrRefCount_shared (o : ObjectId) : (s.decrRefCount o).shared = s.shared := rfl

@[simp] theorem incrRefCount_shared (o : ObjectId) : (s.incrRefCount o).shared = s.shared := rfl

@[simp] theorem setPtr_shared (o : ObjectId) (p : ObjectPtr) : (s.setPtr o p).shared = s.shared :=
  rfl

@[simp] theorem setDatabase_shared (id : Nat) (dict : HeapDict) :
    (s.setDatabase id dict).shared = s.shared := rfl

@[simp] theorem setDB_shared (dict : HeapDict) : (s.setDB dict).shared = s.shared := rfl

end Shared

variable {O T U : Multiset ObjectId} {s₀ s s' s'' : HeapSession} {o : ObjectId} {n : Nat}

theorem Grows.trans (h₁ : Grows O T s s') (h₂ : Grows O T s' s'') : Grows O T s s'' := by
  intro a ha
  obtain ⟨ha₁, hptr₁⟩ := h₁ a ha
  obtain ⟨ha₂, hptr₂⟩ := h₂ a ha₁
  exact ⟨ha₂, hptr₂.trans hptr₁⟩

theorem bytes_congr {h h' : Heap} (hptr : h'.ptr o = h.ptr o) : h'.bytes o = h.bytes o := by
  rw [Heap.bytes, Heap.bytes, hptr]

theorem heap_createCutisObject {p : ObjectPtr} (h : s.createCutisObject p = (o, s')) :
    s.heap.createCutisObject p = (o, s'.heap) := by
  cases h
  rfl

namespace Keeps

theorem mem_of_kept (h : Keeps O s₀ s T n) (ho : o ∈ O + (s₀.client.reply : Multiset ObjectId)) :
    o ∈ O + s.roots := by
  have hle : (s₀.client.reply : Multiset ObjectId) ≤ s.client.reply :=
    Multiset.coe_le.mpr h.reply.sublist.subperm
  exact Multiset.mem_of_le (add_le_add_right (hle.trans (Multiset.le_add_left _ _)) O) ho

theorem mem_of_roots (ho : o ∈ O + s.roots) : o ∈ s.held O T :=
  Multiset.mem_add.mpr (Or.inl (Multiset.mem_add.mpr (Or.inr ho)))

theorem mem_of_inner (ho : o ∈ s.heap.inner) : o ∈ s.held O T :=
  Multiset.mem_add.mpr (Or.inr ho)

-- What nothing holds was in no queue when the handler was called.
theorem notMem_of_fresh (h : Keeps O s₀ s T n) (ho : o ∉ s.held O T) :
    o ∉ O + (s₀.client.reply : Multiset ObjectId) := fun hkept =>
  ho (mem_of_roots (h.mem_of_kept hkept))

theorem mem_of_own (ho : o ∈ T) : o ∈ s.held O T :=
  Multiset.mem_add.mpr (Or.inl (Multiset.mem_add.mpr (Or.inl ho)))

theorem mem_shared (ho : o ∈ s.shared.toList) : o ∈ s.held O T :=
  mem_of_roots (Multiset.mem_add.mpr (Or.inr (Multiset.mem_add.mpr (Or.inl
    (Multiset.mem_add.mpr (Or.inl (Multiset.mem_coe.mpr ho)))))))

theorem mem_of_reply (ho : o ∈ s.client.reply) : o ∈ s.held O T :=
  mem_of_roots (Multiset.mem_add.mpr (Or.inr (Multiset.mem_add.mpr (Or.inr
    (Multiset.mem_coe.mpr ho)))))

theorem held_cons : s.held O (o ::ₘ T) = o ::ₘ s.held O T := by
  rw [held, held, Multiset.cons_add, Multiset.cons_add]

theorem create (h : Keeps O s₀ s T n) {p : ObjectPtr} (hp : p.elements = [])
    (hlive : p ≠ .released) (hshape : ∀ d, p = .set d → d.Shape) :
    ∃ o heap, s.createCutisObject p = (o, { s with heap }) ∧
      Keeps O s₀ { s with heap } (o ::ₘ T) (n + 1) ∧ o ∉ s.held O T ∧
      HeapSession.held { s with heap } O T = s.held O T ∧ heap.ptr o = p ∧
      ∀ a, a ≠ o → heap.ptr a = s.heap.ptr a := by
  obtain ⟨o, heap, heq, hinv, hfresh, hinner, hself, hother⟩ :=
    Heap.createCutisObject_spec h.inv hp hlive hshape
  have hheld : HeapSession.held { s with heap } O T = s.held O T := congrArg _ hinner
  refine ⟨o, heap, ?_, ⟨?_, ?_, h.sound, h.shared, h.reply, ?_⟩, hfresh, hheld, hself, hother⟩
  · rw [HeapSession.createCutisObject, heq]
  · rw [Multiset.cons_add]
    exact hinv
  · intro a
    have hbound := h.bound a
    rw [held_cons, hheld, Multiset.count_cons]
    split <;> omega
  · intro a ha
    have hao : a ≠ o := by
      rintro rfl
      exact hfresh (mem_of_roots (h.mem_of_kept ha))
    exact (bytes_congr (hother a hao)).trans (h.bytes a ha)

-- A reply appended to the queue.
theorem addReply (h : Keeps O s₀ s T n) (ho : o ∈ s.held O T) :
    Keeps O s₀ (s.addReply o) T (n + 1) ∧ (s.addReply o).held O T = o ::ₘ s.held O T ∧
      Grows O T s (s.addReply o) := by
  obtain ⟨hinv, hinner, hptr⟩ := Heap.Inv.incrRefCount h.inv ho
  have hroots : (s.addReply o).roots = o ::ₘ s.roots := by
    change _ + _ + ((s.client.reply ++ [o] : List ObjectId) : Multiset ObjectId) = _
    rw [← Multiset.coe_add, ← add_assoc, add_comm _ (([o] : List ObjectId) : Multiset ObjectId)]
    exact Multiset.singleton_add o _
  have hcons : T + (O + (s.addReply o).roots) = o ::ₘ (T + (O + s.roots)) := by
    rw [hroots, Multiset.add_cons, Multiset.add_cons]
  have hheld : (s.addReply o).held O T = o ::ₘ s.held O T := by
    rw [held, held, hcons, Multiset.cons_add]
    exact congrArg _ (congrArg _ hinner)
  refine ⟨⟨?_, fun a => ?_, h.sound, h.shared, ?_, fun a ha => ?_⟩, hheld,
    fun a ha => ⟨?_, hptr a⟩⟩
  · rw [hcons]
    exact hinv
  · have hbound := h.bound a
    rw [hheld, Multiset.count_cons]
    split <;> omega
  · exact h.reply.trans (List.prefix_append _ _)
  · exact (bytes_congr (hptr a)).trans (h.bytes a ha)
  · rw [hheld]
    exact Multiset.mem_cons_of_mem ha

-- An object the handler takes hold of.
theorem incrRefCount (h : Keeps O s₀ s T n) (ho : o ∈ s.held O T) :
    Keeps O s₀ (s.incrRefCount o) (o ::ₘ T) (n + 1) := by
  obtain ⟨hinv, hinner, hptr⟩ := Heap.Inv.incrRefCount h.inv ho
  have hheld : (s.incrRefCount o).held O T = s.held O T := congrArg _ hinner
  refine ⟨?_, fun a => ?_, h.sound, h.shared, h.reply, fun a ha => ?_⟩
  · rw [Multiset.cons_add]
    exact hinv
  · have hbound := h.bound a
    rw [held_cons, hheld, Multiset.count_cons]
    split <;> omega
  · exact (bytes_congr (hptr a)).trans (h.bytes a ha)

-- What is left when the handler gives an object up.
theorem of_decr (h : Keeps O s₀ s (o ::ₘ T) n)
    (hinv : (s.decrRefCount o).heap.Inv (T + (O + s.roots)))
    (hle : (s.decrRefCount o).held O T ≤ s.held O T)
    (hptr : ∀ a ∈ (s.decrRefCount o).held O T, (s.decrRefCount o).heap.ptr a = s.heap.ptr a) :
    Keeps O s₀ (s.decrRefCount o) T n := by
  refine ⟨hinv, fun a => ?_, h.sound, h.shared, h.reply, fun a ha => ?_⟩
  · refine (Multiset.count_le_of_le a (hle.trans ?_)).trans_lt (h.bound a)
    rw [held_cons]
    exact Multiset.le_cons_self _ _
  · have hheld : a ∈ (s.decrRefCount o).held O T := mem_of_roots (h.mem_of_kept ha)
    exact (bytes_congr (hptr a hheld)).trans (h.bytes a ha)

theorem decrRefCount (h : Keeps O s₀ s (o ::ₘ T) n) (hn : n ≤ 2 ^ 31) :
    Keeps O s₀ (s.decrRefCount o) T n ∧
      ∀ a ∈ (s.decrRefCount o).held O T, (s.decrRefCount o).heap.ptr a = s.heap.ptr a := by
  have hinv := h.inv
  rw [Multiset.cons_add] at hinv
  have hbound (a : ObjectId) : (s.held O T).count a < 2 ^ 32 := by
    have hbound := h.bound a
    rw [held_cons] at hbound
    have hle := Multiset.count_le_count_cons a o (s.held O T)
    omega
  obtain ⟨hinv', hle, hptr⟩ := Heap.Inv.decrRefCount hinv hbound
  exact ⟨h.of_decr hinv' hle hptr, hptr⟩

-- A new string, held by nothing else before it was put into the queue.
theorem addNew (h : Keeps O s₀ s T n) (str : Option Bytes) :
    ∃ o heap, s.createCutisObject (.string str) = (o, { s with heap }) ∧ o ∉ s.held O T ∧
      Keeps O s₀ ((HeapSession.addReply { s with heap } o).decrRefCount o) T (n + 2) ∧
      ((HeapSession.addReply { s with heap } o).decrRefCount o).heap.ptr o = .string str ∧
      Grows O T s ((HeapSession.addReply { s with heap } o).decrRefCount o) := by
  obtain ⟨o, heap, heq, h₁, hfresh, hheld₁, hself, hother⟩ :=
    h.create (p := .string str) rfl nofun nofun
  obtain ⟨h₂, hheld, hgrows⟩ := h₁.addReply (mem_of_own (Multiset.mem_cons_self o T))
  refine ⟨o, heap, heq, hfresh, ?_⟩
  set s₁ : HeapSession := { s with heap }
  have hheld₂ : (s₁.addReply o).held O T = o ::ₘ s.held O T := by
    rw [held_cons, held_cons, hheld₁] at hheld
    exact (Multiset.cons_inj_right o).mp hheld
  have hself₂ : (s₁.addReply o).heap.ptr o = .string str :=
    (hgrows o (mem_of_own (Multiset.mem_cons_self o T))).2.trans hself
  have hinv := h₂.inv
  rw [Multiset.cons_add] at hinv
  have hone : ((s₁.addReply o).held O T).count o < 2 ^ 32 := by
    rw [hheld₂, Multiset.count_cons_self, Multiset.count_eq_zero.mpr hfresh]
    decide
  obtain ⟨hinv', hinner', hptr⟩ := hinv.decr_string hself₂ hone 1
  have hheld₃ : ((s₁.addReply o).decrRefCount o).held O T = o ::ₘ s.held O T := by
    rw [← hheld₂]
    exact congrArg _ hinner'
  have hptr' (a : ObjectId) (ha : a ∈ o ::ₘ s.held O T) :
      ((s₁.addReply o).decrRefCount o).heap.ptr a = (s₁.addReply o).heap.ptr a :=
    hptr a (by rwa [← hheld₂] at ha)
  refine ⟨h₂.of_decr hinv' ?_ ?_, ?_, fun a ha => ⟨?_, ?_⟩⟩
  · rw [hheld₃, hheld₂]
  · rw [hheld₃]
    exact hptr'
  · exact (hptr' o (Multiset.mem_cons_self _ _)).trans hself₂
  · rw [hheld₃]
    exact Multiset.mem_cons_of_mem ha
  · have hao : a ≠ o := by
      rintro rfl
      exact hfresh ha
    have ha₁ : a ∈ s₁.held O (o ::ₘ T) := by
      rw [held_cons, hheld₁]
      exact Multiset.mem_cons_of_mem ha
    rw [hptr' a (Multiset.mem_cons_of_mem ha), (hgrows a ha₁).2]
    exact hother a hao

theorem addReplySds (h : Keeps O s₀ s T n) (str : Bytes) :
    Keeps O s₀ (s.addReplySds str) T (n + 2) ∧ Grows O T s (s.addReplySds str) := by
  obtain ⟨o, heap, heq, -, hkeeps, -, hgrows⟩ := h.addNew (some str)
  rw [HeapSession.addReplySds, heq]
  exact ⟨hkeeps, hgrows⟩

theorem addShared (h : Keeps O s₀ s T n) (ho : o ∈ s.shared.toList) :
    Keeps O s₀ (s.addReply o) T (n + 1) :=
  (h.addReply (mem_shared ho)).1

theorem addBulk (h : Keeps O s₀ s T n) (ho : o ∈ s.held O T) :
    Keeps O s₀ (s.addBulk o) T (n + 4) ∧ Grows O T s (s.addBulk o) := by
  obtain ⟨h₁, hgrows₁⟩ := h.addReplySds (intLine (s.heap.bytes o).length)
  obtain ⟨h₂, -, hgrows₂⟩ := h₁.addReply (hgrows₁ o ho).1
  obtain ⟨h₃, -, hgrows₃⟩ := h₂.addReply (o := s.shared.crlf) (mem_shared (by simp))
  exact ⟨h₃, (hgrows₁.trans hgrows₂).trans hgrows₃⟩

-- A list or a set that takes over objects, or hands them back.
theorem setPtr (h : Keeps O s₀ s T n) {p : ObjectPtr} (ho : o ∈ s.held O T)
    (hmoved : U + p.elements = T + (s.heap.ptr o).elements)
    (hold : ∀ str, s.heap.ptr o ≠ .string str) (hlive : p ≠ .released)
    (hnew : ∀ str, p ≠ .string str)
    (hstrings : ∀ e ∈ p.elements, ∃ str, s.heap.ptr e = .string str)
    (hshape : ∀ d, p = .set d → d.Shape) :
    Keeps O s₀ (s.setPtr o p) U n ∧ (s.setPtr o p).held O U = s.held O T := by
  obtain ⟨hinv, hsum⟩ := Heap.Inv.setPtr h.inv ho (Q := U + (O + s.roots)) (p := p)
    (by rw [add_right_comm, hmoved, add_right_comm]) hlive
    (fun ⟨str, hstr⟩ => absurd hstr (hold str))
    (fun e he => ⟨by
      obtain ⟨str, hstr⟩ := hstrings e he
      rintro rfl
      exact hold str hstr, hstrings e he⟩) hshape
  refine ⟨⟨hinv, fun a => ?_, h.sound, h.shared, h.reply, fun a ha => ?_⟩, hsum⟩
  · rw [show (s.setPtr o p).held O U = s.held O T from hsum]
    exact h.bound a
  · rw [← h.bytes a ha]
    by_cases hao : a = o
    · have hself : (s.heap.setPtr o p).ptr o = p := Heap.ptr_setPtr_self (h.inv.created o ho) p
      subst hao
      change (s.heap.setPtr a p).bytes a = _
      rw [Heap.bytes, Heap.bytes, hself]
      cases p with
      | string str => exact absurd rfl (hnew str)
      | list _ | set _ | released =>
          cases hptr : s.heap.ptr a with
          | string str => exact absurd hptr (hold str)
          | list _ | set _ | released => rfl
    · exact bytes_congr (Heap.ptr_setPtr_of_ne hao p)

-- A string that no queue held when the handler was called.
theorem setPtr_string (h : Keeps O s₀ s T n) {str : Option Bytes} (str' : Option Bytes)
    (ho : o ∈ s.held O T) (hold : s.heap.ptr o = .string str)
    (hnot : o ∉ O + (s₀.client.reply : Multiset ObjectId)) :
    Keeps O s₀ (s.setPtr o (.string str')) T n ∧
      (s.setPtr o (.string str')).held O T = s.held O T := by
  obtain ⟨hinv, hsum⟩ := Heap.Inv.setPtr h.inv ho (Q := T + (O + s.roots))
    (p := .string str') (by rw [hold]; rfl) nofun (fun _ => ⟨str', rfl⟩) nofun nofun
  refine ⟨⟨hinv, fun a => ?_, h.sound, h.shared, h.reply, fun a ha => ?_⟩, hsum⟩
  · rw [show (s.setPtr o (.string str')).held O T = s.held O T from hsum]
    exact h.bound a
  · rw [← h.bytes a ha]
    have hao : a ≠ o := by
      rintro rfl
      exact hnot ha
    exact bytes_congr (Heap.ptr_setPtr_of_ne hao _)

-- A database that takes over values, or hands them back.
theorem setDatabase (h : Keeps O s₀ s T n) {id : Nat} {d d' : HeapDict} (hd : s.dict[id]? = some d)
    (hd' : d'.Sound sdsDictType) (hmoved : U + d'.vals = T + d.vals) :
    Keeps O s₀ (s.setDatabase id d') U n ∧ (s.setDatabase id d').held O U = s.held O T := by
  have hsum := Ledger.sum_set Dict.vals hd d'
  have hroots : U + (O + (s.setDatabase id d').roots) = T + (O + s.roots) := by
    have hvals : U + ((s.dict.set id d').map Dict.vals).sum = T + (s.dict.map Dict.vals).sum := by
      apply add_right_cancel (b := d.vals)
      rw [add_assoc, hsum, add_comm (s.dict.map Dict.vals).sum, ← add_assoc, hmoved,
        add_right_comm]
    calc U + (O + (s.setDatabase id d').roots)
        = U + ((s.dict.set id d').map Dict.vals).sum +
            (O + s.shared.toList + s.client.reply) := by
          simp only [roots, HeapSession.setDatabase]
          abel
      _ = T + (O + s.roots) := by
          rw [hvals, roots]
          abel
  have hheld : (s.setDatabase id d').held O U = s.held O T := by
    rw [held, hroots]
    rfl
  refine ⟨⟨?_, ?_, forall_mem_set h.sound hd' id, h.shared, h.reply, h.bytes⟩, hheld⟩
  · rw [hroots]
    exact h.inv
  · rw [hheld]
    exact h.bound

theorem setSelected (h : Keeps O s₀ s T n) (dict : Nat) :
    Keeps O s₀ { s with client := { s.client with dict } } T n :=
  ⟨h.inv, h.bound, h.sound, h.shared, h.reply, h.bytes⟩

-- An object that a database holds.
theorem mem_of_vals {id : Nat} {d : HeapDict} (hd : s.dict[id]? = some d) (ho : o ∈ d.vals) :
    o ∈ O + s.roots := by
  have hsum : o ∈ (s.dict.map Dict.vals).sum := by
    have hset := Ledger.sum_set Dict.vals hd dictCreate
    rw [vals_dictCreate, add_zero] at hset
    exact hset ▸ Multiset.mem_add.mpr (Or.inr ho)
  exact Multiset.mem_add.mpr (Or.inr (Multiset.mem_add.mpr (Or.inl
    (Multiset.mem_add.mpr (Or.inr hsum)))))

theorem mem_of_find (h : Keeps O s₀ s T n) {id : Nat} {d : HeapDict} {key : Bytes}
    {de : DictEntry Bytes ObjectId} (hd : s.dict[id]? = some d)
    (hfind : dictFind sdsDictType d key = some de) : de.val ∈ O + s.roots :=
  have hsound := h.sound d (List.mem_of_getElem? hd)
  mem_of_vals hd (mem_vals (dictFind_mem hsound.toShape hfind))

-- DictAdd on a database takes the object over unless it fails.
theorem dictAdd (h : Keeps O s₀ s (o ::ₘ T) n) {id : Nat} {d d' : HeapDict} {key : Bytes}
    {ret : DictStatus} (hd : s.dict[id]? = some d)
    (hadd : dictAdd sdsDictType d key o = .ok (d', ret)) :
    match ret with
    | .DICT_OK => Keeps O s₀ (s.setDatabase id d') T n ∧ o ∈ (s.setDatabase id d').held O T
    | .DICT_ERR => Keeps O s₀ (s.setDatabase id d') (o ::ₘ T) n := by
  have hsound := h.sound d (List.mem_of_getElem? hd)
  have hsound' := hsound.dictAdd_returns sdsDictType_lawful hadd
  obtain ⟨-, hvals⟩ := dictAdd_vals hsound.toShape hadd
  cases ret with
  | DICT_OK =>
      obtain ⟨h', hheld⟩ := h.setDatabase hd hsound' (U := T)
        (by rw [hvals.1, Multiset.add_cons, Multiset.cons_add])
      refine ⟨h', ?_⟩
      rw [hheld]
      exact mem_of_own (Multiset.mem_cons_self _ _)
  | DICT_ERR => exact (h.setDatabase hd hsound' (by rw [hvals.1])).1

end Keeps

-- Whatever the handler is called in, it keeps.
def Preserves (f : HeapSession → Except Fault HeapSession) : Prop :=
  ∀ ⦃O s₀ s'⦄, Keeps O s₀ s₀ 0 0 → f s₀ = .ok s' → ∃ n, Keeps O s₀ s' 0 n

end HeapSession

end Cutis

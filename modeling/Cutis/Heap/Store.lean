import Cutis.Dict.Lemmas
import Cutis.Heap
import Cutis.Lib.Ledger

namespace Cutis

namespace Heap

-- The objects in the nodes of all lists and the keys of all sets.
def inner (h : Heap) : Multiset ObjectId :=
  (h.objects.map fun ob => (ob.ptr.elements : Multiset ObjectId)).sum

-- Objects are held by R and by lists and sets. Each refcount is the number of its
-- holders, as far as 32 bits go, and the free list has the objects without a holder,
-- those that are just being freed excepted.
structure Freeing (h : Heap) (R : Multiset ObjectId) (pending : List ObjectId) : Prop where
  counted : ∀ o ob, h.objects[o]? = some ob →
    ob.refcount = BitVec.ofNat 32 ((R + h.inner).count o)
  created : ∀ o ∈ R + h.inner, o < h.objects.length
  nodup : h.free_objs.Nodup
  free_iff : ∀ o, o ∈ h.free_objs ↔ o < h.objects.length ∧ o ∉ R + h.inner ∧ o ∉ pending
  pending : ∀ o ∈ pending, o ∉ R + h.inner
  live : ∀ o ∈ R + h.inner, h.ptr o ≠ .released
  elements : ∀ o, o ∉ R + h.inner → (h.ptr o).elements = []
  strings : ∀ o, ∀ e ∈ (h.ptr o).elements, ∃ str, h.ptr e = .string str
  shape : ∀ o d, h.ptr o = .set d → d.Shape

abbrev Inv (h : Heap) (R : Multiset ObjectId) : Prop := h.Freeing R []

section Objects

variable {h : Heap} {o a : ObjectId} {ob : HeapObject}

theorem ptr_of_getElem? (hob : h.objects[o]? = some ob) : h.ptr o = ob.ptr := by
  rw [ptr, hob]
  rfl

theorem getElem?_of_ptr_ne (hptr : h.ptr o ≠ .released) : ∃ ob, h.objects[o]? = some ob := by
  cases hob : h.objects[o]? with
  | none =>
      rw [ptr, hob] at hptr
      exact absurd rfl hptr
  | some ob => exact ⟨ob, rfl⟩

theorem lt_of_getElem? (hob : h.objects[o]? = some ob) : o < h.objects.length :=
  (List.getElem?_eq_some_iff.mp hob).1

-- One object assigned to.
theorem inner_set (hob : h.objects[o]? = some ob) (ob' : HeapObject) (free_objs : List ObjectId) :
    ({ objects := h.objects.set o ob', free_objs } : Heap).inner + ob.ptr.elements =
      h.inner + ob'.ptr.elements :=
  Ledger.sum_set _ hob ob'

theorem getElem?_set_self (hob : h.objects[o]? = some ob) (ob' : HeapObject) :
    (h.objects.set o ob')[o]? = some ob' :=
  List.getElem?_set_self (lt_of_getElem? hob)

theorem ptr_set_self (hob : h.objects[o]? = some ob) (ob' : HeapObject)
    (free_objs : List ObjectId) :
    ({ objects := h.objects.set o ob', free_objs } : Heap).ptr o = ob'.ptr :=
  ptr_of_getElem? (getElem?_set_self hob ob')

theorem ptr_set_of_ne (hne : a ≠ o) (ob' : HeapObject) (free_objs : List ObjectId) :
    ({ objects := h.objects.set o ob', free_objs } : Heap).ptr a = h.ptr a := by
  rw [ptr, ptr, List.getElem?_set_ne hne.symm]

theorem mem_inner_of_getElem? (hob : h.objects[o]? = some ob) (ha : a ∈ ob.ptr.elements) :
    a ∈ h.inner := by
  have hle : (ob.ptr.elements : Multiset ObjectId) ≤ h.inner := by
    have hset := inner_set hob { ob with ptr := .released } h.free_objs
    have hnil : ((ObjectPtr.released.elements : List ObjectId) : Multiset ObjectId) = 0 := rfl
    rw [hnil, add_zero] at hset
    exact hset ▸ Multiset.le_add_left _ _
  exact Multiset.mem_of_le hle (Multiset.mem_coe.mpr ha)

theorem mem_inner_of_ptr (ha : a ∈ (h.ptr o).elements) : a ∈ h.inner := by
  cases hob : h.objects[o]? with
  | none =>
      rw [ptr, hob] at ha
      cases ha
  | some ob => exact mem_inner_of_getElem? hob (ptr_of_getElem? hob ▸ ha)

theorem setPtr_eq (hob : h.objects[o]? = some ob) (p : ObjectPtr) :
    h.setPtr o p = { h with objects := h.objects.set o { ob with ptr := p } } := by
  rw [setPtr, List.modify_eq_set_getElem?, hob]
  rfl

theorem incrRefCount_eq (hob : h.objects[o]? = some ob) :
    h.incrRefCount o =
      { h with objects := h.objects.set o { ob with refcount := ob.refcount + 1 } } := by
  rw [incrRefCount, List.modify_eq_set_getElem?, hob]
  rfl

end Objects

section Create

variable {h h' : Heap} {R : Multiset ObjectId} {o : ObjectId} {p : ObjectPtr}

-- A new object that nothing holds yet, in a heap that is otherwise the old one.
theorem Inv.of_fresh (hinv : h.Inv R) (hfresh : o ∉ R + h.inner) (hp : p.elements = [])
    (hlive : p ≠ .released) (hshape : ∀ d, p = .set d → d.Shape)
    (hself : h'.objects[o]? = some { ptr := p, refcount := 1 })
    (hother : ∀ a, a ≠ o → h'.objects[a]? = h.objects[a]?) (hinner : h'.inner = h.inner)
    (hnodup : h'.free_objs.Nodup)
    (hfree : ∀ a, a ∈ h'.free_objs ↔ a < h.objects.length ∧ a ∉ R + h.inner ∧ a ≠ o) :
    h'.Inv (o ::ₘ R) := by
  have hlt (a : ObjectId) (ha : a ≠ o) : a < h'.objects.length ↔ a < h.objects.length := by
    rw [← not_le, ← not_le, ← List.getElem?_eq_none_iff, ← List.getElem?_eq_none_iff, hother a ha]
  have hptr (a : ObjectId) (ha : a ≠ o) : h'.ptr a = h.ptr a := by rw [ptr, ptr, hother a ha]
  have hmem (a : ObjectId) : a ∈ o ::ₘ R + h'.inner ↔ a = o ∨ a ∈ R + h.inner := by
    rw [Multiset.cons_add, Multiset.mem_cons, hinner]
  refine ⟨fun a ob hob => ?_, fun a ha => ?_, hnodup, fun a => ?_, nofun, fun a ha => ?_,
    fun a ha => ?_, fun a e he => ?_, fun a d hd => ?_⟩
  · rw [Multiset.cons_add, hinner]
    by_cases hao : a = o
    · subst hao
      obtain rfl := Option.some.inj (hself.symm.trans hob)
      rw [Multiset.count_cons_self, Multiset.count_eq_zero.mpr hfresh]
      rfl
    · rw [Multiset.count_cons_of_ne hao]
      exact hinv.counted a ob (hother a hao ▸ hob)
  · by_cases hao : a = o
    · exact hao ▸ lt_of_getElem? hself
    · exact (hlt a hao).mpr (hinv.created a (((hmem a).mp ha).resolve_left hao))
  · rw [hfree, hmem]
    by_cases hao : a = o
    · simp [hao]
    · simp [hlt a hao, hao]
  · by_cases hao : a = o
    · rw [hao, ptr_of_getElem? hself]
      exact hlive
    · rw [hptr a hao]
      exact hinv.live a (((hmem a).mp ha).resolve_left hao)
  · rw [hmem, not_or] at ha
    rw [hptr a ha.1]
    exact hinv.elements a ha.2
  · by_cases hao : a = o
    · rw [hao, ptr_of_getElem? hself, hp] at he
      cases he
    · rw [hptr a hao] at he
      have heo : e ≠ o := by
        rintro rfl
        exact hfresh (Multiset.mem_add.mpr (Or.inr (mem_inner_of_ptr he)))
      rw [hptr e heo]
      exact hinv.strings a e he
  · by_cases hao : a = o
    · rw [hao, ptr_of_getElem? hself] at hd
      exact hshape d hd
    · exact hinv.shape a d (hptr a hao ▸ hd)

-- The object created is the first of the free list, or a new one.
theorem createCutisObject_fresh (hinv : h.Inv R) (hp : p.elements = []) :
    ∃ o h', h.createCutisObject p = (o, h') ∧ o ∉ R + h.inner ∧
      h'.objects[o]? = some { ptr := p, refcount := 1 } ∧
      (∀ a, a ≠ o → h'.objects[a]? = h.objects[a]?) ∧ h'.inner = h.inner ∧ h'.free_objs.Nodup ∧
      ∀ a, a ∈ h'.free_objs ↔ a < h.objects.length ∧ a ∉ R + h.inner ∧ a ≠ o := by
  obtain ⟨objects, free_objs⟩ := h
  cases free_objs with
  | nil =>
      refine ⟨objects.length, _, rfl, fun ha => Nat.lt_irrefl _ (hinv.created _ ha),
        List.getElem?_concat_length, fun a ha => ?_, ?_, hinv.nodup, fun a => ⟨nofun, ?_⟩⟩
      · simp only
        rw [List.getElem?_append]
        split
        · rfl
        · rename_i hge
          have hlt : objects.length < a := Nat.lt_of_le_of_ne (Nat.not_lt.mp hge) ha.symm
          rw [List.getElem?_singleton, if_neg (by omega), List.getElem?_eq_none (by omega)]
      · rw [inner, Ledger.sum_append_singleton, hp]
        exact add_zero _
      · rintro ⟨hlt, ha, -⟩
        exact absurd ((hinv.free_iff a).mpr ⟨hlt, ha, List.not_mem_nil⟩) List.not_mem_nil
  | cons o rest =>
      obtain ⟨hlt, hfresh, -⟩ := (hinv.free_iff o).mp List.mem_cons_self
      obtain ⟨hnot, hnodup⟩ := List.nodup_cons.mp hinv.nodup
      have hob : objects[o]? = some _ := List.getElem?_eq_getElem hlt
      refine ⟨o, _, rfl, hfresh, List.getElem?_set_self hlt,
        fun a ha => List.getElem?_set_ne ha.symm, ?_, hnodup, fun a => ?_⟩
      · have hset := inner_set (h := ⟨objects, o :: rest⟩) hob { ptr := p, refcount := 1 } rest
        rw [← ptr_of_getElem? (h := ⟨objects, o :: rest⟩) hob, hinv.elements o hfresh, hp] at hset
        simpa using hset
      · have hiff := hinv.free_iff a
        rw [List.mem_cons] at hiff
        constructor
        · intro ha
          obtain ⟨hlt, hheld, -⟩ := hiff.mp (Or.inr ha)
          exact ⟨hlt, hheld, fun hao => hnot (hao ▸ ha)⟩
        · rintro ⟨hlt, hheld, hao⟩
          exact (hiff.mpr ⟨hlt, hheld, List.not_mem_nil⟩).resolve_left hao

theorem createCutisObject_spec (hinv : h.Inv R) (hp : p.elements = []) (hlive : p ≠ .released)
    (hshape : ∀ d, p = .set d → d.Shape) :
    ∃ o h', h.createCutisObject p = (o, h') ∧ h'.Inv (o ::ₘ R) ∧ o ∉ R + h.inner ∧
      h'.inner = h.inner ∧ h'.ptr o = p ∧ ∀ a, a ≠ o → h'.ptr a = h.ptr a := by
  obtain ⟨o, h', heq, hfresh, hself, hother, hinner, hnodup, hfree⟩ :=
    createCutisObject_fresh hinv hp
  refine ⟨o, h', heq, hinv.of_fresh hfresh hp hlive hshape hself hother hinner hnodup hfree, hfresh,
    hinner, ptr_of_getElem? hself, fun a ha => ?_⟩
  rw [ptr, ptr, hother a ha]

end Create

section Change

variable {h : Heap} {R : Multiset ObjectId} {o : ObjectId} {ob : HeapObject}
  {pending : List ObjectId}

theorem Freeing.mem_of_count (hinv : h.Freeing R pending) {a : ObjectId} (ha : a ∈ R + h.inner) :
    ∃ ob, h.objects[a]? = some ob :=
  ⟨_, List.getElem?_eq_getElem (hinv.created a ha)⟩

-- A change of a refcount only.
theorem set_refcount (hob : h.objects[o]? = some ob) (refcount : BitVec 32)
    (free_objs : List ObjectId) :
    ({ objects := h.objects.set o { ob with refcount }, free_objs } : Heap).inner = h.inner ∧
      ∀ a, ({ objects := h.objects.set o { ob with refcount }, free_objs } : Heap).ptr a =
        h.ptr a := by
  refine ⟨add_right_cancel (inner_set hob { ob with refcount } free_objs), fun a => ?_⟩
  by_cases hao : a = o
  · rw [hao, ptr_set_self hob, ptr_of_getElem? hob]
  · exact ptr_set_of_ne hao _ _

-- The counts after a step that changes one refcount along with the holders.
theorem Freeing.counted_set {R' : Multiset ObjectId} {ob' : HeapObject} {free_objs : List ObjectId}
    (hinv : h.Freeing R pending) (hob : h.objects[o]? = some ob)
    (hself : ob'.refcount = BitVec.ofNat 32 (R'.count o))
    (hother : ∀ a, a ≠ o → R'.count a = (R + h.inner).count a) (a : ObjectId) (ob₁ : HeapObject)
    (hob₁ : ({ objects := h.objects.set o ob', free_objs } : Heap).objects[a]? = some ob₁) :
    ob₁.refcount = BitVec.ofNat 32 (R'.count a) := by
  by_cases hao : a = o
  · subst hao
    rw [getElem?_set_self hob] at hob₁
    obtain rfl := Option.some.inj hob₁
    exact hself
  · rw [hother a hao]
    exact hinv.counted a ob₁ (by rwa [List.getElem?_set_ne (Ne.symm hao)] at hob₁)

theorem mem_cons_held (ho : o ∈ R + h.inner) (a : ObjectId) :
    a ∈ o ::ₘ R + h.inner ↔ a ∈ R + h.inner := by
  rw [Multiset.cons_add, Multiset.mem_cons, or_iff_right_of_imp]
  rintro rfl
  exact ho

-- One more holder.
theorem Inv.incrRefCount (hinv : h.Inv R) (ho : o ∈ R + h.inner) :
    (h.incrRefCount o).Inv (o ::ₘ R) ∧ (h.incrRefCount o).inner = h.inner ∧
      ∀ a, (h.incrRefCount o).ptr a = h.ptr a := by
  obtain ⟨ob, hob⟩ := hinv.mem_of_count ho
  rw [incrRefCount_eq hob]
  obtain ⟨hinner, hptr⟩ := set_refcount hob (ob.refcount + 1) h.free_objs
  have hmem := mem_cons_held ho
  refine ⟨⟨?_, ?_, hinv.nodup, ?_, nofun, ?_, ?_, ?_, ?_⟩, hinner, hptr⟩
  · rw [hinner]
    refine hinv.counted_set hob ?_ fun a ha => ?_
    · rw [Multiset.cons_add, Multiset.count_cons_self, Ledger.ofNat_succ, ← hinv.counted o ob hob]
    · rw [Multiset.cons_add, Multiset.count_cons_of_ne ha]
  · simpa only [hinner, hmem, List.length_set] using hinv.created
  · simpa only [hinner, hmem, List.length_set] using hinv.free_iff
  · simpa only [hinner, hmem, hptr] using hinv.live
  · simpa only [hinner, hmem, hptr] using hinv.elements
  · simpa only [hptr] using hinv.strings
  · simpa only [hptr] using hinv.shape

-- One holder less, where others are left.
theorem Freeing.decr_held (hinv : h.Freeing (o ::ₘ R) pending) (hob : h.objects[o]? = some ob)
    (ho : o ∈ R + h.inner) :
    ({ h with objects := h.objects.set o { ob with refcount := ob.refcount - 1 } } : Heap).Freeing
      R pending := by
  obtain ⟨hinner, hptr⟩ := set_refcount hob (ob.refcount - 1) h.free_objs
  have hmem := mem_cons_held ho
  have hcount := hinv.counted o ob hob
  rw [Multiset.cons_add, Multiset.count_cons_self] at hcount
  refine ⟨?_, ?_, hinv.nodup, ?_, ?_, ?_, ?_, ?_, ?_⟩
  · rw [hinner]
    refine hinv.counted_set hob ?_ fun a ha => ?_
    · rw [hcount, Ledger.ofNat_succ_sub]
    · rw [Multiset.cons_add, Multiset.count_cons_of_ne ha]
  · simpa only [hinner, hmem, List.length_set] using hinv.created
  · simpa only [hinner, hmem, List.length_set] using hinv.free_iff
  · simpa only [hinner, hmem] using hinv.pending
  · simpa only [hinner, hmem, hptr] using hinv.live
  · simpa only [hinner, hmem, hptr] using hinv.elements
  · simpa only [hptr] using hinv.strings
  · simpa only [hptr] using hinv.shape

-- The last holder gone: what the object held has no holder but the call itself.
theorem Freeing.decr_last (hinv : h.Freeing (o ::ₘ R) pending) (hob : h.objects[o]? = some ob)
    (ho : o ∉ R + h.inner) {h₁ : Heap}
    (hh₁ : h₁ = { h with
      objects := h.objects.set o { ptr := .released, refcount := ob.refcount - 1 } }) :
    h₁.Freeing ((ob.ptr.elements : Multiset ObjectId) + R) (o :: pending) ∧
      (ob.ptr.elements : Multiset ObjectId) + h₁.inner = h.inner ∧
      ∀ a, a ≠ o → h₁.ptr a = h.ptr a := by
  have hinner : h₁.inner + ob.ptr.elements = h.inner := by
    rw [hh₁, inner_set hob]
    exact add_zero _
  have hself : h₁.ptr o = .released := by rw [hh₁, ptr_set_self hob]
  have hptr (a : ObjectId) (ha : a ≠ o) : h₁.ptr a = h.ptr a := by rw [hh₁, ptr_set_of_ne ha]
  have hlen : h₁.objects.length = h.objects.length := by rw [hh₁, List.length_set]
  have hmem (a : ObjectId) : a ∈ o ::ₘ R + h.inner ↔ a = o ∨ a ∈ R + h.inner := by
    rw [Multiset.cons_add, Multiset.mem_cons]
  have hcount := hinv.counted o ob hob
  rw [Multiset.cons_add, Multiset.count_cons_self] at hcount
  have hsum : (ob.ptr.elements : Multiset ObjectId) + R + h₁.inner = R + h.inner := by
    rw [add_comm (ob.ptr.elements : Multiset ObjectId) R, add_assoc,
      add_comm (ob.ptr.elements : Multiset ObjectId), hinner]
  refine ⟨?_, (add_comm _ _).trans hinner, hptr⟩
  constructor
  · rw [hsum, hh₁]
    refine hinv.counted_set hob ?_ fun a ha => ?_
    · rw [hcount, Ledger.ofNat_succ_sub]
    · rw [Multiset.cons_add, Multiset.count_cons_of_ne ha]
  · rw [hsum, hlen]
    exact fun a ha => hinv.created a ((hmem a).mpr (Or.inr ha))
  · rw [hh₁]
    exact hinv.nodup
  · intro a
    have hiff := hinv.free_iff a
    rw [hmem] at hiff
    rw [hsum, hlen, List.mem_cons, hh₁, hiff]
    tauto
  · rw [hsum]
    intro a ha
    rcases List.mem_cons.mp ha with rfl | ha
    · exact ho
    · exact fun hheld => hinv.pending a ha ((hmem a).mpr (Or.inr hheld))
  · rw [hsum]
    intro a ha
    have hao : a ≠ o := fun hao => ho (hao ▸ ha)
    rw [hptr a hao]
    exact hinv.live a ((hmem a).mpr (Or.inr ha))
  · rw [hsum]
    intro a ha
    by_cases hao : a = o
    · rw [hao, hself]
      rfl
    · rw [hptr a hao]
      exact hinv.elements a fun hheld => ((hmem a).mp hheld).elim hao ha
  · intro a e he
    by_cases hao : a = o
    · rw [hao, hself] at he
      cases he
    · rw [hptr a hao] at he
      have heo : e ≠ o := by
        rintro rfl
        exact ho (Multiset.mem_add.mpr (Or.inr (mem_inner_of_ptr he)))
      rw [hptr e heo]
      exact hinv.strings a e he
  · intro a d hd
    by_cases hao : a = o
    · rw [hao, hself] at hd
      cases hd
    · exact hinv.shape a d (hptr a hao ▸ hd)

-- The object put on the free list.
theorem Freeing.push (hinv : h.Freeing R (o :: pending)) (ho : o < h.objects.length)
    (hnot : o ∉ pending) :
    ({ h with free_objs := o :: h.free_objs } : Heap).Freeing R pending := by
  have hfree : o ∉ h.free_objs := fun hmem =>
    ((hinv.free_iff o).mp hmem).2.2 List.mem_cons_self
  refine ⟨hinv.counted, hinv.created, List.nodup_cons.mpr ⟨hfree, hinv.nodup⟩, fun a => ?_,
    fun a ha => hinv.pending a (List.mem_cons_of_mem _ ha), hinv.live, hinv.elements,
    hinv.strings, hinv.shape⟩
  have hheld := hinv.pending o List.mem_cons_self
  rw [List.mem_cons, hinv.free_iff, List.mem_cons]
  by_cases hao : a = o
  · subst hao
    exact ⟨fun _ => ⟨ho, hheld, hnot⟩, fun _ => Or.inl rfl⟩
  · simp only [hao, false_or]
    rfl

end Change

section Decr

variable {h : Heap} {R : Multiset ObjectId} {o : ObjectId} {ob : HeapObject}
  {pending : List ObjectId}

theorem Freeing.last_iff (hinv : h.Freeing (o ::ₘ R) pending) (hob : h.objects[o]? = some ob)
    (hbound : (R + h.inner).count o < 2 ^ 32) : ob.refcount - 1 = 0 ↔ o ∉ R + h.inner := by
  have hcount := hinv.counted o ob hob
  rw [Multiset.cons_add, Multiset.count_cons_self] at hcount
  rw [hcount, Ledger.ofNat_succ_sub, Ledger.ofNat_eq_zero_iff hbound, Multiset.count_eq_zero]

theorem decrRefCountLoop_eq (hob : h.objects[o]? = some ob) (depth : Nat) :
    decrRefCountLoop (depth + 1) h o =
      if ob.refcount - 1 = 0 then
        let h₁ := ob.ptr.freed.foldl (decrRefCountLoop depth)
          { h with objects := h.objects.set o { ptr := .released, refcount := ob.refcount - 1 } }
        { h₁ with free_objs := o :: h₁.free_objs }
      else { h with objects := h.objects.set o { ob with refcount := ob.refcount - 1 } } := by
  rw [decrRefCountLoop, hob]

-- A string object has nothing below it.
theorem Freeing.decr_string (hinv : h.Freeing (o ::ₘ R) pending) {str : Option Bytes}
    (hptr : h.ptr o = .string str) (hbound : (R + h.inner).count o < 2 ^ 32) (depth : Nat) :
    (decrRefCountLoop (depth + 1) h o).Freeing R pending ∧
      (decrRefCountLoop (depth + 1) h o).inner = h.inner ∧
      ∀ a ∈ R + h.inner, (decrRefCountLoop (depth + 1) h o).ptr a = h.ptr a := by
  have hheld : o ∈ o ::ₘ R + h.inner := by simp
  obtain ⟨ob, hob⟩ := hinv.mem_of_count hheld
  have hob_ptr : ob.ptr = .string str := by rw [← ptr_of_getElem? hob, hptr]
  have hlast := hinv.last_iff hob hbound
  rw [decrRefCountLoop_eq hob]
  by_cases ho : o ∈ R + h.inner
  · rw [if_neg (fun hzero => hlast.mp hzero ho)]
    obtain ⟨hinner, hsame⟩ := set_refcount hob (ob.refcount - 1) h.free_objs
    exact ⟨hinv.decr_held hob ho, hinner, fun a _ => hsame a⟩
  · rw [if_pos (hlast.mpr ho), hob_ptr]
    obtain ⟨hinv₁, hinner, hother⟩ := hinv.decr_last hob ho rfl
    have hnil : ((ObjectPtr.string str).elements : Multiset ObjectId) = 0 := rfl
    rw [hob_ptr, hnil, zero_add] at hinv₁ hinner
    refine ⟨hinv₁.push ?_ fun hp => hinv.pending o hp hheld, hinner, fun a ha => ?_⟩
    · simpa using lt_of_getElem? hob
    · exact hother a fun hao => ho (hao ▸ ha)

-- The elements of a list or a set, which the caller held together with R.
theorem Freeing.decr_strings {elements : List ObjectId}
    (hinv : h.Freeing ((elements : Multiset ObjectId) + R) pending)
    (hstrings : ∀ e ∈ elements, ∃ str, h.ptr e = .string str)
    (hbound : ∀ a, ((elements : Multiset ObjectId) + R + h.inner).count a < 2 ^ 32) (depth : Nat) :
    (elements.foldl (decrRefCountLoop (depth + 1)) h).Freeing R pending ∧
      (elements.foldl (decrRefCountLoop (depth + 1)) h).inner = h.inner ∧
      ∀ a ∈ R + h.inner, (elements.foldl (decrRefCountLoop (depth + 1)) h).ptr a = h.ptr a := by
  induction elements generalizing h with
  | nil =>
      rw [Multiset.coe_nil, zero_add] at hinv
      exact ⟨hinv, rfl, fun _ _ => rfl⟩
  | cons e rest ih =>
      rw [← Multiset.cons_coe, Multiset.cons_add] at hinv hbound
      obtain ⟨str, hptr⟩ := hstrings e List.mem_cons_self
      have hbelow (a : ObjectId) : ((rest : Multiset ObjectId) + R + h.inner).count a < 2 ^ 32 := by
        refine (Multiset.count_le_of_le a ?_).trans_lt (hbound a)
        rw [Multiset.cons_add]
        exact Multiset.le_cons_self _ _
      obtain ⟨hinv₁, hinner, hsame⟩ := hinv.decr_string hptr (hbelow e) depth
      have hrest (e' : ObjectId) (he' : e' ∈ rest) :
          ∃ str, (decrRefCountLoop (depth + 1) h e).ptr e' = .string str := by
        have hheld : e' ∈ (rest : Multiset ObjectId) + R + h.inner := by simp [he']
        rw [hsame e' hheld]
        exact hstrings e' (List.mem_cons_of_mem _ he')
      obtain ⟨hinv₂, hinner₂, hsame₂⟩ := ih hinv₁ hrest (hinner ▸ hbelow)
      refine ⟨hinv₂, hinner₂.trans hinner, fun a ha => ?_⟩
      rw [List.foldl_cons, hsame₂ a (hinner ▸ ha)]
      exact hsame a (Multiset.mem_of_le (add_le_add_left (Multiset.le_add_left _ _) _) ha)

end Decr

end Heap

end Cutis

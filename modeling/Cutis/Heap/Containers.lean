import Cutis.Dict.Values
import Cutis.Heap.Store

namespace Cutis

namespace Heap

section Release

variable {h : Heap} {R : Multiset ObjectId} {o : ObjectId}

theorem freed_eq (hshape : ∀ d, h.ptr o = .set d → d.Shape) :
    (h.ptr o).freed = (h.ptr o).elements := by
  cases hptr : h.ptr o with
  | set d => exact congrArg (List.map _) (hshape d hptr).dictClear_eq
  | string _ => rfl
  | list _ => rfl
  | released => rfl

theorem length_foldl {f : Heap → ObjectId → Heap}
    (hf : ∀ h o, (f h o).objects.length = h.objects.length) (os : List ObjectId) (h : Heap) :
    (os.foldl f h).objects.length = h.objects.length := by
  induction os generalizing h with
  | nil => rfl
  | cons o os ih => rw [List.foldl_cons, ih, hf]

-- Objects are released but never deallocated.
theorem length_decrRefCountLoop (depth : Nat) (h : Heap) (o : ObjectId) :
    (decrRefCountLoop depth h o).objects.length = h.objects.length := by
  induction depth generalizing h o with
  | zero => rfl
  | succ depth ih =>
      rw [decrRefCountLoop]
      cases h.objects[o]? with
      | none => rfl
      | some ob =>
          simp only
          split
          · rw [length_foldl ih, List.length_set]
          · rw [List.length_set]

-- The last holder of a list or a set gone, each of its elements loses one holder too.
theorem Inv.decrRefCount (hinv : h.Inv (o ::ₘ R)) (hbound : ∀ a, (R + h.inner).count a < 2 ^ 32) :
    (h.decrRefCount o).Inv R ∧ R + (h.decrRefCount o).inner ≤ R + h.inner ∧
      ∀ a ∈ R + (h.decrRefCount o).inner, (h.decrRefCount o).ptr a = h.ptr a := by
  obtain ⟨ob, hob⟩ := hinv.mem_of_count (show o ∈ o ::ₘ R + h.inner by simp)
  have hptr := ptr_of_getElem? hob
  have hlast := hinv.last_iff hob (hbound o)
  rw [Heap.decrRefCount, decrRefCountLoop_eq hob]
  by_cases ho : o ∈ R + h.inner
  · rw [if_neg (fun hzero => hlast.mp hzero ho)]
    obtain ⟨hinner, hsame⟩ := set_refcount hob (ob.refcount - 1) h.free_objs
    exact ⟨hinv.decr_held hob ho, (hinner ▸ le_refl _), fun a _ => hsame a⟩
  · rw [if_pos (hlast.mpr ho)]
    obtain ⟨hinv₁, hinner, hother⟩ := hinv.decr_last hob ho rfl
    set h₁ : Heap := { h with
      objects := h.objects.set o { ptr := .released, refcount := ob.refcount - 1 } }
    have hfreed : ob.ptr.freed = ob.ptr.elements := by
      rw [← hptr]
      exact freed_eq fun d => hinv.shape o d
    have hstrings (e : ObjectId) (he : e ∈ ob.ptr.elements) : ∃ str, h₁.ptr e = .string str := by
      have heo : e ≠ o := by
        rintro rfl
        exact ho (Multiset.mem_add.mpr (Or.inr (mem_inner_of_getElem? hob he)))
      rw [hother e heo]
      exact hinv.strings o e (hptr ▸ he)
    have hbelow (a : ObjectId) :
        ((ob.ptr.elements : Multiset ObjectId) + R + h₁.inner).count a < 2 ^ 32 := by
      rw [add_comm (ob.ptr.elements : Multiset ObjectId), add_assoc, hinner]
      exact hbound a
    obtain ⟨hinv₂, hinner₂, hsame₂⟩ := hinv₁.decr_strings hstrings hbelow 0
    have hheld (a : ObjectId) (ha : a ∈ R + h₁.inner) : a ≠ o := by
      rintro rfl
      exact ho (Multiset.mem_of_le (add_le_add_right (hinner ▸ Multiset.le_add_left _ _) R) ha)
    rw [hfreed]
    set h₂ := ob.ptr.elements.foldl (decrRefCountLoop 1) h₁
    have hlt : o < h₂.objects.length := by
      rw [length_foldl (length_decrRefCountLoop 1), List.length_set]
      exact lt_of_getElem? hob
    refine ⟨hinv₂.push hlt List.not_mem_nil, ?_, fun a ha => ?_⟩
    · change R + h₂.inner ≤ R + h.inner
      rw [hinner₂, ← hinner]
      exact add_le_add_right (Multiset.le_add_left _ _) R
    · change a ∈ R + h₂.inner at ha
      rw [hinner₂] at ha
      exact (hsame₂ a ha).trans (hother a (hheld a ha))

end Release

section SetPtr

variable {h : Heap} {R Q : Multiset ObjectId} {o : ObjectId} {p : ObjectPtr}

theorem inner_setPtr (ho : o < h.objects.length) (p : ObjectPtr) :
    (h.setPtr o p).inner + (h.ptr o).elements = h.inner + p.elements := by
  have hob := List.getElem?_eq_getElem ho
  rw [setPtr_eq hob, ptr_of_getElem? hob]
  exact inner_set hob _ _

theorem ptr_setPtr_self (ho : o < h.objects.length) (p : ObjectPtr) : (h.setPtr o p).ptr o = p := by
  have hob := List.getElem?_eq_getElem ho
  rw [setPtr_eq hob]
  exact ptr_set_self hob _ _

theorem ptr_setPtr_of_ne {a : ObjectId} (hao : a ≠ o) (p : ObjectPtr) :
    (h.setPtr o p).ptr a = h.ptr a := by
  have hget : (h.setPtr o p).objects[a]? = h.objects[a]? := List.getElem?_modify_ne _ _ hao.symm
  rw [ptr, ptr, hget]

-- The references that an object takes over or hands back change sides.
theorem Inv.setPtr (hinv : h.Inv R) (ho : o ∈ R + h.inner)
    (hmoved : Q + p.elements = R + (h.ptr o).elements)
    (hlive : p ≠ .released) (hstring : (∃ str, h.ptr o = .string str) → ∃ str, p = .string str)
    (hstrings : ∀ e ∈ p.elements, e ≠ o ∧ ∃ str, h.ptr e = .string str)
    (hshape : ∀ d, p = .set d → d.Shape) :
    (h.setPtr o p).Inv Q ∧ Q + (h.setPtr o p).inner = R + h.inner := by
  have hlt := hinv.created o ho
  have hob := List.getElem?_eq_getElem hlt
  have hinner := inner_setPtr hlt p
  have hsum : Q + (h.setPtr o p).inner = R + h.inner := by
    apply add_right_cancel (b := ((h.ptr o).elements : Multiset ObjectId))
    calc Q + (h.setPtr o p).inner + (h.ptr o).elements
        = Q + p.elements + h.inner := by rw [add_assoc, hinner, add_right_comm, add_assoc]
      _ = R + h.inner + (h.ptr o).elements := by rw [hmoved, add_right_comm]
  have hself := ptr_setPtr_self hlt p
  have hlen : (h.setPtr o p).objects.length = h.objects.length := List.length_modify _ _ _
  refine ⟨⟨?_, ?_, hinv.nodup, ?_, nofun, ?_, ?_, ?_, ?_⟩, hsum⟩
  · rw [hsum, setPtr_eq hob]
    have hcount := hinv.counted o _ hob
    exact hinv.counted_set hob hcount fun _ _ => rfl
  · simpa only [hsum, hlen] using hinv.created
  · rw [hsum, hlen]
    exact hinv.free_iff
  · rw [hsum]
    intro a ha
    by_cases hao : a = o
    · rw [hao, hself]
      exact hlive
    · rw [ptr_setPtr_of_ne hao]
      exact hinv.live a ha
  · rw [hsum]
    intro a ha
    have hao : a ≠ o := fun hao => ha (hao ▸ ho)
    rw [ptr_setPtr_of_ne hao]
    exact hinv.elements a ha
  · intro a e he
    by_cases hao : a = o
    · rw [hao, hself] at he
      obtain ⟨heo, hstr⟩ := hstrings e he
      rwa [ptr_setPtr_of_ne heo]
    · rw [ptr_setPtr_of_ne hao] at he
      have hstr := hinv.strings a e he
      by_cases heo : e = o
      · subst heo
        rw [hself]
        exact hstring hstr
      · rwa [ptr_setPtr_of_ne heo]
  · intro a d hd
    by_cases hao : a = o
    · rw [hao, hself] at hd
      exact hshape d hd
    · rw [ptr_setPtr_of_ne hao] at hd
      exact hinv.shape a d hd

end SetPtr

-- Steps that touch different objects can be swapped.
section Swap

variable {h : Heap} {o a : ObjectId}

theorem modify_set_of_ne {α : Type} {l : List α} {i j : Nat} (hij : i ≠ j) (f : α → α) (x : α) :
    (l.set i x).modify j f = (l.modify j f).set i x := by
  rw [List.set_eq_modify, List.modify_modify_ne _ _ _ hij, List.set_eq_modify]

theorem modify_append_of_lt {α : Type} {l : List α} {j : Nat} (hj : j < l.length) (f : α → α)
    (l' : List α) : (l ++ l').modify j f = l.modify j f ++ l' := by
  rw [List.modify_eq_take_cons_drop (by rw [List.length_append]; omega),
    List.modify_eq_take_cons_drop hj, List.take_append_of_le_length hj.le,
    List.drop_append_of_le_length hj, List.getElem_append_left hj, List.append_assoc]
  rfl

theorem setPtr_setPtr (h : Heap) (o : ObjectId) (p q : ObjectPtr) :
    (h.setPtr o p).setPtr o q = h.setPtr o q := by
  rw [setPtr, setPtr, List.modify_modify_eq]
  rfl

theorem decrRefCount_string {ob : HeapObject} {str : Option Bytes} (hob : h.objects[a]? = some ob)
    (hstr : ob.ptr = .string str) :
    h.decrRefCount a =
      if ob.refcount - 1 = 0 then
        { objects := h.objects.set a { ptr := .released, refcount := ob.refcount - 1 }
          free_objs := a :: h.free_objs }
      else { h with objects := h.objects.set a { ob with refcount := ob.refcount - 1 } } := by
  rw [decrRefCount, decrRefCountLoop_eq hob, hstr]
  rfl

theorem setPtr_decrRefCount {str : Option Bytes} (hstr : h.ptr a = .string str) (hao : a ≠ o)
    (p : ObjectPtr) : (h.setPtr o p).decrRefCount a = (h.decrRefCount a).setPtr o p := by
  obtain ⟨ob, hob⟩ := getElem?_of_ptr_ne (h := h) (o := a) (by rw [hstr]; nofun)
  have hptr : ob.ptr = .string str := by rw [← ptr_of_getElem? hob, hstr]
  have hob' : (h.setPtr o p).objects[a]? = some ob := by
    rw [← hob]
    exact List.getElem?_modify_ne _ _ hao.symm
  rw [decrRefCount_string hob hptr, decrRefCount_string hob' hptr]
  split <;> simp only [Heap.setPtr, modify_set_of_ne hao]

theorem createCutisObject_setPtr (ho : o < h.objects.length) (p q : ObjectPtr)
    (hne : ((h.setPtr o p).createCutisObject q).1 ≠ o) :
    (h.setPtr o p).createCutisObject q =
      ((h.createCutisObject q).1, (h.createCutisObject q).2.setPtr o p) := by
  obtain ⟨objects, free_objs⟩ := h
  cases free_objs with
  | nil =>
      simp only [Heap.setPtr, createCutisObject, List.length_modify, Prod.mk.injEq, true_and,
        Heap.mk.injEq, and_true]
      exact (modify_append_of_lt ho _ _).symm
  | cons first rest =>
      simp only [Heap.setPtr, createCutisObject, Prod.mk.injEq, true_and, Heap.mk.injEq, and_true]
      exact (modify_set_of_ne hne _ _).symm

-- LSET gives the old element up while its node still points to it.
theorem createCutisObject_decrRefCount {str : Option Bytes} {p q : ObjectPtr} {el : ObjectId}
    {heap : Heap} (hstr : h.ptr a = .string str) (hao : a ≠ o) (ho : o < h.objects.length)
    (hcreate : ((h.setPtr o p).decrRefCount a).createCutisObject q = (el, heap)) (hel : el ≠ o)
    (r : ObjectPtr) :
    ∃ heap', (h.decrRefCount a).createCutisObject q = (el, heap') ∧
      heap'.setPtr o r = heap.setPtr o r := by
  rw [setPtr_decrRefCount hstr hao] at hcreate
  have hlt : o < (h.decrRefCount a).objects.length := by
    rw [decrRefCount, length_decrRefCountLoop]
    exact ho
  have hswap := createCutisObject_setPtr hlt p q (by rw [hcreate]; exact hel)
  rw [hcreate] at hswap
  have hfst : el = ((h.decrRefCount a).createCutisObject q).1 := congrArg Prod.fst hswap
  have hsnd : heap = ((h.decrRefCount a).createCutisObject q).2.setPtr o p :=
    congrArg Prod.snd hswap
  refine ⟨((h.decrRefCount a).createCutisObject q).2, ?_, ?_⟩
  · rw [hfst]
  · rw [hsnd, setPtr_setPtr]

end Swap

end Heap

end Cutis

import Cutis.Heap.Strings

namespace Cutis.Heap

open HeapSession

variable {O T U : Multiset ObjectId} {s₀ s s' : HeapSession} {o el : ObjectId} {n : Nat}
  {l l' : List ObjectId}

theorem coe_listAddNode (l : List ObjectId) (el : ObjectId) (whereEnd : ListEnd) :
    (listAddNode l el whereEnd : Multiset ObjectId) = el ::ₘ (l : Multiset ObjectId) := by
  cases whereEnd with
  | CUTIS_HEAD => rfl
  | CUTIS_TAIL => exact Multiset.coe_eq_coe.mpr List.perm_append_comm

theorem mem_listAddNode {a : ObjectId} {whereEnd : ListEnd} (h : a ∈ listAddNode l el whereEnd) :
    a = el ∨ a ∈ l := by
  have h := Multiset.mem_coe.mpr h
  rw [coe_listAddNode, Multiset.mem_cons] at h
  exact h

theorem coe_listPop {whereEnd : ListEnd} (h : listPop l whereEnd = some (el, l')) :
    (l : Multiset ObjectId) = el ::ₘ (l' : Multiset ObjectId) := by
  cases whereEnd with
  | CUTIS_HEAD =>
      cases l with
      | nil => cases h
      | cons x rest =>
          cases h
          rfl
  | CUTIS_TAIL =>
      obtain ⟨x, hlast, hx⟩ := Option.map_eq_some_iff.mp h
      cases hx
      have hl : l = l.dropLast ++ [el] := (List.dropLast_append_getLast? el hlast).symm
      conv_lhs => rw [hl]
      exact Multiset.coe_eq_coe.mpr List.perm_append_comm

-- A list that takes over objects, or hands them back.
theorem setList_keeps {m : List ObjectId} (h : Keeps O s₀ s T n) (ho : o ∈ s.held O T)
    (hl : s.heap.ptr o = .list l)
    (hmoved : U + (m : Multiset ObjectId) = T + (l : Multiset ObjectId))
    (hstrings : ∀ e ∈ m, e ∈ l ∨ ∃ str, s.heap.ptr e = .string str) :
    Keeps O s₀ (s.setPtr o (.list m)) U n ∧ (s.setPtr o (.list m)).held O U = s.held O T := by
  refine h.setPtr ho (by rw [hl]; exact hmoved) (fun str => by rw [hl]; nofun) nofun nofun ?_ nofun
  intro e he
  rcases hstrings e he with he | hstr
  · exact h.inv.strings o e (by rwa [hl])
  · exact hstr

-- The caller's reference becomes the one of a node.
theorem addNode_keeps {str : Option Bytes} (h : Keeps O s₀ s (el ::ₘ T) n)
    (ho : o ∈ s.held O (el ::ₘ T)) (hl : s.heap.ptr o = .list l)
    (hstr : s.heap.ptr el = .string str) (whereEnd : ListEnd) :
    Keeps O s₀ (s.setPtr o (.list (listAddNode l el whereEnd))) T n := by
  refine (setList_keeps h ho hl ?_ fun e he => ?_).1
  · rw [coe_listAddNode, Multiset.add_cons, Multiset.cons_add]
  · rcases mem_listAddNode he with rfl | he
    · exact Or.inr ⟨str, hstr⟩
    · exact Or.inl he

-- The reference of a node is handed back.
theorem popNode_keeps {whereEnd : ListEnd} (h : Keeps O s₀ s T n) (ho : o ∈ s.held O T)
    (hl : s.heap.ptr o = .list l) (hpop : listPop l whereEnd = some (el, l')) :
    Keeps O s₀ (s.setPtr o (.list l')) (el ::ₘ T) n := by
  have hcoe := coe_listPop hpop
  refine (setList_keeps h ho hl ?_ fun e he => Or.inl ?_).1
  · rw [hcoe, Multiset.cons_add, Multiset.add_cons]
  · rw [← Multiset.mem_coe, hcoe]
    exact Multiset.mem_cons_of_mem he

theorem mem_of_list (hl : s.heap.ptr o = .list l) (hel : el ∈ l) : el ∈ s.held O T :=
  Keeps.mem_of_inner (mem_inner_of_ptr (o := o) (by rwa [hl]))

theorem pushGenericCommand_preserves (whereEnd : ListEnd) :
    Preserves (pushGenericCommand · whereEnd) := by
  intro O s₀ s' h hcall
  obtain ⟨str, -, hcall⟩ := bind_eq_ok.mp hcall
  obtain ⟨el, heap, heq, h₁, -, -, hself, -⟩ :=
    h.create (p := .string (some str)) rfl nofun nofun
  simp only [heq] at hcall
  obtain ⟨key, -, hcall⟩ := bind_eq_ok.mp hcall
  obtain ⟨d, hd, hcall⟩ := bind_eq_ok.mp hcall
  have hd := database_eq_ok hd
  cases hfind : dictFind sdsDictType d key with
  | none =>
      simp only [hfind] at hcall
      obtain ⟨o, heap₂, heq₂, h₂, hfresh₂, -, hself₂, hother₂⟩ :=
        h₁.create (p := .list []) rfl nofun nofun
      simp only [heq₂] at hcall
      obtain ⟨d₁, hd₁, hcall⟩ := bind_eq_ok.mp hcall
      obtain ⟨⟨d', ret⟩, hadd, hcall⟩ := bind_eq_ok.mp hcall
      cases hcall
      have helo : el ≠ o := by
        rintro rfl
        exact hfresh₂ (Keeps.mem_of_own (Multiset.mem_cons_self _ _))
      rw [Multiset.cons_swap] at h₂
      have h₃ := addNode_keeps h₂ (Keeps.mem_of_own (Multiset.mem_cons_of_mem
        (Multiset.mem_cons_self _ _))) hself₂ ((hother₂ el helo).trans hself) whereEnd
      have h₄ := h₃.dictAdd (database_eq_ok hd₁) hadd
      have hd₁ : s₀.dict[s₀.client.dict]? = some d₁ := database_eq_ok hd₁
      obtain rfl : d = d₁ := Option.some.inj (hd.symm.trans hd₁)
      obtain rfl : ret = .DICT_OK :=
        ((h.sound d (List.mem_of_getElem? hd)).dictAdd_status sdsDictType_lawful hadd).mpr hfind
      exact ⟨_, h₄.1.addShared (by simp)⟩
  | some de =>
      simp only [hfind] at hcall
      have hval := h₁.mem_of_find hd hfind
      split at hcall
      · rename_i l hl
        cases hcall
        have h₂ := addNode_keeps h₁ (Keeps.mem_of_roots hval) hl hself whereEnd
        exact ⟨_, h₂.addShared (by simp)⟩
      · cases hcall
      · cases hcall
        exact ⟨_, ((h₁.decrRefCount (by decide)).1.addReplySds _).1⟩

theorem popGenericCommand_preserves (whereEnd : ListEnd) :
    Preserves (popGenericCommand · whereEnd) := by
  intro O s₀ s' h hcall
  rcases lookup_cases h hcall with hcall | ⟨de, hval, hcall⟩
  · cases hcall
    exact ⟨_, h.addShared (by simp)⟩
  · split at hcall
    · rename_i l hl
      split at hcall
      · cases hcall
        exact ⟨_, h.addShared (by simp)⟩
      · rename_i el l' hpop
        cases hcall
        have hel : el ∈ l := by
          rw [← Multiset.mem_coe, coe_listPop hpop]
          exact Multiset.mem_cons_self _ _
        obtain ⟨h₁, hgrows⟩ := h.addBulk (mem_of_list hl hel)
        obtain ⟨hheld, hptr⟩ := hgrows de.val (Keeps.mem_of_roots hval)
        have h₂ := popNode_keeps h₁ hheld (hptr.trans hl) hpop
        exact ⟨_, (h₂.decrRefCount (by decide)).1⟩
    · cases hcall
    · cases hcall
      exact ⟨_, (h.addReplySds _).1⟩

theorem lLenCommand_preserves : Preserves lLenCommand := by
  intro O s₀ s' h hcall
  rcases lookup_cases h hcall with hcall | ⟨de, -, hcall⟩
  · cases hcall
    exact ⟨_, h.addShared (by simp)⟩
  · split at hcall
    · cases hcall
      exact ⟨_, (h.addReplySds _).1⟩
    · cases hcall
    · cases hcall
      exact ⟨_, (h.addReplySds _).1⟩

theorem lIndexCommand_preserves : Preserves lIndexCommand := by
  intro O s₀ s' h hcall
  obtain ⟨d, hd, hcall⟩ := bind_eq_ok.mp hcall
  obtain ⟨key, -, hcall⟩ := bind_eq_ok.mp hcall
  obtain ⟨index, -, hcall⟩ := bind_eq_ok.mp hcall
  rcases find_cases h hd hcall with hcall | ⟨de, -, hcall⟩
  · cases hcall
    exact ⟨_, h.addShared (by simp)⟩
  · split at hcall
    · rename_i l hl
      split at hcall
      · cases hcall
        exact ⟨_, h.addShared (by simp)⟩
      · rename_i el hel
        cases hcall
        obtain ⟨i, -, hel⟩ := Option.bind_eq_some_iff.mp hel
        exact ⟨_, (h.addBulk (mem_of_list hl (List.mem_of_getElem? hel))).1⟩
    · cases hcall
    · cases hcall
      exact ⟨_, (h.addReplySds _).1⟩

-- The loop of LRANGE.
theorem addRange_keeps (j : Nat) (h : Keeps O s₀ s T n) (hl : ∀ el ∈ l, el ∈ s.held O T)
    (hcall : addRange j l s = .ok s') : ∃ n, Keeps O s₀ s' T n := by
  induction j generalizing l s n with
  | zero =>
      cases hcall
      exact ⟨n, h⟩
  | succ j ih =>
      cases l with
      | nil => cases hcall
      | cons el next =>
          obtain ⟨h₁, hgrows⟩ := h.addBulk (hl el List.mem_cons_self)
          exact ih h₁ (fun a ha => (hgrows a (hl a (List.mem_cons_of_mem _ ha))).1) hcall

theorem lRangeCommand_preserves : Preserves lRangeCommand := by
  intro O s₀ s' h hcall
  obtain ⟨d, hd, hcall⟩ := bind_eq_ok.mp hcall
  obtain ⟨key, -, hcall⟩ := bind_eq_ok.mp hcall
  obtain ⟨start, -, hcall⟩ := bind_eq_ok.mp hcall
  obtain ⟨endIdx, -, hcall⟩ := bind_eq_ok.mp hcall
  rcases find_cases h hd hcall with hcall | ⟨de, -, hcall⟩
  · cases hcall
    exact ⟨_, h.addShared (by simp)⟩
  · split at hcall
    · rename_i l hl
      split at hcall
      · cases hcall
        exact ⟨_, h.addShared (by simp)⟩
      · rename_i start endIdx hbounds
        obtain ⟨h₁, hgrows⟩ := h.addReplySds (intLine (endIdx - start + 1))
        exact addRange_keeps _ h₁
          (fun el hel => (hgrows el (mem_of_list hl (List.mem_of_mem_drop hel))).1) hcall
    · cases hcall
    · cases hcall
      exact ⟨_, (h.addReplySds _).1⟩

-- The loops of LTRIM. Each pass takes an element out of the list and gives it up.
theorem delNodes_keeps (whereEnd : ListEnd) (j : Nat) (h : Keeps O s₀ s 0 n) (hn : n ≤ 2 ^ 31)
    (ho : o ∈ O + s.roots) (hl : s.heap.ptr o = .list l)
    (hcall : delNodes o whereEnd j l s = .ok (l', s')) :
    Keeps O s₀ s' 0 n ∧ o ∈ O + s'.roots ∧ s'.heap.ptr o = .list l' := by
  induction j generalizing l s with
  | zero =>
      cases hcall
      exact ⟨h, ho, hl⟩
  | succ j ih =>
      rw [delNodes] at hcall
      split at hcall
      · cases hcall
      · rename_i el l₁ hpop
        have h₁ := popNode_keeps h (Keeps.mem_of_roots ho) hl hpop
        obtain ⟨h₂, hptr⟩ := h₁.decrRefCount hn
        refine ih h₂ ho ?_ hcall
        rw [hptr o (Keeps.mem_of_roots ho)]
        exact ptr_setPtr_self (h.inv.created o (Keeps.mem_of_roots ho)) _

theorem lTrimCommand_preserves : Preserves lTrimCommand := by
  intro O s₀ s' h hcall
  obtain ⟨d, hd, hcall⟩ := bind_eq_ok.mp hcall
  obtain ⟨key, -, hcall⟩ := bind_eq_ok.mp hcall
  obtain ⟨start, -, hcall⟩ := bind_eq_ok.mp hcall
  obtain ⟨endIdx, -, hcall⟩ := bind_eq_ok.mp hcall
  rcases find_cases h hd hcall with hcall | ⟨de, hval, hcall⟩
  · cases hcall
    exact ⟨_, (h.addReplySds _).1⟩
  · split at hcall
    · rename_i l hl
      obtain ⟨⟨l₁, s₁⟩, hhead, hcall⟩ := bind_eq_ok.mp hcall
      obtain ⟨⟨l₂, s₂⟩, htail, hcall⟩ := bind_eq_ok.mp hcall
      obtain ⟨h₁, hval₁, hl₁⟩ := delNodes_keeps _ _ h (by decide) hval hl hhead
      obtain ⟨h₂, -⟩ := delNodes_keeps _ _ h₁ (by decide) hval₁ hl₁ htail
      cases hcall
      exact ⟨_, h₂.addShared (by simp)⟩
    · cases hcall
    · cases hcall
      exact ⟨_, (h.addReplySds _).1⟩

theorem coe_eraseIdx {i : Nat} (hi : i < l.length) :
    (l : Multiset ObjectId) = l.getD i 0 ::ₘ (l.eraseIdx i : Multiset ObjectId) := by
  rw [List.getD_eq_getElem?_getD, List.getElem?_eq_getElem hi]
  exact (Multiset.coe_eq_coe.mpr (List.getElem_cons_eraseIdx_perm hi)).symm

theorem coe_set {i : Nat} (hi : i < l.length) (el : ObjectId) :
    ((l.set i el : List ObjectId) : Multiset ObjectId) =
      el ::ₘ (l.eraseIdx i : Multiset ObjectId) :=
  Multiset.coe_eq_coe.mpr (List.set_perm_cons_eraseIdx hi el)

-- LSET gives the old element up while its node still points to it. The outcome is the
-- one of taking the node's reference away first.
theorem replaceElement_keeps {i : Nat} (h : Keeps O s₀ s 0 n) (hn : n ≤ 2 ^ 31)
    (ho : o ∈ O + s.roots) (hl : s.heap.ptr o = .list l) (hi : i < l.length) (str : Bytes) :
    ∃ el heap, (s.decrRefCount (l.getD i 0)).createCutisObject (.string (some str)) =
        (el, { s with heap }) ∧
      Keeps O s₀ (HeapSession.setPtr { s with heap } o (.list (l.set i el))) 0 (n + 1) := by
  have herase := coe_eraseIdx hi
  have hmem : l.getD i 0 ∈ l := by
    rw [← Multiset.mem_coe, herase]
    exact Multiset.mem_cons_self _ _
  obtain ⟨old, hold⟩ := h.inv.strings o (l.getD i 0) (by rw [hl]; exact hmem)
  have hne : l.getD i 0 ≠ o := by
    rintro heq
    rw [heq, hl] at hold
    cases hold
  obtain ⟨h₁, -⟩ := setList_keeps (U := l.getD i 0 ::ₘ 0) (m := l.eraseIdx i) h
    (Keeps.mem_of_roots ho) hl (by rw [herase, Multiset.cons_add, Multiset.add_cons])
    (fun e he => Or.inl (List.mem_of_mem_eraseIdx he))
  obtain ⟨h₂, hptr⟩ := h₁.decrRefCount hn
  have hheld : o ∈ ((s.setPtr o (.list (l.eraseIdx i))).decrRefCount (l.getD i 0)).held O 0 :=
    Keeps.mem_of_roots ho
  obtain ⟨el, heap, heq, h₃, hfresh, -, hself, hother⟩ :=
    h₂.create (p := .string (some str)) rfl nofun nofun
  have helo : o ≠ el := by
    rintro rfl
    exact hfresh hheld
  have hl₃ : heap.ptr o = .list (l.eraseIdx i) := by
    rw [hother o helo, hptr o hheld]
    exact ptr_setPtr_self (h.inv.created o (Keeps.mem_of_roots ho)) _
  have hset := coe_set hi el
  obtain ⟨h₄, -⟩ := setList_keeps (U := 0) (m := l.set i el) h₃
    (Keeps.mem_of_roots ho) hl₃ (by rw [hset, Multiset.cons_add, Multiset.add_cons])
    (fun e he => by
      rw [← Multiset.mem_coe, hset, Multiset.mem_cons] at he
      rcases he with rfl | he
      · exact Or.inr ⟨some str, hself⟩
      · exact Or.inl he)
  obtain ⟨heap', heq', hheap'⟩ := createCutisObject_decrRefCount hold hne
    (h.inv.created o (Keeps.mem_of_roots ho)) (heap_createCutisObject heq) helo.symm
    (.list (l.set i el))
  refine ⟨el, heap', ?_, ?_⟩
  · rw [HeapSession.createCutisObject]
    exact congrArg (fun created : ObjectId × Heap => (created.1, { s with heap := created.2 })) heq'
  · unfold HeapSession.setPtr at h₄ ⊢
    rw [hheap']
    exact h₄

theorem listIndex_lt {index : Int} {i : Nat} (h : listIndex l index = some i) : i < l.length := by
  unfold listIndex at h
  split at h
  · split at h
    · cases h
      omega
    · cases h
  · split at h
    · cases h
      assumption
    · cases h

theorem lSetCommand_preserves : Preserves lSetCommand := by
  intro O s₀ s' h hcall
  obtain ⟨index, -, hcall⟩ := bind_eq_ok.mp hcall
  rcases lookup_cases h hcall with hcall | ⟨de, hval, hcall⟩
  · cases hcall
    exact ⟨_, (h.addReplySds _).1⟩
  · split at hcall
    · rename_i l hl
      split at hcall
      · cases hcall
        exact ⟨_, (h.addReplySds _).1⟩
      · rename_i i hi
        obtain ⟨str, -, hcall⟩ := bind_eq_ok.mp hcall
        obtain ⟨el, heap, heq, h₁⟩ := replaceElement_keeps h (by decide) hval hl
          (listIndex_lt hi) str
        rw [heq] at hcall
        cases hcall
        exact ⟨_, h₁.addShared (by simp)⟩
    · cases hcall
    · cases hcall
      exact ⟨_, (h.addReplySds _).1⟩

end Cutis.Heap

import Cutis.Dict.Iteration
import Cutis.Heap.Lists

namespace Cutis.Heap

open HeapSession

variable {O T U : Multiset ObjectId} {s₀ s s' : HeapSession} {o el : ObjectId} {n : Nat}
  {d d' : Dict ObjectId Unit}

theorem mem_of_set (hd : s.heap.ptr o = .set d) (hel : el ∈ d.keyList) : el ∈ s.held O T :=
  Keeps.mem_of_inner (mem_inner_of_ptr (o := o) (by rw [hd]; exact Multiset.mem_coe.mp hel))

-- A set that takes over objects, or hands them back.
theorem setSet_keeps (h : Keeps O s₀ s T n) (ho : o ∈ s.held O T) (hd : s.heap.ptr o = .set d)
    (hd' : d'.Shape) (hmoved : U + d'.keyList = T + d.keyList)
    (hstrings : ∀ e ∈ d'.keyList, e ∈ d.keyList ∨ ∃ str, s.heap.ptr e = .string str) :
    Keeps O s₀ (s.setPtr o (.set d')) U n ∧ (s.setPtr o (.set d')).held O U = s.held O T := by
  refine h.setPtr ho (by rw [hd]; exact hmoved) (fun str => by rw [hd]; nofun) nofun nofun ?_
    (fun _ heq => ObjectPtr.set.inj heq ▸ hd')
  intro e he
  rcases hstrings e (Multiset.mem_coe.mpr he) with he | hstr
  · exact h.inv.strings o e (by rw [hd]; exact Multiset.mem_coe.mp he)
  · exact hstr

-- DictAdd on a set takes the object over unless the set has an equal member.
-- A member of the larger set is the new string or a member of the old one.
theorem addMember_strings {str : Option Bytes} (hstr : s.heap.ptr el = .string str)
    (hkeys : d'.keyList = el ::ₘ d.keyList) :
    ∀ e ∈ d'.keyList, e ∈ d.keyList ∨ ∃ str, s.heap.ptr e = .string str := by
  intro e he
  rw [hkeys, Multiset.mem_cons] at he
  rcases he with rfl | he
  · exact Or.inr ⟨str, hstr⟩
  · exact Or.inl he

theorem addMember_keeps {K : DictType ObjectId} {str : Option Bytes} {status : DictStatus}
    (h : Keeps O s₀ s (el ::ₘ T) n) (ho : o ∈ s.held O (el ::ₘ T)) (hd : s.heap.ptr o = .set d)
    (hstr : s.heap.ptr el = .string str) (hadd : dictAdd K d el () = .ok (d', status)) :
    match status with
    | .DICT_OK => Keeps O s₀ (s.setPtr o (.set d')) T n
    | .DICT_ERR => Keeps O s₀ (s.setPtr o (.set d')) (el ::ₘ T) n := by
  obtain ⟨hshape, hvals⟩ := dictAdd_vals (h.inv.shape o d hd) hadd
  cases status with
  | DICT_OK =>
      refine (setSet_keeps h ho hd hshape ?_ (addMember_strings hstr hvals.2)).1
      rw [hvals.2, Multiset.add_cons, Multiset.cons_add]
  | DICT_ERR =>
      exact (setSet_keeps h ho hd hshape (by rw [hvals.2]) fun e he => Or.inl (hvals.2 ▸ he)).1

theorem sAddSet_keeps {key : Bytes} {set : Option ObjectId} (h : Keeps O s₀ s 0 n)
    (hcall : sAddSet s key = .ok (s', set)) :
    Keeps O s₀ s' 0 (n + 1) ∧
      ∀ o ∈ set, o ∈ s'.held O 0 ∧ ∃ d, s'.heap.ptr o = .set d := by
  obtain ⟨d, hd, hcall⟩ := bind_eq_ok.mp hcall
  have hd := database_eq_ok hd
  cases hfind : dictFind sdsDictType d key with
  | none =>
      simp only [hfind] at hcall
      obtain ⟨o, heap, heq, h₁, -, -, hself, -⟩ := h.create (p := .set dictCreate) rfl nofun
        (fun _ hd => ObjectPtr.set.inj hd ▸ shape_dictReset)
      simp only [heq] at hcall
      obtain ⟨d₁, hd₁, hcall⟩ := bind_eq_ok.mp hcall
      obtain ⟨⟨d', ret⟩, hadd, hcall⟩ := bind_eq_ok.mp hcall
      have h₂ := h₁.dictAdd (database_eq_ok hd₁) hadd
      have hd₁ : s.dict[s.client.dict]? = some d₁ := database_eq_ok hd₁
      obtain rfl : d = d₁ := Option.some.inj (hd.symm.trans hd₁)
      obtain rfl : ret = .DICT_OK :=
        ((h.sound d (List.mem_of_getElem? hd)).dictAdd_status sdsDictType_lawful hadd).mpr hfind
      cases hcall
      refine ⟨h₂.1, fun o' ho' => ?_⟩
      obtain rfl := Option.mem_some_iff.mp ho'
      exact ⟨h₂.2, dictCreate, hself⟩
  | some de =>
      simp only [hfind] at hcall
      have hval := h.mem_of_find hd hfind
      have hslack : Keeps O s₀ s 0 (n + 1) :=
        { h with bound := fun a => (h.bound a).trans (Nat.lt_succ_self _) }
      split at hcall
      · rename_i d' hd'
        cases hcall
        refine ⟨hslack, fun o' ho' => ?_⟩
        obtain rfl := Option.mem_some_iff.mp ho'
        exact ⟨Keeps.mem_of_roots hval, d', hd'⟩
      · cases hcall
      · cases hcall
        exact ⟨hslack, nofun⟩

theorem sAddElement_keeps {str : Bytes} (h : Keeps O s₀ s 0 n) (hn : n + 1 ≤ 2 ^ 31)
    (ho : o ∈ s.held O 0) (hcall : sAddElement s o str = .ok s') : Keeps O s₀ s' 0 (n + 1) := by
  obtain ⟨el, heap, heq, h₁, hfresh, hheld, hself, -⟩ :=
    h.create (p := .string (some str)) rfl nofun nofun
  unfold sAddElement at hcall
  simp only [heq] at hcall
  split at hcall
  · rename_i d hd
    obtain ⟨⟨d', status⟩, hadd, hcall⟩ := bind_eq_ok.mp hcall
    have ho₁ : o ∈ HeapSession.held { s with heap } O (el ::ₘ 0) :=
      Keeps.held_cons (o := el) ▸ Multiset.mem_cons_of_mem (by rw [hheld]; exact ho)
    have h₂ := addMember_keeps h₁ ho₁ hd hself hadd
    cases status with
    | DICT_OK =>
        cases hcall
        exact h₂
    | DICT_ERR =>
        cases hcall
        exact (h₂.decrRefCount hn).1
  · cases hcall

theorem sAddCommand_preserves : Preserves sAddCommand := by
  intro O s₀ s' h hcall
  obtain ⟨key, -, hcall⟩ := bind_eq_ok.mp hcall
  obtain ⟨⟨s₁, set⟩, hset, hcall⟩ := bind_eq_ok.mp hcall
  obtain ⟨h₁, hheld⟩ := sAddSet_keeps h hset
  cases set with
  | none =>
      cases hcall
      exact ⟨_, (h₁.addReplySds _).1⟩
  | some set =>
      obtain ⟨str, -, hcall⟩ := bind_eq_ok.mp hcall
      obtain ⟨s₂, hadd, hcall⟩ := bind_eq_ok.mp hcall
      cases hcall
      exact ⟨_, (sAddElement_keeps h₁ (by decide) (hheld set rfl).1 hadd).addShared (by simp)⟩

-- The end of a lookup object: its string goes back to argv before it is given up.
theorem dropLookup_keeps {t : Option Bytes} (h : Keeps O s₀ s (el ::ₘ T) n) (hn : n ≤ 2 ^ 31)
    (hptr : s.heap.ptr el = .string t)
    (hnot : el ∉ O + (s₀.client.reply : Multiset ObjectId)) :
    Keeps O s₀ ((s.setPtr el (.string none)).decrRefCount el) T n := by
  obtain ⟨h₁, -⟩ := h.setPtr_string none (Keeps.mem_of_own (Multiset.mem_cons_self _ _))
    hptr hnot
  exact (h₁.decrRefCount hn).1

theorem sRemCommand_preserves : Preserves sRemCommand := by
  intro O s₀ s' h hcall
  rcases lookup_cases h hcall with hcall | ⟨de, hval, hcall⟩
  · cases hcall
    exact ⟨_, (h.addReplySds _).1⟩
  · split at hcall
    · rename_i d hd
      obtain ⟨str, -, hcall⟩ := bind_eq_ok.mp hcall
      obtain ⟨el, heap, heq, h₁, hfresh, hheld, hself, hother⟩ :=
        h.create (p := .string (some str)) rfl nofun nofun
      simp only [heq] at hcall
      have hnot := h.notMem_of_fresh hfresh
      have hvalel : de.val ≠ el := by
        rintro hvalel
        exact hfresh (hvalel ▸ Keeps.mem_of_roots hval)
      have hd₁ : heap.ptr de.val = .set d := (hother _ hvalel).trans hd
      cases hdel : dictDelete heap.SetDictType d el with
      | mk d' member =>
          simp only [hdel] at hcall
          obtain ⟨hshape', -, hmember⟩ := dictGenericDelete_vals (h₁.inv.shape _ d hd₁) el hdel
          cases member with
          | none =>
              cases hcall
              obtain ⟨h₂, -⟩ := setSet_keeps h₁ (Keeps.mem_of_roots hval) hd₁ hshape'
                (by rw [hmember]) (fun e he => Or.inl (hmember ▸ he))
              refine ⟨_, (dropLookup_keeps h₂ (by decide) (t := some str) ?_ hnot).addShared
                (by simp)⟩
              rw [← hself]
              exact ptr_setPtr_of_ne hvalel.symm _
          | some member =>
              cases hcall
              obtain ⟨h₂, -⟩ := setSet_keeps (U := member.key ::ₘ el ::ₘ 0) h₁
                (Keeps.mem_of_roots hval) hd₁ hshape'
                (by rw [hmember.2, Multiset.cons_add, Multiset.add_cons])
                (fun e he => Or.inl (hmember.2 ▸ Multiset.mem_cons_of_mem he))
              obtain ⟨h₃, hptr⟩ := h₂.decrRefCount (by decide)
              refine ⟨_, (dropLookup_keeps h₃ (by decide) (t := some str) ?_ hnot).addShared
                (by simp)⟩
              rw [← hself, hptr el (Keeps.mem_of_own (Multiset.mem_cons_self _ _))]
              exact ptr_setPtr_of_ne hvalel.symm _
    · cases hcall
    · cases hcall
      exact ⟨_, (h.addReplySds _).1⟩

theorem sIsMemberCommand_preserves : Preserves sIsMemberCommand := by
  intro O s₀ s' h hcall
  rcases lookup_cases h hcall with hcall | ⟨de, -, hcall⟩
  · cases hcall
    exact ⟨_, (h.addReplySds _).1⟩
  · split at hcall
    · rename_i d hd
      obtain ⟨str, -, hcall⟩ := bind_eq_ok.mp hcall
      obtain ⟨el, heap, heq, h₁, hfresh, -, hself, -⟩ :=
        h.create (p := .string (some str)) rfl nofun nofun
      simp only [heq] at hcall
      have hnot := h.notMem_of_fresh hfresh
      have hreply (o : ObjectId) (ho : o ∈ s₀.shared.toList) :
          Keeps O s₀ (((HeapSession.addReply { s₀ with heap } o).setPtr el
            (.string none)).decrRefCount el) 0 2 := by
        obtain ⟨h₂, -, hgrows⟩ := h₁.addReply (o := o) (Keeps.mem_shared ho)
        have hptr := (hgrows el (Keeps.mem_of_own (Multiset.mem_cons_self _ _))).2
        exact dropLookup_keeps h₂ (by decide) (hptr.trans hself) hnot
      split at hcall
      · cases hcall
        exact ⟨_, hreply _ (by simp)⟩
      · cases hcall
        exact ⟨_, hreply _ (by simp)⟩
    · cases hcall
    · cases hcall
      exact ⟨_, (h.addReplySds _).1⟩

theorem sCardCommand_preserves : Preserves sCardCommand := by
  intro O s₀ s' h hcall
  rcases lookup_cases h hcall with hcall | ⟨de, -, hcall⟩
  · cases hcall
    exact ⟨_, h.addShared (by simp)⟩
  · split at hcall
    · cases hcall
      exact ⟨_, (h.addReplySds _).1⟩
    · cases hcall
    · cases hcall
      exact ⟨_, (h.addReplySds _).1⟩

theorem sInterSets_held {db : HeapDict} {keys : List Bytes} {dv : List (Dict ObjectId Unit)}
    (hcall : sInterSets s db keys = .ok (some dv)) : ∀ d ∈ dv, ∃ o, s.heap.ptr o = .set d := by
  induction keys generalizing dv with
  | nil =>
      cases hcall
      nofun
  | cons key keys ih =>
      rw [sInterSets] at hcall
      split at hcall
      · cases hcall
      · rename_i de hfind
        split at hcall
        · rename_i d hd
          obtain ⟨rest, hrest, hcall⟩ := bind_eq_ok.mp hcall
          obtain ⟨dv', rfl, rfl⟩ := Option.map_eq_some_iff.mp (Except.ok.inj hcall)
          intro d' hd'
          rcases List.mem_cons.mp hd' with rfl | hd'
          · exact ⟨de.val, hd⟩
          · exact ih hrest d' hd'
        · cases hcall

-- The loop of SINTER.
theorem sInterLoop_keeps (dv : List (Dict ObjectId Unit)) (cardinality : Nat)
    {entries : List (DictEntry ObjectId Unit)} (h : Keeps O s₀ s T n)
    (hl : ∀ de ∈ entries, de.key ∈ s.held O T) :
    (∃ n, Keeps O s₀ (sInterLoop dv entries s cardinality).1 T n) ∧
      Grows O T s (sInterLoop dv entries s cardinality).1 := by
  induction entries generalizing s n cardinality with
  | nil => exact ⟨⟨n, h⟩, fun _ ha => ⟨ha, rfl⟩⟩
  | cons de rest ih =>
      have hrest (a : DictEntry ObjectId Unit) (ha : a ∈ rest) : a.key ∈ s.held O T :=
        hl a (List.mem_cons_of_mem _ ha)
      rw [sInterLoop]
      split
      · obtain ⟨h₁, hgrows⟩ := h.addBulk (hl de List.mem_cons_self)
        obtain ⟨h₂, hgrows₂⟩ := ih _ h₁ fun a ha => (hgrows _ (hrest a ha)).1
        exact ⟨h₂, hgrows.trans hgrows₂⟩
      · exact ih _ h hrest

-- The handler with any loop in the place of its own, which the kernel would evaluate.
theorem sInterReply_steps
    (loop : List (Dict ObjectId Unit) → List (DictEntry ObjectId Unit) → HeapSession → Nat →
      HeapSession × Nat)
    (smallest : Dict ObjectId Unit) (others : List (Dict ObjectId Unit))
    (created : ObjectId × HeapSession) :
    (match smallest :: others with
      | [] => (throw Fault.outOfBounds : Except Fault HeapSession)
      | smallest :: others =>
          let (lenobj, s) := created
          let s := (s.addReply lenobj).decrRefCount lenobj
          let (s, cardinality) := loop others (dictIterate smallest) s 0
          return s.setPtr lenobj (.string (some (intLine cardinality)))) =
      let s := (created.2.addReply created.1).decrRefCount created.1
      let replied := loop others (dictIterate smallest) s 0
      .ok (replied.1.setPtr created.1 (.string (some (intLine replied.2)))) := rfl

theorem sInterReply_eq (os : Answers) {dv others : List (Dict ObjectId Unit)}
    {smallest : Dict ObjectId Unit} {created : ObjectId × HeapSession}
    (hqsort : os.qsort dv = smallest :: others)
    (hcreated : s.createCutisObject (.string none) = created) :
    sInterReply os s dv =
      let s := (created.2.addReply created.1).decrRefCount created.1
      let replied := sInterLoop others (dictIterate smallest) s 0
      .ok (replied.1.setPtr created.1 (.string (some (intLine replied.2)))) := by
  rw [sInterReply, hqsort, hcreated]
  exact sInterReply_steps sInterLoop smallest others created

theorem sInterReply_keeps (os : Answers) {dv : List (Dict ObjectId Unit)} (h : Keeps O s₀ s 0 n)
    (hdv : ∀ d ∈ dv, ∃ o, s.heap.ptr o = .set d) (hcall : sInterReply os s dv = .ok s') :
    ∃ n, Keeps O s₀ s' 0 n := by
  cases hqsort : os.qsort dv with
  | nil =>
      rw [sInterReply, hqsort] at hcall
      cases hcall
  | cons smallest others =>
      obtain ⟨lenobj, heap, heq, hfresh, h₁, hself, hgrows⟩ := h.addNew none
      rw [sInterReply_eq os hqsort heq] at hcall
      obtain ⟨o, ho⟩ := hdv smallest
        ((os.qsort_perm dv).mem_iff.mp (hqsort ▸ List.mem_cons_self))
      have hmembers (de : DictEntry ObjectId Unit) (hde : de ∈ dictIterate smallest) :
          de.key ∈ ((HeapSession.addReply { s with heap } lenobj).decrRefCount lenobj).held O 0 :=
        (hgrows _ (mem_of_set ho (Multiset.mem_coe.mpr
          (List.mem_map_of_mem (dictIterate_mem hde))))).1
      obtain ⟨⟨n', h₂⟩, hgrows₂⟩ := sInterLoop_keeps others 0 h₁ hmembers
      obtain ⟨hheld₂, hptr₂⟩ := hgrows₂ lenobj
        (Keeps.mem_of_reply (List.mem_append_right _ List.mem_cons_self))
      have hnot := h.notMem_of_fresh hfresh
      rw [← Except.ok.inj hcall]
      exact ⟨n', (h₂.setPtr_string _ hheld₂ (hptr₂.trans hself) hnot).1⟩

theorem sInterCommand_preserves (os : Answers) : Preserves (sInterCommand os) := by
  intro O s₀ s' h hcall
  obtain ⟨db, -, hcall⟩ := bind_eq_ok.mp hcall
  obtain ⟨dv, hdv, hcall⟩ := bind_eq_ok.mp hcall
  cases dv with
  | none =>
      cases hcall
      exact ⟨_, (h.addReplySds _).1⟩
  | some dv => exact sInterReply_keeps os h (sInterSets_held hdv) hcall

end Cutis.Heap

import Cutis.Heap.Values.Strings

namespace Cutis.Heap

open HeapSession Lockstep

section Map

variable (f : ObjectId → Bytes) (l : List ObjectId) (el : ObjectId)

theorem listAddNode_map (whereEnd : ListEnd) :
    Cutis.listAddNode (l.map f) (f el) whereEnd = (listAddNode l el whereEnd).map f := by
  cases whereEnd with
  | CUTIS_HEAD => rfl
  | CUTIS_TAIL =>
      rw [Cutis.listAddNode, listAddNode, List.map_append]
      rfl

theorem listPop_map (whereEnd : ListEnd) :
    Cutis.listPop (l.map f) whereEnd =
      (listPop l whereEnd).map fun popped => (f popped.1, popped.2.map f) := by
  cases whereEnd with
  | CUTIS_HEAD => cases l <;> rfl
  | CUTIS_TAIL =>
      rw [Cutis.listPop, listPop, List.getLast?_map, ← List.map_dropLast]
      cases l.getLast? <;> rfl

theorem listIndex_map (index : Int) :
    Cutis.listIndex (l.map f) index = ((listIndex l index).bind (l[·]?)).map f := by
  rw [Cutis.listIndex, listIndex]
  split
  · rw [← List.map_reverse, List.getElem?_map]
    split
    · rename_i hlt
      rw [List.getElem?_reverse hlt]
      rfl
    · rename_i hge
      rw [List.getElem?_eq_none (by simpa using hge)]
      rfl
  · rw [List.getElem?_map]
    split
    · rfl
    · rename_i hge
      rw [List.getElem?_eq_none (Nat.le_of_not_lt hge)]
      rfl

theorem reverse_set {α : Type} {l : List α} {i : Nat} (hi : i < l.length) (x : α) :
    (l.reverse.set i x).reverse = l.set (l.length - 1 - i) x := by
  apply List.ext_getElem
  · simp
  · intro j hj hj'
    have hiff : i = l.length - 1 - j ↔ l.length - 1 - i = j := by
      rw [List.length_set] at hj'
      omega
    have hback : l.length - 1 - (l.length - 1 - j) = j := by
      rw [List.length_set] at hj'
      omega
    simp only [List.getElem_reverse, List.getElem_set, List.length_set, List.length_reverse, hiff,
      hback]

theorem listSetIndex_map {index : Int} {i : Nat} (hi : listIndex l index = some i) (str : Bytes) :
    Cutis.listSetIndex (l.map f) index str = (l.map f).set i str := by
  rw [listIndex] at hi
  rw [Cutis.listSetIndex]
  split at hi
  · rename_i hneg
    split at hi
    · rename_i hlt
      cases hi
      rw [if_pos hneg, reverse_set (by rwa [List.length_map]), List.length_map]
    · cases hi
  · rename_i hneg
    split at hi
    · cases hi
      rw [if_neg hneg]
    · cases hi

end Map

variable {O T : Multiset ObjectId} {s₀ s s' : HeapSession} {v : Session} {o el : ObjectId} {n : Nat}
  {l l' : List ObjectId} {d : HeapDict} {key : Bytes} {de : DictEntry Bytes ObjectId}

-- The list of a key that gets an element the handler has made.
theorem addNode_mirrors {str : Option Bytes} (h : Mirrors O s₀ s (el ::ₘ T) n v) (hlone : s.Lone)
    (hd : s.dict[s.client.dict]? = some d) (hfind : dictFind sdsDictType d key = some de)
    (hl : s.heap.ptr de.val = .list l) (hstr : s.heap.ptr el = .string str) (whereEnd : ListEnd) :
    Mirrors O s₀ (s.setPtr de.val (.list (listAddNode l el whereEnd))) T n
      (v.setDB (dictSetHashVal sdsDictType (s.heap.database d) key
        (.list (Cutis.listAddNode (l.map s.heap.bytes) (str.getD []) whereEnd)))) := by
  rw [← bytes_of_ptr hstr, listAddNode_map]
  refine h.setList hlone hd hfind hl ?_ fun e he => ?_
  · rw [coe_listAddNode, Multiset.add_cons, Multiset.cons_add]
  · rcases mem_listAddNode he with rfl | he
    · exact Or.inr ⟨str, hstr⟩
    · exact Or.inl he

theorem pushGenericCommand_simulates (whereEnd : ListEnd) :
    Simulates (pushGenericCommand · whereEnd) (Cutis.pushGenericCommand · whereEnd) := by
  intro O s v h hlone
  refine (h.shows.arg 2).bind fun str _ hstr => ?_
  subst hstr
  obtain ⟨el, heap, heq, h₁, hfresh, -, hself, -⟩ := h.createString (some str)
  obtain ⟨d, hd, hdb, hdbv⟩ := h₁.shows.db_eq
  rw [heq, hdbv, ok_bind]
  refine (h₁.shows.arg 1).bind fun key _ hkey => ?_
  subst hkey
  rw [hdb, ok_bind, dictFind_database]
  cases hfind : dictFind sdsDictType d key with
  | none =>
      obtain ⟨o, heap₂, heq₂, h₂, hfresh₂, hunseen, hself₂, hother₂⟩ :=
        h₁.createList
      have helo : el ≠ o := by
        rintro rfl
        exact hfresh₂ (Keeps.mem_of_own (Multiset.mem_cons_self _ _))
      have hself' := (hother₂ el helo).trans hself
      have hkeeps₂ := h₂.keeps
      rw [Multiset.cons_swap] at hkeeps₂
      have h₃ := h₂.setOwned (addNode_keeps hkeeps₂ (Keeps.mem_of_own (Multiset.mem_cons_of_mem
        (Multiset.mem_cons_self _ _))) hself₂ hself' whereEnd) hunseen
      have hdb₃ : HeapSession.db (HeapSession.setPtr { s with heap := heap₂ } o
          (.list (listAddNode [] el whereEnd))) = .ok d := hdb
      have hobject : (heap₂.setPtr o (.list (listAddNode [] el whereEnd))).object o =
          .list (Cutis.listAddNode [] str whereEnd) := by
        have hbytes : (heap₂.setPtr o (.list (listAddNode [] el whereEnd))).bytes el = str :=
          (bytes_congr (ptr_setPtr_of_ne helo _)).trans (bytes_of_ptr hself')
        have hnode := listAddNode_map
          (heap₂.setPtr o (.list (listAddNode [] el whereEnd))).bytes [] el whereEnd
        rw [hbytes] at hnode
        rw [object_list (ptr_setPtr_self (h₂.keeps.inv.created o
          (Keeps.mem_of_own (Multiset.mem_cons_self _ _))) _), ← hnode]
        rfl
      simp only [heq₂, Option.map_none]
      rw [hdb₃, ok_bind, ← hobject,
        ← h₁.shows.database_eq h₃.shows rfl rfl (List.mem_of_getElem? hd)]
      refine (Alike.of_map (dictAdd_database _ d key o)).bind fun added _ hadded => ?_
      obtain ⟨hadd, rfl⟩ := hadded
      obtain ⟨d', ret⟩ := added
      obtain rfl : ret = .DICT_OK :=
        ((h₁.keeps.sound d (List.mem_of_getElem? hd)).dictAdd_status sdsDictType_lawful hadd).mpr
          hfind
      obtain ⟨h₄, -, hvalues⟩ := h₃.dictAdd hd hadd
      rw [← h₁.shows.setDB_eq] at h₄
      have hlone₁ : Lone { s with heap } := hlone
      exact .ok (h₄.dirtied.addOk.ends (.of_le (hlone₁.fresh hfresh₂) hvalues.le))
  | some de =>
      have hval := Keeps.mem_of_roots (T := el ::ₘ 0) (h₁.keeps.mem_of_find hd hfind)
      obtain ⟨str', hptr, hobject⟩ | ⟨l, hptr, hobject⟩ | ⟨m, hptr, hobject⟩ :=
        h₁.keeps.ptr_cases hval
      · simp only [Option.map_some, DictEntry.map, hptr, hobject]
        exact .ok (((h₁.decrRefCount (by decide)).addReplySds _).ends hlone)
      · simp only [Option.map_some, DictEntry.map, hptr, hobject]
        exact .ok ((addNode_mirrors h₁ hlone hd hfind hptr hself whereEnd).dirtied.addOk.ends hlone)
      · simp only [Option.map_some, DictEntry.map, hptr, hobject]
        exact .ok (((h₁.decrRefCount (by decide)).addReplySds _).ends hlone)

theorem popGenericCommand_simulates (whereEnd : ListEnd) :
    Simulates (popGenericCommand · whereEnd) (Cutis.popGenericCommand · whereEnd) := by
  intro O s v h hlone
  refine lookup_alike h.shows (.ok (h.addNil.ends hlone)) fun d key de hd hfind => ?_
  have hval := Keeps.mem_of_roots (T := 0) (h.keeps.mem_of_find hd hfind)
  obtain ⟨str, hptr, hobject⟩ | ⟨l, hptr, hobject⟩ | ⟨m, hptr, hobject⟩ := h.keeps.ptr_cases hval
  · simp only [DictEntry.map, hptr, hobject]
    exact .ok ((h.addReplySds _).ends hlone)
  · simp only [DictEntry.map, hptr, hobject, listPop_map]
    cases hpop : listPop l whereEnd with
    | none => exact .ok (h.addNil.ends hlone)
    | some popped =>
        obtain ⟨el, l'⟩ := popped
        have hcoe := coe_listPop hpop
        have hel : el ∈ l := by
          rw [← Multiset.mem_coe, hcoe]
          exact Multiset.mem_cons_self _ _
        have hrest (e : ObjectId) (he : e ∈ l') : e ∈ l := by
          rw [← Multiset.mem_coe, hcoe]
          exact Multiset.mem_cons_of_mem he
        have hheld := mem_of_list (O := O) (T := 0) hptr hel
        obtain ⟨-, hgrows⟩ := h.keeps.addBulk hheld
        have h₁ := h.addBulk hheld rfl
        have h₂ := h₁.setList (U := el ::ₘ 0) hlone hd hfind ((hgrows _ hval).2.trans hptr)
          (by rw [hcoe, Multiset.cons_add, Multiset.add_cons]) fun e he => Or.inl (hrest e he)
        rw [h.shows.database_eq h₁.shows rfl rfl (List.mem_of_getElem? hd),
          List.map_congr_left fun e he => bytes_congr
            (hgrows e (mem_of_list hptr (hrest e he))).2] at h₂
        exact .ok ((h₂.decrRefCount (by decide)).dirtied.ends hlone)
  · simp only [DictEntry.map, hptr, hobject]
    exact .ok ((h.addReplySds _).ends hlone)

theorem lLenCommand_simulates : Simulates lLenCommand Cutis.lLenCommand := by
  intro O s v h hlone
  refine lookup_alike h.shows (.ok (h.addZero.ends hlone)) fun d key de hd hfind => ?_
  have hval := Keeps.mem_of_roots (T := 0) (h.keeps.mem_of_find hd hfind)
  obtain ⟨str, hptr, hobject⟩ | ⟨l, hptr, hobject⟩ | ⟨m, hptr, hobject⟩ := h.keeps.ptr_cases hval
  · simp only [DictEntry.map, hptr, hobject]
    exact .ok ((h.addReplySds _).ends hlone)
  · simp only [DictEntry.map, hptr, hobject, List.length_map]
    exact .ok ((h.addReplySds _).ends hlone)
  · simp only [DictEntry.map, hptr, hobject]
    exact .ok ((h.addReplySds _).ends hlone)

theorem lIndexCommand_simulates : Simulates lIndexCommand Cutis.lIndexCommand := by
  intro O s v h hlone
  refine h.shows.db.bind fun d _ hd => ?_
  obtain ⟨hd, rfl⟩ := hd
  refine (h.shows.arg 1).bind fun key _ hkey => ?_
  subst hkey
  refine (h.shows.arg 2).bind fun arg _ harg => ?_
  subst harg
  simp only [dictFind_database]
  cases hfind : dictFind sdsDictType d key with
  | none => exact .ok (h.addNil.ends hlone)
  | some de =>
      have hval := Keeps.mem_of_roots (T := 0) (h.keeps.mem_of_find hd hfind)
      obtain ⟨str, hptr, hobject⟩ | ⟨l, hptr, hobject⟩ | ⟨m, hptr, hobject⟩ :=
        h.keeps.ptr_cases hval
      · simp only [Option.map_some, DictEntry.map, hptr, hobject]
        exact .ok ((h.addReplySds _).ends hlone)
      · simp only [Option.map_some, DictEntry.map, hptr, hobject, listIndex_map]
        cases hel : (listIndex l (atoi arg)).bind (l[·]?) with
        | none => exact .ok (h.addNil.ends hlone)
        | some el =>
            obtain ⟨i, -, hi⟩ := Option.bind_eq_some_iff.mp hel
            exact .ok ((h.addBulk (mem_of_list hptr (List.mem_of_getElem? hi)) rfl).ends hlone)
      · simp only [Option.map_some, DictEntry.map, hptr, hobject]
        exact .ok ((h.addReplySds _).ends hlone)

-- The loop of LRANGE.
theorem addRange_simulates (j : Nat) {strs : List Bytes} (h : Mirrors O s₀ s T n v)
    (hlone : s.Lone) (hl : ∀ el ∈ l, el ∈ s.held O T) (hstrs : l.map s.heap.bytes = strs) :
    Alike s₀.Ends (addRange j l s) (Cutis.addRange j strs v) := by
  induction j generalizing l strs s v n with
  | zero => exact .ok (h.ends hlone)
  | succ j ih =>
      subst hstrs
      cases l with
      | nil => exact .error _
      | cons el next =>
          have hel := hl el List.mem_cons_self
          obtain ⟨-, hgrows⟩ := h.keeps.addBulk hel
          have hnext (a : ObjectId) (ha : a ∈ next) := hgrows a (hl a (List.mem_cons_of_mem _ ha))
          exact ih (h.addBulk hel rfl) hlone (fun a ha => (hnext a ha).1)
            (List.map_congr_left fun a ha => bytes_congr (hnext a ha).2)

theorem lRangeCommand_simulates : Simulates lRangeCommand Cutis.lRangeCommand := by
  intro O s v h hlone
  refine h.shows.db.bind fun d _ hd => ?_
  obtain ⟨hd, rfl⟩ := hd
  refine (h.shows.arg 1).bind fun key _ hkey => ?_
  subst hkey
  refine (h.shows.arg 2).bind fun start _ hstart => ?_
  subst hstart
  refine (h.shows.arg 3).bind fun endIdx _ hend => ?_
  subst hend
  simp only [dictFind_database]
  cases hfind : dictFind sdsDictType d key with
  | none => exact .ok (h.addNil.ends hlone)
  | some de =>
      have hval := Keeps.mem_of_roots (T := 0) (h.keeps.mem_of_find hd hfind)
      obtain ⟨str, hptr, hobject⟩ | ⟨l, hptr, hobject⟩ | ⟨m, hptr, hobject⟩ :=
        h.keeps.ptr_cases hval
      · simp only [Option.map_some, DictEntry.map, hptr, hobject]
        exact .ok ((h.addReplySds _).ends hlone)
      · simp only [Option.map_some, DictEntry.map, hptr, hobject, List.length_map]
        cases hbounds : rangeBounds (toInt32 l.length) (atoi start) (atoi endIdx) with
        | none => exact .ok (h.addZero.ends hlone)
        | some bounds =>
            obtain ⟨first, last⟩ := bounds
            obtain ⟨-, hgrows⟩ := h.keeps.addReplySds (intLine (last - first + 1))
            have hdrop (el : ObjectId) (hel : el ∈ l.drop first.toNat) :=
              hgrows el (mem_of_list hptr (List.mem_of_mem_drop hel))
            refine addRange_simulates _ (h.addReplySds (intLine (last - first + 1))) hlone
              (fun el hel => (hdrop el hel).1) ?_
            rw [← List.map_drop]
            exact List.map_congr_left fun el hel => bytes_congr (hdrop el hel).2
      · simp only [Option.map_some, DictEntry.map, hptr, hobject]
        exact .ok ((h.addReplySds _).ends hlone)

-- An assignment of what the value of the key is anyway.
theorem mirrors_setDB_self (h : Mirrors O s₀ s T n v) (hlone : s.Lone)
    (hd : s.dict[s.client.dict]? = some d) (hfind : dictFind sdsDictType d key = some de) :
    Mirrors O s₀ s T n (v.setDB (dictSetHashVal sdsDictType (s.heap.database d) key
      (s.heap.object de.val))) :=
  ⟨h.keeps, h.shows.setObject hlone hd (h.keeps.sound d (List.mem_of_getElem? hd)) hfind
    (fun _ _ _ => rfl) (fun _ _ => rfl), h.length⟩

-- One node at an end of the list deleted, and its element given up.
theorem delNode_mirrors {db : Database} {strs : List Bytes} {whereEnd : ListEnd}
    (h : Mirrors O s₀ s 0 n (v.setDB (dictSetHashVal sdsDictType db key (.list strs))))
    (hn : n ≤ 2 ^ 31) (hlone : s.Lone) (hd : s.dict[s.client.dict]? = some d)
    (hfind : dictFind sdsDictType d key = some de) (hl : s.heap.ptr de.val = .list l)
    (hpop : listPop l whereEnd = some (el, l')) :
    Mirrors O s₀ ((s.setPtr de.val (.list l')).decrRefCount el) 0 n
        (v.setDB (dictSetHashVal sdsDictType db key (.list (l'.map s.heap.bytes)))) ∧
      ((s.setPtr de.val (.list l')).decrRefCount el).heap.ptr de.val = .list l' ∧
      l'.map ((s.setPtr de.val (.list l')).decrRefCount el).heap.bytes =
        l'.map s.heap.bytes := by
  have hcoe := coe_listPop hpop
  have hrest (e : ObjectId) (he : e ∈ l') : e ∈ l := by
    rw [← Multiset.mem_coe, hcoe]
    exact Multiset.mem_cons_of_mem he
  have hval := h.keeps.mem_of_find hd hfind
  have h₁ := h.setList (U := el ::ₘ 0) hlone hd hfind hl
    (by rw [hcoe, Multiset.cons_add, Multiset.add_cons]) fun e he => Or.inl (hrest e he)
  rw [h.shows.database_setDB hd, dictSetHashVal_dictSetHashVal, setDB_setDB] at h₁
  obtain ⟨hkeeps₂, hptr⟩ := h₁.keeps.decrRefCount hn
  have hself : ((s.setPtr de.val (.list l')).decrRefCount el).heap.ptr de.val = .list l' :=
    (hptr de.val (Keeps.mem_of_roots hval)).trans
      (ptr_setPtr_self (h.keeps.inv.created _ (Keeps.mem_of_roots (T := 0) hval)) _)
  refine ⟨h₁.decrRefCount hn, hself, List.map_congr_left fun e he => ?_⟩
  have hne : e ≠ de.val := by
    rintro rfl
    obtain ⟨str, hstr⟩ := h.keeps.inv.strings de.val de.val (by rw [hl]; exact hrest _ he)
    rw [hl] at hstr
    cases hstr
  exact bytes_congr ((hptr e (mem_of_list hself he)).trans (ptr_setPtr_of_ne hne _))

-- The loops of LTRIM.
theorem delNodes_simulates (whereEnd : ListEnd) (j : Nat) {db : Database} {strs : List Bytes}
    (h : Mirrors O s₀ s 0 n (v.setDB (dictSetHashVal sdsDictType db key (.list strs))))
    (hn : n ≤ 2 ^ 31) (hlone : s.Lone) (hd : s.dict[s.client.dict]? = some d)
    (hfind : dictFind sdsDictType d key = some de) (hl : s.heap.ptr de.val = .list l)
    (hstrs : l.map s.heap.bytes = strs) :
    Alike (fun r strs' => Mirrors O s₀ r.2 0 n
          (v.setDB (dictSetHashVal sdsDictType db key (.list strs'))) ∧
        r.2.Lone ∧ r.2.dict[r.2.client.dict]? = some d ∧ r.2.heap.ptr de.val = .list r.1 ∧
        r.1.map r.2.heap.bytes = strs')
      (delNodes de.val whereEnd j l s) (Cutis.delNodes whereEnd j strs) := by
  induction j generalizing l strs s with
  | zero => exact .ok ⟨h, hlone, hd, hl, hstrs⟩
  | succ j ih =>
      subst hstrs
      rw [delNodes, Cutis.delNodes, listPop_map]
      cases hpop : listPop l whereEnd with
      | none => exact .error _
      | some popped =>
          obtain ⟨el, l'⟩ := popped
          obtain ⟨h', hself, hstrs⟩ := delNode_mirrors h hn hlone hd hfind hl hpop
          exact ih h' hlone hd hself hstrs

theorem lTrimCommand_simulates : Simulates lTrimCommand Cutis.lTrimCommand := by
  intro O s v h hlone
  refine h.shows.db.bind fun d _ hd => ?_
  obtain ⟨hd, rfl⟩ := hd
  refine (h.shows.arg 1).bind fun key _ hkey => ?_
  subst hkey
  refine (h.shows.arg 2).bind fun start _ hstart => ?_
  subst hstart
  refine (h.shows.arg 3).bind fun endIdx _ hend => ?_
  subst hend
  simp only [dictFind_database]
  cases hfind : dictFind sdsDictType d key with
  | none => exact .ok ((h.addReplySds _).ends hlone)
  | some de =>
      have hval := Keeps.mem_of_roots (T := 0) (h.keeps.mem_of_find hd hfind)
      obtain ⟨str, hptr, hobject⟩ | ⟨l, hptr, hobject⟩ | ⟨m, hptr, hobject⟩ :=
        h.keeps.ptr_cases hval
      · simp only [Option.map_some, DictEntry.map, hptr, hobject]
        exact .ok ((h.addReplySds _).ends hlone)
      · have hstart := mirrors_setDB_self h hlone hd hfind
        rw [hobject] at hstart
        simp only [Option.map_some, DictEntry.map, hptr, hobject, trimNodes, List.length_map,
          bind_assoc]
        refine (delNodes_simulates .CUTIS_HEAD _ hstart (by decide) hlone hd hfind hptr rfl).bind
          fun r₁ strs₁ h₁ => ?_
        obtain ⟨h₁, hlone₁, hd₁, hl₁, hstrs₁⟩ := h₁
        refine (delNodes_simulates .CUTIS_TAIL _ h₁ (by decide) hlone₁ hd₁ hfind hl₁ hstrs₁).bind
          fun r₂ strs₂ h₂ => ?_
        obtain ⟨h₂, hlone₂, -⟩ := h₂
        exact .ok (h₂.addOk.dirtied.ends hlone₂)
      · simp only [Option.map_some, DictEntry.map, hptr, hobject]
        exact .ok ((h.addReplySds _).ends hlone)

-- One element given up and another put in its place.
theorem replaceElement_mirrors {i : Nat} (h : Mirrors O s₀ s 0 n v) (hn : n ≤ 2 ^ 31)
    (hlone : s.Lone) (hd : s.dict[s.client.dict]? = some d)
    (hfind : dictFind sdsDictType d key = some de) (hl : s.heap.ptr de.val = .list l)
    (hi : i < l.length) (str : Bytes) :
    ∃ el heap, (s.decrRefCount (l.getD i 0)).createCutisObject (.string (some str)) =
        (el, { s with heap }) ∧
      Mirrors O s₀ (HeapSession.setPtr { s with heap } de.val (.list (l.set i el))) 0 (n + 1)
        (v.setDB (dictSetHashVal sdsDictType (s.heap.database d) key
          (.list ((l.map s.heap.bytes).set i str)))) := by
  have ho := h.keeps.mem_of_find hd hfind
  have herase := coe_eraseIdx hi
  have hmem : l.getD i 0 ∈ l := by
    rw [← Multiset.mem_coe, herase]
    exact Multiset.mem_cons_self _ _
  have helement (e : ObjectId) (he : e ∈ l) : e ≠ de.val := by
    rintro rfl
    obtain ⟨old, hold⟩ := h.keeps.inv.strings de.val de.val (by rw [hl]; exact he)
    rw [hl] at hold
    cases hold
  obtain ⟨old, hold⟩ := h.keeps.inv.strings de.val (l.getD i 0) (by rw [hl]; exact hmem)
  have h₁ := h.setList (U := l.getD i 0 ::ₘ 0) (m := l.eraseIdx i) hlone hd hfind hl
    (by rw [herase, Multiset.cons_add, Multiset.add_cons])
    (fun e he => Or.inl (List.mem_of_mem_eraseIdx he))
  have hptr := (h₁.keeps.decrRefCount hn).2
  have h₂ := h₁.decrRefCount hn
  have hheld : de.val ∈ ((s.setPtr de.val (.list (l.eraseIdx i))).decrRefCount
      (l.getD i 0)).held O 0 := Keeps.mem_of_roots ho
  have hl₂ : ((s.setPtr de.val (.list (l.eraseIdx i))).decrRefCount
      (l.getD i 0)).heap.ptr de.val = .list (l.eraseIdx i) :=
    (hptr _ hheld).trans (ptr_setPtr_self (h.keeps.inv.created _ (Keeps.mem_of_roots ho)) _)
  obtain ⟨el, heap, heq, h₃, hfresh, -, hself, hother⟩ := h₂.createString (some str)
  have hne (a : ObjectId) (ha : a ∈ ((s.setPtr de.val (.list (l.eraseIdx i))).decrRefCount
      (l.getD i 0)).held O 0) : a ≠ el := ne_of_mem_of_not_mem ha hfresh
  have hset := coe_set hi el
  have h₄ := h₃.setList (U := 0) (m := l.set i el) hlone hd hfind
    ((hother _ (hne _ hheld)).trans hl₂) (by rw [hset, Multiset.cons_add, Multiset.add_cons])
    (fun e he => by
      rw [← Multiset.mem_coe, hset, Multiset.mem_cons] at he
      rcases he with rfl | he
      · exact Or.inr ⟨some str, hself⟩
      · exact Or.inl he)
  have hbytes : (l.set i el).map heap.bytes = (l.map s.heap.bytes).set i str := by
    refine List.ext_getElem (by simp) fun j hj hj' => ?_
    rw [List.getElem_map, List.getElem_set, List.getElem_set]
    split
    · exact bytes_of_ptr hself
    · rename_i hij
      have hjl : j < l.length := by simpa using hj
      have hmem : l[j] ∈ l.eraseIdx i :=
        List.mem_eraseIdx_iff_getElem.mpr ⟨j, hjl, Ne.symm hij, rfl⟩
      have hheld_j := mem_of_list (O := O) (T := 0) hl₂ hmem
      rw [List.getElem_map]
      exact bytes_congr ((hother _ (hne _ hheld_j)).trans ((hptr _ hheld_j).trans
        (ptr_setPtr_of_ne (helement _ (List.getElem_mem _)) _)))
  rw [h₃.shows.database_setDB hd, dictSetHashVal_dictSetHashVal, setDB_setDB, hbytes] at h₄
  obtain ⟨heap', heq', hheap'⟩ := createCutisObject_decrRefCount hold
    (helement _ hmem) (h.keeps.inv.created _ (Keeps.mem_of_roots ho))
    (heap_createCutisObject heq) (hne _ hheld).symm (.list (l.set i el))
  refine ⟨el, heap', ?_, ?_⟩
  · rw [HeapSession.createCutisObject]
    exact congrArg (fun created : ObjectId × Heap => (created.1, { s with heap := created.2 })) heq'
  · unfold HeapSession.setPtr at h₄ ⊢
    rw [hheap']
    exact h₄

theorem lSetCommand_simulates : Simulates lSetCommand Cutis.lSetCommand := by
  intro O s v h hlone
  refine (h.shows.arg 2).bind fun index _ hindex => ?_
  subst hindex
  refine lookup_alike h.shows (.ok ((h.addReplySds _).ends hlone)) fun d key de hd hfind => ?_
  have hval := Keeps.mem_of_roots (T := 0) (h.keeps.mem_of_find hd hfind)
  obtain ⟨str, hptr, hobject⟩ | ⟨l, hptr, hobject⟩ | ⟨m, hptr, hobject⟩ := h.keeps.ptr_cases hval
  · simp only [DictEntry.map, hptr, hobject]
    exact .ok ((h.addReplySds _).ends hlone)
  · simp only [DictEntry.map, hptr, hobject, listIndex_map]
    cases hi : listIndex l (atoi index) with
    | none => exact .ok ((h.addReplySds _).ends hlone)
    | some i =>
        have hlt := listIndex_lt hi
        simp only [Option.bind_some, List.getElem?_eq_getElem hlt, Option.map_some]
        refine (h.shows.arg 3).bind fun str _ hstr => ?_
        subst hstr
        obtain ⟨el, heap, heq, h₁⟩ :=
          replaceElement_mirrors h (by decide) hlone hd hfind hptr hlt str
        rw [heq, listSetIndex_map _ _ hi]
        exact .ok (h₁.addOk.dirtied.ends hlone)
  · simp only [DictEntry.map, hptr, hobject]
    exact .ok ((h.addReplySds _).ends hlone)

end Cutis.Heap

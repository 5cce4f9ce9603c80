import Cutis.Heap.Values.Lists

namespace Cutis

open Lockstep

-- What has been added is found.
theorem Dict.Sound.dictFind_added {K V : Type} [DecidableEq K] {T : DictType K} {ht ht' : Dict K V}
    (hT : T.Lawful) (h : ht.Sound T) {key : K} {val : V}
    (hadd : dictAdd T ht key val = .ok (ht', .DICT_OK)) :
    dictFind T ht' key = some { key, val } := by
  obtain ⟨-, ⟨-, hperm⟩ | ⟨hstatus, -⟩⟩ := dictAdd_shape T h.toShape key val hadd
  · exact (dictFind_eq_some_iff hT (h.dictAdd_returns hT hadd).toInv key _).mpr
      ⟨hperm.mem_iff.mpr List.mem_cons_self, rfl⟩
  · cases hstatus

namespace HeapSession

variable {O T : Multiset ObjectId} {s₀ s s' : HeapSession} {v : Session} {o el : ObjectId} {n : Nat}
  {d : HeapDict} {key : Bytes} {de : DictEntry Bytes ObjectId}

theorem Shows.setDB_self (h : s.Shows v) (hd : s.dict[s.client.dict]? = some d) :
    v.setDB (s.heap.database d) = v := by
  have hget : v.server.dict[v.client.dict]? = some (s.heap.database d) := by
    rw [h.dict, h.selected, List.getElem?_map, hd]
    rfl
  obtain ⟨hlt, hval⟩ := List.getElem?_eq_some_iff.mp hget
  rw [Session.setDB, Session.setDict, ← hval, List.set_getElem_self]

theorem Lone.setPtr (hlone : s.Lone) (o : ObjectId) (p : ObjectPtr) : (s.setPtr o p).Lone := hlone

theorem Seen.mono {a : ObjectId} (ha : s'.Seen a) (hroots : ∀ o ∈ s'.roots, o ∈ s.roots)
    (helements : ∀ o ∈ s'.roots, ∀ e ∈ (s'.heap.ptr o).elements, e ∈ (s.heap.ptr o).elements) :
    s.Seen a := by
  rcases ha with ha | ⟨o, ho, ha⟩
  · exact Or.inl (hroots a ha)
  · exact Or.inr ⟨o, hroots o ho, helements o ho a ha⟩

-- The end of a lookup object: its string goes back to argv before it is given up.
theorem Mirrors.dropLookup {t : Option Bytes} (h : Mirrors O s₀ s (el ::ₘ T) n v)
    (hn : n ≤ 2 ^ 31) (hptr : s.heap.ptr el = .string t)
    (hnot : el ∉ O + (s₀.client.reply : Multiset ObjectId)) (hunseen : ¬s.Seen el) :
    Mirrors O s₀ ((s.setPtr el (.string none)).decrRefCount el) T n v :=
  (h.setOwned (h.keeps.setPtr_string none (Keeps.mem_of_own (Multiset.mem_cons_self _ _))
    hptr hnot).1 hunseen).decrRefCount hn

-- The string of an object that stands once in the queue and nowhere else.
theorem Mirrors.setReply {pre post : List ObjectId} {str : Bytes} (h : Mirrors O s₀ s T n v)
    (hkeeps : Keeps O s₀ (s.setPtr o (.string (some str))) T n)
    (hreply : s.client.reply = pre ++ o :: post) (hpre : o ∉ pre) (hpost : o ∉ post)
    (hshared : o ∉ s.shared.toList) (hvalues : o ∉ s.values)
    (helements : ∀ a ∈ s.values, o ∉ (s.heap.ptr a).elements) :
    Mirrors O s₀ (s.setPtr o (.string (some str))) T n (Cutis.setReply v pre.length str) := by
  have hself : (s.heap.setPtr o (.string (some str))).bytes o = str :=
    Heap.bytes_of_ptr (Heap.ptr_setPtr_self (h.keeps.inv.created o (Keeps.mem_of_reply (T := T)
      (hreply ▸ List.mem_append_right _ List.mem_cons_self))) _)
  have hother (l : List ObjectId) (hl : o ∉ l) :
      l.map (s.heap.setPtr o (.string (some str))).bytes = l.map s.heap.bytes :=
    List.map_congr_left fun a ha =>
      bytes_congr (Heap.ptr_setPtr_of_ne (ne_of_mem_of_not_mem ha hl) _)
  refine ⟨hkeeps, ⟨?_, h.shows.selected, h.shows.inRange, h.shows.argv, ?_, ?_⟩, h.length⟩
  · refine h.shows.dict.trans (List.map_congr_left fun d hd =>
      (Heap.database_congr fun a ha => ?_).symm)
    have hval := mem_values hd ha
    exact Heap.object_congr (Heap.ptr_setPtr_of_ne (ne_of_mem_of_not_mem hval hvalues) _)
      fun e he => Heap.ptr_setPtr_of_ne (ne_of_mem_of_not_mem he (helements a hval)) _
  · change v.client.reply.set pre.length str =
      s.client.reply.map (s.heap.setPtr o (.string (some str))).bytes
    rw [h.shows.reply, hreply, List.map_append, List.map_append, List.map_cons, List.map_cons,
      hother pre hpre, hother post hpost, hself,
      List.set_append_right _ _ (List.length_map _).le, List.length_map, Nat.sub_self,
      List.set_cons_zero]
  · exact (hother _ hshared).trans h.shows.shared

end HeapSession

namespace Heap

open HeapSession

variable {O T : Multiset ObjectId} {s₀ s s' : HeapSession} {v : Session} {o el : ObjectId} {n : Nat}
  {d : HeapDict} {key : Bytes} {de : DictEntry Bytes ObjectId} {m : Dict ObjectId Unit}

-- The set SADD works on, in the database that holds it.
theorem sAddSet_simulates (h : Mirrors O s s 0 0 v) (hlone : s.Lone) :
    Alike (fun r r' => Mirrors O s r.1 0 1 (v.setDB r'.1) ∧ r.1.Lone ∧
        match r.2 with
        | none => r.1 = s ∧ r'.2 = none
        | some o => ∃ d de m, r.1.dict[r.1.client.dict]? = some d ∧
            dictFind sdsDictType d key = some de ∧ de.val = o ∧ r.1.heap.ptr o = .set m ∧
            r'.1 = r.1.heap.database d ∧ r'.2 = some (m.map r.1.heap.bytes id))
      (sAddSet s key) (v.db >>= fun db => Cutis.sAddSet db key) := by
  refine h.shows.db.bind fun d _ hd => ?_
  obtain ⟨hd, rfl⟩ := hd
  rw [Cutis.sAddSet, dictFind_database]
  cases hfind : dictFind sdsDictType d key with
  | none =>
      obtain ⟨o, heap, heq, h₁, hfresh, -, hself, -⟩ := h.createSet
      have hdb : HeapSession.db { s with heap } = .ok d := by
        rw [HeapSession.db, HeapSession.database, hd]
        rfl
      have hobject : heap.object o = createSetObject := object_set hself
      simp only [heq, Option.map_none]
      rw [hdb, ok_bind, ← hobject,
        ← h.shows.database_eq h₁.shows rfl rfl (List.mem_of_getElem? hd)]
      refine (Alike.of_map (heap.dictAdd_database d key o)).bind fun added _ hadded => ?_
      obtain ⟨hadd, rfl⟩ := hadded
      obtain ⟨d', ret⟩ := added
      have hsound := h.keeps.sound d (List.mem_of_getElem? hd)
      obtain rfl : ret = .DICT_OK := (hsound.dictAdd_status sdsDictType_lawful hadd).mpr hfind
      obtain ⟨h₂, -, hvalues⟩ := h₁.dictAdd hd hadd
      rw [← h₁.shows.setDB_eq] at h₂
      exact .ok ⟨h₂, .of_le (hlone.fresh hfresh) hvalues.le, d', _, dictCreate,
        List.getElem?_set_self h₁.shows.inRange, hsound.dictFind_added sdsDictType_lawful hadd, rfl,
        hself, rfl, rfl⟩
  | some de =>
      have hval := Keeps.mem_of_roots (T := 0) (h.keeps.mem_of_find hd hfind)
      have hslack : Mirrors O s s 0 1 (v.setDB (s.heap.database d)) := by
        rw [h.shows.setDB_self hd]
        exact ⟨{ h.keeps with bound := fun a => (h.keeps.bound a).trans (Nat.lt_succ_self _) },
          h.shows, h.length⟩
      obtain ⟨str, hptr, hobject⟩ | ⟨l, hptr, hobject⟩ | ⟨m, hptr, hobject⟩ :=
        h.keeps.ptr_cases hval
      · simp only [Option.map_some, DictEntry.map, hptr, hobject]
        exact .ok ⟨hslack, hlone, rfl, rfl⟩
      · simp only [Option.map_some, DictEntry.map, hptr, hobject]
        exact .ok ⟨hslack, hlone, rfl, rfl⟩
      · simp only [Option.map_some, DictEntry.map, hptr, hobject]
        exact .ok ⟨hslack, hlone, d, de, m, hd, hfind, rfl, hptr, rfl, rfl⟩

theorem map_eq_of_held {heap : Heap} (hm : s.heap.ptr o = .set m)
    (hother : ∀ a ∈ s.held O T, heap.ptr a = s.heap.ptr a) :
    m.map heap.bytes id = m.map s.heap.bytes id :=
  Dict.map_congr fun _ hhe => ⟨bytes_congr (hother _ (mem_of_set hm
    (Multiset.mem_coe.mpr (List.mem_map_of_mem hhe)))), rfl⟩

-- A new string, and the set that it is looked up in.
theorem createElement (h : Mirrors O s₀ s T n v) (ho : o ∈ s.held O T) (hm : s.heap.ptr o = .set m)
    (str : Bytes) :
    ∃ el heap, s.createCutisObject (.string (some str)) = (el, { s with heap }) ∧
      Mirrors O s₀ { s with heap } (el ::ₘ T) (n + 1) v ∧ el ∉ s.held O T ∧
      ¬Seen { s with heap } el ∧ heap.ptr el = .string (some str) ∧ heap.ptr o = .set m ∧
      heap.bytes el = str ∧ m.map heap.bytes id = m.map s.heap.bytes id := by
  obtain ⟨el, heap, heq, h₁, hfresh, hunseen, hself, hother⟩ := h.createString (some str)
  have hheld (a : ObjectId) (ha : a ∈ s.held O T) : heap.ptr a = s.heap.ptr a :=
    hother a (ne_of_mem_of_not_mem ha hfresh)
  exact ⟨el, heap, heq, h₁, hfresh, hunseen, hself, (hheld o ho).trans hm, bytes_of_ptr hself,
    map_eq_of_held hm hheld⟩

-- DictAdd on a set drops the new object where the set has an equal member.
theorem sAddElement_simulates (h : Mirrors O s₀ s 0 n v) (hn : n + 1 ≤ 2 ^ 31) (hlone : s.Lone)
    (hd : s.dict[s.client.dict]? = some d) (hfind : dictFind sdsDictType d key = some de)
    (hm : s.heap.ptr de.val = .set m) (str : Bytes) :
    Alike (fun s' r => s'.Lone ∧ Mirrors O s₀ s' 0 (n + 1)
        (v.setDB (dictSetHashVal sdsDictType (s.heap.database d) key (.set r.1))))
      (sAddElement s de.val str) (dictAdd Cutis.SetDictType (m.map s.heap.bytes id) str ()) := by
  have hval := Keeps.mem_of_roots (T := 0) (h.keeps.mem_of_find hd hfind)
  obtain ⟨el, heap, heq, h₁, -, -, hself, hm₁, hstr, hmap⟩ := createElement h hval hm str
  unfold sAddElement
  simp only [heq, hm₁]
  have hadd := (setDictType_maps heap).dictAdd id m el ()
  rw [hstr, hmap] at hadd
  rw [← bind_pure (dictAdd Cutis.SetDictType (m.map s.heap.bytes id) str ())]
  refine (Alike.of_map hadd).bind fun added _ hadded => ?_
  obtain ⟨hadd, rfl⟩ := hadded
  obtain ⟨m', status⟩ := added
  obtain ⟨hshape, hvals⟩ := dictAdd_vals (h₁.keeps.inv.shape _ m hm₁) hadd
  rw [← h.shows.database_eq h₁.shows rfl rfl (List.mem_of_getElem? hd)]
  cases status with
  | DICT_OK =>
      refine .ok ⟨hlone, h₁.setSet hlone hd hfind hm₁ hshape ?_ (addMember_strings hself hvals.2)⟩
      rw [hvals.2, Multiset.add_cons, Multiset.cons_add]
  | DICT_ERR =>
      refine .ok ⟨hlone, (h₁.setSet (U := el ::ₘ 0) hlone hd hfind hm₁ hshape ?_
        fun e he => ?_).decrRefCount hn⟩
      · rw [hvals.2]
      · exact Or.inl (hvals.2 ▸ he)

theorem sAddCommand_simulates : Simulates sAddCommand Cutis.sAddCommand := by
  intro O s v h hlone
  refine (h.shows.arg 1).bind fun key _ hkey => ?_
  subst hkey
  rw [← bind_assoc]
  refine (sAddSet_simulates h hlone).bind fun r r' hset => ?_
  obtain ⟨s₁, o⟩ := r
  obtain ⟨db, set⟩ := r'
  obtain ⟨h₁, hlone₁, hset⟩ := hset
  cases o with
  | none =>
      obtain ⟨rfl, rfl⟩ := hset
      exact .ok ((h.addReplySds _).ends hlone)
  | some o =>
      obtain ⟨d, de, m, hd, hfind, rfl, hm, rfl, rfl⟩ := hset
      refine (h₁.shows.arg 2).bind fun str _ hstr => ?_
      subst hstr
      refine (sAddElement_simulates h₁ (by decide) hlone₁ hd hfind hm str).bind
        fun s₂ r hadd => ?_
      obtain ⟨hlone₂, h₂⟩ := hadd
      rw [setDB_setDB] at h₂
      exact .ok ((h₂.dirtied_if _).addOk.ends hlone₂)

theorem sRemCommand_simulates : Simulates sRemCommand Cutis.sRemCommand := by
  intro O s v h hlone
  refine lookup_alike h.shows (.ok ((h.addReplySds _).ends hlone)) fun d key de hd hfind => ?_
  have hval := Keeps.mem_of_roots (T := 0) (h.keeps.mem_of_find hd hfind)
  obtain ⟨str, hptr, hobject⟩ | ⟨l, hptr, hobject⟩ | ⟨m, hptr, hobject⟩ := h.keeps.ptr_cases hval
  · simp only [DictEntry.map, hptr, hobject]
    exact .ok ((h.addReplySds _).ends hlone)
  · simp only [DictEntry.map, hptr, hobject]
    exact .ok ((h.addReplySds _).ends hlone)
  · simp only [DictEntry.map, hptr, hobject]
    refine (h.shows.arg 2).bind fun str _ hstr => ?_
    subst hstr
    obtain ⟨el, heap, heq, h₁, hfresh, hunseen, hself, hm₁, hstr, hsame⟩ :=
      createElement h hval hptr str
    have hnot := h.keeps.notMem_of_fresh hfresh
    have hvalel : de.val ≠ el := ne_of_mem_of_not_mem hval hfresh
    have hmap : dictDelete Cutis.SetDictType (m.map s.heap.bytes id) str =
        ((dictDelete heap.SetDictType m el).1.map heap.bytes id,
          (dictDelete heap.SetDictType m el).2.map (DictEntry.map heap.bytes id)) := by
      have hmap := (setDictType_maps heap).dictGenericDelete id m el
      rwa [hstr, hsame] at hmap
    -- The set loses a member at most, so nothing has come to hold the lookup object.
    have hset {m' : Dict ObjectId Unit} {s₂ : HeapSession} (hle : m'.keyList ≤ m.keyList)
        (hroots : s₂.roots = s.roots)
        (hptr₂ : ∀ a ∈ s.roots, s₂.heap.ptr a = (heap.setPtr de.val (.set m')).ptr a) :
        ¬s₂.Seen el := by
      refine fun hseen => hunseen (hseen.mono (fun a ha => hroots ▸ ha) fun a ha e he => ?_)
      rw [hptr₂ a (hroots ▸ ha)] at he
      by_cases haval : a = de.val
      · rw [haval, ptr_setPtr_self (h₁.keeps.inv.created _ (Keeps.mem_of_roots
          (h.keeps.mem_of_find hd hfind)))] at he
        rw [haval]
        change e ∈ (heap.ptr de.val).elements
        rw [hm₁]
        exact Multiset.mem_of_le hle he
      · rwa [ptr_setPtr_of_ne haval] at he
    simp only [heq, hmap]
    cases hdel : dictDelete heap.SetDictType m el with
    | mk m' member =>
        obtain ⟨hshape, -, hmember⟩ :=
          dictGenericDelete_vals (h₁.keeps.inv.shape _ m hm₁) el hdel
        rw [← h.shows.database_eq h₁.shows rfl rfl (List.mem_of_getElem? hd)]
        cases member with
        | none =>
            have hm' : m' = m := hmember
            rw [hm'] at hshape ⊢
            have h₂ := h₁.setSet (U := el ::ₘ 0) hlone hd hfind hm₁ hshape rfl
              fun e he => Or.inl he
            have h₃ := h₂.dropLookup (by decide) ((ptr_setPtr_of_ne hvalel.symm _).trans hself)
              hnot (hset le_rfl rfl fun _ _ => rfl)
            exact .ok (h₃.addOk.ends hlone)
        | some member =>
            have h₂ := h₁.setSet (U := member.key ::ₘ el ::ₘ 0) hlone hd hfind hm₁ hshape
              (by rw [hmember.2, Multiset.cons_add, Multiset.add_cons])
              fun e he => Or.inl (hmember.2 ▸ Multiset.mem_cons_of_mem he)
            have hptr₂ := (h₂.keeps.decrRefCount (by decide)).2
            have h₃ := (h₂.decrRefCount (by decide)).dropLookup (by decide)
              ((hptr₂ el (Keeps.mem_of_own (Multiset.mem_cons_self _ _))).trans
                ((ptr_setPtr_of_ne hvalel.symm _).trans hself)) hnot
              (hset (hmember.2 ▸ Multiset.le_cons_self _ _) rfl fun a ha =>
                hptr₂ a (Keeps.mem_of_roots (Multiset.mem_add.mpr (Or.inr ha))))
            exact .ok (h₃.dirtied.addOk.ends hlone)

theorem sIsMemberCommand_simulates : Simulates sIsMemberCommand Cutis.sIsMemberCommand := by
  intro O s v h hlone
  refine lookup_alike h.shows (.ok ((h.addReplySds _).ends hlone)) fun d key de hd hfind => ?_
  have hval := Keeps.mem_of_roots (T := 0) (h.keeps.mem_of_find hd hfind)
  obtain ⟨str, hptr, hobject⟩ | ⟨l, hptr, hobject⟩ | ⟨m, hptr, hobject⟩ := h.keeps.ptr_cases hval
  · simp only [DictEntry.map, hptr, hobject]
    exact .ok ((h.addReplySds _).ends hlone)
  · simp only [DictEntry.map, hptr, hobject]
    exact .ok ((h.addReplySds _).ends hlone)
  · simp only [DictEntry.map, hptr, hobject]
    refine (h.shows.arg 2).bind fun str _ hstr => ?_
    subst hstr
    obtain ⟨el, heap, heq, h₁, hfresh, hunseen, hself, -, hstr, hsame⟩ :=
      createElement h hval hptr str
    have hnot := h.keeps.notMem_of_fresh hfresh
    have hfindm := (setDictType_maps heap).dictFind id m el
    rw [hstr, hsame] at hfindm
    have hreply {o : ObjectId} {str' : Bytes} (ho : o ∈ s.shared.toList)
        (h₂ : Mirrors O s (HeapSession.addReply { s with heap } o) (el ::ₘ 0) 2
          (v.addReply str')) :
        Mirrors O s (((HeapSession.addReply { s with heap } o).setPtr el
          (.string none)).decrRefCount el) 0 2 (v.addReply str') := by
      have hptr₂ (a : ObjectId) :
          (HeapSession.addReply { s with heap } o).heap.ptr a = heap.ptr a :=
        (Heap.Inv.incrRefCount h₁.keeps.inv (Keeps.mem_shared ho)).2.2 a
      refine h₂.dropLookup (by decide) ((hptr₂ el).trans hself) hnot fun hseen => hunseen
        (hseen.mono (fun a ha => ?_) fun a _ e he => by rwa [hptr₂] at he)
      rcases Multiset.mem_add.mp ha with ha | ha
      · exact Multiset.mem_add.mpr (Or.inl ha)
      · rcases List.mem_append.mp (Multiset.mem_coe.mp ha) with ha | ha
        · exact mem_roots_of_reply ha
        · rw [List.mem_singleton.mp ha]
          exact mem_roots_of_shared ho
    simp only [heq]
    rw [hfindm]
    cases dictFind heap.SetDictType m el with
    | none => exact .ok ((hreply (by simp) h₁.addZero).ends hlone)
    | some _ => exact .ok ((hreply (by simp) h₁.addOne).ends hlone)

theorem sCardCommand_simulates : Simulates sCardCommand Cutis.sCardCommand := by
  intro O s v h hlone
  refine lookup_alike h.shows (.ok (h.addZero.ends hlone)) fun d key de hd hfind => ?_
  have hval := Keeps.mem_of_roots (T := 0) (h.keeps.mem_of_find hd hfind)
  obtain ⟨str, hptr, hobject⟩ | ⟨l, hptr, hobject⟩ | ⟨m, hptr, hobject⟩ := h.keeps.ptr_cases hval
  · simp only [DictEntry.map, hptr, hobject]
    exact .ok ((h.addReplySds _).ends hlone)
  · simp only [DictEntry.map, hptr, hobject]
    exact .ok ((h.addReplySds _).ends hlone)
  · simp only [DictEntry.map, hptr, hobject, Dict.map_used]
    exact .ok ((h.addReplySds _).ends hlone)

theorem sInterSets_map (s : HeapSession) (d : HeapDict) (keys : List Bytes) :
    Cutis.sInterSets (s.heap.database d) keys =
      (sInterSets s d keys).map (Option.map (List.map (Dict.map s.heap.bytes id))) := by
  induction keys with
  | nil => rfl
  | cons key keys ih =>
      rw [Cutis.sInterSets, sInterSets, dictFind_database]
      cases hfind : dictFind sdsDictType d key with
      | none => rfl
      | some de =>
          simp only [Option.map_some, DictEntry.map]
          cases hptr : s.heap.ptr de.val with
          | set m =>
              simp only [object_set hptr, ih]
              cases sInterSets s d keys with
              | error fault => rfl
              | ok dv => cases dv <;> rfl
          | string str =>
              simp only [object_string hptr]
              rfl
          | list l =>
              simp only [object_list hptr]
              rfl
          | released =>
              simp only [object, hptr]
              rfl

theorem addBulk_reply (h : Keeps O s₀ s T n) (o : ObjectId) :
    ∃ el, (s.addBulk o).client.reply = s.client.reply ++ [el, o, s.shared.crlf] ∧
      el ∉ s.held O T := by
  obtain ⟨el, heap, heq, hfresh, -⟩ := h.addNew (some (intLine (s.heap.bytes o).length))
  refine ⟨el, ?_, hfresh⟩
  have hreply : (s.addReplySds (intLine (s.heap.bytes o).length)).client.reply =
      s.client.reply ++ [el] := by
    rw [HeapSession.addReplySds, heq]
    rfl
  change ((s.addReplySds (intLine (s.heap.bytes o).length)).client.reply ++ [o]) ++
    [s.shared.crlf] = _
  rw [hreply, List.append_assoc, List.append_assoc]
  rfl

-- The loop of SINTER. An object that came after the sets were read, such as lenobj,
-- does not get into the queue once more.
theorem sInterLoop_mirrors {s₁ : HeapSession} {dv : List (Dict ObjectId Unit)}
    {entries : List (DictEntry ObjectId Unit)} (hdv : ∀ m ∈ dv, ∃ o, s₁.heap.ptr o = .set m)
    (hl : ∀ de ∈ entries, de.key ∈ s₁.held O T) (h : Mirrors O s₀ s T n v)
    (hgrows : Grows O T s₁ s) (hshared : s.shared = s₁.shared) (cardinality : Nat) :
    (∃ n, Mirrors O s₀ (sInterLoop dv entries s cardinality).1 T n
      (Cutis.sInterLoop (dv.map (Dict.map s₁.heap.bytes id))
        (entries.map (DictEntry.map s₁.heap.bytes id)) v cardinality).1) ∧
    Grows O T s (sInterLoop dv entries s cardinality).1 ∧
    (sInterLoop dv entries s cardinality).2 =
      (Cutis.sInterLoop (dv.map (Dict.map s₁.heap.bytes id))
        (entries.map (DictEntry.map s₁.heap.bytes id)) v cardinality).2 ∧
    (sInterLoop dv entries s cardinality).1.dict = s.dict ∧
    (sInterLoop dv entries s cardinality).1.shared = s.shared ∧
    ∃ post, (sInterLoop dv entries s cardinality).1.client.reply = s.client.reply ++ post ∧
      ∀ a ∈ s.held O T, a ∉ s₁.held O T → a ∉ post := by
  induction entries generalizing s n v cardinality with
  | nil =>
      exact ⟨⟨n, h⟩, fun _ ha => ⟨ha, rfl⟩, rfl, rfl, rfl, [], (List.append_nil _).symm,
        fun _ _ _ => List.not_mem_nil⟩
  | cons de rest ih =>
      have hrest (a : DictEntry ObjectId Unit) (ha : a ∈ rest) : a.key ∈ s₁.held O T :=
        hl a (List.mem_cons_of_mem _ ha)
      have hkey := hl de List.mem_cons_self
      have hbytes : s₁.heap.bytes de.key = s.heap.bytes de.key :=
        (bytes_congr (hgrows _ hkey).2).symm
      have hall : ((dv.map (Dict.map s₁.heap.bytes id)).all fun m =>
          (dictFind Cutis.SetDictType m (s₁.heap.bytes de.key)).isSome) =
            dv.all fun m => (dictFind s.heap.SetDictType m de.key).isSome := by
        rw [List.all_map, Bool.eq_iff_iff, List.all_eq_true, List.all_eq_true]
        refine forall₂_congr fun m hm => ?_
        obtain ⟨o, ho⟩ := hdv m hm
        rw [Function.comp_apply, ← map_eq_of_held ho fun a ha => (hgrows a ha).2, hbytes,
          (setDictType_maps s.heap).dictFind id m de.key, Option.isSome_map]
      simp only [List.map_cons, sInterLoop, Cutis.sInterLoop, DictEntry.map, hall]
      split
      · obtain ⟨-, hgrows'⟩ := h.keeps.addBulk (hgrows _ hkey).1
        obtain ⟨el, hreply, hfresh⟩ := addBulk_reply h.keeps de.key
        obtain ⟨h₂, hgrows₂, hcount, hdict, hshared₂, post, hpost, hnot⟩ :=
          ih hrest (h.addBulk (hgrows _ hkey).1 hbytes.symm) (hgrows.trans hgrows') hshared
            (cardinality + 1)
        refine ⟨h₂, hgrows'.trans hgrows₂, hcount, hdict, hshared₂,
          [el, de.key, s.shared.crlf] ++ post, ?_, fun a ha ha₁ => ?_⟩
        · rw [hpost, hreply, List.append_assoc]
        · have hcrlf : s.shared.crlf ∈ s₁.held O T := by
            rw [hshared]
            exact Keeps.mem_shared (by simp)
          simp only [List.cons_append, List.nil_append, List.mem_cons, not_or]
          exact ⟨ne_of_mem_of_not_mem ha hfresh, (ne_of_mem_of_not_mem hkey ha₁).symm,
            (ne_of_mem_of_not_mem hcrlf ha₁).symm, hnot a (hgrows' a ha).1 ha₁⟩
      · exact ih hrest h hgrows hshared cardinality

-- The string of lenobj, which was made after all else that is in sight.
theorem lenobj_mirrors {r : HeapSession} {v' : Session} {lenobj : ObjectId} {post : List ObjectId}
    (h : Mirrors O s s 0 0 v) (h' : Mirrors O s r 0 n v') (hfresh : lenobj ∉ s.held O 0)
    (hptr : r.heap.ptr lenobj = .string none) (hgrows : Grows O 0 s r) (hdict : r.dict = s.dict)
    (hshared : r.shared = s.shared) (hreply : r.client.reply = s.client.reply ++ lenobj :: post)
    (hpost : lenobj ∉ post) (str : Bytes) :
    Mirrors O s (r.setPtr lenobj (.string (some str))) 0 n
      (Cutis.setReply v' v.client.reply.length str) := by
  have hheld : lenobj ∈ r.held O 0 :=
    Keeps.mem_of_reply (hreply ▸ List.mem_append_right _ List.mem_cons_self)
  have hroot (a : ObjectId) (ha : a ∈ s.roots) : a ∈ s.held O 0 :=
    Keeps.mem_of_roots (Multiset.mem_add.mpr (Or.inr ha))
  have hvalue (a : ObjectId) (ha : a ∈ r.values) : a ∈ s.held O 0 :=
    hroot a (mem_roots_of_value (by rwa [values, hdict] at ha))
  rw [h.shows.reply, List.length_map]
  refine h'.setReply (h'.keeps.setPtr_string _ hheld hptr (h.keeps.notMem_of_fresh hfresh)).1 hreply
    (fun hl => hfresh (hroot _ (mem_roots_of_reply hl))) hpost
    (fun hl => hfresh (hroot _ (mem_roots_of_shared (hshared ▸ hl))))
    (fun hl => hfresh (hvalue _ hl)) fun a ha hl => ?_
  rw [(hgrows a (hvalue a ha)).2] at hl
  exact hfresh (Keeps.mem_of_inner (mem_inner_of_ptr hl))

theorem sInterElements_eq (v : Session) (smallest : Dict Bytes Unit)
    (others : List (Dict Bytes Unit)) :
    Cutis.sInterElements v smallest others =
      Cutis.setReply (Cutis.sInterLoop others (dictIterate smallest) (v.addReply []) 0).1
        v.client.reply.length
        (intLine (Cutis.sInterLoop others (dictIterate smallest) (v.addReply []) 0).2) := by
  rw [Cutis.sInterElements]

-- The reply, given what a loop in the place of its own comes to.
theorem sInterReply_alike {R : HeapSession → Session → Prop}
    (loop : List (Dict ObjectId Unit) → List (DictEntry ObjectId Unit) → HeapSession → Nat →
      HeapSession × Nat)
    (smallest : Dict ObjectId Unit) (others : List (Dict ObjectId Unit))
    (created : ObjectId × HeapSession) {r : HeapSession × Nat} {v : Session}
    (hloop : loop others (dictIterate smallest)
      ((created.2.addReply created.1).decrRefCount created.1) 0 = r)
    (h : R (r.1.setPtr created.1 (.string (some (intLine r.2)))) v) :
    Alike R
      (let s := (created.2.addReply created.1).decrRefCount created.1
        let replied := loop others (dictIterate smallest) s 0
        (.ok (replied.1.setPtr created.1 (.string (some (intLine replied.2)))) :
          Except Fault HeapSession))
      (.ok v) := by
  subst hloop
  exact .ok h

theorem sInterReply_simulates {a : Answers} {os : Os} {dv : List (Dict ObjectId Unit)}
    (hqsort : (a.qsort dv).map (Dict.map s.heap.bytes id) =
      os.qsort (dv.map (Dict.map s.heap.bytes id)))
    (h : Mirrors O s s 0 0 v) (hlone : s.Lone) (hdv : ∀ m ∈ dv, ∃ o, s.heap.ptr o = .set m) :
    Alike s.Ends (sInterReply a s dv)
      (Cutis.sInterReply os v (dv.map (Dict.map s.heap.bytes id))) := by
  rw [Cutis.sInterReply, ← hqsort]
  have hmem (m : Dict ObjectId Unit) (hm : m ∈ a.qsort dv) : ∃ o, s.heap.ptr o = .set m :=
    hdv m ((a.qsort_perm dv).mem_iff.mp hm)
  cases hsorted : a.qsort dv with
  | nil =>
      rw [sInterReply, hsorted]
      exact .error _
  | cons smallest others =>
      rw [hsorted] at hmem
      obtain ⟨lenobj, heap, heq, hfresh, h₁, hself, hgrows⟩ := h.addNew none
      obtain ⟨o, ho⟩ := hmem smallest List.mem_cons_self
      have h₁ : Mirrors O s ((HeapSession.addReply { s with heap } lenobj).decrRefCount lenobj) 0 2
          (v.addReply []) := h₁
      rw [sInterReply_eq a hsorted heq]
      change Alike _ _ (.ok (Cutis.sInterElements v (smallest.map s.heap.bytes id)
        (others.map (Dict.map s.heap.bytes id))))
      rw [sInterElements_eq, dictIterate_map]
      have hkeys (de : DictEntry ObjectId Unit) (hde : de ∈ dictIterate smallest) :
          de.key ∈ s.held O 0 :=
        mem_of_set ho (Multiset.mem_coe.mpr (List.mem_map_of_mem (dictIterate_mem hde)))
      have hloop := sInterLoop_mirrors (fun m hm => hmem m (List.mem_cons_of_mem _ hm)) hkeys h₁
        hgrows rfl 0
      have hlen := Keeps.mem_of_reply (O := O) (T := 0)
        (s := (HeapSession.addReply { s with heap } lenobj).decrRefCount lenobj)
        (List.mem_append_right s.client.reply List.mem_cons_self)
      generalize hr : sInterLoop others (dictIterate smallest)
        ((HeapSession.addReply { s with heap } lenobj).decrRefCount lenobj) 0 = r at hloop
      obtain ⟨⟨n, h₂⟩, hgrows₂, hcount, hdict, hshared, post, hreply, hpost⟩ := hloop
      have h₃ := lenobj_mirrors h h₂ hfresh ((hgrows₂ lenobj hlen).2.trans hself)
        (hgrows.trans hgrows₂) hdict hshared (hreply.trans (List.append_assoc _ _ _))
        (hpost lenobj hlen hfresh) (intLine r.2)
      have hlone' : r.1.Lone := by
        rw [Lone, values, hdict]
        exact hlone
      rw [← hcount]
      exact sInterReply_alike sInterLoop smallest others (lenobj, { s with heap }) hr
        (h₃.ends (hlone'.setPtr _ _))

theorem sInterCommand_alike {a : Answers} {os : Os} (h : Mirrors O s s 0 0 v) (hlone : s.Lone)
    (hqsort : ∀ d dv, s.db = .ok d → sInterSets s d s.argv.tail = .ok (some dv) →
      (a.qsort dv).map (Dict.map s.heap.bytes id) = os.qsort (dv.map (Dict.map s.heap.bytes id))) :
    Alike s.Ends (sInterCommand a s) (Cutis.sInterCommand os v) := by
  obtain ⟨d, hd, hdb, hdbv⟩ := h.shows.db_eq
  rw [sInterCommand, Cutis.sInterCommand, hdb, hdbv, ok_bind, ok_bind, h.shows.argv, sInterSets_map]
  refine (Alike.of_map rfl).bind fun dv _ hdv => ?_
  obtain ⟨hdv, rfl⟩ := hdv
  cases dv with
  | none => exact .ok ((h.addReplySds _).ends hlone)
  | some dv => exact sInterReply_simulates (hqsort d dv hdb hdv) h hlone (sInterSets_held hdv)

end Heap

end Cutis

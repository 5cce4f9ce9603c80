import Cutis.Heap.Events
import Cutis.Heap.Values.Sets

namespace Cutis

open Lockstep

namespace Heap

open HeapSession

-- What LoadDB builds is held by nothing else until it is complete.
section Load

variable {O T : Multiset ObjectId} {s₀ s s' : HeapSession} {v : Session} {o : ObjectId} {n : Nat}

theorem loadElements_dict {vals : List Bytes} (hcall : loadElements o vals s = .ok s') :
    s'.dict = s.dict ∧ s'.client = s.client := by
  induction vals generalizing s with
  | nil =>
      cases hcall
      exact ⟨rfl, rfl⟩
  | cons val rest ih =>
      simp only [loadElements] at hcall
      split at hcall
      · have hrest := ih hcall
        exact hrest
      · obtain ⟨⟨d', status⟩, -, hcall⟩ := bind_eq_ok.mp hcall
        cases status with
        | DICT_ERR => cases hcall
        | DICT_OK =>
            have hrest := ih hcall
            exact hrest
      · cases hcall

theorem loadObject_dict {val : DumpValue} (hcall : loadObject s val = .ok (o, s')) :
    s'.dict = s.dict ∧ s'.client = s.client := by
  cases val with
  | string val =>
      cases hcall
      exact ⟨rfl, rfl⟩
  | list l =>
      obtain ⟨s₁, hload, hcall⟩ := bind_eq_ok.mp hcall
      cases hcall
      have hloaded := loadElements_dict hload
      exact hloaded
  | set members =>
      obtain ⟨s₁, hload, hcall⟩ := bind_eq_ok.mp hcall
      cases hcall
      have hloaded := loadElements_dict hload
      exact hloaded

-- The entry goes to a database that exists.
theorem loadEntry_inRange {key : Bytes} {val : DumpValue} (hcall : loadEntry s key val = .ok s') :
    s.client.dict < s.dict.length := by
  obtain ⟨⟨o, s₁⟩, hload, hcall⟩ := bind_eq_ok.mp hcall
  obtain ⟨hdict, hclient⟩ := loadObject_dict hload
  obtain ⟨d, hd, -⟩ := bind_eq_ok.mp hcall
  have hd := database_eq_ok hd
  rw [hdict, hclient] at hd
  exact (List.getElem?_eq_some_iff.mp hd).1

-- Nothing new is seen while what the roots refer to stays as it was.
theorem not_seen_of_ptr {heap : Heap} (hunseen : ¬s.Seen o)
    (hptr : ∀ a ∈ s.roots, heap.ptr a = s.heap.ptr a) : ¬Seen { s with heap } o := by
  refine fun hseen => hunseen (hseen.mono (fun _ ha => ha) fun a ha e he => ?_)
  rwa [show ({ s with heap } : HeapSession).heap.ptr a = s.heap.ptr a from hptr a ha] at he

theorem loadElements_mirrors {vals : List Bytes} (h : Mirrors O s₀ s (o ::ₘ T) n v)
    (hunseen : ¬s.Seen o) (hcall : loadElements o vals s = .ok s') :
    ∃ n, Mirrors O s₀ s' (o ::ₘ T) n v := by
  induction vals generalizing s n with
  | nil =>
      cases hcall
      exact ⟨n, h⟩
  | cons val rest ih =>
      obtain ⟨el, heap, heq, h₁, hfresh, -, hself, hother⟩ := h.createString (some val)
      have hheld : o ∈ HeapSession.held { s with heap } O (el ::ₘ o ::ₘ T) :=
        Keeps.mem_of_own (Multiset.mem_cons_of_mem (Multiset.mem_cons_self _ _))
      have hroot (a : ObjectId) (ha : a ∈ s.roots) : a ≠ el ∧ a ≠ o :=
        ⟨ne_of_mem_of_not_mem (Seen.held (T := o ::ₘ T) (Or.inl ha)) hfresh,
          fun hao => hunseen (Or.inl (hao ▸ ha))⟩
      have hunseen₁ : ¬Seen { s with heap } o :=
        not_seen_of_ptr hunseen fun a ha => hother a (hroot a ha).1
      have hset (p : ObjectPtr) : ¬Seen (HeapSession.setPtr { s with heap } o p) o :=
        not_seen_of_ptr hunseen₁ fun a ha => ptr_setPtr_of_ne (hroot a ha).2 p
      simp only [loadElements, heq] at hcall
      split at hcall
      · rename_i l hl
        have h₂ := h₁.setOwned (addNode_keeps h₁.keeps hheld hl hself .CUTIS_TAIL) hunseen₁
        have hrest := ih h₂ (hset _) hcall
        exact hrest
      · rename_i d hd
        obtain ⟨⟨d', status⟩, hadd, hcall⟩ := bind_eq_ok.mp hcall
        have h₂ := addMember_keeps h₁.keeps hheld hd hself hadd
        cases status with
        | DICT_ERR => cases hcall
        | DICT_OK =>
            have hrest := ih (h₁.setOwned h₂ hunseen₁) (hset _) hcall
            exact hrest
      · cases hcall

theorem loadObject_mirrors {val : DumpValue} (h : Mirrors O s₀ s T n v)
    (hcall : loadObject s val = .ok (o, s')) :
    (∃ n, Mirrors O s₀ s' (o ::ₘ T) n v) ∧ o ∉ s.held O T := by
  cases val with
  | string val =>
      obtain ⟨o₁, heap, heq, h₁, hfresh, -⟩ := h.createString (some val)
      rw [loadObject, heq] at hcall
      cases hcall
      exact ⟨⟨_, h₁⟩, hfresh⟩
  | list l =>
      obtain ⟨o₁, heap, heq, h₁, hfresh, hunseen, -⟩ := h.createList
      simp only [loadObject, heq] at hcall
      obtain ⟨s₁, hload, hcall⟩ := bind_eq_ok.mp hcall
      cases hcall
      exact ⟨loadElements_mirrors h₁ hunseen hload, hfresh⟩
  | set members =>
      obtain ⟨o₁, heap, heq, h₁, hfresh, hunseen, -⟩ := h.createSet
      simp only [loadObject, heq] at hcall
      obtain ⟨s₁, hload, hcall⟩ := bind_eq_ok.mp hcall
      cases hcall
      exact ⟨loadElements_mirrors h₁ hunseen hload, hfresh⟩

-- The elements go to the end of a list.
theorem loadElements_list {vals : List Bytes} {l : List ObjectId} (h : Keeps O s₀ s (o ::ₘ T) n)
    (hl : s.heap.ptr o = .list l) (hcall : loadElements o vals s = .ok s') :
    s'.heap.object o = .list (l.map s.heap.bytes ++ vals) := by
  induction vals generalizing s n l with
  | nil =>
      cases hcall
      rw [object_list hl, List.append_nil]
  | cons val rest ih =>
      obtain ⟨el, heap, heq, h₁, hfresh, -, hself, hother⟩ :=
        h.create (p := .string (some val)) rfl (by simp) (by simp)
      have ho : o ∈ s.held O (o ::ₘ T) := Keeps.mem_of_own (Multiset.mem_cons_self _ _)
      have hheld : o ∈ HeapSession.held { s with heap } O (el ::ₘ o ::ₘ T) :=
        Keeps.mem_of_own (Multiset.mem_cons_of_mem (Multiset.mem_cons_self _ _))
      have hl₁ : heap.ptr o = .list l := (hother o (ne_of_mem_of_not_mem ho hfresh)).trans hl
      have hmap : (l ++ [el]).map (heap.setPtr o (.list (l ++ [el]))).bytes =
          (l ++ [el]).map heap.bytes := h₁.map_setList hl₁ fun e he => by
        rcases List.mem_append.mp he with he | he
        · exact Or.inl he
        · exact Or.inr ⟨some val, by rw [List.mem_singleton.mp he]; exact hself⟩
      have hbytes (e : ObjectId) (he : e ∈ l) : heap.bytes e = s.heap.bytes e :=
        bytes_congr (hother e (ne_of_mem_of_not_mem (mem_of_list hl he) hfresh))
      simp only [loadElements, heq, hl₁] at hcall
      have hrest := ih (addNode_keeps h₁ hheld hl₁ hself .CUTIS_TAIL)
        (ptr_setPtr_self (h₁.inv.created o hheld) _) hcall
      rw [hrest]
      change CutisObject.list
        ((l ++ [el]).map (heap.setPtr o (.list (l ++ [el]))).bytes ++ rest) = _
      rw [hmap, List.map_append, List.map_congr_left hbytes, List.map_singleton, bytes_of_ptr hself,
        List.append_assoc]
      rfl

theorem toFinmap_added {ht ht' : Dict Bytes Unit} {key : Bytes} (h : ht.Sound Cutis.SetDictType)
    (hadd : dictAdd Cutis.SetDictType ht key () = .ok (ht', .DICT_OK)) :
    ht'.Sound Cutis.SetDictType ∧ ht'.toFinmap = ht.toFinmap.insert key () := by
  by_cases hlimit : ht.AtLimit
  · obtain ⟨fault, hf⟩ := h.dictAdd_fault key () hlimit
    rw [hf] at hadd
    cases hadd
  · obtain ⟨ht'', h'', hadd', hmap⟩ := h.dictAdd_ok setDictType_lawful key () hlimit
    rw [hadd'] at hadd
    split at hadd
    · cases hadd
    · rename_i hkey
      cases hadd
      rw [if_neg hkey] at hmap
      exact ⟨h'', hmap⟩

-- The members are added to a set.
theorem loadElements_set {vals : List Bytes} {m : Dict ObjectId Unit}
    (h : Keeps O s₀ s (o ::ₘ T) n) (hm : s.heap.ptr o = .set m)
    (hsound : (m.map s.heap.bytes id).Sound Cutis.SetDictType)
    (hcall : loadElements o vals s = .ok s') :
    ∃ d, s'.heap.object o = .set d ∧
      d.toFinmap.keys = (m.map s.heap.bytes id).toFinmap.keys ∪ vals.toFinset := by
  induction vals generalizing s n m with
  | nil =>
      cases hcall
      exact ⟨_, object_set hm, by simp⟩
  | cons val rest ih =>
      obtain ⟨el, heap, heq, h₁, hfresh, -, hself, hother⟩ :=
        h.create (p := .string (some val)) rfl (by simp) (by simp)
      have ho : o ∈ s.held O (o ::ₘ T) := Keeps.mem_of_own (Multiset.mem_cons_self _ _)
      have hheld : o ∈ HeapSession.held { s with heap } O (el ::ₘ o ::ₘ T) :=
        Keeps.mem_of_own (Multiset.mem_cons_of_mem (Multiset.mem_cons_self _ _))
      have hm₁ : heap.ptr o = .set m := (hother o (ne_of_mem_of_not_mem ho hfresh)).trans hm
      simp only [loadElements, heq, hm₁] at hcall
      obtain ⟨⟨m', status⟩, hadd, hcall⟩ := bind_eq_ok.mp hcall
      cases status with
      | DICT_ERR => cases hcall
      | DICT_OK =>
          have hkeeps := addMember_keeps h₁ hheld hm₁ hself hadd
          have hadd' := (setDictType_maps heap).dictAdd id m el ()
          rw [hadd, bytes_of_ptr hself, map_eq_of_held hm fun a ha =>
            hother a (ne_of_mem_of_not_mem ha hfresh)] at hadd'
          obtain ⟨hsound', hmap⟩ := toFinmap_added hsound hadd'
          have hself' := ptr_setPtr_self (h₁.inv.created o hheld) (.set m')
          obtain ⟨-, hvals⟩ := dictAdd_vals (h₁.inv.shape o m hm₁) hadd
          have hsame : m'.map (heap.setPtr o (.set m')).bytes id = m'.map heap.bytes id :=
            h₁.map_setSet hm₁ (addMember_strings hself hvals.2)
          rw [← hsame] at hsound'
          obtain ⟨d, hd, hkeys⟩ := ih hkeeps hself' hsound' hcall
          refine ⟨d, hd, hkeys.trans ?_⟩
          change (m'.map (heap.setPtr o (.set m')).bytes id).toFinmap.keys ∪ _ = _
          rw [hsame]
          change (m'.map heap.bytes id).toFinmap = _ at hmap
          rw [hmap, FiniteMap.keys_insert, List.toFinset_cons, Finset.insert_union,
            Finset.union_insert]
          rfl

theorem loadObject_value {val : DumpValue} (h : Keeps O s₀ s T n)
    (hcall : loadObject s val = .ok (o, s')) : (s'.heap.object o).value = val.value := by
  cases val with
  | string val =>
      obtain ⟨o₁, heap, heq, -, -, -, hself, -⟩ :=
        h.create (p := .string (some val)) rfl (by simp) (by simp)
      rw [loadObject, heq] at hcall
      cases hcall
      rw [object_string hself]
      rfl
  | list l =>
      obtain ⟨o₁, heap, heq, h₁, -, -, hself, -⟩ := h.create (p := .list []) rfl (by simp) (by simp)
      simp only [loadObject, heq] at hcall
      obtain ⟨s₁, hload, hcall⟩ := bind_eq_ok.mp hcall
      cases hcall
      rw [loadElements_list h₁ hself hload]
      rfl
  | set members =>
      obtain ⟨o₁, heap, heq, h₁, -, -, hself, -⟩ := h.create (p := .set dictCreate) rfl (by simp)
        (fun _ hd => ObjectPtr.set.inj hd ▸ shape_dictReset)
      simp only [loadObject, heq] at hcall
      obtain ⟨s₁, hload, hcall⟩ := bind_eq_ok.mp hcall
      cases hcall
      obtain ⟨d, hd, hkeys⟩ := loadElements_set h₁ hself (sound_dictCreate _) hload
      change _ = (dictCreate : Dict Bytes Unit).toFinmap.keys ∪ _ at hkeys
      rw [hd, CutisObject.value, hkeys, toFinmap_dictCreate, Finmap.keys_empty, Finset.empty_union,
        DumpValue.value]

-- One item of the file, for which a database has one more key.
theorem loadEntry_ends {key : Bytes} {val : DumpValue} (h : Mirrors O s s 0 0 v) (hlone : s.Lone)
    (hcall : loadEntry s key val = .ok s') :
    ∃ d db ob, s.dict[s.client.dict]? = some d ∧ ob.value = val.value ∧
      dictAdd sdsDictType (s.heap.database d) key ob = .ok (db, .DICT_OK) ∧
      s.Ends s' (v.setDict s.client.dict db) := by
  obtain ⟨⟨o, s₁⟩, hload, hcall⟩ := bind_eq_ok.mp hcall
  obtain ⟨⟨n, h₁⟩, hfresh⟩ := loadObject_mirrors h hload
  obtain ⟨hdict, hclient⟩ := loadObject_dict hload
  obtain ⟨d, hd, hcall⟩ := bind_eq_ok.mp hcall
  obtain ⟨⟨d', ret⟩, hadd, hcall⟩ := bind_eq_ok.mp hcall
  have hd := database_eq_ok hd
  have h₂ := h₁.dictAdd hd hadd
  cases ret with
  | DICT_ERR => cases hcall
  | DICT_OK =>
      cases hcall
      obtain ⟨h₂, -, hvalues⟩ := h₂
      have hsame : s₁.values = s.values := by rw [values, values, hdict]
      rw [hsame] at hvalues
      have hends := h₂.ends (.of_le (hlone.fresh hfresh) hvalues.le)
      have hmap := s₁.heap.dictAdd_database d key o
      rw [hadd, h.shows.database_eq h₁.shows hdict rfl
        (hdict ▸ List.mem_of_getElem? hd)] at hmap
      rw [hdict, hclient] at hd
      refine ⟨d, _, _, hd, loadObject_value h.keeps hload, hmap, ?_⟩
      rw [← hclient]
      exact hends

end Load

end Heap

end Cutis

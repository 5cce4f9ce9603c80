import Cutis.Heap.Keeping

namespace Cutis.Heap

open HeapSession

variable {O T : Multiset ObjectId} {s₀ s s' : HeapSession} {o : ObjectId} {n : Nat}

theorem database_eq_ok {id : Nat} {d : HeapDict} (h : s.database id = .ok d) :
    s.dict[id]? = some d := by
  unfold database at h
  split at h
  · rename_i d' hd
    cases h
    exact hd
  · cases h

section Find

variable {α : Type} {missing : Except Fault α} {found : DictEntry Bytes ObjectId → Except Fault α}
  {r : α}

theorem find_cases (h : Keeps O s₀ s T n) {d : HeapDict} {key : Bytes} (hd : s.db = .ok d)
    (hcall : (match dictFind sdsDictType d key with
      | none => missing
      | some de => found de) = .ok r) :
    missing = .ok r ∨ ∃ de, de.val ∈ O + s.roots ∧ found de = .ok r := by
  cases hfind : dictFind sdsDictType d key with
  | none =>
      rw [hfind] at hcall
      exact Or.inl hcall
  | some de =>
      rw [hfind] at hcall
      exact Or.inr ⟨de, h.mem_of_find (database_eq_ok hd) hfind, hcall⟩

-- The key of a command is looked up in the database of the client.
theorem lookup_cases {i : Nat} (h : Keeps O s₀ s T n)
    (hcall : (do
      match dictFind sdsDictType (← s.db) (← s.arg i) with
      | none => missing
      | some de => found de) = .ok r) :
    missing = .ok r ∨ ∃ de, de.val ∈ O + s.roots ∧ found de = .ok r := by
  obtain ⟨d, hd, hcall⟩ := bind_eq_ok.mp hcall
  obtain ⟨key, -, hcall⟩ := bind_eq_ok.mp hcall
  exact find_cases h hd hcall

end Find

-- DictReplace gives the old value up.
theorem dictReplaceValue_keeps (h : Keeps O s₀ s (o ::ₘ T) n) (hn : n ≤ 2 ^ 31) {key : Bytes}
    (hcall : dictReplaceValue s key o = .ok s') : Keeps O s₀ s' T n ∧ o ∈ s'.held O T := by
  obtain ⟨d, hd, hcall⟩ := bind_eq_ok.mp hcall
  obtain ⟨⟨d', old⟩, hrep, hcall⟩ := bind_eq_ok.mp hcall
  have hd := database_eq_ok hd
  obtain ⟨hsound, hmem, hvals⟩ :=
    (h.sound d (List.mem_of_getElem? hd)).dictReplace_vals sdsDictType_lawful hrep
  have hheld : o ∈ O + (s.setDB d').roots := by
    have hself : (s.setDB d').dict[s.client.dict]? = some d' :=
      List.getElem?_set_self (List.getElem?_eq_some_iff.mp hd).1
    exact Keeps.mem_of_vals hself hmem
  cases old with
  | none =>
      cases hcall
      exact ⟨(h.setDatabase hd hsound (by rw [hvals, Multiset.add_cons, Multiset.cons_add])).1,
        Keeps.mem_of_roots hheld⟩
  | some old =>
      cases hcall
      have h' : Keeps O s₀ (s.setDB d') (old ::ₘ T) n :=
        (h.setDatabase hd hsound (by
          rw [Multiset.cons_add, Multiset.cons_add, ← Multiset.add_cons, ← Multiset.add_cons,
            hvals])).1
      exact ⟨(h'.decrRefCount hn).1, Keeps.mem_of_roots hheld⟩

-- DictDelete gives the value up.
theorem dictDeleteValue_keeps (h : Keeps O s₀ s T n) (hn : n ≤ 2 ^ 31) {key : Bytes}
    (hcall : dictDeleteValue s key = .ok s') : Keeps O s₀ s' T n := by
  obtain ⟨d, hd, hcall⟩ := bind_eq_ok.mp hcall
  have hd := database_eq_ok hd
  have hsound := h.sound d (List.mem_of_getElem? hd)
  have hsound' := hsound.dictGenericDelete sdsDictType_lawful key
  cases hdel : dictDelete sdsDictType d key with
  | mk d' de =>
      rw [hdel] at hcall
      obtain ⟨-, -, hde⟩ := dictGenericDelete_vals hsound.toShape key hdel
      have hsound' : d'.Sound sdsDictType := by
        have hfst : (dictGenericDelete sdsDictType d key).1 = d' := congrArg Prod.fst hdel
        exact hfst ▸ hsound'
      cases de with
      | none =>
          cases hcall
          exact (h.setDatabase hd hsound' (by rw [hde])).1
      | some de =>
          cases hcall
          have h' : Keeps O s₀ (s.setDB d') (de.val ::ₘ T) n :=
            (h.setDatabase hd hsound' (by rw [hde.1, Multiset.cons_add, Multiset.add_cons])).1
          exact (h'.decrRefCount hn).1

theorem setGenericCommand_preserves (nx : Bool) : Preserves (setGenericCommand · nx) := by
  intro O s₀ s' h hcall
  obtain ⟨key, -, hcall⟩ := bind_eq_ok.mp hcall
  obtain ⟨str, -, hcall⟩ := bind_eq_ok.mp hcall
  obtain ⟨o, heap, heq, h₁, -⟩ := h.create (p := .string (some str)) rfl nofun nofun
  rw [heq] at hcall
  obtain ⟨d, hd, hcall⟩ := bind_eq_ok.mp hcall
  obtain ⟨⟨d', ret⟩, hadd, hcall⟩ := bind_eq_ok.mp hcall
  have h₂ := h₁.dictAdd (database_eq_ok hd) hadd
  cases ret with
  | DICT_OK =>
      cases hcall
      exact ⟨_, h₂.1.addShared (by simp)⟩
  | DICT_ERR =>
      cases nx with
      | true =>
          cases hcall
          exact ⟨_, (h₂.decrRefCount (by decide)).1.addShared (by simp)⟩
      | false =>
          obtain ⟨s₃, hrep, hcall⟩ := bind_eq_ok.mp hcall
          cases hcall
          exact ⟨_, (dictReplaceValue_keeps h₂ (by decide) hrep).1.addShared (by simp)⟩

theorem getCommand_preserves : Preserves getCommand := by
  intro O s₀ s' h hcall
  rcases lookup_cases h hcall with hcall | ⟨de, hval, hcall⟩
  · cases hcall
    exact ⟨_, h.addShared (by simp)⟩
  · split at hcall
    · cases hcall
      exact ⟨_, (h.addBulk (Keeps.mem_of_roots hval)).1⟩
    · cases hcall
    · cases hcall
      exact ⟨_, (h.addReplySds _).1⟩

theorem existsCommand_preserves : Preserves existsCommand := by
  intro O s₀ s' h hcall
  rcases lookup_cases h hcall with hcall | ⟨de, -, hcall⟩
  · cases hcall
    exact ⟨_, h.addShared (by simp)⟩
  · cases hcall
    exact ⟨_, h.addShared (by simp)⟩

theorem delCommand_preserves : Preserves delCommand := by
  intro O s₀ s' h hcall
  obtain ⟨key, -, hcall⟩ := bind_eq_ok.mp hcall
  obtain ⟨s₁, hdel, hcall⟩ := bind_eq_ok.mp hcall
  cases hcall
  exact ⟨_, (dictDeleteValue_keeps h (by decide) hdel).addShared (by simp)⟩

theorem incrDecrCommand_preserves (incr : Int) : Preserves (incrDecrCommand · incr) := by
  intro O s₀ s' h hcall
  obtain ⟨key, -, hcall⟩ := bind_eq_ok.mp hcall
  obtain ⟨d, hd, hcall⟩ := bind_eq_ok.mp hcall
  obtain ⟨value, -, hcall⟩ := bind_eq_ok.mp hcall
  obtain ⟨o, heap, heq, h₁, -⟩ :=
    h.create (p := .string (some (printInt (toInt64 (value + incr))))) rfl nofun nofun
  simp only [heq] at hcall
  obtain ⟨d₁, hd₁, hcall⟩ := bind_eq_ok.mp hcall
  obtain ⟨⟨d', ret⟩, hadd, hcall⟩ := bind_eq_ok.mp hcall
  have h₂ := h₁.dictAdd (database_eq_ok hd₁) hadd
  cases ret with
  | DICT_OK =>
      cases hcall
      exact ⟨_, (h₂.1.addReply h₂.2).1.addShared (by simp)⟩
  | DICT_ERR =>
      obtain ⟨s₃, hrep, hcall⟩ := bind_eq_ok.mp hcall
      obtain ⟨h₃, ho⟩ := dictReplaceValue_keeps h₂ (by decide) hrep
      cases hcall
      exact ⟨_, (h₃.addReply ho).1.addShared (by simp)⟩

theorem randomKeyCommand_preserves (os : Answers) : Preserves (randomKeyCommand os) := by
  intro O s₀ s' h hcall
  obtain ⟨d, -, hcall⟩ := bind_eq_ok.mp hcall
  obtain ⟨⟨de, random⟩, -, hcall⟩ := bind_eq_ok.mp hcall
  cases de with
  | none =>
      cases hcall
      exact ⟨_, h.addShared (by simp)⟩
  | some de =>
      cases hcall
      exact ⟨_, (h.addReplySds de.key).1.addShared (by simp)⟩

end Cutis.Heap

import Cutis.Heap.Sets

namespace Cutis.Heap

open HeapSession

variable {O U : Multiset ObjectId} {s₀ s s' : HeapSession} {n : Nat}

theorem typeCommand_preserves : Preserves typeCommand := by
  intro O s₀ s' h hcall
  have hreply (str : Bytes) : Keeps O s₀ ((s₀.addReplySds str).addReply s₀.shared.crlf) 0 3 :=
    (h.addReplySds str).1.addShared (by simp)
  rcases lookup_cases h hcall with hcall | ⟨de, -, hcall⟩
  · cases hcall
    exact ⟨_, hreply _⟩
  · split at hcall
    · cases hcall
      exact ⟨_, hreply _⟩
    · cases hcall
      exact ⟨_, hreply _⟩
    · cases hcall
      exact ⟨_, hreply _⟩
    · cases hcall

theorem selectCommand_preserves : Preserves selectCommand := by
  intro O s₀ s' h hcall
  obtain ⟨id, -, hcall⟩ := bind_eq_ok.mp hcall
  split at hcall
  · cases hcall
    exact ⟨_, (h.addReplySds _).1⟩
  · rename_i dict hdict
    cases hcall
    exact ⟨_, (h.setSelected dict).addShared (by simp)⟩

-- The reference goes from one database to another.
theorem moveValue_keeps {src dst : Nat} {db db' dict dict' : HeapDict} {key : Bytes}
    {de : DictEntry Bytes ObjectId} (h : Keeps O s₀ s 0 n) (hne : src ≠ dst)
    (hdb : s.dict[src]? = some db) (hdict : s.dict[dst]? = some dict)
    (hadd : dictAdd sdsDictType dict de.key de.val = .ok (dict', .DICT_OK))
    (hdel : dictDeleteNoFree sdsDictType db key = (db', some de)) :
    Keeps O s₀ ((s.setDatabase dst dict').setDatabase src db') 0 n := by
  have hsound := h.sound db (List.mem_of_getElem? hdb)
  have hsound' : db'.Sound sdsDictType := by
    have hfst : (dictGenericDelete sdsDictType db key).1 = db' := congrArg Prod.fst hdel
    exact hfst ▸ hsound.dictGenericDelete sdsDictType_lawful key
  obtain ⟨-, -, hvals, -⟩ := dictGenericDelete_vals hsound.toShape key hdel
  obtain ⟨h₁, -⟩ := h.setDatabase (U := de.val ::ₘ 0) hdb hsound'
    (by rw [hvals, Multiset.cons_add, Multiset.add_cons])
  have hdict₁ : (s.setDatabase src db').dict[dst]? = some dict := by
    rw [← hdict]
    exact List.getElem?_set_ne hne
  obtain ⟨h₂, -⟩ := h₁.dictAdd hdict₁ hadd
  have hswap : (s.setDatabase dst dict').setDatabase src db' =
      (s.setDatabase src db').setDatabase dst dict' := by
    simp only [HeapSession.setDatabase, List.set_comm _ _ hne]
  rw [hswap]
  exact h₂

theorem moveCommand_preserves : Preserves moveCommand := by
  intro O s₀ s' h hcall
  obtain ⟨id, -, hcall⟩ := bind_eq_ok.mp hcall
  split at hcall
  · cases hcall
    exact ⟨_, (h.addReplySds _).1⟩
  · rename_i dst hdst
    split at hcall
    · cases hcall
      exact ⟨_, (h.addReplySds _).1⟩
    · rename_i hne
      obtain ⟨key, -, hcall⟩ := bind_eq_ok.mp hcall
      obtain ⟨db, hdb, hcall⟩ := bind_eq_ok.mp hcall
      cases hfind : dictFind sdsDictType db key with
      | none =>
          simp only [hfind] at hcall
          cases hcall
          exact ⟨_, (h.addReplySds _).1⟩
      | some de =>
          simp only [hfind] at hcall
          obtain ⟨dict, hdict, hcall⟩ := bind_eq_ok.mp hcall
          obtain ⟨⟨dict', ret⟩, hadd, hcall⟩ := bind_eq_ok.mp hcall
          have hdict := database_eq_ok hdict
          have hsound := h.sound dict (List.mem_of_getElem? hdict)
          cases ret with
          | DICT_ERR =>
              cases hcall
              have hvals := (dictAdd_vals hsound.toShape hadd).2.1
              obtain ⟨h₁, -⟩ := h.setDatabase (U := 0) hdict
                (hsound.dictAdd_returns sdsDictType_lawful hadd) (by rw [hvals])
              exact ⟨_, (h₁.addReplySds _).1⟩
          | DICT_OK =>
              obtain ⟨db₁, hdb₁, hcall⟩ := bind_eq_ok.mp hcall
              have hdb := database_eq_ok hdb
              have hdb₁ : s₀.dict[s₀.client.dict]? = some db₁ := by
                rw [← List.getElem?_set_ne (Ne.symm hne)]
                exact database_eq_ok hdb₁
              obtain rfl : db = db₁ := Option.some.inj (hdb.symm.trans hdb₁)
              cases hdel : dictDeleteNoFree sdsDictType db key with
              | mk db' deleted =>
                  obtain ⟨-, hdeleted, -⟩ := dictGenericDelete_vals
                    (h.sound db (List.mem_of_getElem? hdb)).toShape key hdel
                  rw [hfind] at hdeleted
                  subst hdeleted
                  rw [hdel] at hcall
                  cases hcall
                  exact ⟨_, (moveValue_keeps h hne hdb hdict hadd hdel).addShared (by simp)⟩

theorem renameGenericCommand_preserves (nx : Bool) : Preserves (renameGenericCommand · nx) := by
  intro O s₀ s' h hcall
  obtain ⟨src, -, hcall⟩ := bind_eq_ok.mp hcall
  obtain ⟨dst, -, hcall⟩ := bind_eq_ok.mp hcall
  split at hcall
  · cases hcall
    exact ⟨_, (h.addReplySds _).1⟩
  · obtain ⟨db, hdb, hcall⟩ := bind_eq_ok.mp hcall
    rcases find_cases h hdb hcall with hcall | ⟨de, hval, hcall⟩
    · cases hcall
      exact ⟨_, (h.addReplySds _).1⟩
    · have h₁ := h.incrRefCount (Keeps.mem_of_roots hval)
      obtain ⟨db₁, hdb₁, hcall⟩ := bind_eq_ok.mp hcall
      obtain ⟨⟨db', ret⟩, hadd, hcall⟩ := bind_eq_ok.mp hcall
      have h₂ := h₁.dictAdd (database_eq_ok hdb₁) hadd
      cases ret with
      | DICT_OK =>
          obtain ⟨s₃, hdel, hcall⟩ := bind_eq_ok.mp hcall
          cases hcall
          exact ⟨_, (dictDeleteValue_keeps h₂.1 (by decide) hdel).addShared (by simp)⟩
      | DICT_ERR =>
          cases nx with
          | true =>
              cases hcall
              exact ⟨_, ((h₂.decrRefCount (by decide)).1.addReplySds _).1⟩
          | false =>
              obtain ⟨s₃, hrep, hcall⟩ := bind_eq_ok.mp hcall
              obtain ⟨s₄, hdel, hcall⟩ := bind_eq_ok.mp hcall
              cases hcall
              have h₃ := (dictReplaceValue_keeps h₂ (by decide) hrep).1
              exact ⟨_, (dictDeleteValue_keeps h₃ (by decide) hdel).addShared (by simp)⟩

theorem keysCommand_preserves : Preserves keysCommand := by
  intro O s₀ s' h hcall
  obtain ⟨pattern, -, hcall⟩ := bind_eq_ok.mp hcall
  obtain ⟨db, -, hcall⟩ := bind_eq_ok.mp hcall
  obtain ⟨keys, -, hcall⟩ := bind_eq_ok.mp hcall
  cases hcall
  exact ⟨_, (h.addReplySds _).1⟩

theorem dbsizeCommand_preserves : Preserves dbsizeCommand := by
  intro O s₀ s' h hcall
  obtain ⟨db, -, hcall⟩ := bind_eq_ok.mp hcall
  cases hcall
  exact ⟨_, (h.addReplySds _).1⟩

section Control

theorem saveCommand_preserves (os : Answers) : Preserves (saveCommand os) := by
  intro O s₀ s' h hcall
  unfold saveCommand at hcall
  split at hcall
  · cases hcall
    exact ⟨_, h.addShared (by simp)⟩
  · cases hcall
    exact ⟨_, h.addShared (by simp)⟩

theorem bgsaveCommand_preserves (os : Answers) : Preserves (bgsaveCommand os) := by
  intro O s₀ s' h hcall
  unfold bgsaveCommand at hcall
  split at hcall
  · cases hcall
    exact ⟨_, (h.addReplySds _).1⟩
  · exact saveCommand_preserves os h hcall

theorem shutDownCommand_preserves (os : Answers) : Preserves (shutDownCommand os) := by
  intro O s₀ s' h hcall
  unfold shutDownCommand at hcall
  split at hcall
  · cases hcall
    exact ⟨_, h⟩
  · cases hcall
    exact ⟨_, (h.addReplySds _).1⟩

theorem pingCommand_preserves : Preserves pingCommand := by
  intro O s₀ s' h hcall
  cases hcall
  exact ⟨_, h.addShared (by simp)⟩

theorem echoCommand_preserves : Preserves echoCommand := by
  intro O s₀ s' h hcall
  obtain ⟨str, -, hcall⟩ := bind_eq_ok.mp hcall
  cases hcall
  obtain ⟨h₁, -⟩ := h.addReplySds (intLine str.length)
  exact ⟨_, (h₁.addReplySds str).1.addShared (by simp)⟩

theorem lastSaveCommand_preserves (os : Answers) : Preserves (lastSaveCommand os) := by
  intro O s₀ s' h hcall
  cases hcall
  exact ⟨_, (h.addReplySds _).1⟩

end Control

theorem call_preserves (os : Answers) (proc : CommandProc) : Preserves (call os · proc) := by
  cases proc with
  | GetCommand => exact getCommand_preserves
  | SetCommand => exact setGenericCommand_preserves false
  | SetnxCommand => exact setGenericCommand_preserves true
  | ExistsCommand => exact existsCommand_preserves
  | DelCommand => exact delCommand_preserves
  | IncrCommand => exact incrDecrCommand_preserves 1
  | DecrCommand => exact incrDecrCommand_preserves (-1)
  | RPushCommand => exact pushGenericCommand_preserves .CUTIS_TAIL
  | LPushCommand => exact pushGenericCommand_preserves .CUTIS_HEAD
  | RPopCommand => exact popGenericCommand_preserves .CUTIS_TAIL
  | LPopCommand => exact popGenericCommand_preserves .CUTIS_HEAD
  | LLenCommand => exact lLenCommand_preserves
  | LIndexCommand => exact lIndexCommand_preserves
  | LRangeCommand => exact lRangeCommand_preserves
  | LTrimCommand => exact lTrimCommand_preserves
  | LSetCommand => exact lSetCommand_preserves
  | SAddCommand => exact sAddCommand_preserves
  | SRemCommand => exact sRemCommand_preserves
  | SIsMemberCommand => exact sIsMemberCommand_preserves
  | SCardCommand => exact sCardCommand_preserves
  | SInterCommand => exact sInterCommand_preserves os
  | SelectCommand => exact selectCommand_preserves
  | MoveCommand => exact moveCommand_preserves
  | RenameCommand => exact renameGenericCommand_preserves false
  | RenamenxCommand => exact renameGenericCommand_preserves true
  | RandomKeyCommand => exact randomKeyCommand_preserves os
  | KeysCommand => exact keysCommand_preserves
  | DbsizeCommand => exact dbsizeCommand_preserves
  | SaveCommand => exact saveCommand_preserves os
  | BgsaveCommand => exact bgsaveCommand_preserves os
  | ShutDownCommand => exact shutDownCommand_preserves os
  | PingCommand => exact pingCommand_preserves
  | EchoCommand => exact echoCommand_preserves
  | LastSaveCommand => exact lastSaveCommand_preserves os
  | TypeCommand => exact typeCommand_preserves

end Cutis.Heap

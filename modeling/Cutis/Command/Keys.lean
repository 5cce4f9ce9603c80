import Cutis.Command.Sets

namespace Cutis

namespace Session

variable {s : Session} {key : Bytes}

theorem meets_reply (h : s.Sound) {reply : List Bytes} {r : Reply}
    (hreply : reply.flatten = r.encode) :
    s.Meets (.ok (s.after s.server.dict s.client.dict 0 reply)) (s.model.answer r) :=
  ⟨_, rfl, s.server.dict, s.client.dict, reply, rfl, h.dict, rfl, hreply⟩

theorem typeCommand_meets (h : s.Sound) (hkey : s.client.argv[1]? = some key) :
    s.Meets (typeCommand s) (s.model.apply (Keyspace.type · key)) := by
  obtain ⟨db, hdb, hsound, hks, -⟩ := db_eq h
  simp only [typeCommand, hdb, arg_eq hkey, bind, Except.bind, addReplySds, addReply_two]
  rcases hsound.find_cases key with ⟨hfind, hlook⟩ | ⟨de, hfind, -, -, hlook⟩
  · simp only [hfind]
    refine meets_answer h ?_ (flatten_line _)
    rw [hks, Keyspace.type, hlook]
    rfl
  · simp only [hfind]
    cases hde : de.val with
    | string | list | set =>
        rw [hde] at hlook
        refine meets_answer h ?_ (flatten_line _)
        rw [hks, Keyspace.type, hlook]
        rfl

theorem dbsizeCommand_meets (h : s.Sound) :
    s.Meets (dbsizeCommand s) (s.model.apply Keyspace.dbsize) := by
  obtain ⟨db, hdb, hsound, hks, -⟩ := db_eq h
  simp only [dbsizeCommand, hdb, bind, Except.bind]
  refine meets_answer h (r := .int db.used) ?_ ?_
  · rw [hks, Keyspace.dbsize, hsound.card_contents]
  · rw [crlf_eq]
    simp [Reply.int, Reply.encode, printInt_natCast]

section Rename

-- The value is stored under the new key, then the old one is deleted.
theorem meets_renamed (h : s.Sound) {db : Database} {src dst : Bytes} {v : Value}
    {f : Keyspace → Effect} (hsound : SoundDatabase db)
    (hcontents : db.contents = s.model.keyspace.insert dst v)
    (hf : f s.model.keyspace =
      { keyspace := (s.model.keyspace.insert dst v).erase src, changes := 1, reply := .ok }) :
    s.Meets (.ok ((s.setDB (dictDelete sdsDictType db src).1).dirtied.addReply shared.ok))
      (s.model.apply f) := by
  obtain ⟨hdb', hcontents', -⟩ := hsound.dictGenericDelete_spec src
  refine meets_set hdb' (n := 1) h ?_ ?_ ?_
  · rw [hcontents', hcontents, hf]
  · rw [hf]
  · rw [hf]
    exact flatten_ok

theorem renameGenericCommand_meets (h : s.Sound) {src dst : Bytes} (nx : Bool)
    (hsrc : s.client.argv[1]? = some src) (hdst : s.client.argv[2]? = some dst)
    (hroom : src ≠ dst → src ∈ s.model.keyspace → ¬s.model.keyspace.Full) :
    s.Meets (renameGenericCommand s nx) (s.model.apply (Keyspace.renameWith · src nx dst)) := by
  obtain ⟨db, hdb, hsound, hks, -⟩ := db_eq h
  rw [hks] at hroom
  simp only [renameGenericCommand, hdb, arg_eq hsrc, arg_eq hdst, bind, Except.bind,
    sdscmp_eq_zero_iff]
  by_cases hsame : src = dst
  · rw [if_pos hsame]
    refine meets_answer h (r := .error "src and dest key are the same") ?_ (by decide)
    rw [Keyspace.renameWith, if_pos hsame]
  · rw [if_neg hsame]
    rcases hsound.find_cases src with ⟨hfind, hlook⟩ | ⟨de, hfind, -, ho, hlook⟩
    · simp only [hfind]
      refine meets_answer h (r := .error "no such key") ?_ (by decide)
      rw [hks, Keyspace.renameWith, if_neg hsame, hlook]
    · have hroom' := hroom hsame (Finmap.mem_of_lookup_eq_some hlook)
      have hdone (hnx : ¬(nx = true ∧ dst ∈ db.contents)) :
          Keyspace.renameWith s.model.keyspace src nx dst =
            { keyspace := (s.model.keyspace.insert dst de.val.value).erase src, changes := 1,
              reply := .ok } := by
        rw [hks, Keyspace.renameWith, if_neg hsame, hlook]
        exact if_neg hnx
      simp only [hfind]
      cases nx with
      | false =>
          obtain ⟨db', ret, db'', hadd, hreplace, hdb'', hcontents⟩ :=
            hsound.add_replace dst ho hroom'
          simp only [hadd, Bool.false_eq_true, and_false, if_false, hreplace]
          refine meets_renamed h hdb'' ?_ (hdone (by simp))
          rw [hcontents, hks]
      | true =>
          obtain ⟨db', ret, hadd, hreplace, hdb', hret, hcontents⟩ := hsound.add_nx dst ho hroom'
          simp only [hadd, and_true, hret]
          by_cases hmem : dst ∈ db.contents
          · rw [if_pos hmem] at hcontents ⊢
            have hreply : [sdsnew "-ERR destination key exists\r\n"].flatten =
                (Reply.error "destination key exists").encode := by decide
            have hf : Keyspace.renameWith s.model.keyspace src true dst =
                s.model.keyspace.answer (.error "destination key exists") := by
              rw [hks, Keyspace.renameWith, if_neg hsame, hlook]
              exact if_pos ⟨rfl, hmem⟩
            refine meets_set hdb' (n := 0) h ?_ ?_ ?_
            · rw [hcontents, hf, hks]
              rfl
            · rw [hf]
              rfl
            · rw [hf]
              exact hreply
          · rw [if_neg hmem] at hcontents ⊢
            simp only [hreplace]
            refine meets_renamed h hdb' ?_ (hdone fun hc => hmem hc.2)
            rw [hcontents, hks]

theorem renameGenericCommand_fault (h : s.Sound) {src dst : Bytes} (nx : Bool)
    (hsrc : s.client.argv[1]? = some src) (hdst : s.client.argv[2]? = some dst)
    (hne : src ≠ dst) (hmem : src ∈ s.model.keyspace) (hfull : s.model.keyspace.Full) :
    ∃ fault, renameGenericCommand s nx = .error fault := by
  obtain ⟨db, hdb, hsound, hks, -⟩ := db_eq h
  rw [hks] at hmem hfull
  rcases hsound.find_cases src with ⟨-, hlook⟩ | ⟨de, hfind, -, -, -⟩
  · exact absurd hmem (Finmap.lookup_eq_none.mp hlook)
  · obtain ⟨fault, hadd⟩ := hsound.add_fault dst de.val hfull
    refine ⟨fault, ?_⟩
    simp only [renameGenericCommand, hdb, arg_eq hsrc, arg_eq hdst, bind, Except.bind,
      sdscmp_eq_zero_iff, if_neg hne, hfind, hadd]

end Rename

section Databases

theorem selectDB_eq (s : Session) (id : Int) :
    selectDB s id =
      if s.model.validIndex id then some { s with client := { s.client with dict := id.toNat } }
      else none := by
  have hvalid : s.model.validIndex id ↔ ¬(id < 0 ∨ id ≥ s.server.db_num) := by
    simp only [Model.validIndex, model, dataset, List.length_map, CutisServer.db_num]
    omega
  rw [selectDB]
  by_cases h : s.model.validIndex id
  · rw [if_neg (hvalid.mp h), if_pos h]
  · rw [if_pos (not_not.mp fun hn => h (hvalid.mpr hn)), if_neg h]

theorem selectCommand_meets (h : s.Sound) {arg : Bytes} (harg : s.client.argv[1]? = some arg) :
    s.Meets (selectCommand s) (s.model.select (atoi arg)) := by
  simp only [selectCommand, arg_eq harg, bind, Except.bind, selectDB_eq]
  by_cases hvalid : s.model.validIndex (atoi arg)
  · rw [Model.select, if_pos hvalid, if_pos hvalid]
    exact ⟨_, rfl, s.server.dict, (atoi arg).toNat, [shared.ok], rfl, h.dict, rfl, flatten_ok⟩
  · rw [Model.select, if_neg hvalid, if_neg hvalid]
    exact meets_reply h (by decide)

variable {arg : Bytes}

theorem db_setDict (s : Session) {id : Nat} (hne : id ≠ s.client.dict) (dict : Database) :
    (s.setDict id dict).db = s.db := by
  unfold Session.db Session.dict setDict
  rw [List.getElem?_set_ne hne]

theorem moveCommand_meets (h : s.Sound) (hkey : s.client.argv[1]? = some key)
    (harg : s.client.argv[2]? = some arg)
    (hroom : s.model.validIndex (atoi arg) → atoi arg ≠ s.client.dict → key ∈ s.model.keyspace →
      ¬(s.model.dataset.getD (atoi arg).toNat ∅).Full) :
    s.Meets (moveCommand s) (s.model.move key (atoi arg)) := by
  obtain ⟨db, hdb, hsound, hks, -⟩ := db_eq h
  simp only [moveCommand, hdb, arg_eq hkey, arg_eq harg, bind, Except.bind, selectDB_eq]
  generalize atoi arg = id at hroom ⊢
  by_cases hvalid : s.model.validIndex id
  · have hid : id.toNat < s.server.dict.length := by
      simp only [Model.validIndex, model, dataset, List.length_map] at hvalid
      omega
    have hsame : s.client.dict = id.toNat ↔ id = s.model.selected := by
      have := hvalid.1
      simp only [model]
      omega
    rw [Model.move, if_neg (not_not.mpr hvalid), if_pos hvalid]
    simp only [hsame]
    by_cases hsel : id = s.model.selected
    · rw [if_pos hsel, if_pos hsel]
      exact meets_reply h (by decide)
    · rw [if_neg hsel, if_neg hsel, hks]
      rcases hsound.find_cases key with ⟨hfind, hlook⟩ | ⟨de, hfind, hde, ho, hlook⟩
      · simp only [hfind, hlook]
        exact meets_reply h (by decide)
      · obtain ⟨dst, hget, hget', hdst, htarget⟩ := dict_eq h hid
        have hroom' := hroom hvalid hsel (hks ▸ Finmap.mem_of_lookup_eq_some hlook)
        rw [htarget, hdst.full_iff] at hroom'
        obtain ⟨dst', hdst', hadd, hcontents⟩ := hdst.dictAdd_ok key ho hroom'
        simp only [hfind, hde, hlook, hget, hadd]
        by_cases hmem : key ∈ dst.contents
        · rw [if_pos hmem] at hcontents
          rw [htarget, if_pos hmem, if_pos hmem, if_pos rfl]
          have hreply : [sdsnew "-ERR target DB already contains the moved key\r\n"].flatten =
              (Reply.error "target DB already contains the moved key").encode := by decide
          refine ⟨_, rfl, s.server.dict.set id.toNat dst', s.client.dict, _, rfl,
            forall_mem_set h.dict hdst' _, ?_, hreply⟩
          rw [dataset_set, hcontents, ← htarget, dataset_set_getD hid]
          rfl
        · obtain ⟨hsrc', hcontents', -⟩ := hsound.dictGenericDelete_spec key
          have hne : id.toNat ≠ s.client.dict := fun he => hsel (hsame.mp he.symm)
          rw [if_neg hmem] at hcontents
          rw [htarget, if_neg hmem, if_neg hmem, if_neg (by decide), db_setDict s hne, hdb]
          refine ⟨_, rfl, (s.server.dict.set id.toNat dst').set s.client.dict _, s.client.dict, _,
            rfl, forall_mem_set (forall_mem_set h.dict hdst' _) hsrc' _, ?_, flatten_ok⟩
          rw [dataset_set, dataset_set, hcontents, dictDeleteNoFree, hcontents']
          rfl
  · rw [Model.move, if_pos hvalid, if_neg hvalid]
    exact meets_reply h (by decide)

end Databases

end Session

end Cutis

import Cutis.Command.Follows

namespace Cutis

-- The table of a database with this many keys cannot grow any more.
def Keyspace.Full (ks : Keyspace) : Prop := ks.keys.card = 2 ^ 27

namespace SoundDatabase

variable {db : Database}

theorem full_iff (h : SoundDatabase db) : db.contents.Full ↔ db.AtLimit := h.atLimit_iff.symm

theorem find_cases (h : SoundDatabase db) (key : Bytes) :
    (dictFind sdsDictType db key = none ∧ db.contents.lookup key = none) ∨
      ∃ de, dictFind sdsDictType db key = some de ∧ de.key = key ∧ de.val.Sound ∧
        db.contents.lookup key = some de.val.value := by
  cases hfind : dictFind sdsDictType db key with
  | none => exact Or.inl ⟨rfl, h.dictFind_none hfind⟩
  | some de =>
      obtain ⟨hkey, -, ho, hlook⟩ := h.dictFind_some hfind
      exact Or.inr ⟨de, rfl, hkey, ho, hlook⟩

-- An addition that overwrites the value of a key that is there already.
theorem add_replace (h : SoundDatabase db) (key : Bytes) {o : CutisObject} (ho : o.Sound)
    (hroom : ¬db.contents.Full) :
    ∃ db' ret db'', dictAdd sdsDictType db key o = .ok (db', ret) ∧
      replaceExisting db' ret false key o = .ok db'' ∧
      SoundDatabase db'' ∧ db''.contents = db.contents.insert key o.value := by
  obtain ⟨db', hdb', hadd, hcontents⟩ := h.dictAdd_ok key ho fun hl => hroom (h.full_iff.mpr hl)
  by_cases hkey : key ∈ db.contents
  · rw [if_pos hkey] at hadd hcontents
    have hlimit : ¬db'.AtLimit := fun hl => hroom (hcontents ▸ hdb'.full_iff.mpr hl)
    obtain ⟨db'', old, hdb'', hreplace, hcontents'⟩ := hdb'.dictReplace_ok key ho hlimit
    refine ⟨db', _, db'', hadd, ?_, hdb'', by rw [hcontents', hcontents]⟩
    rw [replaceExisting, if_pos ⟨rfl, rfl⟩, hreplace]
    rfl
  · rw [if_neg hkey] at hadd hcontents
    exact ⟨db', _, db', hadd, if_neg (by decide), hdb', hcontents⟩

-- An addition that leaves an existing key alone.
theorem add_nx (h : SoundDatabase db) (key : Bytes) {o : CutisObject} (ho : o.Sound)
    (hroom : ¬db.contents.Full) :
    ∃ db' ret, dictAdd sdsDictType db key o = .ok (db', ret) ∧
      replaceExisting db' ret true key o = .ok db' ∧ SoundDatabase db' ∧
      (ret = .DICT_ERR ↔ key ∈ db.contents) ∧
      db'.contents = if key ∈ db.contents then db.contents else db.contents.insert key o.value := by
  obtain ⟨db', hdb', hadd, hcontents⟩ := h.dictAdd_ok key ho fun hl => hroom (h.full_iff.mpr hl)
  refine ⟨db', _, hadd, if_neg (by simp), hdb', ?_, hcontents⟩
  split_ifs with hkey <;> simp [hkey]

theorem add_fault (h : SoundDatabase db) (key : Bytes) (o : CutisObject)
    (hfull : db.contents.Full) : ∃ fault, dictAdd sdsDictType db key o = .error fault :=
  h.dictAdd_fault key o (h.full_iff.mp hfull)

end SoundDatabase

namespace Session

variable {s : Session} {key val : Bytes}

section Set

theorem setCommand_meets (h : s.Sound) (hkey : s.client.argv[1]? = some key)
    (hval : s.client.argv[2]? = some val) (hroom : ¬s.model.keyspace.Full) :
    s.Meets (setCommand s) (s.model.apply (Keyspace.set · key val)) := by
  obtain ⟨db, hdb, hsound, hks, -⟩ := db_eq h
  rw [hks] at hroom
  obtain ⟨db', ret, db'', hadd, hreplace, hdb'', hcontents⟩ :=
    hsound.add_replace key (o := .string val) trivial hroom
  simp only [setCommand, setGenericCommand, hdb, arg_eq hkey, arg_eq hval, hadd, hreplace, bind,
    Except.bind]
  exact meets_set hdb'' h (by rw [hcontents, hks]; rfl) rfl flatten_ok

theorem setnxCommand_meets (h : s.Sound) (hkey : s.client.argv[1]? = some key)
    (hval : s.client.argv[2]? = some val) (hroom : ¬s.model.keyspace.Full) :
    s.Meets (setnxCommand s) (s.model.apply (Keyspace.setnx · key val)) := by
  obtain ⟨db, hdb, hsound, hks, -⟩ := db_eq h
  rw [hks] at hroom
  obtain ⟨db', ret, hadd, hnx, hdb', -, hcontents⟩ :=
    hsound.add_nx key (o := .string val) trivial hroom
  simp only [setnxCommand, setGenericCommand, hdb, arg_eq hkey, arg_eq hval, hadd, hnx, bind,
    Except.bind]
  refine meets_set hdb' h ?_ ?_ ?_
  · rw [hcontents, hks, Keyspace.setnx]
    split_ifs <;> rfl
  · rw [Keyspace.setnx]
    split_ifs <;> rfl
  · rw [Keyspace.setnx]
    split_ifs <;> exact flatten_ok

theorem setGenericCommand_fault (h : s.Sound) (hfull : s.model.keyspace.Full) (nx : Bool) :
    ∃ fault, setGenericCommand s nx = .error fault := by
  obtain ⟨db, hdb, hsound, hks, -⟩ := db_eq h
  rw [hks] at hfull
  unfold setGenericCommand
  cases hkey : s.arg 1 with
  | error fault => exact ⟨fault, rfl⟩
  | ok key =>
      cases hval : s.arg 2 with
      | error fault => exact ⟨fault, rfl⟩
      | ok val =>
          obtain ⟨fault, hadd⟩ := hsound.add_fault key (.string val) hfull
          exact ⟨fault, by simp only [hdb, hadd, bind, Except.bind]⟩

end Set

theorem getCommand_meets (h : s.Sound) (hkey : s.client.argv[1]? = some key) :
    s.Meets (getCommand s) (s.model.apply (Keyspace.get · key)) := by
  obtain ⟨db, hdb, hsound, hks, -⟩ := db_eq h
  have hclean := clean_keyspace h
  rw [hks] at hclean
  simp only [getCommand, hdb, arg_eq hkey, bind, Except.bind]
  rcases hsound.find_cases key with ⟨hfind, hlook⟩ | ⟨de, hfind, -, -, hlook⟩
  · simp only [hfind]
    refine meets_answer h ?_ flatten_nil
    rw [hks, Keyspace.get, Keyspace.onString, hlook]
  · simp only [hfind]
    cases hde : de.val with
    | string o =>
        rw [hde] at hlook
        simp only [addBulk_eq]
        refine meets_answer h ?_ (flatten_bulk (hclean key _ hlook).2)
        rw [hks, Keyspace.get, Keyspace.onString, hlook]
        rfl
    | list | set =>
        rw [hde] at hlook
        refine meets_answer h ?_ (flatten_bulkError _ (by decide))
        rw [hks, Keyspace.get, Keyspace.onString, hlook]
        rfl

theorem existsCommand_meets (h : s.Sound) (hkey : s.client.argv[1]? = some key) :
    s.Meets (existsCommand s) (s.model.apply (Keyspace.exists? · key)) := by
  obtain ⟨db, hdb, hsound, hks, -⟩ := db_eq h
  simp only [existsCommand, hdb, arg_eq hkey, bind, Except.bind]
  rcases hsound.find_cases key with ⟨hfind, hlook⟩ | ⟨de, hfind, -, -, hlook⟩
  · simp only [hfind]
    refine meets_answer h ?_ flatten_zero
    rw [hks, Keyspace.exists?, if_neg (Finmap.lookup_eq_none.mp hlook)]
  · simp only [hfind]
    refine meets_answer h ?_ flatten_one
    rw [hks, Keyspace.exists?, if_pos (Finmap.mem_of_lookup_eq_some hlook)]

theorem delCommand_meets (h : s.Sound) (hkey : s.client.argv[1]? = some key) :
    s.Meets (delCommand s) (s.model.apply (Keyspace.del · key)) := by
  obtain ⟨db, hdb, hsound, hks, -⟩ := db_eq h
  obtain ⟨hdb', hcontents, hnone⟩ := hsound.dictGenericDelete_spec key
  simp only [delCommand, dictDelete, hdb, arg_eq hkey, bind, Except.bind]
  by_cases hmem : key ∈ db.contents
  · have hsome : (dictGenericDelete sdsDictType db key).2.isSome = true :=
      Option.isSome_iff_ne_none.mpr fun he => hnone.mp he hmem
    simp only [hsome, if_true]
    refine meets_set hdb' h ?_ ?_ flatten_ok
    · rw [hcontents, hks]
      rfl
    · rw [hks, Keyspace.del, if_pos hmem]
  · simp only [hnone.mpr hmem, Option.isSome_none, Bool.false_eq_true, if_false]
    refine meets_set hdb' (n := 0) h ?_ ?_ flatten_ok
    · rw [hcontents, hks]
      rfl
    · rw [hks, Keyspace.del, if_neg hmem]

section Incr

theorem incrValue_eq {db : Database} (hsound : SoundDatabase db) (key : Bytes) :
    incrValue (dictFind sdsDictType db key) = Keyspace.number db.contents key := by
  rcases hsound.find_cases key with ⟨hfind, hlook⟩ | ⟨de, hfind, -, -, hlook⟩
  · rw [hfind, Keyspace.number, hlook]
    rfl
  · rw [hfind, Keyspace.number, hlook]
    simp only [incrValue]
    cases de.val <;> rfl

theorem incrDecrCommand_meets (h : s.Sound) (hkey : s.client.argv[1]? = some key)
    (hroom : ¬s.model.keyspace.Full) (incr : Int) :
    s.Meets (incrDecrCommand s incr) (s.model.apply (Keyspace.incrBy · key incr)) := by
  obtain ⟨db, hdb, hsound, hks, -⟩ := db_eq h
  rw [hks] at hroom
  have hvalue := incrValue_eq hsound key
  obtain ⟨db', ret, db'', hadd, hreplace, hdb'', hcontents⟩ := hsound.add_replace key
    (o := .string (printInt (toInt64 (Keyspace.number db.contents key + incr)))) trivial hroom
  simp only [incrDecrCommand, hdb, arg_eq hkey, hvalue, hadd, hreplace, bind, Except.bind,
    addReply_two]
  refine meets_set hdb'' h ?_ rfl ?_
  · rw [hcontents, hks]
    rfl
  · rw [hks]
    exact flatten_line _

theorem incrDecrCommand_fault (h : s.Sound) (hfull : s.model.keyspace.Full) (incr : Int) :
    ∃ fault, incrDecrCommand s incr = .error fault := by
  obtain ⟨db, hdb, hsound, hks, -⟩ := db_eq h
  rw [hks] at hfull
  unfold incrDecrCommand
  cases hkey : s.arg 1 with
  | error fault => exact ⟨fault, rfl⟩
  | ok key =>
      obtain ⟨fault, hadd⟩ := hsound.add_fault key
        (.string (printInt (toInt64 (incrValue (dictFind sdsDictType db key) + incr)))) hfull
      exact ⟨fault, by simp only [hdb, hadd, bind, Except.bind]⟩

end Incr

end Session

end Cutis

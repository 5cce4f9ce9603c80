import Cutis.Command.Lists
import Cutis.Dict.Iteration

namespace Cutis

-- The members of a set object.
def Dict.members (d : Dict Bytes Unit) : Finset Bytes := d.toFinmap.keys

section Members

variable {d : Dict Bytes Unit} (h : d.Sound SetDictType)

include h in
theorem card_members : d.members.card = d.used := h.toInv.card_keys

include h in
theorem dictAdd_members (el : Bytes) (hroom : d.members.card ≠ 2 ^ 27) :
    ∃ d' status, dictAdd SetDictType d el () = .ok (d', status) ∧ d'.Sound SetDictType ∧
      d'.members = insert el d.members ∧ (status = .DICT_OK ↔ el ∉ d.members) := by
  obtain ⟨d', hd', hadd, hmap⟩ := h.dictAdd_ok setDictType_lawful el ()
    fun hl => hroom ((card_members h).trans hl)
  refine ⟨d', _, hadd, hd', ?_, ?_⟩
  · rw [Dict.members, hmap]
    split_ifs with hmem
    · exact (Finset.insert_eq_of_mem (Finmap.mem_keys.mpr hmem)).symm
    · exact FiniteMap.keys_insert el () _
  · split_ifs with hmem <;> simp [Dict.members, Finmap.mem_keys, hmem]

include h in
theorem dictAdd_members_fault (el : Bytes) (hfull : d.members.card = 2 ^ 27) :
    ∃ fault, dictAdd SetDictType d el () = .error fault :=
  h.dictAdd_fault el () ((card_members h).symm.trans hfull)

include h in
theorem dictDelete_members (el : Bytes) :
    (dictDelete SetDictType d el).1.Sound SetDictType ∧
      (dictDelete SetDictType d el).1.members = d.members.erase el ∧
      ((dictDelete SetDictType d el).2.isSome ↔ el ∈ d.members) := by
  obtain ⟨-, hmap, hentry⟩ := dictGenericDelete_map setDictType_lawful h.toInv el
  refine ⟨h.dictGenericDelete setDictType_lawful el, ?_, ?_⟩
  · rw [Dict.members, dictDelete, hmap, Finmap.keys_erase]
    rfl
  · rw [dictDelete, hentry, Option.isSome_map, Finmap.lookup_isSome, Dict.members, Finmap.mem_keys]

include h in
theorem dictFind_members (el : Bytes) :
    (dictFind SetDictType d el).isSome ↔ el ∈ d.members := by
  rw [dictFind_eq setDictType_lawful h.toInv, Option.isSome_map, Finmap.lookup_isSome,
    Dict.members, Finmap.mem_keys]

include h in
-- The iteration sees every member once.
theorem dictIterate_members :
    ((dictIterate d).map DictEntry.key).Nodup ∧
      (∀ el, el ∈ (dictIterate d).map DictEntry.key ↔ el ∈ d.members) ∧
      (dictIterate d).length = d.used := by
  have hsize : d.size < 2 ^ 31 := Nat.lt_of_le_of_lt h.size_le (by decide)
  rw [dictIterate_eq h.toShape hsize]
  refine ⟨h.nodup, fun el => ?_, h.used_eq.symm⟩
  rw [Dict.members, Finmap.mem_keys, Dict.mem_toFinmap]

end Members

namespace Session

variable {s : Session} {key el : Bytes}

section Update

theorem sAddSet_missing {db : Database} (hsound : SoundDatabase db)
    (hlook : db.contents.lookup key = none) (hfind : dictFind sdsDictType db key = none)
    (hroom : ¬db.contents.Full) :
    ∃ db', sAddSet db key = .ok (db', some dictCreate) ∧ SoundDatabase db' ∧
      db'.contents = db.contents.insert key (.set ∅) := by
  obtain ⟨db', hadd, hdb', hcontents⟩ := hsound.add_new (o := createSetObject)
    (sound_dictCreate SetDictType) hroom hlook
  refine ⟨db', ?_, hdb', hcontents⟩
  rw [sAddSet, hfind]
  simp only [hadd]
  rfl

theorem sAddSet_found {db : Database} {de : DictEntry Bytes CutisObject}
    (hfind : dictFind sdsDictType db key = some de) :
    sAddSet db key = .ok (db, match de.val with
      | .set set => some set
      | _ => none) := by
  simp only [sAddSet, hfind]
  cases de.val <;> rfl

-- The state SADD leaves, for the set it found or made.
theorem meets_sadd (h : s.Sound) {db : Database} {members : Finset Bytes} {d : Dict Bytes Unit}
    {status : DictStatus} {f : Keyspace → Effect} (hsound : SoundDatabase db)
    (hlook : db.contents.lookup key = some (.set members)) (hd : d.Sound SetDictType)
    (hmem : d.members = insert el members) (hstatus : status = .DICT_OK ↔ el ∉ members)
    (hf : f s.model.keyspace =
      { keyspace := db.contents.insert key (.set (insert el members))
        changes := if el ∈ members then 0 else 1, reply := .ok }) :
    s.Meets (.ok ((if status = .DICT_OK
        then (s.setDB (dictSetHashVal sdsDictType db key (.set d))).dirtied
        else s.setDB (dictSetHashVal sdsDictType db key (.set d))).addReply shared.ok))
      (s.model.apply f) := by
  obtain ⟨hdb', hcontents⟩ := hsound.setHashVal (o := .set d) hd hlook
  by_cases hel : el ∈ members
  · rw [if_neg fun he => hstatus.mp he hel]
    refine meets_set hdb' (n := 0) h ?_ ?_ ?_
    · rw [hcontents, hf, ← hmem]
      rfl
    · rw [hf, if_pos hel]
    · rw [hf]
      exact flatten_ok
  · rw [if_pos (hstatus.mpr hel)]
    refine meets_set hdb' (n := 1) h ?_ ?_ ?_
    · rw [hcontents, hf, ← hmem]
      rfl
    · rw [hf, if_neg hel]
    · rw [hf]
      exact flatten_ok

theorem sAddCommand_meets (h : s.Sound) (hkey : s.client.argv[1]? = some key)
    (hel : s.client.argv[2]? = some el) (hroom : key ∉ s.model.keyspace → ¬s.model.keyspace.Full)
    (hset : ∀ members, s.model.keyspace.lookup key = some (.set members) →
      members.card ≠ 2 ^ 27) :
    s.Meets (sAddCommand s) (s.model.apply (Keyspace.sadd · key el)) := by
  obtain ⟨db, hdb, hsound, hks, -⟩ := db_eq h
  rw [hks] at hroom hset
  rcases hsound.find_cases key with ⟨hfind, hlook⟩ | ⟨de, hfind, -, ho, hlook⟩
  · obtain ⟨db', hset', hdb', hcontents⟩ := sAddSet_missing hsound hlook hfind
      (hroom (Finmap.lookup_eq_none.mp hlook))
    obtain ⟨d', status, hadd, hd', hmem, hstatus⟩ :=
      dictAdd_members (sound_dictCreate SetDictType) el (by decide)
    have hlook' : db'.contents.lookup key = some (.set ∅) := by
      rw [hcontents, Finmap.lookup_insert]
    simp only [sAddCommand, hdb, arg_eq hkey, arg_eq hel, hset', hadd, bind, Except.bind]
    refine meets_sadd h hdb' hlook' hd' hmem hstatus ?_
    rw [hks, Keyspace.sadd, Keyspace.onSet, hlook, hcontents, Finmap.insert_insert]
    rfl
  · simp only [sAddCommand, hdb, arg_eq hkey, bind, Except.bind, sAddSet_found hfind]
    cases hde : de.val with
    | set d =>
        rw [hde] at hlook ho
        obtain ⟨d', status, hadd, hd', hmem, hstatus⟩ :=
          dictAdd_members ho el (hset _ hlook)
        simp only [arg_eq hel, hadd]
        refine meets_sadd h hsound hlook hd' hmem hstatus ?_
        rw [hks, Keyspace.sadd, Keyspace.onSet, hlook]
        rfl
    | string | list =>
        rw [hde] at hlook
        refine meets_answer h (r := .error "SADD against key not holding a set value") ?_
          (by decide)
        rw [hks, Keyspace.sadd, Keyspace.onSet, hlook]
        rfl

theorem sAddCommand_fault (h : s.Sound) (hkey : s.client.argv[1]? = some key)
    (hfull : (key ∉ s.model.keyspace ∧ s.model.keyspace.Full) ∨
      ∃ members, s.model.keyspace.lookup key = some (.set members) ∧ members.card = 2 ^ 27) :
    ∃ fault, sAddCommand s = .error fault := by
  obtain ⟨db, hdb, hsound, hks, -⟩ := db_eq h
  rw [hks] at hfull
  simp only [sAddCommand, hdb, arg_eq hkey, bind, Except.bind]
  rcases hsound.find_cases key with ⟨hfind, hlook⟩ | ⟨de, hfind, -, ho, hlook⟩
  · rcases hfull with ⟨-, hfull⟩ | ⟨members, hlook', -⟩
    · obtain ⟨fault, hadd⟩ := hsound.add_fault key createSetObject hfull
      refine ⟨fault, ?_⟩
      rw [sAddSet, hfind]
      simp only [hadd, bind, Except.bind]
    · rw [hlook] at hlook'
      cases hlook'
  · rcases hfull with ⟨hnew, -⟩ | ⟨members, hlook', hcard⟩
    · exact absurd (Finmap.mem_of_lookup_eq_some hlook) hnew
    · rw [sAddSet_found hfind]
      rw [hlook] at hlook'
      cases hde : de.val with
      | set d =>
          rw [hde] at hlook' ho
          have hmembers : d.members = members := by
            injection Option.some.inj hlook'
          cases hel : s.arg 2 with
          | error fault => exact ⟨fault, rfl⟩
          | ok el =>
              obtain ⟨fault, hadd⟩ := dictAdd_members_fault ho el (hmembers ▸ hcard)
              exact ⟨fault, by simp only [hadd]⟩
      | string | list =>
          rw [hde] at hlook'
          cases hlook'

theorem sRemCommand_meets (h : s.Sound) (hkey : s.client.argv[1]? = some key)
    (hel : s.client.argv[2]? = some el) :
    s.Meets (sRemCommand s) (s.model.apply (Keyspace.srem · key el)) := by
  obtain ⟨db, hdb, hsound, hks, -⟩ := db_eq h
  simp only [sRemCommand, hdb, arg_eq hkey, bind, Except.bind]
  rcases hsound.find_cases key with ⟨hfind, hlook⟩ | ⟨de, hfind, -, ho, hlook⟩
  · simp only [hfind]
    refine meets_answer h (r := .error "no such key") ?_ (by decide)
    rw [hks, Keyspace.srem, Keyspace.onSet, hlook]
  · simp only [hfind]
    cases hde : de.val with
    | set d =>
        rw [hde] at hlook ho
        obtain ⟨hd', hmem, hsome⟩ := dictDelete_members ho el
        obtain ⟨hdb', hcontents⟩ := hsound.setHashVal (o := .set (dictDelete SetDictType d el).1)
          hd' hlook
        have hf : Keyspace.srem s.model.keyspace key el =
            { keyspace := db.contents.insert key (.set (d.members.erase el))
              changes := if el ∈ d.members then 1 else 0, reply := .ok } := by
          rw [hks, Keyspace.srem, Keyspace.onSet, hlook]
          rfl
        simp only [arg_eq hel]
        by_cases hel' : el ∈ d.members
        · simp only [hsome.mpr hel', if_true]
          refine meets_set hdb' (n := 1) h ?_ ?_ ?_
          · rw [hcontents, hf, ← hmem]
            rfl
          · rw [hf, if_pos hel']
          · rw [hf]
            exact flatten_ok
        · simp only [Bool.eq_false_iff.mpr fun he => hel' (hsome.mp he), Bool.false_eq_true,
            if_false]
          refine meets_set hdb' (n := 0) h ?_ ?_ ?_
          · rw [hcontents, hf, ← hmem]
            rfl
          · rw [hf, if_neg hel']
          · rw [hf]
            exact flatten_ok
    | string | list =>
        rw [hde] at hlook
        refine meets_answer h (r := .error "SREM against key not holding a set value") ?_
          (by decide)
        rw [hks, Keyspace.srem, Keyspace.onSet, hlook]
        rfl

end Update

theorem sIsMemberCommand_meets (h : s.Sound) (hkey : s.client.argv[1]? = some key)
    (hel : s.client.argv[2]? = some el) :
    s.Meets (sIsMemberCommand s) (s.model.apply (Keyspace.sismember · key el)) := by
  obtain ⟨db, hdb, hsound, hks, -⟩ := db_eq h
  simp only [sIsMemberCommand, hdb, arg_eq hkey, bind, Except.bind]
  rcases hsound.find_cases key with ⟨hfind, hlook⟩ | ⟨de, hfind, -, ho, hlook⟩
  · simp only [hfind]
    refine meets_answer h (r := .int (-1)) ?_ (by decide)
    rw [hks, Keyspace.sismember, Keyspace.onSet, hlook]
  · simp only [hfind]
    cases hde : de.val with
    | set d =>
        rw [hde] at hlook ho
        have hmem := dictFind_members ho el
        simp only [arg_eq hel]
        cases hfind' : dictFind SetDictType d el with
        | some _ =>
            rw [hfind'] at hmem
            refine meets_answer h (r := .one) ?_ flatten_one
            rw [hks, Keyspace.sismember, Keyspace.onSet, hlook]
            exact congrArg _ (if_pos (hmem.mp rfl))
        | none =>
            rw [hfind'] at hmem
            refine meets_answer h (r := .zero) ?_ flatten_zero
            rw [hks, Keyspace.sismember, Keyspace.onSet, hlook]
            exact congrArg _ (if_neg fun he => nomatch hmem.mpr he)
    | string | list =>
        rw [hde] at hlook
        refine meets_answer h (r := .int (-1)) ?_ (by decide)
        rw [hks, Keyspace.sismember, Keyspace.onSet, hlook]
        rfl

theorem sCardCommand_meets (h : s.Sound) (hkey : s.client.argv[1]? = some key) :
    s.Meets (sCardCommand s) (s.model.apply (Keyspace.scard · key)) := by
  obtain ⟨db, hdb, hsound, hks, -⟩ := db_eq h
  simp only [sCardCommand, hdb, arg_eq hkey, bind, Except.bind]
  rcases hsound.find_cases key with ⟨hfind, hlook⟩ | ⟨de, hfind, -, ho, hlook⟩
  · simp only [hfind]
    refine meets_answer h ?_ flatten_zero
    rw [hks, Keyspace.scard, Keyspace.onSet, hlook]
  · simp only [hfind]
    cases hde : de.val with
    | set d =>
        rw [hde] at hlook ho
        have hint : toInt32 d.used = d.members.card := by
          have hle := ho.used_le_limit
          rw [toInt32_natCast _ (Nat.lt_of_le_of_lt hle (by decide)), card_members ho]
        refine meets_answer h (r := .int d.members.card) ?_ ?_
        · rw [hks, Keyspace.scard, Keyspace.onSet, hlook]
          rfl
        · rw [← hint]
          exact flatten_intLine _
    | string | list =>
        rw [hde] at hlook
        refine meets_answer h (r := .int (-1)) ?_ (by decide)
        rw [hks, Keyspace.scard, Keyspace.onSet, hlook]
        rfl

end Session

end Cutis

import Cutis.Command.Strings

namespace Cutis

namespace SoundDatabase

variable {db : Database}

-- A change of a value through its pointer.
theorem setHashVal (h : SoundDatabase db) {key : Bytes} {v : Value} {o : CutisObject}
    (ho : o.Sound) (hlook : db.contents.lookup key = some v) :
    SoundDatabase (dictSetHashVal sdsDictType db key o) ∧
      (dictSetHashVal sdsDictType db key o).contents = db.contents.insert key o.value :=
  h.dictSetHashVal_spec ho (Finmap.mem_of_lookup_eq_some hlook)

-- An addition of a key that is not there.
theorem add_new (h : SoundDatabase db) {key : Bytes} {o : CutisObject} (ho : o.Sound)
    (hroom : ¬db.contents.Full) (hlook : db.contents.lookup key = none) :
    ∃ db', dictAdd sdsDictType db key o = .ok (db', .DICT_OK) ∧ SoundDatabase db' ∧
      db'.contents = db.contents.insert key o.value := by
  obtain ⟨db', hdb', hadd, hcontents⟩ := h.dictAdd_ok key ho fun hl => hroom (h.full_iff.mpr hl)
  have hkey : key ∉ db.contents := Finmap.lookup_eq_none.mp hlook
  rw [if_neg hkey] at hadd hcontents
  exact ⟨db', hadd, hdb', hcontents⟩

end SoundDatabase

namespace Session

variable {s : Session} {key : Bytes}

section Push

theorem pushGenericCommand_meets (h : s.Sound) {el : Bytes} (hkey : s.client.argv[1]? = some key)
    (hel : s.client.argv[2]? = some el) (whereEnd : ListEnd)
    (hroom : key ∉ s.model.keyspace → ¬s.model.keyspace.Full) :
    s.Meets (pushGenericCommand s whereEnd) (s.model.apply (Keyspace.push · key whereEnd el)) := by
  obtain ⟨db, hdb, hsound, hks, -⟩ := db_eq h
  rw [hks] at hroom
  simp only [pushGenericCommand, hdb, arg_eq hkey, arg_eq hel, bind, Except.bind]
  rcases hsound.find_cases key with ⟨hfind, hlook⟩ | ⟨de, hfind, -, -, hlook⟩
  · have hnew : listAddNode [] el whereEnd = [el] := by cases whereEnd <;> rfl
    obtain ⟨db', hadd, hdb', hcontents⟩ := hsound.add_new (o := .list [el]) trivial
      (hroom (Finmap.lookup_eq_none.mp hlook)) hlook
    simp only [hfind, hnew, hadd]
    refine meets_set hdb' h ?_ ?_ ?_
    · rw [hcontents, hks, Keyspace.push, Keyspace.onList, hlook]
      rfl
    · rw [hks, Keyspace.push, Keyspace.onList, hlook]
      rfl
    · rw [hks, Keyspace.push, Keyspace.onList, hlook]
      exact flatten_ok
  · simp only [hfind]
    cases hde : de.val with
    | list l =>
        rw [hde] at hlook
        obtain ⟨hdb', hcontents⟩ := hsound.setHashVal (o := .list (listAddNode l el whereEnd))
          trivial hlook
        refine meets_set hdb' h ?_ ?_ ?_
        · rw [hcontents, hks, Keyspace.push, Keyspace.onList, hlook]
          rfl
        · rw [hks, Keyspace.push, Keyspace.onList, hlook]
          rfl
        · rw [hks, Keyspace.push, Keyspace.onList, hlook]
          exact flatten_ok
    | string | set =>
        rw [hde] at hlook
        refine meets_answer h (r := .ofString "-ERR push against existing key not holding a list ")
          ?_ (by decide)
        rw [hks, Keyspace.push, Keyspace.onList, hlook]
        rfl

theorem pushGenericCommand_fault (h : s.Sound) (hkey : s.client.argv[1]? = some key)
    (whereEnd : ListEnd) (hnew : key ∉ s.model.keyspace) (hfull : s.model.keyspace.Full) :
    ∃ fault, pushGenericCommand s whereEnd = .error fault := by
  obtain ⟨db, hdb, hsound, hks, -⟩ := db_eq h
  rw [hks] at hnew hfull
  unfold pushGenericCommand
  cases hel : s.arg 2 with
  | error fault => exact ⟨fault, rfl⟩
  | ok el =>
      rcases hsound.find_cases key with ⟨hfind, -⟩ | ⟨de, -, -, -, hlook⟩
      · obtain ⟨fault, hadd⟩ := hsound.add_fault key (.list (listAddNode [] el whereEnd)) hfull
        exact ⟨fault, by simp only [hdb, arg_eq hkey, hfind, hadd, bind, Except.bind]⟩
      · exact absurd (Finmap.mem_of_lookup_eq_some hlook) hnew

end Push

theorem popGenericCommand_meets (h : s.Sound) (hkey : s.client.argv[1]? = some key)
    (whereEnd : ListEnd) :
    s.Meets (popGenericCommand s whereEnd) (s.model.apply (Keyspace.pop · key whereEnd)) := by
  obtain ⟨db, hdb, hsound, hks, -⟩ := db_eq h
  have hclean := clean_keyspace h
  rw [hks] at hclean
  simp only [popGenericCommand, hdb, arg_eq hkey, bind, Except.bind]
  rcases hsound.find_cases key with ⟨hfind, hlook⟩ | ⟨de, hfind, -, -, hlook⟩
  · simp only [hfind]
    refine meets_answer h ?_ flatten_nil
    rw [hks, Keyspace.pop, Keyspace.onList, hlook]
  · simp only [hfind]
    cases hde : de.val with
    | list l =>
        rw [hde] at hlook
        cases hpop : listPop l whereEnd with
        | none =>
            simp only [hpop]
            refine meets_answer h ?_ flatten_nil
            rw [hks, Keyspace.pop, Keyspace.onList, hlook]
            simp only [CutisObject.value, hpop]
        | some popped =>
            obtain ⟨el, rest⟩ := popped
            have hmem : el ∈ l := by
              cases whereEnd with
              | CUTIS_HEAD =>
                  obtain ⟨el', hhead, heq⟩ := Option.map_eq_some_iff.mp hpop
                  obtain ⟨rfl, -⟩ := Prod.mk.inj heq
                  exact List.mem_of_head? hhead
              | CUTIS_TAIL =>
                  obtain ⟨el', hlast, heq⟩ := Option.map_eq_some_iff.mp hpop
                  obtain ⟨rfl, -⟩ := Prod.mk.inj heq
                  exact List.mem_of_getLast? hlast
            obtain ⟨hdb', hcontents⟩ := hsound.setHashVal (o := .list rest) trivial hlook
            simp only [hpop, addBulk_eq]
            refine meets_set hdb' (n := 1) h ?_ ?_ ?_
            · rw [hcontents, hks, Keyspace.pop, Keyspace.onList, hlook]
              simp only [CutisObject.value, hpop]
              rfl
            · rw [hks, Keyspace.pop, Keyspace.onList, hlook]
              simp only [CutisObject.value, hpop]
              rfl
            · rw [hks, Keyspace.pop, Keyspace.onList, hlook]
              simp only [CutisObject.value, hpop]
              exact flatten_bulk ((hclean key _ hlook).2 el hmem)
    | string | set =>
        rw [hde] at hlook
        refine meets_answer h ?_ (flatten_bulkError _ (by decide))
        rw [hks, Keyspace.pop, Keyspace.onList, hlook]
        rfl

theorem lLenCommand_meets (h : s.Sound) (hkey : s.client.argv[1]? = some key) :
    s.Meets (lLenCommand s) (s.model.apply (Keyspace.llen · key)) := by
  obtain ⟨db, hdb, hsound, hks, -⟩ := db_eq h
  simp only [lLenCommand, hdb, arg_eq hkey, bind, Except.bind]
  rcases hsound.find_cases key with ⟨hfind, hlook⟩ | ⟨de, hfind, -, -, hlook⟩
  · simp only [hfind]
    refine meets_answer h ?_ flatten_zero
    rw [hks, Keyspace.llen, Keyspace.onList, hlook]
  · simp only [hfind]
    cases hde : de.val with
    | list l =>
        rw [hde] at hlook
        refine meets_answer h ?_ (flatten_intLine _)
        rw [hks, Keyspace.llen, Keyspace.onList, hlook]
        rfl
    | string | set =>
        rw [hde] at hlook
        refine meets_answer h (r := .int (-1)) ?_ (by decide)
        rw [hks, Keyspace.llen, Keyspace.onList, hlook]
        rfl

theorem mem_of_listIndex {l : List Bytes} {index : Int} {el : Bytes}
    (h : listIndex l index = some el) : el ∈ l := by
  rw [listIndex] at h
  split_ifs at h with hneg
  · exact List.mem_reverse.mp (List.mem_of_getElem? h)
  · exact List.mem_of_getElem? h

theorem lIndexCommand_meets (h : s.Sound) {arg : Bytes} (hkey : s.client.argv[1]? = some key)
    (harg : s.client.argv[2]? = some arg) :
    s.Meets (lIndexCommand s) (s.model.apply (Keyspace.lindex · key (atoi arg))) := by
  obtain ⟨db, hdb, hsound, hks, -⟩ := db_eq h
  have hclean := clean_keyspace h
  rw [hks] at hclean
  simp only [lIndexCommand, hdb, arg_eq hkey, arg_eq harg, bind, Except.bind]
  rcases hsound.find_cases key with ⟨hfind, hlook⟩ | ⟨de, hfind, -, -, hlook⟩
  · simp only [hfind]
    refine meets_answer h ?_ flatten_nil
    rw [hks, Keyspace.lindex, Keyspace.onList, hlook]
  · simp only [hfind]
    cases hde : de.val with
    | list l =>
        rw [hde] at hlook
        cases hindex : listIndex l (atoi arg) with
        | none =>
            simp only [hindex]
            refine meets_answer h ?_ flatten_nil
            rw [hks, Keyspace.lindex, Keyspace.onList, hlook]
            simp only [CutisObject.value, hindex, Option.elim]
        | some el =>
            simp only [hindex, addBulk_eq]
            refine meets_answer h ?_
              (flatten_bulk ((hclean key _ hlook).2 el (mem_of_listIndex hindex)))
            rw [hks, Keyspace.lindex, Keyspace.onList, hlook]
            simp only [CutisObject.value, hindex, Option.elim]
    | string | set =>
        rw [hde] at hlook
        refine meets_answer h ?_ (flatten_bulkError _ (by decide))
        rw [hks, Keyspace.lindex, Keyspace.onList, hlook]
        rfl

section Ranges

theorem rangeBounds_some {llen start endIdx a b : Int}
    (h : rangeBounds llen start endIdx = some (a, b)) : 0 ≤ a ∧ a ≤ b ∧ b < llen := by
  unfold rangeBounds at h
  simp only at h
  split_ifs at h with h1 h2 h3 <;>
    · obtain ⟨rfl, rfl⟩ := Prod.mk.inj (Option.some.inj h)
      omega

theorem addReplySds_after (s : Session) (o : Bytes) (reply : List Bytes) :
    (s.addReplySds o).after (s.addReplySds o).server.dict (s.addReplySds o).client.dict 0 reply =
      s.after s.server.dict s.client.dict 0 (o :: reply) := by
  simp [addReplySds, addReply, after]

theorem addRange_eq (l : List Bytes) (n : Nat) (s : Session) (hn : n ≤ l.length) :
    addRange n l s =
      .ok (s.after s.server.dict s.client.dict 0 ((l.take n).flatMap bulkParts)) := by
  induction n generalizing l s with
  | zero => simp [addRange, after, pure, Except.pure]
  | succ n ih =>
      cases l with
      | nil => simp at hn
      | cons el next =>
          rw [addRange, ih next _ (by simpa using hn), addBulk_eq]
          simp [after]

-- The number of elements between the bounds.
theorem range_length {l : List Bytes} {start endIdx a b : Int}
    (h : rangeBounds (toInt32 l.length) start endIdx = some (a, b)) :
    ∃ n : Nat, b - a + 1 = n ∧ a.toNat + n ≤ l.length ∧ n < 2 ^ 31 := by
  obtain ⟨ha, hab, hb⟩ := rangeBounds_some h
  have hle := toInt32_natCast_le l.length
  have hlt := toInt32_lt l.length
  exact ⟨(b - a + 1).toNat, by omega, by omega, by omega⟩

theorem flatten_multi {elements : List Bytes} (hlen : elements.length < 2 ^ 31)
    (hel : ∀ el ∈ elements, el.length < 2 ^ 31) :
    (intLine elements.length :: elements.flatMap bulkParts).flatten =
      (Reply.multi elements).encode := by
  have hparts : (elements.flatMap bulkParts).flatten = elements.flatMap Reply.encodeBulk := by
    induction elements with
    | nil => rfl
    | cons el rest ih =>
        rw [List.flatMap_cons, List.flatten_append, flatten_bulk (hel el (by simp)),
          ih (by simp at hlen; omega) fun el hmem => hel el (by simp [hmem]), List.flatMap_cons]
        rfl
  rw [List.flatten_cons, intLine_length hlen, hparts]
  simp [Reply.encode]

theorem lRangeCommand_meets (h : s.Sound) {arg2 arg3 : Bytes}
    (hkey : s.client.argv[1]? = some key) (harg2 : s.client.argv[2]? = some arg2)
    (harg3 : s.client.argv[3]? = some arg3) :
    s.Meets (lRangeCommand s)
      (s.model.apply (Keyspace.lrange · key (atoi arg2) (atoi arg3))) := by
  obtain ⟨db, hdb, hsound, hks, -⟩ := db_eq h
  have hclean := clean_keyspace h
  rw [hks] at hclean
  simp only [lRangeCommand, hdb, arg_eq hkey, arg_eq harg2, arg_eq harg3, bind, Except.bind]
  rcases hsound.find_cases key with ⟨hfind, hlook⟩ | ⟨de, hfind, -, -, hlook⟩
  · simp only [hfind]
    refine meets_answer h ?_ flatten_nil
    rw [hks, Keyspace.lrange, Keyspace.onList, hlook]
  · simp only [hfind]
    cases hde : de.val with
    | list l =>
        rw [hde] at hlook
        cases hbounds : rangeBounds (toInt32 l.length) (atoi arg2) (atoi arg3) with
        | none =>
            simp only [hbounds]
            refine meets_answer h (r := .multi []) ?_ (by decide)
            rw [hks, Keyspace.lrange, Keyspace.onList, hlook]
            simp only [CutisObject.value, Keyspace.range, hbounds]
        | some bounds =>
            obtain ⟨a, b⟩ := bounds
            obtain ⟨n, hn, hle, hint⟩ := range_length hbounds
            have hlen : ((l.drop a.toNat).take n).length = n := by
              rw [List.length_take, List.length_drop]
              omega
            simp only [hbounds, hn, Int.toNat_natCast]
            have hrun := addRange_eq (l.drop a.toNat) n (s.addReplySds (intLine n))
              (by rw [List.length_drop]; omega)
            rw [hrun, addReplySds_after]
            refine meets_answer h (r := .multi ((l.drop a.toNat).take n)) ?_ ?_
            · rw [hks, Keyspace.lrange, Keyspace.onList, hlook]
              simp only [CutisObject.value, Keyspace.range, hbounds, hn, Int.toNat_natCast]
            · have hmulti := @flatten_multi ((l.drop a.toNat).take n) (by rw [hlen]; exact hint)
                fun el hmem => (hclean key _ hlook).2 el
                  (List.mem_of_mem_drop (List.mem_of_mem_take hmem))
              rwa [hlen] at hmulti
    | string | set =>
        rw [hde] at hlook
        refine meets_answer h ?_ (flatten_bulkError _ (by decide))
        rw [hks, Keyspace.lrange, Keyspace.onList, hlook]
        rfl

theorem delNodes_head (n : Nat) (l : List Bytes) (hn : n ≤ l.length) :
    delNodes .CUTIS_HEAD n l = .ok (l.drop n) := by
  induction n generalizing l with
  | zero => rfl
  | succ n ih =>
      cases l with
      | nil => simp at hn
      | cons el l => exact ih l (by simpa using hn)

theorem delNodes_tail (n : Nat) (l : List Bytes) (hn : n ≤ l.length) :
    delNodes .CUTIS_TAIL n l = .ok (l.take (l.length - n)) := by
  induction n generalizing l with
  | zero =>
      rw [Nat.sub_zero, List.take_length]
      rfl
  | succ n ih =>
      have hne : l ≠ [] := by
        rintro rfl
        simp at hn
      have hpop : listPop l .CUTIS_TAIL = some (l.getLast hne, l.dropLast) := by
        rw [listPop, List.getLast?_eq_some_getLast hne]
        rfl
      have hrest := ih l.dropLast (by rw [List.length_dropLast]; omega)
      have htake : l.dropLast.take (l.dropLast.length - n) = l.take (l.length - (n + 1)) := by
        rw [List.length_dropLast, List.dropLast_eq_take, List.take_take]
        congr 1
        omega
      rw [delNodes, hpop]
      rw [htake] at hrest
      exact hrest

theorem trimNodes_eq (l : List Bytes) (start endIdx : Int) :
    trimNodes l start endIdx = .ok (Keyspace.trimmed l start endIdx) := by
  have hle := toInt32_natCast_le l.length
  unfold trimNodes Keyspace.trimmed
  generalize hllen : toInt32 l.length = llen at hle ⊢
  cases hbounds : rangeBounds llen start endIdx with
  | none =>
      simp only [hbounds, delNodes_head llen.toNat l (by omega), bind, Except.bind, Int.toNat_zero,
        delNodes]
      rfl
  | some bounds =>
      obtain ⟨a, b⟩ := bounds
      obtain ⟨ha, hab, hb⟩ := rangeBounds_some hbounds
      have hright : (llen - b - 1).toNat ≤ (l.drop a.toNat).length := by
        rw [List.length_drop]
        omega
      simp only [hbounds, delNodes_head a.toNat l (by omega), bind, Except.bind,
        delNodes_tail _ _ hright, List.length_drop]

theorem lTrimCommand_meets (h : s.Sound) {arg2 arg3 : Bytes}
    (hkey : s.client.argv[1]? = some key) (harg2 : s.client.argv[2]? = some arg2)
    (harg3 : s.client.argv[3]? = some arg3) :
    s.Meets (lTrimCommand s)
      (s.model.apply (Keyspace.ltrim · key (atoi arg2) (atoi arg3))) := by
  obtain ⟨db, hdb, hsound, hks, -⟩ := db_eq h
  simp only [lTrimCommand, hdb, arg_eq hkey, arg_eq harg2, arg_eq harg3, bind, Except.bind]
  rcases hsound.find_cases key with ⟨hfind, hlook⟩ | ⟨de, hfind, -, -, hlook⟩
  · simp only [hfind]
    refine meets_answer h (r := .error "no such key") ?_ (by decide)
    rw [hks, Keyspace.ltrim, Keyspace.onList, hlook]
  · simp only [hfind]
    cases hde : de.val with
    | list l =>
        rw [hde] at hlook
        obtain ⟨hdb', hcontents⟩ := hsound.setHashVal
          (o := .list (Keyspace.trimmed l (atoi arg2) (atoi arg3))) trivial hlook
        simp only [trimNodes_eq]
        refine meets_set hdb' (n := 1) h ?_ ?_ ?_
        · rw [hcontents, hks, Keyspace.ltrim, Keyspace.onList, hlook]
          rfl
        · rw [hks, Keyspace.ltrim, Keyspace.onList, hlook]
          rfl
        · rw [hks, Keyspace.ltrim, Keyspace.onList, hlook]
          exact flatten_ok
    | string | set =>
        rw [hde] at hlook
        refine meets_answer h (r := .error "LTRIM against key not holding a list value") ?_
          (by decide)
        rw [hks, Keyspace.ltrim, Keyspace.onList, hlook]
        rfl

end Ranges

theorem lSetCommand_meets (h : s.Sound) {arg el : Bytes} (hkey : s.client.argv[1]? = some key)
    (harg : s.client.argv[2]? = some arg) (hel : s.client.argv[3]? = some el) :
    s.Meets (lSetCommand s) (s.model.apply (Keyspace.lset · key (atoi arg) el)) := by
  obtain ⟨db, hdb, hsound, hks, -⟩ := db_eq h
  simp only [lSetCommand, hdb, arg_eq hkey, arg_eq harg, bind, Except.bind]
  rcases hsound.find_cases key with ⟨hfind, hlook⟩ | ⟨de, hfind, -, -, hlook⟩
  · simp only [hfind]
    refine meets_answer h (r := .error "no such key") ?_ (by decide)
    rw [hks, Keyspace.lset, Keyspace.onList, hlook]
  · simp only [hfind]
    cases hde : de.val with
    | list l =>
        rw [hde] at hlook
        cases hindex : listIndex l (atoi arg) with
        | none =>
            simp only [hindex]
            refine meets_answer h (r := .error "index out of range") ?_ (by decide)
            rw [hks, Keyspace.lset, Keyspace.onList, hlook]
            simp only [CutisObject.value, hindex]
        | some old =>
            obtain ⟨hdb', hcontents⟩ := hsound.setHashVal
              (o := .list (listSetIndex l (atoi arg) el)) trivial hlook
            simp only [hindex, arg_eq hel]
            refine meets_set hdb' (n := 1) h ?_ ?_ ?_
            · rw [hcontents, hks, Keyspace.lset, Keyspace.onList, hlook]
              simp only [CutisObject.value, hindex]
              rfl
            · rw [hks, Keyspace.lset, Keyspace.onList, hlook]
              simp only [CutisObject.value, hindex]
              rfl
            · rw [hks, Keyspace.lset, Keyspace.onList, hlook]
              simp only [CutisObject.value, hindex]
              exact flatten_ok
    | string | set =>
        rw [hde] at hlook
        refine meets_answer h (r := .error "LSET against key not holding a list value") ?_
          (by decide)
        rw [hks, Keyspace.lset, Keyspace.onList, hlook]
        rfl

end Session

end Cutis

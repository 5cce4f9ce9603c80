import Cutis.Command.Queries
import Cutis.StringMatch.Pattern

namespace Cutis

-- A key a listing can show: a word without the separator.
def Listable (key : Bytes) : Prop := key ≠ [] ∧ SPACE ∉ key ∧ NUL ∉ key

instance (key : Bytes) : Decidable (Listable key) := inferInstanceAs (Decidable (_ ∧ _))

-- The keys in the body of a listing.
def listed (body : Bytes) : List Bytes := if body = [] then [] else body.splitOn SPACE

section Body

variable {keys : List Bytes}

theorem not_trimmed {key : Bytes} (hkey : Listable key) {c : UInt8} (hc : c ∈ key) :
    ([SPACE].contains c || c == NUL) = false := by
  have hspace : c ≠ SPACE := fun h => hkey.2.1 (h ▸ hc)
  have hnul : c ≠ NUL := fun h => hkey.2.2 (h ▸ hc)
  simp [hspace, hnul]

theorem sdstrim_separator {body : Bytes} {first last : UInt8}
    (hfirst : body.head? = some first) (hlast : body.getLast? = some last)
    (hkeep : ([SPACE].contains first || first == NUL) = false)
    (hkeep' : ([SPACE].contains last || last == NUL) = false) :
    sdstrim (body ++ [SPACE]) [SPACE] = body := by
  obtain ⟨front, rfl⟩ := List.getLast?_eq_some_iff.mp hlast
  obtain ⟨back, hback⟩ := List.head?_eq_some_iff.mp hfirst
  rw [sdstrim, hback, List.cons_append, List.dropWhile_cons_of_neg (by simpa using hkeep),
    ← List.cons_append, ← hback, List.reverse_append, List.reverse_singleton, List.singleton_append,
    List.dropWhile_cons_of_pos (by decide), List.reverse_append, List.reverse_singleton,
    List.singleton_append, List.dropWhile_cons_of_neg (by simpa using hkeep'),
    List.reverse_cons, List.reverse_reverse]

theorem flatMap_separator (key : Bytes) (keys : List Bytes) :
    (key :: keys).flatMap (· ++ [SPACE]) = [SPACE].intercalate (key :: keys) ++ [SPACE] := by
  induction keys generalizing key with
  | nil => simp
  | cons next keys ih =>
      rw [List.flatMap_cons, ih, List.intercalate_cons_cons]
      simp

theorem sdstrim_listing (hkeys : ∀ key ∈ keys, Listable key) :
    sdstrim (keys.flatMap (· ++ [SPACE])) [SPACE] = [SPACE].intercalate keys := by
  cases keys with
  | nil => rfl
  | cons key keys =>
      obtain ⟨first, hfirst, hkept⟩ : ∃ first,
          ([SPACE].intercalate (key :: keys)).head? = some first ∧
          ([SPACE].contains first || first == NUL) = false := by
        have hkey := hkeys key List.mem_cons_self
        obtain ⟨first, back, rfl⟩ := List.exists_cons_of_ne_nil hkey.1
        refine ⟨first, ?_, not_trimmed hkey List.mem_cons_self⟩
        cases keys <;> simp
      obtain ⟨last, hlast, hkept'⟩ : ∃ last,
          ([SPACE].intercalate (key :: keys)).getLast? = some last ∧
          ([SPACE].contains last || last == NUL) = false := by
        clear hfirst hkept
        induction keys generalizing key with
        | nil =>
            have hkey := hkeys key List.mem_cons_self
            have hlast := List.getLast?_eq_some_getLast hkey.1
            exact ⟨_, by simpa using hlast, not_trimmed hkey (List.getLast_mem hkey.1)⟩
        | cons next keys ih =>
            obtain ⟨last, hlast, hkept⟩ :=
              ih next fun key hkey => hkeys key (List.mem_cons_of_mem _ hkey)
            refine ⟨last, ?_, hkept⟩
            rw [List.intercalate_cons_cons, List.getLast?_append, hlast]
            rfl
      rw [flatMap_separator, sdstrim_separator hfirst hlast hkept hkept']

theorem listed_listing (hkeys : ∀ key ∈ keys, Listable key) :
    listed ([SPACE].intercalate keys) = keys := by
  cases keys with
  | nil => rfl
  | cons key keys =>
      have hne : [SPACE].intercalate (key :: keys) ≠ [] := by
        obtain ⟨first, back, rfl⟩ :=
          List.exists_cons_of_ne_nil (hkeys key List.mem_cons_self).1
        cases keys <;> simp
      rw [listed, if_neg hne]
      exact List.splitOn_intercalate SPACE (fun key hkey => (hkeys key hkey).2.1)
        (List.cons_ne_nil _ _)

end Body

section Loop

variable {pattern : Bytes}

theorem stringMatch_star {key : Bytes} (hkey : key ≠ []) :
    stringMatch [STAR] key false = .ok true := by
  rw [stringMatch, stringMatchLoop_eq (Nat.lt_succ_self _) hkey, parsePattern_star, parsePattern_nil]
  exact globResult_star_end

-- The test for the pattern of one star is a shortcut.
theorem keysMatch_eq (hpattern : NUL ∉ pattern) {key : Bytes} (hkey : key ≠ []) :
    keysMatch pattern key = stringMatch pattern key false := by
  rw [keysMatch, cstr_eq_self hpattern]
  split_ifs with hstar
  · rw [hstar]
    exact (stringMatch_star hkey).symm
  · rfl

-- The keys that match, in the order of the table.
def matching (pattern : Bytes) (entries : List (DictEntry Bytes CutisObject)) : List Bytes :=
  (entries.map DictEntry.key).filter fun key => stringMatch pattern key false matches .ok true

theorem mem_matching {entries : List (DictEntry Bytes CutisObject)} {key : Bytes} :
    key ∈ matching pattern entries ↔
      key ∈ entries.map DictEntry.key ∧ stringMatch pattern key false = .ok true := by
  rw [matching, List.mem_filter]
  refine and_congr_right' ?_
  cases stringMatch pattern key false with
  | error fault => simp
  | ok b => cases b <;> simp

theorem keysLoop_eq (hpattern : NUL ∉ pattern) {entries : List (DictEntry Bytes CutisObject)}
    (hkeys : ∀ de ∈ entries, de.key ≠ [])
    (hends : ∀ de ∈ entries, ∃ b, stringMatch pattern de.key false = .ok b) (keys : Bytes) :
    keysLoop pattern entries keys =
      .ok (keys ++ (matching pattern entries).flatMap (· ++ [SPACE])) := by
  induction entries generalizing keys with
  | nil => simp [keysLoop, matching, pure, Except.pure]
  | cons de rest ih =>
      have hrest := ih (fun de' h => hkeys de' (List.mem_cons_of_mem _ h)) fun de' h =>
        hends de' (List.mem_cons_of_mem _ h)
      obtain ⟨b, hb⟩ := hends de List.mem_cons_self
      rw [keysLoop, keysMatch_eq hpattern (hkeys de List.mem_cons_self), hb, ok_bind]
      cases b with
      | true =>
          rw [if_pos rfl, hrest]
          simp [matching, hb]
      | false =>
          rw [if_neg Bool.false_ne_true, hrest]
          simp [matching, hb]

end Loop

namespace Session

variable {s : Session} {db : Database}

-- DEL for each of the keys.
def delAll : List Bytes → Session → Except Fault Session
  | [], s => return s
  | key :: keys, s => do
      delAll keys (← delCommand { s with client := { s.client with argv := [sdsnew "del", key] } })

theorem db_setDB (hdb : s.db = .ok db) (db' : Database) : (s.setDB db').db = .ok db' := by
  have hlt : s.client.dict < s.server.dict.length := by
    by_contra hge
    rw [Session.db, dict, List.getElem?_eq_none (Nat.le_of_not_lt hge)] at hdb
    cases hdb
  rw [Session.db, dict, setDB, setDict, List.getElem?_set_self hlt]
  rfl

theorem delCommand_db (hdb : s.db = .ok db) (hinv : db.Inv sdsDictType) {key : Bytes}
    (hkey : s.client.argv[1]? = some key) :
    ∃ s' db', delCommand s = .ok s' ∧ s'.db = .ok db' ∧ db'.Inv sdsDictType ∧
      db'.toFinmap = db.toFinmap.erase key := by
  obtain ⟨hinv', hmap, -⟩ := dictGenericDelete_map sdsDictType_lawful hinv key
  have hset := db_setDB hdb (dictGenericDelete sdsDictType db key).1
  rw [delCommand, hdb, arg_eq hkey, ok_bind, ok_bind]
  refine ⟨_, _, rfl, ?_, hinv', hmap⟩
  dsimp only [dictDelete]
  split_ifs <;> exact hset

theorem delAll_db (keys : List Bytes) (hdb : s.db = .ok db) (hinv : db.Inv sdsDictType) :
    ∃ s' db', delAll keys s = .ok s' ∧ s'.db = .ok db' ∧ db'.Inv sdsDictType ∧
      ∀ key, key ∈ db'.toFinmap ↔ key ∈ db.toFinmap ∧ key ∉ keys := by
  induction keys generalizing s db with
  | nil => exact ⟨s, db, rfl, hdb, hinv, fun key => by simp⟩
  | cons key keys ih =>
      obtain ⟨s₁, db₁, hdel, hdb₁, hinv₁, hmap⟩ := @delCommand_db
        { s with client := { s.client with argv := [sdsnew "del", key] } } db hdb hinv key rfl
      obtain ⟨s', db', hall, hdb', hinv', hmem⟩ := ih hdb₁ hinv₁
      refine ⟨s', db', ?_, hdb', hinv', fun other => ?_⟩
      · rw [delAll, hdel, ok_bind, hall]
      · rw [hmem, hmap, Finmap.mem_erase, List.mem_cons, not_or]
        tauto

-- KEYS shows every key that matches once, in a reply of the length it announces, and
-- deleting what KEYS * shows empties the database.
theorem keysCommand_lists (hdb : s.db = .ok db) (hinv : db.Inv sdsDictType)
    (hsize : db.size < 2 ^ 31) (hkeys : ∀ key ∈ db.toFinmap, Listable key) {pattern : Bytes}
    (harg : s.client.argv[1]? = some pattern) (hpattern : NUL ∉ pattern)
    (hends : ∀ key ∈ db.toFinmap, ∃ b, stringMatch pattern key false = .ok b) :
    ∃ body, keysCommand s = .ok (s.addReplySds
        (Decimal.print body.length ++ [CR, LF] ++ body ++ [CR, LF])) ∧
      (listed body).Nodup ∧
      (∀ key, key ∈ listed body ↔ key ∈ db.toFinmap ∧ stringMatch pattern key false = .ok true) ∧
      (pattern = [STAR] → ∃ s', delAll (listed body) s = .ok s' ∧
        dbsizeCommand s' = .ok (s'.addReplySds (sdsnew "0\r\n"))) := by
  have hentry (de) (hde : de ∈ db.entries) : de.key ∈ db.toFinmap :=
    (db.mem_toFinmap _).mpr (List.mem_map_of_mem hde)
  have hlistable : ∀ key ∈ matching pattern db.entries, Listable key := by
    intro key hkey
    exact hkeys key ((db.mem_toFinmap _).mpr (mem_matching.mp hkey).1)
  have hmem (key : Bytes) : key ∈ matching pattern db.entries ↔
      key ∈ db.toFinmap ∧ stringMatch pattern key false = .ok true := by
    rw [mem_matching, Dict.mem_toFinmap]
  refine ⟨[SPACE].intercalate (matching pattern db.entries), ?_, ?_, ?_, ?_⟩
  · rw [keysCommand, arg_eq harg, hdb, ok_bind, ok_bind, dictIterate_eq hinv.toShape hsize,
      keysLoop_eq hpattern (fun de hde => (hkeys _ (hentry de hde)).1) fun de hde =>
        hends _ (hentry de hde), ok_bind, List.nil_append]
    dsimp only
    rw [sdstrim_listing hlistable, crlf_eq]
    rfl
  · rw [listed_listing hlistable]
    exact hinv.nodup.filter _
  · rw [listed_listing hlistable]
    exact hmem
  · rintro rfl
    rw [listed_listing hlistable]
    obtain ⟨s', db', hall, hdb', hinv', hleft⟩ := delAll_db (matching [STAR] db.entries) hdb hinv
    have hempty : db'.used = 0 := by
      rw [← hinv'.card_keys, Finset.card_eq_zero, Finset.eq_empty_iff_forall_notMem]
      intro key hkey
      obtain ⟨hold, hnot⟩ := (hleft key).mp (Finmap.mem_keys.mp hkey)
      exact hnot ((hmem key).mpr ⟨hold, stringMatch_star (hkeys key hold).1⟩)
    refine ⟨s', hall, ?_⟩
    rw [dbsizeCommand, hdb', ok_bind, hempty]
    rfl

-- One key, and KEYS *.
def listedDatabase : Database := tableOf sdsDictType 4 [{ key := sdsnew "ab", val := .string [] }]

def listedSession : Session where
  server := { initServer 1 [] 0 with dict := [listedDatabase] }
  client := { dict := 0, argv := [sdsnew "keys", [STAR]], reply := [] }
  fs := fun _ => none
  child := none
  stop := false

theorem keysCommand_lists_star : ∃ body, keysCommand listedSession = .ok (listedSession.addReplySds
        (Decimal.print body.length ++ [CR, LF] ++ body ++ [CR, LF])) ∧
      (listed body).Nodup ∧
      (∀ key, key ∈ listed body ↔ key ∈ listedDatabase.toFinmap ∧
        stringMatch [STAR] key false = .ok true) ∧
      ([STAR] = [STAR] → ∃ s', delAll (listed body) listedSession = .ok s' ∧
        dbsizeCommand s' = .ok (s'.addReplySds (sdsnew "0\r\n"))) := by
  have hmem (key : Bytes) (hkey : key ∈ listedDatabase.toFinmap) : key = sdsnew "ab" := by
    obtain ⟨de, hde, rfl⟩ := List.mem_map.mp ((listedDatabase.mem_toFinmap key).mp hkey)
    obtain rfl := List.mem_singleton.mp ((tableOf_entries _ _ _).mem_iff.mp hde)
    rfl
  refine @keysCommand_lists listedSession listedDatabase rfl
    (tableOf_inv _ (by decide) (by decide) (by decide) (by decide)) (by decide)
    (fun key hkey => ?_) [STAR] rfl (by decide) fun key hkey => ?_
  · rw [hmem key hkey]
    decide
  · rw [hmem key hkey]
    exact ⟨true, by decide⟩

end Session

end Cutis

import Cutis.Lib.PartialWrites
import Cutis.Server.Format

namespace Cutis

open PartialWrites

-- A table DictNext goes through.
structure Dict.Iterable {K V : Type} (ht : Dict K V) : Prop extends Dict.Shape ht where
  size_lt : ht.size < 2 ^ 31

def CutisObject.Iterable : CutisObject → Prop
  | .set d => d.Iterable
  | _ => True

structure IterableDatabase (db : Database) : Prop extends Dict.Iterable db where
  objects : ∀ he ∈ db.entries, he.val.Iterable

section Writes

-- The writes of a save, in order, with the item size their tests count in.
def typeWrite (type : UInt8) : Write UInt8 := { data := [type], size := 1 }

def lenWrite (len : Nat) : Write UInt8 := { data := htonl len, size := 4 }

def stringWrites (s : Bytes) : List (Write UInt8) :=
  if s.length > 0 then [lenWrite s.length, { data := s, size := 1 }] else [lenWrite s.length]

def objectWrites : CutisObject → List (Write UInt8)
  | .string s => stringWrites s
  | .list l => lenWrite l.length :: l.flatMap stringWrites
  | .set d => lenWrite d.entries.length :: (d.entries.map DictEntry.key).flatMap stringWrites

def entryWrites (de : DictEntry Bytes CutisObject) : List (Write UInt8) :=
  [typeWrite de.val.type, lenWrite de.key.length, { data := de.key, size := 1 }] ++
    objectWrites de.val

def dictWrites (j : Nat) (entries : List (DictEntry Bytes CutisObject)) : List (Write UInt8) :=
  if entries = [] then []
  else [typeWrite CUTIS_SELECT_DB, lenWrite j] ++ entries.flatMap entryWrites

def dictsWrites : Nat → List Database → List (Write UInt8)
  | _, [] => []
  | j, dict :: rest => dictWrites j dict.entries ++ dictsWrites (j + 1) rest

def saveWrites (dict : List Database) : List (Write UInt8) :=
  { data := CUTIS_DB_SIGNATURE, size := 9 } :: (dictsWrites 0 dict ++ [typeWrite CUTIS_EOF])

end Writes

section Run

-- Make the writes one after the other, up to the first one noticed.
def writeAll (io : Stdio) : List (Write UInt8) → SaveFile → Option SaveFile
  | [], fp => some fp
  | w :: rest, fp =>
      if Noticed io.fwrite fp.calls w then none
      else writeAll io rest
        { content := fp.content ++ w.data.take (io.fwrite fp.calls), calls := fp.calls + 1 }

variable (io : Stdio)

theorem writeAll_append (first rest : List (Write UInt8)) (fp : SaveFile) :
    writeAll io (first ++ rest) fp = (writeAll io first fp).bind (writeAll io rest) := by
  induction first generalizing fp with
  | nil => rfl
  | cons w first ih =>
      simp only [List.cons_append, writeAll]
      split_ifs
      · rfl
      · exact ih _

theorem writeAll_cons (w : Write UInt8) (rest : List (Write UInt8)) (fp : SaveFile) :
    writeAll io (w :: rest) fp = (writeAll io [w] fp).bind (writeAll io rest) :=
  writeAll_append io [w] rest fp

theorem writeAll_cons_cons (w w' : Write UInt8) (rest : List (Write UInt8)) (fp : SaveFile) :
    writeAll io (w :: w' :: rest) fp = (writeAll io [w] fp).bind (writeAll io (w' :: rest)) :=
  writeAll_cons io w _ fp

theorem writeAll_none {ws : List (Write UInt8)} {fp : SaveFile}
    (h : SomeNoticed io.fwrite fp.calls ws) : writeAll io ws fp = none := by
  induction ws generalizing fp with
  | nil => exact h.elim
  | cons w rest ih =>
      rw [writeAll]
      split_ifs with hn
      · rfl
      · exact ih (h.resolve_left hn)

theorem writeAll_some {ws : List (Write UInt8)} {fp : SaveFile}
    (h : ¬SomeNoticed io.fwrite fp.calls ws) :
    ∃ calls, writeAll io ws fp =
      some { content := fp.content ++ stored io.fwrite fp.calls ws, calls } := by
  induction ws generalizing fp with
  | nil => exact ⟨fp.calls, by simp [writeAll, stored]⟩
  | cons w rest ih =>
      rw [SomeNoticed, not_or] at h
      obtain ⟨calls, hrest⟩ := @ih { content := _, calls := fp.calls + 1 } h.2
      refine ⟨calls, ?_⟩
      rw [writeAll, if_neg h.1, hrest, stored, List.append_assoc]

theorem saveWrite_eq (ptr : Bytes) (size nmemb : Nat) (hsize : 0 < size)
    (hptr : ptr.length = size * nmemb) (fp : SaveFile) :
    saveWrite io ptr size nmemb fp = writeAll io [{ data := ptr, size }] fp := by
  have htake : ptr.take (min (io.fwrite fp.calls) (size * nmemb)) =
      ptr.take (io.fwrite fp.calls) := by
    rw [← hptr, ← List.take_take, List.take_length]
  simp only [saveWrite, fwrite, writeAll, Noticed, htake, hptr, Nat.div_eq_zero_iff,
    Nat.pos_iff_ne_zero.mp hsize, false_or]

theorem saveType_eq (type : UInt8) (fp : SaveFile) :
    saveType io type fp = writeAll io [typeWrite type] fp :=
  saveWrite_eq io [type] 1 1 Nat.one_pos rfl fp

theorem saveLen_eq (len : Nat) (fp : SaveFile) :
    saveLen io len fp = writeAll io [lenWrite len] fp :=
  saveWrite_eq io (htonl len) 4 1 (by omega) rfl fp

theorem saveString_eq (s : Bytes) (fp : SaveFile) :
    saveString io s fp = writeAll io (stringWrites s) fp := by
  unfold saveString stringWrites
  simp only [saveLen_eq, saveWrite_eq io s 1 s.length Nat.one_pos (Nat.one_mul _).symm]
  split_ifs
  · rw [writeAll_cons_cons]
    rfl
  · exact Option.bind_fun_some _

theorem saveStrings_eq (l : List Bytes) (fp : SaveFile) :
    saveStrings io l fp = writeAll io (l.flatMap stringWrites) fp := by
  induction l generalizing fp with
  | nil => rfl
  | cons s rest ih =>
      rw [List.flatMap_cons, writeAll_append, ← saveString_eq, saveStrings]
      exact congrArg _ (funext ih)

theorem saveObject_eq {o : CutisObject} (ho : o.Iterable) (fp : SaveFile) :
    saveObject io o fp = writeAll io (objectWrites o) fp := by
  cases o with
  | string s => exact saveString_eq io s fp
  | list l =>
      rw [objectWrites, writeAll_cons, ← saveLen_eq, saveObject]
      exact congrArg _ (funext (saveStrings_eq io l))
  | set d =>
      have hd : d.Iterable := ho
      rw [objectWrites, writeAll_cons, ← saveLen_eq, saveObject,
        dictIterate_eq hd.toShape hd.size_lt, hd.used_eq]
      exact congrArg _ (funext (saveStrings_eq io _))

theorem saveEntry_eq {de : DictEntry Bytes CutisObject} (ho : de.val.Iterable) (fp : SaveFile) :
    saveEntry io de fp = writeAll io (entryWrites de) fp := by
  have hkey := saveWrite_eq io de.key 1 de.key.length Nat.one_pos (Nat.one_mul _).symm
  rw [entryWrites, writeAll_append, saveEntry]
  simp only [saveType_eq, saveLen_eq, hkey, saveObject_eq io ho, bind, Option.bind_assoc,
    writeAll_cons_cons]

theorem saveEntries_eq (entries : List (DictEntry Bytes CutisObject))
    (ho : ∀ de ∈ entries, de.val.Iterable) (fp : SaveFile) :
    saveEntries io entries fp = writeAll io (entries.flatMap entryWrites) fp := by
  induction entries generalizing fp with
  | nil => rfl
  | cons de rest ih =>
      rw [List.flatMap_cons, writeAll_append, ← saveEntry_eq io (ho de (by simp)), saveEntries]
      exact congrArg _ (funext (ih fun de hde => ho de (by simp [hde])))

theorem saveDicts_eq (j : Nat) (dict : List Database) (hdict : ∀ db ∈ dict, IterableDatabase db)
    (fp : SaveFile) : saveDicts io j dict fp = writeAll io (dictsWrites j dict) fp := by
  induction dict generalizing j fp with
  | nil => rfl
  | cons db rest ih =>
      have hdb := hdict db (by simp)
      have hrest (fp) := ih (j + 1) (fun db hdb => hdict db (by simp [hdb])) fp
      have hused : db.used = 0 ↔ db.entries = [] := by
        rw [hdb.used_eq, List.length_eq_zero_iff]
      rw [dictsWrites, writeAll_append, saveDicts, dictWrites]
      simp only [hused]
      split_ifs
      · exact hrest fp
      · rw [writeAll_append, dictIterate_eq hdb.toShape hdb.size_lt]
        simp only [saveType_eq, saveLen_eq, saveEntries_eq io db.entries hdb.objects, hrest, bind,
          Option.bind_assoc, writeAll_cons_cons]

theorem saveContent_eq (dict : List Database) (hdict : ∀ db ∈ dict, IterableDatabase db) :
    saveContent io dict = writeAll io (saveWrites dict) { content := [], calls := 0 } := by
  rw [saveWrites, writeAll_cons, saveContent]
  simp only [saveWrite_eq io CUTIS_DB_SIGNATURE 9 1 (by omega) rfl, saveType_eq,
    saveDicts_eq io 0 dict hdict, bind, writeAll_append]

end Run

section Written

theorem written_stringWrites (s : Bytes) : written (stringWrites s) = encodeString s := by
  unfold stringWrites
  split_ifs with hs
  · simp [lenWrite, encodeString]
  · have hnil : s = [] := List.length_eq_zero_iff.mp (by omega)
    subst hnil
    rfl

theorem written_flatMap {β : Type} (writes : β → List (Write UInt8)) (encode : β → Bytes)
    (h : ∀ x, written (writes x) = encode x) (l : List β) :
    written (l.flatMap writes) = l.flatMap encode := by
  induction l with
  | nil => rfl
  | cons x rest ih => rw [List.flatMap_cons, written_append, h, ih, List.flatMap_cons]

theorem written_objectWrites (o : CutisObject) : written (objectWrites o) = encodeObject o := by
  cases o with
  | string s => exact written_stringWrites s
  | list l =>
      rw [objectWrites, written_cons, written_flatMap _ _ written_stringWrites]
      rfl
  | set d =>
      rw [objectWrites, written_cons, written_flatMap _ _ written_stringWrites, encodeObject,
        encodeStrings, List.length_map]
      rfl

theorem written_entryWrites (de : DictEntry Bytes CutisObject) :
    written (entryWrites de) = encodeEntry de := by
  rw [entryWrites, written_append, written_objectWrites]
  simp [typeWrite, lenWrite, encodeEntry, encodeString]

theorem written_dictsWrites (j : Nat) (dict : List Database) :
    written (dictsWrites j dict) = encodeDicts j dict := by
  induction dict generalizing j with
  | nil => rfl
  | cons db rest ih =>
      rw [dictsWrites, written_append, ih, encodeDicts, dictWrites, encodeDict]
      split_ifs
      · rfl
      · rw [written_append, written_flatMap _ _ written_entryWrites]
        rfl

theorem written_saveWrites (dict : List Database) : written (saveWrites dict) = encodeFile dict := by
  rw [saveWrites, written_cons, written_append, written_dictsWrites]
  rfl

theorem encodeFile_ne_nil (dict : List Database) : encodeFile dict ≠ [] :=
  List.append_ne_nil_of_left_ne_nil (by decide) _

end Written

section Atomicity

-- The two names differ after the first four bytes.
theorem tmpfile_ne (io : Stdio) : io.tmpfile ≠ CUTIS_DB_NAME := by
  intro h
  have hfifth := congrArg (fun name : Bytes => name[4]?) h
  rw [Stdio.tmpfile] at hfifth
  simp only [List.append_assoc] at hfifth
  rw [List.getElem?_append_left (by decide)] at hfifth
  exact absurd hfifth (by decide)

-- A save leaves the whole new dump, or everything as it was.
def SaveAtomic (io : Stdio) (fs : FileSystem) (server : CutisServer) : Prop :=
  let result := saveDB io fs server CUTIS_DB_NAME
  (result.2.2 = .CUTIS_OK → result.2.1 CUTIS_DB_NAME = some (encodeFile server.dict)) ∧
    (result.2.2 = .CUTIS_ERR →
      result.2.1 CUTIS_DB_NAME = fs CUTIS_DB_NAME ∧ result.1.dirty = server.dirty ∧
        result.1.last_save = server.last_save)

-- A failure that saveDB tests for.
def Stdio.Fails (io : Stdio) (dict : List Database) : Prop :=
  io.fopen = false ∨ io.rename = false ∨ SomeNoticed io.fwrite 0 (saveWrites dict)

-- Every byte reaches the file.
def Stdio.Complete (io : Stdio) (dict : List Database) : Prop :=
  AllWhole io.fwrite 0 (saveWrites dict) ∧ io.fclose = 0

theorem saveDB_fails {io : Stdio} {server : CutisServer}
    (hdict : ∀ db ∈ server.dict, IterableDatabase db) (h : io.Fails server.dict)
    (fs : FileSystem) :
    ∃ fs', saveDB io fs server CUTIS_DB_NAME = (server, fs', .CUTIS_ERR) ∧
      fs' CUTIS_DB_NAME = fs CUTIS_DB_NAME := by
  have hname := Function.update_of_ne (tmpfile_ne io).symm (none : Option Bytes) fs
  unfold saveDB
  cases hopen : io.fopen with
  | false => exact ⟨fs, rfl, rfl⟩
  | true =>
      refine ⟨fs.set io.tmpfile none, ?_, hname⟩
      rw [saveContent_eq io server.dict hdict]
      by_cases hn : SomeNoticed io.fwrite 0 (saveWrites server.dict)
      · rw [writeAll_none io hn]
        rfl
      · obtain ⟨calls, hw⟩ := @writeAll_some io _ { content := [], calls := 0 } hn
        have hrename : io.rename = false := by
          rcases h with h | h | h
          · rw [hopen] at h
            cases h
          · exact h
          · exact absurd h hn
        rw [hw, hrename]
        rfl

theorem saveDB_done {io : Stdio} {server : CutisServer}
    (hdict : ∀ db ∈ server.dict, IterableDatabase db) (h : ¬io.Fails server.dict)
    (fs : FileSystem) :
    saveDB io fs server CUTIS_DB_NAME =
      ({ server with dirty := 0, last_save := io.time_saved },
        (fs.set io.tmpfile none).set CUTIS_DB_NAME
          (some ((stored io.fwrite 0 (saveWrites server.dict)).take
            ((stored io.fwrite 0 (saveWrites server.dict)).length - io.fclose))), .CUTIS_OK) := by
  simp only [Stdio.Fails, not_or, Bool.not_eq_false] at h
  obtain ⟨hopen, hrename, hn⟩ := h
  obtain ⟨calls, hw⟩ := @writeAll_some io _ { content := [], calls := 0 } hn
  unfold saveDB
  rw [saveContent_eq io server.dict hdict, hw, hopen, hrename]
  rfl

theorem saveAtomic_iff (io : Stdio) (fs : FileSystem) (server : CutisServer)
    (hdict : ∀ db ∈ server.dict, IterableDatabase db) :
    SaveAtomic io fs server ↔ io.Fails server.dict ∨ io.Complete server.dict := by
  simp only [SaveAtomic]
  by_cases hfails : io.Fails server.dict
  · obtain ⟨fs', hsave, hfs⟩ := saveDB_fails hdict hfails fs
    rw [hsave]
    exact iff_of_true ⟨nofun, fun _ => ⟨hfs, rfl, rfl⟩⟩ (Or.inl hfails)
  · have hne : written (saveWrites server.dict) ≠ [] := by
      rw [written_saveWrites]
      exact encodeFile_ne_nil _
    have hwhole := take_stored_eq_iff io.fwrite 0 (saveWrites server.dict) io.fclose hne
    rw [written_saveWrites] at hwhole
    rw [saveDB_done hdict hfails fs, or_iff_right hfails, Stdio.Complete, ← hwhole]
    simp [FileSystem.set]

-- A database with the key ab alone, and the write of that key cut short.
def shortKeyServer : CutisServer :=
  { initServer 1 [] 0 with
    dict := [tableOf sdsDictType 4 [{ key := sdsnew "ab", val := .string [] }]] }

def shortKeyIo : Stdio where
  time := 0
  random := 0
  fopen := true
  fwrite call := if call = 5 then 1 else 9
  fclose := 0
  rename := true
  time_saved := 0

theorem iterable_shortKeyServer : ∀ db ∈ shortKeyServer.dict, IterableDatabase db := by
  intro db hdb
  obtain rfl := List.mem_singleton.mp hdb
  have hinv : (tableOf sdsDictType 4
      [{ key := sdsnew "ab", val := CutisObject.string [] }]).Inv sdsDictType :=
    tableOf_inv _ (by decide) (by decide) (by decide) (by decide)
  refine ⟨⟨hinv.toShape, by decide⟩, fun he hhe => ?_⟩
  obtain rfl := List.mem_singleton.mp ((tableOf_entries _ _ _).mem_iff.mp hhe)
  trivial

theorem saveAtomic_shortKeyServer :
    SaveAtomic { shortKeyIo with fwrite := fun _ => 9 } (fun _ => none) shortKeyServer :=
  (saveAtomic_iff _ _ _ iterable_shortKeyServer).mpr (Or.inr ⟨by decide, rfl⟩)

theorem not_saveAtomic_shortKey : ¬SaveAtomic shortKeyIo (fun _ => none) shortKeyServer := by
  intro h
  exact absurd (h.1 (by decide)) (by decide)

end Atomicity

end Cutis

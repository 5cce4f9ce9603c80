import Cutis.Database
import Cutis.Lib.PrefixCode
import Cutis.Server.Format

namespace Cutis

-- A value as a dump writes it: a set is any sequence of its members.
inductive DumpValue
  | string (s : Bytes)
  | list (l : List Bytes)
  | set (members : List Bytes)

inductive DumpItem
  | select (id : Nat)
  | entry (key : Bytes) (v : DumpValue)

namespace DumpValue

def type : DumpValue → UInt8
  | .string _ => CUTIS_STRING
  | .list _ => CUTIS_LIST
  | .set _ => CUTIS_SET

def encode : DumpValue → Bytes
  | .string s => encodeString s
  | .list l => encodeStrings l
  | .set members => encodeStrings members

def value : DumpValue → Value
  | .string s => .string s
  | .list l => .list l
  | .set members => .set members.toFinset

-- The lengths have four bytes, and a set repeats no member.
def Ok : DumpValue → Prop
  | .string s => s.length < 2 ^ 32
  | .list l => l.length < 2 ^ 32 ∧ ∀ s ∈ l, s.length < 2 ^ 32
  | .set members => (members.length < 2 ^ 32 ∧ ∀ s ∈ members, s.length < 2 ^ 32) ∧ members.Nodup

end DumpValue

namespace DumpItem

def encode : DumpItem → Bytes
  | .select id => CUTIS_SELECT_DB :: htonl id
  | .entry key v => v.type :: (encodeString key ++ v.encode)

def Ok (db_num : Nat) : DumpItem → Prop
  | .select id => id < db_num ∧ id < 2 ^ 32
  | .entry key v => (key ≠ [] ∧ key.length < 2 ^ 32) ∧ v.Ok

end DumpItem

-- The databases the items denote; no key comes twice in a database.
def denote : Nat → Dataset → List DumpItem → Option Dataset
  | _, ds, [] => some ds
  | _, ds, .select id :: items => denote id ds items
  | dbid, ds, .entry key v :: items =>
      match ds[dbid]? with
      | none => none
      | some ks =>
          if key ∈ ks then none else denote dbid (ds.set dbid (ks.insert key v.value)) items

-- Some prefix of the file is the signature, items and the end mark.
def Denotes (db_num : Nat) (file : Bytes) (ds : Dataset) : Prop :=
  ∃ items rest, file = CUTIS_DB_SIGNATURE ++ (items.flatMap DumpItem.encode ++ CUTIS_EOF :: rest) ∧
    (∀ item ∈ items, item.Ok db_num) ∧ denote 0 (List.replicate db_num ∅) items = some ds

section Codes

open PrefixCode

theorem ntohl_htonl (n : Nat) (h : n < 2 ^ 32) : ntohl (htonl n) = n := by
  have hbyte (m : Nat) : m.toUInt8.toNat = m % 256 := by simp
  simp only [htonl, ntohl, hbyte]
  omega

theorem htonl_inj {n m : Nat} (hn : n < 2 ^ 32) (hm : m < 2 ^ 32) (h : htonl n = htonl m) : n = m := by
  rw [← ntohl_htonl n hn, h, ntohl_htonl m hm]

theorem isPrefixCode_htonl : IsPrefixCode htonl (· < 2 ^ 32) :=
  PrefixCode.of_length (n := 4) (fun _ => rfl) fun _ _ ha hb => htonl_inj ha hb

theorem isPrefixCode_encodeString : IsPrefixCode encodeString (·.length < 2 ^ 32) := by
  intro s t hs ht r r' h
  rw [encodeString, encodeString, List.append_assoc, List.append_assoc] at h
  obtain ⟨hlen, hrest⟩ := isPrefixCode_htonl _ _ hs ht _ _ h
  exact List.append_inj hrest hlen

theorem isPrefixCode_encodeStrings :
    IsPrefixCode encodeStrings fun l => l.length < 2 ^ 32 ∧ ∀ s ∈ l, s.length < 2 ^ 32 := by
  intro l l' hl hl' r r' h
  rw [encodeStrings, encodeStrings, List.append_assoc, List.append_assoc] at h
  obtain ⟨hlen, hrest⟩ := isPrefixCode_htonl _ _ hl.1 hl'.1 _ _ h
  exact flatMap_inj isPrefixCode_encodeString hlen hl.2 hl'.2 hrest

-- Of two values with the same type byte.
theorem DumpValue.encode_inj {v w : DumpValue} (hv : v.Ok) (hw : w.Ok) (htype : v.type = w.type)
    {r r' : Bytes} (h : v.encode ++ r = w.encode ++ r') : v = w ∧ r = r' := by
  have hsl : CUTIS_STRING ≠ CUTIS_LIST := by decide
  have hss : CUTIS_STRING ≠ CUTIS_SET := by decide
  have hls : CUTIS_LIST ≠ CUTIS_SET := by decide
  cases v <;> cases w
  case string.list => exact absurd htype hsl
  case list.string => exact absurd htype.symm hsl
  case string.set => exact absurd htype hss
  case set.string => exact absurd htype.symm hss
  case list.set => exact absurd htype hls
  case set.list => exact absurd htype.symm hls
  case string.string s t =>
    obtain ⟨rfl, hr⟩ := isPrefixCode_encodeString s t hv hw r r' h
    exact ⟨rfl, hr⟩
  case list.list l l' =>
    obtain ⟨rfl, hr⟩ := isPrefixCode_encodeStrings l l' hv hw r r' h
    exact ⟨rfl, hr⟩
  case set.set l l' =>
    obtain ⟨rfl, hr⟩ := isPrefixCode_encodeStrings l l' hv.1 hw.1 r r' h
    exact ⟨rfl, hr⟩

theorem DumpValue.type_ne (v : DumpValue) : v.type ≠ CUTIS_EOF ∧ v.type ≠ CUTIS_SELECT_DB := by
  cases v <;> simp only [DumpValue.type] <;> decide

theorem isPrefixCode_item (db_num : Nat) : IsPrefixCode DumpItem.encode (·.Ok db_num) := by
  intro a b ha hb r r' h
  cases a with
  | select id =>
      cases b with
      | select id' =>
          obtain ⟨rfl, hr⟩ := isPrefixCode_htonl id id' ha.2 hb.2 r r' (List.cons.inj h).2
          exact ⟨rfl, hr⟩
      | entry key v => exact absurd (List.cons.inj h).1.symm v.type_ne.2
  | entry key v =>
      cases b with
      | select id => exact absurd (List.cons.inj h).1 v.type_ne.2
      | entry key' w =>
          obtain ⟨htype, htail⟩ := List.cons.inj h
          have htail : encodeString key ++ v.encode ++ r = encodeString key' ++ w.encode ++ r' := htail
          rw [List.append_assoc, List.append_assoc] at htail
          obtain ⟨rfl, hvalue⟩ := isPrefixCode_encodeString key key' ha.1.2 hb.1.2 _ _ htail
          obtain ⟨rfl, hr⟩ := DumpValue.encode_inj ha.2 hb.2 htype hvalue
          exact ⟨rfl, hr⟩

theorem DumpItem.head_encode (item : DumpItem) :
    item.encode.head? ≠ some CUTIS_EOF ∧ item.encode ≠ [] := by
  cases item with
  | select id =>
      have hne : CUTIS_SELECT_DB ≠ CUTIS_EOF := by decide
      exact ⟨fun h => hne (Option.some.inj h), List.cons_ne_nil _ _⟩
  | entry key v =>
      refine ⟨fun h => ?_, List.cons_ne_nil _ _⟩
      exact v.type_ne.1 (Option.some.inj h)

theorem DumpItem.Ok.mono {db_num db_num' : Nat} (hle : db_num ≤ db_num') {item : DumpItem}
    (h : item.Ok db_num) : item.Ok db_num' := by
  cases item with
  | select id => exact ⟨Nat.lt_of_lt_of_le h.1 hle, h.2⟩
  | entry key v => exact h

-- A file is read in one way.
theorem items_unique (db_num : Nat) {items items' : List DumpItem} {rest rest' : Bytes}
    (hitems : ∀ item ∈ items, item.Ok db_num) (hitems' : ∀ item ∈ items', item.Ok db_num)
    (h : items.flatMap DumpItem.encode ++ CUTIS_EOF :: rest =
      items'.flatMap DumpItem.encode ++ CUTIS_EOF :: rest') : items = items' ∧ rest = rest' :=
  terminated_inj (isPrefixCode_item db_num) (fun item => item.head_encode.1)
    (fun item => item.head_encode.2) hitems hitems' h

theorem denotes_unique {db_num : Nat} {file : Bytes} {ds ds' : Dataset} (h : Denotes db_num file ds)
    (h' : Denotes db_num file ds') : ds = ds' := by
  obtain ⟨items, rest, hfile, hitems, hds⟩ := h
  obtain ⟨items', rest', hfile', hitems', hds'⟩ := h'
  obtain ⟨rfl, -⟩ := items_unique db_num hitems hitems'
    (List.append_cancel_left (hfile.symm.trans hfile'))
  exact Option.some.inj (hds.symm.trans hds')

end Codes

section Growth

-- Every entry stays where it is.
def Dataset.Grows (ds ds' : Dataset) : Prop :=
  ds.length = ds'.length ∧
    ∀ id key v, (ds.getD id ∅).lookup key = some v → (ds'.getD id ∅).lookup key = some v

theorem Dataset.grows_refl (ds : Dataset) : ds.Grows ds := ⟨rfl, fun _ _ _ h => h⟩

theorem Dataset.Grows.trans {ds ds' ds'' : Dataset} (h : ds.Grows ds') (h' : ds'.Grows ds'') :
    ds.Grows ds'' :=
  ⟨h.1.trans h'.1, fun id key v hlook => h'.2 id key v (h.2 id key v hlook)⟩

theorem Dataset.getD_eq {ds : Dataset} {id : Nat} {ks : Keyspace} (h : ds[id]? = some ks) :
    ds.getD id ∅ = ks := by
  rw [List.getD_eq_getElem?_getD, h, Option.getD_some]

theorem Dataset.getD_set {ds : Dataset} {id : Nat} {ks : Keyspace} (h : ds[id]? = some ks)
    (ks' : Keyspace) : (ds.set id ks').getD id ∅ = ks' := by
  have hlt := (List.getElem?_eq_some_iff.mp h).1
  rw [List.getD_eq_getElem?_getD, List.getElem?_set_self hlt, Option.getD_some]

theorem Dataset.grows_insert {ds : Dataset} {dbid : Nat} {ks : Keyspace} (hget : ds[dbid]? = some ks)
    {key : Bytes} (hnew : key ∉ ks) (v : Value) : ds.Grows (ds.set dbid (ks.insert key v)) := by
  refine ⟨by simp, fun id other w hlook => ?_⟩
  by_cases hid : id = dbid
  · subst hid
    rw [getD_eq hget] at hlook
    rw [getD_set hget]
    have hne : other ≠ key := by
      rintro rfl
      exact hnew (Finmap.mem_of_lookup_eq_some hlook)
    rwa [Finmap.lookup_insert_of_ne _ hne]
  · rw [List.getD_eq_getElem?_getD] at hlook ⊢
    rwa [List.getElem?_set_ne (Ne.symm hid)]

theorem denote_grows {items : List DumpItem} {dbid : Nat} {ds ds' : Dataset}
    (h : denote dbid ds items = some ds') : ds.Grows ds' := by
  induction items generalizing dbid ds with
  | nil => exact Option.some.inj h ▸ ds.grows_refl
  | cons item items ih =>
      cases item with
      | select id => exact ih h
      | entry key v =>
          rw [denote] at h
          cases hget : ds[dbid]? with
          | none =>
              rw [hget] at h
              cases h
          | some ks =>
              rw [hget] at h
              dsimp only at h
              split_ifs at h with hkey
              exact (Dataset.grows_insert hget hkey v.value).trans (ih h)

-- No table has more entries than that.
def Dataset.Within (bound : Nat) (ds : Dataset) : Prop :=
  ∀ ks ∈ ds, ks.keys.card ≤ bound ∧
    ∀ key members, ks.lookup key = some (.set members) → members.card ≤ bound

-- The tables can be allocated.
def Dataset.Fits (ds : Dataset) : Prop := ds.Within (2 ^ 27)

theorem Dataset.Within.getD {ds : Dataset} {bound : Nat} (h : ds.Within bound) (id : Nat) :
    (ds.getD id ∅).keys.card ≤ bound ∧
      ∀ key members, (ds.getD id ∅).lookup key = some (.set members) → members.card ≤ bound := by
  rw [List.getD_eq_getElem?_getD]
  cases hget : ds[id]? with
  | none =>
      refine ⟨by simp, fun key members hlook => ?_⟩
      rw [Option.getD_none, Finmap.lookup_empty] at hlook
      cases hlook
  | some ks => exact h ks (List.mem_of_getElem? hget)

-- There was room for an entry, and for the members of its value.
theorem room_of_grows {ds ds' : Dataset} {dbid : Nat} {ks : Keyspace} (hget : ds[dbid]? = some ks)
    {key : Bytes} (hnew : key ∉ ks) {v : Value}
    (hgrows : Dataset.Grows (ds.set dbid (ks.insert key v)) ds') (hfits : ds'.Fits) :
    ks.keys.card < 2 ^ 27 ∧ ∀ members, v = .set members → members.card ≤ 2 ^ 27 := by
  obtain ⟨hcard, hset⟩ := Dataset.Within.getD hfits dbid
  have hlook (other : Bytes) (w : Value) (h : (ks.insert key v).lookup other = some w) :
      (ds'.getD dbid ∅).lookup other = some w :=
    hgrows.2 dbid other w (by rwa [Dataset.getD_set hget])
  constructor
  · have hsub : (ks.insert key v).keys ⊆ (ds'.getD dbid ∅).keys := by
      intro other hother
      rw [Finmap.mem_keys] at hother ⊢
      obtain ⟨w, hw⟩ := Finmap.mem_iff.mp hother
      exact Finmap.mem_of_lookup_eq_some (hlook other w hw)
    have hle := Finset.card_le_card hsub
    rw [FiniteMap.keys_insert, Finset.card_insert_of_notMem (by rwa [Finmap.mem_keys])] at hle
    omega
  · rintro members rfl
    exact hset key members (hlook key _ (Finmap.lookup_insert _))

end Growth

end Cutis

import Cutis.Heap.Values

namespace Cutis

open Lockstep

namespace Heap

variable (h : Heap) (d : HeapDict) (key : Bytes) (o : ObjectId)

theorem dictFind_database :
    dictFind sdsDictType (h.database d) key =
      (dictFind sdsDictType d key).map (DictEntry.map id h.object) :=
  sdsDictType_maps.dictFind h.object d key

theorem dictAdd_database :
    dictAdd sdsDictType (h.database d) key (h.object o) =
      (dictAdd sdsDictType d key o).map fun result => (h.database result.1, result.2) :=
  sdsDictType_maps.dictAdd h.object d key o

theorem dictReplace_database :
    dictReplace sdsDictType (h.database d) key (h.object o) =
      (dictReplace sdsDictType d key o).map fun result =>
        (h.database result.1, result.2.map h.object) :=
  sdsDictType_maps.dictReplace h.object d key o

theorem dictDelete_database :
    dictDelete sdsDictType (h.database d) key =
      (h.database (dictDelete sdsDictType d key).1,
        (dictDelete sdsDictType d key).2.map (DictEntry.map id h.object)) :=
  sdsDictType_maps.dictGenericDelete h.object d key

end Heap

namespace HeapSession

variable {O T : Multiset ObjectId} {s₀ s s' : HeapSession} {v : Session} {o : ObjectId} {n : Nat}
  {d d' : HeapDict} {key : Bytes}

theorem Shows.setDB_eq (h : s.Shows v) (db : Database) :
    v.setDB db = v.setDict s.client.dict db := by
  rw [Session.setDB, h.selected]

theorem Shows.database_setDB {db : Database} (h : s.Shows (v.setDB db))
    (hd : s.dict[s.client.dict]? = some d) : s.heap.database d = db := by
  have hget := congrArg (fun dict => dict[s.client.dict]?) h.dict
  have hselected : v.client.dict = s.client.dict := h.selected
  simp only [Session.setDB, Session.setDict, hselected, List.getElem?_map, hd,
    List.getElem?_set_self', Option.map_some] at hget
  obtain ⟨_, -, hdb⟩ := Option.map_eq_some_iff.mp hget
  exact hdb.symm

theorem setDB_setDB (v : Session) (db db' : Database) : (v.setDB db).setDB db' = v.setDB db' := by
  simp only [Session.setDB, Session.setDict, List.set_set]

theorem Mirrors.dictAdd (h : Mirrors O s₀ s (o ::ₘ T) n v) {id : Nat} {ret : DictStatus}
    (hd : s.dict[id]? = some d) (hadd : Cutis.dictAdd sdsDictType d key o = .ok (d', ret)) :
    match ret with
    | .DICT_OK => Mirrors O s₀ (s.setDatabase id d') T n (v.setDict id (s.heap.database d')) ∧
        o ∈ (s.setDatabase id d').held O T ∧ (s.setDatabase id d').values = o ::ₘ s.values
    | .DICT_ERR =>
        Mirrors O s₀ (s.setDatabase id d') (o ::ₘ T) n (v.setDict id (s.heap.database d')) ∧
          (s.setDatabase id d').values = s.values := by
  have hkeeps := h.keeps.dictAdd hd hadd
  have hshows := h.shows.setDatabase id d'
  have hlength : (s.setDatabase id d').dict.length = s₀.dict.length :=
    List.length_set.trans h.length
  have hvalues := values_setDatabase hd d'
  obtain ⟨-, hvals⟩ :=
    dictAdd_vals (h.keeps.sound d (List.mem_of_getElem? hd)).toShape hadd
  cases ret with
  | DICT_OK =>
      refine ⟨⟨hkeeps.1, hshows, hlength⟩, hkeeps.2, ?_⟩
      rw [hvals.1, Multiset.add_cons, ← Multiset.cons_add] at hvalues
      exact add_right_cancel hvalues
  | DICT_ERR =>
      rw [hvals.1] at hvalues
      exact ⟨⟨hkeeps, hshows, hlength⟩, add_right_cancel hvalues⟩

-- DictReplace gives the old value up.
theorem Mirrors.dictReplaceValue (h : Mirrors O s₀ s (o ::ₘ T) n v) (hn : n ≤ 2 ^ 31)
    (hd : s.dict[s.client.dict]? = some d) (key : Bytes) :
    Alike (fun s' db => Mirrors O s₀ s' T n (v.setDB db) ∧ o ∈ s'.held O T ∧
        s'.heap.ptr o = s.heap.ptr o ∧ s'.values ≤ o ::ₘ s.values ∧
        ∃ d' old, dictReplace sdsDictType d key o = .ok (d', old) ∧
          s'.dict[s'.client.dict]? = some d')
      (Heap.dictReplaceValue s key o)
      (replaceExisting (s.heap.database d) .DICT_ERR false key (s.heap.object o)) := by
  change Alike _ _ (Prod.fst <$> dictReplace sdsDictType (s.heap.database d) key (s.heap.object o))
  rw [Heap.dictReplace_database, Heap.dictReplaceValue, HeapSession.db, HeapSession.database, hd,
    pure_bind]
  cases hrep : dictReplace sdsDictType d key o with
  | error fault => exact .error fault
  | ok result =>
      obtain ⟨d', old⟩ := result
      obtain ⟨hsound, hmem, hvals⟩ :=
        (h.keeps.sound d (List.mem_of_getElem? hd)).dictReplace_vals sdsDictType_lawful hrep
      have hself : (s.setDB d').dict[s.client.dict]? = some d' :=
        List.getElem?_set_self (List.getElem?_eq_some_iff.mp hd).1
      have hheld : o ∈ O + (s.setDB d').roots := Keeps.mem_of_vals hself hmem
      have hvalues : (s.setDB d').values + d.vals = s.values + d'.vals := values_setDatabase hd d'
      cases old with
      | none =>
          have h' := h.setDatabase (U := T) hd hsound
            (by rw [hvals, Multiset.add_cons, Multiset.cons_add])
          rw [← h.shows.setDB_eq] at h'
          refine .ok ⟨h', Keeps.mem_of_roots hheld, rfl, ?_, d', none, rfl, hself⟩
          rw [hvals, Multiset.add_cons, ← Multiset.cons_add] at hvalues
          exact (add_right_cancel hvalues).le
      | some old =>
          have h' := h.setDatabase (U := old ::ₘ T) hd hsound
            (by rw [Multiset.cons_add, Multiset.cons_add, ← Multiset.add_cons,
              ← Multiset.add_cons, hvals])
          rw [← h.shows.setDB_eq] at h'
          have hptr := (h'.keeps.decrRefCount hn).2 o (Keeps.mem_of_roots hheld)
          refine .ok ⟨h'.decrRefCount hn, Keeps.mem_of_roots hheld, hptr, ?_, d', some old, rfl,
            hself⟩
          have hcons : old ::ₘ (s.setDB d').values = o ::ₘ s.values := by
            apply add_right_cancel (b := d.vals)
            rw [Multiset.cons_add, hvalues, ← Multiset.add_cons, hvals, Multiset.add_cons,
              Multiset.cons_add]
          exact hcons ▸ Multiset.le_cons_self _ _

-- DictDelete gives the value up.
theorem Mirrors.dictDeleteValue (h : Mirrors O s₀ s T n v) (hn : n ≤ 2 ^ 31)
    (hd : s.dict[s.client.dict]? = some d) (key : Bytes) :
    ∃ s', Heap.dictDeleteValue s key = .ok s' ∧
      Mirrors O s₀ s' T n (v.setDB (dictDelete sdsDictType (s.heap.database d) key).1) ∧
      match dictFind sdsDictType d key with
      | none => s'.values = s.values
      | some de => de.val ::ₘ s'.values = s.values := by
  have hsound := h.keeps.sound d (List.mem_of_getElem? hd)
  rw [Heap.dictDelete_database, Heap.dictDeleteValue, HeapSession.db, HeapSession.database, hd,
    pure_bind]
  cases hdel : dictDelete sdsDictType d key with
  | mk d' de =>
      obtain ⟨-, hfind, hde⟩ := dictGenericDelete_vals hsound.toShape key hdel
      have hsound' : d'.Sound sdsDictType := by
        have hfst : (dictGenericDelete sdsDictType d key).1 = d' := congrArg Prod.fst hdel
        exact hfst ▸ hsound.dictGenericDelete sdsDictType_lawful key
      have hvalues : (s.setDB d').values + d.vals = s.values + d'.vals := values_setDatabase hd d'
      rw [← hfind]
      cases de with
      | none =>
          have h' := h.setDatabase (U := T) hd hsound' (by rw [hde])
          rw [← h.shows.setDB_eq] at h'
          rw [hde] at hvalues
          exact ⟨_, rfl, h', by rw [hde]; exact add_right_cancel hvalues⟩
      | some de =>
          have h' := h.setDatabase (U := de.val ::ₘ T) hd hsound'
            (by rw [hde.1, Multiset.cons_add, Multiset.add_cons])
          rw [← h.shows.setDB_eq] at h'
          refine ⟨_, rfl, h'.decrRefCount hn, ?_⟩
          apply add_right_cancel (b := d'.vals)
          rw [← hvalues, hde.1, Multiset.add_cons, Multiset.cons_add]
          rfl

end HeapSession

namespace Heap

open HeapSession

variable {O T : Multiset ObjectId} {s₀ s s' : HeapSession} {v : Session} {o : ObjectId} {n : Nat}

-- The key of a command is looked up in the database of the client.
theorem lookup_alike {α β : Type} {R : α → β → Prop} {i : Nat} (h : s.Shows v)
    {missing : Except Fault α} {found : DictEntry Bytes ObjectId → Except Fault α}
    {missing' : Except Fault β}
    {found' : Database → Bytes → DictEntry Bytes CutisObject → Except Fault β}
    (hmissing : Alike R missing missing')
    (hfound : ∀ d key de, s.dict[s.client.dict]? = some d →
      dictFind sdsDictType d key = some de →
      Alike R (found de) (found' (s.heap.database d) key (DictEntry.map id s.heap.object de))) :
    Alike R
      (do
        match dictFind sdsDictType (← s.db) (← s.arg i) with
        | none => missing
        | some de => found de)
      (do
        let db ← v.db
        let key ← v.arg i
        match dictFind sdsDictType db key with
        | none => missing'
        | some de => found' db key de) := by
  refine h.db.bind fun d _ hd => ?_
  obtain ⟨hd, rfl⟩ := hd
  refine (h.arg i).bind fun key _ hkey => ?_
  subst hkey
  rw [dictFind_database]
  cases hfind : dictFind sdsDictType d key with
  | none => exact hmissing
  | some de => exact hfound d key de hd hfind

theorem setGenericCommand_simulates (nx : Bool) :
    Simulates (setGenericCommand · nx) (Cutis.setGenericCommand · nx) := by
  intro O s v h hlone
  refine (h.shows.arg 1).bind fun key _ hkey => ?_
  subst hkey
  refine (h.shows.arg 2).bind fun str _ hstr => ?_
  subst hstr
  obtain ⟨o, heap, heq, h₁, hfresh, -, hself, -⟩ := h.createString (some str)
  rw [heq]
  refine h₁.shows.db.bind fun d _ hd => ?_
  obtain ⟨hd, rfl⟩ := hd
  have hobject : heap.object o = .string str := object_string hself
  rw [← hobject]
  refine (Alike.of_map (heap.dictAdd_database d key o)).bind fun added _ hadded => ?_
  obtain ⟨hadd, rfl⟩ := hadded
  obtain ⟨d', ret⟩ := added
  have h₂ := h₁.dictAdd hd hadd
  cases ret with
  | DICT_OK =>
      obtain ⟨h₂, -, hvalues⟩ := h₂
      rw [← h₁.shows.setDB_eq] at h₂
      exact .ok (h₂.dirtied.addOk.ends (.of_le (hlone.fresh hfresh) hvalues.le))
  | DICT_ERR =>
      obtain ⟨h₂, hvalues⟩ := h₂
      rw [← h₁.shows.setDB_eq] at h₂
      cases nx with
      | true =>
          have h₃ := h₂.decrRefCount (by decide)
          exact .ok (h₃.dirtied.addOk.ends (.of_le hlone hvalues.le))
      | false =>
          have hd₂ := List.getElem?_set_self (a := d') h₁.shows.inRange
          refine (h₂.dictReplaceValue (by decide) hd₂ key).bind fun s' db hrep => ?_
          obtain ⟨h₃, -, -, hle, -⟩ := hrep
          rw [setDB_setDB] at h₃
          refine .ok (h₃.dirtied.addOk.ends (.of_le (hlone.fresh hfresh) ?_))
          rwa [hvalues] at hle

theorem getCommand_simulates : Simulates getCommand Cutis.getCommand := by
  intro O s v h hlone
  refine lookup_alike h.shows (.ok (h.addNil.ends hlone)) fun d key de hd hfind => ?_
  have hval := Keeps.mem_of_roots (T := 0) (h.keeps.mem_of_find hd hfind)
  obtain ⟨str, hptr, hobject⟩ | ⟨l, hptr, hobject⟩ | ⟨m, hptr, hobject⟩ := h.keeps.ptr_cases hval
  · simp only [DictEntry.map, hptr, hobject]
    exact .ok ((h.addBulk hval rfl).ends hlone)
  · simp only [DictEntry.map, hptr, hobject]
    exact .ok ((h.addReplySds _).ends hlone)
  · simp only [DictEntry.map, hptr, hobject]
    exact .ok ((h.addReplySds _).ends hlone)

theorem existsCommand_simulates : Simulates existsCommand Cutis.existsCommand := by
  intro O s v h hlone
  exact lookup_alike h.shows (.ok (h.addZero.ends hlone)) fun _ _ _ _ _ =>
    .ok (h.addOne.ends hlone)

theorem delCommand_simulates : Simulates delCommand Cutis.delCommand := by
  intro O s v h hlone
  obtain ⟨d, hd, -, hdb⟩ := h.shows.db_eq
  rw [Cutis.delCommand, hdb, ok_bind]
  refine (h.shows.arg 1).bind fun key _ hkey => ?_
  subst hkey
  obtain ⟨s', hdel, h', hvalues⟩ := h.dictDeleteValue (by decide) hd key
  rw [hdel]
  have hle : s'.values ≤ s.values := by
    cases hfind : dictFind sdsDictType d key with
    | none =>
        rw [hfind] at hvalues
        exact hvalues.le
    | some de =>
        rw [hfind] at hvalues
        exact hvalues ▸ Multiset.le_cons_self _ _
  exact .ok ((h'.dirtied_if _).addOk.ends (.of_le hlone hle))

theorem incrValue_database {d : HeapDict} {key : Bytes} (h : Mirrors O s₀ s T n v)
    (hd : s.dict[s.client.dict]? = some d) :
    incrValue s (dictFind sdsDictType d key) =
      .ok (Cutis.incrValue (dictFind sdsDictType (s.heap.database d) key)) := by
  rw [dictFind_database]
  cases hfind : dictFind sdsDictType d key with
  | none => rfl
  | some de =>
      have hval := Keeps.mem_of_roots (T := T) (h.keeps.mem_of_find hd hfind)
      obtain ⟨str, hptr, hobject⟩ | ⟨l, hptr, hobject⟩ | ⟨m, hptr, hobject⟩ :=
        h.keeps.ptr_cases hval
      · simp only [incrValue, Cutis.incrValue, Option.map_some, DictEntry.map, hptr, hobject]
        rfl
      · simp only [incrValue, Cutis.incrValue, Option.map_some, DictEntry.map, hptr, hobject]
        rfl
      · simp only [incrValue, Cutis.incrValue, Option.map_some, DictEntry.map, hptr, hobject]
        rfl

theorem incrDecrCommand_simulates (incr : Int) :
    Simulates (incrDecrCommand · incr) (Cutis.incrDecrCommand · incr) := by
  intro O s v h hlone
  refine (h.shows.arg 1).bind fun key _ hkey => ?_
  subst hkey
  refine h.shows.db.bind fun d _ hd => ?_
  obtain ⟨hd, rfl⟩ := hd
  rw [incrValue_database h hd, ok_bind]
  simp only
  generalize printInt (toInt64
    (Cutis.incrValue (dictFind sdsDictType (s.heap.database d) key) + incr)) = newval
  obtain ⟨o, heap, heq, h₁, hfresh, -, hself, -⟩ := h.createString (some newval)
  have hdb : HeapSession.db { s with heap } = .ok d := by
    rw [HeapSession.db, HeapSession.database, hd]
    rfl
  have hobject : heap.object o = .string newval := object_string hself
  rw [heq, hdb, ok_bind, ← hobject,
    ← h.shows.database_eq h₁.shows rfl rfl (List.mem_of_getElem? hd)]
  refine (Alike.of_map (heap.dictAdd_database d key o)).bind fun added _ hadded => ?_
  obtain ⟨hadd, rfl⟩ := hadded
  obtain ⟨d', ret⟩ := added
  have h₂ := h₁.dictAdd hd hadd
  cases ret with
  | DICT_OK =>
      obtain ⟨h₂, ho, hvalues⟩ := h₂
      rw [← h₁.shows.setDB_eq] at h₂
      have h₃ := h₂.dirtied.addReply ho
      have hbytes : (HeapSession.setDatabase { s with heap } s.client.dict d').heap.bytes o =
          newval := bytes_of_ptr hself
      rw [hbytes] at h₃
      exact .ok (h₃.addCrlf.ends (.of_le (hlone.fresh hfresh) hvalues.le))
  | DICT_ERR =>
      obtain ⟨h₂, hvalues⟩ := h₂
      rw [← h₁.shows.setDB_eq] at h₂
      have hd₂ := List.getElem?_set_self (a := d') h₁.shows.inRange
      refine (h₂.dictReplaceValue (by decide) hd₂ key).bind fun s' db hrep => ?_
      obtain ⟨h₃, ho, hptr, hle, -⟩ := hrep
      rw [setDB_setDB] at h₃
      have h₄ := h₃.dirtied.addReply ho
      rw [bytes_of_ptr (hptr.trans hself)] at h₄
      rw [hvalues] at hle
      exact .ok (h₄.addCrlf.ends (.of_le (hlone.fresh hfresh) hle))

theorem randomKeyCommand_simulates {a : Answers} {os : Os} (hrandom : a.random = os.random) :
    Simulates (randomKeyCommand a) (Cutis.randomKeyCommand os) := by
  intro O s v h hlone
  refine h.shows.db.bind fun d _ hd => ?_
  obtain ⟨hd, rfl⟩ := hd
  rw [database, ← hrandom]
  refine (Alike.of_map (dictGetRandomKey_map id s.heap.object d a.random)).bind fun r _ hr => ?_
  obtain ⟨-, rfl⟩ := hr
  obtain ⟨de, random⟩ := r
  cases de with
  | none => exact .ok (h.addCrlf.ends hlone)
  | some de => exact .ok ((h.addReplySds de.key).addCrlf.ends hlone)

end Heap

end Cutis

import Cutis.Heap.Values.Sets
import Cutis.System

namespace Cutis

open Lockstep

namespace Dict.Sound

variable {K V : Type} [DecidableEq K] {T : DictType K} {ht ht' : Dict K V} {key key' : K} {val : V}

-- Another key is found as before.
theorem dictFind_added_of_ne (hT : T.Lawful) (h : ht.Sound T) {status : DictStatus}
    (hadd : dictAdd T ht key val = .ok (ht', status)) (hne : key' ≠ key) :
    dictFind T ht' key' = dictFind T ht key' := by
  by_cases hlimit : ht.AtLimit
  · obtain ⟨fault, hf⟩ := h.dictAdd_fault key val hlimit
    rw [hf] at hadd
    cases hadd
  · obtain ⟨ht'', h'', hadd', hmap⟩ := h.dictAdd_ok hT key val hlimit
    rw [hadd'] at hadd
    cases hadd
    rw [dictFind_eq hT h''.toInv, dictFind_eq hT h.toInv, hmap]
    split
    · rfl
    · rw [Finmap.lookup_insert_of_ne _ hne]

theorem dictFind_replaced_of_ne (hT : T.Lawful) (h : ht.Sound T) {old : Option V}
    (hrep : dictReplace T ht key val = .ok (ht', old)) (hne : key' ≠ key) :
    dictFind T ht' key' = dictFind T ht key' := by
  by_cases hlimit : ht.AtLimit
  · obtain ⟨fault, hf⟩ := h.dictAdd_fault key val hlimit
    rw [dictReplace, hf] at hrep
    cases hrep
  · obtain ⟨ht'', h'', hrep', hmap⟩ := h.dictReplace_ok hT key val hlimit
    rw [hrep'] at hrep
    cases hrep
    rw [dictFind_eq hT h''.toInv, dictFind_eq hT h.toInv, hmap, Finmap.lookup_insert_of_ne _ hne]

end Dict.Sound

namespace Heap

open HeapSession

variable {O T : Multiset ObjectId} {s₀ s s' : HeapSession} {v : Session} {o : ObjectId} {n : Nat}
  {d : HeapDict}

theorem typeCommand_simulates : Simulates typeCommand Cutis.typeCommand := by
  intro O s v h hlone
  refine h.shows.db.bind fun d _ hd => ?_
  obtain ⟨hd, rfl⟩ := hd
  refine (h.shows.arg 1).bind fun key _ hkey => ?_
  subst hkey
  rw [dictFind_database]
  cases hfind : dictFind sdsDictType d key with
  | none => exact .ok ((h.addReplySds _).addCrlf.ends hlone)
  | some de =>
      have hval := Keeps.mem_of_roots (T := 0) (h.keeps.mem_of_find hd hfind)
      obtain ⟨str, hptr, hobject⟩ | ⟨l, hptr, hobject⟩ | ⟨m, hptr, hobject⟩ :=
        h.keeps.ptr_cases hval
      · simp only [Option.map_some, DictEntry.map, hptr, hobject]
        exact .ok ((h.addReplySds _).addCrlf.ends hlone)
      · simp only [Option.map_some, DictEntry.map, hptr, hobject]
        exact .ok ((h.addReplySds _).addCrlf.ends hlone)
      · simp only [Option.map_some, DictEntry.map, hptr, hobject]
        exact .ok ((h.addReplySds _).addCrlf.ends hlone)

theorem selectDB_eq (h : s.Shows v) (id : Int) :
    Cutis.selectDB v id =
      (selectDB s id).map fun dict => { v with client := { v.client with dict } } := by
  rw [Cutis.selectDB, selectDB, CutisServer.db_num, h.dict, List.length_map]
  split <;> rfl

theorem selectDB_lt {id : Int} {dict : Nat} (h : selectDB s id = some dict) :
    dict < s.dict.length := by
  unfold selectDB at h
  split at h
  · cases h
  · cases h
    omega

theorem selectCommand_simulates : Simulates selectCommand Cutis.selectCommand := by
  intro O s v h hlone
  refine (h.shows.arg 1).bind fun arg _ harg => ?_
  subst harg
  rw [selectDB_eq h.shows]
  cases hdict : selectDB s (atoi arg) with
  | none => exact .ok ((h.addReplySds _).ends hlone)
  | some dict => exact .ok ((h.setSelected (selectDB_lt hdict)).addOk.ends hlone)

-- The reference goes from one database to another.
theorem moveValue_mirrors {dst : Nat} {db' dict dict' : HeapDict} {key : Bytes}
    {de : DictEntry Bytes ObjectId} (h : Mirrors O s₀ s 0 n v) (hne : s.client.dict ≠ dst)
    (hd : s.dict[s.client.dict]? = some d) (hdict : s.dict[dst]? = some dict)
    (hadd : dictAdd sdsDictType dict de.key de.val = .ok (dict', .DICT_OK))
    (hdel : dictDeleteNoFree sdsDictType d key = (db', some de)) :
    Mirrors O s₀ ((s.setDatabase dst dict').setDB db') 0 n
        ((v.setDict dst (s.heap.database dict')).setDB (s.heap.database db')) ∧
      ((s.setDatabase dst dict').setDB db').values = s.values := by
  refine ⟨⟨moveValue_keeps h.keeps hne hd hdict hadd hdel,
    (h.shows.setDatabase dst dict').setDB db',
    List.length_set.trans (List.length_set.trans h.length)⟩, ?_⟩
  have hd₁ : (s.setDatabase dst dict').dict[s.client.dict]? = some d := by
    rw [← hd]
    exact List.getElem?_set_ne (Ne.symm hne)
  have hadded := (dictAdd_vals (h.keeps.sound dict (List.mem_of_getElem? hdict)).toShape hadd).2.1
  obtain ⟨-, -, hdeleted, -⟩ :=
    dictGenericDelete_vals (h.keeps.sound d (List.mem_of_getElem? hd)).toShape key hdel
  have hvalues₁ := values_setDatabase hdict dict'
  have hvalues₂ := values_setDatabase hd₁ db'
  rw [hadded, Multiset.add_cons, ← Multiset.cons_add] at hvalues₁
  rw [add_right_cancel hvalues₁, hdeleted, Multiset.add_cons, Multiset.cons_add,
    Multiset.cons_inj_right] at hvalues₂
  exact add_right_cancel hvalues₂

theorem moveCommand_simulates : Simulates moveCommand Cutis.moveCommand := by
  intro O s v h hlone
  refine (h.shows.arg 2).bind fun arg _ harg => ?_
  subst harg
  rw [selectDB_eq h.shows]
  cases hdst : selectDB s (atoi arg) with
  | none => exact .ok ((h.addReplySds _).ends hlone)
  | some dst =>
      simp only [Option.map_some, h.shows.selected]
      by_cases hne : s.client.dict = dst
      · rw [if_pos hne, if_pos hne]
        exact .ok ((h.addReplySds _).ends hlone)
      · rw [if_neg hne, if_neg hne]
        refine (h.shows.arg 1).bind fun key _ hkey => ?_
        subst hkey
        refine h.shows.db.bind fun d _ hd => ?_
        obtain ⟨hd, rfl⟩ := hd
        rw [dictFind_database]
        cases hfind : dictFind sdsDictType d key with
        | none => exact .ok ((h.addReplySds _).ends hlone)
        | some de =>
            refine (h.shows.database dst).bind fun dict _ hdict => ?_
            obtain ⟨hdict, rfl⟩ := hdict
            refine (Alike.of_map (s.heap.dictAdd_database dict de.key de.val)).bind
              fun added _ hadded => ?_
            obtain ⟨hadd, rfl⟩ := hadded
            obtain ⟨dict', ret⟩ := added
            have hsound := h.keeps.sound dict (List.mem_of_getElem? hdict)
            cases ret with
            | DICT_ERR =>
                have hvals := (dictAdd_vals hsound.toShape hadd).2.1
                have hvalues := values_setDatabase hdict dict'
                rw [hvals] at hvalues
                have h₁ := h.setDatabase (U := 0) hdict
                  (hsound.dictAdd_returns sdsDictType_lawful hadd) (by rw [hvals])
                exact .ok ((h₁.addReplySds _).ends
                  (.of_le hlone (add_right_cancel hvalues).le))
            | DICT_OK =>
                obtain ⟨d₁, hd₁, hdb₁, hdbv₁⟩ := (h.shows.setDatabase dst dict').db_eq
                have hd₁ : s.dict[s.client.dict]? = some d₁ := by
                  rw [← List.getElem?_set_ne (Ne.symm hne)]
                  exact hd₁
                obtain rfl : d = d₁ := Option.some.inj (hd.symm.trans hd₁)
                cases hdel : dictDeleteNoFree sdsDictType d key with
                | mk db' deleted =>
                    obtain ⟨-, hdeleted, -⟩ := dictGenericDelete_vals
                      (h.keeps.sound d (List.mem_of_getElem? hd)).toShape key hdel
                    rw [hfind] at hdeleted
                    subst hdeleted
                    obtain ⟨h₁, hvalues⟩ := moveValue_mirrors h hne hd hdict hadd hdel
                    simp only [reduceCtorEq, if_false]
                    rw [hdb₁, hdbv₁, ok_bind, ok_bind]
                    have hdelv : dictDeleteNoFree sdsDictType (s.heap.database d) key =
                        (s.heap.database db', some (DictEntry.map id s.heap.object de)) := by
                      have hmap := dictDelete_database s.heap d key
                      change dictDeleteNoFree sdsDictType _ _ = (s.heap.database
                        (dictDeleteNoFree sdsDictType d key).1,
                        (dictDeleteNoFree sdsDictType d key).2.map _) at hmap
                      rwa [hdel] at hmap
                    change Alike _ _ (.ok (((v.setDict dst (s.heap.database dict')).setDB
                      (dictDeleteNoFree sdsDictType (s.heap.database d) key).1).dirtied.addReply
                      Cutis.shared.ok))
                    rw [hdelv, hdel]
                    exact .ok (h₁.dirtied.addOk.ends (.of_le hlone hvalues.le))

theorem renameGenericCommand_simulates (nx : Bool) :
    Simulates (renameGenericCommand · nx) (Cutis.renameGenericCommand · nx) := by
  intro O s v h hlone
  refine (h.shows.arg 1).bind fun src _ hsrc => ?_
  subst hsrc
  refine (h.shows.arg 2).bind fun dst _ hdst => ?_
  subst hdst
  by_cases hcmp : sdscmp src dst = 0
  · rw [if_pos hcmp, if_pos hcmp]
    exact .ok ((h.addReplySds _).ends hlone)
  · rw [if_neg hcmp, if_neg hcmp]
    have hne : src ≠ dst := fun heq => hcmp ((sdscmp_eq_zero_iff src dst).mpr heq)
    refine h.shows.db.bind fun d _ hd => ?_
    obtain ⟨hd, rfl⟩ := hd
    rw [dictFind_database]
    cases hfind : dictFind sdsDictType d src with
    | none => exact .ok ((h.addReplySds _).ends hlone)
    | some de =>
        have hval := Keeps.mem_of_roots (T := 0) (h.keeps.mem_of_find hd hfind)
        have hsound := h.keeps.sound d (List.mem_of_getElem? hd)
        have hptr := (Heap.Inv.incrRefCount h.keeps.inv hval).2.2
        have h₁ := h.incrRefCount hval
        have hobject : (s.incrRefCount de.val).heap.object de.val = s.heap.object de.val :=
          object_congr (hptr _) fun e _ => hptr e
        obtain ⟨d₁, hd₁, hdb₁, -⟩ := h₁.shows.db_eq
        obtain rfl : d = d₁ := Option.some.inj (hd.symm.trans hd₁)
        simp only [Option.map_some, DictEntry.map]
        rw [hdb₁, ok_bind, ← hobject,
          ← h.shows.database_eq h₁.shows rfl rfl (List.mem_of_getElem? hd)]
        refine (Alike.of_map ((s.incrRefCount de.val).heap.dictAdd_database d dst de.val)).bind
          fun added _ hadded => ?_
        obtain ⟨hadd, rfl⟩ := hadded
        obtain ⟨d', ret⟩ := added
        have hfind' : dictFind sdsDictType d' src = some de :=
          (hsound.dictFind_added_of_ne sdsDictType_lawful hadd hne).trans hfind
        have hd' := List.getElem?_set_self (a := d') h.shows.inRange
        have h₂ := h₁.dictAdd hd hadd
        cases ret with
        | DICT_OK =>
            obtain ⟨h₂, -, hvalues⟩ := h₂
            rw [← h.shows.setDB_eq] at h₂
            obtain ⟨s₃, hdel, h₃, hvalues₃⟩ := h₂.dictDeleteValue (by decide) hd' src
            rw [hfind'] at hvalues₃
            simp only [reduceCtorEq, if_false, false_and, replaceExisting]
            change Alike _
              (dictDeleteValue ((s.incrRefCount de.val).setDatabase s.client.dict d') src >>= _) _
            rw [hdel, ok_bind]
            rw [setDB_setDB] at h₃
            refine .ok (h₃.dirtied.addOk.ends (.of_le hlone ?_))
            exact ((Multiset.cons_inj_right _).mp (hvalues₃.trans hvalues)).le
        | DICT_ERR =>
            obtain ⟨h₂, hvalues⟩ := h₂
            rw [← h.shows.setDB_eq] at h₂
            cases nx with
            | true =>
                simp only [if_true, and_self]
                exact .ok (((h₂.decrRefCount (by decide)).addReplySds _).ends
                  (.of_le hlone hvalues.le))
            | false =>
                simp only [if_true, reduceCtorEq, if_false, and_false]
                refine (h₂.dictReplaceValue (by decide) hd' dst).bind fun s₃ db hrep => ?_
                obtain ⟨h₃, -, -, hle, d₃, old, hrep, hd₃⟩ := hrep
                rw [setDB_setDB] at h₃
                have hfind₃ : dictFind sdsDictType d₃ src = some de :=
                  ((hsound.dictAdd_returns sdsDictType_lawful hadd).dictFind_replaced_of_ne
                    sdsDictType_lawful hrep hne).trans hfind'
                obtain ⟨s₄, hdel, h₄, hvalues₄⟩ := h₃.dictDeleteValue (by decide) hd₃ src
                rw [hfind₃] at hvalues₄
                rw [h₃.shows.database_setDB hd₃, setDB_setDB] at h₄
                rw [hdel, ok_bind]
                refine .ok (h₄.dirtied.addOk.ends (.of_le hlone ?_))
                rw [hvalues, ← hvalues₄] at hle
                exact (Multiset.cons_le_cons_iff _).mp hle

theorem keysLoop_map (pattern : Bytes) (entries : List (DictEntry Bytes ObjectId)) (keys : Bytes)
    (f : ObjectId → CutisObject) :
    Cutis.keysLoop pattern (entries.map (DictEntry.map id f)) keys =
      keysLoop pattern entries keys := by
  induction entries generalizing keys with
  | nil => rfl
  | cons de rest ih =>
      rw [List.map_cons, Cutis.keysLoop, keysLoop]
      simp only [ih, DictEntry.map, id]

theorem keysCommand_simulates : Simulates keysCommand Cutis.keysCommand := by
  intro O s v h hlone
  refine (h.shows.arg 1).bind fun pattern _ hpattern => ?_
  subst hpattern
  refine h.shows.db.bind fun d _ hd => ?_
  obtain ⟨hd, rfl⟩ := hd
  rw [database, dictIterate_map, keysLoop_map]
  cases keysLoop pattern (dictIterate d) [] with
  | error fault => exact .error _
  | ok keys => exact .ok ((h.addReplySds _).ends hlone)

theorem dbsizeCommand_simulates : Simulates dbsizeCommand Cutis.dbsizeCommand := by
  intro O s v h hlone
  refine h.shows.db.bind fun d _ hd => ?_
  obtain ⟨hd, rfl⟩ := hd
  exact .ok ((h.addReplySds _).ends hlone)

section Control

-- The commands whose outcome rests on an answer of the system or of the C library.
def asks : CommandProc → Bool
  | .SInterCommand | .RandomKeyCommand | .SaveCommand | .BgsaveCommand | .ShutDownCommand
  | .LastSaveCommand => true
  | _ => false

-- The two models have been given the same answers.
structure Answers.Match (a : Answers) (h : Heap) (os : Os) (v : Session) (proc : CommandProc) :
    Prop where
  random : a.random = os.random
  qsort : ∀ dv, (a.qsort dv).map (Dict.map h.bytes id) = os.qsort (dv.map (Dict.map h.bytes id))
  saved : a.saved = if proc = .BgsaveCommand then .CUTIS_OK
    else (saveDB os.stdio v.fs v.server CUTIS_DB_NAME).2.2
  bg_saving : a.bg_saving = v.server.bg_saving
  last_save : a.last_save = v.server.last_save

variable {a : Answers} {os : Os}

-- The files and the times of the server do not matter for what a session stands for.
theorem setServer_mirrors (h : Mirrors O s₀ s T n v) {server : CutisServer} (fs : FileSystem)
    (child : Option Child) (stop : Bool) (hdict : server.dict = v.server.dict) :
    Mirrors O s₀ s T n { v with server, fs, child, stop } :=
  ⟨h.keeps, ⟨hdict.trans h.shows.dict, h.shows.selected, h.shows.inRange, h.shows.argv,
    h.shows.reply, h.shows.shared⟩, h.length⟩

theorem saveCommand_alike (h : Mirrors O s s 0 0 v) (hlone : s.Lone)
    (hsaved : a.saved = (saveDB os.stdio v.fs v.server CUTIS_DB_NAME).2.2) :
    Alike s.Ends (saveCommand a s) (Cutis.saveCommand os v) := by
  have hdict := System.saveDB_dict os.stdio v.fs v.server CUTIS_DB_NAME
  rw [saveCommand, Cutis.saveCommand, hsaved]
  cases hsave : saveDB os.stdio v.fs v.server CUTIS_DB_NAME with
  | mk server result =>
      obtain ⟨fs, status⟩ := result
      rw [hsave] at hdict
      have h₁ := setServer_mirrors h fs v.child v.stop hdict
      cases status with
      | CUTIS_OK => exact .ok (h₁.addOk.ends hlone)
      | CUTIS_ERR => exact .ok ((h₁.addShared (by simp) h.shows.err).ends hlone)

theorem bgsaveCommand_alike (h : Mirrors O s s 0 0 v) (hlone : s.Lone)
    (hbg : a.bg_saving = v.server.bg_saving) (hsaved : a.saved = .CUTIS_OK) :
    Alike s.Ends (bgsaveCommand a s) (Cutis.bgsaveCommand os v) := by
  rw [bgsaveCommand, Cutis.bgsaveCommand, hbg, saveCommand, hsaved]
  cases hsaving : v.server.bg_saving with
  | true => exact .ok ((h.addReplySds _).ends hlone)
  | false =>
      rw [saveDBBackground, hsaving]
      let image : Child := { server := v.server, tmpfile := none, saved := none, ended := none }
      have h₁ := setServer_mirrors h v.fs (if os.fork then some image else v.child) v.stop
        (show ({ v.server with bg_saving := true } : CutisServer).dict = v.server.dict from rfl)
      exact .ok (h₁.addOk.ends hlone)

theorem shutDownCommand_alike (h : Mirrors O s s 0 0 v) (hlone : s.Lone)
    (hsaved : a.saved = (saveDB os.stdio v.fs v.server CUTIS_DB_NAME).2.2) :
    Alike s.Ends (shutDownCommand a s)
      (Cutis.shutDownCommand os v) := by
  have hdict := System.saveDB_dict os.stdio v.fs v.server CUTIS_DB_NAME
  rw [shutDownCommand, Cutis.shutDownCommand, hsaved]
  cases hsave : saveDB os.stdio v.fs v.server CUTIS_DB_NAME with
  | mk server result =>
      obtain ⟨fs, status⟩ := result
      rw [hsave] at hdict
      cases status with
      | CUTIS_OK => exact .ok ((setServer_mirrors h fs v.child true hdict).ends hlone)
      | CUTIS_ERR =>
          have h₁ := setServer_mirrors h fs v.child v.stop hdict
          exact .ok ((h₁.addReplySds _).ends hlone)

theorem pingCommand_simulates : Simulates pingCommand Cutis.pingCommand := by
  intro O s v h hlone
  exact .ok ((h.addShared (by simp) h.shows.pong).ends hlone)

theorem echoCommand_simulates : Simulates echoCommand Cutis.echoCommand := by
  intro O s v h hlone
  refine (h.shows.arg 1).bind fun str _ hstr => ?_
  subst hstr
  exact .ok (((h.addReplySds (intLine str.length)).addReplySds str).addCrlf.ends hlone)

theorem lastSaveCommand_alike (h : Mirrors O s s 0 0 v) (hlone : s.Lone)
    (hlast : a.last_save = v.server.last_save) :
    Alike s.Ends (lastSaveCommand a s) (Cutis.lastSaveCommand v) := by
  rw [lastSaveCommand, Cutis.lastSaveCommand, hlast]
  exact .ok ((h.addReplySds _).ends hlone)

end Control

theorem quiet_simulates (a : Answers) (os : Os) {proc : CommandProc} (hquiet : asks proc = false) :
    Simulates (call a · proc) (proc.call os ·) := by
  cases proc with
  | GetCommand => exact getCommand_simulates
  | SetCommand => exact setGenericCommand_simulates false
  | SetnxCommand => exact setGenericCommand_simulates true
  | ExistsCommand => exact existsCommand_simulates
  | DelCommand => exact delCommand_simulates
  | IncrCommand => exact incrDecrCommand_simulates 1
  | DecrCommand => exact incrDecrCommand_simulates (-1)
  | RPushCommand => exact pushGenericCommand_simulates .CUTIS_TAIL
  | LPushCommand => exact pushGenericCommand_simulates .CUTIS_HEAD
  | RPopCommand => exact popGenericCommand_simulates .CUTIS_TAIL
  | LPopCommand => exact popGenericCommand_simulates .CUTIS_HEAD
  | LLenCommand => exact lLenCommand_simulates
  | LIndexCommand => exact lIndexCommand_simulates
  | LRangeCommand => exact lRangeCommand_simulates
  | LTrimCommand => exact lTrimCommand_simulates
  | LSetCommand => exact lSetCommand_simulates
  | SAddCommand => exact sAddCommand_simulates
  | SRemCommand => exact sRemCommand_simulates
  | SIsMemberCommand => exact sIsMemberCommand_simulates
  | SCardCommand => exact sCardCommand_simulates
  | SelectCommand => exact selectCommand_simulates
  | MoveCommand => exact moveCommand_simulates
  | RenameCommand => exact renameGenericCommand_simulates false
  | RenamenxCommand => exact renameGenericCommand_simulates true
  | KeysCommand => exact keysCommand_simulates
  | DbsizeCommand => exact dbsizeCommand_simulates
  | PingCommand => exact pingCommand_simulates
  | EchoCommand => exact echoCommand_simulates
  | TypeCommand => exact typeCommand_simulates
  | SInterCommand | RandomKeyCommand | SaveCommand | BgsaveCommand | ShutDownCommand
  | LastSaveCommand => cases hquiet

-- A command handler does with the objects what the other does with the values.
theorem call_simulates {a : Answers} {os : Os} {proc : CommandProc} (h : Mirrors O s s 0 0 v)
    (hlone : s.Lone) (hmatch : a.Match s.heap os v proc) :
    Alike s.Ends (call a s proc) (proc.call os v) := by
  cases hasks : asks proc with
  | false => exact quiet_simulates a os hasks h hlone
  | true =>
      cases proc with
      | SInterCommand => exact sInterCommand_alike h hlone fun _ dv _ _ => hmatch.qsort dv
      | RandomKeyCommand => exact randomKeyCommand_simulates hmatch.random h hlone
      | SaveCommand => exact saveCommand_alike h hlone hmatch.saved
      | BgsaveCommand => exact bgsaveCommand_alike h hlone hmatch.bg_saving hmatch.saved
      | ShutDownCommand => exact shutDownCommand_alike h hlone hmatch.saved
      | LastSaveCommand => exact lastSaveCommand_alike h hlone hmatch.last_save
      | _ => cases hasks

section Ends

variable {a : Answers} {proc : CommandProc}

theorem saveCommand_ends (h : Mirrors O s s 0 0 v) (hlone : s.Lone)
    (hcall : saveCommand a s = .ok s') : ∃ v', s.Ends s' v' := by
  unfold saveCommand at hcall
  split at hcall
  · cases hcall
    exact ⟨_, h.addOk.ends hlone⟩
  · cases hcall
    exact ⟨_, (h.addShared (by simp) h.shows.err).ends hlone⟩

-- A system with given answers to random and qsort.
def answering (random : List Nat) (qsort : List (Dict Bytes Unit) → List (Dict Bytes Unit)) :
    Os where
  random
  qsort
  stdio := {
    time := 0
    random := 0
    fopen := true
    fwrite := id
    fclose := 0
    rename := true
    time_saved := 0 }
  fork := true

-- The sets are in the order that qsort has left.
theorem sInterCommand_ends (h : Mirrors O s s 0 0 v) (hlone : s.Lone)
    (hcall : sInterCommand a s = .ok s') : ∃ v', s.Ends s' v' := by
  obtain ⟨d, -, hdb, -⟩ := h.shows.db_eq
  let sorted : List (Dict Bytes Unit) :=
    match sInterSets s d s.argv.tail with
    | .ok (some dv) => (a.qsort dv).map (Dict.map s.heap.bytes id)
    | .ok none => []
    | .error _ => []
  have hsim : Alike s.Ends (sInterCommand a s)
      (Cutis.sInterCommand (answering a.random fun _ => sorted) v) :=
    sInterCommand_alike h hlone fun d' dv hdb' hsets => by
      obtain rfl : d = d' := Except.ok.inj (hdb.symm.trans hdb')
      simp only [sorted, hsets, answering]
  rw [hcall] at hsim
  obtain ⟨v', -, hends⟩ := hsim.left
  exact ⟨v', hends⟩

-- Whatever the answers, there are values that the objects stand for in the end.
theorem call_ends (h : Mirrors O s s 0 0 v) (hlone : s.Lone)
    (hcall : call a s proc = .ok s') : ∃ v', s.Ends s' v' := by
  cases hasks : asks proc with
  | false =>
      have hsim : Alike s.Ends (call a s proc) (proc.call (answering a.random id) v) :=
        quiet_simulates a (answering a.random id) hasks h hlone
      rw [hcall] at hsim
      obtain ⟨v', -, hends⟩ := hsim.left
      exact ⟨v', hends⟩
  | true =>
      cases proc with
      | SInterCommand => exact sInterCommand_ends h hlone hcall
      | RandomKeyCommand =>
          have hsim : Alike s.Ends (call a s .RandomKeyCommand)
              (Cutis.randomKeyCommand (answering a.random id) v) :=
            randomKeyCommand_simulates rfl h hlone
          rw [hcall] at hsim
          obtain ⟨v', -, hends⟩ := hsim.left
          exact ⟨v', hends⟩
      | SaveCommand => exact saveCommand_ends h hlone hcall
      | BgsaveCommand =>
          change bgsaveCommand a s = .ok s' at hcall
          unfold bgsaveCommand at hcall
          split at hcall
          · cases hcall
            exact ⟨_, (h.addReplySds _).ends hlone⟩
          · exact saveCommand_ends h hlone hcall
      | ShutDownCommand =>
          change shutDownCommand a s = .ok s' at hcall
          unfold shutDownCommand at hcall
          split at hcall
          · cases hcall
            exact ⟨_, h.ends hlone⟩
          · cases hcall
            exact ⟨_, (h.addReplySds _).ends hlone⟩
      | LastSaveCommand =>
          cases hcall
          exact ⟨_, (h.addReplySds _).ends hlone⟩
      | _ => cases hasks

end Ends

end Heap

end Cutis

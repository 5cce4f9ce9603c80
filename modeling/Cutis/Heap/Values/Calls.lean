import Cutis.Heap.Clean
import Cutis.Heap.Values.Keys
import Cutis.Heap.Values.Loads

namespace Cutis

open Lockstep

namespace Heap

open HeapSession

theorem sendLoop_dict {h h' : Heap} {c c' : HeapClient} {nwritten nwritten' : Int}
    {errno errno' : Nat} {results : List WriteResult}
    (hcall : sendLoop h c nwritten errno results = .ok (h', c', nwritten', errno')) :
    c'.dict = c.dict := by
  induction results generalizing h c nwritten errno with
  | nil =>
      rw [sendLoop] at hcall
      split at hcall
      · cases hcall
        rfl
      · cases hcall
        rfl
  | cons result results ih =>
      rw [sendLoop] at hcall
      split at hcall
      · cases hcall
        rfl
      · obtain ⟨⟨bytes, n, e⟩, -, hcall⟩ := bind_eq_ok.mp hcall
        simp only at hcall
        split at hcall
        · cases hcall
          rfl
        · split at hcall
          · have hrest := ih hcall
            exact hrest
          · have hrest := ih hcall
            exact hrest

end Heap

namespace HeapServer

open HeapSession

variable {σ σ' : HeapServer} {i : Nat} {c : HeapClient} {argv : List Bytes} {v : Session}

-- No object is the value of two keys, in whatever databases.
def Unshared (σ : HeapServer) : Prop := (σ.dict.map Dict.vals).sum.Nodup

-- What the server stands for, as a client sees it.
structure Reads (σ : HeapServer) (c : HeapClient) (argv : List Bytes) (v : Session) : Prop where
  dict : v.server.dict = σ.dict.map σ.heap.database
  client : v.client = { dict := c.dict, argv, reply := c.reply.map σ.heap.bytes }

-- A command does to what the server stands for what the model of values has it do, and
-- leaves the queues of the other clients alone.
def CallRefines (σ : HeapServer) (e : HeapEvent) : Prop :=
  ∀ i cmd argv a c v os, e = .query i (.proc cmd argv) a → σ.clients[i]? = some c →
    σ.Reads c argv v → Heap.Answers.Match a σ.heap os v cmd.proc →
    Alike (fun σ' v' => (∃ c', σ'.clients[i]? = some c' ∧ σ'.Reads c' v'.client.argv v') ∧
        ∀ j, j ≠ i → σ'.queues[j]? = σ.queues[j]?)
      (σ.act e) (cmd.proc.call os v)

-- So does a resize of a table by the cron function.
def ResizeRefines (σ : HeapServer) (e : HeapEvent) : Prop :=
  ∀ dbid d, e = .resize dbid → σ.dict[dbid]? = some d →
    Alike (fun σ' r => σ'.dict.map σ'.heap.database =
        (σ.dict.map σ.heap.database).set dbid r.1 ∧ σ'.queues = σ.queues)
      (σ.act e) (dictResize sdsDictType (σ.heap.database d))

-- An item of the file becomes the value of one more key of its database.
def LoadRefines (σ : HeapServer) (e : HeapEvent) : Prop :=
  ∀ dbid key val σ', e = .load dbid key val → σ.act e = .ok σ' →
    ∃ d d' ob, σ.dict[dbid]? = some d ∧ ob.value = val.value ∧
      dictAdd sdsDictType (σ.heap.database d) key ob = .ok (d', .DICT_OK) ∧
      σ'.dict.map σ'.heap.database = (σ.dict.map σ.heap.database).set dbid d' ∧
      σ'.queues = σ.queues

def Refines (σ : HeapServer) (e : HeapEvent) : Prop :=
  σ.CallRefines e ∧ σ.ResizeRefines e ∧ σ.LoadRefines e

-- What holds between two events, besides the counts.
structure Standing (σ : HeapServer) : Prop where
  counted : σ.Counted
  unshared : σ.Unshared
  shared : σ.shared.toList.map σ.heap.bytes = SharedObject.strings
  inRange : ∀ c ∈ σ.clients, c.dict < σ.dict.length
  db_num : 0 < σ.dict.length

theorem standing_init {db_num : Nat} (hdb : 0 < db_num) : (initServer db_num).Standing where
  counted := counted_init db_num
  unshared := by
    have hvals : ((initServer db_num).dict.map Dict.vals).sum = 0 := by
      simp only [initServer, List.map_replicate, List.sum_replicate, vals_dictCreate, nsmul_zero]
    rw [Unshared, hvals]
    exact Multiset.nodup_zero
  shared := by
    change (initSharedObjects { objects := [], free_objs := [] }).1.toList.map
      (initSharedObjects { objects := [], free_objs := [] }).2.bytes = SharedObject.strings
    decide
  inRange := nofun
  db_num := by
    rw [initServer]
    simpa using hdb

section Query

theorem Reads.shows (hv : σ.Reads c argv v) (h : σ.Standing) (hdict : c.dict < σ.dict.length) :
    (σ.session c argv).Shows v where
  dict := hv.dict
  selected := by
    rw [hv.client]
    rfl
  inRange := hdict
  argv := by
    rw [hv.client]
    rfl
  reply := by
    rw [hv.client]
    rfl
  shared := h.shared

theorem exists_reads (σ : HeapServer) (c : HeapClient) (argv : List Bytes) :
    ∃ v, σ.Reads c argv v :=
  ⟨{ server := { Cutis.initServer 0 [] 0 with dict := σ.dict.map σ.heap.database }
     client := { dict := c.dict, argv, reply := c.reply.map σ.heap.bytes }
     fs := fun _ => none
     child := none
     stop := false }, rfl, rfl⟩

theorem mirrors_session (h : σ.Standing) (hroom : σ.Room) (hc : σ.clients[i]? = some c)
    (hv : σ.Reads c argv v) :
    Mirrors (queued (σ.clients.eraseIdx i)) (σ.session c argv) (σ.session c argv) 0 0 v :=
  ⟨keeps_session h.counted hroom hc argv, hv.shows h (h.inRange c (List.mem_of_getElem? hc)), rfl⟩

theorem leave_standing {s : HeapSession} {n : Nat} (h : σ.Standing) (hc : σ.clients[i]? = some c)
    (hkeeps : Keeps (queued (σ.clients.eraseIdx i)) (σ.session c argv) s 0 n)
    (hends : (σ.session c argv).Ends s v) : (σ.leave i s).Standing where
  counted := (leave_counted hc hkeeps).1
  unshared := hends.lone
  shared := by
    have hshared : s.shared = σ.shared := hkeeps.shared
    have hshows := hends.shows.shared
    rwa [hshared] at hshows
  inRange c' hc' := by
    rcases List.mem_or_eq_of_mem_set hc' with hc' | rfl
    · exact (h.inRange c' hc').trans_eq hends.length.symm
    · exact hends.shows.inRange
  db_num := h.db_num.trans_eq hends.length.symm

theorem query_standing {e : QueryEvent} {a : Heap.Answers} (h : σ.Standing)
    (hroom : σ.Room) (hc : σ.clients[i]? = some c)
    (hfree : (σ.freeClient i c).Standing) (hcall : σ.query i c a e = .ok σ') : σ'.Standing := by
  cases e with
  | proc cmd argv =>
      obtain ⟨s, hs, hcall⟩ := bind_eq_ok.mp hcall
      cases hcall
      obtain ⟨v, hv⟩ := exists_reads σ c argv
      have hstart := mirrors_session h hroom hc hv
      obtain ⟨n, hkeeps⟩ := Heap.call_preserves a cmd.proc hstart.keeps hs
      obtain ⟨v', hends⟩ := Heap.call_ends hstart h.unshared hs
      exact leave_standing h hc hkeeps hends
  | addReplySds str =>
      cases hcall
      obtain ⟨v, hv⟩ := exists_reads σ c []
      have hend := (mirrors_session h hroom hc hv).addReplySds str
      exact leave_standing h hc hend.keeps (hend.ends h.unshared)
  | freeClient =>
      cases hcall
      exact hfree

end Query

section Write

open Heap

-- The databases and the selections of the clients are as before.
theorem Standing.of_sent {heap : Heap} {clients : List HeapClient} (h : σ.Standing)
    (hcounted : ({ σ with heap, clients } : HeapServer).Counted)
    (hshared : ∀ a ∈ σ.shared.toList, heap.bytes a = σ.heap.bytes a)
    (hclients : ∀ c ∈ clients, ∃ c' ∈ σ.clients, c.dict = c'.dict) :
    ({ σ with heap, clients } : HeapServer).Standing where
  counted := hcounted
  unshared := h.unshared
  shared := (List.map_congr_left hshared).trans h.shared
  inRange c hc := by
    obtain ⟨c', hc', hdict⟩ := hclients c hc
    exact hdict ▸ h.inRange c' hc'
  db_num := h.db_num

theorem bytes_shared {heap : Heap} {q₀ q : List ObjectId}
    (hu : Unsent (σ.elsewhere i) σ.heap q₀ heap q) (a : ObjectId) (ha : a ∈ σ.shared.toList) :
    heap.bytes a = σ.heap.bytes a :=
  hu.bytes a (Multiset.mem_add.mpr (Or.inr (Multiset.mem_add.mpr (Or.inr
    (Multiset.mem_add.mpr (Or.inl (Multiset.mem_coe.mpr ha)))))))

theorem freeClient_standing {heap : Heap} (h : σ.Standing)
    (hu : Unsent (σ.elsewhere i) σ.heap c.reply heap []) :
    ({ σ with heap, clients := σ.clients.eraseIdx i } : HeapServer).Standing :=
  h.of_sent (freeClient_counted h.counted hu).1 (bytes_shared hu) fun c hc =>
    ⟨c, List.mem_of_mem_eraseIdx hc, rfl⟩

theorem disconnect_standing (h : σ.Standing) (hroom : σ.Room) (hc : σ.clients[i]? = some c) :
    (σ.freeClient i c).Standing :=
  freeClient_standing h (unsent_start h.counted hroom hc).release

theorem sent_standing {heap : Heap} {c' : HeapClient} (h : σ.Standing)
    (hc : σ.clients[i]? = some c) (hdict : c'.dict = c.dict)
    (hu : Unsent (σ.elsewhere i) σ.heap c.reply heap c'.reply) :
    ({ σ with heap, clients := σ.clients.set i c' } : HeapServer).Standing := by
  refine h.of_sent (sent_counted c' h.counted hc hu).1 (bytes_shared hu) fun c₁ hc₁ => ?_
  rcases List.mem_or_eq_of_mem_set hc₁ with hc₁ | rfl
  · exact ⟨c₁, hc₁, rfl⟩
  · exact ⟨c, List.mem_of_getElem? hc, hdict⟩

theorem sendReplyToClient_standing {results : List WriteResult} {errno : Nat} (h : σ.Standing)
    (hroom : σ.Room) (hc : σ.clients[i]? = some c)
    (hcall : σ.sendReplyToClient i c results errno = .ok σ') : σ'.Standing := by
  obtain ⟨⟨heap, c', nwritten, errno'⟩, hsend, hcall⟩ := bind_eq_ok.mp hcall
  have hu := (unsent_start h.counted hroom hc).sendLoop hsend
  have hdict := sendLoop_dict hsend
  simp only at hcall
  split at hcall
  · cases hcall
    rw [freeClient, List.eraseIdx_set_eq]
    exact freeClient_standing h hu.release
  · split at hcall
    · cases hcall
      rw [List.set_set]
      exact sent_standing h hc hdict hu
    · cases hcall
      exact sent_standing h hc hdict hu

end Write

section Act

theorem load_standing {dbid : Nat} {key : Bytes} {val : DumpValue} {s : HeapSession}
    (h : σ.Standing) (hroom : σ.Room)
    (hcall : Heap.loadEntry (σ.session { createClient with dict := dbid } []) key val = .ok s) :
    ({ σ with heap := s.heap, dict := s.dict } : HeapServer).Standing := by
  obtain ⟨v, hv⟩ := exists_reads σ { createClient with dict := dbid } []
  have hkeeps := keeps_load h.counted hroom dbid
  obtain ⟨_, _, _, -, -, -, hends⟩ := Heap.loadEntry_ends
    ⟨hkeeps, hv.shows h (Heap.loadEntry_inRange hcall), rfl⟩ h.unshared hcall
  have hshared : s.shared = σ.shared := (Heap.loadEntry_keeps hkeeps hcall).1.choose_spec.shared
  refine ⟨(load_counted h.counted hroom hcall).1, hends.lone, ?_, fun c hc => ?_, ?_⟩
  · have hshows := hends.shows.shared
    rwa [hshared] at hshows
  · exact (h.inRange c hc).trans_eq hends.length.symm
  · exact h.db_num.trans_eq hends.length.symm

theorem resize_standing {dbid : Nat} {dict dict' : HeapDict} {status : DictStatus}
    (h : σ.Standing) (hdict : σ.dict[dbid]? = some dict)
    (hres : dictResize sdsDictType dict = .ok (dict', status)) :
    ({ σ with dict := σ.dict.set dbid dict' } : HeapServer).Standing where
  counted := resize_counted h.counted hdict hres
  unshared := by
    have hvals := ((h.counted.sound dict (List.mem_of_getElem? hdict)).dictResize_vals hres).2
    have hsum := Ledger.sum_set Dict.vals hdict dict'
    rw [hvals] at hsum
    rw [Unshared, add_right_cancel hsum]
    exact h.unshared
  shared := h.shared
  inRange c hc := (h.inRange c hc).trans_eq List.length_set.symm
  db_num := h.db_num.trans_eq List.length_set.symm

theorem act_standing {e : HeapEvent} (h : σ.Standing) (hroom : σ.Room)
    (hact : σ.act e = .ok σ') : σ'.Standing := by
  cases e with
  | connect =>
      cases hact
      refine { h with counted := (connect_counted h.counted).1, inRange := fun c hc => ?_ }
      rcases List.mem_append.mp hc with hc | hc
      · exact h.inRange c hc
      · rw [List.mem_singleton.mp hc]
        exact h.db_num
  | query i e a =>
      obtain ⟨c, hc, hact⟩ := bind_eq_ok.mp hact
      have hc := client_eq_ok hc
      exact query_standing h hroom hc (disconnect_standing h hroom hc) hact
  | writable i results errno =>
      obtain ⟨c, hc, hact⟩ := bind_eq_ok.mp hact
      exact sendReplyToClient_standing h hroom (client_eq_ok hc) hact
  | disconnect i =>
      obtain ⟨c, hc, hact⟩ := bind_eq_ok.mp hact
      cases hact
      exact disconnect_standing h hroom (client_eq_ok hc)
  | load dbid key val =>
      obtain ⟨s, hs, hact⟩ := bind_eq_ok.mp hact
      cases hact
      exact load_standing h hroom hs
  | resize dbid =>
      rw [act] at hact
      split at hact
      · cases hact
      · rename_i dict hdict
        obtain ⟨⟨dict', status⟩, hres, hact⟩ := bind_eq_ok.mp hact
        cases hact
        exact resize_standing h hdict hres

end Act

theorem call_refines {e : HeapEvent} (h : σ.Standing) (hroom : σ.Room) : σ.CallRefines e := by
  rintro i cmd argv a c v os rfl hc hv hmatch
  have hstart := mirrors_session h hroom hc hv
  have hact : σ.act (.query i (.proc cmd argv) a) =
      (Heap.call a (σ.session c argv) cmd.proc >>= fun s => pure (σ.leave i s)) := by
    rw [act, client, hc]
    rfl
  rw [hact, ← bind_pure (cmd.proc.call os v)]
  refine (Heap.call_simulates hstart h.unshared hmatch).known.bind fun s v' hs => .ok ⟨?_, ?_⟩
  · obtain ⟨-, hends⟩ := hs
    refine ⟨s.client, List.getElem?_set_self (List.getElem?_eq_some_iff.mp hc).1,
      hends.shows.dict, ?_⟩
    change v'.client = ⟨s.client.dict, v'.client.argv, s.client.reply.map s.heap.bytes⟩
    rw [← hends.shows.selected, ← hends.shows.reply]
  · obtain ⟨hcall, -⟩ := hs
    obtain ⟨n, hkeeps⟩ := Heap.call_preserves a cmd.proc hstart.keeps hcall
    obtain ⟨-, new, hqueues⟩ := leave_counted hc hkeeps
    intro j hj
    rw [hqueues, List.getElem?_modify_ne _ _ (Ne.symm hj)]

theorem resize_refines (σ : HeapServer) (e : HeapEvent) : σ.ResizeRefines e := by
  rintro dbid d rfl hd
  rw [act, hd, ← bind_pure (dictResize sdsDictType (σ.heap.database d))]
  refine (Alike.of_map (sdsDictType_maps.dictResize σ.heap.object d)).bind fun r _ hr => ?_
  obtain ⟨-, rfl⟩ := hr
  exact .ok ⟨List.map_set, rfl⟩

theorem load_refines {e : HeapEvent} (h : σ.Standing) (hroom : σ.Room) : σ.LoadRefines e := by
  rintro dbid key val σ' rfl hact
  obtain ⟨s, hs, hact⟩ := bind_eq_ok.mp hact
  cases hact
  obtain ⟨v, hv⟩ := exists_reads σ { createClient with dict := dbid } []
  obtain ⟨d, d', ob, hd, hob, hadd, hends⟩ := Heap.loadEntry_ends
    ⟨keeps_load h.counted hroom dbid, hv.shows h (Heap.loadEntry_inRange hs), rfl⟩ h.unshared hs
  refine ⟨d, d', ob, hd, hob, hadd, ?_, (load_counted h.counted hroom hs).2⟩
  change s.dict.map s.heap.database = _
  rw [← hends.shows.dict, ← hv.dict]
  rfl

-- The handlers, with all their sharing of objects, have the meaning the values say.
theorem refines_values {db_num : Nat} (hdb : 0 < db_num) (events : List HeapEvent)
    (hroom : Runs.Throughout act Room (initServer db_num) events) :
    Runs.Throughout act Unshared (initServer db_num) events ∧
      Runs.Always act Refines (initServer db_num) events :=
  Runs.throughout_and_always (fun _ _ _ h hroom hact => act_standing h hroom hact)
    (fun _ h _ => h.unshared)
    (fun σ e h hroom => ⟨call_refines h hroom, resize_refines σ e, load_refines h hroom⟩) events _
    (standing_init hdb) hroom

theorem refines_values_session :
    Runs.Throughout act Unshared (initServer 1) [.connect, rpush, rpush, ping] ∧
      Runs.Always act Refines (initServer 1) [.connect, rpush, rpush, ping] :=
  refines_values (by decide) _ room_session

end HeapServer

end Cutis

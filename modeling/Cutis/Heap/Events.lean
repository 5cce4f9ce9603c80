import Cutis.Heap.Keys
import Cutis.Heap.Sending

namespace Cutis

namespace Heap

open HeapSession

-- What LoadDB makes of the file is held by the object it builds, and then by the database.
section Load

variable {O T : Multiset ObjectId} {s₀ s s' : HeapSession} {o : ObjectId} {n : Nat}

theorem loadElements_keeps {vals : List Bytes} (h : Keeps O s₀ s (o ::ₘ T) n)
    (hcall : loadElements o vals s = .ok s') :
    (∃ n, Keeps O s₀ s' (o ::ₘ T) n) ∧ s'.client = s.client := by
  induction vals generalizing s n with
  | nil =>
      cases hcall
      exact ⟨⟨n, h⟩, rfl⟩
  | cons val rest ih =>
      obtain ⟨el, heap, heq, h₁, -, -, hself, -⟩ :=
        h.create (p := .string (some val)) rfl nofun nofun
      have hheld : o ∈ HeapSession.held { s with heap } O (el ::ₘ o ::ₘ T) :=
        Keeps.mem_of_own (Multiset.mem_cons_of_mem (Multiset.mem_cons_self _ _))
      simp only [loadElements, heq] at hcall
      split at hcall
      · rename_i l hl
        have h₂ := addNode_keeps h₁ hheld hl hself .CUTIS_TAIL
        have hrest := ih h₂ hcall
        exact hrest
      · rename_i d hd
        obtain ⟨⟨d', status⟩, hadd, hcall⟩ := bind_eq_ok.mp hcall
        have h₂ := addMember_keeps h₁ hheld hd hself hadd
        cases status with
        | DICT_ERR => cases hcall
        | DICT_OK =>
            have hrest := ih h₂ hcall
            exact hrest
      · cases hcall

theorem loadObject_keeps {v : DumpValue} (h : Keeps O s₀ s T n)
    (hcall : loadObject s v = .ok (o, s')) :
    (∃ n, Keeps O s₀ s' (o ::ₘ T) n) ∧ s'.client = s.client := by
  cases v with
  | string val =>
      obtain ⟨o₁, heap, heq, h₁, -⟩ := h.create (p := .string (some val)) rfl nofun nofun
      rw [loadObject, heq] at hcall
      cases hcall
      exact ⟨⟨_, h₁⟩, rfl⟩
  | list l =>
      obtain ⟨o₁, heap, heq, h₁, -⟩ := h.create (p := .list []) rfl nofun nofun
      simp only [loadObject, heq] at hcall
      obtain ⟨s₁, hload, hcall⟩ := bind_eq_ok.mp hcall
      cases hcall
      have hloaded := loadElements_keeps h₁ hload
      exact hloaded
  | set members =>
      obtain ⟨o₁, heap, heq, h₁, -⟩ := h.create (p := .set dictCreate) rfl nofun
        (fun _ hd => ObjectPtr.set.inj hd ▸ shape_dictReset)
      simp only [loadObject, heq] at hcall
      obtain ⟨s₁, hload, hcall⟩ := bind_eq_ok.mp hcall
      cases hcall
      have hloaded := loadElements_keeps h₁ hload
      exact hloaded

theorem loadEntry_keeps {key : Bytes} {v : DumpValue} (h : Keeps O s₀ s T n)
    (hcall : loadEntry s key v = .ok s') :
    (∃ n, Keeps O s₀ s' T n) ∧ s'.client = s.client := by
  obtain ⟨⟨o, s₁⟩, hload, hcall⟩ := bind_eq_ok.mp hcall
  obtain ⟨⟨n', h₁⟩, hclient⟩ := loadObject_keeps h hload
  obtain ⟨d, hd, hcall⟩ := bind_eq_ok.mp hcall
  obtain ⟨⟨d', ret⟩, hadd, hcall⟩ := bind_eq_ok.mp hcall
  have h₂ := h₁.dictAdd (database_eq_ok hd) hadd
  cases ret with
  | DICT_ERR => cases hcall
  | DICT_OK =>
      cases hcall
      exact ⟨⟨n', h₂.1⟩, hclient⟩

end Load

end Heap

namespace HeapServer

variable {σ σ' : HeapServer} {i : Nat} {c : HeapClient}

-- The entries of the queues of some clients.
def queued (clients : List HeapClient) : Multiset ObjectId :=
  (clients.map fun c => (c.reply : Multiset ObjectId)).sum

-- The places outside of the objects: the shared replies, the values of the databases
-- and the entries of all queues.
def roots (σ : HeapServer) : Multiset ObjectId :=
  (σ.shared.toList : Multiset ObjectId) + (σ.dict.map Dict.vals).sum + queued σ.clients

-- Every place that holds an object.
def holders (σ : HeapServer) : Multiset ObjectId := σ.roots + σ.heap.inner

-- No object is held more often than an int can count.
def Room (σ : HeapServer) : Prop := ∀ o, σ.holders.count o < 2 ^ 31

-- What holds between two events.
structure Counted (σ : HeapServer) : Prop where
  inv : σ.heap.Inv σ.roots
  sound : ∀ d ∈ σ.dict, d.Sound sdsDictType

-- The strings in the queues.
def queues (σ : HeapServer) : List (List Bytes) :=
  σ.clients.map fun c => c.reply.map σ.heap.bytes

-- What an event may do to the queues: strings are added at the end and dropped from the
-- front, and none changes.
def QueueStep (qs qs' : List (List Bytes)) : HeapEvent → Prop
  | .connect => qs' = qs ++ [[]]
  | .query i .freeClient _ => qs' = qs.eraseIdx i
  | .query i _ _ => ∃ new, qs' = qs.modify i (· ++ new)
  | .writable i _ _ => qs' = qs.eraseIdx i ∨ ∃ k, qs' = qs.modify i (List.drop k)
  | .disconnect i => qs' = qs.eraseIdx i
  | .load _ _ _ | .resize _ => qs' = qs

section Clients

theorem queued_eraseIdx (hc : σ.clients[i]? = some c) :
    queued (σ.clients.eraseIdx i) + (c.reply : Multiset ObjectId) = queued σ.clients :=
  Ledger.sum_eraseIdx _ hc

theorem queued_set (hc : σ.clients[i]? = some c) (c' : HeapClient) :
    queued (σ.clients.set i c') =
      queued (σ.clients.eraseIdx i) + (c'.reply : Multiset ObjectId) := by
  have hset : (σ.clients.set i c')[i]? = some c' :=
    List.getElem?_set_self (List.getElem?_eq_some_iff.mp hc).1
  rw [← List.eraseIdx_set_eq (a := c')]
  exact (Ledger.sum_eraseIdx _ hset).symm

theorem mem_queued {clients : List HeapClient} (hc : c ∈ clients) {a : ObjectId}
    (ha : a ∈ c.reply) : a ∈ queued clients := by
  obtain ⟨i, hi⟩ := List.mem_iff_getElem?.mp hc
  rw [queued, ← Ledger.sum_eraseIdx (fun c : HeapClient => (c.reply : Multiset ObjectId)) hi]
  exact Multiset.mem_add.mpr (Or.inr (Multiset.mem_coe.mpr ha))

theorem map_bytes_congr {clients : List HeapClient} {heap heap' : Heap}
    (hbytes : ∀ a ∈ queued clients, heap'.bytes a = heap.bytes a) (hc : c ∈ clients) :
    c.reply.map heap'.bytes = c.reply.map heap.bytes :=
  List.map_congr_left fun a ha => hbytes a (mem_queued hc ha)

-- The queue of one client changed.
theorem queues_set {heap : Heap} (c' : HeapClient)
    (hbytes : ∀ a ∈ queued (σ.clients.eraseIdx i), heap.bytes a = σ.heap.bytes a) :
    ((σ.clients.set i c').map fun c => c.reply.map heap.bytes) =
      σ.queues.set i (c'.reply.map heap.bytes) := by
  apply List.ext_getElem?
  intro j
  rw [queues, List.map_set]
  by_cases hij : i = j
  · rw [hij, List.getElem?_set_self', List.getElem?_set_self', List.getElem?_map,
      List.getElem?_map]
    cases σ.clients[j]? <;> rfl
  · rw [List.getElem?_set_ne hij, List.getElem?_set_ne hij, List.getElem?_map, List.getElem?_map]
    cases hj : σ.clients[j]? with
    | none => rfl
    | some cj =>
        exact congrArg some (map_bytes_congr hbytes
          (List.mem_eraseIdx_iff_getElem?.mpr ⟨j, Ne.symm hij, hj⟩))

-- The queue of one client gone.
theorem queues_eraseIdx {heap : Heap}
    (hbytes : ∀ a ∈ queued (σ.clients.eraseIdx i), heap.bytes a = σ.heap.bytes a) :
    ((σ.clients.eraseIdx i).map fun c => c.reply.map heap.bytes) = σ.queues.eraseIdx i := by
  rw [List.map_congr_left fun c hc => map_bytes_congr hbytes hc, queues,
    List.eraseIdx_eq_take_drop_succ, List.eraseIdx_eq_take_drop_succ, List.map_append,
    List.map_take, List.map_drop]

end Clients

section Query

open HeapSession

variable {s : HeapSession} {argv : List Bytes} {n : Nat}

-- A handler starts from what holds between two events.
theorem keeps_session (h : σ.Counted) (hroom : σ.Room) (hc : σ.clients[i]? = some c)
    (argv : List Bytes) :
    Keeps (queued (σ.clients.eraseIdx i)) (σ.session c argv) (σ.session c argv) 0 0 := by
  have hroots : 0 + (queued (σ.clients.eraseIdx i) + (σ.session c argv).roots) = σ.roots := by
    rw [zero_add, HeapServer.roots, ← queued_eraseIdx hc, HeapSession.roots]
    simp only [session]
    abel
  refine ⟨?_, fun a => ?_, h.sound, rfl, List.prefix_refl _, fun _ _ => rfl⟩
  · rw [hroots]
    exact h.inv
  · rw [held, hroots]
    exact hroom a

-- What the handler leaves behind.
theorem leave_counted (hc : σ.clients[i]? = some c)
    (h : Keeps (queued (σ.clients.eraseIdx i)) (σ.session c argv) s 0 n) :
    (σ.leave i s).Counted ∧ ∃ new, (σ.leave i s).queues = σ.queues.modify i (· ++ new) := by
  have hroots : (σ.leave i s).roots = 0 + (queued (σ.clients.eraseIdx i) + s.roots) := by
    have hshared : s.shared = σ.shared := h.shared
    rw [HeapServer.roots, HeapSession.roots, hshared]
    simp only [leave, queued_set hc]
    abel
  refine ⟨⟨?_, h.sound⟩, ?_⟩
  · rw [hroots]
    exact h.inv
  · obtain ⟨new, hnew⟩ := h.reply
    refine ⟨new.map s.heap.bytes, ?_⟩
    have hold : c.reply.map s.heap.bytes = c.reply.map σ.heap.bytes :=
      List.map_congr_left fun a ha => h.bytes a (Multiset.mem_add.mpr (Or.inr ha))
    have hreply : s.client.reply.map s.heap.bytes =
        c.reply.map σ.heap.bytes ++ new.map s.heap.bytes := by
      rw [← hnew, List.map_append, ← hold]
      rfl
    have hqueue : σ.queues[i]? = some (c.reply.map σ.heap.bytes) := by
      rw [queues, List.getElem?_map, hc]
      rfl
    rw [List.modify_eq_set_getElem?, hqueue]
    refine (queues_set s.client fun a ha => h.bytes a (Multiset.mem_add.mpr (Or.inl ha))).trans ?_
    rw [hreply]
    rfl

end Query

section Write

open Heap

variable {heap : Heap}

-- The places outside of the queue of one client.
def elsewhere (σ : HeapServer) (i : Nat) : Multiset ObjectId :=
  queued (σ.clients.eraseIdx i) + ((σ.shared.toList : Multiset ObjectId) +
    (σ.dict.map Dict.vals).sum)

theorem roots_eq (hc : σ.clients[i]? = some c) :
    (c.reply : Multiset ObjectId) + σ.elsewhere i = σ.roots := by
  rw [roots, elsewhere, ← queued_eraseIdx hc]
  abel

theorem unsent_start (h : σ.Counted) (hroom : σ.Room) (hc : σ.clients[i]? = some c) :
    Unsent (σ.elsewhere i) σ.heap c.reply σ.heap c.reply := by
  refine ⟨?_, fun a => ?_, fun _ _ => rfl, 0, rfl⟩
  · rw [roots_eq hc]
    exact h.inv
  · rw [roots_eq hc]
    exact hroom a

theorem bytes_elsewhere {q₀ q : List ObjectId} (hu : Unsent (σ.elsewhere i) σ.heap q₀ heap q)
    (a : ObjectId) (ha : a ∈ queued (σ.clients.eraseIdx i)) : heap.bytes a = σ.heap.bytes a :=
  hu.bytes a (Multiset.mem_add.mpr (Or.inr (Multiset.mem_add.mpr (Or.inl ha))))

theorem freeClient_counted (h : σ.Counted)
    (hu : Unsent (σ.elsewhere i) σ.heap c.reply heap []) :
    ({ σ with heap, clients := σ.clients.eraseIdx i } : HeapServer).Counted ∧
      ({ σ with heap, clients := σ.clients.eraseIdx i } : HeapServer).queues =
        σ.queues.eraseIdx i := by
  refine ⟨⟨?_, h.sound⟩, queues_eraseIdx (bytes_elsewhere hu)⟩
  have hroots : ({ σ with heap, clients := σ.clients.eraseIdx i } : HeapServer).roots =
      (([] : List ObjectId) : Multiset ObjectId) + σ.elsewhere i := by
    rw [roots, elsewhere, Multiset.coe_nil]
    abel
  rw [hroots]
  exact hu.inv

theorem sent_counted (c' : HeapClient) (h : σ.Counted) (hc : σ.clients[i]? = some c)
    (hu : Unsent (σ.elsewhere i) σ.heap c.reply heap c'.reply) :
    ({ σ with heap, clients := σ.clients.set i c' } : HeapServer).Counted ∧
      ∃ k, ({ σ with heap, clients := σ.clients.set i c' } : HeapServer).queues =
        σ.queues.modify i (List.drop k) := by
  have hroots : ({ σ with heap, clients := σ.clients.set i c' } : HeapServer).roots =
      (c'.reply : Multiset ObjectId) + σ.elsewhere i := by
    rw [roots, elsewhere]
    simp only [queued_set hc]
    abel
  refine ⟨⟨?_, h.sound⟩, ?_⟩
  · rw [hroots]
    exact hu.inv
  · obtain ⟨k, hk⟩ := hu.queue
    refine ⟨k, ?_⟩
    have hqueue : σ.queues[i]? = some (c.reply.map σ.heap.bytes) := by
      rw [queues, List.getElem?_map, hc]
      rfl
    have hreply : c'.reply.map heap.bytes = (c.reply.map σ.heap.bytes).drop k := by
      rw [← List.map_drop, ← hk]
      exact List.map_congr_left fun a ha =>
        hu.bytes a (Multiset.mem_add.mpr (Or.inl (Multiset.mem_coe.mpr ha)))
    rw [List.modify_eq_set_getElem?, hqueue]
    refine (queues_set c' (bytes_elsewhere hu)).trans ?_
    rw [hreply]
    rfl

theorem sendReplyToClient_counted {results : List WriteResult} {errno : Nat} (h : σ.Counted)
    (hroom : σ.Room) (hc : σ.clients[i]? = some c)
    (hcall : σ.sendReplyToClient i c results errno = .ok σ') :
    σ'.Counted ∧ QueueStep σ.queues σ'.queues (.writable i results errno) := by
  obtain ⟨⟨heap, c', nwritten, errno'⟩, hsend, hcall⟩ := bind_eq_ok.mp hcall
  have hu := (unsent_start h hroom hc).sendLoop hsend
  simp only at hcall
  split at hcall
  · cases hcall
    obtain ⟨hcounted, hqueues⟩ := freeClient_counted h hu.release
    rw [freeClient, List.eraseIdx_set_eq]
    exact ⟨hcounted, Or.inl hqueues⟩
  · split at hcall
    · cases hcall
      obtain ⟨hcounted, hqueues⟩ := sent_counted { c' with sent_len := 0 } h hc hu
      rw [List.set_set]
      exact ⟨hcounted, Or.inr hqueues⟩
    · cases hcall
      obtain ⟨hcounted, hqueues⟩ := sent_counted c' h hc hu
      exact ⟨hcounted, Or.inr hqueues⟩

theorem disconnect_counted (h : σ.Counted) (hroom : σ.Room) (hc : σ.clients[i]? = some c) :
    (σ.freeClient i c).Counted ∧ (σ.freeClient i c).queues = σ.queues.eraseIdx i :=
  freeClient_counted h (unsent_start h hroom hc).release

end Write

section Act

open HeapSession

theorem client_eq_ok (h : σ.client i = .ok c) : σ.clients[i]? = some c := by
  unfold client at h
  split at h
  · rename_i c' hc
    cases h
    exact hc
  · cases h

theorem query_counted {e : QueryEvent} {os : Heap.Answers} (h : σ.Counted) (hroom : σ.Room)
    (hc : σ.clients[i]? = some c) (hcall : σ.query i c os e = .ok σ') :
    σ'.Counted ∧ QueueStep σ.queues σ'.queues (.query i e os) := by
  cases e with
  | proc cmd argv =>
      obtain ⟨s, hs, hcall⟩ := bind_eq_ok.mp hcall
      cases hcall
      obtain ⟨n, hkeeps⟩ := Heap.call_preserves os cmd.proc (keeps_session h hroom hc argv) hs
      exact leave_counted hc hkeeps
  | addReplySds str =>
      cases hcall
      exact leave_counted hc ((keeps_session h hroom hc []).addReplySds str).1
  | freeClient =>
      cases hcall
      exact disconnect_counted h hroom hc

theorem keeps_load (h : σ.Counted) (hroom : σ.Room) (dbid : Nat) :
    Keeps (queued σ.clients) (σ.session { createClient with dict := dbid } [])
      (σ.session { createClient with dict := dbid } []) 0 0 := by
  have hroots : 0 + (queued σ.clients +
      (σ.session { createClient with dict := dbid } []).roots) = σ.roots := by
    rw [zero_add, HeapServer.roots, HeapSession.roots]
    simp only [session, createClient, Multiset.coe_nil]
    abel
  refine ⟨?_, fun a => ?_, h.sound, rfl, List.prefix_refl _, fun _ _ => rfl⟩
  · rw [hroots]
    exact h.inv
  · rw [held, hroots]
    exact hroom a

theorem load_counted {dbid : Nat} {key : Bytes} {v : DumpValue} {s : HeapSession} (h : σ.Counted)
    (hroom : σ.Room)
    (hcall : Heap.loadEntry (σ.session { createClient with dict := dbid } []) key v = .ok s) :
    ({ σ with heap := s.heap, dict := s.dict } : HeapServer).Counted ∧
      ({ σ with heap := s.heap, dict := s.dict } : HeapServer).queues = σ.queues := by
  obtain ⟨⟨n, hkeeps⟩, hclient⟩ := Heap.loadEntry_keeps (keeps_load h hroom dbid) hcall
  have hroots : ({ σ with heap := s.heap, dict := s.dict } : HeapServer).roots =
      0 + (queued σ.clients + s.roots) := by
    have hshared : s.shared = σ.shared := hkeeps.shared
    rw [HeapServer.roots, HeapSession.roots, hshared, hclient]
    simp only [session, createClient, Multiset.coe_nil]
    abel
  refine ⟨⟨?_, hkeeps.sound⟩, List.map_congr_left fun c hc => ?_⟩
  · rw [hroots]
    exact hkeeps.inv
  · exact map_bytes_congr (fun a ha => hkeeps.bytes a (Multiset.mem_add.mpr (Or.inl ha))) hc

theorem connect_counted (h : σ.Counted) :
    ({ σ with clients := σ.clients ++ [createClient] } : HeapServer).Counted ∧
      ({ σ with clients := σ.clients ++ [createClient] } : HeapServer).queues =
        σ.queues ++ [[]] := by
  have hroots : ({ σ with clients := σ.clients ++ [createClient] } : HeapServer).roots =
      σ.roots := by
    rw [roots, roots, queued, Ledger.sum_append_singleton, createClient, Multiset.coe_nil, add_zero,
      queued]
  refine ⟨⟨?_, h.sound⟩, ?_⟩
  · rw [hroots]
    exact h.inv
  · rw [queues, List.map_append]
    rfl

theorem resize_counted {dbid : Nat} {dict dict' : HeapDict} {status : DictStatus} (h : σ.Counted)
    (hdict : σ.dict[dbid]? = some dict)
    (hres : dictResize sdsDictType dict = .ok (dict', status)) :
    ({ σ with dict := σ.dict.set dbid dict' } : HeapServer).Counted := by
  obtain ⟨hsound, hvals⟩ := (h.sound dict (List.mem_of_getElem? hdict)).dictResize_vals hres
  have hsum := Ledger.sum_set Dict.vals hdict dict'
  rw [hvals] at hsum
  have hroots : ({ σ with dict := σ.dict.set dbid dict' } : HeapServer).roots = σ.roots := by
    rw [roots, roots, add_right_cancel hsum]
  refine ⟨?_, forall_mem_set h.sound hsound dbid⟩
  rw [hroots]
  exact h.inv

theorem act_counted {e : HeapEvent} (h : σ.Counted) (hroom : σ.Room) (hact : σ.act e = .ok σ') :
    σ'.Counted ∧ QueueStep σ.queues σ'.queues e := by
  cases e with
  | connect =>
      cases hact
      exact connect_counted h
  | query i e os =>
      obtain ⟨c, hc, hact⟩ := bind_eq_ok.mp hact
      exact query_counted h hroom (client_eq_ok hc) hact
  | writable i results errno =>
      obtain ⟨c, hc, hact⟩ := bind_eq_ok.mp hact
      exact sendReplyToClient_counted h hroom (client_eq_ok hc) hact
  | disconnect i =>
      obtain ⟨c, hc, hact⟩ := bind_eq_ok.mp hact
      cases hact
      exact disconnect_counted h hroom (client_eq_ok hc)
  | load dbid key v =>
      obtain ⟨s, hs, hact⟩ := bind_eq_ok.mp hact
      cases hact
      exact load_counted h hroom hs
  | resize dbid =>
      rw [act] at hact
      split at hact
      · cases hact
      · rename_i dict hdict
        obtain ⟨⟨dict', status⟩, hres, hact⟩ := bind_eq_ok.mp hact
        cases hact
        exact ⟨resize_counted h hdict hres, rfl⟩

end Act

end HeapServer

end Cutis

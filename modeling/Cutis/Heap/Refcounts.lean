import Cutis.Heap.Events
import Cutis.Lib.Runs

namespace Cutis

namespace Heap

theorem inv_empty : ({ objects := [], free_objs := [] } : Heap).Inv 0 := by
  refine ⟨nofun, nofun, List.nodup_nil, fun o => ⟨nofun, ?_⟩, nofun, nofun, fun _ _ => rfl, nofun,
    nofun⟩
  rintro ⟨hlt, -⟩
  exact absurd hlt (Nat.not_lt_zero o)

-- The table holds each of its objects once.
theorem initSharedObjects_inv :
    (initSharedObjects { objects := [], free_objs := [] }).2.Inv
      ((initSharedObjects { objects := [], free_objs := [] }).1.toList : Multiset ObjectId) := by
  have hnew {h : Heap} {R : Multiset ObjectId} (hinv : h.Inv R) (str : String) :
      ∃ o h', h.createCutisObject (.string (some (sdsnew str))) = (o, h') ∧ h'.Inv (o ::ₘ R) := by
    obtain ⟨o, h', heq, hinv', -⟩ := createCutisObject_spec hinv
      (p := .string (some (sdsnew str))) rfl nofun nofun
    exact ⟨o, h', heq, hinv'⟩
  obtain ⟨crlf, h₁, h₁_eq, h₁_inv⟩ := hnew inv_empty "\r\n"
  obtain ⟨ok, h₂, h₂_eq, h₂_inv⟩ := hnew h₁_inv "+OK\r\n"
  obtain ⟨err, h₃, h₃_eq, h₃_inv⟩ := hnew h₂_inv "-ERR\r\n"
  obtain ⟨zerobulk, h₄, h₄_eq, h₄_inv⟩ := hnew h₃_inv "0\r\n\r\n"
  obtain ⟨nil, h₅, h₅_eq, h₅_inv⟩ := hnew h₄_inv "nil\r\n"
  obtain ⟨zeroObj, h₆, h₆_eq, h₆_inv⟩ := hnew h₅_inv "0\r\n"
  obtain ⟨one, h₇, h₇_eq, h₇_inv⟩ := hnew h₆_inv "1\r\n"
  obtain ⟨pong, h₈, h₈_eq, h₈_inv⟩ := hnew h₇_inv "+PONG\r\n"
  have hreverse : pong ::ₘ one ::ₘ zeroObj ::ₘ nil ::ₘ zerobulk ::ₘ err ::ₘ ok ::ₘ crlf ::ₘ 0 =
      ([crlf, ok, err, zerobulk, nil, zeroObj, one, pong].reverse : List ObjectId) := rfl
  rw [hreverse, Multiset.coe_reverse] at h₈_inv
  simp only [initSharedObjects, h₁_eq, h₂_eq, h₃_eq, h₄_eq, h₅_eq, h₆_eq, h₇_eq, h₈_eq]
  exact h₈_inv

end Heap

namespace HeapServer

variable {σ σ' : HeapServer}

-- What the reference counts are between two events: each count is the
-- number of places, and the free list has the objects that were created and have none.
structure Exact (σ : HeapServer) : Prop where
  refcount : ∀ o ob, σ.heap.objects[o]? = some ob → ob.refcount.toInt = (σ.holders.count o : Int)
  created : ∀ o ∈ σ.holders, ∃ ob, σ.heap.objects[o]? = some ob
  nodup : σ.heap.free_objs.Nodup
  free_iff : ∀ o, o ∈ σ.heap.free_objs ↔ ∃ ob, σ.heap.objects[o]? = some ob ∧ ob.refcount = 0
  live : ∀ o ∈ σ.holders, o ∉ σ.heap.free_objs ∧ σ.heap.ptr o ≠ .released

-- An event leaves the queued strings as they are.
def QueuesKept (σ : HeapServer) (e : HeapEvent) : Prop :=
  ∀ σ', σ.act e = .ok σ' → QueueStep σ.queues σ'.queues e

theorem counted_init (db_num : Nat) : (initServer db_num).Counted := by
  have hvals : ((List.replicate db_num (dictCreate : HeapDict)).map Dict.vals).sum = 0 := by
    rw [List.map_replicate, List.sum_replicate, vals_dictCreate, nsmul_zero]
  have hroots : (initServer db_num).roots =
      ((initSharedObjects { objects := [], free_objs := [] }).1.toList : Multiset ObjectId) := by
    rw [roots]
    simp only [initServer, hvals]
    rfl
  refine ⟨?_, fun d hd => ?_⟩
  · rw [hroots]
    exact Heap.initSharedObjects_inv
  · rw [(List.mem_replicate.mp hd).2]
    exact sound_dictCreate _

theorem exact_of_counted (h : σ.Counted) (hroom : σ.Room) : σ.Exact := by
  have hzero (o : ObjectId) (ob : HeapObject) (hob : σ.heap.objects[o]? = some ob) :
      ob.refcount = 0 ↔ o ∉ σ.holders := by
    have hlt : σ.holders.count o < 2 ^ 32 := (hroom o).trans (by decide)
    rw [h.inv.counted o ob hob, ← Multiset.count_eq_zero]
    exact Ledger.ofNat_eq_zero_iff hlt
  refine ⟨fun o ob hob => ?_, fun o ho => h.inv.mem_of_count ho, h.inv.nodup, fun o => ?_,
    fun o ho => ⟨fun hfree => ?_, h.inv.live o ho⟩⟩
  · rw [h.inv.counted o ob hob]
    exact Ledger.toInt_ofNat (hroom o)
  · rw [h.inv.free_iff o]
    constructor
    · rintro ⟨hlt, ho, -⟩
      have hob := List.getElem?_eq_getElem hlt
      exact ⟨_, hob, (hzero o _ hob).mpr ho⟩
    · rintro ⟨ob, hob, hcount⟩
      exact ⟨Heap.lt_of_getElem? hob, (hzero o ob hob).mp hcount, List.not_mem_nil⟩
  · exact ((h.inv.free_iff o).mp hfree).2.1 ho

theorem room_of_exact (h : σ.Exact) : σ.Room := by
  intro o
  by_cases ho : o ∈ σ.holders
  · obtain ⟨ob, hob⟩ := h.created o ho
    have hcount := h.refcount o ob hob
    have hlt := BitVec.toInt_lt (x := ob.refcount)
    omega
  · rw [Multiset.count_eq_zero.mpr ho]
    decide

-- The counts are right as long as each object has fewer than 2^31 places.
theorem refcounts_exact_iff (db_num : Nat) (events : List HeapEvent) :
    Runs.Throughout act Exact (initServer db_num) events ∧
        Runs.Always act QueuesKept (initServer db_num) events ↔
      Runs.Throughout act Room (initServer db_num) events := by
  constructor
  · rintro ⟨hexact, -⟩
    exact hexact.imp fun _ => room_of_exact
  · exact Runs.throughout_and_always (fun σ e σ' h hroom hact => (act_counted h hroom hact).1)
      (fun σ => exact_of_counted) (fun σ e h hroom σ' hact => (act_counted h hroom hact).2) events _
      (counted_init db_num)

-- A client that never reads.
section Pings

def pingAnswers : Heap.Answers where
  random := []
  qsort := id
  qsort_perm := fun dv => List.Perm.refl dv
  saved := .CUTIS_OK
  bg_saving := false
  last_save := 0

def ping : HeapEvent :=
  .query 0 (.proc ⟨"ping", .PingCommand, 1, .CUTIS_CMD_INLINE⟩ [sdsnew "ping"]) pingAnswers

theorem act_ping {c : HeapClient} (hc : σ.clients[0]? = some c) :
    σ.act ping = .ok (σ.leave 0 ((σ.session c [sdsnew "ping"]).addReply σ.shared.pong)) := by
  rw [ping, act, client, hc]
  rfl

theorem leave_pong {c : HeapClient} (hc : σ.clients[0]? = some c) (argv : List Bytes) :
    (σ.leave 0 ((σ.session c argv).addReply σ.shared.pong)).clients[0]? =
      some { c with reply := c.reply ++ [σ.shared.pong] } :=
  List.getElem?_set_self (List.getElem?_eq_some_iff.mp hc).1

-- The table of shared replies is one more place.
theorem room_pong {c : HeapClient} (hroom : σ.Room) (hc : σ.clients[0]? = some c) :
    c.reply.count σ.shared.pong + 1 < 2 ^ 31 := by
  have hroots : (c.reply : Multiset ObjectId) + (σ.shared.toList : Multiset ObjectId) ≤
      σ.holders := by
    rw [holders, ← roots_eq hc, elsewhere]
    refine le_trans ?_ (Multiset.le_add_right _ _)
    refine add_le_add_right ?_ _
    exact le_trans (Multiset.le_add_right _ _) (Multiset.le_add_left _ _)
  have hshared : 1 ≤ σ.shared.toList.count σ.shared.pong :=
    List.count_pos_iff.mpr (by simp [SharedObject.toList])
  have hcount := (Multiset.count_le_of_le σ.shared.pong hroots).trans_lt (hroom _)
  rw [Multiset.count_add, Multiset.coe_count, Multiset.coe_count] at hcount
  omega

theorem room_pings {n : Nat} {c : HeapClient}
    (hroom : Runs.Throughout act Room σ (List.replicate n ping)) (hc : σ.clients[0]? = some c) :
    c.reply.count σ.shared.pong + n + 1 < 2 ^ 31 := by
  induction n generalizing σ c with
  | zero => exact room_pong hroom.here hc
  | succ n ih =>
      rw [List.replicate_succ] at hroom
      have hrest := ih (hroom.2 _ (act_ping hc)) (leave_pong hc _)
      have hcount : (c.reply ++ [σ.shared.pong]).count σ.shared.pong =
          c.reply.count σ.shared.pong + 1 := by
        rw [List.count_append, List.count_singleton_self]
      have hlt : (c.reply ++ [σ.shared.pong]).count σ.shared.pong + n + 1 < 2 ^ 31 := hrest
      omega

theorem not_refcounts_exact :
    ¬(Runs.Throughout act Exact (initServer 16) (.connect :: List.replicate (2 ^ 31 - 1) ping) ∧
      Runs.Always act QueuesKept (initServer 16)
        (.connect :: List.replicate (2 ^ 31 - 1) ping)) := by
  rintro ⟨hexact, -⟩
  have hroom := (hexact.2 _ rfl).imp fun _ => room_of_exact
  have hlt := room_pings hroom (c := createClient) rfl
  omega

end Pings

end HeapServer

end Cutis

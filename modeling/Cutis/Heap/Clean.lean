import Cutis.Heap.Refcounts

namespace Cutis

namespace Heap

-- DictRelease: the value destructor of the table drops each value.
def dictRelease (h : Heap) (d : HeapDict) : Heap :=
  ((dictClear d).2.map DictEntry.val).foldl decrRefCount h

def releaseSharedObjects (h : Heap) (shared : SharedObject) : Heap :=
  shared.toList.foldl decrRefCount h

end Heap

namespace HeapServer

-- The loop of CleanServer over the clients, whose next one is always the first.
def releaseClients (σ : HeapServer) : HeapServer :=
  σ.clients.foldl (fun σ c => σ.freeClient 0 c) σ

-- CleanServer, as far as it is about objects. The second loop passes each object that
-- waits for reuse to ReleaseCutisObject.
def cleanServer (σ : HeapServer) : Heap × List ObjectId :=
  let σ := σ.releaseClients
  let h := σ.dict.foldl Heap.dictRelease σ.heap
  let h := Heap.releaseSharedObjects h σ.shared
  ({ h with free_objs := [] }, h.free_objs)

-- The objects that CleanServer passes to DecrRefCount, in order.
def released (σ : HeapServer) : List ObjectId :=
  σ.clients.flatMap HeapClient.reply ++
    (σ.dict.flatMap (fun d => (dictClear d).2.map DictEntry.val) ++ σ.shared.toList)

-- CleanServer gives no object up that is not in use, and every object that zmalloc ever
-- returned goes back to zfree once.
structure Cleans (σ : HeapServer) : Prop where
  used : ∀ done o rest, σ.released = done ++ o :: rest →
    o ∉ (done.foldl Heap.decrRefCount σ.heap).free_objs
  freed : σ.cleanServer.2.Perm (List.range σ.heap.objects.length)

end HeapServer

namespace Heap

variable {h : Heap}

-- Lists and sets hold strings, and these hold nothing, so that without a holder outside
-- of the objects there is none inside.
theorem Inv.inner_eq_zero (hinv : h.Inv 0) : h.inner = 0 := by
  have hnone (o : ObjectId) : (h.ptr o).elements = [] := by
    by_cases ho : o ∈ 0 + h.inner
    · rw [zero_add, inner, Ledger.mem_sum] at ho
      obtain ⟨ob, hob, ho⟩ := ho
      obtain ⟨p, hp⟩ := List.mem_iff_getElem?.mp hob
      obtain ⟨str, hstr⟩ := hinv.strings p o (ptr_of_getElem? hp ▸ ho)
      rw [hstr]
      rfl
    · exact hinv.elements o ho
  refine List.sum_eq_zero fun m hm => ?_
  obtain ⟨ob, hob, rfl⟩ := List.mem_map.mp hm
  obtain ⟨p, hp⟩ := List.mem_iff_getElem?.mp hob
  rw [← ptr_of_getElem? hp, hnone p]
  rfl

-- A first part of the queue gone.
theorem Unsent.drops {B : Multiset ObjectId} {h₀ : Heap} {q₀ done rest : List ObjectId}
    (hu : Unsent B h₀ q₀ h (done ++ rest)) : Unsent B h₀ q₀ (done.foldl decrRefCount h) rest := by
  induction done generalizing h with
  | nil => exact hu
  | cons o done ih => exact ih hu.drop

end Heap

namespace HeapServer

variable {σ : HeapServer}

theorem releaseClients_eq (σ : HeapServer) :
    σ.releaseClients =
      { σ with
        heap := (σ.clients.flatMap HeapClient.reply).foldl Heap.decrRefCount σ.heap
        clients := [] } := by
  obtain ⟨heap, shared, dict, clients⟩ := σ
  rw [releaseClients]
  simp only
  induction clients generalizing heap with
  | nil => rfl
  | cons c rest ih =>
      rw [List.foldl_cons, List.flatMap_cons, List.foldl_append]
      exact ih _

-- CleanServer drops the holders one after the other.
theorem cleanServer_eq (σ : HeapServer) :
    σ.cleanServer = ({ σ.released.foldl Heap.decrRefCount σ.heap with free_objs := [] },
      (σ.released.foldl Heap.decrRefCount σ.heap).free_objs) := by
  have hdict (h : Heap) : (σ.dict.flatMap fun d => (dictClear d).2.map DictEntry.val).foldl
      Heap.decrRefCount h = σ.dict.foldl Heap.dictRelease h := List.foldl_flatMap ..
  rw [cleanServer, releaseClients_eq, released, List.foldl_append, List.foldl_append, hdict]
  rfl

theorem coe_released (h : σ.Counted) : (σ.released : Multiset ObjectId) = σ.roots := by
  have hdict : σ.dict.map (fun d => ((dictClear d).2.map DictEntry.val : Multiset ObjectId)) =
      σ.dict.map Dict.vals := by
    refine List.map_congr_left fun d hd => ?_
    rw [(h.sound d hd).dictClear_eq]
    rfl
  rw [released, ← Multiset.coe_add, ← Multiset.coe_add, Ledger.coe_flatMap, Ledger.coe_flatMap,
    hdict, roots, queued]
  abel

-- What is left to drop in the middle of CleanServer.
theorem unsent_released (h : σ.Counted) (hroom : σ.Room) {done rest : List ObjectId}
    (hsplit : σ.released = done ++ rest) :
    Heap.Unsent 0 σ.heap σ.released (done.foldl Heap.decrRefCount σ.heap) rest := by
  have hstart : Heap.Unsent 0 σ.heap σ.released σ.heap σ.released := by
    refine ⟨?_, fun a => ?_, fun _ _ => rfl, 0, rfl⟩
    · rw [add_zero, coe_released h]
      exact h.inv
    · rw [add_zero, coe_released h]
      exact hroom a
  apply Heap.Unsent.drops
  rwa [hsplit] at hstart ⊢

theorem cleans_of_counted (h : σ.Counted) (hroom : σ.Room) : σ.Cleans := by
  constructor
  · intro done o rest hsplit hfree
    have hu := unsent_released h hroom hsplit
    refine ((hu.inv.free_iff o).mp hfree).2.1 ?_
    simp
  · have hu := unsent_released h hroom (List.append_nil _).symm
    have hinv := hu.inv
    rw [Multiset.coe_nil, zero_add] at hinv
    have hlen : (σ.released.foldl Heap.decrRefCount σ.heap).objects.length =
        σ.heap.objects.length := Heap.length_foldl (Heap.length_decrRefCountLoop 2) _ _
    rw [cleanServer_eq]
    refine (List.perm_ext_iff_of_nodup hinv.nodup List.nodup_range).mpr fun o => ?_
    rw [hinv.free_iff o, hinv.inner_eq_zero, List.mem_range, hlen]
    simp

-- Whatever the server has been through, it cleans up after itself.
theorem server_cleans (db_num : Nat) (events : List HeapEvent)
    (hroom : Runs.Throughout act Room (initServer db_num) events) :
    Runs.Throughout act Cleans (initServer db_num) events :=
  (Runs.throughout_and_always (Q := fun _ _ => True)
    (fun _ _ _ h hroom hact => (act_counted h hroom hact).1) (fun _ => cleans_of_counted)
    (fun _ _ _ _ => trivial) events _ (counted_init db_num) hroom).1

theorem room_of_card (h : σ.holders.card < 2 ^ 31) : σ.Room := fun o =>
  (Multiset.count_le_card o σ.holders).trans_lt h

def rpush : HeapEvent :=
  .query 0 (.proc ⟨"rpush", .RPushCommand, 3, .CUTIS_CMD_BULK⟩
    [sdsnew "rpush", sdsnew "k", sdsnew "v"]) pingAnswers

theorem room_session :
    Runs.Throughout act Room (initServer 1) [.connect, rpush, rpush, ping] := by
  refine ⟨room_of_card (by decide), fun σ₁ h₁ => ?_⟩
  cases h₁
  refine ⟨room_of_card (by decide), fun σ₂ h₂ => ?_⟩
  cases h₂
  refine ⟨room_of_card (by decide), fun σ₃ h₃ => ?_⟩
  cases h₃
  refine ⟨room_of_card (by decide), fun σ₄ h₄ => ?_⟩
  cases h₄
  exact room_of_card (by decide)

theorem server_cleans_session :
    Runs.Throughout act Room (initServer 1) [.connect, rpush, rpush, ping] ∧
      Runs.Throughout act Cleans (initServer 1) [.connect, rpush, rpush, ping] :=
  ⟨room_session, server_cleans 1 _ room_session⟩

end HeapServer

end Cutis

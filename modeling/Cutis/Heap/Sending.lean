import Cutis.Heap.Keeping
import Cutis.Heap.Server

namespace Cutis.Heap

-- What is left to send when the queue was q₀ and the heap h₀. B are the holders outside
-- of the queue.
structure Unsent (B : Multiset ObjectId) (h₀ : Heap) (q₀ : List ObjectId) (h : Heap)
    (q : List ObjectId) : Prop where
  inv : h.Inv ((q : Multiset ObjectId) + B)
  bound : ∀ a, ((q : Multiset ObjectId) + B + h.inner).count a < 2 ^ 31
  bytes : ∀ a ∈ (q : Multiset ObjectId) + B, h.bytes a = h₀.bytes a
  queue : ∃ k, q = q₀.drop k

variable {B : Multiset ObjectId} {h₀ h : Heap} {q₀ q rest : List ObjectId} {o : ObjectId}

-- The first entry of the queue gone.
theorem Unsent.drop (hu : Unsent B h₀ q₀ h (o :: rest)) :
    Unsent B h₀ q₀ (h.decrRefCount o) rest := by
  have hinv := hu.inv
  have hbound := hu.bound
  rw [← Multiset.cons_coe, Multiset.cons_add] at hinv hbound
  have hbelow (a : ObjectId) : ((rest : Multiset ObjectId) + B + h.inner).count a < 2 ^ 31 := by
    refine (Multiset.count_le_of_le a ?_).trans_lt (hbound a)
    rw [Multiset.cons_add]
    exact Multiset.le_cons_self _ _
  obtain ⟨hinv', hle, hptr⟩ := hinv.decrRefCount fun a => (hbelow a).trans (by decide)
  refine ⟨hinv', fun a => (Multiset.count_le_of_le a hle).trans_lt (hbelow a), fun a ha => ?_, ?_⟩
  · have hsame := HeapSession.bytes_congr (hptr a (Multiset.mem_add.mpr (Or.inl ha)))
    rw [hsame]
    apply hu.bytes a
    rw [← Multiset.cons_coe, Multiset.cons_add]
    exact Multiset.mem_cons_of_mem ha
  · obtain ⟨k, hk⟩ := hu.queue
    exact ⟨k + 1, by rw [← List.drop_drop, ← hk]; rfl⟩

theorem Unsent.dropEmpty (hu : Unsent B h₀ q₀ h q) :
    Unsent B h₀ q₀ (dropEmpty q h).2 (dropEmpty q h).1 := by
  induction q generalizing h with
  | nil => exact hu
  | cons o rest ih =>
      rw [Heap.dropEmpty]
      split
      · exact ih hu.drop
      · exact hu

-- FreeClient releases the queue.
theorem Unsent.release (hu : Unsent B h₀ q₀ h q) :
    Unsent B h₀ q₀ (q.foldl Heap.decrRefCount h) [] := by
  induction q generalizing h with
  | nil => exact hu
  | cons o rest ih => exact ih hu.drop

theorem Unsent.sendLoop {c c' : HeapClient} {h' : Heap} {nwritten nwritten' : Int}
    {errno errno' : Nat} {results : List WriteResult} (hu : Unsent B h₀ q₀ h c.reply)
    (hcall : sendLoop h c nwritten errno results = .ok (h', c', nwritten', errno')) :
    Unsent B h₀ q₀ h' c'.reply := by
  induction results generalizing h c nwritten errno with
  | nil =>
      have hdrop := hu.dropEmpty
      rw [Heap.sendLoop] at hcall
      split at hcall
      · rename_i h₁ heq
        rw [heq] at hdrop
        cases hcall
        exact hdrop
      · rename_i o rest h₁ heq
        rw [heq] at hdrop
        cases hcall
        exact hdrop
  | cons result results ih =>
      have hdrop := hu.dropEmpty
      rw [Heap.sendLoop] at hcall
      split at hcall
      · rename_i h₁ heq
        rw [heq] at hdrop
        cases hcall
        exact hdrop
      · rename_i o rest h₁ heq
        rw [heq] at hdrop
        obtain ⟨⟨bytes, n, e⟩, -, hcall⟩ := bind_eq_ok.mp hcall
        simp only at hcall
        split at hcall
        · cases hcall
          exact hdrop
        · split at hcall
          · exact ih hdrop.drop hcall
          · exact ih hdrop hcall

end Cutis.Heap

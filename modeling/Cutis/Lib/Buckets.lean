import Mathlib.Data.List.Perm.Basic
import Mathlib.Data.List.Nodup

namespace Buckets

variable {α : Type*}

-- Every element lies in the bucket its index names.
def Placed (idx : α → Nat) (table : List (List α)) : Prop :=
  ∀ i (h : i < table.length), ∀ x ∈ table[i], idx x = i

theorem flatten_eq_split (table : List (List α)) (i : Nat) (h : i < table.length) :
    table.flatten = (table.take i).flatten ++ (table[i] ++ (table.drop (i + 1)).flatten) := by
  conv_lhs => rw [← List.take_append_drop i table, List.drop_eq_getElem_cons h]
  simp only [List.flatten_append, List.flatten_cons]

theorem flatten_modify (table : List (List α)) (i : Nat) (f : List α → List α)
    (h : i < table.length) :
    (table.modify i f).flatten =
      (table.take i).flatten ++ (f table[i] ++ (table.drop (i + 1)).flatten) := by
  rw [List.modify_eq_take_cons_drop h]
  simp only [List.flatten_append, List.flatten_cons]

-- Changing one bucket changes the whole table in the same way, up to order.
theorem flatten_modify_perm (table : List (List α)) (i : Nat) (f : List α → List α)
    (h : i < table.length) (added removed : List α)
    (hf : (removed ++ f table[i]).Perm (added ++ table[i])) :
    (removed ++ (table.modify i f).flatten).Perm (added ++ table.flatten) := by
  rw [flatten_modify table i f h, flatten_eq_split table i h]
  have hmove (front bucket : List α) :
      (front ++ ((table.take i).flatten ++ (bucket ++ (table.drop (i + 1)).flatten))).Perm
        ((table.take i).flatten ++ ((front ++ bucket) ++ (table.drop (i + 1)).flatten)) := by
    have hcomm := (@List.perm_append_comm _ front (table.take i).flatten).append_right
      (bucket ++ (table.drop (i + 1)).flatten)
    simpa only [List.append_assoc] using hcomm
  refine (hmove removed _).trans (List.Perm.trans ?_ (hmove added _).symm)
  exact (hf.append_right _).append_left _

theorem Placed.modify {idx : α → Nat} {table : List (List α)} (hp : Placed idx table)
    (i : Nat) (f : List α → List α)
    (hf : ∀ (h : i < table.length), ∀ x ∈ f table[i], idx x = i) :
    Placed idx (table.modify i f) := by
  intro j hj x hx
  rw [List.length_modify] at hj
  rw [List.getElem_modify] at hx
  split at hx
  · subst j
    exact hf hj x hx
  · exact hp j hj x hx

theorem mem_flatten_iff {idx : α → Nat} {table : List (List α)} (hp : Placed idx table) (x : α) :
    x ∈ table.flatten ↔ x ∈ table.getD (idx x) [] := by
  constructor
  · intro hx
    obtain ⟨bucket, hb, hx⟩ := List.mem_flatten.mp hx
    obtain ⟨i, hi, rfl⟩ := List.getElem_of_mem hb
    simpa [hp i hi x hx, hi] using hx
  · intro hx
    by_cases hi : idx x < table.length
    · have hx : x ∈ table[idx x] := by simpa [hi] using hx
      exact List.mem_flatten.mpr ⟨_, List.getElem_mem hi, hx⟩
    · simp [hi] at hx

-- A change that commutes with a map on the elements.
theorem map_modify {β : Type*} (g : α → β) {f : List α → List α} {f' : List β → List β}
    (hf : ∀ bucket, (f bucket).map g = f' (bucket.map g)) (table : List (List α)) (i : Nat) :
    (table.modify i f).map (List.map g) = (table.map (List.map g)).modify i f' := by
  induction table generalizing i with
  | nil => simp
  | cons bucket table ih =>
      cases i with
      | zero => simp [hf]
      | succ i => simp [ih]

-- Only what becomes of the one bucket counts.
theorem modify_congr {table : List (List α)} {i : Nat} {f g : List α → List α}
    (hfg : ∀ bucket, table[i]? = some bucket → f bucket = g bucket) :
    table.modify i f = table.modify i g := by
  apply List.ext_getElem?
  intro j
  rw [List.getElem?_modify, List.getElem?_modify]
  by_cases hij : i = j
  · subst hij
    cases hbucket : table[i]? with
    | none => rfl
    | some bucket => simp [hfg bucket hbucket]
  · simp [hij]

theorem modify_eq_self {table : List (List α)} {i : Nat} {f : List α → List α}
    (hf : ∀ bucket, table[i]? = some bucket → f bucket = bucket) : table.modify i f = table :=
  (modify_congr hf).trans (List.modify_id i table)

-- A change that only takes elements out.
theorem mem_of_mem_modify {table : List (List α)} {i : Nat} {f : List α → List α}
    (hf : ∀ bucket, f bucket ⊆ bucket) {x : α} (hx : x ∈ (table.modify i f).flatten) :
    x ∈ table.flatten := by
  by_cases hi : i < table.length
  · rw [flatten_modify table i f hi, List.mem_append, List.mem_append] at hx
    rw [flatten_eq_split table i hi, List.mem_append, List.mem_append]
    exact hx.imp_right (Or.imp_left (hf _ ·))
  · rwa [List.modify_eq_self (Nat.le_of_not_lt hi)] at hx

-- Move every element of a list, in order, to the front of its bucket.
def rehash (idx : α → Nat) (elements : List α) (table : List (List α)) : List (List α) :=
  elements.foldl (fun table x => table.modify (idx x) (x :: ·)) table

@[simp] theorem rehash_nil (idx : α → Nat) (table : List (List α)) :
    rehash idx [] table = table := rfl

@[simp] theorem rehash_cons (idx : α → Nat) (x : α) (rest : List α) (table : List (List α)) :
    rehash idx (x :: rest) table = rehash idx rest (table.modify (idx x) (x :: ·)) := rfl

theorem rehash_append (idx : α → Nat) (first rest : List α) (table : List (List α)) :
    rehash idx (first ++ rest) table = rehash idx rest (rehash idx first table) :=
  List.foldl_append

@[simp] theorem length_rehash (idx : α → Nat) (elements : List α) (table : List (List α)) :
    (rehash idx elements table).length = table.length := by
  induction elements generalizing table with
  | nil => rfl
  | cons x rest ih => rw [rehash_cons, ih, List.length_modify]

theorem rehash_perm (idx : α → Nat) (elements : List α) (table : List (List α))
    (h : ∀ x ∈ elements, idx x < table.length) :
    (rehash idx elements table).flatten.Perm (elements ++ table.flatten) := by
  induction elements generalizing table with
  | nil => exact List.Perm.refl _
  | cons x rest ih =>
      have hx := h x (by simp)
      have hrest := ih (table.modify (idx x) (x :: ·)) (fun y hy => by
        rw [List.length_modify]; exact h y (by simp [hy]))
      have hone := flatten_modify_perm table (idx x) (x :: ·) hx [x] [] (List.Perm.refl _)
      rw [rehash_cons]
      refine hrest.trans ((hone.append_left rest).trans ?_)
      exact List.perm_middle

theorem map_rehash {β : Type*} (g : α → β) {idx : α → Nat} {idx' : β → Nat}
    (hidx : ∀ x, idx x = idx' (g x)) (elements : List α) (table : List (List α)) :
    (rehash idx elements table).map (List.map g) =
      rehash idx' (elements.map g) (table.map (List.map g)) := by
  induction elements generalizing table with
  | nil => rfl
  | cons x rest ih =>
      have hcons (bucket : List α) : (x :: bucket).map g = g x :: bucket.map g := rfl
      rw [rehash_cons, ih, map_modify g hcons, List.map_cons, rehash_cons, hidx]

theorem Placed.rehash {idx : α → Nat} {table : List (List α)} (hp : Placed idx table)
    (elements : List α) : Placed idx (rehash idx elements table) := by
  induction elements generalizing table with
  | nil => exact hp
  | cons x rest ih =>
      apply ih
      apply hp.modify
      intro h y hy
      rcases List.mem_cons.mp hy with rfl | hy
      · rfl
      · exact hp _ h y hy

theorem placed_replicate (idx : α → Nat) (n : Nat) : Placed idx (List.replicate n []) := by
  intro i h x hx
  simp at hx

theorem flatten_replicate_nil (n : Nat) : (List.replicate n ([] : List α)).flatten = [] := by
  simp

end Buckets

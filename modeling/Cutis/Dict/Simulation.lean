import Cutis.Dict.Layout

namespace Cutis

namespace LinkedDict

variable {K V : Type}

-- An operation on a table in memory ends as the one on the table without addresses. The
-- entries it leaves are at the given addresses.
def Agrees {σ : Type} (ids : List EntryId) (result : Except Fault (LinkedDict K V × σ))
    (expected : Except Fault (Dict K V × σ)) : Prop :=
  match expected with
  | .error fault => result = .error fault
  | .ok (d, s) => ∃ ht chains, result = .ok (ht, s) ∧ ht.Holds chains ∧ ht.toDict chains = d ∧
      ∀ q ∈ chains.flatten.map Prod.fst, q ∈ ids

section Link

variable {T : DictType K} {ht : LinkedDict K V} {chains : List (List (EntryId × DictEntry K V))}
  {h : Nat} {chain : List (EntryId × DictEntry K V)} {head : Option EntryId} {he : EntryId}

-- The table with an entry linked in front of a chain.
def linked (ht : LinkedDict K V) (h : Nat) (head : Option EntryId) (he : EntryId)
    (entry : DictEntry K V) : LinkedDict K V :=
  { ht.write he (some { toDictEntry := entry, next := head }) with
    table := ht.table.set h (some he) }

theorem memory_linked (entry : DictEntry K V) :
    (ht.linked h head he entry).memory = Function.update ht.memory he (some (entry, head)) :=
  memory_write ht he _

theorem linked_spec (hl : ht.Holds chains) (hchain : chains[h]? = some chain)
    (hhead : ht.table[h]? = some head) (hfresh : he ∉ chains.flatten.map Prod.fst)
    (entry : DictEntry K V) :
    (ht.linked h head he entry).Holds (chains.modify h ((he, entry) :: ·)) := by
  rw [Holds, memory_linked]
  exact Chains.Linked.push hl hchain hhead hfresh entry

theorem ids_link (hchain : chains[h]? = some chain) (entry : DictEntry K V) :
    ((chains.modify h ((he, entry) :: ·)).flatten.map Prod.fst).Perm
      (he :: chains.flatten.map Prod.fst) := by
  obtain ⟨hlt, -⟩ := List.getElem?_eq_some_iff.mp hchain
  exact (Buckets.flatten_modify_perm chains h _ hlt [(he, entry)] [] (List.Perm.refl _)).map _

end Link

section Expand

variable {T : DictType K}

theorem relinkChain_spec {n : LinkedDict K V} {chain : List (EntryId × DictEntry K V)}
    {table : List (List (EntryId × DictEntry K V))} {start : Option EntryId} {fuel : Nat}
    (hl : n.Holds table) (hslot : ∀ key, n.slot T key < table.length)
    (hseg : Chains.Segment n.memory start chain none)
    (hnodup : ((chain ++ table.flatten).map Prod.fst).Nodup) (hfuel : chain.length ≤ fuel)
    (used : Nat) :
    ∃ n', relinkChain T fuel start (n, used) = .ok (n', used - chain.length) ∧
      n'.Holds (Buckets.rehash (fun x => n.slot T x.2.key) chain table) ∧
      (∀ q, q ∉ chain.map Prod.fst → n'.memory q = n.memory q) ∧
      ∀ chains, n'.toDict chains = n.toDict chains := by
  induction chain generalizing n table start fuel used with
  | nil =>
      obtain rfl : start = none := hseg
      exact ⟨n, by cases fuel <;> rfl, hl, fun _ _ => rfl, fun _ => rfl⟩
  | cons x rest ih =>
      obtain ⟨he, entry⟩ := x
      obtain ⟨rfl, next, hmem, hrest⟩ := hseg
      obtain ⟨fuel, rfl⟩ : ∃ k, fuel = k + 1 := ⟨fuel - 1, by simp at hfuel; omega⟩
      have hchain := List.getElem?_eq_getElem (hslot entry.key)
      obtain ⟨head, hhead, -⟩ := Chains.Linked.exists_head hl hchain
      rw [List.cons_append, List.map_cons, List.nodup_cons, List.map_append] at hnodup
      obtain ⟨hfresh, hnodup⟩ := hnodup
      have hnew : he ∉ table.flatten.map Prod.fst := fun hq =>
        hfresh (List.mem_append_right _ hq)
      have hold : he ∉ rest.map Prod.fst := fun hq => hfresh (List.mem_append_left _ hq)
      have hrest' : Chains.Segment (n.linked (n.slot T entry.key) head he entry).memory next rest
          none := by
        rw [memory_linked]
        exact hrest.update hold _
      have hnodup' : ((rest ++ (table.modify (n.slot T entry.key)
          ((he, entry) :: ·)).flatten).map Prod.fst).Nodup := by
        rw [List.map_append, (((ids_link hchain entry).append_left _).trans
          List.perm_middle).nodup_iff]
        exact List.nodup_cons.mpr ⟨hfresh, hnodup⟩
      obtain ⟨n', hloop, hl', hframe, hdict⟩ := ih (linked_spec hl hchain hhead hnew entry)
        (fun key => by rw [List.length_modify]; exact hslot key) hrest' hnodup'
        (Nat.le_of_succ_le_succ hfuel) (used - 1)
      refine ⟨n', ?_, hl', fun q hq => ?_, hdict⟩
      · rw [relinkChain, read_eq hmem]
        simp only [ok_bind, getSlot_eq hhead, setNext_eq hmem]
        have hset := @setSlot_eq _ _ (n.write he (some { toDictEntry := entry, next := head })) _ _
          hhead (some he)
        rw [hset, ok_bind]
        have hlength : used - (rest.length + 1) = used - 1 - rest.length := by omega
        rw [List.length_cons, hlength]
        exact hloop
      · rw [List.map_cons, List.mem_cons, not_or] at hq
        rw [hframe q hq.2, memory_linked, Function.update_of_ne hq.1]

theorem relinkTable_spec {n : LinkedDict K V} {heads : List (Option EntryId)}
    {chains table : List (List (EntryId × DictEntry K V))} {used : Nat} (hl : n.Holds table)
    (hslot : ∀ key, n.slot T key < table.length) (hold : Chains.Linked n.memory heads chains)
    (hnodup : ((chains.flatten ++ table.flatten).map Prod.fst).Nodup)
    (hused : used = chains.flatten.length) :
    ∃ n', relinkTable T heads (n, used) = .ok (n', 0) ∧
      n'.Holds (Buckets.rehash (fun x => n.slot T x.2.key) chains.flatten table) ∧
      ∀ chains, n'.toDict chains = n.toDict chains := by
  induction chains generalizing n table heads used with
  | nil =>
      obtain rfl := List.length_eq_zero_iff.mp hold.length_eq
      exact ⟨n, by rw [relinkTable, hused]; rfl, hl, fun _ => rfl⟩
  | cons chain rest ih =>
      obtain ⟨start, heads, rfl⟩ := List.exists_cons_of_length_eq_add_one hold.length_eq
      obtain ⟨hseg, hrest⟩ := hold.tail
      rw [List.flatten_cons, List.length_append] at hused
      rw [List.flatten_cons, List.append_assoc] at hnodup
      rw [relinkTable]
      by_cases hpos : used > 0
      · have hids := hnodup
        rw [List.map_append, List.map_append, List.nodup_append] at hids
        obtain ⟨hchain_nodup, htail_nodup, hdisj⟩ := hids
        have hnodup₁ : ((chain ++ table.flatten).map Prod.fst).Nodup := by
          rw [List.map_append, List.nodup_append]
          refine ⟨hchain_nodup, (List.nodup_append.mp htail_nodup).2.1, fun a ha b hb => ?_⟩
          exact hdisj a ha b (List.mem_append_right _ hb)
        obtain ⟨n₁, hloop, hl₁, hframe, hdict⟩ :=
          relinkChain_spec hl hslot hseg hnodup₁ (show chain.length ≤ used by omega) used
        have hmask : n₁.size_mask = n.size_mask := congrArg Dict.size_mask (hdict [])
        have hsame (key : K) : n₁.slot T key = n.slot T key := by rw [slot, slot, hmask]
        have hperm := Buckets.rehash_perm (fun x => n.slot T x.2.key) chain table
          fun x _ => hslot x.2.key
        have hnodup₂ : ((rest.flatten ++ (Buckets.rehash (fun x => n.slot T x.2.key) chain
            table).flatten).map Prod.fst).Nodup := by
          refine (((hperm.append_left rest.flatten).trans ?_).map Prod.fst).nodup_iff.mpr hnodup
          exact List.perm_append_comm_assoc _ _ _
        obtain ⟨n', hrun, hl', hdict'⟩ := @ih n₁ heads _ (used - chain.length) hl₁
          (fun key => by rw [hsame, Buckets.length_rehash]; exact hslot key)
          (hrest.congr fun q hq => hframe q fun hmem =>
            hdisj q hmem q (List.mem_append_left _ hq) rfl) hnodup₂ (by omega)
        refine ⟨n', ?_, ?_, fun chains => (hdict' chains).trans (hdict chains)⟩
        · rw [if_pos hpos]
          simp only [hloop, ok_bind]
          exact hrun
        · simp only [hsame] at hl'
          rw [List.flatten_cons, Buckets.rehash_append]
          exact hl'
      · have hchain : chain = [] := List.length_eq_zero_iff.mp (by omega)
        have hflat : rest.flatten = [] := List.length_eq_zero_iff.mp (by omega)
        have hzero : used = 0 := by omega
        rw [if_neg hpos, hzero, List.flatten_cons, hchain, hflat]
        exact ⟨n, rfl, hl, fun _ => rfl⟩

theorem allocTable_eq (real_size : Nat) :
    allocTable real_size = (dictAllocTable (K := K) (V := V) real_size).map
      fun _ => List.replicate real_size none := by
  unfold allocTable dictAllocTable
  cases dictAlloc (toInt32 (real_size * POINTER_SIZE : Nat)) with
  | error fault => rfl
  | ok block =>
      simp only [ok_bind]
      split <;> rfl

variable {ht : LinkedDict K V} {chains : List (List (EntryId × DictEntry K V))}

theorem dictExpand_agrees (hl : ht.Holds chains) (hs : (ht.toDict chains).Shape) {size : Nat}
    (hsize : size ≤ 2 ^ 31) :
    Agrees (chains.flatten.map Prod.fst) (dictExpand T ht size)
      (Cutis.dictExpand T (ht.toDict chains) size) := by
  rw [dictExpand_eq T hs]
  unfold dictExpand
  rw [toDict_used]
  by_cases hused : ht.used > size
  · rw [if_pos hused, if_pos hused]
    exact ⟨ht, chains, rfl, hl, rfl, fun _ hq => hq⟩
  · obtain ⟨k, -, h31, hpow, -⟩ := dictNextPower_spec size hsize
    rw [if_neg hused, if_neg hused, allocTable_eq (K := K) (V := V), hpow]
    cases halloc : dictAllocTable (K := K) (V := V) (2 ^ k) with
    | error fault => rfl
    | ok table =>
        obtain ⟨rfl, -⟩ := dictAllocTable_cases h31 halloc
        let n := { ht with
          table := List.replicate (2 ^ k) none, size := 2 ^ k, size_mask := 2 ^ k - 1 }
        have hn : n.Holds (List.replicate (2 ^ k) []) := Chains.linked_replicate _ _
        have hslot (key : K) : n.slot T key < (List.replicate (2 ^ k)
            ([] : List (EntryId × DictEntry K V))).length := by
          rw [List.length_replicate, slot, Nat.and_two_pow_sub_one_eq_mod]
          exact Nat.mod_lt _ (Nat.two_pow_pos k)
        have hperm := Buckets.rehash_perm (fun x => n.slot T x.2.key) chains.flatten
          (List.replicate (2 ^ k) []) fun x _ => hslot x.2.key
        rw [Buckets.flatten_replicate_nil, List.append_nil] at hperm
        obtain ⟨n', hrun, hl', hdict⟩ := relinkTable_spec hn hslot hl
          (by rw [Buckets.flatten_replicate_nil, List.append_nil]; exact hl.nodup) (used_eq hs)
        refine ⟨n', _, ?_, hl', ?_, fun q hq => ((hperm.map Prod.fst).mem_iff).mp hq⟩
        · simp only [Except.map, ok_bind]
          rw [hrun]
          rfl
        · have hmap := @Buckets.map_rehash _ _ Prod.snd (fun x => n.slot T x.2.key)
            (fun he => (T.hashFunction he.key).toNat &&& (2 ^ k - 1)) (fun x => rfl)
            chains.flatten (List.replicate (2 ^ k) [])
          rw [hdict, toDict, hmap, ← toDict_entries ht, List.map_replicate]
          rfl

theorem dictExpandIfNeeded_agrees (hl : ht.Holds chains) (h : (ht.toDict chains).Sound T) :
    Agrees (chains.flatten.map Prod.fst) (dictExpandIfNeeded T ht)
      (Cutis.dictExpandIfNeeded T (ht.toDict chains)) := by
  have hsize : ht.size ≤ 2 ^ 27 := h.size_le
  unfold dictExpandIfNeeded Cutis.dictExpandIfNeeded
  simp only [toDict_used, toDict_size]
  by_cases hzero : ht.size = 0
  · simp only [hzero, if_true]
    exact dictExpand_agrees hl h.toShape (by decide)
  · by_cases hfull : ht.used = ht.size
    · simp only [hzero, if_false, hfull, if_true]
      exact dictExpand_agrees hl h.toShape (by omega)
    · simp only [hzero, hfull, if_false]
      exact ⟨ht, chains, rfl, hl, rfl, fun _ hq => hq⟩

theorem dictResize_agrees (hl : ht.Holds chains) (h : (ht.toDict chains).Sound T) :
    Agrees (chains.flatten.map Prod.fst) (dictResize T ht)
      (Cutis.dictResize T (ht.toDict chains)) := by
  have hused : ht.used ≤ 2 ^ 27 := h.used_le_limit
  refine dictExpand_agrees hl h.toShape ?_
  rw [DICT_HT_INITIAL_SIZE]
  split <;> omega

end Expand

section Add

variable {T : DictType K} {ht : LinkedDict K V} {chains : List (List (EntryId × DictEntry K V))}

theorem any_chain {h : Nat} {chain : List (EntryId × DictEntry K V)} {key : K}
    (hchain : chains[h]? = some chain) :
    ((ht.toDict chains).chain h).any (fun he => T.keyCompare key he.key) =
      (chain.find? (hasKey T key)).isSome := by
  rw [toDict_chain hchain, List.any_map, Bool.eq_iff_iff, List.find?_isSome, List.any_eq_true]
  rfl

theorem dictAdd_agrees (hl : ht.Holds chains) (h : (ht.toDict chains).Sound T) {entry : EntryId}
    (hfresh : entry ∉ chains.flatten.map Prod.fst) (key : K) (val : V) :
    Agrees (entry :: chains.flatten.map Prod.fst) (ht.dictAdd T entry key val)
      (Cutis.dictAdd T (ht.toDict chains) key val) := by
  have hexpand := dictExpandIfNeeded_agrees hl h
  rw [dictAdd_eq]
  unfold dictAdd dictKeyIndex
  cases hval : Cutis.dictExpandIfNeeded T (ht.toDict chains) with
  | error fault =>
      rw [hval] at hexpand
      rw [hexpand]
      rfl
  | ok result =>
      obtain ⟨d, status⟩ := result
      obtain ⟨hs', -, hroom, -⟩ := dictExpandIfNeeded_cases T h.toShape hval
      rw [hval] at hexpand
      obtain ⟨ht', chains', hrun, hl', rfl, hids⟩ := hexpand
      rw [hrun]
      cases status with
      | DICT_ERR =>
          exact ⟨ht', chains', rfl, hl', rfl, fun q hq => List.mem_cons_of_mem _ (hids q hq)⟩
      | DICT_OK =>
          have hlt : ht'.used < ht'.size := hroom rfl
          obtain ⟨start, chain, hhead, hchain, hslot, hfind⟩ :=
            findLoop_slot hl' hs' T key (by omega)
          have hany := @any_chain _ _ T ht' _ _ _ key hchain
          cases hcase : chain.find? (hasKey T key) with
          | some x =>
              rw [hcase] at hany hfind
              simp only [Except.bind, ok_bind, hslot, hfind, toDict_slot, hany, Option.isSome_some,
                Option.map_some, reduceCtorEq, or_true, if_true, if_false]
              exact ⟨ht', chains', rfl, hl', rfl, fun q hq => List.mem_cons_of_mem _ (hids q hq)⟩
          | none =>
              rw [hcase] at hany hfind
              have hset := @setSlot_eq _ _ (ht'.write entry (some { key, val, next := start })) _ _
                hhead (some entry)
              simp only [Except.bind, ok_bind, hslot, hfind, toDict_slot, hany, Option.isSome_none,
                Option.map_none, reduceCtorEq, or_self, if_false, pure, Except.pure, hset]
              have hnew : entry ∉ chains'.flatten.map Prod.fst := fun hq => hfresh (hids _ hq)
              have hlinked := linked_spec hl' hchain hhead hnew { key, val }
              refine ⟨{ ht'.linked (ht'.slot T key) start entry { key, val } with
                used := ht'.used + 1 }, _, rfl, hlinked, ?_, fun q hq => ?_⟩
              · have hcons (bucket : List (EntryId × DictEntry K V)) :
                    ((entry, { key, val }) :: bucket).map Prod.snd =
                      { key, val } :: bucket.map Prod.snd := rfl
                rw [toDict, Buckets.map_modify Prod.snd hcons]
                rfl
              · rcases List.mem_cons.mp ((ids_link hchain _).mem_iff.mp hq) with rfl | hq
                · exact List.mem_cons_self
                · exact List.mem_cons_of_mem _ (hids q hq)

-- The entry dictFind points to, in its chain.
theorem dictFind_spec (hl : ht.Holds chains) (hs : (ht.toDict chains).Shape) (T : DictType K)
    (key : K) :
    match Cutis.dictFind T (ht.toDict chains) key with
    | none => ht.dictFind T key = .ok none
    | some de => ∃ he xs ys, ht.dictFind T key = .ok (some he) ∧
        chains[ht.slot T key]? = some (xs ++ (he, de) :: ys) ∧ hasKey T key (he, de) = true ∧
        ∀ x ∈ xs, !hasKey T key x := by
  unfold dictFind Cutis.dictFind
  rw [toDict_used]
  by_cases hused : ht.used = 0
  · simp only [hused, if_true]
    rfl
  · obtain ⟨start, chain, hhead, hchain, hslot, hfind⟩ :=
      findLoop_slot hl hs T key (hs.size_ne_zero hused)
    have hvalue : ((ht.toDict chains).chain (ht.slot T key)).find?
        (fun he => T.keyCompare key he.key) = (chain.find? (hasKey T key)).map Prod.snd := by
      rw [toDict_chain hchain, List.find?_map]
      rfl
    simp only [hused, if_false, toDict_slot, hvalue, hslot, ok_bind, hfind]
    cases hcase : chain.find? (hasKey T key) with
    | none => rfl
    | some x =>
        obtain ⟨he, de⟩ := x
        obtain ⟨hkey, xs, ys, rfl, hxs⟩ := List.find?_eq_some_iff_append.mp hcase
        exact ⟨he, xs, ys, rfl, hchain, hkey, hxs⟩

-- An assignment to the value of that entry.
theorem setVal_spec {he : EntryId} {de : DictEntry K V} {key : K}
    {xs ys : List (EntryId × DictEntry K V)} (hl : ht.Holds chains)
    (hchain : chains[ht.slot T key]? = some (xs ++ (he, de) :: ys))
    (hkey : hasKey T key (he, de) = true) (hxs : ∀ x ∈ xs, !hasKey T key x) (val : V) :
    ∃ chains', (ht.write he (some ⟨{ de with val }, ys.head?.map Prod.fst⟩)).Holds chains' ∧
      ht.toDict chains' = Cutis.dictSetHashVal T (ht.toDict chains) key val ∧
      chains'.flatten.map Prod.fst = chains.flatten.map Prod.fst := by
  obtain ⟨hlt, hget⟩ := List.getElem?_eq_some_iff.mp hchain
  refine ⟨chains.modify (ht.slot T key) fun _ => xs ++ (he, { de with val }) :: ys, ?_, ?_, ?_⟩
  · rw [Holds, memory_write]
    exact Chains.Linked.assign hl hchain { de with val }
  · have hvalues : (xs ++ (he, { de with val }) :: ys).map Prod.snd =
        chainSetVal T key val ((xs ++ (he, de) :: ys).map Prod.snd) := by
      rw [List.map_append, List.map_cons, List.map_append, List.map_cons,
        chainSetVal_eq T key val _ _ _ hkey]
      intro x hx
      obtain ⟨y, hy, rfl⟩ := List.mem_map.mp hx
      exact hxs y hy
    have hmap := @Buckets.map_modify _ _ Prod.snd (fun _ => xs ++ (he, { de with val }) :: ys)
      (fun _ => (xs ++ (he, { de with val }) :: ys).map Prod.snd) (fun _ => rfl) chains
    rw [toDict, hmap, Cutis.dictSetHashVal]
    congr 1
    refine Buckets.modify_congr fun bucket hbucket => ?_
    rw [List.getElem?_map, hchain] at hbucket
    obtain rfl := Option.some.inj hbucket
    exact hvalues
  · rw [Buckets.flatten_modify chains _ _ hlt, Buckets.flatten_eq_split chains _ hlt, hget]
    simp

theorem dictReplace_agrees (hl : ht.Holds chains) (h : (ht.toDict chains).Sound T)
    {entry : EntryId} (hfresh : entry ∉ chains.flatten.map Prod.fst) (key : K) (val : V) :
    Agrees (entry :: chains.flatten.map Prod.fst) (ht.dictReplace T entry key val)
      (Cutis.dictReplace T (ht.toDict chains) key val) := by
  have hadd := dictAdd_agrees hl h hfresh key val
  unfold dictReplace Cutis.dictReplace
  cases hval : Cutis.dictAdd T (ht.toDict chains) key val with
  | error fault =>
      rw [hval] at hadd
      rw [hadd]
      rfl
  | ok result =>
      obtain ⟨d, status⟩ := result
      obtain ⟨hs', -⟩ := dictAdd_shape T h.toShape key val hval
      rw [hval] at hadd
      obtain ⟨ht', chains', hrun, hl', rfl, hids⟩ := hadd
      rw [hrun]
      cases status with
      | DICT_OK => exact ⟨ht', chains', rfl, hl', rfl, hids⟩
      | DICT_ERR =>
          have hfind := dictFind_spec hl' hs' T key
          simp only [ok_bind, reduceCtorEq, if_false]
          cases hde : Cutis.dictFind T (ht'.toDict chains') key with
          | none =>
              rw [hde] at hfind
              rw [hfind]
              rfl
          | some de =>
              rw [hde] at hfind
              obtain ⟨he, xs, ys, hfind, hchain, hkey, hxs⟩ := hfind
              obtain ⟨chains₁, hl₁, hdict, hsame⟩ := setVal_spec hl' hchain hkey hxs val
              simp only [hfind, ok_bind, read_eq (Chains.Linked.memory_eq hl' hchain)]
              exact ⟨_, chains₁, rfl, hl₁, hdict, fun q hq => hids q (hsame ▸ hq)⟩

end Add

section Clear

variable {T : DictType K} {ht : LinkedDict K V} {chains : List (List (EntryId × DictEntry K V))}

theorem clearChain_spec {chain : List (EntryId × DictEntry K V)} {start : Option EntryId}
    {fuel : Nat} (hseg : Chains.Segment ht.memory start chain none)
    (hnodup : (chain.map Prod.fst).Nodup) (hfuel : chain.length ≤ fuel) :
    ∃ ht', clearChain fuel start ht = .ok ht' ∧ ht'.used = ht.used - chain.length ∧
      ∀ q, q ∉ chain.map Prod.fst → ht'.memory q = ht.memory q := by
  induction chain generalizing ht start fuel with
  | nil =>
      obtain rfl : start = none := hseg
      exact ⟨ht, by cases fuel <;> rfl, rfl, fun _ _ => rfl⟩
  | cons x rest ih =>
      obtain ⟨he, entry⟩ := x
      obtain ⟨rfl, next, hmem, hrest⟩ := hseg
      obtain ⟨fuel, rfl⟩ : ∃ k, fuel = k + 1 := ⟨fuel - 1, by simp at hfuel; omega⟩
      rw [List.map_cons, List.nodup_cons] at hnodup
      have hmemory : ({ ht.write he none with used := ht.used - 1 } : LinkedDict K V).memory =
          Function.update ht.memory he none := memory_write ht he none
      obtain ⟨ht', hloop, hused, hframe⟩ :=
        @ih { ht.write he none with used := ht.used - 1 } next fuel
          (by rw [hmemory]; exact hrest.update hnodup.1 none) hnodup.2
          (Nat.le_of_succ_le_succ hfuel)
      refine ⟨ht', ?_, ?_, fun q hq => ?_⟩
      · rw [clearChain, read_eq hmem]
        exact hloop
      · rw [hused, List.length_cons]
        show ht.used - 1 - rest.length = _
        omega
      · rw [List.map_cons, List.mem_cons, not_or] at hq
        rw [hframe q hq.2, hmemory, Function.update_of_ne hq.1]

theorem clearTable_spec {heads : List (Option EntryId)}
    (hl : Chains.Linked ht.memory heads chains) (hused : ht.used = chains.flatten.length) :
    ∃ ht', clearTable heads ht = .ok ht' := by
  induction chains generalizing ht heads with
  | nil =>
      obtain rfl := List.length_eq_zero_iff.mp hl.length_eq
      exact ⟨ht, rfl⟩
  | cons chain rest ih =>
      obtain ⟨start, heads, rfl⟩ := List.exists_cons_of_length_eq_add_one hl.length_eq
      obtain ⟨hseg, hrest⟩ := hl.tail
      rw [List.flatten_cons, List.length_append] at hused
      rw [clearTable]
      by_cases hpos : ht.used > 0
      · obtain ⟨ht₁, hloop, hused₁, hframe⟩ := @clearChain_spec _ _ _ _ _ ht.used hseg
          (@Chains.Linked.nodup_chain _ _ _ _ _ 0 _ hl rfl) (by omega)
        have hrest₁ : Chains.Linked ht₁.memory heads rest := by
          refine hrest.congr fun q hq => hframe q fun hmem => ?_
          have hnodup := hl.nodup
          rw [List.flatten_cons, List.map_append, List.nodup_append] at hnodup
          exact hnodup.2.2 q hmem q hq rfl
        obtain ⟨ht', hrun⟩ := ih hrest₁ (by omega)
        exact ⟨ht', by rw [if_pos hpos, hloop, ok_bind, hrun]⟩
      · exact ⟨ht, by rw [if_neg hpos]; rfl⟩

theorem dictEmpty_agrees (hl : ht.Holds chains) (hs : (ht.toDict chains).Shape) :
    ∃ ht', ht.dictEmpty = .ok ht' ∧ ht'.Holds [] ∧ ht'.toDict [] = Cutis.dictReset := by
  obtain ⟨ht', hclear⟩ := clearTable_spec hl (used_eq hs)
  refine ⟨ht'.dictReset, ?_, Chains.linked_replicate _ 0, rfl⟩
  rw [dictEmpty, hclear]
  rfl

end Clear

section Step

variable {T : DictType K} {ht : LinkedDict K V} {chains : List (List (EntryId × DictEntry K V))}

theorem dictGenericDelete_agrees (hl : ht.Holds chains) (hs : (ht.toDict chains).Shape)
    (T : DictType K) (key : K) :
    Agrees (chains.flatten.map Prod.fst) (ht.dictGenericDelete T key)
      (.ok (Cutis.dictGenericDelete T (ht.toDict chains) key)) := by
  obtain ⟨ht', hdelete, hl', hdict⟩ := dictGenericDelete_spec hl hs T key
  refine ⟨ht', _, hdelete, hl', hdict, fun q hq => ?_⟩
  obtain ⟨x, hx, rfl⟩ := List.mem_map.mp hq
  exact List.mem_map_of_mem (Buckets.mem_of_mem_modify (fun _ => List.eraseP_subset) hx)

theorem Agrees.mono {σ : Type} {ids ids' : List EntryId}
    {result : Except Fault (LinkedDict K V × σ)} {expected : Except Fault (Dict K V × σ)}
    (h : Agrees ids result expected) (hids : ∀ q ∈ ids, q ∈ ids') :
    Agrees ids' result expected := by
  cases expected with
  | error fault => exact h
  | ok value =>
      obtain ⟨ht, chains, hrun, hl, hdict, hsub⟩ := h
      exact ⟨ht, chains, hrun, hl, hdict, fun q hq => hids q (hsub q hq)⟩

theorem Agrees.map {σ τ : Type} {ids : List EntryId} {result : Except Fault (LinkedDict K V × σ)}
    {expected : Except Fault (Dict K V × σ)} (h : Agrees ids result expected) (f : σ → τ) :
    Agrees ids (do let r ← result; return (r.1, f r.2)) (expected.map fun r => (r.1, f r.2)) := by
  cases expected with
  | error fault =>
      rw [Agrees] at h
      rw [h]
      rfl
  | ok value =>
      obtain ⟨ht, chains, rfl, hl, hdict, hsub⟩ := h
      exact ⟨ht, chains, rfl, hl, hdict, hsub⟩

-- An operation on the table in memory does what the operation does to the table without
-- addresses.
theorem step_agrees (hl : ht.Holds chains) (h : (ht.toDict chains).Sound T) {entry : EntryId}
    (hfresh : entry ∉ chains.flatten.map Prod.fst) (op : DictOp K V) :
    Agrees (entry :: chains.flatten.map Prod.fst) (ht.step T entry op)
      (dictStep T (ht.toDict chains) op) := by
  have hmore (q) (hq : q ∈ chains.flatten.map Prod.fst) :
      q ∈ entry :: chains.flatten.map Prod.fst := List.mem_cons_of_mem _ hq
  cases op with
  | add key val => exact dictAdd_agrees hl h hfresh key val
  | replace key val => exact (dictReplace_agrees hl h hfresh key val).map fun _ => DictStatus.DICT_OK
  | delete key =>
      exact ((dictGenericDelete_agrees hl h.toShape T key).mono hmore).map DictStatus.ofEntry
  | deleteNoFree key =>
      exact ((dictGenericDelete_agrees hl h.toShape T key).mono hmore).map DictStatus.ofEntry
  | resize => exact (dictResize_agrees hl h).mono hmore
  | empty =>
      obtain ⟨ht', hempty, hl', hdict⟩ := dictEmpty_agrees hl h.toShape
      exact ⟨ht', [], by rw [step, hempty]; rfl, hl', hdict, fun q hq => absurd hq List.not_mem_nil⟩

theorem not_mem_ids (hl : ht.Holds chains) {entry : EntryId} (hfree : ht.nodes entry = none) :
    entry ∉ chains.flatten.map Prod.fst := by
  intro hmem
  obtain ⟨contents, hcontents⟩ := hl.exists_memory hmem
  rw [memory, hfree] at hcontents
  cases hcontents

theorem sound_dictStep (hT : T.Lawful) {d d' : Dict K V} {op : DictOp K V} {status : DictStatus}
    (h : d.Sound T) (hstep : dictStep T d op = .ok (d', status)) : d'.Sound T := by
  classical
  by_cases hroom : op.Fits d.toFinmap
  · obtain ⟨d'', hok, hd'', -⟩ := dictStep_ok hT d d.toFinmap op ⟨h, rfl⟩ hroom
    rw [hstep] at hok
    cases hok
    exact hd''
  · obtain ⟨fault, hfault⟩ := dictStep_fault d d.toFinmap op ⟨h, rfl⟩ hroom
    rw [hstep] at hfault
    cases hfault

-- Every table the operations lead to holds chains that stand for a sound table.
theorem Reachable.exists_chains (hT : T.Lawful) (hr : Reachable T ht) :
    ∃ chains, ht.Holds chains ∧ (ht.toDict chains).Sound T := by
  induction hr with
  | create => exact ⟨[], Chains.linked_replicate _ 0, sound_dictCreate T⟩
  | @step ht ht' status entry op _ hfree hstep ih =>
      obtain ⟨chains, hl, hsound⟩ := ih
      have hagrees := step_agrees hl hsound (not_mem_ids hl hfree) op
      rw [hstep] at hagrees
      cases hval : dictStep T (ht.toDict chains) op with
      | error fault =>
          rw [hval] at hagrees
          cases hagrees
      | ok result =>
          obtain ⟨d, status'⟩ := result
          rw [hval] at hagrees
          obtain ⟨ht₁, chains', heq, hl', rfl, -⟩ := hagrees
          cases heq
          exact ⟨chains', hl', sound_dictStep hT hsound hval⟩

end Step

end LinkedDict

end Cutis

import Cutis.Command.Keys

namespace Cutis

namespace Keyspace

variable (ks : Keyspace)

-- No key of another type comes before a missing one.
def SinterSafe : List Bytes → Prop
  | [] => True
  | key :: keys =>
      match ks.lookup key with
      | none => True
      | some (.set _) => SinterSafe keys
      | some _ => False

-- The members all the sets have in common.
def InAll (keys : List Bytes) (el : Bytes) : Prop :=
  ∀ key ∈ keys, ∃ members, ks.lookup key = some (.set members) ∧ el ∈ members

end Keyspace

namespace Session

variable {s : Session}

section Inter

def SetOf (ks : Keyspace) (key : Bytes) (d : Dict Bytes Unit) : Prop :=
  d.Sound SetDictType ∧ ks.lookup key = some (.set d.members)

-- The sets are those of the keys.
structure SetsOf (ks : Keyspace) (keys : List Bytes) (dv : List (Dict Bytes Unit)) : Prop where
  of_key : ∀ key ∈ keys, ∃ d ∈ dv, SetOf ks key d
  of_set : ∀ d ∈ dv, ∃ key ∈ keys, SetOf ks key d

theorem SetsOf.cons {ks : Keyspace} {key : Bytes} {keys : List Bytes} {d : Dict Bytes Unit}
    {dv : List (Dict Bytes Unit)} (hd : SetOf ks key d) (h : SetsOf ks keys dv) :
    SetsOf ks (key :: keys) (d :: dv) where
  of_key other hmem := by
    rcases List.mem_cons.mp hmem with rfl | hmem
    · exact ⟨d, by simp, hd⟩
    · obtain ⟨d', hd', hset⟩ := h.of_key other hmem
      exact ⟨d', by simp [hd'], hset⟩
  of_set d' hmem := by
    rcases List.mem_cons.mp hmem with rfl | hmem
    · exact ⟨key, by simp, hd⟩
    · obtain ⟨other, hother, hset⟩ := h.of_set d' hmem
      exact ⟨other, by simp [hother], hset⟩

theorem sInterSets_ok {db : Database} (hsound : SoundDatabase db) {keys : List Bytes}
    (hsafe : db.contents.SinterSafe keys) :
    (sInterSets db keys = .ok none ∧ ∃ key ∈ keys, db.contents.lookup key = none) ∨
      ∃ dv, sInterSets db keys = .ok (some dv) ∧ SetsOf db.contents keys dv := by
  induction keys with
  | nil => exact Or.inr ⟨[], rfl, nofun, nofun⟩
  | cons key keys ih =>
      rw [Keyspace.SinterSafe] at hsafe
      rcases hsound.find_cases key with ⟨hfind, hlook⟩ | ⟨de, hfind, -, ho, hlook⟩
      · refine Or.inl ⟨?_, key, by simp, hlook⟩
        rw [sInterSets, hfind]
        rfl
      · rw [hlook] at hsafe
        simp only [sInterSets, hfind]
        cases hde : de.val with
        | string | list =>
            rw [hde] at hsafe
            cases hsafe
        | set d =>
            rw [hde] at hsafe hlook ho
            rcases ih hsafe with ⟨hrest, other, hmem, hmissing⟩ | ⟨dv, hrest, hdv⟩
            · refine Or.inl ⟨?_, other, by simp [hmem], hmissing⟩
              simp only [hrest, bind, Except.bind]
              rfl
            · refine Or.inr ⟨d :: dv, ?_, .cons ⟨ho, hlook⟩ hdv⟩
              simp only [hrest, bind, Except.bind]
              rfl

theorem sInterSets_fault {db : Database} (hsound : SoundDatabase db) {keys : List Bytes}
    (hsafe : ¬db.contents.SinterSafe keys) : ∃ fault, sInterSets db keys = .error fault := by
  induction keys with
  | nil => exact absurd trivial hsafe
  | cons key keys ih =>
      rw [Keyspace.SinterSafe] at hsafe
      rcases hsound.find_cases key with ⟨-, hlook⟩ | ⟨de, hfind, -, -, hlook⟩
      · rw [hlook] at hsafe
        exact absurd trivial hsafe
      · rw [hlook] at hsafe
        simp only [sInterSets, hfind]
        cases hde : de.val with
        | string | list => exact ⟨.useAfterFree, rfl⟩
        | set d =>
            rw [hde] at hsafe
            obtain ⟨fault, hrest⟩ := ih hsafe
            exact ⟨fault, by simp only [hrest, bind, Except.bind]⟩

-- The members of the smallest set the loop replies.
def interMembers (others : List (Dict Bytes Unit)) (entries : List (DictEntry Bytes Unit)) :
    List Bytes :=
  (entries.map DictEntry.key).filter fun el =>
    others.all fun d => (dictFind SetDictType d el).isSome

theorem sInterLoop_eq (others : List (Dict Bytes Unit)) (entries : List (DictEntry Bytes Unit))
    (s : Session) (n : Nat) :
    sInterLoop others entries s n =
      (s.after s.server.dict s.client.dict 0 ((interMembers others entries).flatMap bulkParts),
        n + (interMembers others entries).length) := by
  induction entries generalizing s n with
  | nil => simp [sInterLoop, interMembers, after]
  | cons de rest ih =>
      rw [sInterLoop]
      split_ifs with hall
      · have hcons : interMembers others (de :: rest) = de.key :: interMembers others rest := by
          rw [interMembers, List.map_cons, List.filter_cons, if_pos hall, interMembers]
        have hcount : n + 1 + (interMembers others rest).length =
            n + (de.key :: interMembers others rest).length := by
          rw [List.length_cons]
          omega
        rw [ih, addBulk_eq, hcons, hcount]
        simp [after]
      · have hcons : interMembers others (de :: rest) = interMembers others rest := by
          rw [interMembers, List.map_cons, List.filter_cons, if_neg hall, interMembers]
        rw [ih, hcons]

-- The count is put where lenobj was queued.
theorem setReply_after (s : Session) (reply : List Bytes) (line : Bytes) :
    setReply ((s.addReply []).after (s.addReply []).server.dict (s.addReply []).client.dict 0 reply)
      s.client.reply.length line = s.after s.server.dict s.client.dict 0 (line :: reply) := by
  simp [setReply, addReply, after]

theorem sInterElements_eq (s : Session) (smallest : Dict Bytes Unit)
    (others : List (Dict Bytes Unit)) :
    sInterElements s smallest others =
      s.after s.server.dict s.client.dict 0
        (intLine (interMembers others (dictIterate smallest)).length ::
          (interMembers others (dictIterate smallest)).flatMap bulkParts) := by
  rw [sInterElements, sInterLoop_eq, setReply_after, Nat.zero_add]

theorem sInterReply_eq {os : Os} {dv others : List (Dict Bytes Unit)} {smallest : Dict Bytes Unit}
    (hsorted : os.qsort dv = smallest :: others) (s : Session) :
    sInterReply os s dv = .ok (sInterElements s smallest others) := by
  rw [sInterReply, hsorted]
  rfl

section Members

variable {ks : Keyspace} {keys : List Bytes} {dv others : List (Dict Bytes Unit)}
  {smallest : Dict Bytes Unit} (hdv : SetsOf ks keys dv) (hperm : (smallest :: others).Perm dv)

include hdv hperm

theorem mem_interMembers (el : Bytes) :
    el ∈ interMembers others (dictIterate smallest) ↔ ks.InAll keys el := by
  obtain ⟨-, -, hsmallest, -⟩ := hdv.of_set smallest (hperm.subset (by simp))
  rw [interMembers, List.mem_filter, (dictIterate_members hsmallest).2.1, List.all_eq_true]
  constructor
  · rintro ⟨hel, hothers⟩ key hkey
    obtain ⟨d, hd, hsound, hlook⟩ := hdv.of_key key hkey
    refine ⟨d.members, hlook, ?_⟩
    rcases List.mem_cons.mp (hperm.symm.subset hd) with rfl | hd
    · exact hel
    · exact (dictFind_members hsound el).mp (hothers d hd)
  · intro hin
    have hmem (d : Dict Bytes Unit) (hd : d ∈ smallest :: others) :
        d.Sound SetDictType ∧ el ∈ d.members := by
      obtain ⟨key, hkey, hsound, hlook⟩ := hdv.of_set d (hperm.subset hd)
      obtain ⟨members, hlook', hel⟩ := hin key hkey
      rw [hlook] at hlook'
      injection Option.some.inj hlook' with hmembers
      exact ⟨hsound, hmembers ▸ hel⟩
    refine ⟨(hmem smallest (by simp)).2, fun d hd => ?_⟩
    obtain ⟨hsound, hel⟩ := hmem d (by simp [hd])
    exact (dictFind_members hsound el).mpr hel

theorem nodup_interMembers : (interMembers others (dictIterate smallest)).Nodup ∧
    (interMembers others (dictIterate smallest)).length < 2 ^ 31 := by
  obtain ⟨-, -, hsmallest, -⟩ := hdv.of_set smallest (hperm.subset (by simp))
  obtain ⟨hnodup, -, hlen⟩ := dictIterate_members hsmallest
  refine ⟨hnodup.filter _, Nat.lt_of_le_of_lt (List.length_filter_le _ _) ?_⟩
  rw [List.length_map, hlen]
  exact Nat.lt_of_le_of_lt hsmallest.used_le_limit (by decide)

theorem short_interMembers (hclean : ks.Clean) :
    ∀ el ∈ interMembers others (dictIterate smallest), el.length < 2 ^ 31 := by
  intro el hel
  obtain ⟨key, hkey, -, hlook⟩ := hdv.of_set smallest (hperm.subset (by simp))
  obtain ⟨members, hlook', hmem⟩ := (mem_interMembers hdv hperm el).mp hel key hkey
  exact (hclean key _ hlook').2 el hmem

end Members

-- The reply to SINTER, whatever order qsort leaves.
theorem sInterCommand_meets (h : s.Sound) {os : Os} (hqsort : ∀ dv, (os.qsort dv).Perm dv)
    {keys : List Bytes} (hkeys : s.client.argv.tail = keys) (hne : keys ≠ [])
    (hsafe : s.model.keyspace.SinterSafe keys) :
    ∃ r, s.Meets (sInterCommand os s) (s.model.answer r) ∧
      ((r = .bulkError (sdsnew "No such key") ∧
          ∃ key ∈ keys, s.model.keyspace.lookup key = none) ∨
        ∃ elements, r = .multi elements ∧ elements.Nodup ∧
          ∀ el, el ∈ elements ↔ s.model.keyspace.InAll keys el) := by
  obtain ⟨db, hdb, hsound, hks, -⟩ := db_eq h
  have hclean := clean_keyspace h
  rw [hks] at hsafe hclean ⊢
  rw [sInterCommand, hdb, hkeys, ok_bind]
  rcases sInterSets_ok hsound hsafe with ⟨hsets, hmissing⟩ | ⟨dv, hsets, hdv⟩
  · rw [hsets, ok_bind]
    exact ⟨_, meets_reply h (flatten_bulkError _ (by decide)), Or.inl ⟨rfl, hmissing⟩⟩
  · have hperm := hqsort dv
    rw [hsets, ok_bind]
    cases hsorted : os.qsort dv with
    | nil =>
        rw [hsorted] at hperm
        obtain ⟨key, hkey⟩ := List.exists_mem_of_ne_nil keys hne
        obtain ⟨d, hd, -⟩ := hdv.of_key key hkey
        exact absurd (hperm.symm.subset hd) List.not_mem_nil
    | cons smallest others =>
        rw [hsorted] at hperm
        obtain ⟨hnodup, hlen⟩ := nodup_interMembers hdv hperm
        have hmulti := flatten_multi hlen (short_interMembers hdv hperm hclean)
        refine ⟨_, ?_, Or.inr ⟨_, rfl, hnodup, mem_interMembers hdv hperm⟩⟩
        show s.Meets (sInterReply os s dv) _
        rw [sInterReply_eq hsorted, sInterElements_eq]
        exact meets_reply h hmulti

theorem sInterCommand_fault (h : s.Sound) {os : Os}
    (hsafe : ¬s.model.keyspace.SinterSafe s.client.argv.tail) :
    ∃ fault, sInterCommand os s = .error fault := by
  obtain ⟨db, hdb, hsound, hks, -⟩ := db_eq h
  rw [hks] at hsafe
  obtain ⟨fault, hsets⟩ := sInterSets_fault hsound hsafe
  exact ⟨fault, by simp only [sInterCommand, hdb, hsets, bind, Except.bind]⟩

end Inter

section Keys

-- The results of random hit a slot that is not empty, and one more is left.
def RandomHits (ht : Database) : List Nat → Prop
  | [] => False
  | r :: random =>
      if ht.chain (r &&& ht.size_mask) = [] then RandomHits ht random else random ≠ []

theorem dictRandomLoop_ok {ht : Database} {random : List Nat} (hhits : RandomHits ht random) :
    ∃ de rest, dictRandomLoop ht random = .ok (some de, rest) ∧ de ∈ ht.entries := by
  induction random with
  | nil => exact absurd hhits id
  | cons r random ih =>
      rw [RandomHits] at hhits
      unfold dictRandomLoop
      by_cases hchain : ht.chain (r &&& ht.size_mask) = []
      · rw [if_pos hchain] at hhits
        obtain ⟨de, rest, hloop, hde⟩ := ih hhits
        exact ⟨de, rest, by simp only [hchain, if_true, hloop], hde⟩
      · rw [if_neg hchain] at hhits
        cases random with
        | nil => exact absurd rfl hhits
        | cons r' random =>
            have hlt : r' % (ht.chain (r &&& ht.size_mask)).length <
                (ht.chain (r &&& ht.size_mask)).length :=
              Nat.mod_lt _ (List.length_pos_iff.mpr hchain)
            refine ⟨(ht.chain (r &&& ht.size_mask)).get ⟨_, hlt⟩, random, ?_, ?_⟩
            · simp only [hchain, if_false, List.getElem?_eq_getElem hlt]
              rfl
            · exact Dict.mem_entries_of_chain (List.get_mem _ _)

-- A random key is a key of the database; without one the line is empty.
theorem randomKeyCommand_meets (h : s.Sound) {os : Os}
    (hrandom : ∀ db, s.db = .ok db → db.used ≠ 0 → RandomHits db os.random) :
    ∃ line, s.Meets (randomKeyCommand os s) (s.model.answer (.line line)) ∧
      (line ∈ s.model.keyspace ∨ (line = [] ∧ s.model.keyspace = ∅)) := by
  obtain ⟨db, hdb, hsound, hks, -⟩ := db_eq h
  simp only [randomKeyCommand, hdb, bind, Except.bind, dictGetRandomKey]
  by_cases hused : db.used = 0
  · rw [if_pos hused]
    refine ⟨[], meets_reply h (by decide), Or.inr ⟨rfl, ?_⟩⟩
    rw [hks]
    exact hsound.contents_eq_empty hused
  · rw [if_neg hused]
    obtain ⟨de, rest, hloop, hde⟩ := dictRandomLoop_ok (hrandom db hdb hused)
    simp only [hloop, addReplySds, addReply_two]
    refine ⟨de.key, meets_reply h (flatten_line _), Or.inl ?_⟩
    rw [hks, Dict.mem_contents, Dict.mem_toFinmap]
    exact List.mem_map_of_mem hde

theorem keysLoop_ok {pattern : Bytes} {entries : List (DictEntry Bytes CutisObject)}
    (hmatch : ∀ de ∈ entries, ∃ isMatch, keysMatch pattern de.key = .ok isMatch) (keys : Bytes) :
    ∃ body, keysLoop pattern entries keys = .ok body := by
  induction entries generalizing keys with
  | nil => exact ⟨keys, rfl⟩
  | cons de rest ih =>
      obtain ⟨isMatch, hde⟩ := hmatch de (by simp)
      have ih := ih fun de' hmem => hmatch de' (by simp [hmem])
      rw [keysLoop]
      cases isMatch with
      | true => simpa only [hde, bind, Except.bind, if_true] using ih _
      | false => simpa only [hde, bind, Except.bind, Bool.false_eq_true, if_false] using ih _

theorem keysLoop_fault {pattern : Bytes} {entries : List (DictEntry Bytes CutisObject)}
    (hmatch : ¬∀ de ∈ entries, ∃ isMatch, keysMatch pattern de.key = .ok isMatch) (keys : Bytes) :
    ∃ fault, keysLoop pattern entries keys = .error fault := by
  induction entries generalizing keys with
  | nil => exact absurd nofun hmatch
  | cons de rest ih =>
      rw [keysLoop]
      cases hde : keysMatch pattern de.key with
      | error fault => exact ⟨fault, rfl⟩
      | ok isMatch =>
          have hrest : ¬∀ de' ∈ rest, ∃ isMatch, keysMatch pattern de'.key = .ok isMatch := by
            intro hall
            refine hmatch fun de' hmem => ?_
            rcases List.mem_cons.mp hmem with rfl | hmem
            · exact ⟨isMatch, hde⟩
            · exact hall de' hmem
          cases isMatch with
          | true => simpa only [bind, Except.bind, if_true] using ih hrest _
          | false => simpa only [bind, Except.bind, Bool.false_eq_true, if_false] using ih hrest _

-- StringMatch stays within the pattern for every key it is called with.
def MatchesInBounds (ks : Keyspace) (pattern : Bytes) : Prop :=
  ∀ key ∈ ks, ∃ isMatch, keysMatch pattern key = .ok isMatch

theorem matchesInBounds_iff {db : Database} (hsound : SoundDatabase db) (pattern : Bytes) :
    MatchesInBounds db.contents pattern ↔
      ∀ de ∈ dictIterate db, ∃ isMatch, keysMatch pattern de.key = .ok isMatch := by
  rw [dictIterate_eq hsound.toShape (Nat.lt_of_le_of_lt hsound.size_le (by decide))]
  constructor
  · intro h de hde
    apply h
    rw [Dict.mem_contents, Dict.mem_toFinmap]
    exact List.mem_map_of_mem hde
  · intro h key hkey
    rw [Dict.mem_contents, Dict.mem_toFinmap] at hkey
    obtain ⟨de, hde, rfl⟩ := List.mem_map.mp hkey
    exact h de hde

theorem keysCommand_meets (h : s.Sound) {pattern : Bytes}
    (hpattern : s.client.argv[1]? = some pattern)
    (hmatch : MatchesInBounds s.model.keyspace pattern) :
    ∃ body, s.Meets (keysCommand s) (s.model.answer (.bulk body)) := by
  obtain ⟨db, hdb, hsound, hks, -⟩ := db_eq h
  rw [hks, matchesInBounds_iff hsound] at hmatch
  obtain ⟨keys, hloop⟩ := keysLoop_ok hmatch []
  rw [keysCommand, arg_eq hpattern, hdb, ok_bind, ok_bind, hloop, ok_bind]
  refine ⟨sdstrim keys [SPACE], meets_reply h ?_⟩
  rw [crlf_eq]
  simp [Reply.encode, Reply.encodeBulk]

theorem keysCommand_fault (h : s.Sound) {pattern : Bytes}
    (hpattern : s.client.argv[1]? = some pattern)
    (hmatch : ¬MatchesInBounds s.model.keyspace pattern) :
    ∃ fault, keysCommand s = .error fault := by
  obtain ⟨db, hdb, hsound, hks, -⟩ := db_eq h
  rw [hks, matchesInBounds_iff hsound] at hmatch
  obtain ⟨fault, hloop⟩ := keysLoop_fault hmatch []
  exact ⟨fault, by rw [keysCommand, arg_eq hpattern, hdb, ok_bind, ok_bind, hloop, error_bind]⟩

end Keys

theorem pingCommand_meets (h : s.Sound) :
    s.Meets (pingCommand s) (s.model.answer (.ofString "+PONG")) :=
  meets_reply h (by decide)

theorem echoCommand_meets (h : s.Sound) {arg : Bytes} (harg : s.client.argv[1]? = some arg)
    (hlen : arg.length < 2 ^ 31) :
    s.Meets (echoCommand s) (s.model.answer (.bulk arg)) := by
  simp only [echoCommand, arg_eq harg, bind, Except.bind, addBulk_eq]
  exact meets_reply h (flatten_bulk hlen)

theorem lastSaveCommand_meets (h : s.Sound) :
    s.Meets (lastSaveCommand s) (s.model.answer (.int (s.server.last_save % 2 ^ 64))) := by
  refine meets_reply h ?_
  have hpos : 0 ≤ s.server.last_save % 2 ^ 64 := Int.emod_nonneg _ (by decide)
  rw [crlf_eq, Reply.int, printInt, if_neg (by omega)]
  simp [Reply.encode]

theorem moveCommand_fault (h : s.Sound) {key arg : Bytes} (hkey : s.client.argv[1]? = some key)
    (harg : s.client.argv[2]? = some arg) (hvalid : s.model.validIndex (atoi arg))
    (hsel : atoi arg ≠ s.client.dict) (hmem : key ∈ s.model.keyspace)
    (hfull : (s.model.dataset.getD (atoi arg).toNat ∅).Full) :
    ∃ fault, moveCommand s = .error fault := by
  obtain ⟨db, hdb, hsound, hks, -⟩ := db_eq h
  rw [hks] at hmem
  have hid : (atoi arg).toNat < s.server.dict.length := by
    simp only [Model.validIndex, model, dataset, List.length_map] at hvalid
    omega
  have hne : ¬s.client.dict = (atoi arg).toNat := by
    have := hvalid.1
    omega
  obtain ⟨dst, hget, -, hdst, htarget⟩ := dict_eq h hid
  rcases hsound.find_cases key with ⟨-, hlook⟩ | ⟨de, hfind, -, -, -⟩
  · exact absurd hmem (Finmap.lookup_eq_none.mp hlook)
  · obtain ⟨fault, hadd⟩ := hdst.add_fault de.key de.val (htarget ▸ hfull)
    refine ⟨fault, ?_⟩
    simp only [moveCommand, hdb, arg_eq hkey, arg_eq harg, bind, Except.bind, selectDB_eq,
      if_pos hvalid, hne, if_false, hfind, hget, hadd]

end Session

end Cutis

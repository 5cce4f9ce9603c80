import Cutis.System.Calls

namespace Cutis

-- The numbers INCR and DECR are promised to handle.
def InLong (n : Int) : Prop := LLONG_MIN ≤ n ∧ n ≤ LLONG_MAX

theorem toInt64_succ_ne (n : Int) : toInt64 (n + 1) ≠ n ∧ toInt64 (n + -1) ≠ n := by
  have hnext : toInt64 (n + 1) % (2 ^ 64 : Nat) = (n + 1) % (2 ^ 64 : Nat) := Int.bmod_emod
  have hprev : toInt64 (n + -1) % (2 ^ 64 : Nat) = (n + -1) % (2 ^ 64 : Nat) := Int.bmod_emod
  constructor <;> intro hsame
  · rw [hsame] at hnext
    omega
  · rw [hsame] at hprev
    omega

instance (n : Int) : Decidable (InLong n) := inferInstanceAs (Decidable (_ ∧ _))

theorem toInt64_eq_self {n : Int} (h : InLong n) : toInt64 n = n := by
  obtain ⟨hlo, hhi⟩ := h
  simp only [LLONG_MIN, LLONG_MAX] at hlo hhi
  apply Int.bmod_eq_of_le <;> omega

theorem toInt64_inLong (n : Int) : InLong (toInt64 n) := by
  have hlo := @Int.le_bmod n (2 ^ 64) (by omega)
  have hhi := @Int.bmod_lt n (2 ^ 64) (by omega)
  simp only [InLong, LLONG_MIN, LLONG_MAX, toInt64]
  omega

theorem isDigit_print (n : Nat) : ∀ c ∈ Decimal.print n, Decimal.isDigit c = true :=
  fun _ => Decimal.isDigit_of_mem_print

theorem numberText_printInt (n : Int) : NumberText (printInt n) n := by
  rw [printInt]
  split_ifs with hneg
  · refine ⟨_, Decimal.print_ne_nil n.natAbs, isDigit_print _, Or.inr ⟨rfl, ?_⟩⟩
    rw [Decimal.value_print]
    omega
  · refine ⟨_, Decimal.print_ne_nil n.toNat, isDigit_print _, Or.inl ⟨rfl, ?_⟩⟩
    rw [Decimal.value_print]
    omega

theorem notMem_printInt (n : Int) : NUL ∉ printInt n := by
  have hdigits (k : Nat) : NUL ∉ Decimal.print k := fun hmem =>
    absurd (isDigit_print k NUL hmem) (by decide)
  rw [printInt]
  split_ifs
  · intro hmem
    rcases List.mem_cons.mp hmem with h | h
    · exact absurd h (by decide)
    · exact hdigits _ h
  · exact hdigits _

-- Reading back what was printed.
theorem strtoll_printInt {n : Int} (h : InLong n) : strtoll (cstr (printInt n)) = n := by
  obtain ⟨hlo, hhi⟩ := h
  rw [cstr_eq_self (notMem_printInt n), strtoll_text (numberText_printInt n)]
  omega

namespace Keyspace

-- A key that INCR and DECR take for the number n.
def Counter (ks : Keyspace) (key : Bytes) (n : Int) : Prop :=
  (ks.lookup key = none ∧ n = 0) ∨ (ks.lookup key = some (.string (printInt n)) ∧ InLong n)

variable {ks : Keyspace} {key : Bytes} {n : Int}

theorem Counter.number (h : ks.Counter key n) : ks.number key = n ∧ InLong n := by
  rcases h with ⟨hlook, rfl⟩ | ⟨hlook, hn⟩
  · rw [Keyspace.number, hlook]
    exact ⟨rfl, by decide⟩
  · rw [Keyspace.number, hlook]
    exact ⟨strtoll_printInt hn, hn⟩

theorem Counter.insert (hn : InLong n) : Counter (ks.insert key (.string (printInt n))) key n :=
  Or.inr ⟨Finmap.lookup_insert _, hn⟩

-- A number that wrapped around is not what the key held before.
theorem Counter.changed (h : ks.Counter key n) {m : Int} (hm : InLong m) (hne : m ≠ n) :
    (ks.insert key (.string (printInt m))).lookup key ≠ ks.lookup key := by
  rw [Finmap.lookup_insert]
  rcases h with ⟨hlook, -⟩ | ⟨hlook, hn⟩
  · rw [hlook]
    exact nofun
  · intro hsame
    rw [hlook] at hsame
    have hprint : printInt m = printInt n := by simpa using hsame
    rw [← strtoll_printInt hm, hprint, strtoll_printInt hn] at hne
    exact hne rfl

end Keyspace

namespace System

variable {ι : Type} [DecidableEq ι]

-- An INCR or DECR command of some client.
structure CounterCall (ι : Type) where
  client : ι
  cmd : CutisCommand
  argv : List Bytes
  os : Os

namespace CounterCall

def incr (c : CounterCall ι) : Int := if c.cmd.proc = .IncrCommand then 1 else -1

def action (c : CounterCall ι) : Action ι := .call c.client c.cmd c.argv c.os

structure On (c : CounterCall ι) (key : Bytes) : Prop where
  call : CallOk c.cmd c.argv
  proc : c.cmd.proc = .IncrCommand ∨ c.cmd.proc = .DecrCommand
  key : c.argv.getD 1 [] = key

end CounterCall

def keyspace (σ : System ι) (d : Nat) : Keyspace := (dataset σ.server.dict).getD d ∅

-- The reply and the new value are the exact number, and a number out of range
-- leaves the key alone.
def ExactStep (d : Nat) (key : Bytes) (n : Int) (σ : System ι) (c : CounterCall ι) (σ' : System ι) :
    Prop :=
  if InLong (n + c.incr) then
    σ'.keyspace d = (σ.keyspace d).insert key (.string (printInt (n + c.incr))) ∧
      (σ'.clients c.client).reply.flatten =
        (σ.clients c.client).reply.flatten ++ (Reply.int (n + c.incr)).encode
  else (σ'.keyspace d).lookup key = (σ.keyspace d).lookup key

def exactNext (n incr : Int) : Int := if InLong (n + incr) then n + incr else n

def CountsExactly (d : Nat) (key : Bytes) : Int → System ι → List (CounterCall ι) → Prop
  | _, _, [] => True
  | n, σ, c :: rest =>
      ∃ σ', σ.act c.action = .ok σ' ∧ ExactStep d key n σ c σ' ∧
        CountsExactly d key (exactNext n c.incr) σ' rest

-- No command of the sequence takes the number out of its range.
def StaysInLong : Int → List (CounterCall ι) → Prop
  | _, [] => True
  | n, c :: rest => InLong (n + c.incr) ∧ StaysInLong (n + c.incr) rest

-- The table of the database is not at its limit when a command comes.
def CountersFit (ks : Keyspace) (key : Bytes) (calls : List (CounterCall ι)) : Prop :=
  (calls ≠ [] → ks.keys.card ≠ 2 ^ 27) ∧
    (2 ≤ calls.length → (insert key ks.keys).card ≠ 2 ^ 27)

section Counters

variable {σ : System ι} {d : Nat} {key : Bytes} {n : Int} {c : CounterCall ι}
  (h : σ.Sound) (hstop : σ.stop = false) (hc : c.On key) (hd : (σ.clients c.client).dict = d)

include h hc hd

omit [DecidableEq ι] h hc in
theorem counter_keyspace : (σ.model c.client).keyspace = σ.keyspace d := by
  rw [← hd]
  rfl

include hstop in
theorem counter_step (hn : (σ.keyspace d).Counter key n) (hroom : (σ.keyspace d).keys.card ≠ 2 ^ 27) :
    ∃ σ', σ.act c.action = .ok σ' ∧ σ'.Sound ∧ σ'.stop = false ∧
      (∀ j, (σ'.clients j).dict = (σ.clients j).dict) ∧
      σ'.keyspace d =
        (σ.keyspace d).insert key (.string (printInt (toInt64 (n + c.incr)))) ∧
      (σ'.clients c.client).reply.flatten =
        (σ.clients c.client).reply.flatten ++ (Reply.int (toInt64 (n + c.incr))).encode := by
  have hks := counter_keyspace hd
  have ho : (σ.model c.client).outcome c.argv c.cmd.proc =
      some ((σ.model c.client).apply (Keyspace.incrBy · key c.incr)) := by
    rcases hc.proc with hproc | hproc
    · rw [hproc, Model.outcome, hc.key, CounterCall.incr, if_pos hproc]
    · rw [hproc, Model.outcome, hc.key, CounterCall.incr, if_neg (by rw [hproc]; decide)]
  have hfits : (σ.model c.client).HasRoom c.argv c.cmd.proc := by
    rcases hc.proc with hproc | hproc <;> rw [hproc, Model.HasRoom, hks] <;> exact hroom
  have hecho : c.cmd.proc = .EchoCommand → (c.argv.getD 1 []).length < 2 ^ 31 := by
    rcases hc.proc with hproc | hproc <;> rw [hproc] <;> exact nofun
  obtain ⟨σ', hact, hanswers⟩ := call_answers h hc.call hstop c.os hfits hecho ho
  obtain ⟨hdataset, hselected⟩ := Model.mk.inj hanswers.model
  have hlt : d < (dataset σ.server.dict).length := by
    have := h.selected c.client
    simpa [dataset, hd] using this
  refine ⟨σ', hact, act_sound (a := c.action) h hc.call hact, hanswers.stop.trans hstop,
    fun j => ?_, ?_, ?_⟩
  · by_cases hj : j = c.client
    · rw [hj]
      exact hselected
    · rw [hanswers.others j hj]
  · rw [keyspace, hdataset, hks, List.getD_eq_getElem?_getD]
    simp only [model, hd, List.getElem?_set_self hlt, Option.getD_some, Keyspace.incrBy,
      Keyspace.store, hn.number.1]
  · rw [hanswers.reply]
    simp only [Model.apply, hks, Keyspace.incrBy, Keyspace.store, hn.number.1]

theorem counter_fault (hfull : (σ.keyspace d).keys.card = 2 ^ 27) :
    ¬∃ σ', σ.act c.action = .ok σ' := by
  have hks := counter_keyspace hd
  refine call_no_room h hc.call ?_ c.os
  rcases hc.proc with hproc | hproc <;> rw [hproc, Model.HasRoom, hks] <;> exact not_not.mpr hfull

end Counters

omit [DecidableEq ι] in
-- A step that stays in range is exact, and one that does not never is.
theorem exactStep_iff {σ σ' : System ι} {d : Nat} {key : Bytes} {n : Int} {c : CounterCall ι}
    (hn : (σ.keyspace d).Counter key n)
    (hks : σ'.keyspace d =
      (σ.keyspace d).insert key (.string (printInt (toInt64 (n + c.incr)))))
    (hreply : (σ'.clients c.client).reply.flatten =
      (σ.clients c.client).reply.flatten ++ (Reply.int (toInt64 (n + c.incr))).encode) :
    ExactStep d key n σ c σ' ↔ InLong (n + c.incr) := by
  constructor
  · intro hexact
    by_contra hout
    rw [ExactStep, if_neg hout, hks] at hexact
    refine hn.changed (toInt64_inLong _) (fun hsame => ?_) hexact
    rw [CounterCall.incr] at hsame
    split_ifs at hsame
    · exact (toInt64_succ_ne n).1 hsame
    · exact (toInt64_succ_ne n).2 hsame
  · intro hin
    rw [toInt64_eq_self hin] at hks hreply
    rw [ExactStep, if_pos hin]
    exact ⟨hks, hreply⟩

theorem countsExactly_of_sound {σ : System ι} (h : σ.Sound) (hstop : σ.stop = false) {d : Nat}
    {key : Bytes} {n : Int} (hn : (σ.keyspace d).Counter key n) (calls : List (CounterCall ι))
    (hcalls : ∀ c ∈ calls, c.On key ∧ (σ.clients c.client).dict = d) :
    CountsExactly d key n σ calls ↔
      StaysInLong n calls ∧ CountersFit (σ.keyspace d) key calls := by
  induction calls generalizing σ n with
  | nil => exact iff_of_true trivial ⟨trivial, nofun, fun hlen => absurd hlen (by simp)⟩
  | cons c rest ih =>
      obtain ⟨hc, hd⟩ := hcalls c (by simp)
      by_cases hfull : (σ.keyspace d).keys.card = 2 ^ 27
      · refine iff_of_false ?_ fun hcond => hcond.2.1 (by simp) hfull
        rintro ⟨σ', hact, -⟩
        exact counter_fault h hc hd hfull ⟨σ', hact⟩
      obtain ⟨σ', hact, hsound, hstop', hdict, hks, hreply⟩ := counter_step h hstop hc hd hn hfull
      have hexact := exactStep_iff hn hks hreply
      by_cases hin : InLong (n + c.incr)
      · rw [toInt64_eq_self hin] at hks
        have hnext : (σ'.keyspace d).Counter key (n + c.incr) := hks ▸ Keyspace.Counter.insert hin
        have hrest := ih hsound hstop' hnext fun c' hc' =>
          ⟨(hcalls c' (by simp [hc'])).1, (hdict _).trans (hcalls c' (by simp [hc'])).2⟩
        have hfits : CountersFit (σ.keyspace d) key (c :: rest) ↔
            CountersFit (σ'.keyspace d) key rest := by
          have hkeys : (σ'.keyspace d).keys = insert key (σ.keyspace d).keys := by
            rw [hks, FiniteMap.keys_insert]
          rw [CountersFit, CountersFit, hkeys, Finset.insert_idem]
          cases rest with
          | nil =>
              exact iff_of_true ⟨fun _ => hfull, fun hlen => absurd hlen (by simp)⟩
                ⟨fun hne => absurd rfl hne, fun hlen => absurd hlen (by simp)⟩
          | cons c' rest =>
              exact ⟨fun hf => ⟨fun _ => hf.2 (by simp), fun _ => hf.2 (by simp)⟩,
                fun hf => ⟨fun _ => hfull, fun _ => hf.1 (by simp)⟩⟩
        rw [CountsExactly, StaysInLong, hfits, and_assoc, ← hrest]
        constructor
        · rintro ⟨σ'', hact', -, hexacts⟩
          obtain rfl := Except.ok.inj (hact'.symm.trans hact)
          rw [exactNext, if_pos hin] at hexacts
          exact ⟨hin, hexacts⟩
        · rintro ⟨-, hexacts⟩
          refine ⟨σ', hact, hexact.mpr hin, ?_⟩
          rwa [exactNext, if_pos hin]
      · refine iff_of_false ?_ fun hcond => hin hcond.1.1
        rintro ⟨σ'', hact', hstep, -⟩
        obtain rfl := Except.ok.inj (hact'.symm.trans hact)
        exact hin (hexact.mp hstep)

-- INCR and DECR are exact as long as the number stays one of 64 bits, and the table
-- is not at its limit.
theorem countsExactly_iff {σ : System ι} (h : σ.Reachable) (hstop : σ.stop = false) {d : Nat}
    {key : Bytes} {n : Int} (hn : (σ.keyspace d).Counter key n) (calls : List (CounterCall ι))
    (hcalls : ∀ c ∈ calls, c.On key ∧ (σ.clients c.client).dict = d) :
    CountsExactly d key n σ calls ↔
      StaysInLong n calls ∧ CountersFit (σ.keyspace d) key calls :=
  countsExactly_of_sound h.sound hstop hn calls hcalls

def incrCall : CounterCall Unit where
  client := ()
  cmd := ⟨"incr", .IncrCommand, 2, .CUTIS_CMD_INLINE⟩
  argv := [sdsnew "incr", sdsnew "key"]
  os := plainOs

theorem incrCall_on : incrCall.On (sdsnew "key") where
  call :=
    { mem := by decide
      accepts := by decide
      words := by decide
      payload := nofun }
  proc := Or.inl rfl
  key := rfl

def decrCall : CounterCall Unit where
  client := ()
  cmd := ⟨"decr", .DecrCommand, 2, .CUTIS_CMD_INLINE⟩
  argv := [sdsnew "decr", sdsnew "key"]
  os := plainOs

theorem decrCall_on : decrCall.On (sdsnew "key") where
  call :=
    { mem := by decide
      accepts := by decide
      words := by decide
      payload := nofun }
  proc := Or.inr rfl
  key := rfl

def setCounterArgv (n : Int) : List Bytes := [sdsnew "set", sdsnew "key", printInt n]

theorem callOk_setCounter {n : Int} (hn : InLong n) : CallOk setCommandEntry (setCounterArgv n) where
  mem := by decide
  accepts := by
    show setCommandEntry.accepts 3 = true
    decide
  words := by
    show ∀ w ∈ [sdsnew "set", sdsnew "key"], ShortWord w
    decide
  payload _ last hlast := by
    obtain rfl : last = printInt n := by simpa [setCounterArgv, eq_comm] using hlast
    obtain ⟨hlo, hhi⟩ := hn
    simp only [LLONG_MIN, LLONG_MAX] at hlo hhi
    have habs : (Decimal.print n.natAbs).length ≤ 19 + 1 := Decimal.print_length_le (by omega)
    have hnat : (Decimal.print n.toNat).length ≤ 19 + 1 := Decimal.print_length_le (by omega)
    rw [printInt]
    split_ifs
    · rw [List.length_cons]
      omega
    · omega

-- Any number can be in a key.
theorem exists_counter {n : Int} (hn : InLong n) :
    ∃ σ : System Unit, σ.Reachable ∧ σ.stop = false ∧ (σ.clients ()).dict = 0 ∧
      σ.keyspace 0 = (∅ : Keyspace).insert (sdsnew "key") (.string (printInt n)) := by
  have hstart : (init Unit 1).Reachable := Runs.Reach.start (start_init Nat.one_pos)
  have hroom : ((init Unit 1).model ()).HasRoom (setCounterArgv n) .SetCommand := by
    rw [model_init]
    exact not_full_empty
  obtain ⟨σ, hreach, hstop, -, hanswers⟩ :=
    hstart.call (callOk_setCounter hn) rfl plainOs hroom (by decide) rfl
  obtain ⟨hdataset, hselected⟩ := Model.mk.inj hanswers.model
  refine ⟨σ, hreach, hstop, hselected, ?_⟩
  rw [keyspace, hdataset, model_init]
  rfl

-- A number on its way through zero, and back.
def countingRun : List (CounterCall Unit) :=
  [incrCall, incrCall, incrCall, decrCall, decrCall, decrCall, decrCall]

theorem countsExactly_countingRun :
    ∃ σ : System Unit, σ.Reachable ∧
      σ.keyspace 0 = (∅ : Keyspace).insert (sdsnew "key") (.string (sdsnew "-2")) ∧
      CountsExactly 0 (sdsnew "key") (-2) σ countingRun := by
  obtain ⟨σ, hreach, hstop, hdict, hks⟩ := exists_counter (n := -2) (by decide)
  have hkeys : (σ.keyspace 0).keys = {sdsnew "key"} := by
    rw [hks, FiniteMap.keys_insert]
    rfl
  have hcalls : ∀ c ∈ countingRun, c.On (sdsnew "key") ∧ (σ.clients c.client).dict = 0 := by
    intro c hc
    have hmem : c = incrCall ∨ c = decrCall := by
      simpa [countingRun, or_assoc] using hc
    rcases hmem with rfl | rfl
    · exact ⟨incrCall_on, hdict⟩
    · exact ⟨decrCall_on, hdict⟩
  have hcounter : (σ.keyspace 0).Counter (sdsnew "key") (-2) := by
    rw [hks]
    exact Keyspace.Counter.insert (by decide)
  refine ⟨σ, hreach, hks, (countsExactly_iff hreach hstop hcounter countingRun hcalls).mpr ⟨?_, ?_⟩⟩
  · exact ⟨by decide, by decide, by decide, by decide, by decide, by decide, by decide, trivial⟩
  · rw [CountersFit, hkeys, Finset.insert_eq_self.mpr (Finset.mem_singleton_self _),
      Finset.card_singleton]
    exact ⟨fun _ => by decide, fun _ => by decide⟩

theorem not_countsExactly_overflow :
    ∃ σ : System Unit, σ.Reachable ∧ (σ.keyspace 0).Counter (sdsnew "key") LLONG_MAX ∧
      ¬CountsExactly 0 (sdsnew "key") LLONG_MAX σ [incrCall] := by
  obtain ⟨σ, hreach, hstop, hdict, hks⟩ := exists_counter (n := LLONG_MAX) (by decide)
  have hn : (σ.keyspace 0).Counter (sdsnew "key") LLONG_MAX := by
    rw [hks]
    exact Keyspace.Counter.insert (by decide)
  refine ⟨σ, hreach, hn, fun hexact => ?_⟩
  have hcond := (countsExactly_of_sound hreach.sound hstop hn [incrCall] fun c hc => by
    rw [List.mem_singleton.mp hc]
    exact ⟨incrCall_on, hdict⟩).mp hexact
  exact absurd hcond.1.1 (by decide)

end System

end Cutis

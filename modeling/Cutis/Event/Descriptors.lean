import Cutis.Basic
import Cutis.Event
import Mathlib.Data.Finset.Card
import Mathlib.Data.Finset.Lattice.Basic
import Mathlib.Data.Fintype.Basic

namespace Cutis

def AE_EXCEPTION : Nat := 4
abbrev FD_SETSIZE : Nat := 1024

-- An fd_set has a bit for each descriptor below FD_SETSIZE.
abbrev FdSet := Finset (Fin FD_SETSIZE)

def InSet (fd : Int) : Prop := 0 ≤ fd ∧ fd.toNat < FD_SETSIZE

instance (fd : Int) : Decidable (InSet fd) := inferInstanceAs (Decidable (_ ∧ _))

-- The macros do not ask whether there is a bit for the descriptor. Where there is none they
-- read or write the memory behind the set.
def fdBit (fd : Int) : Except Fault (Fin FD_SETSIZE) :=
  if h : InSet fd then return ⟨fd.toNat, h.2⟩ else throw .outOfBounds

def FD_SET (fd : Int) (set : FdSet) : Except Fault FdSet := do
  return insert (← fdBit fd) set

def FD_ISSET (fd : Int) (set : FdSet) : Except Fault Bool := do
  return decide ((← fdBit fd) ∈ set)

def FD_CLR (fd : Int) (set : FdSet) : Except Fault FdSet := do
  return set.erase (← fdBit fd)

-- The three sets of AeProcessEvents.
structure FdSets where
  rfds : FdSet
  wfds : FdSet
  efds : FdSet

namespace FdSets

def zero : FdSets := ⟨∅, ∅, ∅⟩

-- One of the tests on the mask of an event, with its FD_SET.
def setBit (fe : AeFileEvent) (bit : Nat) (set : FdSet) : Except Fault FdSet :=
  if fe.mask &&& bit ≠ 0 then FD_SET fe.fd set else return set

def add (sets : FdSets) (fe : AeFileEvent) : Except Fault FdSets := do
  return {
    rfds := ← setBit fe AE_READABLE sets.rfds
    wfds := ← setBit fe AE_WRITABLE sets.wfds
    efds := ← setBit fe AE_EXCEPTION sets.efds }

-- The loop that checks the file events.
def fill (events : List AeFileEvent) : Except Fault FdSets := events.foldlM add zero

-- Of the bits it is given, select leaves those of the files that are ready.
def select (sets ready : FdSets) : FdSets where
  rfds := sets.rfds ∩ ready.rfds
  wfds := sets.wfds ∩ ready.wfds
  efds := sets.efds ∩ ready.efds

-- What select returns.
def count (sets : FdSets) : Nat := sets.rfds.card + sets.wfds.card + sets.efds.card

def issetBit (fe : AeFileEvent) (bit : Nat) (set : FdSet) : Except Fault Nat :=
  if fe.mask &&& bit ≠ 0 then do
    if ← FD_ISSET fe.fd set then return bit else return 0
  else return 0

-- The mask a handler gets. The test before it is whether it has one of its bits, so that it
-- is zero where no handler is called.
def firedMask (sets : FdSets) (fe : AeFileEvent) : Except Fault Nat := do
  return (← issetBit fe AE_READABLE sets.rfds) ||| (← issetBit fe AE_WRITABLE sets.wfds) |||
    (← issetBit fe AE_EXCEPTION sets.efds)

def clear (sets : FdSets) (fd : Int) : Except Fault FdSets := do
  return { rfds := ← FD_CLR fd sets.rfds, wfds := ← FD_CLR fd sets.wfds, efds := ← FD_CLR fd sets.efds }

end FdSets

section Bits

variable {fd : Int} {b : Fin FD_SETSIZE} {set : FdSet}

-- What the macros compute where there is a bit.
def FdSet.Has (set : FdSet) (fd : Int) : Prop := ∃ b ∈ set, ((b : Nat) : Int) = fd

instance : Decidable (FdSet.Has set fd) := inferInstanceAs (Decidable (∃ b ∈ set, _))

def FdSet.only (set : FdSet) (fd : Int) : FdSet :=
  set.filter fun b : Fin FD_SETSIZE => ((b : Nat) : Int) = fd

def FdSet.without (set : FdSet) (fd : Int) : FdSet :=
  set.filter fun b : Fin FD_SETSIZE => ((b : Nat) : Int) ≠ fd

theorem fdBit_ok (h : InSet fd) : ∃ b, fdBit fd = .ok b ∧ ((b : Nat) : Int) = fd :=
  ⟨⟨fd.toNat, h.2⟩, dif_pos h, Int.toNat_of_nonneg h.1⟩

theorem fdBit_error (h : ¬InSet fd) : fdBit fd = .error .outOfBounds := dif_neg h

theorem FdSet.has_iff (h : ((b : Nat) : Int) = fd) : FdSet.Has set fd ↔ b ∈ set := by
  constructor
  · rintro ⟨b', hb', heq⟩
    obtain rfl : b' = b := Fin.ext (by omega)
    exact hb'
  · exact fun hb => ⟨b, hb, h⟩

theorem has_without {other : Int} : (set.without other).Has fd ↔ set.Has fd ∧ fd ≠ other := by
  constructor
  · rintro ⟨b, hb, rfl⟩
    obtain ⟨hmem, hne⟩ := Finset.mem_filter.mp hb
    exact ⟨⟨b, hmem, rfl⟩, hne⟩
  · rintro ⟨⟨b, hb, rfl⟩, hne⟩
    exact ⟨b, Finset.mem_filter.mpr ⟨hb, hne⟩, rfl⟩

theorem has_only {other : Int} : (set.only other).Has fd ↔ set.Has fd ∧ fd = other := by
  constructor
  · rintro ⟨b, hb, rfl⟩
    obtain ⟨hmem, heq⟩ := Finset.mem_filter.mp hb
    exact ⟨⟨b, hmem, rfl⟩, heq⟩
  · rintro ⟨⟨b, hb, rfl⟩, heq⟩
    exact ⟨b, Finset.mem_filter.mpr ⟨hb, heq⟩, rfl⟩

theorem has_inter {other : FdSet} : FdSet.Has (set ∩ other) fd ↔ set.Has fd ∧ other.Has fd := by
  constructor
  · rintro ⟨b, hb, heq⟩
    obtain ⟨hset, hother⟩ := Finset.mem_inter.mp hb
    exact ⟨⟨b, hset, heq⟩, ⟨b, hother, heq⟩⟩
  · rintro ⟨⟨b, hb, heq⟩, hother⟩
    exact ⟨b, Finset.mem_inter.mpr ⟨hb, (FdSet.has_iff heq).mp hother⟩, heq⟩

theorem erase_eq_without (h : ((b : Nat) : Int) = fd) : set.erase b = set.without fd := by
  ext b'
  rw [Finset.mem_erase, FdSet.without, Finset.mem_filter, and_comm]
  exact and_congr_right fun _ => not_congr ⟨fun heq => heq ▸ h, fun heq => Fin.ext (by omega)⟩

theorem card_without_le : (set.without fd).card ≤ set.card := Finset.card_filter_le _ _

theorem card_without_lt (h : set.Has fd) : (set.without fd).card < set.card := by
  obtain ⟨b, hb, heq⟩ := h
  exact Finset.card_lt_card (Finset.filter_ssubset.mpr ⟨b, hb, not_not_intro heq⟩)

theorem FdSet.Has.inSet (h : FdSet.Has set fd) : InSet fd := by
  obtain ⟨b, -, rfl⟩ := h
  exact ⟨Int.natCast_nonneg _, by simp⟩

end Bits

namespace FdSets

variable {sets ready : FdSets} {fe : AeFileEvent} {fd : Int}

-- The event takes part in the call of select.
def Asks (fe : AeFileEvent) : Prop :=
  fe.mask &&& AE_READABLE ≠ 0 ∨ fe.mask &&& AE_WRITABLE ≠ 0 ∨ fe.mask &&& AE_EXCEPTION ≠ 0

instance : Decidable (Asks fe) := inferInstanceAs (Decidable (_ ∨ _))

def Fits (fe : AeFileEvent) : Prop := Asks fe → InSet fe.fd

instance : Decidable (Fits fe) := inferInstanceAs (Decidable (_ → _))

def hasBit (fe : AeFileEvent) (bit : Nat) (set : FdSet) : Nat :=
  if fe.mask &&& bit ≠ 0 ∧ set.Has fe.fd then bit else 0

-- What an event is ready for.
def mask (sets : FdSets) (fe : AeFileEvent) : Nat :=
  hasBit fe AE_READABLE sets.rfds ||| hasBit fe AE_WRITABLE sets.wfds |||
    hasBit fe AE_EXCEPTION sets.efds

def only (sets : FdSets) (fd : Int) : FdSets where
  rfds := sets.rfds.only fd
  wfds := sets.wfds.only fd
  efds := sets.efds.only fd

def without (sets : FdSets) (fd : Int) : FdSets where
  rfds := sets.rfds.without fd
  wfds := sets.wfds.without fd
  efds := sets.efds.without fd

theorem mask_eq_zero_iff : sets.mask fe = 0 ↔
    ¬(fe.mask &&& AE_READABLE ≠ 0 ∧ sets.rfds.Has fe.fd) ∧
      ¬(fe.mask &&& AE_WRITABLE ≠ 0 ∧ sets.wfds.Has fe.fd) ∧
      ¬(fe.mask &&& AE_EXCEPTION ≠ 0 ∧ sets.efds.Has fe.fd) := by
  have hzero (bit : Nat) (hbit : bit ≠ 0) (set : FdSet) :
      hasBit fe bit set = 0 ↔ ¬(fe.mask &&& bit ≠ 0 ∧ set.Has fe.fd) := by
    rw [hasBit]
    split_ifs with h
    · exact iff_of_false hbit (not_not_intro h)
    · exact iff_of_true rfl h
  rw [mask, Nat.or_eq_zero_iff, Nat.or_eq_zero_iff, hzero _ (by decide), hzero _ (by decide),
    hzero _ (by decide), and_assoc]

theorem inSet_of_mask (h : sets.mask fe ≠ 0) : InSet fe.fd := by
  by_contra hout
  exact h (mask_eq_zero_iff.mpr ⟨fun hr => hout hr.2.inSet, fun hw => hout hw.2.inSet,
    fun he => hout he.2.inSet⟩)

section Macros

theorem issetBit_ok (h : Fits fe) {bit : Nat} (hbit : fe.mask &&& bit ≠ 0 → Asks fe) (set : FdSet) :
    issetBit fe bit set = .ok (hasBit fe bit set) := by
  rw [issetBit, hasBit]
  by_cases hasks : fe.mask &&& bit ≠ 0
  · obtain ⟨b, hb, heq⟩ := fdBit_ok (h (hbit hasks))
    rw [if_pos hasks, FD_ISSET, hb]
    by_cases hmem : b ∈ set
    · rw [if_pos ⟨hasks, (FdSet.has_iff heq).mpr hmem⟩]
      simp [hmem, bind, Except.bind, pure, Except.pure]
    · rw [if_neg fun hhas => hmem ((FdSet.has_iff heq).mp hhas.2)]
      simp [hmem, bind, Except.bind, pure, Except.pure]
  · rw [if_neg hasks, if_neg fun hhas => hasks hhas.1]
    rfl

theorem firedMask_ok (h : Fits fe) (sets : FdSets) : sets.firedMask fe = .ok (sets.mask fe) := by
  rw [firedMask, issetBit_ok h Or.inl, issetBit_ok h fun hw => Or.inr (Or.inl hw),
    issetBit_ok h fun he => Or.inr (Or.inr he)]
  rfl

theorem firedMask_error (h : ¬Fits fe) (sets : FdSets) :
    sets.firedMask fe = .error .outOfBounds := by
  obtain ⟨hasks, hout⟩ := Classical.not_imp.mp h
  have hbit (bit : Nat) (set : FdSet) : issetBit fe bit set =
      if fe.mask &&& bit ≠ 0 then .error .outOfBounds else .ok 0 := by
    rw [issetBit]
    split_ifs
    · rw [FD_ISSET, fdBit_error hout]
      rfl
    · rfl
  simp only [firedMask, hbit]
  by_cases hr : fe.mask &&& AE_READABLE ≠ 0
  · rw [if_pos hr]
    rfl
  · by_cases hw : fe.mask &&& AE_WRITABLE ≠ 0
    · rw [if_neg hr, if_pos hw]
      rfl
    · rw [if_neg hr, if_neg hw, if_pos ((hasks.resolve_left hr).resolve_left hw)]
      rfl

theorem fits_of_firedMask {m : Nat} (h : sets.firedMask fe = .ok m) : Fits fe := by
  by_contra hfits
  rw [firedMask_error hfits] at h
  cases h

theorem mask_of_firedMask {m : Nat} (h : sets.firedMask fe = .ok m) : m = sets.mask fe := by
  exact (Except.ok.inj ((firedMask_ok (fits_of_firedMask h) sets).symm.trans h)).symm

theorem clear_ok (h : InSet fd) (sets : FdSets) : sets.clear fd = .ok (sets.without fd) := by
  obtain ⟨b, hb, heq⟩ := fdBit_ok h
  simp only [clear, FD_CLR, hb, without, ← erase_eq_without heq]
  rfl

end Macros

section Without

theorem mask_without (fd : Int) :
    (sets.without fd).mask fe = if fe.fd = fd then 0 else sets.mask fe := by
  split_ifs with heq
  · simp only [mask, without, hasBit, has_without, heq, ne_eq, not_true, and_false, if_false]
    rfl
  · simp only [mask, without, hasBit, has_without, heq, ne_eq, not_false_eq_true, and_true]

theorem count_without (h : sets.mask fe ≠ 0) : (sets.without fe.fd).count < sets.count := by
  have hr : (sets.rfds.without fe.fd).card ≤ sets.rfds.card := card_without_le
  have hw : (sets.wfds.without fe.fd).card ≤ sets.wfds.card := card_without_le
  have he : (sets.efds.without fe.fd).card ≤ sets.efds.card := card_without_le
  simp only [count, without]
  by_cases hasr : sets.rfds.Has fe.fd
  · have := card_without_lt hasr
    omega
  by_cases hasw : sets.wfds.Has fe.fd
  · have := card_without_lt hasw
    omega
  by_cases hase : sets.efds.Has fe.fd
  · have := card_without_lt hase
    omega
  · exact absurd (mask_eq_zero_iff.mpr
      ⟨fun h => hasr h.2, fun h => hasw h.2, fun h => hase h.2⟩) h

theorem mask_of_count (h : sets.count = 0) (fe : AeFileEvent) : sets.mask fe = 0 := by
  by_contra hmask
  exact absurd (count_without hmask) (by simp [h])

end Without

section Fill

variable {events : List AeFileEvent}

-- The bits that an event asks for are in the sets.
structure Covers (sets : FdSets) (fe : AeFileEvent) : Prop where
  rfds : fe.mask &&& AE_READABLE ≠ 0 → sets.rfds.Has fe.fd
  wfds : fe.mask &&& AE_WRITABLE ≠ 0 → sets.wfds.Has fe.fd
  efds : fe.mask &&& AE_EXCEPTION ≠ 0 → sets.efds.Has fe.fd

theorem setBit_ok (h : Fits fe) {bit : Nat} (hbit : fe.mask &&& bit ≠ 0 → Asks fe) (set : FdSet) :
    ∃ set', setBit fe bit set = .ok set' ∧ (fe.mask &&& bit ≠ 0 → set'.Has fe.fd) ∧
      ∀ fd, set.Has fd → set'.Has fd := by
  rw [setBit]
  split_ifs with hasks
  · obtain ⟨b, hb, heq⟩ := fdBit_ok (h (hbit hasks))
    refine ⟨insert b set, by rw [FD_SET, hb]; rfl, fun _ => ⟨b, Finset.mem_insert_self _ _, heq⟩, ?_⟩
    rintro fd ⟨b', hb', rfl⟩
    exact ⟨b', Finset.mem_insert_of_mem hb', rfl⟩
  · exact ⟨set, rfl, fun h => absurd h hasks, fun _ h => h⟩

theorem add_ok (h : Fits fe) (sets : FdSets) :
    ∃ sets', sets.add fe = .ok sets' ∧ sets'.Covers fe ∧
      ∀ fe', sets.Covers fe' → sets'.Covers fe' := by
  obtain ⟨rfds, hr, hasr, hkeepr⟩ := setBit_ok h Or.inl sets.rfds
  obtain ⟨wfds, hw, hasw, hkeepw⟩ := setBit_ok h (fun hw => Or.inr (Or.inl hw)) sets.wfds
  obtain ⟨efds, he, hase, hkeepe⟩ := setBit_ok h (fun he => Or.inr (Or.inr he)) sets.efds
  refine ⟨⟨rfds, wfds, efds⟩, by rw [add, hr, hw, he]; rfl, ⟨hasr, hasw, hase⟩, fun fe' hc => ?_⟩
  exact ⟨fun h => hkeepr _ (hc.rfds h), fun h => hkeepw _ (hc.wfds h), fun h => hkeepe _ (hc.efds h)⟩

theorem add_error (h : ¬Fits fe) (sets : FdSets) : sets.add fe = .error .outOfBounds := by
  obtain ⟨hasks, hout⟩ := Classical.not_imp.mp h
  have hbit (bit : Nat) (set : FdSet) : setBit fe bit set =
      if fe.mask &&& bit ≠ 0 then .error .outOfBounds else .ok set := by
    rw [setBit, FD_SET, fdBit_error hout]
    rfl
  simp only [add, hbit]
  by_cases hr : fe.mask &&& AE_READABLE ≠ 0
  · rw [if_pos hr]
    rfl
  · by_cases hw : fe.mask &&& AE_WRITABLE ≠ 0
    · rw [if_neg hr, if_pos hw]
      rfl
    · rw [if_neg hr, if_neg hw, if_pos ((hasks.resolve_left hr).resolve_left hw)]
      rfl

theorem foldlM_add_ok (h : ∀ fe ∈ events, Fits fe) (sets : FdSets) :
    ∃ sets', events.foldlM add sets = .ok sets' ∧ (∀ fe ∈ events, sets'.Covers fe) ∧
      ∀ fe, sets.Covers fe → sets'.Covers fe := by
  induction events generalizing sets with
  | nil => exact ⟨sets, rfl, by simp, fun _ hc => hc⟩
  | cons fe rest ih =>
      obtain ⟨sets₁, hadd, hfe, hkeep⟩ := add_ok (h fe List.mem_cons_self) sets
      obtain ⟨sets₂, hrest, hall, hkeep'⟩ :=
        ih (fun fe' hfe' => h fe' (List.mem_cons_of_mem _ hfe')) sets₁
      refine ⟨sets₂, by rw [List.foldlM_cons, hadd]; exact hrest, fun fe' hfe' => ?_,
        fun fe' hc => hkeep' fe' (hkeep fe' hc)⟩
      rcases List.mem_cons.mp hfe' with rfl | hfe'
      · exact hkeep' _ hfe
      · exact hall fe' hfe'

theorem fill_ok (h : ∀ fe ∈ events, Fits fe) :
    ∃ sets, fill events = .ok sets ∧ ∀ fe ∈ events, sets.Covers fe := by
  obtain ⟨sets, hfill, hcovers, -⟩ := foldlM_add_ok h zero
  exact ⟨sets, hfill, hcovers⟩

theorem fill_error (h : ¬∀ fe ∈ events, Fits fe) : fill events = .error .outOfBounds := by
  rw [fill]
  generalize zero = sets
  induction events generalizing sets with
  | nil => exact absurd (by simp) h
  | cons fe rest ih =>
      rw [List.foldlM_cons]
      by_cases hfe : Fits fe
      · obtain ⟨sets₁, hadd, -⟩ := add_ok hfe sets
        rw [hadd]
        refine ih (fun hrest => h fun fe' hfe' => ?_) sets₁
        rcases List.mem_cons.mp hfe' with rfl | hfe'
        · exact hfe
        · exact hrest fe' hfe'
      · rw [add_error hfe]
        rfl

-- Of one file alone select reports what it is ready for, and nothing of the others.
theorem mask_select_only (h : sets.Covers fe) (ready : FdSets) :
    (sets.select (ready.only fe.fd)).mask fe = ready.mask fe := by
  have hbit {bit : Nat} {set other : FdSet} (hasks : fe.mask &&& bit ≠ 0 → set.Has fe.fd) :
      hasBit fe bit (set ∩ other.only fe.fd) = hasBit fe bit other := by
    refine if_congr (and_congr_right fun hbit => ?_) rfl rfl
    rw [has_inter, has_only]
    exact ⟨fun h => h.2.1, fun h => ⟨hasks hbit, h, rfl⟩⟩
  rw [mask, select, only, hbit h.rfds, hbit h.wfds, hbit h.efds, mask]

theorem mask_select_only_eq_zero (h : ready.mask fe = 0) (sets : FdSets) (fd : Int) :
    (sets.select (ready.only fd)).mask fe = 0 := by
  obtain ⟨hr, hw, he⟩ := mask_eq_zero_iff.mp h
  refine mask_eq_zero_iff.mpr ⟨fun h => hr ⟨h.1, ?_⟩, fun h => hw ⟨h.1, ?_⟩, fun h => he ⟨h.1, ?_⟩⟩
  all_goals exact (has_only.mp (has_inter.mp h.2).2).1

theorem mask_select_only_without (sets ready : FdSets) (fd : Int) (fe : AeFileEvent) :
    ((sets.select (ready.only fd)).without fd).mask fe = 0 := by
  rw [mask_without]
  split_ifs with heq
  · rfl
  · refine mask_eq_zero_iff.mpr ⟨fun h => heq ?_, fun h => heq ?_, fun h => heq ?_⟩
    all_goals exact (has_only.mp (has_inter.mp h.2).2).2

end Fill

end FdSets

end Cutis

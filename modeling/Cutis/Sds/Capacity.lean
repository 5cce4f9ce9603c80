import Cutis.Lib.Runs
import Cutis.Sds.Buffer
import Mathlib.Data.List.Basic
import Mathlib.Data.List.DropRight
import Mathlib.Data.List.Induction

namespace Cutis

namespace SdsHdr

-- The header says what the buffer holds: the text, its terminator and the room behind it.
structure WellFormed (s : SdsHdr) : Prop where
  len : 0 ≤ s.len
  free : 0 ≤ s.free
  size : s.len + s.free + 1 = s.buf.length
  terminated : s.buf[s.len.toNat]? = some NUL

-- A string with this text and these bytes behind the terminator.
def layout (text spare : Bytes) : SdsHdr where
  len := text.length
  free := spare.length
  buf := text ++ NUL :: spare

section Numbers

theorem sizeT_natCast {n : Nat} (h : n < 2 ^ 63) : sizeT n = n := by
  rw [sizeT]
  omega

theorem toInt64_natCast {n : Nat} (h : n < 2 ^ 63) : toInt64 n = n := by
  apply Int.bmod_eq_of_le <;> omega

end Numbers

section Layout

variable {text spare : Bytes}

@[simp] theorem layout_buf_length :
    (layout text spare).buf.length = text.length + spare.length + 1 := by
  simp only [layout, List.length_append, List.length_cons]
  omega

theorem layout_eq {a b : Nat} (htext : text.length = a) (hspare : spare.length = b) :
    layout text spare = { len := a, free := b, buf := text ++ NUL :: spare } := by
  rw [layout, htext, hspare]

theorem layout_wellFormed : (layout text spare).WellFormed where
  len := by simp [layout]
  free := by simp [layout]
  size := by
    rw [layout_buf_length]
    simp [layout]
  terminated := by simp [layout]

theorem layout_sdslen (h : text.length < 2 ^ 63) : (layout text spare).sdslen = text.length :=
  sizeT_natCast h

theorem layout_sdsavail (h : spare.length < 2 ^ 63) :
    (layout text spare).sdsavail = spare.length := sizeT_natCast h

theorem write_eq {s : SdsHdr} {off : Nat} {bytes : Bytes} (h : off + bytes.length ≤ s.buf.length) :
    s.write off bytes =
      .ok { s with buf := s.buf.take off ++ (bytes ++ s.buf.drop (off + bytes.length)) } := by
  rw [write, if_pos h]
  rfl

theorem write_fault {s : SdsHdr} {off : Nat} {bytes : Bytes}
    (h : s.buf.length < off + bytes.length) : s.write off bytes = .error .outOfBounds := by
  rw [write, if_neg (by omega)]
  rfl

theorem write_end {len free : Int} (x z : Bytes) (y : UInt8) :
    write { len, free, buf := x ++ y :: z } x.length [NUL] =
      .ok { len, free, buf := x ++ NUL :: z } := by
  rw [write_eq (by simp)]
  simp

-- A text and its terminator written to the start of a buffer.
theorem write_text {s : SdsHdr} {t : Bytes} (h : t.length < s.buf.length) :
    (do
      let s ← s.write 0 t
      s.write t.length [NUL]) =
      .ok { s with buf := t ++ NUL :: s.buf.drop (t.length + 1) } := by
  have hrest := List.drop_eq_getElem_cons h
  rw [write_eq (by omega), ok_bind, List.take_zero, List.nil_append, Nat.zero_add, hrest]
  exact write_end t _ _

theorem exists_drop_cons {n : Nat} (h : n ≤ spare.length) (c : UInt8) :
    ∃ y, (c :: spare).drop n = y :: spare.drop n := by
  have hlt : n < (c :: spare).length := Nat.lt_succ_of_le h
  exact ⟨_, List.drop_eq_getElem_cons hlt⟩

-- The sizes that fit: a text below 2^31 bytes, with a buffer that grew for such texts.
structure Fits (text spare : Bytes) : Prop where
  short : text.length < 2 ^ 31
  total : text.length + spare.length < 2 ^ 32

end Layout

section Growing

theorem printText_eq {t : Bytes} (ht : t.length < 2 ^ 31) : printText t 2 32 = .ok t := by
  have hint := toInt32_natCast t.length ht
  have hlen : sizeT t.length = t.length := sizeT_natCast (by omega)
  have hnext : sizeT (t.length + 1 : Int) = t.length + 1 :=
    sizeT_natCast (n := t.length + 1) (by omega)
  rw [printText, hint, hlen]
  split_ifs with hlong
  · rw [hnext, printText, hint, hlen, if_neg (by omega), Nat.add_sub_cancel, List.take_length]
    rfl
  · rw [List.take_of_length_le (by omega)]
    rfl

variable {text spare : Bytes} (h : Fits text spare)

include h

theorem sdsMakeRoomFor_spec (addlen : Nat) (hadd : text.length + addlen < 2 ^ 31)
    (junk : Nat → UInt8) :
    ∃ room, (layout text spare).sdsMakeRoomFor addlen junk = layout text room ∧
      Fits text room ∧ addlen ≤ room.length ∧
      (spare.length < addlen → text.length + room.length = (text.length + addlen) * 2) := by
  have htext := h.short
  have htotal := h.total
  rw [sdsMakeRoomFor, layout_sdslen (by omega), layout_sdsavail (by omega)]
  split_ifs with hfree
  · exact ⟨spare, rfl, h, hfree, fun hless => absurd hless (by omega)⟩
  · have hnewlen : (text.length + addlen) * 2 % 2 ^ 64 = (text.length + addlen) * 2 :=
      Nat.mod_eq_of_lt (by omega)
    dsimp only
    rw [hnewlen]
    refine ⟨spare ++ (List.range ((text.length + addlen) * 2 + 1 -
      (layout text spare).buf.length)).map junk, ?_, ⟨htext, ?_⟩, ?_, fun _ => ?_⟩
    · have hfree : ((text.length + addlen) * 2 : Nat) - (text.length : Int) =
          ((text.length + addlen) * 2 - text.length : Nat) := by omega
      have hkeep : (layout text spare).buf.take ((text.length + addlen) * 2 + 1) =
          (layout text spare).buf := List.take_of_length_le (by rw [layout_buf_length]; omega)
      rw [hfree, toInt64_natCast (by omega), zrealloc, hkeep]
      simp only [layout, List.append_assoc, List.cons_append, List.length_append, List.length_map,
        List.length_range, List.length_cons, SdsHdr.mk.injEq, true_and, and_true]
      omega
    · rw [List.length_append, List.length_map, List.length_range, layout_buf_length]
      omega
    · rw [List.length_append, List.length_map, List.length_range, layout_buf_length]
      omega
    · rw [List.length_append, List.length_map, List.length_range, layout_buf_length]
      omega

theorem sdscatlen_spec {t : Bytes} (ht : text.length + t.length < 2 ^ 31) (junk : Nat → UInt8) :
    ∃ room, (layout text spare).sdscatlen t junk = .ok (layout (text ++ t) room) ∧
      Fits (text ++ t) room := by
  obtain ⟨room, hroom, hfits, hle, -⟩ := sdsMakeRoomFor_spec h t.length ht junk
  have htotal := hfits.total
  obtain ⟨y, hy⟩ := exists_drop_cons hle NUL
  refine ⟨room.drop t.length, ?_, ⟨?_, ?_⟩⟩
  · have hwrite : (layout text room).write text.length t =
        .ok { layout text room with buf := (text ++ t) ++ y :: room.drop t.length } := by
      rw [write_eq (by rw [layout_buf_length]; omega)]
      simp only [layout, List.take_left, List.append_assoc, List.drop_length_add_append, hy]
    have hlen : toInt64 ((text.length : Int) + t.length) = (text ++ t).length := by
      rw [← Int.natCast_add, toInt64_natCast (by omega), List.length_append]
    have hfree : toInt64 ((room.length : Int) - t.length) = (room.drop t.length).length := by
      rw [← Int.natCast_sub hle, toInt64_natCast (by omega), List.length_drop]
    have hslen : sizeT (text ++ t).length = (text ++ t).length :=
      sizeT_natCast (by rw [List.length_append]; omega)
    rw [sdscatlen, layout_sdslen (by omega)]
    dsimp only
    rw [hroom, hwrite, ok_bind]
    simp only [layout, hlen, hfree, sdslen, hslen]
    exact write_end (text ++ t) _ _
  · rw [List.length_append]
    omega
  · rw [List.length_append, List.length_drop]
    omega

-- What sdscpylen copies into.
theorem copied {t : Bytes} (ht : t.length ≤ text.length + spare.length) :
    (do
      let s ← (layout text spare).write 0 t
      let s ← s.write t.length [NUL]
      return { s with
        len := toInt64 t.length
        free := toInt64 ((text.length + spare.length : Nat) - (t.length : Int)) }) =
      .ok (layout t ((layout text spare).buf.drop (t.length + 1))) ∧
    (t.length < 2 ^ 31 → Fits t ((layout text spare).buf.drop (t.length + 1))) := by
  have htotal := h.total
  have hlt : t.length < (layout text spare).buf.length := by
    rw [layout_buf_length]
    omega
  have hfree : toInt64 ((text.length + spare.length : Nat) - (t.length : Int)) =
      ((layout text spare).buf.drop (t.length + 1)).length := by
    rw [← Int.natCast_sub ht, toInt64_natCast (by omega), List.length_drop, layout_buf_length]
    omega
  refine ⟨?_, fun hshort => ⟨hshort, ?_⟩⟩
  · rw [hfree, toInt64_natCast (by omega), ← bind_assoc, write_text hlt]
    rfl
  · rw [List.length_drop, layout_buf_length]
    omega

theorem layout_total :
    sizeT ((layout text spare).free + (layout text spare).len) = text.length + spare.length := by
  have htotal := h.total
  have hsum : (layout text spare).free + (layout text spare).len =
      (text.length + spare.length : Nat) := by
    simp only [layout]
    omega
  rw [hsum, sizeT_natCast (by omega)]

theorem sdscpylen_spec {t : Bytes} (ht : t.length < 2 ^ 31)
    (hroom : t.length ≤ text.length + spare.length ∨
      text.length + 2 * spare.length < t.length) (junk : Nat → UInt8) :
    ∃ room, (layout text spare).sdscpylen t junk = .ok (layout t room) ∧ Fits t room := by
  rw [sdscpylen, layout_total h]
  by_cases hle : t.length ≤ text.length + spare.length
  · rw [if_neg (by omega), layout_total h]
    obtain ⟨hcopy, hfits⟩ := copied h hle
    exact ⟨_, hcopy, hfits ht⟩
  · have hmore : text.length + 2 * spare.length < t.length := hroom.resolve_left hle
    obtain ⟨room, hmake, hfits, -, hgrown⟩ := sdsMakeRoomFor_spec h
      (t.length - (text.length + spare.length)) (by omega) junk
    have hsize := hgrown (by omega)
    rw [if_pos (by omega), hmake, layout_total hfits]
    obtain ⟨hcopy, hfits'⟩ := copied hfits (t := t) (by omega)
    exact ⟨_, hcopy, hfits' ht⟩

-- The room that is already there is counted twice: the buffer does not grow.
theorem sdscpylen_fault {t : Bytes} (hmore : text.length + spare.length < t.length)
    (hless : t.length ≤ text.length + 2 * spare.length) (junk : Nat → UInt8) :
    (layout text spare).sdscpylen t junk = .error .outOfBounds := by
  have htotal := h.total
  have hmake : (layout text spare).sdsMakeRoomFor (t.length - (text.length + spare.length)) junk =
      layout text spare := by
    rw [sdsMakeRoomFor, layout_sdsavail (by omega), if_pos (by omega)]
  rw [sdscpylen, layout_total h]
  rw [if_pos hmore, hmake, layout_total h]
  by_cases hlast : t.length = text.length + spare.length + 1
  · rw [write_eq (by rw [layout_buf_length]; omega), ok_bind, write_fault]
    · rfl
    · simp
      omega
  · rw [write_fault (by rw [layout_buf_length]; omega)]
    rfl

theorem sdscatprintf_spec {t : Bytes} (ht : text.length + t.length < 2 ^ 31)
    (junk : Nat → UInt8) :
    ∃ room, (layout text spare).sdscatprintf t junk = .ok (layout (text ++ cstr t) room) ∧
      Fits (text ++ cstr t) room := by
  have hle : (cstr t).length ≤ t.length := (List.takeWhile_prefix _).length_le
  rw [sdscatprintf, printText_eq (by omega), ok_bind]
  exact sdscatlen_spec h (by omega) junk

end Growing

section Trimming

-- The loops of sdstrim.
theorem skipLeft_eq (cset : Bytes) {before rest tail : Bytes} (s : SdsHdr)
    (hs : s.buf = before ++ (rest ++ tail)) :
    s.skipLeft cset rest.length before.length =
      .ok (before.length + (rest.takeWhile (inSet cset)).length) := by
  induction rest generalizing before with
  | nil => rfl
  | cons c rest ih =>
      have hread : s.readByte before.length = .ok c := by
        rw [readByte, hs]
        simp
        rfl
      rw [List.length_cons, skipLeft, hread, ok_bind, List.takeWhile_cons]
      split_ifs with hc
      · have hnext := @ih (before ++ [c]) (by rw [hs]; simp)
        rw [List.length_append, List.length_singleton] at hnext
        rw [hnext, List.length_cons]
        congr 1
        omega
      · rfl

theorem skipRight_eq (cset : Bytes) {rest tail : Bytes} (s : SdsHdr) (hs : s.buf = rest ++ tail) :
    s.skipRight cset rest.length = .ok (rest.rdropWhile (inSet cset)).length := by
  induction rest using List.reverseRecOn generalizing tail with
  | nil => rfl
  | append_singleton rest c ih =>
      have hread : s.readByte rest.length = .ok c := by
        rw [readByte, hs]
        simp
        rfl
      rw [List.length_append, List.length_singleton, skipRight, hread, ok_bind,
        List.rdropWhile_concat]
      split_ifs with hc
      · exact ih (by rw [hs, List.append_assoc])
      · rw [List.length_append, List.length_singleton]
        rfl

theorem rdropWhile_append (p : UInt8 → Bool) (first : Bytes) {rest : Bytes}
    (h : rest.rdropWhile p ≠ []) :
    (first ++ rest).rdropWhile p = first ++ rest.rdropWhile p := by
  induction rest using List.reverseRecOn with
  | nil => exact absurd (List.rdropWhile_nil p) h
  | append_singleton rest c ih =>
      rw [List.rdropWhile_concat] at h ⊢
      rw [← List.append_assoc, List.rdropWhile_concat]
      split_ifs with hc
      · rw [if_pos hc] at h
        exact ih h
      · rw [List.append_assoc]

-- What sdstrim leaves is a part of the text.
theorem trim_part (p : UInt8 → Bool) (text : Bytes) :
    (text.drop (text.takeWhile p).length).take
        ((text.rdropWhile p).length - (text.takeWhile p).length) =
      (text.dropWhile p).rdropWhile p := by
  have hsplit : text.takeWhile p ++ text.dropWhile p = text := List.takeWhile_append_dropWhile
  have hdrop : text.drop (text.takeWhile p).length = text.dropWhile p := by
    nth_rewrite 2 [← hsplit]
    exact List.drop_left
  rw [hdrop]
  by_cases hall : (text.dropWhile p).rdropWhile p = []
  · have hnone : text.rdropWhile p = [] := by
      rw [List.rdropWhile_eq_nil_iff] at hall ⊢
      intro c hc
      rw [← hsplit, List.mem_append] at hc
      rcases hc with hc | hc
      · exact List.mem_takeWhile_imp hc
      · exact hall c hc
    rw [hall, hnone, List.length_nil, Nat.zero_sub, List.take_zero]
  · have hlen : (text.rdropWhile p).length =
        (text.takeWhile p).length + ((text.dropWhile p).rdropWhile p).length := by
      rw [← List.length_append, ← rdropWhile_append p _ hall, hsplit]
    rw [hlen, Nat.add_sub_cancel_left]
    exact (List.prefix_iff_eq_take.mp (List.rdropWhile_prefix p _)).symm

end Trimming

section Terminator

theorem idxOf_terminator (text spare : Bytes) :
    (text ++ NUL :: spare).idxOf? NUL = some (cstr text).length := by
  induction text with
  | nil => rfl
  | cons c text ih =>
      rw [List.cons_append, List.idxOf?_cons, cstr, List.takeWhile_cons, ih]
      by_cases hc : c = NUL
      · rw [if_pos (by simpa using hc), if_neg (by simpa using hc)]
        rfl
      · rw [if_neg (by simpa using hc), if_pos (by simpa using hc)]
        rfl

theorem exists_cstr_tail (text spare : Bytes) :
    ∃ tail, text ++ NUL :: spare = cstr text ++ NUL :: tail := by
  induction text with
  | nil => exact ⟨spare, rfl⟩
  | cons c text ih =>
      obtain ⟨tail, htail⟩ := ih
      by_cases hc : c = NUL
      · subst hc
        exact ⟨text ++ NUL :: spare, rfl⟩
      · refine ⟨tail, ?_⟩
        rw [cstr, List.takeWhile_cons, if_pos (by simpa using hc), List.cons_append, htail]
        rfl

end Terminator

section Shrinking

variable {text spare : Bytes}

-- A part of the text, moved to the start.
theorem moved_layout (hsize : text.length + spare.length < 2 ^ 63) (off n : Nat)
    (hn : off + n ≤ text.length) :
    (do
      let s ← (layout text spare).moveDown off n
      let s ← s.write n [NUL]
      return s.setLen n) =
      .ok (layout ((text.drop off).take n) ((layout text spare).buf.drop (n + 1))) ∧
    ((text.drop off).take n).length = n ∧
    ((layout text spare).buf.drop (n + 1)).length = text.length + spare.length - n := by
  have hbuf : n < (layout text spare).buf.length := by
    rw [layout_buf_length]
    omega
  have hpart : ((text.drop off).take n).length = n := by
    rw [List.length_take, List.length_drop]
    omega
  have hrest : ((layout text spare).buf.drop (n + 1)).length = text.length + spare.length - n := by
    rw [List.length_drop, layout_buf_length]
    omega
  have hset : ∀ buf, setLen { layout text spare with buf } n =
      { len := n, free := (text.length + spare.length - n : Nat), buf } := by
    intro buf
    have hfree : (spare.length : Int) + ((text.length : Int) - n) =
        (text.length + spare.length - n : Nat) := by omega
    simp only [setLen, layout, hfree]
    rw [toInt64_natCast (by omega), toInt64_natCast (by omega)]
  refine ⟨?_, hpart, hrest⟩
  by_cases hoff : off = 0
  · subst hoff
    have hmove : (layout text spare).moveDown 0 n = .ok (layout text spare) := rfl
    have hwrite : (layout text spare).write n [NUL] = .ok { layout text spare with
        buf := text.take n ++ NUL :: (layout text spare).buf.drop (n + 1) } := by
      rw [write_eq hbuf]
      have htake : (layout text spare).buf.take n = text.take n :=
        List.take_append_of_le_length (by omega)
      rw [htake]
      rfl
    rw [hmove, ok_bind, hwrite, ok_bind, hset, layout_eq hpart hrest]
    rfl
  · have hread : (layout text spare).read off n = .ok ((text.drop off).take n) := by
      rw [read, if_pos (by rw [layout_buf_length]; omega), layout,
        List.drop_append_of_le_length (by omega), List.take_append_of_le_length]
      · rfl
      · rw [List.length_drop]
        omega
    have hmove : (layout text spare).moveDown off n =
        (layout text spare).write 0 ((text.drop off).take n) := by
      rw [moveDown, if_pos hoff, hread, ok_bind]
    have htext := write_text (s := layout text spare) (t := (text.drop off).take n)
      (by rw [hpart]; exact hbuf)
    rw [hpart] at htext
    rw [hmove, ← bind_assoc, htext, ok_bind, hset, layout_eq hpart hrest]
    rfl

theorem sdsrange_layout (hsize : text.length + spare.length < 2 ^ 63) (start endIdx : Int) :
    ∃ room, (layout text spare).sdsrange start endIdx =
        .ok (layout (Cutis.sdsrange text start endIdx) room) ∧
      (Cutis.sdsrange text start endIdx).length ≤ text.length ∧
      (Cutis.sdsrange text start endIdx).length + room.length = text.length + spare.length := by
  have hslen : (layout text spare).sdslen = text.length := layout_sdslen (by omega)
  rw [sdsrange, Cutis.sdsrange, hslen]
  dsimp only
  by_cases hempty : (text.length : Int) = 0
  · rw [if_pos hempty, if_pos hempty]
    exact ⟨spare, rfl, le_refl _, rfl⟩
  rw [if_neg hempty, if_neg hempty]
  have hstart : 0 ≤ if start < 0 then max ((text.length : Int) + start) 0 else start := by
    split_ifs <;> omega
  generalize (if start < 0 then max ((text.length : Int) + start) 0 else start) = s at hstart ⊢
  generalize (if endIdx < 0 then max ((text.length : Int) + endIdx) 0 else endIdx) = e
  by_cases hcross : s > e
  · rw [if_pos hcross, if_neg (by simp), if_neg (by simp)]
    obtain ⟨hmove, hpart, hrest⟩ := moved_layout hsize 0 0 (Nat.zero_le _)
    exact ⟨_, hmove, Nat.zero_le _, by rw [hrest, List.length_nil]; omega⟩
  · have hsome : ¬e - s + 1 = 0 := by omega
    rw [if_neg hcross, if_pos hsome, if_pos hsome]
    have hs : 0 ≤ (if s ≥ text.length then (text.length : Int) - 1 else s) := by
      split_ifs <;> omega
    have hle : (if s ≥ text.length then (text.length : Int) - 1 else s) ≤
        if e ≥ text.length then (text.length : Int) - 1 else e := by
      split_ifs <;> omega
    have he : (if e ≥ text.length then (text.length : Int) - 1 else e) < text.length := by
      split_ifs <;> omega
    generalize (if s ≥ text.length then (text.length : Int) - 1 else s) = first at hs hle ⊢
    generalize (if e ≥ text.length then (text.length : Int) - 1 else e) = last at hle he ⊢
    rw [if_neg (by omega)]
    obtain ⟨hmove, hpart, hrest⟩ :=
      moved_layout hsize first.toNat (last - first + 1).toNat (by omega)
    exact ⟨_, hmove, by omega, by omega⟩

variable (h : Fits text spare)

include h

theorem moved (off n : Nat) (hn : off + n ≤ text.length) :
    (do
      let s ← (layout text spare).moveDown off n
      let s ← s.write n [NUL]
      return s.setLen n) =
      .ok (layout ((text.drop off).take n) ((layout text spare).buf.drop (n + 1))) ∧
    Fits ((text.drop off).take n) ((layout text spare).buf.drop (n + 1)) := by
  have htotal := h.total
  have hshort := h.short
  have hsize : text.length + spare.length < 2 ^ 63 := by omega
  obtain ⟨hmove, hpart, hrest⟩ := moved_layout hsize off n hn
  exact ⟨hmove, by omega, by omega⟩

theorem sdsrange_spec (start endIdx : Int) :
    ∃ room, (layout text spare).sdsrange start endIdx =
        .ok (layout (Cutis.sdsrange text start endIdx) room) ∧
      Fits (Cutis.sdsrange text start endIdx) room := by
  have htotal := h.total
  have hshort := h.short
  have hsize : text.length + spare.length < 2 ^ 63 := by omega
  obtain ⟨room, hrange, hle, hsum⟩ := sdsrange_layout hsize start endIdx
  exact ⟨room, hrange, by omega, by omega⟩

theorem sdstrim_spec (cset : Bytes) :
    ∃ room, (layout text spare).sdstrim cset = .ok (layout (Cutis.sdstrim text cset) room) ∧
      Fits (Cutis.sdstrim text cset) room := by
  have hshort := h.short
  have hslen : (layout text spare).sdslen = text.length := layout_sdslen (by omega)
  have hleft : (layout text spare).skipLeft cset text.length 0 =
      .ok (text.takeWhile (inSet cset)).length := by
    have hskip := @skipLeft_eq cset [] text (NUL :: spare) (layout text spare) rfl
    rwa [List.length_nil, Nat.zero_add] at hskip
  have hright : (layout text spare).skipRight cset text.length =
      .ok (text.rdropWhile (inSet cset)).length := skipRight_eq cset _ rfl
  have hlen := (List.rdropWhile_prefix (inSet cset) text).length_le
  obtain ⟨hmove, hfits⟩ := moved h (text.takeWhile (inSet cset)).length
    ((text.rdropWhile (inSet cset)).length - (text.takeWhile (inSet cset)).length) (by
      have := (List.takeWhile_prefix (inSet cset) (l := text)).length_le
      omega)
  rw [trim_part] at hmove hfits
  refine ⟨_, ?_, hfits⟩
  rw [sdstrim, hslen, hleft, ok_bind, hright, ok_bind]
  exact hmove

theorem sdsupdatelen_spec :
    ∃ room, (layout text spare).sdsupdatelen = .ok (layout (cstr text) room) ∧
      Fits (cstr text) room := by
  have hshort := h.short
  have htotal := h.total
  have hle : (cstr text).length ≤ text.length := (List.takeWhile_prefix _).length_le
  obtain ⟨tail, htail⟩ := exists_cstr_tail text spare
  have hlen := congrArg List.length htail
  rw [List.length_append, List.length_append, List.length_cons, List.length_cons] at hlen
  refine ⟨tail, ?_, by omega, by omega⟩
  have hfree : (spare.length : Int) + ((text.length : Int) - (cstr text).length) = tail.length := by
    omega
  have hbuf : (layout text spare).buf.idxOf? NUL = some (cstr text).length :=
    idxOf_terminator text spare
  rw [sdsupdatelen, hbuf]
  dsimp only
  rw [toInt32_natCast _ (by omega)]
  simp only [layout, hfree, htail]
  rfl

end Shrinking

section Lower

theorem lowerFrom_eq (before rest tail : Bytes) (len free : Int) :
    lowerFrom rest.length before.length { len, free, buf := before ++ (rest ++ tail) } =
      .ok { len, free, buf := before ++ (rest.map tolower ++ tail) } := by
  induction rest generalizing before with
  | nil => rfl
  | cons c rest ih =>
      have hread : readByte { len, free, buf := before ++ (c :: rest ++ tail) } before.length =
          .ok c := by
        rw [readByte]
        simp
        rfl
      have hwrite : write { len, free, buf := before ++ (c :: rest ++ tail) } before.length
          [tolower c] = .ok { len, free, buf := (before ++ [tolower c]) ++ (rest ++ tail) } := by
        rw [write_eq (by simp)]
        simp
      have hnext := ih (before ++ [tolower c])
      rw [List.length_append, List.length_singleton] at hnext
      rw [List.length_cons, lowerFrom, hread, ok_bind, hwrite, ok_bind, hnext]
      simp

theorem sdstolower_spec {text spare : Bytes} (h : Fits text spare) :
    (layout text spare).sdstolower = .ok (layout (Cutis.sdstolower text) spare) ∧
      Fits (Cutis.sdstolower text) spare := by
  have hshort := h.short
  have htotal := h.total
  have hlen : (Cutis.sdstolower text).length = text.length := List.length_map _
  have hlower := lowerFrom_eq [] text (NUL :: spare) text.length spare.length
  refine ⟨?_, by omega, by omega⟩
  rw [sdstolower, layout_sdslen (by omega), layout_eq hlen rfl]
  exact hlower

end Lower

section Making

theorem sdsnewlen_spec {init : Option Bytes} {initlen : Nat} (hlen : initlen < 2 ^ 31)
    (hinit : ∀ source, init = some source → initlen ≤ source.length) (junk : Nat → UInt8) :
    ∃ text, sdsnewlen init initlen junk = .ok (layout text []) ∧ Fits text [] := by
  have htext : ((init.getD (List.replicate initlen NUL)).take initlen).length = initlen := by
    rw [List.length_take]
    cases init with
    | none => rw [Option.getD_none, List.length_replicate, min_self]
    | some source => exact min_eq_left (hinit source rfl)
  rw [sdsnewlen]
  generalize (init.getD (List.replicate initlen NUL)).take initlen = text at htext ⊢
  subst htext
  have hbuf : ((List.range (text.length + 1)).map junk).length = text.length + 1 := by
    rw [List.length_map, List.length_range]
  have hwrite := @write_text
    { len := toInt64 text.length, free := 0, buf := (List.range (text.length + 1)).map junk } text
    (by rw [hbuf]; exact Nat.lt_succ_self _)
  refine ⟨text, ?_, hlen, ?_⟩
  · rw [hwrite, List.drop_of_length_le (by rw [hbuf]), toInt64_natCast (by omega)]
    rfl
  · rw [List.length_nil]
    omega

end Making

section Runs

-- What an operation makes of the text.
def applyOp (text : Bytes) : SdsOp → Bytes
  | .catlen t _ => text ++ t
  | .cpylen t _ => t
  | .catprintf t _ => text ++ cstr t
  | .trim cset => Cutis.sdstrim text cset
  | .range start endIdx => Cutis.sdsrange text start endIdx
  | .updatelen => cstr text
  | .tolower => Cutis.sdstolower text

-- The length after the operation is below 2^31.
def TotalShort (s : SdsHdr) : SdsOp → Prop
  | .catlen t _ | .catprintf t _ => s.len + t.length < 2 ^ 31
  | .cpylen t _ => t.length < 2 ^ 31
  | _ => True

-- The operation stays within the buffer, and leaves the header in order.
def StaysWithin (s : SdsHdr) (op : SdsOp) : Prop := ∃ s', s.step op = .ok s' ∧ s'.WellFormed

-- A copy that fits the buffer as it is, or is long enough to make it grow.
def RoomCounted (s : SdsHdr) : SdsOp → Prop
  | .cpylen t _ => t.length ≤ s.len + s.free ∨ s.len + 2 * s.free < t.length
  | _ => True

variable {text spare : Bytes} {op : SdsOp}

theorem step_spec (h : Fits text spare) (hshort : (layout text spare).TotalShort op)
    (hroom : (layout text spare).RoomCounted op) :
    ∃ room, (layout text spare).step op = .ok (layout (applyOp text op) room) ∧
      Fits (applyOp text op) room := by
  cases op with
  | catlen t junk =>
      have ht : (text.length : Int) + t.length < 2 ^ 31 := hshort
      exact sdscatlen_spec h (by omega) junk
  | cpylen t junk =>
      have hcount : (t.length : Int) ≤ text.length + spare.length ∨
          (text.length : Int) + 2 * spare.length < t.length := hroom
      exact sdscpylen_spec h hshort (by omega) junk
  | catprintf t junk =>
      have ht : (text.length : Int) + t.length < 2 ^ 31 := hshort
      exact sdscatprintf_spec h (by omega) junk
  | trim cset => exact sdstrim_spec h cset
  | range start endIdx => exact sdsrange_spec h start endIdx
  | updatelen => exact sdsupdatelen_spec h
  | tolower => exact ⟨spare, sdstolower_spec h⟩

theorem step_fault (h : Fits text spare) (hroom : ¬(layout text spare).RoomCounted op) :
    (layout text spare).step op = .error .outOfBounds := by
  cases op with
  | cpylen t junk =>
      have hcount : ¬((t.length : Int) ≤ text.length + spare.length ∨
          (text.length : Int) + 2 * spare.length < t.length) := hroom
      exact sdscpylen_fault h (by omega) (by omega) junk
  | catlen | catprintf | trim | range | updatelen | tolower => exact absurd trivial hroom

-- A header in order, with sizes that fit.
def Sized (s : SdsHdr) : Prop := ∃ text spare, s = layout text spare ∧ Fits text spare

theorem staysWithin_iff {s : SdsHdr} (h : s.Sized) (hshort : s.TotalShort op) :
    s.StaysWithin op ↔ s.RoomCounted op := by
  obtain ⟨text, spare, rfl, hfits⟩ := h
  constructor
  · rintro ⟨s', hstep, -⟩
    by_contra hroom
    cases (step_fault hfits hroom).symm.trans hstep
  · intro hroom
    obtain ⟨room, hstep, -⟩ := step_spec hfits hshort hroom
    exact ⟨_, hstep, layout_wellFormed⟩

theorem sized_step {s s' : SdsHdr} (h : s.Sized) (hshort : s.TotalShort op)
    (hstep : s.step op = .ok s') : s'.Sized := by
  obtain ⟨text, spare, rfl, hfits⟩ := h
  by_cases hroom : (layout text spare).RoomCounted op
  · obtain ⟨room, hstep', hfits'⟩ := step_spec hfits hshort hroom
    exact ⟨_, room, Except.ok.inj (hstep.symm.trans hstep'), hfits'⟩
  · cases (step_fault hfits hroom).symm.trans hstep

end Runs

end SdsHdr

end Cutis

/-
What the wire primitives do.

A writer `Tracks` the bytes written so far: it has failed exactly when they
do not fit, and until then holds them. Each primitive appends its encoding
to the tracked bytes, and `LenEnd` puts a length in the place `LenStart`
kept for it, so the bytes a sequence of calls writes are read off call by
call.

A reader that has not failed has a `rest`, what it has not read. Each
primitive either takes its encoding off the front of it, or fails and changes
nothing else (`wnReadU8_at` and its like).
-/
import WolfNano.Msg
import Mathlib.Data.List.GetD
import Mathlib.Tactic.IntervalCases

namespace WolfNano

open Wire

theorem be_one (v : Nat) : be 1 v = [UInt8.ofNat v] := by simp [be]

theorem be_two (v : Nat) : be 2 v = [UInt8.ofNat (v >>> 8), UInt8.ofNat v] := by
  simp [be, Nat.shiftRight_eq_div_pow]

theorem be_three (v : Nat) :
    be 3 v = [UInt8.ofNat (v >>> 16), UInt8.ofNat (v >>> 8), UInt8.ofNat v] := by
  simp [be, Nat.shiftRight_eq_div_pow]

theorem be_range (n v : Nat) :
    ((List.range n).map fun i => UInt8.ofNat (v >>> (8 * (n - 1 - i)))) = be n v := by
  induction n with
  | zero => rfl
  | succ n ih =>
    have hpow : (2 : Nat) ^ (8 * n) = 256 ^ n := by rw [Nat.pow_mul]
    rw [List.range_succ_eq_map, List.map_cons, List.map_map]
    simp only [be, Nat.add_sub_cancel, Nat.sub_zero, Nat.shiftRight_eq_div_pow, hpow, List.cons.injEq,
      true_and]
    rw [← ih]
    refine List.map_congr_left fun i _ => ?_
    simp only [Function.comp_apply, Nat.shiftRight_eq_div_pow]
    congr 4
    omega

/-! ## Stores -/

@[simp] theorem patch_nil (mem : Bytes) (dst : Nat) : patch mem dst [] = mem := by
  simp [patch]

theorem patch_zero (mem bs : Bytes) : patch mem 0 bs = bs ++ mem.drop bs.length := by
  rw [patch, List.take_zero, List.nil_append, Nat.zero_add]

theorem patch_length {mem bs : Bytes} {dst : Nat} (h : dst + bs.length ≤ mem.length) :
    (patch mem dst bs).length = mem.length := by
  simp only [patch, List.length_append, List.length_take, List.length_drop]
  omega

theorem drop_patch {mem bs : Bytes} {off : Nat} (h : off ≤ mem.length) :
    (patch mem off bs).drop off = bs ++ mem.drop (off + bs.length) := by
  have htake : (mem.take off).length = off := by simp; omega
  rw [patch, List.append_assoc, List.drop_append_of_le_length (by omega), List.drop_of_length_le (by omega)]
  rfl

theorem drop_past_patch (buf bs : Bytes) {off n : Nat} (h : off + bs.length ≤ n) :
    (patch buf off bs).drop n = buf.drop n := by
  have hlen : (buf.take off ++ bs).length ≤ off + bs.length := by
    rw [List.length_append, List.length_take]
    omega
  rw [patch, List.drop_append, List.drop_eq_nil_of_le (by omega), List.nil_append, List.drop_drop]
  by_cases hoff : off ≤ buf.length
  · rw [List.length_append, List.length_take, Nat.min_eq_left hoff]
    congr 1
    omega
  · rw [List.drop_eq_nil_of_le (by omega), List.drop_eq_nil_of_le (by omega)]

theorem patch_patch (mem : Bytes) (dst : Nat) (bs bs' : Bytes) :
    patch (patch mem dst bs) (dst + bs.length) bs' = patch mem dst (bs ++ bs') := by
  have htake : (patch mem dst bs).take (dst + bs.length) = mem.take dst ++ bs := by
    by_cases h : dst ≤ mem.length
    · have hfront : (mem.take dst ++ bs).length = dst + bs.length := by
        rw [List.length_append, List.length_take, Nat.min_eq_left h]
      rw [patch, ← hfront, List.take_left]
    · rw [patch, List.drop_eq_nil_of_le (by omega), List.append_nil, List.take_of_length_le]
      simp
  have hdrop : (patch mem dst bs).drop (dst + bs.length + bs'.length) = mem.drop (dst + (bs ++ bs').length) := by
    rw [drop_past_patch _ _ (by omega), List.length_append, Nat.add_assoc]
  rw [patch, htake, hdrop, patch, List.append_assoc (mem.take dst)]

/-! ## Writing -/

theorem patch_append (buf out bs : Bytes) (h : buf.take out.length = out) :
    (patch buf out.length bs).take (out ++ bs).length = out ++ bs := by
  rw [patch, h, List.take_left]

theorem patch_inside (buf pre hole body bs : Bytes) (hlen : bs.length = hole.length)
    (h : buf.take (pre ++ hole ++ body).length = pre ++ hole ++ body) :
    (patch buf pre.length bs).take (pre ++ hole ++ body).length = pre ++ bs ++ body := by
  have hbuf : buf = pre ++ (hole ++ (body ++ buf.drop (pre ++ hole ++ body).length)) := by
    conv => lhs; rw [← List.take_append_drop (pre ++ hole ++ body).length buf, h]
    simp only [List.append_assoc]
  rw [hbuf, patch, List.take_left, hlen, ← List.length_append, ← List.append_assoc pre hole,
    List.drop_left, ← List.append_assoc (pre ++ bs) body]
  have hl : (pre ++ hole ++ body).length = (pre ++ bs ++ body).length := by simp [hlen]
  rw [hl, List.take_left]

/-- A writer of `cap` bytes holds exactly `out`, or `out` did not fit and it failed. -/
structure Tracks (cap : Nat) (w : Writer) (out : Bytes) : Prop where
  size : w.cap = cap
  err : w.err = false ↔ out.length ≤ cap
  len : w.err = false → w.len = out.length
  buf : w.err = false → w.buf.take out.length = out

theorem Tracks.init (buf : Bytes) (cap : Nat) : Tracks cap (wnWriterInit buf cap) [] :=
  ⟨rfl, by simp [wnWriterInit], fun _ => rfl, fun _ => by simp⟩

section Tracks

variable {cap : Nat} {w : Writer} {out : Bytes} (h : Tracks cap w out)
include h

theorem Tracks.bytes (p : Bytes) (hlt : out.length + p.length < 2 ^ 32) :
    Tracks cap (wnWriteBytes w p) (out ++ p) := by
  have hwcap := h.size
  by_cases he : w.err = false
  · have hlen := h.len he
    have hadd : add32 w.len p.length = out.length + p.length := by rw [hlen, add32_eq hlt]
    by_cases hc : add32 w.len p.length ≤ w.cap
    · rw [wnWriteBytes, if_pos ⟨he, hc⟩]
      rw [hadd] at hc ⊢
      refine ⟨hwcap, by simp [he]; omega, fun _ => by simp, fun _ => ?_⟩
      simp only [hlen]
      exact patch_append w.buf out p (h.buf he)
    · rw [wnWriteBytes, if_neg (fun hh => hc hh.2)]
      rw [hadd] at hc
      exact ⟨hwcap, by simp; omega, by simp, by simp⟩
  · have hcap := mt h.err.2 he
    rw [wnWriteBytes, if_neg (fun hh => he hh.1)]
    exact ⟨hwcap, by simp; omega, by simp, by simp⟩

theorem Tracks.u8_eq (v : UInt8) (hlt : out.length + 1 < 2 ^ 32) : wnWriteU8 w v = wnWriteBytes w [v] := by
  unfold wnWriteU8 wnWriteBytes
  by_cases he : w.err = false
  · have : add32 w.len 1 = w.len + 1 := add32_eq (by rw [h.len he]; exact hlt)
    simp only [he, List.length_singleton, this, true_and, Nat.lt_iff_add_one_le]
  · rw [if_neg (fun hh => he hh.1), if_neg (fun hh => he hh.1)]

theorem Tracks.u16_eq (v : Nat) (hlt : out.length + 2 < 2 ^ 32) :
    wnWriteU16 w v = wnWriteBytes w [UInt8.ofNat (v >>> 8), UInt8.ofNat v] := by
  unfold wnWriteU16 wnWriteBytes
  by_cases he : w.err = false
  · have hone : add32 w.len 1 = w.len + 1 := add32_eq (by rw [h.len he]; omega)
    rw [hone, show [UInt8.ofNat (v >>> 8), UInt8.ofNat v] = [UInt8.ofNat (v >>> 8)] ++ [UInt8.ofNat v] from rfl,
      ← patch_patch]
    rfl
  · rw [if_neg (fun hh => he hh.1), if_neg (fun hh => he hh.1)]

theorem Tracks.u24_eq (v : Nat) (hlt : out.length + 3 < 2 ^ 32) :
    wnWriteU24 w v = wnWriteBytes w [UInt8.ofNat (v >>> 16), UInt8.ofNat (v >>> 8), UInt8.ofNat v] := by
  unfold wnWriteU24 wnWriteBytes
  by_cases he : w.err = false
  · have hone : add32 w.len 1 = w.len + 1 := add32_eq (by rw [h.len he]; omega)
    have htwo : add32 w.len 2 = w.len + 2 := add32_eq (by rw [h.len he]; omega)
    rw [hone, htwo, show [UInt8.ofNat (v >>> 16), UInt8.ofNat (v >>> 8), UInt8.ofNat v] =
      ([UInt8.ofNat (v >>> 16)] ++ [UInt8.ofNat (v >>> 8)]) ++ [UInt8.ofNat v] from rfl, ← patch_patch, ← patch_patch]
    rfl
  · rw [if_neg (fun hh => he hh.1), if_neg (fun hh => he hh.1)]

theorem Tracks.u8 (v : UInt8) (hlt : out.length + 1 < 2 ^ 32) :
    Tracks cap (wnWriteU8 w v) (out ++ [v]) := by
  rw [h.u8_eq v hlt]
  exact h.bytes [v] (by simpa using hlt)

theorem Tracks.u16 (v : Nat) (hlt : out.length + 2 < 2 ^ 32) :
    Tracks cap (wnWriteU16 w v) (out ++ be 2 v) := by
  rw [be_two, h.u16_eq v hlt]
  exact h.bytes [UInt8.ofNat (v >>> 8), UInt8.ofNat v] (by simpa using hlt)

theorem Tracks.u24 (v : Nat) (hlt : out.length + 3 < 2 ^ 32) :
    Tracks cap (wnWriteU24 w v) (out ++ be 3 v) := by
  rw [be_three, h.u24_eq v hlt]
  exact h.bytes [UInt8.ofNat (v >>> 16), UInt8.ofNat (v >>> 8), UInt8.ofNat v] (by simpa using hlt)

theorem Tracks.zeros : ∀ n, out.length + n < 2 ^ 32 →
    Tracks cap ((List.range n).foldl (fun w _ => wnWriteU8 w 0) w) (out ++ List.replicate n 0)
  | 0, _ => by simpa using h
  | n + 1, hlt => by
    have := (Tracks.zeros n (by omega)).u8 0 (by simp; omega)
    rw [List.range_succ, List.foldl_append, List.replicate_succ', ← List.append_assoc]
    exact this

theorem Tracks.lenStart (n : Nat) (hlt : out.length + n < 2 ^ 32) :
    Tracks cap (wnWriteLenStart w n).1 (out ++ List.replicate n 0) := h.zeros n hlt

/-- The offset `LenStart` gives is where the content starts. -/
theorem Tracks.lenStart_offset (n : Nat) (hlt : out.length + n < 2 ^ 32) (hfit : out.length + n ≤ cap) :
    (wnWriteLenStart w n).2 = out.length + n := by
  have hs := h.lenStart n hlt
  have := hs.len (hs.err.2 (by simpa using hfit))
  rw [List.length_append, List.length_replicate] at this
  exact this

end Tracks

/-- `LenEnd` puts the length of what was written since `LenStart` in the bytes
`LenStart` reserved. -/
theorem Tracks.lenEnd {cap : Nat} {w : Writer} {pre body : Bytes} {n offset : Nat}
    (h : Tracks cap w (pre ++ List.replicate n 0 ++ body))
    (hoff : pre.length + n ≤ cap → offset = pre.length + n)
    (hlt : (pre ++ List.replicate n 0 ++ body).length < 2 ^ 32) :
    Tracks cap (wnWriteLenEnd w offset n) (pre ++ vec n body) := by
  have hlen : (pre ++ vec n body).length = (pre ++ List.replicate n 0 ++ body).length := by simp
  by_cases he : w.err = false
  · rw [wnWriteLenEnd, if_pos he]
    have hw := h.len he
    have hfit := h.err.1 he
    simp only [List.length_append, List.length_replicate] at hlt hw hfit
    have ho := hoff (by omega)
    have hc : sub32 w.len offset = body.length := by rw [sub32_eq (by omega) (by omega)]; omega
    have hp : sub32 offset n = pre.length := by rw [sub32_eq (by omega) (by omega)]; omega
    refine ⟨h.size, by simpa [hlen, he] using h.err, fun _ => by rw [hlen]; exact h.len he, fun _ => ?_⟩
    simp only [hc, hp, be_range]
    rw [hlen, patch_inside _ _ _ _ _ (by simp) (h.buf he), vec, List.append_assoc]
  · rw [wnWriteLenEnd, if_neg he]
    exact ⟨h.size, by rw [hlen]; exact h.err, fun hh => absurd hh he, fun hh => absurd hh he⟩

/-! ## The memory around -/

/-- What a writer that tracks `out` leaves of the memory it was given: nothing
at or past `cap` has been written, nor, before it fails, anything past `out`. -/
structure Frames (mem : Bytes) (cap : Nat) (w : Writer) (out : Bytes) : Prop where
  past : w.buf.drop cap = mem.drop cap
  tail : w.err = false → w.buf.drop out.length = mem.drop out.length

theorem Frames.init (mem : Bytes) (cap : Nat) : Frames mem cap (wnWriterInit mem cap) [] := ⟨rfl, fun _ => rfl⟩

section Frames

variable {mem : Bytes} {cap : Nat} {w : Writer} {out : Bytes} (h : Tracks cap w out) (hf : Frames mem cap w out)
include h hf

theorem Frames.bytes (p : Bytes) (hlt : out.length + p.length < 2 ^ 32) :
    Frames mem cap (wnWriteBytes w p) (out ++ p) := by
  by_cases hw : w.err = false ∧ add32 w.len p.length ≤ w.cap
  · have hlen := h.len hw.1
    have hadd : add32 w.len p.length = out.length + p.length := by rw [hlen, add32_eq hlt]
    rw [wnWriteBytes, if_pos hw]
    rw [hadd, h.size] at hw
    refine ⟨?_, fun _ => ?_⟩
    · rw [← hf.past, hlen]
      exact drop_past_patch _ _ hw.2
    · rw [List.length_append, ← List.drop_drop, ← List.drop_drop, ← hf.tail hw.1, List.drop_drop, List.drop_drop, hlen]
      exact drop_past_patch _ _ (Nat.le_refl _)
  · rw [wnWriteBytes, if_neg hw]
    exact ⟨hf.past, nofun⟩

theorem Frames.u8 (v : UInt8) (hlt : out.length + 1 < 2 ^ 32) : Frames mem cap (wnWriteU8 w v) (out ++ [v]) := by
  rw [h.u8_eq v hlt]
  exact hf.bytes h [v] (by simpa using hlt)

theorem Frames.u16 (v : Nat) (hlt : out.length + 2 < 2 ^ 32) : Frames mem cap (wnWriteU16 w v) (out ++ be 2 v) := by
  rw [be_two, h.u16_eq v hlt]
  exact hf.bytes h [UInt8.ofNat (v >>> 8), UInt8.ofNat v] (by simpa using hlt)

theorem Frames.u24 (v : Nat) (hlt : out.length + 3 < 2 ^ 32) : Frames mem cap (wnWriteU24 w v) (out ++ be 3 v) := by
  rw [be_three, h.u24_eq v hlt]
  exact hf.bytes h [UInt8.ofNat (v >>> 16), UInt8.ofNat (v >>> 8), UInt8.ofNat v] (by simpa using hlt)

theorem Frames.lenStart : ∀ n, out.length + n < 2 ^ 32 →
    Frames mem cap (wnWriteLenStart w n).1 (out ++ List.replicate n 0)
  | 0, _ => by simpa [wnWriteLenStart] using hf
  | n + 1, hlt => by
    have := (Frames.lenStart n (by omega)).u8 (h.zeros n (by omega)) 0 (by simp; omega)
    rw [wnWriteLenStart, List.range_succ, List.foldl_append, List.replicate_succ', ← List.append_assoc]
    exact this

end Frames

theorem Frames.lenEnd {mem : Bytes} {cap : Nat} {w : Writer} {pre body : Bytes} {n offset : Nat}
    (h : Tracks cap w (pre ++ List.replicate n 0 ++ body)) (hf : Frames mem cap w (pre ++ List.replicate n 0 ++ body))
    (hoff : pre.length + n ≤ cap → offset = pre.length + n)
    (hlt : (pre ++ List.replicate n 0 ++ body).length < 2 ^ 32) :
    Frames mem cap (wnWriteLenEnd w offset n) (pre ++ vec n body) := by
  have hlen : (pre ++ vec n body).length = (pre ++ List.replicate n 0 ++ body).length := by simp
  by_cases he : w.err = false
  · have hfit := h.err.1 he
    simp only [List.length_append, List.length_replicate] at hlt hfit
    have ho := hoff (by omega)
    have hp : sub32 offset n = pre.length := by rw [sub32_eq (by omega) (by omega)]; omega
    rw [wnWriteLenEnd, if_pos he]
    refine ⟨?_, fun _ => ?_⟩
    · rw [← hf.past, hp]
      exact drop_past_patch _ _ (by simp; omega)
    · rw [hlen, ← hf.tail he, hp]
      exact drop_past_patch _ _ (by simp)
  · rw [wnWriteLenEnd, if_neg he]
    exact ⟨hf.past, fun hh => absurd hh he⟩

/-! ## Reading -/

/-- The reader of `buf` that has come to its suffix `q` without failing. -/
def readerAt (buf q : Bytes) : Reader :=
  { buf, len := buf.length, pos := buf.length - q.length, err := false }

/-- The reader, failed. -/
def Reader.fail (r : Reader) : Reader := { r with err := true }

@[simp] theorem readerAt_err (buf q : Bytes) : (readerAt buf q).err = false := rfl
@[simp] theorem readerAt_len (buf q : Bytes) : (readerAt buf q).len = buf.length := rfl
@[simp] theorem readerAt_buf (buf q : Bytes) : (readerAt buf q).buf = buf := rfl
theorem readerAt_pos (buf q : Bytes) : (readerAt buf q).pos = buf.length - q.length := rfl
@[simp] theorem Reader.fail_err (r : Reader) : r.fail.err = true := rfl

theorem wnReaderInit_eq (buf : Bytes) : wnReaderInit buf buf.length = readerAt buf buf := by
  simp [wnReaderInit, readerAt]

theorem suffix_drop {buf q : Bytes} (hq : q <:+ buf) : buf.drop (buf.length - q.length) = q := by
  obtain ⟨p, rfl⟩ := hq
  simp

theorem takeBytes_suffix {n : Nat} {q a r : Bytes} (h : takeBytes n q = some (a, r)) : r <:+ q := by
  obtain ⟨rfl, -⟩ := takeBytes_eq_some.1 h
  exact List.suffix_append a r

theorem takeNat_suffix {n v : Nat} {q r : Bytes} (h : takeNat n q = some (v, r)) : r <:+ q := by
  obtain ⟨rfl, -⟩ := takeNat_eq_some.1 h
  exact List.suffix_append _ r

theorem getD_suffix {buf q : Bytes} (hq : q <:+ buf) (i : Nat) :
    buf.getD (buf.length - q.length + i) 0 = q.getD i 0 := by
  conv => rhs; rw [← suffix_drop hq]
  simp [List.getD_eq_getElem?_getD]

section At

variable {buf q : Bytes} (hq : q <:+ buf) (hs : buf.length < 2 ^ 31)
include hq hs

theorem wnReadBytes_at {n : Nat} (hn : n < 2 ^ 31) : wnReadBytes (readerAt buf q) n =
    match takeBytes n q with
    | some (a, r) => (some a, readerAt buf r)
    | none => (none, (readerAt buf q).fail) := by
  have hl := hq.length_le
  have hadd : add32 (buf.length - q.length) n = buf.length - q.length + n := add32_eq (by omega)
  simp only [wnReadBytes, readerAt_err, readerAt_pos, readerAt_len, readerAt_buf, hadd, true_and,
    suffix_drop hq, takeBytes]
  by_cases hc : n ≤ q.length
  · rw [if_pos (by omega), if_pos hc]
    simp only [readerAt, List.length_drop, Prod.mk.injEq, Reader.mk.injEq, true_and, and_true]
    omega
  · rw [if_neg (by omega), if_neg hc]
    rfl

theorem wnReadU8_at : wnReadU8 (readerAt buf q) =
    match q with
    | v :: r => (v, readerAt buf r)
    | [] => (0, (readerAt buf q).fail) := by
  have hl := hq.length_le
  simp only [wnReadU8, readerAt_err, readerAt_pos, readerAt_len, readerAt_buf, true_and]
  cases q with
  | nil => rw [if_neg (by simp)]; rfl
  | cons v r =>
    simp only [List.length_cons] at hl
    have hd := suffix_drop hq
    simp only [List.length_cons] at hd
    rw [if_pos (by simp; omega)]
    simp only [readerAt, List.length_cons, Prod.mk.injEq, Reader.mk.injEq, true_and, and_true]
    rw [add32_eq (by omega), List.getD_eq_getElem?_getD, ← List.head?_drop, hd]
    exact ⟨rfl, by omega⟩

theorem wnReadU16_at : wnReadU16 (readerAt buf q) =
    match takeNat 2 q with
    | some (v, r) => (v, readerAt buf r)
    | none => (0, (readerAt buf q).fail) := by
  have hl := hq.length_le
  have hadd : add32 (buf.length - q.length) 2 = buf.length - q.length + 2 := add32_eq (by omega)
  have hone : add32 (buf.length - q.length) 1 = buf.length - q.length + 1 := add32_eq (by omega)
  have h0 := getD_suffix hq 0
  have h1 := getD_suffix hq 1
  simp only [Nat.add_zero] at h0
  simp only [wnReadU16, readerAt_err, readerAt_pos, readerAt_len, readerAt_buf, hadd, hone, true_and, h0, h1]
  match q with
  | [] => rw [if_neg (by simp)]; rfl
  | [_] => rw [if_neg (by simp at hl ⊢; omega)]; rfl
  | a :: b :: r =>
    simp only [List.length_cons] at hl
    rw [if_pos (by simp; omega)]
    simp only [takeNat, takeBytes, List.length_cons, Nat.le_add_left, if_true, List.take_succ_cons,
      List.take_zero, List.drop_succ_cons, List.drop_zero, Option.map_some, List.getD_cons_zero,
      List.getD_cons_succ, word16Of_eq, readerAt, Prod.mk.injEq, Reader.mk.injEq, true_and, and_true]
    omega

theorem wnReadU24_at : wnReadU24 (readerAt buf q) =
    match takeNat 3 q with
    | some (v, r) => (v, readerAt buf r)
    | none => (0, (readerAt buf q).fail) := by
  have hl := hq.length_le
  have hadd : add32 (buf.length - q.length) 3 = buf.length - q.length + 3 := add32_eq (by omega)
  have hone : add32 (buf.length - q.length) 1 = buf.length - q.length + 1 := add32_eq (by omega)
  have htwo : add32 (buf.length - q.length) 2 = buf.length - q.length + 2 := add32_eq (by omega)
  have h0 := getD_suffix hq 0
  have h1 := getD_suffix hq 1
  have h2 := getD_suffix hq 2
  simp only [Nat.add_zero] at h0
  simp only [wnReadU24, readerAt_err, readerAt_pos, readerAt_len, readerAt_buf, hadd, hone, htwo, true_and, h0, h1, h2]
  match q with
  | [] => rw [if_neg (by simp)]; rfl
  | [_] => rw [if_neg (by simp at hl ⊢; omega)]; rfl
  | [_, _] => rw [if_neg (by simp at hl ⊢; omega)]; rfl
  | a :: b :: c :: r =>
    simp only [List.length_cons] at hl
    rw [if_pos (by simp; omega)]
    simp only [takeNat, takeBytes, List.length_cons, Nat.le_add_left, if_true, List.take_succ_cons,
      List.take_zero, List.drop_succ_cons, List.drop_zero, Option.map_some, List.getD_cons_zero,
      List.getD_cons_succ, word24Of_eq, readerAt, Prod.mk.injEq, Reader.mk.injEq, true_and, and_true]
    omega

end At

/-! ## The error sticks -/

section Sticky

variable {r : Reader} (h : r.err = true)
include h

theorem wnReadU8_err : wnReadU8 r = (0, r) := by
  rw [wnReadU8, if_neg (by simp [h])]
  cases r; simp_all

theorem wnReadU16_err : wnReadU16 r = (0, r) := by
  rw [wnReadU16, if_neg (by simp [h])]
  cases r; simp_all

theorem wnReadU24_err : wnReadU24 r = (0, r) := by
  rw [wnReadU24, if_neg (by simp [h])]
  cases r; simp_all

theorem wnReadBytes_err (n : Nat) : wnReadBytes r n = (none, r) := by
  rw [wnReadBytes, if_neg (by simp [h])]
  cases r; simp_all

end Sticky

@[simp] theorem wnReadU8_fail (r : Reader) : wnReadU8 r.fail = (0, r.fail) := wnReadU8_err rfl
@[simp] theorem wnReadU16_fail (r : Reader) : wnReadU16 r.fail = (0, r.fail) := wnReadU16_err rfl
@[simp] theorem wnReadU24_fail (r : Reader) : wnReadU24 r.fail = (0, r.fail) := wnReadU24_err rfl
@[simp] theorem wnReadBytes_fail (r : Reader) (n : Nat) : wnReadBytes r.fail n = (none, r.fail) :=
  wnReadBytes_err rfl n

/-! ## How far a read goes -/

theorem add32_le (a b : Nat) : add32 a b ≤ a + b := Nat.mod_le _ _

theorem wnReadU8_pos_le (r : Reader) : (wnReadU8 r).2.pos ≤ r.pos + 1 := by
  unfold wnReadU8
  split
  · exact add32_le _ _
  · exact Nat.le_add_right _ _

theorem wnReadU16_pos_le (r : Reader) : (wnReadU16 r).2.pos ≤ r.pos + 2 := by
  unfold wnReadU16
  split
  · exact add32_le _ _
  · exact Nat.le_add_right _ _

theorem wnReadBytes_pos_le (r : Reader) (n : Nat) : (wnReadBytes r n).2.pos ≤ r.pos + n := by
  unfold wnReadBytes
  split
  · exact add32_le _ _
  · exact Nat.le_add_right _ _

theorem wnReadU16_lt (r : Reader) : (wnReadU16 r).1 < 2 ^ 16 := by
  unfold wnReadU16
  split
  · exact word16Of_lt _ _
  · exact Nat.two_pow_pos 16

theorem wnReadU24_lt (r : Reader) : (wnReadU24 r).1 < 2 ^ 24 := by
  unfold wnReadU24
  split
  · exact word24Of_lt _ _ _
  · exact Nat.two_pow_pos 24

end WolfNano

/-
The reassembly buffers in memory, with a check at every access.

The drivers' models keep the bytes received so far as a list. Here they are in
the arrays of the source, `plain[512]` and `hsacc[WN_HS_ACC_SZ]`, with `accLen`
of them received; each index is checked against `accLen`, each sum and
difference of lengths against its word, each write against its buffer, and each
loop against a bound on its passes. This module is what the two drivers have in
common: access, decryption, the readers, and `wn_CheckEncExt`.
-/
import WolfNano.Lib.Checked
import WolfNano.FlightLoop
import WolfNano.RecvRecord
import WolfNano.RecordRoundTrip
import WolfNano.PostHandshake

namespace WolfNano

open Prog Wire

/-! ## Checked access -/

/-- What a check can find. -/
inductive Fault where
  /-- An index is not within the bytes received. -/
  | index
  /-- A sum or difference does not fit its word. -/
  | wrap
  /-- A write is not within its buffer. -/
  | overrun
  /-- A loop's offset and length are not in order. -/
  | bound
  /-- A loop has had its passes. -/
  | spin
  deriving DecidableEq

abbrev MemIo := Checked Fault Err World

/-- `a + b` of `word32`s. -/
def add32c (a b : Nat) : MemIo Nat := do
  check (a + b < 2 ^ 32) .wrap
  pure (a + b)

/-- `a - b` of `word32`s. -/
def sub32c (a b : Nat) : MemIo Nat := do
  check (b ≤ a) .wrap
  pure (a - b)

/-- `buf[i]`, where `accLen` bytes have been received. -/
def byteAt (buf : Bytes) (accLen i : Nat) : MemIo UInt8 := do
  check (i < accLen) .index
  pure (buf.getD i 0)

/-- The `n` bytes at `buf + off`. -/
def bytesAt (buf : Bytes) (accLen off n : Nat) : MemIo Bytes := do
  check (off + n ≤ accLen) .index
  pure (readMem buf off n)

/-- Store `bs` at `buf + dst`. -/
def storeAt (buf : Bytes) (dst : Nat) (bs : Bytes) : MemIo Bytes := do
  check (dst + bs.length ≤ buf.length) .overrun
  pure (patch buf dst bs)

/-- The type and length of the message at `off`. -/
def headAt (buf : Bytes) (accLen off : Nat) : MemIo (UInt8 × Nat) := do
  let mType ← byteAt buf accLen off
  let b₁ ← byteAt buf accLen (off + 1)
  let b₂ ← byteAt buf accLen (off + 2)
  let b₃ ← byteAt buf accLen (off + 3)
  pure (mType, word24Of b₁ b₂ b₃)

variable {cfg : Config} (p : Provider cfg)

/-- `wn_Record_Unprotect` with the plaintext decrypted to `buf + dst`: the type,
the content's length, and `buf` after. -/
def unprotectInto (key : Block 16) (iv : Block 12) (seq : UInt64) (buf : Bytes) (dst : Nat) (record : Bytes) :
    MemIo (UInt8 × Nat × Bytes) := do
  failIf (record.length < wnRecordHeaderSz + wnRecordTagSz + 1) (.ret .invalidArg)
  let len ← sub32c record.length wnRecordHeaderSz
  let innerLen ← sub32c len wnRecordTagSz
  failIf (p.aesGcmSetKey key = false) (.ret .crypto)
  -- The plaintext is written before the tag is known to be right.
  check (dst + innerLen ≤ buf.length) .overrun
  match p.aesGcmDecrypt key (wnBuildNonce iv seq) (record.take wnRecordHeaderSz)
      ((record.drop wnRecordHeaderSz).take innerLen) (record.drop (wnRecordHeaderSz + innerLen)) with
  | none => throw (.ret .badMac)
  | some inner => do
    let buf := patch buf dst inner.val
    let n := unpadded (buf.drop dst) innerLen
    failIf (n = 0) (.ret .decode)
    pure (buf.getD (dst + (n - 1)) 0, n - 1, buf)

/-- `wn_Transcript_Update` with the message at `off`. -/
def transcriptInto (tc : Transcript) (buf : Bytes) (accLen off mLen : Nat) : MemIo Transcript := do
  let msg ← bytesAt buf accLen off (← add32c mLen 4)
  unchecked (ofExcept (wnTranscriptUpdate p tc msg))

/-! ## Readers -/

/-- A reader's call that may read `n` bytes of the message at `base`. -/
def reading {α : Type} (accLen base n : Nat) (read : Reader → α × Reader) (r : Reader) : MemIo (α × Reader) :=
  if r.err then pure (read r)
  else do
    let next ← add32c r.pos n
    check (next ≤ r.len → base + next ≤ accLen) .index
    pure (read r)

/-- `(void)wn_Read_Bytes`. -/
def skipBytes (n : Nat) (r : Reader) : Unit × Reader := ((), (wnReadBytes r n).2)

/-- One pass of the loop of `wn_CheckEncExt`. -/
def encExtPass (accLen base : Nat) (sniOffered : Bool) (r : Reader) : MemIo (Reader ⊕ Reader) := do
  let (et, r) ← reading accLen base 2 wnReadU16 r
  let (el, r) ← reading accLen base 2 wnReadU16 r
  let (_, r) ← reading accLen base el (skipBytes el) r
  failIf (r.err = true) (.ret .decode)
  failIf (et ≠ wnExtSupportedGrp ∧ ¬ (et = wnExtServerName ∧ sniOffered = true ∧ el = 0)) (.ret .unexpectedMsg)
  pure (.inl r)

/-- `wn_CheckEncExt` of the `bodyLen` bytes at `buf + base`, with one pass for
each four of them and one for what is over. -/
def checkEncExtInto (buf : Bytes) (accLen base bodyLen : Nat) (sniOffered : Bool) : MemIo Unit := do
  let (extLen, r) ← reading accLen base 2 wnReadU16 (wnReaderInit (buf.drop base) bodyLen)
  let extEnd ← add32c r.pos extLen
  failIf (r.err = true ∨ extEnd ≠ bodyLen) (.ret .decode)
  let _ ← whileM .spin (fun r => pure (decide (r.pos < extEnd ∧ r.err = false))) (encExtPass accLen base sniOffered)
    (bodyLen / 4 + 1) r
  pure ()

/-! ## The loops -/

/-- The condition of the inner loops: `accLen - off >= 4`, with `off` and
`accLen` in order. -/
def moreGuard (size accLen off : Nat) (done : Bool) : MemIo Bool := do
  check (off ≤ accLen ∧ accLen ≤ size) .bound
  if done then pure false
  else do
    let left ← sub32c accLen off
    pure (decide (left ≥ 4))

/-- How many records `wn_RecvRecord` can take off the transport, one after the other. -/
def recordsIn (cap : Nat) : Nat → World → Nat
  | 0, _ => 0
  | n + 1, w =>
    match wnRecvRecord cap w with
    | .ok _ w' => recordsIn cap n w' + 1
    | .error _ _ => 0

def World.records (cap : Nat) (w : World) : Nat := recordsIn cap (w.pending + 1) w

variable {p}

/-! ## Access that is in order -/

section Access

variable {buf : Bytes} {accLen off n : Nat}

theorem add32c_of {a b : Nat} (h : a + b < 2 ^ 32) : add32c a b = pure (a + b) := by
  rw [add32c, check_of h]
  rfl

theorem sub32c_of {a b : Nat} (h : b ≤ a) : sub32c a b = pure (a - b) := by
  rw [sub32c, check_of h]
  rfl

theorem byteAt_of (h : off < accLen) : byteAt buf accLen off = pure (buf.getD off 0) := by
  rw [byteAt, check_of h]
  rfl

theorem bytesAt_of (h : off + n ≤ accLen) : bytesAt buf accLen off n = pure (readMem buf off n) := by
  rw [bytesAt, check_of h]
  rfl

theorem storeAt_of {bs : Bytes} (h : off + bs.length ≤ buf.length) : storeAt buf off bs = pure (patch buf off bs) := by
  rw [storeAt, check_of h]
  rfl

theorem headAt_of (h : off + 4 ≤ accLen) : headAt buf accLen off = pure (buf.getD off 0, msgLenAt buf off) := by
  rw [headAt, byteAt_of (by omega), byteAt_of (by omega), byteAt_of (by omega), byteAt_of (by omega)]
  rfl

theorem moreGuard_of {size : Nat} (hoff : off ≤ accLen) (hlen : accLen ≤ size) (done : Bool) :
    moreGuard size accLen off done = pure (decide (done = false ∧ accLen - off ≥ 4)) := by
  rw [moreGuard, check_of ⟨hoff, hlen⟩, pure_bind]
  cases done with
  | true => rfl
  | false =>
    rw [if_neg Bool.false_ne_true, sub32c_of hoff, pure_bind]
    simp

end Access

theorem msgLenAt_lt (buf : Bytes) (off : Nat) : msgLenAt buf off < 2 ^ 24 :=
  word24Of_lt _ _ _

theorem getD_take {buf : Bytes} {i n : Nat} (h : i < n) : (buf.take n).getD i 0 = buf.getD i 0 := by
  rw [List.getD_eq_getElem?_getD, List.getElem?_take_of_lt h, ← List.getD_eq_getElem?_getD]

/-- What is received has the same heads, and the same bytes. -/
theorem msgLenAt_take {buf : Bytes} {off n : Nat} (h : off + 4 ≤ n) : msgLenAt (buf.take n) off = msgLenAt buf off := by
  rw [msgLenAt, getD_take (by omega), getD_take (by omega), getD_take (by omega), msgLenAt]

/-- Part of what is read is read. -/
theorem readMem_readMem {buf : Bytes} {base len off n : Nat} (h : off + n ≤ len) :
    ((readMem buf base len).drop off).take n = readMem buf (base + off) n := by
  rw [readMem, List.drop_take, List.take_take, Nat.min_eq_left (by omega), List.drop_drop, readMem]

theorem readMem_take {buf : Bytes} {off n m : Nat} (h : off + n ≤ m) :
    ((buf.take m).drop off).take n = readMem buf off n := by
  have hread : ((readMem buf 0 m).drop off).take n = readMem buf (0 + off) n := readMem_readMem h
  rw [Nat.zero_add] at hread
  exact hread

/-! ## Messages -/

section Message

variable {buf : Bytes} {off n : Nat}

theorem readMem_type : (readMem buf off (4 + n)).getD 0 0 = buf.getD off 0 := by
  rw [readMem, getD_take (by omega), List.getD_eq_getElem?_getD, List.getElem?_drop, Nat.add_zero,
    ← List.getD_eq_getElem?_getD]

theorem readMem_body : (readMem buf off (4 + n)).drop 4 = readMem buf (off + 4) n := by
  rw [readMem, List.drop_take, List.drop_drop, Nat.add_sub_cancel_left, readMem]

theorem readMem_body_length (h : off + 4 + n ≤ buf.length) : ((readMem buf off (4 + n)).drop 4).length = n := by
  rw [readMem_body, readMem_length (by omega)]

theorem transcriptInto_refines (tc : Transcript) {accLen : Nat} (h : off + 4 + n ≤ accLen) (hn : n < 2 ^ 24) :
    Refines Eq (transcriptInto p tc buf accLen off n)
      (ofExcept (wnTranscriptUpdate p tc (readMem buf off (4 + n)))) := by
  rw [transcriptInto, add32c_of (by omega), pure_bind, bytesAt_of (by omega), pure_bind, Nat.add_comm n 4]
  exact .unchecked _

end Message

/-! ## Decryption -/

/-- The content and type are in `buf` where they were decrypted to, part of the
`innerLen` bytes there, and nothing before is changed. -/
structure Landed (buf : Bytes) (dst innerLen : Nat) (x : UInt8 × Nat × Bytes) (y : UInt8 × Bytes) : Prop where
  type : x.1 = y.1
  len : x.2.1 = y.2.length
  size : x.2.2.length = buf.length
  before : x.2.2.take dst = buf.take dst
  content : readMem x.2.2 dst y.2.length = y.2
  short : y.2.length < innerLen

/-- What is looked for in `buf` is what is in the plaintext written there. -/
theorem inner_refines {buf plain : Bytes} {dst innerLen : Nat} (hplain : plain.length = innerLen)
    (h : dst + innerLen ≤ buf.length) : Refines (Landed buf dst innerLen) (do
      let n := unpadded ((patch buf dst plain).drop dst) innerLen
      failIf (n = 0) (.ret .decode)
      pure ((patch buf dst plain).getD (dst + (n - 1)) 0, n - 1, patch buf dst plain) : MemIo (UInt8 × Nat × Bytes))
      (ofExcept (innerContent plain)) := by
  subst hplain
  have hn : unpadded ((patch buf dst plain).drop dst) plain.length = unpadded plain plain.length := by
    rw [drop_patch (by omega), unpadded_append _ _ _ (Nat.le_refl _)]
  dsimp only
  by_cases hzero : unpadded plain plain.length = 0
  · have hcontent : innerContent plain = .error .decode := if_pos hzero
    rw [hn, failIf_pos hzero, hcontent]
    exact .throw _
  · have hcontent : innerContent plain = .ok (plain.getD (unpadded plain plain.length - 1) 0,
        plain.take (unpadded plain plain.length - 1)) := if_neg hzero
    obtain ⟨hcount, htype, hm⟩ := innerContent_mem (show dst ≤ buf.length by omega) hcontent
    have hlen : unpadded plain plain.length - 1 = (plain.take (unpadded plain plain.length - 1)).length := by
      rw [hn] at hcount
      omega
    rw [hn, failIf_neg hzero, pure_bind, hcontent]
    refine .pure ⟨?_, hlen, patch_length h, ?_, hm, ?_⟩
    · rw [← htype, ← hlen]
    · rw [patch, List.append_assoc, List.take_append_of_le_length (by rw [List.length_take]; omega), List.take_take,
        Nat.min_self]
    · have hle := unpadded_le plain plain.length
      show (plain.take (unpadded plain plain.length - 1)).length < plain.length
      omega

theorem unprotectInto_refines {key : Block 16} {iv : Block 12} {seq : UInt64} {buf record : Bytes} {dst : Nat}
    (h : dst + (record.length - 21) ≤ buf.length) :
    Refines (Landed buf dst (record.length - 21)) (unprotectInto p key iv seq buf dst record)
      (ofExcept (wnRecordUnprotect p key iv seq record)) := by
  have hhdr : wnRecordHeaderSz = 5 := rfl
  have htag : wnRecordTagSz = 16 := rfl
  unfold unprotectInto wnRecordUnprotect
  by_cases hshort : record.length < wnRecordHeaderSz + wnRecordTagSz + 1
  · rw [failIf_pos hshort, if_pos hshort]
    exact .throw _
  rw [failIf_neg hshort, if_neg hshort, pure_bind, sub32c_of (by omega), pure_bind, sub32c_of (by omega), pure_bind]
  generalize hinner : record.length - wnRecordHeaderSz - wnRecordTagSz = innerLen
  dsimp only
  by_cases hkey : p.aesGcmSetKey key = true
  · rw [failIf_neg (by simp [hkey]), pure_bind, check_of (by omega), pure_bind, if_pos hkey]
    cases p.aesGcmDecrypt key (wnBuildNonce iv seq) (record.take wnRecordHeaderSz)
        ((record.drop wnRecordHeaderSz).take innerLen) (record.drop (wnRecordHeaderSz + innerLen)) with
    | none => exact .throw _
    | some inner =>
      have hlen : inner.val.length = innerLen := by
        rw [inner.length, List.length_take, List.length_drop]
        omega
      have hinner : record.length - 21 = innerLen := by omega
      rw [hinner]
      exact inner_refines hlen (by omega)
  · rw [failIf_pos (by simpa using hkey), if_neg hkey]
    exact .throw _

/-! ## Readers over memory -/

/-- A cursor on a message that is within the bytes received. -/
structure Reader.Inside (r : Reader) (accLen base : Nat) : Prop where
  within : r.Within
  ends : base + r.len ≤ accLen

/-- The cursor a call leaves: on by `n`, unless it failed. -/
structure Reader.Moved (r : Reader) (n : Nat) (r' : Reader) : Prop where
  buf : r'.buf = r.buf
  len : r'.len = r.len
  next : r'.err = false → r.err = false ∧ r'.pos = r.pos + n

/-- A call reads `v`; over memory it does the same, and no check fails. -/
structure Reader.Reads {α : Type} (r : Reader) (accLen base n : Nat) (read : Reader → α × Reader) (v : α)
    (r' : Reader) : Prop extends r.Moved n r' where
  eq : read r = (v, r')
  into : ∀ rest, reading accLen base n read (r.over rest) = pure (v, r'.over rest)
  inside : r'.Inside accLen base

theorem Reader.Within.moved {α : Type} {r : Reader} (h : r.Within) {n : Nat} (hn : n < 2 ^ 31) {P : Prop} [Decidable P]
    (hP : P → r.err = false) (a b : α) :
    r.Moved n (if P then (a, { r with pos := add32 r.pos n }) else (b, { r with err := true })).2 := by
  have hsmall := h.small
  have hpos := h.pos
  split
  · next hp => exact ⟨rfl, rfl, fun _ => ⟨hP hp, add32_eq (by omega)⟩⟩
  · exact ⟨rfl, rfl, nofun⟩

section Inside

variable {r : Reader} {accLen base : Nat} (h : r.Inside accLen base)
include h

theorem Reader.Inside.reading_of {α : Type} {n : Nat} (hn : n < 2 ^ 31) (read : Reader → α × Reader) (rest : Bytes) :
    reading accLen base n read (r.over rest) = pure (read (r.over rest)) := by
  have hsmall := h.within.small
  have hpos := h.within.pos
  have hends := h.ends
  unfold reading
  split
  · rfl
  · show (add32c r.pos n >>= fun next => check (next ≤ r.len → base + next ≤ accLen) .index >>= fun _ =>
      pure (read (r.over rest)) : MemIo (α × Reader)) = _
    rw [add32c_of (by omega), pure_bind, check_of (by omega), pure_bind]

theorem Reader.Inside.reads {α : Type} {n : Nat} (hn : n < 2 ^ 31) {read : Reader → α × Reader}
    (hover : ∀ rest, read (r.over rest) = ((read r).1, (read r).2.over rest) ∧ (read r).2.Within)
    (hmoved : r.Moved n (read r).2) : r.Reads accLen base n read (read r).1 (read r).2 where
  toMoved := hmoved
  eq := rfl
  into rest := by rw [h.reading_of hn, (hover rest).1]
  inside := ⟨(hover []).2, by rw [hmoved.len]; exact h.ends⟩

theorem Reader.Inside.u8 : ∃ v r', r.Reads accLen base 1 wnReadU8 v r' :=
  ⟨_, _, h.reads (by decide) (wnReadU8_over h.within) (h.within.moved (by decide) And.left _ _)⟩

theorem Reader.Inside.u16 : ∃ v r', v < 2 ^ 16 ∧ r.Reads accLen base 2 wnReadU16 v r' :=
  ⟨_, _, wnReadU16_lt r, h.reads (by decide) (wnReadU16_over h.within) (h.within.moved (by decide) And.left _ _)⟩

theorem Reader.Inside.u24 : ∃ v r', v < 2 ^ 24 ∧ r.Reads accLen base 3 wnReadU24 v r' :=
  ⟨_, _, wnReadU24_lt r, h.reads (by decide) (wnReadU24_over h.within) (h.within.moved (by decide) And.left _ _)⟩

theorem Reader.Inside.skip {n : Nat} (hn : n < 2 ^ 31) :
    ∃ r', (wnReadBytes r n).2 = r' ∧ r.Reads accLen base n (skipBytes n) () r' := by
  have hmoved : r.Moved n (wnReadBytes r n).2 := h.within.moved hn And.left _ _
  refine ⟨_, rfl, h.reads hn (fun rest => ⟨?_, (wnReadBytes_over h.within rest n).2⟩) hmoved⟩
  rw [skipBytes, (wnReadBytes_over h.within rest n).1, skipBytes]

end Inside

/-- The reader of a message in memory is one of the message, over the rest. -/
theorem wnReaderInit_over (buf : Bytes) (base n : Nat) : wnReaderInit (buf.drop base) n =
    (wnReaderInit (readMem buf base n) n).over (buf.drop (base + n)) := by
  rw [wnReaderInit, wnReaderInit, Reader.over, readMem, ← List.drop_drop, List.take_append_drop]

theorem wnReaderInit_inside {buf : Bytes} {accLen base n : Nat} (h : base + n ≤ accLen) (hbuf : accLen ≤ buf.length)
    (hn : n < 2 ^ 24) : (wnReaderInit (readMem buf base n) n).Inside accLen base :=
  ⟨⟨(readMem_length (Nat.le_trans h hbuf)).symm, Nat.zero_le _, by show n < 2 ^ 31; omega⟩, h⟩

/-! ## EncryptedExtensions -/

section EncExt

variable {accLen base : Nat} {sniOffered : Bool}

/-- A pass of the loop is a turn of the model's. -/
theorem encExtPass_refines {rest : Bytes} {r : Reader} (h : r.Inside accLen base) {m : Nat}
    (hgo : r.pos < r.len ∧ r.err = false) {next : Reader → MemIo Reader}
    (hnext : ∀ r' : Reader, r'.Inside accLen base → r'.len = r.len → r.pos + 4 ≤ r'.pos →
      Refines (fun _ _ => True) (next (r'.over rest)) (ofExcept (encExtensions r.len sniOffered m r'))) :
    Refines (fun _ _ => True) (encExtPass accLen base sniOffered (r.over rest) >>= onward next)
      (ofExcept (encExtensions r.len sniOffered (m + 1) r)) := by
  obtain ⟨et, r₁, -, h₁⟩ := h.u16
  obtain ⟨el, r₂, hel, h₂⟩ := h₁.inside.u16
  obtain ⟨r₃, hskip, h₃⟩ := h₂.inside.skip (show el < 2 ^ 31 by omega)
  rw [encExtensions, if_pos hgo]
  simp only [encExtPass, h₁.into, h₁.eq, h₂.into, h₂.eq, h₃.into, hskip, pure_bind]
  by_cases herr : r₃.err = true
  · rw [failIf_pos (by exact herr), if_pos herr]
    exact .throw _
  · obtain ⟨he₂, hp₃⟩ := h₃.next (Bool.eq_false_iff.2 herr)
    obtain ⟨he₁, hp₂⟩ := h₂.next he₂
    obtain ⟨-, hp₁⟩ := h₁.next he₁
    rw [failIf_neg (by exact herr), if_neg herr, pure_bind]
    split
    · next hbad =>
      rw [failIf_pos hbad]
      exact .throw _
    · next hok =>
      rw [failIf_neg hok]
      exact hnext r₃ h₃.inside (by rw [h₃.len, h₂.len, h₁.len]) (by omega)

theorem checkEncExtInto_refines {buf : Bytes} {n : Nat} (hend : base + n ≤ accLen) (hbuf : accLen ≤ buf.length)
    (hn : n < 2 ^ 24) : Refines Eq (checkEncExtInto buf accLen base n sniOffered)
      (ofExcept (wnCheckEncExt (readMem buf base n) sniOffered)) := by
  have hbody : (readMem buf base n).length = n := readMem_length (by omega)
  obtain ⟨extLen, r, hext, h⟩ := (wnReaderInit_inside hend hbuf hn).u16
  have hlen : r.len = n := h.len
  have hpos := h.inside.within.pos
  simp only [checkEncExtInto, wnCheckEncExt, wnReaderInit_over, hbody, h.into, h.eq, pure_bind]
  rw [Reader.over_pos, add32c_of (by omega), pure_bind, add32_eq (by omega)]
  by_cases hbad : r.err = true ∨ r.pos + extLen ≠ n
  · rw [failIf_pos (by exact hbad), if_pos hbad]
    exact .throw _
  have hextEnd : r.pos + extLen = n := by
    simp only [not_or, not_not] at hbad
    exact hbad.2
  rw [failIf_neg (by exact hbad), if_neg hbad, pure_bind, hextEnd, ← bind_pure (ofExcept _)]
  -- Each extension that is there has four bytes at least.
  refine .bind (.whileM_fuel (fun b => decide (b.pos < n ∧ b.err = false)) (fun b => (n - b.pos + 3) / 4)
    (I := fun b c => b = c.over (buf.drop (base + n)) ∧ c.Inside accLen base ∧ c.len = n) (F := fun _ _ => True)
    (f := fun m c => ofExcept (encExtensions n sniOffered m c)) (fun _ _ _ => rfl) ?_ ?_ ?_ _ _ _ _
    ⟨rfl, h.inside, hlen⟩ (by show (n - r.pos + 3) / 4 ≤ _; omega) (by show (n - r.pos + 3) / 4 ≤ _; omega))
    fun _ _ _ => .pure rfl
  · intro b c _ hgo
    have := (of_decide_eq_true hgo).1
    omega
  · rintro b c m ⟨rfl, -, -⟩ hgo
    have hstop : encExtensions n sniOffered m c = .ok () := by
      cases m with
      | zero => rfl
      | succ m => rw [encExtensions, if_neg (by exact of_decide_eq_false hgo)]
    rw [hstop]
    exact .pure trivial
  · rintro b c m next ⟨rfl, hc, rfl⟩ hgo hnext
    have hgo : c.pos < c.len ∧ c.err = false := of_decide_eq_true hgo
    refine encExtPass_refines hc hgo fun c' hc' hlen' hpos' => hnext _ _ ⟨rfl, hc', hlen'⟩ ?_
    show (c.len - c'.pos + 3) / 4 < (c.len - c.pos + 3) / 4
    omega

end EncExt

/-! ## Records left -/

theorem recordsIn_fuel (cap : Nat) : ∀ (n m : Nat) (w : World), w.pending < n → w.pending < m →
    recordsIn cap n w = recordsIn cap m w
  | n + 1, m + 1, w, hn, hm => by
    rw [recordsIn, recordsIn]
    cases hrecv : wnRecvRecord cap w with
    | error e w' => rfl
    | ok x w' =>
      have hlt := wnRecvRecord_pending hrecv
      exact congrArg (· + 1) (recordsIn_fuel cap n m w' (by omega) (by omega))

theorem World.records_ok {cap : Nat} {w w' : World} {x : UInt8 × Bytes} (h : wnRecvRecord cap w = .ok x w') :
    w.records cap = w'.records cap + 1 := by
  have hlt := wnRecvRecord_pending h
  rw [World.records, recordsIn, h]
  exact congrArg (· + 1) (recordsIn_fuel cap _ _ w' hlt (Nat.lt_succ_self _))

/-- Every turn of a flight loop has taken one. -/
theorem flightTurn_down {τ : Type} {cap : Nat} {done : τ → Bool} {take : τ → UInt8 → Bytes → Except Err τ} {st : τ}
    {x : τ ⊕ τ} {w w' : World} (h : flightTurn cap done take st w = .ok x w') :
    w'.records cap < w.records cap ∧ w'.pending < w.pending := by
  refine ⟨?_, flightTurn_pending h⟩
  obtain ⟨y, w₁, hrecv, h⟩ := bind_ok.1 h
  have hend : w' = w₁ := by
    dsimp only at h
    split at h
    · cases h
      rfl
    · obtain ⟨st', w₂, hx, h⟩ := bind_ok.1 h
      obtain ⟨-, rfl⟩ := ofExcept_eq_ok.1 hx
      cases h
      rfl
  rw [hend, World.records_ok hrecv]
  exact Nat.lt_succ_self _

end WolfNano

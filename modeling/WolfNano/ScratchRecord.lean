/-
The certificate driver's scratch as one array, and the records in it.

`wn_connect_cert_impl` parts scratch in three: records are received, opened and
sealed in the I/O region, the flight is put together in `hsacc`, and the leaf's
key is kept in `leafSpki`. Here a write names the region it is for, and it is a
fault if it is not within its bounds; what `wn_RecvRecord`, `wn_Record_Unprotect`
and `wn_Record_Protect` do is checked before they write, so also where they
fail. Each refines the function on records of the drivers' models, and leaves
the other regions as they were (`Kept`).
-/
import WolfNano.CertFlightMemory

namespace WolfNano

open Prog Wire

/-! ## The regions -/

/-- `[record I/O | hsacc | leafSpki]`. -/
inductive Region where
  | io
  | hsacc
  | leafSpki
  deriving DecidableEq

section Regions

variable (cfg : Config) (scratchLen : Nat)

/-- `ioCap`, and where `hsacc` is. -/
def ioCapOf : Nat := scratchLen - (wnHsAccSz cfg + wnLeafSpkiSz cfg)

/-- Where `leafSpki` is. -/
def leafSpkiAt : Nat := ioCapOf cfg scratchLen + wnHsAccSz cfg

def Region.start : Region → Nat
  | .io => 0
  | .hsacc => ioCapOf cfg scratchLen
  | .leafSpki => scratchLen - wnLeafSpkiSz cfg

def Region.stop : Region → Nat
  | .io => ioCapOf cfg scratchLen
  | .hsacc => ioCapOf cfg scratchLen + wnHsAccSz cfg
  | .leafSpki => scratchLen

/-- The `n` bytes at `off` are the region's. -/
abbrev Region.Holds (r : Region) (off n : Nat) : Prop := r.start cfg scratchLen ≤ off ∧ off + n ≤ r.stop cfg scratchLen

/-- What a check of scratch can find. -/
inductive ScratchFault where
  /-- A write is not within its region. -/
  | overrun (r : Region)
  /-- Bytes read are not the ones that were stored for it. -/
  | stale
  | access (f : Fault)
  deriving DecidableEq

abbrev ScratchIo := Checked ScratchFault Err World

/-- A checked access. -/
def access {α : Type} (x : MemIo α) : ScratchIo α := mapFault .access x

theorem access_pure {α : Type} (x : α) : access (pure x) = pure x := rfl

theorem access_refines {α β : Type} {R : α → β → Prop} {x : MemIo α} {y : Io β} (h : Refines R x y) :
    Refines R (access x) y := h.mapFault _

/-- The `n` bytes at `dst` are the region's to write. -/
def inRegion (r : Region) (dst n : Nat) : ScratchIo Unit := check (r.Holds cfg scratchLen dst n) (.overrun r)

/-- Store `bs` at `dst`, in that region. -/
def storeIn (r : Region) (mem : Bytes) (dst : Nat) (bs : Bytes) : ScratchIo Bytes := do
  inRegion cfg scratchLen r dst bs.length
  pure (patch mem dst bs)

/-! ## Reading a record -/

/-- The loop of `io_recv_exact` into the `n` bytes at `buf`, `got` being there.
The callback may write all that it is asked for. -/
def recvExactScratchLoop (buf n : Nat) : Nat → Bytes → Nat → ScratchIo Bytes
  | 0, mem, _ => pure mem
  | k + 1, mem, got =>
    if got < n then do
      inRegion cfg scratchLen .io (buf + got) (n - got)
      match ← unchecked (ioRecv (n - got)) with
      | none => throw (.ret .crypto)
      | some bs => do
        let mem ← storeIn cfg scratchLen .io mem (buf + got) bs
        recvExactScratchLoop buf n k mem (← access (add32c got bs.length))
    else pure mem

def recvExactScratch (buf n : Nat) (mem : Bytes) : ScratchIo Bytes :=
  recvExactScratchLoop cfg scratchLen buf n n mem 0

/-- `wn_RecvRecord` at the front of scratch: the type, the record's length, and
scratch after. -/
def recvRecordScratch (mem : Bytes) : ScratchIo (UInt8 × Nat × Bytes) := do
  let mem ← recvExactScratch cfg scratchLen 0 5 mem
  let type := mem.getD 0 0
  let frag := headerFrag mem
  failIf (BadFrag (ioCapOf cfg scratchLen) frag) (.ret .crypto)
  let mem ← recvExactScratch cfg scratchLen 5 frag mem
  failIf (type = wnRecChangeCipher ∧ (frag ≠ 1 ∨ mem.getD 5 0 ≠ 1)) (.ret .decode)
  pure (type, frag + 5, mem)

end Regions

/-! ## Protection in place -/

variable {cfg : Config} (p : Provider cfg) (scratchLen : Nat)

/-- `wn_Record_Unprotect` of the `recLen` bytes at the front, with the plaintext
behind its header. It is written before the tag is known to be right. -/
def unprotectScratch (key : Block 16) (iv : Block 12) (seq : UInt64) (mem : Bytes) (recLen : Nat) :
    ScratchIo (UInt8 × Nat × Bytes) := do
  inRegion cfg scratchLen .io wnRecordHeaderSz (recLen - wnRecordHeaderSz - wnRecordTagSz)
  access (unprotectInto p key iv seq mem wnRecordHeaderSz (readMem mem 0 recLen))

/-- The two AES-GCM calls of `wn_Record_Protect`: ciphertext and tag. -/
def aesGcmSeal (key : Block 16) (nonce : Block 12) (hdr inner : Bytes) : Option (Bytes × Block 16) :=
  if p.aesGcmSetKey key then (p.aesGcmEncrypt key nonce hdr inner).map fun out => (out.1.val, out.2) else none

/-- `wn_Record_Protect` at the front of scratch: the record's length, and scratch
after. -/
def protectScratch (key : Block 16) (iv : Block 12) (seq : UInt64) (contentType : UInt8) (content mem : Bytes) :
    ScratchIo (Nat × Bytes) := do
  let nonce := wnBuildNonce iv seq
  let traced sealed : ScratchIo Unit := unchecked (emit (.protect key nonce contentType content sealed))
  if content.length > wnMaxPlaintext then do
    traced false
    throw (.ret .invalidArg)
  else do
    let innerLen := content.length + 1
    let ctLen := innerLen + wnRecordTagSz
    let mem ← storeIn cfg scratchLen .io mem 0 (protectHeader ctLen)
    let mem ← storeIn cfg scratchLen .io mem wnRecordHeaderSz content
    let mem ← storeIn cfg scratchLen .io mem (wnRecordHeaderSz + content.length) [contentType]
    inRegion cfg scratchLen .io wnRecordHeaderSz (innerLen + wnRecordTagSz)
    let out := aesGcmSeal p key nonce (readMem mem 0 wnRecordHeaderSz) (readMem mem wnRecordHeaderSz innerLen)
    traced out.isSome
    match out with
    | none => do
      let _ ← storeIn cfg scratchLen .io mem wnRecordHeaderSz (List.replicate innerLen 0)
      throw (.ret .crypto)
    | some (ct, tag) => do
      let mem ← storeIn cfg scratchLen .io mem wnRecordHeaderSz ct
      let mem ← storeIn cfg scratchLen .io mem (wnRecordHeaderSz + innerLen) tag.val
      pure (wnRecordHeaderSz + ctLen, mem)

variable {p} {scratchLen}

/-! ## Memory -/

section Memory

variable {mem bs : Bytes} {dst off n : Nat}

/-- What was stored is there. -/
theorem readMem_patch (h : dst ≤ mem.length) : readMem (patch mem dst bs) dst bs.length = bs := by
  rw [readMem, drop_patch h, List.take_left]

theorem patch_take (h : dst ≤ mem.length) : (patch mem dst bs).take dst = mem.take dst := by
  rw [patch, List.append_assoc, List.take_append_of_le_length (by rw [List.length_take]; omega), List.take_take,
    Nat.min_self]

/-- What was stored elsewhere is not. -/
theorem readMem_patch_apart (hdst : dst ≤ mem.length) (h : off + n ≤ dst ∨ dst + bs.length ≤ off) :
    readMem (patch mem dst bs) off n = readMem mem off n := by
  cases h with
  | inl hbefore => rw [← readMem_take hbefore, patch_take hdst, readMem_take hbefore]
  | inr hbehind => rw [readMem, drop_past_patch _ _ hbehind, readMem]

theorem readMem_add (mem : Bytes) (off n m : Nat) :
    readMem mem off (n + m) = readMem mem off n ++ readMem mem (off + n) m := by
  rw [readMem, List.take_add, List.drop_drop, readMem, readMem]

theorem drop_readMem (mem : Bytes) (off n m : Nat) : (readMem mem off n).drop m = readMem mem (off + m) (n - m) := by
  rw [readMem, List.drop_take, List.drop_drop, readMem]

theorem getD_readMem {i : Nat} (h : i < n) : (readMem mem off n).getD i 0 = mem.getD (off + i) 0 := by
  rw [readMem, getD_take h, List.getD_eq_getElem?_getD, List.getElem?_drop, ← List.getD_eq_getElem?_getD]

theorem msgLenAt_readMem {i : Nat} (h : i + 4 ≤ n) : msgLenAt (readMem mem off n) i = msgLenAt mem (off + i) := by
  rw [msgLenAt, getD_readMem (by omega), getD_readMem (by omega), getD_readMem (by omega), msgLenAt]
  rfl

end Memory

/-! ## The partition -/

section Partition

variable (hmin : wnCertScratchMin cfg ≤ scratchLen)
include hmin

/-- The regions are scratch, one behind the other. -/
theorem ioCapOf_add : ioCapOf cfg scratchLen + wnHsAccSz cfg + wnLeafSpkiSz cfg = scratchLen := by
  unfold wnCertScratchMin at hmin
  unfold ioCapOf
  omega

theorem ioCapOf_ge : 4096 ≤ ioCapOf cfg scratchLen := by
  have hadd := ioCapOf_add hmin
  have hio : 4096 ≤ wnCertIoMin cfg := by
    unfold wnCertIoMin
    split <;> decide
  unfold wnCertScratchMin at hmin
  omega

theorem leafSpkiAt_eq : leafSpkiAt cfg scratchLen = scratchLen - wnLeafSpkiSz cfg := by
  have hadd := ioCapOf_add hmin
  unfold leafSpkiAt
  omega

theorem Region.stop_le (r : Region) : r.stop cfg scratchLen ≤ scratchLen := by
  have hadd := ioCapOf_add hmin
  cases r with
  | io => show ioCapOf cfg scratchLen ≤ _; omega
  | hsacc => show ioCapOf cfg scratchLen + _ ≤ _; omega
  | leafSpki => exact Nat.le_refl _

/-- No byte is in two of them. -/
theorem Region.apart {r r' : Region} (h : r ≠ r') :
    r.stop cfg scratchLen ≤ r'.start cfg scratchLen ∨ r'.stop cfg scratchLen ≤ r.start cfg scratchLen := by
  have hadd := ioCapOf_add hmin
  cases r <;> cases r' <;> simp only [Region.start, Region.stop] <;> first | exact (h rfl).elim | omega

end Partition

theorem Region.holds_io {dst n : Nat} (h : dst + n ≤ ioCapOf cfg scratchLen) :
    Region.io.Holds cfg scratchLen dst n :=
  ⟨Nat.zero_le dst, h⟩

theorem Region.holds_hsacc {i n : Nat} (h : i + n ≤ wnHsAccSz cfg) :
    Region.hsacc.Holds cfg scratchLen (ioCapOf cfg scratchLen + i) n := by
  refine ⟨Nat.le_add_right _ i, ?_⟩
  rw [Nat.add_assoc]
  exact Nat.add_le_add_left h _

/-- Scratch is as it was but for one region. -/
structure Region.Kept (cfg : Config) (scratchLen : Nat) (r : Region) (mem mem' : Bytes) : Prop where
  size : mem'.length = mem.length
  elsewhere : ∀ {r' : Region} {off n : Nat}, r' ≠ r → r'.Holds cfg scratchLen off n →
    readMem mem' off n = readMem mem off n

theorem inRegion_of {r : Region} {dst n : Nat} (h : r.Holds cfg scratchLen dst n) :
    inRegion cfg scratchLen r dst n = pure () := check_of h _

theorem storeIn_of {r : Region} {mem bs : Bytes} {dst : Nat} (h : r.Holds cfg scratchLen dst bs.length) :
    storeIn cfg scratchLen r mem dst bs = pure (patch mem dst bs) := by
  rw [storeIn, inRegion_of h]
  rfl

theorem Region.Kept.patch {r : Region} {mem bs : Bytes} {dst : Nat} (hmin : wnCertScratchMin cfg ≤ scratchLen)
    (hsize : mem.length = scratchLen) (h : r.Holds cfg scratchLen dst bs.length) :
    r.Kept cfg scratchLen mem (patch mem dst bs) := by
  have hstop := Region.stop_le hmin r
  obtain ⟨hstart, hend⟩ := h
  refine ⟨patch_length (by omega), fun {r'} off n hne hin => ?_⟩
  obtain ⟨hstart', hend'⟩ := hin
  have hapart := Region.apart hmin hne
  exact readMem_patch_apart (by omega) (by omega)

/-! ## Records received -/

section Records

variable (hmin : wnCertScratchMin cfg ≤ scratchLen)

/-- `mem'` is scratch with bytes that came stored at `buf`. -/
theorem recvExactScratchLoop_refines {buf n : Nat} (hn : n < 2 ^ 32) (hroom : buf + n ≤ ioCapOf cfg scratchLen)
    (mem : Bytes) : ∀ (k : Nat) (got : Bytes), got.length ≤ n →
      Refines (fun mem' bs => mem' = patch mem buf bs)
        (recvExactScratchLoop cfg scratchLen buf n k (patch mem buf got) got.length) (ioRecvExactLoop n k got)
  | 0, got, _ => .pure rfl
  | k + 1, got, hle => by
    unfold recvExactScratchLoop ioRecvExactLoop
    by_cases hlt : got.length < n
    · have hasked : buf + got.length + (n - got.length) ≤ ioCapOf cfg scratchLen := by omega
      rw [if_pos hlt, if_pos hlt, inRegion_of (Region.holds_io hasked), pure_bind]
      refine .bind (Refines.outcome (.unchecked _)) fun x _ hx => ?_
      obtain ⟨rfl, w, w', hrecv⟩ := hx
      cases x with
      | none => exact .throw _
      | some bs =>
        obtain ⟨-, -, -, hbs⟩ := ioRecv_ok (by omega) hrecv
        have hcame : buf + got.length + bs.length ≤ ioCapOf cfg scratchLen := by omega
        dsimp only
        rw [storeIn_of (Region.holds_io hcame), pure_bind, add32c_of (by omega), access_pure, pure_bind, patch_patch,
          ← List.length_append]
        exact recvExactScratchLoop_refines hn hroom mem k (got ++ bs) (by rw [List.length_append]; omega)
    · rw [if_neg hlt, if_neg hlt]
      exact .pure rfl

theorem recvExactScratch_refines {buf n : Nat} (hn : n < 2 ^ 32) (hroom : buf + n ≤ ioCapOf cfg scratchLen)
    (mem : Bytes) : Refines (fun mem' bs => mem' = patch mem buf bs) (recvExactScratch cfg scratchLen buf n mem)
      (ioRecvExact n) := by
  have h := recvExactScratchLoop_refines hn hroom mem n [] (Nat.zero_le n)
  rw [patch_nil] at h
  exact h

/-- The record is at the front of scratch. -/
structure Received (ioCap : Nat) (mem : Bytes) (x : UInt8 × Nat × Bytes) (y : UInt8 × Bytes) : Prop where
  type : x.1 = y.1
  len : x.2.1 = y.2.length
  mem : x.2.2 = patch mem 0 y.2
  header : 5 ≤ y.2.length
  fits : y.2.length ≤ ioCap
  max : y.2.length ≤ wnMaxPlaintext + 261

include hmin in
theorem recvRecordScratch_refines (mem : Bytes) : Refines (Received (ioCapOf cfg scratchLen) mem)
    (recvRecordScratch cfg scratchLen mem) (wnRecvRecord (ioCapOf cfg scratchLen)) := by
  have hcap := ioCapOf_ge hmin
  unfold recvRecordScratch wnRecvRecord
  refine .bind (Refines.outcome (recvExactScratch_refines (by decide) (by omega) mem)) fun _ hdr hx => ?_
  obtain ⟨rfl, w, w', hhdr⟩ := hx
  have hlen := (ioRecvExact_ok hhdr).1
  have hfrag := headerFrag_patch mem [] hlen
  rw [List.append_nil] at hfrag
  dsimp only
  rw [getD_patch (by omega), hfrag]
  refine .bind (.failIf _ _) fun _ _ hgood => ?_
  have hmax : wnMaxPlaintext = 16384 := rfl
  have hroom : 5 + headerFrag hdr ≤ ioCapOf cfg scratchLen ∧ headerFrag hdr ≤ wnMaxPlaintext + 256 ∧
      0 < headerFrag hdr := by
    unfold BadFrag at hgood
    omega
  refine .bind (Refines.outcome (recvExactScratch_refines (by omega) hroom.1 _)) fun _ body hx => ?_
  obtain ⟨rfl, u, u', hbody⟩ := hx
  have hcount := (ioRecvExact_ok hbody).1
  have hthen := patch_patch mem 0 hdr body
  rw [hlen, Nat.zero_add] at hthen
  rw [hthen, getD_patch_body hlen (by omega)]
  refine .bind (.failIf _ _) fun _ _ _ => ?_
  have hrecord : (hdr ++ body).length = headerFrag hdr + 5 := by
    rw [List.length_append, hlen, hcount, Nat.add_comm]
  have hheader : 5 ≤ (hdr ++ body).length := by omega
  have hfits : (hdr ++ body).length ≤ ioCapOf cfg scratchLen := by omega
  have hlong : (hdr ++ body).length ≤ wnMaxPlaintext + 261 := by omega
  exact .pure ⟨rfl, hrecord.symm, rfl, hheader, hfits, hlong⟩

include hmin in
theorem Received.kept {mem : Bytes} {x : UInt8 × Nat × Bytes} {y : UInt8 × Bytes}
    (h : Received (ioCapOf cfg scratchLen) mem x y) (hsize : mem.length = scratchLen) :
    Region.io.Kept cfg scratchLen mem x.2.2 ∧ readMem x.2.2 0 x.2.1 = y.2 := by
  have hfits : 0 + y.2.length ≤ ioCapOf cfg scratchLen := by
    rw [Nat.zero_add]
    exact h.fits
  rw [h.mem, h.len]
  exact ⟨.patch hmin hsize (Region.holds_io hfits), readMem_patch (Nat.zero_le _)⟩

end Records

/-! ## Records opened -/

/-- The plaintext has been written over the record, and nothing else has. -/
theorem unprotectInto_ok {key : Block 16} {iv : Block 12} {seq : UInt64} {buf record : Bytes} {dst : Nat}
    {x : UInt8 × Nat × Bytes} {w w' : World} (h : unprotectInto p key iv seq buf dst record w = .ok x w') :
    ∃ inner : Bytes, inner.length = record.length - 21 ∧ x.2.2 = patch buf dst inner := by
  have hhdr : wnRecordHeaderSz = 5 := rfl
  have htag : wnRecordTagSz = 16 := rfl
  unfold unprotectInto at h
  obtain ⟨_, w₁, hshort, h⟩ := bind_ok.1 h
  obtain ⟨hlong, -⟩ := failIf_ok.1 hshort
  rw [sub32c_of (by omega), pure_bind, sub32c_of (by omega), pure_bind] at h
  obtain ⟨_, w₂, -, h⟩ := bind_ok.1 h
  obtain ⟨_, w₃, -, h⟩ := bind_ok.1 h
  dsimp only at h
  revert h
  cases p.aesGcmDecrypt key (wnBuildNonce iv seq) (record.take wnRecordHeaderSz)
      ((record.drop wnRecordHeaderSz).take (record.length - wnRecordHeaderSz - wnRecordTagSz))
      (record.drop (wnRecordHeaderSz + (record.length - wnRecordHeaderSz - wnRecordTagSz))) with
  | none => exact fun h => nomatch h
  | some inner =>
    intro h
    obtain ⟨_, w₄, -, h⟩ := bind_ok.1 h
    cases h
    refine ⟨inner.val, ?_, rfl⟩
    rw [inner.length, List.length_take, List.length_drop]
    omega

/-- The content is behind the header, and the other regions are as they were. -/
structure Opened (cfg : Config) (scratchLen : Nat) (mem : Bytes) (recLen : Nat) (x : UInt8 × Nat × Bytes)
    (y : UInt8 × Bytes) : Prop where
  type : x.1 = y.1
  len : x.2.1 = y.2.length
  content : readMem x.2.2 wnRecordHeaderSz y.2.length = y.2
  short : y.2.length < recLen - 21
  kept : Region.io.Kept cfg scratchLen mem x.2.2

theorem unprotectScratch_refines (hmin : wnCertScratchMin cfg ≤ scratchLen) {mem : Bytes}
    (hsize : mem.length = scratchLen) (key : Block 16) (iv : Block 12) (seq : UInt64) {recLen : Nat}
    (hrec : recLen ≤ ioCapOf cfg scratchLen) :
    Refines (Opened cfg scratchLen mem recLen) (unprotectScratch p scratchLen key iv seq mem recLen)
      (ofExcept (wnRecordUnprotect p key iv seq (readMem mem 0 recLen))) := by
  have hadd := ioCapOf_add hmin
  have hcap := ioCapOf_ge hmin
  have hlen : (readMem mem 0 recLen).length = recLen := readMem_length (by omega)
  have hhdr : wnRecordHeaderSz = 5 := rfl
  have htag : wnRecordTagSz = 16 := rfl
  have hin : Region.io.Holds cfg scratchLen wnRecordHeaderSz (recLen - wnRecordHeaderSz - wnRecordTagSz) :=
    Region.holds_io (by omega)
  have hopen : Refines _ (unprotectInto p key iv seq mem wnRecordHeaderSz (readMem mem 0 recLen)) _ :=
    (unprotectInto_refines (by omega)).reached
  unfold unprotectScratch
  rw [inRegion_of hin, pure_bind]
  refine (access_refines hopen).imp ?_
  rintro x y ⟨hx, w, w', hrun⟩
  obtain ⟨inner, hinner, hmem⟩ := unprotectInto_ok hrun
  rw [hlen] at hinner
  refine ⟨hx.type, hx.len, hx.content, hlen ▸ hx.short, ?_⟩
  rw [hmem]
  exact .patch hmin hsize (Region.holds_io (by omega))

/-! ## Records sealed -/

theorem readMem_front (mem a b : Bytes) : readMem (patch mem 0 (a ++ b)) 0 a.length = a := by
  rw [readMem, patch_zero, List.drop_zero, List.append_assoc, List.take_left]

theorem readMem_behind (mem a b : Bytes) : readMem (patch mem 0 (a ++ b)) a.length b.length = b := by
  rw [readMem, patch_zero, List.append_assoc, List.drop_left, List.take_left]

/-- The second part is written over. -/
theorem patch_over (mem a : Bytes) {b b' : Bytes} (h : b'.length = b.length) :
    patch (patch mem 0 (a ++ b)) a.length b' = patch mem 0 (a ++ b') := by
  have hlen : (a ++ b').length = (a ++ b).length := by rw [List.length_append, List.length_append, h]
  rw [patch, patch_zero, patch_zero, hlen, List.append_assoc a b, List.take_left, h, ← List.append_assoc a b,
    ← List.length_append, List.drop_left]

theorem aesGcmSeal_length {key : Block 16} {nonce : Block 12} {hdr inner ct : Bytes} {tag : Block 16}
    (h : aesGcmSeal p key nonce hdr inner = some (ct, tag)) : ct.length = inner.length := by
  unfold aesGcmSeal at h
  split at h
  · obtain ⟨out, -, hout⟩ := Option.map_eq_some_iff.1 h
    cases hout
    exact out.1.length
  · cases h

theorem sealInner_cases (key : Block 16) (nonce : Block 12) (inner : Bytes) : sealInner p key nonce inner =
    match aesGcmSeal p key nonce (protectHeader (inner.length + wnRecordTagSz)) inner with
    | none => .error .crypto
    | some (ct, tag) => .ok (protectHeader (inner.length + wnRecordTagSz) ++ ct ++ tag.val) := by
  unfold sealInner aesGcmSeal
  split
  · cases h : p.aesGcmEncrypt key nonce (protectHeader (inner.length + wnRecordTagSz)) inner <;> simp only [h] <;> rfl
  · rfl

/-- The record is at the front of scratch, and the other regions are as they were. -/
structure Protected (cfg : Config) (scratchLen : Nat) (mem : Bytes) (x : Nat × Bytes) (record : Bytes) : Prop where
  len : x.1 = record.length
  record : readMem x.2 0 x.1 = record
  kept : Region.io.Kept cfg scratchLen mem x.2

theorem protectScratch_refines (hmin : wnCertScratchMin cfg ≤ scratchLen) {mem : Bytes}
    (hsize : mem.length = scratchLen) (key : Block 16) (iv : Block 12) (seq : UInt64) (contentType : UInt8)
    {content : Bytes} (hroom : content.length + 22 ≤ ioCapOf cfg scratchLen) :
    Refines (Protected cfg scratchLen mem) (protectScratch p scratchLen key iv seq contentType content mem)
      (wnRecordProtect p key iv seq contentType content) := by
  have hin : ∀ {dst n}, dst + n ≤ content.length + 22 → Region.io.Holds cfg scratchLen dst n :=
    fun h => Region.holds_io (Nat.le_trans h hroom)
  unfold protectScratch wnRecordProtect protectRecord
  dsimp only
  by_cases hlong : content.length > wnMaxPlaintext
  · rw [if_pos hlong, if_pos hlong]
    exact .seq (.unchecked _) fun _ => .throw _
  rw [if_neg hlong, if_neg hlong, sealInner_cases]
  generalize hinner : content ++ [contentType] = inner
  have hcount : content.length + 1 = inner.length := by rw [← hinner, List.length_append]; rfl
  rw [hcount]
  generalize hheader : protectHeader (inner.length + wnRecordTagSz) = hdr
  have hhdr : hdr.length = wnRecordHeaderSz := by rw [← hheader]; rfl
  have hfive : wnRecordHeaderSz = 5 := rfl
  have htag : wnRecordTagSz = 16 := rfl
  -- What is staged for the cipher is the header and the inner plaintext.
  have hstaged : patch (patch (patch mem 0 hdr) wnRecordHeaderSz content) (wnRecordHeaderSz + content.length)
      [contentType] = patch mem 0 (hdr ++ inner) := by
    have h₁ := patch_patch mem 0 hdr content
    have h₂ := patch_patch mem 0 (hdr ++ content) [contentType]
    rw [hhdr, Nat.zero_add] at h₁
    rw [List.length_append, hhdr, Nat.zero_add, List.append_assoc, hinner] at h₂
    rw [h₁, h₂]
  have hread₀ := readMem_front mem hdr inner
  have hread₅ := readMem_behind mem hdr inner
  rw [hhdr] at hread₀ hread₅
  rw [storeIn_of (hin (by omega)), pure_bind, storeIn_of (hin (by omega)), pure_bind,
    storeIn_of (hin (by rw [List.length_singleton]; omega)), pure_bind, inRegion_of (hin (by omega)), pure_bind,
    hstaged, hread₀, hread₅]
  cases hout : aesGcmSeal p key (wnBuildNonce iv seq) hdr inner with
  | none =>
    refine .seq (.unchecked _) fun _ => ?_
    dsimp only
    rw [storeIn_of (hin (by rw [List.length_replicate]; omega)), pure_bind]
    exact .throw _
  | some x =>
    obtain ⟨ct, tag⟩ := x
    have hct := aesGcmSeal_length hout
    have hover := patch_over mem hdr hct
    have hthen := patch_patch mem 0 (hdr ++ ct) tag.val
    rw [hhdr] at hover
    rw [List.length_append, hhdr, hct, Nat.zero_add] at hthen
    refine .seq (.unchecked _) fun _ => ?_
    dsimp only
    rw [storeIn_of (hin (by rw [hct]; omega)), pure_bind, storeIn_of (hin (by rw [tag.length]; omega)), pure_bind,
      hover, hthen]
    have hrecord : (hdr ++ ct ++ tag.val).length = wnRecordHeaderSz + (inner.length + wnRecordTagSz) := by
      rw [List.length_append, List.length_append, hhdr, hct, tag.length, Nat.add_assoc]
      rfl
    refine .pure ⟨hrecord.symm, ?_, .patch hmin hsize (hin (by omega))⟩
    rw [← hrecord]
    exact readMem_patch (Nat.zero_le _)

end WolfNano

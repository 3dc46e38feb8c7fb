/-
`wn_record.c`: reading one record off the transport, and TLS 1.3 record
protection (RFC 8446 5.2) with AES-128-GCM.
-/
import WolfNano.Io

namespace WolfNano

open Prog

/-! ## Reading a record -/

/-- The loop of `io_recv_exact`: call `ioRecv` until `n` bytes are there. Each
call brings at least one, so `n` calls are enough. -/
def ioRecvExactLoop (n : Nat) : Nat → Bytes → Io Bytes
  | 0, got => pure got
  | k + 1, got =>
    if got.length < n then do
      match ← ioRecv (n - got.length) with
      | none => throw .crypto
      | some bs => ioRecvExactLoop n k (got ++ bs)
    else pure got

def ioRecvExact (n : Nat) : Io Bytes := ioRecvExactLoop n n []

/-- The length field of a record header. -/
def headerFrag (hdr : Bytes) : Nat := word16Of (hdr.getD 3 0) (hdr.getD 4 0)

/-- `wn_RecvRecord` into a buffer of `cap` bytes: the content type and the
whole record, header first. -/
def wnRecvRecord (cap : Nat) : Io (UInt8 × Bytes) := do
  let hdr ← ioRecvExact 5
  let type := hdr.getD 0 0
  let frag := headerFrag hdr
  failIf (frag = 0 ∨ frag + 5 > cap ∨ frag > wnMaxPlaintext + 256) .crypto
  let body ← ioRecvExact frag
  failIf (type = wnRecChangeCipher ∧ (frag ≠ 1 ∨ body.getD 0 0 ≠ 1)) .decode
  pure (type, hdr ++ body)

/-! ## Protection -/

/-- `wn_BuildNonce`: the iv, the low eight bytes xored with the sequence number. -/
def wnBuildNonce (iv : Block 12) (seq : UInt64) : Block 12 :=
  ⟨(List.range 8).foldl
      (fun nonce i => nonce.modify (11 - i) (· ^^^ UInt8.ofNat (seq.toNat >>> (8 * i)))) iv.val,
    by simp [List.range_succ]⟩

/-- The header `wn_Record_Protect` writes for `ctLen` bytes of ciphertext and tag. -/
def protectHeader (ctLen : Nat) : Bytes :=
  [23, 3, 3, UInt8.ofNat (ctLen >>> 8), UInt8.ofNat ctLen]

variable {cfg : Config} (p : Provider cfg)

/-- The AES-GCM part of `wn_Record_Protect`: the record that seals `inner`. -/
def sealInner (key : Block 16) (nonce : Block 12) (inner : Bytes) : Except Err Bytes :=
  let hdr := protectHeader (inner.length + wnRecordTagSz)
  if p.aesGcmSetKey key then
    match p.aesGcmEncrypt key nonce hdr inner with
    | some (ct, tag) => .ok (hdr ++ ct.val ++ tag.val)
    | none => .error .crypto
  else .error .crypto

/-- The record `wn_Record_Protect` builds. -/
def protectRecord (key : Block 16) (iv : Block 12) (seq : UInt64) (contentType : UInt8)
    (content : Bytes) : Except Err Bytes :=
  if content.length > wnMaxPlaintext then .error .invalidArg
  else sealInner p key (wnBuildNonce iv seq) (content ++ [contentType])

/-- `wn_Record_Protect`, traced. -/
def wnRecordProtect (key : Block 16) (iv : Block 12) (seq : UInt64) (contentType : UInt8)
    (content : Bytes) : Io Bytes := do
  let r := protectRecord p key iv seq contentType content
  emit (.protect key (wnBuildNonce iv seq) contentType content r.isOk)
  ofExcept r

/-- The padding loop of `wn_Record_Unprotect`: how much of the first `n` bytes
is left when zeros at the end are dropped. -/
def unpadded (content : Bytes) : Nat → Nat
  | 0 => 0
  | n + 1 => if content.getD n 0 = 0 then unpadded content n else n + 1

/-- The content type and content of a decrypted inner plaintext. -/
def innerContent (inner : Bytes) : Except Err (UInt8 × Bytes) :=
  let n := unpadded inner inner.length
  if n = 0 then .error .decode
  else .ok (inner.getD (n - 1) 0, inner.take (n - 1))

/-- `wn_Record_Unprotect`: the content type and content of a record. -/
def wnRecordUnprotect (key : Block 16) (iv : Block 12) (seq : UInt64) (record : Bytes) :
    Except Err (UInt8 × Bytes) :=
  if record.length < wnRecordHeaderSz + wnRecordTagSz + 1 then .error .invalidArg
  else
    let innerLen := record.length - wnRecordHeaderSz - wnRecordTagSz
    if p.aesGcmSetKey key then
      match p.aesGcmDecrypt key (wnBuildNonce iv seq) (record.take wnRecordHeaderSz)
          ((record.drop wnRecordHeaderSz).take innerLen) (record.drop (wnRecordHeaderSz + innerLen)) with
      | some inner => innerContent inner.val
      | none => .error .badMac
    else .error .crypto

end WolfNano

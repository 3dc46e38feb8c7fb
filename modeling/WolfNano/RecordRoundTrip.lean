/-
The record layer as a format: what `wn_Record_Protect` seals, `wn_RecvRecord`
reads back from any chunking and `wn_Record_Unprotect` opens, into a separate
buffer or over the record itself; and so for the padded records of a peer.

`wnRecordUnprotectMem` is `wn_Record_Unprotect` on memory, where the plaintext
lands at `content` before the type byte is looked for there.
`wnRecordUnprotectMem_ok` says that what it finds is the value
`wnRecordUnprotect` computes.
-/
import WolfNano.ProtectFacts
import WolfNano.ClearProvider

namespace WolfNano

open Prog Wire

/-! ## Opening in memory -/

/-- The `n` bytes at `off`. -/
def readMem (mem : Bytes) (off n : Nat) : Bytes := (mem.drop off).take n

variable {cfg : Config} (p : Provider cfg)

/-- `wn_Record_Unprotect` of the `recLen` bytes at `record`, with the plaintext
written at `content`: the type, the length, and the memory after. -/
def wnRecordUnprotectMem (key : Block 16) (iv : Block 12) (seq : UInt64) (mem : Bytes)
    (content record recLen : Nat) : Except Err (UInt8 × Nat × Bytes) :=
  if recLen < wnRecordHeaderSz + wnRecordTagSz + 1 then .error .invalidArg
  else
    let innerLen := recLen - wnRecordHeaderSz - wnRecordTagSz
    if p.aesGcmSetKey key then
      match p.aesGcmDecrypt key (wnBuildNonce iv seq) (readMem mem record wnRecordHeaderSz)
          (readMem mem (record + wnRecordHeaderSz) innerLen)
          (readMem mem (record + wnRecordHeaderSz + innerLen) wnRecordTagSz) with
      | some inner =>
        let mem := patch mem content inner.val
        let n := unpadded (mem.drop content) innerLen
        if n = 0 then .error .decode else .ok (mem.getD (content + (n - 1)) 0, n - 1, mem)
      | none => .error .badMac
    else .error .crypto

theorem readMem_length {mem : Bytes} {off n : Nat} (h : off + n ≤ mem.length) : (readMem mem off n).length = n := by
  simp [readMem]
  omega

theorem unpadded_append (plain rest : Bytes) : ∀ n ≤ plain.length, unpadded (plain ++ rest) n = unpadded plain n
  | 0, _ => rfl
  | n + 1, hn => by
    have hget : (plain ++ rest).getD n 0 = plain.getD n 0 := List.getD_append _ _ _ _ (by omega)
    rw [unpadded, unpadded, unpadded_append plain rest n (by omega), hget]

/-- What is found where a plaintext was written is its content and type. -/
theorem innerContent_mem {mem plain m : Bytes} {content : Nat} {type : UInt8} (hout : content ≤ mem.length)
    (h : innerContent plain = .ok (type, m)) :
    unpadded ((patch mem content plain).drop content) plain.length = m.length + 1 ∧
      (patch mem content plain).getD (content + m.length) 0 = type ∧
      readMem (patch mem content plain) content m.length = m := by
  have hdrop : (patch mem content plain).drop content = plain ++ mem.drop (content + plain.length) := drop_patch hout
  obtain ⟨htype, pad, rfl⟩ := innerContent_ok h
  have hn := unpadded_inner htype m pad pad (Nat.le_refl _)
  refine ⟨?_, ?_, ?_⟩
  · rw [hdrop, unpadded_append _ _ _ (Nat.le_refl _), inner_length, hn]
  · rw [List.getD_eq_getElem?_getD, ← List.getElem?_drop, hdrop]
    simp [Rfc.inner]
  · rw [readMem, hdrop, Rfc.inner, List.append_assoc, List.take_left]

/-- **Opening in memory** finds, at `content`, the content and type that the
record's bytes have. -/
theorem wnRecordUnprotectMem_ok {key : Block 16} {iv : Block 12} {seq : UInt64} {mem m : Bytes}
    {content record recLen : Nat} {type : UInt8} (hrec : record + recLen ≤ mem.length)
    (hout : content ≤ mem.length)
    (h : wnRecordUnprotect p key iv seq (readMem mem record recLen) = .ok (type, m)) :
    ∃ mem', wnRecordUnprotectMem p key iv seq mem content record recLen = .ok (type, m.length, mem') ∧
      readMem mem' content m.length = m := by
  have hlen := readMem_length hrec
  have hlong := wnRecordUnprotect_long p h
  rw [hlen] at hlong
  have hsplit : readMem mem record recLen = readMem mem record 5 ++ readMem mem (record + 5) (recLen - 21) ++
      readMem mem (record + 5 + (recLen - 21)) 16 := by
    have hsum : recLen = 5 + (recLen - 21) + 16 := by omega
    simp only [readMem]
    conv => lhs; rw [hsum]
    rw [List.take_add, List.take_add, List.drop_drop, List.drop_drop, Nat.add_assoc record]
  rw [hsplit, wnRecordUnprotect_eq p key iv seq (readMem_length (by omega))
    (by rw [readMem_length (by omega)]; omega) (readMem_length (by omega)), ← wnBuildNonce_eq, decrypted] at h
  unfold wnRecordUnprotectMem
  rw [if_neg (by simp only [wnRecordHeaderSz, wnRecordTagSz]; omega)]
  split at h
  · next hkey =>
    rw [if_pos hkey]
    have hct : (readMem mem (record + 5) (recLen - 21)).length = recLen - 21 := readMem_length (by omega)
    simp only [wnRecordHeaderSz, wnRecordTagSz, Nat.sub_sub, Nat.reduceAdd]
    cases hdec : p.aesGcmDecrypt key (wnBuildNonce iv seq) (readMem mem record 5)
        (readMem mem (record + 5) (recLen - 21)) (readMem mem (record + 5 + (recLen - 21)) 16) with
    | none =>
      rw [hdec] at h
      cases h
    | some inner =>
      rw [hdec] at h
      have hinner : inner.val.length = recLen - 21 := by rw [inner.length, hct]
      obtain ⟨hn, htype, hm⟩ := innerContent_mem hout h
      rw [hinner] at hn
      refine ⟨patch mem content inner.val, ?_, hm⟩
      simp only [hn, Nat.succ_ne_zero, if_false, Nat.add_sub_cancel, htype]
  · cases h

/-! ## The round trip -/

/-- `wn_RecvRecord`, with room for it, reads the record off any stream that
starts with it, in whatever pieces. -/
def ReadsBack (record : Bytes) : Prop :=
  ∀ (cap : Nat) (w : World) (rest : Bytes), record.length ≤ cap → w.Flowing →
    w.inbox.flatten = record ++ rest → ∃ inbox, [] ∉ inbox ∧ inbox.flatten = rest ∧
      wnRecvRecord cap w = .ok (wnRecAppdata, record) { w with inbox }

/-- `wn_Record_Unprotect` opens the record to the type and content, from any
place in memory, in place or into a buffer that does not overlap it. -/
def Opens (key : Block 16) (iv : Block 12) (seq : UInt64) (record : Bytes) (type : UInt8) (m : Bytes) : Prop :=
  wnRecordUnprotect p key iv seq record = .ok (type, m) ∧
  ∀ (mem : Bytes) (off content : Nat), off + record.length ≤ mem.length → readMem mem off record.length = record →
    content + (record.length - 21) ≤ mem.length →
    (content = off + 5 ∨ content + (record.length - 21) ≤ off ∨ off + record.length ≤ content) →
    ∃ mem', wnRecordUnprotectMem p key iv seq mem content off record.length = .ok (type, m.length, mem') ∧
      readMem mem' content m.length = m

theorem sealRecord_readsBack {t : TrafficKeys} {n pad : Nat} {type : UInt8} {m record : Bytes}
    (h : Rfc.sealRecord p t n type m pad = some record) (hlen : m.length + 1 + pad + 16 ≤ 2 ^ 14 + 256) :
    record.length = 5 + (m.length + 1 + pad + 16) ∧ headerFrag record = m.length + 1 + pad + 16 ∧
      ReadsBack record := by
  obtain ⟨body, rfl, hbody⟩ := ciphertext_wire p h
  rw [inner_length] at hbody
  have hfrag : headerFrag (wireRecord wnRecAppdata 3 3 body) = body.length := by
    have := headerFrag_eq 23 3 3 (UInt8.ofNat (body.length >>> 8)) (UInt8.ofNat body.length)
    rw [← be_two, unbe_be (by omega)] at this
    rw [← this]
    simp [headerFrag, wireRecord, vec, be_two]
  refine ⟨by rw [wireRecord_length, hbody], by rw [hfrag, hbody], fun cap w rest hcap hw hflat => ?_⟩
  obtain ⟨inbox, hin, hrest, hread⟩ := wnRecvRecord_wire cap hw hflat (by omega)
  have hcheck : recordCheck cap wnRecAppdata body = .ok () :=
    recordCheck_ok.2 ⟨List.ne_nil_of_length_pos (by omega), by simpa [Nat.add_comm] using hcap,
      by simp only [wnMaxPlaintext]; omega, by simp [wnRecAppdata, wnRecChangeCipher]⟩
  rw [hcheck] at hread
  exact ⟨inbox, hin, hrest hcheck, hread⟩

theorem sealRecord_opens (hopen : p.OpensSealed) {t : TrafficKeys} (hk : p.aesGcmSetKey t.key = true)
    {seq : UInt64} {pad : Nat} {type : UInt8} (ht : type ≠ 0) {m record : Bytes}
    (h : Rfc.sealRecord p t seq.toNat type m pad = some record) : Opens p t.key t.iv seq record type m := by
  have hval := unprotect_sealRecord p hopen hk ht h
  refine ⟨hval, fun mem off content hoff hread hout _ => ?_⟩
  rw [← hread] at hval
  exact wnRecordUnprotectMem_ok p hoff (by omega) hval

/-- **Open after seal, over the whole format**: for every key, iv, sequence
number, type other than zero and content up to the limit, what
`wn_Record_Protect` builds has the exact size and length field, is read back
from any chunking, and opens to the type and content; and so does the record a
peer seals with any padding that the record limit allows. -/
theorem wnRecordProtect_roundTrip {p : Provider cfg} (hopen : p.OpensSealed) {t : TrafficKeys}
    (hk : p.aesGcmSetKey t.key = true) (henc : ∀ nonce aad pt, p.aesGcmEncrypt t.key nonce aad pt ≠ none)
    (seq : UInt64) {type : UInt8} (ht : type ≠ 0) {m : Bytes} (hlen : m.length ≤ 2 ^ 14) :
    (∃ record, protectRecord p t.key t.iv seq type m = .ok record ∧ record.length = 5 + m.length + 17 ∧
      headerFrag record = m.length + 17 ∧ ReadsBack record ∧ Opens p t.key t.iv seq record type m) ∧
    ∀ pad, m.length + 1 + pad + 16 ≤ 2 ^ 14 + 256 → ∃ record,
      Rfc.sealRecord p t seq.toNat type m pad = some record ∧ ReadsBack record ∧
        Opens p t.key t.iv seq record type m := by
  have hseal : ∀ pad, ∃ record, Rfc.sealRecord p t seq.toNat type m pad = some record := by
    intro pad
    obtain ⟨⟨ct, tag⟩, he⟩ := Option.ne_none_iff_exists'.1 (henc (Rfc.nonce t.iv seq.toNat)
      (Rfc.header ((Rfc.inner type m pad).length + 16)) (Rfc.inner type m pad))
    exact ⟨_, by rw [Rfc.sealRecord, Rfc.ciphertext, he]; rfl⟩
  constructor
  · obtain ⟨record, hrec⟩ := hseal 0
    obtain ⟨hsize, hfrag, hread⟩ := sealRecord_readsBack p hrec (by omega)
    refine ⟨record, ?_, by omega, by omega, hread, sealRecord_opens p hopen hk ht hrec⟩
    rw [protectRecord_eq p hk seq type (by simpa [wnMaxPlaintext] using hlen), hrec]
    rfl
  · intro pad hpad
    obtain ⟨record, hrec⟩ := hseal pad
    exact ⟨record, hrec, (sealRecord_readsBack p hrec hpad).2.2, sealRecord_opens p hopen hk ht hrec⟩

theorem wnRecordProtect_roundTrip_clear :
    (∃ record, protectRecord (Provider.clear .small) clearHsKeys.key clearHsKeys.iv 7 23 [1, 0] = .ok record ∧
      record.length = 5 + [(1 : UInt8), 0].length + 17 ∧ headerFrag record = [(1 : UInt8), 0].length + 17 ∧
      ReadsBack record ∧ Opens (Provider.clear .small) clearHsKeys.key clearHsKeys.iv 7 record 23 [1, 0]) ∧
    ∀ pad, [(1 : UInt8), 0].length + 1 + pad + 16 ≤ 2 ^ 14 + 256 → ∃ record,
      Rfc.sealRecord (Provider.clear .small) clearHsKeys (7 : UInt64).toNat 23 [1, 0] pad = some record ∧
        ReadsBack record ∧ Opens (Provider.clear .small) clearHsKeys.key clearHsKeys.iv 7 record 23 [1, 0] :=
  wnRecordProtect_roundTrip (Provider.clear_opensSealed _) rfl (by simp [Provider.clear]) 7 (by decide) (by decide)

end WolfNano

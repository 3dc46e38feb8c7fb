/-
Record protection is what RFC 8446 5.2 says: `wnBuildNonce` is `Rfc.nonce`,
`protectRecord` seals as `Rfc.sealRecord`, and a record opens to the content
of the inner plaintext its decryption is (`wnRecordUnprotect_ok`).
-/
import WolfNano.Rfc8446
import WolfNano.RecordFacts

namespace WolfNano

open Prog Wire

/-! ## Nonces -/

theorem be_twelve {n : Nat} (h : n < 2 ^ 64) :
    be 12 n = [0, 0, 0, 0, UInt8.ofNat (n >>> 56), UInt8.ofNat (n >>> 48), UInt8.ofNat (n >>> 40),
      UInt8.ofNat (n >>> 32), UInt8.ofNat (n >>> 24), UInt8.ofNat (n >>> 16), UInt8.ofNat (n >>> 8),
      UInt8.ofNat n] := by
  have hz : ∀ m, 8 ≤ m → n / 256 ^ m = 0 := fun m hm =>
    Nat.div_eq_of_lt (Nat.lt_of_lt_of_le h (by
      calc 2 ^ 64 = 256 ^ 8 := by norm_num
        _ ≤ 256 ^ m := Nat.pow_le_pow_right (by decide) hm))
  simp only [be, hz 11 (by decide), hz 10 (by decide), hz 9 (by decide), hz 8 (by decide),
    Nat.shiftRight_eq_div_pow]
  norm_num
  rfl

theorem wnBuildNonce_eq (iv : Block 12) (seq : UInt64) : wnBuildNonce iv seq = Rfc.nonce iv seq.toNat := by
  obtain ⟨iv, hiv⟩ := iv
  apply Subtype.ext
  simp only [wnBuildNonce, Rfc.nonce, be_twelve seq.toNat_lt]
  match iv, hiv with
  | [a, b, c, d, e, f, g, h, i, j, k, l], _ => simp [List.range_succ]

theorem zipWith_xor_cancel : ∀ (xs ys : Bytes), ys.length = xs.length →
    List.zipWith (· ^^^ ·) xs (List.zipWith (· ^^^ ·) xs ys) = ys
  | [], ys, h => (List.eq_nil_of_length_eq_zero h).symm
  | x :: xs, y :: ys, h => by
    have hrest := zipWith_xor_cancel xs ys (by simpa using h)
    rw [List.zipWith_cons_cons, List.zipWith_cons_cons, hrest, ← UInt8.xor_assoc, UInt8.xor_self, UInt8.zero_xor]

/-- Under one iv, distinct sequence numbers have distinct nonces. -/
theorem Rfc.nonce_inj {iv : Block 12} {m n : Nat} (hm : m < 2 ^ 64) (hn : n < 2 ^ 64)
    (h : Rfc.nonce iv m = Rfc.nonce iv n) : m = n := by
  have hx : ∀ k, List.zipWith (· ^^^ ·) iv.val (Rfc.nonce iv k).val = be 12 k :=
    fun k => zipWith_xor_cancel _ _ (by simp)
  have : be 12 m = be 12 n := by rw [← hx m, ← hx n, h]
  exact be_inj (by omega) (by omega) this

theorem wnBuildNonce_inj {iv : Block 12} {a b : UInt64} (h : wnBuildNonce iv a = wnBuildNonce iv b) :
    a = b := by
  rw [wnBuildNonce_eq, wnBuildNonce_eq] at h
  exact UInt64.toNat_inj.1 (Rfc.nonce_inj a.toNat_lt b.toNat_lt h)

/-! ## The inner plaintext -/

theorem unpadded_le (content : Bytes) : ∀ n, unpadded content n ≤ n
  | 0 => Nat.le_refl 0
  | n + 1 => by
    rw [unpadded]
    split
    · exact Nat.le_succ_of_le (unpadded_le content n)
    · exact Nat.le_refl _

theorem unpadded_last (content : Bytes) : ∀ n, unpadded content n ≠ 0 →
    content.getD (unpadded content n - 1) 0 ≠ 0
  | 0, h => absurd rfl h
  | n + 1, h => by
    rw [unpadded] at h ⊢
    split
    · next hz => rw [if_pos hz] at h; exact unpadded_last content n h
    · next hz => simpa using hz

theorem take_succ_getD {content : Bytes} {n : Nat} (h : n < content.length) :
    content.take (n + 1) = content.take n ++ [content.getD n 0] := by
  rw [List.take_succ_eq_append_getElem h, List.getD_eq_getElem?_getD, List.getElem?_eq_getElem h]
  rfl

/-- Only zeros are dropped. -/
theorem take_unpadded (content : Bytes) : ∀ n ≤ content.length,
    content.take n = content.take (unpadded content n) ++ List.replicate (n - unpadded content n) 0
  | 0, _ => by simp [unpadded]
  | n + 1, hn => by
    rw [unpadded]
    split
    · next hz =>
      have hle := unpadded_le content n
      rw [take_succ_getD (by omega), hz, take_unpadded content n (by omega), List.append_assoc,
        ← List.replicate_succ', Nat.succ_sub hle]
    · simp

theorem unpadded_inner {type : UInt8} (ht : type ≠ 0) (content : Bytes) (pad : Nat) :
    ∀ k ≤ pad, unpadded (Rfc.inner type content pad) (content.length + 1 + k) = content.length + 1
  | 0, _ => by
    rw [unpadded, if_neg]
    simpa [Rfc.inner, List.getD_eq_getElem?_getD] using ht
  | k + 1, hk => by
    have hz : (Rfc.inner type content pad).getD (content.length + 1 + k) 0 = 0 := by
      rw [Rfc.inner, List.getD_eq_getElem?_getD, List.getElem?_append_right (by omega)]
      have : content.length + 1 + k - content.length = k + 1 := by omega
      rw [this, List.getElem?_cons_succ, List.getElem?_replicate_of_lt (by omega)]
      rfl
    rw [← Nat.add_assoc, unpadded, if_pos hz]
    exact unpadded_inner ht content pad k (by omega)

theorem inner_length (type : UInt8) (content : Bytes) (pad : Nat) :
    (Rfc.inner type content pad).length = content.length + 1 + pad := by
  simp [Rfc.inner]; omega

/-- The content and type of an inner plaintext are found again. -/
theorem innerContent_inner {type : UInt8} (ht : type ≠ 0) (content : Bytes) (pad : Nat) :
    innerContent (Rfc.inner type content pad) = .ok (type, content) := by
  have hn := unpadded_inner ht content pad pad (Nat.le_refl _)
  rw [innerContent, inner_length, hn]
  simp [Rfc.inner, List.getD_eq_getElem?_getD]

/-- And only those of an inner plaintext are. -/
theorem innerContent_ok {plain content : Bytes} {type : UInt8} (h : innerContent plain = .ok (type, content)) :
    type ≠ 0 ∧ ∃ pad, plain = Rfc.inner type content pad := by
  simp only [innerContent] at h
  split at h
  · cases h
  · next hn =>
    have hle := unpadded_le plain plain.length
    have hlast := unpadded_last plain plain.length hn
    have htake := take_unpadded plain plain.length (Nat.le_refl _)
    generalize unpadded plain plain.length = n at h hn hle hlast htake
    obtain ⟨n, rfl⟩ := Nat.exists_eq_succ_of_ne_zero hn
    cases h
    refine ⟨hlast, plain.length - (n + 1), ?_⟩
    rw [List.take_length, take_succ_getD (by omega), List.append_assoc] at htake
    exact htake

/-! ## Sealing and opening -/

variable {cfg : Config} (p : Provider cfg)

theorem protectHeader_eq (n : Nat) : protectHeader n = Rfc.header n := by
  simp [protectHeader, Rfc.header, be_two]

/-- A TLSCiphertext is a record on the wire. -/
theorem ciphertext_wire {key : Block 16} {n : Block 12} {plain record : Bytes}
    (h : Rfc.ciphertext p key n plain = some record) :
    ∃ body, record = wireRecord wnRecAppdata 3 3 body ∧ body.length = plain.length + 16 := by
  simp only [Rfc.ciphertext, Option.map_eq_some_iff, Prod.exists] at h
  obtain ⟨ct, tag, -, rfl⟩ := h
  exact ⟨ct.val ++ tag.val, by simp [wireRecord, Rfc.header, vec, wnRecAppdata], by simp⟩

theorem sealInner_eq {key : Block 16} (hk : p.aesGcmSetKey key = true) (n : Block 12) (plain : Bytes) :
    sealInner p key n plain = orCrypto (Rfc.ciphertext p key n plain) := by
  simp only [sealInner, hk, if_true, protectHeader_eq, wnRecordTagSz, Rfc.ciphertext]
  cases p.aesGcmEncrypt key n (Rfc.header (plain.length + 16)) plain <;> rfl

theorem sealInner_ok {key : Block 16} {n : Block 12} {plain record : Bytes} (h : sealInner p key n plain = .ok record) :
    Rfc.ciphertext p key n plain = some record := by
  cases hk : p.aesGcmSetKey key with
  | false => simp [sealInner, hk] at h
  | true =>
    rw [sealInner_eq p hk] at h
    cases hc : Rfc.ciphertext p key n plain with
    | none => simp [hc, orCrypto] at h
    | some r => simpa [hc, orCrypto] using h

/-- `wn_Record_Protect` seals as the RFC does, without padding. -/
theorem protectRecord_eq {t : TrafficKeys} (hk : p.aesGcmSetKey t.key = true) (seq : UInt64) (type : UInt8)
    {content : Bytes} (hlen : content.length ≤ wnMaxPlaintext) :
    protectRecord p t.key t.iv seq type content =
      orCrypto (Rfc.sealRecord p t seq.toNat type content 0) := by
  rw [protectRecord, if_neg (by omega), wnBuildNonce_eq, sealInner_eq p hk]
  rfl

/-- The plaintext a ciphertext decrypts to. -/
def decrypted (key : Block 16) (n : Block 12) (hdr ct tag : Bytes) : Option Bytes :=
  (p.aesGcmDecrypt key n hdr ct tag).map (·.val)

theorem wnRecordUnprotect_eq (key : Block 16) (iv : Block 12) (seq : UInt64) {hdr ct tag : Bytes}
    (hh : hdr.length = 5) (hc : 1 ≤ ct.length) (ht : tag.length = 16) :
    wnRecordUnprotect p key iv seq (hdr ++ ct ++ tag) =
      if p.aesGcmSetKey key then
        match decrypted p key (Rfc.nonce iv seq.toNat) hdr ct tag with
        | some plain => innerContent plain
        | none => .error .badMac
      else .error .crypto := by
  have hn : (hdr ++ ct ++ tag).length - 5 - 16 = ct.length := by simp; omega
  have htake : (hdr ++ ct ++ tag).take 5 = hdr := by rw [List.append_assoc, ← hh, List.take_left]
  have hmid : ((hdr ++ ct ++ tag).drop 5).take ((hdr ++ ct ++ tag).length - 5 - 16) = ct := by
    rw [hn, List.append_assoc, ← hh, List.drop_left, List.take_left]
  have hend : (hdr ++ ct ++ tag).drop (5 + ((hdr ++ ct ++ tag).length - 5 - 16)) = tag := by
    rw [hn, ← hh, ← List.length_append, List.drop_left]
  have hlen : ¬ (hdr ++ ct ++ tag).length < 5 + 16 + 1 := by simp; omega
  have hdec : decrypted p key (Rfc.nonce iv seq.toNat) hdr ct tag =
      decrypted p key (Rfc.nonce iv seq.toNat) ((hdr ++ ct ++ tag).take 5)
        (((hdr ++ ct ++ tag).drop 5).take ((hdr ++ ct ++ tag).length - 5 - 16))
        ((hdr ++ ct ++ tag).drop (5 + ((hdr ++ ct ++ tag).length - 5 - 16))) := by
    rw [htake, hmid, hend]
  rw [hdec, decrypted, ← wnBuildNonce_eq]
  unfold wnRecordUnprotect
  split
  · next h => exact absurd h hlen
  · simp only [wnRecordHeaderSz, wnRecordTagSz]
    generalize p.aesGcmDecrypt _ _ _ _ _ = d
    cases d <;> rfl

theorem wnRecordUnprotect_long {key : Block 16} {iv : Block 12} {seq : UInt64} {record : Bytes}
    {r : UInt8 × Bytes} (h : wnRecordUnprotect p key iv seq record = .ok r) : 22 ≤ record.length := by
  unfold wnRecordUnprotect at h
  split at h
  · cases h
  · next hlen => simpa [wnRecordHeaderSz, wnRecordTagSz] using hlen

/-- What opening a record found. -/
theorem wnRecordUnprotect_ok {key : Block 16} {iv : Block 12} {seq : UInt64} {record content : Bytes}
    {type : UInt8} (h : wnRecordUnprotect p key iv seq record = .ok (type, content)) :
    ∃ hdr ct tag pad, record = hdr ++ ct ++ tag ∧ hdr.length = 5 ∧ tag.length = 16 ∧ type ≠ 0 ∧
      decrypted p key (Rfc.nonce iv seq.toNat) hdr ct tag = some (Rfc.inner type content pad) := by
  have hlen := wnRecordUnprotect_long p h
  obtain ⟨hdr, ct, tag, rfl, hh, hc, ht⟩ : ∃ hdr ct tag, record = hdr ++ ct ++ tag ∧ hdr.length = 5 ∧
      1 ≤ ct.length ∧ tag.length = 16 := by
    refine ⟨record.take 5, (record.drop 5).take (record.length - 21), (record.drop 5).drop (record.length - 21),
      ?_, by simp; omega, by simp; omega, by simp; omega⟩
    rw [List.append_assoc, List.take_append_drop, List.take_append_drop]
  rw [wnRecordUnprotect_eq p key iv seq hh hc ht] at h
  split at h
  · split at h
    · next plain hdec =>
      obtain ⟨htype, pad, rfl⟩ := innerContent_ok h
      exact ⟨hdr, ct, tag, pad, rfl, hh, ht, htype, hdec⟩
    · cases h
  · cases h

/-- What a record holds is shorter than the record. -/
theorem wnRecordUnprotect_length {key : Block 16} {iv : Block 12} {seq : UInt64} {record content : Bytes}
    {type : UInt8} (h : wnRecordUnprotect p key iv seq record = .ok (type, content)) :
    content.length + 22 ≤ record.length := by
  obtain ⟨hdr, ct, tag, pad, rfl, hh, ht, -, hdec⟩ := wnRecordUnprotect_ok p h
  rw [decrypted, Option.map_eq_some_iff] at hdec
  obtain ⟨plain, -, hplain⟩ := hdec
  have hlen := congrArg List.length hplain
  rw [plain.length, inner_length] at hlen
  simp only [List.length_append]
  omega

/-- **Open after seal**: a sealed record opens, under the same keys and
sequence number, to its type and content. -/
theorem unprotect_sealRecord (hopen : p.OpensSealed) {t : TrafficKeys} (hk : p.aesGcmSetKey t.key = true)
    {seq : UInt64} {type : UInt8} (ht : type ≠ 0) {content record : Bytes} {pad : Nat}
    (h : Rfc.sealRecord p t seq.toNat type content pad = some record) :
    wnRecordUnprotect p t.key t.iv seq record = .ok (type, content) := by
  simp only [Rfc.sealRecord, Rfc.ciphertext, Option.map_eq_some_iff, Prod.exists] at h
  obtain ⟨ct, tag, henc, rfl⟩ := h
  obtain ⟨plain, hdec, hplain⟩ := hopen henc
  rw [wnRecordUnprotect_eq p _ _ _ (by simp [Rfc.header]) (by simp [inner_length]; omega) tag.length,
    if_pos hk, decrypted, hdec]
  simp only [Option.map_some, hplain]
  exact innerContent_inner ht content pad

theorem inner_dropWhile {type : UInt8} (ht : type ≠ 0) (content : Bytes) (pad : Nat) :
    (Rfc.inner type content pad).reverse.dropWhile (· == 0) = type :: content.reverse := by
  have hzeros : ∀ n, (List.replicate n (0 : UInt8) ++ type :: content.reverse).dropWhile (· == 0) =
      type :: content.reverse := by
    intro n
    induction n with
    | zero => simp [ht]
    | succ n ih => simpa [List.replicate_succ] using ih
  simp only [Rfc.inner, List.reverse_append, List.reverse_cons, List.reverse_replicate, List.append_assoc,
    List.singleton_append]
  exact hzeros pad

/-- A peer opens what was sealed. -/
theorem Rfc.openRecord_sealRecord (hopen : p.OpensSealed) {t : TrafficKeys} {seq : Nat} {type : UInt8} (ht : type ≠ 0)
    {content record : Bytes} {pad : Nat} (h : Rfc.sealRecord p t seq type content pad = some record) :
    Rfc.openRecord p t seq record = some (type, content) := by
  simp only [Rfc.sealRecord, Rfc.ciphertext, Option.map_eq_some_iff, Prod.exists] at h
  obtain ⟨ct, tag, henc, rfl⟩ := h
  obtain ⟨plain, hdec, hplain⟩ := hopen henc
  have h₁ : takeBytes 5 (Rfc.header ((Rfc.inner type content pad).length + 16) ++ ct.val ++ tag.val) =
      some (Rfc.header ((Rfc.inner type content pad).length + 16), ct.val ++ tag.val) :=
    takeBytes_eq_some.2 ⟨by simp, by simp [Rfc.header]⟩
  have h₂ : takeBytes ((ct.val ++ tag.val).length - 16) (ct.val ++ tag.val) = some (ct.val, tag.val) :=
    takeBytes_eq_some.2 ⟨rfl, by simp⟩
  simp only [Rfc.openRecord, h₁, h₂, hdec, hplain, Option.bind_eq_bind, Option.bind_some, inner_dropWhile ht]
  simp

end WolfNano

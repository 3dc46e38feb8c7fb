/-
The limit on received content. `wn_RecvRecord` bounds the ciphertext by
2^14 + 256 and nothing bounds what it opens to, so content of up to
2^14 + 239 bytes is delivered. What decides is where the plaintext that the
AEAD yields has its last byte that is not zero.
-/
import WolfNano.RecordRoundTrip
import WolfNano.SessionRun

namespace WolfNano

open Prog Wire

variable {cfg : Config}

section Record

variable (p : Provider cfg)

/-- The plaintext that the AEAD yields for a record, type and padding included. -/
def aeadPlaintext (key : Block 16) (iv : Block 12) (seq : UInt64) (record : Bytes) : Option Bytes :=
  if record.length < 22 ∨ p.aesGcmSetKey key = false then none
  else decrypted p key (Rfc.nonce iv seq.toNat) (record.take 5) ((record.drop 5).take (record.length - 21))
    ((record.drop 5).drop (record.length - 21))

/-- Past the longest legal content and its type byte there is only padding. -/
def WithinLimit (plain : Bytes) : Prop := ∀ i, wnMaxPlaintext < i → plain.getD i 0 = 0

/-- `wn_RecvRecord`, then `wn_Record_Unprotect` of the record. -/
def recvUnprotect (cap : Nat) (key : Block 16) (iv : Block 12) (seq : UInt64) : Io (UInt8 × Bytes) := do
  let (_, record) ← wnRecvRecord cap
  ofExcept (wnRecordUnprotect p key iv seq record)

variable {p}

theorem wnRecordUnprotect_plaintext {key : Block 16} {iv : Block 12} {seq : UInt64} {record m : Bytes}
    {type : UInt8} : wnRecordUnprotect p key iv seq record = .ok (type, m) ↔
      ∃ plain, aeadPlaintext p key iv seq record = some plain ∧ innerContent plain = .ok (type, m) := by
  unfold aeadPlaintext
  by_cases hshort : record.length < 22
  · rw [if_pos (.inl hshort)]
    refine iff_of_false (fun h => ?_) (by simp)
    have := wnRecordUnprotect_long p h
    omega
  have hsplit : record = record.take 5 ++ (record.drop 5).take (record.length - 21) ++
      (record.drop 5).drop (record.length - 21) := by
    rw [List.append_assoc, List.take_append_drop, List.take_append_drop]
  have hhdr : (record.take 5).length = 5 := by simp; omega
  have hct : 1 ≤ ((record.drop 5).take (record.length - 21)).length := by simp; omega
  have htag : ((record.drop 5).drop (record.length - 21)).length = 16 := by simp; omega
  have heq := wnRecordUnprotect_eq p key iv seq hhdr hct htag
  rw [← hsplit] at heq
  rw [heq]
  cases hkey : p.aesGcmSetKey key with
  | false => simp
  | true =>
    rw [if_pos rfl, if_neg (by simp [hshort])]
    cases decrypted p key (Rfc.nonce iv seq.toNat) (record.take 5) ((record.drop 5).take (record.length - 21))
        ((record.drop 5).drop (record.length - 21)) with
    | none => simp
    | some plain => simp

/-- The content is within the limit if and only if its plaintext is. -/
theorem withinLimit_inner {type : UInt8} (ht : type ≠ 0) {m : Bytes} {pad : Nat} :
    WithinLimit (Rfc.inner type m pad) ↔ m.length ≤ wnMaxPlaintext := by
  constructor
  · intro h
    by_contra hlt
    have hlast := h m.length (by omega)
    simp [Rfc.inner, List.getD_eq_getElem?_getD] at hlast
    exact ht hlast
  · intro h i hi
    rw [Rfc.inner, List.getD_eq_getElem?_getD, List.getElem?_append_right (by omega)]
    obtain ⟨k, hk⟩ : ∃ k, i - m.length = k + 1 := ⟨i - m.length - 1, by omega⟩
    rw [hk, List.getElem?_cons_succ]
    by_cases hpad : k < pad
    · rw [List.getElem?_replicate_of_lt hpad]
      rfl
    · rw [List.getElem?_eq_none (by simp; omega)]
      rfl

theorem withinLimit_of_error {plain : Bytes} {e : Err} (h : innerContent plain = .error e) : WithinLimit plain := by
  have hzero : unpadded plain plain.length = 0 := by
    simp only [innerContent] at h
    split at h
    · next hz => exact hz
    · cases h
  have htake := take_unpadded plain plain.length (Nat.le_refl _)
  rw [hzero, List.take_length] at htake
  intro i _
  rw [htake, List.take_zero, List.nil_append, List.getD_eq_getElem?_getD]
  by_cases hi : i < plain.length - 0
  · rw [List.getElem?_replicate_of_lt hi]
    rfl
  · rw [List.getElem?_eq_none (by simp; omega)]
    rfl

theorem unprotect_limit (key : Block 16) (iv : Block 12) (seq : UInt64) (record : Bytes) :
    (∀ type m, wnRecordUnprotect p key iv seq record = .ok (type, m) → m.length ≤ wnMaxPlaintext) ↔
      ∀ plain, aeadPlaintext p key iv seq record = some plain → WithinLimit plain := by
  constructor
  · intro h plain hplain
    cases hin : innerContent plain with
    | error e => exact withinLimit_of_error hin
    | ok x =>
      obtain ⟨type, m⟩ := x
      have hm := h type m (wnRecordUnprotect_plaintext.2 ⟨plain, hplain, hin⟩)
      obtain ⟨ht, pad, rfl⟩ := innerContent_ok hin
      exact (withinLimit_inner ht).2 hm
  · intro h type m hok
    obtain ⟨plain, hplain, hin⟩ := wnRecordUnprotect_plaintext.1 hok
    obtain ⟨ht, pad, rfl⟩ := innerContent_ok hin
    exact (withinLimit_inner ht).1 (h _ hplain)

end Record

/-- Turns of the loop of `wn_Recv` that go on. -/
def Turns (p : Provider cfg) (outCap : Nat) : World → World → Prop :=
  Relation.ReflTransGen fun w w' => recvStep p outCap () w = .ok (.inl ()) w'

/-- What `wn_Recv` returns is the content of the record that its last turn read
and opened. -/
theorem wnRecv_opened {p : Provider cfg} {outCap : Nat} {w w' : World} {m : Bytes} (h : wnRecv p outCap w = .ok m w') :
    ∃ w₁ w₂ rtype record, Turns p outCap w w₁ ∧ wnRecvRecord w₁.sess.scratchLen w₁ = .ok (rtype, record) w₂ ∧
      wnRecordUnprotect p w₁.sess.sKey w₁.sess.sIv w₁.sess.sSeq record = .ok (wnRecAppdata, m) := by
  unfold wnRecv recvLoop at h
  obtain ⟨out, w₁, hloop, h⟩ := bind_ok.1 h
  cases out with
  | small => cases h
  | deliver m' =>
    cases h
    obtain ⟨_, w₂, hcheck, hloop⟩ := bind_ok.1 hloop
    obtain ⟨w₃, w₄, hget, hloop⟩ := bind_ok.1 hloop
    cases hget
    obtain rfl : w = w₂ := by
      rcases checkOpen_cases w with ⟨hopen, -, -⟩ | ⟨e, hopen⟩
      · rw [hopen] at hcheck
        cases hcheck
        rfl
      · rw [hopen] at hcheck
        cases hcheck
    obtain ⟨_, w₅, hturns, hstep⟩ := repeatM_ok (I := fun _ => Turns p outCap w)
      (fun hi hs => Relation.ReflTransGen.tail hi hs) Relation.ReflTransGen.refl hloop
    obtain ⟨-, w₆, rtype, record, hread, hopen⟩ := recvStep_deliver hstep
    exact ⟨w₅, w₆, rtype, record, hturns, hread, hopen⟩

/-- **When received content respects the limit**: content that a record is
opened to is at most 2^14 bytes if and only if the plaintext that the AEAD
yields for it has nothing but padding past its first 2^14 + 1 bytes; and what
`wn_Recv` returns is the content of the record that its last turn opened. -/
theorem received_limit (p : Provider cfg) :
    (∀ (cap : Nat) (key : Block 16) (iv : Block 12) (seq : UInt64) (w : World),
      (∀ type m w', recvUnprotect p cap key iv seq w = .ok (type, m) w' → m.length ≤ wnMaxPlaintext) ↔
        ∀ rtype record w' plain, wnRecvRecord cap w = .ok (rtype, record) w' →
          aeadPlaintext p key iv seq record = some plain → WithinLimit plain) ∧
    ∀ (outCap : Nat) (w : World) (m : Bytes) (w' : World), wnRecv p outCap w = .ok m w' →
      ∃ w₁ w₂ rtype record, Turns p outCap w w₁ ∧ wnRecvRecord w₁.sess.scratchLen w₁ = .ok (rtype, record) w₂ ∧
        wnRecordUnprotect p w₁.sess.sKey w₁.sess.sIv w₁.sess.sSeq record = .ok (wnRecAppdata, m) ∧
        (m.length ≤ wnMaxPlaintext ↔
          ∀ plain, aeadPlaintext p w₁.sess.sKey w₁.sess.sIv w₁.sess.sSeq record = some plain → WithinLimit plain) := by
  constructor
  · intro cap key iv seq w
    constructor
    · intro h rtype record w' plain hread
      refine (unprotect_limit key iv seq record).1 (fun type m hok => h type m w' ?_) plain
      rw [recvUnprotect, bind_of_ok hread]
      exact ofExcept_eq_ok.2 ⟨hok, rfl⟩
    · intro h type m w' hrun
      rw [recvUnprotect] at hrun
      obtain ⟨⟨rtype, record⟩, w₁, hread, hopen⟩ := bind_ok.1 hrun
      exact (unprotect_limit key iv seq record).2 (fun plain => h rtype record w₁ plain hread) type m
        (ofExcept_eq_ok.1 hopen).1
  · intro outCap w m w' h
    obtain ⟨w₁, w₂, rtype, record, hturns, hread, hopen⟩ := wnRecv_opened h
    refine ⟨w₁, w₂, rtype, record, hturns, hread, hopen, ?_⟩
    rw [← unprotect_limit]
    constructor
    · intro hm type m' hopen'
      rw [hopen] at hopen'
      cases hopen'
      exact hm
    · exact fun hall => hall _ _ hopen

/-- Without secrets, a record of application data that the ciphertext limit
allows is read, opened and returned. -/
theorem wnRecv_clear {outCap : Nat} {m : Bytes} (hlen : m.length + 17 ≤ 2 ^ 14 + 256) (hcap : m.length ≤ outCap) :
    ∃ w', wnRecv (Provider.clear .small) outCap (clearWorld [clearRecord 23 m]) = .ok m w' := by
  have hread := (sealRecord_readsBack _ (clearRecord_seal .small clearHsKeys 0 23 m) (by omega)).2.2
  have hopen : wnRecordUnprotect (Provider.clear .small) clearHsKeys.key clearHsKeys.iv 0 (clearRecord 23 m) =
      .ok (23, m) :=
    unprotect_sealRecord _ (Provider.clear_opensSealed _) rfl (by decide) (clearRecord_seal .small clearHsKeys 0 23 m)
  have hsize : (clearRecord 23 m).length ≤ 32768 := by
    simp [clearRecord]
    omega
  obtain ⟨inbox, -, -, hrun⟩ := hread 32768 (clearWorld [clearRecord 23 m]) [] hsize
    (by simp [World.Flowing, clearWorld, World.fresh, clearRecord]) (by simp [clearWorld, World.fresh])
  have hstep : recvStep _ outCap () _ = _ :=
    recvStep_opened (p := Provider.clear .small) (w := clearWorld [clearRecord 23 m]) hrun (by decide) hopen
  rw [recvContent, if_pos (show 23 = wnRecAppdata from rfl), if_neg (by omega)] at hstep
  obtain ⟨hnot, hest⟩ := Session.established_open (.sized 32768) clearHsKeys clearHsKeys
  exact ⟨_, wnRecv_deliver hnot hest hstep⟩

/-- Content one byte too long is delivered. -/
theorem received_limit_exceeded : ∃ m w', wnMaxPlaintext < m.length ∧
    wnRecv (Provider.clear .small) 16385 (clearWorld [clearRecord 23 m]) = .ok m w' := by
  have hm : (List.replicate 16385 (1 : UInt8)).length = 16385 := List.length_replicate
  obtain ⟨w', h⟩ := wnRecv_clear (m := List.replicate 16385 1) (by omega) (Nat.le_of_eq hm)
  exact ⟨_, w', by rw [hm]; decide, h⟩

end WolfNano

/-
What the PSK driver's flight loop reads.

The loop is a `FlightLoop` (`pskLoop`), its inner loop a scan of what has
accumulated in `plain` (`pskMessages_scan`). `pskReads_done` says what a flight
is that scans to its end: one EncryptedExtensions, one Finished.
-/
import WolfNano.FlightLoop

namespace WolfNano

open Prog Wire Reassembly

variable {cfg : Config} {p : Provider cfg}

/-! ## The PSK driver's parser -/

/-- The flight's variables with another accumulator and sequence number. -/
def PskFlight.frame (st : PskFlight) (plain : Bytes) (sSeq : UInt64) : PskFlight :=
  { st with plain, sSeq }

theorem pskMessage_frame (sHs : Block 32) (st : PskFlight) (plain : Bytes) (sSeq : UInt64) (msg : Bytes) :
    pskMessage p sHs (st.frame plain sSeq) msg = (pskMessage p sHs st msg).map (·.frame plain sSeq) := by
  unfold pskMessage PskFlight.frame
  dsimp only
  split
  · split
    · rfl
    · cases wnCheckEncExt (msg.drop 4) false <;> cases wnTranscriptUpdate p st.tc msg <;> rfl
  · split
    · split
      · rfl
      · simp only [bind, Except.bind]
        cases wnTranscriptGetHash p st.tc with
        | error e => rfl
        | ok th =>
          dsimp only
          cases wnTls13FinishedMac p sHs th with
          | error e => rfl
          | ok mac =>
            dsimp only
            split
            · rfl
            · cases wnTranscriptUpdate p st.tc msg <;> rfl
    · rfl

/-- What a message of the PSK flight is when it is accepted. -/
theorem pskMessage_ok {sHs : Block 32} {st st' : PskFlight} {msg : Bytes}
    (h : pskMessage p sHs st msg = .ok st') :
    (msg.getD 0 0 = wnHsEncryptedExt ∧ st.gotEE = false ∧ wnCheckEncExt (msg.drop 4) false = .ok () ∧
        st' = { st with tc := st.tc ++ msg, gotEE := true }) ∨
      (msg.getD 0 0 = wnHsFinished ∧ st.gotEE = true ∧ st' = { st with tc := st.tc ++ msg, done := true } ∧
        ∃ mac, Rfc.finished p sHs st.tc = some mac ∧ mac.val = msg.drop 4) := by
  unfold pskMessage at h
  dsimp only at h
  split at h
  · next ht =>
    split at h
    · cases h
    · next hee =>
      obtain ⟨_, hc, h⟩ := except_bind_ok.1 h
      obtain ⟨tc, htc, h⟩ := except_bind_ok.1 h
      cases h
      rw [wnTranscriptUpdate_ok htc]
      exact .inl ⟨ht, by simpa using hee, hc, rfl⟩
  · split at h
    · next ht =>
      split at h
      · cases h
      · next hcond =>
        obtain ⟨th, hth, h⟩ := except_bind_ok.1 h
        obtain ⟨mac, hmac, h⟩ := except_bind_ok.1 h
        split at h
        · cases h
        · next hbody =>
          obtain ⟨tc, htc, h⟩ := except_bind_ok.1 h
          cases h
          rw [wnTls13FinishedMac_eq p (orCrypto_ok.1 hth)] at hmac
          rw [wnTranscriptUpdate_ok htc]
          exact .inr ⟨ht, by simpa using (not_or.1 hcond).1, rfl, mac, orCrypto_ok.1 hmac, not_not.1 hbody⟩
    · cases h

/-- When each of the two is accepted. -/
theorem pskMessage_encExt (hp : p.Total) {sHs : Block 32} (st : PskFlight) (h : st.gotEE = false) {ee : Bytes}
    (hee : wnCheckEncExt ee false = .ok ()) : pskMessage p sHs st (Rfc.hsMsg wnHsEncryptedExt ee) =
      .ok { st with tc := st.tc ++ Rfc.hsMsg wnHsEncryptedExt ee, gotEE := true } := by
  have htype : (Rfc.hsMsg wnHsEncryptedExt ee).getD 0 0 = wnHsEncryptedExt := rfl
  have hbody : (Rfc.hsMsg wnHsEncryptedExt ee).drop 4 = ee := by simp [Rfc.hsMsg, vec, be_three]
  rw [pskMessage, htype, hbody, if_pos rfl, if_neg (by simp [h]), hee, wnTranscriptUpdate_of hp]
  rfl

theorem pskMessage_finished (hp : p.Total) {sHs : Block 32} {st : PskFlight} (h : st.gotEE = true) {mac : Block 32}
    (hmac : Rfc.finished p sHs st.tc = some mac) : pskMessage p sHs st (Rfc.hsMsg wnHsFinished mac.val) =
      .ok { st with tc := st.tc ++ Rfc.hsMsg wnHsFinished mac.val, done := true } := by
  have htype : (Rfc.hsMsg wnHsFinished mac.val).getD 0 0 = wnHsFinished := rfl
  have hbody : (Rfc.hsMsg wnHsFinished mac.val).drop 4 = mac.val := by simp [Rfc.hsMsg, vec, be_three]
  obtain ⟨th, hth⟩ := Option.ne_none_iff_exists'.1 (hp.sha256 st.tc)
  rw [pskMessage, htype, hbody, if_neg (by decide), if_pos rfl, if_neg (by simp [h]), wnTranscriptGetHash, hth,
    orCrypto_some, except_ok_bind, wnTls13FinishedMac_eq p hth, hmac, orCrypto_some, except_ok_bind, if_neg (by simp),
    wnTranscriptUpdate_of hp]
  rfl

theorem pskMessage_accOff {sHs : Block 32} {st st' : PskFlight} {msg : Bytes}
    (h : pskMessage p sHs st msg = .ok st') : st'.accOff = st.accOff ∧ st'.plain = st.plain ∧ st'.sSeq = st.sSeq := by
  rcases pskMessage_ok h with ⟨-, -, -, rfl⟩ | ⟨-, -, rfl, -⟩ <;> exact ⟨rfl, rfl, rfl⟩

variable (p) in
/-- The messages of the PSK flight, `plain` and the sequence number left out. -/
def pskFraming (sHs : Block 32) : Framing UInt8 PskFlight Err where
  head := 4
  head_pos := msgHead_pos
  size u := 4 + msgLenAt u 0
  size_append := @msgSize_append
  head_le_size := msgHead_le_size
  done st := st.done
  refuse st n := if st.accOff + n > wnPlainSz then some .decode else none
  handle st m := pskMessage p sHs { st with accOff := st.accOff + m.length } m

/-- The inner loop scans what has not been read of `plain`. -/
theorem pskMessages_scan (sHs : Block 32) (plain : Bytes) (sSeq : UInt64) : ∀ (n : Nat) (st : PskFlight),
    pskMessages p sHs n (st.frame plain sSeq) =
      ((pskFraming p sHs).scan plain n st.accOff st).map (fun r => r.1.frame plain sSeq)
  | 0, _ => rfl
  | n + 1, st => by
    have hsize : (pskFraming p sHs).size (plain.drop st.accOff) = 4 + msgLenAt plain st.accOff :=
      congrArg (4 + ·) (msgLenAt_drop plain st.accOff)
    rw [pskMessages, Framing.scan, hsize]
    show (if st.done = false ∧ plain.length - st.accOff ≥ 4 then _ else _) =
      Except.map _ (if st.done = false ∧ plain.length - st.accOff ≥ 4 then _ else _)
    split
    · show (if st.accOff + 4 + msgLenAt plain st.accOff > wnPlainSz then _ else
        if st.accOff + 4 + msgLenAt plain st.accOff > plain.length then _ else _) = _
      rw [← Nat.add_assoc]
      split
      · next hbig =>
        rw [show (pskFraming p sHs).refuse st (4 + msgLenAt plain st.accOff) = some .decode from if_pos (by omega)]
        rfl
      · next hbig =>
        rw [show (pskFraming p sHs).refuse st (4 + msgLenAt plain st.accOff) = none from if_neg (by omega)]
        dsimp only
        split
        · rfl
        · next hfit =>
          have hml : ((plain.drop st.accOff).take (4 + msgLenAt plain st.accOff)).length =
              4 + msgLenAt plain st.accOff := by simp; omega
          have hhandle : (pskFraming p sHs).handle st ((plain.drop st.accOff).take (4 + msgLenAt plain st.accOff)) =
              pskMessage p sHs { st with accOff := st.accOff + 4 + msgLenAt plain st.accOff }
                ((plain.drop st.accOff).take (4 + msgLenAt plain st.accOff)) := by
            show pskMessage p sHs { st with accOff := st.accOff + _ } _ = _
            rw [hml, Nat.add_assoc]
          show (pskMessage p sHs
            (PskFlight.frame { st with accOff := st.accOff + 4 + msgLenAt plain st.accOff } plain sSeq)
            ((plain.drop st.accOff).take (4 + msgLenAt plain st.accOff)) >>= fun st => pskMessages p sHs n st) = _
          rw [pskMessage_frame, hhandle]
          cases hres : pskMessage p sHs { st with accOff := st.accOff + 4 + msgLenAt plain st.accOff }
              ((plain.drop st.accOff).take (4 + msgLenAt plain st.accOff)) with
          | error e => rfl
          | ok st' =>
            have hoff : st'.accOff = st.accOff + 4 + msgLenAt plain st.accOff := (pskMessage_accOff hres).1
            show pskMessages p sHs n (st'.frame plain sSeq) =
              Except.map _ ((pskFraming p sHs).scan plain n (st.accOff + 4 + msgLenAt plain st.accOff) st')
            rw [pskMessages_scan, hoff]
    · rfl

/-! ## The driver's loop -/

/-- A record that is not a ChangeCipherSpec. -/
def pskTake (p : Provider cfg) (keys : HsKeys) (st : PskFlight) (rtype : UInt8) (record : Bytes) :
    Except Err PskFlight :=
  if rtype ≠ wnRecAppdata then .error .unexpectedMsg
  else if record.length < wnRecordHeaderSz + wnRecordTagSz ∨
      record.length - wnRecordHeaderSz - wnRecordTagSz > wnPlainSz - st.plain.length then .error .decode
  else do
    let (ctype, content) ← wnRecordUnprotect p keys.sKey keys.sIv st.sSeq record
    if ctype ≠ wnRecHandshake then .error .unexpectedMsg
    else
      let plain := st.plain ++ content
      pskMessages p keys.sHs plain.length { st with plain, sSeq := st.sSeq + 1 }

theorem pskFlightStep_eq (cap : Nat) (keys : HsKeys) (st : PskFlight) :
    pskFlightStep p cap keys st = flightTurn cap (·.done) (pskTake p keys) st := by
  simp only [pskFlightStep, flightTurn, pskTake, ofExcept_failIf, ofExcept_bind, bind_assoc]

/-- The inner loop scans on. -/
theorem pskMessages_acc (sHs : Block 32) (st : PskFlight) (f : Bytes) :
    pskMessages p sHs (st.plain ++ f).length { st with plain := st.plain ++ f, sSeq := st.sSeq + 1 } =
      ((pskFraming p sHs).scan (st.plain ++ f) (st.plain ++ f).length st.accOff (st.frame [] 0)).map
        (fun r => r.1.frame (st.plain ++ f) (st.sSeq + 1)) :=
  pskMessages_scan (p := p) sHs (st.plain ++ f) (st.sSeq + 1) (st.plain ++ f).length (st.frame [] 0)

theorem pskTake_ok {keys : HsKeys} {st st' : PskFlight} {rtype : UInt8} {record : Bytes}
    (h : pskTake p keys st rtype record = .ok st') : rtype = wnRecAppdata ∧ ∃ f,
      wnRecordUnprotect p keys.sKey keys.sIv st.sSeq record = .ok (wnRecHandshake, f) ∧
      st.plain.length + (record.length - 21) ≤ wnPlainSz ∧
      pskMessages p keys.sHs (st.plain ++ f).length { st with plain := st.plain ++ f, sSeq := st.sSeq + 1 } =
        .ok st' := by
  unfold pskTake at h
  split at h
  · cases h
  · next ht =>
    split at h
    · cases h
    · next hroom =>
      obtain ⟨⟨ctype, f⟩, hopen, h⟩ := except_bind_ok.1 h
      have hlong := wnRecordUnprotect_long p hopen
      dsimp only at h
      split at h
      · cases h
      · next hc =>
        obtain rfl : ctype = wnRecHandshake := not_not.1 hc
        simp only [wnRecordHeaderSz, wnRecordTagSz, not_or, Nat.not_lt] at hroom
        exact ⟨not_not.1 ht, f, hopen, by omega, h⟩

theorem pskTake_of {keys : HsKeys} {st : PskFlight} {record f : Bytes}
    (hopen : wnRecordUnprotect p keys.sKey keys.sIv st.sSeq record = .ok (wnRecHandshake, f))
    (hroom : st.plain.length + (record.length - 21) ≤ wnPlainSz) : pskTake p keys st wnRecAppdata record =
      pskMessages p keys.sHs (st.plain ++ f).length { st with plain := st.plain ++ f, sSeq := st.sSeq + 1 } := by
  have hlong := wnRecordUnprotect_long p hopen
  rw [pskTake, if_neg (by simp), if_neg (by simp only [wnRecordHeaderSz, wnRecordTagSz]; omega), hopen]
  rfl

/-- The driver has `plain[512]` for the contents, and decrypts into it. -/
def pskRoom (acc inner _content : Nat) : Prop := acc + inner ≤ wnPlainSz

/-- The padded content fits what is left of `plain[512]`. -/
def pskFits (acc content pad : Nat) : Prop := acc + content + 1 + pad ≤ wnPlainSz

instance (acc content pad : Nat) : Decidable (pskFits acc content pad) := inferInstanceAs (Decidable (_ ≤ _))

theorem Sealed.pskFlight (hopen : p.OpensSealed) {t : TrafficKeys} (hk : p.aesGcmSetKey t.key = true) {cap : Nat}
    (hcap : 2048 ≤ cap) {n acc : Nat} {rs fs : List Bytes} (h : Sealed p t pskFits n acc rs fs) :
    Flight p cap t.key t.iv pskRoom n acc rs fs :=
  h.flight hopen hk (acc + fs.flatten.length) (fun {acc content pad} hf _ => by
    simp only [pskFits, pskRoom, wnPlainSz, wnMaxPlaintext] at hf ⊢
    omega) (Nat.le_refl _)

/-- The PSK driver's flight loop. -/
def pskLoop (p : Provider cfg) (cap : Nat) (keys : HsKeys) (tc : Transcript) : FlightLoop p PskFlight where
  cap := cap
  key := keys.sKey
  iv := keys.sIv
  room := pskRoom
  framing := pskFraming p keys.sHs
  start := .start tc
  acc := (·.plain)
  off := (·.accOff)
  sSeq := (·.sSeq)
  frame := PskFlight.frame
  take := pskTake p keys
  acc_start := rfl
  off_start := rfl
  sSeq_start := rfl
  frame_start := rfl
  acc_frame _ _ _ := rfl
  off_frame _ _ _ := rfl
  sSeq_frame _ _ _ := rfl
  done_frame _ _ _ := rfl
  frame_frame _ _ _ _ _ := rfl
  frame_self _ := rfl
  handle_keeps h := pskMessage_accOff h
  take_ok h := by
    obtain ⟨ht, f, hopen, hroom, hmsgs⟩ := pskTake_ok h
    exact ⟨ht, f, hopen, hroom, pskMessages_acc keys.sHs _ f ▸ hmsgs⟩
  take_of hopen hroom := (pskTake_of hopen hroom).trans (pskMessages_acc keys.sHs _ _)

theorem pskFlight_eq (cap : Nat) (keys : HsKeys) (tc : Transcript) (w : World) : pskFlight p cap keys tc w =
    repeatM .crypto (pskLoop p cap keys tc).turn (w.pending + 1) (pskLoop p cap keys tc).start w := by
  rw [pskFlight, bind_of_ok (get_apply w)]
  congr 1
  funext st
  exact pskFlightStep_eq cap keys st

theorem pskFraming_handle {sHs : Block 32} {st st' : PskFlight} {msg : Bytes}
    (h : pskMessage p sHs { st with accOff := st.accOff + msg.length } msg = .ok st') :
    (pskFraming p sHs).handle st msg = .ok st' := h

/-- **One EncryptedExtensions and one Finished are read**, if they fit. -/
theorem pskFlight_scan (hp : p.Total) {sHs : Block 32} {tc : Transcript} {ee : Bytes} {mac : Block 32}
    (hee : wnCheckEncExt ee false = .ok ())
    (hmac : Rfc.finished p sHs (tc ++ Rfc.hsMsg wnHsEncryptedExt ee) = some mac)
    (hlen : 40 + ee.length ≤ wnPlainSz) :
    ∃ s off, (pskFraming p sHs).scanAll (.start tc)
        (Rfc.hsMsg wnHsEncryptedExt ee ++ Rfc.hsMsg wnHsFinished mac.val) = .ok (s, off) ∧ s.done = true ∧
      s.tc = tc ++ Rfc.hsMsg wnHsEncryptedExt ee ++ Rfc.hsMsg wnHsFinished mac.val := by
  simp only [wnPlainSz] at hlen
  have h₁ := (Framing.step_whole (F := pskFraming p sHs) (s := .start tc) (m := Rfc.hsMsg wnHsEncryptedExt ee)
    (hsMsg_size (by omega))).2 ⟨rfl, if_neg (by simp [PskFlight.start, wnPlainSz]; omega),
      pskFraming_handle (pskMessage_encExt hp { PskFlight.start tc with accOff := _ } rfl hee)⟩
  have h₂ := (Framing.step_whole (F := pskFraming p sHs) (s := { PskFlight.start tc with
      accOff := 0 + (Rfc.hsMsg wnHsEncryptedExt ee).length, tc := tc ++ Rfc.hsMsg wnHsEncryptedExt ee, gotEE := true })
    (m := Rfc.hsMsg wnHsFinished mac.val) (hsMsg_size (by simp))).2 ⟨rfl, if_neg (by simp [wnPlainSz]; omega),
      pskFraming_handle (pskMessage_finished hp rfl hmac)⟩
  have hparse := ((Parser.Reads.cons h₁ (.cons h₂ .nil)).parse []).trans
    (Parser.parse_need (Framing.step_done (F := pskFraming p sHs) rfl _))
  simp only [List.flatten_cons, List.flatten_nil, List.append_nil] at hparse
  exact ⟨_, _, (Framing.scanAll_eq_parse _ _).trans (by rw [hparse]; rfl), rfl, rfl⟩

/-- **A flight that parses to a Finished is one EncryptedExtensions and one
Finished**, the latter with the right MAC. -/
theorem pskReads_done {sHs : Block 32} {tc : Transcript} {ms : List Bytes} {s : PskFlight}
    (h : Parser.Reads (pskFraming p sHs).parser (.start tc) ms s) (hdone : s.done = true) :
    ∃ (ee : Bytes) (mac : Block 32), ms = [Rfc.hsMsg wnHsEncryptedExt ee, Rfc.hsMsg wnHsFinished mac.val] ∧
      wnCheckEncExt ee false = .ok () ∧
      Rfc.finished p sHs (tc ++ Rfc.hsMsg wnHsEncryptedExt ee) = some mac ∧
      s.tc = tc ++ Rfc.hsMsg wnHsEncryptedExt ee ++ Rfc.hsMsg wnHsFinished mac.val := by
  cases h with
  | nil => cases hdone
  | @cons _ m₁ s₁ ms₁ _ h₁ hrest =>
    obtain ⟨-, hsz₁, -, -, hm₁⟩ := Framing.step_take.1 h₁
    rw [List.take_length] at hm₁
    rcases pskMessage_ok hm₁ with ⟨ht₁, -, hee, rfl⟩ | ⟨-, hfalse, -⟩
    · cases hrest with
      | nil => cases hdone
      | @cons _ m₂ s₂ ms₂ _ h₂ hrest =>
        obtain ⟨-, hsz₂, -, -, hm₂⟩ := Framing.step_take.1 h₂
        rw [List.take_length] at hm₂
        rcases pskMessage_ok hm₂ with ⟨-, hfalse, -⟩ | ⟨ht₂, -, rfl, mac, hmac, hbody⟩
        · cases hfalse
        · cases hrest with
          | nil =>
            have e₁ : m₁ = Rfc.hsMsg wnHsEncryptedExt (m₁.drop 4) := by
              conv => lhs; rw [hsMsg_of_size hsz₁.symm, ht₁]
            have e₂ : m₂ = Rfc.hsMsg wnHsFinished mac.val := by
              conv => lhs; rw [hsMsg_of_size hsz₂.symm, ht₂, ← hbody]
            refine ⟨m₁.drop 4, mac, by rw [← e₁, ← e₂], hee, ?_, ?_⟩
            · rw [← e₁]; exact hmac
            · rw [← e₁, ← e₂]; rfl
          | cons h₃ _ => cases Framing.take_not_done (F := pskFraming p sHs) h₃
    · cases hfalse

end WolfNano

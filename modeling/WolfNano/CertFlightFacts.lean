/-
What the certificate driver's flight loop reads, as `PskFlightFacts` says it of
the PSK driver's.

`certReads_done` is the order of `wn_flight.h`: a flight that parses to a
Finished is EncryptedExtensions, Certificate, CertificateVerify, Finished,
each checked against the ones before it.
-/
import WolfNano.FlightLoop
import WolfNano.CertificateFacts

namespace WolfNano

open Prog Wire Reassembly

variable {cfg : Config} {p : Provider cfg} {c : CertProvider}

/-! ## The driver's parser -/

/-- The flight's variables with another accumulator and sequence number. -/
def CertFlight.frame (st : CertFlight) (hsacc : Bytes) (sSeq : UInt64) : CertFlight :=
  { st with hsacc, sSeq }

theorem certMessage_frame (a : CertArgs p c) (sHs : Block 32) (st : CertFlight) (hsacc : Bytes) (sSeq : UInt64)
    (msg : Bytes) :
    certMessage p c a sHs (st.frame hsacc sSeq) msg = (certMessage p c a sHs st msg).map (·.frame hsacc sSeq) := by
  unfold certMessage CertFlight.frame
  dsimp only
  rcases wnFlightOrder (msg.getD 0 0) st.flags with ⟨_ | ⟨⟨⟩⟩, flags⟩
  · rfl
  · dsimp only
    split
    · cases wnCheckEncExt (msg.drop 4) (a.sniOffered p c) <;> cases wnTranscriptUpdate p st.tc msg <;> rfl
    · split
      · simp only [bind, Except.bind]
        cases wnTranscriptUpdate p st.tc msg with
        | error e => rfl
        | ok tc =>
          dsimp only
          cases certificateCerts (msg.drop 4) with
          | error e => rfl
          | ok certs =>
            dsimp only
            cases wnVerifyChain cfg c certs a.anchor (wnLeafSpkiSz cfg) a.serverName a.pinnedKey a.now <;> rfl
      · split
        · simp only [bind, Except.bind]
          cases wnTranscriptGetHash p st.tc with
          | error e => rfl
          | ok th =>
            dsimp only
            cases wnTranscriptUpdate p st.tc msg with
            | error e => rfl
            | ok tc =>
              dsimp only
              cases certVerifyMessage cfg c flags st.leafSpki th (msg.drop 4) <;> rfl
        · simp only [bind, Except.bind]
          cases wnTranscriptGetHash p st.tc with
          | error e => rfl
          | ok th =>
            dsimp only
            cases wnTranscriptUpdate p st.tc msg with
            | error e => rfl
            | ok tc =>
              dsimp only
              cases certFinishedMessage p flags sHs th (msg.drop 4) <;> rfl

/-- The order of `wn_flight.h`. -/
theorem wnFlightOrder_ok {mType : UInt8} {f f' : FlightFlags} (h : wnFlightOrder mType f = (.ok (), f')) :
    (mType = wnHsEncryptedExt ∧ f.gotEE = false ∧ f' = { f with gotEE := true }) ∨
      (mType = wnHsCertificate ∧ f.gotEE = true ∧ f.gotCert = false ∧ f' = { f with gotCert := true }) ∨
      (mType = wnHsCertVerify ∧ f.gotCert = true ∧ f.gotCv = false ∧ f' = { f with gotCv := true }) ∨
      (mType = wnHsFinished ∧ f.gotCv = true ∧ f' = f) := by
  obtain ⟨ee, cert, cv⟩ := f
  unfold wnFlightOrder at h
  split at h
  · next ht =>
    cases ee <;> cases h
    exact .inl ⟨ht, rfl, rfl⟩
  · split at h
    · cases h
    · split at h
      · next ht =>
        cases ee <;> cases cert <;> cases h
        exact .inr (.inl ⟨ht, rfl, rfl, rfl⟩)
      · split at h
        · next ht =>
          cases cert <;> cases cv <;> cases h
          exact .inr (.inr (.inl ⟨ht, rfl, rfl, rfl⟩))
        · split at h
          · next ht =>
            cases cv <;> cases h
            exact .inr (.inr (.inr ⟨ht, rfl, rfl⟩))
          · cases h

/-- What a message of the flight is when it is accepted. -/
theorem certMessage_ok {a : CertArgs p c} {sHs : Block 32} {st st' : CertFlight} {msg : Bytes}
    (h : certMessage p c a sHs st msg = .ok st') :
    (msg.getD 0 0 = wnHsEncryptedExt ∧ st.flags.gotEE = false ∧
        wnCheckEncExt (msg.drop 4) (a.sniOffered p c) = .ok () ∧
        st' = { st with tc := st.tc ++ msg, flags := { st.flags with gotEE := true } }) ∨
      (msg.getD 0 0 = wnHsCertificate ∧ st.flags.gotEE = true ∧ st.flags.gotCert = false ∧
        ∃ certs leafSpki, certificateCerts (msg.drop 4) = .ok certs ∧
          wnVerifyChain cfg c certs a.anchor (wnLeafSpkiSz cfg) a.serverName a.pinnedKey a.now = .ok leafSpki ∧
          st' = { st with tc := st.tc ++ msg, flags := { st.flags with gotCert := true }, leafSpki }) ∨
      (msg.getD 0 0 = wnHsCertVerify ∧ st.flags.gotCert = true ∧ st.flags.gotCv = false ∧
        ∃ thCert, p.sha256 st.tc = some thCert ∧
          certVerifyMessage cfg c { st.flags with gotCv := true } st.leafSpki thCert (msg.drop 4) = .ok () ∧
          st' = { st with tc := st.tc ++ msg, flags := { st.flags with gotCv := true } }) ∨
      (msg.getD 0 0 = wnHsFinished ∧ st.flags.gotCv = true ∧
        st' = { st with tc := st.tc ++ msg, done := true } ∧
        ∃ mac, Rfc.finished p sHs st.tc = some mac ∧ mac.val = msg.drop 4) := by
  unfold certMessage at h
  dsimp only at h
  cases horder : wnFlightOrder (msg.getD 0 0) st.flags with
  | mk r flags =>
    rw [horder] at h
    cases r with
    | error e => cases h
    | ok u =>
      dsimp only at h
      rcases wnFlightOrder_ok horder with ⟨ht, hee, rfl⟩ | ⟨ht, hee, hcert, rfl⟩ | ⟨ht, hcert, hcv, rfl⟩ | ⟨ht, hcv, rfl⟩
      · rw [ht, if_pos rfl] at h
        obtain ⟨_, hc, h⟩ := except_bind_ok.1 h
        obtain ⟨tc, htc, h⟩ := except_bind_ok.1 h
        cases h
        rw [wnTranscriptUpdate_ok htc]
        exact .inl ⟨ht, hee, hc, rfl⟩
      · rw [ht, if_neg (by decide), if_pos rfl] at h
        obtain ⟨tc, htc, h⟩ := except_bind_ok.1 h
        obtain ⟨certs, hcerts, h⟩ := except_bind_ok.1 h
        obtain ⟨spki, hspki, h⟩ := except_bind_ok.1 h
        cases h
        rw [wnTranscriptUpdate_ok htc]
        exact .inr (.inl ⟨ht, hee, hcert, certs, spki, hcerts, hspki, rfl⟩)
      · rw [ht, if_neg (by decide), if_neg (by decide), if_pos rfl] at h
        obtain ⟨th, hth, h⟩ := except_bind_ok.1 h
        obtain ⟨tc, htc, h⟩ := except_bind_ok.1 h
        obtain ⟨_, hv, h⟩ := except_bind_ok.1 h
        cases h
        rw [wnTranscriptUpdate_ok htc]
        exact .inr (.inr (.inl ⟨ht, hcert, hcv, th, orCrypto_ok.1 hth, hv, rfl⟩))
      · rw [ht, if_neg (by decide), if_neg (by decide), if_neg (by decide)] at h
        obtain ⟨th, hth, h⟩ := except_bind_ok.1 h
        obtain ⟨tc, htc, h⟩ := except_bind_ok.1 h
        obtain ⟨_, hfin, h⟩ := except_bind_ok.1 h
        cases h
        rw [wnTranscriptUpdate_ok htc]
        rw [certFinishedMessage, if_neg (by simp [hcv])] at hfin
        obtain ⟨mac, hmac, hfin⟩ := except_bind_ok.1 hfin
        rw [wnTls13FinishedMac_eq p (orCrypto_ok.1 hth)] at hmac
        split at hfin
        · cases hfin
        · next hbody =>
          exact .inr (.inr (.inr ⟨ht, hcv, rfl, mac, orCrypto_ok.1 hmac, not_not.1 (not_or.1 hbody).2⟩))

theorem certMessage_off {a : CertArgs p c} {sHs : Block 32} {st st' : CertFlight} {msg : Bytes}
    (h : certMessage p c a sHs st msg = .ok st') : st'.off = st.off ∧ st'.hsacc = st.hsacc ∧ st'.sSeq = st.sSeq := by
  rcases certMessage_ok h with ⟨-, -, -, rfl⟩ | ⟨-, -, -, _, _, -, -, rfl⟩ | ⟨-, -, -, _, -, -, rfl⟩ | ⟨-, -, rfl, -⟩ <;>
    exact ⟨rfl, rfl, rfl⟩

variable (p c) in
/-- The messages of the certificate flight, the accumulator and the sequence
number left out. -/
def certFraming (a : CertArgs p c) (sHs : Block 32) : Framing UInt8 CertFlight Err where
  head := 4
  head_pos := msgHead_pos
  size u := 4 + msgLenAt u 0
  size_append := @msgSize_append
  head_le_size := msgHead_le_size
  done st := st.done
  refuse _ _ := none
  handle st m := certMessage p c a sHs { st with off := st.off + m.length } m

/-- The inner loop scans what has not been read of the accumulator. -/
theorem certMessages_scan (a : CertArgs p c) (sHs : Block 32) (hsacc : Bytes) (sSeq : UInt64) :
    ∀ (n : Nat) (st : CertFlight), certMessages p c a sHs n (st.frame hsacc sSeq) =
      ((certFraming p c a sHs).scan hsacc n st.off st).map (fun r => r.1.frame hsacc sSeq)
  | 0, _ => rfl
  | n + 1, st => by
    have hsize : (certFraming p c a sHs).size (hsacc.drop st.off) = 4 + msgLenAt hsacc st.off :=
      congrArg (4 + ·) (msgLenAt_drop hsacc st.off)
    rw [certMessages, Framing.scan, hsize]
    show (if st.done = false ∧ hsacc.length - st.off ≥ 4 then _ else _) =
      Except.map _ (if st.done = false ∧ hsacc.length - st.off ≥ 4 then _ else _)
    split
    · rw [show (certFraming p c a sHs).refuse st (4 + msgLenAt hsacc st.off) = none from rfl]
      show (if st.off + 4 + msgLenAt hsacc st.off > hsacc.length then _ else _) = _
      rw [← Nat.add_assoc]
      dsimp only
      split
      · rfl
      · next hfit =>
        have hml : ((hsacc.drop st.off).take (4 + msgLenAt hsacc st.off)).length = 4 + msgLenAt hsacc st.off := by
          simp; omega
        have hhandle : (certFraming p c a sHs).handle st ((hsacc.drop st.off).take (4 + msgLenAt hsacc st.off)) =
            certMessage p c a sHs { st with off := st.off + 4 + msgLenAt hsacc st.off }
              ((hsacc.drop st.off).take (4 + msgLenAt hsacc st.off)) := by
          show certMessage p c a sHs { st with off := st.off + _ } _ = _
          rw [hml, Nat.add_assoc]
        show (certMessage p c a sHs
          (CertFlight.frame { st with off := st.off + 4 + msgLenAt hsacc st.off } hsacc sSeq)
          ((hsacc.drop st.off).take (4 + msgLenAt hsacc st.off)) >>= fun st => certMessages p c a sHs n st) = _
        rw [certMessage_frame, hhandle]
        cases hres : certMessage p c a sHs { st with off := st.off + 4 + msgLenAt hsacc st.off }
            ((hsacc.drop st.off).take (4 + msgLenAt hsacc st.off)) with
        | error e => rfl
        | ok st' =>
          have hoff : st'.off = st.off + 4 + msgLenAt hsacc st.off := (certMessage_off hres).1
          show certMessages p c a sHs n (st'.frame hsacc sSeq) =
            Except.map _ ((certFraming p c a sHs).scan hsacc n (st.off + 4 + msgLenAt hsacc st.off) st')
          rw [certMessages_scan, hoff]
    · rfl

/-! ## The driver's loop -/

/-- A record that is not a ChangeCipherSpec. -/
def certTake (a : CertArgs p c) (keys : HsKeys) (st : CertFlight) (rtype : UInt8) (record : Bytes) :
    Except Err CertFlight :=
  if rtype ≠ wnRecAppdata then .error .unexpectedMsg
  else do
    let (ctype, content) ← wnRecordUnprotect p keys.sKey keys.sIv st.sSeq record
    if ctype ≠ wnRecHandshake then .error .unexpectedMsg
    else if st.hsacc.length + content.length > wnHsAccSz cfg then .error .decode
    else
      let hsacc := st.hsacc ++ content
      certMessages p c a keys.sHs hsacc.length { st with hsacc, sSeq := st.sSeq + 1 }

theorem certFlightStep_eq (a : CertArgs p c) (cap : Nat) (keys : HsKeys) (st : CertFlight) :
    certFlightStep p c a cap keys st = flightTurn cap (·.done) (certTake a keys) st := by
  simp only [certFlightStep, flightTurn, certTake, ofExcept_failIf, ofExcept_bind, bind_assoc]

/-- The inner loop scans on. -/
theorem certMessages_acc (a : CertArgs p c) (sHs : Block 32) (st : CertFlight) (f : Bytes) :
    certMessages p c a sHs (st.hsacc ++ f).length { st with hsacc := st.hsacc ++ f, sSeq := st.sSeq + 1 } =
      ((certFraming p c a sHs).scan (st.hsacc ++ f) (st.hsacc ++ f).length st.off (st.frame [] 0)).map
        (fun r => r.1.frame (st.hsacc ++ f) (st.sSeq + 1)) :=
  certMessages_scan a sHs (st.hsacc ++ f) (st.sSeq + 1) (st.hsacc ++ f).length (st.frame [] 0)

theorem certTake_ok {a : CertArgs p c} {keys : HsKeys} {st st' : CertFlight} {rtype : UInt8} {record : Bytes}
    (h : certTake a keys st rtype record = .ok st') : rtype = wnRecAppdata ∧ ∃ f,
      wnRecordUnprotect p keys.sKey keys.sIv st.sSeq record = .ok (wnRecHandshake, f) ∧
      st.hsacc.length + f.length ≤ wnHsAccSz cfg ∧
      certMessages p c a keys.sHs (st.hsacc ++ f).length { st with hsacc := st.hsacc ++ f, sSeq := st.sSeq + 1 } =
        .ok st' := by
  unfold certTake at h
  split at h
  · cases h
  · next ht =>
    obtain ⟨⟨ctype, f⟩, hopen, h⟩ := except_bind_ok.1 h
    dsimp only at h
    split at h
    · cases h
    · next hc =>
      obtain rfl : ctype = wnRecHandshake := not_not.1 hc
      split at h
      · cases h
      · next hroom => exact ⟨not_not.1 ht, f, hopen, Nat.not_lt.1 hroom, h⟩

theorem certTake_of {a : CertArgs p c} {keys : HsKeys} {st : CertFlight} {record f : Bytes}
    (hopen : wnRecordUnprotect p keys.sKey keys.sIv st.sSeq record = .ok (wnRecHandshake, f))
    (hroom : st.hsacc.length + f.length ≤ wnHsAccSz cfg) : certTake a keys st wnRecAppdata record =
      certMessages p c a keys.sHs (st.hsacc ++ f).length { st with hsacc := st.hsacc ++ f, sSeq := st.sSeq + 1 } := by
  rw [certTake, if_neg (by simp), hopen, except_ok_bind]
  dsimp only
  rw [if_neg (by simp), if_neg (by omega)]

/-- The driver has `WN_HS_ACC_SZ` bytes for the contents. -/
def certRoom (cfg : Config) (acc _inner content : Nat) : Prop := acc + content ≤ wnHsAccSz cfg

/-- The certificate driver's flight loop. -/
def certLoop (a : CertArgs p c) (cap : Nat) (keys : HsKeys) (tc : Transcript) : FlightLoop p CertFlight where
  cap := cap
  key := keys.sKey
  iv := keys.sIv
  room := certRoom cfg
  framing := certFraming p c a keys.sHs
  start := .start tc
  acc := (·.hsacc)
  off := (·.off)
  sSeq := (·.sSeq)
  frame := CertFlight.frame
  take := certTake a keys
  acc_start := rfl
  off_start := rfl
  sSeq_start := rfl
  frame_start := rfl
  acc_frame _ _ _ := rfl
  off_frame _ _ _ := rfl
  sSeq_frame _ _ _ := rfl
  done_frame _ _ _ := rfl
  frame_frame _ _ _ _ _ := rfl
  frame_self _ := rfl
  handle_keeps h := certMessage_off h
  take_ok h := by
    obtain ⟨ht, f, hopen, hroom, hmsgs⟩ := certTake_ok h
    exact ⟨ht, f, hopen, hroom, certMessages_acc a keys.sHs _ f ▸ hmsgs⟩
  take_of hopen hroom := (certTake_of hopen hroom).trans (certMessages_acc a keys.sHs _ _)

theorem certFlight_eq (a : CertArgs p c) (cap : Nat) (keys : HsKeys) (tc : Transcript) (w : World) :
    certFlight p c a cap keys tc w =
      repeatM .crypto (certLoop a cap keys tc).turn (w.pending + 1) (certLoop a cap keys tc).start w := by
  rw [certFlight, bind_of_ok (get_apply w)]
  congr 1
  funext st
  exact certFlightStep_eq a cap keys st

/-! ## The messages of the flight -/

/-- The four messages of a certificate flight, and what was made of them. -/
structure CertMessages where
  ee : Bytes
  entries : List Rfc.CertEntry
  /-- What follows the entries in the list. -/
  more : Bytes
  leafSpki : Bytes
  thCert : Block 32
  scheme : Nat
  sig : Bytes
  mac : Block 32

namespace CertMessages

variable (m : CertMessages)

def encExt : Bytes := Rfc.hsMsg wnHsEncryptedExt m.ee

def certificate : Bytes := Rfc.hsMsg wnHsCertificate (Rfc.certificate m.entries m.more)

def certVerify : Bytes := Rfc.hsMsg wnHsCertVerify (Rfc.certVerify m.scheme m.sig)

def finished : Bytes := Rfc.hsMsg wnHsFinished m.mac.val

/-- In the order of the flight. -/
def list : List Bytes := [m.encExt, m.certificate, m.certVerify, m.finished]

/-- What the driver requires of them, after the messages `tc`: a chain from the
anchor to a leaf with the caller's name and pin, a signature under that leaf's
key over the messages so far, and the MAC over all of them. -/
structure Authentic (a : CertArgs p c) (sHs : Block 32) (tc : Transcript) : Prop where
  ee : wnCheckEncExt m.ee (a.sniOffered p c) = .ok ()
  fits : ∀ e ∈ m.entries, e.Fits
  count : m.entries.length ≤ wnMaxChain
  more : m.entries.length < wnMaxChain → m.more = []
  chain : wnVerifyChain cfg c (m.entries.map (·.cert)) a.anchor (wnLeafSpkiSz cfg) a.serverName a.pinnedKey a.now =
    .ok m.leafSpki
  thCert : p.sha256 (tc ++ m.encExt ++ m.certificate) = some m.thCert
  signature : cvDispatch cfg c m.scheme m.leafSpki (Rfc.certVerifyContent m.thCert.val) m.sig = .ok ()
  mac : Rfc.finished p sHs (tc ++ m.encExt ++ m.certificate ++ m.certVerify) = some m.mac

end CertMessages

/-- Four messages that were accepted one after the other. -/
theorem CertMessages.exists_of_checked {a : CertArgs p c} {sHs : Block 32} {tc leafSpki m₁ m₂ m₃ m₄ : Bytes}
    {certs : List Bytes} {thCert mac : Block 32} {flags : FlightFlags}
    (hz₁ : 4 + msgLenAt m₁ 0 = m₁.length) (hz₂ : 4 + msgLenAt m₂ 0 = m₂.length)
    (hz₃ : 4 + msgLenAt m₃ 0 = m₃.length) (hz₄ : 4 + msgLenAt m₄ 0 = m₄.length)
    (ht₁ : m₁.getD 0 0 = wnHsEncryptedExt) (ht₂ : m₂.getD 0 0 = wnHsCertificate)
    (ht₃ : m₃.getD 0 0 = wnHsCertVerify) (ht₄ : m₄.getD 0 0 = wnHsFinished)
    (hee : wnCheckEncExt (m₁.drop 4) (a.sniOffered p c) = .ok ()) (hcerts : certificateCerts (m₂.drop 4) = .ok certs)
    (hchain : wnVerifyChain cfg c certs a.anchor (wnLeafSpkiSz cfg) a.serverName a.pinnedKey a.now = .ok leafSpki)
    (hth : p.sha256 (tc ++ m₁ ++ m₂) = some thCert)
    (hcv : certVerifyMessage cfg c flags leafSpki thCert (m₃.drop 4) = .ok ())
    (hmac : Rfc.finished p sHs (tc ++ m₁ ++ m₂ ++ m₃) = some mac) (hbody : mac.val = m₄.drop 4) :
    ∃ m : CertMessages, [m₁, m₂, m₃, m₄] = m.list ∧ m.Authentic a sHs tc := by
  obtain ⟨entries, more, hcert, hfits, rfl, hcount, hmore⟩ := (certificateCerts_ok (hsMsg_drop_lt hz₂)).1 hcerts
  obtain ⟨-, scheme, sig, -, -, hsig, hverify⟩ := (certVerifyMessage_ok (hsMsg_drop_lt hz₃)).1 hcv
  have e₁ := hsMsg_of_size hz₁
  have e₂ := hsMsg_of_size hz₂
  have e₃ := hsMsg_of_size hz₃
  have e₄ := hsMsg_of_size hz₄
  rw [ht₁] at e₁
  rw [ht₂, hcert] at e₂
  rw [ht₃, hsig] at e₃
  rw [ht₄, ← hbody] at e₄
  refine ⟨⟨m₁.drop 4, entries, more, leafSpki, thCert, scheme, sig, mac⟩, ?_,
    ⟨hee, hfits, hcount, hmore, hchain, ?_, hverify, ?_⟩⟩
  · simp only [list, encExt, certificate, certVerify, finished, ← e₁, ← e₂, ← e₃, ← e₄]
  · simpa only [encExt, certificate, ← e₁, ← e₂] using hth
  · simpa only [encExt, certificate, certVerify, ← e₁, ← e₂, ← e₃] using hmac

theorem certReads_cons {a : CertArgs p c} {sHs : Block 32} {ms : List Bytes} {st s : CertFlight}
    (h : Parser.Reads (certFraming p c a sHs).parser st ms s) (hst : st.done = false) (hdone : s.done = true) :
    ∃ m ms' st', ms = m :: ms' ∧ 4 + msgLenAt m 0 = m.length ∧
      certMessage p c a sHs { st with off := st.off + m.length } m = .ok st' ∧
      Parser.Reads (certFraming p c a sHs).parser st' ms' s := by
  cases h with
  | nil => rw [hst] at hdone; cases hdone
  | @cons _ m st' ms' _ h₁ h =>
    obtain ⟨-, hsz, -, -, hm⟩ := Framing.step_take.1 h₁
    rw [List.take_length] at hm
    exact ⟨m, ms', st', rfl, hsz.symm, hm, h⟩

/-- **A flight that parses to a Finished is EncryptedExtensions, Certificate,
CertificateVerify and Finished**, each once and in this order. -/
theorem certReads_done {a : CertArgs p c} {sHs : Block 32} {tc : Transcript} {ms : List Bytes} {s : CertFlight}
    (h : Parser.Reads (certFraming p c a sHs).parser (.start tc) ms s) (hdone : s.done = true) :
    ∃ m : CertMessages, ms = m.list ∧ m.Authentic a sHs tc ∧ s.tc = tc ++ m.list.flatten := by
  obtain ⟨m₁, _, s₁, rfl, hz₁, hm₁, h⟩ := certReads_cons h rfl hdone
  obtain ⟨ht₁, hee, htc₁, hf₁, hd₁⟩ : m₁.getD 0 0 = wnHsEncryptedExt ∧
      wnCheckEncExt (m₁.drop 4) (a.sniOffered p c) = .ok () ∧ s₁.tc = tc ++ m₁ ∧ s₁.flags = ⟨true, false, false⟩ ∧
        s₁.done = false := by
    rcases certMessage_ok hm₁ with ⟨ht, -, hee, rfl⟩ | ⟨-, hno, -⟩ | ⟨-, hno, -⟩ | ⟨-, hno, -⟩
    · exact ⟨ht, hee, rfl, rfl, rfl⟩
    all_goals cases hno
  obtain ⟨m₂, _, s₂, rfl, hz₂, hm₂, h⟩ := certReads_cons h hd₁ hdone
  obtain ⟨ht₂, certs, hcerts, hchain, htc₂, hf₂, hd₂⟩ : m₂.getD 0 0 = wnHsCertificate ∧ ∃ certs,
      certificateCerts (m₂.drop 4) = .ok certs ∧ wnVerifyChain cfg c certs a.anchor (wnLeafSpkiSz cfg) a.serverName
        a.pinnedKey a.now = .ok s₂.leafSpki ∧
      s₂.tc = s₁.tc ++ m₂ ∧ s₂.flags = ⟨true, true, false⟩ ∧ s₂.done = false := by
    rcases certMessage_ok hm₂ with ⟨-, hno, -⟩ | ⟨ht, -, -, certs, spki, hcerts, hchain, rfl⟩ | ⟨-, hno, -⟩ | ⟨-, hno, -⟩
    on_goal 2 => exact ⟨ht, certs, hcerts, hchain, rfl, by simp only [hf₁], hd₁⟩
    all_goals simp [hf₁] at hno
  obtain ⟨m₃, _, s₃, rfl, hz₃, hm₃, h⟩ := certReads_cons h hd₂ hdone
  obtain ⟨ht₃, thCert, hth, hcv, htc₃, hf₃, hd₃⟩ : m₃.getD 0 0 = wnHsCertVerify ∧ ∃ thCert,
      p.sha256 s₂.tc = some thCert ∧
      certVerifyMessage cfg c ⟨true, true, true⟩ s₂.leafSpki thCert (m₃.drop 4) = .ok () ∧
      s₃.tc = s₂.tc ++ m₃ ∧ s₃.flags = ⟨true, true, true⟩ ∧ s₃.done = false := by
    rcases certMessage_ok hm₃ with ⟨-, hno, -⟩ | ⟨-, -, hno, -⟩ | ⟨ht, -, -, th, hth, hcv, rfl⟩ | ⟨-, hno, -⟩
    on_goal 3 => simp only [hf₂] at hcv; exact ⟨ht, th, hth, hcv, rfl, by simp only [hf₂], hd₂⟩
    all_goals simp [hf₂] at hno
  obtain ⟨m₄, _, s₄, rfl, hz₄, hm₄, h⟩ := certReads_cons h hd₃ hdone
  obtain ⟨ht₄, mac, hmac, hbody, htc₄, hd₄⟩ : m₄.getD 0 0 = wnHsFinished ∧ ∃ mac,
      Rfc.finished p sHs s₃.tc = some mac ∧ mac.val = m₄.drop 4 ∧ s₄.tc = s₃.tc ++ m₄ ∧ s₄.done = true := by
    rcases certMessage_ok hm₄ with ⟨-, hno, -⟩ | ⟨-, -, hno, -⟩ | ⟨-, -, hno, -⟩ | ⟨ht, -, rfl, mac, hmac, hbody⟩
    on_goal 4 => exact ⟨ht, mac, hmac, hbody, rfl, rfl⟩
    all_goals simp [hf₃] at hno
  rw [htc₃, htc₂, htc₁] at hmac htc₄
  rw [htc₂, htc₁] at hth
  cases h with
  | cons h₅ _ =>
    have hnd : s₄.done = false := Framing.take_not_done (F := certFraming p c a sHs) h₅
    rw [hd₄] at hnd
    cases hnd
  | nil =>
    obtain ⟨m, hms, hauth⟩ := CertMessages.exists_of_checked hz₁ hz₂ hz₃ hz₄ ht₁ ht₂ ht₃ ht₄ hee hcerts hchain hth hcv
      hmac hbody
    exact ⟨m, hms, hauth, by rw [← hms, htc₄]; simp⟩

end WolfNano

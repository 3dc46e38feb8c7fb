/-
`wn_connect_cert_impl` of `wn_connect.c`: the handshake with server
certificate authentication, and `wn_flight.h`, the order of its flight.

The working buffers are parts of the caller's scratch; here they are byte
strings of their own (`hsacc`, `leafSpki`), and records decrypt in place in a
region of `ioCap` bytes.
-/
import WolfNano.ConnectPsk
import WolfNano.Cert

namespace WolfNano

open Prog

/-! ## wn_flight.h -/

/-- The messages seen so far. -/
structure FlightFlags where
  gotEE : Bool
  gotCert : Bool
  gotCv : Bool
  deriving DecidableEq

/-- `wn_FlightOrder`: the code, and the flags after. -/
def wnFlightOrder (mType : UInt8) (f : FlightFlags) : Except Err Unit × FlightFlags :=
  if mType = wnHsEncryptedExt then
    (if f.gotEE then .error .unexpectedMsg else .ok (), { f with gotEE := true })
  else if mType = wnHsCertRequest then
    (.error .unsupported, f)
  else if mType = wnHsCertificate then
    (if f.gotEE = false ∨ f.gotCert then .error .unexpectedMsg else .ok (), { f with gotCert := true })
  else if mType = wnHsCertVerify then
    (if f.gotCert = false ∨ f.gotCv then .error .unexpectedMsg else .ok (), { f with gotCv := true })
  else if mType = wnHsFinished then
    (if f.gotCv = false then .error .unexpectedMsg else .ok (), f)
  else (.error .unexpectedMsg, f)

variable {cfg : Config} (p : Provider cfg) (c : CertProvider)

/-- The arguments of `wn_connect_cert_impl`, the clock it reads, and what its
uninitialised locals hold. -/
structure CertArgs (p : Provider cfg) (c : CertProvider) where
  io : Transport
  rng : p.Rng
  anchor : Bytes
  serverName : Option Bytes
  pinnedKey : Option Bytes
  /-- `XTIME(0)`. -/
  now : c.Time
  junk : Junk

/-! ## ClientHello -/

structure CertHello (p : Provider cfg) where
  random32 : Block 32
  sid : Block 32
  priv : p.Priv
  emptyHash : Block 32
  ch : Bytes
  tc : Transcript

def certClientHello (a : CertArgs p c) : Io (CertHello p) := do
  let emptyHash ← ofExcept (orCrypto (p.sha256 []))
  let (random32, rng) := p.rngGenerateBlock a.rng 32
  let random32 ← ofExcept (orCrypto random32)
  let (sid, rng) := p.rngGenerateBlock rng 32
  let sid ← ofExcept (orCrypto sid)
  let (priv, cliPub) ← ofExcept (p.keyShareGenerate rng)
  let tc ← ofExcept (wnTranscriptInit p)
  let (chLen, scratch) := wnClientHelloBuildEx cfg [] a.io.scratchLen random32 sid.val cliPub.val a.serverName
  let chLen ← ofExcept chLen
  let ch := scratch.take chLen
  let tc ← ofExcept (wnTranscriptUpdate p tc ch)
  sendPlainRecord wnRecHandshake ch
  sendCcs
  pure { random32, sid, priv, emptyHash, ch, tc }

/-! ## The server's flight -/

/-- The flight loop's variables; `hsacc` is the first `accLen` bytes of the
accumulator, `leafSpki` the first `spkiLen` of its buffer. -/
structure CertFlight where
  hsacc : Bytes
  off : Nat
  flags : FlightFlags
  done : Bool
  tc : Transcript
  leafSpki : Bytes
  sSeq : UInt64

def CertFlight.start (tc : Transcript) : CertFlight where
  hsacc := []
  off := 0
  flags := { gotEE := false, gotCert := false, gotCv := false }
  done := false
  tc := tc
  leafSpki := []
  sSeq := 0

/-- `(serverName != NULL) && (serverName[0] != 0)`. -/
def CertArgs.sniOffered (a : CertArgs p c) : Bool :=
  match a.serverName with
  | some name => name.length > 0
  | none => false

variable (cfg) in
/-- The CertificateVerify step, over the transcript hash from before it. -/
def certVerifyMessage (flags : FlightFlags) (leafSpki : Bytes) (thCert : Block 32) (body : Bytes) :
    Except Err Unit :=
  let hr := wnReaderInit body body.length
  let (scheme, hr) := wnReadU16 hr
  let (cvLen, hr) := wnReadU16 hr
  if hr.err = true ∨ flags.gotCert = false ∨ add32 hr.pos cvLen ≠ body.length then .error .decode
  else wnCertVerify cfg c scheme leafSpki thCert.val ((body.drop hr.pos).take cvLen)

/-- The Finished step, over the transcript hash from before it. -/
def certFinishedMessage (flags : FlightFlags) (sHs th : Block 32) (body : Bytes) : Except Err Unit :=
  if flags.gotCv = false then .error .unexpectedMsg
  else do
    let mac ← wnTls13FinishedMac p sHs th
    if body.length ≠ 32 ∨ mac.val ≠ body then .error .badMac else pure ()

/-- One complete message of the flight. -/
def certMessage (a : CertArgs p c) (sHs : Block 32) (st : CertFlight) (msg : Bytes) :
    Except Err CertFlight :=
  let mType := msg.getD 0 0
  let body := msg.drop 4
  let (order, flags) := wnFlightOrder mType st.flags
  match order with
  | .error e => .error e
  | .ok () =>
    if mType = wnHsEncryptedExt then do
      wnCheckEncExt body (a.sniOffered p c)
      let tc ← wnTranscriptUpdate p st.tc msg
      pure { st with flags, tc }
    else if mType = wnHsCertificate then do
      let tc ← wnTranscriptUpdate p st.tc msg
      let certs ← certificateCerts body
      let leafSpki ← wnVerifyChain cfg c certs a.anchor (wnLeafSpkiSz cfg) a.serverName a.pinnedKey a.now
      pure { st with flags, tc, leafSpki }
    else if mType = wnHsCertVerify then do
      let thCert ← wnTranscriptGetHash p st.tc
      let tc ← wnTranscriptUpdate p st.tc msg
      certVerifyMessage cfg c flags st.leafSpki thCert body
      pure { st with flags, tc }
    else do   -- wn_FlightOrder lets nothing else but Finished through
      let th ← wnTranscriptGetHash p st.tc
      let tc ← wnTranscriptUpdate p st.tc msg
      certFinishedMessage p flags sHs th body
      pure { st with flags, tc, done := true }

/-- Parse the complete messages there are. -/
def certMessages (a : CertArgs p c) (sHs : Block 32) : Nat → CertFlight → Except Err CertFlight
  | 0, st => .ok st
  | n + 1, st =>
    if st.done = false ∧ st.hsacc.length - st.off ≥ 4 then
      let mLen := msgLenAt st.hsacc st.off
      if st.off + 4 + mLen > st.hsacc.length then .ok st
      else do
        let st ← certMessage p c a sHs { st with off := st.off + 4 + mLen }
          ((st.hsacc.drop st.off).take (4 + mLen))
        certMessages a sHs n st
    else .ok st

/-- One turn of the flight loop. -/
def certFlightStep (a : CertArgs p c) (ioCap : Nat) (keys : HsKeys) (st : CertFlight) :
    Io (CertFlight ⊕ CertFlight) := do
  let (rtype, record) ← wnRecvRecord ioCap
  if rtype = wnRecChangeCipher then pure (.inl st)
  else do
    failIf (rtype ≠ wnRecAppdata) .unexpectedMsg
    let (ctype, content) ← ofExcept (wnRecordUnprotect p keys.sKey keys.sIv st.sSeq record)
    failIf (ctype ≠ wnRecHandshake) .unexpectedMsg
    failIf (st.hsacc.length + content.length > wnHsAccSz cfg) .decode
    let hsacc := st.hsacc ++ content
    let st ← ofExcept (certMessages p c a keys.sHs hsacc.length { st with hsacc, sSeq := st.sSeq + 1 })
    pure (if st.done then .inr st else .inl st)

def certFlight (a : CertArgs p c) (ioCap : Nat) (keys : HsKeys) (tc : Transcript) : Io CertFlight := do
  repeatM .crypto (certFlightStep p c a ioCap keys) ((← get).pending + 1) (.start tc)

/-! ## Alerts -/

/-- `wn_SendAlert`, best effort. -/
def wnSendAlert (keys : HsKeys) (seq : UInt64) (e : Err) : Io Unit :=
  tryCatch
    (do
      let record ← wnRecordProtect p keys.cKey keys.cIv seq wnRecAlert [2, wnErrToAlert e]
      let _ ← ioSend record
      pure ())
    (fun _ => pure ())

/-- Run `x`; with `WOLFNANO_SEND_ALERTS`, a failure is also sent to the server,
at the client handshake sequence number `seq`. -/
def alerting {α : Type} (keys : HsKeys) (seq : UInt64) (x : Io α) : Io α :=
  if cfg.sendAlerts then
    tryCatch x (fun e => do
      wnSendAlert p keys seq e
      throw e)
  else x

/-- The argument checks of `wn_connect_cert_impl`. -/
def CertArgs.Rejected (a : CertArgs p c) : Prop :=
  a.io.ioSend = 0 ∨ a.io.ioRecv = 0 ∨ a.io.scratch = 0 ∨ a.io.scratchLen < wnCertScratchMin cfg

instance (a : CertArgs p c) : Decidable (a.Rejected p c) := by
  unfold CertArgs.Rejected
  infer_instance

/-- The flight, and the client's Finished MAC over it. -/
def certFlightMac (a : CertArgs p c) (ioCap : Nat) (keys : HsKeys) (tc : Transcript) :
    Io (CertFlight × Block 32 × Block 32) := do
  let flight ← certFlight p c a ioCap keys tc
  let th ← ofExcept (wnTranscriptGetHash p flight.tc)
  let mac ← ofExcept (wnTls13FinishedMac p keys.cHs th)
  pure (flight, th, mac)

def wnConnectCertImpl (a : CertArgs p c) : Io Unit := do
  failIf (a.Rejected p c) .invalidArg
  setSess .zero
  let ioCap := a.io.scratchLen - (wnHsAccSz cfg + wnLeafSpkiSz cfg)
  let hello ← certClientHello p c a
  let (tc, ecdhe) ← recvServerHello p ioCap hello.priv hello.sid (-1) hello.tc
  let th ← ofExcept (wnTranscriptGetHash p tc)
  let early ← ofExcept (wnTls13Extract p [] (Block.zero 32).val)
  let keys ← ofExcept (wnDeriveHsKeys p early ecdhe.val hello.emptyHash th)
  let (flight, th, mac) ← alerting p keys 0 (certFlightMac p c a ioCap keys tc)
  alerting p keys 1 (sendFinished p keys mac th hello.emptyHash a.junk a.io)
  emit (.readKeys (flight.hsacc.drop flight.off))

end WolfNano

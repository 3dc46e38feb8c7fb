/-
`wn_Connect_Psk_ex` of `wn_connect.c`: the external-PSK + ECDHE handshake.

The source is one function; here its comments' sections are functions of
their own. `pskFlightStep` is one turn of the loop that reads the server's
encrypted flight, `pskMessages` the loop inside it that parses what has
accumulated in `plain[512]`.
-/
import WolfNano.ClientHello
import WolfNano.ServerHello
import WolfNano.KeySchedule

namespace WolfNano

open Prog

variable {cfg : Config} (p : Provider cfg)

/-- The arguments of `wn_Connect_Psk_ex`, and what its uninitialised locals hold. -/
structure PskArgs (p : Provider cfg) where
  io : Transport
  rng : p.Rng
  psk : Bytes
  identity : Bytes
  junk : Junk

/-! ## ClientHello -/

/-- What the driver keeps from sending its ClientHello. -/
structure PskHello (p : Provider cfg) where
  random32 : Block 32
  sid : Block 32
  priv : p.Priv
  cliPub : Block cfg.group.pubSz
  emptyHash : Block 32
  early : Block 32
  binder : Block 32
  ch : Bytes
  tc : Transcript

def pskClientHello (a : PskArgs p) : Io (PskHello p) := do
  let emptyHash ← ofExcept (orCrypto (p.sha256 []))
  let (random32, rng) := p.rngGenerateBlock a.rng 32
  let (sid, rng) := p.rngGenerateBlock rng 32
  let random32 ← ofExcept (orCrypto random32)
  let sid ← ofExcept (orCrypto sid)
  let (priv, cliPub) ← ofExcept (p.keyShareGenerate rng)
  let tc ← ofExcept (wnTranscriptInit p)
  -- What `scratch` held before is not read: the writer starts at its front.
  let b := buildClientHello cfg (wnWriterInit [] a.io.scratchLen) random32 sid cliPub.val a.identity
  failIf (b.w.err = true) .crypto
  let early ← ofExcept (wnTls13Extract p [] a.psk)
  let binderKey ← ofExcept (wnTls13DeriveSecret p early.val "ext binder" emptyHash)
  let th ← ofExcept (orCrypto (p.sha256 (b.w.buf.take b.truncOff)))
  let binder ← ofExcept (wnTls13FinishedMac p binderKey th)
  let ch := (patch b.w.buf b.binderOff binder.val).take b.w.len
  let tc ← ofExcept (wnTranscriptUpdate p tc ch)
  sendPlainRecord wnRecHandshake ch
  sendCcs
  pure { random32, sid, priv, cliPub, emptyHash, early, binder, ch, tc }

/-! ## ServerHello -/

/-- One turn of the loop that skips ChangeCipherSpec records. -/
def skipCcsStep (cap : Nat) : Unit → Io (Unit ⊕ (UInt8 × Bytes)) := fun _ => do
  let (rtype, record) ← wnRecvRecord cap
  pure (if rtype = wnRecChangeCipher then .inl () else .inr (rtype, record))

/-- The first record that is not a ChangeCipherSpec. Each turn takes bytes off
the transport, so those it holds are fuel enough. -/
def recvSkippingCcs (cap : Nat) : Io (UInt8 × Bytes) := do
  repeatM .crypto (skipCcsStep cap) ((← get).pending + 1) ()

/-- What both drivers require a parsed ServerHello not to be. -/
def ServerHello.Unacceptable (cfg : Config) (sh : ServerHello) (sid : Block 32) (pskSelected : Int) :
    Prop :=
  sh.keyShare = none ∨ sh.keyShareLen ≠ cfg.group.srvShareSz ∨
    sh.cipher ≠ wnCipherAes128GcmSha256 ∨ sh.version ≠ 0x0304 ∨ sh.group ≠ cfg.group.code ∨
    sh.pskSelected ≠ pskSelected ∨ sh.sessionIdLen ≠ 32 ∨ sh.sessionId ≠ some sid.val

instance (sh : ServerHello) (sid : Block 32) (sel : Int) : Decidable (sh.Unacceptable cfg sid sel) := by
  unfold ServerHello.Unacceptable
  infer_instance

/-- Read the ServerHello: the transcript through it, and the ECDHE secret.
`pskSelected` is the selection the driver's offer calls for. -/
def recvServerHello (cap : Nat) (priv : p.Priv) (sid : Block 32) (pskSelected : Int) (tc : Transcript) :
    Io (Transcript × Block cfg.group.secretSz) := do
  let (rtype, record) ← recvSkippingCcs cap
  failIf (rtype ≠ wnRecHandshake) .unexpectedMsg
  let msg := record.drop 5
  let sh ← ofExcept (wnServerHelloParse msg)
  failIf (sh.isHelloRetry = true) .unsupported
  let tc ← ofExcept (wnTranscriptUpdate p tc msg)
  failIf (sh.Unacceptable cfg sid pskSelected) .illegalParam
  let ecdhe ← ofExcept (p.keyShareShared priv (sh.keyShare.getD []))
  pure (tc, ecdhe)

/-! ## The server's flight -/

def wnPlainSz : Nat := 512

/-- The flight loop's variables; `plain` is the first `accLen` bytes of the array. -/
structure PskFlight where
  plain : Bytes
  accOff : Nat
  gotEE : Bool
  done : Bool
  tc : Transcript
  sSeq : UInt64

def PskFlight.start (tc : Transcript) : PskFlight where
  plain := []
  accOff := 0
  gotEE := false
  done := false
  tc := tc
  sSeq := 0

/-- One complete message of the flight. -/
def pskMessage (sHs : Block 32) (st : PskFlight) (msg : Bytes) : Except Err PskFlight :=
  let mType := msg.getD 0 0
  let body := msg.drop 4
  if mType = wnHsEncryptedExt then
    if st.gotEE then .error .unexpectedMsg
    else do
      wnCheckEncExt body false
      let tc ← wnTranscriptUpdate p st.tc msg
      pure { st with tc, gotEE := true }
  else if mType = wnHsFinished then
    if st.gotEE = false ∨ body.length ≠ 32 then .error .badMac
    else do
      let th ← wnTranscriptGetHash p st.tc
      let mac ← wnTls13FinishedMac p sHs th
      if mac.val ≠ body then .error .badMac
      else do
        let tc ← wnTranscriptUpdate p st.tc msg
        pure { st with tc, done := true }
  else .error .unexpectedMsg

/-- The 24-bit length at `off + 1`. -/
def msgLenAt (buf : Bytes) (off : Nat) : Nat :=
  word24Of (buf.getD (off + 1) 0) (buf.getD (off + 2) 0) (buf.getD (off + 3) 0)

/-- Parse the complete messages there are. Each takes at least four bytes of
`plain`, so its length is fuel enough. -/
def pskMessages (sHs : Block 32) : Nat → PskFlight → Except Err PskFlight
  | 0, st => .ok st
  | n + 1, st =>
    if st.done = false ∧ st.plain.length - st.accOff ≥ 4 then
      let mLen := msgLenAt st.plain st.accOff
      if st.accOff + 4 + mLen > wnPlainSz then .error .decode
      else if st.accOff + 4 + mLen > st.plain.length then .ok st
      else do
        let st ← pskMessage p sHs { st with accOff := st.accOff + 4 + mLen }
          ((st.plain.drop st.accOff).take (4 + mLen))
        pskMessages sHs n st
    else .ok st

/-- One turn of the flight loop. -/
def pskFlightStep (cap : Nat) (keys : HsKeys) (st : PskFlight) : Io (PskFlight ⊕ PskFlight) := do
  let (rtype, record) ← wnRecvRecord cap
  if rtype = wnRecChangeCipher then pure (.inl st)
  else do
    failIf (rtype ≠ wnRecAppdata) .unexpectedMsg
    failIf (record.length < wnRecordHeaderSz + wnRecordTagSz ∨
      record.length - wnRecordHeaderSz - wnRecordTagSz > wnPlainSz - st.plain.length) .decode
    let (ctype, content) ← ofExcept (wnRecordUnprotect p keys.sKey keys.sIv st.sSeq record)
    failIf (ctype ≠ wnRecHandshake) .unexpectedMsg
    let plain := st.plain ++ content
    let st ← ofExcept (pskMessages p keys.sHs plain.length { st with plain, sSeq := st.sSeq + 1 })
    pure (if st.done then .inr st else .inl st)

def pskFlight (cap : Nat) (keys : HsKeys) (tc : Transcript) : Io PskFlight := do
  repeatM .crypto (pskFlightStep p cap keys) ((← get).pending + 1) (.start tc)

/-! ## Client Finished -/

/-- The client Finished message. -/
def finishedMsg (mac : Block 32) : Bytes := [wnHsFinished, 0, 0, 32] ++ mac.val

/-- Seal and send the client Finished, then fill the session. -/
def sendFinished (keys : HsKeys) (mac th emptyHash : Block 32) (junk : Junk) (io : Transport) :
    Io Unit := do
  let record ← wnRecordProtect p keys.cKey keys.cIv 0 wnRecHandshake (finishedMsg mac)
  let sent ← ioSend record
  failIf (sent = false) .crypto
  wnSessionEstablish p junk keys.hs emptyHash th io

/-- The argument checks of `wn_Connect_Psk_ex`; the other pointers are not
`NULL` by their types. -/
def PskArgs.Rejected (a : PskArgs p) : Prop :=
  a.io.ioSend = 0 ∨ a.io.ioRecv = 0 ∨ a.psk.length = 0 ∨ a.io.scratch = 0 ∨ a.io.scratchLen < 2048 ∨
    a.identity.length > 0xFFFF

instance (a : PskArgs p) : Decidable (a.Rejected p) := by
  unfold PskArgs.Rejected
  infer_instance

def wnConnectPskEx (a : PskArgs p) : Io Unit := do
  failIf (a.Rejected p) .invalidArg
  setSess .zero
  let hello ← pskClientHello p a
  let (tc, ecdhe) ← recvServerHello p a.io.scratchLen hello.priv hello.sid 0 hello.tc
  let th ← ofExcept (wnTranscriptGetHash p tc)
  let keys ← ofExcept (wnDeriveHsKeys p hello.early ecdhe.val hello.emptyHash th)
  let flight ← pskFlight p a.io.scratchLen keys tc
  let th ← ofExcept (wnTranscriptGetHash p flight.tc)
  let mac ← ofExcept (wnTls13FinishedMac p keys.cHs th)
  sendFinished p keys mac th hello.emptyHash a.junk a.io
  emit (.readKeys (flight.plain.drop flight.accOff))

end WolfNano

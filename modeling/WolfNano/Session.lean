/-
`wn_session.c`: application data over an established session, and the
post-handshake messages (RFC 8446 4.6).

The session is the world's `sess`. Its buffers in `scratch` are not part of
it: a record read into them is the byte string `wnRecvRecord` returns.
-/
import WolfNano.KeySchedule
import WolfNano.Msg

namespace WolfNano

open Prog

/-! ## The two directions -/

def Session.writeKeys (s : Session) : TrafficKeys := ⟨s.cAppSecret, s.cKey, s.cIv⟩

def Session.readKeys (s : Session) : TrafficKeys := ⟨s.sAppSecret, s.sKey, s.sIv⟩

/-- New contents of the three write-side buffers. -/
def Session.setWriteKeys (s : Session) (t : TrafficKeys) : Session :=
  { s with cAppSecret := t.secret, cKey := t.key, cIv := t.iv }

/-- New contents of the three read-side buffers. -/
def Session.setReadKeys (s : Session) (t : TrafficKeys) : Session :=
  { s with sAppSecret := t.secret, sKey := t.key, sIv := t.iv }

/-- `(s->flags & WN_SESS_CLOSED) != 0`. -/
def Session.Closed (s : Session) : Prop := s.flags &&& wnSessClosed ≠ 0

/-- `(s->flags & WN_SESS_ESTABLISHED) != 0`. -/
def Session.Established (s : Session) : Prop := s.flags &&& wnSessEstablished ≠ 0

instance (s : Session) : Decidable s.Closed := inferInstanceAs (Decidable (_ ≠ _))
instance (s : Session) : Decidable s.Established := inferInstanceAs (Decidable (_ ≠ _))

variable {cfg : Config} (p : Provider cfg)

/-! ## Post-handshake messages -/

/-- A KeyUpdate message; `req` is its request_update. -/
def keyUpdateMsg (req : UInt8) : Bytes := [wnHsKeyUpdate, 0, 0, 1, req]

/-- `wn_session_send_key_update`. -/
def wnSessionSendKeyUpdate : Io Unit := do
  let s := (← get).sess
  let record ← wnRecordProtect p s.cKey s.cIv s.cSeq wnRecHandshake (keyUpdateMsg 0)
  let s := { s with cSeq := s.cSeq + 1 }
  setSess s
  let sent ← ioSend record
  failIf (sent = false) .crypto
  let (ret, t) := wnTls13KeyUpdate p s.writeKeys s.digest
  let s := s.setWriteKeys t
  setSess s
  ofExcept ret
  setSess { s with cSeq := 0 }
  emit .writeKeys

/-- The KeyUpdate branch of `wn_session_posths`; `unread` is what the record
has after the message. -/
def posthsKeyUpdate (req : UInt8) (unread : Bytes) : Io Unit := do
  let s := (← get).sess
  let (ret, t) := wnTls13KeyUpdate p s.readKeys s.digest
  let s := s.setReadKeys t
  setSess s
  ofExcept ret
  setSess { s with sSeq := 0 }
  emit (.readKeys unread)
  if req = 1 then wnSessionSendKeyUpdate p else pure ()

/-- One turn of the loop of `wn_session_posths`. -/
def posthsStep (msg : Bytes) (r : Reader) : Io (Reader ⊕ Unit) :=
  if r.pos < msg.length then do
    let (mType, r) := wnReadU8 r
    let (mLen, r) := wnReadU24 r
    if mType = wnHsNewSessionTicket then do
      let (_, r) := wnReadBytes r mLen
      failIf (r.err = true) .decode
      pure (.inl r)
    else if mType = wnHsKeyUpdate then do
      let (req, r) := wnReadU8 r
      failIf (r.err = true ∨ mLen ≠ 1 ∨ req > 1) .decode
      posthsKeyUpdate p req (msg.drop r.pos)
      pure (.inl r)
    else throw .unexpectedMsg
  else pure (.inr ())

/-- `wn_session_posths`. Each turn reads four bytes or fails, so the record's
length is fuel enough. -/
def wnSessionPosths (msg : Bytes) : Io Unit :=
  repeatM .decode (posthsStep p msg) (msg.length + 1) (wnReaderInit msg msg.length)

/-! ## Sending -/

/-- The checks `wn_Send` and `wn_Recv` make first. -/
def checkOpen : Io Unit := do
  let s := (← get).sess
  failIf s.Closed .closed
  failIf (¬ s.Established) .badState

def wnSendOverhead : Nat := wnRecordHeaderSz + 1 + wnRecordTagSz

def wnSend (data : Bytes) : Io Unit := do
  checkOpen
  let s := (← get).sess
  failIf (data.length > wnMaxPlaintext ∨ s.scratchLen < wnSendOverhead ∨
    data.length > s.scratchLen - wnSendOverhead) .invalidArg
  let record ← wnRecordProtect p s.cKey s.cIv s.cSeq wnRecAppdata data
  setSess { s with cSeq := s.cSeq + 1 }
  let sent ← ioSend record
  failIf (sent = false) .crypto

/-! ## Receiving -/

/-- How the loop of `wn_Recv` ends when it does not fail before: with data, or
with data that `outCap` is too small for. -/
inductive RecvOut where
  | deliver (plain : Bytes)
  | small
  deriving DecidableEq

/-- What `wn_Recv` does with a record that opened. -/
def recvContent (outCap : Nat) (ctype : UInt8) (plain : Bytes) : Io (Unit ⊕ RecvOut) :=
  if ctype = wnRecAppdata then
    pure (.inr (if plain.length > outCap then .small else .deliver plain))
  else if ctype = wnRecHandshake then do
    wnSessionPosths p plain
    pure (.inl ())
  else if ctype = wnRecAlert then
    if plain.length ≥ 2 ∧ plain.getD 1 0 = 0 then do
      let s := (← get).sess
      setSess { s with flags := s.flags ||| wnSessClosed }
      throw .closed
    else throw .crypto
  else throw .unexpectedMsg

/-- One turn of the loop of `wn_Recv`. -/
def recvStep (outCap : Nat) : Unit → Io (Unit ⊕ RecvOut) := fun _ => do
  let s := (← get).sess
  let (rtype, record) ← wnRecvRecord s.scratchLen
  failIf (rtype = wnRecChangeCipher) .unexpectedMsg
  let (ctype, plain) ← ofExcept (wnRecordUnprotect p s.sKey s.sIv s.sSeq record)
  setSess { s with sSeq := s.sSeq + 1 }
  recvContent p outCap ctype plain

/-- The loop of `wn_Recv`. Each turn takes bytes off the transport, so those it
holds are fuel enough. -/
def recvLoop (outCap : Nat) : Io RecvOut := do
  checkOpen
  repeatM .crypto (recvStep p outCap) ((← get).pending + 1) ()

/-- `wn_Recv`: the data copied to `out`. -/
def wnRecv (outCap : Nat) : Io Bytes := do
  match ← recvLoop p outCap with
  | .deliver plain => pure plain
  | .small => throw .invalidArg

/-! ## Closing -/

/-- The close_notify of `wn_Close`, best effort once sealed. -/
def sendCloseNotify : Io Unit := do
  let s := (← get).sess
  if ¬ s.Closed ∧ s.Established ∧ s.ioSend ≠ 0 then do
    let record ← wnRecordProtect p s.cKey s.cIv s.cSeq wnRecAlert [1, 0]
    let _ ← ioSend record
    pure ()
  else pure ()

/-- `wn_Close`; the session is wiped whether or not sealing failed. -/
def wnClose : Io Unit := do
  tryCatch (sendCloseNotify p) (fun e => do
    setSess .zero
    throw e)
  setSess .zero

end WolfNano

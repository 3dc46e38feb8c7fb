/-
`wn_session.c` over the memory its session has: the caller's scratch, into which
`wn_Recv` reads its records and opens them in place and in which `wn_Send` seals
its own.

`Session.lean` has the records as byte strings; here they are where the source
has them, each access is checked, and what a call that fails leaves behind is
there to be looked at. `wn_Close` and the answer to a KeyUpdate seal theirs in
locals.
-/
import WolfNano.Lib.Tracks
import WolfNano.FlightMemory
import WolfNano.Client

namespace WolfNano

open Prog

/-- What AES-GCM has written where it fails: in place of the plaintext, and in
place of the ciphertext and tag. -/
structure Spill where
  decrypt : Block 16 → Block 12 → Bytes → Bytes → Bytes → Bytes
  encrypt : Block 16 → Block 12 → Bytes → Bytes → Bytes

variable {cfg : Config} (p : Provider cfg) (spill : Spill)

/-! ## Records in a buffer -/

/-- `wn_Record_Protect` at `buf`: what it returns, with the record's length, and
`buf` after. -/
def protectInto (key : Block 16) (iv : Block 12) (seq : UInt64) (contentType : UInt8) (content buf : Bytes) :
    MemIo (Except Err Nat × Bytes) := do
  let nonce := wnBuildNonce iv seq
  let traced sealed : MemIo Unit := unchecked (emit (.protect key nonce contentType content sealed))
  if content.length > wnMaxPlaintext then do
    traced false
    pure (.error .invalidArg, buf)
  else do
    let innerLen := content.length + 1
    let ctLen := innerLen + wnRecordTagSz
    let buf ← storeAt buf 0 (protectHeader ctLen)
    let buf ← storeAt buf wnRecordHeaderSz content
    let buf ← storeAt buf (wnRecordHeaderSz + content.length) [contentType]
    if p.aesGcmSetKey key = false then do
      traced false
      let buf ← storeAt buf wnRecordHeaderSz (List.replicate innerLen 0)
      pure (.error .crypto, buf)
    else do
      let hdr ← bytesAt buf buf.length 0 wnRecordHeaderSz
      let inner ← bytesAt buf buf.length wnRecordHeaderSz innerLen
      check (wnRecordHeaderSz + (innerLen + wnRecordTagSz) ≤ buf.length) .overrun
      match p.aesGcmEncrypt key nonce hdr inner with
      | none => do
        traced false
        let buf ← storeAt buf wnRecordHeaderSz ((spill.encrypt key nonce hdr inner).take (innerLen + wnRecordTagSz))
        let buf ← storeAt buf wnRecordHeaderSz (List.replicate innerLen 0)
        pure (.error .crypto, buf)
      | some (ct, tag) => do
        traced true
        let buf ← storeAt buf wnRecordHeaderSz ct.val
        let buf ← storeAt buf (wnRecordHeaderSz + innerLen) tag.val
        pure (.ok (wnRecordHeaderSz + ctLen), buf)

/-- A return code and its value. -/
def returnCode {α : Type} : Except Err α → MemIo α
  | .ok a => pure a
  | .error e => throw (.ret e)

/-- A record of the `n` bytes of a local, sealed there and taken from it. -/
def protectLocal (n : Nat) (key : Block 16) (iv : Block 12) (seq : UInt64) (contentType : UInt8) (content : Bytes) :
    MemIo Bytes := do
  -- Whatever the local holds, all that is read of it has been written.
  let (ret, buf) ← protectInto p spill key iv seq contentType content (List.replicate n 0)
  bytesAt buf buf.length 0 (← returnCode ret)

/-! ## Scratch -/

namespace InScratch

/-- The world, with scratch as `out.mem` and the locals of `wn_Recv` beside it. -/
abbrev SessIo := Checked Fault Err RecvState

/-- What does not touch scratch. -/
def checked {α : Type} (x : MemIo α) : SessIo α := held RecvState.world (fun w s => { s with world := w }) x

def world {α : Type} (x : Io α) : SessIo α := checked (unchecked x)

def scratch : SessIo Bytes := do
  pure (← get).out.mem

/-- Store `bs` at `scratch + dst`. -/
def store (dst : Nat) (bs : Bytes) : SessIo Unit := do
  let mem ← checked (storeAt (← scratch) dst bs)
  modify fun s => { s with out := { s.out with mem } }

/-- The `n` bytes at `scratch + off`. -/
def load (off n : Nat) : SessIo Bytes := do
  let mem ← scratch
  checked (bytesAt mem mem.length off n)

/-- `ForceZero(scratch + off, n)`, if `n > 0`. -/
def forceZero (off n : Nat) : SessIo Unit := if n > 0 then store off (List.replicate n 0) else pure ()

/-! ## wn_record.c -/

/-- One turn of the loop of `io_recv_exact`. The callback may write all that it
is asked for. -/
def ioRecvExactStep (buf n got : Nat) : SessIo (Nat ⊕ Unit) :=
  if got < n then do
    let mem ← scratch
    check (buf + got + (n - got) ≤ mem.length) .overrun
    match ← unchecked (ioRecvInto (buf + got) (n - got)) with
    | some r => do
      let got ← checked (add32c got r)
      pure (.inl got)
    | none => throw (.ret .crypto)
  else pure (.inr ())

def ioRecvExact (buf n : Nat) : SessIo Unit := repeatM (.ret .crypto) (ioRecvExactStep buf n) (n + 1) 0

/-- `wn_RecvRecord` at the front of scratch. -/
def wnRecvRecord (cap : Nat) : SessIo Unit := do
  ioRecvExact 0 5
  let hdr ← load 0 5
  let type := hdr.getD 0 0
  let frag := headerFrag hdr
  modify fun s => { s with out := { s.out with type } }
  failIf (frag = 0 ∨ frag + 5 > cap ∨ frag > wnMaxPlaintext + 256) (.ret .crypto)
  modify fun s => { s with out := { s.out with recLen := frag + 5 } }
  ioRecvExact 5 frag
  let body ← load 5 1
  failIf (type = wnRecChangeCipher ∧ (frag ≠ 1 ∨ body.getD 0 0 ≠ 1)) (.ret .decode)

/-- `wn_Record_Unprotect` of the record at the front, in place: the content type
and the content's length. The plaintext is written behind the header before the
tag is known to be right. -/
def wnRecordUnprotect (key : Block 16) (iv : Block 12) (seq : UInt64) : SessIo (UInt8 × Nat) := do
  let recLen := (← get).out.recLen
  failIf (recLen < wnRecordHeaderSz + wnRecordTagSz + 1) (.ret .invalidArg)
  let len ← checked (sub32c recLen wnRecordHeaderSz)
  let innerLen ← checked (sub32c len wnRecordTagSz)
  failIf (p.aesGcmSetKey key = false) (.ret .crypto)
  let hdr ← load 0 wnRecordHeaderSz
  let ct ← load wnRecordHeaderSz innerLen
  let tag ← load (wnRecordHeaderSz + innerLen) wnRecordTagSz
  match p.aesGcmDecrypt key (wnBuildNonce iv seq) hdr ct tag with
  | none => do
    store wnRecordHeaderSz ((spill.decrypt key (wnBuildNonce iv seq) hdr ct tag).take innerLen)
    throw (.ret .badMac)
  | some inner => do
    store wnRecordHeaderSz inner.val
    let content ← load wnRecordHeaderSz innerLen
    let n := unpadded content innerLen
    failIf (n = 0) (.ret .decode)
    pure (content.getD (n - 1) 0, n - 1)

/-- `wn_Record_Protect` at the front of scratch: the record's length. -/
def wnRecordProtect (key : Block 16) (iv : Block 12) (seq : UInt64) (contentType : UInt8) (content : Bytes) :
    SessIo Nat := do
  let (ret, mem) ← checked (protectInto p spill key iv seq contentType content (← scratch))
  modify fun s => { s with out := { s.out with mem } }
  checked (returnCode ret)

/-! ## wn_session.c -/

/-- `wn_session_send_key_update`, its record in `rec[27]`. -/
def wnSessionSendKeyUpdate : MemIo Unit := do
  let s := (← get).sess
  let record ← protectLocal p spill (wnRecordHeaderSz + 5 + 1 + wnRecordTagSz) s.cKey s.cIv s.cSeq wnRecHandshake
    (keyUpdateMsg 0)
  let s := { s with cSeq := s.cSeq + 1 }
  unchecked (setSess s)
  let sent ← unchecked (ioSend record)
  failIf (sent = false) (.ret .crypto)
  let (ret, t) := wnTls13KeyUpdate p s.writeKeys s.digest
  let s := s.setWriteKeys t
  unchecked (setSess s)
  unchecked (ofExcept ret)
  unchecked (setSess { s with cSeq := 0 })
  unchecked (emit .writeKeys)

/-- The KeyUpdate branch of `wn_session_posths`. -/
def posthsKeyUpdate (req : UInt8) (unread : Bytes) : MemIo Unit := do
  let s := (← get).sess
  let (ret, t) := wnTls13KeyUpdate p s.readKeys s.digest
  let s := s.setReadKeys t
  unchecked (setSess s)
  unchecked (ofExcept ret)
  unchecked (setSess { s with sSeq := 0 })
  unchecked (emit (.readKeys unread))
  if req = 1 then wnSessionSendKeyUpdate p spill else pure ()

/-- A reader's call on the message behind the header, as scratch has it then. -/
def reading {α : Type} (n : Nat) (read : Reader → α × Reader) (r : Reader) : SessIo (α × Reader) := do
  let mem ← scratch
  checked (WolfNano.reading mem.length wnRecordHeaderSz n read { r with buf := mem.drop wnRecordHeaderSz })

/-- One turn of the loop of `wn_session_posths`. -/
def posthsStep (msgLen : Nat) (r : Reader) : SessIo (Reader ⊕ Unit) :=
  if r.pos < msgLen then do
    let (mType, r) ← reading 1 wnReadU8 r
    let (mLen, r) ← reading 3 wnReadU24 r
    if mType = wnHsNewSessionTicket then do
      let (_, r) ← reading mLen (skipBytes mLen) r
      failIf (r.err = true) (.ret .decode)
      pure (.inl r)
    else if mType = wnHsKeyUpdate then do
      let (req, r) ← reading 1 wnReadU8 r
      failIf (r.err = true ∨ mLen ≠ 1 ∨ req > 1) (.ret .decode)
      let unread ← load (wnRecordHeaderSz + r.pos) (msgLen - r.pos)
      checked (posthsKeyUpdate p spill req unread)
      pure (.inl r)
    else throw (.ret .unexpectedMsg)
  else pure (.inr ())

/-- `wn_session_posths` of the `msgLen` bytes behind the header. -/
def wnSessionPosths (msgLen : Nat) : SessIo Unit := do
  let mem ← scratch
  repeatM (.ret .decode) (posthsStep p spill msgLen) (msgLen + 1) (wnReaderInit (mem.drop wnRecordHeaderSz) msgLen)

def wnSend (data : Bytes) : SessIo Unit := do
  world checkOpen
  let s := (← get).world.sess
  failIf (data.length > wnMaxPlaintext ∨ s.scratchLen < wnSendOverhead ∨
    data.length > s.scratchLen - wnSendOverhead) (.ret .invalidArg)
  let recLen ← wnRecordProtect p spill s.cKey s.cIv s.cSeq wnRecAppdata data
  world (setSess { s with cSeq := s.cSeq + 1 })
  let record ← load 0 recLen
  let sent ← world (ioSend record)
  failIf (sent = false) (.ret .crypto)

/-- What `wn_Recv` does with the `plainLen` bytes of content behind the header. -/
def recvContent (outCap : Nat) (ctype : UInt8) (plainLen : Nat) : SessIo (Unit ⊕ RecvOut) :=
  if ctype = wnRecAppdata then
    if plainLen > outCap then pure (.inr .small)
    else do
      let plain ← load wnRecordHeaderSz plainLen
      pure (.inr (.deliver plain))
  else if ctype = wnRecHandshake then do
    wnSessionPosths p spill plainLen
    pure (.inl ())
  else if ctype = wnRecAlert then do
    let description ← if plainLen ≥ 2 then load (wnRecordHeaderSz + 1) 1 else pure []
    if description = [0] then do
      let s := (← get).world.sess
      world (setSess { s with flags := s.flags ||| wnSessClosed })
      throw (.ret .closed)
    else throw (.ret .crypto)
  else throw (.ret .unexpectedMsg)

/-- One turn of the loop of `wn_Recv`; the content is wiped whatever was done with it. -/
def recvStep (outCap : Nat) : Unit → SessIo (Unit ⊕ RecvOut) := fun _ => do
  let s := (← get).world.sess
  wnRecvRecord s.scratchLen
  failIf ((← get).out.type = wnRecChangeCipher) (.ret .unexpectedMsg)
  let (ctype, plainLen) ← wnRecordUnprotect p spill s.sKey s.sIv s.sSeq
  finallyDo
    (do
      world (setSess { s with sSeq := s.sSeq + 1 })
      recvContent p spill outCap ctype plainLen)
    (forceZero wnRecordHeaderSz plainLen)

def wnRecv (outCap : Nat) : SessIo Bytes := do
  world checkOpen
  match ← repeatM (.ret .crypto) (recvStep p spill outCap) ((← get).world.pending + 1) () with
  | .deliver plain => pure plain
  | .small => throw (.ret .invalidArg)

/-- The close_notify of `wn_Close`, its record in `rec[24]`. -/
def sendCloseNotify : MemIo Unit := do
  let s := (← get).sess
  if ¬ s.Closed ∧ s.Established ∧ s.ioSend ≠ 0 then do
    let record ← protectLocal p spill (wnRecordHeaderSz + 2 + 1 + wnRecordTagSz) s.cKey s.cIv s.cSeq wnRecAlert [1, 0]
    let _ ← unchecked (ioSend record)
    pure ()
  else pure ()

def wnClose : MemIo Unit := do
  tryCatch (sendCloseNotify p spill) (fun e => do
    unchecked (setSess .zero)
    throw e)
  unchecked (setSess .zero)

/-! ## Calls -/

/-- A call, and the data it has for its caller. -/
def call : Call → SessIo Bytes
  | .send data => do
    wnSend p spill data
    pure []
  | .recv outCap => wnRecv p spill outCap
  | .close => do
    checked (wnClose p spill)
    pure []

/-- What a caller gets, unless a check failed. -/
def answer : EStateM.Result (Stop Fault Err) RecvState Bytes → Except (Stop Fault Err) Bytes
  | .ok a _ => .ok a
  | .error e _ => .error e

/-- The answers to one call after the other, and the state after them. -/
def callsRun : List Call → RecvState → List (Except (Stop Fault Err) Bytes) × RecvState
  | [], s => ([], s)
  | c :: calls, s =>
    let r := call p spill c s
    let (answers, s') := callsRun calls (endState r)
    (answer r :: answers, s')

end InScratch

end WolfNano

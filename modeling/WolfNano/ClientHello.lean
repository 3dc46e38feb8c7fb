/-
The two ClientHello encoders: `wn_ClientHello_Build_ex` of
`wn_clienthello.c`, for the certificate driver, and `build_client_hello` of
`wn_connect.c`, for the PSK driver. And the plaintext records they go out in.
-/
import WolfNano.Msg
import WolfNano.Record

namespace WolfNano

open Prog

/-! ## Plaintext records -/

/-- `send_plain_record`: the header, then the body, one `ioSend` call each. -/
def sendPlainRecord (type : UInt8) (body : Bytes) : Io Unit := do
  let sent ← ioSend [type, 3, 3, UInt8.ofNat (body.length >>> 8), UInt8.ofNat body.length]
  failIf (sent = false) .crypto
  let sent ← ioSend body
  failIf (sent = false) .crypto

def sendCcs : Io Unit := sendPlainRecord wnRecChangeCipher [1]

variable (cfg : Config)

/-! ## The PSK driver's ClientHello -/

/-- What `build_client_hello` leaves: the writer, how much of it the binder
covers, and where the binder goes. -/
structure BuiltHello where
  w : Writer
  truncOff : Nat
  binderOff : Nat

/-- The fixed fields, up to where the extensions start. -/
def buildHelloFields (w : Writer) (random32 sid : Block 32) : Writer :=
  let w := wnWriteU16 w 0x0303
  let w := wnWriteBytes w random32.val
  let w := wnWriteU8 w 32
  let w := wnWriteBytes w sid.val
  let w := wnWriteU16 w 2
  let w := wnWriteU16 w 0x1301
  let w := wnWriteU8 w 1
  wnWriteU8 w 0

/-- The extensions before pre_shared_key. -/
def buildHelloExts (w : Writer) (cliPub : Bytes) : Writer :=
  let group := cfg.group.code
  let pubLen := cliPub.length
  let w := wnWriteU16 w 43                       -- supported_versions
  let w := wnWriteU16 w 3
  let w := wnWriteU8 w 2
  let w := wnWriteU16 w 0x0304
  let w := wnWriteU16 w 10                       -- supported_groups
  let w := wnWriteU16 w 4
  let w := wnWriteU16 w 2
  let w := wnWriteU16 w group
  let w := wnWriteU16 w 13                       -- signature_algorithms
  let w := match cfg.mldsa with
    | some level => wnWriteU16 (wnWriteU16 (wnWriteU16 w 8) 6) level.scheme
    | none => wnWriteU16 (wnWriteU16 w 6) 4
  let w := wnWriteU16 w 0x0807
  let w := wnWriteU16 w 0x0403
  let w := wnWriteU16 w 51                       -- key_share
  let w := wnWriteU16 w (6 + pubLen)
  let w := wnWriteU16 w (4 + pubLen)
  let w := wnWriteU16 w group
  let w := wnWriteU16 w pubLen
  let w := wnWriteBytes w cliPub
  let w := wnWriteU16 w 45                       -- psk_key_exchange_modes
  let w := wnWriteU16 w 2
  let w := wnWriteU8 w 1
  wnWriteU8 w 1

/-- The identities of pre_shared_key. -/
def buildHelloIdentities (w : Writer) (identity : Bytes) : Writer :=
  let (w, idsLen) := wnWriteLenStart w 2
  let w := wnWriteU16 w identity.length
  let w := wnWriteBytes w identity
  let w := wnWriteU16 w 0                        -- obfuscated_ticket_age
  let w := wnWriteU16 w 0
  wnWriteLenEnd w idsLen 2

/-- `build_client_hello`. A `word16` argument is written by its low 16 bits,
which is the source's cast. -/
def buildClientHello (w : Writer) (random32 sid : Block 32) (cliPub identity : Bytes) : BuiltHello :=
  let w := wnWriteU8 w 1
  let (w, hsLen) := wnWriteLenStart w 3
  let w := buildHelloFields w random32 sid
  let (w, extLen) := wnWriteLenStart w 2
  let w := buildHelloExts cfg w cliPub
  let w := wnWriteU16 w 41                       -- pre_shared_key, last
  let (w, pskLen) := wnWriteLenStart w 2
  let w := buildHelloIdentities w identity
  let truncOff := w.len
  let w := wnWriteU16 w 33
  let w := wnWriteU8 w 32
  let binderOff := w.len
  let w := (List.range 32).foldl (fun w _ => wnWriteU8 w 0) w
  let w := wnWriteLenEnd w pskLen 2
  let w := wnWriteLenEnd w extLen 2
  let w := wnWriteLenEnd w hsLen 3
  { w, truncOff, binderOff }

/-! ## The certificate driver's ClientHello -/

/-- server_name with one host_name, if the name is not empty. -/
def buildServerName (w : Writer) (name : Bytes) : Writer :=
  if name.length > 0 then
    let w := wnWriteU16 w wnExtServerName
    let w := wnWriteU16 w (2 + 1 + 2 + name.length)
    let w := wnWriteU16 w (1 + 2 + name.length)
    let w := wnWriteU8 w 0
    let w := wnWriteU16 w name.length
    wnWriteBytes w name
  else w

/-- The schemes offered, one for each verifier compiled in. -/
def buildSigAlgs (w : Writer) : Writer :=
  let w := if cfg.fips then w else
    let w := match cfg.mldsa with
      | some level => wnWriteU16 w level.scheme
      | none => w
    wnWriteU16 w 0x0807
  let w := if cfg.haveEcc384 ∧ cfg.sha384 then wnWriteU16 w 0x0503 else w
  let w := wnWriteU16 w 0x0403
  if cfg.noRsa then w else
    let w := if cfg.sha512 then wnWriteU16 w 0x0806 else w
    let w := if cfg.sha384 then wnWriteU16 w 0x0805 else w
    wnWriteU16 w 0x0804

/-- `wn_ClientHello_Build_ex` into `out`, whose first `outCap` bytes may be
written: the message's length, and the memory at `out` after. -/
def wnClientHelloBuildEx (out : Bytes) (outCap : Nat) (random32 : Block 32) (sessionId pub : Bytes)
    (serverName : Option Bytes) : Except Err Nat × Bytes :=
  let name := serverName.getD []
  if pub.length ≠ cfg.group.pubSz ∨ sessionId.length > 32 ∨ name.length > 255 then
    (.error .invalidArg, out)
  else
    let w := wnWriterInit out outCap
    let w := wnWriteU8 w 1
    let (w, hsLen) := wnWriteLenStart w 3
    let w := wnWriteU16 w 0x0303
    let w := wnWriteBytes w random32.val
    let w := wnWriteU8 w (UInt8.ofNat sessionId.length)
    let w := if sessionId.length > 0 then wnWriteBytes w sessionId else w
    let w := wnWriteU16 w 2
    let w := wnWriteU16 w wnCipherAes128GcmSha256
    let w := wnWriteU8 w 1
    let w := wnWriteU8 w 0
    let (w, extLen) := wnWriteLenStart w 2
    let w := buildServerName w name
    let w := wnWriteU16 w wnExtSupportedVer
    let w := wnWriteU16 w 3
    let w := wnWriteU8 w 2
    let w := wnWriteU16 w 0x0304
    let w := wnWriteU16 w wnExtSupportedGrp
    let w := wnWriteU16 w 4
    let w := wnWriteU16 w 2
    let w := wnWriteU16 w cfg.group.code
    let w := wnWriteU16 w wnExtSigAlgs
    let (w, saExt) := wnWriteLenStart w 2
    let (w, saList) := wnWriteLenStart w 2
    let w := buildSigAlgs cfg w
    let w := wnWriteLenEnd w saList 2
    let w := wnWriteLenEnd w saExt 2
    let w := wnWriteU16 w wnExtKeyShare
    let w := wnWriteU16 w (2 + 2 + 2 + pub.length)
    let w := wnWriteU16 w (2 + 2 + pub.length)
    let w := wnWriteU16 w cfg.group.code
    let w := wnWriteU16 w pub.length
    let w := wnWriteBytes w pub
    let w := wnWriteLenEnd w extLen 2
    let w := wnWriteLenEnd w hsLen 3
    if w.err = true then (.error .invalidArg, w.buf) else (.ok w.len, w.buf)

end WolfNano

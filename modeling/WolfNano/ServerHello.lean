/-
`wn_serverhello.c`: the ServerHello parser (RFC 8446 4.1.3), and
`wn_CheckEncExt` of `wn_connect.c`, the EncryptedExtensions check (4.3.1).
-/
import WolfNano.Msg

namespace WolfNano

/-- `wn_hrr_random`: the HelloRetryRequest random (RFC 8446 4.1.3). -/
def wnHrrRandom : Bytes :=
  [0xCF, 0x21, 0xAD, 0x74, 0xE5, 0x9A, 0x61, 0x11, 0xBE, 0x1D, 0x8C, 0x02, 0x1E, 0x65, 0xB8, 0x91,
   0xC2, 0xA2, 0x11, 0x16, 0x7A, 0xBB, 0x8C, 0x5E, 0x07, 0x9E, 0x09, 0xE2, 0xC8, 0xA8, 0x33, 0x9C]

/-- `wn_ServerHello`; a pointer into the input is the bytes it points at. -/
structure ServerHello where
  random : Option Bytes
  keyShare : Option Bytes
  sessionId : Option Bytes
  keyShareLen : Nat
  cipher : Nat
  group : Nat
  version : Nat
  pskSelected : Int
  isHelloRetry : Bool
  sessionIdLen : Nat
  deriving DecidableEq

/-- The output before anything is parsed. -/
def ServerHello.init : ServerHello where
  random := none
  keyShare := none
  sessionId := none
  keyShareLen := 0
  cipher := 0
  group := 0
  version := 0
  pskSelected := -1
  isHelloRetry := false
  sessionIdLen := 0

/-- The extension loop's variables. -/
structure ShExts where
  r : Reader
  out : ServerHello
  seenKs : Bool
  seenVer : Bool
  seenPsk : Bool

/-- `r.err = 1` if `b`. -/
def Reader.failIf (r : Reader) (b : Bool) : Reader := if b then { r with err := true } else r

/-- One extension. -/
def shExtension (st : ShExts) (extEnd : Nat) : ShExts :=
  let (et, r) := wnReadU16 st.r
  let (el, r) := wnReadU16 r
  let eEnd := add32 r.pos el
  if eEnd > extEnd then
    { st with r := { r with err := true } }
  else if et = wnExtKeyShare then
    let r := r.failIf st.seenKs
    let (group, r) := wnReadU16 r
    let (klen, r) := wnReadU16 r
    let (keyShare, r) := wnReadBytes r klen
    { st with
      r := r.failIf (r.pos != eEnd), seenKs := true
      out := { st.out with group, keyShare, keyShareLen := klen } }
  else if et = wnExtSupportedVer then
    let r := r.failIf st.seenVer
    let (version, r) := wnReadU16 r
    { st with r := r.failIf (r.pos != eEnd), seenVer := true, out := { st.out with version } }
  else if et = wnExtPreShared then
    let r := r.failIf st.seenPsk
    let (sel, r) := wnReadU16 r
    { st with
      r := r.failIf (r.pos != eEnd), seenPsk := true, out := { st.out with pskSelected := sel } }
  else
    { st with r := { r with err := true } }   -- unsolicited extension

/-- The extension loop. Each turn reads four bytes or fails, so the message's
length is fuel enough. -/
def shExtensions (extEnd : Nat) : Nat → ShExts → ShExts
  | 0, st => st
  | n + 1, st =>
    if st.r.pos < extEnd ∧ st.r.err = false then shExtensions extEnd n (shExtension st extEnd) else st

def wnServerHelloParse (msg : Bytes) : Except Err ServerHello :=
  let msgLen := msg.length
  let r := wnReaderInit msg msgLen
  let (type, r) := wnReadU8 r
  let (hsLen, r) := wnReadU24 r
  let (lver, r) := wnReadU16 r
  let (random, r) := wnReadBytes r 32
  let out := { ServerHello.init with random }
  -- A real HelloRetryRequest's key_share would not parse below, so look first.
  if r.err = false ∧ type = wnHsServerHello ∧ random = some wnHrrRandom then
    .ok { out with isHelloRetry := true }
  else
    let (sidLen, r) := wnReadU8 r
    let (sessionId, r) := wnReadBytes r sidLen.toNat
    let (cipher, r) := wnReadU16 r
    let (comp, r) := wnReadU8 r
    let (extLen, r) := wnReadU16 r
    let extEnd := add32 r.pos extLen
    let (extEnd', r) := if extEnd > msgLen then (msgLen, { r with err := true }) else (extEnd, r)
    let st := shExtensions extEnd' msgLen
      { r, out := { out with sessionId, sessionIdLen := sidLen.toNat, cipher }
        seenKs := false, seenVer := false, seenPsk := false }
    if st.r.err = true ∨ type ≠ wnHsServerHello ∨ hsLen ≠ sub32 msgLen 4 ∨ random = none ∨
        lver ≠ 0x0303 ∨ comp ≠ 0 ∨ extEnd' ≠ msgLen then
      .error .invalidArg
    else .ok st.out

/-! ## EncryptedExtensions -/

/-- The loop of `wn_CheckEncExt`, likewise. -/
def encExtensions (extEnd : Nat) (sniOffered : Bool) : Nat → Reader → Except Err Unit
  | 0, _ => .ok ()
  | n + 1, r =>
    if r.pos < extEnd ∧ r.err = false then
      let (et, r) := wnReadU16 r
      let (el, r) := wnReadU16 r
      let (_, r) := wnReadBytes r el
      if r.err = true then .error .decode
      else if et ≠ wnExtSupportedGrp ∧ ¬ (et = wnExtServerName ∧ sniOffered = true ∧ el = 0) then
        .error .unexpectedMsg
      else encExtensions extEnd sniOffered n r
    else .ok ()

def wnCheckEncExt (body : Bytes) (sniOffered : Bool) : Except Err Unit :=
  let r := wnReaderInit body body.length
  let (extLen, r) := wnReadU16 r
  let extEnd := add32 r.pos extLen
  if r.err = true ∨ extEnd ≠ body.length then .error .decode
  else encExtensions extEnd sniOffered body.length r

end WolfNano

/-
What RFC 8446 says of record protection and of the key schedule, over the
provider's primitives.

Secrets are functions of the messages of the transcript, not of a running
hash: `deriveSecret` is Derive-Secret of 7.1, `finished` is `verify_data` of
4.4.4, `nonce` and `seal` are 5.2 to 5.4. Nothing here follows the code.
-/
import WolfNano.KeySchedule

namespace WolfNano.Rfc

open Wire

variable {cfg : Config} (p : Provider cfg)

/-! ## Records (5.2) -/

/-- The per-record nonce (5.3): the sequence number, padded on the left to the
iv's length, xored with the iv. -/
def nonce (iv : Block 12) (seq : Nat) : Block 12 :=
  ⟨List.zipWith (· ^^^ ·) iv.val (be 12 seq), by simp⟩

/-- TLSInnerPlaintext, with `pad` zeros. -/
def inner (type : UInt8) (content : Bytes) (pad : Nat) : Bytes :=
  content ++ type :: List.replicate pad 0

/-- The header of a TLSCiphertext with `n` bytes of encrypted record. -/
def header (n : Nat) : Bytes := [23, 3, 3] ++ be 2 n

/-- The TLSCiphertext of `plain`: its encrypted record is 16 bytes longer. -/
def ciphertext (key : Block 16) (n : Block 12) (plain : Bytes) : Option Bytes :=
  (p.aesGcmEncrypt key n (header (plain.length + 16)) plain).map fun (ct, tag) =>
    header (plain.length + 16) ++ ct.val ++ tag.val

/-- A record sealed under traffic keys at a sequence number. -/
def sealRecord (t : TrafficKeys) (seq : Nat) (type : UInt8) (content : Bytes) (pad : Nat) :
    Option Bytes :=
  ciphertext p t.key (nonce t.iv seq) (inner type content pad)

/-- Opening a TLSCiphertext: the type and content of its inner plaintext, the
padding's zeros dropped (5.4). -/
def openRecord (t : TrafficKeys) (seq : Nat) (record : Bytes) : Option (UInt8 × Bytes) := do
  let (hdr, encrypted) ← takeBytes 5 record
  let (ct, tag) ← takeBytes (encrypted.length - 16) encrypted
  let plain ← p.aesGcmDecrypt t.key (nonce t.iv seq) hdr ct tag
  match plain.val.reverse.dropWhile (· == 0) with
  | [] => none
  | type :: content => if hdr = header encrypted.length then some (type, content.reverse) else none

/-! ## The key schedule (7.1) -/

def expandLabel (n : Nat) (secret : Block 32) (label : String) (context : Bytes) : Option (Block n) :=
  p.hkdfExpandLabel n secret.val "tls13 " label context

def deriveSecret (secret : Block 32) (label : String) (messages : Bytes) : Option (Block 32) := do
  let th ← p.sha256 messages
  expandLabel p 32 secret label th.val

/-- The Early Secret. HKDF-Extract of an absent salt is of the empty one. -/
def earlySecret (psk : Bytes) : Option (Block 32) := p.hkdfExtract [] psk

def handshakeSecret (psk ecdhe : Bytes) : Option (Block 32) := do
  let early ← earlySecret p psk
  let salt ← deriveSecret p early "derived" []
  p.hkdfExtract salt.val ecdhe

def masterSecret (psk ecdhe : Bytes) : Option (Block 32) := do
  let hs ← handshakeSecret p psk ecdhe
  let salt ← deriveSecret p hs "derived" []
  p.hkdfExtract salt.val (Block.zero 32).val

/-- The record key and iv of a traffic secret (7.3). -/
def trafficKeys (secret : Block 32) : Option TrafficKeys := do
  let key ← expandLabel p 16 secret "key" []
  let iv ← expandLabel p 12 secret "iv" []
  pure { secret, key, iv }

/-- The keys of a handshake traffic secret; `messages` is through ServerHello. -/
def hsTraffic (psk ecdhe : Bytes) (label : String) (messages : Bytes) : Option TrafficKeys := do
  let hs ← handshakeSecret p psk ecdhe
  let secret ← deriveSecret p hs label messages
  trafficKeys p secret

/-- The keys of an application traffic secret; `messages` is through the
server's Finished. -/
def apTraffic (psk ecdhe : Bytes) (label : String) (messages : Bytes) : Option TrafficKeys := do
  let master ← masterSecret p psk ecdhe
  let secret ← deriveSecret p master label messages
  trafficKeys p secret

/-- The next generation of a traffic secret (7.2). -/
def update (t : TrafficKeys) : Option TrafficKeys := do
  let secret ← expandLabel p 32 t.secret "traffic upd" []
  trafficKeys p secret

/-- The PSK binder key of an external PSK. -/
def binderKey (psk : Bytes) : Option (Block 32) := do
  let early ← earlySecret p psk
  deriveSecret p early "ext binder" []

/-- `verify_data` (4.4.4) under a base key, over the messages before it. -/
def finished (baseKey : Block 32) (messages : Bytes) : Option (Block 32) := do
  let finishedKey ← expandLabel p 32 baseKey "finished" []
  let th ← p.sha256 messages
  p.hmac finishedKey.val th.val

/-! ## Handshake messages (4) -/

/-- A handshake message: its type, its body's length, its body. -/
def hsMsg (type : UInt8) (body : Bytes) : Bytes := type :: vec 3 body

end WolfNano.Rfc

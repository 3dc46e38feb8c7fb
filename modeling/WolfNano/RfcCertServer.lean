/-
An RFC 8446 server that proves its identity with a certificate: the handshake
with (EC)DHE and without a PSK.

As `Rfc.Server`, it is a function of the ClientHello's bytes, and nothing here
follows the client's code.
-/
import WolfNano.RfcServer
import WolfNano.CertificateFacts

namespace WolfNano.Rfc

open Wire

variable {cfg : Config} (p : Provider cfg)

namespace ClientHello

variable (h : ClientHello)

def offersScheme (v : Nat) : Bool := h.exts.any fun
  | .sigAlgs l => l.contains v
  | _ => false

/-- It has sent a server_name. -/
def named : Bool := h.exts.any fun
  | .serverName _ => true
  | _ => false

end ClientHello

/-- A server: its certificates and signing key, and what it draws and chooses. -/
structure CertServer (cfg : Config) where
  /-- Its certificate first. -/
  entries : List CertEntry
  entries_fit : ∀ e ∈ entries, e.Fits
  scheme : Nat
  scheme_lt : scheme < 2 ^ 16
  /-- Its signature of a content, under that scheme. -/
  sign : Bytes → Option Bytes
  random : Block 32
  random_ne : random.val ≠ wnHrrRandom
  /-- From the client's share, its own and the secret. -/
  exchange : Bytes → Option (Block cfg.group.srvShareSz × Block cfg.group.secretSz)
  /-- The order it sends its extensions in. -/
  arrange : List ShExt → List ShExt
  arrange_perm : ∀ l, (arrange l).Perm l
  /-- The groups it lists in EncryptedExtensions, if it does. -/
  groups : Option (List Nat)
  groups_fit : ∀ l ∈ groups, (CExt.groups l).Fits
  /-- It says that it used the client's name, when it was sent one. -/
  acknowledges : Bool

/-- What a server of either kind sends and derives. -/
structure Answer where
  sh : SHello
  /-- Its messages from EncryptedExtensions through Finished. -/
  flight : Bytes
  /-- The messages through its Finished. -/
  messages : Bytes
  clientHs : TrafficKeys
  serverHs : TrafficKeys
  clientAp : TrafficKeys
  serverAp : TrafficKeys

namespace CertServer

variable (s : CertServer cfg)

/-- The extensions of its EncryptedExtensions. -/
def encExts (named : Bool) : List Extension :=
  (s.groups.map fun l => (10, (CExt.groups l).data)).toList ++ if named ∧ s.acknowledges then [(0, [])] else []

/-- Its ServerHello, with the share it answers with. -/
def hello (sessionId : Bytes) (share : Block cfg.group.srvShareSz) : SHello where
  random := s.random
  sessionId := sessionId
  cipher := 0x1301
  exts := s.arrange [.keyShare cfg.group.code share.val, .version 0x0304]

/-- Through its Certificate. -/
def certFlight (named : Bool) : Bytes :=
  hsMsg 8 (encryptedExtensions (s.encExts named)) ++ hsMsg 11 (certificate s.entries [])

/-- The reply to a ClientHello that offers what the server supports. Without a
PSK the key schedule starts from zeros (7.1). -/
def reply (msg : Bytes) (ch : ClientHello) : Option Answer := do
  let clientShare ← ch.share cfg.group.code
  let (share, ecdhe) ← s.exchange clientShare
  let psk := List.replicate 32 0
  let sh := s.hello ch.sessionId share
  let clientHs ← hsTraffic p psk ecdhe.val "c hs traffic" (msg ++ sh.encode)
  let serverHs ← hsTraffic p psk ecdhe.val "s hs traffic" (msg ++ sh.encode)
  let th ← p.sha256 (msg ++ sh.encode ++ s.certFlight ch.named)
  let sig ← s.sign (certVerifyContent th.val)
  let proof := s.certFlight ch.named ++ hsMsg 15 (certVerify s.scheme sig)
  let mac ← finished p serverHs.secret (msg ++ sh.encode ++ proof)
  let flight := proof ++ hsMsg 20 mac.val
  let messages := msg ++ sh.encode ++ flight
  let clientAp ← apTraffic p psk ecdhe.val "c ap traffic" messages
  let serverAp ← apTraffic p psk ecdhe.val "s ap traffic" messages
  pure { sh, flight, messages, clientHs, serverHs, clientAp, serverAp }

/-- What the server does with a ClientHello: none if it does not accept it. -/
def respond (msg : Bytes) : Option Answer := do
  let ch ← ClientHello.parse msg
  if 0x1301 ∈ ch.cipherSuites ∧ ch.offersVersion 0x0304 ∧ ch.offersScheme s.scheme then reply p s msg ch else none

end CertServer

/-- The server accepts a record as the client's Finished. -/
def Answer.Accepts (r : Answer) (record : Bytes) : Prop :=
  ∃ mac, finished p r.clientHs.secret r.messages = some mac ∧
    openRecord p r.clientHs 0 record = some (22, hsMsg 20 mac.val)

/-- A PSK server's answer. -/
def Reply.answer (r : Reply) : Answer where
  sh := r.sh
  flight := hsMsg 8 r.ee ++ hsMsg 20 r.mac.val
  messages := r.messages
  clientHs := r.clientHs
  serverHs := r.serverHs
  clientAp := r.clientAp
  serverAp := r.serverAp

/-- A server of either kind. -/
inductive Party (cfg : Config) where
  | psk (s : Server cfg)
  | cert (s : CertServer cfg)

def Party.respond : Party cfg → Bytes → Option Answer
  | .psk s, msg => (s.respond p msg).map Reply.answer
  | .cert s, msg => s.respond p msg

end WolfNano.Rfc

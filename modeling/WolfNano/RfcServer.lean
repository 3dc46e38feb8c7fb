/-
An RFC 8446 server for the external-PSK + (EC)DHE handshake.

It is a function of the ClientHello's bytes: it parses them, checks that it is
offered what it supports, verifies the binder over the truncated ClientHello,
and derives everything from its own copy of the PSK and its own exchange.
Nothing here follows the client's code.
-/
import WolfNano.ServerHelloFacts
import WolfNano.EncExtFacts
import WolfNano.ClientHelloGrammar

namespace WolfNano.Rfc

open Wire

variable {cfg : Config} (p : Provider cfg)

/-! ## What a ClientHello offers -/

namespace ClientHello

variable (h : ClientHello)

def offersVersion (v : Nat) : Bool := h.exts.any fun
  | .versions l => l.contains v
  | _ => false

def offersPskMode (m : Nat) : Bool := h.exts.any fun
  | .pskModes l => l.contains m
  | _ => false

/-- The share for a group. -/
def share (group : Nat) : Option Bytes := h.exts.findSome? fun
  | .keyShares l => l.lookup group
  | _ => none

def preShared : Option (List (Bytes × Nat) × List Bytes) := h.exts.findSome? fun
  | .preShared ids binders => some (ids, binders)
  | _ => none

end ClientHello

/-- Truncate(ClientHello): all but the list of binders (4.2.11.2). -/
def truncate (msg : Bytes) (binders : List Bytes) : Bytes :=
  msg.take (msg.length - (vec 2 (binders.flatMap encBinder)).length)

/-! ## The server -/

/-- A server: its PSK and what it draws and chooses. -/
structure Server (cfg : Config) where
  psk : Bytes
  identity : Bytes
  random : Block 32
  random_ne : random.val ≠ wnHrrRandom
  /-- From the client's share, its own and the secret. -/
  exchange : Bytes → Option (Block cfg.group.srvShareSz × Block cfg.group.secretSz)
  /-- The order it sends its extensions in. -/
  arrange : List ShExt → List ShExt
  arrange_perm : ∀ l, (arrange l).Perm l
  /-- The groups it lists in EncryptedExtensions, if it does. -/
  groups : Option (List Nat)
  groups_fit : ∀ l ∈ groups, (CExt.groups l).Fits

/-- What a server sends and derives. -/
structure Reply where
  sh : SHello
  ee : Bytes
  /-- The `verify_data` of its Finished. -/
  mac : Block 32
  /-- The messages through its Finished. -/
  messages : Bytes
  clientHs : TrafficKeys
  serverHs : TrafficKeys
  clientAp : TrafficKeys
  serverAp : TrafficKeys

namespace Server

variable (s : Server cfg)

/-- The body of its EncryptedExtensions. -/
def encExts : Bytes := encryptedExtensions (s.groups.map fun l => (10, (CExt.groups l).data)).toList

/-- Its ServerHello, with the share it answers with and the PSK at index `i`. -/
def hello (sessionId : Bytes) (share : Block cfg.group.srvShareSz) (i : Nat) : SHello where
  random := s.random
  sessionId := sessionId
  cipher := 0x1301
  exts := s.arrange [.keyShare cfg.group.code share.val, .version 0x0304, .preShared i]

/-- The reply to a ClientHello that offers what the server supports, with its
PSK at index `i`. -/
def reply (msg : Bytes) (ch : ClientHello) (i : Nat) : Option Reply := do
  let clientShare ← ch.share cfg.group.code
  let (share, ecdhe) ← s.exchange clientShare
  let sh := s.hello ch.sessionId share i
  let clientHs ← hsTraffic p s.psk ecdhe.val "c hs traffic" (msg ++ sh.encode)
  let serverHs ← hsTraffic p s.psk ecdhe.val "s hs traffic" (msg ++ sh.encode)
  let flight := msg ++ sh.encode ++ hsMsg 8 s.encExts
  let mac ← finished p serverHs.secret flight
  let messages := flight ++ hsMsg 20 mac.val
  let clientAp ← apTraffic p s.psk ecdhe.val "c ap traffic" messages
  let serverAp ← apTraffic p s.psk ecdhe.val "s ap traffic" messages
  pure { sh, ee := s.encExts, mac, messages, clientHs, serverHs, clientAp, serverAp }

/-- What the server does with a ClientHello: none if it does not accept it. -/
def respond (msg : Bytes) : Option Reply := do
  let ch ← ClientHello.parse msg
  let (ids, binders) ← ch.preShared
  let i ← ids.findIdx? (·.1 = s.identity)
  let binder ← binders[i]?
  let key ← binderKey p s.psk
  let mac ← finished p key (truncate msg binders)
  if 0x1301 ∈ ch.cipherSuites ∧ ch.offersVersion 0x0304 ∧ ch.offersPskMode 1 ∧ mac.val = binder then
    reply p s msg ch i
  else none

end Server

/-- The server accepts a record as the client's Finished: the first record
under the client's handshake keys, and over all messages so far. -/
def Reply.Accepts (r : Reply) (record : Bytes) : Prop :=
  ∃ mac, finished p r.clientHs.secret r.messages = some mac ∧
    openRecord p r.clientHs 0 record = some (22, hsMsg 20 mac.val)

end WolfNano.Rfc

/-
The client's side of the world: the transport callbacks, the caller's
`wn_Session`, and a trace of what the client did.

`inbox` lists what successive `ioRecv` calls find. A call takes as much of the
first piece as it asked for, and an empty piece is a call that returns an
error; past the end every call does. `sendRes` lists whether successive
`ioSend` calls take the whole buffer; past the end they all do. Every
behaviour of the two callbacks over a finite run is such a pair of lists.

The trace is not the program's: no modelled function reads it.
-/
import WolfNano.Provider
import WolfNano.Lib.EState

namespace WolfNano

/-- A pointer the code stores or compares with `NULL`, which is 0. -/
abbrev Ptr := Nat

/-- `wn_Session.digest`. -/
inductive Digest where
  | unset
  | sha256
  deriving DecidableEq

def wnSessEstablished : Nat := 1
def wnSessClosed : Nat := 2

structure Session where
  ioSend : Ptr
  ioRecv : Ptr
  ioCtx : Ptr
  scratch : Ptr
  scratchLen : Nat
  cAppSecret : Block 32
  sAppSecret : Block 32
  cKey : Block 16
  cIv : Block 12
  sKey : Block 16
  sIv : Block 12
  cSeq : UInt64
  sSeq : UInt64
  digest : Digest
  flags : Nat

/-- What `XMEMSET(sess, 0, sizeof(*sess))` leaves. -/
def Session.zero : Session where
  ioSend := 0
  ioRecv := 0
  ioCtx := 0
  scratch := 0
  scratchLen := 0
  cAppSecret := Block.zero 32
  sAppSecret := Block.zero 32
  cKey := Block.zero 16
  cIv := Block.zero 12
  sKey := Block.zero 16
  sIv := Block.zero 12
  cSeq := 0
  sSeq := 0
  digest := .unset
  flags := 0

/-- One thing the client did. -/
inductive Event where
  /-- An `ioSend` call, and whether it took the whole buffer. -/
  | send (buf : Bytes) (complete : Bool)
  /-- A `wn_Record_Protect` call, and whether it sealed the record. -/
  | protect (key : Block 16) (nonce : Block 12) (contentType : UInt8) (content : Bytes) (sealed : Bool)
  /-- The write keys became those of the next application secret. -/
  | writeKeys
  /-- The read keys were replaced, with these bytes of the record that did it
  still unread. -/
  | readKeys (unread : Bytes)

structure World where
  inbox : List Bytes
  sendRes : List Bool
  trace : List Event
  sess : Session

/-- A world in which nothing has happened. -/
def World.fresh (inbox : List Bytes) (sendRes : List Bool) (sess : Session) : World :=
  { inbox, sendRes, trace := [], sess }

/-- A program of the client: it may fail, and the world it changed stays
changed. -/
abbrev Io := EStateM Err World

/-- Add to the trace. -/
def emit (ev : Event) : Io Unit := modify fun w => { w with trace := w.trace ++ [ev] }

/-- Replace the caller's session. -/
def setSess (s : Session) : Io Unit := modify fun w => { w with sess := s }

/-- One `ioRecv` call for `n` bytes; an error is none. -/
def ioRecv (n : Nat) : Io (Option Bytes) := fun w =>
  match w.inbox with
  | [] => .ok none w
  | [] :: cs => .ok none { w with inbox := cs }
  | c :: cs => .ok (some (c.take n)) { w with inbox := if n < c.length then c.drop n :: cs else cs }

/-- One `ioSend` call; whether it returned the buffer's length. -/
def ioSend (buf : Bytes) : Io Bool := fun w =>
  let complete := w.sendRes.headD true
  .ok complete { w with sendRes := w.sendRes.tail, trace := w.trace ++ [.send buf complete] }

/-- How many bytes the transport still has. -/
def World.pending (w : World) : Nat := w.inbox.flatten.length

end WolfNano

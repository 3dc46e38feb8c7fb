/-
`wn_keyschedule.c` and `wn_transcript.c` over SHA-256, and the two steps of
the key schedule the drivers share.

Where the source collects the codes of a row of derivations with `ret |=`,
every one of them is success or `WOLFNANO_E_CRYPTO`, so the row fails with
`.crypto` when one of them does.
-/
import WolfNano.Record

namespace WolfNano

open Prog

variable {cfg : Config} (p : Provider cfg)

/-- A provider call that may fail, as the return code the shell makes of it. -/
def orCrypto {α : Type} : Option α → Except Err α
  | some a => .ok a
  | none => .error .crypto

/-! ## Transcript -/

/-- The messages hashed so far. -/
abbrev Transcript := Bytes

def wnTranscriptInit : Except Err Transcript :=
  if p.sha256Init then .ok [] else .error .crypto

def wnTranscriptUpdate (t : Transcript) (msg : Bytes) : Except Err Transcript :=
  if p.sha256Update t msg then .ok (t ++ msg) else .error .crypto

def wnTranscriptGetHash (t : Transcript) : Except Err (Block 32) := orCrypto (p.sha256 t)

/-! ## Derivations -/

def wnTls13Extract (salt ikm : Bytes) : Except Err (Block 32) := orCrypto (p.hkdfExtract salt ikm)

def wnTls13ExpandLabel (n : Nat) (secret : Bytes) (label : String) (info : Bytes) :
    Except Err (Block n) :=
  orCrypto (p.hkdfExpandLabel n secret "tls13 " label info)

def wnTls13DeriveSecret (secret : Bytes) (label : String) (transcriptHash : Block 32) :
    Except Err (Block 32) :=
  wnTls13ExpandLabel p 32 secret label transcriptHash.val

/-- The Finished MAC (RFC 8446 4.4.4) and the PSK binder (4.2.11.2). -/
def wnTls13FinishedMac (baseKey transcriptHash : Block 32) : Except Err (Block 32) := do
  let finishedKey ← wnTls13ExpandLabel p 32 baseKey.val "finished" []
  orCrypto (p.hmac finishedKey.val transcriptHash.val)

/-- A traffic secret with the record key and iv of its direction. -/
structure TrafficKeys where
  secret : Block 32
  key : Block 16
  iv : Block 12
  deriving DecidableEq

/-- `wn_Tls13_KeyUpdate`: the code, and what it leaves in the three buffers. A
derivation that fails leaves its own buffer alone. -/
def wnTls13KeyUpdate (t : TrafficKeys) (digest : Digest) : Except Err Unit × TrafficKeys :=
  match digest with
  | .unset => (.error .invalidArg, t)
  | .sha256 =>
    match wnTls13ExpandLabel p 32 t.secret.val "traffic upd" [] with
    | .error e => (.error e, t)
    | .ok secret =>
      match wnTls13ExpandLabel p 16 secret.val "key" [] with
      | .error e => (.error e, { t with secret })
      | .ok key =>
        match wnTls13ExpandLabel p 12 secret.val "iv" [] with
        | .error e => (.error e, { t with secret, key })
        | .ok iv => (.ok (), { secret, key, iv })

/-! ## The drivers' shared steps -/

/-- What `wn_DeriveHsKeys` derives. -/
structure HsKeys where
  hs : Block 32
  cHs : Block 32
  sHs : Block 32
  cKey : Block 16
  cIv : Block 12
  sKey : Block 16
  sIv : Block 12

def wnDeriveHsKeys (early : Block 32) (ecdhe : Bytes) (emptyHash th : Block 32) :
    Except Err HsKeys := do
  let derived ← wnTls13DeriveSecret p early.val "derived" emptyHash
  let hs ← wnTls13Extract p derived.val ecdhe
  let cHs ← wnTls13DeriveSecret p hs.val "c hs traffic" th
  let sHs ← wnTls13DeriveSecret p hs.val "s hs traffic" th
  let cKey ← wnTls13ExpandLabel p 16 cHs.val "key" []
  let cIv ← wnTls13ExpandLabel p 12 cHs.val "iv" []
  let sKey ← wnTls13ExpandLabel p 16 sHs.val "key" []
  let sIv ← wnTls13ExpandLabel p 12 sHs.val "iv" []
  pure { hs, cHs, sHs, cKey, cIv, sKey, sIv }

/-- The transport callbacks and the scratch buffer a driver is given. -/
structure Transport where
  ioSend : Ptr
  ioRecv : Ptr
  ioCtx : Ptr
  scratch : Ptr
  scratchLen : Nat

/-- What uninitialised locals of `wn_SessionEstablish` hold. -/
structure Junk where
  derived : Block 32
  master : Block 32

/-- Derive into a buffer: its new content, the old one if the derivation fails. -/
def into {n : Nat} (old : Block n) (r : Except Err (Block n)) : Block n := r.toOption.getD old

/-- `wn_SessionEstablish`. Every derivation runs, on whatever the ones before
it left, and writes into the caller's session; the session is marked
established when all of them succeeded. -/
def wnSessionEstablish (junk : Junk) (hs emptyHash th : Block 32) (io : Transport) : Io Unit := do
  let sess := (← get).sess
  let rDerived := wnTls13DeriveSecret p hs.val "derived" emptyHash
  let rMaster := wnTls13Extract p (into junk.derived rDerived).val (Block.zero 32).val
  let master := into junk.master rMaster
  let rCApp := wnTls13DeriveSecret p master.val "c ap traffic" th
  let cAppSecret := into sess.cAppSecret rCApp
  let rSApp := wnTls13DeriveSecret p master.val "s ap traffic" th
  let sAppSecret := into sess.sAppSecret rSApp
  let rCKey := wnTls13ExpandLabel p 16 cAppSecret.val "key" []
  let rCIv := wnTls13ExpandLabel p 12 cAppSecret.val "iv" []
  let rSKey := wnTls13ExpandLabel p 16 sAppSecret.val "key" []
  let rSIv := wnTls13ExpandLabel p 12 sAppSecret.val "iv" []
  let sess := { sess with
    cAppSecret, sAppSecret, cKey := into sess.cKey rCKey, cIv := into sess.cIv rCIv
    sKey := into sess.sKey rSKey, sIv := into sess.sIv rSIv }
  setSess sess
  failIf (¬ (rDerived.isOk ∧ rMaster.isOk ∧ rCApp.isOk ∧ rSApp.isOk ∧
    rCKey.isOk ∧ rCIv.isOk ∧ rSKey.isOk ∧ rSIv.isOk)) .crypto
  setSess { sess with
    ioSend := io.ioSend, ioRecv := io.ioRecv, ioCtx := io.ioCtx
    scratch := io.scratch, scratchLen := io.scratchLen
    cSeq := 0, sSeq := 0, digest := .sha256, flags := wnSessEstablished }
  emit .writeKeys

end WolfNano

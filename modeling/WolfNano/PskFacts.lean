/-
`wn_Connect_Psk_ex` up to its Finished.

`pskHandshake` is the driver without its last two steps; it only sends
plaintext, and `pskHandshake_ok` says all that a run of it that succeeds has
seen and sent.
-/
import WolfNano.PskFlightFacts
import WolfNano.ClientHelloFacts
import WolfNano.TraceFacts

namespace WolfNano

open Prog Wire Reassembly

variable {cfg : Config} {p : Provider cfg}

/-! ## The ClientHello -/

/-- What the driver has drawn, derived and sent when its ClientHello is out. -/
structure PskHelloSent (a : PskArgs p) (hello : PskHello p) : Prop where
  random : ∃ rng₁ rng₂, p.rngGenerateBlock a.rng 32 = (some hello.random32, rng₁) ∧
    p.rngGenerateBlock rng₁ 32 = (some hello.sid, rng₂) ∧
    p.keyShareGenerate rng₂ = .ok (hello.priv, hello.cliPub)
  emptyHash : p.sha256 [] = some hello.emptyHash
  early : Rfc.earlySecret p a.psk = some hello.early
  fits : pskHelloBase cfg + a.identity.length ≤ a.io.scratchLen
  binder : ∃ binderKey, Rfc.binderKey p a.psk = some binderKey ∧
    Rfc.finished p binderKey
      (pskHelloFront cfg hello.random32 hello.sid hello.cliPub.val a.identity) = some hello.binder
  ch : hello.ch = (pskHello cfg hello.random32 hello.sid hello.cliPub.val a.identity hello.binder.val).encode
  tc : hello.tc = hello.ch

/-- The binder goes where the zeros were. -/
theorem patch_binder {buf front : Bytes} {len : Nat} {binder : Block 32} (hlen : len = front.length + 35)
    (h : buf.take len = front ++ ([0, 33, 32] ++ List.replicate 32 0)) :
    (patch buf (front.length + 3) binder.val).take len = front ++ ([0, 33, 32] ++ binder.val) := by
  have hp := patch_inside buf (front ++ [0, 33, 32]) (List.replicate 32 0) [] binder.val (by simp)
    (by simpa [hlen] using h)
  simpa [hlen] using hp

variable {a : PskArgs p}

variable (p) in
/-- The ClientHello, made and not yet sent. -/
def pskHelloDraft (a : PskArgs p) : Except Err (PskHello p) := do
  let emptyHash ← orCrypto (p.sha256 [])
  let (random32, rng) := p.rngGenerateBlock a.rng 32
  let (sid, rng) := p.rngGenerateBlock rng 32
  let random32 ← orCrypto random32
  let sid ← orCrypto sid
  let (priv, cliPub) ← p.keyShareGenerate rng
  let tc ← wnTranscriptInit p
  let b := buildClientHello cfg (wnWriterInit [] a.io.scratchLen) random32 sid cliPub.val a.identity
  if b.w.err = true then .error .crypto
  else do
    let early ← wnTls13Extract p [] a.psk
    let binderKey ← wnTls13DeriveSecret p early.val "ext binder" emptyHash
    let th ← orCrypto (p.sha256 (b.w.buf.take b.truncOff))
    let binder ← wnTls13FinishedMac p binderKey th
    let ch := (patch b.w.buf b.binderOff binder.val).take b.w.len
    let tc ← wnTranscriptUpdate p tc ch
    pure { random32, sid, priv, cliPub, emptyHash, early, binder, ch, tc }

theorem pskClientHello_eq (a : PskArgs p) : pskClientHello p a = (do
    let hello ← ofExcept (pskHelloDraft p a)
    sendPlainRecord wnRecHandshake hello.ch
    sendCcs
    pure hello) := by
  simp only [pskClientHello, pskHelloDraft, ofExcept_failIf, ofExcept_bind, ofExcept_pure, bind_assoc, pure_bind]

theorem pskHelloDraft_ok (hid : a.identity.length ≤ 0xFFFF) {hello : PskHello p} (h : pskHelloDraft p a = .ok hello) :
    PskHelloSent a hello := by
  unfold pskHelloDraft at h
  obtain ⟨emptyHash, hempty, h⟩ := except_bind_ok.1 h
  rcases hr₁ : p.rngGenerateBlock a.rng 32 with ⟨random32, rng₁⟩
  rcases hr₂ : p.rngGenerateBlock rng₁ 32 with ⟨sid, rng₂⟩
  simp only [hr₁, hr₂] at h
  obtain ⟨random32, hrandom, h⟩ := except_bind_ok.1 h
  obtain ⟨sid, hsid, h⟩ := except_bind_ok.1 h
  obtain ⟨⟨priv, cliPub⟩, hshare, h⟩ := except_bind_ok.1 h
  obtain ⟨tc, hinit, h⟩ := except_bind_ok.1 h
  obtain ⟨hbuilt, hok⟩ := buildClientHello_ok random32 sid cliPub.length (pskHelloBase_lt cfg hid) []
    a.io.scratchLen
  have hhashed := buildClientHello_hashed random32 sid cliPub.length (pskHelloBase_lt cfg hid) [] a.io.scratchLen
  generalize buildClientHello cfg (wnWriterInit [] a.io.scratchLen) random32 sid cliPub.val a.identity = b
    at h hbuilt hok hhashed
  split at h
  · cases h
  next herr =>
  have herr : b.w.err = false := by simpa using herr
  obtain ⟨hlen, hbuf, htrunc, hbinder⟩ := hok herr
  obtain ⟨early, hearly, h⟩ := except_bind_ok.1 h
  obtain ⟨binderKey, hbk, h⟩ := except_bind_ok.1 h
  obtain ⟨th, hth, h⟩ := except_bind_ok.1 h
  obtain ⟨binder, hmac, h⟩ := except_bind_ok.1 h
  obtain ⟨tc', htc, h⟩ := except_bind_ok.1 h
  cases h
  have hfront := pskHelloFront_length random32 sid a.identity cliPub.length
  have hch : (patch b.w.buf b.binderOff binder.val).take b.w.len =
      (pskHello cfg random32 sid cliPub.val a.identity binder.val).encode := by
    rw [hbinder, patch_binder (by omega) hbuf, pskHello_encode _ _ _ _ _ binder.length]
  refine ⟨⟨rng₁, rng₂, ?_, ?_, hshare⟩, orCrypto_ok.1 hempty, orCrypto_ok.1 hearly, hbuilt.1 herr, ⟨binderKey, ?_, ?_⟩,
    hch, ?_⟩
  · rw [hr₁, orCrypto_ok.1 hrandom]
  · rw [hr₂, orCrypto_ok.1 hsid]
  · rw [wnTls13DeriveSecret_eq p (orCrypto_ok.1 hempty)] at hbk
    rw [Rfc.binderKey, show Rfc.earlySecret p a.psk = some early from orCrypto_ok.1 hearly]
    exact orCrypto_ok.1 hbk
  · rw [hhashed herr] at hth
    rw [wnTls13FinishedMac_eq p (orCrypto_ok.1 hth)] at hmac
    exact orCrypto_ok.1 hmac
  · rw [wnTranscriptUpdate_ok htc, wnTranscriptInit_ok hinit, List.nil_append]

theorem pskClientHello_ok (hid : a.identity.length ≤ 0xFFFF) {hello : PskHello p} {w w' : World}
    (h : pskClientHello p a w = .ok hello w') :
    PskHelloSent a hello ∧
      w' = { w with sendRes := w.sendRes.drop 4, trace := w.trace ++ helloSends hello.ch } := by
  rw [pskClientHello_eq] at h
  obtain ⟨hello', w₁, hx, h⟩ := bind_ok.1 h
  obtain ⟨hdraft, rfl⟩ := ofExcept_eq_ok.1 hx
  obtain ⟨_, w₂, hs₁, h⟩ := bind_ok.1 h
  obtain ⟨_, w₃, hs₂, h⟩ := bind_ok.1 h
  cases h
  refine ⟨pskHelloDraft_ok hid hdraft, ?_⟩
  rw [sendPlainRecord_ok hs₂, sendPlainRecord_ok hs₁]
  simp [helloSends]

/-! ## Up to the Finished -/

variable (p) in
/-- The driver, up to the MAC of its Finished. -/
def pskHandshake (a : PskArgs p) : Io (PskHello p × HsKeys × PskFlight × Block 32 × Block 32) := do
  failIf (a.Rejected p) .invalidArg
  setSess .zero
  let hello ← pskClientHello p a
  let (tc, ecdhe) ← recvServerHello p a.io.scratchLen hello.priv hello.sid 0 hello.tc
  let th ← ofExcept (wnTranscriptGetHash p tc)
  let keys ← ofExcept (wnDeriveHsKeys p hello.early ecdhe.val hello.emptyHash th)
  let flight ← pskFlight p a.io.scratchLen keys tc
  let th ← ofExcept (wnTranscriptGetHash p flight.tc)
  let mac ← ofExcept (wnTls13FinishedMac p keys.cHs th)
  pure (hello, keys, flight, th, mac)

theorem wnConnectPskEx_eq (a : PskArgs p) :
    wnConnectPskEx p a = (pskHandshake p a >>= fun (hello, keys, flight, th, mac) => do
      sendFinished p keys mac th hello.emptyHash a.junk a.io
      emit (.readKeys (flight.plain.drop flight.accOff))) := by
  simp only [wnConnectPskEx, pskHandshake, bind_assoc, pure_bind]

theorem pskHandshake_emits (a : PskArgs p) : Steps (Emits Event.Plain) (pskHandshake p a) := by
  refine .bind (.failIf _ _) fun _ => .bind (setSess_emits _) fun _ => .bind (pskClientHello_emits a) fun hello => ?_
  refine .bind ((recvServerHello_onlyRead _ _ _ _ _).mono fun h => h.emits) fun x => .bind (.ofExcept _) fun th => ?_
  refine .bind (.ofExcept _) fun keys => .bind ((pskFlight_onlyRead _ _ _).mono fun h => h.emits) fun flight => ?_
  exact .bind (.ofExcept _) fun th => .bind (.ofExcept _) fun mac => .pure _

/-! ## What a handshake that was accepted has seen -/

/-- The parts of a PSK handshake. -/
structure PskParts (p : Provider cfg) where
  hello : PskHello p
  ccs : List (UInt8 × UInt8)
  version : UInt8 × UInt8
  sh : Rfc.SHello
  share : Bytes
  ecdhe : Block cfg.group.secretSz
  server : TrafficKeys
  /-- The records after the ServerHello's, and the contents of those that are sealed. -/
  rs : List Bytes
  fs : List Bytes
  ee : Bytes
  mac : Block 32
  /-- What follows the Finished in the records that carry the flight. -/
  extra : Bytes

namespace PskParts

def helloMessages (x : PskParts p) : Bytes := x.hello.ch ++ x.sh.encode

/-- The messages through the server's Finished. -/
def messages (x : PskParts p) : Bytes :=
  x.helloMessages ++ Rfc.hsMsg wnHsEncryptedExt x.ee ++ Rfc.hsMsg wnHsFinished x.mac.val

/-- What the client took off the stream. -/
def stream (x : PskParts p) : Bytes :=
  x.ccs.flatMap ccsRecord ++ wireRecord wnRecHandshake x.version.1 x.version.2 x.sh.encode ++ x.rs.flatten

/-- One ServerHello that selects what was offered, records that open under the
server's handshake keys in order, and in them one EncryptedExtensions and a
Finished with the right MAC. -/
structure Authentic (x : PskParts p) (a : PskArgs p) : Prop where
  hello : PskHelloSent a x.hello
  fits : x.sh.Fits
  selects : x.sh.Selects cfg x.hello.sid x.share (some 0)
  ecdhe : p.keyShareShared x.hello.priv x.share = .ok x.ecdhe
  server : Rfc.hsTraffic p a.psk x.ecdhe.val "s hs traffic" x.helloMessages = some x.server
  flight : Flight p a.io.scratchLen x.server.key x.server.iv pskRoom 0 0 x.rs x.fs
  contents : x.fs.flatten = Rfc.hsMsg wnHsEncryptedExt x.ee ++ Rfc.hsMsg wnHsFinished x.mac.val ++ x.extra
  /-- The Finished ends in the last of the records. -/
  last : x.fs.dropLast.flatten.length < 40 + x.ee.length
  ee : wnCheckEncExt x.ee false = .ok ()
  mac : Rfc.finished p x.server.secret (x.helloMessages ++ Rfc.hsMsg wnHsEncryptedExt x.ee) = some x.mac

end PskParts

/-- **What a run of the driver that gets to its Finished has seen and sent.** -/
theorem pskHandshake_ok {hello : PskHello p} {keys : HsKeys} {flight : PskFlight} {th mac : Block 32} {w w' : World}
    (h : pskHandshake p a w = .ok (hello, keys, flight, th, mac) w') :
    ∃ x : PskParts p, x.Authentic a ∧ x.hello = hello ∧
      Rfc.handshakeSecret p a.psk x.ecdhe.val = some keys.hs ∧
      Rfc.hsTraffic p a.psk x.ecdhe.val "c hs traffic" x.helloMessages = some ⟨keys.cHs, keys.cKey, keys.cIv⟩ ∧
      x.server = ⟨keys.sHs, keys.sKey, keys.sIv⟩ ∧
      p.sha256 x.messages = some th ∧ Rfc.finished p keys.cHs x.messages = some mac ∧
      flight.plain.drop flight.accOff = x.extra ∧ w.inbox.flatten = x.stream ++ w'.inbox.flatten ∧
      w' = { w with
        inbox := w'.inbox, sendRes := w.sendRes.drop 4, trace := w.trace ++ helloSends hello.ch, sess := .zero } := by
  unfold pskHandshake at h
  obtain ⟨_, w₁, hf, h⟩ := bind_ok.1 h
  obtain ⟨hargs, rfl⟩ := failIf_ok.1 hf
  obtain ⟨_, w₂, hset, h⟩ := bind_ok.1 h
  cases hset
  have hid : a.identity.length ≤ 0xFFFF := by
    simp only [PskArgs.Rejected, not_or, Nat.not_lt] at hargs
    exact hargs.2.2.2.2.2
  obtain ⟨hello', w₃, hch, h⟩ := bind_ok.1 h
  obtain ⟨hsent, hw₃⟩ := pskClientHello_ok hid hch
  obtain ⟨⟨tc, ecdhe⟩, w₄, hsh, h⟩ := bind_ok.1 h
  obtain ⟨ccs, v₁, v₂, sh, share, hfits, hsel, htc, hshare, hread⟩ := recvServerHello_ok (some 0) hsh
  obtain ⟨th₁, w₅, hx, h⟩ := bind_ok.1 h
  obtain ⟨hth₁, rfl⟩ := ofExcept_eq_ok.1 hx
  obtain ⟨keys', w₆, hx, h⟩ := bind_ok.1 h
  obtain ⟨hkeys, rfl⟩ := ofExcept_eq_ok.1 hx
  obtain ⟨flight', w₇, hfl, h⟩ := bind_ok.1 h
  rw [pskFlight_eq] at hfl
  obtain ⟨rs, fs, f, ms, hflight, hread', hdone, hreads, hms, hlast⟩ :=
    FlightLoop.repeat_ok (L := pskLoop p a.io.scratchLen keys' tc) rfl hfl
  obtain ⟨th₂, w₈, hx, h⟩ := bind_ok.1 h
  obtain ⟨hth₂, rfl⟩ := ofExcept_eq_ok.1 hx
  obtain ⟨mac', w₉, hx, h⟩ := bind_ok.1 h
  obtain ⟨hmac, rfl⟩ := ofExcept_eq_ok.1 hx
  cases h
  rw [wnTls13FinishedMac_eq p (orCrypto_ok.1 hth₂)] at hmac
  obtain ⟨hhs, hc, hs⟩ := (wnDeriveHsKeys_ok p _ hsent.emptyHash hsent.early (orCrypto_ok.1 hth₁)).1 hkeys
  obtain ⟨ee, mac₁, rfl, hee, hfin, htc'⟩ := pskReads_done hreads hdone
  have htc'' : flight.tc = _ := htc'
  obtain rfl : tc = hello.ch ++ sh.encode := by rw [htc, hsent.tc]
  refine ⟨⟨hello, ccs, (v₁, v₂), sh, share, ecdhe, ⟨keys.sHs, keys.sKey, keys.sIv⟩, rs, fs ++ [f],
    ee, mac₁, flight.plain.drop flight.accOff⟩, ⟨hsent, hfits, hsel, hshare, hs, hflight, ?_, ?_, hee, hfin⟩, rfl, hhs,
    hc, rfl, ?_, ?_, rfl, ?_, ?_⟩
  · exact hms.trans (by simp [pskLoop])
  · rw [List.dropLast_concat]
    refine Nat.lt_of_lt_of_eq hlast ?_
    simp
    omega
  · rw [htc''] at hth₂
    exact orCrypto_ok.1 hth₂
  · rw [htc''] at hmac
    exact orCrypto_ok.1 hmac
  · have hflat : w.inbox.flatten = w₃.inbox.flatten := by rw [hw₃]
    rw [hflat, hread.1, hread'.1, PskParts.stream]
    simp
  · rw [hread'.2, hread.2, hw₃]

end WolfNano

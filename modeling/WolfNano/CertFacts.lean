/-
`wn_connect_cert_impl` up to its Finished, as `PskFacts` has it for the PSK
driver.

With `WOLFNANO_SEND_ALERTS` a failure of the flight is also sent to the
server; `certHandshake` includes that, and still seals no handshake record.
-/
import WolfNano.CertFlightFacts
import WolfNano.TraceFacts

namespace WolfNano

open Prog Wire Reassembly

variable {cfg : Config} {p : Provider cfg} {c : CertProvider}

/-! ## The ClientHello -/

/-- What the driver has drawn and sent when its ClientHello is out. -/
structure CertHelloSent (a : CertArgs p c) (hello : CertHello p) : Prop where
  random : ∃ rng₁ rng₂ pub, p.rngGenerateBlock a.rng 32 = (some hello.random32, rng₁) ∧
    p.rngGenerateBlock rng₁ 32 = (some hello.sid, rng₂) ∧ p.keyShareGenerate rng₂ = .ok (hello.priv, pub) ∧
    ∃ chLen scratch, wnClientHelloBuildEx cfg [] a.io.scratchLen hello.random32 hello.sid.val pub.val a.serverName =
      (.ok chLen, scratch) ∧ hello.ch = scratch.take chLen
  emptyHash : p.sha256 [] = some hello.emptyHash
  tc : hello.tc = hello.ch

theorem certClientHello_ok {a : CertArgs p c} {hello : CertHello p} {w w' : World}
    (h : certClientHello p c a w = .ok hello w') :
    CertHelloSent a hello ∧
      w' = { w with sendRes := w.sendRes.drop 4, trace := w.trace ++ helloSends hello.ch } := by
  unfold certClientHello at h
  obtain ⟨emptyHash, w₁, hx, h⟩ := bind_ok.1 h
  obtain ⟨hempty, rfl⟩ := ofExcept_eq_ok.1 hx
  rcases hr₁ : p.rngGenerateBlock a.rng 32 with ⟨random32, rng₁⟩
  simp only [hr₁] at h
  obtain ⟨random32, w₂, hx, h⟩ := bind_ok.1 h
  obtain ⟨hrandom, rfl⟩ := ofExcept_eq_ok.1 hx
  rcases hr₂ : p.rngGenerateBlock rng₁ 32 with ⟨sid, rng₂⟩
  simp only [hr₂] at h
  obtain ⟨sid, w₃, hx, h⟩ := bind_ok.1 h
  obtain ⟨hsid, rfl⟩ := ofExcept_eq_ok.1 hx
  obtain ⟨⟨priv, cliPub⟩, w₄, hx, h⟩ := bind_ok.1 h
  obtain ⟨hshare, rfl⟩ := ofExcept_eq_ok.1 hx
  obtain ⟨tc, w₅, hx, h⟩ := bind_ok.1 h
  obtain ⟨hinit, rfl⟩ := ofExcept_eq_ok.1 hx
  rcases hb : wnClientHelloBuildEx cfg [] a.io.scratchLen random32 sid.val cliPub.val a.serverName with ⟨chLen, scratch⟩
  simp only [hb] at h
  obtain ⟨chLen, w₆, hx, h⟩ := bind_ok.1 h
  obtain ⟨rfl, rfl⟩ := ofExcept_eq_ok.1 hx
  obtain ⟨tc', w₇, hx, h⟩ := bind_ok.1 h
  obtain ⟨htc, rfl⟩ := ofExcept_eq_ok.1 hx
  obtain ⟨_, w₈, hs₁, h⟩ := bind_ok.1 h
  obtain ⟨_, w₉, hs₂, h⟩ := bind_ok.1 h
  cases h
  refine ⟨⟨⟨rng₁, rng₂, cliPub, ?_, ?_, hshare, chLen, scratch, hb, rfl⟩, orCrypto_ok.1 hempty, ?_⟩, ?_⟩
  · rw [hr₁, orCrypto_ok.1 hrandom]
  · rw [hr₂, orCrypto_ok.1 hsid]
  · rw [wnTranscriptUpdate_ok htc, wnTranscriptInit_ok hinit, List.nil_append]
  · rw [sendPlainRecord_ok hs₂, sendPlainRecord_ok hs₁]
    simp [helloSends]

/-! ## Alerts -/

theorem alerting_ok {α : Type} {keys : HsKeys} {seq : UInt64} {x : Io α} {r : α} {w w' : World}
    (h : alerting p keys seq x w = .ok r w') : x w = .ok r w' := by
  unfold alerting at h
  split at h
  · cases hx : x w with
    | ok r' w₁ => rw [tryCatch_of_ok hx] at h; exact h
    | error e w₁ =>
      rw [tryCatch_of_error hx] at h
      obtain ⟨_, _, -, h⟩ := bind_ok.1 h
      cases h
  · exact h

/-- Not a `wn_Record_Protect` call for a handshake record. -/
def Event.Finishless : Event → Prop
  | .protect _ _ type _ _ => type ≠ wnRecHandshake
  | _ => True

theorem Event.Plain.finishless {ev : Event} (h : ev.Plain) : ev.Finishless := by
  cases ev <;> first | exact h.elim | trivial

theorem wnSendAlert_emits {P : Event → Prop} (h : ∀ ev : Event, ev.Finishless → ev.NotRead → P ev) (keys : HsKeys)
    (seq : UInt64) (e : Err) : Steps (Emits P) (wnSendAlert p keys seq e) :=
  .tryCatch (.bind (wnRecordProtect_emits p fun _ => h _ (by decide : wnRecAlert ≠ wnRecHandshake) trivial) fun _ =>
    .bind (ioSend_emits fun _ => h _ trivial trivial) fun _ => .pure _) fun _ => .pure _

theorem alerting_emits {α : Type} {P : Event → Prop} (h : ∀ ev : Event, ev.Finishless → ev.NotRead → P ev)
    (keys : HsKeys) (seq : UInt64) {x : Io α} (hx : Steps (Emits P) x) : Steps (Emits P) (alerting p keys seq x) := by
  unfold alerting
  split
  · exact .tryCatch hx fun e => .bind (wnSendAlert_emits h keys seq e) fun _ => .throw e
  · exact hx

/-! ## Up to the Finished -/

variable (p c) in
/-- The driver, up to the MAC of its Finished. -/
def certHandshake (a : CertArgs p c) : Io (CertHello p × HsKeys × CertFlight × Block 32 × Block 32) := do
  failIf (a.Rejected p c) .invalidArg
  setSess .zero
  let ioCap := a.io.scratchLen - (wnHsAccSz cfg + wnLeafSpkiSz cfg)
  let hello ← certClientHello p c a
  let (tc, ecdhe) ← recvServerHello p ioCap hello.priv hello.sid (-1) hello.tc
  let th ← ofExcept (wnTranscriptGetHash p tc)
  let early ← ofExcept (wnTls13Extract p [] (Block.zero 32).val)
  let keys ← ofExcept (wnDeriveHsKeys p early ecdhe.val hello.emptyHash th)
  let (flight, th, mac) ← alerting p keys 0 (certFlightMac p c a ioCap keys tc)
  pure (hello, keys, flight, th, mac)

theorem wnConnectCertImpl_eq (a : CertArgs p c) :
    wnConnectCertImpl p c a = (certHandshake p c a >>= fun (hello, keys, flight, th, mac) => do
      alerting p keys 1 (sendFinished p keys mac th hello.emptyHash a.junk a.io)
      emit (.readKeys (flight.hsacc.drop flight.off))) := by
  simp only [wnConnectCertImpl, certHandshake, bind_assoc, pure_bind]

theorem certFlightMac_onlyRead (a : CertArgs p c) (cap : Nat) (keys : HsKeys) (tc : Transcript) :
    Steps OnlyRead (certFlightMac p c a cap keys tc) :=
  .bind (certFlight_onlyRead _ _ _ _) fun _ => .bind (.ofExcept _) fun _ => .bind (.ofExcept _) fun _ => .pure _

theorem certHandshake_emits {P : Event → Prop} (h : ∀ ev : Event, ev.Finishless → ev.NotRead → P ev) (a : CertArgs p c) :
    Steps (Emits P) (certHandshake p c a) := by
  have hplain : ∀ {w w' : World}, Emits Event.Plain w w' → Emits P w w' :=
    fun hw => hw.mono fun ev hev => h ev hev.finishless hev.notRead
  refine .bind (.failIf _ _) fun _ => .bind (setSess_emits _) fun _ => ?_
  refine .bind ((certClientHello_emits a).mono hplain) fun hello => ?_
  refine .bind ((recvServerHello_onlyRead _ _ _ _ _).mono fun h => h.emits) fun x => .bind (.ofExcept _) fun th => ?_
  refine .bind (.ofExcept _) fun early => .bind (.ofExcept _) fun keys => ?_
  exact .bind (alerting_emits h _ _ ((certFlightMac_onlyRead _ _ _ _).mono fun h => h.emits)) fun x => .pure _

/-! ## What a handshake that was accepted has seen -/

/-- `ioCap`: what is left of scratch for records. -/
def certIoCap (cfg : Config) (io : Transport) : Nat := io.scratchLen - (wnHsAccSz cfg + wnLeafSpkiSz cfg)

/-- The parts of a certificate handshake. -/
structure CertParts (p : Provider cfg) where
  hello : CertHello p
  ccs : List (UInt8 × UInt8)
  version : UInt8 × UInt8
  sh : Rfc.SHello
  share : Bytes
  ecdhe : Block cfg.group.secretSz
  server : TrafficKeys
  /-- The records after the ServerHello's, and the contents of those that are sealed. -/
  rs : List Bytes
  fs : List Bytes
  flight : CertMessages
  /-- What follows the Finished in the records that carry the flight. -/
  extra : Bytes

namespace CertParts

def helloMessages (x : CertParts p) : Bytes := x.hello.ch ++ x.sh.encode

/-- The messages through the server's Finished. -/
def messages (x : CertParts p) : Bytes := x.helloMessages ++ x.flight.list.flatten

/-- What the client took off the stream. -/
def stream (x : CertParts p) : Bytes :=
  x.ccs.flatMap ccsRecord ++ wireRecord wnRecHandshake x.version.1 x.version.2 x.sh.encode ++ x.rs.flatten

/-- One ServerHello that selects what was offered, records that open under the
server's handshake keys in order, and in them the four messages of a flight
that prove the server's identity. -/
structure Authentic (x : CertParts p) (a : CertArgs p c) : Prop where
  hello : CertHelloSent a x.hello
  fits : x.sh.Fits
  selects : x.sh.Selects cfg x.hello.sid x.share none
  ecdhe : p.keyShareShared x.hello.priv x.share = .ok x.ecdhe
  server : Rfc.hsTraffic p (Block.zero 32).val x.ecdhe.val "s hs traffic" x.helloMessages = some x.server
  records : Flight p (certIoCap cfg a.io) x.server.key x.server.iv (certRoom cfg) 0 0 x.rs x.fs
  contents : x.fs.flatten = x.flight.list.flatten ++ x.extra
  /-- The Finished ends in the last of the records. -/
  last : x.fs.dropLast.flatten.length < x.flight.list.flatten.length
  flight : x.flight.Authentic a x.server.secret x.helloMessages

end CertParts

/-- **What a run of the driver that gets to its Finished has seen and sent.** -/
theorem certHandshake_ok {a : CertArgs p c} {hello : CertHello p} {keys : HsKeys} {flight : CertFlight}
    {th mac : Block 32} {w w' : World} (h : certHandshake p c a w = .ok (hello, keys, flight, th, mac) w') :
    ∃ x : CertParts p, x.Authentic a ∧ x.hello = hello ∧
      Rfc.handshakeSecret p (Block.zero 32).val x.ecdhe.val = some keys.hs ∧
      Rfc.hsTraffic p (Block.zero 32).val x.ecdhe.val "c hs traffic" x.helloMessages =
        some ⟨keys.cHs, keys.cKey, keys.cIv⟩ ∧
      x.server = ⟨keys.sHs, keys.sKey, keys.sIv⟩ ∧
      p.sha256 x.messages = some th ∧ Rfc.finished p keys.cHs x.messages = some mac ∧
      flight.hsacc.drop flight.off = x.extra ∧ w.inbox.flatten = x.stream ++ w'.inbox.flatten ∧
      w' = { w with
        inbox := w'.inbox, sendRes := w.sendRes.drop 4, trace := w.trace ++ helloSends hello.ch, sess := .zero } := by
  unfold certHandshake at h
  obtain ⟨_, w₁, hf, h⟩ := bind_ok.1 h
  obtain ⟨-, rfl⟩ := failIf_ok.1 hf
  obtain ⟨_, w₂, hset, h⟩ := bind_ok.1 h
  cases hset
  obtain ⟨hello', w₃, hch, h⟩ := bind_ok.1 h
  obtain ⟨hsent, hw₃⟩ := certClientHello_ok hch
  obtain ⟨⟨tc, ecdhe⟩, w₄, hsh, h⟩ := bind_ok.1 h
  obtain ⟨ccs, v₁, v₂, sh, share, hfits, hsel, htc, hshare, hread⟩ := recvServerHello_ok none hsh
  obtain ⟨th₁, w₅, hx, h⟩ := bind_ok.1 h
  obtain ⟨hth₁, rfl⟩ := ofExcept_eq_ok.1 hx
  obtain ⟨early, w₆, hx, h⟩ := bind_ok.1 h
  obtain ⟨hearly, rfl⟩ := ofExcept_eq_ok.1 hx
  obtain ⟨keys', w₇, hx, h⟩ := bind_ok.1 h
  obtain ⟨hkeys, rfl⟩ := ofExcept_eq_ok.1 hx
  obtain ⟨⟨flight', th', mac'⟩, w₈, hfl, h⟩ := bind_ok.1 h
  cases h
  obtain ⟨flight'', w₉, hfl, h⟩ := bind_ok.1 (alerting_ok hfl)
  rw [certFlight_eq] at hfl
  obtain ⟨rs, fs, f, ms, hrecords, hread', hdone, hreads, hms, hlast⟩ :=
    FlightLoop.repeat_ok (L := certLoop a (certIoCap cfg a.io) keys tc) rfl hfl
  obtain ⟨th₂, w₁₀, hx, h⟩ := bind_ok.1 h
  obtain ⟨hth₂, rfl⟩ := ofExcept_eq_ok.1 hx
  obtain ⟨mac₂, w₁₁, hx, h⟩ := bind_ok.1 h
  obtain ⟨hmac, rfl⟩ := ofExcept_eq_ok.1 hx
  cases h
  rw [wnTls13FinishedMac_eq p (orCrypto_ok.1 hth₂)] at hmac
  obtain ⟨hhs, hc, hs⟩ := (wnDeriveHsKeys_ok p _ hsent.emptyHash (orCrypto_ok.1 hearly) (orCrypto_ok.1 hth₁)).1 hkeys
  obtain ⟨m, rfl, hauth, htc'⟩ := certReads_done hreads hdone
  have htc'' : flight.tc = _ := htc'
  obtain rfl : tc = hello.ch ++ sh.encode := by rw [htc, hsent.tc]
  refine ⟨⟨hello, ccs, (v₁, v₂), sh, share, ecdhe, ⟨keys.sHs, keys.sKey, keys.sIv⟩, rs,
    fs ++ [f], m, flight.hsacc.drop flight.off⟩,
    ⟨hsent, hfits, hsel, hshare, hs, hrecords, hms, by rw [List.dropLast_concat]; exact hlast, hauth⟩, rfl, hhs, hc, rfl,
    ?_, ?_, rfl, ?_, ?_⟩
  · rw [htc''] at hth₂
    exact orCrypto_ok.1 hth₂
  · rw [htc''] at hmac
    exact orCrypto_ok.1 hmac
  · have hflat : w.inbox.flatten = w₃.inbox.flatten := by rw [hw₃]
    rw [hflat, hread.1, hread'.1, CertParts.stream]
    simp
  · rw [hread'.2, hread.2, hw₃]

end WolfNano

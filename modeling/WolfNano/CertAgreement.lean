/-
The certificate driver and an honest server agree: `wnConnectCertImpl_agrees`,
as `PskAgreement` has it for the PSK driver.

The server's chain leads to the caller's anchor, with a leaf that has the name
and the pin asked for, and the server signs with that leaf's key.
-/
import WolfNano.CertFacts
import WolfNano.Nonces
import WolfNano.HelloMemory
import WolfNano.RfcCertServer
import WolfNano.PskAgreement
import WolfNano.FramingIndependence

namespace WolfNano

open Prog Wire Reassembly

variable {cfg : Config} {p : Provider cfg} {c : CertProvider} {a : CertArgs p c}

/-! ## The flight is read -/

section Flight

variable (hp : p.Total) {sHs : Block 32}
include hp

theorem certMessage_encExt {st : CertFlight} (h : st.flags.gotEE = false) {ee : Bytes}
    (hee : wnCheckEncExt ee (a.sniOffered p c) = .ok ()) : certMessage p c a sHs st (Rfc.hsMsg wnHsEncryptedExt ee) =
      .ok { st with tc := st.tc ++ Rfc.hsMsg wnHsEncryptedExt ee, flags := { st.flags with gotEE := true } } := by
  have htype : (Rfc.hsMsg wnHsEncryptedExt ee).getD 0 0 = wnHsEncryptedExt := rfl
  have hbody : (Rfc.hsMsg wnHsEncryptedExt ee).drop 4 = ee := by simp [Rfc.hsMsg, vec, be_three]
  have horder : wnFlightOrder wnHsEncryptedExt st.flags = (.ok (), { st.flags with gotEE := true }) := by
    simp [wnFlightOrder, h]
  rw [certMessage, htype, hbody, horder]
  dsimp only
  rw [if_pos rfl, hee, wnTranscriptUpdate_of hp]
  rfl

theorem certMessage_certificate {st : CertFlight} (hee : st.flags.gotEE = true) (hcert : st.flags.gotCert = false)
    {body leafSpki : Bytes} {certs : List Bytes} (hcerts : certificateCerts body = .ok certs)
    (hchain : wnVerifyChain cfg c certs a.anchor (wnLeafSpkiSz cfg) a.serverName a.pinnedKey a.now = .ok leafSpki) :
    certMessage p c a sHs st (Rfc.hsMsg wnHsCertificate body) = .ok { st with
      tc := st.tc ++ Rfc.hsMsg wnHsCertificate body, flags := { st.flags with gotCert := true }, leafSpki } := by
  have htype : (Rfc.hsMsg wnHsCertificate body).getD 0 0 = wnHsCertificate := rfl
  have hbody : (Rfc.hsMsg wnHsCertificate body).drop 4 = body := by simp [Rfc.hsMsg, vec, be_three]
  have horder : wnFlightOrder wnHsCertificate st.flags = (.ok (), { st.flags with gotCert := true }) := by
    simp [wnFlightOrder, hee, hcert, wnHsCertificate, wnHsEncryptedExt, wnHsCertRequest]
  rw [certMessage, htype, hbody, horder]
  dsimp only
  rw [if_neg (by decide), if_pos rfl, wnTranscriptUpdate_of hp, except_ok_bind, hcerts, except_ok_bind, hchain]
  rfl

theorem certMessage_certVerify {st : CertFlight} (hcert : st.flags.gotCert = true) (hcv : st.flags.gotCv = false)
    {scheme : Nat} {sig : Bytes} {th : Block 32} (hscheme : scheme < 2 ^ 16) (hsig : sig.length < 2 ^ 16)
    (hth : p.sha256 st.tc = some th)
    (hverify : cvDispatch cfg c scheme st.leafSpki (Rfc.certVerifyContent th.val) sig = .ok ()) :
    certMessage p c a sHs st (Rfc.hsMsg wnHsCertVerify (Rfc.certVerify scheme sig)) = .ok { st with
      tc := st.tc ++ Rfc.hsMsg wnHsCertVerify (Rfc.certVerify scheme sig)
      flags := { st.flags with gotCv := true } } := by
  have htype : (Rfc.hsMsg wnHsCertVerify (Rfc.certVerify scheme sig)).getD 0 0 = wnHsCertVerify := rfl
  have hbody : (Rfc.hsMsg wnHsCertVerify (Rfc.certVerify scheme sig)).drop 4 = Rfc.certVerify scheme sig := by
    simp [Rfc.hsMsg, vec, be_three]
  have horder : wnFlightOrder wnHsCertVerify st.flags = (.ok (), { st.flags with gotCv := true }) := by
    simp [wnFlightOrder, hcert, hcv, wnHsCertVerify, wnHsCertificate, wnHsEncryptedExt, wnHsCertRequest]
  have hcheck : certVerifyMessage cfg c { st.flags with gotCv := true } st.leafSpki th (Rfc.certVerify scheme sig) =
      .ok () :=
    (certVerifyMessage_ok (by simp [Rfc.certVerify]; omega)).2 ⟨hcert, scheme, sig, hscheme, hsig, rfl, hverify⟩
  rw [certMessage, htype, hbody, horder]
  dsimp only
  rw [if_neg (by decide), if_neg (by decide), if_pos rfl, wnTranscriptGetHash, hth, orCrypto_some, except_ok_bind,
    wnTranscriptUpdate_of hp, except_ok_bind, hcheck]
  rfl

theorem certMessage_finished {st : CertFlight} (hcv : st.flags.gotCv = true) {mac : Block 32}
    (hmac : Rfc.finished p sHs st.tc = some mac) : certMessage p c a sHs st (Rfc.hsMsg wnHsFinished mac.val) =
      .ok { st with tc := st.tc ++ Rfc.hsMsg wnHsFinished mac.val, done := true } := by
  have htype : (Rfc.hsMsg wnHsFinished mac.val).getD 0 0 = wnHsFinished := rfl
  have hbody : (Rfc.hsMsg wnHsFinished mac.val).drop 4 = mac.val := by simp [Rfc.hsMsg, vec, be_three]
  have horder : wnFlightOrder wnHsFinished st.flags = (.ok (), st.flags) := by
    simp [wnFlightOrder, hcv, wnHsFinished, wnHsCertVerify, wnHsCertificate, wnHsEncryptedExt, wnHsCertRequest]
  obtain ⟨th, hth⟩ := Option.ne_none_iff_exists'.1 (hp.sha256 st.tc)
  have hcheck : certFinishedMessage p st.flags sHs th mac.val = .ok () := by
    rw [certFinishedMessage, if_neg (by simp [hcv]), wnTls13FinishedMac_eq p hth, hmac, orCrypto_some, except_ok_bind,
      if_neg (by simp)]
    rfl
  rw [certMessage, htype, hbody, horder]
  dsimp only
  rw [if_neg (by decide), if_neg (by decide), if_neg (by decide), wnTranscriptGetHash, hth, orCrypto_some,
    except_ok_bind, wnTranscriptUpdate_of hp, except_ok_bind, hcheck]
  rfl

/-- **Four messages that the driver requires are read**, whatever follows. The
converse of `certReads_done`. -/
theorem certFlight_scan {tc : Transcript} {m : CertMessages} (h : m.Authentic a sHs tc)
    (hee : m.ee.length < 2 ^ 24) (hcert : (Rfc.certificate m.entries m.more).length < 2 ^ 24)
    (hscheme : m.scheme < 2 ^ 16) (hsig : m.sig.length < 2 ^ 16) :
    ∃ s off, (certFraming p c a sHs).scanAll (.start tc) m.list.flatten = .ok (s, off) ∧ s.done = true ∧
      s.tc = tc ++ m.list.flatten := by
  have hstep : ∀ (st : CertFlight) {type : UInt8} {body : Bytes} {st' : CertFlight}, st.done = false → body.length < 2 ^ 24 →
      certMessage p c a sHs { st with off := st.off + (Rfc.hsMsg type body).length } (Rfc.hsMsg type body) = .ok st' →
      (certFraming p c a sHs).parser.step st (Rfc.hsMsg type body) = .take (Rfc.hsMsg type body).length st' :=
    fun st _ _ _ hst hbody hm => (Framing.step_whole (F := certFraming p c a sHs) (hsMsg_size hbody)).2 ⟨hst, rfl, hm⟩
  have hcerts : certificateCerts (Rfc.certificate m.entries m.more) = .ok (m.entries.map (·.cert)) :=
    (certificateCerts_ok hcert).2 ⟨m.entries, m.more, rfl, h.fits, rfl, h.count, h.more⟩
  have h₁ := hstep (.start tc) rfl hee (certMessage_encExt hp rfl h.ee)
  have h₂ := hstep { CertFlight.start tc with
      off := 0 + m.encExt.length, tc := tc ++ m.encExt, flags := ⟨true, false, false⟩ } rfl hcert
    (certMessage_certificate hp rfl rfl hcerts h.chain)
  have h₃ := hstep { CertFlight.start tc with
      off := 0 + m.encExt.length + m.certificate.length, tc := tc ++ m.encExt ++ m.certificate
      flags := ⟨true, true, false⟩, leafSpki := m.leafSpki } rfl (by simp [Rfc.certVerify]; omega)
    (certMessage_certVerify hp rfl rfl hscheme hsig h.thCert h.signature)
  have h₄ := hstep { CertFlight.start tc with
      off := 0 + m.encExt.length + m.certificate.length + m.certVerify.length
      tc := tc ++ m.encExt ++ m.certificate ++ m.certVerify, flags := ⟨true, true, true⟩, leafSpki := m.leafSpki } rfl
    (by simp) (certMessage_finished hp rfl h.mac)
  have hparse := ((Parser.Reads.cons h₁ (.cons h₂ (.cons h₃ (.cons h₄ .nil)))).parse []).trans
    (Parser.parse_need (Framing.step_done (F := certFraming p c a sHs) rfl _))
  rw [List.append_nil] at hparse
  refine ⟨_, _, (Framing.scanAll_eq_parse _ _).trans (congrArg _ hparse), rfl, ?_⟩
  simp [CertMessages.list, CertMessages.encExt, CertMessages.certificate, CertMessages.certVerify, CertMessages.finished]

end Flight

/-! ## The driver's side -/

/-- What the driver draws for a handshake. -/
structure CertDraws (a : CertArgs p c) (random sid : Block 32) (priv : p.Priv) (pub : Block cfg.group.pubSz) : Prop where
  draws : ∃ rng₁ rng₂, p.rngGenerateBlock a.rng 32 = (some random, rng₁) ∧
    p.rngGenerateBlock rng₁ 32 = (some sid, rng₂) ∧ p.keyShareGenerate rng₂ = .ok (priv, pub)

variable {random sid : Block 32} {priv : p.Priv} {pub : Block cfg.group.pubSz}

variable (random sid pub) in
theorem certHello_length_le {name : Bytes} (hname : name.length ≤ 255) :
    (certHello cfg random sid.val pub.val name).encode.length ≤ 2048 := by
  obtain ⟨-, hcount, -⟩ := certSigAlgs_fits cfg
  have hsize := flatMap_be_length 2 (certSigAlgs cfg)
  have hnames := nameExts_length hname
  have hpub : pub.val.length ≤ 1216 := by
    rw [pub.length]
    cases cfg.group <;> decide
  simp only [certHello, Rfc.ClientHello.encode, Rfc.ClientHello.body, certHelloExts, List.length_cons, List.length_append,
    vec_length, be_length, Block.length, List.flatMap_append, List.flatMap_cons, List.flatMap_nil, Rfc.CExt.encode,
    Rfc.CExt.data, Rfc.encKeyShare, List.length_nil, hsize] at *
  omega

/-- The ClientHello goes out, if there is room. -/
theorem certClientHello_of (hp : p.Total) (hd : CertDraws a random sid priv pub)
    (hroom : wnCertScratchMin cfg ≤ a.io.scratchLen) (hname : (a.serverName.getD []).length ≤ 255) {w : World}
    (hw : w.Sending) : ∃ hello, hello.sid = sid ∧ hello.priv = priv ∧ p.sha256 [] = some hello.emptyHash ∧
      hello.ch = (certHello cfg random sid.val pub.val (a.serverName.getD [])).encode ∧ hello.tc = hello.ch ∧
      certClientHello p c a w =
        .ok hello { w with sendRes := w.sendRes.drop 4, trace := w.trace ++ helloSends hello.ch } := by
  obtain ⟨rng₁, rng₂, h₁, h₂, h₃⟩ := hd.draws
  obtain ⟨emptyHash, hempty⟩ := Option.ne_none_iff_exists'.1 (hp.sha256 [])
  have hcap : 2048 ≤ a.io.scratchLen := by
    have : 4096 ≤ wnCertIoMin cfg := by
      unfold wnCertIoMin
      split <;> omega
    simp only [wnCertScratchMin] at hroom
    omega
  have hlen := certHello_length_le random sid pub hname
  have hbuild : wnClientHelloBuildEx cfg [] a.io.scratchLen random sid.val pub.val a.serverName = _ :=
    wnClientHelloBuildEx_fits random pub.length (Nat.le_of_eq sid.length) hname (Nat.le_trans hlen hcap)
  have hw' : ∀ tr, World.Sending { w with sendRes := w.sendRes.drop 2, trace := tr } := fun _ => hw.drop rfl
  generalize (certHello cfg random sid.val pub.val (a.serverName.getD [])).encode = ch at hbuild
  refine ⟨⟨random, sid, priv, emptyHash, ch, ch⟩, rfl, rfl, hempty, rfl, rfl, ?_⟩
  simp only [certClientHello, h₁, h₂, h₃, hempty, orCrypto_some, wnTranscriptInit, if_pos hp.sha256Init,
    wnTranscriptUpdate_of hp]
  iterate 5 rw [bind_of_ok (ofExcept_ok_apply _ w)]
  simp only [hbuild, List.nil_append]
  iterate 2 rw [bind_of_ok (ofExcept_ok_apply _ w)]
  rw [List.take_left, bind_of_ok (sendPlainRecord_of hw), sendCcs, bind_of_ok (sendPlainRecord_of (hw' _)), pure_apply]
  simp [helloSends]

theorem alerting_of {α : Type} {keys : HsKeys} {seq : UInt64} {x : Io α} {r : α} {w w' : World} (h : x w = .ok r w') :
    alerting p keys seq x w = .ok r w' := by
  unfold alerting
  split
  · exact tryCatch_of_ok h
  · exact h

/-- A stream that carries a certificate server's answer, in records that fit in
`cap` bytes, with ChangeCipherSpecs among them. -/
structure CertCarries (p : Provider cfg) (cap : Nat) (inbox : List Bytes) (sh : Rfc.SHello) (server : TrafficKeys)
    (flight : Bytes) : Prop where
  flowing : [] ∉ inbox
  stream : ∃ (ccs : List (UInt8 × UInt8)) (v : UInt8 × UInt8) (rs fs : List Bytes) (rest : Bytes),
    Sealed p server (certFits cap) 0 0 rs fs ∧ fs.flatten = flight ∧
    inbox.flatten = ccs.flatMap ccsRecord ++ (wireRecord wnRecHandshake v.1 v.2 sh.encode ++ (rs.flatten ++ rest))

theorem certIoCap_ge {io : Transport} (h : wnCertScratchMin cfg ≤ io.scratchLen) : 4096 ≤ certIoCap cfg io := by
  have : 4096 ≤ wnCertIoMin cfg := by
    unfold wnCertIoMin
    split <;> omega
  unfold wnCertScratchMin at h
  unfold certIoCap
  omega

/-- The parts of a flight that the accumulator has room for. -/
theorem CertMessages.lengths (m : CertMessages) (h : m.list.flatten.length ≤ wnHsAccSz cfg) : m.ee.length < 2 ^ 24 ∧
    (Rfc.certificate m.entries m.more).length < 2 ^ 24 ∧ m.sig.length < 2 ^ 16 := by
  have hacc : wnHsAccSz cfg ≤ 10240 := by
    unfold wnHsAccSz
    split <;> omega
  have hcv : (Rfc.certVerify m.scheme m.sig).length = 4 + m.sig.length := by
    simp [Rfc.certVerify]
    omega
  simp only [list, encExt, certificate, certVerify, finished, List.flatten_cons, List.flatten_nil, List.length_append,
    hsMsg_length, hcv, List.length_nil] at h
  omega

theorem certFlightMac_of {cap : Nat} {keys : HsKeys} {tc : Transcript} {st : CertFlight} {th fin : Block 32}
    {u u' : World} (hrun : certFlight p c a cap keys tc u = .ok st u') (hth : p.sha256 st.tc = some th)
    (hfin : Rfc.finished p keys.cHs st.tc = some fin) : certFlightMac p c a cap keys tc u = .ok (st, th, fin) u' := by
  rw [certFlightMac, bind_of_ok hrun, wnTranscriptGetHash, hth, orCrypto_some, bind_of_ok (ofExcept_ok_apply _ _),
    wnTls13FinishedMac_eq p hth, hfin, orCrypto_some, bind_of_ok (ofExcept_ok_apply _ _)]
  rfl

/-- The handshake keys of a driver that is answered, whatever follows the
ServerHello. -/
theorem certKeys_of (hp : p.Total) (hargs : ¬ a.Rejected p c) (hname : (a.serverName.getD []).length ≤ 255)
    (hd : CertDraws a random sid priv pub) {sh : Rfc.SHello} (hfits : sh.Fits) {share : Bytes}
    (hsel : sh.Selects cfg sid share none) {ecdhe : Block cfg.group.secretSz}
    (hshare : p.keyShareShared priv share = .ok ecdhe) {ch : Bytes}
    (hch : ch = (certHello cfg random sid.val pub.val (a.serverName.getD [])).encode) {server : TrafficKeys}
    (hserver : Rfc.hsTraffic p (Block.zero 32).val ecdhe.val "s hs traffic" (ch ++ sh.encode) = some server)
    {w : World} (hin : [] ∉ w.inbox) {ccs : List (UInt8 × UInt8)} {v : UInt8 × UInt8} {tail : Bytes}
    (hflat : w.inbox.flatten = ccs.flatMap ccsRecord ++ (wireRecord wnRecHandshake v.1 v.2 sh.encode ++ tail))
    (hsend : w.Sending) :
    ∃ hello keys inbox, certKeys p c a w = .ok (hello, keys, ch ++ sh.encode)
        { inbox, sendRes := w.sendRes.drop 4, trace := w.trace ++ helloSends ch, sess := .zero } ∧
      [] ∉ inbox ∧ inbox.flatten = tail ∧ p.sha256 [] = some hello.emptyHash ∧
      Rfc.handshakeSecret p (Block.zero 32).val ecdhe.val = some keys.hs ∧
      Rfc.hsTraffic p (Block.zero 32).val ecdhe.val "c hs traffic" (ch ++ sh.encode) =
        some ⟨keys.cHs, keys.cKey, keys.cIv⟩ ∧ TrafficKeys.mk keys.sHs keys.sKey keys.sIv = server := by
  have hroom : wnCertScratchMin cfg ≤ a.io.scratchLen := by
    simp only [CertArgs.Rejected, not_or, Nat.not_lt] at hargs
    exact hargs.2.2.2
  have hcap : 4096 ≤ certIoCap cfg a.io := certIoCap_ge hroom
  have hlen := hsel.length
  obtain ⟨hello, hsid, hpriv, hempty, hhello, htc, hout⟩ :=
    certClientHello_of hp hd hroom hname (w := { w with sess := .zero }) hsend
  rw [← hch] at hhello
  -- The ServerHello.
  have hcheck : recordCheck (certIoCap cfg a.io) wnRecHandshake sh.encode = .ok () :=
    recordCheck_ok.2 ⟨by simp [Rfc.SHello.encode, Rfc.hsMsg], by omega, by simp only [wnMaxPlaintext]; omega,
      fun h => absurd h (by decide)⟩
  obtain ⟨inbox, hin', hrest, hsh⟩ := recvServerHello_wire (p := p) (show 6 ≤ certIoCap cfg a.io by omega)
    hello.priv hello.sid (-1) hello.tc (by decide) (by omega)
    (w := { w with sendRes := w.sendRes.drop 4, trace := w.trace ++ helloSends hello.ch, sess := .zero }) hin hflat
  have hacc := acceptServerHello_of none hello.tc hp v.1 v.2 hfits hsel (by omega) hshare
  rw [show selIndex none = -1 from rfl] at hacc
  rw [hcheck, except_ok_bind, hsid, hpriv, hacc, htc, hhello] at hsh
  -- The keys.
  obtain ⟨thSh, hthSh⟩ := Option.ne_none_iff_exists'.1 (hp.sha256 (ch ++ sh.encode))
  obtain ⟨early, hearly⟩ := Option.ne_none_iff_exists'.1 (hp.hkdfExtract [] (Block.zero 32).val)
  obtain ⟨hs, hhs⟩ := Rfc.handshakeSecret_total hp (Block.zero 32).val ecdhe.val
  obtain ⟨client, hclient⟩ := Rfc.hsTraffic_total hp (Block.zero 32).val ecdhe.val "c hs traffic" (ch ++ sh.encode)
  obtain ⟨keys, hkeyed⟩ : ∃ keys : HsKeys, keys =
      ⟨hs, client.secret, server.secret, client.key, client.iv, server.key, server.iv⟩ := ⟨_, rfl⟩
  have hkeys := (wnDeriveHsKeys_ok p keys hempty hearly hthSh).2 (by rw [hkeyed]; exact ⟨hhs, hclient, hserver⟩)
  refine ⟨hello, keys, inbox, ?_, hin', hrest hcheck, hempty, by rw [hkeyed]; exact hhs, by rw [hkeyed]; exact hclient,
    by rw [hkeyed]⟩
  rw [certKeys, failIf_neg hargs, pure_bind,
    bind_of_ok (rfl : setSess .zero w = .ok () { w with sess := .zero }), bind_of_ok hout, hsid, hpriv, htc, hhello]
  dsimp only
  rw [bind_of_ok hsh]
  dsimp only
  rw [wnTranscriptGetHash, hthSh, orCrypto_some, bind_of_ok (ofExcept_ok_apply _ _), wnTls13Extract, hearly,
    orCrypto_some, bind_of_ok (ofExcept_ok_apply _ _), hkeys, bind_of_ok (ofExcept_ok_apply _ _)]
  rfl

/-- The handshake of a driver that is answered, up to its flight loop: if that
reads the server's flight and leaves what `Q` says, so does the handshake. -/
theorem certHandshake_from (hp : p.Total) (hargs : ¬ a.Rejected p c) (hname : (a.serverName.getD []).length ≤ 255)
    (hd : CertDraws a random sid priv pub) {sh : Rfc.SHello} (hfits : sh.Fits) {share : Bytes}
    (hsel : sh.Selects cfg sid share none) {ecdhe : Block cfg.group.secretSz}
    (hshare : p.keyShareShared priv share = .ok ecdhe) {ch : Bytes}
    (hch : ch = (certHello cfg random sid.val pub.val (a.serverName.getD [])).encode) {server : TrafficKeys}
    (hserver : Rfc.hsTraffic p (Block.zero 32).val ecdhe.val "s hs traffic" (ch ++ sh.encode) = some server)
    (messages : Bytes) (Q : List Bytes → Prop) {w : World} (hin : [] ∉ w.inbox) {ccs : List (UInt8 × UInt8)}
    {v : UInt8 × UInt8} {tail : Bytes}
    (hflat : w.inbox.flatten = ccs.flatMap ccsRecord ++ (wireRecord wnRecHandshake v.1 v.2 sh.encode ++ tail))
    (hsend : w.Sending)
    (hloop : ∀ (keys : HsKeys) (u : World), TrafficKeys.mk keys.sHs keys.sKey keys.sIv = server → [] ∉ u.inbox →
      u.inbox.flatten = tail → ∃ st inbox, Q inbox ∧ st.tc = messages ∧
        certFlight p c a (certIoCap cfg a.io) keys (ch ++ sh.encode) u = .ok st { u with inbox }) :
    ∃ hello keys flight th fin inbox, Q inbox ∧ certHandshake p c a w = .ok (hello, keys, flight, th, fin)
        { inbox, sendRes := w.sendRes.drop 4, trace := w.trace ++ helloSends ch, sess := .zero } ∧
      p.sha256 [] = some hello.emptyHash ∧ Rfc.handshakeSecret p (Block.zero 32).val ecdhe.val = some keys.hs ∧
      Rfc.hsTraffic p (Block.zero 32).val ecdhe.val "c hs traffic" (ch ++ sh.encode) =
        some ⟨keys.cHs, keys.cKey, keys.cIv⟩ ∧
      p.sha256 messages = some th ∧ Rfc.finished p keys.cHs messages = some fin := by
  obtain ⟨hello, keys, inbox, hkeys, hin', hrest, hempty, hhs, hclient, hserver'⟩ :=
    certKeys_of hp hargs hname hd hfits hsel hshare hch hserver hin hflat hsend
  obtain ⟨st, inbox', hq, htc, hrun⟩ := hloop keys
    { inbox, sendRes := w.sendRes.drop 4, trace := w.trace ++ helloSends ch, sess := .zero } hserver' hin' hrest
  obtain ⟨th, hth⟩ := Option.ne_none_iff_exists'.1 (hp.sha256 st.tc)
  obtain ⟨fin, hfin⟩ := Rfc.finished_total hp keys.cHs st.tc
  have hmac := certFlightMac_of hrun hth hfin
  refine ⟨hello, keys, st, th, fin, inbox', hq, ?_, hempty, hhs, hclient, htc ▸ hth, htc ▸ hfin⟩
  rw [certHandshake_eq, bind_of_ok hkeys]
  dsimp only
  rw [bind_of_ok (alerting_of hmac)]
  rfl

/-- Sealed records that fit are a flight, if their contents do. -/
theorem Sealed.certFlight (hopen : p.OpensSealed) {t : TrafficKeys} (hk : p.aesGcmSetKey t.key = true) {cap n acc : Nat}
    {rs fs : List Bytes} (h : Sealed p t (certFits cap) n acc rs fs) (hsize : acc + fs.flatten.length ≤ wnHsAccSz cfg) :
    Flight p cap t.key t.iv (certRoom cfg) n acc rs fs :=
  h.flight hopen hk (acc + fs.flatten.length) (fun {acc content pad} hf ht => by
    simp only [certFits, certRoom] at hf ⊢
    omega) (Nat.le_refl _)

/-- The handshake of a driver that is answered. -/
theorem certHandshake_of (hp : p.Total) (hopen : p.OpensSealed) (hargs : ¬ a.Rejected p c)
    (hname : (a.serverName.getD []).length ≤ 255) (hd : CertDraws a random sid priv pub) {sh : Rfc.SHello}
    (hfits : sh.Fits) {share : Bytes} (hsel : sh.Selects cfg sid share none) {ecdhe : Block cfg.group.secretSz}
    (hshare : p.keyShareShared priv share = .ok ecdhe) {ch : Bytes}
    (hch : ch = (certHello cfg random sid.val pub.val (a.serverName.getD [])).encode) {server : TrafficKeys}
    (hserver : Rfc.hsTraffic p (Block.zero 32).val ecdhe.val "s hs traffic" (ch ++ sh.encode) = some server)
    {m : CertMessages} (hauth : m.Authentic a server.secret (ch ++ sh.encode)) (hscheme : m.scheme < 2 ^ 16)
    (hsize : m.list.flatten.length ≤ wnHsAccSz cfg) {w : World}
    (hc : CertCarries p (certIoCap cfg a.io) w.inbox sh server m.list.flatten) (hsend : w.Sending) :
    ∃ hello keys flight th fin inbox, certHandshake p c a w = .ok (hello, keys, flight, th, fin)
        { inbox, sendRes := w.sendRes.drop 4, trace := w.trace ++ helloSends ch, sess := .zero } ∧
      p.sha256 [] = some hello.emptyHash ∧ Rfc.handshakeSecret p (Block.zero 32).val ecdhe.val = some keys.hs ∧
      Rfc.hsTraffic p (Block.zero 32).val ecdhe.val "c hs traffic" (ch ++ sh.encode) =
        some ⟨keys.cHs, keys.cKey, keys.cIv⟩ ∧
      p.sha256 (ch ++ sh.encode ++ m.list.flatten) = some th ∧
      Rfc.finished p keys.cHs (ch ++ sh.encode ++ m.list.flatten) = some fin := by
  have hcap : 4096 ≤ certIoCap cfg a.io := certIoCap_ge (by
    simp only [CertArgs.Rejected, not_or, Nat.not_lt] at hargs
    exact hargs.2.2.2)
  obtain ⟨hin, ccs, v, rs, fs, rest, hsealed, hcontents, hflat⟩ := hc
  obtain ⟨hello, keys, flight, th, fin, inbox, -, hrun⟩ := certHandshake_from hp hargs hname hd hfits hsel hshare hch
    hserver (ch ++ sh.encode ++ m.list.flatten) (fun _ => True) hin hflat hsend
    fun keys u hkeys hu hrest => by
      subst hkeys
      obtain ⟨hee, hcert, hsig⟩ := m.lengths hsize
      obtain ⟨s, off, hscan, hdone, hstc⟩ := certFlight_scan hp hauth hee hcert hscheme hsig
      rw [← hcontents] at hscan
      obtain ⟨st, inbox, hst, hrun⟩ := FlightLoop.repeat_done
        (L := certLoop a (certIoCap cfg a.io) keys (ch ++ sh.encode)) (by show 6 ≤ certIoCap cfg a.io; omega) rfl
        (hsealed.certFlight hopen (hp.aesGcmSetKey _) (by rw [hcontents]; omega)) hu hrest hscan hdone
      rw [← certFlight_eq] at hrun
      exact ⟨st, inbox, trivial, by rw [← hstc, ← hst]; rfl, hrun⟩
  exact ⟨hello, keys, flight, th, fin, inbox, hrun⟩

/-! ## The server's side -/

section Hello

variable {name : Bytes}

theorem certHello_share : (certHello cfg random sid.val pub.val name).share cfg.group.code = some pub.val := by
  unfold certHello certHelloExts nameExts
  split <;> simp [Rfc.ClientHello.share]

theorem certHello_named : (certHello cfg random sid.val pub.val name).named = decide (name ≠ []) := by
  unfold certHello certHelloExts nameExts
  cases name <;> simp [Rfc.ClientHello.named]

variable (random sid pub name) in
theorem certHello_supports {scheme : Nat} (h : scheme ∈ certSigAlgs cfg) :
    0x1301 ∈ (certHello cfg random sid.val pub.val name).cipherSuites ∧
      (certHello cfg random sid.val pub.val name).offersVersion 0x0304 = true ∧
      (certHello cfg random sid.val pub.val name).offersScheme scheme = true := by
  unfold certHello certHelloExts nameExts
  split <;> simp [Rfc.ClientHello.offersVersion, Rfc.ClientHello.offersScheme, h]

end Hello

theorem CertArgs.sniOffered_eq (a : CertArgs p c) : a.sniOffered p c = decide (a.serverName.getD [] ≠ []) := by
  unfold sniOffered
  cases a.serverName with
  | none => simp
  | some name => cases name <;> simp

namespace Rfc.CertServer

variable {s : Rfc.CertServer cfg}

variable (s sid) in
/-- A server's ServerHello makes the selection. -/
theorem hello_selects (share : Block cfg.group.srvShareSz) :
    (s.hello sid.val share).Fits ∧ (s.hello sid.val share).Selects cfg sid share.val none := by
  have hperm := s.arrange_perm [.keyShare cfg.group.code share.val, .version 0x0304]
  have hgroup : cfg.group.code < 2 ^ 16 := by cases cfg.group <;> decide
  have hshare : share.val.length ≤ 1200 := by rw [share.length]; cases cfg.group <;> decide
  refine ⟨⟨by simp [hello], by simp [hello], fun e he => ?_, ?_⟩, ⟨s.random_ne, rfl, rfl, share.length, hperm⟩⟩
  · have he := hperm.mem_iff.1 he
    simp only [List.mem_cons, List.not_mem_nil, or_false] at he
    rcases he with rfl | rfl
    · exact ⟨hgroup, by omega⟩
    · exact (by decide : 0x0304 < 2 ^ 16)
  · rw [hello, (hperm.flatMap_right _).length_eq]
    simp [Rfc.ShExt.encode, Rfc.ShExt.data]
    omega

/-- The driver accepts a server's EncryptedExtensions: it acknowledges a name
only when it was sent one. -/
theorem encExts_accepted {named : Bool} (h : (encryptedExtensions (s.encExts named)).length ≤ 2 ^ 15) :
    wnCheckEncExt (encryptedExtensions (s.encExts named)) named = .ok () := by
  have hlen : ((s.encExts named).flatMap Extension.encode).length < 2 ^ 16 := by
    rw [encryptedExtensions, vec_length] at h
    omega
  refine (wnCheckEncExt_ok (by omega)).2 ⟨s.encExts named, rfl, hlen, fun e he => ⟨?_, ?_⟩⟩
  · obtain ⟨l, r, hlr⟩ := List.append_of_mem he
    rw [hlr] at hlen
    simp only [List.flatMap_append, List.flatMap_cons, List.length_append, Extension.encode, vec_length] at hlen
    have htype : e.1 = 10 ∨ e.1 = 0 := by
      simp only [encExts, List.mem_append, Option.mem_toList, Option.map_eq_some_iff] at he
      rcases he with ⟨l, -, rfl⟩ | he
      · exact .inl rfl
      · split at he <;> simp_all
    exact ⟨by omega, by omega⟩
  · simp only [encExts, List.mem_append, Option.mem_toList, Option.map_eq_some_iff] at he
    rcases he with ⟨l, -, rfl⟩ | he
    · exact .inl rfl
    · split at he
      · next hname =>
        rw [List.mem_singleton] at he
        subst he
        exact .inr ⟨rfl, hname.1, rfl⟩
      · cases he

/-- A server that signs with the key the driver finds in its certificate: the
driver's checks of its chain and of its signatures pass. -/
structure Proves (s : Rfc.CertServer cfg) (a : CertArgs p c) (leafSpki : Bytes) : Prop where
  count : s.entries.length ≤ wnMaxChain
  chain : wnVerifyChain cfg c (s.entries.map (·.cert)) a.anchor (wnLeafSpkiSz cfg) a.serverName a.pinnedKey a.now =
    .ok leafSpki
  signs : ∀ th : Block 32, ∃ sig, s.sign (certVerifyContent th.val) = some sig ∧
    cvDispatch cfg c s.scheme leafSpki (certVerifyContent th.val) sig = .ok ()

/-- The server answers the driver's ClientHello, and with a flight that the
driver requires, if it fits. -/
theorem respond_certHello (hp : p.Total) {leafSpki : Bytes} (hproves : s.Proves a leafSpki)
    (hscheme : s.scheme ∈ certSigAlgs cfg) (hname : (a.serverName.getD []).length ≤ 255) {ch : Bytes}
    (hch : ch = (certHello cfg random sid.val pub.val (a.serverName.getD [])).encode)
    {share : Block cfg.group.srvShareSz} {ecdhe : Block cfg.group.secretSz}
    (hexchange : s.exchange pub.val = some (share, ecdhe)) :
    ∃ reply, s.respond p ch = some reply ∧ reply.sh = s.hello sid.val share ∧
      hsTraffic p (Block.zero 32).val ecdhe.val "c hs traffic" (ch ++ reply.sh.encode) = some reply.clientHs ∧
      hsTraffic p (Block.zero 32).val ecdhe.val "s hs traffic" (ch ++ reply.sh.encode) = some reply.serverHs ∧
      reply.messages = ch ++ reply.sh.encode ++ reply.flight ∧
      apTraffic p (Block.zero 32).val ecdhe.val "c ap traffic" reply.messages = some reply.clientAp ∧
      apTraffic p (Block.zero 32).val ecdhe.val "s ap traffic" reply.messages = some reply.serverAp ∧
      (reply.flight.length ≤ wnHsAccSz cfg → ∃ m : CertMessages, m.list.flatten = reply.flight ∧ m.scheme < 2 ^ 16 ∧
        m.Authentic a reply.serverHs.secret (ch ++ reply.sh.encode)) := by
  have hparse := ClientHello.parse_eq_some.2
    ⟨hch, certHello_fits random pub.length (by simp [sid.length]) hname⟩
  obtain ⟨sh, hsh⟩ : ∃ sh, sh = s.hello sid.val share := ⟨_, rfl⟩
  obtain ⟨named, hnamed⟩ : ∃ named, named = decide (a.serverName.getD [] ≠ []) := ⟨_, rfl⟩
  obtain ⟨clientHs, hc⟩ := hsTraffic_total hp (Block.zero 32).val ecdhe.val "c hs traffic" (ch ++ sh.encode)
  obtain ⟨serverHs, hs⟩ := hsTraffic_total hp (Block.zero 32).val ecdhe.val "s hs traffic" (ch ++ sh.encode)
  obtain ⟨th, hth⟩ := Option.ne_none_iff_exists'.1 (hp.sha256 (ch ++ sh.encode ++ s.certFlight named))
  obtain ⟨sig, hsig, hverify⟩ := hproves.signs th
  obtain ⟨proof, hproof⟩ : ∃ proof, proof = s.certFlight named ++ hsMsg 15 (certVerify s.scheme sig) := ⟨_, rfl⟩
  obtain ⟨mac, hmac⟩ := finished_total hp serverHs.secret (ch ++ sh.encode ++ proof)
  obtain ⟨flight, hflight⟩ : ∃ flight, flight = proof ++ hsMsg 20 mac.val := ⟨_, rfl⟩
  obtain ⟨clientAp, hca⟩ := apTraffic_total hp (Block.zero 32).val ecdhe.val "c ap traffic" (ch ++ sh.encode ++ flight)
  obtain ⟨serverAp, hsa⟩ := apTraffic_total hp (Block.zero 32).val ecdhe.val "s ap traffic" (ch ++ sh.encode ++ flight)
  obtain ⟨hsuite, hversion, hoffers⟩ :=
    certHello_supports random sid pub (a.serverName.getD []) hscheme
  refine ⟨⟨sh, flight, ch ++ sh.encode ++ flight, clientHs, serverHs, clientAp, serverAp⟩, ?_, hsh, hc, hs, rfl, hca, hsa,
    fun hsize => ⟨⟨encryptedExtensions (s.encExts named), s.entries, [], leafSpki, th, s.scheme, sig, mac⟩, ?_, s.scheme_lt,
      ?_⟩⟩
  · have hsh' : s.hello (certHello cfg random sid.val pub.val (a.serverName.getD [])).sessionId share = sh := hsh.symm
    have hzero : List.replicate 32 (0 : UInt8) = (Block.zero 32).val := rfl
    simp only [respond, reply, hparse, Option.bind_eq_bind, Option.bind_some, hsuite, hversion, hoffers, and_self, if_true,
      certHello_share, hexchange, hsh', hzero, hc, hs, certHello_named, ← hnamed, hth, hsig, ← hproof, hmac, ← hflight, hca,
      hsa]
    rfl
  · simp [hflight, hproof, certFlight, CertMessages.list, CertMessages.encExt, CertMessages.certificate,
      CertMessages.certVerify, CertMessages.finished, wnHsEncryptedExt, wnHsCertificate, wnHsCertVerify, wnHsFinished]
  · have hee : (encryptedExtensions (s.encExts named)).length ≤ 2 ^ 15 := by
      have hacc : wnHsAccSz cfg ≤ 10240 := by
        unfold wnHsAccSz
        split <;> omega
      simp only [hflight, hproof, certFlight, List.length_append, hsMsg_length] at hsize
      omega
    refine ⟨?_, s.entries_fit, hproves.count, fun _ => rfl, hproves.chain, ?_, hverify, ?_⟩
    · rw [CertArgs.sniOffered_eq, ← hnamed]
      exact encExts_accepted hee
    · rw [List.append_assoc]
      exact hth
    · rw [List.append_assoc, List.append_assoc]
      simpa [hproof, certFlight, CertMessages.encExt, CertMessages.certificate, CertMessages.certVerify, wnHsEncryptedExt,
        wnHsCertificate, wnHsCertVerify] using hmac

/-- The messages that the server's CertificateVerify signs, where its answer to
`msg` is `r`. -/
def signed (s : CertServer cfg) (msg : Bytes) (r : Answer) : Bytes :=
  msg ++ r.sh.encode ++ s.certFlight ((ClientHello.parse msg).any ClientHello.named)

/-- What a server that answered has drawn, sent and derived. -/
structure Answered (p : Provider cfg) (s : CertServer cfg) (msg : Bytes) (r : Answer) (ch : ClientHello)
    (share : Block cfg.group.srvShareSz) (ecdhe : Block cfg.group.secretSz) (sig : Bytes) (mac : Block 32) : Prop where
  parse : ClientHello.parse msg = some ch
  exchange : ∃ clientShare, ch.share cfg.group.code = some clientShare ∧ s.exchange clientShare = some (share, ecdhe)
  sh : r.sh = s.hello ch.sessionId share
  clientHs : hsTraffic p (Block.zero 32).val ecdhe.val "c hs traffic" (msg ++ r.sh.encode) = some r.clientHs
  serverHs : hsTraffic p (Block.zero 32).val ecdhe.val "s hs traffic" (msg ++ r.sh.encode) = some r.serverHs
  signature : ∃ th, p.sha256 (s.signed msg r) = some th ∧ s.sign (certVerifyContent th.val) = some sig
  verifyData : finished p r.serverHs.secret (s.signed msg r ++ hsMsg 15 (certVerify s.scheme sig)) = some mac
  flight : r.flight = s.certFlight ch.named ++ hsMsg 15 (certVerify s.scheme sig) ++ hsMsg 20 mac.val
  messages : r.messages = msg ++ r.sh.encode ++ r.flight
  clientAp : apTraffic p (Block.zero 32).val ecdhe.val "c ap traffic" r.messages = some r.clientAp
  serverAp : apTraffic p (Block.zero 32).val ecdhe.val "s ap traffic" r.messages = some r.serverAp

theorem answered {msg : Bytes} {r : Answer} (h : s.respond p msg = some r) :
    ∃ ch share ecdhe sig mac, Answered p s msg r ch share ecdhe sig mac := by
  simp only [respond, Option.bind_eq_bind, Option.bind_eq_some_iff, Option.ite_none_right_eq_some] at h
  obtain ⟨ch, hparse, -, h⟩ := h
  simp only [reply, Option.bind_eq_bind, Option.bind_eq_some_iff] at h
  obtain ⟨clientShare, hshare, ⟨share, ecdhe⟩, hexchange, clientHs, hc, serverHs, hs, th, hth, sig, hsig, mac, hmac, cAp, hca,
    sAp, hsa, h⟩ := h
  cases h
  refine ⟨ch, share, ecdhe, sig, mac, hparse, ⟨clientShare, hshare, hexchange⟩, rfl, hc, hs, ⟨th, ?_, hsig⟩, ?_, rfl, rfl, hca,
    hsa⟩
  · rw [signed, hparse, Option.any_some]
    exact hth
  · rw [← List.append_assoc] at hmac
    rw [signed, hparse, Option.any_some]
    exact hmac

end Rfc.CertServer

/-- The driver's end: the Finished that goes out is accepted, and the session
gets the keys of the server's answer. -/
theorem Rfc.Answer.finished_of (hp : p.Total) (hopen : p.OpensSealed) (ans : Rfc.Answer) {psk ecdhe : Bytes}
    {keys : HsKeys} {th fin emptyHash : Block 32} (junk : Junk) (io : Transport) {w : World} (hw : w.Sending)
    (hempty : p.sha256 [] = some emptyHash) (hhs : Rfc.handshakeSecret p psk ecdhe = some keys.hs)
    (hkeys : ans.clientHs = ⟨keys.cHs, keys.cKey, keys.cIv⟩) (hth : p.sha256 ans.messages = some th)
    (hfin : Rfc.finished p keys.cHs ans.messages = some fin)
    (hc : Rfc.apTraffic p psk ecdhe "c ap traffic" ans.messages = some ans.clientAp)
    (hs : Rfc.apTraffic p psk ecdhe "s ap traffic" ans.messages = some ans.serverAp) :
    ∃ record w', sendFinished p keys fin th emptyHash junk io w = .ok () w' ∧ ans.Accepts p record ∧
      w'.sent = w.sent ++ [record] ∧ w'.inbox = w.inbox ∧ w'.sendRes = w.sendRes.tail ∧
      w'.sess = .established io ans.clientAp ans.serverAp := by
  obtain ⟨record, hseal, hfinished⟩ := sendFinished_of hp fin junk io hw hempty hhs hth hc hs
  rw [finishedMsg_eq] at hseal
  refine ⟨record, _, hfinished, ⟨fin, by rw [hkeys]; exact hfin, ?_⟩, ?_, rfl, rfl, rfl⟩
  · rw [hkeys]
    exact Rfc.openRecord_sealRecord p hopen (by decide) hseal
  · simp only [World.sent, List.filterMap_append]
    rfl

/-- What the ClientHello puts on the wire. -/
theorem helloSends_sent (ch : Bytes) :
    (helloSends ch).filterMap Event.sent = [[22, 3, 3] ++ be 2 ch.length, ch, [20, 3, 3, 0, 1], [1]] := by
  simp [helloSends, plainSends, Event.sent, be, wnRecHandshake, wnRecChangeCipher]

/-- **Agreement with an honest server.** When the transport delivers what the
server answers to the driver's ClientHello, the driver succeeds, the server
accepts its Finished (the last record sent), and the two hold the same
application keys. -/
theorem wnConnectCertImpl_agrees (hp : p.Total) (hopen : p.OpensSealed) (hargs : ¬ a.Rejected p c)
    (hname : (a.serverName.getD []).length ≤ 255) (hdraws : CertDraws a random sid priv pub) {s : Rfc.CertServer cfg}
    (hscheme : s.scheme ∈ certSigAlgs cfg) {leafSpki : Bytes} (hproves : s.Proves a leafSpki)
    {share : Block cfg.group.srvShareSz} {ecdhe : Block cfg.group.secretSz}
    (hexchange : s.exchange pub.val = some (share, ecdhe)) (hshared : p.keyShareShared priv share.val = .ok ecdhe) :
    ∃ ch reply, s.respond p ch = some reply ∧
      ∀ inbox sendRes sess, (∀ b ∈ sendRes, b = true) → reply.flight.length ≤ wnHsAccSz cfg →
        CertCarries p (certIoCap cfg a.io) inbox reply.sh reply.serverHs reply.flight →
        ∃ w' record, wnConnectCertImpl p c a (.fresh inbox sendRes sess) = .ok () w' ∧
          w'.sent = [[22, 3, 3] ++ be 2 ch.length, ch, [20, 3, 3, 0, 1], [1], record] ∧
          reply.Accepts p record ∧ w'.sess = .established a.io reply.clientAp reply.serverAp := by
  obtain ⟨ch, hch⟩ : ∃ ch, ch = (certHello cfg random sid.val pub.val (a.serverName.getD [])).encode := ⟨_, rfl⟩
  obtain ⟨reply, hrespond, hsh, hclient, hserver, hmessages, hcAp, hsAp, hflight⟩ :=
    Rfc.CertServer.respond_certHello hp hproves hscheme hname hch hexchange
  refine ⟨ch, reply, hrespond, fun inbox sendRes sess hsend hsize hcarries => ?_⟩
  obtain ⟨hfits, hsel⟩ := s.hello_selects sid share
  rw [← hsh] at hfits hsel
  obtain ⟨m, hlist, hm, hauth⟩ := hflight hsize
  rw [← hlist] at hcarries hsize
  obtain ⟨hello, keys, flight, th, fin, inbox', hrun, hempty, hhs, hckeys, hth, hfin⟩ :=
    certHandshake_of hp hopen hargs hname hdraws hfits hsel hshared hch hserver hauth hm hsize
      (w := .fresh inbox sendRes sess) hcarries hsend
  rw [hlist, ← hmessages] at hth hfin
  rw [hclient, Option.some.injEq] at hckeys
  obtain ⟨record, w', hfinished, haccepts, hsent, -, -, hsess⟩ := Rfc.Answer.finished_of hp hopen reply a.junk a.io
    (w := { inbox := inbox', sendRes := sendRes.drop 4, trace := [] ++ helloSends ch, sess := .zero })
    (fun b hb => hsend b (List.mem_of_mem_drop hb)) hempty hhs hckeys hth hfin hcAp hsAp
  have hconnect := (congrFun (wnConnectCertImpl_eq a) (.fresh inbox sendRes sess)).trans
    ((bind_of_ok hrun).trans (bind_of_ok (alerting_of hfinished)))
  refine ⟨_, record, hconnect, ?_, haccepts, hsess⟩
  show (w'.trace ++ [_]).filterMap Event.sent = _
  rw [List.filterMap_append, show w'.trace.filterMap Event.sent = w'.sent from rfl, hsent]
  simp [World.sent, helloSends_sent, Event.sent]

theorem Rfc.CertEntry.clear_fits : ∀ e ∈ ([⟨[1], []⟩] : List Rfc.CertEntry), e.Fits := by
  intro e he
  rw [List.mem_singleton] at he
  subst he
  exact ⟨by decide, by decide⟩

theorem Block.zero_ne_hrrRandom : (Block.zero 32).val ≠ wnHrrRandom := by decide

theorem Rfc.CExt.groups_none_fit : ∀ l ∈ (none : Option (List Nat)), (Rfc.CExt.groups l).Fits := nofun

/-- A server with one certificate, `[1]`, that signs with nothing. -/
def Rfc.CertServer.clear : Rfc.CertServer .small where
  entries := [⟨[1], []⟩]
  entries_fit := Rfc.CertEntry.clear_fits
  scheme := 0x0403
  scheme_lt := by decide
  sign _ := some []
  random := Block.zero 32
  random_ne := Block.zero_ne_hrrRandom
  exchange _ := some (Block.zero _, Block.zero _)
  arrange l := l
  arrange_perm _ := .refl _
  groups := none
  groups_fit := Rfc.CExt.groups_none_fit
  acknowledges := true

theorem wnConnectCertImpl_agrees_clear : ∃ ch reply,
    Rfc.CertServer.clear.respond (Provider.clear .small) ch = some reply ∧
      ∀ inbox sendRes sess, (∀ b ∈ sendRes, b = true) → reply.flight.length ≤ wnHsAccSz .small →
        CertCarries (Provider.clear .small) (certIoCap .small (CertArgs.clear).io) inbox reply.sh reply.serverHs
          reply.flight →
        ∃ w' record, wnConnectCertImpl (Provider.clear .small) .trusting .clear (.fresh inbox sendRes sess) = .ok () w' ∧
          w'.sent = [[22, 3, 3] ++ be 2 ch.length, ch, [20, 3, 3, 0, 1], [1], record] ∧
          reply.Accepts (Provider.clear .small) record ∧
          w'.sess = .established (CertArgs.clear).io reply.clientAp reply.serverAp :=
  @wnConnectCertImpl_agrees _ _ _ .clear (Block.zero 32) (Block.zero 32) () (Block.zero _)
    (Provider.clear_total _) (Provider.clear_opensSealed _) (by decide) (by decide) ⟨(), (), rfl, rfl, rfl⟩ .clear
    (by decide) [1] ⟨by decide, by decide, fun _ => ⟨[], rfl, rfl⟩⟩ (Block.zero _) (Block.zero _) rfl rfl

end WolfNano

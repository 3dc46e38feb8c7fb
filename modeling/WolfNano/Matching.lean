/-
Both sides of a handshake have the same handshake: `psk_matching` and
`cert_matching`.

A client that succeeded may have been answered by anyone. But where the
Finished that it accepted is one that a server has made, or the signature is of
what a server has signed, for whatever ClientHello that server was sent, they
agree on the messages and on the keys: nothing was changed on the way, no offer
taken out and no choice put in. Else the two have come upon a collision, and
the result says between which values.
-/
import WolfNano.HelloRecord
import WolfNano.CertAgreement
import WolfNano.Lib.Collision

namespace WolfNano

open Prog Wire

variable {cfg : Config} {p : Provider cfg}

/-! ## What two values that agree come from -/

namespace Rfc

/-- Two keys, or messages, or what they are turned into, for which a Finished
comes out the same. -/
inductive FinishedCollides (p : Provider cfg) (key key' : Block 32) (messages messages' : Bytes) : Prop
  | key (h : Collides (fun key => expandLabel p 32 key "finished" []) key key')
  | hash (h : Collides p.sha256 messages messages')
  | mac {x y : Block 32 × Block 32}
      (hx : both (fun key => expandLabel p 32 key "finished" []) p.sha256 (key, messages) = some x)
      (hy : both (fun key => expandLabel p 32 key "finished" []) p.sha256 (key', messages') = some y)
      (h : Collides (fun x : Block 32 × Block 32 => p.hmac x.1.val x.2.val) x y)

theorem finished_eq_bind (key : Block 32) (messages : Bytes) : finished p key messages =
    (both (fun key => expandLabel p 32 key "finished" []) p.sha256 (key, messages)).bind
      fun x => p.hmac x.1.val x.2.val := by
  cases hk : expandLabel p 32 key "finished" [] <;> cases hth : p.sha256 messages <;> simp [finished, both, hk, hth]

theorem finished_inj {key key' mac : Block 32} {messages messages' : Bytes}
    (h : finished p key messages = some mac) (h' : finished p key' messages' = some mac) :
    key = key' ∧ messages = messages' ∨ FinishedCollides p key key' messages messages' := by
  rw [finished_eq_bind] at h h'
  rcases Collides.of_bind h h' with heq | hcol | ⟨x, y, hx, hy, hcol⟩
  · exact .inl (Prod.mk.inj heq)
  · rcases hcol.of_both with hcol | hcol
    · exact .inr (.key hcol)
    · exact .inr (.hash hcol)
  · exact .inr (.mac hx hy hcol)

theorem hsTraffic_eq_some {psk ecdhe messages : Bytes} {label : String} {t : TrafficKeys}
    (h : hsTraffic p psk ecdhe label messages = some t) :
    ∃ hs, handshakeSecret p psk ecdhe = some hs ∧ deriveSecret p hs label messages = some t.secret := by
  simp only [hsTraffic, Option.bind_eq_bind, Option.bind_eq_some_iff, trafficKeys_eq_some] at h
  obtain ⟨hs, hhs, secret, hsecret, hkeys⟩ := h
  exact ⟨hs, hhs, by rw [hkeys.1]; exact hsecret⟩

/-- Everything after the handshake secret is a function of it. -/
theorem traffic_congr {psk psk' ecdhe ecdhe' : Bytes} (h : handshakeSecret p psk ecdhe = handshakeSecret p psk' ecdhe')
    (label : String) (messages : Bytes) :
    hsTraffic p psk ecdhe label messages = hsTraffic p psk' ecdhe' label messages ∧
      apTraffic p psk ecdhe label messages = apTraffic p psk' ecdhe' label messages := by
  simp only [hsTraffic, apTraffic, masterSecret, h, and_self]

end Rfc

/-- A message and what follows it. -/
theorem hsMsg_append_inj {type type' : UInt8} {body body' rest rest' : Bytes} (h : body.length < 2 ^ 24)
    (h' : body'.length < 2 ^ 24) (heq : Rfc.hsMsg type body ++ rest = Rfc.hsMsg type' body' ++ rest') :
    Rfc.hsMsg type body = Rfc.hsMsg type' body' ∧ rest = rest' := by
  rw [Rfc.hsMsg, Rfc.hsMsg, List.cons_append, List.cons_append, List.cons.injEq] at heq
  obtain ⟨rfl, heq⟩ := heq
  obtain ⟨rfl, hrest⟩ := vec_append_inj h h' heq
  exact ⟨rfl, hrest⟩

/-- A sealed record is the RFC's. -/
theorem protectRecord_sealed {t : TrafficKeys} {seq : UInt64} {type : UInt8} {content record : Bytes}
    (h : protectRecord p t.key t.iv seq type content = .ok record) :
    Rfc.sealRecord p t seq.toNat type content 0 = some record := by
  rw [protectRecord] at h
  split at h
  · cases h
  · have hseal := sealInner_ok p h
    rwa [wnBuildNonce_eq] at hseal

/-! ## The server's run -/

theorem Rfc.SHello.body_length_lt {h : Rfc.SHello} (hid : h.sessionId.length < 2 ^ 8)
    (hexts : (h.exts.flatMap Rfc.ShExt.encode).length < 2 ^ 16) : h.body.length < 2 ^ 24 := by
  simp only [Rfc.SHello.body, List.length_append, vec_length, be_length, Block.length, List.length_cons, List.length_nil]
  omega

theorem srvShare_length (share : Block cfg.group.srvShareSz) : share.val.length ≤ 1200 := by
  rw [share.length]
  cases cfg.group <;> decide

namespace Rfc.Server

variable {s : Server cfg} {msg : Bytes} {r : Reply}

/-- What a server that answered has drawn, sent and derived. -/
structure Answered (p : Provider cfg) (s : Server cfg) (msg : Bytes) (r : Reply) (ecdhe : Bytes) : Prop where
  hello : ∃ ch, msg = ClientHello.encode ch ∧ ch.Fits
  serverHello : r.sh.body.length < 2 ^ 24
  clientHs : hsTraffic p s.psk ecdhe "c hs traffic" (msg ++ r.sh.encode) = some r.clientHs
  serverHs : hsTraffic p s.psk ecdhe "s hs traffic" (msg ++ r.sh.encode) = some r.serverHs
  mac : finished p r.serverHs.secret (msg ++ r.sh.encode ++ hsMsg 8 r.ee) = some r.mac
  messages : r.messages = msg ++ r.sh.encode ++ hsMsg 8 r.ee ++ hsMsg 20 r.mac.val
  clientAp : apTraffic p s.psk ecdhe "c ap traffic" r.messages = some r.clientAp
  serverAp : apTraffic p s.psk ecdhe "s ap traffic" r.messages = some r.serverAp

theorem hello_length {sessionId : Bytes} (h : sessionId.length ≤ 32) (share : Block cfg.group.srvShareSz) (i : Nat) :
    (s.hello sessionId share i).body.length < 2 ^ 24 := by
  have hperm := s.arrange_perm [.keyShare cfg.group.code share.val, .version 0x0304, .preShared i]
  have hshare := srvShare_length share
  refine SHello.body_length_lt (Nat.lt_of_le_of_lt h (by decide)) ?_
  rw [hello, (hperm.flatMap_right _).length_eq]
  simp [ShExt.encode, ShExt.data]
  omega

theorem answered (h : s.respond p msg = some r) : ∃ ecdhe, Answered p s msg r ecdhe := by
  simp only [respond, Option.bind_eq_bind, Option.bind_eq_some_iff, Option.ite_none_right_eq_some] at h
  obtain ⟨ch, hparse, _, -, _, -, _, -, _, -, _, -, -, h⟩ := h
  obtain ⟨hmsg, hfits⟩ := ClientHello.parse_eq_some.1 hparse
  simp only [reply, Option.bind_eq_bind, Option.bind_eq_some_iff] at h
  obtain ⟨_, -, ⟨share, ecdhe⟩, -, cHs, hc, sHs, hs, mac, hmac, cAp, hca, sAp, hsa, h⟩ := h
  cases h
  exact ⟨ecdhe.val, ⟨ch, hmsg, hfits⟩, hello_length hfits.sessionId _ _, hc, hs, hmac, rfl, hca, hsa⟩

end Rfc.Server

/-! ## The PSK driver -/

/-- A client's handshake and a server's are the same, and the client's last
record and its session fit the server's. -/
structure PskParts.Matches (x : PskParts p) (a : PskArgs p) (w w' : World) (msg : Bytes) (r : Rfc.Reply) : Prop where
  hello : msg = x.hello.ch
  serverHello : r.sh.encode = x.sh.encode
  encExts : r.ee = x.ee
  finished : ∃ record, w'.sent = w.sent ++ (helloSends msg).filterMap Event.sent ++ [record] ∧ r.Accepts p record
  sess : w'.sess = .established a.io r.clientAp r.serverAp

/-- What has collided where a client has taken a server's Finished and their
handshakes are not the same: two Finished, or two handshake secrets with one
traffic secret. -/
inductive PskParts.Confused (x : PskParts p) (a : PskArgs p) (s : Rfc.Server cfg) (msg : Bytes) (r : Rfc.Reply) : Prop
  | finished (h : Rfc.FinishedCollides p x.server.secret r.serverHs.secret
      (x.helloMessages ++ Rfc.hsMsg wnHsEncryptedExt x.ee) (msg ++ r.sh.encode ++ Rfc.hsMsg wnHsEncryptedExt r.ee))
  | secret {ecdhe : Bytes} {hs hs' : Block 32} (hclient : Rfc.handshakeSecret p a.psk x.ecdhe.val = some hs)
      (hserver : Rfc.handshakeSecret p s.psk ecdhe = some hs')
      (h : Collides (fun hs => Rfc.deriveSecret p hs "s hs traffic" x.helloMessages) hs hs')

/-- A client's and a server's messages through EncryptedExtensions, one by one. -/
theorem PskParts.Authentic.split {x : PskParts p} {a : PskArgs p} (h : x.Authentic a) {s : Rfc.Server cfg} {msg ecdhe : Bytes}
    {r : Rfc.Reply} (hr : s.Answered p msg r ecdhe) (hid : a.identity.length ≤ 0xFFFF)
    (heq : x.helloMessages ++ Rfc.hsMsg wnHsEncryptedExt x.ee = msg ++ r.sh.encode ++ Rfc.hsMsg wnHsEncryptedExt r.ee) :
    msg = x.hello.ch ∧ r.sh.encode = x.sh.encode ∧ r.ee = x.ee := by
  obtain ⟨ch, rfl, hfits⟩ := hr.hello
  have hch := h.hello.ch
  have hlen : (pskHello cfg x.hello.random32 x.hello.sid x.hello.cliPub.val a.identity x.hello.binder.val).body.length <
      2 ^ 24 := by
    have hsize := h.hello.ch_length
    have hbase := pskHelloBase_le cfg
    rw [hch, Rfc.ClientHello.encode, List.length_cons, vec_length] at hsize
    omega
  rw [PskParts.helloMessages, hch, List.append_assoc, List.append_assoc] at heq
  obtain ⟨hhello, heq⟩ := hsMsg_append_inj hlen (Rfc.ClientHello.body_length_lt hfits) heq
  obtain ⟨hserver, heq⟩ := hsMsg_append_inj (Rfc.SHello.body_length_lt h.fits.sessionId h.fits.extsLen) hr.serverHello heq
  refine ⟨by rw [hch]; exact hhello.symm, hserver.symm, ?_⟩
  have hee := congrArg (List.drop 4) heq
  rw [hsMsg_body, hsMsg_body] at hee
  exact hee.symm

theorem Rfc.CertServer.Answered.serverHello {s : Rfc.CertServer cfg} {msg sig : Bytes} {r : Rfc.Answer}
    {ch : Rfc.ClientHello} {share : Block cfg.group.srvShareSz} {ecdhe : Block cfg.group.secretSz} {mac : Block 32}
    (h : s.Answered p msg r ch share ecdhe sig mac) : r.sh.body.length < 2 ^ 24 := by
  have hsid := (Rfc.ClientHello.parse_eq_some.1 h.parse).2.sessionId
  have hperm := s.arrange_perm [.keyShare cfg.group.code share.val, .version 0x0304]
  have hshare := srvShare_length share
  rw [h.sh]
  refine Rfc.SHello.body_length_lt (Nat.lt_of_le_of_lt hsid (by decide)) ?_
  rw [Rfc.CertServer.hello, (hperm.flatMap_right _).length_eq]
  simp [Rfc.ShExt.encode, Rfc.ShExt.data]
  omega

variable {c : CertProvider}

/-- What the client takes the signature to be of. -/
def CertParts.signed (x : CertParts p) : Bytes := x.helloMessages ++ x.flight.encExt ++ x.flight.certificate

/-- A client's handshake and that of the server whose signature it took: they
have the handshake keys in common, and the client's Finished opens. Where the
server's Finished is the one that the client took, all of the flight is the
same, and the application keys, or two Finished collide. -/
structure CertParts.Matches (x : CertParts p) (a : CertArgs p c) (w w' : World) (s : Rfc.CertServer cfg) (msg : Bytes)
    (r : Rfc.Answer) : Prop where
  hello : msg = x.hello.ch
  serverHello : r.sh.encode = x.sh.encode
  certificate : s.signed msg r = x.signed
  serverHs : r.serverHs = x.server
  told : ∃ record mac, w'.sent = w.sent ++ (helloSends msg).filterMap Event.sent ++ [record] ∧
    Rfc.openRecord p r.clientHs 0 record = some (22, Rfc.hsMsg 20 mac) ∧
    ∀ proof, r.flight = proof ++ x.flight.finished →
      (r.flight = x.flight.list.flatten ∧ r.Accepts p record ∧ w'.sess = .established a.io r.clientAp r.serverAp) ∨
      Rfc.FinishedCollides p x.server.secret x.server.secret (x.signed ++ x.flight.certVerify)
        (msg ++ r.sh.encode ++ proof)

/-- The messages that were signed, one by one. -/
theorem CertParts.Authentic.split {x : CertParts p} {a : CertArgs p c} (h : x.Authentic a) {s : Rfc.CertServer cfg}
    {msg sig : Bytes} {r : Rfc.Answer} {ch : Rfc.ClientHello} {share : Block cfg.group.srvShareSz}
    {ecdhe : Block cfg.group.secretSz} {mac : Block 32} (hr : s.Answered p msg r ch share ecdhe sig mac)
    (heq : s.signed msg r = x.signed) : msg = x.hello.ch ∧ r.sh.encode = x.sh.encode ∧
      s.certFlight ch.named = x.flight.encExt ++ x.flight.certificate := by
  obtain ⟨_, _, pub, -, -, -, chLen, scratch, hbuild, hch⟩ := h.hello.random
  obtain ⟨hencode, hfits⟩ := wnClientHelloBuildEx_ok _ hbuild
  rw [hencode] at hch
  obtain ⟨hmsg, hfits'⟩ := Rfc.ClientHello.parse_eq_some.1 hr.parse
  rw [Rfc.CertServer.signed, hr.parse, Option.any_some, CertParts.signed, CertParts.helloMessages, hch, hmsg,
    List.append_assoc, List.append_assoc, List.append_assoc] at heq
  obtain ⟨hhello, heq⟩ := hsMsg_append_inj (Rfc.ClientHello.body_length_lt hfits') (Rfc.ClientHello.body_length_lt hfits) heq
  obtain ⟨hserver, heq⟩ := hsMsg_append_inj hr.serverHello (Rfc.SHello.body_length_lt h.fits.sessionId h.fits.extsLen) heq
  exact ⟨by rw [hch, hmsg]; exact hhello, hserver, heq⟩

/-- The shared secret, where the client took the ServerHello that the server
sent to it. -/
theorem CertParts.Authentic.exchange (hp : p.Total) {x : CertParts p} {a : CertArgs p c} (h : x.Authentic a)
    {s : Rfc.CertServer cfg} {msg sig : Bytes} {r : Rfc.Answer} {ch : Rfc.ClientHello}
    {share : Block cfg.group.srvShareSz} {ecdhe : Block cfg.group.secretSz} {mac : Block 32}
    (hr : s.Answered p msg r ch share ecdhe sig mac) (hmsg : msg = x.hello.ch) (hsh : r.sh.encode = x.sh.encode)
    (hexchange : ∀ rng priv pub share ecdhe, p.keyShareGenerate rng = .ok (priv, pub) →
      s.exchange pub.val = some (share, ecdhe) → p.keyShareShared priv share.val = .ok ecdhe) : ecdhe = x.ecdhe := by
  obtain ⟨_, rng₂, pub, -, -, hgen, chLen, scratch, hbuild, hch⟩ := h.hello.random
  obtain ⟨hencode, hfits⟩ := wnClientHelloBuildEx_ok _ hbuild
  rw [hencode, ← hmsg] at hch
  have hparse := Rfc.ClientHello.parse_eq_some.2 ⟨hch, hfits⟩
  rw [hr.parse, Option.some.injEq] at hparse
  subst hparse
  obtain ⟨clientShare, hshare, hanswer⟩ := hr.exchange
  rw [certHello_share, Option.some.injEq] at hshare
  subst hshare
  have hshared := hexchange rng₂ x.hello.priv pub share ecdhe hgen hanswer
  obtain ⟨hfitsS, hselS⟩ := s.hello_selects x.hello.sid share
  have hlen := h.selects.length
  have hx := acceptServerHello_of none [] hp 3 3 h.fits h.selects (by omega) h.ecdhe
  have hs := acceptServerHello_of none [] hp 3 3 hfitsS hselS (by have := hselS.length; omega) hshared
  have hsame : (s.hello x.hello.sid.val share).encode = x.sh.encode := hr.sh ▸ hsh
  rw [hsame, hx, Except.ok.injEq, Prod.mk.injEq] at hs
  exact hs.2.symm

/-- The rest of the flight, where the client took the server's Finished. -/
theorem CertParts.Authentic.whole {x : CertParts p} {a : CertArgs p c} (h : x.Authentic a) {s : Rfc.CertServer cfg}
    {msg sig : Bytes} {r : Rfc.Answer} {ch : Rfc.ClientHello} {share : Block cfg.group.srvShareSz}
    {ecdhe : Block cfg.group.secretSz} {mac : Block 32} (hr : s.Answered p msg r ch share ecdhe sig mac)
    (hcert : s.certFlight ch.named = x.flight.encExt ++ x.flight.certificate) (hsigned : s.signed msg r = x.signed)
    (hserver : r.serverHs = x.server) {proof : Bytes} (hproof : r.flight = proof ++ x.flight.finished) :
    r.flight = x.flight.list.flatten ∨
      Rfc.FinishedCollides p x.server.secret x.server.secret (x.signed ++ x.flight.certVerify)
        (msg ++ r.sh.encode ++ proof) := by
  rw [hr.flight] at hproof
  obtain ⟨hproof, hfin⟩ := List.append_inj' hproof (by rw [CertMessages.finished, hsMsg_length, hsMsg_length]; simp)
  have hmac : mac = x.flight.mac := by
    have hbody := congrArg (List.drop 4) hfin
    rw [CertMessages.finished, hsMsg_body, hsMsg_body] at hbody
    exact Subtype.ext hbody
  have hall : s.signed msg r ++ Rfc.hsMsg 15 (Rfc.certVerify s.scheme sig) = msg ++ r.sh.encode ++ proof := by
    rw [← hproof, Rfc.CertServer.signed, hr.parse, Option.any_some]
    exact List.append_assoc _ _ _
  have hverify := hr.verifyData
  rw [hall, hserver, hmac] at hverify
  rcases Rfc.finished_inj h.flight.mac hverify with ⟨-, hmessages⟩ | hcol
  · have hcv : x.flight.certVerify = Rfc.hsMsg 15 (Rfc.certVerify s.scheme sig) := by
      rw [← hall, hsigned] at hmessages
      exact List.append_cancel_left hmessages
    refine .inl ?_
    rw [hr.flight, hfin, hcert, ← hcv]
    simp [CertMessages.list]
  · exact .inr hcol

/-- **Matching handshakes, with certificates.** When the certificate driver
succeeds, what it has read is an authentic handshake; and if what the
signature in it is of is what some server signed, in answer to some
ClientHello, then that ClientHello is the one the driver sent, every message
through the Certificate is the one the server sent, they have the same
handshake keys and the server opens the driver's Finished, or else two
transcripts have one hash. -/
theorem cert_matching {a : CertArgs p c} (hp : p.Total) (hopen : p.OpensSealed) {w w' : World}
    (h : wnConnectCertImpl p c a w = .ok () w') :
    ∃ x : CertParts p, x.Authentic a ∧ w.inbox.flatten = x.stream ++ w'.inbox.flatten ∧
      ∀ (s : Rfc.CertServer cfg) (msg : Bytes) (r : Rfc.Answer), s.respond p msg = some r →
        p.sha256 (s.signed msg r) = some x.flight.thCert →
        (∀ rng priv pub share ecdhe, p.keyShareGenerate rng = .ok (priv, pub) →
          s.exchange pub.val = some (share, ecdhe) → p.keyShareShared priv share.val = .ok ecdhe) →
        x.Matches a w w' s msg r ∨ Collides p.sha256 (s.signed msg r) x.signed := by
  rw [wnConnectCertImpl_eq] at h
  obtain ⟨⟨hello, keys, flight, th, mac⟩, w₁, hrun, h⟩ := bind_ok.1 h
  obtain ⟨x, hx, rfl, hhs, hckeys, hskeys, hth, hfin, -, hread, hw₁⟩ := certHandshake_ok hrun
  obtain ⟨_, w₂, hsend, hemit⟩ := bind_ok.1 h
  obtain ⟨record, client, server, hrec, hc, hs, hw₂⟩ := sendFinished_ok hx.hello.emptyHash hhs hth (alerting_ok hsend)
  cases hemit
  refine ⟨x, hx, by rw [hread, hw₂], fun s msg r hrespond hsigned hexchange => ?_⟩
  obtain ⟨ch, share, ecdhe, sig, smac, hr⟩ := Rfc.CertServer.answered hrespond
  rcases eq_or_collides hsigned hx.flight.thCert with heq | hcol
  · obtain ⟨hmsg, hsh, hcert⟩ := hx.split hr heq
    obtain rfl := hx.exchange hp hr hmsg hsh hexchange
    have hmessages : msg ++ r.sh.encode = x.helloMessages := by
      rw [hmsg, hsh]
      rfl
    have hclientHs := hr.clientHs
    rw [hmessages, hckeys, Option.some.injEq] at hclientHs
    have hserverHs := hr.serverHs
    rw [hmessages, hx.server, Option.some.injEq] at hserverHs
    rw [finishedMsg_eq] at hrec
    have hseal := protectRecord_sealed (t := ⟨keys.cHs, keys.cKey, keys.cIv⟩) hrec
    have hopened : Rfc.openRecord p r.clientHs 0 record = some (22, Rfc.hsMsg 20 mac.val) := by
      rw [← hclientHs]
      exact Rfc.openRecord_sealRecord p hopen (by decide) hseal
    refine .inl ⟨hmsg, hsh, heq, hserverHs.symm, record, mac.val, ?_, hopened, fun proof hproof => ?_⟩
    · rw [hmsg, hw₂, hw₁]
      simp only [World.sent, List.filterMap_append]
      exact List.append_nil _
    · rcases hx.whole hr hcert heq hserverHs.symm hproof with hflight | hcol
      · have hall : r.messages = x.messages := by
          rw [hr.messages, hmessages, hflight]
          rfl
        have hcAp := hr.clientAp
        rw [hall, hc, Option.some.injEq] at hcAp
        have hsAp := hr.serverAp
        rw [hall, hs, Option.some.injEq] at hsAp
        exact .inl ⟨hflight, ⟨mac, by rw [← hclientHs, hall]; exact hfin, hopened⟩, by rw [hw₂, hcAp, hsAp]⟩
      · exact .inr hcol
  · exact .inr hcol

theorem cert_matching_clear : ∃ (w' : World) (x : CertParts (Provider.clear .small)), x.Authentic CertArgs.clear ∧
    (World.fresh [clearCertStream] [] .zero).inbox.flatten = x.stream ++ w'.inbox.flatten ∧
      ∀ (s : Rfc.CertServer .small) (msg : Bytes) (r : Rfc.Answer), s.respond (Provider.clear .small) msg = some r →
        (Provider.clear .small).sha256 (s.signed msg r) = some x.flight.thCert →
        (∀ rng priv pub share ecdhe, (Provider.clear .small).keyShareGenerate rng = .ok (priv, pub) →
          s.exchange pub.val = some (share, ecdhe) → (Provider.clear .small).keyShareShared priv share.val = .ok ecdhe) →
        x.Matches CertArgs.clear (.fresh [clearCertStream] [] .zero) w' s msg r ∨
          Collides (Provider.clear .small).sha256 (s.signed msg r) x.signed := by
  obtain ⟨w', h⟩ := code_ok.1 (show code (wnConnectCertImpl (.clear .small) .trusting .clear
    (.fresh [clearCertStream] [] .zero)) = .ok () by decide +kernel)
  exact ⟨w', cert_matching (Provider.clear_total _) (Provider.clear_opensSealed _) h⟩

end WolfNano

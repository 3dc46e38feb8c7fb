/-
The PSK driver and an honest server agree.

`wnConnectPskEx_agrees`: over a transport that delivers what an `Rfc.Server`
answers to the driver's ClientHello, cut into any records that fit, the driver
succeeds, the server accepts both of its proofs, and the two hold the same
application keys.
-/
import WolfNano.PskFacts
import WolfNano.RfcServer
import WolfNano.Observed
import WolfNano.ClearProvider

namespace WolfNano

open Prog Wire Reassembly

variable {cfg : Config} {p : Provider cfg} {a : PskArgs p}

/-! ## The driver's side -/

/-- What the driver draws for a handshake. -/
structure PskDraws (a : PskArgs p) (random sid : Block 32) (priv : p.Priv) (pub : Block cfg.group.pubSz) : Prop where
  draws : ∃ rng₁ rng₂, p.rngGenerateBlock a.rng 32 = (some random, rng₁) ∧
    p.rngGenerateBlock rng₁ 32 = (some sid, rng₂) ∧ p.keyShareGenerate rng₂ = .ok (priv, pub)

variable {random sid : Block 32} {priv : p.Priv} {pub : Block cfg.group.pubSz}

theorem PskHelloSent.eq_draws {hello : PskHello p} (h : PskHelloSent a hello) (hd : PskDraws a random sid priv pub) :
    hello.random32 = random ∧ hello.sid = sid ∧ hello.priv = priv ∧ hello.cliPub = pub := by
  obtain ⟨rng₁, rng₂, h₁, h₂, h₃⟩ := h.random
  obtain ⟨rng₁', rng₂', h₁', h₂', h₃'⟩ := hd.draws
  rw [h₁, Prod.mk.injEq, Option.some.injEq] at h₁'
  obtain ⟨hr, rfl⟩ := h₁'
  rw [h₂, Prod.mk.injEq, Option.some.injEq] at h₂'
  obtain ⟨hs, rfl⟩ := h₂'
  rw [h₃, Except.ok.injEq, Prod.mk.injEq] at h₃'
  exact ⟨hr, hs, h₃'.1, h₃'.2⟩

/-- The ClientHello is made, if it fits. -/
theorem pskHelloDraft_of (hp : p.Total) (hd : PskDraws a random sid priv pub) (hid : a.identity.length ≤ 0xFFFF)
    (hfits : pskHelloBase cfg + a.identity.length ≤ a.io.scratchLen) : ∃ hello, pskHelloDraft p a = .ok hello := by
  obtain ⟨rng₁, rng₂, h₁, h₂, h₃⟩ := hd.draws
  obtain ⟨emptyHash, hempty⟩ := Option.ne_none_iff_exists'.1 (hp.sha256 [])
  obtain ⟨early, hearly⟩ := Option.ne_none_iff_exists'.1 (hp.hkdfExtract [] a.psk)
  obtain ⟨hbuilt, -⟩ := buildClientHello_ok random sid pub.length (pskHelloBase_lt cfg hid) []
    a.io.scratchLen
  have herr := hbuilt.2 hfits
  simp only [pskHelloDraft, h₁, h₂, h₃, hempty, orCrypto_some, except_ok_bind, wnTranscriptInit, if_pos hp.sha256Init,
    wnTls13Extract, hearly]
  generalize buildClientHello cfg (wnWriterInit [] a.io.scratchLen) random sid pub.val a.identity = b at herr
  obtain ⟨th, hth⟩ := Option.ne_none_iff_exists'.1 (hp.sha256 (b.w.buf.take b.truncOff))
  obtain ⟨binderKey, hbk⟩ := Rfc.deriveSecret_total hp early "ext binder" []
  obtain ⟨binder, hbinder⟩ := Rfc.finished_total hp binderKey (b.w.buf.take b.truncOff)
  rw [if_neg (by simp [herr]), wnTls13DeriveSecret_eq p hempty, hbk, orCrypto_some, except_ok_bind, hth, orCrypto_some,
    except_ok_bind, wnTls13FinishedMac_eq p hth, hbinder, orCrypto_some, except_ok_bind, wnTranscriptUpdate_of hp]
  exact ⟨_, rfl⟩

theorem pskClientHello_of {hello : PskHello p} (h : pskHelloDraft p a = .ok hello) {w : World} (hw : w.Sending) :
    pskClientHello p a w =
      .ok hello { w with sendRes := w.sendRes.drop 4, trace := w.trace ++ helloSends hello.ch } := by
  have hw' : ∀ tr, World.Sending { w with sendRes := w.sendRes.drop 2, trace := tr } := fun _ => hw.drop rfl
  rw [pskClientHello_eq, h, bind_of_ok (ofExcept_ok_apply hello w), bind_of_ok (sendPlainRecord_of hw), sendCcs,
    bind_of_ok (sendPlainRecord_of (hw' _)), pure_apply]
  simp [helloSends]

/-- A stream that carries a server's answer: its ServerHello and a flight
sealed in records that fit, with ChangeCipherSpecs among them. -/
structure Carries (p : Provider cfg) (inbox : List Bytes) (sh : Rfc.SHello) (server : TrafficKeys) (flight : Bytes) :
    Prop where
  flowing : [] ∉ inbox
  stream : ∃ (ccs : List (UInt8 × UInt8)) (v : UInt8 × UInt8) (rs fs : List Bytes) (rest : Bytes),
    Sealed p server pskFits 0 0 rs fs ∧ fs.flatten = flight ∧
    inbox.flatten = ccs.flatMap ccsRecord ++ (wireRecord wnRecHandshake v.1 v.2 sh.encode ++ (rs.flatten ++ rest))

/-- A ServerHello with the one selection fits in any scratch buffer. -/
theorem Rfc.SHello.Selects.length {sh : Rfc.SHello} {share : Bytes} {psk : Option Nat} (h : sh.Selects cfg sid share psk) :
    sh.encode.length ≤ 2000 := by
  have hshare : share.length ≤ 1200 := by rw [h.shareLen]; cases cfg.group <;> decide
  have hexts : (sh.exts.flatMap Rfc.ShExt.encode).length =
      ((Rfc.selection cfg.group.code share psk).flatMap Rfc.ShExt.encode).length :=
    (h.exts.flatMap_right _).length_eq
  have hsel : ((Rfc.selection cfg.group.code share psk).flatMap Rfc.ShExt.encode).length ≤ share.length + 20 := by
    cases psk <;> simp [Rfc.selection, Rfc.ShExt.encode, Rfc.ShExt.data] <;> omega
  have hsid : sh.sessionId.length = 32 := by rw [h.sessionId]; exact sid.length
  simp only [Rfc.SHello.encode, Rfc.hsMsg, Rfc.SHello.body, List.length_cons, vec_length, List.length_append, be_length,
    Block.length, hexts, hsid]
  simp only [List.length_nil]
  omega

/-- The handshake of a driver that is answered, up to its flight loop: if that
reads the server's flight and leaves what `Q` says, so does the handshake. -/
theorem pskHandshake_from (hp : p.Total) (hargs : ¬ a.Rejected p) {hello : PskHello p}
    (hdraft : pskHelloDraft p a = .ok hello) {sh : Rfc.SHello} (hfits : sh.Fits) {share : Bytes}
    (hsel : sh.Selects cfg hello.sid share (some 0)) {ecdhe : Block cfg.group.secretSz}
    (hshare : p.keyShareShared hello.priv share = .ok ecdhe) {server : TrafficKeys}
    (hserver : Rfc.hsTraffic p a.psk ecdhe.val "s hs traffic" (hello.ch ++ sh.encode) = some server)
    (messages : Bytes) (Q : List Bytes → Prop) {w : World} (hin : [] ∉ w.inbox) {ccs : List (UInt8 × UInt8)}
    {v : UInt8 × UInt8} {tail : Bytes}
    (hflat : w.inbox.flatten = ccs.flatMap ccsRecord ++ (wireRecord wnRecHandshake v.1 v.2 sh.encode ++ tail))
    (hsend : w.Sending)
    (hloop : ∀ (keys : HsKeys) (u : World), TrafficKeys.mk keys.sHs keys.sKey keys.sIv = server → [] ∉ u.inbox →
      u.inbox.flatten = tail → ∃ st inbox, Q inbox ∧ st.tc = messages ∧
        pskFlight p a.io.scratchLen keys (hello.ch ++ sh.encode) u = .ok st { u with inbox }) :
    ∃ keys flight th fin inbox, Q inbox ∧ pskHandshake p a w = .ok (hello, keys, flight, th, fin)
        { inbox, sendRes := w.sendRes.drop 4, trace := w.trace ++ helloSends hello.ch, sess := .zero } ∧
      Rfc.handshakeSecret p a.psk ecdhe.val = some keys.hs ∧
      Rfc.hsTraffic p a.psk ecdhe.val "c hs traffic" (hello.ch ++ sh.encode) = some ⟨keys.cHs, keys.cKey, keys.cIv⟩ ∧
      p.sha256 messages = some th ∧ Rfc.finished p keys.cHs messages = some fin := by
  have hid : a.identity.length ≤ 0xFFFF ∧ 2048 ≤ a.io.scratchLen := by
    simp only [PskArgs.Rejected, not_or, Nat.not_lt] at hargs
    exact ⟨hargs.2.2.2.2.2, hargs.2.2.2.2.1⟩
  have hsent := pskHelloDraft_ok hid.1 hdraft
  have hlen := hsel.length
  -- The ServerHello.
  have hcheck : recordCheck a.io.scratchLen wnRecHandshake sh.encode = .ok () :=
    recordCheck_ok.2 ⟨by simp [Rfc.SHello.encode, Rfc.hsMsg], by omega, by simp only [wnMaxPlaintext]; omega,
      fun h => absurd h (by decide)⟩
  obtain ⟨inbox, hin', hrest, hsh⟩ := recvServerHello_wire (p := p) (show 6 ≤ a.io.scratchLen by omega)
    hello.priv hello.sid 0 hello.tc (by decide) (by omega)
    (w := { w with sendRes := w.sendRes.drop 4, trace := w.trace ++ helloSends hello.ch, sess := .zero }) hin hflat
  have hacc := acceptServerHello_of (some 0) hello.tc hp v.1 v.2 hfits hsel (by omega) hshare
  rw [show selIndex (some 0) = 0 from rfl] at hacc
  rw [hcheck, except_ok_bind, hacc] at hsh
  -- The keys.
  obtain ⟨thSh, hthSh⟩ := Option.ne_none_iff_exists'.1 (hp.sha256 (hello.ch ++ sh.encode))
  obtain ⟨hs, hhs⟩ := Rfc.handshakeSecret_total hp a.psk ecdhe.val
  obtain ⟨client, hclient⟩ := Rfc.hsTraffic_total hp a.psk ecdhe.val "c hs traffic" (hello.ch ++ sh.encode)
  have hkeys := (wnDeriveHsKeys_ok p ⟨hs, client.secret, server.secret, client.key, client.iv, server.key,
    server.iv⟩ hsent.emptyHash hsent.early hthSh).2 ⟨hhs, hclient, hserver⟩
  -- The flight.
  obtain ⟨st, inbox', hq, htc, hrun⟩ := hloop ⟨hs, client.secret, server.secret, client.key, client.iv, server.key,
    server.iv⟩ { inbox, sendRes := w.sendRes.drop 4, trace := w.trace ++ helloSends hello.ch, sess := .zero } rfl hin'
    (hrest hcheck)
  obtain ⟨th, hth⟩ := Option.ne_none_iff_exists'.1 (hp.sha256 st.tc)
  obtain ⟨fin, hfin⟩ := Rfc.finished_total hp client.secret st.tc
  refine ⟨⟨hs, client.secret, server.secret, client.key, client.iv, server.key, server.iv⟩, st, th, fin, inbox', hq, ?_,
    hhs, hclient, htc ▸ hth, htc ▸ hfin⟩
  rw [pskHandshake, failIf_neg hargs, pure_bind,
    bind_of_ok (rfl : setSess .zero w = .ok () { w with sess := .zero }),
    bind_of_ok (pskClientHello_of hdraft (w := { w with sess := .zero }) hsend), bind_of_ok hsh]
  dsimp only
  rw [hsent.tc, wnTranscriptGetHash, hthSh, orCrypto_some, bind_of_ok (ofExcept_ok_apply _ _), hkeys,
    bind_of_ok (ofExcept_ok_apply _ _), bind_of_ok hrun, wnTranscriptGetHash, hth, orCrypto_some,
    bind_of_ok (ofExcept_ok_apply _ _), wnTls13FinishedMac_eq p hth, hfin, orCrypto_some,
    bind_of_ok (ofExcept_ok_apply _ _)]
  rfl

/-- The handshake of a driver that is answered. -/
theorem pskHandshake_of (hp : p.Total) (hopen : p.OpensSealed) (hargs : ¬ a.Rejected p) {hello : PskHello p}
    (hdraft : pskHelloDraft p a = .ok hello) {sh : Rfc.SHello} (hfits : sh.Fits) {share : Bytes}
    (hsel : sh.Selects cfg hello.sid share (some 0)) {ecdhe : Block cfg.group.secretSz}
    (hshare : p.keyShareShared hello.priv share = .ok ecdhe) {server : TrafficKeys}
    (hserver : Rfc.hsTraffic p a.psk ecdhe.val "s hs traffic" (hello.ch ++ sh.encode) = some server) {ee : Bytes}
    (hee : wnCheckEncExt ee false = .ok ()) {mac : Block 32}
    (hmac : Rfc.finished p server.secret (hello.ch ++ sh.encode ++ Rfc.hsMsg wnHsEncryptedExt ee) = some mac) {w : World}
    (hc : Carries p w.inbox sh server (Rfc.hsMsg wnHsEncryptedExt ee ++ Rfc.hsMsg wnHsFinished mac.val))
    (hsend : w.Sending) :
    ∃ keys flight th fin inbox, pskHandshake p a w = .ok (hello, keys, flight, th, fin)
        { inbox, sendRes := w.sendRes.drop 4, trace := w.trace ++ helloSends hello.ch, sess := .zero } ∧
      Rfc.handshakeSecret p a.psk ecdhe.val = some keys.hs ∧
      Rfc.hsTraffic p a.psk ecdhe.val "c hs traffic" (hello.ch ++ sh.encode) = some ⟨keys.cHs, keys.cKey, keys.cIv⟩ ∧
      p.sha256 (hello.ch ++ sh.encode ++ Rfc.hsMsg wnHsEncryptedExt ee ++ Rfc.hsMsg wnHsFinished mac.val) = some th ∧
      Rfc.finished p keys.cHs
        (hello.ch ++ sh.encode ++ Rfc.hsMsg wnHsEncryptedExt ee ++ Rfc.hsMsg wnHsFinished mac.val) = some fin := by
  have hroom : 2048 ≤ a.io.scratchLen := by
    simp only [PskArgs.Rejected, not_or, Nat.not_lt] at hargs
    exact hargs.2.2.2.2.1
  obtain ⟨hin, ccs, v, rs, fs, rest, hsealed, hcontents, hflat⟩ := hc
  obtain ⟨keys, flight, th, fin, inbox, -, hrun⟩ := pskHandshake_from hp hargs hdraft hfits hsel hshare hserver
    (hello.ch ++ sh.encode ++ Rfc.hsMsg wnHsEncryptedExt ee ++ Rfc.hsMsg wnHsFinished mac.val) (fun _ => True) hin hflat hsend fun keys u hkeys hu hrest => by
      subst hkeys
      have hlen := hsealed.length_le wnPlainSz (fun {acc content pad} (h : pskFits acc content pad) => by
        simp only [pskFits] at h; omega) (by decide)
      rw [hcontents, List.length_append, hsMsg_length, hsMsg_length, Block.length] at hlen
      obtain ⟨s, off, hscan, hdone, htc⟩ := pskFlight_scan hp hee hmac (by omega)
      rw [← hcontents] at hscan
      obtain ⟨st, inbox, hst, hrun⟩ := FlightLoop.repeat_done (L := pskLoop p a.io.scratchLen keys (hello.ch ++ sh.encode))
        (by show 6 ≤ a.io.scratchLen; omega) rfl (hsealed.pskFlight hopen (hp.aesGcmSetKey _) hroom) hu hrest hscan hdone
      rw [← pskFlight_eq] at hrun
      exact ⟨st, inbox, trivial, by rw [← htc, ← hst]; rfl, hrun⟩
  exact ⟨keys, flight, th, fin, inbox, hrun⟩

/-! ## The server's side -/

section Hello

variable {identity : Bytes} {binder : Bytes}

theorem pskHello_share : (pskHello cfg random sid pub.val identity binder).share cfg.group.code = some pub.val := by
  simp [pskHello, Rfc.ClientHello.share]

theorem pskHello_preShared :
    (pskHello cfg random sid pub.val identity binder).preShared = some ([(identity, 0)], [binder]) := by
  simp [pskHello, Rfc.ClientHello.preShared]

theorem pskHello_offers : 0x1301 ∈ (pskHello cfg random sid pub.val identity binder).cipherSuites ∧
    (pskHello cfg random sid pub.val identity binder).offersVersion 0x0304 = true ∧
    (pskHello cfg random sid pub.val identity binder).offersPskMode 1 = true := by
  simp [pskHello, Rfc.ClientHello.offersVersion, Rfc.ClientHello.offersPskMode]

/-- What the binder covers is what the driver hashed for it. -/
theorem pskHello_truncate (hb : binder.length = 32) :
    Rfc.truncate (pskHello cfg random sid pub.val identity binder).encode [binder] =
      pskHelloFront cfg random sid pub.val identity := by
  have hlen : (vec 2 ([binder].flatMap Rfc.encBinder)).length = 35 := by simp [Rfc.encBinder, hb]
  have htotal : (pskHelloFront cfg random sid pub.val identity ++ ([0, 33, 32] ++ binder)).length - 35 =
      (pskHelloFront cfg random sid pub.val identity).length := by simp [hb]
  rw [Rfc.truncate, hlen, pskHello_encode _ _ _ _ _ hb, htotal, List.take_left]

end Hello

variable (sid) in
/-- A server's ServerHello makes the selection. -/
theorem Rfc.Server.hello_selects (s : Rfc.Server cfg) (share : Block cfg.group.srvShareSz) {i : Nat} (hi : i < 2 ^ 16) :
    (s.hello sid.val share i).Fits ∧ (s.hello sid.val share i).Selects cfg sid share.val (some i) := by
  have hperm := s.arrange_perm [.keyShare cfg.group.code share.val, .version 0x0304, .preShared i]
  have hgroup : cfg.group.code < 2 ^ 16 := by cases cfg.group <;> decide
  have hshare : share.val.length ≤ 1200 := by rw [share.length]; cases cfg.group <;> decide
  refine ⟨⟨by simp [hello], by simp [hello], fun e he => ?_, ?_⟩, ⟨s.random_ne, rfl, rfl, share.length, hperm⟩⟩
  · have he := hperm.mem_iff.1 he
    simp only [List.mem_cons, List.not_mem_nil, or_false] at he
    rcases he with rfl | rfl | rfl
    · exact ⟨hgroup, by omega⟩
    · exact (by decide : 0x0304 < 2 ^ 16)
    · exact hi
  · rw [hello, (hperm.flatMap_right _).length_eq]
    simp [Rfc.ShExt.encode, Rfc.ShExt.data]
    omega

/-- The driver accepts a server's EncryptedExtensions. -/
theorem Rfc.Server.encExts_accepted (s : Rfc.Server cfg) (h : s.encExts.length ≤ wnPlainSz) :
    wnCheckEncExt s.encExts false = .ok () := by
  simp only [wnPlainSz] at h
  refine (wnCheckEncExt_ok (by omega)).2 ⟨(s.groups.map fun l => (10, (Rfc.CExt.groups l).data)).toList, rfl, ?_, ?_⟩
  · rw [Rfc.Server.encExts, Rfc.encryptedExtensions, vec_length] at h
    omega
  · intro e he
    simp only [Option.mem_toList, Option.map_eq_some_iff] at he
    obtain ⟨l, hl, rfl⟩ := he
    rw [Rfc.Server.encExts, hl, Rfc.encryptedExtensions] at h
    simp only [Option.map_some, Option.toList_some, List.flatMap_cons, List.flatMap_nil, Rfc.Extension.encode,
      List.append_nil, vec_length, List.length_append] at h
    exact ⟨⟨by simp, show (Rfc.CExt.groups l).data.length < 256 ^ 2 by omega⟩, .inl rfl⟩

/-- A server with the driver's PSK answers the driver's ClientHello. -/
theorem Rfc.Server.respond_pskHello (hp : p.Total) {hello : PskHello p} (hsent : PskHelloSent a hello)
    (hne : a.identity ≠ []) (hsize : pskHelloBase cfg + a.identity.length ≤ wnMaxPlaintext) {s : Rfc.Server cfg}
    (hpsk : s.psk = a.psk) (hid : s.identity = a.identity) {share : Block cfg.group.srvShareSz}
    {ecdhe : Block cfg.group.secretSz} (hexchange : s.exchange hello.cliPub.val = some (share, ecdhe)) :
    ∃ reply, s.respond p hello.ch = some reply ∧ reply.sh = s.hello hello.sid.val share 0 ∧ reply.ee = s.encExts ∧
      Rfc.hsTraffic p a.psk ecdhe.val "c hs traffic" (hello.ch ++ reply.sh.encode) = some reply.clientHs ∧
      Rfc.hsTraffic p a.psk ecdhe.val "s hs traffic" (hello.ch ++ reply.sh.encode) = some reply.serverHs ∧
      Rfc.finished p reply.serverHs.secret (hello.ch ++ reply.sh.encode ++ Rfc.hsMsg wnHsEncryptedExt reply.ee) =
        some reply.mac ∧
      reply.messages = hello.ch ++ reply.sh.encode ++ Rfc.hsMsg wnHsEncryptedExt reply.ee ++
        Rfc.hsMsg wnHsFinished reply.mac.val ∧
      Rfc.apTraffic p a.psk ecdhe.val "c ap traffic" reply.messages = some reply.clientAp ∧
      Rfc.apTraffic p a.psk ecdhe.val "s ap traffic" reply.messages = some reply.serverAp := by
  obtain ⟨key, hkey, hbinder⟩ := hsent.binder
  have hparse := Rfc.ClientHello.parse_eq_some.2
    ⟨hsent.ch, pskHello_fits hello.random32 hello.sid hello.cliPub.length hello.binder.length hne hsize⟩
  have htrunc : Rfc.truncate hello.ch [hello.binder.val] =
      pskHelloFront cfg hello.random32 hello.sid hello.cliPub.val a.identity := by
    rw [hsent.ch, pskHello_truncate hello.binder.length]
  obtain ⟨sh, hsh⟩ : ∃ sh, sh = s.hello hello.sid.val share 0 := ⟨_, rfl⟩
  obtain ⟨clientHs, hc⟩ := Rfc.hsTraffic_total hp a.psk ecdhe.val "c hs traffic" (hello.ch ++ sh.encode)
  obtain ⟨serverHs, hs⟩ := Rfc.hsTraffic_total hp a.psk ecdhe.val "s hs traffic" (hello.ch ++ sh.encode)
  obtain ⟨mac, hmac⟩ := Rfc.finished_total hp serverHs.secret (hello.ch ++ sh.encode ++ Rfc.hsMsg 8 s.encExts)
  obtain ⟨messages, hmessages⟩ : ∃ messages,
      messages = hello.ch ++ sh.encode ++ Rfc.hsMsg 8 s.encExts ++ Rfc.hsMsg 20 mac.val := ⟨_, rfl⟩
  obtain ⟨clientAp, hca⟩ := Rfc.apTraffic_total hp a.psk ecdhe.val "c ap traffic" messages
  obtain ⟨serverAp, hsa⟩ := Rfc.apTraffic_total hp a.psk ecdhe.val "s ap traffic" messages
  refine ⟨⟨sh, s.encExts, mac, messages, clientHs, serverHs, clientAp, serverAp⟩, ?_, hsh, rfl, hc, hs, hmac, hmessages,
    hca, hsa⟩
  have hreply : s.reply p hello.ch (pskHello cfg hello.random32 hello.sid hello.cliPub.val a.identity hello.binder.val)
      0 = some ⟨sh, s.encExts, mac, messages, clientHs, serverHs, clientAp, serverAp⟩ := by
    have hsh' : s.hello (pskHello cfg hello.random32 hello.sid hello.cliPub.val a.identity hello.binder.val).sessionId
      share 0 = sh := hsh.symm
    simp only [Rfc.Server.reply, hpsk, pskHello_share, hexchange, Option.bind_eq_bind, Option.bind_some, hsh', hc, hs,
      hmac, ← hmessages, hca, hsa]
    rfl
  simp only [Rfc.Server.respond, hparse, pskHello_preShared, hpsk, hid, hkey, htrunc, hbinder, Option.bind_eq_bind,
    Option.bind_some, pskHello_offers, List.findIdx?_cons, decide_true, if_true, List.getElem?_cons_zero,
    and_self, hreply]

/-- **Agreement with an honest server.** When the transport delivers what the
server answers to the driver's ClientHello, the driver succeeds, the server
accepts its binder (it answers) and its Finished (the last record sent), and
the two hold the same application keys. -/
theorem wnConnectPskEx_agrees (hp : p.Total) (hopen : p.OpensSealed) (hargs : ¬ a.Rejected p) (hne : a.identity ≠ [])
    (hsize : pskHelloBase cfg + a.identity.length ≤ min a.io.scratchLen wnMaxPlaintext)
    (hdraws : PskDraws a random sid priv pub) {s : Rfc.Server cfg} (hpsk : s.psk = a.psk) (hid : s.identity = a.identity)
    {share : Block cfg.group.srvShareSz} {ecdhe : Block cfg.group.secretSz}
    (hexchange : s.exchange pub.val = some (share, ecdhe)) (hshared : p.keyShareShared priv share.val = .ok ecdhe) :
    ∃ ch reply, s.respond p ch = some reply ∧
      ∀ inbox sendRes sess, (∀ b ∈ sendRes, b = true) →
        Carries p inbox reply.sh reply.serverHs
          (Rfc.hsMsg wnHsEncryptedExt reply.ee ++ Rfc.hsMsg wnHsFinished reply.mac.val) →
        ∃ w' record, wnConnectPskEx p a (.fresh inbox sendRes sess) = .ok () w' ∧
          w'.sent = [[22, 3, 3] ++ be 2 ch.length, ch, [20, 3, 3, 0, 1], [1], record] ∧
          reply.Accepts p record ∧ w'.sess = .established a.io reply.clientAp reply.serverAp := by
  have hlen : a.identity.length ≤ 0xFFFF := by
    simp only [PskArgs.Rejected, not_or, Nat.not_lt] at hargs
    exact hargs.2.2.2.2.2
  obtain ⟨hello, hdraft⟩ := pskHelloDraft_of hp hdraws hlen (by omega)
  have hsent := pskHelloDraft_ok hlen hdraft
  obtain ⟨-, -, rfl, rfl⟩ := hsent.eq_draws hdraws
  obtain ⟨reply, hrespond, hsh, hee, hclient, hserver, hmac, hmessages, hcAp, hsAp⟩ :=
    Rfc.Server.respond_pskHello hp hsent hne (by omega) hpsk hid hexchange
  refine ⟨hello.ch, reply, hrespond, fun inbox sendRes sess hsend hcarries => ?_⟩
  obtain ⟨hfits, hsel⟩ := s.hello_selects hello.sid share (show 0 < 2 ^ 16 by decide)
  rw [← hsh] at hfits hsel
  -- The flight fits, so the EncryptedExtensions does.
  have hroom : reply.ee.length ≤ wnPlainSz := by
    obtain ⟨-, _, _, rs, fs, _, hsealed, hcontents, -⟩ := hcarries
    have := hsealed.length_le wnPlainSz (fun {acc content pad} (h : pskFits acc content pad) => by
      simp only [pskFits] at h; omega) (by decide)
    rw [hcontents, List.length_append, hsMsg_length] at this
    omega
  rw [hee] at hroom
  have hencExts := hee ▸ s.encExts_accepted hroom
  obtain ⟨keys, flight, th, fin, inbox', hrun, hhs, hckeys, hth, hfin⟩ :=
    pskHandshake_of hp hopen hargs hdraft hfits hsel hshared hserver hencExts hmac
      (w := .fresh inbox sendRes sess) hcarries hsend
  rw [← hmessages] at hth hfin
  rw [hclient, Option.some.injEq] at hckeys
  obtain ⟨record, hseal, hfinished⟩ := sendFinished_of hp fin a.junk a.io
    (w := { inbox := inbox', sendRes := sendRes.drop 4, trace := [] ++ helloSends hello.ch, sess := .zero })
    (fun b hb => hsend b (List.mem_of_mem_drop hb)) hsent.emptyHash hhs hth hcAp hsAp
  have hconnect := (congrFun (wnConnectPskEx_eq a) (.fresh inbox sendRes sess)).trans
    ((bind_of_ok hrun).trans (bind_of_ok hfinished))
  refine ⟨_, record, hconnect, ?_, ⟨fin, by rw [hckeys]; exact hfin, ?_⟩, rfl⟩
  · simp [World.sent, helloSends, plainSends, Event.sent, be, wnRecHandshake, wnRecChangeCipher]
    rfl
  · rw [finishedMsg_eq] at hseal
    rw [hckeys]
    exact Rfc.openRecord_sealRecord p hopen (by decide) hseal

/-- A server with the PSK `[1]` for the identity `[105]`, and no groups to list. -/
def Rfc.Server.clear : Rfc.Server .small where
  psk := [1]
  identity := [105]
  random := Block.zero 32
  random_ne := by decide
  exchange _ := some (Block.zero _, Block.zero _)
  arrange l := l
  arrange_perm _ := .refl _
  groups := none
  groups_fit := by simp

theorem wnConnectPskEx_agrees_clear : ∃ ch reply, Rfc.Server.clear.respond (Provider.clear .small) ch = some reply ∧
    ∀ inbox sendRes sess, (∀ b ∈ sendRes, b = true) →
      Carries (Provider.clear .small) inbox reply.sh reply.serverHs
        (Rfc.hsMsg wnHsEncryptedExt reply.ee ++ Rfc.hsMsg wnHsFinished reply.mac.val) →
      ∃ w' record, wnConnectPskEx (Provider.clear .small) (.clear [105] 2048) (.fresh inbox sendRes sess) = .ok () w' ∧
        w'.sent = [[22, 3, 3] ++ be 2 ch.length, ch, [20, 3, 3, 0, 1], [1], record] ∧
        reply.Accepts (Provider.clear .small) record ∧
        w'.sess = .established (.sized 2048) reply.clientAp reply.serverAp :=
  @wnConnectPskEx_agrees _ _ (.clear [105] 2048) (Block.zero 32) (Block.zero 32) () (Block.zero _)
    (Provider.clear_total _) (Provider.clear_opensSealed _) (by decide) (by decide) (by decide)
    ⟨(), (), rfl, rfl, rfl⟩ .clear rfl rfl (Block.zero _) (Block.zero _) rfl rfl

end WolfNano

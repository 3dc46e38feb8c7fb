/-
A whole connection with an honest server: `conversation`.

A client with either driver and a server of its kind, from the first
ClientHello. The server may already have sealed data behind its Finished when
the driver runs; that is in flight when the driver returns, and nothing of it
is lost.
-/
import WolfNano.CertAgreement
import WolfNano.OrderlyClose

namespace WolfNano

open Prog Wire Reassembly

variable {cfg : Config} {p : Provider cfg} {c : CertProvider}

/-! ## What the transport delivers -/

theorem Sealed.mono {t : TrafficKeys} {fits fits' : Nat → Nat → Nat → Prop}
    (hfits : ∀ {acc content pad}, fits acc content pad → fits' acc content pad) {n acc : Nat} {rs fs : List Bytes}
    (h : Sealed p t fits n acc rs fs) : Sealed p t fits' n acc rs fs := by
  induction h with
  | nil => exact .nil
  | ccs v _ ih => exact .ccs v ih
  | record hseal hf _ ih => exact .record hseal (hfits hf) ih

/-- Records that fit in `cap` bytes of content, and one more. -/
theorem Sealed.last_le {t : TrafficKeys} {fits : Nat → Nat → Nat → Prop} (cap : Nat)
    (hfits : ∀ {acc content pad}, fits acc content pad → acc + content ≤ cap) {rs fs : List Bytes} {r f : Bytes}
    (h : Sealed p t fits 0 0 rs fs) (hlast : Sealed p t fits fs.length fs.flatten.length [r] [f]) :
    (fs.flatten ++ f).length ≤ cap := by
  have hfirst := h.length_le cap hfits (Nat.zero_le cap)
  have hall := hlast.length_le cap hfits (by omega)
  simpa using hall

/-- A stream that carries a server's answer in records that fit, the last of
which ends its flight, and then the records `early`. -/
structure DeliversAnswer (p : Provider cfg) (fits : (acc content pad : Nat) → Prop) (inbox : List Bytes) (ans : Rfc.Answer)
    (early : List Rfc.Sent) : Prop where
  flowing : [] ∉ inbox
  stream : ∃ (ccs : List (UInt8 × UInt8)) (v : UInt8 × UInt8) (rs fs : List Bytes) (r f : Bytes),
    Sealed p ans.serverHs fits 0 0 rs fs ∧ Sealed p ans.serverHs fits fs.length fs.flatten.length [r] [f] ∧ f ≠ [] ∧
      fs.flatten ++ f = ans.flight ∧ inbox.flatten = ccs.flatMap ccsRecord ++
        (wireRecord wnRecHandshake v.1 v.2 ans.sh.encode ++ (rs.flatten ++ (r ++ (early.map (·.record)).flatten)))

/-! ## The two flights, read to their end -/

theorem pskFits_le {acc content pad : Nat} (h : pskFits acc content pad) : acc + content ≤ wnPlainSz := by
  unfold pskFits at h
  omega

section Flight

variable (hp : p.Total) (hopen : p.OpensSealed) {keys : HsKeys} {tc : Transcript} {rs fs : List Bytes} {r f rest : Bytes}
  (hne : f ≠ []) {u : World} (hu : u.Flowing) (hflat : u.inbox.flatten = rs.flatten ++ (r ++ rest))
include hp hopen hne hu hflat

theorem pskFlight_last {cap : Nat} (hcap : 2048 ≤ cap) {ee : Bytes} (hee : wnCheckEncExt ee false = .ok ())
    {mac : Block 32} (hmac : Rfc.finished p keys.sHs (tc ++ Rfc.hsMsg wnHsEncryptedExt ee) = some mac)
    (hsealed : Sealed p ⟨keys.sHs, keys.sKey, keys.sIv⟩ pskFits 0 0 rs fs)
    (hlast : Sealed p ⟨keys.sHs, keys.sKey, keys.sIv⟩ pskFits fs.length fs.flatten.length [r] [f])
    (hcontents : fs.flatten ++ f = Rfc.hsMsg wnHsEncryptedExt ee ++ Rfc.hsMsg wnHsFinished mac.val) :
    ∃ st inbox, ([] ∉ inbox ∧ inbox.flatten = rest) ∧
      st.tc = tc ++ Rfc.hsMsg wnHsEncryptedExt ee ++ Rfc.hsMsg wnHsFinished mac.val ∧
      pskFlight p cap keys tc u = .ok st { u with inbox } := by
  have hlen := hsealed.last_le wnPlainSz pskFits_le hlast
  rw [hcontents, List.length_append, hsMsg_length, hsMsg_length, Block.length] at hlen
  obtain ⟨s, off, hscan, hdone, htc⟩ := pskFlight_scan hp hee hmac (by omega)
  obtain ⟨ms, hms, hreads⟩ := Framing.scanAll_reads hscan
  obtain ⟨_, _, rfl, -, -, htc'⟩ := pskReads_done hreads hdone
  rw [htc, List.append_assoc, List.append_assoc, List.append_cancel_left_eq] at htc'
  obtain ⟨st, inbox, hst, hin, hrest, hrun⟩ := FlightLoop.repeat_last (L := pskLoop p cap keys tc)
    (by show 6 ≤ cap; omega) rfl (hsealed.pskFlight hopen (hp.aesGcmSetKey _) hcap)
    (hlast.pskFlight hopen (hp.aesGcmSetKey _) hcap) hne hu hflat hreads (by rw [hcontents, htc']; simp) hdone
  rw [← pskFlight_eq] at hrun
  exact ⟨st, inbox, ⟨hin, hrest⟩, by rw [← htc, ← hst]; rfl, hrun⟩

theorem certFlight_last {a : CertArgs p c} {cap : Nat} (hcap : 6 ≤ cap) {m : CertMessages}
    (hauth : m.Authentic a keys.sHs tc) (hscheme : m.scheme < 2 ^ 16) (hsize : m.list.flatten.length ≤ wnHsAccSz cfg)
    (hsealed : Sealed p ⟨keys.sHs, keys.sKey, keys.sIv⟩ (certFits cap) 0 0 rs fs)
    (hlast : Sealed p ⟨keys.sHs, keys.sKey, keys.sIv⟩ (certFits cap) fs.length fs.flatten.length [r] [f])
    (hcontents : fs.flatten ++ f = m.list.flatten) :
    ∃ st inbox, ([] ∉ inbox ∧ inbox.flatten = rest) ∧ st.tc = tc ++ m.list.flatten ∧
      certFlight p c a cap keys tc u = .ok st { u with inbox } := by
  have hlen := congrArg List.length hcontents
  rw [List.length_append] at hlen
  obtain ⟨hee, hcert, hsig⟩ := m.lengths hsize
  obtain ⟨s, off, hscan, hdone, htc⟩ := certFlight_scan hp hauth hee hcert hscheme hsig
  obtain ⟨ms, hms, hreads⟩ := Framing.scanAll_reads hscan
  obtain ⟨m', rfl, -, htc'⟩ := certReads_done hreads hdone
  rw [htc, List.append_cancel_left_eq] at htc'
  obtain ⟨st, inbox, hst, hin, hrest, hrun⟩ := FlightLoop.repeat_last (L := certLoop a cap keys tc) hcap rfl
    (hsealed.certFlight hopen (hp.aesGcmSetKey _) (by omega))
    (hlast.certFlight hopen (hp.aesGcmSetKey _) (by
      simp only [List.flatten_cons, List.flatten_nil, List.append_nil]
      omega)) hne hu hflat hreads (by rw [hcontents, htc']) hdone
  rw [← certFlight_eq] at hrun
  exact ⟨st, inbox, ⟨hin, hrest⟩, by rw [← htc, ← hst]; rfl, hrun⟩

end Flight

/-! ## A client and its server -/

def Connect.io : Connect p c → Transport
  | .psk a => a.io
  | .cert a => a.io

/-- The records of a flight that the driver has room for. -/
def Connect.fits : Connect p c → (acc content pad : Nat) → Prop
  | .psk _, acc, content, pad => pskFits acc content pad
  | .cert a, acc, content, pad => certFits (certIoCap cfg a.io) acc content pad ∧ acc + content ≤ wnHsAccSz cfg

/-- A driver's arguments and a server that take each other: they have a PSK in
common, or the caller accepts the server's certificate; and they have an
exchange. -/
inductive Suits : Connect p c → Rfc.Party cfg → Prop
  | psk {a : PskArgs p} {s : Rfc.Server cfg} {random sid : Block 32} {priv : p.Priv} {pub : Block cfg.group.pubSz}
      {share : Block cfg.group.srvShareSz} {ecdhe : Block cfg.group.secretSz} (hargs : ¬ a.Rejected p)
      (hne : a.identity ≠ []) (hsize : pskHelloBase cfg + a.identity.length ≤ min a.io.scratchLen wnMaxPlaintext)
      (hdraws : PskDraws a random sid priv pub) (hpsk : s.psk = a.psk) (hid : s.identity = a.identity)
      (hexchange : s.exchange pub.val = some (share, ecdhe)) (hshared : p.keyShareShared priv share.val = .ok ecdhe) :
      Suits (.psk a) (.psk s)
  | cert {a : CertArgs p c} {s : Rfc.CertServer cfg} {random sid : Block 32} {priv : p.Priv}
      {pub : Block cfg.group.pubSz} {leafSpki : Bytes} {share : Block cfg.group.srvShareSz}
      {ecdhe : Block cfg.group.secretSz} (hargs : ¬ a.Rejected p c) (hname : (a.serverName.getD []).length ≤ 255)
      (hdraws : CertDraws a random sid priv pub) (hscheme : s.scheme ∈ certSigAlgs cfg) (hproves : s.Proves a leafSpki)
      (hexchange : s.exchange pub.val = some (share, ecdhe)) (hshared : p.keyShareShared priv share.val = .ok ecdhe) :
      Suits (.cert a) (.cert s)

theorem Suits.ioSend {conn : Connect p c} {party : Rfc.Party cfg} (h : Suits conn party) : conn.io.ioSend ≠ 0 := by
  cases h with
  | psk hargs =>
    simp only [PskArgs.Rejected, not_or] at hargs
    exact hargs.1
  | cert hargs =>
    simp only [CertArgs.Rejected, not_or] at hargs
    exact hargs.1

/-- The driver connects, and leaves unread what the server sent after its
flight. -/
structure Connects (p : Provider cfg) (io : Transport) (x : Io Unit) (ch : Bytes) (ans : Rfc.Answer)
    (early : List Rfc.Sent) (w₀ : World) (w : World) (record : Bytes) : Prop where
  ok : x w₀ = .ok () w
  sent : w.sent = [[22, 3, 3] ++ be 2 ch.length, ch, [20, 3, 3, 0, 1], [1], record]
  accepts : ans.Accepts p record
  sess : w.sess = .established io ans.clientAp ans.serverAp
  flowing : [] ∉ w.inbox
  early : w.inbox.flatten = (early.map (·.record)).flatten
  sending : w.Sending

/-- From its Finished on. -/
theorem Connects.of_finished {io : Transport} {x : Io Unit} {ch extra : Bytes} {ans : Rfc.Answer} {early : List Rfc.Sent}
    {inbox : List Bytes} {sendRes : List Bool} {w₀ w w' : World} {record : Bytes}
    (hok : x w₀ = .ok () { w' with trace := w'.trace ++ [.readKeys extra] })
    (hw : w = { inbox, sendRes, trace := [] ++ helloSends ch, sess := .zero }) (hsending : w.Sending)
    (haccepts : ans.Accepts p record) (hsent : w'.sent = w.sent ++ [record]) (hinbox : w'.inbox = w.inbox)
    (hsends : w'.sendRes = w.sendRes.tail) (hsess : w'.sess = .established io ans.clientAp ans.serverAp)
    (hin : [] ∉ inbox) (hrest : inbox.flatten = (early.map (·.record)).flatten) :
    ∃ w record, Connects p io x ch ans early w₀ w record := by
  have hinbox : w'.inbox = inbox := by rw [hinbox, hw]
  refine ⟨_, record, hok, ?_, haccepts, hsess, by rw [← hinbox] at hin; exact hin, by rw [← hrest, ← hinbox], ?_⟩
  · show (w'.trace ++ [_]).filterMap Event.sent = _
    rw [List.filterMap_append, show w'.trace.filterMap Event.sent = w'.sent from rfl, hsent, hw]
    simp [World.sent, helloSends_sent, Event.sent]
  · intro b hb
    exact hsending b (List.mem_of_mem_tail (hsends ▸ hb))

section Connect

variable (hp : p.Total) (hopen : p.OpensSealed)
include hp hopen

/-- **A driver connects to a server that suits it.** -/
theorem Suits.connects {conn : Connect p c} {party : Rfc.Party cfg} (h : Suits conn party) :
    ∃ ch ans, party.respond p ch = some ans ∧ ∀ inbox sendRes sess early, (∀ b ∈ sendRes, b = true) →
      DeliversAnswer p conn.fits inbox ans early →
      ∃ w record, Connects p conn.io (conn.run p) ch ans early (.fresh inbox sendRes sess) w record := by
  cases h with
  | @psk a s _ _ _ _ share ecdhe hargs hne hsize hdraws hpsk hid hexchange hshared =>
    have hlen : a.identity.length ≤ 0xFFFF ∧ 2048 ≤ a.io.scratchLen := by
      simp only [PskArgs.Rejected, not_or, Nat.not_lt] at hargs
      exact ⟨hargs.2.2.2.2.2, hargs.2.2.2.2.1⟩
    obtain ⟨hello, hdraft⟩ := pskHelloDraft_of hp hdraws hlen.1 (by omega)
    have hsent := pskHelloDraft_ok hlen.1 hdraft
    obtain ⟨-, -, rfl, rfl⟩ := hsent.eq_draws hdraws
    obtain ⟨reply, hrespond, hsh, hee, hclient, hserver, hmac, hmessages, hcAp, hsAp⟩ :=
      Rfc.Server.respond_pskHello hp hsent hne (by omega) hpsk hid hexchange
    refine ⟨hello.ch, reply.answer, by rw [Rfc.Party.respond, hrespond]; rfl, ?_⟩
    intro inbox sendRes sess early hsend hdelivers
    obtain ⟨hin, ccs, v, rs, fs, r, f, hsealed, hlast, hf, hcontents, hflat⟩ := hdelivers
    obtain ⟨hfits, hsel⟩ := s.hello_selects hello.sid share (show 0 < 2 ^ 16 by decide)
    rw [← hsh] at hfits hsel
    have hroom : reply.ee.length ≤ wnPlainSz := by
      have hlen := hsealed.last_le wnPlainSz pskFits_le hlast
      rw [hcontents, Rfc.Reply.answer, List.length_append, hsMsg_length] at hlen
      omega
    rw [hee] at hroom
    have hencExts := hee ▸ s.encExts_accepted hroom
    obtain ⟨keys, flight, th, fin, inbox', ⟨hin', hrest⟩, hrun, hhs, hckeys, hth, hfin⟩ :=
      pskHandshake_from hp hargs hdraft hfits hsel hshared hserver reply.messages
        (fun inbox' => [] ∉ inbox' ∧ inbox'.flatten = (early.map (·.record)).flatten)
        (w := .fresh inbox sendRes sess) hin hflat hsend fun keys u hkeys hu hrest => by
          rw [hmessages]
          exact pskFlight_last hp hopen hf hu hrest hlen.2 hencExts (by rw [← hmac, ← hkeys])
            (by rw [hkeys]; exact hsealed) (by rw [hkeys]; exact hlast) hcontents
    rw [hclient, Option.some.injEq] at hckeys
    obtain ⟨record, w', hfinished, haccepts, hsent', hinbox, hsends, hsess⟩ := Rfc.Answer.finished_of hp hopen
      reply.answer a.junk a.io
      (w := { inbox := inbox', sendRes := sendRes.drop 4, trace := [] ++ helloSends hello.ch, sess := .zero })
      (fun b hb => hsend b (List.mem_of_mem_drop hb)) hsent.emptyHash hhs hckeys hth hfin hcAp hsAp
    have hconnect := (congrFun (wnConnectPskEx_eq a) (.fresh inbox sendRes sess)).trans
      ((bind_of_ok hrun).trans (bind_of_ok hfinished))
    exact Connects.of_finished hconnect rfl (fun b hb => hsend b (List.mem_of_mem_drop hb)) haccepts hsent' hinbox hsends hsess
      hin' hrest
  | @cert a s random sid priv pub leafSpki share ecdhe hargs hname hdraws hscheme hproves hexchange hshared =>
    have hcap : 4096 ≤ certIoCap cfg a.io := certIoCap_ge (by
      simp only [CertArgs.Rejected, not_or, Nat.not_lt] at hargs
      exact hargs.2.2.2)
    obtain ⟨ch, hch⟩ : ∃ ch, ch = (certHello cfg random sid.val pub.val (a.serverName.getD [])).encode := ⟨_, rfl⟩
    obtain ⟨ans, hrespond, hsh, hclient, hserver, hmessages, hcAp, hsAp, hflight⟩ :=
      Rfc.CertServer.respond_certHello hp hproves hscheme hname hch hexchange
    refine ⟨ch, ans, hrespond, fun inbox sendRes sess early hsend hdelivers => ?_⟩
    obtain ⟨hin, ccs, v, rs, fs, r, f, hsealed, hlast, hf, hcontents, hflat⟩ := hdelivers
    obtain ⟨hfits, hsel⟩ := s.hello_selects sid share
    rw [← hsh] at hfits hsel
    have hsize := hsealed.last_le (wnHsAccSz cfg) (fun h => h.2) hlast
    rw [hcontents] at hsize
    obtain ⟨m, hlist, hm, hauth⟩ := hflight hsize
    obtain ⟨hello, keys, flight, th, fin, inbox', ⟨hin', hrest⟩, hrun, hempty, hhs, hckeys, hth, hfin⟩ :=
      certHandshake_from hp hargs hname hdraws hfits hsel hshared hch hserver ans.messages
        (fun inbox' => [] ∉ inbox' ∧ inbox'.flatten = (early.map (·.record)).flatten)
        (w := .fresh inbox sendRes sess) hin hflat hsend fun keys u hkeys hu hrest => by
          rw [hmessages, ← hlist]
          exact certFlight_last hp hopen hf hu hrest (by omega) (by rw [← hkeys] at hauth; exact hauth) hm
            (by rw [hlist]; exact hsize) (by rw [hkeys]; exact hsealed.mono fun h => h.1)
            (by rw [hkeys]; exact hlast.mono fun h => h.1) (by rw [hlist, hcontents])
    rw [hclient, Option.some.injEq] at hckeys
    obtain ⟨record, w', hfinished, haccepts, hsent, hinbox, hsends, hsess⟩ := Rfc.Answer.finished_of hp hopen ans a.junk a.io
      (w := { inbox := inbox', sendRes := sendRes.drop 4, trace := [] ++ helloSends ch, sess := .zero })
      (fun b hb => hsend b (List.mem_of_mem_drop hb)) hempty hhs hckeys hth hfin hcAp hsAp
    have hconnect := (congrFun (wnConnectCertImpl_eq a) (.fresh inbox sendRes sess)).trans
      ((bind_of_ok hrun).trans (bind_of_ok (alerting_of hfinished)))
    exact Connects.of_finished hconnect rfl (fun b hb => hsend b (List.mem_of_mem_drop hb)) haccepts hsent hinbox hsends hsess
      hin' hrest

end Connect

/-! ## The whole connection -/

/-- The client in this world, and a peer with the same secrets that has sealed
`early` and stands at `half`. -/
def System.resume (w : World) (client : TrafficKeys) (early : List Rfc.Sent) (half : Rfc.Half) : System where
  client := w
  peerWrite := half
  peerRead := ⟨client, 0⟩
  peerSealed := early
  peerTaken := w.sent.length
  peerGot := []
  clientGave := []
  clientGot := []

theorem Synchronised.resume {io : Transport} {client server : TrafficKeys} (hroom : recordRoom ≤ io.scratchLen)
    {w : World} (hw : w.sess = .established io client server) (hin : [] ∉ w.inbox) (hsend : w.Sending)
    {early : List Rfc.Sent} {half : Rfc.Half} (hearly : w.inbox.flatten = (early.map (·.record)).flatten)
    (hseals : Rfc.Seals p ⟨server, 0⟩ early half) (hwithin : ∀ i ∈ early, i.Within) :
    Synchronised p client server w.sent (.resume w client early half) [] early [] [] := by
  have hstart : Synchronised p client server w.sent (.start { w with inbox := [] } client server) [] [] [] [] :=
    .start (w := { w with inbox := [] }) hroom hw rfl hsend
  refine { hstart with
    peerSealed := rfl
    channel := hearly
    inbound := ?_
    within := hwithin
    ready := { hstart.ready with flowing := hin } }
  have hread : w.readHalf = ⟨server, 0⟩ := by
    rw [World.readHalf, hw]
    rfl
  show Rfc.Seals p w.readHalf early half
  rw [hread]
  exact hseals

/-- **A whole connection.** Over a transport that delivers what a server that
suits the driver answers, and what it seals behind its Finished before it has
the client's: the driver succeeds, the server accepts its Finished, and after
any run of the two that follows, what was given in either direction is what was
got and what is in flight, and either side may close with nothing lost. -/
theorem conversation (hp : p.Total) (hopens : p.OpensSealed) {conn : Connect p c} {party : Rfc.Party cfg}
    (hsuits : Suits conn party) (hroom : recordRoom ≤ conn.io.scratchLen) :
    ∃ ch ans, party.respond p ch = some ans ∧ ∀ inbox sendRes sess early half, (∀ b ∈ sendRes, b = true) →
      DeliversAnswer p conn.fits inbox ans early → Rfc.Seals p ⟨ans.serverAp, 0⟩ early half → (∀ i ∈ early, i.Within) →
      ∃ w record, Connects p conn.io (conn.run p) ch ans early (.fresh inbox sendRes sess) w record ∧
        ∀ acts s, Run (System.Step p) (.resume w ans.clientAp early half) acts s →
          (∃ got toClient taken toPeer,
            Synchronised p ans.clientAp ans.serverAp w.sent s got toClient taken toPeer) ∧ s.Closes p := by
  obtain ⟨ch, ans, hrespond, hconnects⟩ := hsuits.connects hp hopens
  refine ⟨ch, ans, hrespond, fun inbox sendRes sess early half hsend hdelivers hseals hwithin => ?_⟩
  obtain ⟨w, record, h⟩ := hconnects inbox sendRes sess early hsend hdelivers
  refine ⟨w, record, h, fun acts s hrun => ?_⟩
  have hsync := Synchronised.resume hroom h.sess h.flowing h.sending h.early hseals hwithin
  have hptr : (System.resume w ans.clientAp early half).client.sess.ioSend ≠ 0 := by
    rw [System.resume, h.sess]
    exact hsuits.ioSend
  exact ⟨Synchronised.run hp hopens hrun ⟨_, _, _, _, hsync⟩, hsync.run_closes hp hopens hptr hrun⟩

/-- A PSK server's flight is its EncryptedExtensions and its Finished. -/
theorem Rfc.Server.flight_length {s : Rfc.Server cfg} {msg : Bytes} {ans : Rfc.Answer}
    (h : (Rfc.Party.psk s).respond p msg = some ans) : ans.flight.length = 40 + s.encExts.length := by
  rw [Rfc.Party.respond, Option.map_eq_some_iff] at h
  obtain ⟨reply, hreply, rfl⟩ := h
  simp only [Rfc.Server.respond, Option.bind_eq_bind, Option.bind_eq_some_iff, Option.ite_none_right_eq_some] at hreply
  obtain ⟨_, -, _, -, _, -, _, -, _, -, _, -, -, hreply⟩ := hreply
  simp only [Rfc.Server.reply, Option.bind_eq_bind, Option.bind_eq_some_iff] at hreply
  obtain ⟨_, -, _, -, _, -, _, -, mac, -, _, -, _, -, hreply⟩ := hreply
  cases hreply
  simp [Rfc.Reply.answer]
  omega

/-- The server of `Rfc.Server.clear` answers in one record and sends `[8]` with
it; the client reads that, and either may close. -/
theorem conversation_clear : ∃ ch ans early half inbox w record,
    (Rfc.Party.psk .clear).respond (Provider.clear .small) ch = some ans ∧
      Connects (Provider.clear .small) (.sized 32768) (wnConnectPskEx (Provider.clear .small) (.clear [105] 32768)) ch ans
        early (.fresh inbox [] .zero) w record ∧
      ∃ s, Run (System.Step (Provider.clear .small)) (.resume w ans.clientAp early half) [.recv wnMaxPlaintext] s ∧
        s.Closes (Provider.clear .small) := by
  obtain ⟨ch, ans, hrespond, h⟩ := @conversation .small (Provider.clear .small) .trusting (Provider.clear_total .small)
    (Provider.clear_opensSealed .small) (.psk (.clear [105] 32768)) (.psk .clear)
    (@Suits.psk .small (Provider.clear .small) .trusting (.clear [105] 32768) .clear (Block.zero 32) (Block.zero 32) ()
      (Block.zero _) (Block.zero _) (Block.zero _) (by decide) (by decide) (by decide) ⟨(), (), rfl, rfl, rfl⟩ rfl rfl rfl
      rfl) (by decide)
  have hlen : ans.flight.length = 42 := Rfc.Server.flight_length hrespond
  have hne : ans.flight ≠ [] := List.ne_nil_of_length_pos (by omega)
  have hdata : Rfc.SealStep (Provider.clear .small) ⟨ans.serverAp, 0⟩ ⟨.data [8], 0, clearRecord 23 [8]⟩ ⟨ans.serverAp, 1⟩ :=
    ⟨trivial, clearRecord_seal .small ans.serverAp 0 23 [8], rfl⟩
  obtain ⟨w, record, hconnects, hruns⟩ := h [wireRecord wnRecHandshake 3 3 ans.sh.encode ++ (clearRecord 22 ans.flight ++
      clearRecord 23 [8])] [] .zero [⟨.data [8], 0, clearRecord 23 [8]⟩] ⟨ans.serverAp, 1⟩ (by simp)
    ⟨by simp [wireRecord], [], (3, 3), [], [], clearRecord 22 ans.flight, ans.flight, .nil,
      .record (clearRecord_seal .small ans.serverHs 0 22 ans.flight)
        (show pskFits 0 ans.flight.length 0 by simp only [pskFits, hlen]; decide) .nil, hne, rfl, by simp⟩
    (.single hdata) (by simp [Rfc.Sent.Within, Rfc.Carried.content])
  have hrun := Run.single (System.Step.recv (p := Provider.clear .small)
    (s := .resume w ans.clientAp [⟨.data [8], 0, clearRecord 23 [8]⟩] ⟨ans.serverAp, 1⟩) (Nat.le_refl wnMaxPlaintext))
  exact ⟨ch, ans, _, _, _, w, record, hrespond, hconnects, _, hrun, (hruns _ _ hrun).2⟩

end WolfNano

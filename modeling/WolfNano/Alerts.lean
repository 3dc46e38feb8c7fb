/-
How a certificate handshake ends, as the server sees it: `handshake_told`.

From its ServerHello on, the server has the client's handshake keys. Whatever
the network makes of the bytes after that, the server is sent one record it can
open: the client's Finished, or with `WOLFNANO_SEND_ALERTS` a fatal alert for
the client's error. Without, a failure says nothing.
-/
import WolfNano.CertAgreement
import WolfNano.Client

namespace WolfNano

open Prog Wire

variable {cfg : Config} {p : Provider cfg} {c : CertProvider} {a : CertArgs p c}

/-- What `wn_SendAlert` does when `ioSend` takes the record. -/
theorem wnSendAlert_of (hp : p.Total) (keys : HsKeys) (seq : UInt64) (e : Err) {w : World} (hw : w.Sending) :
    ∃ record, Rfc.sealRecord p ⟨keys.cHs, keys.cKey, keys.cIv⟩ seq.toNat wnRecAlert [2, wnErrToAlert e] 0 = some record ∧
      wnSendAlert p keys seq e w = .ok () { w with
        sendRes := w.sendRes.tail
        trace := w.trace ++ [.protect keys.cKey (wnBuildNonce keys.cIv seq) wnRecAlert [2, wnErrToAlert e] true,
          .send record true] } := by
  obtain ⟨record, hrec, hseal⟩ := protectRecord_total hp ⟨keys.cHs, keys.cKey, keys.cIv⟩ seq wnRecAlert
    (show [2, wnErrToAlert e].length ≤ _ by simp [wnMaxPlaintext])
  refine ⟨record, hseal, ?_⟩
  have hw' : ∀ tr, World.Sending { w with trace := tr } := fun _ => hw
  rw [wnSendAlert, tryCatch_of_ok ((bind_of_ok (wnRecordProtect_of hrec)).trans (bind_of_ok (ioSend_of (hw' _))))]
  simp

/-- A failure passed on, and what it sends. -/
theorem alerting_fails (hp : p.Total) (seq : UInt64) {α : Type} {keys : HsKeys} {x : Io α} {e : Err} {w w₁ : World}
    (hx : x w = .error e w₁) (hw : w₁.Sending) :
    ∃ w' told, alerting p keys seq x w = .error e w' ∧ w'.sess = w₁.sess ∧ w'.sent = w₁.sent ++ told ∧
      if cfg.sendAlerts then ∃ record, told = [record] ∧
        Rfc.sealRecord p ⟨keys.cHs, keys.cKey, keys.cIv⟩ seq.toNat wnRecAlert [2, wnErrToAlert e] 0 = some record
      else told = [] := by
  unfold alerting
  by_cases hsends : cfg.sendAlerts = true
  · obtain ⟨record, hseal, hrun⟩ := wnSendAlert_of hp keys seq e hw
    rw [if_pos hsends, tryCatch_of_error hx, bind_of_ok hrun]
    refine ⟨_, [record], rfl, rfl, ?_, by rw [if_pos hsends]; exact ⟨record, rfl, hseal⟩⟩
    simp only [World.sent, List.filterMap_append]
    rfl
  · rw [if_neg hsends]
    exact ⟨w₁, [], hx, rfl, (List.append_nil _).symm, by rw [if_neg hsends]⟩

/-! ## The server -/

/-- What the server has heard, when the driver returned this: the records after
the ClientHello's, and how they open under the client's handshake keys. -/
def Rfc.Answer.Told (p : Provider cfg) (ans : Rfc.Answer) (records : List Bytes) : Except Err Unit → Prop
  | .ok _ => ∃ (record : Bytes) (mac : Block 32), records = [record] ∧
      Rfc.openRecord p ans.clientHs 0 record = some (22, Rfc.hsMsg 20 mac.val)
  | .error e =>
    if cfg.sendAlerts then ∃ record, records = [record] ∧
      Rfc.openRecord p ans.clientHs 0 record = some (21, [2, wnErrToAlert e])
    else records = []

/-- What a server that answers the driver's ClientHello has drawn and derived. -/
theorem Rfc.CertServer.respond_keys {random sid : Block 32} {pub : Block cfg.group.pubSz} {s : Rfc.CertServer cfg}
    {name ch : Bytes} (hname : name.length ≤ 255) (hch : ch = (certHello cfg random sid.val pub.val name).encode)
    {reply : Rfc.Answer} (h : s.respond p ch = some reply) : ∃ share ecdhe, s.exchange pub.val = some (share, ecdhe) ∧
      reply.sh = s.hello sid.val share ∧
      hsTraffic p (Block.zero 32).val ecdhe.val "c hs traffic" (ch ++ reply.sh.encode) = some reply.clientHs ∧
      hsTraffic p (Block.zero 32).val ecdhe.val "s hs traffic" (ch ++ reply.sh.encode) = some reply.serverHs := by
  obtain ⟨ch', share, ecdhe, sig, mac, hr⟩ := answered h
  have hparse := ClientHello.parse_eq_some.2
    ⟨hch, certHello_fits random pub.length (by simp [sid.length]) hname⟩
  rw [hr.parse, Option.some.injEq] at hparse
  subst hparse
  obtain ⟨clientShare, hshare, hexchange⟩ := hr.exchange
  rw [certHello_share, Option.some.injEq] at hshare
  subst hshare
  exact ⟨share, ecdhe, hexchange, hr.sh, hr.clientHs, hr.serverHs⟩

/-! ## The outcome -/

theorem certFlightMac_hash {cap : Nat} {keys : HsKeys} {tc : Transcript} {flight : CertFlight} {th mac : Block 32}
    {w w' : World} (h : certFlightMac p c a cap keys tc w = .ok (flight, th, mac) w') : p.sha256 flight.tc = some th := by
  unfold certFlightMac at h
  obtain ⟨st, w₁, -, h⟩ := bind_ok.1 h
  obtain ⟨th', w₂, hth, h⟩ := bind_ok.1 h
  obtain ⟨mac', w₃, -, h⟩ := bind_ok.1 h
  cases h
  exact orCrypto_ok.1 (ofExcept_eq_ok.1 hth).1

/-- The driver on from its handshake keys: whatever its flight loop makes of
the transport, one record goes out that the server can open, or none. -/
theorem certKeys_told (hp : p.Total) (hopen : p.OpensSealed) {keys : HsKeys} {tc : Transcript} {hello : CertHello p}
    {psk ecdhe : Bytes} {ans : Rfc.Answer} (hkeys : ans.clientHs = ⟨keys.cHs, keys.cKey, keys.cIv⟩)
    (hempty : p.sha256 [] = some hello.emptyHash) (hhs : Rfc.handshakeSecret p psk ecdhe = some keys.hs) {w w₁ : World}
    (hrun : certKeys p c a w = .ok (hello, keys, tc) w₁) (hz : w₁.sess = .zero) (hw : w₁.Sending) :
    ∃ told, (endState (wnConnectCertImpl p c a w)).sent = w₁.sent ++ told ∧
      ans.Told p told (answer (wnConnectCertImpl p c a w)) ∧
      ((endState (wnConnectCertImpl p c a w)).sess.Established ↔ answer (wnConnectCertImpl p c a w) = .ok ()) := by
  have hread : Steps OnlyRead (certFlightMac p c a (certIoCap cfg a.io) keys tc) := certFlightMac_onlyRead a _ keys tc
  cases hx : certFlightMac p c a (certIoCap cfg a.io) keys tc w₁ with
  | ok x w₂ =>
    obtain ⟨flight, th, mac⟩ := x
    have hframe := (hread.ok hx).frame
    have hhandshake : certHandshake p c a w = .ok (hello, keys, flight, th, mac) w₂ := by
      rw [certHandshake_eq, bind_of_ok hrun]
      exact bind_of_ok (alerting_of hx)
    obtain ⟨client, hc⟩ := Rfc.apTraffic_total hp psk ecdhe "c ap traffic" flight.tc
    obtain ⟨server, hs⟩ := Rfc.apTraffic_total hp psk ecdhe "s ap traffic" flight.tc
    obtain ⟨record, hseal, hfinished⟩ := sendFinished_of hp mac a.junk a.io (w := w₂) (by rw [hframe]; exact hw) hempty hhs
      (certFlightMac_hash hx) hc hs
    have hconnect := (congrFun (wnConnectCertImpl_eq a) w).trans
      ((bind_of_ok hhandshake).trans (bind_of_ok (alerting_of hfinished)))
    rw [hconnect]
    refine ⟨[record], ?_, ⟨record, mac, rfl, ?_⟩, iff_of_true ?_ rfl⟩
    · show (w₂.trace ++ _ ++ [_]).filterMap Event.sent = _
      rw [hframe, List.filterMap_append, List.filterMap_append]
      exact List.append_nil _
    · rw [finishedMsg_eq] at hseal
      rw [hkeys]
      exact Rfc.openRecord_sealRecord p hopen (by decide) hseal
    · show wnSessEstablished &&& wnSessEstablished ≠ 0
      decide
  | error e w₂ =>
    have hframe := (hread.error hx).frame
    obtain ⟨w', told, halert, hsess, hsent, htold⟩ := alerting_fails hp 0 hx (by rw [hframe]; exact hw)
    have hhandshake : certHandshake p c a w = .error e w' := by
      rw [certHandshake_eq, bind_of_ok hrun]
      exact bind_of_error halert
    have hconnect := (congrFun (wnConnectCertImpl_eq a) w).trans (bind_of_error hhandshake)
    rw [hconnect]
    refine ⟨told, ?_, ?_, iff_of_false ?_ nofun⟩
    · rw [endState_error, hsent, hframe]
      rfl
    · show ans.Told p told (.error e)
      rw [Rfc.Answer.Told]
      by_cases hsends : cfg.sendAlerts = true
      · rw [if_pos hsends] at htold ⊢
        obtain ⟨record, htold, hseal⟩ := htold
        rw [hkeys]
        exact ⟨record, htold, Rfc.openRecord_sealRecord p hopen (by decide) hseal⟩
      · rw [if_neg hsends] at htold ⊢
        exact htold
    · rw [endState_error, hsess, hframe]
      show ¬ Session.Established w₁.sess
      rw [hz]
      decide

/-- **The server hears how the handshake ended.** When a server answers the
driver's ClientHello and its ServerHello comes through, then whatever comes
after it, the driver sends one record more, which the server opens under the
client's handshake keys: a Finished if the driver succeeds and has an
established session, and otherwise, in a build that sends alerts, a fatal alert
for the error it returns. -/
theorem handshake_told (hp : p.Total) (hopen : p.OpensSealed) (hargs : ¬ a.Rejected p c)
    (hname : (a.serverName.getD []).length ≤ 255) {random sid : Block 32} {priv : p.Priv} {pub : Block cfg.group.pubSz}
    (hdraws : CertDraws a random sid priv pub) {s : Rfc.CertServer cfg} {ch : Bytes}
    (hch : ch = (certHello cfg random sid.val pub.val (a.serverName.getD [])).encode) {reply : Rfc.Answer}
    (hrespond : s.respond p ch = some reply)
    (hshared : ∀ share ecdhe, s.exchange pub.val = some (share, ecdhe) → p.keyShareShared priv share.val = .ok ecdhe)
    {w : World} (hin : [] ∉ w.inbox) {ccs : List (UInt8 × UInt8)} {v : UInt8 × UInt8} {tail : Bytes}
    (hflat : w.inbox.flatten = ccs.flatMap ccsRecord ++ (wireRecord wnRecHandshake v.1 v.2 reply.sh.encode ++ tail))
    (hsend : w.Sending) :
    ∃ told, (endState (wnConnectCertImpl p c a w)).sent =
        w.sent ++ [[22, 3, 3] ++ be 2 ch.length, ch, [20, 3, 3, 0, 1], [1]] ++ told ∧
      reply.Told p told (answer (wnConnectCertImpl p c a w)) ∧
      ((endState (wnConnectCertImpl p c a w)).sess.Established ↔ answer (wnConnectCertImpl p c a w) = .ok ()) := by
  obtain ⟨share, ecdhe, hexchange, hsh, hclient, hserver⟩ := Rfc.CertServer.respond_keys hname hch hrespond
  obtain ⟨hfits, hsel⟩ := s.hello_selects sid share
  rw [← hsh] at hfits hsel
  obtain ⟨hello, keys, inbox, hrun, -, -, hempty, hhs, hckeys, -⟩ := certKeys_of hp hargs hname hdraws hfits hsel
    (hshared share ecdhe hexchange) hch hserver hin hflat hsend
  rw [hclient, Option.some.injEq] at hckeys
  obtain ⟨told, hsent, htold, hsess⟩ := certKeys_told hp hopen hckeys hempty hhs hrun rfl
    (fun b hb => hsend b (List.mem_of_mem_drop hb))
  refine ⟨told, ?_, htold, hsess⟩
  rw [hsent]
  simp only [World.sent, List.filterMap_append, helloSends_sent]

/-- The world of a transport that ends after the server's ServerHello. -/
def Rfc.Answer.helloOnly (ans : Rfc.Answer) : World := .fresh [wireRecord wnRecHandshake 3 3 ans.sh.encode] [] .zero

theorem handshake_told_clear : ∃ ch reply, Rfc.CertServer.clear.respond (Provider.clear .small) ch = some reply ∧
    ∃ told, (endState (wnConnectCertImpl (Provider.clear .small) .trusting .clear reply.helloOnly)).sent =
        reply.helloOnly.sent ++ [[22, 3, 3] ++ be 2 ch.length, ch, [20, 3, 3, 0, 1], [1]] ++ told ∧
      reply.Told (Provider.clear .small) told
        (answer (wnConnectCertImpl (Provider.clear .small) .trusting .clear reply.helloOnly)) ∧
      ((endState (wnConnectCertImpl (Provider.clear .small) .trusting .clear reply.helloOnly)).sess.Established ↔
        answer (wnConnectCertImpl (Provider.clear .small) .trusting .clear reply.helloOnly) = .ok ()) := by
  obtain ⟨ch, hch⟩ : ∃ ch, ch = (certHello .small (Block.zero 32) (Block.zero 32).val
    (Block.zero Config.small.group.pubSz).val []).encode := ⟨_, rfl⟩
  obtain ⟨reply, hrespond⟩ : ∃ reply, Rfc.CertServer.clear.respond (Provider.clear .small) ch = some reply := by
    rw [hch, ← Option.isSome_iff_exists]
    decide +kernel
  have hin : [] ∉ reply.helloOnly.inbox := by simp [Rfc.Answer.helloOnly, World.fresh, wireRecord]
  have hflat : reply.helloOnly.inbox.flatten =
      ([] : List (UInt8 × UInt8)).flatMap ccsRecord ++ (wireRecord wnRecHandshake 3 3 reply.sh.encode ++ []) := by
    simp [Rfc.Answer.helloOnly, World.fresh]
  have hsend : reply.helloOnly.Sending := fun _ hb => (List.not_mem_nil hb).elim
  have hshared : ∀ share ecdhe, Rfc.CertServer.clear.exchange (Block.zero Config.small.group.pubSz).val =
      some (share, ecdhe) → (Provider.clear .small).keyShareShared () share.val = .ok ecdhe := by
    intro share ecdhe h
    cases h
    rfl
  exact ⟨ch, reply, hrespond, @handshake_told _ _ _ .clear (Provider.clear_total _) (Provider.clear_opensSealed _)
    (by decide) (by decide) (Block.zero 32) (Block.zero 32) () (Block.zero _) ⟨(), (), rfl, rfl, rfl⟩ .clear ch hch reply
    hrespond hshared _ hin [] ⟨3, 3⟩ [] hflat hsend⟩

end WolfNano

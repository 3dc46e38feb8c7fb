/-
Closing a connection with an honest peer loses nothing: `orderly_close`.

After any run of the system, when the peer seals a close_notify, `wn_Recv`
calls return what is in flight and then `WOLFNANO_E_CLOSED`; and when the client
calls `wn_Close`, the peer opens what is in flight and then a close_notify.
-/
import WolfNano.Synchronisation
import WolfNano.Closure

namespace WolfNano

open Prog Wire

variable {cfg : Config} {p : Provider cfg}

/-! ## The peer closes -/

/-- The peer's close_notify, sealed where it stands, within the record limit. -/
structure Rfc.Alert.ClosesAt (p : Provider cfg) (a : Rfc.Alert) (s : Rfc.Half) : Prop where
  sealed : Rfc.sealRecord p s.keys s.seq.toNat 21 a.content a.pad = some a.record
  within : a.content.length + a.pad ≤ 2 ^ 14
  closes : a.Closes

theorem recvContent_close {outCap : Nat} {content : Bytes} (h : content.length ≥ 2 ∧ content.getD 1 0 = 0) (w : World) :
    recvContent p outCap wnRecAlert content w =
      .error .closed { w with sess := { w.sess with flags := w.sess.flags ||| wnSessClosed } } := by
  unfold recvContent
  rw [if_neg (by decide), if_neg (by decide), if_pos rfl, if_pos h]
  rfl

section Receive

variable (hp : p.Total) (hopens : p.OpensSealed)
include hp hopens

/-- A turn of `wn_Recv` that comes to it. -/
theorem recvStep_close {w : World} (hw : w.Ready) {a : Rfc.Alert} (ha : a.ClosesAt p w.readHalf)
    (hflat : w.inbox.flatten = a.record) (outCap : Nat) :
    ∃ w', recvStep p outCap () w = .error .closed w' ∧ w'.sess.Closed := by
  obtain ⟨hlen, -, hread⟩ := sealRecord_readsBack p ha.sealed (by have := ha.within; omega)
  have hroom : a.record.length ≤ w.sess.scratchLen := by
    have hroom : recordRoom = 5 + 2 ^ 14 + 1 + 16 := rfl
    have := hw.room
    have := ha.within
    omega
  obtain ⟨inbox, -, -, hrecv⟩ := hread w.sess.scratchLen w [] hroom hw.flowing (by rw [hflat, List.append_nil])
  have hopen := unprotect_sealRecord p hopens (hp.aesGcmSetKey _) (show (21 : UInt8) ≠ 0 by decide) ha.sealed
  have hstep : recvStep p outCap () w = .error .closed { w with
      inbox, sess := { w.sess with sSeq := w.sess.sSeq + 1, flags := w.sess.flags ||| wnSessClosed } } := by
    rw [recvStep_opened hrecv (by decide) hopen]
    exact recvContent_close ha.closes _
  exact ⟨_, hstep, Session.closed_or w.sess⟩

/-- One `wn_Recv` call with records in flight and the close_notify behind them:
it returns the first data there is, or says that the peer has closed. -/
theorem wnRecv_close {outCap : Nat} (hcap : wnMaxPlaintext ≤ outCap) {a : Rfc.Alert} {s : Rfc.Half}
    (ha : a.ClosesAt p s) {pending : List Rfc.Sent} {w : World} (hw : w.Ready)
    (hseals : Rfc.Seals p w.readHalf pending s) (hwithin : ∀ i ∈ pending, i.Within)
    (hflat : w.inbox.flatten = (pending.map (·.record)).flatten ++ a.record) :
    (∃ m got rest w', pending = got ++ rest ∧ Rfc.plaintexts got = [m] ∧ wnRecv p outCap w = .ok m w' ∧ w'.Ready ∧
      Rfc.Seals p w'.readHalf rest s ∧ w'.inbox.flatten = (rest.map (·.record)).flatten ++ a.record) ∨
    Rfc.plaintexts pending = [] ∧ ∃ w', wnRecv p outCap w = .error .closed w' ∧ w'.sess.Closed := by
  have hfuel : pending.length ≤ w.pending := by
    have := hseals.length_le hwithin
    rw [World.pending, hflat, List.length_append]
    omega
  obtain ⟨got, rest, gave, w', rfl, hmoves, -, hend⟩ :=
    recvLoop_ahead hp hopens hcap pending (w.pending + 1) w s hw hseals hwithin hflat (Nat.le_succ_of_le hfuel)
  have hloop : recvLoop p outCap w = _ := recvLoop_of hw.opened hw.established
  rw [← hloop] at hend
  obtain ⟨u, hfirst, hthen⟩ := hseals.split
  obtain rfl := hmoves.read.unique hfirst
  have hleft : w'.inbox.flatten = (rest.map (·.record)).flatten ++ a.record := by
    have hinbox := hmoves.inbox
    rw [hflat, List.map_append, List.flatten_append, List.append_assoc, List.append_cancel_left_eq] at hinbox
    exact hinbox.symm
  rcases hend with ⟨m, hm, hr⟩ | ⟨hm, rfl, hr⟩
  · refine .inl ⟨m, got, rest, w', rfl, hm, ?_, hmoves.ready, hthen, hleft⟩
    unfold wnRecv
    rw [bind_of_ok hr]
    rfl
  · cases hthen
    obtain ⟨w'', hstep, hclosed⟩ := recvStep_close hp hopens hmoves.ready ha hleft outCap
    obtain ⟨j, hj⟩ : ∃ j, w.pending + 1 - (got ++ []).length = j + 1 := ⟨w.pending - (got ++ []).length, by omega⟩
    rw [hj, repeatM_error hstep] at hr
    exact .inr ⟨by rw [List.append_nil, hm], w'', bind_of_error hr, hclosed⟩

/-- **`wn_Recv` calls drain what is in flight**, and the next one says that the
peer has closed. -/
theorem recv_drains {outCap : Nat} (hcap : wnMaxPlaintext ≤ outCap) {a : Rfc.Alert} {s : Rfc.Half}
    (ha : a.ClosesAt p s) : ∀ (k : Nat) (pending : List Rfc.Sent) (w : World), (Rfc.plaintexts pending).length = k →
      w.Ready → Rfc.Seals p w.readHalf pending s → (∀ i ∈ pending, i.Within) →
      w.inbox.flatten = (pending.map (·.record)).flatten ++ a.record →
      ∃ w', callsRun p (List.replicate (k + 1) (.recv outCap)) w =
        ((Rfc.plaintexts pending).map Except.ok ++ [.error .closed], w') ∧ w'.sess.Closed := by
  intro k
  induction k with
  | zero =>
    intro pending w hk hw hseals hwithin hflat
    have hnone := List.eq_nil_of_length_eq_zero hk
    rcases wnRecv_close hp hopens hcap ha hw hseals hwithin hflat with ⟨m, got, rest, w', rfl, hm, -⟩ | ⟨-, w', hr, hclosed⟩
    · rw [Rfc.plaintexts_append, hm] at hnone
      cases hnone
    · refine ⟨w', ?_, hclosed⟩
      rw [hnone, List.replicate_one, callsRun, Call.run, hr]
      rfl
  | succ k ih =>
    intro pending w hk hw hseals hwithin hflat
    rcases wnRecv_close hp hopens hcap ha hw hseals hwithin hflat with
      ⟨m, got, rest, w', rfl, hm, hr, hw', hseals', hflat'⟩ | ⟨hnone, -⟩
    · rw [Rfc.plaintexts_append, hm] at hk ⊢
      obtain ⟨w'', hrest, hclosed⟩ := ih rest w' (by simpa using hk) hw' hseals'
        (fun i hi => hwithin i (List.mem_append_right _ hi)) hflat'
      refine ⟨w'', ?_, hclosed⟩
      rw [List.replicate_succ, callsRun, Call.run, hr, endState_ok, hrest]
      rfl
    · rw [hnone] at hk
      cases hk

end Receive

/-! ## The client closes -/

namespace Rfc

/-- Records read one after the other, each where the one before leaves off. -/
def Half.receiveAll (p : Provider cfg) : Half → List Bytes → Option (List Carried × Half)
  | s, [] => some ([], s)
  | s, record :: records => do
    let (c, t) ← s.receive p record
    let (cs, u) ← t.receiveAll p records
    some (c :: cs, u)

theorem Seals.receiveAll (hopens : p.OpensSealed) {s s' : Half} {items : List Sent} (h : Seals p s items s')
    (hitems : ∀ i ∈ items, i.carried.FromClient) :
    s.receiveAll p (items.map (·.record)) = some (items.map (·.carried), s') := by
  induction h with
  | nil => rfl
  | cons hstep _ ih =>
    obtain ⟨hi, hitems⟩ := List.forall_mem_cons.1 hitems
    simp only [List.map_cons, Half.receiveAll, hstep.receive hopens hi, ih hitems, Option.bind_eq_bind,
      Option.bind_some]

end Rfc

/-- `wn_Close` seals a close_notify where the client stands, sends it, and wipes
the session. -/
theorem wnClose_ready (hp : p.Total) {w : World} (hw : w.Ready) (hptr : w.sess.ioSend ≠ 0) :
    ∃ record w', wnClose p w = .ok () w' ∧ w'.sess = .zero ∧ w'.sent = w.sent ++ [record] ∧
      Rfc.sealRecord p w.sess.writeKeys w.sess.cSeq.toNat 21 [1, 0] 0 = some record := by
  obtain ⟨record, hrec, hseal⟩ := protectRecord_total hp w.sess.writeKeys w.sess.cSeq wnRecAlert
    (show ([1, 0] : Bytes).length ≤ _ by decide)
  have hsend : sendCloseNotify p w = .ok () { w with
      sendRes := w.sendRes.tail
      trace := w.trace ++ [.protect w.sess.cKey (wnBuildNonce w.sess.cIv w.sess.cSeq) wnRecAlert [1, 0] true] ++
        [.send record (w.sendRes.headD true)] } := by
    have hrec : protectRecord p w.sess.cKey w.sess.cIv w.sess.cSeq wnRecAlert [1, 0] = .ok record := hrec
    unfold sendCloseNotify
    rw [bind_of_ok (get_apply w), if_pos ⟨hw.opened, hw.established, hptr⟩, bind_of_ok (wnRecordProtect_of hrec)]
    rfl
  have hok : ∃ u, wnClose p w = .ok u (endState (wnClose p w)) := by
    unfold wnClose
    rw [bind_of_ok (tryCatch_of_ok hsend)]
    exact ⟨(), rfl⟩
  obtain ⟨u, hok⟩ := hok
  refine ⟨record, _, hok, wnClose_sess w, ?_, hseal⟩
  rw [wnClose_end, hsend]
  simp only [World.sent, endState_ok, List.append_assoc, List.filterMap_append]
  rfl

/-- A call leaves the callbacks as they are. -/
theorem System.Step.ioSend (hx : p.Expands) {s s' : System} {a : SystemAct} (h : System.Step p s a s')
    (hd : s.client.sess.digest = .sha256) : s'.client.sess.ioSend = s.client.sess.ioSend := by
  cases h with
  | send data =>
    obtain ⟨acts, hrun, -⟩ := wnSend_run (p := p) data s.client []
    exact hrun.same.ioSend
  | @recv outCap _ =>
    obtain ⟨acts, q', hrun, -⟩ := wnRecv_run hx outCap s.client [] fun _ => hd
    exact hrun.same.ioSend
  | peerSeal => rfl
  | peerOpen => rfl
  | chunk => rfl

variable (p) in
/-- Nothing is lost when a connection in this state is closed: `wn_Recv` calls
return all that a peer sealed before its close_notify, and then say so; and a
peer that reads on after `wn_Close` gets all the client gave and then a
close_notify. -/
structure System.Closes (s : System) : Prop where
  byPeer : ∀ a : Rfc.Alert, a.ClosesAt p s.peerWrite → ∀ inbox : List Bytes, [] ∉ inbox →
    inbox.flatten = s.client.inbox.flatten ++ a.record → ∀ outCap, wnMaxPlaintext ≤ outCap →
      ∃ data w', Rfc.plaintexts s.peerSealed = s.clientGot ++ data ∧
        callsRun p (List.replicate (data.length + 1) (.recv outCap)) { s.client with inbox } =
          (data.map Except.ok ++ [.error .closed], w') ∧ w'.sess.Closed
  byClient : ∃ record w' carried h, wnClose p s.client = .ok () w' ∧ w'.sess = .zero ∧
    w'.sent = s.client.sent ++ [record] ∧
    s.peerRead.receiveAll p (s.client.sent.drop s.peerTaken) = some (carried, h) ∧
    s.clientGave = s.peerGot ++ carried.filterMap Rfc.Carried.data? ∧
    Rfc.openRecord p h.keys h.seq.toNat record = some (21, [1, 0])

section Closes

variable (hp : p.Total) (hopens : p.OpensSealed) {client server : TrafficKeys} {before : List Bytes} {s : System}
include hp hopens

theorem Synchronised.closes {got toClient taken toPeer : List Rfc.Sent}
    (h : Synchronised p client server before s got toClient taken toPeer) (hptr : s.client.sess.ioSend ≠ 0) :
    s.Closes p := by
  refine ⟨fun a ha inbox hne hflat outCap hcap => ?_, ?_⟩
  · have hready : World.Ready { s.client with inbox } := { h.ready with flowing := hne }
    obtain ⟨w', hcalls, hclosed⟩ := recv_drains hp hopens hcap ha _ toClient { s.client with inbox } rfl hready
      h.inbound h.within (by rw [← h.channel]; exact hflat)
    exact ⟨Rfc.plaintexts toClient, w', h.data.1, hcalls, hclosed⟩
  · obtain ⟨record, w', hclose, hzero, hsent, hseal⟩ := wnClose_ready hp h.ready hptr
    have hleft : s.client.sent.drop s.peerTaken = toPeer.map (·.record) := by
      rw [h.clientSent, h.peerTaken, List.map_append, ← List.append_assoc]
      exact List.drop_left' (by simp)
    refine ⟨record, w', toPeer.map (·.carried), s.client.writeHalf, hclose, hzero, hsent, ?_, ?_, ?_⟩
    · rw [hleft]
      exact h.outbound.receiveAll hopens fun i hi => h.answers i (List.mem_append_right _ hi)
    · rw [h.data.2, List.filterMap_map]
      rfl
    · exact Rfc.openRecord_sealRecord p hopens (by decide) hseal

/-- After any run. -/
theorem Synchronised.run_closes {got toClient taken toPeer : List Rfc.Sent}
    (h : Synchronised p client server before s got toClient taken toPeer) (hptr : s.client.sess.ioSend ≠ 0)
    {acts : List SystemAct} {s' : System} (hrun : Run (System.Step p) s acts s') : s'.Closes p := by
  have hinv := Run.invariant (I := fun s : System => (∃ got toClient taken toPeer,
      Synchronised p client server before s got toClient taken toPeer) ∧ s.client.sess.ioSend ≠ 0)
    (fun {s s' a} hi hstep => by
      obtain ⟨⟨got, toClient, taken, toPeer, hsync⟩, hptr⟩ := hi
      exact ⟨hsync.step hp hopens hstep, by rw [hstep.ioSend hp.expands hsync.ready.digest]; exact hptr⟩)
    ⟨⟨got, toClient, taken, toPeer, h⟩, hptr⟩ hrun
  obtain ⟨⟨_, _, _, _, hsync⟩, hptr⟩ := hinv
  exact hsync.closes hp hopens hptr

/-- **Closing loses nothing**, after any run of the system from equal secrets
and empty channels. -/
theorem orderly_close {io : Transport} (hroom : recordRoom ≤ io.scratchLen) (hptr : io.ioSend ≠ 0) {w : World}
    (hw : w.sess = .established io client server) (hin : w.inbox = []) (hsend : w.Sending) {acts : List SystemAct}
    (hrun : Run (System.Step p) (.start w client server) acts s) : s.Closes p :=
  (Synchronised.start hroom hw hin hsend).run_closes hp hopens (by rw [System.start, hw]; exact hptr) hrun

end Closes

/-- The client sends data, the peer sends data, and closes; or the client does. -/
theorem orderly_close_clear : ∃ s, Run (System.Step (Provider.clear .small))
    (.start (clearWorld []) clearHsKeys clearHsKeys) [.send [1], .peerSeal ⟨.data [8], 0, clearRecord 23 [8]⟩] s ∧
    (∃ data w', Rfc.plaintexts s.peerSealed = s.clientGot ++ data ∧
      callsRun (Provider.clear .small) (List.replicate (data.length + 1) (.recv wnMaxPlaintext))
        { s.client with inbox := [clearRecord 23 [8] ++ clearRecord 21 [1, 0]] } =
        (data.map Except.ok ++ [.error .closed], w') ∧ w'.sess.Closed) ∧
    ∃ record w', wnClose (Provider.clear .small) s.client = .ok () w' ∧ w'.sent = s.client.sent ++ [record] := by
  have hdata : Rfc.SealStep (Provider.clear .small) ⟨clearHsKeys, 0⟩ ⟨.data [8], 0, clearRecord 23 [8]⟩ ⟨clearHsKeys, 1⟩ :=
    ⟨trivial, clearRecord_seal .small clearHsKeys 0 23 [8], rfl⟩
  have hrun := Run.cons (System.Step.send (s := .start (clearWorld []) clearHsKeys clearHsKeys) [1])
    (.single (.peerSeal hdata (by decide)))
  obtain ⟨hpeer, record, w', carried, h, hclose, -, hsent, -⟩ := orderly_close (Provider.clear_total .small)
    (Provider.clear_opensSealed .small) (show recordRoom ≤ (Transport.sized 32768).scratchLen by decide) (by decide) rfl rfl
    (by simp [World.Sending, clearWorld, World.fresh]) hrun
  refine ⟨_, hrun, hpeer ⟨[1, 0], 0, clearRecord 21 [1, 0]⟩ ⟨clearRecord_seal .small clearHsKeys 1 21 [1, 0], by decide,
    by decide⟩ [clearRecord 23 [8] ++ clearRecord 21 [1, 0]] (by decide +kernel) ?_ _ (Nat.le_refl _), record, w', hclose,
    hsent⟩
  decide +kernel

end WolfNano

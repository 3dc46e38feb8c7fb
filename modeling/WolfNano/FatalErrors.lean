/-
What is left of a session when `wn_Recv` has failed.

Of all its error exits only the one for close_notify changes the flags, and
the flags are what `wn_Send` and `wn_Recv` look at first. `Ended` says that
nothing can be done with a session any more; a `wn_Recv` that failed has ended
the session exactly when it returned `WOLFNANO_E_CLOSED`.
-/
import WolfNano.Calls
import WolfNano.Connected
import WolfNano.ClearProvider
import WolfNano.Observed

namespace WolfNano

open Prog

variable {cfg : Config} {p : Provider cfg} {c : CertProvider}

/-! ## No error but close_notify's is `WOLFNANO_E_CLOSED` -/

/-- An error other than `WOLFNANO_E_CLOSED`. -/
def NotClosed (e : Err) : Prop := e ≠ .closed

theorem protectRecord_notClosed {key : Block 16} {iv : Block 12} {seq : UInt64} {type : UInt8} {content : Bytes}
    {e : Err} (h : protectRecord p key iv seq type content = .error e) : NotClosed e := by
  unfold protectRecord at h
  split at h
  · cases h
    exact nofun
  · unfold sealInner at h
    dsimp only at h
    split at h
    · split at h
      · cases h
      · cases h
        exact nofun
    · cases h
      exact nofun

theorem wnRecordUnprotect_notClosed {key : Block 16} {iv : Block 12} {seq : UInt64} {record : Bytes} {e : Err}
    (h : wnRecordUnprotect p key iv seq record = .error e) : NotClosed e := by
  unfold wnRecordUnprotect at h
  split at h
  · cases h
    exact nofun
  · dsimp only at h
    split at h
    · split at h
      · unfold innerContent at h
        dsimp only at h
        split at h
        · cases h
          exact nofun
        · cases h
      · cases h
        exact nofun
    · cases h
      exact nofun

theorem wnTls13KeyUpdate_notClosed {t : TrafficKeys} {digest : Digest} {e : Err}
    (h : (wnTls13KeyUpdate p t digest).1 = .error e) : NotClosed e := by
  have hcrypto : ∀ {n : Nat} {secret : Bytes} {label : String} {e : Err},
      wnTls13ExpandLabel p n secret label [] = .error e → NotClosed e := by
    intro n secret label e h
    rw [(orCrypto_error.1 h).2]
    exact nofun
  unfold wnTls13KeyUpdate at h
  split at h
  · cases h
    exact nofun
  · split at h
    · next he =>
      cases h
      exact hcrypto he
    · split at h
      · next he =>
        cases h
        exact hcrypto he
      · split at h
        · next he =>
          cases h
          exact hcrypto he
        · cases h

theorem wnRecordProtect_notClosed (key : Block 16) (iv : Block 12) (seq : UInt64) (type : UInt8) (content : Bytes) :
    Fails NotClosed (wnRecordProtect p key iv seq type content) :=
  .bind (.modify _) fun _ => .ofExcept fun _ h => protectRecord_notClosed h

theorem ioRecv_notClosed (n : Nat) : Fails NotClosed (ioRecv n) := by
  intro w w' e h
  unfold ioRecv at h
  split at h <;> cases h

theorem ioRecvExact_notClosed (n : Nat) : Fails NotClosed (ioRecvExact n) := by
  suffices h : ∀ k got, Fails NotClosed (ioRecvExactLoop n k got) from h n []
  intro k
  induction k with
  | zero => exact fun got => .pure got
  | succ k ih =>
    intro got
    rw [ioRecvExactLoop]
    split
    · refine .bind (ioRecv_notClosed _) fun r => ?_
      cases r with
      | none => exact .throw Err.noConfusion
      | some bs => exact ih _
    · exact .pure got

theorem wnRecvRecord_notClosed (cap : Nat) : Fails NotClosed (wnRecvRecord cap) :=
  .bind (ioRecvExact_notClosed 5) fun _ => .bind (.failIf _ nofun) fun _ =>
    .bind (ioRecvExact_notClosed _) fun _ => .bind (.failIf _ nofun) fun _ => .pure _

theorem ioSend_notClosed (buf : Bytes) : Fails NotClosed (ioSend buf) := fun _ _ _ h => nomatch h

theorem wnSessionSendKeyUpdate_notClosed : Fails NotClosed (wnSessionSendKeyUpdate p) := by
  refine .bind .get fun w => .bind (wnRecordProtect_notClosed _ _ _ _ _) fun record => .bind (.modify _) fun _ => ?_
  refine .bind (ioSend_notClosed _) fun sent => .bind (.failIf _ nofun) fun _ => .bind (.modify _) fun _ => ?_
  exact .bind (.ofExcept fun _ h => wnTls13KeyUpdate_notClosed h) fun _ => .bind (.modify _) fun _ => .modify _

theorem posthsKeyUpdate_notClosed (req : UInt8) (unread : Bytes) : Fails NotClosed (posthsKeyUpdate p req unread) := by
  refine .bind .get fun w => .bind (.modify _) fun _ => .bind (.ofExcept fun _ h => wnTls13KeyUpdate_notClosed h) ?_
  refine fun _ => .bind (.modify _) fun _ => .bind (.modify _) fun _ => ?_
  split
  · exact wnSessionSendKeyUpdate_notClosed
  · exact .pure _

theorem wnSessionPosths_notClosed (msg : Bytes) : Fails NotClosed (wnSessionPosths p msg) := by
  refine Fails.repeatM Err.noConfusion (fun r => ?_) _ _
  unfold posthsStep
  split
  · dsimp only
    split
    · exact .bind (.failIf _ Err.noConfusion) fun _ => .pure _
    · split
      · exact .bind (.failIf _ Err.noConfusion) fun _ => .bind (posthsKeyUpdate_notClosed _ _) fun _ => .pure _
      · exact .throw Err.noConfusion
  · exact .pure _

/-! ## The flags -/

/-- Only a close_notify that was received changes the flags. -/
theorem SessStep.flags {x y : World × Bytes} {a : Act} (h : SessStep p x a y) (ha : a ≠ .shut) :
    y.1.sess.flags = x.1.sess.flags := by
  cases h with
  | shut => exact absurd rfl ha
  | skipped h => rw [h.frame]
  | _ => rfl

theorem SessRun.flags {x y : World × Bytes} {acts : List Act} (h : SessRun p x acts y) (ha : Act.shut ∉ acts) :
    y.1.sess.flags = x.1.sess.flags := by
  induction h with
  | nil => rfl
  | cons hstep _ ih =>
    rw [List.mem_cons, not_or] at ha
    exact (ih ha.2).trans (hstep.flags (Ne.symm ha.1))

/-- What a part of `wn_Recv` that ends so has done to the flags. -/
def FlagsAfter {α : Type} (w : World) : EStateM.Result Err World α → Prop
  | .ok _ w' => w'.sess.flags = w.sess.flags
  | .error e w' => if e = .closed then w'.sess.Closed else w'.sess.flags = w.sess.flags

theorem FlagsAfter.of {α : Type} {w w₁ : World} {r : EStateM.Result Err World α}
    (hflags : w₁.sess.flags = w.sess.flags) (h : FlagsAfter w₁ r) : FlagsAfter w r := by
  unfold FlagsAfter at *
  rwa [hflags] at h

theorem FlagsAfter.kept {α : Type} {w : World} {r : EStateM.Result Err World α}
    (hflags : (endState r).sess.flags = w.sess.flags) (hfail : ∀ e w', r = .error e w' → NotClosed e) :
    FlagsAfter w r := by
  cases r with
  | ok a w' => exact hflags
  | error e w' =>
    show if e = .closed then _ else _
    rw [if_neg (hfail e w' rfl)]
    exact hflags

theorem Session.closed_or (s : Session) : ({ s with flags := s.flags ||| wnSessClosed } : Session).Closed := by
  show (s.flags ||| 2) &&& 2 ≠ 0
  rw [Nat.and_or_distrib_right]
  intro h0
  exact absurd (Nat.or_eq_zero_iff.1 h0).2 (by decide)

section Recv

variable (hx : p.Expands)
include hx

theorem recvContent_flags (outCap : Nat) {w : World} (hd : w.sess.digest = .sha256) (ctype : UInt8) {content : Bytes}
    (hs : content.length < 2 ^ 31) : FlagsAfter w (recvContent p outCap ctype content w) := by
  unfold recvContent
  split
  · rfl
  split
  · obtain ⟨acts, q', hrun, hpost, -⟩ := posths_run hx hs (content.length + 1) content w (List.suffix_refl _) hd
    rw [← wnReaderInit_eq] at hrun
    have hflags : (endState (wnSessionPosths p content w)).sess.flags = w.sess.flags :=
      hrun.flags fun hshut => hpost _ hshut
    have hfails : Fails NotClosed (wnSessionPosths p content) := wnSessionPosths_notClosed content
    cases hr : wnSessionPosths p content w with
    | ok u w' =>
      rw [hr] at hflags
      rw [bind_of_ok hr]
      exact hflags
    | error e w' =>
      rw [hr] at hflags
      rw [bind_of_error hr]
      exact .kept hflags fun _ _ h => by cases h; exact hfails hr
  split
  · split
    · exact Session.closed_or w.sess
    · exact .kept rfl fun _ _ h => by cases h; exact nofun
  · exact .kept rfl fun _ _ h => by cases h; exact nofun

theorem recvStep_flags (outCap : Nat) {w : World} (hd : w.sess.digest = .sha256) :
    FlagsAfter w (recvStep p outCap () w) := by
  unfold recvStep
  rw [bind_of_ok (get_apply w)]
  have hread := wnRecvRecord_onlyRead w.sess.scratchLen
  cases hr : wnRecvRecord w.sess.scratchLen w with
  | error e w₁ =>
    rw [bind_of_error hr]
    refine .kept (by rw [endState_error, (hread.error hr).frame]) fun _ _ h => ?_
    cases h
    exact wnRecvRecord_notClosed _ hr
  | ok x w₁ =>
    obtain ⟨rtype, record⟩ := x
    have hkept : w₁.sess = w.sess := by rw [(hread.ok hr).frame]
    rw [bind_of_ok hr]
    dsimp only
    by_cases hccs : rtype = wnRecChangeCipher
    · rw [failIf_pos hccs]
      exact .kept (by rw [← hkept]; rfl) fun _ _ h => by cases h; exact nofun
    rw [failIf_neg hccs, pure_bind]
    cases hopen : wnRecordUnprotect p w.sess.sKey w.sess.sIv w.sess.sSeq record with
    | error e =>
      refine .kept (by rw [← hkept]; rfl) fun _ _ h => ?_
      cases h
      exact wnRecordUnprotect_notClosed hopen
    | ok x =>
      obtain ⟨ctype, content⟩ := x
      have hlen : content.length < 2 ^ 31 := opened_small hr hopen
      have hcontent := recvContent_flags hx outCap
        (w := { w₁ with sess := { w.sess with sSeq := w.sess.sSeq + 1 } }) hd ctype hlen
      exact hcontent.of rfl

/-- A `wn_Recv` that fails on an open session leaves it open, unless it returns
`WOLFNANO_E_CLOSED`. -/
theorem wnRecv_error_flags {outCap : Nat} {w w' : World} {e : Err} (hopen : ¬ w.sess.Closed) (hest : w.sess.Established)
    (hd : w.sess.digest = .sha256) (h : wnRecv p outCap w = .error e w') :
    if e = .closed then w'.sess.Closed else w'.sess.flags = w.sess.flags := by
  have hloop : recvLoop p outCap w = _ := recvLoop_of hopen hest
  -- every turn that goes on keeps the flags and the digest
  have hturn : ∀ {b b' : Unit} {s t : World}, s.sess.flags = w.sess.flags ∧ s.sess.digest = .sha256 →
      recvStep p outCap b s = .ok (.inl b') t → t.sess.flags = w.sess.flags ∧ t.sess.digest = .sha256 := by
    intro _ _ s t hi hs
    obtain ⟨acts, q', hrun, -⟩ := recvStep_run hx outCap hi.2 []
    have hstep := recvStep_flags hx outCap hi.2
    rw [hs] at hrun hstep
    exact ⟨hstep.trans hi.1, hrun.same.digest.trans hi.2⟩
  unfold wnRecv at h
  rw [bind_error, hloop] at h
  rcases h with h | ⟨out, w₁, hr, h⟩
  · obtain ⟨_, t, hi, hbody | ⟨rfl, rfl⟩⟩ := repeatM_fails (I := fun _ s => s.sess.flags = w.sess.flags ∧
      s.sess.digest = .sha256) hturn ⟨rfl, hd⟩ h
    · have hstep := recvStep_flags hx outCap hi.2
      rw [hbody] at hstep
      exact FlagsAfter.of hi.1 hstep
    · rw [if_neg nofun]
      exact hi.1
  · cases out with
    | deliver m => cases h
    | small =>
      cases h
      obtain ⟨_, t, hi, hbody⟩ := repeatM_ok (I := fun _ s => s.sess.flags = w.sess.flags ∧
        s.sess.digest = .sha256) hturn ⟨rfl, hd⟩ hr
      have hstep := recvStep_flags hx outCap hi.2
      rw [hbody] at hstep
      rw [if_neg nofun]
      exact hstep.trans hi.1

end Recv

/-! ## What can follow -/

/-- The call returns `WOLFNANO_SUCCESS`. -/
def Call.Succeeds (p : Provider cfg) (w : World) : Call → Prop
  | .send data => ∃ w', wnSend p data w = .ok () w'
  | .recv outCap => ∃ out w', wnRecv p outCap w = .ok out w'
  | .close => ∃ w', wnClose p w = .ok () w'

/-- Whatever the transport does and whatever is called before, no call but
`wn_Close` succeeds, or passes bytes to `ioSend`. -/
def Ended (p : Provider cfg) (s : Session) : Prop :=
  ∀ (inbox : List Bytes) (sendRes : List Bool) (calls : List Call) (call : Call), call ≠ .close →
    ¬ call.Succeeds p (callsAfter p (.fresh inbox sendRes s) calls) ∧
      (call.after p (callsAfter p (.fresh inbox sendRes s) calls)).sent =
        (callsAfter p (.fresh inbox sendRes s) calls).sent

theorem Session.Shut.ended {s : Session} (h : s.Shut) : Ended p s := by
  intro inbox sendRes calls call hcall
  have hshut : (WolfNano.callsAfter p (.fresh inbox sendRes s) calls).sess.Shut :=
    Session.Shut.callsAfter (w := .fresh inbox sendRes s) h
  cases call with
  | send data =>
    obtain ⟨e, herr⟩ := hshut.send (p := p) data
    refine ⟨fun hok => ?_, by rw [Call.after, herr, endState_error]⟩
    obtain ⟨w', hok⟩ := hok
    rw [herr] at hok
    cases hok
  | recv outCap =>
    obtain ⟨e, herr⟩ := hshut.recv (p := p) outCap
    refine ⟨fun hok => ?_, by rw [Call.after, herr, endState_error]⟩
    obtain ⟨out, w', hok⟩ := hok
    rw [herr] at hok
    cases hok
  | close => exact absurd rfl hcall

/-- On an open session `wn_Send` sends, and succeeds when `ioSend` takes the record. -/
theorem wnSend_open (hp : p.Total) {w : World} (hopen : ¬ w.sess.Closed) (hest : w.sess.Established) (data : Bytes)
    (hlen : data.length ≤ wnMaxPlaintext) (hroom : data.length + wnSendOverhead ≤ w.sess.scratchLen)
    (hsend : w.sendRes.headD true = true) :
    ∃ record w', wnSend p data w = .ok () w' ∧ w'.sent = w.sent ++ [record] := by
  obtain ⟨record, hrec⟩ : ∃ record, w.protect p wnRecAppdata data = .ok record := by
    obtain ⟨record, hrec, -⟩ := protectRecord_total hp w.sess.writeKeys w.sess.cSeq wnRecAppdata hlen
    exact ⟨record, hrec⟩
  refine ⟨record, w.afterSeal wnRecAppdata data record, wnSend_of hopen hest hlen hroom hrec hsend, ?_⟩
  rw [World.sent, World.afterSeal, List.filterMap_append]
  rfl

theorem not_ended (hp : p.Total) {s : Session} (hopen : ¬ s.Closed) (hest : s.Established)
    (hroom : wnSendOverhead ≤ s.scratchLen) : ¬ Ended p s := by
  intro hend
  obtain ⟨record, w', hok, -⟩ := wnSend_open hp (w := .fresh [] [] s) hopen hest [] (Nat.zero_le _)
    (by rw [List.length_nil, Nat.zero_add]; exact hroom) rfl
  exact (hend [] [] [] (.send []) nofun).1 ⟨w', hok⟩

/-! ## Reachable sessions -/

/-- **What ends a session.** Wherever calls have brought a session that is
still established, a `wn_Recv` that fails has ended it exactly when it returned
`WOLFNANO_E_CLOSED`; after every other error the session is as open as before,
and the next `wn_Send` passes a record to `ioSend`. -/
theorem wnRecv_error_ended (hp : p.Total) {w : World} (hw : Connected p c w) (calls : List Call)
    (hest : (callsAfter p w calls).sess.Established) {outCap : Nat} {e : Err} {w' : World}
    (h : wnRecv p outCap (callsAfter p w calls) = .error e w') :
    (Ended p w'.sess ↔ e = .closed) ∧
      (e ≠ .closed → ∀ data : Bytes, data.length ≤ wnMaxPlaintext →
        data.length + wnSendOverhead ≤ w'.sess.scratchLen →
        ∃ record w'', wnSend p data { w' with sendRes := [] } = .ok () w'' ∧ w''.sent = w'.sent ++ [record]) := by
  have husable : w.sess.Usable := by
    obtain ⟨io, client, server, hsess, hroom, -, -⟩ := hw.established
    rw [hsess]
    exact fun _ => ⟨rfl, hroom⟩
  obtain ⟨hd, hroom⟩ := husable.callsAfter hp.expands calls hest
  by_cases hclosed : (callsAfter p w calls).sess.Closed
  · -- nothing was read: the session was closed before
    have herr : wnRecv p outCap (callsAfter p w calls) = .error .closed (callsAfter p w calls) := by
      have hcheck : checkOpen (callsAfter p w calls) = .error .closed (callsAfter p w calls) := by
        unfold checkOpen
        rw [bind_of_ok (get_apply _), failIf_pos hclosed]
        rfl
      exact bind_of_error (bind_of_error hcheck)
    rw [herr] at h
    cases h
    exact ⟨iff_of_true (Session.Shut.ended (.inl hclosed)) rfl, fun hne => absurd rfl hne⟩
  have hflags := wnRecv_error_flags hp.expands hclosed hest hd h
  by_cases he : e = .closed
  · rw [if_pos he] at hflags
    exact ⟨iff_of_true (Session.Shut.ended (.inl hflags)) he, fun hne => absurd he hne⟩
  rw [if_neg he] at hflags
  obtain ⟨acts, q', hrun, -⟩ := wnRecv_run hp.expands outCap (callsAfter p w calls) [] fun _ => hd
  rw [h] at hrun
  have hroom' : 2048 ≤ w'.sess.scratchLen := by
    rw [show w'.sess.scratchLen = _ from hrun.same.scratchLen]
    exact hroom
  have hopen' : ¬ w'.sess.Closed := by
    rw [Session.Closed, hflags]
    exact hclosed
  have hest' : w'.sess.Established := by
    rw [Session.Established, hflags]
    exact hest
  have hover : wnSendOverhead ≤ 2048 := by decide
  refine ⟨iff_of_false (not_ended hp hopen' hest' (by omega)) he, fun _ data hlen hfits => ?_⟩
  exact wnSend_open hp (w := { w' with sendRes := [] }) hopen' hest' data hlen hfits rfl

/-- A PSK handshake, and a fatal alert that follows it. -/
def alertRun : EStateM.Result Err World Unit :=
  wnConnectPskEx (.clear .small) (.clear [105] 2048) (.fresh [clearPskStream ++ clearRecord 21 [2, 40]] [] .zero)

/-- `wn_Recv` after `alertRun`. -/
def alertRecv : EStateM.Result Err World Bytes := wnRecv (.clear .small) 64 (endState alertRun)

theorem alertRun_ok : alertRun = .ok () (endState alertRun) := errorOf_none (by decide +kernel)

theorem alertRecv_error : alertRecv = .error .crypto (endState alertRecv) := errorOf_some (by decide +kernel)

theorem wnRecv_error_ended_clear : Connected (.clear .small) .trusting (endState alertRun) ∧
    alertRecv = .error .crypto (endState alertRecv) ∧
    (Ended (.clear .small) (endState alertRecv).sess ↔ Err.crypto = .closed) := by
  have hconn : Connected (.clear .small) .trusting (endState alertRun) := .inl ⟨_, _, alertRun_ok⟩
  obtain ⟨io, client, server, hsess, -⟩ := hconn.established
  have hnil : callsAfter (.clear .small) (endState alertRun) [] = endState alertRun := List.foldl_nil
  have hest : (callsAfter (.clear .small) (endState alertRun) []).sess.Established := by
    rw [hnil, hsess]
    exact (Session.established_open io client server).2
  have herr : wnRecv (.clear .small) 64 (callsAfter (.clear .small) (endState alertRun) []) =
      .error .crypto (endState alertRecv) := by
    rw [hnil]
    exact alertRecv_error
  exact ⟨hconn, alertRecv_error, (wnRecv_error_ended (Provider.clear_total .small) hconn [] hest herr).1⟩

/-- `wn_Recv` reports the alert as an error, and `wn_Send` goes on sending. -/
theorem wnRecv_alert_goes_on : Connected (.clear .small) .trusting (endState alertRun) ∧
    alertRecv = .error .crypto (endState alertRecv) ∧
    ∃ record w, wnSend (.clear .small) [1] (endState alertRecv) = .ok () w ∧
      w.sent = (endState alertRecv).sent ++ [record] := by
  have hflags : ¬ (endState alertRecv).sess.Closed ∧ (endState alertRecv).sess.Established ∧
      (endState alertRecv).sess.scratchLen = 2048 ∧ (endState alertRecv).sendRes = [] := by
    decide +kernel
  obtain ⟨hopen, hest, hroom, hsend⟩ := hflags
  exact ⟨.inl ⟨_, _, alertRun_ok⟩, alertRecv_error, wnSend_open (Provider.clear_total _) hopen hest [1] (by decide)
    (by rw [hroom]; decide) (by rw [hsend]; rfl)⟩

end WolfNano

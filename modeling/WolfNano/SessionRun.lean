/-
What an established session does, act by act.

`SessStep` is the session as a labelled transition system: a record sealed, a
record opened, a KeyUpdate taken or answered, each with what it does to the
session, the transport and the trace. The state is the world with what is left
of the handshake content being processed. `wnSend_run` and `wnRecv_run` say that
the code's calls are runs of it, whatever they return; what holds of every run
of calls is then an invariant of `SessStep`.
-/
import WolfNano.Session
import WolfNano.HandshakeFacts
import WolfNano.Lib.Runs

namespace WolfNano

open Prog Wire

variable {cfg : Config}

/-- HKDF-Expand does not fail. -/
def Provider.Expands (p : Provider cfg) : Prop :=
  ∀ n secret protocol label info, p.hkdfExpandLabel n secret protocol label info ≠ none

theorem Provider.Total.expands {p : Provider cfg} (hp : p.Total) : p.Expands := hp.hkdfExpandLabel

theorem Rfc.update_of {p : Provider cfg} (hx : p.Expands) (t : TrafficKeys) : ∃ t', Rfc.update p t = some t' := by
  have hlabel : ∀ n secret label, ∃ b, Rfc.expandLabel p n secret label [] = some b :=
    fun _ _ _ => Option.ne_none_iff_exists'.1 (hx _ _ _ _ _)
  obtain ⟨secret, hs⟩ := hlabel 32 t.secret "traffic upd"
  obtain ⟨key, hk⟩ := hlabel 16 secret "key"
  obtain ⟨iv, hi⟩ := hlabel 12 secret "iv"
  exact ⟨⟨secret, key, iv⟩, by simp [Rfc.update, Rfc.trafficKeys, hs, hk, hi]⟩

/-! ## Acts -/

/-- One thing the code does to a session. -/
inductive Act where
  /-- `wn_Send` sealed a record, and `ioSend` took all of it, or not. -/
  | sent (content record : Bytes) (complete : Bool)
  /-- A KeyUpdate was answered: the reply went out whole and the write keys moved on. -/
  | replied (record : Bytes)
  /-- The reply was sealed and did not go out whole. -/
  | replyCut (record : Bytes)
  /-- A record could not be sealed. -/
  | unsealed (type : UInt8) (content : Bytes)
  /-- The transport was read, to no record that opened. -/
  | skipped
  | opened (record : Bytes) (type : UInt8) (content : Bytes)
  /-- A NewSessionTicket was read and ignored. -/
  | ticket (body : Bytes)
  /-- A KeyUpdate of the peer was read and the read keys moved on. -/
  | keyUpdate (req : UInt8)
  /-- close_notify was received. -/
  | shut
  deriving DecidableEq

/-- The world after sealing a record at the write counter and handing it to
`ioSend`. -/
def World.afterSeal (w : World) (type : UInt8) (content record : Bytes) : World where
  inbox := w.inbox
  sendRes := w.sendRes.tail
  trace := w.trace ++ [.protect w.sess.cKey (wnBuildNonce w.sess.cIv w.sess.cSeq) type content true,
    .send record (w.sendRes.headD true)]
  sess := { w.sess with cSeq := w.sess.cSeq + 1 }

/-- The world after the write keys moved on. -/
def World.rekeyWrite (w : World) (t : TrafficKeys) : World :=
  { w with trace := w.trace ++ [.writeKeys], sess := { w.sess.setWriteKeys t with cSeq := 0 } }

/-- The world after the read keys moved on, with `unread` left of the record. -/
def World.rekeyRead (w : World) (t : TrafficKeys) (unread : Bytes) : World :=
  { w with trace := w.trace ++ [.readKeys unread], sess := { w.sess.setReadKeys t with sSeq := 0 } }

variable (p : Provider cfg)

/-- Seal under the session's write keys. -/
def World.protect (w : World) (type : UInt8) (content : Bytes) : Except Err Bytes :=
  protectRecord p w.sess.cKey w.sess.cIv w.sess.cSeq type content

/-- One act, from a world and the unread part of the handshake content being
processed. -/
inductive SessStep : World × Bytes → Act → World × Bytes → Prop where
  | sent {w : World} {q content record : Bytes} (h : w.protect p wnRecAppdata content = .ok record) :
      SessStep (w, q) (.sent content record (w.sendRes.headD true)) (w.afterSeal wnRecAppdata content record, q)
  | replied {w : World} {q record : Bytes} {t : TrafficKeys}
      (h : w.protect p wnRecHandshake (keyUpdateMsg 0) = .ok record) (hsent : w.sendRes.headD true = true)
      (ht : Rfc.update p w.sess.writeKeys = some t) :
      SessStep (w, q) (.replied record) ((w.afterSeal wnRecHandshake (keyUpdateMsg 0) record).rekeyWrite t, q)
  | replyCut {w : World} {q record : Bytes}
      (h : w.protect p wnRecHandshake (keyUpdateMsg 0) = .ok record) (hcut : w.sendRes.headD true = false) :
      SessStep (w, q) (.replyCut record) (w.afterSeal wnRecHandshake (keyUpdateMsg 0) record, q)
  | unsealed {w : World} {q content : Bytes} {type : UInt8} {e : Err} (h : w.protect p type content = .error e) :
      SessStep (w, q) (.unsealed type content) ({ w with
        trace := w.trace ++ [.protect w.sess.cKey (wnBuildNonce w.sess.cIv w.sess.cSeq) type content false] }, q)
  | skipped {w w' : World} {q : Bytes} (h : OnlyRead w w') : SessStep (w, q) .skipped (w', q)
  | opened {w w' : World} {q record content : Bytes} {rtype type : UInt8}
      (hread : wnRecvRecord w.sess.scratchLen w = .ok (rtype, record) w')
      (hopen : wnRecordUnprotect p w.sess.sKey w.sess.sIv w.sess.sSeq record = .ok (type, content)) :
      SessStep (w, q) (.opened record type content)
        ({ w' with sess := { w.sess with sSeq := w.sess.sSeq + 1 } }, if type = wnRecHandshake then content else [])
  | ticket {w : World} {q body : Bytes} (h : body.length < 2 ^ 24) :
      SessStep (w, Rfc.hsMsg wnHsNewSessionTicket body ++ q) (.ticket body) (w, q)
  | keyUpdate {w : World} {q : Bytes} {req : UInt8} {t : TrafficKeys} (hreq : req ≤ 1)
      (ht : Rfc.update p w.sess.readKeys = some t) :
      SessStep (w, keyUpdateMsg req ++ q) (.keyUpdate req) (w.rekeyRead t q, q)
  | shut {w : World} {q : Bytes} :
      SessStep (w, q) .shut ({ w with sess := { w.sess with flags := w.sess.flags ||| wnSessClosed } }, q)

/-- A run of acts. -/
abbrev SessRun : World × Bytes → List Act → World × Bytes → Prop := Run (SessStep p)

variable {p}

/-! ## Sending -/

/-- What a `wn_Record_Protect` call under the session's keys does. -/
theorem wnRecordProtect_cases (w : World) (type : UInt8) (content : Bytes) :
    (∃ record, w.protect p type content = .ok record ∧
      wnRecordProtect p w.sess.cKey w.sess.cIv w.sess.cSeq type content w = .ok record { w with
        trace := w.trace ++ [.protect w.sess.cKey (wnBuildNonce w.sess.cIv w.sess.cSeq) type content true] }) ∨
    ∃ e, w.protect p type content = .error e ∧
      wnRecordProtect p w.sess.cKey w.sess.cIv w.sess.cSeq type content w = .error e { w with
        trace := w.trace ++ [.protect w.sess.cKey (wnBuildNonce w.sess.cIv w.sess.cSeq) type content false] } := by
  cases h : w.protect p type content with
  | ok record => exact .inl ⟨record, rfl, wnRecordProtect_of h⟩
  | error e =>
    refine .inr ⟨e, rfl, ?_⟩
    rw [World.protect] at h
    rw [wnRecordProtect, h]
    rfl

/-- The counter advances and the record goes to `ioSend`. -/
theorem afterSeal_eq {α : Type} (w : World) (type : UInt8) (content record : Bytes) (f : Bool → Io α) :
    (do
      setSess { w.sess with cSeq := w.sess.cSeq + 1 }
      let sent ← ioSend record
      f sent) { w with
        trace := w.trace ++ [Event.protect w.sess.cKey (wnBuildNonce w.sess.cIv w.sess.cSeq) type content true] } =
      f (w.sendRes.headD true) (w.afterSeal type content record) := by
  simp only [bind_apply, setSess, modify_apply, ioSend, World.afterSeal, List.append_assoc, List.singleton_append]

theorem checkOpen_cases (w : World) :
    (checkOpen w = .ok () w ∧ ¬ w.sess.Closed ∧ w.sess.Established) ∨ ∃ e, checkOpen w = .error e w := by
  unfold checkOpen
  rw [bind_of_ok (get_apply w)]
  by_cases hc : w.sess.Closed
  · exact .inr ⟨.closed, by rw [failIf_pos hc]; rfl⟩
  by_cases he : w.sess.Established
  · exact .inl ⟨by rw [failIf_neg hc, failIf_neg (not_not.2 he)]; rfl, hc, he⟩
  · exact .inr ⟨.badState, by rw [failIf_neg hc, failIf_pos he]; rfl⟩

theorem checkOpen_of {w : World} (hopen : ¬ w.sess.Closed) (hest : w.sess.Established) : checkOpen w = .ok () w := by
  unfold checkOpen
  rw [bind_of_ok (get_apply w), failIf_neg hopen, failIf_neg (not_not.2 hest)]
  rfl

/-- A `wn_Send` call that is not refused, when `ioSend` takes the record. -/
theorem wnSend_of {w : World} {data record : Bytes} (hopen : ¬ w.sess.Closed) (hest : w.sess.Established)
    (hlen : data.length ≤ wnMaxPlaintext) (hroom : data.length + wnSendOverhead ≤ w.sess.scratchLen)
    (hrec : w.protect p wnRecAppdata data = .ok record) (hsend : w.sendRes.headD true = true) :
    wnSend p data w = .ok () (w.afterSeal wnRecAppdata data record) := by
  unfold wnSend
  rw [bind_of_ok (checkOpen_of hopen hest), bind_of_ok (get_apply w), failIf_neg (by omega), pure_bind,
    bind_of_ok (wnRecordProtect_of hrec), afterSeal_eq, hsend]
  rfl

/-- The acts of a `wn_Send` call that ends so. -/
def SendActs (data : Bytes) (acts : List Act) : EStateM.Result Err World Unit → Prop
  | .ok _ _ => ∃ record, acts = [.sent data record true]
  | .error _ _ => acts = [] ∨ acts = [.unsealed wnRecAppdata data] ∨ ∃ record, acts = [.sent data record false]

/-- **`wn_Send` is a run.** -/
theorem wnSend_run (data : Bytes) (w : World) (q : Bytes) :
    ∃ acts, SessRun p (w, q) acts (endState (wnSend p data w), q) ∧ SendActs data acts (wnSend p data w) := by
  unfold wnSend
  rcases checkOpen_cases w with ⟨hopen, -, -⟩ | ⟨e, hopen⟩
  · rw [bind_of_ok hopen, bind_of_ok (get_apply w)]
    by_cases hbad : data.length > wnMaxPlaintext ∨ w.sess.scratchLen < wnSendOverhead ∨
        data.length > w.sess.scratchLen - wnSendOverhead
    · rw [failIf_pos hbad]
      exact ⟨[], .nil, .inl rfl⟩
    rw [failIf_neg hbad, pure_bind]
    rcases wnRecordProtect_cases (p := p) w wnRecAppdata data with ⟨record, hrec, hrun⟩ | ⟨e, hrec, hrun⟩
    · rw [bind_of_ok hrun, afterSeal_eq]
      refine ⟨[.sent data record (w.sendRes.headD true)], ?_, ?_⟩
      · rw [failIf_end]
        exact .single (.sent hrec)
      · cases hc : w.sendRes.headD true with
        | true => exact ⟨record, rfl⟩
        | false => exact .inr (.inr ⟨record, rfl⟩)
    · rw [bind_of_error hrun]
      exact ⟨[.unsealed wnRecAppdata data], .single (.unsealed hrec), .inr (.inl rfl)⟩
  · rw [bind_of_error hopen]
    exact ⟨[], .nil, .inl rfl⟩

/-! ## Post-handshake messages -/

/-- The message at the front of post-handshake content: a ticket, or a KeyUpdate
with its request_update; and what follows it. -/
def takePost : Bytes → Except Err (Option UInt8 × Bytes)
  | [] => .error .decode
  | mType :: r =>
    if mType = wnHsNewSessionTicket then
      match takeVec 3 r with
      | some (_, r) => .ok (none, r)
      | none => .error .decode
    else if mType = wnHsKeyUpdate then
      match takeNat 3 r with
      | some (mLen, req :: r) => if mLen ≠ 1 ∨ req > 1 then .error .decode else .ok (some req, r)
      | _ => .error .decode
    else .error .unexpectedMsg

theorem takePost_hsMsg {body : Bytes} (h : body.length < 2 ^ 24) (r : Bytes) :
    takePost (Rfc.hsMsg wnHsNewSessionTicket body ++ r) = .ok (none, r) := by
  have hv : takeVec 3 (vec 3 body ++ r) = some (body, r) := takeVec_eq_some.2 ⟨rfl, by omega⟩
  rw [Rfc.hsMsg, List.cons_append, takePost, if_pos rfl, hv]

theorem takePost_keyUpdateMsg {req : UInt8} (h : req ≤ 1) (r : Bytes) :
    takePost (keyUpdateMsg req ++ r) = .ok (some req, r) := by
  have hv : takeNat 3 ([0, 0, 1, req] ++ r) = some (1, req :: r) := takeNat_eq_some.2 ⟨rfl, by decide⟩
  have hgood : ¬ ((1 : Nat) ≠ 1 ∨ req > 1) := not_or.2 ⟨not_not.2 rfl, UInt8.not_lt.2 h⟩
  rw [keyUpdateMsg, List.cons_append, takePost, if_neg (by decide), if_pos rfl, hv]
  exact if_neg hgood

theorem takePost_ticket {q r : Bytes} (h : takePost q = .ok (none, r)) :
    ∃ body, body.length < 2 ^ 24 ∧ q = Rfc.hsMsg wnHsNewSessionTicket body ++ r := by
  unfold takePost at h
  split at h
  · cases h
  · next mType q =>
    split at h
    · next ht =>
      split at h
      · next body r' hv =>
        obtain ⟨rfl, hlen⟩ := takeVec_eq_some.1 hv
        cases h
        exact ⟨body, by omega, by simp [Rfc.hsMsg, ht]⟩
      · cases h
    · split at h
      · split at h
        · split at h <;> cases h
        · cases h
      · cases h

theorem takePost_keyUpdate {q r : Bytes} {req : UInt8} (h : takePost q = .ok (some req, r)) :
    req ≤ 1 ∧ q = keyUpdateMsg req ++ r := by
  unfold takePost at h
  split at h
  · cases h
  · next mType q =>
    split at h
    · split at h <;> cases h
    · split at h
      · next ht =>
        split at h
        · next mLen req' r' hv =>
          obtain ⟨rfl, -⟩ := takeNat_eq_some.1 hv
          split at h
          · cases h
          · next hgood =>
            cases h
            simp only [not_or, not_not] at hgood
            obtain ⟨rfl, hreq⟩ := hgood
            exact ⟨by simpa using hreq, by simp [keyUpdateMsg, ht, be]⟩
        · cases h
      · cases h

section Post

variable {msg q : Bytes} (hq : q <:+ msg) (hs : msg.length < 2 ^ 31)
include hq hs

/-- One turn of `wn_session_posths` reads one message. -/
theorem posthsStep_at (hne : q ≠ []) : posthsStep p msg (readerAt msg q) =
    match takePost q with
    | .error e => throw e
    | .ok (none, r) => pure (.inl (readerAt msg r))
    | .ok (some req, r) => posthsKeyUpdate p req r >>= fun _ => pure (.inl (readerAt msg r)) := by
  obtain ⟨mType, q, rfl⟩ := List.exists_cons_of_ne_nil hne
  have hpos : (readerAt msg (mType :: q)).pos < msg.length := by
    have := hq.length_le
    simp only [readerAt_pos, List.length_cons] at this ⊢
    omega
  have hq₁ : q <:+ msg := (List.suffix_cons _ _).trans hq
  unfold posthsStep takePost
  rw [if_pos hpos, wnReadU8_at hq hs]
  dsimp only
  rw [wnReadU24_at hq₁ hs]
  by_cases ht : mType = wnHsNewSessionTicket
  · simp only [ht, if_true, takeVec]
    cases h24 : takeNat 3 q with
    | none =>
      rw [wnReadBytes_fail, failIf_pos (Reader.fail_err _)]
      rfl
    | some x =>
      obtain ⟨mLen, r⟩ := x
      have hq₂ : r <:+ msg := (takeNat_suffix h24).trans hq₁
      have hlt := (takeNat_eq_some.1 h24).2
      have hbytes := wnReadBytes_at hq₂ hs (show mLen < 2 ^ 31 by omega)
      dsimp only [Option.bind_some]
      generalize wnReadBytes (readerAt msg r) mLen = x at hbytes ⊢
      subst hbytes
      cases takeBytes mLen r with
      | none =>
        rw [failIf_pos (Reader.fail_err _)]
        rfl
      | some y =>
        rw [failIf_neg (by simp)]
        rfl
  · simp only [if_neg ht]
    by_cases hk : mType = wnHsKeyUpdate
    · simp only [hk, if_true]
      cases h24 : takeNat 3 q with
      | none =>
        rw [wnReadU8_fail, failIf_pos (.inl (Reader.fail_err _))]
        rfl
      | some x =>
        obtain ⟨mLen, r⟩ := x
        have hq₂ : r <:+ msg := (takeNat_suffix h24).trans hq₁
        have hbyte := wnReadU8_at hq₂ hs
        dsimp only
        generalize wnReadU8 (readerAt msg r) = x at hbyte ⊢
        cases r with
        | nil =>
          subst hbyte
          dsimp only
          rw [failIf_pos (.inl (Reader.fail_err _))]
          rfl
        | cons req r =>
          subst hbyte
          dsimp only
          have hdrop := suffix_drop ((List.suffix_cons _ _).trans hq₂)
          by_cases hbad : mLen ≠ 1 ∨ req > 1
          · rw [failIf_pos (.inr hbad), if_pos hbad]
            rfl
          · rw [failIf_neg (fun h => h.elim (by simp) hbad), if_neg hbad, pure_bind, readerAt_pos, hdrop]
    · simp only [if_neg hk]

/-! The loop, by the message at the front. -/

omit hq hs in
theorem posths_nil (n : Nat) (w : World) : repeatM .decode (posthsStep p msg) (n + 1) (readerAt msg []) w = .ok () w := by
  refine repeatM_done ?_
  unfold posthsStep
  rw [if_neg (by simp [readerAt_pos])]
  rfl

theorem posths_refused {e : Err} (hne : q ≠ []) (h : takePost q = .error e) (n : Nat) (w : World) :
    repeatM .decode (posthsStep p msg) (n + 1) (readerAt msg q) w = .error e w := by
  refine repeatM_error ?_
  rw [posthsStep_at hq hs hne, h]
  rfl

theorem posths_ticket {body r : Bytes} (hmsg : q = Rfc.hsMsg wnHsNewSessionTicket body ++ r)
    (hbody : body.length < 2 ^ 24) (n : Nat) (w : World) :
    repeatM .decode (posthsStep p msg) (n + 1) (readerAt msg q) w =
      repeatM .decode (posthsStep p msg) n (readerAt msg r) w := by
  refine repeatM_continue ?_
  rw [posthsStep_at hq hs (by rw [hmsg]; nofun), hmsg, takePost_hsMsg hbody]
  rfl

theorem posths_keyUpdate {req : UInt8} {r : Bytes} (hmsg : q = keyUpdateMsg req ++ r) (hreq : req ≤ 1) (n : Nat)
    (w : World) : repeatM .decode (posthsStep p msg) (n + 1) (readerAt msg q) w =
      (posthsKeyUpdate p req r >>= fun _ => repeatM .decode (posthsStep p msg) n (readerAt msg r)) w := by
  have hstep := posthsStep_at (p := p) hq hs (by rw [hmsg]; nofun)
  rw [hmsg, takePost_keyUpdateMsg hreq, ← hmsg] at hstep
  exact congrFun (repeatM_bind hstep) w

end Post

/-! ## What no act changes -/

theorem Session.established_open (io : Transport) (client server : TrafficKeys) :
    ¬ (Session.established io client server).Closed ∧ (Session.established io client server).Established := by
  show ¬ (wnSessEstablished &&& wnSessClosed ≠ 0) ∧ wnSessEstablished &&& wnSessEstablished ≠ 0
  decide

/-- The transport and the digest of a session, and what is set of its flags. -/
structure Session.Same (s s' : Session) : Prop where
  ioSend : s'.ioSend = s.ioSend
  scratchLen : s'.scratchLen = s.scratchLen
  digest : s'.digest = s.digest
  established : s.Established → s'.Established

theorem Session.established_or {s : Session} (h : s.Established) (n : Nat) :
    ({ s with flags := s.flags ||| n } : Session).Established := by
  simp only [Session.Established, wnSessEstablished, Nat.and_one_is_mod] at h ⊢
  rw [← Nat.and_one_is_mod, Nat.and_or_distrib_right, Nat.and_one_is_mod]
  intro h0
  exact h (Nat.or_eq_zero_iff.1 h0).1

theorem SessStep.same {x y : World × Bytes} {a : Act} (h : SessStep p x a y) : x.1.sess.Same y.1.sess := by
  cases h with
  | skipped h => rw [h.frame]; exact ⟨rfl, rfl, rfl, id⟩
  | shut => exact ⟨rfl, rfl, rfl, fun h => Session.established_or h _⟩
  | _ => exact ⟨rfl, rfl, rfl, id⟩

theorem SessRun.same {x y : World × Bytes} {acts : List Act} (h : SessRun p x acts y) : x.1.sess.Same y.1.sess := by
  induction h with
  | nil => exact ⟨rfl, rfl, rfl, id⟩
  | cons hstep _ ih =>
    have := hstep.same
    exact ⟨ih.ioSend.trans this.ioSend, ih.scratchLen.trans this.scratchLen, ih.digest.trans this.digest,
      fun h => ih.established (this.established h)⟩

/-! ## KeyUpdates -/

/-- The act of a `wn_session_send_key_update` call that ends so. -/
def ReplyAct (a : Act) : EStateM.Result Err World Unit → Prop
  | .ok _ _ => ∃ record, a = .replied record
  | .error _ _ => (∃ record, a = .replyCut record) ∨ a = .unsealed wnRecHandshake (keyUpdateMsg 0)

section KeyUpdate

variable (hx : p.Expands) {w : World} (hd : w.sess.digest = .sha256)
include hx hd

omit hx in
/-- A reply that goes out whole. -/
theorem wnSessionSendKeyUpdate_of {record : Bytes} {t : TrafficKeys}
    (hrec : w.protect p wnRecHandshake (keyUpdateMsg 0) = .ok record) (hsend : w.sendRes.headD true = true)
    (ht : Rfc.update p w.sess.writeKeys = some t) :
    wnSessionSendKeyUpdate p w = .ok () ((w.afterSeal wnRecHandshake (keyUpdateMsg 0) record).rekeyWrite t) := by
  have hku : wnTls13KeyUpdate p ({ w.sess with cSeq := w.sess.cSeq + 1 } : Session).writeKeys w.sess.digest =
      (.ok (), t) := by
    rw [hd]
    exact wnTls13KeyUpdate_eq p ht
  unfold wnSessionSendKeyUpdate
  rw [bind_of_ok (get_apply w), bind_of_ok (wnRecordProtect_of hrec), afterSeal_eq, hsend, failIf_neg (by simp),
    pure_bind, hku]
  rfl

theorem wnSessionSendKeyUpdate_run (q : Bytes) :
    ∃ a, SessStep p (w, q) a (endState (wnSessionSendKeyUpdate p w), q) ∧ ReplyAct a (wnSessionSendKeyUpdate p w) := by
  rcases wnRecordProtect_cases (p := p) w wnRecHandshake (keyUpdateMsg 0) with ⟨record, hrec, hrun⟩ | ⟨e, hrec, hrun⟩
  · cases hc : w.sendRes.headD true with
    | false =>
      unfold wnSessionSendKeyUpdate
      rw [bind_of_ok (get_apply w), bind_of_ok hrun, afterSeal_eq, hc, failIf_pos rfl]
      exact ⟨.replyCut record, .replyCut hrec hc, .inl ⟨record, rfl⟩⟩
    | true =>
      obtain ⟨t, ht⟩ := Rfc.update_of hx w.sess.writeKeys
      rw [wnSessionSendKeyUpdate_of hd hrec hc ht]
      exact ⟨.replied record, .replied hrec hc ht, record, rfl⟩
  · unfold wnSessionSendKeyUpdate
    rw [bind_of_ok (get_apply w), bind_of_error hrun]
    exact ⟨.unsealed wnRecHandshake (keyUpdateMsg 0), .unsealed hrec, .inr rfl⟩

/-- A KeyUpdate moves the read keys on, and is answered if it asks for that. -/
theorem posthsKeyUpdate_eq (req : UInt8) (r : Bytes) : ∃ t, Rfc.update p w.sess.readKeys = some t ∧
    posthsKeyUpdate p req r w = (if req = 1 then wnSessionSendKeyUpdate p else pure ()) (w.rekeyRead t r) := by
  obtain ⟨t, ht⟩ := Rfc.update_of hx w.sess.readKeys
  have hku : wnTls13KeyUpdate p w.sess.readKeys w.sess.digest = (.ok (), t) := by
    rw [hd]
    exact wnTls13KeyUpdate_eq p ht
  refine ⟨t, ht, ?_⟩
  unfold posthsKeyUpdate
  rw [bind_of_ok (get_apply w), hku]
  rfl

/-- Both are acts. -/
theorem posthsKeyUpdate_run {req : UInt8} (hreq : req ≤ 1) (r : Bytes) :
    ∃ acts, SessRun p (w, keyUpdateMsg req ++ r) (.keyUpdate req :: acts) (endState (posthsKeyUpdate p req r w), r) ∧
      ((req ≠ 1 ∧ acts = [] ∧ ∃ w', posthsKeyUpdate p req r w = .ok () w') ∨
        req = 1 ∧ ∃ a, acts = [a] ∧ ReplyAct a (posthsKeyUpdate p req r w)) := by
  obtain ⟨t, ht, hrun⟩ := posthsKeyUpdate_eq hx hd req r
  rw [hrun]
  by_cases hr : req = 1
  · rw [if_pos hr]
    obtain ⟨a, hstep, hact⟩ := wnSessionSendKeyUpdate_run hx (w := w.rekeyRead t r) hd r
    exact ⟨[a], .cons (.keyUpdate hreq ht) (.single hstep), .inr ⟨hr, a, rfl, hact⟩⟩
  · rw [if_neg hr]
    exact ⟨[], .single (.keyUpdate hreq ht), .inl ⟨hr, rfl, _, rfl⟩⟩

end KeyUpdate

/-- An act of `wn_session_posths`. -/
def Act.Post : Act → Prop
  | .replied _ | .replyCut _ | .ticket _ | .keyUpdate _ => True
  | .unsealed type content => type = wnRecHandshake ∧ content = keyUpdateMsg 0
  | _ => False

theorem ReplyAct.post {a : Act} {r : EStateM.Result Err World Unit} (h : ReplyAct a r) : a.Post := by
  cases r with
  | ok _ _ =>
    obtain ⟨record, rfl⟩ := h
    trivial
  | error _ _ =>
    rcases h with ⟨record, rfl⟩ | rfl
    · trivial
    · exact ⟨rfl, rfl⟩

/-- **`wn_session_posths` is a run** that reads message after message, to the
end of the content if it succeeds. -/
theorem posths_run (hx : p.Expands) {msg : Bytes} (hs : msg.length < 2 ^ 31) : ∀ (n : Nat) (q : Bytes) (w : World),
    q <:+ msg → w.sess.digest = .sha256 → ∃ acts q',
      SessRun p (w, q) acts (endState (repeatM .decode (posthsStep p msg) n (readerAt msg q) w), q') ∧
      (∀ a ∈ acts, a.Post) ∧
      ∀ w', repeatM .decode (posthsStep p msg) n (readerAt msg q) w = .ok () w' → q' = []
  | 0, q, w, _, _ => ⟨[], q, .nil, by simp, fun _ h => by cases h⟩
  | n + 1, q, w, hq, hd => by
    by_cases hne : q = []
    · subst hne
      rw [posths_nil]
      exact ⟨[], [], .nil, by simp, fun _ _ => rfl⟩
    cases ht : takePost q with
    | error e =>
      rw [posths_refused hq hs hne ht]
      exact ⟨[], q, .nil, by simp, by simp⟩
    | ok x =>
      obtain ⟨req, r⟩ := x
      cases req with
      | none =>
        obtain ⟨body, hbody, rfl⟩ := takePost_ticket ht
        obtain ⟨acts, q', hrun, hpost, hend⟩ := posths_run hx hs n r w ((List.suffix_append _ _).trans hq) hd
        rw [posths_ticket hq hs rfl hbody]
        exact ⟨.ticket body :: acts, q', .cons (.ticket hbody) hrun,
          List.forall_mem_cons.2 ⟨trivial, hpost⟩, hend⟩
      | some req =>
        obtain ⟨hreq, rfl⟩ := takePost_keyUpdate ht
        obtain ⟨acts, hrun, hacts⟩ := posthsKeyUpdate_run hx hd hreq r
        have hpost : ∀ a ∈ Act.keyUpdate req :: acts, a.Post := by
          refine List.forall_mem_cons.2 ⟨trivial, ?_⟩
          rcases hacts with ⟨-, rfl, -⟩ | ⟨-, a, rfl, hact⟩
          · simp
          · exact List.forall_mem_singleton.2 hact.post
        rw [posths_keyUpdate hq hs rfl hreq]
        cases hku : posthsKeyUpdate p req r w with
        | error e w₁ =>
          rw [hku] at hrun
          rw [bind_of_error hku]
          exact ⟨_, r, hrun, hpost, by simp⟩
        | ok _ w₁ =>
          rw [hku] at hrun
          have hd₁ : w₁.sess.digest = .sha256 := (SessRun.same hrun).digest.trans hd
          obtain ⟨acts', q', hrun', hpost', hend⟩ :=
            posths_run hx hs n r w₁ ((List.suffix_append _ _).trans hq) hd₁
          rw [bind_of_ok hku]
          refine ⟨_, q', hrun.append hrun', fun a ha => ?_, hend⟩
          rcases List.mem_append.1 ha with ha | ha
          · exact hpost a ha
          · exact hpost' a ha

/-! ## Receiving -/

/-- The application data of the records that were opened. -/
def dataOf (acts : List Act) : List Bytes :=
  acts.filterMap fun a => match a with
    | .opened _ type content => if type = wnRecAppdata then some content else none
    | _ => none

theorem dataOf_append (acts acts' : List Act) : dataOf (acts ++ acts') = dataOf acts ++ dataOf acts' :=
  List.filterMap_append

theorem dataOf_opened (record : Bytes) (type : UInt8) (content : Bytes) (acts : List Act) :
    dataOf (.opened record type content :: acts) =
      (if type = wnRecAppdata then [content] else []) ++ dataOf acts := by
  unfold dataOf
  by_cases h : type = wnRecAppdata <;> simp [h]

theorem dataOf_post {acts : List Act} (h : ∀ a ∈ acts, a.Post) : dataOf acts = [] := by
  refine List.filterMap_eq_nil_iff.2 fun a ha => ?_
  have := h a ha
  cases a with
  | opened record type content => exact this.elim
  | _ => rfl

/-- `wn_Send` has no data for its caller. -/
theorem SendActs.noData {data : Bytes} {acts : List Act} {r : EStateM.Result Err World Unit} (h : SendActs data acts r) :
    dataOf acts = [] := by
  cases r with
  | ok _ _ =>
    obtain ⟨record, rfl⟩ := h
    rfl
  | error _ _ => rcases h with rfl | rfl | ⟨record, rfl⟩ <;> rfl

/-- What a turn of the loop of `wn_Recv` that ends so has opened, with `q` left
to process. -/
def RecvActs (outCap : Nat) (acts : List Act) (q : Bytes) : EStateM.Result Err World (Unit ⊕ RecvOut) → Prop
  | .ok (.inl ()) _ => dataOf acts = [] ∧ q = []
  | .ok (.inr (.deliver m)) _ => dataOf acts = [m]
  | .ok (.inr .small) _ => ∃ m, dataOf acts = [m] ∧ outCap < m.length
  | .error _ _ => dataOf acts = []

theorem recvContent_run (hx : p.Expands) (outCap : Nat) {w : World} (hd : w.sess.digest = .sha256)
    (record : Bytes) (ctype : UInt8) {content : Bytes} (hs : content.length < 2 ^ 31) : ∃ acts q',
      SessRun p (w, if ctype = wnRecHandshake then content else []) acts
        (endState (recvContent p outCap ctype content w), q') ∧
      RecvActs outCap (.opened record ctype content :: acts) q' (recvContent p outCap ctype content w) := by
  unfold recvContent
  by_cases hdata : ctype = wnRecAppdata
  · subst hdata
    rw [if_pos rfl]
    refine ⟨[], [], .nil, ?_⟩
    by_cases hcap : content.length > outCap
    · rw [if_pos hcap]
      exact ⟨content, rfl, hcap⟩
    · rw [if_neg hcap]
      rfl
  rw [if_neg hdata]
  have hnone : ∀ acts, (∀ a ∈ acts, a.Post) → dataOf (.opened record ctype content :: acts) = [] := by
    intro acts hpost
    rw [dataOf_opened, if_neg hdata, dataOf_post hpost]
    rfl
  by_cases hhs : ctype = wnRecHandshake
  · rw [if_pos hhs, if_pos hhs]
    obtain ⟨acts, q', hrun, hpost, hend⟩ := posths_run hx hs (content.length + 1) content w (List.suffix_refl _) hd
    rw [← wnReaderInit_eq] at hrun hend
    cases hr : wnSessionPosths p content w with
    | ok u w' =>
      rw [bind_of_ok hr]
      unfold wnSessionPosths at hr
      rw [hr] at hrun
      exact ⟨acts, q', hrun, hnone acts hpost, hend w' hr⟩
    | error e w' =>
      rw [bind_of_error hr]
      unfold wnSessionPosths at hr
      rw [hr] at hrun
      exact ⟨acts, q', hrun, hnone acts hpost⟩
  rw [if_neg hhs, if_neg hhs]
  have hempty := hnone [] (by simp)
  by_cases halert : ctype = wnRecAlert
  · rw [if_pos halert]
    split
    · refine ⟨[.shut], [], .single .shut, ?_⟩
      show dataOf [.opened record ctype content, .shut] = []
      rw [dataOf_opened, if_neg hdata]
      rfl
    · exact ⟨[], [], .nil, hempty⟩
  · rw [if_neg halert]
    exact ⟨[], [], .nil, hempty⟩

/-- What a record that is read opens to is within the ciphertext limit. -/
theorem opened_length {cap : Nat} {key : Block 16} {iv : Block 12} {seq : UInt64} {w w' : World} {rtype type : UInt8}
    {record content : Bytes} (hread : wnRecvRecord cap w = .ok (rtype, record) w')
    (hopen : wnRecordUnprotect p key iv seq record = .ok (type, content)) :
    content.length + 17 ≤ wnMaxPlaintext + 256 := by
  obtain ⟨v₁, v₂, body, rfl, hcheck, -, -⟩ := wnRecvRecord_ok hread
  have hopened := wnRecordUnprotect_length p hopen
  have hcap := (recordCheck_ok.1 hcheck).2.2.1
  simp only [wireRecord_length, wnMaxPlaintext] at *
  omega

theorem opened_small {cap : Nat} {key : Block 16} {iv : Block 12} {seq : UInt64} {w w' : World} {rtype type : UInt8}
    {record content : Bytes} (hread : wnRecvRecord cap w = .ok (rtype, record) w')
    (hopen : wnRecordUnprotect p key iv seq record = .ok (type, content)) : content.length < 2 ^ 31 := by
  have h := opened_length hread hopen
  unfold wnMaxPlaintext at h
  omega

/-- **One turn of `wn_Recv`** opens at most one record, and processes it. -/
theorem recvStep_run (hx : p.Expands) (outCap : Nat) {w : World} (hd : w.sess.digest = .sha256) (q : Bytes) :
    ∃ acts q', SessRun p (w, q) acts (endState (recvStep p outCap () w), q') ∧
      RecvActs outCap acts q' (recvStep p outCap () w) := by
  unfold recvStep
  rw [bind_of_ok (get_apply w)]
  have hread := wnRecvRecord_onlyRead w.sess.scratchLen
  cases hr : wnRecvRecord w.sess.scratchLen w with
  | error e w₁ =>
    rw [bind_of_error hr]
    exact ⟨[.skipped], q, .single (.skipped (hread.error hr)), rfl⟩
  | ok x w₁ =>
    obtain ⟨rtype, record⟩ := x
    have hskip : SessRun p (w, q) [.skipped] (w₁, q) := .single (.skipped (hread.ok hr))
    rw [bind_of_ok hr]
    dsimp only
    by_cases hccs : rtype = wnRecChangeCipher
    · rw [failIf_pos hccs]
      exact ⟨[.skipped], q, hskip, rfl⟩
    rw [failIf_neg hccs, pure_bind]
    cases hopen : wnRecordUnprotect p w.sess.sKey w.sess.sIv w.sess.sSeq record with
    | error e => exact ⟨[.skipped], q, hskip, rfl⟩
    | ok x =>
      obtain ⟨ctype, content⟩ := x
      have hlen : content.length < 2 ^ 31 := opened_small hr hopen
      obtain ⟨acts, q', hrun, hacts⟩ := recvContent_run hx outCap
        (w := { w₁ with sess := { w.sess with sSeq := w.sess.sSeq + 1 } }) hd record ctype hlen
      exact ⟨.opened record ctype content :: acts, q', .cons (.opened hr hopen) hrun, hacts⟩

/-- A turn in which a record opens. -/
theorem recvStep_opened {outCap : Nat} {w w' : World} {rtype type : UInt8} {record content : Bytes}
    (hread : wnRecvRecord w.sess.scratchLen w = .ok (rtype, record) w') (hccs : rtype ≠ wnRecChangeCipher)
    (hopen : wnRecordUnprotect p w.sess.sKey w.sess.sIv w.sess.sSeq record = .ok (type, content)) :
    recvStep p outCap () w =
      recvContent p outCap type content { w' with sess := { w.sess with sSeq := w.sess.sSeq + 1 } } := by
  unfold recvStep
  rw [bind_of_ok (get_apply w), bind_of_ok hread]
  dsimp only
  rw [failIf_neg hccs, pure_bind, hopen]
  rfl

/-- A turn that ends the loop opened a record of data. -/
theorem recvStep_data {outCap : Nat} {w w' : World} {out : RecvOut} (h : recvStep p outCap () w = .ok (.inr out) w') :
    ∃ w₁ rtype record m, wnRecvRecord w.sess.scratchLen w = .ok (rtype, record) w₁ ∧
      wnRecordUnprotect p w.sess.sKey w.sess.sIv w.sess.sSeq record = .ok (wnRecAppdata, m) ∧
      out = if m.length > outCap then .small else .deliver m := by
  unfold recvStep at h
  obtain ⟨s, w₀, hget, h⟩ := bind_ok.1 h
  cases hget
  obtain ⟨⟨rtype, record⟩, w₁, hread, h⟩ := bind_ok.1 h
  obtain ⟨_, w₂, -, h⟩ := bind_ok.1 h
  obtain ⟨⟨type, content⟩, w₃, hopen, h⟩ := bind_ok.1 h
  obtain ⟨_, w₄, -, h⟩ := bind_ok.1 h
  unfold recvContent at h
  split at h
  · next htype =>
    refine ⟨w₁, rtype, record, content, hread, ?_, ?_⟩
    · rw [← htype]
      exact (ofExcept_eq_ok.1 hopen).1
    · exact (Sum.inr.inj (EStateM.Result.ok.inj h).1).symm
  · split at h
    · obtain ⟨_, _, _, h⟩ := bind_ok.1 h
      cases h
    · split at h
      · split at h <;> cases h
      · cases h

theorem recvStep_deliver {outCap : Nat} {w w' : World} {m : Bytes}
    (h : recvStep p outCap () w = .ok (.inr (.deliver m)) w') :
    m.length ≤ outCap ∧ ∃ w₁ rtype record, wnRecvRecord w.sess.scratchLen w = .ok (rtype, record) w₁ ∧
      wnRecordUnprotect p w.sess.sKey w.sess.sIv w.sess.sSeq record = .ok (wnRecAppdata, m) := by
  obtain ⟨w₁, rtype, record, m', hread, hopen, hout⟩ := recvStep_data h
  split at hout
  · cases hout
  · next hroom =>
    cases hout
    exact ⟨Nat.le_of_not_lt hroom, w₁, rtype, record, hread, hopen⟩

/-- What the loop of `wn_Recv` has opened when it ends so. -/
def LoopActs (outCap : Nat) (acts : List Act) : EStateM.Result Err World RecvOut → Prop
  | .ok (.deliver m) _ => dataOf acts = [m]
  | .ok .small _ => ∃ m, dataOf acts = [m] ∧ outCap < m.length
  | .error _ _ => dataOf acts = []

theorem recvLoop_run (hx : p.Expands) (outCap : Nat) : ∀ (n : Nat) (w : World) (q : Bytes), w.sess.digest = .sha256 →
    ∃ acts q', SessRun p (w, q) acts (endState (repeatM .crypto (recvStep p outCap) n () w), q') ∧
      LoopActs outCap acts (repeatM .crypto (recvStep p outCap) n () w)
  | 0, w, q, _ => ⟨[], q, .nil, rfl⟩
  | n + 1, w, q, hd => by
    obtain ⟨acts, q₁, hrun, hacts⟩ := recvStep_run hx outCap hd q
    cases hstep : recvStep p outCap () w with
    | error e w₁ =>
      rw [hstep] at hrun hacts
      rw [repeatM_error hstep]
      exact ⟨acts, q₁, hrun, hacts⟩
    | ok x w₁ =>
      rw [hstep] at hrun hacts
      cases x with
      | inr out =>
        rw [repeatM_done hstep]
        refine ⟨acts, q₁, hrun, ?_⟩
        cases out <;> exact hacts
      | inl u =>
        obtain ⟨acts', q', hrun', hacts'⟩ := recvLoop_run hx outCap n w₁ q₁ (hrun.same.digest.trans hd)
        rw [repeatM_continue hstep]
        refine ⟨acts ++ acts', q', hrun.append hrun', ?_⟩
        have hdata : dataOf (acts ++ acts') = dataOf acts' := by rw [dataOf_append, hacts.1, List.nil_append]
        revert hacts'
        unfold LoopActs
        rw [hdata]
        exact id

/-- What a `wn_Recv` call that ends so has opened. -/
def RecvCallActs (outCap : Nat) (acts : List Act) : EStateM.Result Err World Bytes → Prop
  | .ok m _ => dataOf acts = [m]
  | .error e _ => dataOf acts = [] ∨ e = .invalidArg ∧ ∃ m, dataOf acts = [m] ∧ outCap < m.length

/-- **`wn_Recv` is a run** that opens at most one record of application data:
the one whose content it returns, or for which `outCap` is too small. -/
theorem wnRecv_run (hx : p.Expands) (outCap : Nat) (w : World) (q : Bytes)
    (hd : w.sess.Established → w.sess.digest = .sha256) :
    ∃ acts q', SessRun p (w, q) acts (endState (wnRecv p outCap w), q') ∧
      RecvCallActs outCap acts (wnRecv p outCap w) := by
  unfold wnRecv recvLoop
  rcases checkOpen_cases w with ⟨hopen, -, hest⟩ | ⟨e, hopen⟩
  · obtain ⟨acts, q', hrun, hacts⟩ := recvLoop_run hx outCap (w.pending + 1) w q (hd hest)
    have hloop : (checkOpen >>= fun _ => get >>= fun s => repeatM .crypto (recvStep p outCap) (s.pending + 1) ()) w =
        repeatM .crypto (recvStep p outCap) (w.pending + 1) () w := by
      rw [bind_of_ok hopen, bind_of_ok (get_apply w)]
    rw [bind_apply, hloop]
    cases hr : repeatM .crypto (recvStep p outCap) (w.pending + 1) () w with
    | error e w₁ =>
      rw [hr] at hrun hacts
      exact ⟨acts, q', hrun, .inl hacts⟩
    | ok out w₁ =>
      rw [hr] at hrun hacts
      cases out with
      | deliver m => exact ⟨acts, q', hrun, hacts⟩
      | small => exact ⟨acts, q', hrun, .inr ⟨rfl, hacts⟩⟩
  · rw [bind_of_error (bind_of_error hopen)]
    exact ⟨[], q, .nil, .inl rfl⟩

/-- On an open session `wn_Recv` is its loop. -/
theorem recvLoop_of {outCap : Nat} {w : World} (hopen : ¬ w.sess.Closed) (hest : w.sess.Established) :
    recvLoop p outCap w = repeatM .crypto (recvStep p outCap) (w.pending + 1) () w := by
  unfold recvLoop
  rw [bind_of_ok (checkOpen_of hopen hest), bind_of_ok (get_apply w)]

/-- When the first turn has data, `wn_Recv` returns it. -/
theorem wnRecv_deliver {outCap : Nat} {w w' : World} {m : Bytes} (hopen : ¬ w.sess.Closed) (hest : w.sess.Established)
    (h : recvStep p outCap () w = .ok (.inr (.deliver m)) w') : wnRecv p outCap w = .ok m w' := by
  have hloop : recvLoop p outCap w = .ok (.deliver m) w' := by
    rw [recvLoop_of hopen hest]
    exact repeatM_done h
  unfold wnRecv
  rw [bind_of_ok hloop]
  rfl

/-- When it fails, so does the call. -/
theorem wnRecv_refuse {outCap : Nat} {w w' : World} {e : Err} (hopen : ¬ w.sess.Closed) (hest : w.sess.Established)
    (h : recvStep p outCap () w = .error e w') : wnRecv p outCap w = .error e w' := by
  have hloop : recvLoop p outCap w = .error e w' := by
    rw [recvLoop_of hopen hest]
    exact repeatM_error h
  exact bind_of_error hloop

/-! ## What every step of a record's processing keeps -/

section Steps

variable {R : World → World → Prop} [Std.Refl R] [IsTrans World R] (hset : ∀ s, Steps R (setSess s))
  (hread : ∀ q, Steps R (emit (.readKeys q))) (hreply : Steps R (wnSessionSendKeyUpdate p))
include hset hread hreply

theorem posthsKeyUpdate_steps (req : UInt8) (unread : Bytes) : Steps R (posthsKeyUpdate p req unread) := by
  refine .bind .get fun w => .bind (hset _) fun _ => .bind (.ofExcept _) fun _ => ?_
  refine .bind (hset _) fun _ => .bind (hread _) fun _ => ?_
  split
  · exact hreply
  · exact .pure _

theorem wnSessionPosths_steps (msg : Bytes) : Steps R (wnSessionPosths p msg) := by
  refine .repeatM (fun r => ?_) _ _
  unfold posthsStep
  split
  · dsimp only
    split
    · exact .bind (.failIf _ _) fun _ => .pure _
    · split
      · exact .bind (.failIf _ _) fun _ => .bind (posthsKeyUpdate_steps hset hread hreply _ _) fun _ => .pure _
      · exact .throw _
  · exact .pure _

theorem recvContent_steps (outCap : Nat) (ctype : UInt8) (plain : Bytes) :
    Steps R (recvContent p outCap ctype plain) := by
  unfold recvContent
  split
  · exact .pure _
  split
  · exact .bind (wnSessionPosths_steps hset hread hreply _) fun _ => .pure _
  split
  · split
    · exact .bind .get fun _ => .bind (hset _) fun _ => .throw _
    · exact .throw _
  · exact .throw _

end Steps

/-! ## The loop of `wn_Recv` ends

Only `wn_recv_record` touches what the transport holds, and a turn that goes on
has taken a record off it. -/

/-- What the transport holds is the same after. -/
def InboxKept (w w' : World) : Prop := w'.inbox = w.inbox

instance : Std.Refl InboxKept := ⟨fun _ => rfl⟩

instance : IsTrans World InboxKept := ⟨fun _ _ _ h₁ h₂ => Eq.trans h₂ h₁⟩

theorem setSess_inboxKept (s : Session) : Steps InboxKept (setSess s) := .modify fun _ => rfl

theorem ioSend_inboxKept (buf : Bytes) : Steps InboxKept (ioSend buf) := fun _ => rfl

theorem emit_inboxKept (ev : Event) : Steps InboxKept (emit ev) := .modify fun _ => rfl

theorem wnSessionSendKeyUpdate_inboxKept : Steps InboxKept (wnSessionSendKeyUpdate p) := by
  refine .bind .get fun w => .bind (.bind (emit_inboxKept _) fun _ => .ofExcept _) fun record => ?_
  refine .bind (setSess_inboxKept _) fun _ => .bind (ioSend_inboxKept _) fun sent => .bind (.failIf _ _) fun _ => ?_
  exact .bind (setSess_inboxKept _) fun _ => .bind (.ofExcept _) fun _ =>
    .bind (setSess_inboxKept _) fun _ => emit_inboxKept _

theorem recvContent_inboxKept (outCap : Nat) (ctype : UInt8) (plain : Bytes) :
    Steps InboxKept (recvContent p outCap ctype plain) :=
  recvContent_steps setSess_inboxKept (fun _ => emit_inboxKept _) wnSessionSendKeyUpdate_inboxKept outCap ctype plain

/-- Every turn that does not fail takes bytes off the transport. -/
theorem recvStep_pending {outCap : Nat} {w w' : World} {x : Unit ⊕ RecvOut}
    (h : recvStep p outCap () w = .ok x w') : w'.pending < w.pending := by
  unfold recvStep at h
  obtain ⟨s, w₀, hget, h⟩ := bind_ok.1 h
  cases hget
  obtain ⟨⟨rtype, record⟩, w₁, hread, h⟩ := bind_ok.1 h
  have hrest : Steps InboxKept (do
      failIf (rtype = wnRecChangeCipher) .unexpectedMsg
      let opened ← ofExcept (wnRecordUnprotect p w.sess.sKey w.sess.sIv w.sess.sSeq record)
      setSess { w.sess with sSeq := w.sess.sSeq + 1 }
      recvContent p outCap opened.1 opened.2) :=
    .bind (.failIf _ _) fun _ => .bind (.ofExcept _) fun _ => .bind (setSess_inboxKept _) fun _ =>
      recvContent_inboxKept _ _ _
  have hkept : w'.inbox = w₁.inbox := hrest.ok h
  calc w'.pending = w₁.pending := by rw [World.pending, hkept, World.pending]
    _ < w.pending := wnRecvRecord_pending hread

/-- So the model's fuel is no bound of its own: with more of it the loop runs the
same. -/
theorem recvLoop_fuel (outCap : Nat) {n : Nat} {w : World} (hn : w.pending < n) :
    repeatM .crypto (recvStep p outCap) n () w = repeatM .crypto (recvStep p outCap) (w.pending + 1) () w :=
  repeatM_fuel (fun _ _ => True) (fun _ w => w.pending) (fun _ h => ⟨trivial, recvStep_pending h⟩) trivial hn
    (Nat.lt_succ_self _)

/-! ## Runs of calls -/

/-- A call on a session. -/
inductive Call where
  | send (data : Bytes)
  | recv (outCap : Nat)
  | close

/-- The world after a call, whatever it returns. -/
def Call.after (p : Provider cfg) (w : World) : Call → World
  | .send data => endState (wnSend p data w)
  | .recv outCap => endState (wnRecv p outCap w)
  | .close => endState (wnClose p w)

/-- The world after one call after the other. -/
def callsAfter (p : Provider cfg) (w : World) (calls : List Call) : World := calls.foldl (Call.after p) w

/-- **Calls before `wn_Close` are a run.** -/
theorem calls_run (hx : p.Expands) : ∀ (calls : List Call) (w : World) (q : Bytes), Call.close ∉ calls →
    w.sess.digest = .sha256 → ∃ acts q', SessRun p (w, q) acts (callsAfter p w calls, q')
  | [], _, q, _, _ => ⟨[], q, .nil⟩
  | call :: calls, w, q, hopen, hd => by
    have hcall : ∃ acts q', SessRun p (w, q) acts (call.after p w, q') := by
      cases call with
      | send data =>
        obtain ⟨acts, hrun, -⟩ := wnSend_run data w q
        exact ⟨acts, q, hrun⟩
      | recv outCap =>
        obtain ⟨acts, q', hrun, -⟩ := wnRecv_run hx outCap w q fun _ => hd
        exact ⟨acts, q', hrun⟩
      | close => exact absurd List.mem_cons_self hopen
    obtain ⟨acts, q₁, hrun⟩ := hcall
    obtain ⟨acts', q', hrun'⟩ := calls_run hx calls (call.after p w) q₁ (fun h => hopen (List.mem_cons_of_mem _ h))
      (hrun.same.digest.trans hd)
    exact ⟨acts ++ acts', q', hrun.append hrun'⟩

end WolfNano

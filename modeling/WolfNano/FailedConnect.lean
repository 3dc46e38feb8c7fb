/-
What a driver that failed leaves in the caller's session.

Both drivers zero the session after their argument checks, and until
`wn_SessionEstablish` nothing writes to it again. That function derives
straight into the session and looks at its code afterwards, so what it derived
before it failed stays there.
-/
import WolfNano.PskFacts
import WolfNano.CertFacts
import WolfNano.ClearProvider
import WolfNano.Observed

namespace WolfNano

open Prog

variable {cfg : Config} {p : Provider cfg} {c : CertProvider}

/-! ## Parts that leave the session alone -/

/-- The session is the same after. -/
def SessKept (w w' : World) : Prop := w'.sess = w.sess

instance : Std.Refl SessKept := ⟨fun _ => rfl⟩

instance : IsTrans World SessKept := ⟨fun _ _ _ h₁ h₂ => Eq.trans h₂ h₁⟩

theorem OnlyRead.sessKept {w w' : World} (h : OnlyRead w w') : SessKept w w' := by
  rw [SessKept, h.frame]

theorem ioSend_sessKept (buf : Bytes) : Steps SessKept (ioSend buf) := fun _ => rfl

theorem emit_sessKept (ev : Event) : Steps SessKept (emit ev) := .modify fun _ => rfl

theorem sendPlainRecord_sessKept (type : UInt8) (body : Bytes) : Steps SessKept (sendPlainRecord type body) :=
  .bind (ioSend_sessKept _) fun _ => .bind (.failIf _ _) fun _ =>
    .bind (ioSend_sessKept _) fun _ => .failIf _ _

theorem wnRecordProtect_sessKept (key : Block 16) (iv : Block 12) (seq : UInt64) (type : UInt8) (content : Bytes) :
    Steps SessKept (wnRecordProtect p key iv seq type content) :=
  .bind (emit_sessKept _) fun _ => .ofExcept _

theorem pskClientHello_sessKept (a : PskArgs p) : Steps SessKept (pskClientHello p a) := by
  refine .bind (.ofExcept _) fun emptyHash => ?_
  refine .bind (.ofExcept _) fun random32 => .bind (.ofExcept _) fun sid => .bind (.ofExcept _) fun share => ?_
  refine .bind (.ofExcept _) fun tc => .bind (.failIf _ _) fun _ => .bind (.ofExcept _) fun early => ?_
  refine .bind (.ofExcept _) fun binderKey => .bind (.ofExcept _) fun th => .bind (.ofExcept _) fun binder => ?_
  refine .bind (.ofExcept _) fun tc => .bind (sendPlainRecord_sessKept _ _) fun _ => ?_
  exact .bind (sendPlainRecord_sessKept _ _) fun _ => .pure _

theorem certClientHello_sessKept (a : CertArgs p c) : Steps SessKept (certClientHello p c a) := by
  refine .bind (.ofExcept _) fun emptyHash => .bind (.ofExcept _) fun random32 => ?_
  refine .bind (.ofExcept _) fun sid => .bind (.ofExcept _) fun share => .bind (.ofExcept _) fun tc => ?_
  refine .bind (.ofExcept _) fun chLen => .bind (.ofExcept _) fun tc => ?_
  exact .bind (sendPlainRecord_sessKept _ _) fun _ => .bind (sendPlainRecord_sessKept _ _) fun _ => .pure _

theorem wnSendAlert_sessKept (keys : HsKeys) (seq : UInt64) (e : Err) : Steps SessKept (wnSendAlert p keys seq e) :=
  .tryCatch (.bind (wnRecordProtect_sessKept _ _ _ _ _) fun _ => .bind (ioSend_sessKept _) fun _ => .pure _)
    fun _ => .pure _

theorem alerting_sessKept {α : Type} (keys : HsKeys) (seq : UInt64) {x : Io α} (hx : Steps SessKept x) :
    Steps SessKept (alerting p keys seq x) := by
  unfold alerting
  split
  · exact .tryCatch hx fun e => .bind (wnSendAlert_sessKept keys seq e) fun _ => .throw e
  · exact hx

/-- A failure passed on with an alert is the failure, and the alert leaves the session alone. -/
theorem alerting_error {α : Type} {keys : HsKeys} {seq : UInt64} {x : Io α} {e : Err} {w w' : World}
    (h : alerting p keys seq x w = .error e w') : ∃ w₁, x w = .error e w₁ ∧ w'.sess = w₁.sess := by
  unfold alerting at h
  split at h
  · cases hx : x w with
    | ok r w₁ =>
      rw [tryCatch_of_ok hx] at h
      cases h
    | error e₁ w₁ =>
      rw [tryCatch_of_error hx] at h
      have hkept : Steps SessKept (wnSendAlert p keys seq e₁) := wnSendAlert_sessKept keys seq e₁
      rcases bind_error.1 h with halert | ⟨_, w₂, halert, hthrow⟩
      · -- the alert is best effort: it does not fail
        unfold wnSendAlert at halert
        rw [tryCatch_apply] at halert
        split at halert <;> cases halert
      · cases hthrow
        exact ⟨w₁, rfl, hkept.ok halert⟩
  · exact ⟨w', h, rfl⟩

/-! ## Up to the Finished -/

/-- Until its Finished, a driver that got past its argument checks has a zero session. -/
theorem pskHandshake_sess {a : PskArgs p} (hargs : ¬ a.Rejected p) (w : World) :
    (endState (pskHandshake p a w)).sess = .zero := by
  rw [pskHandshake, failIf_neg hargs]
  have hrest : ∀ x : Io (PskHello p × HsKeys × PskFlight × Block 32 × Block 32), Steps SessKept x →
      (endState ((pure () >>= fun _ => setSess .zero >>= fun _ => x) w)).sess = .zero :=
    fun x hx => hx { w with sess := .zero }
  refine hrest _ (.bind (pskClientHello_sessKept a) fun hello => ?_)
  refine .bind ((recvServerHello_onlyRead _ _ _ _ _).mono fun h => h.sessKept) fun x => .bind (.ofExcept _) fun th => ?_
  refine .bind (.ofExcept _) fun keys => .bind ((pskFlight_onlyRead _ _ _).mono fun h => h.sessKept) fun flight => ?_
  exact .bind (.ofExcept _) fun th => .bind (.ofExcept _) fun mac => .pure _

theorem certHandshake_sess {a : CertArgs p c} (hargs : ¬ a.Rejected p c) (w : World) :
    (endState (certHandshake p c a w)).sess = .zero := by
  rw [certHandshake, failIf_neg hargs]
  have hrest : ∀ x : Io (CertHello p × HsKeys × CertFlight × Block 32 × Block 32), Steps SessKept x →
      (endState ((pure () >>= fun _ => setSess .zero >>= fun _ => x) w)).sess = .zero :=
    fun x hx => hx { w with sess := .zero }
  refine hrest _ (.bind (certClientHello_sessKept a) fun hello => ?_)
  refine .bind ((recvServerHello_onlyRead _ _ _ _ _).mono fun h => h.sessKept) fun x => .bind (.ofExcept _) fun th => ?_
  refine .bind (.ofExcept _) fun early => .bind (.ofExcept _) fun keys => ?_
  exact .bind (alerting_sessKept _ _ ((certFlightMac_onlyRead _ _ _ _).mono fun h => h.sessKept)) fun x => .pure _

/-! ## The Finished, and the session -/

/-- A derivation that leaves a zero buffer zero: it fails, or derives zeros. -/
def Blank {n : Nat} (r : Except Err (Block n)) : Prop := ∀ b, r = .ok b → b = Block.zero n

theorem into_zero {n : Nat} {r : Except Err (Block n)} : into (Block.zero n) r = Block.zero n ↔ Blank r := by
  cases r with
  | ok b =>
    constructor
    · intro h b' hb
      cases hb
      exact h
    · intro h
      exact h b rfl
  | error e =>
    constructor
    · intro _ b' hb
      cases hb
    · intro _
      rfl

variable (p) in
/-- The master secret `wn_SessionEstablish` goes on with. -/
def masterIn (junk : Junk) (hs emptyHash : Block 32) : Block 32 :=
  into junk.master (wnTls13Extract p (into junk.derived (wnTls13DeriveSecret p hs.val "derived" emptyHash)).val
    (Block.zero 32).val)

variable (p) in
/-- Nothing derived into a zero session from this master secret leaves a trace
there. With no secret of either direction, the keys are those of zeros. -/
structure NothingDerived (master th : Block 32) : Prop where
  client : Blank (wnTls13DeriveSecret p master.val "c ap traffic" th)
  server : Blank (wnTls13DeriveSecret p master.val "s ap traffic" th)
  key : Blank (wnTls13ExpandLabel p 16 (Block.zero 32).val "key" [])
  iv : Blank (wnTls13ExpandLabel p 12 (Block.zero 32).val "iv" [])

/-- A session that was zero is still zero after `wn_SessionEstablish` failed
when nothing derived left a trace in it. -/
theorem wnSessionEstablish_error_zero {junk : Junk} {hs emptyHash th : Block 32} {io : Transport} {e : Err}
    {w w' : World} (hz : w.sess = .zero) (h : wnSessionEstablish p junk hs emptyHash th io w = .error e w') :
    w'.sess = .zero ↔ NothingDerived p (masterIn p junk hs emptyHash) th := by
  unfold wnSessionEstablish at h
  rw [bind_of_ok (get_apply w)] at h
  rcases bind_error.1 h with hset | ⟨_, _, hset, h⟩
  · cases hset
  cases hset
  rcases bind_error.1 h with hf | ⟨_, _, hf, h⟩
  · obtain ⟨-, -, rfl⟩ := failIf_error.1 hf
    simp only [hz, Session.zero, Session.mk.injEq, into_zero, true_and, and_true]
    constructor
    · intro hall
      obtain ⟨hc, hs, hck, hci, hsk, hsi⟩ := hall
      rw [into_zero.2 hc] at hck hci
      exact ⟨hc, hs, hck, hci⟩
    · intro hn
      rw [masterIn] at hn
      rw [into_zero.2 hn.client, into_zero.2 hn.server]
      exact ⟨hn.client, hn.server, hn.key, hn.iv, hn.key, hn.iv⟩
  · rcases bind_error.1 h with hset | ⟨_, _, hset, h⟩ <;> contradiction

variable (p) in
/-- `sendFinished` up to the session: the Finished sealed, and taken whole. -/
def sealFinished (keys : HsKeys) (mac : Block 32) : Io Unit := do
  let record ← wnRecordProtect p keys.cKey keys.cIv 0 wnRecHandshake (finishedMsg mac)
  let sent ← ioSend record
  failIf (sent = false) .crypto

theorem sendFinished_eq (keys : HsKeys) (mac th emptyHash : Block 32) (junk : Junk) (io : Transport) :
    sendFinished p keys mac th emptyHash junk io =
      sealFinished p keys mac >>= fun _ => wnSessionEstablish p junk keys.hs emptyHash th io := by
  simp only [sendFinished, sealFinished, bind_assoc]

theorem sealFinished_sessKept (keys : HsKeys) (mac : Block 32) : Steps SessKept (sealFinished p keys mac) :=
  .bind (wnRecordProtect_sessKept _ _ _ _ _) fun _ => .bind (ioSend_sessKept _) fun _ => .failIf _ _

theorem sendFinished_error_zero {keys : HsKeys} {mac th emptyHash : Block 32} {junk : Junk} {io : Transport} {e : Err}
    {w w' : World} (hz : w.sess = .zero) (h : sendFinished p keys mac th emptyHash junk io w = .error e w') :
    w'.sess = .zero ↔ ∀ w₁, sealFinished p keys mac w = .ok () w₁ →
      NothingDerived p (masterIn p junk keys.hs emptyHash) th := by
  rw [sendFinished_eq] at h
  rcases bind_error.1 h with hseal | ⟨_, w₁, hseal, hest⟩
  · have hzero : w'.sess = .zero := ((sealFinished_sessKept keys mac).error hseal).trans hz
    refine iff_of_true hzero fun w₁ hok => ?_
    rw [hseal] at hok
    cases hok
  · have hz₁ : w₁.sess = .zero := ((sealFinished_sessKept keys mac).ok hseal).trans hz
    rw [wnSessionEstablish_error_zero hz₁ hest]
    constructor
    · intro hn _ _
      exact hn
    · intro hn
      exact hn w₁ hseal

/-! ## The drivers -/

/-- Whenever the PSK driver gets as far as `wn_SessionEstablish` on `w`,
nothing derived there leaves a trace in the session. -/
def PskArgs.NothingLeft (a : PskArgs p) (w : World) : Prop :=
  ∀ hello keys flight th mac w₁ w₂, pskHandshake p a w = .ok (hello, keys, flight, th, mac) w₁ →
    sealFinished p keys mac w₁ = .ok () w₂ → NothingDerived p (masterIn p a.junk keys.hs hello.emptyHash) th

/-- The same of the certificate driver. -/
def CertArgs.NothingLeft (a : CertArgs p c) (w : World) : Prop :=
  ∀ hello keys flight th mac w₁ w₂, certHandshake p c a w = .ok (hello, keys, flight, th, mac) w₁ →
    sealFinished p keys mac w₁ = .ok () w₂ → NothingDerived p (masterIn p a.junk keys.hs hello.emptyHash) th

theorem wnConnectPskEx_error_zero {a : PskArgs p} (hargs : ¬ a.Rejected p) {w w' : World} {e : Err}
    (h : wnConnectPskEx p a w = .error e w') : w'.sess = .zero ↔ a.NothingLeft w := by
  have hz := pskHandshake_sess hargs w
  rw [wnConnectPskEx_eq] at h
  rcases bind_error.1 h with hhs | ⟨⟨hello, keys, flight, th, mac⟩, w₁, hhs, h⟩
  · rw [hhs] at hz
    refine iff_of_true hz fun _ _ _ _ _ _ _ hok => ?_
    rw [hhs] at hok
    cases hok
  · rw [hhs] at hz
    rcases bind_error.1 h with hfin | ⟨_, _, _, hemit⟩
    · rw [sendFinished_error_zero hz hfin]
      constructor
      · intro hn _ _ _ _ _ _ w₂ hok hseal
        rw [hhs] at hok
        cases hok
        exact hn w₂ hseal
      · intro hn w₂ hseal
        exact hn _ _ _ _ _ _ w₂ hhs hseal
    · cases hemit

theorem wnConnectCertImpl_error_zero {a : CertArgs p c} (hargs : ¬ a.Rejected p c) {w w' : World} {e : Err}
    (h : wnConnectCertImpl p c a w = .error e w') : w'.sess = .zero ↔ a.NothingLeft w := by
  have hz := certHandshake_sess hargs w
  rw [wnConnectCertImpl_eq] at h
  rcases bind_error.1 h with hhs | ⟨⟨hello, keys, flight, th, mac⟩, w₁, hhs, h⟩
  · rw [hhs] at hz
    refine iff_of_true hz fun _ _ _ _ _ _ _ hok => ?_
    rw [hhs] at hok
    cases hok
  · rw [hhs] at hz
    rcases bind_error.1 h with halert | ⟨_, _, _, hemit⟩
    · obtain ⟨w₂, hfin, hsess⟩ := alerting_error halert
      rw [hsess, sendFinished_error_zero hz hfin]
      constructor
      · intro hn _ _ _ _ _ _ w₃ hok hseal
        rw [hhs] at hok
        cases hok
        exact hn w₃ hseal
      · intro hn w₃ hseal
        exact hn _ _ _ _ _ _ w₃ hhs hseal
    · cases hemit

/-- The provider without secrets, whose HKDF does not make the server's
application secret. -/
def Provider.withoutServerKeys : Provider .small where
  __ := Provider.clear .small
  hkdfExpandLabel n secret protocol label info :=
    if label = "s ap traffic" then none else (Provider.clear .small).hkdfExpandLabel n secret protocol label info

def PskArgs.withoutServerKeys : PskArgs Provider.withoutServerKeys where
  io := .sized 2048
  rng := ()
  psk := [1]
  identity := [105]
  junk := .zero

end WolfNano

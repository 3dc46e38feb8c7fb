/-
Whom the drivers have talked to when they send their Finished.

`wnConnectPskEx_sound` and `wnConnectCertImpl_authentic` hold of every transport,
every provider and every return value of each of its functions: what the
client has read is a handshake in which the server proved itself.
-/
import WolfNano.PskFacts
import WolfNano.CertFacts
import WolfNano.ClearProvider
import WolfNano.Observed

namespace WolfNano

open Prog

variable {cfg : Config} {p : Provider cfg} {c : CertProvider}

/-- `wn_Record_Protect` was called for a handshake record. Of what the drivers
seal only the Finished is one. -/
def World.SealsFinished (w : World) : Prop :=
  ∃ key nonce content sealed, Event.protect key nonce wnRecHandshake content sealed ∈ w.trace

theorem Emits.not_sealsFinished {w w' : World} (h : Emits Event.Finishless w w') (hw : ¬ w.SealsFinished) :
    ¬ w'.SealsFinished := by
  intro hall
  obtain ⟨key, nonce, content, sealed, hmem⟩ := hall
  obtain ⟨evs, htr, hp⟩ := h
  rw [htr, List.mem_append] at hmem
  rcases hmem with hmem | hmem
  · exact hw ⟨key, nonce, content, sealed, hmem⟩
  · exact hp _ hmem rfl

theorem World.fresh_not_sealsFinished (inbox : List Bytes) (sendRes : List Bool) (sess : Session) :
    ¬ (World.fresh inbox sendRes sess).SealsFinished := by
  intro h
  obtain ⟨_, _, _, _, hmem⟩ := h
  cases hmem

/-- The trace goes on. -/
theorem Emits.trace {P : Event → Prop} {w w' : World} (h : Emits P w w') {pre : List Event}
    (hw : ∃ evs, w.trace = pre ++ evs) : ∃ evs, w'.trace = pre ++ evs := by
  obtain ⟨evs, htr, -⟩ := h
  obtain ⟨evs₀, h₀⟩ := hw
  exact ⟨evs₀ ++ evs, by rw [htr, h₀, List.append_assoc]⟩

/-! ## The PSK driver -/

/-- **Soundness of the PSK driver.** It sends its Finished, or succeeds, only
if the stream began with an authentic handshake for the ClientHello it sent;
when it succeeds, the session has that handshake's application keys. -/
theorem wnConnectPskEx_sound (a : PskArgs p) (inbox : List Bytes) (sendRes : List Bool) (sess : Session)
    (h : (∃ w', wnConnectPskEx p a (.fresh inbox sendRes sess) = .ok () w') ∨
      (endState (wnConnectPskEx p a (.fresh inbox sendRes sess))).SealsFinished) :
    ∃ x : PskParts p, x.Authentic a ∧ (∃ rest, inbox.flatten = x.stream ++ rest) ∧
      (∃ later, (endState (wnConnectPskEx p a (.fresh inbox sendRes sess))).trace = helloSends x.hello.ch ++ later) ∧
      ∀ w', wnConnectPskEx p a (.fresh inbox sendRes sess) = .ok () w' →
        ∃ client server, Rfc.apTraffic p a.psk x.ecdhe.val "c ap traffic" x.messages = some client ∧
          Rfc.apTraffic p a.psk x.ecdhe.val "s ap traffic" x.messages = some server ∧
          w'.sess = .established a.io client server := by
  rw [wnConnectPskEx_eq] at h ⊢
  cases hhs : pskHandshake p a (.fresh inbox sendRes sess) with
  | error e w =>
    have hplain := ((pskHandshake_emits a).error hhs).mono fun _ h => h.finishless
    rw [bind_of_error hhs] at h
    rcases h with ⟨_, h⟩ | h
    · cases h
    · exact absurd h (hplain.not_sealsFinished (World.fresh_not_sealsFinished _ _ _))
  | ok r w =>
    obtain ⟨hello, keys, flight, th, mac⟩ := r
    obtain ⟨x, hx, rfl, hs, -, -, hth, -, -, hread, hw⟩ := pskHandshake_ok hhs
    rw [bind_of_ok hhs]
    refine ⟨x, hx, ⟨_, hread⟩, ?_, fun w' hok => ?_⟩
    · refine Emits.trace (w := w) (P := fun _ => True) ?_ ⟨[], by rw [hw]; simp [World.fresh]⟩
      exact (Steps.bind (sendFinished_emits (fun _ _ => trivial) _ _ _ _ _ _) fun _ => emit_emits trivial) w
    · obtain ⟨_, w₁, hfin, hemit⟩ := bind_ok.1 hok
      obtain ⟨_, client, server, -, hc, hs', hw₁⟩ := sendFinished_ok hx.hello.emptyHash hs hth hfin
      cases hemit
      exact ⟨client, server, hc, hs', by rw [hw₁]⟩

theorem wnConnectPskEx_sound_clear : ∃ x : PskParts (Provider.clear .small), x.Authentic (.clear [105] 2048) ∧
    ∃ rest, [clearPskStream].flatten = x.stream ++ rest := by
  obtain ⟨x, hx, hrest, -⟩ := wnConnectPskEx_sound (.clear [105] 2048) [clearPskStream] [] .zero
    (.inl (code_ok.1 (by decide +kernel)))
  exact ⟨x, hx, hrest⟩

/-! ## The certificate driver -/

/-- **Server authentication of the certificate driver.** It sends its Finished,
or succeeds, only if the stream began with an authentic handshake for the
ClientHello it sent: one whose Certificate the caller's anchor, name and pin
accept and whose CertificateVerify and Finished cover the messages before
them. -/
theorem wnConnectCertImpl_authentic (a : CertArgs p c) (inbox : List Bytes) (sendRes : List Bool) (sess : Session)
    (h : (∃ w', wnConnectCertImpl p c a (.fresh inbox sendRes sess) = .ok () w') ∨
      (endState (wnConnectCertImpl p c a (.fresh inbox sendRes sess))).SealsFinished) :
    ∃ x : CertParts p, x.Authentic a ∧ (∃ rest, inbox.flatten = x.stream ++ rest) ∧
      ∃ later, (endState (wnConnectCertImpl p c a (.fresh inbox sendRes sess))).trace =
        helloSends x.hello.ch ++ later := by
  rw [wnConnectCertImpl_eq] at h ⊢
  cases hhs : certHandshake p c a (.fresh inbox sendRes sess) with
  | error e w =>
    have hno := (certHandshake_emits (fun _ h _ => h) a).error hhs
    rw [bind_of_error hhs] at h
    rcases h with ⟨_, h⟩ | h
    · cases h
    · exact absurd h (hno.not_sealsFinished (World.fresh_not_sealsFinished _ _ _))
  | ok r w =>
    obtain ⟨hello, keys, flight, th, mac⟩ := r
    obtain ⟨x, hx, rfl, -, -, -, -, -, -, hread, hw⟩ := certHandshake_ok hhs
    rw [bind_of_ok hhs]
    refine ⟨x, hx, ⟨_, hread⟩, ?_⟩
    refine Emits.trace (w := w) (P := fun _ => True) ?_ ⟨[], by rw [hw]; simp [World.fresh]⟩
    refine (Steps.bind (alerting_emits (fun _ _ _ => trivial) _ _ ?_) fun _ => emit_emits trivial) w
    exact sendFinished_emits (fun _ _ => trivial) _ _ _ _ _ _

theorem wnConnectCertImpl_authentic_clear : ∃ x : CertParts (Provider.clear .small), x.Authentic CertArgs.clear ∧
    ∃ rest, [clearCertStream].flatten = x.stream ++ rest := by
  obtain ⟨x, hx, hrest, -⟩ := wnConnectCertImpl_authentic .clear [clearCertStream] [] .zero
    (.inl (code_ok.1 (by decide +kernel)))
  exact ⟨x, hx, hrest⟩

end WolfNano

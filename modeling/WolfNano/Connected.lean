/-
The world in which a driver has succeeded: where every session starts.
-/
import WolfNano.PskFacts
import WolfNano.CertFacts

namespace WolfNano

open Prog

variable {cfg : Config} {p : Provider cfg} {c : CertProvider}

variable (p c) in
/-- A driver has succeeded and left this world. -/
def Connected (w : World) : Prop :=
  (∃ (a : PskArgs p) (w₀ : World), wnConnectPskEx p a w₀ = .ok () w) ∨
    ∃ (a : CertArgs p c) (w₀ : World), wnConnectCertImpl p c a w₀ = .ok () w

/-- Keys of an application traffic secret. -/
theorem Rfc.apTraffic_keys {psk ecdhe : Bytes} {label : String} {messages : Bytes} {t : TrafficKeys}
    (h : Rfc.apTraffic p psk ecdhe label messages = some t) : Rfc.trafficKeys p t.secret = some t := by
  simp only [Rfc.apTraffic, Option.bind_eq_bind, Option.bind_eq_some_iff] at h
  obtain ⟨_, -, secret, -, hkeys⟩ := h
  obtain ⟨rfl, -, -⟩ := (Rfc.trafficKeys_eq_some p).1 hkeys
  exact hkeys

/-- The session is established, with keys that are those of their secrets, over
a transport with room for a record. -/
theorem Connected.established {w : World} (h : Connected p c w) : ∃ io client server,
    w.sess = .established io client server ∧ 2048 ≤ io.scratchLen ∧
      Rfc.trafficKeys p client.secret = some client ∧ Rfc.trafficKeys p server.secret = some server := by
  rcases h with ⟨a, w₀, h⟩ | ⟨a, w₀, h⟩
  · rw [wnConnectPskEx_eq] at h
    obtain ⟨⟨hello, keys, flight, th, mac⟩, w₁, hhs, h⟩ := bind_ok.1 h
    have hargs : ¬ a.Rejected p := by
      intro hrej
      rw [pskHandshake, failIf_pos hrej] at hhs
      cases hhs
    obtain ⟨x, hx, rfl, hs, -, -, hth, -⟩ := pskHandshake_ok hhs
    obtain ⟨_, w₂, hfin, hemit⟩ := bind_ok.1 h
    obtain ⟨_, client, server, -, hc, hs', hw₂⟩ := sendFinished_ok hx.hello.emptyHash hs hth hfin
    cases hemit
    simp only [PskArgs.Rejected, not_or, Nat.not_lt] at hargs
    exact ⟨a.io, client, server, by rw [hw₂], hargs.2.2.2.2.1, Rfc.apTraffic_keys hc, Rfc.apTraffic_keys hs'⟩
  · rw [wnConnectCertImpl_eq] at h
    obtain ⟨⟨hello, keys, flight, th, mac⟩, w₁, hhs, h⟩ := bind_ok.1 h
    have hargs : ¬ a.Rejected p c := by
      intro hrej
      rw [certHandshake, failIf_pos hrej] at hhs
      cases hhs
    obtain ⟨x, hx, rfl, hs, -, -, hth, -⟩ := certHandshake_ok hhs
    obtain ⟨_, w₂, hfin, hemit⟩ := bind_ok.1 h
    obtain ⟨_, client, server, -, hc, hs', hw₂⟩ :=
      sendFinished_ok hx.hello.emptyHash hs hth (alerting_ok hfin)
    cases hemit
    simp only [CertArgs.Rejected, not_or, Nat.not_lt] at hargs
    have hroom : 2048 ≤ wnCertScratchMin cfg := by
      unfold wnCertScratchMin wnCertIoMin
      split <;> omega
    exact ⟨a.io, client, server, by rw [hw₂], Nat.le_trans hroom hargs.2.2.2, Rfc.apTraffic_keys hc,
      Rfc.apTraffic_keys hs'⟩

end WolfNano

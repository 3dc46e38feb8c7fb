/-
The key schedule is RFC 8446's: when the code's derivations succeed they are
the functions of the transcript that `Rfc` names, and they succeed when those
are defined.

A session established is `Session.established` of the two directions' keys;
one that is not keeps its flags.
-/
import WolfNano.Rfc8446
import WolfNano.Session

namespace WolfNano

open Prog

variable {cfg : Config} (p : Provider cfg)

@[simp] theorem orCrypto_some {α : Type} (a : α) : orCrypto (some a) = .ok a := rfl

theorem orCrypto_ok {α : Type} {x : Option α} {a : α} : orCrypto x = .ok a ↔ x = some a := by
  cases x <;> simp [orCrypto]

theorem orCrypto_error {α : Type} {x : Option α} {e : Err} :
    orCrypto x = .error e ↔ x = none ∧ e = .crypto := by
  cases x <;> simp [orCrypto, eq_comm]

theorem isOk_eq_true {α : Type} {x : Except Err α} : x.isOk = true ↔ ∃ a, x = .ok a := by
  cases x <;> simp [Except.isOk, Except.toBool]

@[simp] theorem isOk_ok {α : Type} (a : α) : (.ok a : Except Err α).isOk = true := rfl

@[simp] theorem into_ok {n : Nat} (old b : Block n) : into old (.ok b) = b := rfl

/-! ## The handshake keys -/

theorem wnTls13ExpandLabel_eq (n : Nat) (secret : Block 32) (label : String) (info : Bytes) :
    wnTls13ExpandLabel p n secret.val label info = orCrypto (Rfc.expandLabel p n secret label info) := rfl

theorem wnTls13DeriveSecret_eq {th : Block 32} {messages : Bytes} (h : p.sha256 messages = some th)
    (secret : Block 32) (label : String) :
    wnTls13DeriveSecret p secret.val label th = orCrypto (Rfc.deriveSecret p secret label messages) := by
  simp [wnTls13DeriveSecret, Rfc.deriveSecret, h, wnTls13ExpandLabel_eq]

theorem Rfc.trafficKeys_eq_some {secret : Block 32} {t : TrafficKeys} :
    Rfc.trafficKeys p secret = some t ↔ t.secret = secret ∧
      Rfc.expandLabel p 16 secret "key" [] = some t.key ∧ Rfc.expandLabel p 12 secret "iv" [] = some t.iv := by
  simp only [Rfc.trafficKeys, Option.bind_eq_bind, Option.bind_eq_some_iff, Option.pure_def, Option.some.injEq]
  constructor
  · intro h
    obtain ⟨key, hk, iv, hi, rfl⟩ := h
    exact ⟨rfl, hk, hi⟩
  · intro h
    obtain ⟨rfl, hk, hi⟩ := h
    exact ⟨_, hk, _, hi, rfl⟩

theorem Rfc.handshakeSecret_eq {psk : Bytes} {early : Block 32} (h : Rfc.earlySecret p psk = some early)
    (ecdhe : Bytes) : Rfc.handshakeSecret p psk ecdhe =
      (Rfc.deriveSecret p early "derived" []).bind fun salt => p.hkdfExtract salt.val ecdhe := by
  simp [Rfc.handshakeSecret, h]

/-- **The handshake keys are the RFC's**, for the messages whose hash is `th`. -/
theorem wnDeriveHsKeys_ok {psk ecdhe messages : Bytes} {early emptyHash th : Block 32} (keys : HsKeys)
    (hempty : p.sha256 [] = some emptyHash) (hearly : Rfc.earlySecret p psk = some early)
    (hth : p.sha256 messages = some th) :
    wnDeriveHsKeys p early ecdhe emptyHash th = .ok keys ↔
      Rfc.handshakeSecret p psk ecdhe = some keys.hs ∧
      Rfc.hsTraffic p psk ecdhe "c hs traffic" messages = some ⟨keys.cHs, keys.cKey, keys.cIv⟩ ∧
      Rfc.hsTraffic p psk ecdhe "s hs traffic" messages = some ⟨keys.sHs, keys.sKey, keys.sIv⟩ := by
  simp only [wnDeriveHsKeys, wnTls13Extract, wnTls13ExpandLabel_eq, wnTls13DeriveSecret_eq p hempty,
    wnTls13DeriveSecret_eq p hth, except_bind_ok, orCrypto_ok, Rfc.hsTraffic,
    Rfc.handshakeSecret_eq p hearly, Option.bind_eq_bind, Option.bind_eq_some_iff, Rfc.trafficKeys_eq_some]
  constructor
  · intro h
    obtain ⟨salt, hsalt, hs, hhs, cHs, hc, sHs, hsH, cKey, hck, cIv, hci, sKey, hsk, sIv, hsi, h⟩ := h
    cases h
    exact ⟨⟨salt, hsalt, hhs⟩, ⟨hs, ⟨salt, hsalt, hhs⟩, cHs, hc, rfl, hck, hci⟩,
      ⟨hs, ⟨salt, hsalt, hhs⟩, sHs, hsH, rfl, hsk, hsi⟩⟩
  · intro hall
    obtain ⟨⟨salt, hsalt, hhs⟩, ⟨hs, ⟨salt', hsalt', hhs'⟩, cHs, hc, rfl, hck, hci⟩,
      ⟨hs'', ⟨salt'', hsalt'', hhs''⟩, sHs, hsH, rfl, hsk, hsi⟩⟩ := hall
    obtain rfl := Option.some.inj (hsalt.symm.trans hsalt')
    obtain rfl := Option.some.inj (hsalt.symm.trans hsalt'')
    obtain rfl := Option.some.inj (hhs.symm.trans hhs')
    obtain rfl := Option.some.inj (hhs.symm.trans hhs'')
    exact ⟨salt, hsalt, _, hhs, _, hc, _, hsH, _, hck, _, hci, _, hsk, _, hsi, rfl⟩

/-! ## Finished -/

theorem wnTls13FinishedMac_eq {th : Block 32} {messages : Bytes} (h : p.sha256 messages = some th)
    (baseKey : Block 32) :
    wnTls13FinishedMac p baseKey th = orCrypto (Rfc.finished p baseKey messages) := by
  simp only [wnTls13FinishedMac, wnTls13ExpandLabel_eq, Rfc.finished, h]
  cases Rfc.expandLabel p 32 baseKey "finished" [] <;> rfl

/-! ## KeyUpdate -/

/-- The next generation, when its derivations succeed. -/
theorem wnTls13KeyUpdate_eq {t t' : TrafficKeys} (h : Rfc.update p t = some t') :
    wnTls13KeyUpdate p t .sha256 = (.ok (), t') := by
  simp only [Rfc.update, Option.bind_eq_bind, Option.bind_eq_some_iff, Rfc.trafficKeys_eq_some] at h
  obtain ⟨secret, hs, rfl, hk, hi⟩ := h
  simp only [wnTls13KeyUpdate, wnTls13ExpandLabel_eq, hs, hk, hi, orCrypto]

/-! ## Primitives that do not fail -/

section Total

variable {p} (hp : p.Total)
include hp

theorem Rfc.expandLabel_total (n : Nat) (secret : Block 32) (label : String) (context : Bytes) :
    ∃ b, Rfc.expandLabel p n secret label context = some b :=
  Option.ne_none_iff_exists'.1 (hp.hkdfExpandLabel _ _ _ _ _)

theorem Rfc.deriveSecret_total (secret : Block 32) (label : String) (messages : Bytes) :
    ∃ b, Rfc.deriveSecret p secret label messages = some b := by
  obtain ⟨th, hth⟩ := Option.ne_none_iff_exists'.1 (hp.sha256 messages)
  simpa [Rfc.deriveSecret, hth] using Rfc.expandLabel_total hp 32 secret label th.val

theorem Rfc.earlySecret_total (psk : Bytes) : ∃ b, Rfc.earlySecret p psk = some b :=
  Option.ne_none_iff_exists'.1 (hp.hkdfExtract _ _)

theorem Rfc.handshakeSecret_total (psk ecdhe : Bytes) : ∃ b, Rfc.handshakeSecret p psk ecdhe = some b := by
  obtain ⟨early, hearly⟩ := Rfc.earlySecret_total hp psk
  obtain ⟨salt, hsalt⟩ := Rfc.deriveSecret_total hp early "derived" []
  simpa [Rfc.handshakeSecret, hearly, hsalt] using Option.ne_none_iff_exists'.1 (hp.hkdfExtract salt.val ecdhe)

theorem Rfc.masterSecret_total (psk ecdhe : Bytes) : ∃ b, Rfc.masterSecret p psk ecdhe = some b := by
  obtain ⟨hs, hhs⟩ := Rfc.handshakeSecret_total hp psk ecdhe
  obtain ⟨salt, hsalt⟩ := Rfc.deriveSecret_total hp hs "derived" []
  simpa [Rfc.masterSecret, hhs, hsalt] using
    Option.ne_none_iff_exists'.1 (hp.hkdfExtract salt.val (Block.zero 32).val)

theorem Rfc.trafficKeys_total (secret : Block 32) : ∃ t, Rfc.trafficKeys p secret = some t := by
  obtain ⟨key, hk⟩ := Rfc.expandLabel_total hp 16 secret "key" []
  obtain ⟨iv, hi⟩ := Rfc.expandLabel_total hp 12 secret "iv" []
  exact ⟨⟨secret, key, iv⟩, (Rfc.trafficKeys_eq_some p).2 ⟨rfl, hk, hi⟩⟩

theorem Rfc.hsTraffic_total (psk ecdhe : Bytes) (label : String) (messages : Bytes) :
    ∃ t, Rfc.hsTraffic p psk ecdhe label messages = some t := by
  obtain ⟨hs, hhs⟩ := Rfc.handshakeSecret_total hp psk ecdhe
  obtain ⟨secret, hsecret⟩ := Rfc.deriveSecret_total hp hs label messages
  simpa [Rfc.hsTraffic, hhs, hsecret] using Rfc.trafficKeys_total hp secret

theorem Rfc.apTraffic_total (psk ecdhe : Bytes) (label : String) (messages : Bytes) :
    ∃ t, Rfc.apTraffic p psk ecdhe label messages = some t := by
  obtain ⟨master, hmaster⟩ := Rfc.masterSecret_total hp psk ecdhe
  obtain ⟨secret, hsecret⟩ := Rfc.deriveSecret_total hp master label messages
  simpa [Rfc.apTraffic, hmaster, hsecret] using Rfc.trafficKeys_total hp secret

theorem Rfc.finished_total (baseKey : Block 32) (messages : Bytes) :
    ∃ b, Rfc.finished p baseKey messages = some b := by
  obtain ⟨key, hkey⟩ := Rfc.expandLabel_total hp 32 baseKey "finished" []
  obtain ⟨th, hth⟩ := Option.ne_none_iff_exists'.1 (hp.sha256 messages)
  simpa [Rfc.finished, hkey, hth] using Option.ne_none_iff_exists'.1 (hp.hmac key.val th.val)

end Total

/-! ## The session -/

/-- The session of a handshake that succeeded. -/
def Session.established (io : Transport) (client server : TrafficKeys) : Session where
  ioSend := io.ioSend
  ioRecv := io.ioRecv
  ioCtx := io.ioCtx
  scratch := io.scratch
  scratchLen := io.scratchLen
  cAppSecret := client.secret
  sAppSecret := server.secret
  cKey := client.key
  cIv := client.iv
  sKey := server.key
  sIv := server.iv
  cSeq := 0
  sSeq := 0
  digest := .sha256
  flags := wnSessEstablished

theorem Rfc.apTraffic_eq {psk ecdhe : Bytes} {master : Block 32} (h : Rfc.masterSecret p psk ecdhe = some master)
    (label : String) (messages : Bytes) : Rfc.apTraffic p psk ecdhe label messages =
      (Rfc.deriveSecret p master label messages).bind (Rfc.trafficKeys p) := by
  simp [Rfc.apTraffic, h]

theorem Rfc.masterSecret_eq {psk ecdhe : Bytes} {hs : Block 32} (h : Rfc.handshakeSecret p psk ecdhe = some hs) :
    Rfc.masterSecret p psk ecdhe = (Rfc.deriveSecret p hs "derived" []).bind fun salt =>
      p.hkdfExtract salt.val (Block.zero 32).val := by
  simp [Rfc.masterSecret, h]

section Establish

variable {p}
variable {psk ecdhe messages : Bytes} {hs emptyHash th : Block 32} {junk : Junk} {io : Transport}
variable (hempty : p.sha256 [] = some emptyHash) (hhs : Rfc.handshakeSecret p psk ecdhe = some hs)
variable (hth : p.sha256 messages = some th)
include hempty hhs hth

/-- Where the application keys are defined, the session is established with them. -/
theorem wnSessionEstablish_of {client server : TrafficKeys} (w : World)
    (hc : Rfc.apTraffic p psk ecdhe "c ap traffic" messages = some client)
    (hs' : Rfc.apTraffic p psk ecdhe "s ap traffic" messages = some server) :
    wnSessionEstablish p junk hs emptyHash th io w = .ok () { w with
      trace := w.trace ++ [.writeKeys], sess := .established io client server } := by
  obtain ⟨master, hmaster⟩ : ∃ master, Rfc.masterSecret p psk ecdhe = some master := by
    simp only [Rfc.apTraffic, Option.bind_eq_bind, Option.bind_eq_some_iff] at hc
    exact ⟨_, hc.choose_spec.1⟩
  rw [Rfc.apTraffic_eq p hmaster] at hc hs'
  rw [Rfc.masterSecret_eq p hhs] at hmaster
  simp only [Option.bind_eq_some_iff, Rfc.trafficKeys_eq_some] at hc hs' hmaster
  obtain ⟨salt, hsalt, hmaster⟩ := hmaster
  obtain ⟨_, hc, rfl, hck, hci⟩ := hc
  obtain ⟨_, hs', rfl, hsk, hsi⟩ := hs'
  rw [wnSessionEstablish, bind_of_ok (get_apply w), failIf_neg]
  · simp only [wnTls13DeriveSecret_eq p hempty, wnTls13DeriveSecret_eq p hth, wnTls13Extract,
      wnTls13ExpandLabel_eq, hsalt, hmaster, hc, hs', hck, hci, hsk, hsi, orCrypto_some, into_ok]
    rfl
  · simp only [wnTls13DeriveSecret_eq p hempty, wnTls13DeriveSecret_eq p hth, wnTls13Extract,
      wnTls13ExpandLabel_eq, hsalt, hmaster, hc, hs', hck, hci, hsk, hsi, orCrypto_some, into_ok, isOk_ok,
      and_self, not_true, not_false_eq_true]

/-- A session is established with the RFC's application keys, or not at all. -/
theorem wnSessionEstablish_ok {w w' : World}
    (h : wnSessionEstablish p junk hs emptyHash th io w = .ok () w') :
    ∃ client server, Rfc.apTraffic p psk ecdhe "c ap traffic" messages = some client ∧
      Rfc.apTraffic p psk ecdhe "s ap traffic" messages = some server ∧
      w' = { w with trace := w.trace ++ [.writeKeys], sess := .established io client server } := by
  suffices hkeys : ∃ client server, Rfc.apTraffic p psk ecdhe "c ap traffic" messages = some client ∧
      Rfc.apTraffic p psk ecdhe "s ap traffic" messages = some server by
    obtain ⟨client, server, hc, hs'⟩ := hkeys
    refine ⟨client, server, hc, hs', ?_⟩
    rw [wnSessionEstablish_of hempty hhs hth w hc hs'] at h
    cases h; rfl
  rw [wnSessionEstablish, bind_of_ok (get_apply w)] at h
  obtain ⟨_, _, -, h⟩ := bind_ok.1 h
  obtain ⟨_, _, hok, -⟩ := bind_ok.1 h
  have hok := not_not.1 (failIf_ok.1 hok).1
  simp only [wnTls13DeriveSecret_eq p hempty, wnTls13DeriveSecret_eq p hth, wnTls13Extract,
    wnTls13ExpandLabel_eq] at hok
  obtain ⟨hsalt, hmaster, hc, hs', hck, hci, hsk, hsi⟩ := hok
  simp only [isOk_eq_true, orCrypto_ok] at hsalt
  obtain ⟨salt, hsalt⟩ := hsalt
  simp only [hsalt, orCrypto_some, into_ok, isOk_eq_true, orCrypto_ok] at hmaster
  obtain ⟨master, hmaster⟩ := hmaster
  simp only [hsalt, hmaster, orCrypto_some, into_ok, isOk_eq_true, orCrypto_ok] at hc hs'
  obtain ⟨cSecret, hc⟩ := hc
  obtain ⟨sSecret, hs'⟩ := hs'
  simp only [hsalt, hmaster, hc, hs', orCrypto_some, into_ok, isOk_eq_true, orCrypto_ok] at hck hci hsk hsi
  obtain ⟨cKey, hck⟩ := hck
  obtain ⟨cIv, hci⟩ := hci
  obtain ⟨sKey, hsk⟩ := hsk
  obtain ⟨sIv, hsi⟩ := hsi
  have hm : Rfc.masterSecret p psk ecdhe = some master := by
    rw [Rfc.masterSecret_eq p hhs, hsalt]; exact hmaster
  refine ⟨⟨cSecret, cKey, cIv⟩, ⟨sSecret, sKey, sIv⟩, ?_, ?_⟩
  · rw [Rfc.apTraffic_eq p hm, hc]
    exact (Rfc.trafficKeys_eq_some p).2 ⟨rfl, hck, hci⟩
  · rw [Rfc.apTraffic_eq p hm, hs']
    exact (Rfc.trafficKeys_eq_some p).2 ⟨rfl, hsk, hsi⟩

omit hempty hhs hth in
theorem wnSessionEstablish_error {w w' : World} {e : Err}
    (h : wnSessionEstablish p junk hs emptyHash th io w = .error e w') :
    e = .crypto ∧ ∃ s, w' = { w with sess := s } ∧ s.flags = w.sess.flags := by
  unfold wnSessionEstablish at h
  rcases bind_error.1 h with hget | ⟨_, _, hget, h⟩
  · cases hget
  cases hget
  rcases bind_error.1 h with hset | ⟨_, _, hset, h⟩
  · cases hset
  cases hset
  rcases bind_error.1 h with hf | ⟨_, _, hf, h⟩
  · obtain ⟨-, rfl, rfl⟩ := failIf_error.1 hf
    exact ⟨rfl, _, rfl, rfl⟩
  · rcases bind_error.1 h with hset | ⟨_, _, hset, h⟩ <;> contradiction

end Establish

end WolfNano

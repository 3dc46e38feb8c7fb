/-
Where a server's flight is cut into records, and how it arrives, does not
matter to the drivers: `wnConnectPskEx_framing` and `wnConnectCertImpl_framing`.

A flight is given as records that seal its fragments (`Sealed`); the loop does
what its `verdict` says of the bytes (`FlightLoop.agree`), and everything
before and after the loop is the same program in both runs.
-/
import WolfNano.Observed
import WolfNano.PskFacts
import WolfNano.CertFacts
import WolfNano.ClearProvider

namespace WolfNano

open Prog Wire

variable {cfg : Config} {p : Provider cfg} {c : CertProvider}

/-! ## The loop -/

/-- **Two cuts of one flight** leave the loop with the same result. -/
theorem FlightLoop.agree {τ : Type} {L : FlightLoop p τ} (hcap : 6 ≤ L.cap) (hnd : L.framing.done L.start = false)
    {rs rs' fs fs' : List Bytes} (hf : L.Flight 0 0 rs fs) (hf' : L.Flight 0 0 rs' fs')
    (hcut : fs.flatten = fs'.flatten) (w w' : World) (hw : w.Flowing) (hw' : w'.Flowing)
    (hflat : w.inbox.flatten = rs.flatten) (hflat' : w'.inbox.flatten = rs'.flatten) (hsame : w.Same w') :
    Agree World.Same (fun st st' => L.frame st [] 0 = L.frame st' [] 0)
      (repeatM .crypto L.turn (w.pending + 1) L.start w) (repeatM .crypto L.turn (w'.pending + 1) L.start w') := by
  obtain ⟨inbox, hrun⟩ := FlightLoop.repeat_verdict hcap hnd hf hw hflat
  obtain ⟨inbox', hrun'⟩ := FlightLoop.repeat_verdict hcap hnd hf' hw' hflat'
  rw [hcut] at hrun
  rcases hrun with ⟨e, hv, hrun⟩ | ⟨st, hv, hrun⟩ <;> rcases hrun' with ⟨e', hv', hrun'⟩ | ⟨st', hv', hrun'⟩ <;>
    rw [hv] at hv' <;> rw [hrun, hrun']
  · exact ⟨Except.error.inj hv', hsame.inbox inbox inbox'⟩
  · cases hv'
  · cases hv'
  · exact ⟨Except.ok.inj hv', hsame.inbox inbox inbox'⟩

/-! ## The ServerHello -/

section ServerHello

variable {cap : Nat} (hcap : 6 ≤ cap) {priv : p.Priv} {sid : Block 32} {sel : Int} {tc : Transcript}
  {ccs : List (UInt8 × UInt8)} {type v₁ v₂ : UInt8} {body : Bytes} (ht : type ≠ wnRecChangeCipher)
  (hlen : body.length < 2 ^ 16)
include hcap ht hlen

/-- A ServerHello that is accepted is the record, and the stream goes on after it. -/
theorem recvServerHello_wire_ok {rest : Bytes} {w w' : World} {r : Transcript × Block cfg.group.secretSz}
    (hw : w.Flowing) (hflat : w.inbox.flatten = ccs.flatMap ccsRecord ++ (wireRecord type v₁ v₂ body ++ rest))
    (h : recvServerHello p cap priv sid sel tc w = .ok r w') :
    acceptServerHello p priv sid sel tc type (wireRecord type v₁ v₂ body) = .ok r ∧ w'.Flowing ∧
      w'.inbox.flatten = rest := by
  obtain ⟨inbox, hin, hrest, hrun⟩ := recvServerHello_wire (p := p) hcap priv sid sel tc ht hlen hw hflat
  rw [h] at hrun
  cases hc : recordCheck cap type body with
  | error e =>
    rw [hc] at hrun
    cases hrun
  | ok u =>
    rw [hc, except_ok_bind] at hrun
    cases hacc : acceptServerHello p priv sid sel tc type (wireRecord type v₁ v₂ body) with
    | error e =>
      rw [hacc] at hrun
      cases hrun
    | ok r' =>
      rw [hacc] at hrun
      obtain ⟨rfl, rfl⟩ := EStateM.Result.ok.inj hrun
      exact ⟨rfl, hin, hrest hc⟩

/-- Whatever follows the record, two runs do the same with it. -/
theorem recvServerHello_agree {rest rest' : Bytes} {w w' : World} (hw : w.Flowing) (hw' : w'.Flowing)
    (hflat : w.inbox.flatten = ccs.flatMap ccsRecord ++ (wireRecord type v₁ v₂ body ++ rest))
    (hflat' : w'.inbox.flatten = ccs.flatMap ccsRecord ++ (wireRecord type v₁ v₂ body ++ rest'))
    (hsame : w.Same w') :
    Agree World.Same Eq (recvServerHello p cap priv sid sel tc w) (recvServerHello p cap priv sid sel tc w') := by
  obtain ⟨inbox, -, -, hrun⟩ := recvServerHello_wire (p := p) hcap priv sid sel tc ht hlen hw hflat
  obtain ⟨inbox', -, -, hrun'⟩ := recvServerHello_wire (p := p) hcap priv sid sel tc ht hlen hw' hflat'
  rw [hrun, hrun']
  cases recordCheck cap type body >>= fun _ =>
      acceptServerHello p priv sid sel tc type (wireRecord type v₁ v₂ body) with
  | error e => exact ⟨rfl, hsame.inbox inbox inbox'⟩
  | ok r => exact ⟨rfl, hsame.inbox inbox inbox'⟩

end ServerHello

/-! ## The PSK driver -/

/-- The server handshake keys are `server`, if the handshake gets that far with
a ServerHello record of that body. -/
def PskServerKeys (a : PskArgs p) (body : Bytes) (server : TrafficKeys) : Prop :=
  ∀ (hello : PskHello p) (sh : Rfc.SHello) (share : Bytes) (ecdhe : Block cfg.group.secretSz) (t : TrafficKeys),
    PskHelloSent a hello → sh.Fits → sh.Selects cfg hello.sid share (some 0) → body = sh.encode →
    p.keyShareShared hello.priv share = .ok ecdhe →
    Rfc.hsTraffic p a.psk ecdhe.val "s hs traffic" (hello.ch ++ body) = some t → t = server

theorem pskFlight_agree {cap : Nat} (hcap : 6 ≤ cap) {keys : HsKeys} {tc : Transcript} {rs rs' fs fs' : List Bytes}
    (hf : Flight p cap keys.sKey keys.sIv pskRoom 0 0 rs fs) (hf' : Flight p cap keys.sKey keys.sIv pskRoom 0 0 rs' fs')
    (hcut : fs.flatten = fs'.flatten) (w w' : World) (hw : w.Flowing) (hw' : w'.Flowing)
    (hflat : w.inbox.flatten = rs.flatten) (hflat' : w'.inbox.flatten = rs'.flatten) (hsame : w.Same w') :
    Agree World.Same (fun st st' => st.tc = st'.tc) (pskFlight p cap keys tc w) (pskFlight p cap keys tc w') := by
  have h := FlightLoop.agree (L := pskLoop p cap keys tc) hcap rfl hf hf' hcut w w' hw hw' hflat hflat' hsame
  rw [← pskFlight_eq, ← pskFlight_eq] at h
  exact h.imp fun st st' hst =>
    show (st.frame [] 0).tc = (st'.frame [] 0).tc from congrArg PskFlight.tc hst

/-- Two runs of the driver over streams that agree through the ServerHello and
whose flights spell the same. -/
theorem pskHandshake_agree (hopen : p.OpensSealed) {a : PskArgs p} {ccs : List (UInt8 × UInt8)}
    {type v₁ v₂ : UInt8} {body : Bytes} (ht : type ≠ wnRecChangeCipher) (hlen : body.length < 2 ^ 16)
    {server : TrafficKeys} (hk : p.aesGcmSetKey server.key = true) (hserver : PskServerKeys a body server)
    {rs rs' fs fs' : List Bytes} (hs : Sealed p server pskFits 0 0 rs fs) (hs' : Sealed p server pskFits 0 0 rs' fs')
    (hcut : fs.flatten = fs'.flatten) (w w' : World) (hw : w.Flowing) (hw' : w'.Flowing)
    (hflat : w.inbox.flatten = ccs.flatMap ccsRecord ++ (wireRecord type v₁ v₂ body ++ rs.flatten))
    (hflat' : w'.inbox.flatten = ccs.flatMap ccsRecord ++ (wireRecord type v₁ v₂ body ++ rs'.flatten))
    (hsame : w.Same w') :
    Agree World.Same (fun x y => x.1 = y.1 ∧ x.2.1 = y.2.1 ∧ x.2.2.2 = y.2.2.2)
      (pskHandshake p a w) (pskHandshake p a w') := by
  unfold pskHandshake
  by_cases hrej : a.Rejected p
  · rw [failIf_pos hrej]
    exact ⟨rfl, hsame⟩
  rw [failIf_neg hrej, pure_bind]
  have hid : a.identity.length ≤ 0xFFFF ∧ 2048 ≤ a.io.scratchLen := by
    simp only [PskArgs.Rejected, not_or, Nat.not_lt] at hrej
    exact ⟨hrej.2.2.2.2.2, hrej.2.2.2.2.1⟩
  rw [bind_of_ok (rfl : setSess .zero w = .ok () { w with sess := .zero }),
    bind_of_ok (rfl : setSess .zero w' = .ok () { w' with sess := .zero })]
  have hsame₁ : World.Same { w with sess := .zero } { w' with sess := .zero } := ⟨hsame.sendRes, hsame.sent, rfl⟩
  refine (pskClientHello_same a _ _ hsame₁).bindAt fun hello _ u u' hch hch' he hsame₂ => ?_
  obtain rfl := he
  obtain ⟨hsent, hu⟩ := pskClientHello_ok hid.1 hch
  obtain ⟨-, hu'⟩ := pskClientHello_ok hid.1 hch'
  have hcap : 6 ≤ a.io.scratchLen := by omega
  have hinbox : u.inbox = w.inbox := by rw [hu]
  have hinbox' : u'.inbox = w'.inbox := by rw [hu']
  rw [World.Flowing, ← hinbox] at hw
  rw [World.Flowing, ← hinbox'] at hw'
  rw [← hinbox] at hflat
  rw [← hinbox'] at hflat'
  refine (recvServerHello_agree hcap ht hlen hw hw' hflat hflat' hsame₂).bindAt fun r _ u₁ u₁' hr hr' he hsame₃ => ?_
  obtain rfl := he
  obtain ⟨hacc, hin, hrest⟩ := recvServerHello_wire_ok hcap ht hlen hw hflat hr
  obtain ⟨-, hin', hrest'⟩ := recvServerHello_wire_ok hcap ht hlen hw' hflat' hr'
  obtain ⟨tc, ecdhe⟩ := r
  obtain ⟨rfl, sh, share, hfits, hsel, hbody, htc, hshare⟩ := acceptServerHello_ok (some 0) (by omega) hacc
  refine .ofExcept_bind hsame₃ fun th hth => .ofExcept_bind hsame₃ fun keys hkeys => ?_
  -- the keys are the ones the flights are sealed under
  obtain ⟨-, -, hst⟩ := (wnDeriveHsKeys_ok p _ hsent.emptyHash hsent.early (orCrypto_ok.1 hth)).1 hkeys
  rw [htc, hsent.tc, ← hbody] at hst
  obtain rfl := hserver hello sh share ecdhe _ hsent hfits hsel hbody hshare hst
  have hfl := fun {rs fs : List Bytes} (h : Sealed p ⟨keys.sHs, keys.sKey, keys.sIv⟩ pskFits 0 0 rs fs) =>
    h.pskFlight hopen hk hid.2
  refine (pskFlight_agree hcap (hfl hs) (hfl hs') hcut u₁ u₁' hin hin' hrest hrest' hsame₃).bind fun st st' htc' => ?_
  rw [htc']
  exact .seq (.ofExcept _) fun th => .seq (.ofExcept _) fun mac => .pure ⟨rfl, rfl, rfl⟩

/-- **Framing independence of the PSK flight.** Any two cuts of the same bytes
into records that fit, with ChangeCipherSpecs among them and in any chunking,
give the same return code, the same bytes sent and the same session. -/
theorem wnConnectPskEx_framing (hopen : p.OpensSealed) {a : PskArgs p} {ccs : List (UInt8 × UInt8)}
    {type v₁ v₂ : UInt8} {body : Bytes} (ht : type ≠ wnRecChangeCipher) (hlen : body.length < 2 ^ 16)
    {server : TrafficKeys} (hk : p.aesGcmSetKey server.key = true) (hserver : PskServerKeys a body server)
    {rs rs' fs fs' : List Bytes} (hs : Sealed p server pskFits 0 0 rs fs) (hs' : Sealed p server pskFits 0 0 rs' fs')
    (hcut : fs.flatten = fs'.flatten) {inbox inbox' : List Bytes} (hin : [] ∉ inbox) (hin' : [] ∉ inbox')
    (hflat : inbox.flatten = ccs.flatMap ccsRecord ++ (wireRecord type v₁ v₂ body ++ rs.flatten))
    (hflat' : inbox'.flatten = ccs.flatMap ccsRecord ++ (wireRecord type v₁ v₂ body ++ rs'.flatten))
    (sendRes : List Bool) (sess : Session) :
    outcome (wnConnectPskEx p a (.fresh inbox sendRes sess)) =
      outcome (wnConnectPskEx p a (.fresh inbox' sendRes sess)) := by
  have h := pskHandshake_agree hopen ht hlen hk hserver hs hs' hcut (.fresh inbox sendRes sess)
    (.fresh inbox' sendRes sess) hin hin' hflat hflat' ⟨rfl, rfl, rfl⟩
  rw [wnConnectPskEx_eq]
  refine outcome_eq_of_agree (h.bind ?_)
  rintro ⟨hello, keys, flight, th, mac⟩ ⟨_, _, flight', _, _⟩ ⟨rfl, rfl, heq⟩
  cases heq
  exact .seq (sendFinished_same _ _ _ _ _ _) fun _ => emit_same rfl

/-- A flight in one record, and in two with a ChangeCipherSpec between. -/
theorem wnConnectPskEx_framing_clear :
    outcome (wnConnectPskEx (Provider.clear .small) (.clear [105] 2048)
      (.fresh [wireRecord 22 3 3 (clearServerHello [0, 41, 0, 2, 0, 0]) ++ clearRecord 22 clearPskFlight] [] .zero)) =
    outcome (wnConnectPskEx (Provider.clear .small) (.clear [105] 2048)
      (.fresh [wireRecord 22 3 3 (clearServerHello [0, 41, 0, 2, 0, 0]) ++ (clearRecord 22 (clearPskFlight.take 5) ++
        (ccsRecord (3, 3) ++ clearRecord 22 (clearPskFlight.drop 5)))] [] .zero)) := by
  refine @wnConnectPskEx_framing _ _ (Provider.clear_opensSealed _) _ [] 22 3 3 (clearServerHello [0, 41, 0, 2, 0, 0])
    (by decide) (by decide +kernel) clearHsKeys rfl (fun hello sh share ecdhe t _ _ _ _ _ ht => ?_)
    [clearRecord 22 clearPskFlight]
    [clearRecord 22 (clearPskFlight.take 5), ccsRecord (3, 3), clearRecord 22 (clearPskFlight.drop 5)]
    [clearPskFlight] [clearPskFlight.take 5, clearPskFlight.drop 5]
    (.unpadded (by decide +kernel) (by decide) .nil)
    (.unpadded (by decide +kernel) (by decide) (.ccs _ (.unpadded (by decide +kernel) (by decide) .nil)))
    (by simp) _ _ (by decide) (by decide) (by simp) (by simp) [] .zero
  have hbody : clearServerHello [0, 41, 0, 2, 0, 0] =
      (clearServerHello [0, 41, 0, 2, 0, 0]).take 96 ++ List.replicate 32 0 := by decide +kernel
  rw [hbody, ← List.append_assoc, Provider.clear_hsTraffic] at ht
  exact (Option.some.inj ht).symm

/-! ## The certificate driver -/

/-- A record of that content and padding is no longer than `cap`, nor than a
record may be. -/
def certFits (cap : Nat) (_acc content pad : Nat) : Prop :=
  content + pad + 22 ≤ cap ∧ content + pad + 22 ≤ 5 + wnMaxPlaintext + 256

instance (cap acc content pad : Nat) : Decidable (certFits cap acc content pad) :=
  inferInstanceAs (Decidable (_ ∧ _))

/-- The server handshake keys are `server`, if the handshake gets that far with
a ServerHello record of that body. -/
def CertServerKeys (a : CertArgs p c) (body : Bytes) (server : TrafficKeys) : Prop :=
  ∀ (hello : CertHello p) (sh : Rfc.SHello) (share : Bytes) (ecdhe : Block cfg.group.secretSz) (t : TrafficKeys),
    CertHelloSent a hello → sh.Fits → sh.Selects cfg hello.sid share none → body = sh.encode →
    p.keyShareShared hello.priv share = .ok ecdhe →
    Rfc.hsTraffic p (Block.zero 32).val ecdhe.val "s hs traffic" (hello.ch ++ body) = some t → t = server

theorem certFlightMac_agree (a : CertArgs p c) {cap : Nat} (hcap : 6 ≤ cap) {keys : HsKeys} (tc : Transcript)
    {rs rs' fs fs' : List Bytes} (hf : Flight p cap keys.sKey keys.sIv (certRoom cfg) 0 0 rs fs)
    (hf' : Flight p cap keys.sKey keys.sIv (certRoom cfg) 0 0 rs' fs') (hcut : fs.flatten = fs'.flatten) (w w' : World)
    (hw : w.Flowing) (hw' : w'.Flowing) (hflat : w.inbox.flatten = rs.flatten) (hflat' : w'.inbox.flatten = rs'.flatten)
    (hsame : w.Same w') :
    Agree World.Same (fun x y => x.2 = y.2) (certFlightMac p c a cap keys tc w) (certFlightMac p c a cap keys tc w') := by
  have h := FlightLoop.agree (L := certLoop a cap keys tc) hcap rfl hf hf' hcut w w' hw hw' hflat hflat' hsame
  rw [← certFlight_eq, ← certFlight_eq] at h
  refine h.bind fun st st' hst => ?_
  have htc : st.tc = st'.tc :=
    show (st.frame [] 0).tc = (st'.frame [] 0).tc from congrArg CertFlight.tc hst
  rw [htc]
  exact .seq (.ofExcept _) fun th => .seq (.ofExcept _) fun mac => .pure rfl

/-- Two runs of the driver over streams that agree through the ServerHello and
whose flights spell the same. -/
theorem certHandshake_agree (hopen : p.OpensSealed) {a : CertArgs p c} {ccs : List (UInt8 × UInt8)}
    {type v₁ v₂ : UInt8} {body : Bytes} (ht : type ≠ wnRecChangeCipher) (hlen : body.length < 2 ^ 16)
    {server : TrafficKeys} (hk : p.aesGcmSetKey server.key = true) (hserver : CertServerKeys a body server)
    {rs rs' fs fs' : List Bytes} (hs : Sealed p server (certFits (certIoCap cfg a.io)) 0 0 rs fs)
    (hs' : Sealed p server (certFits (certIoCap cfg a.io)) 0 0 rs' fs') (hcut : fs.flatten = fs'.flatten)
    (hsize : fs.flatten.length ≤ wnHsAccSz cfg) (w w' : World) (hw : w.Flowing) (hw' : w'.Flowing)
    (hflat : w.inbox.flatten = ccs.flatMap ccsRecord ++ (wireRecord type v₁ v₂ body ++ rs.flatten))
    (hflat' : w'.inbox.flatten = ccs.flatMap ccsRecord ++ (wireRecord type v₁ v₂ body ++ rs'.flatten))
    (hsame : w.Same w') :
    Agree World.Same (fun x y => x.1 = y.1 ∧ x.2.1 = y.2.1 ∧ x.2.2.2 = y.2.2.2)
      (certHandshake p c a w) (certHandshake p c a w') := by
  unfold certHandshake
  by_cases hrej : a.Rejected p c
  · rw [failIf_pos hrej]
    exact ⟨rfl, hsame⟩
  rw [failIf_neg hrej, pure_bind]
  have hcap : 6 ≤ certIoCap cfg a.io := by
    simp only [CertArgs.Rejected, not_or, Nat.not_lt, wnCertScratchMin] at hrej
    have hmin : 6 ≤ wnCertIoMin cfg := by unfold wnCertIoMin; split <;> decide
    unfold certIoCap
    omega
  rw [bind_of_ok (rfl : setSess .zero w = .ok () { w with sess := .zero }),
    bind_of_ok (rfl : setSess .zero w' = .ok () { w' with sess := .zero })]
  have hsame₁ : World.Same { w with sess := .zero } { w' with sess := .zero } := ⟨hsame.sendRes, hsame.sent, rfl⟩
  refine (certClientHello_same a _ _ hsame₁).bindAt fun hello _ u u' hch hch' he hsame₂ => ?_
  obtain rfl := he
  obtain ⟨hsent, hu⟩ := certClientHello_ok hch
  obtain ⟨-, hu'⟩ := certClientHello_ok hch'
  have hinbox : u.inbox = w.inbox := by rw [hu]
  have hinbox' : u'.inbox = w'.inbox := by rw [hu']
  rw [World.Flowing, ← hinbox] at hw
  rw [World.Flowing, ← hinbox'] at hw'
  rw [← hinbox] at hflat
  rw [← hinbox'] at hflat'
  refine (recvServerHello_agree hcap ht hlen hw hw' hflat hflat' hsame₂).bindAt fun r _ u₁ u₁' hr hr' he hsame₃ => ?_
  obtain rfl := he
  obtain ⟨hacc, hin, hrest⟩ := recvServerHello_wire_ok hcap ht hlen hw hflat hr
  obtain ⟨-, hin', hrest'⟩ := recvServerHello_wire_ok hcap ht hlen hw' hflat' hr'
  obtain ⟨tc, ecdhe⟩ := r
  obtain ⟨rfl, sh, share, hfits, hsel, hbody, htc, hshare⟩ := acceptServerHello_ok none (by omega) hacc
  refine .ofExcept_bind hsame₃ fun th hth => .ofExcept_bind hsame₃ fun early hearly =>
    .ofExcept_bind hsame₃ fun keys hkeys => ?_
  -- the keys are the ones the flights are sealed under
  obtain ⟨-, -, hst⟩ := (wnDeriveHsKeys_ok p _ hsent.emptyHash (orCrypto_ok.1 hearly) (orCrypto_ok.1 hth)).1 hkeys
  rw [htc, hsent.tc, ← hbody] at hst
  obtain rfl := hserver hello sh share ecdhe _ hsent hfits hsel hbody hshare hst
  have hfl := fun {rs fs : List Bytes} (hsize : fs.flatten.length ≤ wnHsAccSz cfg)
      (h : Sealed p ⟨keys.sHs, keys.sKey, keys.sIv⟩ (certFits (certIoCap cfg a.io)) 0 0 rs fs) =>
    (h.flight hopen hk fs.flatten.length
      (fun {acc content pad} hf ht => by
        simp only [certFits, certRoom] at hf ⊢
        omega) (by omega) : Flight p (certIoCap cfg a.io) keys.sKey keys.sIv (certRoom cfg) 0 0 rs fs)
  have hagree := alerting_agree (p := p) keys 0 (certFlightMac_agree a hcap tc (hfl hsize hs)
    (hfl (hcut ▸ hsize) hs') hcut u₁ u₁' hin hin' hrest hrest' hsame₃)
  refine hagree.bind ?_
  rintro ⟨flight, th', mac⟩ ⟨flight', _, _⟩ heq
  cases heq
  exact .pure ⟨rfl, rfl, rfl⟩

/-- **Framing independence of the certificate flight.** Any two cuts of the same
bytes into records that fit, with ChangeCipherSpecs among them and in any
chunking, give the same return code, the same bytes sent, alert included, and
the same session. -/
theorem wnConnectCertImpl_framing (hopen : p.OpensSealed) {a : CertArgs p c} {ccs : List (UInt8 × UInt8)}
    {type v₁ v₂ : UInt8} {body : Bytes} (ht : type ≠ wnRecChangeCipher) (hlen : body.length < 2 ^ 16)
    {server : TrafficKeys} (hk : p.aesGcmSetKey server.key = true) (hserver : CertServerKeys a body server)
    {rs rs' fs fs' : List Bytes} (hs : Sealed p server (certFits (certIoCap cfg a.io)) 0 0 rs fs)
    (hs' : Sealed p server (certFits (certIoCap cfg a.io)) 0 0 rs' fs') (hcut : fs.flatten = fs'.flatten)
    (hsize : fs.flatten.length ≤ wnHsAccSz cfg) {inbox inbox' : List Bytes} (hin : [] ∉ inbox) (hin' : [] ∉ inbox')
    (hflat : inbox.flatten = ccs.flatMap ccsRecord ++ (wireRecord type v₁ v₂ body ++ rs.flatten))
    (hflat' : inbox'.flatten = ccs.flatMap ccsRecord ++ (wireRecord type v₁ v₂ body ++ rs'.flatten))
    (sendRes : List Bool) (sess : Session) :
    outcome (wnConnectCertImpl p c a (.fresh inbox sendRes sess)) =
      outcome (wnConnectCertImpl p c a (.fresh inbox' sendRes sess)) := by
  have h := certHandshake_agree hopen ht hlen hk hserver hs hs' hcut hsize (.fresh inbox sendRes sess)
    (.fresh inbox' sendRes sess) hin hin' hflat hflat' ⟨rfl, rfl, rfl⟩
  rw [wnConnectCertImpl_eq]
  refine outcome_eq_of_agree (h.bind ?_)
  rintro ⟨hello, keys, flight, th, mac⟩ ⟨_, _, flight', _, _⟩ ⟨rfl, rfl, heq⟩
  cases heq
  refine .seq (fun w w' hw => alerting_agree _ _ (sendFinished_same _ _ _ _ _ _ w w' hw)) fun _ => emit_same rfl

theorem wnConnectCertImpl_framing_clear :
    outcome (wnConnectCertImpl (Provider.clear .small) .trusting .clear
      (.fresh [wireRecord 22 3 3 (clearServerHello []) ++ clearRecord 22 clearCertFlight] [] .zero)) =
    outcome (wnConnectCertImpl (Provider.clear .small) .trusting .clear
      (.fresh [wireRecord 22 3 3 (clearServerHello []) ++ (clearRecord 22 (clearCertFlight.take 15) ++
        (ccsRecord (3, 3) ++ clearRecord 22 (clearCertFlight.drop 15)))] [] .zero)) := by
  refine @wnConnectCertImpl_framing _ _ _ (Provider.clear_opensSealed _) _ [] 22 3 3 (clearServerHello [])
    (by decide) (by decide +kernel) clearHsKeys rfl (fun hello sh share ecdhe t _ _ _ _ _ ht => ?_)
    [clearRecord 22 clearCertFlight]
    [clearRecord 22 (clearCertFlight.take 15), ccsRecord (3, 3), clearRecord 22 (clearCertFlight.drop 15)]
    [clearCertFlight] [clearCertFlight.take 15, clearCertFlight.drop 15]
    (.unpadded (by decide +kernel) (by decide) .nil)
    (.unpadded (by decide +kernel) (by decide) (.ccs _ (.unpadded (by decide +kernel) (by decide) .nil)))
    (by simp) (by decide) _ _ (by decide) (by decide) (by simp) (by simp) [] .zero
  have hbody : clearServerHello [] = (clearServerHello []).take 90 ++ List.replicate 32 0 := by decide +kernel
  rw [hbody, ← List.append_assoc, Provider.clear_hsTraffic] at ht
  exact (Option.some.inj ht).symm

end WolfNano

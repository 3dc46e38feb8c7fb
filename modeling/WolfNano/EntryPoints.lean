/-
The calls of `wn_connect.h`: the drivers for a session of the caller's, and
those that keep none.

`wn_Connect_CertName` and `wn_Connect_CertName_ex` are the ones that bind the
server's identity. What a build leaves out, it does not let pass: without
hostname checks a name is refused, and without time checks the rest of the
chain's holds (`connectCertName_binds`).
-/
import WolfNano.Authentication
import WolfNano.ChainFacts
import WolfNano.Lib.Tracks

namespace WolfNano

open Prog

variable {cfg : Config} (p : Provider cfg) (c : CertProvider)

/-! ## The calls -/

/-- A handshake for a session on the stack, which is wiped whatever its end. -/
def oneShot (stack : Session) (connect : Io Unit) : Io Unit :=
  finallyDo (do
    setSess stack
    connect) (setSess .zero)

def wnConnectPsk (stack : Session) (a : PskArgs p) : Io Unit := oneShot stack (wnConnectPskEx p a)

/-- `wn_Connect_Cert_ex`: no name and no pin. -/
def wnConnectCertEx (a : CertArgs p c) : Io Unit :=
  wnConnectCertImpl p c { a with serverName := none, pinnedKey := none }

def wnConnectCertNameEx (a : CertArgs p c) : Io Unit := do
  failIf (a.serverName = none ∧ a.pinnedKey = none) .invalidArg
  wnConnectCertImpl p c a

def wnConnectCert (stack : Session) (a : CertArgs p c) : Io Unit := oneShot stack (wnConnectCertEx p c a)

def wnConnectCertName (stack : Session) (a : CertArgs p c) : Io Unit := oneShot stack (wnConnectCertNameEx p c a)

variable {p} {c}

/-! ## Sessions that are not kept -/

/-- The end of a call, its session wiped. -/
def wipedEnd {α : Type} : EStateM.Result Err World α → EStateM.Result Err World α
  | .ok a w => .ok a { w with sess := .zero }
  | .error e w => .error e { w with sess := .zero }

theorem oneShot_apply (stack : Session) (connect : Io Unit) (w : World) :
    oneShot stack connect w = wipedEnd (connect { w with sess := stack }) := by
  have hset : (setSess stack >>= fun _ => connect) w = connect { w with sess := stack } :=
    bind_of_ok (show setSess stack w = .ok () { w with sess := stack } from rfl)
  unfold oneShot finallyDo
  cases hrun : connect { w with sess := stack } with
  | ok u w' =>
    rw [bind_of_ok (tryCatch_of_ok (hset.trans hrun))]
    rfl
  | error e w' =>
    have hthrow : tryCatch (setSess stack >>= fun _ => connect) (fun e => do setSess .zero; throw e) w =
        .error e { w' with sess := .zero } := by
      rw [tryCatch_of_error (hset.trans hrun)]
      rfl
    rw [bind_of_error hthrow]
    rfl

/-- **No session is left** by the calls that keep none. -/
theorem oneShot_sess (stack : Session) (connect : Io Unit) (w : World) :
    (endState (oneShot stack connect w)).sess = .zero := by
  rw [oneShot_apply]
  cases connect { w with sess := stack } <;> rfl

/-- A call that clears its session, unless it refuses its arguments, does not
depend on what was in it. -/
theorem wipedEnd_stack {P : Prop} [Decidable P] {e : Err} (x : Io Unit) (w : World) (stack : Session) :
    wipedEnd ((failIf P e >>= fun _ => setSess .zero >>= fun _ => x) { w with sess := stack }) =
      wipedEnd ((failIf P e >>= fun _ => setSess .zero >>= fun _ => x) w) := by
  by_cases h : P
  · rw [failIf_pos h]
    rfl
  · rw [failIf_neg h]
    rfl

theorem wnConnectPsk_eq (stack : Session) (a : PskArgs p) (w : World) :
    wnConnectPsk p stack a w = wipedEnd (wnConnectPskEx p a w) := by
  rw [wnConnectPsk, oneShot_apply]
  exact wipedEnd_stack _ w stack

theorem wnConnectCert_eq (stack : Session) (a : CertArgs p c) (w : World) :
    wnConnectCert p c stack a w = wipedEnd (wnConnectCertEx p c a w) := by
  rw [wnConnectCert, oneShot_apply]
  exact wipedEnd_stack _ w stack

theorem wnConnectCertName_eq (stack : Session) (a : CertArgs p c) (w : World) :
    wnConnectCertName p c stack a w = wipedEnd (wnConnectCertNameEx p c a w) := by
  rw [wnConnectCertName, oneShot_apply, wnConnectCertNameEx]
  by_cases h : a.serverName = none ∧ a.pinnedKey = none
  · rw [failIf_pos h]
    rfl
  · rw [failIf_neg h]
    exact wipedEnd_stack _ w stack

/-! ## The server's identity -/

/-- Each issuer that is looked at has signed, and is an authority unless it is
the anchor, whatever the build checks. -/
theorem checkIssuer_signed {anchor cert : Bytes} {now : c.Time} {next : Option Bytes}
    (h : checkIssuer cfg c anchor now cert next = .ok ()) : ∃ issuer, c.parseCert (next.getD anchor) = some issuer ∧
      c.checkCertSignaturePubKey cert issuer.publicKey issuer.keyOID = true ∧
      (next.isSome = true → issuer.isCA = true) := by
  unfold checkIssuer at h
  dsimp only at h
  cases hparse : c.parseCert (next.getD anchor) with
  | none =>
    rw [hparse] at h
    cases h
  | some issuer =>
    rw [hparse] at h
    obtain ⟨hsig, h⟩ := ite_error_ok.1 h
    obtain ⟨hca, -⟩ := ite_error_ok.1 h
    exact ⟨issuer, rfl, by simpa using hsig, by simpa using hca⟩

variable (cfg c) in
/-- What any build has checked of a leaf for these arguments. -/
structure LeafBound (serverName pinnedKey : Option Bytes) (now : c.Time) (leaf : DecodedCert) : Prop where
  keyUsage : leaf.extKeyUsageSet = true → leaf.allowsDigitalSig = true
  extKeyUsage : leaf.extExtKeyUsageSet = true → leaf.allowsServerAuth = true
  pin : ∀ pin, pinnedKey = some pin → pin ≠ [] ∧ pin = leaf.publicKey
  name : ∀ name, serverName = some name → cfg.x509Hostname = true ∧ leaf.Names name
  window : cfg.noAsnTime = false → InWindow c leaf now

theorem checkLeaf_bound {spkiCap : Nat} {serverName pinnedKey : Option Bytes} {now : c.Time} {cert spki : Bytes}
    (h : checkLeaf cfg c spkiCap serverName pinnedKey now cert = .ok spki) :
    ∃ leaf, c.parseCert cert = some leaf ∧ leaf.publicKey = spki ∧
      LeafBound cfg c serverName pinnedKey now leaf := by
  cases hparse : c.parseCert cert with
  | none =>
    unfold checkLeaf at h
    rw [hparse] at h
    cases h
  | some leaf =>
    have hkey := checkLeaf_key hparse h
    rw [checkLeaf_steps spkiCap serverName pinnedKey now hparse, ite_error_ok, ite_error_ok, ite_error_ok] at h
    obtain ⟨-, hku, heku, h⟩ := h
    obtain ⟨hpin, h⟩ := except_seq_ok.1 h
    obtain ⟨hname, h⟩ := except_seq_ok.1 h
    obtain ⟨htime, -⟩ := except_seq_ok.1 h
    obtain ⟨hhost, hname⟩ := ite_error_ok.1 hname
    refine ⟨leaf, rfl, hkey.symm, by simpa using hku, by simpa using heku, leafPin_ok.1 hpin, fun name hsome => ?_,
      fun hchecks => ?_⟩
    · rw [hsome] at hhost
      exact ⟨by simpa using hhost, leafName_ok.1 hname name hsome⟩
    · rw [hchecks] at htime
      exact wnCertTimeValid_ok.1 htime

variable (cfg c) in
/-- What any build has checked of a chain, `spki` the leaf's key. -/
structure ChainBound (certs : List Bytes) (anchor : Bytes) (serverName pinnedKey : Option Bytes) (now : c.Time)
    (spki : Bytes) : Prop where
  leaf : ∃ cert rest leaf, certs = cert :: rest ∧ c.parseCert cert = some leaf ∧ leaf.publicKey = spki ∧
    LeafBound cfg c serverName pinnedKey now leaf
  signed : ∀ (i : Nat) (h : i < certs.length), ∃ issuer, c.parseCert (issuerOf certs anchor i) = some issuer ∧
    c.checkCertSignaturePubKey certs[i] issuer.publicKey issuer.keyOID = true ∧
    (i + 1 < certs.length → issuer.isCA = true)

theorem wnVerifyChain_bound {certs : List Bytes} {anchor spki : Bytes} {spkiCap : Nat}
    {serverName pinnedKey : Option Bytes} {now : c.Time}
    (h : wnVerifyChain cfg c certs anchor spkiCap serverName pinnedKey now = .ok spki) :
    ChainBound cfg c certs anchor serverName pinnedKey now spki := by
  cases certs with
  | nil => cases h
  | cons cert rest =>
    obtain ⟨hissuers, hleaf⟩ := except_seq_ok.1 h
    obtain ⟨leaf, hparse, hkey, hbound⟩ := checkLeaf_bound hleaf
    refine ⟨⟨cert, rest, leaf, rfl, hparse, hkey, hbound⟩, fun i hi => ?_⟩
    obtain ⟨issuer, hissuer, hsig, hca⟩ := checkIssuer_signed (checkIssuers_ok.1 hissuers i hi)
    exact ⟨issuer, hissuer, hsig, fun hnext => hca (by simpa using hnext)⟩

/-- The driver gets to its Finished behind an authentic handshake only. -/
theorem certDriver_finished {a : CertArgs p c} {w : World} (hw : ¬ w.SealsFinished)
    (h : (∃ w', wnConnectCertImpl p c a w = .ok () w') ∨ (endState (wnConnectCertImpl p c a w)).SealsFinished) :
    ∃ x : CertParts p, x.Authentic a ∧ ∃ rest, w.inbox.flatten = x.stream ++ rest := by
  rw [wnConnectCertImpl_eq] at h
  cases hhs : certHandshake p c a w with
  | error e w₁ =>
    have hno := (certHandshake_emits (fun _ h _ => h) a).error hhs
    rw [bind_of_error hhs] at h
    rcases h with ⟨_, h⟩ | h
    · cases h
    · exact absurd h (hno.not_sealsFinished hw)
  | ok r w₁ =>
    obtain ⟨hello, keys, flight, th, mac⟩ := r
    obtain ⟨x, hx, -, -, -, -, -, -, -, hread, -⟩ := certHandshake_ok hhs
    exact ⟨x, hx, _, hread⟩

/-- **Whom `wn_Connect_CertName` has talked to.** It succeeds, or sends its
Finished, only where a name or a pin was given and the stream began with an
authentic handshake whose leaf is for that name, with that very key, the one
that has signed the handshake; each certificate is signed by the next and the
last by the anchor. So it is in every build: one without hostname checks does
not get there with a name. -/
theorem connectCertName_binds (stack : Session) (a : CertArgs p c) {connect : Io Unit}
    (hconnect : connect = wnConnectCertNameEx p c a ∨ connect = wnConnectCertName p c stack a) {w : World}
    (hw : ¬ w.SealsFinished) (h : (∃ w', connect w = .ok () w') ∨ (endState (connect w)).SealsFinished) :
    (a.serverName ≠ none ∨ a.pinnedKey ≠ none) ∧ ∃ x : CertParts p, x.Authentic a ∧
      (∃ rest, w.inbox.flatten = x.stream ++ rest) ∧
      ChainBound cfg c (x.flight.entries.map (·.cert)) a.anchor a.serverName a.pinnedKey a.now x.flight.leafSpki := by
  have hex : (∃ w', wnConnectCertNameEx p c a w = .ok () w') ∨
      (endState (wnConnectCertNameEx p c a w)).SealsFinished := by
    rcases hconnect with rfl | rfl
    · exact h
    · rw [wnConnectCertName_eq] at h
      cases hrun : wnConnectCertNameEx p c a w with
      | ok u w' => exact .inl ⟨w', rfl⟩
      | error e w' =>
        rw [hrun] at h
        rcases h with ⟨_, h⟩ | h
        · cases h
        · exact .inr h
  unfold wnConnectCertNameEx at hex
  by_cases hnone : a.serverName = none ∧ a.pinnedKey = none
  · rw [failIf_pos hnone] at hex
    rcases hex with ⟨_, hex⟩ | hex
    · cases hex
    · exact absurd hex hw
  · rw [failIf_neg hnone, pure_bind] at hex
    obtain ⟨x, hx, hstream⟩ := certDriver_finished hw hex
    exact ⟨not_and_or.1 hnone, x, hx, hstream, wnVerifyChain_bound hx.flight.chain⟩

theorem connectCertName_binds_clear :
    ∃ x : CertParts (Provider.clear .small), x.Authentic { CertArgs.clear with pinnedKey := some [1] } ∧
      x.flight.leafSpki = [1] := by
  obtain ⟨-, x, hx, -, hchain⟩ := connectCertName_binds .zero { CertArgs.clear with pinnedKey := some [1] } (.inr rfl)
    (World.fresh_not_sealsFinished [clearCertStream] [] .zero) (.inl (code_ok.1 (by decide +kernel)))
  obtain ⟨_, _, _, -, -, hkey, hbound⟩ := hchain.leaf
  exact ⟨x, hx, by rw [← hkey]; exact (hbound.pin _ rfl).2.symm⟩

end WolfNano

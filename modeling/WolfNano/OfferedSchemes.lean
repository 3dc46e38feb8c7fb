/-
The signature schemes a build offers, against those its `wn_CertVerify` can
check.

The offer is the signature_algorithms list parsed out of the ClientHello. The
two agree on ECDSA and RSA-PSS in every build. They part on Ed25519, which the
hello offers whenever `WOLFNANO_FIPS` is off and the check has only under
`HAVE_ED25519`, and on ML-DSA in a FIPS build, which the check has and the
hello leaves out.
-/
import WolfNano.CertHelloFacts
import WolfNano.Cert
import WolfNano.ClearProvider

namespace WolfNano

/-- The signature_algorithms list of a ClientHello. -/
def Rfc.ClientHello.sigAlgs (hello : Rfc.ClientHello) : Option (List Nat) :=
  hello.exts.findSome? fun e => match e with
    | .sigAlgs l => some l
    | _ => none

/-- The list `schemes` is the one `wn_CertVerify` checks: what is accepted
under a scheme was offered, and what is offered has a verifier. -/
def SchemesMatch (cfg : Config) (schemes : List Nat) : Prop :=
  ∀ (c : CertProvider) (scheme : Nat) (spki th sig : Bytes),
    (wnCertVerify cfg c scheme spki th sig = .ok () → scheme ∈ schemes) ∧
    (scheme ∈ schemes → wnCertVerify cfg c scheme spki th sig ≠ .error .unsupported)

/-! ## The dispatch -/

/-- The schemes `wn_CertVerify` has a verifier for. -/
def Verifiable (cfg : Config) (scheme : Nat) : Prop :=
  scheme = 0x0403 ∨ scheme = 0x0503 ∧ cfg.haveEcc384 ∧ cfg.sha384 ∨ scheme = 0x0807 ∧ cfg.haveEd25519 ∨
    scheme = 0x0804 ∧ ¬ cfg.noRsa ∨ scheme = 0x0805 ∧ ¬ cfg.noRsa ∧ cfg.sha384 ∨
    scheme = 0x0806 ∧ ¬ cfg.noRsa ∧ cfg.sha512 ∨ ∃ level, cfg.mldsa = some level ∧ scheme = level.scheme

section Verifiers

variable {c : CertProvider}

theorem verified_ne_unsupported (answer : Option Bool) : verified answer ≠ .error .unsupported := by
  unfold verified
  split <;> nofun

theorem wnCvEcdsa_ne_unsupported (spki : Bytes) (hashType : HashType) (curveSize : Nat) (tbs sig : Bytes) :
    wnCvEcdsa c spki hashType curveSize tbs sig ≠ .error .unsupported := by
  unfold wnCvEcdsa
  split
  · nofun
  · split
    · nofun
    · split
      · nofun
      · split
        · nofun
        · exact verified_ne_unsupported _

theorem wnCvEd25519_ne_unsupported (spki tbs sig : Bytes) :
    wnCvEd25519 c spki tbs sig ≠ .error .unsupported := by
  unfold wnCvEd25519
  split
  · nofun
  · dsimp only
    split
    · nofun
    · exact verified_ne_unsupported _

theorem wnCvRsaPss_ne_unsupported (spki : Bytes) (hashType : HashType) (tbs sig : Bytes) :
    wnCvRsaPss c spki hashType tbs sig ≠ .error .unsupported := by
  unfold wnCvRsaPss
  split
  · nofun
  · split
    · nofun
    · split
      · nofun
      · exact verified_ne_unsupported _

theorem wnCvMlDsa_ne_unsupported (level : MldsaLevel) (spki tbs sig : Bytes) :
    wnCvMlDsa c level spki tbs sig ≠ .error .unsupported := by
  unfold wnCvMlDsa
  split
  · nofun
  · split
    · nofun
    · split
      · nofun
      · exact verified_ne_unsupported _

/-- `wn_CertVerify` answers `WOLFNANO_E_UNSUPPORTED` exactly where it has no
verifier. -/
theorem wnCertVerify_unsupported {cfg : Config} {scheme : Nat} {spki th sig : Bytes} :
    wnCertVerify cfg c scheme spki th sig = .error .unsupported ↔ ¬ Verifiable cfg scheme := by
  unfold wnCertVerify cvDispatch Verifiable
  by_cases h₁ : scheme = 0x0403
  · simp [h₁, wnCvEcdsa_ne_unsupported]
  rw [if_neg h₁]
  by_cases h₂ : scheme = 0x0503 ∧ cfg.haveEcc384 ∧ cfg.sha384
  · simp [h₂, wnCvEcdsa_ne_unsupported]
  rw [if_neg h₂]
  by_cases h₃ : scheme = 0x0807 ∧ cfg.haveEd25519
  · simp [h₃, wnCvEd25519_ne_unsupported]
  rw [if_neg h₃]
  by_cases h₄ : scheme = 0x0804 ∧ ¬ cfg.noRsa
  · simp [h₄, wnCvRsaPss_ne_unsupported]
  rw [if_neg h₄]
  by_cases h₅ : scheme = 0x0805 ∧ ¬ cfg.noRsa ∧ cfg.sha384
  · simp [h₅, wnCvRsaPss_ne_unsupported]
  rw [if_neg h₅]
  by_cases h₆ : scheme = 0x0806 ∧ ¬ cfg.noRsa ∧ cfg.sha512
  · simp [h₆, wnCvRsaPss_ne_unsupported]
  rw [if_neg h₆]
  simp only [h₁, h₂, h₃, h₄, h₅, h₆, false_or, not_exists]
  cases hm : cfg.mldsa with
  | none => simp
  | some level =>
    by_cases h₇ : scheme = level.scheme
    · simp [h₇, wnCvMlDsa_ne_unsupported]
    · simp [h₇]

end Verifiers

/-! ## The offer and the dispatch -/

/-- The offer, scheme by scheme: what `wn_CertVerify` can check but for
Ed25519 and ML-DSA, and these two outside FIPS. -/
theorem mem_certSigAlgs {cfg : Config} {scheme : Nat} : scheme ∈ certSigAlgs cfg ↔
    scheme = 0x0403 ∨ scheme = 0x0503 ∧ cfg.haveEcc384 ∧ cfg.sha384 ∨ scheme = 0x0807 ∧ ¬ cfg.fips ∨
    scheme = 0x0804 ∧ ¬ cfg.noRsa ∨ scheme = 0x0805 ∧ ¬ cfg.noRsa ∧ cfg.sha384 ∨
    scheme = 0x0806 ∧ ¬ cfg.noRsa ∧ cfg.sha512 ∨
    (∃ level, cfg.mldsa = some level ∧ scheme = level.scheme) ∧ ¬ cfg.fips := by
  have hif : ∀ (P : Prop) [Decidable P] (v : Nat), scheme ∈ (if P then [v] else []) ↔ scheme = v ∧ P := by
    intro P _ v
    by_cases h : P <;> simp [h]
  have hmldsa : scheme ∈ (cfg.mldsa.map MldsaLevel.scheme).toList ↔
      ∃ level, cfg.mldsa = some level ∧ scheme = level.scheme := by
    simp only [Option.mem_toList, Option.map_eq_some_iff]
    exact exists_congr fun level => and_congr_right fun _ => eq_comm
  unfold certSigAlgs
  cases cfg.fips <;> cases cfg.noRsa <;>
    simp [hif, hmldsa] <;> grind

theorem MldsaLevel.scheme_ne_ed25519 (level : MldsaLevel) : 0x0807 ≠ level.scheme := by
  cases level <;> decide

theorem wnCertVerify_ed25519 {cfg : Config} (h : cfg.haveEd25519 = true) :
    wnCertVerify cfg .trusting 0x0807 [] [] [] = .ok () := by
  simp [wnCertVerify, cvDispatch, h, wnCvEd25519, CertProvider.trusting, verified]

theorem wnCertVerify_mldsa {cfg : Config} {level : MldsaLevel} (h : cfg.mldsa = some level) :
    wnCertVerify cfg .trusting level.scheme [] [] [] = .ok () := by
  cases level <;>
    simp [wnCertVerify, cvDispatch, h, wnCvMlDsa, CertProvider.trusting, verified, MldsaLevel.scheme]

/-- **Where offer and check agree**: Ed25519 is compiled in exactly outside
FIPS, and FIPS is without ML-DSA. -/
theorem schemesMatch_iff {cfg : Config} : SchemesMatch cfg (certSigAlgs cfg) ↔
    cfg.haveEd25519 = !cfg.fips ∧ (cfg.fips = true → cfg.mldsa = none) := by
  constructor
  · intro h
    refine ⟨?_, fun hfips => ?_⟩
    · have hoffer := mt (h .trusting 0x0807 [] [] []).2
      have haccept := (h .trusting 0x0807 [] [] []).1
      rw [not_not, wnCertVerify_unsupported] at hoffer
      cases hed : cfg.haveEd25519 with
      | true =>
        have := mem_certSigAlgs.1 (haccept (wnCertVerify_ed25519 hed))
        simpa [MldsaLevel.scheme_ne_ed25519] using this
      | false =>
        have hnot : ¬ Verifiable cfg 0x0807 := by simp [Verifiable, hed, MldsaLevel.scheme_ne_ed25519]
        have := mt mem_certSigAlgs.2 (hoffer hnot)
        simpa [MldsaLevel.scheme_ne_ed25519] using this
    · cases hm : cfg.mldsa with
      | none => rfl
      | some level =>
        have := mem_certSigAlgs.1 ((h .trusting level.scheme [] [] []).1 (wnCertVerify_mldsa hm))
        cases level <;> simp [MldsaLevel.scheme, hfips] at this
  · intro ⟨hed, hmldsa⟩ c scheme spki th sig
    have hsame : scheme ∈ certSigAlgs cfg ↔ Verifiable cfg scheme := by
      rw [mem_certSigAlgs, Verifiable, hed]
      cases hfips : cfg.fips with
      | true => simp [hmldsa hfips]
      | false => simp
    refine ⟨fun hok => hsame.2 ?_, fun hmem => mt wnCertVerify_unsupported.1 (not_not.2 (hsame.1 hmem))⟩
    by_contra hnot
    rw [wnCertVerify_unsupported.2 hnot] at hok
    cases hok

/-! ## The ClientHello -/

theorem certHello_sigAlgs (cfg : Config) (random : Block 32) (sessionId pub name : Bytes) :
    (certHello cfg random sessionId pub name).sigAlgs = some (certSigAlgs cfg) := by
  unfold Rfc.ClientHello.sigAlgs certHello certHelloExts nameExts
  split <;> rfl

/-- **Which builds offer what they can verify**: in every ClientHello of
`wn_ClientHello_Build_ex` the schemes are those of `wn_CertVerify` exactly
where Ed25519 is compiled in just outside FIPS, and FIPS is without ML-DSA. -/
theorem wnClientHelloBuildEx_schemes {cfg : Config} {out mem : Bytes} {outCap len : Nat} {random : Block 32}
    {sessionId pub : Bytes} {serverName : Option Bytes}
    (h : wnClientHelloBuildEx cfg out outCap random sessionId pub serverName = (.ok len, mem)) :
    ∃ hello schemes, Rfc.ClientHello.parse (mem.take len) = some hello ∧ hello.sigAlgs = some schemes ∧
      (SchemesMatch cfg schemes ↔ cfg.haveEd25519 = !cfg.fips ∧ (cfg.fips = true → cfg.mldsa = none)) :=
  ⟨_, _, Rfc.ClientHello.parse_eq_some.2 (wnClientHelloBuildEx_ok random h), certHello_sigAlgs .., schemesMatch_iff⟩

/-- The build of `configs/user_settings_cert.h`. -/
def Config.cert : Config where
  group := .secp256r1
  mldsa := none
  haveEd25519 := false
  haveEcc384 := true
  sha384 := true
  sha512 := true
  noRsa := false
  fips := false
  sendAlerts := false
  x509Hostname := true
  noAsnTime := false

/-- The hello of that build, with zeros for random and key share. -/
def certBuildHello : Except Err Nat × Bytes :=
  wnClientHelloBuildEx .cert (List.replicate 512 0) 512 (Block.zero 32) [] (List.replicate 65 0) none

theorem certBuildHello_ok : certBuildHello = (.ok 155, certBuildHello.2) := by decide +kernel

theorem wnClientHelloBuildEx_schemes_cert : ∃ hello schemes,
    Rfc.ClientHello.parse (certBuildHello.2.take 155) = some hello ∧ hello.sigAlgs = some schemes ∧
      (SchemesMatch .cert schemes ↔ Config.cert.haveEd25519 = !Config.cert.fips ∧
        (Config.cert.fips = true → Config.cert.mldsa = none)) :=
  wnClientHelloBuildEx_schemes certBuildHello_ok

/-- That hello offers Ed25519, to which `wn_CertVerify` of the same build
answers `WOLFNANO_E_UNSUPPORTED`. -/
theorem certBuildHello_mismatch : ∃ hello schemes,
    Rfc.ClientHello.parse (certBuildHello.2.take 155) = some hello ∧ hello.sigAlgs = some schemes ∧
      ¬ SchemesMatch .cert schemes :=
  ⟨_, _, Rfc.ClientHello.parse_eq_some.2 (wnClientHelloBuildEx_ok _ certBuildHello_ok), certHello_sigAlgs ..,
    fun h => (h .trusting 0x0807 [] [] []).2 (by decide) (by decide)⟩

end WolfNano

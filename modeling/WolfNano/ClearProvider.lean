/-
A provider that meets `Provider.Total` and `Provider.OpensSealed`: one that
keeps nothing secret. A digest is the end of the message, a ciphertext the
plaintext. With it and certificates that all verify, a handshake can be
computed.
-/
import WolfNano.ConnectCert
import WolfNano.KeyScheduleFacts

namespace WolfNano

open Wire

/-- The low bytes of a number. -/
def Block.ofNat (n k : Nat) : Block n := ⟨be n k, be_length n k⟩

/-- Bytes as a block. -/
def Block.of (bs : Bytes) : Block bs.length := ⟨bs, rfl⟩

/-- The provider without secrets. -/
def Provider.clear (cfg : Config) : Provider cfg where
  Rng := Unit
  Priv := Unit
  rngGenerateBlock _ n := (some (Block.zero n), ())
  sha256 m := some (Block.ofNat 32 (unbe m))
  sha256Init := true
  sha256Update _ _ := true
  hkdfExtract salt ikm := some (Block.ofNat 32 (unbe (salt ++ ikm)))
  hkdfExpandLabel n secret _ _ info := some (Block.ofNat n (unbe (secret ++ info) + 1))
  hmac key m := some (Block.ofNat 32 (unbe (key ++ m)))
  aesGcmSetKey _ := true
  aesGcmEncrypt _ _ _ pt := some (⟨pt, rfl⟩, Block.zero 16)
  aesGcmDecrypt _ _ _ ct tag := if tag = (Block.zero 16).val then some ⟨ct, rfl⟩ else none
  keyShareGenerate _ := .ok ((), Block.zero _)
  keyShareShared _ _ := .ok (Block.zero _)

theorem Provider.clear_total (cfg : Config) : (Provider.clear cfg).Total := by
  constructor <;> simp [Provider.clear]

theorem Provider.clear_opensSealed (cfg : Config) : (Provider.clear cfg).OpensSealed := by
  intro key nonce aad pt ct tag h
  cases h
  exact ⟨⟨pt, rfl⟩, by simp [Provider.clear], rfl⟩

/-- A traffic secret depends on the last 32 bytes of the messages alone. -/
theorem Provider.clear_deriveSecret (cfg : Config) (secret : Block 32) (label : String) (front : Bytes) :
    Rfc.deriveSecret (Provider.clear cfg) secret label (front ++ List.replicate 32 0) = some (Block.ofNat 32 1) := by
  have hzero : unbe (List.replicate 32 0) = 0 := by decide
  have hth : Block.ofNat 32 (unbe (front ++ List.replicate 32 0)) = Block.ofNat 32 0 := by
    apply Subtype.ext
    show be 32 _ = be 32 0
    rw [unbe_append, hzero, List.length_replicate, ← be_mod 32 _ 32 (Nat.le_refl _)]
    simp
  have hsecret : Block.ofNat 32 (unbe (secret.val ++ (Block.ofNat 32 0).val) + 1) = Block.ofNat 32 1 := by
    apply Subtype.ext
    show be 32 _ = be 32 1
    rw [unbe_append, show unbe (Block.ofNat 32 0).val = 0 by decide, (Block.ofNat 32 0).length,
      ← be_mod 32 _ 32 (Nat.le_refl _)]
    simp
  show some (Block.ofNat 32 (unbe (secret.val ++ (Block.ofNat 32 (unbe (front ++ List.replicate 32 0))).val) + 1)) = _
  rw [hth, hsecret]

/-- The handshake keys after messages that end so. -/
def clearHsKeys : TrafficKeys := ⟨Block.ofNat 32 1, Block.ofNat 16 2, Block.ofNat 12 2⟩

theorem Provider.clear_trafficKeys (cfg : Config) :
    Rfc.trafficKeys (Provider.clear cfg) clearHsKeys.secret = some clearHsKeys := by
  refine (Rfc.trafficKeys_eq_some _).2 ⟨rfl, ?_, ?_⟩ <;>
    exact congrArg some (Subtype.ext (by decide))

theorem Provider.clear_hsTraffic (cfg : Config) (psk ecdhe : Bytes) (label : String) (front : Bytes) :
    Rfc.hsTraffic (Provider.clear cfg) psk ecdhe label (front ++ List.replicate 32 0) = some clearHsKeys := by
  have hkeys : Rfc.trafficKeys (Provider.clear cfg) (Block.ofNat 32 1) = some clearHsKeys :=
    Provider.clear_trafficKeys cfg
  obtain ⟨hs, hhs⟩ := Rfc.handshakeSecret_total (Provider.clear_total cfg) psk ecdhe
  simp only [Rfc.hsTraffic, hhs, Option.bind_eq_bind, Option.bind_some, Provider.clear_deriveSecret, hkeys]

/-- Every certificate parses, to its own bytes as its key, and every signature
is good. -/
def CertProvider.trusting : CertProvider where
  Time := Unit
  parseCert der := some {
    publicKey := der, keyOID := 0, isCA := true, extKeyUsageSet := false, allowsDigitalSig := true
    extExtKeyUsageSet := false, allowsServerAuth := true, altNames := [], subjectCN := none
    beforeDate := some [], afterDate := some [] }
  checkCertSignaturePubKey _ _ _ := true
  getDateInfo date := some (date, 0)
  validateBefore _ _ _ := true
  validateAfter _ _ _ := true
  hash _ m := some m
  EccKey := Unit
  eccInit := true
  eccPublicKeyDecode _ := some ()
  eccCurveSize _ := some 32
  eccVerifyHash _ _ _ := some true
  Ed25519Key := Unit
  ed25519Init := true
  ed25519ImportPublic _ := some ()
  ed25519PublicKeyDecode _ := some ()
  ed25519VerifyMsg _ _ _ := some true
  RsaKey := Unit
  rsaInit := true
  rsaPublicKeyDecode _ := some ()
  rsaPssVerifyCheck _ _ _ _ := true
  MlDsaKey := Unit
  mlDsaInit := true
  mlDsaSetParams _ := true
  mlDsaPublicKeyDecode _ := some ()
  mlDsaVerify _ _ _ := some true

/-- A build with X25519, ECDSA over P-256 and nothing else. -/
def Config.small : Config where
  group := .x25519
  mldsa := none
  haveEd25519 := false
  haveEcc384 := false
  sha384 := false
  sha512 := false
  noRsa := true
  fips := false
  sendAlerts := true
  x509Hostname := true
  noAsnTime := false

def Junk.zero : Junk := { derived := Block.zero 32, master := Block.zero 32 }

/-- A caller's transport, with so much scratch. -/
def Transport.sized (scratchLen : Nat) : Transport where
  ioSend := 1
  ioRecv := 1
  ioCtx := 0
  scratch := 1
  scratchLen := scratchLen

/-- A session established in both directions with the same keys, over a
transport with these pieces to come. -/
def clearWorld (inbox : List Bytes) : World := .fresh inbox [] (.established (.sized 32768) clearHsKeys clearHsKeys)

/-- Arguments of the PSK driver. -/
def PskArgs.clear (identity : Bytes) (scratchLen : Nat) : PskArgs (Provider.clear .small) where
  io := .sized scratchLen
  rng := ()
  psk := [1]
  identity := identity
  junk := .zero

/-- Arguments of the certificate driver. -/
def CertArgs.clear : CertArgs (Provider.clear .small) .trusting where
  io := .sized (wnCertScratchMin .small)
  rng := ()
  anchor := [1]
  serverName := none
  pinnedKey := none
  now := ()
  junk := .zero

/-! ## A server's answers -/

/-- The ServerHello record's body in answer to these drivers, `exts` its other extensions. -/
def clearServerHello (exts : Bytes) : Bytes :=
  let body := [3, 3] ++ List.replicate 32 0 ++ vec 1 (List.replicate 32 0) ++ [0x13, 0x01, 0] ++
    vec 2 (exts ++ [0, 43, 0, 2, 3, 4] ++ [0, 51] ++ vec 2 ([0, 0x1d] ++ vec 2 (List.replicate 32 0)))
  2 :: vec 3 body

/-- A record that seals `content` with the provider without secrets. -/
def clearRecord (type : UInt8) (content : Bytes) : Bytes :=
  [23, 3, 3] ++ vec 2 (content ++ [type] ++ List.replicate 16 0)

theorem clearRecord_seal (cfg : Config) (t : TrafficKeys) (n : Nat) (type : UInt8) (content : Bytes) :
    Rfc.sealRecord (Provider.clear cfg) t n type content 0 = some (clearRecord type content) := by
  simp [Rfc.sealRecord, Rfc.ciphertext, Provider.clear, clearRecord, Rfc.inner, Rfc.header, Block.zero, vec]

/-- A flight's messages, and a Finished with the MAC the provider without
secrets makes after them. -/
def clearFlight (msgs : Bytes) : Bytes := msgs ++ [20, 0, 0, 32] ++ be 32 (unbe msgs)

/-- The EncryptedExtensions. -/
def clearPskFlight : Bytes := clearFlight [8, 0, 0, 2, 0, 0]

/-- The EncryptedExtensions, a Certificate of one entry, and a CertificateVerify. -/
def clearCertFlight : Bytes :=
  clearFlight [8, 0, 0, 2, 0, 0, 11, 0, 0, 10, 0, 0, 0, 6, 0, 0, 1, 1, 0, 0, 15, 0, 0, 4, 4, 3, 0, 0]

/-- What a PSK server answers. -/
def clearPskStream : Bytes :=
  [22, 3, 3] ++ vec 2 (clearServerHello [0, 41, 0, 2, 0, 0]) ++ clearRecord 22 clearPskFlight

/-- What a certificate server answers. -/
def clearCertStream : Bytes := [22, 3, 3] ++ vec 2 (clearServerHello []) ++ clearRecord 22 clearCertFlight

end WolfNano

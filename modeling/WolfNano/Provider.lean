/-
The provider seam (`wolfnano_crypto.h`): what the shell calls and does not
contain. Each call is a function of the bytes it is given, and may fail.

Only shapes are promised here: a digest is 32 bytes, a derived key as long as
asked for, a ciphertext as long as its plaintext. What a result needs of the
cryptography beyond that is a named hypothesis of the result (`Provider.Total`,
`Provider.OpensSealed`).
-/
import WolfNano.Basic

namespace WolfNano

/-- The hash, HKDF, AEAD and key-share operations, over SHA-256 and
AES-128-GCM. -/
structure Provider (cfg : Config) where
  /-- The state of a `WC_RNG`. -/
  Rng : Type
  /-- The private half of a `wn_KeyShare`. -/
  Priv : Type
  /-- `wc_RNG_GenerateBlock` of `n` bytes. -/
  rngGenerateBlock : Rng → (n : Nat) → Option (Block n) × Rng
  /-- `wc_Sha256Hash`, and `wc_Sha256GetHash` of the bytes hashed so far. -/
  sha256 : Bytes → Option (Block 32)
  /-- `wc_InitSha256`. -/
  sha256Init : Bool
  /-- `wc_Sha256Update`: whether it takes the message after those bytes. -/
  sha256Update : Bytes → Bytes → Bool
  /-- `wc_Tls13_HKDF_Extract` of a salt and a key. -/
  hkdfExtract : Bytes → Bytes → Option (Block 32)
  /-- `wc_Tls13_HKDF_Expand_Label`: length, secret, protocol, label, info. -/
  hkdfExpandLabel : (n : Nat) → Bytes → String → String → Bytes → Option (Block n)
  /-- `wc_HmacSetKey`, `wc_HmacUpdate`, `wc_HmacFinal`. -/
  hmac : Bytes → Bytes → Option (Block 32)
  /-- `wc_AesInit` and `wc_AesGcmSetKey`. -/
  aesGcmSetKey : Block 16 → Bool
  /-- `wc_AesGcmEncrypt`: key, nonce, header, plaintext; ciphertext and tag. -/
  aesGcmEncrypt : Block 16 → Block 12 → Bytes → (pt : Bytes) → Option (Block pt.length × Block 16)
  /-- `wc_AesGcmDecrypt`: key, nonce, header, ciphertext, tag. -/
  aesGcmDecrypt : Block 16 → Block 12 → Bytes → (ct : Bytes) → Bytes → Option (Block ct.length)
  /-- `wn_KeyShare_Init` and `wn_KeyShare_Generate` of the build's group. -/
  keyShareGenerate : Rng → Except Err (Priv × Block cfg.group.pubSz)
  /-- `wn_KeyShare_Shared` with the server's share. -/
  keyShareShared : Priv → Bytes → Except Err (Block cfg.group.secretSz)

variable {cfg : Config}

/-- No hash, HKDF or HMAC operation fails, and AES takes every key and
plaintext: what the source marks as calls that do not fail on valid input. -/
structure Provider.Total (p : Provider cfg) : Prop where
  sha256 : ∀ m, p.sha256 m ≠ none
  sha256Init : p.sha256Init = true
  sha256Update : ∀ t m, p.sha256Update t m = true
  hkdfExtract : ∀ salt ikm, p.hkdfExtract salt ikm ≠ none
  hkdfExpandLabel : ∀ n secret protocol label info, p.hkdfExpandLabel n secret protocol label info ≠ none
  hmac : ∀ key m, p.hmac key m ≠ none
  aesGcmSetKey : ∀ key, p.aesGcmSetKey key = true
  aesGcmEncrypt : ∀ key nonce aad pt, p.aesGcmEncrypt key nonce aad pt ≠ none

/-- Decryption inverts encryption. -/
def Provider.OpensSealed (p : Provider cfg) : Prop :=
  ∀ {key nonce aad pt ct tag}, p.aesGcmEncrypt key nonce aad pt = some (ct, tag) →
    ∃ pt', p.aesGcmDecrypt key nonce aad ct.val tag.val = some pt' ∧ pt'.val = pt

/-! ## Certificates -/

inductive HashType where
  | sha256
  | sha384
  | sha512
  deriving DecidableEq

/-- An entry of `DecodedCert.altNames`: whether it is a dNSName, and its name. -/
structure DnsEntry where
  isDns : Bool
  name : Bytes

/-- What the shell reads of a `DecodedCert`. -/
structure DecodedCert where
  publicKey : Bytes
  keyOID : Nat
  isCA : Bool
  extKeyUsageSet : Bool
  /-- `extKeyUsage & KEYUSE_DIGITAL_SIG`. -/
  allowsDigitalSig : Bool
  extExtKeyUsageSet : Bool
  /-- `extExtKeyUsage & EXTKEYUSE_SERVER_AUTH`. -/
  allowsServerAuth : Bool
  altNames : List DnsEntry
  subjectCN : Option Bytes
  beforeDate : Option Bytes
  afterDate : Option Bytes

/-- Certificate parsing and signature checks. -/
structure CertProvider where
  /-- The clock's type, `time_t`. -/
  Time : Type
  /-- `wc_ParseCert`. -/
  parseCert : Bytes → Option DecodedCert
  /-- `CheckCertSignaturePubKey`: certificate, issuer key, issuer key OID. -/
  checkCertSignaturePubKey : Bytes → Bytes → Nat → Bool
  /-- `wc_GetDateInfo`: the date's bytes and its format. -/
  getDateInfo : Bytes → Option (Bytes × UInt8)
  /-- `wc_ValidateDateWithTime(.., ASN_BEFORE, ..)`. -/
  validateBefore : Bytes → UInt8 → Time → Bool
  /-- `wc_ValidateDateWithTime(.., ASN_AFTER, ..)`. -/
  validateAfter : Bytes → UInt8 → Time → Bool
  /-- `wc_Hash`. -/
  hash : HashType → Bytes → Option Bytes
  EccKey : Type
  eccInit : Bool
  eccPublicKeyDecode : Bytes → Option EccKey
  /-- `key.dp->size`; none if `dp` is `NULL`. -/
  eccCurveSize : EccKey → Option Nat
  /-- `wc_ecc_verify_hash`: signature, hash, key; `res`. -/
  eccVerifyHash : Bytes → Bytes → EccKey → Option Bool
  Ed25519Key : Type
  ed25519Init : Bool
  ed25519ImportPublic : Bytes → Option Ed25519Key
  ed25519PublicKeyDecode : Bytes → Option Ed25519Key
  ed25519VerifyMsg : Bytes → Bytes → Ed25519Key → Option Bool
  RsaKey : Type
  rsaInit : Bool
  rsaPublicKeyDecode : Bytes → Option RsaKey
  /-- `wc_RsaPSS_VerifyCheck`: signature, hash, hash type, key. -/
  rsaPssVerifyCheck : Bytes → Bytes → HashType → RsaKey → Bool
  MlDsaKey : Type
  mlDsaInit : Bool
  mlDsaSetParams : MldsaLevel → Bool
  mlDsaPublicKeyDecode : Bytes → Option MlDsaKey
  mlDsaVerify : Bytes → Bytes → MlDsaKey → Option Bool

end WolfNano

/-
The types and constants the rest of the model shares: byte strings, fixed
arrays, `word32` arithmetic, return codes, and the build configuration.

A C array of fixed size is a `Block`; a buffer with a length is a byte
string. Lengths are naturals, and where the source adds or subtracts
`word32`s whose range it does not check first, so does the model
(`add32`, `sub32`).
-/
import WolfNano.Lib.Wire

namespace WolfNano

export Wire (Bytes)

/-- A `byte[n]`. -/
abbrev Block (n : Nat) := { b : Bytes // b.length = n }

@[simp] theorem Block.length {n : Nat} (b : Block n) : b.val.length = n := b.property

/-- What `XMEMSET(b, 0, n)` and `ForceZero` leave. -/
def Block.zero (n : Nat) : Block n := ⟨List.replicate n 0, List.length_replicate⟩

/-- `word32` addition. -/
def add32 (a b : Nat) : Nat := (a + b) % 2 ^ 32

/-- `word32` subtraction. -/
def sub32 (a b : Nat) : Nat := (a + (2 ^ 32 - b % 2 ^ 32)) % 2 ^ 32

theorem add32_eq {a b : Nat} (h : a + b < 2 ^ 32) : add32 a b = a + b := Nat.mod_eq_of_lt h

theorem sub32_eq {a b : Nat} (hb : b ≤ a) (ha : a < 2 ^ 32) : sub32 a b = a - b := by
  unfold sub32; omega

/-- A `word16` spelled by two bytes, `(hi << 8) | lo`. -/
def word16Of (hi lo : UInt8) : Nat := hi.toNat <<< 8 ||| lo.toNat

/-- A 24-bit number spelled by three bytes. -/
def word24Of (hi mid lo : UInt8) : Nat := hi.toNat <<< 16 ||| mid.toNat <<< 8 ||| lo.toNat

theorem word16Of_eq (hi lo : UInt8) : word16Of hi lo = Wire.unbe [hi, lo] := by
  have h : lo.toNat < 2 ^ 8 := lo.toNat_lt
  rw [word16Of, ← Nat.shiftLeft_add_eq_or_of_lt h, Nat.shiftLeft_eq]
  simp [Wire.unbe]

theorem word24Of_eq (hi mid lo : UInt8) : word24Of hi mid lo = Wire.unbe [hi, mid, lo] := by
  have hl : lo.toNat < 2 ^ 8 := lo.toNat_lt
  have hm : mid.toNat < 2 ^ 8 := mid.toNat_lt
  have h₁ : hi.toNat <<< 16 ||| mid.toNat <<< 8 = (hi.toNat <<< 8 + mid.toNat) <<< 8 := by
    rw [Nat.shiftLeft_add_eq_or_of_lt hm, Nat.shiftLeft_or_distrib, ← Nat.shiftLeft_add]
  rw [word24Of, h₁, ← Nat.shiftLeft_add_eq_or_of_lt hl]
  simp only [Nat.shiftLeft_eq, Wire.unbe, List.length_cons, List.length_nil]
  ring

theorem word16Of_lt (hi lo : UInt8) : word16Of hi lo < 2 ^ 16 := by
  rw [word16Of_eq]
  simpa using Wire.unbe_lt [hi, lo]

theorem word24Of_lt (hi mid lo : UInt8) : word24Of hi mid lo < 2 ^ 24 := by
  rw [word24Of_eq]
  simpa using Wire.unbe_lt [hi, mid, lo]

/-! ## Return codes -/

/-- The errors of `wolfnano.h`; success is `Except.ok`. -/
inductive Err where
  | invalidArg
  | crypto
  | unsupported
  | badState
  | unexpectedMsg
  | decode
  | badMac
  | illegalParam
  | badCert
  | closed
  deriving DecidableEq, Repr

/-- `wn_ErrToAlert`: the alert description of an error. -/
def wnErrToAlert : Err → UInt8
  | .unexpectedMsg => 10
  | .badMac => 20
  | .decode => 50
  | .illegalParam => 47
  | .badCert => 42
  | _ => 80

/-! ## Wire constants -/

def wnRecordHeaderSz : Nat := 5
def wnRecordTagSz : Nat := 16
def wnMaxPlaintext : Nat := 16384

def wnRecChangeCipher : UInt8 := 20
def wnRecAlert : UInt8 := 21
def wnRecHandshake : UInt8 := 22
def wnRecAppdata : UInt8 := 23

def wnHsServerHello : UInt8 := 2
def wnHsNewSessionTicket : UInt8 := 4
def wnHsEncryptedExt : UInt8 := 8
def wnHsCertificate : UInt8 := 11
def wnHsCertRequest : UInt8 := 13
def wnHsCertVerify : UInt8 := 15
def wnHsFinished : UInt8 := 20
def wnHsKeyUpdate : UInt8 := 24

def wnExtServerName : Nat := 0
def wnExtSupportedGrp : Nat := 10
def wnExtSigAlgs : Nat := 13
def wnExtPreShared : Nat := 41
def wnExtSupportedVer : Nat := 43
def wnExtPskModes : Nat := 45
def wnExtKeyShare : Nat := 51

def wnCipherAes128GcmSha256 : Nat := 0x1301

/-! ## The build -/

/-- `WOLFNANO_MLDSA_LEVEL`. -/
inductive MldsaLevel where
  | l2
  | l3
  | l5
  deriving DecidableEq

/-- `WN_MLDSA_SCHEME`. -/
def MldsaLevel.scheme : MldsaLevel → Nat
  | .l2 => 0x0904
  | .l3 => 0x0905
  | .l5 => 0x0906

/-- The (EC)DHE group a build offers: `WOLFNANO_HAVE_MLKEM_HYBRID`,
`WOLFNANO_HAVE_ECDHE_P256`, or neither. -/
inductive Group where
  | x25519
  | secp256r1
  | x25519mlkem768
  deriving DecidableEq

/-- `WN_DEFAULT_GROUP`. -/
def Group.code : Group → Nat
  | .x25519 => 0x001d
  | .secp256r1 => 0x0017
  | .x25519mlkem768 => 0x11ec

/-- `WN_DEFAULT_PUB_SZ`. -/
def Group.pubSz : Group → Nat
  | .x25519 => 32
  | .secp256r1 => 65
  | .x25519mlkem768 => 1184 + 32

/-- `WN_DEFAULT_SRV_SHARE_SZ`. -/
def Group.srvShareSz : Group → Nat
  | .x25519 => 32
  | .secp256r1 => 65
  | .x25519mlkem768 => 1088 + 32

/-- `WN_DEFAULT_SECRET_SZ`. -/
def Group.secretSz : Group → Nat
  | .x25519 => 32
  | .secp256r1 => 32
  | .x25519mlkem768 => 64

/-- The preprocessor symbols the modelled code branches on. -/
structure Config where
  group : Group
  /-- `WOLFSSL_HAVE_MLDSA`, with its level. -/
  mldsa : Option MldsaLevel
  haveEd25519 : Bool
  haveEcc384 : Bool
  sha384 : Bool
  sha512 : Bool
  noRsa : Bool
  fips : Bool
  sendAlerts : Bool
  x509Hostname : Bool
  noAsnTime : Bool

variable (cfg : Config)

def wnHsAccSz : Nat :=
  match cfg.mldsa with
  | some .l5 => 10240
  | some _ => 8192
  | none => 6144

def wnLeafSpkiSz : Nat :=
  match cfg.mldsa with
  | some .l5 => 3072
  | some _ => 2048
  | none => 1024

def wnCertIoMin : Nat :=
  match cfg.mldsa with
  | some .l5 => 8192
  | _ => 4096

def wnCertScratchMin : Nat := wnCertIoMin cfg + wnHsAccSz cfg + wnLeafSpkiSz cfg

end WolfNano

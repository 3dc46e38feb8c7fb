/-
`wn_keyshare.c`: the key share of a build's group.

A build has one group, X25519, P-256 or X25519MLKEM768, and a share for another
is unsupported. X25519 and P-256 take the same steps (`DhOps`), the hybrid those
of `wn_hybrid.c`. As there, `NULL` is none, pointers are of different memory,
and what is freed does not show. A length that a call reads and writes is left
as it was set for the call.
-/
import WolfNano.Hybrid

namespace WolfNano

open Prog

/-- `wc_RNG_GenerateBlock` and P-256 beside ML-KEM-768 and curve25519. -/
structure KeyShareProvider extends HybridProvider where
  /-- `wc_RNG_GenerateBlock` of `n` bytes. -/
  rngGenerateBlock : Rng → (n : Nat) → Option (Block n) × Rng
  /-- `ecc_key`. -/
  EccKey : Type
  eccInit : Option EccKey
  /-- `wc_ecc_make_key_ex(.., 32, .., ECC_SECP256R1)`. -/
  eccMakeKey : Rng → EccKey → Option EccKey × Rng
  eccSetRng : EccKey → Rng → Option EccKey
  eccExportX963 : EccKey → Except (Part 65) (Block 65)
  /-- `wc_ecc_import_x963_ex(.., ECC_SECP256R1)`. -/
  eccImportX963 : Bytes → EccKey → Option EccKey
  /-- `wc_ecc_shared_secret`: the private key, the peer's public one. -/
  eccSharedSecret : EccKey → EccKey → Except (Part 32) (Block 32)
  /-- A key of zeros, as `XMEMSET` leaves it. -/
  kemZero : KemKey
  xZero : XKey
  eccZero : EccKey

/-- The calls that a Diffie-Hellman share is made with, and their sizes. -/
structure DhOps (Rng : Type) where
  Key : Type
  pubSz : Nat
  secretSz : Nat
  init : Option Key
  makeKey : Rng → Key → Option Key × Rng
  setRng : Key → Rng → Option Key
  exportPublic : Key → Except (Part pubSz) (Block pubSz)
  importPublic : Bytes → Key → Option Key
  sharedSecret : Key → Key → Except (Part secretSz) (Block secretSz)

/-- X25519 sets no generator on a key. -/
def HybridProvider.x25519 (P : HybridProvider) : DhOps P.Rng where
  Key := P.XKey
  pubSz := wnHybridX25519
  secretSz := wnHybridX25519
  init := P.curve25519Init
  makeKey := P.curve25519MakeKey
  setRng key _ := some key
  exportPublic := P.curve25519ExportPublic
  importPublic := P.curve25519ImportPublic
  sharedSecret := P.curve25519SharedSecret

def KeyShareProvider.secp256r1 (k : KeyShareProvider) : DhOps k.Rng where
  Key := k.EccKey
  pubSz := 65
  secretSz := 32
  init := k.eccInit
  makeKey := k.eccMakeKey
  setRng := k.eccSetRng
  exportPublic := k.eccExportX963
  importPublic := k.eccImportX963
  sharedSecret := k.eccSharedSecret

/-- `wn_KeyShare`, its key a `K`. -/
structure KeyShare (K : Type) where
  key : K
  group : Nat

/-! ## A pair of keys -/

/-- The pointers `wn_KeyShare_Generate` is given, with what they point to. -/
structure GenerateArgs (Rng K : Type) where
  ks : Option (KeyShare K)
  rng : Option Rng
  pub : Option Bytes
  pubLen : Option Nat

/-- Its memory. -/
structure GenerateMem (Rng K : Type) where
  key : K
  rng : Rng
  pub : Bytes
  pubLen : Nat

def GenerateMem.args {Rng K : Type} (m : GenerateMem Rng K) (ks : KeyShare K) : GenerateArgs Rng K :=
  ⟨some { ks with key := m.key }, some m.rng, some m.pub, some m.pubLen⟩

section Dh

variable {Rng : Type} (d : DhOps Rng)

/-- The body, no pointer being `NULL`. -/
def dhGenerate : EStateM Err (GenerateMem Rng d.Key) Unit := do
  let fresh := (← get).key
  let key ← drawing GenerateMem.rng (fun rng m => { m with rng }) (d.makeKey · fresh)
  modify fun m => { m with key }
  let key ← ofExcept (orCrypto (d.setRng key (← get).rng))
  modify fun m => { m with key, pubLen := d.pubSz }
  storing (fun b m => { m with pub := patch m.pub 0 b }) (d.exportPublic key)

def dhKeyShareGenerate (group : Nat) (a : GenerateArgs Rng d.Key) : Except Err Unit × GenerateArgs Rng d.Key :=
  match a with
  | ⟨some ks, some rng, some pub, some pubLen⟩ =>
    if ks.group = group then
      match dhGenerate d ⟨ks.key, rng, pub, pubLen⟩ with
      | .ok () m => (.ok (), m.args ks)
      | .error e m => (.error e, m.args ks)
    else (.error .unsupported, a)
  | _ => (.error .invalidArg, a)

/-- The memory of `wn_KeyShare_Shared`. -/
structure SharedMem where
  out : Bytes
  outLen : Nat

def dhShared (key : d.Key) (peerPub : Bytes) (peerPubLen : Nat) : EStateM Err SharedMem Unit := do
  failIf (peerPubLen ≠ d.pubSz) .invalidArg
  let peer ← ofExcept (orCrypto d.init)
  let peer ← ofExcept (orCrypto (d.importPublic (peerPub.take peerPubLen) peer))
  modify fun m => { m with outLen := d.secretSz }
  storing (fun b m => { m with out := patch m.out 0 b }) (d.sharedSecret key peer)

def dhKeyShareShared (group : Nat) (ks : Option (KeyShare d.Key)) (peerPub : Option Bytes) (peerPubLen : Nat)
    (o : SecretOut) : Except Err Unit × SecretOut :=
  match ks, peerPub, o with
  | some ks, some peerPub, ⟨some out, some outLen⟩ =>
    if ks.group = group then
      match dhShared d ks.key peerPub peerPubLen ⟨out, outLen⟩ with
      | .ok () m => (.ok (), ⟨some m.out, some m.outLen⟩)
      | .error e m => (.error e, ⟨some m.out, some m.outLen⟩)
    else (.error .unsupported, o)
  | _, _, _ => (.error .invalidArg, o)

end Dh

section Hybrid

variable {P : HybridProvider}

def hybridKeyShareGenerate (a : GenerateArgs P.Rng (Hybrid P)) : Except Err Unit × GenerateArgs P.Rng (Hybrid P) :=
  match a with
  | ⟨some ks, some rng, some pub, some pubLen⟩ =>
    if ks.group = Group.x25519mlkem768.code then
      let (ret, b) := wnHybridClientKeyShare ⟨some ks.key, some rng, some pub, some pubLen⟩
      (ret, ⟨b.h.map fun h => { ks with key := h }, b.rng, b.out, b.outLen⟩)
    else (.error .unsupported, a)
  | _ => (.error .invalidArg, a)

def hybridKeyShareShared (ks : Option (KeyShare (Hybrid P))) (peerPub : Option Bytes) (peerPubLen : Nat)
    (o : SecretOut) : Except Err Unit × SecretOut :=
  match ks, peerPub, o with
  | some ks, some peerPub, ⟨some out, some outLen⟩ =>
    if ks.group = Group.x25519mlkem768.code then
      wnHybridClientShared (some ks.key) (some peerPub) peerPubLen ⟨some out, some outLen⟩
    else (.error .unsupported, o)
  | _, _, _ => (.error .invalidArg, o)

end Hybrid

/-! ## The build's group -/

namespace KeyShareProvider

variable (k : KeyShareProvider)

/-- The key of a build's `wn_KeyShare`. -/
def Key : Group → Type
  | .x25519 => k.XKey
  | .secp256r1 => k.EccKey
  | .x25519mlkem768 => Hybrid k.toHybridProvider

def zeroKey : (g : Group) → k.Key g
  | .x25519 => k.xZero
  | .secp256r1 => k.eccZero
  | .x25519mlkem768 => ⟨k.kemZero, k.xZero, false, false⟩

/-- The key that `wn_KeyShare_Init` leaves. -/
def initKey : (g : Group) → Option (k.Key g)
  | .x25519 => k.curve25519Init
  | .secp256r1 => k.eccInit
  | .x25519mlkem768 => some (k.zeroKey .x25519mlkem768)

def wnKeyShareInit (g : Group) (ks : Option (KeyShare (k.Key g))) (group : Nat) :
    Except Err Unit × Option (KeyShare (k.Key g)) :=
  match ks with
  | none => (.error .invalidArg, none)
  | some ks =>
    if group = g.code then
      match k.initKey g with
      | some key => (.ok (), some { key, group })
      | none => (.error .crypto, some { ks with group })
    else (.error .unsupported, some { ks with group })

def wnKeyShareGenerate : (g : Group) → GenerateArgs k.Rng (k.Key g) → Except Err Unit × GenerateArgs k.Rng (k.Key g)
  | .x25519 => dhKeyShareGenerate k.x25519 Group.x25519.code
  | .secp256r1 => dhKeyShareGenerate k.secp256r1 Group.secp256r1.code
  | .x25519mlkem768 => hybridKeyShareGenerate

def wnKeyShareShared : (g : Group) → Option (KeyShare (k.Key g)) → Option Bytes → Nat → SecretOut →
    Except Err Unit × SecretOut
  | .x25519 => dhKeyShareShared k.x25519 Group.x25519.code
  | .secp256r1 => dhKeyShareShared k.secp256r1 Group.secp256r1.code
  | .x25519mlkem768 => hybridKeyShareShared

/-! ## The drivers' calls -/

end KeyShareProvider

theorem front_length (n : Nat) (mem : Bytes) : ((mem ++ List.replicate n 0).take n).length = n := by
  simp

/-- The first `n` bytes of a buffer. -/
def Block.front (n : Nat) (mem : Bytes) : Block n := ⟨(mem ++ List.replicate n 0).take n, front_length n mem⟩

namespace KeyShareProvider

variable (k : KeyShareProvider) {cfg : Config}

/-- A driver's `ks`, zeroed, through `wn_KeyShare_Init` and
`wn_KeyShare_Generate`, and the `pubLen` bytes of its `cliPub`. -/
def generate (g : Group) (rng : k.Rng) : Except Err (KeyShare (k.Key g) × Block g.pubSz) := do
  let (ret, ks) := k.wnKeyShareInit g (some ⟨k.zeroKey g, 0⟩) g.code
  ret
  let (ret, a) := k.wnKeyShareGenerate g ⟨ks, some rng, some [], some 0⟩
  ret
  pure (a.ks.getD ⟨k.zeroKey g, 0⟩, .front g.pubSz (a.pub.getD []))

/-- `wn_KeyShare_Shared` into a driver's `ecdhe`. -/
def shared (g : Group) (ks : KeyShare (k.Key g)) (peerPub : Bytes) : Except Err (Block g.secretSz) :=
  let (ret, o) := k.wnKeyShareShared g (some ks) (some peerPub) peerPub.length ⟨some [], some 0⟩
  ret.map fun _ => .front g.secretSz (o.ss.getD [])

/-- A server's end of the exchange: a share of its own, and what the client's
gives with it. -/
def answer : (g : Group) → k.Rng → Bytes → Except Err (Block g.srvShareSz × Block g.secretSz)
  | .x25519, rng, cliShare => do
    let (ks, share) ← k.generate .x25519 rng
    let secret ← k.shared .x25519 ks cliShare
    pure (share, secret)
  | .secp256r1, rng, cliShare => do
    let (ks, share) ← k.generate .secp256r1 rng
    let secret ← k.shared .secp256r1 ks cliShare
    pure (share, secret)
  | .x25519mlkem768, rng, cliShare =>
    let (ret, a) := wnHybridServerRespond (some cliShare) cliShare.length
      ⟨some rng, some [], some 0, some [], some 0⟩
    ret.map fun _ => (.front _ (a.srvShare.getD []), .front _ (a.ss.getD []))

/-- Hash and AEAD are `p`'s; the drivers' random bytes and key share are
these. -/
def provider (p : Provider cfg) : Provider cfg := { p with
  Rng := k.Rng
  Priv := KeyShare (k.Key cfg.group)
  rngGenerateBlock := k.rngGenerateBlock
  keyShareGenerate := k.generate cfg.group
  keyShareShared := k.shared cfg.group }

end KeyShareProvider

end WolfNano

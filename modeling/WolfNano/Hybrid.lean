/-
`wn_hybrid.c`: the X25519MLKEM768 key share, the ML-KEM-768 component first,
then X25519.

ML-KEM and curve25519 are wolfCrypt's (`HybridProvider`). A call that writes may
fail with part of its output stored. A pointer that is `NULL` is none; those
that are not are of different memory. `xLen` is 32 throughout, and what the
functions free is theirs, so that neither shows.
-/
import WolfNano.KeySchedule
import WolfNano.Msg

namespace WolfNano

open Prog

def wnHybridMlkemPub : Nat := 1184
def wnHybridMlkemCt : Nat := 1088
def wnHybridX25519 : Nat := 32
def wcMlKemSsSz : Nat := 32
def wnHybridClientShare : Nat := wnHybridMlkemPub + wnHybridX25519
def wnHybridServerShare : Nat := wnHybridMlkemCt + wnHybridX25519
def wnHybridSecret : Nat := wcMlKemSsSz + wnHybridX25519

/-- What a call that fails may have stored where it has room for `n` bytes. -/
abbrev Part (n : Nat) := { b : Bytes // b.length ≤ n }

/-- ML-KEM-768 and curve25519. A call that takes a key to work on gives the key
after; one that fails gives none that is looked at again. -/
structure HybridProvider where
  /-- The state of a `WC_RNG`. -/
  Rng : Type
  /-- `MlKemKey`. -/
  KemKey : Type
  /-- `curve25519_key`. -/
  XKey : Type
  /-- `wc_MlKemKey_Init(.., WC_ML_KEM_768, ..)`. -/
  mlKemInit : Option KemKey
  mlKemMakeKey : KemKey → Rng → Option KemKey × Rng
  mlKemEncodePublicKey : KemKey → Except (Part wnHybridMlkemPub) (Block wnHybridMlkemPub)
  mlKemDecodePublicKey : KemKey → Bytes → Option KemKey
  /-- `wc_MlKemKey_Encapsulate`: the ciphertext and the secret. -/
  mlKemEncapsulate : KemKey → Rng →
    Except (Part wnHybridMlkemCt × Part wcMlKemSsSz) (Block wnHybridMlkemCt × Block wcMlKemSsSz) × Rng
  mlKemDecapsulate : KemKey → Bytes → Except (Part wcMlKemSsSz) (Block wcMlKemSsSz)
  curve25519Init : Option XKey
  curve25519MakeKey : Rng → XKey → Option XKey × Rng
  curve25519ExportPublic : XKey → Except (Part wnHybridX25519) (Block wnHybridX25519)
  curve25519ImportPublic : Bytes → XKey → Option XKey
  /-- `wc_curve25519_shared_secret_ex`: the private key, the peer's public one. -/
  curve25519SharedSecret : XKey → XKey → Except (Part wnHybridX25519) (Block wnHybridX25519)

variable (P : HybridProvider)

/-- `wn_Hybrid`. -/
structure Hybrid where
  kem : P.KemKey
  x : P.XKey
  kemInit : Bool
  xInit : Bool

/-- A call that writes: `put` stores what it has written, and a failing one is
`WOLFNANO_E_CRYPTO`. -/
def storing {σ : Type} {n : Nat} (put : Bytes → σ → σ) : Except (Part n) (Block n) → EStateM Err σ Unit
  | .ok b => modify (put b.val)
  | .error b => do
    modify (put b.val)
    throw .crypto

/-- A call that draws on the generator in the state. -/
def drawing {σ ρ α : Type} (rngOf : σ → ρ) (put : ρ → σ → σ) (call : ρ → Option α × ρ) : EStateM Err σ α := do
  let (made, rng) := call (rngOf (← get))
  modify (put rng)
  ofExcept (orCrypto made)

/-! ## The client's share -/

/-- The memory of `wn_Hybrid_ClientKeyShare`. -/
structure KeyShareMem where
  h : Hybrid P
  rng : P.Rng
  out : Bytes

/-- The body, no pointer being `NULL`. -/
def clientKeyShare : EStateM Err (KeyShareMem P) Unit := do
  let kem ← ofExcept (orCrypto P.mlKemInit)
  modify fun m => { m with h.kem := kem, h.kemInit := true }
  let kem ← drawing KeyShareMem.rng (fun rng m => { m with rng }) (P.mlKemMakeKey kem)
  modify fun m => { m with h.kem := kem }
  storing (fun b m => { m with out := patch m.out 0 b }) (P.mlKemEncodePublicKey kem)
  let x ← ofExcept (orCrypto P.curve25519Init)
  modify fun m => { m with h.x := x, h.xInit := true }
  let x ← drawing KeyShareMem.rng (fun rng m => { m with rng }) (P.curve25519MakeKey · x)
  modify fun m => { m with h.x := x }
  storing (fun b m => { m with out := patch m.out wnHybridMlkemPub b }) (P.curve25519ExportPublic x)

/-- The arguments of `wn_Hybrid_ClientKeyShare`, with what they point to. -/
structure KeyShareArgs where
  h : Option (Hybrid P)
  rng : Option P.Rng
  out : Option Bytes
  outLen : Option Nat

variable {P}

def wnHybridClientKeyShare (a : KeyShareArgs P) : Except Err Unit × KeyShareArgs P :=
  match a with
  | ⟨some h, some rng, some out, some outLen⟩ =>
    match clientKeyShare P ⟨h, rng, out⟩ with
    | .ok () m => (.ok (), ⟨some m.h, some m.rng, some m.out, some wnHybridClientShare⟩)
    | .error e m => (.error e, ⟨some m.h, some m.rng, some m.out, some outLen⟩)
  | _ => (.error .invalidArg, a)

/-! ## The client's secret -/

/-- The body of `wn_Hybrid_ClientShared` behind the check; the state is `ss`. -/
def clientShared (h : Hybrid P) (srvShare : Bytes) : EStateM Err Bytes Unit := do
  storing (fun b ss => patch ss 0 b) (P.mlKemDecapsulate h.kem (srvShare.take wnHybridMlkemCt))
  let peer ← ofExcept (orCrypto P.curve25519Init)
  let peer ← ofExcept (orCrypto
    (P.curve25519ImportPublic ((srvShare.drop wnHybridMlkemCt).take wnHybridX25519) peer))
  storing (fun b ss => patch ss wcMlKemSsSz b) (P.curve25519SharedSecret h.x peer)

/-- `ForceZero(ss, WN_HYBRID_SECRET)`. -/
def wipeSecret (ss : Bytes) : Bytes := patch ss 0 (Block.zero wnHybridSecret).val

/-- `ss` and `ssLen`, with what they point to. -/
structure SecretOut where
  ss : Option Bytes
  ssLen : Option Nat

def wnHybridClientShared (h : Option (Hybrid P)) (srvShare : Option Bytes) (srvLen : Nat) (o : SecretOut) :
    Except Err Unit × SecretOut :=
  match h, srvShare, o with
  | some h, some srvShare, ⟨some ss, some ssLen⟩ =>
    if srvLen ≠ wnHybridServerShare then (.error .invalidArg, ⟨some (wipeSecret ss), some ssLen⟩)
    else match clientShared h srvShare ss with
      | .ok () ss => (.ok (), ⟨some ss, some wnHybridSecret⟩)
      | .error e ss => (.error e, ⟨some (wipeSecret ss), some ssLen⟩)
  | _, _, ⟨ss, ssLen⟩ => (.error .invalidArg, ⟨ss.map wipeSecret, ssLen⟩)

/-! ## The server -/

variable (P) in
/-- The memory of `wn_Hybrid_ServerRespond`. -/
structure RespondMem where
  rng : P.Rng
  srvShare : Bytes
  ss : Bytes

/-- What `wc_MlKemKey_Encapsulate` has stored. -/
def RespondMem.putEncap (m : RespondMem P) (ct ss : Bytes) : RespondMem P :=
  { m with srvShare := patch m.srvShare 0 ct, ss := patch m.ss 0 ss }

def encapsulating (kem : P.KemKey) : EStateM Err (RespondMem P) Unit := fun m =>
  match P.mlKemEncapsulate kem m.rng with
  | (.ok (ct, ss), rng) => .ok () ({ m with rng }.putEncap ct.val ss.val)
  | (.error (ct, ss), rng) => .error .crypto ({ m with rng }.putEncap ct.val ss.val)

/-- The body behind the check. -/
def serverRespond (cliShare : Bytes) : EStateM Err (RespondMem P) Unit := do
  let kem ← ofExcept (orCrypto P.mlKemInit)
  let kem ← ofExcept (orCrypto (P.mlKemDecodePublicKey kem (cliShare.take wnHybridMlkemPub)))
  encapsulating kem
  let srv ← ofExcept (orCrypto P.curve25519Init)
  let srv ← drawing RespondMem.rng (fun rng m => { m with rng }) (P.curve25519MakeKey · srv)
  storing (fun b m => { m with srvShare := patch m.srvShare wnHybridMlkemCt b }) (P.curve25519ExportPublic srv)
  let peer ← ofExcept (orCrypto P.curve25519Init)
  let peer ← ofExcept (orCrypto
    (P.curve25519ImportPublic ((cliShare.drop wnHybridMlkemPub).take wnHybridX25519) peer))
  storing (fun b m => { m with ss := patch m.ss wcMlKemSsSz b }) (P.curve25519SharedSecret srv peer)

variable (P) in
/-- The pointers `wn_Hybrid_ServerRespond` writes through, with what they point to. -/
structure RespondArgs where
  rng : Option P.Rng
  srvShare : Option Bytes
  srvLen : Option Nat
  ss : Option Bytes
  ssLen : Option Nat

def wnHybridServerRespond (cliShare : Option Bytes) (cliLen : Nat) (a : RespondArgs P) :
    Except Err Unit × RespondArgs P :=
  match cliShare, a with
  | some cliShare, ⟨some rng, some srvShare, some srvLen, some ss, some ssLen⟩ =>
    if cliLen ≠ wnHybridClientShare then (.error .invalidArg, { a with ss := some (wipeSecret ss) })
    else match serverRespond cliShare ⟨rng, srvShare, ss⟩ with
      | .ok () m => (.ok (), ⟨some m.rng, some m.srvShare, some wnHybridServerShare, some m.ss, some wnHybridSecret⟩)
      | .error e m => (.error e, ⟨some m.rng, some m.srvShare, some srvLen, some (wipeSecret m.ss), some ssLen⟩)
  | _, _ => (.error .invalidArg, { a with ss := a.ss.map wipeSecret })

end WolfNano

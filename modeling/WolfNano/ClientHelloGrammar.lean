/-
The ClientHello of RFC 8446 4.1.2, with the extensions of 4.2 that a client
without resumption sends, as an encoder and a parser.

The parser is the reference server's. It takes every vector with its length,
decodes every extension it has a syntax for to the end of its data, and
requires that no type comes twice and that pre_shared_key comes last.
`ClientHello.parse_eq_some` says that it inverts the encoder.
-/
import WolfNano.Lib.Wire

namespace WolfNano.Rfc

open Wire

/-! ## Extensions -/

/-- An extension; one without a syntax here is its type and data. -/
inductive CExt where
  | serverName (host : Bytes)
  | versions (l : List Nat)
  | groups (l : List Nat)
  | sigAlgs (l : List Nat)
  | keyShares (l : List (Nat × Bytes))
  | pskModes (l : List Nat)
  | preShared (identities : List (Bytes × Nat)) (binders : List Bytes)
  | other (type : Nat) (data : Bytes)
  deriving DecidableEq

/-- A KeyShareEntry. -/
def encKeyShare (k : Nat × Bytes) : Bytes := be 2 k.1 ++ vec 2 k.2

def takeKeyShare (bs : Bytes) : Option ((Nat × Bytes) × Bytes) :=
  (takeNat 2 bs).bind fun (g, r) => (takeVec 2 r).bind fun (key, r) =>
    if key = [] then none else some ((g, key), r)

def KeyShareFits (k : Nat × Bytes) : Prop := k.1 < 256 ^ 2 ∧ k.2.length < 256 ^ 2 ∧ k.2 ≠ []

/-- A PskIdentity: an identity that is not empty, and its ticket age. -/
def encIdentity (i : Bytes × Nat) : Bytes := vec 2 i.1 ++ be 4 i.2

def takeIdentity (bs : Bytes) : Option ((Bytes × Nat) × Bytes) :=
  (takeVec 2 bs).bind fun (i, r) => (takeNat 4 r).bind fun (age, r) =>
    if i = [] then none else some ((i, age), r)

def IdentityFits (i : Bytes × Nat) : Prop := i.1.length < 256 ^ 2 ∧ i.2 < 256 ^ 4 ∧ i.1 ≠ []

/-- A PskBinderEntry: 32 bytes at least. -/
def encBinder (b : Bytes) : Bytes := vec 1 b

def takeBinder (bs : Bytes) : Option (Bytes × Bytes) :=
  (takeVec 1 bs).bind fun (b, r) => if b.length < 32 then none else some (b, r)

def BinderFits (b : Bytes) : Prop := b.length < 256 ^ 1 ∧ 32 ≤ b.length

namespace CExt

def type : CExt → Nat
  | .serverName _ => 0
  | .groups _ => 10
  | .sigAlgs _ => 13
  | .preShared _ _ => 41
  | .versions _ => 43
  | .pskModes _ => 45
  | .keyShares _ => 51
  | .other t _ => t

def data : CExt → Bytes
  | .serverName host => vec 2 (0 :: vec 2 host)
  | .groups l => vec 2 (l.flatMap (be 2))
  | .sigAlgs l => vec 2 (l.flatMap (be 2))
  | .preShared ids binders => vec 2 (ids.flatMap encIdentity) ++ vec 2 (binders.flatMap encBinder)
  | .versions l => vec 1 (l.flatMap (be 2))
  | .pskModes l => vec 1 (l.flatMap (be 1))
  | .keyShares l => vec 2 (l.flatMap encKeyShare)
  | .other _ d => d

/-- The types with a syntax here. -/
def known : List Nat := [0, 10, 13, 41, 43, 45, 51]

/-- A list of numbers in `n` bytes each that a `k`-byte length counts. -/
def NatsFit (k n : Nat) (l : List Nat) : Prop :=
  (l.flatMap (be n)).length < 256 ^ k ∧ ∀ v ∈ l, v < 256 ^ n

/-- Numbers and lengths are in range, and what must not be empty is not. -/
def Fits : CExt → Prop
  | .serverName host => host ≠ [] ∧ host.length + 3 < 256 ^ 2
  | .groups l => l ≠ [] ∧ NatsFit 2 2 l
  | .sigAlgs l => l ≠ [] ∧ NatsFit 2 2 l
  | .preShared ids binders => ids ≠ [] ∧ ids.length = binders.length ∧
      (ids.flatMap encIdentity).length < 256 ^ 2 ∧ (binders.flatMap encBinder).length < 256 ^ 2 ∧
      (∀ i ∈ ids, IdentityFits i) ∧ ∀ b ∈ binders, BinderFits b
  | .versions l => l ≠ [] ∧ NatsFit 1 2 l
  | .pskModes l => l ≠ [] ∧ NatsFit 1 1 l
  | .keyShares l => (l.flatMap encKeyShare).length < 256 ^ 2 ∧ ∀ k ∈ l, KeyShareFits k
  | .other t _ => t ∉ known ∧ t < 256 ^ 2

def encode (e : CExt) : Bytes := be 2 e.type ++ vec 2 e.data

/-- A list that must not be empty. -/
def nonempty {α : Type} (l : List α) : Option (List α) := if l.isEmpty then none else some l

/-- The extension of a type and its data. -/
def decode (type : Nat) (data : Bytes) : Option CExt :=
  if type = 0 then
    (whole (takeVec 2 data)).bind fun v => (takeNat 1 v).bind fun (t, r) =>
      (whole (takeVec 2 r)).bind fun host =>
        if t = 0 ∧ host ≠ [] then some (.serverName host) else none
  else if type = 10 then
    (whole (takeVecOf 2 (takeNat 2) data)).bind fun l => (nonempty l).map .groups
  else if type = 13 then
    (whole (takeVecOf 2 (takeNat 2) data)).bind fun l => (nonempty l).map .sigAlgs
  else if type = 41 then
    (takeVecOf 2 takeIdentity data).bind fun (ids, r) => (whole (takeVecOf 2 takeBinder r)).bind fun binders =>
      if ids ≠ [] ∧ ids.length = binders.length then some (.preShared ids binders) else none
  else if type = 43 then
    (whole (takeVecOf 1 (takeNat 2) data)).bind fun l => (nonempty l).map .versions
  else if type = 45 then
    (whole (takeVecOf 1 (takeNat 1) data)).bind fun l => (nonempty l).map .pskModes
  else if type = 51 then
    (whole (takeVecOf 2 takeKeyShare data)).map .keyShares
  else some (.other type data)

def take (bs : Bytes) : Option (CExt × Bytes) :=
  (takeNat 2 bs).bind fun (type, r) => (takeVec 2 r).bind fun (data, r) =>
    (decode type data).map fun e => (e, r)

end CExt

/-! ## The message -/

structure ClientHello where
  random : Bytes
  sessionId : Bytes
  cipherSuites : List Nat
  compression : Bytes
  exts : List CExt
  deriving DecidableEq

namespace ClientHello

def body (h : ClientHello) : Bytes :=
  be 2 0x0303 ++ h.random ++ vec 1 h.sessionId ++ vec 2 (h.cipherSuites.flatMap (be 2)) ++ vec 1 h.compression ++
    vec 2 (h.exts.flatMap CExt.encode)

def encode (h : ClientHello) : Bytes := 1 :: vec 3 h.body

/-- No type twice, and pre_shared_key only last (4.2, 4.2.11). -/
def Ordered (exts : List CExt) : Prop :=
  (exts.map CExt.type).Nodup ∧ 41 ∉ exts.dropLast.map CExt.type

instance (exts : List CExt) : Decidable (Ordered exts) := inferInstanceAs (Decidable (_ ∧ _))

structure Fits (h : ClientHello) : Prop where
  random : h.random.length = 32
  sessionId : h.sessionId.length ≤ 32
  cipherSuites : h.cipherSuites ≠ [] ∧ CExt.NatsFit 2 2 h.cipherSuites
  compression : h.compression ≠ [] ∧ h.compression.length < 256
  exts : (h.exts.flatMap CExt.encode).length < 256 ^ 2 ∧
    ∀ e ∈ h.exts, e.Fits ∧ e.data.length < 256 ^ 2
  ordered : Ordered h.exts

def parse (msg : Bytes) : Option ClientHello := do
  let (type, r) ← takeNat 1 msg
  let body ← whole (takeVec 3 r)
  let (version, r) ← takeNat 2 body
  let (random, r) ← takeBytes 32 r
  let (sessionId, r) ← takeVec 1 r
  let (cipherSuites, r) ← takeVecOf 2 (takeNat 2) r
  let (compression, r) ← takeVec 1 r
  let exts ← whole (takeVecOf 2 CExt.take r)
  if type = 1 ∧ version = 0x0303 ∧ sessionId.length ≤ 32 ∧ cipherSuites ≠ [] ∧ compression ≠ [] ∧
      Ordered exts then
    some { random, sessionId, cipherSuites, compression, exts }
  else none

end ClientHello

/-! ## Parsing inverts encoding -/

theorem takeKeyShare_eq_some {bs r : Bytes} {k : Nat × Bytes} :
    takeKeyShare bs = some (k, r) ↔ bs = encKeyShare k ++ r ∧ KeyShareFits k := by
  obtain ⟨g, key⟩ := k
  simp only [takeKeyShare, Option.bind_eq_some_iff, Prod.exists, encKeyShare, KeyShareFits]
  constructor
  · intro h
    obtain ⟨g', r₁, hg, key', r₂, hk, h⟩ := h
    obtain ⟨rfl, hlt⟩ := takeNat_eq_some.1 hg
    obtain ⟨rfl, hklt⟩ := takeVec_eq_some.1 hk
    split at h
    · cases h
    · next hne => cases h; exact ⟨by simp, hlt, hklt, hne⟩
  · intro hall
    obtain ⟨rfl, hg, hk, hne⟩ := hall
    refine ⟨g, vec 2 key ++ r, takeNat_eq_some.2 ⟨by simp, hg⟩, key, r, takeVec_eq_some.2 ⟨rfl, hk⟩, ?_⟩
    rw [if_neg hne]

theorem takeIdentity_eq_some {bs r : Bytes} {i : Bytes × Nat} :
    takeIdentity bs = some (i, r) ↔ bs = encIdentity i ++ r ∧ IdentityFits i := by
  obtain ⟨name, age⟩ := i
  simp only [takeIdentity, Option.bind_eq_some_iff, Prod.exists, encIdentity, IdentityFits]
  constructor
  · intro h
    obtain ⟨name', r₁, hn, age', r₂, ha, h⟩ := h
    obtain ⟨rfl, hlt⟩ := takeVec_eq_some.1 hn
    obtain ⟨rfl, halt⟩ := takeNat_eq_some.1 ha
    split at h
    · cases h
    · next hne => cases h; exact ⟨by simp, hlt, halt, hne⟩
  · intro hall
    obtain ⟨rfl, hn, ha, hne⟩ := hall
    refine ⟨name, be 4 age ++ r, takeVec_eq_some.2 ⟨by simp, hn⟩, age, r, takeNat_eq_some.2 ⟨rfl, ha⟩, ?_⟩
    rw [if_neg hne]

theorem takeBinder_eq_some {bs r b : Bytes} :
    takeBinder bs = some (b, r) ↔ bs = encBinder b ++ r ∧ BinderFits b := by
  simp only [takeBinder, Option.bind_eq_some_iff, Prod.exists, encBinder, BinderFits]
  constructor
  · intro h
    obtain ⟨b', r₁, hb, h⟩ := h
    obtain ⟨rfl, hlt⟩ := takeVec_eq_some.1 hb
    split at h
    · cases h
    · next hlen => cases h; exact ⟨rfl, hlt, by omega⟩
  · intro hall
    obtain ⟨rfl, hlt, hlen⟩ := hall
    exact ⟨b, r, takeVec_eq_some.2 ⟨rfl, hlt⟩, if_neg (by omega)⟩

namespace CExt

theorem nonempty_eq_some {α : Type} {l l' : List α} : nonempty l = some l' ↔ l = l' ∧ l' ≠ [] := by
  cases l <;> simp [nonempty]
  rintro rfl
  simp

theorem whole_nats {k n : Nat} (hn : 0 < n) {data : Bytes} {l : List Nat} :
    whole (takeVecOf k (takeNat n) data) = some l ↔ data = vec k (l.flatMap (be n)) ∧ NatsFit k n l := by
  rw [whole_eq_some, takeVecOf_eq_some takeNat_eq_some (fun {a} _ => by simpa using hn)]
  simp [NatsFit]

/-- The four extensions that are one list of numbers. -/
theorem decode_nats {k n : Nat} (hn : 0 < n) {data : Bytes} {f : List Nat → CExt} {e : CExt} :
    ((whole (takeVecOf k (takeNat n) data)).bind fun l => (nonempty l).map f) = some e ↔
      ∃ l, f l = e ∧ data = vec k (l.flatMap (be n)) ∧ l ≠ [] ∧ NatsFit k n l := by
  simp only [Option.bind_eq_some_iff, Option.map_eq_some_iff, whole_nats hn, nonempty_eq_some]
  constructor
  · intro h
    obtain ⟨l, ⟨hd, hfit⟩, l', ⟨rfl, hne⟩, rfl⟩ := h
    exact ⟨l, rfl, hd, hne, hfit⟩
  · intro h
    obtain ⟨l, rfl, hd, hne, hfit⟩ := h
    exact ⟨l, ⟨hd, hfit⟩, l, ⟨rfl, hne⟩, rfl⟩

theorem decode_serverName {data : Bytes} {e : CExt} :
    ((whole (takeVec 2 data)).bind fun v => (takeNat 1 v).bind fun (t, r) =>
      (whole (takeVec 2 r)).bind fun host =>
        if t = 0 ∧ host ≠ [] then some (CExt.serverName host) else none) = some e ↔
      ∃ host, .serverName host = e ∧ data = (CExt.serverName host).data ∧ (CExt.serverName host).Fits := by
  simp only [Option.bind_eq_some_iff, whole_eq_some, Prod.exists, CExt.data, Fits]
  constructor
  · intro h
    obtain ⟨v, hv, t, r, ht, host, hh, h⟩ := h
    obtain ⟨rfl, hvlt⟩ := takeVec_eq_some.1 hv
    obtain ⟨rfl, -⟩ := takeNat_eq_some.1 ht
    obtain ⟨rfl, -⟩ := takeVec_eq_some.1 hh
    split at h
    · next hc =>
      cases h
      refine ⟨host, rfl, by simp [hc.1, be], hc.2, ?_⟩
      simp only [List.append_nil, List.length_append, be_length, vec_length] at hvlt
      omega
    · cases h
  · intro hall
    obtain ⟨host, rfl, rfl, hne, hlen⟩ := hall
    refine ⟨0 :: vec 2 host, takeVec_eq_some.2 ⟨by simp, by simp; omega⟩, 0, vec 2 host,
      takeNat_eq_some.2 ⟨rfl, by simp⟩, host, takeVec_eq_some.2 ⟨by simp, by omega⟩, ?_⟩
    rw [if_pos ⟨rfl, hne⟩]

theorem decode_preShared {data : Bytes} {e : CExt} :
    ((takeVecOf 2 takeIdentity data).bind fun (ids, r) => (whole (takeVecOf 2 takeBinder r)).bind fun binders =>
      if ids ≠ [] ∧ ids.length = binders.length then some (CExt.preShared ids binders) else none) = some e ↔
      ∃ ids binders, .preShared ids binders = e ∧ data = (CExt.preShared ids binders).data ∧
        (CExt.preShared ids binders).Fits := by
  have hid : ∀ {a : Bytes × Nat}, IdentityFits a → 0 < (encIdentity a).length := by
    intro a _; simp [encIdentity]
  have hb : ∀ {b : Bytes}, BinderFits b → 0 < (encBinder b).length := by intro b _; simp [encBinder]
  simp only [Option.bind_eq_some_iff, whole_eq_some, Prod.exists, takeVecOf_eq_some takeIdentity_eq_some hid,
    takeVecOf_eq_some takeBinder_eq_some hb, CExt.data, Fits]
  constructor
  · intro h
    obtain ⟨ids, r, ⟨rfl, hilt, hi⟩, binders, ⟨rfl, hblt, hb⟩, h⟩ := h
    split at h
    · next hc => cases h; exact ⟨ids, binders, rfl, by simp, hc.1, hc.2, hilt, hblt, hi, hb⟩
    · cases h
  · intro hall
    obtain ⟨ids, binders, rfl, rfl, hne, hlen, hilt, hblt, hi, hb⟩ := hall
    refine ⟨ids, _, ⟨rfl, hilt, hi⟩, binders, ⟨by simp, hblt, hb⟩, ?_⟩
    rw [if_pos ⟨hne, hlen⟩]

theorem decode_keyShares {data : Bytes} {e : CExt} :
    ((whole (takeVecOf 2 takeKeyShare data)).map CExt.keyShares) = some e ↔
      ∃ l, .keyShares l = e ∧ data = (CExt.keyShares l).data ∧ (CExt.keyShares l).Fits := by
  have hk : ∀ {a : Nat × Bytes}, KeyShareFits a → 0 < (encKeyShare a).length := by intro a _; simp [encKeyShare]
  simp only [Option.map_eq_some_iff, whole_eq_some, takeVecOf_eq_some takeKeyShare_eq_some hk, CExt.data, Fits]
  constructor
  · intro h
    obtain ⟨l, ⟨rfl, hlt, hfit⟩, rfl⟩ := h
    exact ⟨l, rfl, by simp, hlt, hfit⟩
  · intro h
    obtain ⟨l, rfl, rfl, hlt, hfit⟩ := h
    exact ⟨l, ⟨by simp, hlt, hfit⟩, rfl⟩

/-- Decoding an extension inverts its encoding. -/
theorem decode_eq_some {type : Nat} {data : Bytes} {e : CExt} (ht : type < 256 ^ 2) :
    decode type data = some e ↔ type = e.type ∧ data = e.data ∧ e.Fits := by
  constructor
  · intro h
    unfold decode at h
    split at h
    · next ht => obtain ⟨_, rfl, hd, hf⟩ := decode_serverName.1 h; exact ⟨ht, hd, hf⟩
    split at h
    · next ht => obtain ⟨_, rfl, hd, hf⟩ := (decode_nats (by decide)).1 h; exact ⟨ht, hd, hf⟩
    split at h
    · next ht => obtain ⟨_, rfl, hd, hf⟩ := (decode_nats (by decide)).1 h; exact ⟨ht, hd, hf⟩
    split at h
    · next ht => obtain ⟨_, _, rfl, hd, hf⟩ := decode_preShared.1 h; exact ⟨ht, hd, hf⟩
    split at h
    · next ht => obtain ⟨_, rfl, hd, hf⟩ := (decode_nats (by decide)).1 h; exact ⟨ht, hd, hf⟩
    split at h
    · next ht => obtain ⟨_, rfl, hd, hf⟩ := (decode_nats (by decide)).1 h; exact ⟨ht, hd, hf⟩
    split at h
    · next ht => obtain ⟨_, rfl, hd, hf⟩ := decode_keyShares.1 h; exact ⟨ht, hd, hf⟩
    · next h₀ h₁ h₂ h₃ h₄ h₅ h₆ =>
      cases h
      exact ⟨rfl, rfl, by simp [known, h₀, h₁, h₂, h₃, h₄, h₅, h₆], ht⟩
  · intro hall
    obtain ⟨rfl, rfl, hf⟩ := hall
    cases e with
    | serverName host => exact decode_serverName.2 ⟨host, rfl, rfl, hf⟩
    | groups l => exact (decode_nats (by decide)).2 ⟨l, rfl, rfl, hf⟩
    | sigAlgs l => exact (decode_nats (by decide)).2 ⟨l, rfl, rfl, hf⟩
    | preShared ids binders => exact decode_preShared.2 ⟨ids, binders, rfl, rfl, hf⟩
    | versions l => exact (decode_nats (by decide)).2 ⟨l, rfl, rfl, hf⟩
    | pskModes l => exact (decode_nats (by decide)).2 ⟨l, rfl, rfl, hf⟩
    | keyShares l => exact decode_keyShares.2 ⟨l, rfl, rfl, hf⟩
    | other t d =>
      obtain ⟨hk, -⟩ := hf
      simp only [known, List.mem_cons, List.not_mem_nil, or_false, not_or] at hk
      obtain ⟨h₀, h₁, h₂, h₃, h₄, h₅, h₆⟩ := hk
      simp [decode, type, data, h₀, h₁, h₂, h₃, h₄, h₅, h₆]

theorem type_lt {e : CExt} (h : e.Fits) : e.type < 256 ^ 2 := by
  cases e with
  | other t d => exact h.2
  | _ => simp [type]

theorem take_eq_some {bs r : Bytes} {e : CExt} :
    take bs = some (e, r) ↔ bs = e.encode ++ r ∧ e.Fits ∧ e.data.length < 256 ^ 2 := by
  simp only [take, Option.bind_eq_some_iff, Option.map_eq_some_iff, Prod.exists, Prod.mk.injEq, encode]
  constructor
  · intro h
    obtain ⟨type, r₁, ht, data, r₂, hd, e', he, rfl, rfl⟩ := h
    obtain ⟨rfl, htlt⟩ := takeNat_eq_some.1 ht
    obtain ⟨rfl, hdlt⟩ := takeVec_eq_some.1 hd
    obtain ⟨rfl, rfl, hf⟩ := (decode_eq_some htlt).1 he
    exact ⟨by simp, hf, hdlt⟩
  · intro h
    obtain ⟨rfl, hf, hdlt⟩ := h
    exact ⟨e.type, vec 2 e.data ++ r, takeNat_eq_some.2 ⟨by simp, type_lt hf⟩, e.data, r,
      takeVec_eq_some.2 ⟨rfl, hdlt⟩, e, (decode_eq_some (type_lt hf)).2 ⟨rfl, rfl, hf⟩, rfl, rfl⟩

theorem encode_pos (e : CExt) : 0 < e.encode.length := by
  simp [encode]

end CExt

namespace ClientHello

theorem body_length_lt {h : ClientHello} (hf : h.Fits) : h.body.length < 256 ^ 3 := by
  have h₁ := hf.random
  have h₂ := hf.sessionId
  have h₃ := hf.cipherSuites.2.1
  have h₄ := hf.compression.2
  have h₅ := hf.exts.1
  simp only [body, List.length_append, be_length, vec_length]
  omega

/-- **Parsing a ClientHello inverts encoding one.** -/
theorem parse_eq_some {msg : Bytes} {h : ClientHello} : parse msg = some h ↔ msg = h.encode ∧ h.Fits := by
  have hciph : ∀ {a : Nat}, a < 256 ^ 2 → 0 < (be 2 a).length := by simp
  have hext : ∀ {e : CExt}, (e.Fits ∧ e.data.length < 256 ^ 2) → 0 < e.encode.length := fun {e} _ => e.encode_pos
  simp only [parse, Option.bind_eq_bind, Option.bind_eq_some_iff, Prod.exists, whole_eq_some]
  constructor
  · intro hall
    obtain ⟨type, r₁, ht, bd, hb, version, r₂, hv, random, r₃, hr, sid, r₄, hs, ciphers, r₅, hc, comp, r₆, hm,
      exts, he, h⟩ := hall
    obtain ⟨rfl, -⟩ := takeNat_eq_some.1 ht
    obtain ⟨rfl, -⟩ := takeVec_eq_some.1 hb
    obtain ⟨rfl, -⟩ := takeNat_eq_some.1 hv
    obtain ⟨rfl, hrl⟩ := takeBytes_eq_some.1 hr
    obtain ⟨rfl, -⟩ := takeVec_eq_some.1 hs
    obtain ⟨rfl, hcl, hcf⟩ := (takeVecOf_eq_some takeNat_eq_some hciph).1 hc
    obtain ⟨rfl, hml⟩ := takeVec_eq_some.1 hm
    obtain ⟨rfl, hel, hef⟩ := (takeVecOf_eq_some CExt.take_eq_some hext).1 he
    split at h
    · next hcond =>
      obtain ⟨rfl, rfl, hsl, hcne, hmne, hord⟩ := hcond
      cases h
      exact ⟨by simp [encode, body, be], ⟨hrl, hsl, ⟨hcne, hcl, hcf⟩, ⟨hmne, by omega⟩, ⟨hel, hef⟩, hord⟩⟩
    · cases h
  · intro hall
    obtain ⟨rfl, hf⟩ := hall
    refine ⟨1, vec 3 h.body, takeNat_eq_some.2 ⟨by simp [encode, be], by simp⟩, h.body,
      takeVec_eq_some.2 ⟨by simp, body_length_lt hf⟩, 0x0303, _, takeNat_eq_some.2 ⟨?_, by simp⟩,
      h.random, _, takeBytes_eq_some.2 ⟨rfl, hf.random⟩, h.sessionId, _, takeVec_eq_some.2 ⟨rfl, ?_⟩,
      h.cipherSuites, _, (takeVecOf_eq_some takeNat_eq_some hciph).2 ⟨rfl, hf.cipherSuites.2.1, hf.cipherSuites.2.2⟩,
      h.compression, _, takeVec_eq_some.2 ⟨rfl, by have := hf.compression.2; omega⟩, h.exts,
      (takeVecOf_eq_some CExt.take_eq_some hext).2 ⟨rfl, hf.exts.1, hf.exts.2⟩, ?_⟩
    · simp [body]
    · have := hf.sessionId; omega
    · rw [if_pos ⟨rfl, rfl, hf.sessionId, hf.cipherSuites.1, hf.compression.1, hf.ordered⟩]

end ClientHello

end WolfNano.Rfc

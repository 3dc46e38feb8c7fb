/-
The PSK driver's ClientHello is the encoding of `pskHello`, with the binder in
its place.

`build_client_hello` is the writing of a tree of items (`pskItems`), so what
it holds is an encoding whatever the identity; the hello parses when the
identity is not empty and no length prefix overflows.
-/
import WolfNano.ClientHello
import WolfNano.ClientHelloGrammar
import WolfNano.MsgTree

namespace WolfNano

open Wire

/-! ## The hello as a value -/

/-- The schemes the PSK driver offers. -/
def pskSigAlgs (cfg : Config) : List Nat :=
  (cfg.mldsa.map MldsaLevel.scheme).toList ++ [0x0807, 0x0403]

/-- The ClientHello of the PSK driver. -/
def pskHello (cfg : Config) (random sid : Block 32) (pub identity : Bytes) (binder : Bytes) :
    Rfc.ClientHello where
  random := random.val
  sessionId := sid.val
  cipherSuites := [0x1301]
  compression := [0]
  exts := [.versions [0x0304], .groups [cfg.group.code], .sigAlgs (pskSigAlgs cfg),
    .keyShares [(cfg.group.code, pub)], .pskModes [1], .preShared [(identity, 0)] [binder]]

/-- The length of its encoding, before the identity. -/
def pskHelloBase (cfg : Config) : Nat :=
  (if cfg.mldsa.isSome then 169 else 167) + cfg.group.pubSz

/-! ## The writes as a tree -/

section Items

variable (cfg : Config) (random sid : Block 32) (pub identity : Bytes)

def fieldItems : List Item :=
  [.u16 0x0303, .bytes random.val, .u8 32, .bytes sid.val, .u16 2, .u16 0x1301, .u8 1, .u8 0]

/-- The signature_algorithms list, with its lengths. -/
def sigAlgItems : List Item :=
  match cfg.mldsa with
  | some level => [.u16 8, .u16 6, .u16 level.scheme, .u16 0x0807, .u16 0x0403]
  | none => [.u16 6, .u16 4, .u16 0x0807, .u16 0x0403]

def extItems : List Item :=
  [.u16 43, .u16 3, .u8 2, .u16 0x0304, .u16 10, .u16 4, .u16 2, .u16 cfg.group.code, .u16 13] ++
    sigAlgItems cfg ++
    [.u16 51, .u16 (6 + pub.length), .u16 (4 + pub.length), .u16 cfg.group.code, .u16 pub.length, .bytes pub,
      .u16 45, .u16 2, .u8 1, .u8 1]

def identityItems : List Item :=
  [.group 2 [.u16 identity.length, .bytes identity, .u16 0, .u16 0]]

/-- The binders, all zero. -/
def binderItems : List Item := [.u16 33, .u8 32] ++ List.replicate 32 (.u8 0)

def pskItems : List Item :=
  [.u8 1, .group 3 (fieldItems random sid ++
    [.group 2 (extItems cfg pub ++ [.u16 41, .group 2 (identityItems identity ++ binderItems)])])]

end Items

section Built

variable {cfg : Config} {random sid : Block 32} {pub identity : Bytes}

theorem buildHelloFields_eq (w : Writer) : buildHelloFields w random sid = Item.writeAll (fieldItems random sid) w := by
  simp [fieldItems, buildHelloFields, Item.write]

theorem buildHelloExts_eq (w : Writer) : buildHelloExts cfg w pub = Item.writeAll (extItems cfg pub) w := by
  simp only [extItems, sigAlgItems, buildHelloExts]
  cases cfg.mldsa <;> simp [Item.write]

theorem buildHelloIdentities_eq (w : Writer) :
    buildHelloIdentities w identity = Item.writeAll (identityItems identity) w := by
  simp [identityItems, buildHelloIdentities, Item.write]

theorem zeros_eq (n : Nat) (w : Writer) :
    (List.range n).foldl (fun w _ => wnWriteU8 w 0) w = Item.writeAll (List.replicate n (.u8 0)) w := by
  induction n with
  | zero => simp
  | succ n ih =>
    rw [List.range_succ, List.foldl_append, ih, List.replicate_succ', Item.writeAll_append]
    simp [Item.write]

/-- **`build_client_hello` writes the tree.** -/
theorem buildClientHello_eq (w : Writer) :
    (buildClientHello cfg w random sid pub identity).w = Item.writeAll (pskItems cfg random sid pub identity) w := by
  simp only [buildClientHello, buildHelloFields_eq, buildHelloExts_eq, buildHelloIdentities_eq, zeros_eq,
    pskItems, binderItems, Item.writeAll_append, Item.writeAll_cons, Item.writeAll_nil, Item.write]

/-! ## The bytes -/

/-- The extensions before pre_shared_key. -/
def pskHelloExts (cfg : Config) (pub : Bytes) : List Rfc.CExt :=
  [.versions [0x0304], .groups [cfg.group.code], .sigAlgs (pskSigAlgs cfg),
    .keyShares [(cfg.group.code, pub)], .pskModes [1]]

theorem encode_fieldItems : Item.encodeAll (fieldItems random sid) =
    be 2 0x0303 ++ random.val ++ vec 1 sid.val ++ vec 2 (be 2 0x1301) ++ vec 1 [0] := by
  simp [fieldItems, vec, be_one]

theorem encode_extItems : Item.encodeAll (extItems cfg pub) =
    (pskHelloExts cfg pub).flatMap Rfc.CExt.encode := by
  have h₁ : 6 + pub.length = 2 + (2 + (2 + pub.length)) := by omega
  have h₂ : 4 + pub.length = 2 + (2 + pub.length) := by omega
  simp only [extItems, sigAlgItems, pskSigAlgs, pskHelloExts, h₁, h₂]
  cases cfg.mldsa <;>
    simp [Rfc.CExt.encode, Rfc.CExt.data, Rfc.CExt.type, Rfc.encKeyShare, vec, be_one]

theorem encode_identityItems : Item.encodeAll (identityItems identity) =
    vec 2 (Rfc.encIdentity (identity, 0)) := by
  have hage : be 4 0 = be 2 0 ++ be 2 0 := rfl
  simp [identityItems, Rfc.encIdentity, vec, hage]

theorem encode_binderItems : Item.encodeAll binderItems = vec 2 (Rfc.encBinder (List.replicate 32 0)) := by
  simp [binderItems, Rfc.encBinder, vec, be_one]

theorem encode_pskItems : Item.encodeAll (pskItems cfg random sid pub identity) =
    (pskHello cfg random sid pub identity (List.replicate 32 0)).encode := by
  simp only [pskItems, Item.encodeAll_cons, Item.encodeAll_nil, Item.encode_u8, Item.encode_group,
    Item.encodeAll_append, encode_fieldItems, encode_extItems, encode_identityItems, encode_binderItems]
  simp [Rfc.ClientHello.encode, Rfc.ClientHello.body, pskHello, pskHelloExts, Rfc.CExt.encode, Rfc.CExt.data,
    Rfc.CExt.type]

theorem pskHelloExts_length (hpub : pub.length = cfg.group.pubSz) :
    ((pskHelloExts cfg pub).flatMap Rfc.CExt.encode).length + 126 = pskHelloBase cfg := by
  rw [pskHelloExts, pskHelloBase, pskSigAlgs, ← hpub]
  cases cfg.mldsa <;>
    simp [Rfc.CExt.encode, Rfc.CExt.data, Rfc.CExt.type, Rfc.encKeyShare] <;> omega

/-- Everything before the binders. -/
def pskHelloFront (cfg : Config) (random sid : Block 32) (pub identity : Bytes) : Bytes :=
  let exts := (pskHelloExts cfg pub).flatMap Rfc.CExt.encode
  let ids := vec 2 (Rfc.encIdentity (identity, 0))
  let fields := be 2 0x0303 ++ random.val ++ vec 1 sid.val ++ vec 2 (be 2 0x1301) ++ vec 1 [0]
  1 :: be 3 (fields.length + 2 + exts.length + 4 + ids.length + 35) ++ fields ++
    be 2 (exts.length + 4 + ids.length + 35) ++ exts ++ be 2 41 ++ be 2 (ids.length + 35) ++ ids

variable (cfg random sid pub identity) in
theorem pskHello_encode {binder : Bytes} (hb : binder.length = 32) :
    (pskHello cfg random sid pub identity binder).encode =
      pskHelloFront cfg random sid pub identity ++ ([0, 33, 32] ++ binder) := by
  have hexts : (pskHello cfg random sid pub identity binder).exts.flatMap Rfc.CExt.encode =
      (pskHelloExts cfg pub).flatMap Rfc.CExt.encode ++ (be 2 41 ++
        vec 2 (vec 2 (Rfc.encIdentity (identity, 0)) ++ ([0, 33, 32] ++ binder))) := by
    simp [pskHello, pskHelloExts, Rfc.CExt.encode, Rfc.CExt.data, Rfc.CExt.type, Rfc.encBinder, vec, hb, be]
  simp only [Rfc.ClientHello.encode, Rfc.ClientHello.body, hexts, pskHelloFront]
  generalize (pskHelloExts cfg pub).flatMap Rfc.CExt.encode = exts
  generalize vec 2 (Rfc.encIdentity (identity, 0)) = ids
  have h₁ : (ids ++ ([0, 33, 32] ++ binder)).length = ids.length + 35 := by simp [hb]
  have h₂ : (exts ++ (be 2 41 ++ vec 2 (ids ++ ([0, 33, 32] ++ binder)))).length =
      exts.length + 4 + ids.length + 35 := by simp [hb]; omega
  set fields := be 2 0x0303 ++ random.val ++ vec 1 sid.val ++ vec 2 (be 2 0x1301) ++ vec 1 [0] with hfields
  have hbody : be 2 0x0303 ++ (pskHello cfg random sid pub identity binder).random ++
      vec 1 (pskHello cfg random sid pub identity binder).sessionId ++
      vec 2 ((pskHello cfg random sid pub identity binder).cipherSuites.flatMap (be 2)) ++
      vec 1 (pskHello cfg random sid pub identity binder).compression = fields := by
    simp [pskHello, hfields]
  rw [hbody]
  have h₃ : (fields ++ vec 2 (exts ++ (be 2 41 ++ vec 2 (ids ++ ([0, 33, 32] ++ binder))))).length =
      fields.length + 2 + exts.length + 4 + ids.length + 35 := by simp [hb]; omega
  rw [vec, h₃, vec, h₂, vec, h₁]
  simp

variable (random sid identity) in
theorem pskHelloFront_length (hpub : pub.length = cfg.group.pubSz) :
    (pskHelloFront cfg random sid pub identity).length + 35 = pskHelloBase cfg + identity.length := by
  have h := pskHelloExts_length hpub
  simp only [pskHelloFront, List.length_append, List.length_cons, be_length, vec_length, Block.length,
    Rfc.encIdentity]
  simp only [List.length_nil]
  omega

/-! ## The grammar -/

theorem pskSigAlgs_fits (cfg : Config) : pskSigAlgs cfg ≠ [] ∧ Rfc.CExt.NatsFit 2 2 (pskSigAlgs cfg) := by
  unfold pskSigAlgs Rfc.CExt.NatsFit
  rcases cfg.mldsa with _ | ⟨_ | _ | _⟩ <;> decide

variable (random sid) in
/-- **The hello obeys the grammar** when its identity is not empty and a record
has room for it. -/
theorem pskHello_fits (hpub : pub.length = cfg.group.pubSz) {binder : Bytes} (hb : binder.length = 32)
    (hid : identity ≠ []) (hsize : pskHelloBase cfg + identity.length ≤ wnMaxPlaintext) :
    (pskHello cfg random sid pub identity binder).Fits := by
  have hexts := pskHelloExts_length hpub
  simp only [wnMaxPlaintext] at hsize
  have hsig := pskSigAlgs_fits cfg
  have hgroup : cfg.group.code < 256 ^ 2 := by cases cfg.group <;> decide
  have hne : pub ≠ [] := by
    rintro rfl
    have : cfg.group.pubSz ≠ 0 := by cases cfg.group <;> decide
    exact this hpub.symm
  have hpubsz : pub.length ≤ 2000 := by rw [hpub]; cases cfg.group <;> decide
  have hpsk : (Rfc.CExt.preShared [(identity, 0)] [binder]).data.length = identity.length + 43 := by
    simp [Rfc.CExt.data, Rfc.encIdentity, Rfc.encBinder, hb]
    omega
  have hall : (pskHello cfg random sid pub identity binder).exts.flatMap Rfc.CExt.encode =
      (pskHelloExts cfg pub).flatMap Rfc.CExt.encode ++ (Rfc.CExt.preShared [(identity, 0)] [binder]).encode := by
    simp [pskHello, pskHelloExts]
  have hlen : ((pskHello cfg random sid pub identity binder).exts.flatMap Rfc.CExt.encode).length < 256 ^ 2 := by
    rw [hall, List.length_append, Rfc.CExt.encode, List.length_append, vec_length, be_length, hpsk]
    omega
  refine ⟨random.length, by simp [pskHello], by simp [pskHello, Rfc.CExt.NatsFit], by simp [pskHello],
    ⟨hlen, fun e he => ⟨?_, ?_⟩⟩, by simp [pskHello, Rfc.ClientHello.Ordered, Rfc.CExt.type]⟩
  · simp only [pskHello, List.mem_cons, List.not_mem_nil, or_false] at he
    rcases he with rfl | rfl | rfl | rfl | rfl | rfl
    · exact ⟨by simp, by simp, by simp⟩
    · exact ⟨by simp, by simp, by simpa using hgroup⟩
    · exact hsig
    · refine ⟨by simp [Rfc.encKeyShare]; omega, by simpa [Rfc.KeyShareFits] using ⟨hgroup, by omega, hne⟩⟩
    · exact ⟨by simp, by simp, by simp⟩
    · refine ⟨by simp, rfl, by simp [Rfc.encIdentity]; omega, by simp [Rfc.encBinder]; omega, ?_, ?_⟩
      · simp only [List.mem_singleton, forall_eq, Rfc.IdentityFits]
        exact ⟨by omega, by decide, hid⟩
      · simp only [List.mem_singleton, forall_eq, Rfc.BinderFits]
        omega
  · obtain ⟨l, r, hlr⟩ := List.append_of_mem he
    rw [hlr] at hlen
    simp only [List.flatMap_append, List.flatMap_cons, List.length_append, Rfc.CExt.encode, vec_length] at hlen
    omega

/-! ## What `build_client_hello` leaves -/

/-- The writer when the binder's hash ends there. -/
def truncWriter (cfg : Config) (w : Writer) (random sid : Block 32) (pub identity : Bytes) : Writer :=
  let w := (wnWriteLenStart (wnWriteU8 w 1) 3).1
  let w := (wnWriteLenStart (Item.writeAll (fieldItems random sid) w) 2).1
  let w := wnWriteU16 (Item.writeAll (extItems cfg pub) w) 41
  Item.writeAll (identityItems identity) (wnWriteLenStart w 2).1

theorem truncOff_eq (w : Writer) : (buildClientHello cfg w random sid pub identity).truncOff =
    (truncWriter cfg w random sid pub identity).len := by
  simp only [buildClientHello, buildHelloFields_eq, buildHelloExts_eq, buildHelloIdentities_eq, truncWriter]

theorem binderOff_eq (w : Writer) : (buildClientHello cfg w random sid pub identity).binderOff =
    (wnWriteU8 (wnWriteU16 (truncWriter cfg w random sid pub identity) 33) 32).len := by
  simp only [buildClientHello, buildHelloFields_eq, buildHelloExts_eq, buildHelloIdentities_eq, truncWriter]

theorem pskHelloBase_le (cfg : Config) : pskHelloBase cfg ≤ 3000 := by
  have hsz : cfg.group.pubSz ≤ 2000 := by cases cfg.group <;> decide
  unfold pskHelloBase
  split <;> omega

/-- What an identity that the driver takes leaves of a `word32`. -/
theorem pskHelloBase_lt (cfg : Config) (hid : identity.length ≤ 0xFFFF) : pskHelloBase cfg + identity.length < 2 ^ 32 := by
  have := pskHelloBase_le cfg
  omega

variable (hpub : pub.length = cfg.group.pubSz) (hid : pskHelloBase cfg + identity.length < 2 ^ 32)
include hpub hid

variable (random sid) in
/-- It holds as many bytes as come before the binders. -/
theorem truncWriter_tracks (buf : Bytes) (cap : Nat) :
    ∃ out, Tracks cap (truncWriter cfg (wnWriterInit buf cap) random sid pub identity) out ∧
      out.length + 35 = pskHelloBase cfg + identity.length := by
  have hx : (Item.encodeAll (extItems cfg pub)).length + 126 = pskHelloBase cfg := by
    rw [encode_extItems]; exact pskHelloExts_length hpub
  have hi : (Item.encodeAll (identityItems identity)).length = 8 + identity.length := by
    simp [encode_identityItems, Rfc.encIdentity]; omega
  have hf : (Item.encodeAll (fieldItems random sid)).length = 73 := by simp [encode_fieldItems]
  have h := (Tracks.init buf cap).u8 1 (by simp)
  have h := h.lenStart 3 (by simp)
  have h := Item.writeAll_tracks (fieldItems random sid) h (by simp [hf])
  have h := h.lenStart 2 (by simp [hf])
  have h := Item.writeAll_tracks (extItems cfg pub) h (by simp [hf]; omega)
  have h := h.u16 41 (by simp [hf]; omega)
  have h := h.lenStart 2 (by simp [hf]; omega)
  have h := Item.writeAll_tracks (identityItems identity) h
    (by simp [hf, hi]; omega)
  refine ⟨_, h, ?_⟩
  simp [hf, hi]
  omega

variable (random sid) in
/-- The hello that is built, and its two offsets, when it fits. -/
theorem buildClientHello_ok (buf : Bytes) (cap : Nat) :
    let b := buildClientHello cfg (wnWriterInit buf cap) random sid pub identity
    (b.w.err = false ↔ pskHelloBase cfg + identity.length ≤ cap) ∧
    (b.w.err = false → b.w.len = pskHelloBase cfg + identity.length ∧
      b.w.buf.take b.w.len = pskHelloFront cfg random sid pub identity ++ ([0, 33, 32] ++ List.replicate 32 0) ∧
      b.truncOff = (pskHelloFront cfg random sid pub identity).length ∧
      b.binderOff = (pskHelloFront cfg random sid pub identity).length + 3) := by
  have hfront := pskHelloFront_length random sid identity hpub
  have henc := pskHello_encode cfg random sid pub identity
    (List.length_replicate : (List.replicate 32 (0 : UInt8)).length = 32)
  have hlen : (Item.encodeAll (pskItems cfg random sid pub identity)).length = pskHelloBase cfg + identity.length := by
    rw [encode_pskItems, henc]; simp; omega
  have h := Item.writeAll_tracks (pskItems cfg random sid pub identity) (Tracks.init buf cap) (by simp [hlen]; omega)
  rw [List.nil_append, ← buildClientHello_eq] at h
  obtain ⟨out, ht, hout⟩ := truncWriter_tracks random sid hpub hid buf cap
  have hb := (ht.u16 33 (by omega)).u8 32 (by simp; omega)
  refine ⟨by rw [h.err, hlen], fun herr => ?_⟩
  have hfit : pskHelloBase cfg + identity.length ≤ cap := by rw [← hlen]; exact h.err.1 herr
  refine ⟨by rw [h.len herr, hlen], ?_, ?_, ?_⟩
  · rw [h.len herr, h.buf herr, encode_pskItems, henc]
  · rw [truncOff_eq, ht.len (ht.err.2 (by omega))]
    omega
  · rw [binderOff_eq, hb.len (hb.err.2 (by simp; omega))]
    simp
    omega

variable (random sid) in
/-- The bytes in front of the note are the hello's up to the binders. -/
theorem buildClientHello_hashed (buf : Bytes) (cap : Nat)
    (herr : (buildClientHello cfg (wnWriterInit buf cap) random sid pub identity).w.err = false) :
    (buildClientHello cfg (wnWriterInit buf cap) random sid pub identity).w.buf.take
      (buildClientHello cfg (wnWriterInit buf cap) random sid pub identity).truncOff =
        pskHelloFront cfg random sid pub identity := by
  have hfront := pskHelloFront_length random sid identity hpub
  obtain ⟨hlen, hbuf, htrunc, -⟩ := (buildClientHello_ok random sid hpub hid buf cap).2 herr
  generalize buildClientHello cfg (wnWriterInit buf cap) random sid pub identity = b at *
  have htaken : b.w.buf.take b.truncOff = (b.w.buf.take b.w.len).take b.truncOff := by
    rw [List.take_take, Nat.min_eq_left (by omega)]
  rw [htaken, hbuf, htrunc, List.take_left]

end Built

end WolfNano

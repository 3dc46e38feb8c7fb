/-
The certificate driver's ClientHello is the encoding of `certHello`.

`wn_ClientHello_Build_ex` is the writing of a tree of items (`certItems`), so
what it leaves is read off the tree, as for the PSK driver's hello.
-/
import WolfNano.ClientHello
import WolfNano.ClientHelloGrammar
import WolfNano.MsgTree

namespace WolfNano

open Wire

/-! ## The hello as a value -/

/-- The schemes `wn_ClientHello_Build_ex` offers, in its order. -/
def certSigAlgs (cfg : Config) : List Nat :=
  (if cfg.fips then [] else (cfg.mldsa.map MldsaLevel.scheme).toList ++ [0x0807]) ++
    ((if cfg.haveEcc384 ∧ cfg.sha384 then [0x0503] else []) ++
      ([0x0403] ++ (if cfg.noRsa then [] else
        (if cfg.sha512 then [0x0806] else []) ++ ((if cfg.sha384 then [0x0805] else []) ++ [0x0804]))))

/-- The server_name extension, for a name that is not empty. -/
def nameExts (name : Bytes) : List Rfc.CExt := if name.length > 0 then [.serverName name] else []

/-- The extensions of the certificate driver's ClientHello. -/
def certHelloExts (cfg : Config) (pub name : Bytes) : List Rfc.CExt :=
  nameExts name ++ [.versions [0x0304], .groups [cfg.group.code], .sigAlgs (certSigAlgs cfg),
    .keyShares [(cfg.group.code, pub)]]

/-- The ClientHello of the certificate driver. -/
def certHello (cfg : Config) (random : Block 32) (sessionId pub name : Bytes) : Rfc.ClientHello where
  random := random.val
  sessionId := sessionId
  cipherSuites := [0x1301]
  compression := [0]
  exts := certHelloExts cfg pub name

/-! ## The writes as a tree -/

section Items

variable (cfg : Config) (random : Block 32) (sessionId pub name : Bytes)

def nameItems : List Item :=
  if name.length > 0 then
    [.u16 0, .u16 (2 + 1 + 2 + name.length), .u16 (1 + 2 + name.length), .u8 0, .u16 name.length, .bytes name]
  else []

def certFieldItems : List Item :=
  [.u16 0x0303, .bytes random.val, .u8 (UInt8.ofNat sessionId.length)] ++
    (if sessionId.length > 0 then [.bytes sessionId] else []) ++
    [.u16 2, .u16 0x1301, .u8 1, .u8 0]

def certExtItems : List Item :=
  nameItems name ++ [.u16 43, .u16 3, .u8 2, .u16 0x0304, .u16 10, .u16 4, .u16 2, .u16 cfg.group.code, .u16 13] ++
    [.group 2 [.group 2 ((certSigAlgs cfg).map .u16)]] ++
    [.u16 51, .u16 (2 + 2 + 2 + pub.length), .u16 (2 + 2 + pub.length), .u16 cfg.group.code, .u16 pub.length, .bytes pub]

def certItems : List Item :=
  [.u8 1, .group 3 (certFieldItems random sessionId ++ [.group 2 (certExtItems cfg pub name)])]

end Items

section Built

variable {cfg : Config} {random : Block 32} {sessionId pub name : Bytes}

theorem buildServerName_eq (w : Writer) : buildServerName w name = Item.writeAll (nameItems name) w := by
  unfold buildServerName nameItems
  split <;> simp [Item.write, wnExtServerName]

theorem buildSigAlgs_eq (w : Writer) : buildSigAlgs cfg w = Item.writeAll ((certSigAlgs cfg).map .u16) w := by
  have hone : ∀ (P : Prop) [Decidable P] (v : Nat) (w : Writer), (if P then wnWriteU16 w v else w) =
      Item.writeAll (List.map .u16 (if P then [v] else [])) w := by
    intro P _ v w
    split <;> simp [Item.write]
  unfold buildSigAlgs certSigAlgs
  cases cfg.fips <;> cases cfg.mldsa <;> cases cfg.noRsa <;>
    simp [hone, Item.write, Item.writeAll_append]

/-- **`wn_ClientHello_Build_ex` writes the tree**, and answers with what it
left. -/
theorem wnClientHelloBuildEx_eq (out : Bytes) (outCap : Nat) (serverName : Option Bytes) :
    wnClientHelloBuildEx cfg out outCap random sessionId pub serverName =
      if pub.length ≠ cfg.group.pubSz ∨ sessionId.length > 32 ∨ (serverName.getD []).length > 255 then
        (.error .invalidArg, out)
      else
        let w := Item.writeAll (certItems cfg random sessionId pub (serverName.getD [])) (wnWriterInit out outCap)
        if w.err = true then (.error .invalidArg, w.buf) else (.ok w.len, w.buf) := by
  have hsid : ∀ w, (if sessionId.length > 0 then wnWriteBytes w sessionId else w) =
      Item.writeAll (if sessionId.length > 0 then [.bytes sessionId] else []) w := by
    intro w
    split <;> simp [Item.write]
  simp only [wnClientHelloBuildEx, buildServerName_eq, buildSigAlgs_eq, hsid]
  split
  · rfl
  · simp only [certItems, certFieldItems, certExtItems, Item.writeAll_append, Item.writeAll_cons, Item.writeAll_nil,
      Item.write, wnCipherAes128GcmSha256, wnExtSupportedVer, wnExtSupportedGrp, wnExtSigAlgs, wnExtKeyShare]
    rfl

/-! ## The bytes -/

theorem encodeAll_u16 (l : List Nat) : Item.encodeAll (l.map .u16) = l.flatMap (be 2) := by
  induction l with
  | nil => simp
  | cons v l ih => simp [ih]

theorem encode_nameItems :
    Item.encodeAll (nameItems name) = (nameExts name).flatMap Rfc.CExt.encode := by
  unfold nameItems nameExts
  by_cases hpos : name.length > 0
  · rw [if_pos hpos, if_pos hpos]
    have h₁ : 2 + 1 + 2 + name.length = (vec 2 (0 :: vec 2 name)).length := by simp; omega
    have h₂ : 1 + 2 + name.length = ((0 : UInt8) :: vec 2 name).length := by simp; omega
    rw [h₁, h₂]
    simp [Rfc.CExt.encode, Rfc.CExt.data, Rfc.CExt.type, vec]
  · rw [if_neg hpos, if_neg hpos]
    simp

theorem encode_certFieldItems : Item.encodeAll (certFieldItems random sessionId) =
    be 2 0x0303 ++ random.val ++ vec 1 sessionId ++ vec 2 (be 2 0x1301) ++ vec 1 [0] := by
  have hsid : Item.encodeAll (if sessionId.length > 0 then [Item.bytes sessionId] else []) = sessionId := by
    by_cases hpos : sessionId.length > 0
    · rw [if_pos hpos]
      simp
    · rw [if_neg hpos, List.eq_nil_of_length_eq_zero (Nat.eq_zero_of_not_pos hpos)]
      simp
  simp only [certFieldItems, Item.encodeAll_append, hsid]
  simp [vec, be_one]

theorem encode_certExtItems :
    Item.encodeAll (certExtItems cfg pub name) = (certHelloExts cfg pub name).flatMap Rfc.CExt.encode := by
  have h₁ : 2 + 2 + 2 + pub.length = (vec 2 (Rfc.encKeyShare (cfg.group.code, pub))).length := by
    simp [Rfc.encKeyShare]
    omega
  have h₂ : 2 + 2 + pub.length = (Rfc.encKeyShare (cfg.group.code, pub)).length := by
    simp [Rfc.encKeyShare]
    omega
  simp only [certExtItems, certHelloExts, Item.encodeAll_append, encode_nameItems, List.flatMap_append]
  rw [h₁, h₂]
  simp [Rfc.CExt.encode, Rfc.CExt.data, Rfc.CExt.type, Rfc.encKeyShare, vec, be_one, encodeAll_u16]

theorem encode_certItems :
    Item.encodeAll (certItems cfg random sessionId pub name) = (certHello cfg random sessionId pub name).encode := by
  simp only [certItems, Item.encodeAll_cons, Item.encodeAll_nil, Item.encode_u8, Item.encode_group,
    Item.encodeAll_append, encode_certFieldItems, encode_certExtItems]
  simp [Rfc.ClientHello.encode, Rfc.ClientHello.body, certHello]

/-! ## The grammar -/

theorem certSigAlgs_fits (cfg : Config) : certSigAlgs cfg ≠ [] ∧ (certSigAlgs cfg).length ≤ 7 ∧
    ∀ v ∈ certSigAlgs cfg, v < 256 ^ 2 := by
  have hscheme : ∀ level : MldsaLevel, level.scheme < 256 ^ 2 := fun level => by cases level <;> decide
  unfold certSigAlgs
  refine ⟨by simp, ?_, ?_⟩
  · cases cfg.mldsa <;> split <;> split <;> split <;> simp <;> split <;> split <;> simp
  · intro v hv
    simp only [List.mem_append] at hv
    rcases hv with hv | hv | hv | hv
    · split at hv
      · cases hv
      · simp only [List.mem_append, Option.mem_toList, Option.map_eq_some_iff, List.mem_singleton] at hv
        obtain ⟨level, -, rfl⟩ | rfl := hv
        · exact hscheme level
        · decide
    · split at hv <;> simp_all
    · simp_all
    · split at hv
      · cases hv
      · simp only [List.mem_append, List.mem_singleton] at hv
        rcases hv with hv | hv | rfl
        · split at hv <;> simp_all
        · split at hv <;> simp_all
        · decide

theorem flatMap_be_length (n : Nat) (l : List Nat) : (l.flatMap (be n)).length = n * l.length := by
  induction l with
  | nil => simp
  | cons v l ih => simp [ih]; ring

theorem nameExts_length (hname : name.length ≤ 255) :
    ((nameExts name).flatMap Rfc.CExt.encode).length ≤ 300 := by
  unfold nameExts
  split
  · simp [Rfc.CExt.encode, Rfc.CExt.data]
    omega
  · simp

variable (random) in
/-- **The hello obeys the grammar** for every name and session id that
`wn_ClientHello_Build_ex` takes. -/
theorem certHello_fits (hpub : pub.length = cfg.group.pubSz) (hsid : sessionId.length ≤ 32)
    (hname : name.length ≤ 255) : (certHello cfg random sessionId pub name).Fits := by
  obtain ⟨hne, hcount, hlt⟩ := certSigAlgs_fits cfg
  have hsize := flatMap_be_length 2 (certSigAlgs cfg)
  have hnames := nameExts_length hname
  have hgroup : cfg.group.code < 256 ^ 2 := by cases cfg.group <;> decide
  have hpubsz : 0 < pub.length ∧ pub.length ≤ 2000 := by rw [hpub]; cases cfg.group <;> decide
  have hpubne : pub ≠ [] := List.ne_nil_of_length_pos hpubsz.1
  have hlen : ((certHelloExts cfg pub name).flatMap Rfc.CExt.encode).length < 256 ^ 2 := by
    simp [certHelloExts, Rfc.CExt.encode, Rfc.CExt.data, Rfc.encKeyShare] at hnames hsize ⊢
    omega
  have hfits : ∀ e ∈ certHelloExts cfg pub name, e.Fits := by
    intro e he
    simp only [certHelloExts, List.mem_append, List.mem_cons, List.not_mem_nil, or_false] at he
    rcases he with he | rfl | rfl | rfl | rfl
    · unfold nameExts at he
      split at he
      · next hpos =>
        rw [List.mem_singleton] at he
        subst he
        exact ⟨List.ne_nil_of_length_pos hpos, by omega⟩
      · cases he
    · exact ⟨by simp, by simp, by simp⟩
    · exact ⟨by simp, by simp, by simpa using hgroup⟩
    · exact ⟨hne, by omega, hlt⟩
    · exact ⟨by simp [Rfc.encKeyShare]; omega, by simpa [Rfc.KeyShareFits] using ⟨hgroup, by omega, hpubne⟩⟩
  refine ⟨random.length, hsid, ⟨by simp [certHello], by simp [certHello, Rfc.CExt.NatsFit]⟩, by simp [certHello],
    ⟨hlen, fun e he => ⟨hfits e he, ?_⟩⟩, ?_⟩
  · obtain ⟨l, r, hlr⟩ := List.append_of_mem he
    rw [certHello] at hlr
    rw [show certHelloExts cfg pub name = l ++ e :: r from hlr] at hlen
    simp only [List.flatMap_append, List.flatMap_cons, List.length_append, Rfc.CExt.encode, vec_length] at hlen
    omega
  · show Rfc.ClientHello.Ordered (certHelloExts cfg pub name)
    unfold certHelloExts nameExts
    split <;> simp [Rfc.ClientHello.Ordered, Rfc.CExt.type]

variable (random) in
/-- **What `wn_ClientHello_Build_ex` succeeds with**: the encoding of a hello
that obeys the grammar. -/
theorem wnClientHelloBuildEx_ok {out mem : Bytes} {outCap len : Nat} {serverName : Option Bytes}
    (h : wnClientHelloBuildEx cfg out outCap random sessionId pub serverName = (.ok len, mem)) :
    mem.take len = (certHello cfg random sessionId pub (serverName.getD [])).encode ∧
      (certHello cfg random sessionId pub (serverName.getD [])).Fits := by
  rw [wnClientHelloBuildEx_eq] at h
  split at h
  · cases h
  · next hargs =>
    push Not at hargs
    obtain ⟨hpub, hsid, hname⟩ := hargs
    have hfits := certHello_fits random hpub hsid hname
    have hlen : (certHello cfg random sessionId pub (serverName.getD [])).encode.length < 2 ^ 32 := by
      have := Rfc.ClientHello.body_length_lt hfits
      simp only [Rfc.ClientHello.encode, List.length_cons, vec_length]
      omega
    have htracks := Item.writeAll_tracks (certItems cfg random sessionId pub (serverName.getD []))
      (Tracks.init out outCap) (by rw [encode_certItems]; simpa using hlen)
    rw [List.nil_append, encode_certItems] at htracks
    dsimp only at h
    split at h
    · cases h
    · next herr =>
      obtain ⟨hl, hm⟩ := Prod.mk.inj h
      cases hl
      have herr : _ = false := Bool.eq_false_iff.2 herr
      refine ⟨?_, hfits⟩
      rw [← hm, htracks.len herr, htracks.buf herr]

end Built

end WolfNano

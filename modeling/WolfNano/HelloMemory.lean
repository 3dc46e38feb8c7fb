/-
What `wn_ClientHello_Build_ex` leaves in the memory of its caller.

The hello is one byte string, whatever the room there is for it: with enough,
it stands at the front of the output and what follows is untouched; with less,
the call fails, and no byte past the room given has changed. The string is
read back with the parser of the grammar, which answers with the inputs.
-/
import WolfNano.CertHelloFacts
import WolfNano.ClearProvider

namespace WolfNano

open Wire

/-- `*outLen` after the call, `prior` before: it is set on success only. -/
def outLenAfter (prior : Nat) : Except Err Nat → Nat
  | .ok len => len
  | .error _ => prior

section Built

variable {cfg : Config} (random : Block 32) {sessionId pub name : Bytes}

theorem certHello_length (hpub : pub.length = cfg.group.pubSz) (hsid : sessionId.length ≤ 32)
    (hname : name.length ≤ 255) : (certHello cfg random sessionId pub name).encode.length < 2 ^ 32 := by
  have := Rfc.ClientHello.body_length_lt (certHello_fits random hpub hsid hname)
  simp only [Rfc.ClientHello.encode, List.length_cons, vec_length]
  omega

/-- What the writer has done once the hello is written. -/
theorem certHello_written (hpub : pub.length = cfg.group.pubSz) (hsid : sessionId.length ≤ 32)
    (hname : name.length ≤ 255) (out : Bytes) (outCap : Nat) :
    let w := Item.writeAll (certItems cfg random sessionId pub name) (wnWriterInit out outCap)
    let hello := (certHello cfg random sessionId pub name).encode
    Tracks outCap w hello ∧ Frames out outCap w hello := by
  have hlen := certHello_length random hpub hsid hname
  rw [← encode_certItems] at hlen
  have h := Tracks.init out outCap
  have htracks := Item.writeAll_tracks (certItems cfg random sessionId pub name) h (by simpa using hlen)
  have hframes := Item.writeAll_frames (certItems cfg random sessionId pub name) h (.init out outCap) (by simpa using hlen)
  rw [List.nil_append, encode_certItems] at htracks hframes
  exact ⟨htracks, hframes⟩

variable (hpub : pub.length = cfg.group.pubSz) (hsid : sessionId.length ≤ 32) {serverName : Option Bytes}
  (hname : (serverName.getD []).length ≤ 255)
include hpub hsid hname

theorem wnClientHelloBuildEx_args (out : Bytes) (outCap : Nat) :
    wnClientHelloBuildEx cfg out outCap random sessionId pub serverName =
      let w := Item.writeAll (certItems cfg random sessionId pub (serverName.getD [])) (wnWriterInit out outCap)
      if w.err = true then (.error .invalidArg, w.buf) else (.ok w.len, w.buf) := by
  rw [wnClientHelloBuildEx_eq, if_neg]
  push Not
  exact ⟨hpub, hsid, hname⟩

theorem wnClientHelloBuildEx_fits {out : Bytes} {outCap : Nat}
    (hcap : (certHello cfg random sessionId pub (serverName.getD [])).encode.length ≤ outCap) :
    wnClientHelloBuildEx cfg out outCap random sessionId pub serverName =
      (.ok (certHello cfg random sessionId pub (serverName.getD [])).encode.length,
        (certHello cfg random sessionId pub (serverName.getD [])).encode ++
          out.drop (certHello cfg random sessionId pub (serverName.getD [])).encode.length) := by
  obtain ⟨htracks, hframes⟩ := certHello_written random hpub hsid hname out outCap
  have herr := htracks.err.2 hcap
  rw [wnClientHelloBuildEx_args random hpub hsid hname]
  dsimp only
  rw [if_neg (Bool.eq_false_iff.1 herr), htracks.len herr, ← hframes.tail herr]
  conv => lhs; rw [← List.take_append_drop (certHello cfg random sessionId pub (serverName.getD [])).encode.length
    (Item.writeAll _ _).buf, htracks.buf herr]

theorem wnClientHelloBuildEx_short (out : Bytes) {outCap : Nat}
    (hcap : outCap < (certHello cfg random sessionId pub (serverName.getD [])).encode.length) :
    ∃ mem, wnClientHelloBuildEx cfg out outCap random sessionId pub serverName = (.error .invalidArg, mem) ∧
      mem.drop outCap = out.drop outCap := by
  obtain ⟨htracks, hframes⟩ := certHello_written random hpub hsid hname out outCap
  have herr := mt htracks.err.1 (Nat.not_le.2 hcap)
  rw [wnClientHelloBuildEx_args random hpub hsid hname]
  dsimp only
  rw [if_pos (by simpa using herr)]
  exact ⟨_, rfl, hframes.past⟩

end Built

/-! ## What the hello says -/

/-- A ClientHello that offers one group with one share, and names the server
exactly if there is a name. -/
structure Rfc.ClientHello.Offers (hello : Rfc.ClientHello) (random sessionId name : Bytes) (group : Nat)
    (share : Bytes) : Prop where
  random : hello.random = random
  sessionId : hello.sessionId = sessionId
  distinct : (hello.exts.map CExt.type).Nodup
  named : 0 ∈ hello.exts.map CExt.type ↔ name ≠ []
  name : ∀ host, .serverName host ∈ hello.exts → host = name
  groups : ∀ l, .groups l ∈ hello.exts ↔ l = [group]
  shares : ∀ l, .keyShares l ∈ hello.exts ↔ l = [(group, share)]

theorem mem_nameExts {name : Bytes} {e : Rfc.CExt} : e ∈ nameExts name ↔ name ≠ [] ∧ e = .serverName name := by
  unfold nameExts
  by_cases hne : name = []
  · simp [hne]
  · rw [if_pos (List.length_pos_iff.2 hne), List.mem_singleton]
    exact ⟨fun h => ⟨hne, h⟩, fun h => h.2⟩

theorem certHello_offers (cfg : Config) (random : Block 32) (sessionId pub name : Bytes)
    (hfits : (certHello cfg random sessionId pub name).Fits) :
    (certHello cfg random sessionId pub name).Offers random.val sessionId name cfg.group.code pub := by
  have hmem (e : Rfc.CExt) : e ∈ (certHello cfg random sessionId pub name).exts ↔
      (name ≠ [] ∧ e = .serverName name) ∨ e = .versions [0x0304] ∨ e = .groups [cfg.group.code] ∨
        e = .sigAlgs (certSigAlgs cfg) ∨ e = .keyShares [(cfg.group.code, pub)] := by
    rw [certHello, certHelloExts, List.mem_append, mem_nameExts]
    simp only [List.mem_cons, List.not_mem_nil, or_false]
  refine ⟨rfl, rfl, hfits.ordered.1, ?_, fun host h => ?_, fun l => ?_, fun l => ?_⟩
  · simp only [List.mem_map, hmem]
    constructor
    · intro h
      obtain ⟨e, ⟨hne, -⟩ | rfl | rfl | rfl | rfl, htype⟩ := h
      · exact hne
      · cases htype
      · cases htype
      · cases htype
      · cases htype
    · intro hne
      exact ⟨_, .inl ⟨hne, rfl⟩, rfl⟩
  · obtain ⟨-, heq⟩ := ((hmem _).1 h).resolve_right (by simp)
    exact Rfc.CExt.serverName.inj heq
  · simp [hmem]
  · simp [hmem]

/-- **`wn_ClientHello_Build_ex` encodes its arguments**: one hello, which
parses to them, is written whole wherever there is room for it, and elsewhere
the call fails, with no byte written past the hello or the room. -/
theorem wnClientHelloBuildEx_encodes (cfg : Config) (random : Block 32) (sessionId pub : Bytes)
    (serverName : Option Bytes) (hpub : pub.length = cfg.group.pubSz) (hsid : sessionId.length ≤ 32)
    (hname : (serverName.getD []).length ≤ 255) :
    ∃ hello : Bytes,
      (∀ (out : Bytes) (outCap prior : Nat),
        let (r, mem) := wnClientHelloBuildEx cfg out outCap random sessionId pub serverName
        ((∃ len, r = .ok len) ↔ hello.length ≤ outCap) ∧
        ((∃ len, r = .ok len) → outLenAfter prior r = hello.length ∧ mem = hello ++ out.drop hello.length) ∧
        ((¬ ∃ len, r = .ok len) → outLenAfter prior r = prior ∧ mem.drop outCap = out.drop outCap)) ∧
      ∃ parsed, Rfc.ClientHello.parse hello = some parsed ∧
        parsed.Offers random.val sessionId (serverName.getD []) cfg.group.code pub := by
  have hfits := certHello_fits random hpub hsid hname
  refine ⟨(certHello cfg random sessionId pub (serverName.getD [])).encode, fun out outCap prior => ?_,
    _, Rfc.ClientHello.parse_eq_some.2 ⟨rfl, hfits⟩, certHello_offers cfg random sessionId pub _ hfits⟩
  by_cases hcap : (certHello cfg random sessionId pub (serverName.getD [])).encode.length ≤ outCap
  · rw [wnClientHelloBuildEx_fits random hpub hsid hname hcap]
    exact ⟨iff_of_true ⟨_, rfl⟩ hcap, fun _ => ⟨rfl, rfl⟩, fun hno => absurd ⟨_, rfl⟩ hno⟩
  · obtain ⟨mem, heq, hmem⟩ := wnClientHelloBuildEx_short random hpub hsid hname out (Nat.not_le.1 hcap)
    rw [heq]
    exact ⟨iff_of_false nofun hcap, nofun, fun _ => ⟨rfl, hmem⟩⟩

/-- A hello with a name of one letter. -/
theorem wnClientHelloBuildEx_encodes_small : ∃ hello parsed, Rfc.ClientHello.parse hello = some parsed ∧
    parsed.Offers (List.replicate 32 0) [7] [0x61] 29 (List.replicate 32 9) := by
  obtain ⟨hello, -, parsed, hparse, hoffers⟩ := wnClientHelloBuildEx_encodes .small (Block.zero 32) [7]
    (List.replicate 32 9) (some [0x61]) rfl (by decide) (by decide)
  exact ⟨hello, parsed, hparse, hoffers⟩

end WolfNano

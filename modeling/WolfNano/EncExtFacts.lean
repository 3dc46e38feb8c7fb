/-
`wn_CheckEncExt` accepts exactly the lists of extensions it allows
(RFC 8446 4.2, 4.3.1): `wnCheckEncExt_ok`.
-/
import WolfNano.ServerHello
import WolfNano.Rfc8446
import WolfNano.MsgFacts

namespace WolfNano

open Wire

/-- An extension: its type and its data. -/
abbrev Rfc.Extension := Nat × Bytes

namespace Rfc.Extension

def encode (e : Rfc.Extension) : Bytes := be 2 e.1 ++ vec 2 e.2

def Fits (e : Rfc.Extension) : Prop := e.1 < 256 ^ 2 ∧ e.2.length < 256 ^ 2

end Rfc.Extension

/-- The body of an EncryptedExtensions. -/
def Rfc.encryptedExtensions (exts : List Rfc.Extension) : Bytes := vec 2 (exts.flatMap Rfc.Extension.encode)

/-- What the server may answer: its groups, and that it used the name it was sent. -/
def EncExtAllowed (sniOffered : Bool) (e : Rfc.Extension) : Prop :=
  e.1 = wnExtSupportedGrp ∨ (e.1 = wnExtServerName ∧ sniOffered = true ∧ e.2 = [])

section Loop

variable {body : Bytes} (hb : body.length < 2 ^ 31) {sniOffered : Bool}
include hb

/-- A turn of the loop that finds an extension. -/
theorem encExtensions_ext {n : Nat} {e : Rfc.Extension} (he : e.Fits) {q : Bytes} (hq : e.encode ++ q <:+ body) :
    encExtensions body.length sniOffered (n + 1) (readerAt body (e.encode ++ q)) =
      if e.1 ≠ wnExtSupportedGrp ∧ ¬ (e.1 = wnExtServerName ∧ sniOffered = true ∧ e.2.length = 0) then
        .error .unexpectedMsg
      else encExtensions body.length sniOffered n (readerAt body q) := by
  have h₁ : takeNat 2 (e.encode ++ q) = some (e.1, vec 2 e.2 ++ q) :=
    takeNat_eq_some.2 ⟨by simp [Rfc.Extension.encode], he.1⟩
  have hq₁ := (takeNat_suffix h₁).trans hq
  have h₂ : takeNat 2 (vec 2 e.2 ++ q) = some (e.2.length, e.2 ++ q) := takeNat_eq_some.2 ⟨by simp [vec], he.2⟩
  have hq₂ := (takeNat_suffix h₂).trans hq₁
  have h₃ : takeBytes e.2.length (e.2 ++ q) = some (e.2, q) := takeBytes_eq_some.2 ⟨rfl, rfl⟩
  have hlt := he.2
  have hpos : (readerAt body (e.encode ++ q)).pos < body.length := by
    have := hq.length_le
    simp only [readerAt_pos, Rfc.Extension.encode, List.length_append, be_length, vec_length] at this ⊢
    omega
  rw [encExtensions, if_pos ⟨hpos, rfl⟩]
  simp only [wnReadU16_at hq hb, h₁, wnReadU16_at hq₁ hb, h₂, wnReadBytes_at hq₂ hb (n := e.2.length) (by omega), h₃,
    readerAt_err, Bool.false_eq_true, if_false]

/-- A turn of the loop that does not find one. -/
theorem encExtensions_none {n : Nat} {q : Bytes} (hq : q <:+ body) (hne : q ≠ [])
    (hno : ∀ (e : Rfc.Extension) q', e.Fits → q ≠ e.encode ++ q') :
    encExtensions body.length sniOffered (n + 1) (readerAt body q) = .error .decode := by
  have hpos : (readerAt body q).pos < body.length := by
    have := hq.length_le
    have := List.length_pos_iff.2 hne
    rw [readerAt_pos]
    omega
  rw [encExtensions, if_pos ⟨hpos, rfl⟩]
  simp only [wnReadU16_at hq hb]
  cases h₁ : takeNat 2 q with
  | none => simp
  | some x =>
    obtain ⟨et, q₁⟩ := x
    have hq₁ := (takeNat_suffix h₁).trans hq
    simp only [wnReadU16_at hq₁ hb]
    cases h₂ : takeNat 2 q₁ with
    | none => simp
    | some x =>
      obtain ⟨el, q₂⟩ := x
      obtain ⟨hv₁, het⟩ := takeNat_eq_some.1 h₁
      obtain ⟨hv₂, hel⟩ := takeNat_eq_some.1 h₂
      have hq₂ := (takeNat_suffix h₂).trans hq₁
      simp only [wnReadBytes_at hq₂ hb (n := el) (by omega)]
      cases h₃ : takeBytes el q₂ with
      | none => simp
      | some x =>
        obtain ⟨d, q₃⟩ := x
        obtain ⟨rfl, rfl⟩ := takeBytes_eq_some.1 h₃
        exact absurd (by rw [hv₁, hv₂]; simp [Rfc.Extension.encode, vec]) (hno (et, d) q₃ ⟨het, hel⟩)

theorem encExtensions_ok : ∀ {n : Nat} {q : Bytes}, q.length ≤ n → q <:+ body →
    (encExtensions body.length sniOffered n (readerAt body q) = .ok () ↔
      ∃ exts : List Rfc.Extension, q = exts.flatMap Rfc.Extension.encode ∧
        ∀ e ∈ exts, e.Fits ∧ EncExtAllowed sniOffered e)
  | n, [], _, _ => by
    have hend : encExtensions body.length sniOffered n (readerAt body []) = .ok () := by
      cases n with
      | zero => rfl
      | succ n => rw [encExtensions, if_neg (by simp [readerAt_pos])]
    exact ⟨fun _ => ⟨[], rfl, by simp⟩, fun _ => hend⟩
  | n + 1, b :: q, hn, hq => by
    by_cases hext : ∃ (e : Rfc.Extension) (q' : Bytes), e.Fits ∧ b :: q = e.encode ++ q'
    · obtain ⟨e, q', he, henc⟩ := hext
      have hlen := congrArg List.length henc
      simp only [List.length_cons, Rfc.Extension.encode, List.length_append, be_length, vec_length] at hlen hn
      rw [henc] at hq ⊢
      have hloop := encExtensions_ok (n := n) (q := q') (by omega) ((List.suffix_append _ _).trans hq)
      rw [encExtensions_ext hb he hq]
      constructor
      · intro h
        split at h
        · cases h
        · next hallow =>
          obtain ⟨exts, rfl, hexts⟩ := hloop.1 h
          refine ⟨e :: exts, rfl, List.forall_mem_cons.2 ⟨⟨he, ?_⟩, hexts⟩⟩
          by_cases hg : e.1 = wnExtSupportedGrp
          · exact .inl hg
          · have := not_not.1 fun hn => hallow ⟨hg, hn⟩
            exact .inr ⟨this.1, this.2.1, List.eq_nil_of_length_eq_zero this.2.2⟩
      · intro hall
        obtain ⟨exts, hq', hexts⟩ := hall
        cases exts with
        | nil => simp [Rfc.Extension.encode, vec, be] at hq'
        | cons e' exts =>
          obtain ⟨⟨he', hallow⟩, hrest⟩ := List.forall_mem_cons.1 hexts
          have hv : be 2 e.1 ++ (vec 2 e.2 ++ q') = be 2 e'.1 ++ (vec 2 e'.2 ++ exts.flatMap Rfc.Extension.encode) := by
            simpa [Rfc.Extension.encode] using hq'
          obtain ⟨htype, hv⟩ := List.append_inj hv (by simp)
          obtain ⟨hdata, rfl⟩ := vec_append_inj he.2 he'.2 hv
          obtain rfl : e = e' := Prod.ext (be_inj he.1 he'.1 htype) hdata
          rw [if_neg, hloop]
          · exact ⟨exts, rfl, hrest⟩
          · intro hall
            obtain ⟨hg, hsni⟩ := hall
            exact hallow.elim hg fun h => hsni ⟨h.1, h.2.1, by rw [h.2.2]; rfl⟩
    · rw [encExtensions_none hb hq (by simp) fun e q' he henc => hext ⟨e, q', he, henc⟩]
      constructor
      · intro h
        cases h
      · intro hall
        obtain ⟨exts, hq', hexts⟩ := hall
        cases exts with
        | nil => cases hq'
        | cons e exts => exact absurd ⟨e, _, (hexts e List.mem_cons_self).1, hq'⟩ hext

end Loop

/-- **The EncryptedExtensions check** accepts the lists of extensions that are
each allowed. -/
theorem wnCheckEncExt_ok {body : Bytes} (hb : body.length < 2 ^ 31) {sniOffered : Bool} :
    wnCheckEncExt body sniOffered = .ok () ↔ ∃ exts : List Rfc.Extension, body = Rfc.encryptedExtensions exts ∧
      (exts.flatMap Rfc.Extension.encode).length < 2 ^ 16 ∧ ∀ e ∈ exts, e.Fits ∧ EncExtAllowed sniOffered e := by
  unfold wnCheckEncExt
  simp only [wnReaderInit_eq, wnReadU16_at (List.suffix_refl body) hb]
  cases h₁ : takeNat 2 body with
  | none =>
    refine ⟨fun h => by simp at h, ?_⟩
    intro hall
    obtain ⟨exts, rfl, hlt, -⟩ := hall
    rw [Rfc.encryptedExtensions, vec, takeNat_eq_some.2 ⟨rfl, by omega⟩] at h₁
    cases h₁
  | some x =>
    obtain ⟨extLen, q⟩ := x
    obtain ⟨hv, hlt⟩ := takeNat_eq_some.1 h₁
    have hq : q <:+ body := takeNat_suffix h₁
    have hlen := congrArg List.length hv
    simp only [List.length_append, be_length] at hlen
    have hpos : add32 (readerAt body q).pos extLen = body.length - q.length + extLen := by
      rw [readerAt_pos]; exact add32_eq (by omega)
    dsimp only
    rw [hpos]
    by_cases hfill : extLen = q.length
    · subst hfill
      rw [show body.length - q.length + q.length = body.length by omega, if_neg (by simp),
        encExtensions_ok hb (by omega) hq]
      constructor
      · intro hall
        obtain ⟨exts, rfl, hexts⟩ := hall
        exact ⟨exts, hv, by omega, hexts⟩
      · intro hall
        obtain ⟨exts, hbody, hlt', hexts⟩ := hall
        refine ⟨exts, ?_, hexts⟩
        exact (vec_append_inj (r := []) (q := []) hlt (by omega)
          (by rw [List.append_nil, List.append_nil, vec, ← hv, hbody]; rfl)).1
    · rw [if_pos (.inr (by omega))]
      constructor
      · intro h
        cases h
      · intro hall
        obtain ⟨exts, rfl, hlt', -⟩ := hall
        rw [Rfc.encryptedExtensions, vec, takeNat_eq_some.2 ⟨rfl, by omega⟩] at h₁
        cases h₁
        exact absurd rfl hfill

end WolfNano

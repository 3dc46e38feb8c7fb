/-
The ServerHello parser and the EncryptedExtensions check accept exactly their
grammars (RFC 8446 4.1.3, 4.2, 4.3.1).

The grammar is its encoder: `Rfc.ServerHello.encode` of fields and a list of
extensions. The parser's loop reads an extension exactly where an encoding of
one stands (`shExtension_take`, `shExtension_err`), so it reads lists of them,
and `wnServerHelloParse_ok` is the parser as an equivalence.
-/
import WolfNano.ServerHello
import WolfNano.Rfc8446
import WolfNano.MsgFacts

namespace WolfNano

open Wire

/-! ## The grammar -/

/-- The extensions of a ServerHello that this client may be sent. -/
inductive Rfc.ShExt where
  | keyShare (group : Nat) (share : Bytes)
  | version (v : Nat)
  | preShared (selected : Nat)
  deriving DecidableEq

namespace Rfc

namespace ShExt

def type : ShExt → Nat
  | .keyShare _ _ => 51
  | .version _ => 43
  | .preShared _ => 41

def data : ShExt → Bytes
  | .keyShare group share => be 2 group ++ vec 2 share
  | .version v => be 2 v
  | .preShared n => be 2 n

/-- Every number and length is in the range its encoding has for it. -/
def Fits : ShExt → Prop
  | .keyShare group share => group < 2 ^ 16 ∧ share.length + 4 < 2 ^ 16
  | .version v => v < 2 ^ 16
  | .preShared n => n < 2 ^ 16

def encode (e : ShExt) : Bytes := be 2 e.type ++ vec 2 e.data

end ShExt

/-- The fields of a ServerHello that vary. -/
structure SHello where
  random : Block 32
  sessionId : Bytes
  cipher : Nat
  exts : List ShExt

namespace SHello

def body (h : SHello) : Bytes :=
  [3, 3] ++ h.random.val ++ vec 1 h.sessionId ++ be 2 h.cipher ++ [0] ++ vec 2 (h.exts.flatMap ShExt.encode)

def encode (h : SHello) : Bytes := hsMsg 2 h.body

structure Fits (h : SHello) : Prop where
  sessionId : h.sessionId.length < 2 ^ 8
  cipher : h.cipher < 2 ^ 16
  exts : ∀ e ∈ h.exts, e.Fits
  extsLen : (h.exts.flatMap ShExt.encode).length < 2 ^ 16

end SHello

end Rfc

namespace Rfc.ShExt

theorem data_length_lt {e : ShExt} (h : e.Fits) : e.data.length < 2 ^ 16 := by
  cases e <;> simp [data, Fits] at h ⊢
  omega

theorem type_lt (e : ShExt) : e.type < 256 ^ 2 := by
  cases e <;> simp [type]

@[simp] theorem encode_length (e : ShExt) : e.encode.length = 4 + e.data.length := by
  simp [encode]; omega

end Rfc.ShExt

/-! ## One extension -/

/-- The output after an extension. -/
def ServerHello.add (out : ServerHello) : Rfc.ShExt → ServerHello
  | .keyShare group share => { out with group, keyShare := some share, keyShareLen := share.length }
  | .version version => { out with version }
  | .preShared n => { out with pskSelected := n }

/-- Whether an extension of that type came before. -/
def ShExts.seen (st : ShExts) : Rfc.ShExt → Bool
  | .keyShare _ _ => st.seenKs
  | .version _ => st.seenVer
  | .preShared _ => st.seenPsk

/-- The loop's variables after an extension, with the reader behind it. -/
def ShExts.take (st : ShExts) (e : Rfc.ShExt) (r : Reader) : ShExts :=
  match e with
  | .keyShare _ _ => { st with r, out := st.out.add e, seenKs := true }
  | .version _ => { st with r, out := st.out.add e, seenVer := true }
  | .preShared _ => { st with r, out := st.out.add e, seenPsk := true }

@[simp] theorem ShExts.take_r (st : ShExts) (e : Rfc.ShExt) (r : Reader) : (st.take e r).r = r := by
  cases e <;> rfl

@[simp] theorem ShExts.take_out (st : ShExts) (e : Rfc.ShExt) (r : Reader) :
    (st.take e r).out = st.out.add e := by
  cases e <;> rfl

@[simp] theorem Reader.failIf_true (r : Reader) : r.failIf true = r.fail := rfl
@[simp] theorem Reader.failIf_false (r : Reader) : r.failIf false = r := rfl
@[simp] theorem Reader.fail_failIf (r : Reader) (b : Bool) : r.fail.failIf b = r.fail := by
  cases b <;> rfl

theorem Reader.failIf_err {r : Reader} {b : Bool} : (r.failIf b).err = false ↔ b = false ∧ r.err = false := by
  cases b <;> simp

/-- An extension after its type and length. -/
def shExtBody (st : ShExts) (extEnd et el : Nat) (r : Reader) : ShExts :=
  let eEnd := add32 r.pos el
  if eEnd > extEnd then { st with r := r.fail }
  else if et = wnExtKeyShare then
    let r := r.failIf st.seenKs
    let (group, r) := wnReadU16 r
    let (klen, r) := wnReadU16 r
    let (keyShare, r) := wnReadBytes r klen
    { st with
      r := r.failIf (r.pos != eEnd), seenKs := true
      out := { st.out with group, keyShare, keyShareLen := klen } }
  else if et = wnExtSupportedVer then
    let r := r.failIf st.seenVer
    let (version, r) := wnReadU16 r
    { st with r := r.failIf (r.pos != eEnd), seenVer := true, out := { st.out with version } }
  else if et = wnExtPreShared then
    let r := r.failIf st.seenPsk
    let (sel, r) := wnReadU16 r
    { st with
      r := r.failIf (r.pos != eEnd), seenPsk := true, out := { st.out with pskSelected := sel } }
  else { st with r := r.fail }

theorem shExtension_eq (st : ShExts) (extEnd : Nat) : shExtension st extEnd =
    shExtBody st extEnd (wnReadU16 st.r).1 (wnReadU16 (wnReadU16 st.r).2).1 (wnReadU16 (wnReadU16 st.r).2).2 :=
  rfl

theorem shExtBody_fail (st : ShExts) (extEnd et el : Nat) (r : Reader) :
    (shExtBody st extEnd et el r.fail).r.err = true := by
  simp only [shExtBody, wnReadU16_fail, wnReadBytes_fail, Reader.fail_failIf]
  split
  · rfl
  · split
    · rfl
    · split
      · rfl
      · split <;> rfl

section Extension

variable {msg q : Bytes} {st : ShExts}
variable (hmsg : msg.length < 2 ^ 31) (hq : q <:+ msg)
include hmsg hq

theorem shExtBody_take {e : Rfc.ShExt} {q' : Bytes} (he : e.Fits) (hseen : st.seen e = false)
    (hdata : q = e.data ++ q') :
    shExtBody st msg.length e.type e.data.length (readerAt msg q) = st.take e (readerAt msg q') := by
  have hl := hq.length_le
  have hlen : q.length = e.data.length + q'.length := by rw [hdata, List.length_append]
  have hend : add32 (readerAt msg q).pos e.data.length = (readerAt msg q').pos := by
    rw [readerAt_pos, readerAt_pos, add32_eq (by omega)]
    omega
  have hle : ¬ (readerAt msg q').pos > msg.length := by rw [readerAt_pos]; omega
  simp only [shExtBody, hend, if_neg hle]
  cases e with
  | keyShare group share =>
    obtain ⟨hg, hs⟩ := he
    have h₁ : takeNat 2 q = some (group, vec 2 share ++ q') :=
      takeNat_eq_some.2 ⟨by rw [hdata]; simp [Rfc.ShExt.data], by omega⟩
    have h₂ : takeNat 2 (vec 2 share ++ q') = some (share.length, share ++ q') :=
      takeNat_eq_some.2 ⟨by simp [vec], by omega⟩
    have h₃ : takeBytes share.length (share ++ q') = some (share, q') := takeBytes_eq_some.2 ⟨rfl, rfl⟩
    have hq₁ := (takeNat_suffix h₁).trans hq
    have hq₂ := (takeNat_suffix h₂).trans hq₁
    simp only [ShExts.seen] at hseen
    simp only [Rfc.ShExt.type, wnExtKeyShare, if_true, hseen, Reader.failIf_false, wnReadU16_at hq hmsg, h₁,
      wnReadU16_at hq₁ hmsg, h₂, wnReadBytes_at hq₂ hmsg (n := share.length) (by omega), h₃, bne_self_eq_false]
    rfl
  | version v =>
    have h₁ : takeNat 2 q = some (v, q') := takeNat_eq_some.2 ⟨hdata, by simp only [Rfc.ShExt.Fits] at he; omega⟩
    simp only [ShExts.seen] at hseen
    simp only [Rfc.ShExt.type, wnExtKeyShare, wnExtSupportedVer, if_true, hseen, Reader.failIf_false,
      wnReadU16_at hq hmsg, h₁, bne_self_eq_false]
    rfl
  | preShared n =>
    have h₁ : takeNat 2 q = some (n, q') := takeNat_eq_some.2 ⟨hdata, by simp only [Rfc.ShExt.Fits] at he; omega⟩
    simp only [ShExts.seen] at hseen
    simp only [Rfc.ShExt.type, wnExtKeyShare, wnExtSupportedVer, wnExtPreShared, if_true, hseen,
      Reader.failIf_false, wnReadU16_at hq hmsg, h₁, bne_self_eq_false]
    rfl

/-- A number read to the end of an extension is all of its data. -/
theorem shExtNat_ok {seen : Bool} {el : Nat}
    (h : ((wnReadU16 ((readerAt msg q).failIf seen)).2.failIf
      ((wnReadU16 ((readerAt msg q).failIf seen)).2.pos != msg.length - q.length + el)).err = false) :
    seen = false ∧ ∃ v q', q = be 2 v ++ q' ∧ v < 2 ^ 16 ∧ el = 2 := by
  have hl := hq.length_le
  cases seen with
  | true =>
    simp only [Reader.failIf_true, wnReadU16_fail, Reader.fail_failIf] at h
    cases h
  | false =>
    simp only [Reader.failIf_false, wnReadU16_at hq hmsg] at h
    cases h₁ : takeNat 2 q with
    | none =>
      simp only [h₁, Reader.fail_failIf] at h
      cases h
    | some x =>
      obtain ⟨v, q₁⟩ := x
      obtain ⟨hv, hlt⟩ := takeNat_eq_some.1 h₁
      simp only [h₁, Reader.failIf_err, bne_eq_false_iff_eq, readerAt_pos] at h
      have hlen : q.length = 2 + q₁.length := by rw [hv]; simp
      exact ⟨rfl, v, q₁, hv, by omega, by omega⟩

theorem shExtBody_ok {et el : Nat} (hel : el < 2 ^ 16)
    (h : (shExtBody st msg.length et el (readerAt msg q)).r.err = false) :
    ∃ e q', et = Rfc.ShExt.type e ∧ el = e.data.length ∧ q = e.data ++ q' ∧ e.Fits ∧ st.seen e = false := by
  have hl := hq.length_le
  have hend : add32 (readerAt msg q).pos el = msg.length - q.length + el := by
    rw [readerAt_pos, add32_eq (by omega)]
  simp only [shExtBody, hend] at h
  split at h
  · cases h
  · next hle =>
    split at h
    · next ht =>
      cases hseen : st.seenKs with
      | true =>
        simp only [hseen, Reader.failIf_true, wnReadU16_fail, wnReadBytes_fail, Reader.fail_failIf] at h
        cases h
      | false =>
        simp only [hseen, Reader.failIf_false, wnReadU16_at hq hmsg] at h
        cases h₁ : takeNat 2 q with
        | none =>
          simp only [h₁, wnReadU16_fail, wnReadBytes_fail, Reader.fail_failIf] at h
          cases h
        | some x =>
          obtain ⟨group, q₁⟩ := x
          have hq₁ := (takeNat_suffix h₁).trans hq
          simp only [h₁, wnReadU16_at hq₁ hmsg] at h
          cases h₂ : takeNat 2 q₁ with
          | none =>
            simp only [h₂, wnReadBytes_fail, Reader.fail_failIf] at h
            cases h
          | some x =>
            obtain ⟨klen, q₂⟩ := x
            have hq₂ := (takeNat_suffix h₂).trans hq₁
            obtain ⟨hv₁, hg⟩ := takeNat_eq_some.1 h₁
            obtain ⟨hv₂, hk⟩ := takeNat_eq_some.1 h₂
            simp only [h₂, wnReadBytes_at hq₂ hmsg (n := klen) (by omega)] at h
            cases h₃ : takeBytes klen q₂ with
            | none =>
              simp only [h₃, Reader.fail_failIf] at h
              cases h
            | some x =>
              obtain ⟨share, q₃⟩ := x
              obtain ⟨hv₃, rfl⟩ := takeBytes_eq_some.1 h₃
              simp only [h₃, Reader.failIf_err, bne_eq_false_iff_eq, readerAt_pos] at h
              have hq₃ : q₃.length ≤ q₂.length := by rw [hv₃]; simp
              have hlen : q.length = 4 + share.length + q₃.length := by
                rw [hv₁, hv₂, hv₃]; simp; omega
              refine ⟨.keyShare group share, q₃, ht, ?_, ?_, ⟨hg, ?_⟩, hseen⟩
              · simp [Rfc.ShExt.data]; omega
              · rw [hv₁, hv₂, hv₃]; simp [Rfc.ShExt.data, vec]
              · omega
    · split at h
      · next ht =>
        obtain ⟨hseen, v, q', hv, hlt, rfl⟩ := shExtNat_ok hmsg hq h
        exact ⟨.version v, q', ht, by simp [Rfc.ShExt.data], hv, hlt, hseen⟩
      · split at h
        · next ht =>
          obtain ⟨hseen, v, q', hv, hlt, rfl⟩ := shExtNat_ok hmsg hq h
          exact ⟨.preShared v, q', ht, by simp [Rfc.ShExt.data], hv, hlt, hseen⟩
        · cases h

variable (hst : st.r = readerAt msg q)
include hst

/-- An extension is read where its encoding stands. -/
theorem shExtension_take {e : Rfc.ShExt} {q' : Bytes} (he : e.Fits) (hseen : st.seen e = false)
    (henc : q = e.encode ++ q') : shExtension st msg.length = st.take e (readerAt msg q') := by
  have hd := Rfc.ShExt.data_length_lt he
  have h₁ : takeNat 2 q = some (e.type, vec 2 e.data ++ q') :=
    takeNat_eq_some.2 ⟨by rw [henc]; simp [Rfc.ShExt.encode], Rfc.ShExt.type_lt e⟩
  have h₂ : takeNat 2 (vec 2 e.data ++ q') = some (e.data.length, e.data ++ q') :=
    takeNat_eq_some.2 ⟨by simp [vec], by omega⟩
  have hq₁ := (takeNat_suffix h₁).trans hq
  have hq₂ := (takeNat_suffix h₂).trans hq₁
  rw [shExtension_eq, hst]
  simp only [wnReadU16_at hq hmsg, h₁, wnReadU16_at hq₁ hmsg, h₂]
  exact shExtBody_take hmsg hq₂ he hseen rfl

/-- And only there. -/
theorem shExtension_ok (h : (shExtension st msg.length).r.err = false) :
    ∃ e q', q = Rfc.ShExt.encode e ++ q' ∧ e.Fits ∧ st.seen e = false := by
  rw [shExtension_eq, hst] at h
  simp only [wnReadU16_at hq hmsg] at h
  cases h₁ : takeNat 2 q with
  | none =>
    simp only [h₁, wnReadU16_fail, shExtBody_fail] at h
    cases h
  | some x =>
    obtain ⟨et, q₁⟩ := x
    have hq₁ := (takeNat_suffix h₁).trans hq
    simp only [h₁, wnReadU16_at hq₁ hmsg] at h
    cases h₂ : takeNat 2 q₁ with
    | none =>
      simp only [h₂, shExtBody_fail] at h
      cases h
    | some x =>
      obtain ⟨el, q₂⟩ := x
      have hq₂ := (takeNat_suffix h₂).trans hq₁
      obtain ⟨hv₁, -⟩ := takeNat_eq_some.1 h₁
      obtain ⟨hv₂, hel⟩ := takeNat_eq_some.1 h₂
      simp only [h₂] at h
      obtain ⟨e, q', rfl, rfl, hd, he, hseen⟩ := shExtBody_ok hmsg hq₂ (by omega) h
      exact ⟨e, q', by rw [hv₁, hv₂, hd]; simp [Rfc.ShExt.encode, vec], he, hseen⟩

end Extension

/-! ## The extension loop -/

/-- No two extensions of one type, nor one of a type seen before. -/
def ShExts.Fresh (st : ShExts) (exts : List Rfc.ShExt) : Prop :=
  (exts.map Rfc.ShExt.type).Nodup ∧ ∀ e ∈ exts, st.seen e = false

theorem ShExts.seen_take (st : ShExts) (e e' : Rfc.ShExt) (r : Reader) :
    (st.take e r).seen e' = (st.seen e' || e.type == e'.type) := by
  cases e <;> cases e' <;> simp [take, seen, Rfc.ShExt.type]

theorem ShExts.fresh_cons {st : ShExts} {e : Rfc.ShExt} {exts : List Rfc.ShExt} (r : Reader) :
    st.Fresh (e :: exts) ↔ st.seen e = false ∧ (st.take e r).Fresh exts := by
  simp only [Fresh, List.map_cons, List.nodup_cons, List.mem_map, List.mem_cons, forall_eq_or_imp,
    seen_take, Bool.or_eq_false_iff, beq_eq_false_iff_ne, not_exists, not_and]
  constructor
  · intro hall
    obtain ⟨⟨hne, hnd⟩, he, hs⟩ := hall
    exact ⟨he, hnd, fun e' he' => ⟨hs e' he', fun h => hne e' he' h.symm⟩⟩
  · intro hall
    obtain ⟨he, hnd, hs⟩ := hall
    exact ⟨⟨fun e' he' h => (hs e' he').2 h.symm, hnd⟩, he, fun e' he' => (hs e' he').1⟩

section Loop

variable {msg : Bytes} (hmsg : msg.length < 2 ^ 31)
include hmsg

/-- The loop reads a list of extensions, to the end of the message. -/
theorem shExtensions_take : ∀ (n : Nat) (exts : List Rfc.ShExt) (st : ShExts),
    (exts.flatMap Rfc.ShExt.encode).length ≤ n → exts.flatMap Rfc.ShExt.encode <:+ msg →
    st.r = readerAt msg (exts.flatMap Rfc.ShExt.encode) → (∀ e ∈ exts, e.Fits) → st.Fresh exts →
    (shExtensions msg.length n st).r = readerAt msg [] ∧
      (shExtensions msg.length n st).out = exts.foldl ServerHello.add st.out
  | n, [], st, _, _, hst, _, _ => by
    have hstop : shExtensions msg.length n st = st := by
      cases n with
      | zero => rfl
      | succ n => rw [shExtensions, if_neg]; simp [hst, readerAt_pos]
    rw [hstop]
    exact ⟨hst, rfl⟩
  | n, e :: exts, st, hn, hq, hst, hfits, hfresh => by
    simp only [List.flatMap_cons] at hn hq hst
    have hl := hq.length_le
    simp only [List.length_append, Rfc.ShExt.encode_length] at hn hl
    obtain ⟨n, rfl⟩ : ∃ k, n = k + 1 := ⟨n - 1, by omega⟩
    obtain ⟨hseen, hfresh⟩ := (ShExts.fresh_cons (readerAt msg (exts.flatMap Rfc.ShExt.encode))).1 hfresh
    have hcond : st.r.pos < msg.length ∧ st.r.err = false := by
      rw [hst, readerAt_pos, List.length_append, Rfc.ShExt.encode_length]
      exact ⟨by omega, rfl⟩
    rw [shExtensions, if_pos hcond, shExtension_take hmsg hq hst (hfits e List.mem_cons_self) hseen rfl]
    have ih := shExtensions_take n exts _ (by omega) ((List.suffix_append _ _).trans hq)
      (ShExts.take_r st e (readerAt msg (exts.flatMap Rfc.ShExt.encode)))
      (fun e' he' => hfits e' (List.mem_cons_of_mem _ he')) hfresh
    rwa [ShExts.take_out] at ih

omit hmsg in
theorem shExtensions_fail : ∀ {n : Nat} {st : ShExts} (extEnd : Nat), st.r.err = true →
    (shExtensions extEnd n st).r.err = true
  | 0, _, _, h => h
  | n + 1, st, extEnd, h => by rw [shExtensions, if_neg (by simp [h])]; exact h

/-- It ends without an error on nothing else. -/
theorem shExtensions_ok : ∀ {n : Nat} {q : Bytes} {st : ShExts}, q.length ≤ n → q <:+ msg →
    st.r = readerAt msg q → (shExtensions msg.length n st).r.err = false →
    ∃ exts : List Rfc.ShExt, q = exts.flatMap Rfc.ShExt.encode ∧ (∀ e ∈ exts, e.Fits) ∧ st.Fresh exts
  | n, [], st, _, _, _, _ => ⟨[], rfl, by simp, by simp [ShExts.Fresh]⟩
  | 0, _ :: _, _, hn, _, _, _ => by simp at hn
  | n + 1, b :: q, st, hn, hq, hst, h => by
    have hl := hq.length_le
    have hcond : st.r.pos < msg.length ∧ st.r.err = false := by
      rw [hst, readerAt_pos]
      simp only [List.length_cons] at hl ⊢
      exact ⟨by omega, rfl⟩
    rw [shExtensions, if_pos hcond] at h
    have hok : (shExtension st msg.length).r.err = false := by
      by_contra hne
      rw [shExtensions_fail _ (by simpa using hne)] at h
      cases h
    obtain ⟨e, q', henc, hfits, hseen⟩ := shExtension_ok hmsg hq hst hok
    rw [shExtension_take hmsg hq hst hfits hseen henc] at h
    have hlen : (b :: q).length = e.encode.length + q'.length := by rw [henc, List.length_append]
    rw [Rfc.ShExt.encode_length] at hlen
    have hq' : q' <:+ msg := (by rw [henc]; exact List.suffix_append _ _ : q' <:+ b :: q).trans hq
    obtain ⟨exts, hexts, hfits', hfresh⟩ := shExtensions_ok (by omega) hq' (ShExts.take_r _ _ _) h
    refine ⟨e :: exts, by rw [henc, hexts, List.flatMap_cons], ?_, (ShExts.fresh_cons _).2 ⟨hseen, hfresh⟩⟩
    simpa using ⟨hfits, hfits'⟩

end Loop

/-! ## The message -/

/-- What the parser makes of a ServerHello. -/
def ServerHello.ofHello (h : Rfc.SHello) : ServerHello :=
  h.exts.foldl ServerHello.add { ServerHello.init with
    random := some h.random.val, sessionId := some h.sessionId, sessionIdLen := h.sessionId.length
    cipher := h.cipher }

/-- The parser from the extensions on. -/
def shFinish (msg : Bytes) (type : UInt8) (hsLen lver : Nat) (comp : UInt8) (random : Option Bytes)
    (extLen : Nat) (out : ServerHello) (r : Reader) : Except Err ServerHello :=
  let extEnd := add32 r.pos extLen
  let (extEnd', r) := if extEnd > msg.length then (msg.length, r.fail) else (extEnd, r)
  let st := shExtensions extEnd' msg.length { r, out, seenKs := false, seenVer := false, seenPsk := false }
  if st.r.err = true ∨ type ≠ wnHsServerHello ∨ hsLen ≠ sub32 msg.length 4 ∨ random = none ∨
      lver ≠ 0x0303 ∨ comp ≠ 0 ∨ extEnd' ≠ msg.length then
    .error .invalidArg
  else .ok st.out

theorem shFinish_fail (msg : Bytes) (type : UInt8) (hsLen lver : Nat) (comp : UInt8) (random : Option Bytes)
    (extLen : Nat) (out : ServerHello) (r : Reader) :
    shFinish msg type hsLen lver comp random extLen out r.fail = .error .invalidArg := by
  unfold shFinish
  dsimp only
  rw [if_pos]
  left
  split <;> exact shExtensions_fail _ rfl

/-- The parser after the random. -/
def shRest (msg : Bytes) (type : UInt8) (hsLen lver : Nat) (random : Option Bytes) (r : Reader) :
    Except Err ServerHello :=
  let (sidLen, r) := wnReadU8 r
  let (sessionId, r) := wnReadBytes r sidLen.toNat
  let (cipher, r) := wnReadU16 r
  let (comp, r) := wnReadU8 r
  let (extLen, r) := wnReadU16 r
  shFinish msg type hsLen lver comp random extLen
    { ServerHello.init with random, sessionId, sessionIdLen := sidLen.toNat, cipher } r

theorem shRest_fail (msg : Bytes) (type : UInt8) (hsLen lver : Nat) (random : Option Bytes) (r : Reader) :
    shRest msg type hsLen lver random r.fail = .error .invalidArg := by
  simp only [shRest, wnReadU8_fail, wnReadBytes_fail, wnReadU16_fail, shFinish_fail]

theorem wnServerHelloParse_eq (msg : Bytes) : wnServerHelloParse msg =
    let r := wnReaderInit msg msg.length
    let (type, r) := wnReadU8 r
    let (hsLen, r) := wnReadU24 r
    let (lver, r) := wnReadU16 r
    let (random, r) := wnReadBytes r 32
    if r.err = false ∧ type = wnHsServerHello ∧ random = some wnHrrRandom then
      .ok { ServerHello.init with random, isHelloRetry := true }
    else shRest msg type hsLen lver random r := by
  unfold wnServerHelloParse shRest shFinish
  generalize wnReadU8 (wnReaderInit msg msg.length) = x
  obtain ⟨type, r⟩ := x
  generalize wnReadU24 r = x
  obtain ⟨hsLen, r⟩ := x
  generalize wnReadU16 r = x
  obtain ⟨lver, r⟩ := x
  generalize wnReadBytes r 32 = x
  obtain ⟨random, r⟩ := x
  rfl

section Parse

variable {msg : Bytes} (hmsg : msg.length < 2 ^ 31)
include hmsg

theorem shFinish_ok {type comp : UInt8} {hsLen lver extLen : Nat} {random : Option Bytes}
    {out sh : ServerHello} {q : Bytes} (hq : q <:+ msg) (hext : extLen < 2 ^ 16) (hlen : 4 ≤ msg.length) :
    shFinish msg type hsLen lver comp random extLen out (readerAt msg q) = .ok sh ↔
      type = wnHsServerHello ∧ hsLen = msg.length - 4 ∧ random ≠ none ∧ lver = 0x0303 ∧ comp = 0 ∧
        ∃ exts : List Rfc.ShExt, q = exts.flatMap Rfc.ShExt.encode ∧ extLen = q.length ∧
          (∀ e ∈ exts, e.Fits) ∧ (exts.map Rfc.ShExt.type).Nodup ∧ sh = exts.foldl ServerHello.add out := by
  have hl := hq.length_le
  have hend : add32 (readerAt msg q).pos extLen = msg.length - q.length + extLen := by
    rw [readerAt_pos, add32_eq (by omega)]
  have hsub : sub32 msg.length 4 = msg.length - 4 := sub32_eq hlen (by omega)
  simp only [shFinish, hend, hsub]
  by_cases hover : extLen = q.length
  · have hstop : msg.length - q.length + extLen = msg.length := by omega
    rw [hstop, if_neg (Nat.lt_irrefl _)]
    dsimp only
    constructor
    · intro h
      split at h
      · cases h
      · next hc =>
        simp only [not_or, Bool.not_eq_true, not_not] at hc
        obtain ⟨herr, ht, hhs, hr, hv, hcomp, -⟩ := hc
        obtain ⟨exts, rfl, hfits, hfresh⟩ := shExtensions_ok hmsg hl hq rfl herr
        have htake := shExtensions_take hmsg msg.length exts ⟨readerAt msg _, out, false, false, false⟩ hl hq rfl hfits hfresh
        rw [htake.2] at h
        cases h
        exact ⟨ht, hhs, hr, hv, hcomp, exts, rfl, hover, hfits, hfresh.1, rfl⟩
    · intro hall
      obtain ⟨ht, hhs, hr, hv, hcomp, exts, rfl, -, hfits, hnd, rfl⟩ := hall
      have htake := shExtensions_take hmsg msg.length exts ⟨readerAt msg _, out, false, false, false⟩ hl hq rfl hfits
        ⟨hnd, fun e _ => by cases e <;> rfl⟩
      rw [if_neg, htake.2]
      rw [htake.1]
      simp [ht, hhs, hr, hv, hcomp]
  · constructor
    · intro h
      exfalso
      by_cases hgt : msg.length - q.length + extLen > msg.length
      · rw [if_pos hgt] at h
        split at h
        · cases h
        · next hc =>
          simp only [not_or, Bool.not_eq_true] at hc
          rw [shExtensions_fail _ rfl] at hc
          cases hc.1
      · rw [if_neg hgt] at h
        split at h
        · cases h
        · next hc =>
          simp only [not_or, not_not] at hc
          omega
    · intro hall
      obtain ⟨-, -, -, -, -, exts, -, h, -⟩ := hall
      exact absurd h hover

theorem shRest_ok {type : UInt8} {hsLen lver : Nat} {random : Bytes} {sh : ServerHello} {q : Bytes}
    (hq : q <:+ msg) (hlen : 4 ≤ msg.length) :
    shRest msg type hsLen lver (some random) (readerAt msg q) = .ok sh ↔
      type = wnHsServerHello ∧ hsLen = msg.length - 4 ∧ lver = 0x0303 ∧
        ∃ (sid : Bytes) (cipher : Nat) (exts : List Rfc.ShExt),
          q = vec 1 sid ++ be 2 cipher ++ [0] ++ vec 2 (exts.flatMap Rfc.ShExt.encode) ∧
          sid.length < 2 ^ 8 ∧ cipher < 2 ^ 16 ∧ (exts.flatMap Rfc.ShExt.encode).length < 2 ^ 16 ∧
          (∀ e ∈ exts, e.Fits) ∧ (exts.map Rfc.ShExt.type).Nodup ∧
          sh = exts.foldl ServerHello.add { ServerHello.init with
            random := some random, sessionId := some sid, sessionIdLen := sid.length, cipher } := by
  constructor
  · intro h
    simp only [shRest, wnReadU8_at hq hmsg] at h
    match q, hq, h with
    | [], _, h =>
      simp only [wnReadBytes_fail, wnReadU16_fail, wnReadU8_fail, shFinish_fail] at h
      cases h
    | sidLen :: q₁, hq, h =>
      have hq₁ : q₁ <:+ msg := (List.suffix_cons _ _).trans hq
      have hsid : sidLen.toNat < 2 ^ 8 := sidLen.toNat_lt
      simp only [wnReadBytes_at hq₁ hmsg (n := sidLen.toNat) (by omega)] at h
      cases h₂ : takeBytes sidLen.toNat q₁ with
      | none =>
        simp only [h₂, wnReadU16_fail, wnReadU8_fail, shFinish_fail] at h
        cases h
      | some x =>
        obtain ⟨sid, q₂⟩ := x
        have hq₂ := (takeBytes_suffix h₂).trans hq₁
        simp only [h₂, wnReadU16_at hq₂ hmsg] at h
        cases h₃ : takeNat 2 q₂ with
        | none =>
          simp only [h₃, wnReadU16_fail, wnReadU8_fail, shFinish_fail] at h
          cases h
        | some x =>
          obtain ⟨cipher, q₃⟩ := x
          have hq₃ := (takeNat_suffix h₃).trans hq₂
          simp only [h₃, wnReadU8_at hq₃ hmsg] at h
          match q₃, hq₃, h₃, h with
          | [], _, _, h =>
            simp only [wnReadU16_fail, shFinish_fail] at h
            cases h
          | comp :: q₄, hq₃, h₃, h =>
            have hq₄ : q₄ <:+ msg := (List.suffix_cons _ _).trans hq₃
            simp only [wnReadU16_at hq₄ hmsg] at h
            cases h₅ : takeNat 2 q₄ with
            | none =>
              simp only [h₅, shFinish_fail] at h
              cases h
            | some x =>
              obtain ⟨extLen, q₅⟩ := x
              have hq₅ := (takeNat_suffix h₅).trans hq₄
              simp only [h₅] at h
              obtain ⟨hv₂, hsl⟩ := takeBytes_eq_some.1 h₂
              obtain ⟨hv₃, hc⟩ := takeNat_eq_some.1 h₃
              obtain ⟨hv₅, hx⟩ := takeNat_eq_some.1 h₅
              rw [shFinish_ok hmsg hq₅ (by omega) hlen] at h
              obtain ⟨ht, hhs, -, hver, rfl, exts, rfl, rfl, hfits, hnd, rfl⟩ := h
              refine ⟨ht, hhs, hver, sid, cipher, exts, ?_, by omega, by omega, by omega, hfits, hnd, ?_⟩
              · rw [hv₂, hv₃, hv₅]
                simp [vec, be_one, hsl]
              · rw [hsl]
  · intro hall
    obtain ⟨ht, hhs, hver, sid, cipher, exts, hv, hsid, hc, hx, hfits, hnd, rfl⟩ := hall
    set es := exts.flatMap Rfc.ShExt.encode with hes
    obtain rfl : q = UInt8.ofNat sid.length :: (sid ++ (be 2 cipher ++ (0 :: (be 2 es.length ++ es)))) := by
      rw [hv]; simp [vec, be_one]
    have hsl : (UInt8.ofNat sid.length).toNat = sid.length := by simp; omega
    have hq₁ := (List.suffix_cons _ _).trans hq
    have h₂ : takeBytes sid.length (sid ++ (be 2 cipher ++ (0 :: (be 2 es.length ++ es)))) = some (sid, _) :=
      takeBytes_eq_some.2 ⟨rfl, rfl⟩
    have hq₂ := (takeBytes_suffix h₂).trans hq₁
    have h₃ : takeNat 2 (be 2 cipher ++ (0 :: (be 2 es.length ++ es))) = some (cipher, _) :=
      takeNat_eq_some.2 ⟨rfl, by omega⟩
    have hq₃ := (takeNat_suffix h₃).trans hq₂
    have hq₄ := (List.suffix_cons _ _).trans hq₃
    have h₅ : takeNat 2 (be 2 es.length ++ es) = some (es.length, es) := takeNat_eq_some.2 ⟨rfl, by omega⟩
    have hq₅ := (takeNat_suffix h₅).trans hq₄
    simp only [shRest, wnReadU8_at hq hmsg, hsl, wnReadBytes_at hq₁ hmsg (n := sid.length) (by omega), h₂,
      wnReadU16_at hq₂ hmsg, h₃, wnReadU8_at hq₃ hmsg, wnReadU16_at hq₄ hmsg, h₅]
    exact (shFinish_ok hmsg hq₅ (by omega) hlen).2
      ⟨ht, hhs, by simp, hver, rfl, exts, hes, rfl, hfits, hnd, rfl⟩

omit hmsg in
theorem ServerHello.foldl_add_isHelloRetry (exts : List Rfc.ShExt) (out : ServerHello) :
    (exts.foldl ServerHello.add out).isHelloRetry = out.isHelloRetry := by
  induction exts generalizing out with
  | nil => rfl
  | cons e exts ih => rw [List.foldl_cons, ih]; cases e <;> rfl

/-- The four fields before the parser's first decision. -/
theorem wnServerHelloParse_start {type : UInt8} {hsLen lver : Nat} {random q : Bytes}
    (hhs : hsLen < 2 ^ 24) (hv : lver < 2 ^ 16) (hr : random.length = 32)
    (henc : msg = type :: (be 3 hsLen ++ (be 2 lver ++ (random ++ q)))) :
    wnServerHelloParse msg = if type = wnHsServerHello ∧ random = wnHrrRandom then
      .ok { ServerHello.init with random := some random, isHelloRetry := true }
    else shRest msg type hsLen lver (some random) (readerAt msg q) := by
  have hq₁ : be 3 hsLen ++ (be 2 lver ++ (random ++ q)) <:+ msg := by rw [henc]; exact List.suffix_cons _ _
  have h₁ : wnReadU8 (readerAt msg msg) = (type, readerAt msg (be 3 hsLen ++ (be 2 lver ++ (random ++ q)))) := by
    rw [wnReadU8_at (List.suffix_refl _) hmsg]
    cases henc; rfl
  have h₂ : takeNat 3 (be 3 hsLen ++ (be 2 lver ++ (random ++ q))) = some (hsLen, _) :=
    takeNat_eq_some.2 ⟨rfl, by omega⟩
  have hq₂ := (takeNat_suffix h₂).trans hq₁
  have h₃ : takeNat 2 (be 2 lver ++ (random ++ q)) = some (lver, _) := takeNat_eq_some.2 ⟨rfl, by omega⟩
  have hq₃ := (takeNat_suffix h₃).trans hq₂
  have h₄ : takeBytes 32 (random ++ q) = some (random, q) := takeBytes_eq_some.2 ⟨rfl, hr⟩
  simp only [wnServerHelloParse_eq, wnReaderInit_eq, h₁, wnReadU24_at hq₁ hmsg, h₂, wnReadU16_at hq₂ hmsg, h₃,
    wnReadBytes_at hq₃ hmsg (n := 32) (by omega), h₄, readerAt_err, true_and, Option.some.injEq]

/-- Nothing is parsed of a message too short for them. -/
theorem wnServerHelloParse_short {sh : ServerHello} (h : wnServerHelloParse msg = .ok sh) :
    ∃ (type : UInt8) (hsLen lver : Nat) (random q : Bytes), hsLen < 2 ^ 24 ∧ lver < 2 ^ 16 ∧ random.length = 32 ∧
      msg = type :: (be 3 hsLen ++ (be 2 lver ++ (random ++ q))) := by
  simp only [wnServerHelloParse_eq, wnReaderInit_eq] at h
  have hread : ∃ type q, msg = type :: q := by
    cases msg with
    | nil =>
      simp only [wnReadU8_at (List.suffix_refl _) hmsg, wnReadU24_fail, wnReadU16_fail, wnReadBytes_fail,
        Reader.fail_err, shRest_fail, reduceCtorEq, false_and, if_false] at h
    | cons type q => exact ⟨type, q, rfl⟩
  obtain ⟨type, q₁, hv₁⟩ := hread
  have h₁ : wnReadU8 (readerAt msg msg) = (type, readerAt msg q₁) := by
    rw [wnReadU8_at (List.suffix_refl _) hmsg]
    cases hv₁; rfl
  have hq₁ : q₁ <:+ msg := by rw [hv₁]; exact List.suffix_cons _ _
  simp only [h₁, wnReadU24_at hq₁ hmsg] at h
  cases h₂ : takeNat 3 q₁ with
  | none =>
    simp only [h₂, wnReadU16_fail, wnReadBytes_fail, Reader.fail_err, shRest_fail, reduceCtorEq, false_and,
      if_false] at h
  | some x =>
    obtain ⟨hsLen, q₂⟩ := x
    have hq₂ := (takeNat_suffix h₂).trans hq₁
    simp only [h₂, wnReadU16_at hq₂ hmsg] at h
    cases h₃ : takeNat 2 q₂ with
    | none =>
      simp only [h₃, wnReadBytes_fail, Reader.fail_err, shRest_fail, reduceCtorEq, false_and, if_false] at h
    | some x =>
      obtain ⟨lver, q₃⟩ := x
      have hq₃ := (takeNat_suffix h₃).trans hq₂
      simp only [h₃, wnReadBytes_at hq₃ hmsg (n := 32) (by omega)] at h
      cases h₄ : takeBytes 32 q₃ with
      | none =>
        simp only [h₄, Reader.fail_err, shRest_fail, reduceCtorEq, false_and, if_false] at h
      | some x =>
        obtain ⟨random, q⟩ := x
        obtain ⟨hv₂, hhs⟩ := takeNat_eq_some.1 h₂
        obtain ⟨hv₃, hv⟩ := takeNat_eq_some.1 h₃
        obtain ⟨hv₄, hr⟩ := takeBytes_eq_some.1 h₄
        exact ⟨type, hsLen, lver, random, q, by omega, by omega, hr, by rw [hv₁, hv₂, hv₃, hv₄]⟩

/-- **The parser accepts exactly the ServerHello grammar**: apart from a
HelloRetryRequest, it answers where the message is an encoding, each type of
extension at most once, and with the values encoded. -/
theorem wnServerHelloParse_ok {sh : ServerHello} :
    wnServerHelloParse msg = .ok sh ∧ sh.isHelloRetry = false ↔
      ∃ h : Rfc.SHello, h.Fits ∧ h.random.val ≠ wnHrrRandom ∧ (h.exts.map Rfc.ShExt.type).Nodup ∧
        msg = h.encode ∧ sh = .ofHello h := by
  constructor
  · intro hall
    obtain ⟨h, hret⟩ := hall
    obtain ⟨type, hsLen, lver, random, q, hhs, hv, hr, henc⟩ := wnServerHelloParse_short hmsg h
    have hq : q <:+ msg := by rw [henc]; exact ⟨type :: (be 3 hsLen ++ (be 2 lver ++ random)), by simp⟩
    have hlen : msg.length = 38 + q.length := by rw [henc]; simp; omega
    rw [wnServerHelloParse_start hmsg hhs hv hr henc] at h
    split at h
    · cases h; cases hret
    · next hne =>
      obtain ⟨rfl, hl, rfl, sid, cipher, exts, hq', hsid, hc, hx, hfits, hnd, rfl⟩ :=
        (shRest_ok hmsg hq (by omega)).1 h
      refine ⟨⟨⟨random, hr⟩, sid, cipher, exts⟩, ⟨hsid, hc, hfits, hx⟩, fun hrr => hne ⟨rfl, hrr⟩, hnd, ?_, rfl⟩
      have hbody : (Rfc.SHello.body ⟨⟨random, hr⟩, sid, cipher, exts⟩) = be 2 0x0303 ++ (random ++ q) := by
        rw [hq']; simp [Rfc.SHello.body, be_two]
      rw [henc, Rfc.SHello.encode, Rfc.hsMsg, hbody, vec, hl, hlen]
      have hl' : (be 2 0x0303 ++ (random ++ q)).length = 38 + q.length - 4 := by simp [hr]; omega
      rw [hl']
      rfl
  · intro hall
    obtain ⟨h, hfits, hrr, hnd, henc, rfl⟩ := hall
    set q := vec 1 h.sessionId ++ be 2 h.cipher ++ [0] ++ vec 2 (h.exts.flatMap Rfc.ShExt.encode) with hqdef
    have hbody : h.body = be 2 0x0303 ++ (h.random.val ++ q) := by
      rw [hqdef]; simp [Rfc.SHello.body, be_two]
    have hmsg' : msg = wnHsServerHello :: (be 3 h.body.length ++ (be 2 0x0303 ++ (h.random.val ++ q))) := by
      rw [henc, Rfc.SHello.encode, Rfc.hsMsg, vec, hbody]; rfl
    have hlen : msg.length = 4 + h.body.length := by rw [henc]; simp [Rfc.SHello.encode, Rfc.hsMsg]; omega
    have hq : q <:+ msg := by
      rw [hmsg']; exact ⟨wnHsServerHello :: (be 3 h.body.length ++ (be 2 0x0303 ++ h.random.val)), by simp⟩
    have hbl : h.body.length < 2 ^ 24 := by
      have h₁ := hfits.sessionId
      have h₂ := hfits.extsLen
      simp only [Rfc.SHello.body, List.length_append, vec_length, be_length, List.length_cons, List.length_nil,
        Block.length]
      omega
    refine ⟨?_, ServerHello.foldl_add_isHelloRetry _ _⟩
    rw [wnServerHelloParse_start hmsg hbl (by decide) h.random.length hmsg', if_neg (fun hc => hrr hc.2),
      shRest_ok hmsg hq (by omega)]
    exact ⟨rfl, by omega, rfl, h.sessionId, h.cipher, h.exts, hqdef, hfits.sessionId, hfits.cipher,
      hfits.extsLen, hfits.exts, hnd, rfl⟩

end Parse

end WolfNano

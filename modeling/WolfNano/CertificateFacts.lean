/-
The two certificate messages: what their parsers accept, as RFC 8446 encodes
them (4.4.2, 4.4.3).

The entry loop stops after `WN_MAX_CHAIN` entries whatever follows, so a
Certificate is a list that starts with the entries taken
(`certificateCerts_ok`).
-/
import WolfNano.ConnectCert
import WolfNano.MsgFacts

namespace WolfNano

open Wire

/-! ## Certificate -/

/-- A CertificateEntry. -/
structure Rfc.CertEntry where
  cert : Bytes
  exts : Bytes

def Rfc.CertEntry.encode (e : Rfc.CertEntry) : Bytes := vec 3 e.cert ++ vec 2 e.exts

structure Rfc.CertEntry.Fits (e : Rfc.CertEntry) : Prop where
  cert : e.cert.length < 2 ^ 24
  exts : e.exts.length < 2 ^ 16

/-- The body of a server's Certificate: no request context, and a list that
starts with `entries`. -/
def Rfc.certificate (entries : List Rfc.CertEntry) (rest : Bytes) : Bytes :=
  vec 1 [] ++ vec 3 (entries.flatMap Rfc.CertEntry.encode ++ rest)

theorem certEntries_err (listEnd n : Nat) {r : Reader} (h : r.err = true) : certEntries listEnd n r = ([], r) := by
  cases n with
  | zero => rfl
  | succ n => rw [certEntries, if_neg (by simp [h])]

section Entries

variable {body q : Bytes} (hb : body.length < 2 ^ 31) (hq : q <:+ body)
include hb hq

/-- A turn of the entry loop that finds an entry, -/
theorem certEntries_entry (n : Nat) {e : Rfc.CertEntry} (he : e.Fits) {q' : Bytes} (henc : q = e.encode ++ q') :
    certEntries body.length (n + 1) (readerAt body q) =
      (e.cert :: (certEntries body.length n (readerAt body q')).1,
        (certEntries body.length n (readerAt body q')).2) := by
  have hc := he.cert
  have hx := he.exts
  have h₁ : takeNat 3 q = some (e.cert.length, e.cert ++ (vec 2 e.exts ++ q')) :=
    takeNat_eq_some.2 ⟨by rw [henc]; simp [Rfc.CertEntry.encode, vec], by omega⟩
  have hq₁ := (takeNat_suffix h₁).trans hq
  have h₂ : takeBytes e.cert.length (e.cert ++ (vec 2 e.exts ++ q')) = some (e.cert, _) :=
    takeBytes_eq_some.2 ⟨rfl, rfl⟩
  have hq₂ := (takeBytes_suffix h₂).trans hq₁
  have h₃ : takeNat 2 (vec 2 e.exts ++ q') = some (e.exts.length, e.exts ++ q') :=
    takeNat_eq_some.2 ⟨by simp [vec], by omega⟩
  have hq₃ := (takeNat_suffix h₃).trans hq₂
  have h₄ : takeBytes e.exts.length (e.exts ++ q') = some (e.exts, q') := takeBytes_eq_some.2 ⟨rfl, rfl⟩
  have hpos : (readerAt body q).pos < body.length := by
    have := hq.length_le
    rw [readerAt_pos]
    rw [henc, List.length_append] at *
    simp only [Rfc.CertEntry.encode, List.length_append, vec_length] at *
    omega
  have hcert : ((readerAt body (e.cert ++ (vec 2 e.exts ++ q'))).buf.drop
      (readerAt body (e.cert ++ (vec 2 e.exts ++ q'))).pos).take e.cert.length = e.cert := by
    rw [readerAt_buf, readerAt_pos, suffix_drop hq₁, List.take_left]
  rw [certEntries, if_pos ⟨hpos, rfl⟩]
  simp only [wnReadU24_at hq hb, h₁, hcert, wnReadBytes_at hq₁ hb (n := e.cert.length) (by omega), h₂,
    wnReadU16_at hq₂ hb, h₃, wnReadBytes_at hq₃ hb (n := e.exts.length) (by omega), h₄]

/-- and one that finds none. -/
theorem certEntries_none (n : Nat) (hne : q ≠ []) (hno : ∀ (e : Rfc.CertEntry) q', e.Fits → q ≠ e.encode ++ q') :
    (certEntries body.length (n + 1) (readerAt body q)).2.err = true := by
  have hpos : (readerAt body q).pos < body.length := by
    have := hq.length_le
    have := List.length_pos_iff.2 hne
    rw [readerAt_pos]
    omega
  have hfail : ∀ {r : Reader}, r.err = true → (certEntries body.length n r).2.err = true := fun h => by
    rw [certEntries_err _ _ h]; exact h
  rw [certEntries, if_pos ⟨hpos, rfl⟩]
  dsimp only
  rw [wnReadU24_at hq hb]
  cases h₁ : takeNat 3 q with
  | none => simp only [wnReadBytes_fail, wnReadU16_fail]; exact hfail rfl
  | some x =>
    obtain ⟨cl, q₁⟩ := x
    obtain ⟨hv₁, hcl⟩ := takeNat_eq_some.1 h₁
    have hq₁ := (takeNat_suffix h₁).trans hq
    simp only [wnReadBytes_at hq₁ hb (n := cl) (by omega)]
    cases h₂ : takeBytes cl q₁ with
    | none => simp only [wnReadU16_fail, wnReadBytes_fail]; exact hfail rfl
    | some x =>
      obtain ⟨cert, q₂⟩ := x
      obtain ⟨hv₂, hcert⟩ := takeBytes_eq_some.1 h₂
      have hq₂ := (takeBytes_suffix h₂).trans hq₁
      simp only [wnReadU16_at hq₂ hb]
      cases h₃ : takeNat 2 q₂ with
      | none => simp only [wnReadBytes_fail]; exact hfail rfl
      | some x =>
        obtain ⟨xl, q₃⟩ := x
        obtain ⟨hv₃, hxl⟩ := takeNat_eq_some.1 h₃
        have hq₃ := (takeNat_suffix h₃).trans hq₂
        simp only [wnReadBytes_at hq₃ hb (n := xl) (by omega)]
        cases h₄ : takeBytes xl q₃ with
        | none => exact hfail rfl
        | some x =>
          obtain ⟨exts, q₄⟩ := x
          obtain ⟨hv₄, hexts⟩ := takeBytes_eq_some.1 h₄
          refine absurd ?_ (hno ⟨cert, exts⟩ q₄ ⟨by simp only; omega, by simp only; omega⟩)
          rw [hv₁, hv₂, hv₃, hv₄, ← hcert, ← hexts]
          simp [Rfc.CertEntry.encode, vec]

end Entries

/-- The loop takes entries off the list, at most `n`, and stops early only at
its end. -/
theorem certEntries_ok {body : Bytes} (hb : body.length < 2 ^ 31) : ∀ (n : Nat) {q : Bytes} (certs : List Bytes),
    q <:+ body → ∀ r : Reader,
    (certEntries body.length n (readerAt body q) = (certs, r) ∧ r.err = false ↔
      ∃ (entries : List Rfc.CertEntry) (rest : Bytes), q = entries.flatMap Rfc.CertEntry.encode ++ rest ∧
        (∀ e ∈ entries, e.Fits) ∧ certs = entries.map (·.cert) ∧ r = readerAt body rest ∧ entries.length ≤ n ∧
        (entries.length < n → rest = []))
  | 0, q, certs, hq, r => by
    constructor
    · intro h
      obtain ⟨h, -⟩ := h
      cases h
      exact ⟨[], q, rfl, by simp, rfl, rfl, Nat.le_refl 0, fun h => by simp at h⟩
    · intro hall
      obtain ⟨entries, rest, rfl, -, rfl, rfl, hlen, -⟩ := hall
      obtain rfl := List.eq_nil_of_length_eq_zero (Nat.le_zero.1 hlen)
      exact ⟨rfl, rfl⟩
  | n + 1, q, certs, hq, r => by
    by_cases hnil : q = []
    · subst hnil
      have hstop : certEntries body.length (n + 1) (readerAt body []) = ([], readerAt body []) := by
        rw [certEntries, if_neg (by simp [readerAt_pos])]
      rw [hstop]
      constructor
      · intro hall
        obtain ⟨h, -⟩ := hall
        cases h
        exact ⟨[], [], rfl, by simp, rfl, rfl, Nat.zero_le _, fun _ => rfl⟩
      · intro hall
        obtain ⟨entries, rest, hq', -, rfl, rfl, -, -⟩ := hall
        obtain ⟨hflat, rfl⟩ := List.append_eq_nil_iff.1 hq'.symm
        cases entries with
        | nil => exact ⟨rfl, rfl⟩
        | cons e entries => simp [Rfc.CertEntry.encode, vec, be_three] at hflat
    · constructor
      · intro hall
        obtain ⟨h, herr⟩ := hall
        by_cases hsome : ∃ (e : Rfc.CertEntry) (q' : Bytes), e.Fits ∧ q = e.encode ++ q'
        · obtain ⟨e, q', he, henc⟩ := hsome
          have hq' : q' <:+ body := List.IsSuffix.trans ⟨e.encode, henc.symm⟩ hq
          rw [certEntries_entry hb hq n he henc] at h
          obtain ⟨rfl, rfl⟩ := Prod.mk.inj h
          obtain ⟨entries, rest, rfl, hfits, hcerts, hr, hlen, hrest⟩ :=
            (certEntries_ok hb n _ hq' _).1 ⟨rfl, herr⟩
          refine ⟨e :: entries, rest, by rw [henc]; simp, ?_, by rw [hcerts]; rfl, hr, by simpa using hlen,
            fun hlt => hrest (by simpa using hlt)⟩
          simpa using ⟨he, hfits⟩
        · have hfail := certEntries_none hb hq n hnil fun e q' he henc => hsome ⟨e, q', he, henc⟩
          rw [h] at hfail
          exact absurd (hfail.symm.trans herr) (by simp)
      · intro hall
        obtain ⟨entries, rest, henc, hfits, rfl, rfl, hlen, hrest⟩ := hall
        cases entries with
        | nil => exact absurd (by rw [henc, hrest (Nat.succ_pos n)]; rfl) hnil
        | cons e entries =>
          have henc' : q = e.encode ++ (entries.flatMap Rfc.CertEntry.encode ++ rest) := by rw [henc]; simp
          have hq' := List.IsSuffix.trans ⟨e.encode, henc'.symm⟩ hq
          obtain ⟨htail, herr⟩ := (certEntries_ok hb n _ hq' _).2
            ⟨entries, rest, rfl, fun e he => hfits e (List.mem_cons_of_mem _ he), rfl, rfl, by simpa using hlen,
              fun hlt => hrest (by simpa using hlt)⟩
          rw [certEntries_entry hb hq n (hfits e List.mem_cons_self) henc', htail]
          exact ⟨rfl, herr⟩

/-- A list that fills the message is what the entries are read from, -/
theorem certificateCerts_list {body list : Bytes} (hb : body.length < 2 ^ 24) (henc : body = 0 :: vec 3 list) :
    certificateCerts body = if (certEntries body.length wnMaxChain (readerAt body list)).2.err = true then
      .error .decode else .ok (certEntries body.length wnMaxChain (readerAt body list)).1 := by
  have hb' : body.length < 2 ^ 31 := by omega
  have hlist : body.length = 4 + list.length := by rw [henc]; simp; omega
  have hq : vec 3 list <:+ body := henc ▸ List.suffix_cons 0 _
  have hread : wnReadU8 (readerAt body body) = (0, readerAt body (vec 3 list)) := by
    rw [wnReadU8_at (List.suffix_refl _) hb', henc]
  have h₂ : takeBytes (0 : UInt8).toNat (vec 3 list) = some ([], vec 3 list) := takeBytes_eq_some.2 ⟨rfl, rfl⟩
  have h₃ : takeNat 3 (vec 3 list) = some (list.length, list) := takeNat_eq_some.2 ⟨rfl, by omega⟩
  have hpos : add32 (readerAt body list).pos list.length = body.length := by
    rw [readerAt_pos, add32_eq (by omega)]
    omega
  unfold certificateCerts
  simp only [wnReaderInit_eq, hread, wnReadBytes_at hq hb' (n := (0 : UInt8).toNat) (by decide), h₂,
    wnReadU24_at hq hb', h₃, hpos]
  rw [if_neg (by simp)]

/-- and without one the message is rejected. -/
theorem certificateCerts_none {body : Bytes} (hb : body.length < 2 ^ 24) (hno : ∀ list, body ≠ 0 :: vec 3 list) :
    certificateCerts body = .error .decode := by
  have hb' : body.length < 2 ^ 31 := by omega
  unfold certificateCerts
  dsimp only
  rw [wnReaderInit_eq, wnReadU8_at (List.suffix_refl _) hb']
  match hbody : body, hno with
  | [], _ =>
    simp only [wnReadBytes_fail, wnReadU24_fail, Reader.fail_err, true_or, if_true]
  | c :: q₁, hno =>
    have hq₁ : q₁ <:+ c :: q₁ := List.suffix_cons c q₁
    dsimp only
    by_cases hc : c = 0
    · subst hc
      have h₂ : takeBytes (0 : UInt8).toNat q₁ = some ([], q₁) := takeBytes_eq_some.2 ⟨rfl, rfl⟩
      simp only [wnReadBytes_at hq₁ hb' (n := (0 : UInt8).toNat) (by decide), h₂, wnReadU24_at hq₁ hb']
      cases h₃ : takeNat 3 q₁ with
      | none => simp only [Reader.fail_err, true_or, if_true]
      | some x =>
        obtain ⟨listLen, q₂⟩ := x
        obtain ⟨hv, hl⟩ := takeNat_eq_some.1 h₃
        have hle := ((takeNat_suffix h₃).trans hq₁).length_le
        have hne : listLen ≠ q₂.length := by
          rintro rfl
          exact hno q₂ (by rw [hv, vec])
        dsimp only
        rw [readerAt_pos, add32_eq (by omega), if_pos (.inr (.inr (by omega)))]
    · rw [if_pos (.inr (.inl hc))]

/-- **What the driver takes from a Certificate**: the leading entries of its
list, all of them if they are no more than `WN_MAX_CHAIN`. -/
theorem certificateCerts_ok {body : Bytes} (hb : body.length < 2 ^ 24) {certs : List Bytes} :
    certificateCerts body = .ok certs ↔ ∃ (entries : List Rfc.CertEntry) (rest : Bytes),
      body = Rfc.certificate entries rest ∧ (∀ e ∈ entries, e.Fits) ∧ certs = entries.map (·.cert) ∧
        entries.length ≤ wnMaxChain ∧ (entries.length < wnMaxChain → rest = []) := by
  have hcert : ∀ entries rest, Rfc.certificate entries rest =
      0 :: vec 3 (entries.flatMap Rfc.CertEntry.encode ++ rest) := fun entries rest => by
    rw [Rfc.certificate, vec, be_one]; rfl
  by_cases hlist : ∃ list, body = 0 :: vec 3 list
  · obtain ⟨list, henc⟩ := hlist
    have hl : list.length < 256 ^ 3 := by rw [henc] at hb; simp at hb; omega
    have hok := certEntries_ok (by omega) wnMaxChain certs
      (show list <:+ body by rw [henc]; exact (List.suffix_append _ _).trans (List.suffix_cons 0 _))
    rw [certificateCerts_list hb henc]
    generalize certEntries body.length wnMaxChain (readerAt body list) = x at hok
    obtain ⟨certs', r⟩ := x
    constructor
    · intro h
      split at h
      · cases h
      · next herr =>
        cases h
        obtain ⟨entries, rest, rfl, h₂, h₃, -, h₄⟩ := (hok r).1 ⟨rfl, by simpa using herr⟩
        exact ⟨entries, rest, by rw [henc, hcert], h₂, h₃, h₄⟩
    · intro hall
      obtain ⟨entries, rest, h₁, h₂, h₃, h₄⟩ := hall
      rw [henc, hcert, List.cons.injEq] at h₁
      have hlen := congrArg List.length h₁.2
      simp only [vec_length] at hlen
      obtain ⟨rfl, -⟩ := vec_append_inj hl (by omega) (congrArg (· ++ []) h₁.2)
      obtain ⟨hx, herr⟩ := (hok _).2 ⟨entries, rest, rfl, h₂, h₃, rfl, h₄⟩
      cases hx
      rw [if_neg (by simp)]
  · rw [certificateCerts_none hb fun list h => hlist ⟨list, h⟩]
    constructor
    · intro h; cases h
    · intro hall
      obtain ⟨entries, rest, rfl, -⟩ := hall
      exact absurd ⟨_, hcert entries rest⟩ hlist

/-! ## CertificateVerify -/

def Rfc.ascii (s : String) : Bytes := s.toList.map fun c => UInt8.ofNat c.toNat

/-- The content a server's CertificateVerify signs, over a transcript hash. -/
def Rfc.certVerifyContent (th : Bytes) : Bytes :=
  List.replicate 64 0x20 ++ Rfc.ascii "TLS 1.3, server CertificateVerify" ++ [0x00] ++ th

theorem wnBuildCvTbs_eq (th : Bytes) : wnBuildCvTbs th = Rfc.certVerifyContent th := by
  have : cvLabel = Rfc.ascii "TLS 1.3, server CertificateVerify" := by decide
  rw [wnBuildCvTbs, this, Rfc.certVerifyContent]

/-- The body of a CertificateVerify. -/
def Rfc.certVerify (scheme : Nat) (sig : Bytes) : Bytes := be 2 scheme ++ vec 2 sig

/-- **A CertificateVerify is accepted when its signature is.** -/
theorem certVerifyMessage_ok {cfg : Config} {c : CertProvider} {flags : FlightFlags} {spki body : Bytes}
    {th : Block 32} (hb : body.length < 2 ^ 24) :
    certVerifyMessage cfg c flags spki th body = .ok () ↔ flags.gotCert = true ∧
      ∃ scheme sig, scheme < 2 ^ 16 ∧ sig.length < 2 ^ 16 ∧ body = Rfc.certVerify scheme sig ∧
        cvDispatch cfg c scheme spki (Rfc.certVerifyContent th.val) sig = .ok () := by
  rw [← wnBuildCvTbs_eq]
  have hb' : body.length < 2 ^ 31 := by omega
  have hno : (∃ scheme sig, scheme < 2 ^ 16 ∧ sig.length < 2 ^ 16 ∧ body = Rfc.certVerify scheme sig ∧
      cvDispatch cfg c scheme spki (wnBuildCvTbs th.val) sig = .ok ()) →
      ∃ scheme sig, takeNat 2 body = some (scheme, vec 2 sig) ∧ takeNat 2 (vec 2 sig) = some (sig.length, sig) ∧
        cvDispatch cfg c scheme spki (wnBuildCvTbs th.val) sig = .ok () := by
    intro hall
    obtain ⟨scheme, sig, hs, hl, henc, hv⟩ := hall
    exact ⟨scheme, sig, takeNat_eq_some.2 ⟨henc, by omega⟩, takeNat_eq_some.2 ⟨rfl, by omega⟩, hv⟩
  unfold certVerifyMessage
  dsimp only
  rw [wnReaderInit_eq, wnReadU16_at (List.suffix_refl _) hb']
  cases h₁ : takeNat 2 body with
  | none =>
    dsimp only
    rw [wnReadU16_fail, if_pos (.inl rfl)]
    constructor
    · intro h; cases h
    · intro hall
      obtain ⟨-, h⟩ := hall
      obtain ⟨_, _, h₁', -⟩ := hno h
      rw [h₁] at h₁'
      cases h₁'
  | some x =>
    obtain ⟨scheme, q₁⟩ := x
    obtain ⟨hv₁, hs⟩ := takeNat_eq_some.1 h₁
    have hq₁ := takeNat_suffix h₁
    dsimp only
    rw [wnReadU16_at hq₁ hb']
    cases h₂ : takeNat 2 q₁ with
    | none =>
      dsimp only
      rw [if_pos (.inl rfl)]
      constructor
      · intro h; cases h
      · intro hall
        obtain ⟨-, h⟩ := hall
        obtain ⟨_, _, h₁', h₂', -⟩ := hno h
        rw [h₁] at h₁'
        cases h₁'
        rw [h₂] at h₂'
        cases h₂'
    | some x =>
      obtain ⟨cvLen, sig⟩ := x
      obtain ⟨hv₂, hl⟩ := takeNat_eq_some.1 h₂
      have hq₂ := (takeNat_suffix h₂).trans hq₁
      have hle := hq₂.length_le
      have hadd : add32 (readerAt body sig).pos cvLen = body.length - sig.length + cvLen := by
        rw [readerAt_pos, add32_eq (by omega)]
      have hdrop : body.drop (readerAt body sig).pos = sig := by rw [readerAt_pos, suffix_drop hq₂]
      simp only [readerAt_err, hadd, hdrop, reduceCtorEq, false_or]
      constructor
      · intro h
        split at h
        · cases h
        · next hc =>
          simp only [not_or, Bool.not_eq_false, not_not] at hc
          have hcv : cvLen = sig.length := by omega
          rw [hcv, List.take_length] at h
          exact ⟨hc.1, scheme, sig, by omega, by omega, by rw [hv₁, hv₂, hcv]; rfl, h⟩
      · intro hall
        obtain ⟨hcert, h⟩ := hall
        obtain ⟨_, sig', h₁', h₂', hv⟩ := hno h
        rw [h₁] at h₁'
        cases h₁'
        rw [h₂] at h₂'
        cases h₂'
        rw [if_neg (by simp only [hcert, reduceCtorEq, false_or]; omega), List.take_length]
        exact hv

end WolfNano

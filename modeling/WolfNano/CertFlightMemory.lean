/-
The flight loop of `wn_connect_cert_impl` in its parts of scratch: a record is
received into the I/O region and decrypted in place, its content copied behind
what is in `hsacc`.

`certFlightInto_refines` says that no check fails, whatever comes in, and that
the loop is the one of the driver's model; `flights_stay_inside` says it of
both drivers.
-/
import WolfNano.CertFlightFacts
import WolfNano.PskFlightMemory

namespace WolfNano

open Prog Wire

variable {cfg : Config} (p : Provider cfg) (c : CertProvider)

/-! ## The messages -/

/-- The entry loop of the Certificate parser: where in `hsacc` the certificates
are, and how long. -/
def certEntriesInto (accLen base listEnd : Nat) : Nat → Reader → MemIo (List (Nat × Nat) × Reader)
  | 0, r => pure ([], r)
  | n + 1, r =>
    if r.pos < listEnd ∧ r.err = false then do
      let (cl, r) ← reading accLen base 3 wnReadU24 r
      let cert := (base + r.pos, cl)
      let (_, r) ← reading accLen base cl (skipBytes cl) r
      let (extl, r) ← reading accLen base 2 wnReadU16 r
      let (_, r) ← reading accLen base extl (skipBytes extl) r
      let (certs, r) ← certEntriesInto accLen base listEnd n r
      pure (cert :: certs, r)
    else pure ([], r)

/-- The certificates of the `mLen` bytes at `hsacc + base`, as `wn_VerifyChain` reads them. -/
def certificateInto (hsacc : Bytes) (accLen base mLen : Nat) : MemIo (List Bytes) := do
  let (ctxLen, hr) ← reading accLen base 1 wnReadU8 (wnReaderInit (hsacc.drop base) mLen)
  let (_, hr) ← reading accLen base ctxLen.toNat (skipBytes ctxLen.toNat) hr
  let (listLen, hr) ← reading accLen base 3 wnReadU24 hr
  let listEnd ← add32c hr.pos listLen
  failIf (hr.err = true ∨ ctxLen ≠ 0 ∨ listEnd ≠ mLen) (.ret .decode)
  let (certs, hr) ← certEntriesInto accLen base listEnd wnMaxChain hr
  failIf (hr.err = true) (.ret .decode)
  certs.mapM fun cert => bytesAt hsacc accLen cert.1 cert.2

variable (cfg) in
/-- The CertificateVerify step. -/
def certVerifyInto (flags : FlightFlags) (leafSpki : Bytes) (thCert : Block 32) (hsacc : Bytes)
    (accLen base mLen : Nat) : MemIo Unit := do
  let (scheme, hr) ← reading accLen base 2 wnReadU16 (wnReaderInit (hsacc.drop base) mLen)
  let (cvLen, hr) ← reading accLen base 2 wnReadU16 hr
  let sigEnd ← add32c hr.pos cvLen
  failIf (hr.err = true ∨ flags.gotCert = false ∨ sigEnd ≠ mLen) (.ret .decode)
  let sig ← bytesAt hsacc accLen (base + hr.pos) cvLen
  unchecked (ofExcept (wnCertVerify cfg c scheme leafSpki thCert.val sig))

/-- The Finished step; 32 bytes are compared only if there are 32. -/
def certFinishedInto (flags : FlightFlags) (sHs th : Block 32) (hsacc : Bytes) (accLen base mLen : Nat) :
    MemIo Unit := do
  failIf (flags.gotCv = false) (.ret .unexpectedMsg)
  let mac ← unchecked (ofExcept (wnTls13FinishedMac p sHs th))
  failIf (mLen ≠ 32) (.ret .badMac)
  let recvMac ← bytesAt hsacc accLen base 32
  failIf (mac.val ≠ recvMac) (.ret .badMac)

/-! ## `wn_connect_cert_impl` -/

/-- The flight loop's variables: `io` is the region of `ioCap` bytes, `hsacc` the
whole accumulator. -/
structure CertMem where
  io : Bytes
  hsacc : Bytes
  accLen : Nat
  off : Nat
  flags : FlightFlags
  done : Bool
  tc : Transcript
  leafSpki : Bytes
  sSeq : UInt64

/-- One complete message of the flight, at `off`. -/
def certMessageInto (a : CertArgs p c) (sHs : Block 32) (st : CertMem) (mType : UInt8) (mLen : Nat) :
    MemIo CertMem := do
  let (order, flags) := wnFlightOrder mType st.flags
  match order with
  | .error e => throw (.ret e)
  | .ok () =>
    if mType = wnHsEncryptedExt then do
      checkEncExtInto st.hsacc st.accLen (st.off + 4) mLen (a.sniOffered p c)
      let tc ← transcriptInto p st.tc st.hsacc st.accLen st.off mLen
      pure { st with flags, tc }
    else if mType = wnHsCertificate then do
      let tc ← transcriptInto p st.tc st.hsacc st.accLen st.off mLen
      let certs ← certificateInto st.hsacc st.accLen (st.off + 4) mLen
      let leafSpki ← unchecked (ofExcept
        (wnVerifyChain cfg c certs a.anchor (wnLeafSpkiSz cfg) a.serverName a.pinnedKey a.now))
      pure { st with flags, tc, leafSpki }
    else if mType = wnHsCertVerify then do
      let thCert ← unchecked (ofExcept (wnTranscriptGetHash p st.tc))
      let tc ← transcriptInto p st.tc st.hsacc st.accLen st.off mLen
      certVerifyInto cfg c flags st.leafSpki thCert st.hsacc st.accLen (st.off + 4) mLen
      pure { st with flags, tc }
    else do
      let th ← unchecked (ofExcept (wnTranscriptGetHash p st.tc))
      let tc ← transcriptInto p st.tc st.hsacc st.accLen st.off mLen
      certFinishedInto p flags sHs th st.hsacc st.accLen (st.off + 4) mLen
      pure { st with flags, tc, done := true }

/-- The condition of the inner loop. -/
def certGuard (st : CertMem) : MemIo Bool := moreGuard st.hsacc.length st.accLen st.off st.done

/-- One pass of the inner loop. -/
def certPass (a : CertArgs p c) (sHs : Block 32) (st : CertMem) : MemIo (CertMem ⊕ CertMem) := do
  let (mType, mLen) ← headAt st.hsacc st.accLen st.off
  let mEnd ← add32c (← add32c st.off 4) mLen
  if mEnd > st.accLen then pure (.inr st)
  else do
    let st ← certMessageInto p c a sHs st mType mLen
    let off ← add32c st.off (← add32c 4 mLen)
    pure (.inl { st with off })

/-- The inner loop, with one pass for each four bytes not yet parsed. -/
def certMessagesInto (a : CertArgs p c) (sHs : Block 32) (st : CertMem) : MemIo CertMem :=
  whileM .spin certGuard (certPass p c a sHs) ((st.accLen - st.off) / 4) st

/-- One pass of the flight loop. -/
def certFlightPass (a : CertArgs p c) (ioCap : Nat) (keys : HsKeys) (st : CertMem) : MemIo (CertMem ⊕ CertMem) := do
  check (st.off ≤ st.accLen ∧ st.accLen ≤ st.hsacc.length) .bound
  let (rtype, record) ← unchecked (wnRecvRecord ioCap)
  let io ← storeAt st.io 0 record
  if rtype = wnRecChangeCipher then pure (.inl { st with io })
  else do
    failIf (rtype ≠ wnRecAppdata) (.ret .unexpectedMsg)
    let (ctype, plainLen, io) ← unprotectInto p keys.sKey keys.sIv st.sSeq io wnRecordHeaderSz record
    failIf (ctype ≠ wnRecHandshake) (.ret .unexpectedMsg)
    let accLen ← add32c st.accLen plainLen
    failIf (accLen > wnHsAccSz cfg) (.ret .decode)
    let content ← bytesAt io io.length wnRecordHeaderSz plainLen
    let hsacc ← storeAt st.hsacc st.accLen content
    let st ← certMessagesInto p c a keys.sHs { st with io, hsacc, accLen, sSeq := st.sSeq + 1 }
    pure (.inl st)

/-- The flight loop, with one pass for each record that can be received, and one
that finds none. `io` and `hsacc` are what is in scratch before. -/
def certFlightInto (a : CertArgs p c) (ioCap : Nat) (keys : HsKeys) (tc : Transcript) (io : Block ioCap)
    (hsacc : Block (wnHsAccSz cfg)) : MemIo CertMem := do
  let w ← get
  whileM .spin (fun st => pure (!st.done)) (certFlightPass p c a ioCap keys) (w.records ioCap + 1)
    { io := io.val, hsacc := hsacc.val, accLen := 0, off := 0
      flags := { gotEE := false, gotCert := false, gotCv := false }
      done := false, tc, leafSpki := [], sSeq := 0 }

variable {p} {c}

/-! ## Its messages -/

section Certificate

theorem err_of_certEntries {listEnd n : Nat} {r : Reader} (h : (certEntries listEnd n r).2.err = false) :
    r.err = false := by
  by_contra herr
  rw [certEntries_err _ _ (Bool.not_eq_false _ ▸ herr)] at h
  exact herr h

variable {hsacc : Bytes} {accLen base len : Nat} (hend : base + len ≤ accLen)
include hend

/-- The list is read to the same end; if there is no error, each certificate is
where it was found to be. -/
theorem certEntriesInto_eq (listEnd : Nat) (rest : Bytes) :
    ∀ (n : Nat) {r : Reader}, r.Inside accLen base → r.len = len →
    r.buf = readMem hsacc base len → ∃ certs,
      certEntriesInto accLen base listEnd n (r.over rest) = pure (certs, (certEntries listEnd n r).2.over rest) ∧
      ((certEntries listEnd n r).2.err = false →
        certs.map (fun cert => readMem hsacc cert.1 cert.2) = (certEntries listEnd n r).1 ∧
          ∀ cert ∈ certs, cert.1 + cert.2 ≤ accLen)
  | 0, r, _, _, _ => ⟨[], rfl, fun _ => ⟨rfl, nofun⟩⟩
  | n + 1, r, h, hlen, hbuf => by
    by_cases hgo : r.pos < listEnd ∧ r.err = false
    · obtain ⟨cl, r₁, hcl, h₁⟩ := h.u24
      obtain ⟨r₂, hskip₂, h₂⟩ := h₁.inside.skip (show cl < 2 ^ 31 by omega)
      obtain ⟨extl, r₃, hextl, h₃⟩ := h₂.inside.u16
      obtain ⟨r₄, hskip₄, h₄⟩ := h₃.inside.skip (show extl < 2 ^ 31 by omega)
      have hl₂ : r₂.len = len := by rw [h₂.len, h₁.len, hlen]
      obtain ⟨certs, hrun, hok⟩ := certEntriesInto_eq listEnd rest n h₄.inside (by rw [h₄.len, h₃.len, hl₂])
        (by rw [h₄.buf, h₃.buf, h₂.buf, h₁.buf, hbuf])
      rw [certEntries, if_pos hgo, certEntriesInto, if_pos (by exact hgo)]
      simp only [h₁.into, h₁.eq, h₂.into, hskip₂, h₃.into, h₃.eq, h₄.into, hskip₄, hrun, pure_bind]
      refine ⟨(base + r₁.pos, cl) :: certs, rfl, fun herr => ?_⟩
      obtain ⟨hmap, hall⟩ := hok herr
      obtain ⟨he₃, -⟩ := h₄.next (err_of_certEntries herr)
      obtain ⟨he₂, -⟩ := h₃.next he₃
      obtain ⟨-, hp₂⟩ := h₂.next he₂
      have hin : r₁.pos + cl ≤ len := by rw [← hp₂, ← hl₂]; exact h₂.inside.within.pos
      refine ⟨?_, List.forall_mem_cons.2 ⟨by show base + r₁.pos + cl ≤ accLen; omega, hall⟩⟩
      rw [List.map_cons, hmap, h₁.buf, hbuf, readMem_readMem hin]
    · rw [certEntries, if_neg hgo, certEntriesInto, if_neg (by exact hgo)]
      exact ⟨[], rfl, fun _ => ⟨rfl, nofun⟩⟩

omit hend in
/-- All that `wn_VerifyChain` is handed is within the bytes received. -/
theorem bytesAt_all : ∀ {certs : List (Nat × Nat)}, (∀ cert ∈ certs, cert.1 + cert.2 ≤ accLen) →
    (certs.mapM fun cert => bytesAt hsacc accLen cert.1 cert.2) =
      pure (certs.map fun cert => readMem hsacc cert.1 cert.2)
  | [], _ => rfl
  | cert :: certs, h => by
    obtain ⟨hcert, hcerts⟩ := List.forall_mem_cons.1 h
    rw [List.mapM_cons, bytesAt_of hcert, pure_bind, bytesAt_all hcerts, pure_bind, List.map_cons]

theorem certificateInto_refines (hbuf : accLen ≤ hsacc.length) (hlen : len < 2 ^ 24) :
    Refines Eq (certificateInto hsacc accLen base len) (ofExcept (certificateCerts (readMem hsacc base len))) := by
  have hbody : (readMem hsacc base len).length = len := readMem_length (by omega)
  obtain ⟨ctxLen, r₁, h₁⟩ := (wnReaderInit_inside hend hbuf hlen).u8
  obtain ⟨r₂, hskip, h₂⟩ := h₁.inside.skip (Nat.lt_trans ctxLen.toNat_lt (by decide))
  obtain ⟨listLen, r₃, hlist, h₃⟩ := h₂.inside.u24
  have hl₃ : r₃.len = len := by rw [h₃.len, h₂.len, h₁.len]; rfl
  have hbuf₃ : r₃.buf = readMem hsacc base len := by rw [h₃.buf, h₂.buf, h₁.buf]; rfl
  have hpos := h₃.inside.within.pos
  simp only [certificateInto, certificateCerts, wnReaderInit_over, hbody, h₁.into, h₁.eq, h₂.into, hskip, h₃.into,
    h₃.eq, pure_bind]
  rw [Reader.over_pos, add32c_of (by omega), pure_bind, add32_eq (by omega)]
  by_cases hbad : r₃.err = true ∨ ctxLen ≠ 0 ∨ r₃.pos + listLen ≠ len
  · rw [failIf_pos (by exact hbad), if_pos hbad]
    exact .throw _
  rw [failIf_neg (by exact hbad), if_neg hbad, pure_bind]
  obtain ⟨certs, hrun, hok⟩ := certEntriesInto_eq hend (r₃.pos + listLen) (hsacc.drop (base + len)) wnMaxChain h₃.inside
    hl₃ hbuf₃
  rw [hrun, pure_bind]
  generalize certEntries (r₃.pos + listLen) wnMaxChain r₃ = x at hok ⊢
  obtain ⟨found, r₄⟩ := x
  dsimp only at hok ⊢
  by_cases herr : r₄.err = true
  · rw [failIf_pos (by exact herr), if_pos herr]
    exact .throw _
  · obtain ⟨hmap, hall⟩ := hok (Bool.eq_false_iff.2 herr)
    rw [failIf_neg (by exact herr), if_neg herr, pure_bind, bytesAt_all hall, hmap]
    exact .pure rfl

theorem certVerifyInto_refines (flags : FlightFlags) (leafSpki : Bytes) (thCert : Block 32)
    (hbuf : accLen ≤ hsacc.length) (hlen : len < 2 ^ 24) :
    Refines Eq (certVerifyInto cfg c flags leafSpki thCert hsacc accLen base len)
      (ofExcept (certVerifyMessage cfg c flags leafSpki thCert (readMem hsacc base len))) := by
  have hbody : (readMem hsacc base len).length = len := readMem_length (by omega)
  obtain ⟨scheme, r₁, -, h₁⟩ := (wnReaderInit_inside hend hbuf hlen).u16
  obtain ⟨cvLen, r₂, hcv, h₂⟩ := h₁.inside.u16
  have hl₂ : r₂.len = len := by rw [h₂.len, h₁.len]; rfl
  have hpos := h₂.inside.within.pos
  simp only [certVerifyInto, certVerifyMessage, wnReaderInit_over, hbody, h₁.into, h₁.eq, h₂.into, h₂.eq, pure_bind]
  rw [Reader.over_pos, add32c_of (by omega), pure_bind, add32_eq (by omega)]
  by_cases hbad : r₂.err = true ∨ flags.gotCert = false ∨ r₂.pos + cvLen ≠ len
  · rw [failIf_pos (by exact hbad), if_pos hbad]
    exact .throw _
  · have hsig : r₂.pos + cvLen = len := by
      simp only [not_or, not_not] at hbad
      exact hbad.2.2
    rw [failIf_neg (by exact hbad), if_neg hbad, pure_bind, bytesAt_of (by omega), pure_bind,
      readMem_readMem (Nat.le_of_eq hsig)]
    exact .unchecked _

theorem certFinishedInto_refines (flags : FlightFlags) (sHs th : Block 32) (hbuf : accLen ≤ hsacc.length) :
    Refines Eq (certFinishedInto p flags sHs th hsacc accLen base len)
      (ofExcept (certFinishedMessage p flags sHs th (readMem hsacc base len))) := by
  have hbody : (readMem hsacc base len).length = len := readMem_length (by omega)
  unfold certFinishedInto certFinishedMessage
  by_cases hcv : flags.gotCv = false
  · rw [failIf_pos hcv, if_pos hcv]
    exact .throw _
  rw [failIf_neg hcv, if_neg hcv, pure_bind, hbody]
  refine .seqExcept (.unchecked _) fun mac => ?_
  by_cases h32 : len ≠ 32
  · rw [failIf_pos h32, if_pos (.inl h32)]
    exact .throw _
  · have hread : bytesAt hsacc accLen base 32 = pure (readMem hsacc base len) := by
      rw [not_not.1 h32] at hend ⊢
      exact bytesAt_of hend
    rw [failIf_neg h32, pure_bind, hread, pure_bind]
    by_cases hmac : mac.val ≠ readMem hsacc base len
    · rw [failIf_pos hmac, if_pos (.inr hmac)]
      exact .throw _
    · rw [failIf_neg hmac, if_neg (not_or.2 ⟨h32, hmac⟩)]
      exact .pure rfl

end Certificate

/-- The driver's variables, of the accumulator what has been received. -/
def CertMem.flight (st : CertMem) : CertFlight where
  hsacc := st.hsacc.take st.accLen
  off := st.off
  flags := st.flags
  done := st.done
  tc := st.tc
  leafSpki := st.leafSpki
  sSeq := st.sSeq

theorem CertMem.flight_hsacc (st : CertMem) : st.flight.hsacc = st.hsacc.take st.accLen := rfl

theorem CertMem.flight_off (st : CertMem) : st.flight.off = st.off := rfl

theorem CertMem.flight_flags (st : CertMem) : st.flight.flags = st.flags := rfl

/-- The invariant of both loops. -/
structure CertMem.Inv (ioCap : Nat) (cfg : Config) (st : CertMem) : Prop where
  ioSize : st.io.length = ioCap
  size : st.hsacc.length = wnHsAccSz cfg
  off : st.off ≤ st.accLen
  len : st.accLen ≤ wnHsAccSz cfg

/-- The same arrays, as full and as far read. -/
structure CertMem.Same (st st' : CertMem) : Prop where
  io : st'.io = st.io
  hsacc : st'.hsacc = st.hsacc
  accLen : st'.accLen = st.accLen
  off : st'.off = st.off

variable {ioCap : Nat}

theorem certMessageInto_refines (a : CertArgs p c) (sHs : Block 32) {st : CertMem} (hinv : st.Inv ioCap cfg)
    {mLen : Nat} (hend : st.off + 4 + mLen ≤ st.accLen) (hlen : mLen < 2 ^ 24) {mEnd : Nat} :
    Refines (fun st' fl => st.Same st' ∧ { st'.flight with off := mEnd } = fl)
      (certMessageInto p c a sHs st (st.hsacc.getD st.off 0) mLen)
      (ofExcept (certMessage p c a sHs { st.flight with off := mEnd } (readMem st.hsacc st.off (4 + mLen)))) := by
  have hsize := hinv.size
  have hroom := hinv.len
  have hbuf : st.accLen ≤ st.hsacc.length := by omega
  unfold certMessageInto certMessage
  dsimp only
  rw [readMem_type, readMem_body, st.flight_flags]
  rcases wnFlightOrder (st.hsacc.getD st.off 0) st.flags with ⟨e | ⟨⟨⟩⟩, flags⟩
  · exact .throw e
  dsimp only
  have htranscript : Refines Eq (transcriptInto p st.tc st.hsacc st.accLen st.off mLen) _ :=
    transcriptInto_refines st.tc hend hlen
  split
  · refine .seqExcept (checkEncExtInto_refines hend hbuf hlen) fun _ => .seqExcept htranscript fun tc => ?_
    exact .pure ⟨⟨rfl, rfl, rfl, rfl⟩, rfl⟩
  split
  · refine .seqExcept htranscript fun tc => ?_
    refine .seqExcept (certificateInto_refines hend hbuf hlen) fun certs => ?_
    refine .seqExcept (.unchecked _) fun leafSpki => ?_
    exact .pure ⟨⟨rfl, rfl, rfl, rfl⟩, rfl⟩
  split
  · refine .seqExcept (.unchecked _) fun thCert => .seqExcept htranscript fun tc => ?_
    refine .seqExcept (certVerifyInto_refines hend flags st.leafSpki thCert hbuf hlen) fun _ => ?_
    exact .pure ⟨⟨rfl, rfl, rfl, rfl⟩, rfl⟩
  · refine .seqExcept (.unchecked _) fun th => .seqExcept htranscript fun tc => ?_
    refine .seqExcept (certFinishedInto_refines hend flags sHs th hbuf) fun _ => ?_
    exact .pure ⟨⟨rfl, rfl, rfl, rfl⟩, rfl⟩

/-! ## Its loops -/

/-- What both loops keep, of the arrays and of the driver's variables. -/
structure CertMem.Holds (ioCap : Nat) (cfg : Config) (st : CertMem) (fl : CertFlight) : Prop where
  inv : st.Inv ioCap cfg
  flight : st.flight = fl

theorem CertMem.Inv.received {st : CertMem} (h : st.Inv ioCap cfg) : st.flight.hsacc.length = st.accLen := by
  have hsize := h.size
  have hlen := h.len
  rw [CertMem.flight_hsacc, List.length_take]
  omega

/-- The bytes not yet parsed, by fours. -/
def CertMem.left (st : CertMem) : Nat := (st.accLen - st.off) / 4

theorem wnHsAccSz_le (cfg : Config) : wnHsAccSz cfg ≤ 10240 := by
  unfold wnHsAccSz
  split <;> decide

theorem certGuard_eq {st : CertMem} (h : st.Inv ioCap cfg) :
    certGuard st = pure (decide (st.done = false ∧ st.accLen - st.off ≥ 4)) :=
  moreGuard_of h.off (by rw [h.size]; exact h.len) st.done

/-- A pass of the inner loop is a turn of the model's. -/
theorem certPass_refines (a : CertArgs p c) (sHs : Block 32) {st : CertMem} (h : st.Inv ioCap cfg) {m : Nat}
    (hgo : st.done = false ∧ st.accLen - st.off ≥ 4) {next : CertMem → MemIo CertMem}
    (hnext : ∀ st' fl', st'.Holds ioCap cfg fl' → st'.left < st.left →
      Refines (CertMem.Holds ioCap cfg) (next st') (ofExcept (certMessages p c a sHs m fl'))) :
    Refines (CertMem.Holds ioCap cfg) (certPass p c a sHs st >>= onward next)
      (ofExcept (certMessages p c a sHs (m + 1) st.flight)) := by
  have hsize := h.size
  have hlen := h.len
  have hacc := wnHsAccSz_le cfg
  have hmLen := msgLenAt_lt st.hsacc st.off
  have hhead : msgLenAt st.flight.hsacc st.off = msgLenAt st.hsacc st.off := msgLenAt_take (by omega)
  rw [certMessages, h.received, st.flight_off, if_pos (by exact hgo), hhead]
  unfold certPass
  rw [headAt_of (by omega), pure_bind]
  dsimp only
  rw [add32c_of (by omega), pure_bind, add32c_of (by omega), pure_bind]
  by_cases hpart : st.off + 4 + msgLenAt st.hsacc st.off > st.accLen
  · rw [if_pos hpart, if_pos hpart]
    exact .pure ⟨h, rfl⟩
  rw [if_neg hpart, if_neg hpart, bind_assoc, ofExcept_bind]
  have hmsg : (st.flight.hsacc.drop st.off).take (4 + msgLenAt st.hsacc st.off) =
      readMem st.hsacc st.off (4 + msgLenAt st.hsacc st.off) := readMem_take (by omega)
  rw [hmsg]
  refine .bind (certMessageInto_refines a sHs h (by omega) hmLen) fun st' fl' hst => ?_
  obtain ⟨hsame, rfl⟩ := hst
  have hoff : st'.off = st.off := hsame.off
  have hlen' : st'.accLen = st.accLen := hsame.accLen
  rw [add32c_of (by omega), pure_bind, add32c_of (by omega), pure_bind, hoff, ← Nat.add_assoc]
  refine hnext _ _ ⟨⟨?_, ?_, ?_, ?_⟩, rfl⟩ ?_
  · rw [← h.ioSize]
    exact congrArg List.length hsame.io
  · rw [← h.size]
    exact congrArg List.length hsame.hsacc
  · show st.off + 4 + _ ≤ st'.accLen
    omega
  · show st'.accLen ≤ _
    omega
  · show (st'.accLen - (st.off + 4 + _)) / 4 < (st.accLen - st.off) / 4
    omega

/-- **The inner loop**: the passes there are bytes for are enough. -/
theorem certMessagesInto_refines (a : CertArgs p c) (sHs : Block 32) {st : CertMem} {fl : CertFlight}
    (h : st.Holds ioCap cfg fl) {m : Nat} (hm : st.accLen ≤ m) :
    Refines (CertMem.Holds ioCap cfg) (certMessagesInto p c a sHs st) (ofExcept (certMessages p c a sHs m fl)) := by
  refine .whileM_fuel (fun st => decide (st.done = false ∧ st.accLen - st.off ≥ 4)) CertMem.left
    (I := CertMem.Holds ioCap cfg) (f := fun m fl => ofExcept (certMessages p c a sHs m fl))
    (fun _ _ hi => certGuard_eq hi.inv) ?_ ?_ ?_ _ _ _ _ h (Nat.le_refl _) (by unfold CertMem.left; omega)
  · intro b _ _ hgo
    have := (of_decide_eq_true hgo).2
    unfold CertMem.left
    omega
  · rintro b _ m ⟨hinv, rfl⟩ hgo
    have hstop : certMessages p c a sHs m b.flight = .ok b.flight := by
      cases m with
      | zero => rfl
      | succ m => rw [certMessages, hinv.received, if_neg (by exact of_decide_eq_false hgo)]
    rw [hstop]
    exact .pure ⟨hinv, rfl⟩
  · rintro b _ m next ⟨hinv, rfl⟩ hgo hnext
    exact certPass_refines a sHs hinv (of_decide_eq_true hgo) hnext

/-- Content that has landed in the I/O region goes behind what is in `hsacc`. -/
theorem CertMem.Inv.landed {st : CertMem} (h : st.Inv ioCap cfg) {io io' : Bytes} (hio : io.length = ioCap)
    {ctype : UInt8} {plainLen dst innerLen : Nat} {y : UInt8 × Bytes}
    (hx : Landed io dst innerLen (ctype, plainLen, io') y)
    (hfits : st.accLen + plainLen ≤ wnHsAccSz cfg) :
    ({ st with io := io', hsacc := patch st.hsacc st.accLen y.2, accLen := st.accLen + plainLen
               sSeq := st.sSeq + 1 } : CertMem).Holds ioCap cfg
      { st.flight with hsacc := st.flight.hsacc ++ y.2, sSeq := st.flight.sSeq + 1 } := by
  have hsize := h.size
  have hlen := h.len
  have hcount : plainLen = y.2.length := hx.len
  have hbuf : st.accLen + y.2.length ≤ st.hsacc.length := by omega
  have hhsacc : (patch st.hsacc st.accLen y.2).take (st.accLen + plainLen) = st.hsacc.take st.accLen ++ y.2 := by
    rw [patch, List.take_left' (by rw [List.length_append, List.length_take]; omega)]
  refine ⟨⟨hx.size.trans hio, (patch_length hbuf).trans hsize, Nat.le_add_right_of_le h.off, hfits⟩, ?_⟩
  exact congrArg (fun hsacc => ({ st.flight with hsacc, sSeq := st.sSeq + 1 } : CertFlight)) hhsacc

/-- What holds as long as the loop goes on, and when it ends. -/
def CertMem.Going (ioCap : Nat) (cfg : Config) (st : CertMem) (fl : CertFlight) : Prop :=
  st.Holds ioCap cfg fl ∧ st.done = false

def CertMem.Ended (ioCap : Nat) (cfg : Config) (st : CertMem) (fl : CertFlight) : Prop :=
  st.Holds ioCap cfg fl ∧ st.done = true

theorem certFlightPass_refines (a : CertArgs p c) (keys : HsKeys) {st : CertMem} {fl : CertFlight}
    (h : st.Going ioCap cfg fl) : Refines (Turn (CertMem.Going ioCap cfg) (CertMem.Ended ioCap cfg))
      (certFlightPass p c a ioCap keys st) (certFlightStep p c a ioCap keys fl) := by
  obtain ⟨⟨hinv, rfl⟩, hdone⟩ := h
  have hsize := hinv.size
  have hlen := hinv.len
  have hio := hinv.ioSize
  have hacc := wnHsAccSz_le cfg
  unfold certFlightPass certFlightStep
  rw [check_of ⟨hinv.off, by omega⟩, pure_bind]
  refine .bind (Refines.outcome (.unchecked _)) fun x _ hx => ?_
  obtain ⟨rfl, w, w', hrecv⟩ := hx
  obtain ⟨rtype, record⟩ := x
  obtain ⟨v₁, v₂, body, hrec, hcheck, -, -⟩ := wnRecvRecord_ok hrecv
  obtain ⟨hbody, hcap, hmax, -⟩ := recordCheck_ok.1 hcheck
  have hpos := List.length_pos_of_ne_nil hbody
  have hplain : wnMaxPlaintext = 16384 := rfl
  have hrecord : record.length = body.length + 5 := by
    rw [hrec, wireRecord_length]
    omega
  dsimp only
  rw [storeAt_of (by omega), pure_bind]
  have hstored : (patch st.io 0 record).length = ioCap := (patch_length (by omega)).trans hio
  by_cases hccs : rtype = wnRecChangeCipher
  · rw [if_pos hccs, if_pos hccs]
    exact .pure ⟨⟨⟨hstored, hsize, hinv.off, hlen⟩, rfl⟩, hdone⟩
  rw [if_neg hccs, if_neg hccs]
  refine .bind (.failIf _ _) fun _ _ _ => ?_
  have hhdr : wnRecordHeaderSz = 5 := rfl
  refine .bind (unprotectInto_refines (by omega)) fun x y hx => ?_
  obtain ⟨ctype, plainLen, io⟩ := x
  obtain ⟨ctype', content⟩ := y
  have htype : ctype = ctype' := hx.type
  subst htype
  have hcount : plainLen = content.length := hx.len
  have hland : io.length = (patch st.io 0 record).length := hx.size
  have hshort : content.length < record.length - 21 := hx.short
  dsimp only
  refine .bind (.failIf _ _) fun _ _ _ => ?_
  rw [add32c_of (by omega), pure_bind, hinv.received, hcount]
  by_cases hbig : st.accLen + content.length > wnHsAccSz cfg
  · rw [failIf_pos hbig, failIf_pos hbig]
    exact .throw _
  have hread : readMem io wnRecordHeaderSz content.length = content := hx.content
  rw [failIf_neg hbig, failIf_neg hbig, pure_bind, pure_bind, bytesAt_of (by omega), pure_bind, hread,
    storeAt_of (by omega), pure_bind]
  have hlanded := hinv.landed hstored hx (by omega)
  have hgot := hlanded.inv.received
  rw [hlanded.flight] at hgot
  rw [← hcount]
  refine .bind (certMessagesInto_refines a keys.sHs hlanded (Nat.le_of_eq hgot.symm)) fun st' fl' hst => ?_
  have hdone' : fl'.done = st'.done := by rw [← hst.flight]; rfl
  exact Turn.of_done hst CertMem.done hdone'

/-- **The certificate driver's flight**: no check fails, and what is read is
what the driver's model reads. -/
theorem certFlightInto_refines (a : CertArgs p c) (keys : HsKeys) (tc : Transcript) (io : Block ioCap)
    (hsacc : Block (wnHsAccSz cfg)) :
    Refines (CertMem.Ended ioCap cfg) (certFlightInto p c a ioCap keys tc io hsacc)
      (certFlight p c a ioCap keys tc) := by
  intro w
  have hdown : ∀ fl x w w', certFlightStep p c a ioCap keys fl w = .ok x w' →
      w'.records ioCap < w.records ioCap ∧ w'.pending < w.pending := by
    intro fl x w w' hstep
    rw [certFlightStep_eq] at hstep
    exact flightTurn_down hstep
  refine Refines.whileM (I := CertMem.Going ioCap cfg) (World.records ioCap) World.pending ?_ ?_
    (fun _ _ hi => certFlightPass_refines a keys hi) hdown _ _ _ _ w
    ⟨⟨⟨io.property, hsacc.property, Nat.le_refl 0, Nat.zero_le _⟩, rfl⟩, rfl⟩ (Nat.lt_succ_self _) (Nat.lt_succ_self _)
  · intro st fl hi
    rw [hi.2]
    rfl
  · intro st fl hi
    rw [hi.2]
    rfl

/-- **Both flights stay inside their buffers and end**, whatever comes in,
whatever it decrypts to, and whatever the arrays held: no check of an access, a
sum, a write or a loop fails, and the drivers' models are what the loops do. -/
theorem flights_stay_inside (keys : HsKeys) (tc : Transcript) (w : World) :
    (∀ (cap : Nat) (plain : Block wnPlainSz),
      (∀ f w', pskFlightInto p cap keys tc plain w ≠ .error (.fault f) w') ∧
        RefinesAt PskMem.Ended (pskFlightInto p cap keys tc plain w) (pskFlight p cap keys tc w)) ∧
    ∀ (a : CertArgs p c) (ioCap : Nat) (io : Block ioCap) (hsacc : Block (wnHsAccSz cfg)),
      (∀ f w', certFlightInto p c a ioCap keys tc io hsacc w ≠ .error (.fault f) w') ∧
        RefinesAt (CertMem.Ended ioCap cfg) (certFlightInto p c a ioCap keys tc io hsacc w)
          (certFlight p c a ioCap keys tc w) := by
  refine ⟨fun cap plain => ?_, fun a ioCap io hsacc => ?_⟩
  · have h := pskFlightInto_refines (p := p) cap keys tc plain
    exact ⟨h.no_fault w, h w⟩
  · have h := certFlightInto_refines a keys tc io hsacc
    exact ⟨h.no_fault w, h w⟩

end WolfNano

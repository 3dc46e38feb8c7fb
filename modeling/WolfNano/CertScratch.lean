/-
`wn_connect_cert_impl` with its scratch as one array.

From the ServerHello on, all that is kept in scratch is read from there: records
in the I/O region, the flight in `hsacc`, the leaf's key in `leafSpki`. Beside
the checks of the writes there are two of what is read: a message that is hashed
and parsed is the one that was decrypted, and the key that checks a
CertificateVerify is the one that was extracted.

`cert_scratch_apart` says that none of them fails, whatever comes in, and that
the driver does what its model does with byte strings of their own.
-/
import WolfNano.ChainFacts
import WolfNano.ScratchRecord

namespace WolfNano

open Prog Wire

variable {cfg : Config} (p : Provider cfg) (c : CertProvider)

/-! ## ServerHello -/

variable (cfg) in
/-- One turn of the loop that skips ChangeCipherSpec records. -/
def skipCcsScratch (scratchLen : Nat) (mem : Bytes) : ScratchIo (Bytes ⊕ (UInt8 × Nat × Bytes)) := do
  let (rtype, recLen, mem) ← recvRecordScratch cfg scratchLen mem
  pure (if rtype = wnRecChangeCipher then .inl mem else .inr (rtype, recLen, mem))

/-- Read the ServerHello: the transcript through it, the ECDHE secret, and
scratch after. -/
def serverHelloScratch (scratchLen : Nat) (priv : p.Priv) (sid : Block 32) (tc : Transcript) (mem : Bytes) :
    ScratchIo (Transcript × Block cfg.group.secretSz × Bytes) := do
  let (rtype, recLen, mem) ← repeatM (.ret .crypto) (skipCcsScratch cfg scratchLen) ((← get).pending + 1) mem
  failIf (rtype ≠ wnRecHandshake) (.ret .unexpectedMsg)
  let msg ← access (do bytesAt mem (ioCapOf cfg scratchLen) 5 (← sub32c recLen 5))
  let sh ← unchecked (ofExcept (wnServerHelloParse msg))
  failIf (sh.isHelloRetry = true) (.ret .unsupported)
  let tc ← unchecked (ofExcept (wnTranscriptUpdate p tc msg))
  failIf (sh.Unacceptable cfg sid (-1)) (.ret .illegalParam)
  let ecdhe ← unchecked (ofExcept (p.keyShareShared priv (sh.keyShare.getD [])))
  pure (tc, ecdhe, mem)

/-! ## The server's flight -/

/-- The flight loop's variables. The last two are not the program's: all that has
been decrypted, and the key that was extracted. -/
structure ScratchFlight where
  mem : Bytes
  accLen : Nat
  off : Nat
  flags : FlightFlags
  done : Bool
  tc : Transcript
  spkiLen : Nat
  sSeq : UInt64
  decrypted : Bytes
  leafKey : Bytes

variable (cfg) in
/-- The `n` bytes at `hsacc + off` are those that were decrypted. -/
def ScratchFlight.check (scratchLen : Nat) (st : ScratchFlight) (n : Nat) : ScratchIo Unit :=
  Prog.check (readMem st.mem (ioCapOf cfg scratchLen + st.off) n = readMem st.decrypted st.off n) .stale

/-- `wn_VerifyChain` of the certificates in the message of `mLen` bytes at `off`:
the leaf's key, and scratch with the key copied to `leafSpki`. -/
def verifyChainScratch (a : CertArgs p c) (st : ScratchFlight) (mLen : Nat) : List Bytes → ScratchIo (Bytes × Bytes)
  | [] => throw (.ret .invalidArg)
  | leaf :: certs => do
    unchecked (ofExcept (checkIssuers cfg c a.anchor a.now (leaf :: certs)))
    match c.parseCert leaf with
    | none => throw (.ret .badCert)
    | some cert => do
      failIf (cert.publicKey.length > wnLeafSpkiSz cfg) (.ret .crypto)
      let mem ← storeIn cfg a.io.scratchLen .leafSpki st.mem (leafSpkiAt cfg a.io.scratchLen) cert.publicKey
      -- The rest of the leaf's checks come behind the copy, and read the message again.
      { st with mem }.check cfg a.io.scratchLen (4 + mLen)
      let leafKey ← unchecked (ofExcept (checkLeaf cfg c (wnLeafSpkiSz cfg) a.serverName a.pinnedKey a.now leaf))
      pure (leafKey, mem)

/-- One complete message of the flight, at `off`. -/
def certMessageScratch (a : CertArgs p c) (sHs : Block 32) (st : ScratchFlight) (mType : UInt8) (mLen : Nat) :
    ScratchIo ScratchFlight := do
  let accEnd := ioCapOf cfg a.io.scratchLen + st.accLen
  let msg := ioCapOf cfg a.io.scratchLen + st.off
  let (order, flags) := wnFlightOrder mType st.flags
  match order with
  | .error e => throw (.ret e)
  | .ok () =>
    if mType = wnHsEncryptedExt then do
      access (checkEncExtInto st.mem accEnd (msg + 4) mLen (a.sniOffered p c))
      let tc ← access (transcriptInto p st.tc st.mem accEnd msg mLen)
      pure { st with flags, tc }
    else if mType = wnHsCertificate then do
      let tc ← access (transcriptInto p st.tc st.mem accEnd msg mLen)
      let certs ← access (certificateInto st.mem accEnd (msg + 4) mLen)
      let (leafKey, mem) ← verifyChainScratch p c a st mLen certs
      pure { st with flags, tc, mem, spkiLen := leafKey.length, leafKey }
    else if mType = wnHsCertVerify then do
      let thCert ← unchecked (ofExcept (wnTranscriptGetHash p st.tc))
      let tc ← access (transcriptInto p st.tc st.mem accEnd msg mLen)
      let leafSpki ← access (bytesAt st.mem a.io.scratchLen (leafSpkiAt cfg a.io.scratchLen) st.spkiLen)
      check (leafSpki = st.leafKey) .stale
      access (certVerifyInto cfg c flags leafSpki thCert st.mem accEnd (msg + 4) mLen)
      pure { st with flags, tc }
    else do
      let th ← unchecked (ofExcept (wnTranscriptGetHash p st.tc))
      let tc ← access (transcriptInto p st.tc st.mem accEnd msg mLen)
      access (certFinishedInto p flags sHs th st.mem accEnd (msg + 4) mLen)
      pure { st with flags, tc, done := true }

/-- Parse the complete messages there are. -/
def certMessagesScratch (a : CertArgs p c) (sHs : Block 32) : Nat → ScratchFlight → ScratchIo ScratchFlight
  | 0, st => pure st
  | n + 1, st => do
    let hsacc := ioCapOf cfg a.io.scratchLen
    if ← access (moreGuard (wnHsAccSz cfg) st.accLen st.off st.done) then do
      let (mType, mLen) ← access (headAt st.mem (hsacc + st.accLen) (hsacc + st.off))
      let mEnd ← access (do add32c (← add32c st.off 4) mLen)
      if mEnd > st.accLen then pure st
      else do
        st.check cfg a.io.scratchLen (4 + mLen)
        let st ← certMessageScratch p c a sHs st mType mLen
        let off ← access (do add32c st.off (← add32c 4 mLen))
        certMessagesScratch a sHs n { st with off }
    else pure st

/-- One turn of the flight loop. -/
def certFlightScratchStep (a : CertArgs p c) (keys : HsKeys) (st : ScratchFlight) :
    ScratchIo (ScratchFlight ⊕ ScratchFlight) := do
  let (rtype, recLen, mem) ← recvRecordScratch cfg a.io.scratchLen st.mem
  if rtype = wnRecChangeCipher then pure (.inl { st with mem })
  else do
    failIf (rtype ≠ wnRecAppdata) (.ret .unexpectedMsg)
    let (ctype, plainLen, mem) ← unprotectScratch p a.io.scratchLen keys.sKey keys.sIv st.sSeq mem recLen
    failIf (ctype ≠ wnRecHandshake) (.ret .unexpectedMsg)
    let accLen ← access (add32c st.accLen plainLen)
    failIf (accLen > wnHsAccSz cfg) (.ret .decode)
    let content ← access (bytesAt mem (ioCapOf cfg a.io.scratchLen) wnRecordHeaderSz plainLen)
    let mem ← storeIn cfg a.io.scratchLen .hsacc mem (ioCapOf cfg a.io.scratchLen + st.accLen) content
    let st ← certMessagesScratch p c a keys.sHs accLen
      { st with mem, accLen, sSeq := st.sSeq + 1, decrypted := st.decrypted ++ content }
    pure (if st.done then .inr st else .inl st)

def certFlightScratch (a : CertArgs p c) (keys : HsKeys) (tc : Transcript) (mem : Bytes) : ScratchIo ScratchFlight := do
  repeatM (.ret .crypto) (certFlightScratchStep p c a keys) ((← get).pending + 1)
    { mem, accLen := 0, off := 0, flags := { gotEE := false, gotCert := false, gotCv := false }
      done := false, tc, spkiLen := 0, sSeq := 0, decrypted := [], leafKey := [] }

/-- The flight, and the client's Finished MAC over it. -/
def certFlightMacScratch (a : CertArgs p c) (keys : HsKeys) (tc : Transcript) (mem : Bytes) :
    ScratchIo (ScratchFlight × Block 32 × Block 32) := do
  let flight ← certFlightScratch p c a keys tc mem
  let th ← unchecked (ofExcept (wnTranscriptGetHash p flight.tc))
  let mac ← unchecked (ofExcept (wnTls13FinishedMac p keys.cHs th))
  pure (flight, th, mac)

/-! ## Client Finished -/

/-- Seal the client Finished in scratch and send it, then fill the session:
scratch after. -/
def sendFinishedScratch (keys : HsKeys) (mac th emptyHash : Block 32) (junk : Junk) (io : Transport) (mem : Bytes) :
    ScratchIo Bytes := do
  let (recLen, mem) ← protectScratch p io.scratchLen keys.cKey keys.cIv 0 wnRecHandshake (finishedMsg mac) mem
  let sent ← unchecked (ioSend (readMem mem 0 recLen))
  failIf (sent = false) (.ret .crypto)
  unchecked (wnSessionEstablish p junk keys.hs emptyHash th io)
  pure mem

/-- A failure is also sent to the server; a fault is none. -/
def alertingScratch {α : Type} (keys : HsKeys) (seq : UInt64) (x : ScratchIo α) : ScratchIo α :=
  if cfg.sendAlerts then
    tryCatch x (fun
      | .fault f => throw (.fault f)
      | .ret e => do
        unchecked (wnSendAlert p keys seq e)
        throw (.ret e))
  else x

/-! ## `wn_connect_cert_impl` -/

/-- The driver; `mem` is what scratch holds once the ClientHello is sent. -/
def wnConnectCertScratch (a : CertArgs p c) (mem : Bytes) : ScratchIo Unit := do
  failIf (a.Rejected p c) (.ret .invalidArg)
  unchecked (setSess .zero)
  let hello ← unchecked (certClientHello p c a)
  let (tc, ecdhe, mem) ← serverHelloScratch p a.io.scratchLen hello.priv hello.sid hello.tc mem
  let th ← unchecked (ofExcept (wnTranscriptGetHash p tc))
  let early ← unchecked (ofExcept (wnTls13Extract p [] (Block.zero 32).val))
  let keys ← unchecked (ofExcept (wnDeriveHsKeys p early ecdhe.val hello.emptyHash th))
  let (flight, th, mac) ← alertingScratch p keys 0 (certFlightMacScratch p c a keys tc mem)
  let mem ← alertingScratch p keys 1 (sendFinishedScratch p keys mac th hello.emptyHash a.junk a.io flight.mem)
  let hsacc := ioCapOf cfg a.io.scratchLen
  unchecked (emit (.readKeys (readMem mem (hsacc + flight.off) (flight.accLen - flight.off))))

variable {p} {c}

/-! ## The ServerHello is read from scratch -/

section ServerHello

variable {scratchLen : Nat} (hmin : wnCertScratchMin cfg ≤ scratchLen)
include hmin

theorem skipCcsScratch_refines {mem : Bytes} (hsize : mem.length = scratchLen) :
    Refines (Sum.LiftRel (fun mem' _ => mem'.length = scratchLen)
        fun x y => ∃ mem, mem.length = scratchLen ∧ Received (ioCapOf cfg scratchLen) mem x y)
      (skipCcsScratch cfg scratchLen mem) (skipCcsStep (ioCapOf cfg scratchLen) ()) := by
  unfold skipCcsScratch skipCcsStep
  refine .bind (recvRecordScratch_refines hmin mem) fun x y hx => ?_
  obtain ⟨rtype, recLen, mem'⟩ := x
  obtain ⟨rtype', record⟩ := y
  have htype : rtype = rtype' := hx.type
  subst htype
  have hkept := (hx.kept hmin hsize).1.size
  dsimp only
  split
  · exact .pure (.inl (hkept.trans hsize))
  · exact .pure (.inr ⟨mem, hsize, hx⟩)

theorem serverHelloScratch_refines (priv : p.Priv) (sid : Block 32) (tc : Transcript) {mem : Bytes}
    (hsize : mem.length = scratchLen) :
    Refines (fun x y => x.1 = y.1 ∧ x.2.1 = y.2 ∧ x.2.2.length = scratchLen)
      (serverHelloScratch p scratchLen priv sid tc mem)
      (recvServerHello p (ioCapOf cfg scratchLen) priv sid (-1) tc) := by
  unfold serverHelloScratch recvServerHello recvSkippingCcs
  rw [bind_assoc]
  refine .seq .get fun w => .bind (.turns (fun _ _ h => skipCcsScratch_refines hmin h) _ hsize) fun x y hxy => ?_
  obtain ⟨mem₀, hsize₀, hx⟩ := hxy
  obtain ⟨rtype, recLen, mem⟩ := x
  obtain ⟨rtype', record⟩ := y
  have htype : rtype = rtype' := hx.type
  have hlen : recLen = record.length := hx.len
  have hheader : 5 ≤ record.length := hx.header
  have hfits : record.length ≤ ioCapOf cfg scratchLen := hx.fits
  have hkept := hx.kept hmin hsize₀
  have hread : readMem mem 0 recLen = record := hkept.2
  have hmsg : readMem mem 5 (recLen - 5) = record.drop 5 := by
    rw [← hread, drop_readMem, Nat.zero_add]
  subst htype
  dsimp only
  refine .bind (.failIf _ _) fun _ _ _ => ?_
  rw [sub32c_of (by omega), pure_bind, bytesAt_of (by omega), access_pure, pure_bind, hmsg]
  refine .seq (.unchecked _) fun sh => .bind (.failIf _ _) fun _ _ _ => .seq (.unchecked _) fun tc => ?_
  refine .bind (.failIf _ _) fun _ _ _ => .seq (.unchecked _) fun ecdhe => ?_
  exact .pure ⟨rfl, rfl, hkept.1.size.trans hsize₀⟩

end ServerHello

/-! ## The flight is read from scratch -/

/-- The variables of the driver's model. -/
def ScratchFlight.flight (st : ScratchFlight) : CertFlight where
  hsacc := st.decrypted
  off := st.off
  flags := st.flags
  done := st.done
  tc := st.tc
  leafSpki := st.leafKey
  sSeq := st.sSeq

theorem ScratchFlight.flight_hsacc (st : ScratchFlight) : st.flight.hsacc = st.decrypted := rfl

theorem ScratchFlight.flight_off (st : ScratchFlight) : st.flight.off = st.off := rfl

theorem ScratchFlight.flight_flags (st : ScratchFlight) : st.flight.flags = st.flags := rfl

/-- What both loops keep: what has been decrypted is in `hsacc`, and the key that
was extracted is in `leafSpki`. -/
structure ScratchFlight.Inv (cfg : Config) (scratchLen : Nat) (st : ScratchFlight) : Prop where
  size : st.mem.length = scratchLen
  off : st.off ≤ st.accLen
  len : st.accLen ≤ wnHsAccSz cfg
  spkiLen : st.spkiLen ≤ wnLeafSpkiSz cfg
  decrypted : readMem st.mem (ioCapOf cfg scratchLen) st.accLen = st.decrypted
  leafKey : readMem st.mem (leafSpkiAt cfg scratchLen) st.spkiLen = st.leafKey

section Flight

variable {scratchLen : Nat} (hmin : wnCertScratchMin cfg ≤ scratchLen)

theorem ScratchFlight.check_of {st : ScratchFlight}
    (h : readMem st.mem (ioCapOf cfg scratchLen) st.accLen = st.decrypted) {n : Nat} (hend : st.off + n ≤ st.accLen) :
    st.check cfg scratchLen n = pure () := by
  refine Prog.check_of ?_ _
  rw [← h]
  exact (readMem_readMem hend).symm

/-- The accumulator's bytes are `hsacc`'s. -/
theorem ScratchFlight.Inv.accHolds {st : ScratchFlight} (h : st.Inv cfg scratchLen) :
    Region.hsacc.Holds cfg scratchLen (ioCapOf cfg scratchLen) st.accLen :=
  ⟨Nat.le_refl _, Nat.add_le_add_left h.len _⟩

include hmin

theorem spkiHolds {n : Nat} (hn : n ≤ wnLeafSpkiSz cfg) :
    Region.leafSpki.Holds cfg scratchLen (leafSpkiAt cfg scratchLen) n := by
  have hadd := ioCapOf_add hmin
  rw [leafSpkiAt_eq hmin]
  exact ⟨Nat.le_refl _, by show _ ≤ scratchLen; omega⟩

/-- What is written in the I/O region alone is kept. -/
theorem ScratchFlight.Inv.io {st : ScratchFlight} (h : st.Inv cfg scratchLen) {mem : Bytes}
    (hkept : Region.io.Kept cfg scratchLen st.mem mem) : ({ st with mem } : ScratchFlight).Inv cfg scratchLen where
  size := hkept.size.trans h.size
  off := h.off
  len := h.len
  spkiLen := h.spkiLen
  decrypted := (hkept.elsewhere (by decide) h.accHolds).trans h.decrypted
  leafKey := (hkept.elsewhere (by decide) (spkiHolds hmin h.spkiLen)).trans h.leafKey

/-- Content that was decrypted goes behind what is in `hsacc`. -/
theorem ScratchFlight.Inv.append {st : ScratchFlight} (h : st.Inv cfg scratchLen) {content : Bytes}
    (hfits : st.accLen + content.length ≤ wnHsAccSz cfg) (sSeq : UInt64) :
    ({ st with
        mem := patch st.mem (ioCapOf cfg scratchLen + st.accLen) content
        accLen := st.accLen + content.length, sSeq
        decrypted := st.decrypted ++ content } : ScratchFlight).Inv cfg scratchLen := by
  have hadd := ioCapOf_add hmin
  have hsize := h.size
  have hkept := Region.Kept.patch hmin h.size (Region.holds_hsacc hfits)
  refine ⟨hkept.size.trans h.size, Nat.le_add_right_of_le h.off, hfits, h.spkiLen, ?_,
    (hkept.elsewhere (by decide) (spkiHolds hmin h.spkiLen)).trans h.leafKey⟩
  -- The bytes before are as they were, the ones behind are those stored.
  have hold : readMem (patch st.mem (ioCapOf cfg scratchLen + st.accLen) content) (ioCapOf cfg scratchLen) st.accLen =
      st.decrypted := (readMem_patch_apart (by omega) (.inl (Nat.le_refl _))).trans h.decrypted
  have hnew : readMem (patch st.mem (ioCapOf cfg scratchLen + st.accLen) content) (ioCapOf cfg scratchLen + st.accLen)
      content.length = content := readMem_patch (by omega)
  show readMem (patch _ _ _) _ (st.accLen + content.length) = _
  rw [readMem_add, hold, hnew]

end Flight

/-- The key that was extracted has been copied, and the other regions are as they were. -/
structure Extracted (cfg : Config) (scratchLen : Nat) (mem : Bytes) (x : Bytes × Bytes) (key : Bytes) : Prop where
  eq : x.1 = key
  fits : key.length ≤ wnLeafSpkiSz cfg
  stored : readMem x.2 (leafSpkiAt cfg scratchLen) key.length = key
  kept : Region.leafSpki.Kept cfg scratchLen mem x.2

theorem verifyChainScratch_refines (a : CertArgs p c) (hmin : wnCertScratchMin cfg ≤ a.io.scratchLen)
    {st : ScratchFlight} (h : st.Inv cfg a.io.scratchLen) {mLen : Nat} (hend : st.off + (4 + mLen) ≤ st.accLen) :
    ∀ certs : List Bytes, Refines (Extracted cfg a.io.scratchLen st.mem) (verifyChainScratch p c a st mLen certs)
      (ofExcept (wnVerifyChain cfg c certs a.anchor (wnLeafSpkiSz cfg) a.serverName a.pinnedKey a.now))
  | [] => .throw _
  | leaf :: certs => by
    have hadd := ioCapOf_add hmin
    have hsize := h.size
    unfold verifyChainScratch wnVerifyChain
    refine .seqExcept (.unchecked _) fun _ => ?_
    cases hparse : c.parseCert leaf with
    | none =>
      unfold checkLeaf
      rw [hparse]
      exact .throw _
    | some cert =>
      dsimp only
      by_cases hlong : cert.publicKey.length > wnLeafSpkiSz cfg
      · unfold checkLeaf
        rw [hparse, failIf_pos hlong]
        dsimp only
        rw [if_pos hlong]
        exact .throw _
      have hin := spkiHolds hmin (Nat.not_lt.1 hlong)
      have hkept := Region.Kept.patch hmin hsize hin
      have hacc := (hkept.elsewhere (by decide) h.accHolds).trans h.decrypted
      have hcheck : ({ st with mem := patch st.mem (leafSpkiAt cfg a.io.scratchLen) cert.publicKey }).check cfg
          a.io.scratchLen (4 + mLen) = pure () := ScratchFlight.check_of hacc hend
      have hdst : leafSpkiAt cfg a.io.scratchLen ≤ st.mem.length := by
        rw [leafSpkiAt_eq hmin]
        omega
      rw [failIf_neg hlong, pure_bind, storeIn_of hin, pure_bind, hcheck, pure_bind]
      refine .map (Refines.outcome (.unchecked _)) fun key _ hkey => ?_
      obtain ⟨rfl, w, w', hleaf⟩ := hkey
      have hkeyOf : key = cert.publicKey := checkLeaf_key hparse (ofExcept_eq_ok.1 hleaf).1
      subst hkeyOf
      exact ⟨rfl, Nat.not_lt.1 hlong, readMem_patch hdst, hkept⟩

/-- Where the messages are read on, all is kept. -/
theorem ScratchFlight.Inv.onto {scratchLen : Nat} {st : ScratchFlight} (h : st.Inv cfg scratchLen) {off : Nat}
    (hoff : off ≤ st.accLen) : ({ st with off } : ScratchFlight).Inv cfg scratchLen :=
  ⟨h.size, hoff, h.len, h.spkiLen, h.decrypted, h.leafKey⟩

/-- One message is parsed as the driver's model parses it. -/
theorem certMessageScratch_refines (a : CertArgs p c) (hmin : wnCertScratchMin cfg ≤ a.io.scratchLen) (sHs : Block 32)
    {st : ScratchFlight} (h : st.Inv cfg a.io.scratchLen) {mLen : Nat} (hend : st.off + 4 + mLen ≤ st.accLen)
    (hlen : mLen < 2 ^ 24) {mEnd : Nat} :
    Refines (fun st' fl => st'.Inv cfg a.io.scratchLen ∧ st'.off = st.off ∧ st'.accLen = st.accLen ∧
        { st'.flight with off := mEnd } = fl)
      (certMessageScratch p c a sHs st (st.mem.getD (ioCapOf cfg a.io.scratchLen + st.off) 0) mLen)
      (ofExcept (certMessage p c a sHs { st.flight with off := mEnd } (readMem st.decrypted st.off (4 + mLen)))) := by
  have hadd := ioCapOf_add hmin
  have hsize := h.size
  have hroom := h.len
  have hbuf : ioCapOf cfg a.io.scratchLen + st.accLen ≤ st.mem.length := by omega
  have hmsgEnd : ioCapOf cfg a.io.scratchLen + st.off + 4 + mLen ≤ ioCapOf cfg a.io.scratchLen + st.accLen := by omega
  have hmsg : readMem st.decrypted st.off (4 + mLen) =
      readMem st.mem (ioCapOf cfg a.io.scratchLen + st.off) (4 + mLen) := by
    rw [← h.decrypted]
    exact readMem_readMem (by omega)
  have hkeep : ∀ flags tc done, ({ st with flags, tc, done } : ScratchFlight).Inv cfg a.io.scratchLen :=
    fun _ _ _ => ⟨h.size, h.off, h.len, h.spkiLen, h.decrypted, h.leafKey⟩
  have hspki : bytesAt st.mem a.io.scratchLen (leafSpkiAt cfg a.io.scratchLen) st.spkiLen = pure st.leafKey := by
    have hspkiLen := h.spkiLen
    rw [bytesAt_of (by rw [leafSpkiAt_eq hmin]; omega), h.leafKey]
  unfold certMessageScratch certMessage
  dsimp only
  rw [hmsg, readMem_type, readMem_body, st.flight_flags]
  rcases wnFlightOrder (st.mem.getD (ioCapOf cfg a.io.scratchLen + st.off) 0) st.flags with ⟨e | ⟨⟨⟩⟩, flags⟩
  · exact .throw e
  dsimp only
  have htranscript : Refines Eq (access (transcriptInto p st.tc st.mem _ _ mLen)) _ :=
    access_refines (transcriptInto_refines st.tc hmsgEnd hlen)
  split
  · refine .seqExcept (access_refines (checkEncExtInto_refines hmsgEnd hbuf hlen)) fun _ => ?_
    refine .seqExcept htranscript fun tc => ?_
    exact .pure ⟨hkeep _ _ _, rfl, rfl, rfl⟩
  split
  · refine .seqExcept htranscript fun tc => ?_
    refine .seqExcept (access_refines (certificateInto_refines hmsgEnd hbuf hlen)) fun certs => ?_
    rw [ofExcept_bind]
    refine .bind (verifyChainScratch_refines a hmin h (by omega) certs) fun x key hx => ?_
    obtain ⟨leafKey, mem⟩ := x
    have hkey : leafKey = key := hx.eq
    subst hkey
    have hkept : Region.leafSpki.Kept cfg a.io.scratchLen st.mem mem := hx.kept
    refine .pure ⟨⟨hkept.size.trans hsize, h.off, h.len, hx.fits, ?_, hx.stored⟩, rfl, rfl, rfl⟩
    exact (hkept.elsewhere (by decide) h.accHolds).trans h.decrypted
  split
  · refine .seqExcept (.unchecked _) fun thCert => .seqExcept htranscript fun tc => ?_
    rw [hspki, access_pure, pure_bind, check_of rfl, pure_bind]
    refine .seqExcept (access_refines (certVerifyInto_refines hmsgEnd flags st.leafKey thCert hbuf hlen)) fun _ => ?_
    exact .pure ⟨hkeep _ _ _, rfl, rfl, rfl⟩
  · refine .seqExcept (.unchecked _) fun th => .seqExcept htranscript fun tc => ?_
    refine .seqExcept (access_refines (certFinishedInto_refines hmsgEnd flags sHs th hbuf)) fun _ => ?_
    exact .pure ⟨hkeep _ _ _, rfl, rfl, rfl⟩

/-- How the variables stand to the model's. -/
structure ScratchFlight.Holds (cfg : Config) (scratchLen : Nat) (st : ScratchFlight) (fl : CertFlight) : Prop where
  inv : st.Inv cfg scratchLen
  flight : st.flight = fl

theorem ScratchFlight.Inv.received {scratchLen : Nat} (hmin : wnCertScratchMin cfg ≤ scratchLen) {st : ScratchFlight}
    (h : st.Inv cfg scratchLen) : st.decrypted.length = st.accLen := by
  have hadd := ioCapOf_add hmin
  have hsize := h.size
  have hroom := h.len
  rw [← h.decrypted, readMem_length (by omega)]

/-- **The inner loop**, by its messages. -/
theorem certMessagesScratch_refines (a : CertArgs p c) (hmin : wnCertScratchMin cfg ≤ a.io.scratchLen)
    (sHs : Block 32) : ∀ (n : Nat) {st : ScratchFlight}, st.Inv cfg a.io.scratchLen →
      Refines (ScratchFlight.Holds cfg a.io.scratchLen) (certMessagesScratch p c a sHs n st)
        (ofExcept (certMessages p c a sHs n st.flight))
  | 0, st, h => .pure ⟨h, rfl⟩
  | n + 1, st, h => by
    have hacc := wnHsAccSz_le cfg
    have hoff := h.off
    have hroom := h.len
    unfold certMessagesScratch certMessages
    rw [moreGuard_of hoff hroom, access_pure, pure_bind, st.flight_hsacc, st.flight_off, h.received hmin]
    by_cases hgo : st.done = false ∧ st.accLen - st.off ≥ 4
    · have hhead : msgLenAt st.decrypted st.off = msgLenAt st.mem (ioCapOf cfg a.io.scratchLen + st.off) := by
        rw [← h.decrypted, msgLenAt_readMem (by omega)]
      have hmLen := msgLenAt_lt st.mem (ioCapOf cfg a.io.scratchLen + st.off)
      rw [if_pos (decide_eq_true hgo), if_pos (by exact hgo), headAt_of (by omega), access_pure, pure_bind]
      dsimp only
      rw [add32c_of (by omega), pure_bind, add32c_of (by omega), access_pure, pure_bind, hhead]
      generalize msgLenAt st.mem (ioCapOf cfg a.io.scratchLen + st.off) = mLen at hmLen ⊢
      by_cases hpart : st.off + 4 + mLen > st.accLen
      · rw [if_pos hpart, if_pos hpart]
        exact .pure ⟨h, rfl⟩
      rw [if_neg hpart, if_neg hpart, ScratchFlight.check_of h.decrypted (by omega), pure_bind, ofExcept_bind]
      refine .bind (certMessageScratch_refines a hmin sHs h (by omega) hmLen) fun st' fl' hst => ?_
      obtain ⟨hinv, hoff', hlen', rfl⟩ := hst
      rw [add32c_of (by omega), pure_bind, add32c_of (by omega), access_pure, pure_bind, hoff', ← Nat.add_assoc]
      exact certMessagesScratch_refines a hmin sHs n (hinv.onto (by omega))
    · rw [if_neg (by simpa using hgo), if_neg (by exact hgo)]
      exact .pure ⟨h, rfl⟩

/-- **One turn of the flight loop**: the records that come are read and opened
beside what has been decrypted, and their content goes behind it. -/
theorem certFlightScratchStep_refines (a : CertArgs p c) (hmin : wnCertScratchMin cfg ≤ a.io.scratchLen) (keys : HsKeys)
    {st : ScratchFlight} {fl : CertFlight} (h : st.Holds cfg a.io.scratchLen fl) :
    Refines (Sum.LiftRel (ScratchFlight.Holds cfg a.io.scratchLen) (ScratchFlight.Holds cfg a.io.scratchLen))
      (certFlightScratchStep p c a keys st) (certFlightStep p c a (ioCapOf cfg a.io.scratchLen) keys fl) := by
  obtain ⟨hinv, rfl⟩ := h
  have hsize := hinv.size
  have hroom := hinv.len
  have hacc := wnHsAccSz_le cfg
  have hadd := ioCapOf_add hmin
  unfold certFlightScratchStep certFlightStep
  refine .bind (recvRecordScratch_refines hmin st.mem) fun x y hx => ?_
  obtain ⟨rtype, recLen, mem⟩ := x
  obtain ⟨rtype', record⟩ := y
  have htype : rtype = rtype' := hx.type
  have hlen : recLen = record.length := hx.len
  have hfits : record.length ≤ ioCapOf cfg a.io.scratchLen := hx.fits
  have hmax : record.length ≤ wnMaxPlaintext + 261 := hx.max
  have hplain : wnMaxPlaintext = 16384 := rfl
  have hkept := hx.kept hmin hsize
  have hread : readMem mem 0 recLen = record := hkept.2
  have hinv₁ : ({ st with mem } : ScratchFlight).Inv cfg a.io.scratchLen := hinv.io hmin hkept.1
  subst htype
  dsimp only
  by_cases hccs : rtype = wnRecChangeCipher
  · rw [if_pos hccs, if_pos hccs]
    exact .pure (.inl ⟨hinv₁, rfl⟩)
  rw [if_neg hccs, if_neg hccs]
  refine .bind (.failIf _ _) fun _ _ _ => ?_
  have hopen : Refines (Opened cfg a.io.scratchLen mem recLen) _ _ :=
    unprotectScratch_refines (p := p) hmin hinv₁.size keys.sKey keys.sIv st.sSeq (by omega)
  rw [hread] at hopen
  refine .bind hopen fun x y hy => ?_
  obtain ⟨ctype, plainLen, mem'⟩ := x
  obtain ⟨ctype', content⟩ := y
  have hctype : ctype = ctype' := hy.type
  have hcount : plainLen = content.length := hy.len
  have hshort : content.length < recLen - 21 := hy.short
  have hcontent : readMem mem' wnRecordHeaderSz content.length = content := hy.content
  have hinv₂ : ({ st with mem := mem' } : ScratchFlight).Inv cfg a.io.scratchLen := hinv₁.io hmin hy.kept
  subst hctype hcount
  dsimp only
  refine .bind (.failIf _ _) fun _ _ _ => ?_
  rw [add32c_of (by omega), access_pure, pure_bind, st.flight_hsacc, hinv.received hmin]
  refine .bind (.failIf _ _) fun _ _ hsmall => ?_
  have hhdr : wnRecordHeaderSz = 5 := rfl
  have hin : Region.hsacc.Holds cfg a.io.scratchLen (ioCapOf cfg a.io.scratchLen + st.accLen) content.length :=
    Region.holds_hsacc (Nat.not_lt.1 hsmall)
  rw [bytesAt_of (by omega), access_pure, pure_bind, hcontent, storeIn_of hin, pure_bind, List.length_append,
    hinv.received hmin]
  have hinv₃ := hinv₂.append hmin (Nat.not_lt.1 hsmall) (st.sSeq + 1)
  refine .bind (certMessagesScratch_refines a hmin keys.sHs (st.accLen + content.length) hinv₃) fun st' fl' hst => ?_
  have hdone : fl'.done = st'.done := by rw [← hst.flight]; rfl
  rw [hdone]
  split
  · exact .pure (.inr hst)
  · exact .pure (.inl hst)

/-- **The flight**, however many records it comes in. -/
theorem certFlightScratch_refines (a : CertArgs p c) (hmin : wnCertScratchMin cfg ≤ a.io.scratchLen) (keys : HsKeys)
    (tc : Transcript) {mem : Bytes} (hsize : mem.length = a.io.scratchLen) :
    Refines (ScratchFlight.Holds cfg a.io.scratchLen) (certFlightScratch p c a keys tc mem)
      (certFlight p c a (ioCapOf cfg a.io.scratchLen) keys tc) := by
  unfold certFlightScratch certFlight
  refine .seq .get fun w => .turns (fun _ _ h => certFlightScratchStep_refines a hmin keys h) _ ?_
  exact ⟨⟨hsize, Nat.le_refl 0, Nat.zero_le _, Nat.zero_le _, rfl, rfl⟩, rfl⟩

/-! ## The driver -/

theorem alertingScratch_refines {α β : Type} {R : α → β → Prop} (keys : HsKeys) (seq : UInt64) {x : ScratchIo α}
    {y : Io β} (h : Refines R x y) : Refines R (alertingScratch p keys seq x) (alerting p keys seq y) := by
  unfold alertingScratch alerting
  split
  · exact .tryCatch h fun e => .seq (.unchecked _) fun _ => .throw e
  · exact h

theorem sendFinishedScratch_refines (io : Transport) (hmin : wnCertScratchMin cfg ≤ io.scratchLen) (keys : HsKeys)
    (mac th emptyHash : Block 32) (junk : Junk) {mem : Bytes} (hsize : mem.length = io.scratchLen) :
    Refines (fun mem' _ => Region.io.Kept cfg io.scratchLen mem mem')
      (sendFinishedScratch p keys mac th emptyHash junk io mem) (sendFinished p keys mac th emptyHash junk io) := by
  have hcap := ioCapOf_ge hmin
  have hfin : (finishedMsg mac).length = 36 := by
    rw [finishedMsg, List.length_append, mac.length]
    rfl
  unfold sendFinishedScratch sendFinished
  refine .bind (protectScratch_refines hmin hsize keys.cKey keys.cIv 0 wnRecHandshake (by omega)) fun x record hx => ?_
  obtain ⟨recLen, mem'⟩ := x
  have hread : readMem mem' 0 recLen = record := hx.record
  dsimp only
  rw [hread]
  refine .seq (.unchecked _) fun sent => .bind (.failIf _ _) fun _ _ _ => ?_
  exact .map (.unchecked _) fun _ _ _ => hx.kept

theorem certFlightMacScratch_refines (a : CertArgs p c) (hmin : wnCertScratchMin cfg ≤ a.io.scratchLen) (keys : HsKeys)
    (tc : Transcript) {mem : Bytes} (hsize : mem.length = a.io.scratchLen) :
    Refines (fun x y => x.1.Holds cfg a.io.scratchLen y.1 ∧ x.2 = y.2) (certFlightMacScratch p c a keys tc mem)
      (certFlightMac p c a (ioCapOf cfg a.io.scratchLen) keys tc) := by
  unfold certFlightMacScratch certFlightMac
  refine .bind (certFlightScratch_refines a hmin keys tc hsize) fun st fl hst => ?_
  have htc : fl.tc = st.tc := by rw [← hst.flight]; rfl
  rw [htc]
  exact .seq (.unchecked _) fun th => .seq (.unchecked _) fun mac => .pure ⟨hst, rfl⟩

/-- The bytes behind the last message are in `hsacc` still. -/
theorem ScratchFlight.Holds.unread {scratchLen : Nat} {st : ScratchFlight} {fl : CertFlight}
    (h : st.Holds cfg scratchLen fl) {mem : Bytes} (hkept : Region.io.Kept cfg scratchLen st.mem mem) :
    readMem mem (ioCapOf cfg scratchLen + st.off) (st.accLen - st.off) = fl.hsacc.drop fl.off := by
  obtain ⟨hinv, rfl⟩ := h
  have hoff := hinv.off
  have hroom := hinv.len
  have hin : Region.hsacc.Holds cfg scratchLen (ioCapOf cfg scratchLen + st.off) (st.accLen - st.off) :=
    Region.holds_hsacc (by omega)
  rw [hkept.elsewhere (by decide) hin, st.flight_hsacc, st.flight_off, ← hinv.decrypted, drop_readMem]

theorem wnConnectCertScratch_refines (a : CertArgs p c) (mem : Block a.io.scratchLen) :
    Refines Eq (wnConnectCertScratch p c a mem.val) (wnConnectCertImpl p c a) := by
  unfold wnConnectCertScratch wnConnectCertImpl
  refine .bind (.failIf _ _) fun _ _ hargs => ?_
  have hmin : wnCertScratchMin cfg ≤ a.io.scratchLen := by
    unfold CertArgs.Rejected at hargs
    omega
  have hcap : a.io.scratchLen - (wnHsAccSz cfg + wnLeafSpkiSz cfg) = ioCapOf cfg a.io.scratchLen := rfl
  dsimp only
  rw [hcap]
  refine .seq (.unchecked _) fun _ => .seq (.unchecked _) fun hello => ?_
  refine .bind (serverHelloScratch_refines hmin hello.priv hello.sid hello.tc mem.property) fun x y hx => ?_
  obtain ⟨tc, ecdhe, mem₁⟩ := x
  obtain ⟨tc', ecdhe'⟩ := y
  have htc : tc = tc' := hx.1
  have hecdhe : ecdhe = ecdhe' := hx.2.1
  have hsize : mem₁.length = a.io.scratchLen := hx.2.2
  subst htc hecdhe
  dsimp only
  refine .seq (.unchecked _) fun th => .seq (.unchecked _) fun early => .seq (.unchecked _) fun keys => ?_
  refine .bind (alertingScratch_refines keys 0 (certFlightMacScratch_refines a hmin keys tc hsize)) fun x y hx => ?_
  obtain ⟨st, th, mac⟩ := x
  obtain ⟨fl, th', mac'⟩ := y
  have hst : st.Holds cfg a.io.scratchLen fl := hx.1
  have hmac : (th, mac) = (th', mac') := hx.2
  cases hmac
  dsimp only
  refine .bind (alertingScratch_refines keys 1 (sendFinishedScratch_refines a.io hmin keys mac th hello.emptyHash a.junk
    hst.inv.size)) fun mem₂ _ hkept => ?_
  rw [hst.unread hkept]
  exact .unchecked _

/-- **The parts of scratch never interfere**, whatever comes in and however long
scratch is: no write is outside its region, every message is hashed and parsed
with the bytes that were decrypted, the key that checks the CertificateVerify is
the one that was extracted; and the driver is its model. -/
theorem cert_scratch_apart (a : CertArgs p c) (mem : Block a.io.scratchLen) (w : World) :
    (∀ f w', wnConnectCertScratch p c a mem.val w ≠ .error (.fault f) w') ∧
      RefinesAt Eq (wnConnectCertScratch p c a mem.val w) (wnConnectCertImpl p c a w) := by
  have h := wnConnectCertScratch_refines a mem
  exact ⟨h.no_fault w, h w⟩

end WolfNano

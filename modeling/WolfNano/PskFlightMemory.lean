/-
The flight loop of `wn_Connect_Psk_ex` in its array `plain[512]`.

`pskFlightInto_refines` says that no check fails, whatever comes in, and that
the loop is the one of the driver's model.
-/
import WolfNano.FlightMemory
import WolfNano.PskFlightFacts

namespace WolfNano

open Prog Wire

variable {cfg : Config} (p : Provider cfg)

/-! ## `wn_Connect_Psk_ex` -/

/-- The flight loop's variables, `plain` the whole array. -/
structure PskMem where
  plain : Bytes
  accLen : Nat
  accOff : Nat
  gotEE : Bool
  done : Bool
  tc : Transcript
  sSeq : UInt64

/-- One complete message of the flight, at `mStart`. -/
def pskMessageInto (sHs : Block 32) (st : PskMem) (mType : UInt8) (mStart mLen : Nat) : MemIo PskMem :=
  if mType = wnHsEncryptedExt then
    if st.gotEE then throw (.ret .unexpectedMsg)
    else do
      checkEncExtInto st.plain st.accLen (mStart + 4) mLen false
      let tc ← transcriptInto p st.tc st.plain st.accLen mStart mLen
      pure { st with tc, gotEE := true }
  else if mType = wnHsFinished then
    if st.gotEE = false ∨ mLen ≠ 32 then throw (.ret .badMac)
    else do
      let th ← unchecked (ofExcept (wnTranscriptGetHash p st.tc))
      let mac ← unchecked (ofExcept (wnTls13FinishedMac p sHs th))
      let recvMac ← bytesAt st.plain st.accLen (mStart + 4) 32
      failIf (mac.val ≠ recvMac) (.ret .badMac)
      let tc ← transcriptInto p st.tc st.plain st.accLen mStart mLen
      pure { st with tc, done := true }
  else throw (.ret .unexpectedMsg)

/-- The condition of the inner loop. -/
def pskGuard (st : PskMem) : MemIo Bool := moreGuard st.plain.length st.accLen st.accOff st.done

/-- One pass of the inner loop. -/
def pskPass (sHs : Block 32) (st : PskMem) : MemIo (PskMem ⊕ PskMem) := do
  let (mType, mLen) ← headAt st.plain st.accLen st.accOff
  let mEnd ← add32c (← add32c st.accOff 4) mLen
  failIf (mEnd > wnPlainSz) (.ret .decode)
  if mEnd > st.accLen then pure (.inr st)
  else do
    let st ← pskMessageInto p sHs { st with accOff := mEnd } mType st.accOff mLen
    pure (.inl st)

/-- The inner loop, with one pass for each four bytes not yet parsed. -/
def pskMessagesInto (sHs : Block 32) (st : PskMem) : MemIo PskMem :=
  whileM .spin pskGuard (pskPass p sHs) ((st.accLen - st.accOff) / 4) st

/-- One pass of the flight loop. -/
def pskFlightPass (cap : Nat) (keys : HsKeys) (st : PskMem) : MemIo (PskMem ⊕ PskMem) := do
  check (st.accOff ≤ st.accLen ∧ st.accLen ≤ st.plain.length) .bound
  let (rtype, record) ← unchecked (wnRecvRecord cap)
  if rtype = wnRecChangeCipher then pure (.inl st)
  else do
    failIf (rtype ≠ wnRecAppdata) (.ret .unexpectedMsg)
    failIf (record.length < wnRecordHeaderSz + wnRecordTagSz) (.ret .decode)
    let len ← sub32c record.length wnRecordHeaderSz
    let innerLen ← sub32c len wnRecordTagSz
    let room ← sub32c wnPlainSz st.accLen
    failIf (innerLen > room) (.ret .decode)
    let (ctype, plainLen, plain) ← unprotectInto p keys.sKey keys.sIv st.sSeq st.plain st.accLen record
    failIf (ctype ≠ wnRecHandshake) (.ret .unexpectedMsg)
    let accLen ← add32c st.accLen plainLen
    let st ← pskMessagesInto p keys.sHs { st with plain, accLen, sSeq := st.sSeq + 1 }
    pure (.inl st)

/-- The flight loop, with one pass for each record that can be received, and one
that finds none. `plain` is what the array holds before. -/
def pskFlightInto (cap : Nat) (keys : HsKeys) (tc : Transcript) (plain : Block wnPlainSz) : MemIo PskMem := do
  let w ← get
  whileM .spin (fun st => pure (!st.done)) (pskFlightPass p cap keys) (w.records cap + 1)
    { plain := plain.val, accLen := 0, accOff := 0, gotEE := false, done := false, tc, sSeq := 0 }

variable {p}

/-! ## The PSK driver's messages -/

/-- The driver's variables, of the array what has been received. -/
def PskMem.flight (st : PskMem) : PskFlight where
  plain := st.plain.take st.accLen
  accOff := st.accOff
  gotEE := st.gotEE
  done := st.done
  tc := st.tc
  sSeq := st.sSeq

/-- The invariant of both loops. -/
structure PskMem.Inv (st : PskMem) : Prop where
  size : st.plain.length = wnPlainSz
  off : st.accOff ≤ st.accLen
  len : st.accLen ≤ wnPlainSz

/-- The same array, as full and as far read. -/
structure PskMem.Same (st st' : PskMem) : Prop where
  plain : st'.plain = st.plain
  accLen : st'.accLen = st.accLen
  accOff : st'.accOff = st.accOff

theorem pskMessageInto_refines (sHs : Block 32) {st : PskMem} (hinv : st.Inv) {mStart mLen : Nat}
    (hend : mStart + 4 + mLen ≤ st.accLen) (hlen : mLen < 2 ^ 24) :
    Refines (fun st' fl => st.Same st' ∧ st'.flight = fl)
      (pskMessageInto p sHs st (st.plain.getD mStart 0) mStart mLen)
      (ofExcept (pskMessage p sHs st.flight (readMem st.plain mStart (4 + mLen)))) := by
  have hsize := hinv.size
  have hroom := hinv.len
  unfold pskMessageInto pskMessage
  dsimp only
  rw [readMem_type, readMem_body_length (by omega), readMem_body]
  by_cases hee : st.plain.getD mStart 0 = wnHsEncryptedExt
  · rw [if_pos hee, if_pos hee]
    cases hgot : st.gotEE with
    | true =>
      rw [if_pos rfl, if_pos (by exact hgot)]
      exact .throw _
    | false =>
      rw [if_neg Bool.false_ne_true, if_neg (by exact Bool.eq_false_iff.1 hgot)]
      refine .seqExcept (checkEncExtInto_refines hend (by omega) hlen) fun _ => ?_
      refine .seqExcept (transcriptInto_refines st.tc hend hlen) fun tc => ?_
      exact .pure ⟨⟨rfl, rfl, rfl⟩, rfl⟩
  rw [if_neg hee, if_neg hee]
  by_cases hfin : st.plain.getD mStart 0 = wnHsFinished
  · rw [if_pos hfin, if_pos hfin]
    by_cases hbad : st.gotEE = false ∨ mLen ≠ 32
    · rw [if_pos hbad, if_pos (by exact hbad)]
      exact .throw _
    have h32 : mLen = 32 := by
      simp only [not_or, not_not] at hbad
      exact hbad.2
    have hbody : bytesAt st.plain st.accLen (mStart + 4) 32 = pure (readMem st.plain (mStart + 4) mLen) := by
      rw [bytesAt_of (by omega), h32]
    rw [if_neg hbad, if_neg (by exact hbad)]
    refine .seqExcept (.unchecked _) fun th => .seqExcept (.unchecked _) fun mac => ?_
    rw [hbody, pure_bind, ofExcept_failIf]
    refine .bind (.failIf _ _) fun _ _ _ => .seqExcept (transcriptInto_refines st.tc hend hlen) fun tc => ?_
    exact .pure ⟨⟨rfl, rfl, rfl⟩, rfl⟩
  · rw [if_neg hfin, if_neg hfin]
    exact .throw _

/-! ## The PSK driver's loops -/

/-- What both loops keep, of the array and of the driver's variables. -/
structure PskMem.Holds (st : PskMem) (fl : PskFlight) : Prop where
  inv : st.Inv
  flight : st.flight = fl

theorem PskMem.flight_plain (st : PskMem) : st.flight.plain = st.plain.take st.accLen := rfl

theorem PskMem.flight_accOff (st : PskMem) : st.flight.accOff = st.accOff := rfl

theorem PskMem.Inv.received {st : PskMem} (h : st.Inv) : st.flight.plain.length = st.accLen := by
  have hsize := h.size
  have hlen := h.len
  rw [PskMem.flight_plain, List.length_take]
  omega

/-- The bytes not yet parsed, by fours. -/
def PskMem.left (st : PskMem) : Nat := (st.accLen - st.accOff) / 4

theorem pskGuard_eq {st : PskMem} (h : st.Inv) :
    pskGuard st = pure (decide (st.done = false ∧ st.accLen - st.accOff ≥ 4)) :=
  moreGuard_of h.off (by rw [h.size]; exact h.len) st.done

/-- A pass of the inner loop is a turn of the model's. -/
theorem pskPass_refines (sHs : Block 32) {st : PskMem} (h : st.Inv) {m : Nat}
    (hgo : st.done = false ∧ st.accLen - st.accOff ≥ 4) {next : PskMem → MemIo PskMem}
    (hnext : ∀ st' fl', st'.Holds fl' → st'.left < st.left →
      Refines PskMem.Holds (next st') (ofExcept (pskMessages p sHs m fl'))) :
    Refines PskMem.Holds (pskPass p sHs st >>= onward next) (ofExcept (pskMessages p sHs (m + 1) st.flight)) := by
  have hsize := h.size
  have hlen := h.len
  have hplain : wnPlainSz = 512 := rfl
  have hmLen := msgLenAt_lt st.plain st.accOff
  have hhead : msgLenAt st.flight.plain st.accOff = msgLenAt st.plain st.accOff := msgLenAt_take (by omega)
  rw [pskMessages, h.received, st.flight_accOff, if_pos (by exact hgo), hhead]
  unfold pskPass
  rw [headAt_of (by omega), pure_bind]
  dsimp only
  rw [add32c_of (by omega), pure_bind, add32c_of (by omega), pure_bind]
  by_cases hbig : st.accOff + 4 + msgLenAt st.plain st.accOff > wnPlainSz
  · rw [failIf_pos hbig, if_pos hbig]
    exact .throw _
  rw [failIf_neg hbig, if_neg hbig, pure_bind]
  by_cases hpart : st.accOff + 4 + msgLenAt st.plain st.accOff > st.accLen
  · rw [if_pos hpart, if_pos hpart]
    exact .pure ⟨h, rfl⟩
  rw [if_neg hpart, if_neg hpart, bind_assoc, ofExcept_bind]
  have hmoved : ({ st with accOff := st.accOff + 4 + msgLenAt st.plain st.accOff } : PskMem).Inv :=
    ⟨h.size, by show st.accOff + 4 + _ ≤ st.accLen; omega, h.len⟩
  have hmsg : (st.flight.plain.drop st.accOff).take (4 + msgLenAt st.plain st.accOff) =
      readMem st.plain st.accOff (4 + msgLenAt st.plain st.accOff) := readMem_take (by omega)
  rw [hmsg]
  refine .bind (pskMessageInto_refines sHs hmoved (by show _ ≤ st.accLen; omega) hmLen) fun st' fl' hst => ?_
  obtain ⟨hsame, rfl⟩ := hst
  have hoff : st'.accOff = st.accOff + 4 + msgLenAt st.plain st.accOff := hsame.accOff
  have hacc : st'.accLen = st.accLen := hsame.accLen
  refine hnext st' _ ⟨⟨?_, ?_, ?_⟩, rfl⟩ ?_
  · rw [hsame.plain]
    exact h.size
  · omega
  · omega
  · unfold PskMem.left
    omega

/-- **The inner loop**: the passes there are bytes for are enough. -/
theorem pskMessagesInto_refines (sHs : Block 32) {st : PskMem} {fl : PskFlight} (h : st.Holds fl) {m : Nat}
    (hm : st.accLen ≤ m) : Refines PskMem.Holds (pskMessagesInto p sHs st) (ofExcept (pskMessages p sHs m fl)) := by
  refine .whileM_fuel (fun st => decide (st.done = false ∧ st.accLen - st.accOff ≥ 4)) PskMem.left
    (I := PskMem.Holds) (f := fun m fl => ofExcept (pskMessages p sHs m fl)) (fun _ _ hi => pskGuard_eq hi.inv)
    ?_ ?_ ?_ _ _ _ _ h (Nat.le_refl _) (by unfold PskMem.left; omega)
  · intro b c _ hgo
    have := (of_decide_eq_true hgo).2
    unfold PskMem.left
    omega
  · rintro b c m hi hgo
    obtain ⟨hinv, rfl⟩ := hi
    have hstop : pskMessages p sHs m b.flight = .ok b.flight := by
      cases m with
      | zero => rfl
      | succ m => rw [pskMessages, hinv.received, if_neg (by exact of_decide_eq_false hgo)]
    rw [hstop]
    exact .pure ⟨hinv, rfl⟩
  · rintro b c m next ⟨hinv, rfl⟩ hgo hnext
    exact pskPass_refines sHs hinv (of_decide_eq_true hgo) hnext

/-- Content that has landed goes on where the bytes received end. -/
theorem PskMem.Inv.landed {st : PskMem} (h : st.Inv) {ctype : UInt8} {plainLen innerLen : Nat} {plain : Bytes}
    {y : UInt8 × Bytes} (hx : Landed st.plain st.accLen innerLen (ctype, plainLen, plain) y)
    (hroom : st.accLen + innerLen ≤ wnPlainSz) :
    ({ st with plain, accLen := st.accLen + plainLen, sSeq := st.sSeq + 1 } : PskMem).Holds
      { st.flight with plain := st.flight.plain ++ y.2, sSeq := st.flight.sSeq + 1 } := by
  have hsize := h.size
  have hshort := hx.short
  have hcount : plainLen = y.2.length := hx.len
  have hplain : plain.take (st.accLen + plainLen) = st.plain.take st.accLen ++ y.2 := by
    rw [List.take_add, hx.before, hcount]
    exact congrArg (st.plain.take st.accLen ++ ·) hx.content
  refine ⟨⟨hx.size.trans hsize, Nat.le_add_right_of_le h.off, ?_⟩, ?_⟩
  · show st.accLen + plainLen ≤ wnPlainSz
    omega
  · exact congrArg (fun plain => ({ st.flight with plain, sSeq := st.sSeq + 1 } : PskFlight)) hplain

/-- What holds as long as the loop goes on, and when it ends. -/
def PskMem.Going (st : PskMem) (fl : PskFlight) : Prop := st.Holds fl ∧ st.done = false

def PskMem.Ended (st : PskMem) (fl : PskFlight) : Prop := st.Holds fl ∧ st.done = true

theorem pskFlightPass_refines (cap : Nat) (keys : HsKeys) {st : PskMem} {fl : PskFlight} (h : st.Going fl) :
    Refines (Turn PskMem.Going PskMem.Ended) (pskFlightPass p cap keys st) (pskFlightStep p cap keys fl) := by
  obtain ⟨⟨hinv, rfl⟩, hdone⟩ := h
  have hsize := hinv.size
  have hlen := hinv.len
  have hplain : wnPlainSz = 512 := rfl
  unfold pskFlightPass pskFlightStep
  rw [check_of ⟨hinv.off, by omega⟩, pure_bind]
  refine .seq (.unchecked _) fun x => ?_
  obtain ⟨rtype, record⟩ := x
  dsimp only
  by_cases hccs : rtype = wnRecChangeCipher
  · rw [if_pos hccs, if_pos hccs]
    exact .pure ⟨⟨hinv, rfl⟩, hdone⟩
  rw [if_neg hccs, if_neg hccs]
  refine .bind (.failIf _ _) fun _ _ _ => ?_
  rw [hinv.received]
  by_cases hshort : record.length < wnRecordHeaderSz + wnRecordTagSz
  · rw [failIf_pos hshort, failIf_pos (.inl hshort)]
    exact .throw _
  have hhdr : wnRecordHeaderSz = 5 := rfl
  have htag : wnRecordTagSz = 16 := rfl
  rw [failIf_neg hshort, pure_bind, sub32c_of (by omega), pure_bind, sub32c_of (by omega), pure_bind, sub32c_of hlen,
    pure_bind]
  by_cases hroom : record.length - wnRecordHeaderSz - wnRecordTagSz > wnPlainSz - st.accLen
  · rw [failIf_pos hroom, failIf_pos (.inr hroom)]
    exact .throw _
  rw [failIf_neg hroom, failIf_neg (not_or.2 ⟨hshort, hroom⟩), pure_bind, pure_bind]
  refine .bind (unprotectInto_refines (by omega)) fun x y hx => ?_
  obtain ⟨ctype, plainLen, plain⟩ := x
  obtain ⟨ctype', content⟩ := y
  have htype : ctype = ctype' := hx.type
  subst htype
  have hlanded := hinv.landed hx (by omega)
  have hacc : st.accLen + plainLen ≤ wnPlainSz := hlanded.inv.len
  have hcount := hlanded.inv.received
  rw [hlanded.flight] at hcount
  dsimp only
  refine .bind (.failIf _ _) fun _ _ _ => ?_
  rw [add32c_of (by omega), pure_bind]
  refine .bind (pskMessagesInto_refines keys.sHs hlanded (Nat.le_of_eq hcount.symm)) fun st' fl' hst => ?_
  have hdone' : fl'.done = st'.done := by rw [← hst.flight]; rfl
  exact Turn.of_done hst PskMem.done hdone'

/-- **The PSK driver's flight**: no check fails, and what is read is what the
driver's model reads. -/
theorem pskFlightInto_refines (cap : Nat) (keys : HsKeys) (tc : Transcript) (plain : Block wnPlainSz) :
    Refines PskMem.Ended (pskFlightInto p cap keys tc plain) (pskFlight p cap keys tc) := by
  intro w
  have hdown : ∀ fl x w w', pskFlightStep p cap keys fl w = .ok x w' →
      w'.records cap < w.records cap ∧ w'.pending < w.pending := by
    intro fl x w w' hstep
    rw [pskFlightStep_eq] at hstep
    exact flightTurn_down hstep
  refine Refines.whileM (I := PskMem.Going) (World.records cap) World.pending ?_ ?_
    (fun _ _ hi => pskFlightPass_refines cap keys hi) hdown _ _ _ _ w
    ⟨⟨⟨plain.property, Nat.le_refl 0, Nat.zero_le _⟩, rfl⟩, rfl⟩ (Nat.lt_succ_self _) (Nat.lt_succ_self _)
  · intro st fl hi
    rw [hi.2]
    rfl
  · intro st fl hi
    rw [hi.2]
    rfl

end WolfNano

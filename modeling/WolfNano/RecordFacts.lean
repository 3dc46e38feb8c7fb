/-
What reading a record does to the transport.

`wnRecvRecord_ok` is about any transport: a record read is a record's bytes
off the front of what the transport held, and nothing but the transport
changed. The other direction needs a transport that does not fail
(`Flowing`): then reading is a function of the bytes to come, whatever pieces
they arrive in (`wnRecvRecord_wire`, `wnRecvRecord_end`).
-/
import WolfNano.Record
import WolfNano.MsgFacts

namespace WolfNano

open Prog Wire

/-! ## The bytes of a record -/

/-- A record on the wire: type, version, length, body. -/
def wireRecord (type v₁ v₂ : UInt8) (body : Bytes) : Bytes := type :: v₁ :: v₂ :: vec 2 body

@[simp] theorem wireRecord_length (type v₁ v₂ : UInt8) (body : Bytes) :
    (wireRecord type v₁ v₂ body).length = 5 + body.length := by
  simp [wireRecord]; omega

/-- What `wn_RecvRecord` checks of a record, into `cap` bytes. -/
def recordCheck (cap : Nat) (type : UInt8) (body : Bytes) : Except Err Unit :=
  if body.length = 0 ∨ body.length + 5 > cap ∨ body.length > wnMaxPlaintext + 256 then .error .crypto
  else if type = wnRecChangeCipher ∧ (body.length ≠ 1 ∨ body.getD 0 0 ≠ 1) then .error .decode
  else .ok ()

/-- A ChangeCipherSpec record with its one legal content, of any version. -/
def ccsRecord (v : UInt8 × UInt8) : Bytes := wireRecord wnRecChangeCipher v.1 v.2 [1]

theorem recordCheck_ok {cap : Nat} {type : UInt8} {body : Bytes} :
    recordCheck cap type body = .ok () ↔
      body ≠ [] ∧ body.length + 5 ≤ cap ∧ body.length ≤ wnMaxPlaintext + 256 ∧
        (type = wnRecChangeCipher → body = [1]) := by
  unfold recordCheck
  constructor
  · intro h
    split at h
    · cases h
    · next hlen =>
      split at h
      · cases h
      · next hccs =>
        simp only [not_or, Nat.not_lt] at hlen
        refine ⟨fun hb => hlen.1 (by rw [hb]; rfl), hlen.2.1, hlen.2.2, fun ht => ?_⟩
        simp only [ht, true_and, not_or, not_not] at hccs
        obtain ⟨x, rfl⟩ := List.length_eq_one_iff.1 hccs.1
        rw [show x = 1 from hccs.2]
  · intro hall
    obtain ⟨hne, hcap, hmax, hccs⟩ := hall
    rw [if_neg, if_neg]
    · intro hall
      obtain ⟨ht, h⟩ := hall
      simp [hccs ht] at h
    · simp only [not_or, Nat.not_lt]
      exact ⟨fun h => hne (List.eq_nil_of_length_eq_zero h), hcap, hmax⟩

theorem recordCheck_ccs {cap : Nat} (h : 6 ≤ cap) : recordCheck cap wnRecChangeCipher [1] = .ok () :=
  recordCheck_ok.2 ⟨by simp, by simpa using h, by simp [wnMaxPlaintext], fun _ => rfl⟩

theorem headerFrag_eq (type v₁ v₂ hi lo : UInt8) :
    headerFrag [type, v₁, v₂, hi, lo] = unbe [hi, lo] := word16Of_eq hi lo

/-- Five bytes and as many more as the last two say are a record. -/
theorem header_body {hdr body : Bytes} (hh : hdr.length = 5) (hb : body.length = headerFrag hdr) :
    ∃ v₁ v₂, hdr ++ body = wireRecord (hdr.getD 0 0) v₁ v₂ body := by
  match hdr, hh with
  | [t, v₁, v₂, hi, lo], _ =>
    rw [headerFrag_eq] at hb
    refine ⟨v₁, v₂, ?_⟩
    have : be 2 body.length = [hi, lo] := by rw [hb]; exact be_unbe [hi, lo]
    simp [wireRecord, vec, this]

/-! ## Any transport -/

theorem ioRecv_ok {n : Nat} {w w' : World} {bs : Bytes} (hn : 0 < n)
    (h : ioRecv n w = .ok (some bs) w') :
    w.inbox.flatten = bs ++ w'.inbox.flatten ∧ w' = { w with inbox := w'.inbox } ∧
      0 < bs.length ∧ bs.length ≤ n := by
  obtain ⟨inbox, sendRes, trace, sess⟩ := w
  match inbox, h with
  | (b :: c) :: cs, h =>
    cases h
    refine ⟨?_, rfl, by simp; omega, by simp⟩
    dsimp only
    split
    · rw [List.flatten_cons, List.flatten_cons, ← List.append_assoc, List.take_append_drop]
    · next hlen => rw [List.flatten_cons, List.take_of_length_le (by omega)]

theorem ioRecvExactLoop_ok {n : Nat} : ∀ {k : Nat} {got : Bytes} {w w' : World} {bs : Bytes},
    got.length ≤ n → n ≤ got.length + k → ioRecvExactLoop n k got w = .ok bs w' →
      bs.length = n ∧ got ++ w.inbox.flatten = bs ++ w'.inbox.flatten ∧
        w' = { w with inbox := w'.inbox }
  | 0, got, w, w', bs, hle, hk, h => by
    cases h
    exact ⟨by omega, rfl, rfl⟩
  | k + 1, got, w, w', bs, hle, hk, h => by
    rw [ioRecvExactLoop] at h
    split at h
    · obtain ⟨r, w₁, hr, h⟩ := bind_ok.1 h
      cases r with
      | none => cases h
      | some d =>
        obtain ⟨hflat, hw₁, hpos, hd⟩ := ioRecv_ok (by omega) hr
        obtain ⟨hlen, hbs, hw'⟩ :=
          ioRecvExactLoop_ok (by simp; omega) (by simp; omega) h
        refine ⟨hlen, ?_, ?_⟩
        · rw [hflat, ← List.append_assoc, hbs]
        · rw [hw', hw₁]
    · cases h
      exact ⟨by omega, rfl, rfl⟩

theorem ioRecvExact_ok {n : Nat} {w w' : World} {bs : Bytes} (h : ioRecvExact n w = .ok bs w') :
    bs.length = n ∧ w.inbox.flatten = bs ++ w'.inbox.flatten ∧ w' = { w with inbox := w'.inbox } :=
  ioRecvExactLoop_ok (Nat.zero_le n) (Nat.le_add_left n _) h

/-- **A record that is read is a record off the front of the stream**, and
nothing but the transport has changed. -/
theorem wnRecvRecord_ok {cap : Nat} {w w' : World} {type : UInt8} {record : Bytes}
    (h : wnRecvRecord cap w = .ok (type, record) w') :
    ∃ v₁ v₂ body, record = wireRecord type v₁ v₂ body ∧ recordCheck cap type body = .ok () ∧
      w.inbox.flatten = record ++ w'.inbox.flatten ∧ w' = { w with inbox := w'.inbox } := by
  unfold wnRecvRecord at h
  obtain ⟨hdr, w₁, hhdr, h⟩ := bind_ok.1 h
  obtain ⟨_, w₂, hf, h⟩ := bind_ok.1 h
  obtain ⟨hfrag, rfl⟩ := failIf_ok.1 hf
  obtain ⟨body, w₃, hbody, h⟩ := bind_ok.1 h
  obtain ⟨_, w₄, hc, h⟩ := bind_ok.1 h
  obtain ⟨hccs, rfl⟩ := failIf_ok.1 hc
  cases h
  obtain ⟨hlen₁, hflat₁, hw₁⟩ := ioRecvExact_ok hhdr
  obtain ⟨hlen₃, hflat₃, hw₃⟩ := ioRecvExact_ok hbody
  obtain ⟨v₁, v₂, hrec⟩ := header_body hlen₁ hlen₃
  refine ⟨v₁, v₂, body, hrec, ?_, ?_, ?_⟩
  · rw [recordCheck, if_neg (by rw [hlen₃]; exact hfrag), if_neg (by rw [hlen₃]; exact hccs)]
  · rw [hflat₁, hflat₃, List.append_assoc]
  · rw [hw₃, hw₁]

/-! ## What reading never changes -/

/-- Only the transport changed, and it holds no more than before. -/
structure OnlyRead (w w' : World) : Prop where
  frame : w' = { w with inbox := w'.inbox }
  pending : w'.pending ≤ w.pending

instance : Std.Refl OnlyRead := ⟨fun _ => ⟨rfl, Nat.le_refl _⟩⟩

instance : IsTrans World OnlyRead :=
  ⟨fun _ _ _ h₁ h₂ => ⟨by rw [h₂.frame, h₁.frame], Nat.le_trans h₂.pending h₁.pending⟩⟩

theorem ioRecv_onlyRead (n : Nat) : Steps OnlyRead (ioRecv n) := by
  intro h
  obtain ⟨inbox, sendRes, trace, sess⟩ := h
  match inbox with
  | [] => exact Std.Refl.refl _
  | [] :: cs => exact ⟨rfl, by simp [ioRecv, World.pending]⟩
  | (b :: c) :: cs =>
    refine ⟨rfl, ?_⟩
    simp only [ioRecv, endState_ok, World.pending, List.flatten_cons, List.length_append]
    split <;> simp

theorem ioRecvExact_onlyRead (n : Nat) : Steps OnlyRead (ioRecvExact n) := by
  unfold ioRecvExact
  suffices h : ∀ k got, Steps OnlyRead (ioRecvExactLoop n k got) from h n []
  intro k
  induction k with
  | zero => exact fun got => .pure got
  | succ k ih =>
    intro got
    rw [ioRecvExactLoop]
    split
    · refine .bind (ioRecv_onlyRead _) fun r => ?_
      cases r with
      | none => exact .throw _
      | some bs => exact ih _
    · exact .pure got

theorem wnRecvRecord_onlyRead (cap : Nat) : Steps OnlyRead (wnRecvRecord cap) :=
  .bind (ioRecvExact_onlyRead 5) fun _ => .bind (.failIf _ _) fun _ =>
    .bind (ioRecvExact_onlyRead _) fun _ => .bind (.failIf _ _) fun _ => .pure _

theorem wnRecvRecord_pending {cap : Nat} {w w' : World} {r : UInt8 × Bytes}
    (h : wnRecvRecord cap w = .ok r w') : w'.pending < w.pending := by
  obtain ⟨_, _, _, hr, _, hflat, _⟩ := wnRecvRecord_ok h
  rw [World.pending, World.pending, hflat, hr, List.length_append, wireRecord_length]
  omega

/-! ## A transport that does not fail -/

/-- No `ioRecv` call fails before the end of the stream. -/
def World.Flowing (w : World) : Prop := [] ∉ w.inbox

/-- One call, when the stream has something: part of it, at most `n` bytes. -/
theorem ioRecv_flowing {n : Nat} {w : World} (hn : 0 < n) (hw : w.Flowing) (hne : w.inbox.flatten ≠ []) :
    ∃ d inbox, [] ∉ inbox ∧ 0 < d.length ∧ d.length ≤ n ∧ w.inbox.flatten = d ++ inbox.flatten ∧
      ioRecv n w = .ok (some d) { w with inbox } := by
  obtain ⟨inbox, sendRes, trace, sess⟩ := w
  match inbox, hw, hne with
  | (b :: c) :: cs, hw, _ =>
    have h := ioRecv_ok (w := ⟨(b :: c) :: cs, sendRes, trace, sess⟩) hn rfl
    refine ⟨_, _, ?_, h.2.2.1, h.2.2.2, h.1, rfl⟩
    simp only [World.Flowing, List.mem_cons, not_or] at hw
    dsimp only
    split
    · simp only [List.mem_cons, not_or]
      refine ⟨fun hnil => ?_, hw.2⟩
      have := congrArg List.length hnil
      rw [List.length_nil, List.length_drop] at this
      omega
    · exact hw.2
  | [], _, hne => exact absurd rfl hne
  | [] :: cs, hw, _ => exact absurd List.mem_cons_self hw

theorem ioRecv_end {n : Nat} {w : World} (hw : w.Flowing) (hnil : w.inbox.flatten = []) :
    ioRecv n w = .ok none { w with inbox := [] } := by
  obtain ⟨inbox, sendRes, trace, sess⟩ := w
  match inbox, hw, hnil with
  | [], _, _ => rfl
  | [] :: cs, hw, _ => exact absurd List.mem_cons_self hw

theorem ioRecvExactLoop_flowing (n : Nat) {rest : Bytes} : ∀ (k : Nat) (got bs : Bytes) (w : World),
    n ≤ got.length + k → w.Flowing → w.inbox.flatten = bs ++ rest → got.length + bs.length = n →
      ∃ inbox, [] ∉ inbox ∧ inbox.flatten = rest ∧
        ioRecvExactLoop n k got w = .ok (got ++ bs) { w with inbox }
  | 0, got, bs, w, hk, hw, hflat, hlen => by
    obtain rfl : bs = [] := List.eq_nil_of_length_eq_zero (by omega)
    exact ⟨w.inbox, hw, hflat, by simp [ioRecvExactLoop]⟩
  | k + 1, got, bs, w, hk, hw, hflat, hlen => by
    by_cases hg : got.length < n
    · have hne : w.inbox.flatten ≠ [] := by
        rw [hflat, ← List.length_pos_iff, List.length_append]
        omega
      obtain ⟨d, inbox, hin, hpos, hd, hsplit, hr⟩ := ioRecv_flowing (n := n - got.length) (by omega) hw hne
      have hpre : bs.take d.length = d ∧ bs.drop d.length ++ rest = inbox.flatten := by
        have h : bs ++ rest = d ++ inbox.flatten := by rw [← hflat, hsplit]
        have hle : d.length ≤ bs.length := by omega
        constructor
        · rw [← List.take_append_of_le_length hle, h, List.take_left]
        · rw [← List.drop_append_of_le_length hle, h, List.drop_left]
      obtain ⟨inbox', hin', hflat', hloop⟩ := ioRecvExactLoop_flowing n k (got ++ d) (bs.drop d.length)
        { w with inbox } (by simp; omega) hin hpre.2.symm
        (by simp; omega)
      refine ⟨inbox', hin', hflat', ?_⟩
      rw [ioRecvExactLoop, if_pos hg, bind_of_ok hr]
      dsimp only
      rw [hloop, List.append_assoc]
      congr 2
      conv => lhs; lhs; rw [← hpre.1]
      exact List.take_append_drop _ _
    · obtain rfl : bs = [] := List.eq_nil_of_length_eq_zero (by omega)
      exact ⟨w.inbox, hw, hflat, by simp [ioRecvExactLoop, if_neg hg]⟩

theorem ioRecvExact_flowing {n : Nat} {w : World} (bs : Bytes) {rest : Bytes} (hw : w.Flowing)
    (hflat : w.inbox.flatten = bs ++ rest) (hlen : bs.length = n) :
    ∃ inbox, [] ∉ inbox ∧ inbox.flatten = rest ∧ ioRecvExact n w = .ok bs { w with inbox } :=
  ioRecvExactLoop_flowing n _ [] bs w (by simp) hw hflat (by simpa using hlen)

/-- **A record at the front of the stream is the one that is read**, in
whatever pieces it comes. -/
theorem wnRecvRecord_wire (cap : Nat) {w : World} {type v₁ v₂ : UInt8} {body rest : Bytes}
    (hw : w.Flowing) (hflat : w.inbox.flatten = wireRecord type v₁ v₂ body ++ rest)
    (hlen : body.length < 2 ^ 16) :
    ∃ inbox, [] ∉ inbox ∧ (recordCheck cap type body = .ok () → inbox.flatten = rest) ∧
      wnRecvRecord cap w = match recordCheck cap type body with
        | .ok () => .ok (type, wireRecord type v₁ v₂ body) { w with inbox }
        | .error e => .error e { w with inbox } := by
  obtain ⟨inbox₁, hin₁, hflat₁, hr₁⟩ := ioRecvExact_flowing (n := 5) (w := w)
    (type :: v₁ :: v₂ :: be 2 body.length) hw
    (show _ = _ ++ (body ++ rest) by rw [hflat]; simp [wireRecord, vec]) (by simp)
  have hfrag : headerFrag (type :: v₁ :: v₂ :: be 2 body.length) = body.length := by
    rw [be_two, headerFrag_eq, ← be_two, unbe_be hlen]
  unfold wnRecvRecord recordCheck
  rw [bind_of_ok hr₁, hfrag]
  by_cases hbad : body.length = 0 ∨ body.length + 5 > cap ∨ body.length > wnMaxPlaintext + 256
  · refine ⟨inbox₁, hin₁, by rw [if_pos hbad]; simp, ?_⟩
    rw [failIf_pos hbad, if_pos hbad]
    rfl
  · obtain ⟨inbox₂, hin₂, hflat₂, hr₂⟩ := ioRecvExact_flowing (w := { w with inbox := inbox₁ })
      body hin₁ hflat₁ (rfl : body.length = body.length)
    refine ⟨inbox₂, hin₂, fun _ => hflat₂, ?_⟩
    rw [failIf_neg hbad, if_neg hbad, pure_bind, bind_of_ok hr₂, List.getD_cons_zero]
    by_cases hccs : type = wnRecChangeCipher ∧ (body.length ≠ 1 ∨ body.getD 0 0 ≠ 1)
    · rw [failIf_pos hccs, if_pos hccs]
      rfl
    · rw [failIf_neg hccs, if_neg hccs]
      rfl

/-- At the end of the stream there is no record. -/
theorem wnRecvRecord_end {cap : Nat} {w : World} (hw : w.Flowing) (hnil : w.inbox.flatten = []) :
    wnRecvRecord cap w = .error .crypto { w with inbox := [] } := by
  unfold wnRecvRecord
  rw [bind_of_error]
  rw [ioRecvExact, ioRecvExactLoop, if_pos (by simp), bind_of_ok (ioRecv_end hw hnil)]
  rfl

end WolfNano

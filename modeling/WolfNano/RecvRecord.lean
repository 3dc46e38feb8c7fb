/-
`wn_RecvRecord` in memory: what it leaves at `rec` and in `*type` and
`*recLen`, also where it fails.

`wnRecvRecordInto` is the function with its buffer, the partial reads landing
in it as they come. Over any transport it reads the record that `wnRecvRecord`
reads; over one that does not fail, all that it leaves is a function of the
bytes to come (`streamOutcome`), whatever pieces they come in.
-/
import WolfNano.RecordFacts

namespace WolfNano

open Prog Wire

/-! ## The code -/

/-- The memory from `rec` on, `*type` and `*recLen`. -/
structure RecordOut where
  mem : Bytes
  type : UInt8
  recLen : Nat
  deriving DecidableEq

structure RecvState where
  world : World
  out : RecordOut

/-- A program that reads records into memory. -/
abbrev RecvIo := EStateM Err RecvState

/-- One `ioRecv` call for `n` bytes to `dst`: how many came; an error is none. -/
def ioRecvInto (dst n : Nat) : RecvIo (Option Nat) := fun s =>
  match ioRecv n s.world with
  | .ok (some bs) w => .ok (some bs.length) ⟨w, { s.out with mem := patch s.out.mem dst bs }⟩
  | .ok none w => .ok none { s with world := w }
  | .error e w => .error e { s with world := w }

/-- One turn of the loop of `io_recv_exact`, `got` bytes being there. -/
def ioRecvExactStep (buf n got : Nat) : RecvIo (Nat ⊕ Unit) :=
  if got < n then do
    match ← ioRecvInto (buf + got) (n - got) with
    | some r => pure (.inl (add32 got r))
    | none => throw .crypto
  else pure (.inr ())

/-- `io_recv_exact` into the `n` bytes at `buf`. Each call that does not fail
brings at least one, so `n` calls are enough. -/
def ioRecvExactInto (buf n : Nat) : RecvIo Unit := repeatM .crypto (ioRecvExactStep buf n) (n + 1) 0

/-- `wn_RecvRecord` behind its header. `*recLen` is stored whether or not the
body is read. -/
def recvBodyInto (cap : Nat) (type : UInt8) (frag : Nat) : RecvIo Unit := do
  failIf (frag = 0 ∨ frag + 5 > cap ∨ frag > wnMaxPlaintext + 256) .crypto
  modify fun s => { s with out := { s.out with recLen := frag + 5 } }
  ioRecvExactInto 5 frag
  let buf := (← get).out.mem
  failIf (type = wnRecChangeCipher ∧ (frag ≠ 1 ∨ buf.getD 5 0 ≠ 1)) .decode

/-- `wn_RecvRecord`, `rec` at the front of the memory. -/
def wnRecvRecordInto (cap : Nat) : RecvIo Unit := do
  ioRecvExactInto 0 5
  let buf := (← get).out.mem
  modify fun s => { s with out := { s.out with type := buf.getD 0 0 } }
  recvBodyInto cap (buf.getD 0 0) (headerFrag buf)

/-- The return code, what the call leaves its caller, and the transport after. -/
def recvRecordRun (cap : Nat) (w : World) (o : RecordOut) : Except Err Unit × RecordOut × World :=
  match wnRecvRecordInto cap ⟨w, o⟩ with
  | .ok () s => (.ok (), s.out, s.world)
  | .error e s => (.error e, s.out, s.world)

/-! ## Partial reads -/

/-- A call brings something or nothing. -/
theorem ioRecv_cases (n : Nat) (w : World) : (∃ bs w', ioRecv n w = .ok (some bs) w') ∨
    ∃ w', ioRecv n w = .ok none w' ∧ w'.inbox.flatten = w.inbox.flatten := by
  obtain ⟨inbox, sendRes, trace, sess⟩ := w
  match inbox with
  | [] => exact .inr ⟨_, rfl, rfl⟩
  | [] :: cs => exact .inr ⟨_, rfl, rfl⟩
  | (b :: c) :: cs => exact .inl ⟨_, _, rfl⟩

section Step

variable {buf n : Nat} {o : RecordOut} {got : Bytes} {w w' : World} (hlt : got.length < n)
include hlt

theorem ioRecvExactStep_none (hr : ioRecv (n - got.length) w = .ok none w') :
    ioRecvExactStep buf n got.length ⟨w, o⟩ = .error .crypto ⟨w', o⟩ := by
  have hinto : ioRecvInto (buf + got.length) (n - got.length) ⟨w, o⟩ = .ok none ⟨w', o⟩ := by
    unfold ioRecvInto
    dsimp only
    rw [hr]
  unfold ioRecvExactStep
  rw [if_pos hlt, bind_of_ok hinto]
  rfl

theorem ioRecvExactStep_some (hn : n < 2 ^ 32) {bs : Bytes}
    (hr : ioRecv (n - got.length) w = .ok (some bs) w') :
    ioRecvExactStep buf n got.length ⟨w, { o with mem := patch o.mem buf got }⟩ =
      .ok (.inl (got ++ bs).length) ⟨w', { o with mem := patch o.mem buf (got ++ bs) }⟩ := by
  have hinto : ioRecvInto (buf + got.length) (n - got.length) ⟨w, { o with mem := patch o.mem buf got }⟩ =
      .ok (some bs.length) ⟨w', { o with mem := patch o.mem buf (got ++ bs) }⟩ := by
    unfold ioRecvInto
    dsimp only
    rw [hr]
    dsimp only
    rw [patch_patch]
  have hle := (ioRecv_ok (by omega) hr).2.2.2
  unfold ioRecvExactStep
  rw [if_pos hlt, bind_of_ok hinto]
  dsimp only
  rw [add32_eq (by omega), List.length_append]
  rfl

end Step

/-- The loop, `got` being there and `k` calls enough: it stores what
`ioRecvExactLoop` gets, and where that fails what came before. -/
theorem ioRecvExactLoop_into (buf : Nat) {n : Nat} (hn : n < 2 ^ 32) (o : RecordOut) :
    ∀ (k : Nat) (got : Bytes) (w : World), got.length ≤ n → n ≤ got.length + k →
      match ioRecvExactLoop n k got w with
      | .ok bs w' => repeatM .crypto (ioRecvExactStep buf n) (k + 1) got.length
          ⟨w, { o with mem := patch o.mem buf got }⟩ = .ok () ⟨w', { o with mem := patch o.mem buf bs }⟩
      | .error e w' => ∃ bs, got ++ w.inbox.flatten = bs ++ w'.inbox.flatten ∧ bs.length < n ∧
          repeatM .crypto (ioRecvExactStep buf n) (k + 1) got.length
            ⟨w, { o with mem := patch o.mem buf got }⟩ = .error e ⟨w', { o with mem := patch o.mem buf bs }⟩ := by
  intro k
  induction k with
  | zero =>
    intro got w hle hk
    refine repeatM_done ?_
    unfold ioRecvExactStep
    rw [if_neg (by omega)]
    rfl
  | succ k ih =>
    intro got w hle hk
    rw [ioRecvExactLoop]
    by_cases hlt : got.length < n
    · rw [if_pos hlt]
      rcases ioRecv_cases (n - got.length) w with ⟨bs, w₁, hr⟩ | ⟨w₁, hr, hflat⟩
      · obtain ⟨hflat, -, hpos, hle'⟩ := ioRecv_ok (by omega) hr
        rw [bind_of_ok hr, repeatM_continue (ioRecvExactStep_some hlt hn hr), hflat, ← List.append_assoc]
        exact ih (got ++ bs) w₁ (by rw [List.length_append]; omega) (by rw [List.length_append]; omega)
      · rw [bind_of_ok hr]
        exact ⟨got, by rw [hflat], hlt, repeatM_error (ioRecvExactStep_none hlt hr)⟩
    · rw [if_neg hlt]
      refine repeatM_done ?_
      unfold ioRecvExactStep
      rw [if_neg hlt]
      rfl

/-- **`io_recv_exact` in memory**: what `ioRecvExact` reads is at `buf`, and where
it fails what came of it. -/
theorem ioRecvExactInto_eq (buf : Nat) {n : Nat} (hn : n < 2 ^ 32) (o : RecordOut) (w : World) :
    match ioRecvExact n w with
    | .ok bs w' => ioRecvExactInto buf n ⟨w, o⟩ = .ok () ⟨w', { o with mem := patch o.mem buf bs }⟩
    | .error e w' => ∃ bs, w.inbox.flatten = bs ++ w'.inbox.flatten ∧ bs.length < n ∧
        ioRecvExactInto buf n ⟨w, o⟩ = .error e ⟨w', { o with mem := patch o.mem buf bs }⟩ := by
  have h := ioRecvExactLoop_into buf hn o n [] w (Nat.zero_le n) (Nat.le_add_left n _)
  rw [patch_nil] at h
  exact h

/-! ## The record in memory -/

theorem getD_patch {mem bs : Bytes} {i : Nat} (h : i < bs.length) : (patch mem 0 bs).getD i 0 = bs.getD i 0 := by
  rw [patch_zero, List.getD_append _ _ _ _ h]

theorem headerFrag_patch (mem bs : Bytes) {hdr : Bytes} (h : hdr.length = 5) :
    headerFrag (patch mem 0 (hdr ++ bs)) = headerFrag hdr := by
  have hget : ∀ i < 5, (patch mem 0 (hdr ++ bs)).getD i 0 = hdr.getD i 0 := by
    intro i hi
    rw [getD_patch (by rw [List.length_append]; omega), List.getD_append _ _ _ _ (by omega)]
  rw [headerFrag, hget 3 (by omega), hget 4 (by omega), headerFrag]

theorem getD_patch_body {mem hdr body : Bytes} (h : hdr.length = 5) (hbody : 0 < body.length) :
    (patch mem 0 (hdr ++ body)).getD 5 0 = body.getD 0 0 := by
  rw [getD_patch (by rw [List.length_append]; omega), List.getD_append_right _ _ _ _ (by omega), h]

/-- The lengths that `wn_RecvRecord` refuses. -/
abbrev BadFrag (cap frag : Nat) : Prop := frag = 0 ∨ frag + 5 > cap ∨ frag > wnMaxPlaintext + 256

/-- The ChangeCipherSpecs that it refuses. -/
abbrev BadCcs (type : UInt8) (body : Bytes) : Prop :=
  type = wnRecChangeCipher ∧ (body.length ≠ 1 ∨ body.getD 0 0 ≠ 1)

/-- The header is there: its first byte is `*type`. -/
theorem wnRecvRecordInto_header (cap : Nat) (o : RecordOut) {w w' : World} {hdr : Bytes}
    (h : ioRecvExact 5 w = .ok hdr w') : wnRecvRecordInto cap ⟨w, o⟩ =
      recvBodyInto cap (hdr.getD 0 0) (headerFrag hdr) ⟨w', ⟨patch o.mem 0 hdr, hdr.getD 0 0, o.recLen⟩⟩ := by
  have hread := ioRecvExactInto_eq 0 (show 5 < 2 ^ 32 by decide) o w
  rw [h] at hread
  have hlen := (ioRecvExact_ok h).1
  have htype : (patch o.mem 0 hdr).getD 0 0 = hdr.getD 0 0 := getD_patch (by omega)
  have hfrag := headerFrag_patch o.mem [] hlen
  rw [List.append_nil] at hfrag
  unfold wnRecvRecordInto
  rw [bind_of_ok hread, bind_of_ok (get_apply _)]
  dsimp only
  rw [bind_of_ok (modify_apply _ _), htype, hfrag]

theorem recvBodyInto_refused {cap frag : Nat} (h : BadFrag cap frag) (type : UInt8) (s : RecvState) :
    recvBodyInto cap type frag s = .error .crypto s := by
  unfold recvBodyInto
  rw [failIf_pos h]
  rfl

/-- The body is there, or what came of it. -/
theorem recvBodyInto_eq {cap frag : Nat} (hgood : ¬ BadFrag cap frag) (o : RecordOut)
    {hdr : Bytes} (hhdr : hdr.length = 5) (type : UInt8) (w : World) :
    match ioRecvExact frag w with
    | .ok body w' => recvBodyInto cap type frag ⟨w, ⟨patch o.mem 0 hdr, type, o.recLen⟩⟩ =
        (failIf (BadCcs type body) .decode : RecvIo Unit) ⟨w', ⟨patch o.mem 0 (hdr ++ body), type, frag + 5⟩⟩
    | .error e w' => ∃ bs, w.inbox.flatten = bs ++ w'.inbox.flatten ∧ bs.length < frag ∧
        recvBodyInto cap type frag ⟨w, ⟨patch o.mem 0 hdr, type, o.recLen⟩⟩ =
          .error e ⟨w', ⟨patch o.mem 0 (hdr ++ bs), type, frag + 5⟩⟩ := by
  obtain ⟨hpos, hroom, hmax⟩ : 0 < frag ∧ frag + 5 ≤ cap ∧ frag ≤ wnMaxPlaintext + 256 := by
    unfold BadFrag at hgood
    omega
  have hsmall : frag < 2 ^ 32 := Nat.lt_of_le_of_lt hmax (by decide)
  have hthen : ∀ bs, patch (patch o.mem 0 hdr) 5 bs = patch o.mem 0 (hdr ++ bs) := by
    intro bs
    have h := patch_patch o.mem 0 hdr bs
    rwa [hhdr, Nat.zero_add] at h
  have hread := ioRecvExactInto_eq 5 hsmall ⟨patch o.mem 0 hdr, type, frag + 5⟩ w
  unfold recvBodyInto
  rw [failIf_neg hgood, pure_bind, bind_of_ok (modify_apply _ _)]
  cases hr : ioRecvExact frag w with
  | error e w' =>
    rw [hr] at hread
    obtain ⟨bs, hflat, hlt, hread⟩ := hread
    refine ⟨bs, hflat, hlt, ?_⟩
    rw [bind_of_error hread, hthen]
  | ok body w' =>
    rw [hr] at hread
    have hlen := (ioRecvExact_ok hr).1
    dsimp only
    rw [bind_of_ok hread, bind_of_ok (get_apply _), hthen]
    dsimp only
    rw [getD_patch_body hhdr (by omega), ← hlen]

/-- **Over any transport** the record that `wnRecvRecord` reads is the one in
memory, and where it fails only bytes within `cap` have been written. -/
theorem wnRecvRecordInto_eq {cap : Nat} (hcap : 5 ≤ cap) (o : RecordOut) (w : World) :
    match wnRecvRecord cap w with
    | .ok (type, record) w' => record.length ≤ cap ∧
        wnRecvRecordInto cap ⟨w, o⟩ = .ok () ⟨w', ⟨patch o.mem 0 record, type, record.length⟩⟩
    | .error e w' => ∃ bs type recLen, bs.length ≤ cap ∧
        wnRecvRecordInto cap ⟨w, o⟩ = .error e ⟨w', ⟨patch o.mem 0 bs, type, recLen⟩⟩ := by
  unfold wnRecvRecord
  rw [bind_apply]
  cases hhdr : ioRecvExact 5 w with
  | error e w₁ =>
    have hread := ioRecvExactInto_eq 0 (show 5 < 2 ^ 32 by decide) o w
    rw [hhdr] at hread
    obtain ⟨bs, -, hlt, hread⟩ := hread
    refine ⟨bs, o.type, o.recLen, by omega, ?_⟩
    unfold wnRecvRecordInto
    rw [bind_of_error hread]
  | ok hdr w₁ =>
    have hlen := (ioRecvExact_ok hhdr).1
    rw [wnRecvRecordInto_header cap o hhdr]
    dsimp only
    by_cases hbad : BadFrag cap (headerFrag hdr)
    · rw [failIf_pos hbad, recvBodyInto_refused hbad]
      exact ⟨hdr, hdr.getD 0 0, o.recLen, by omega, rfl⟩
    · have hbody := recvBodyInto_eq hbad o hlen (hdr.getD 0 0) w₁
      have hroom : headerFrag hdr + 5 ≤ cap := by
        unfold BadFrag at hbad
        omega
      rw [failIf_neg hbad, pure_bind, bind_apply]
      cases hr : ioRecvExact (headerFrag hdr) w₁ with
      | error e w₂ =>
        rw [hr] at hbody
        obtain ⟨bs, -, hlt, hbody⟩ := hbody
        exact ⟨hdr ++ bs, _, _, by rw [List.length_append]; omega, hbody⟩
      | ok body w₂ =>
        rw [hr] at hbody
        have hfrag := (ioRecvExact_ok hr).1
        dsimp only at hbody ⊢
        rw [hbody]
        by_cases hccs : BadCcs (hdr.getD 0 0) body
        · rw [failIf_pos hccs, ← hfrag, failIf_pos hccs]
          exact ⟨hdr ++ body, _, _, by rw [List.length_append]; omega, rfl⟩
        · rw [failIf_neg hccs, ← hfrag, failIf_neg hccs]
          refine ⟨by rw [List.length_append]; omega, ?_⟩
          rw [List.length_append, hlen, Nat.add_comm]
          rfl

/-! ## A function of the stream -/

/-- What a call leaves where these bytes are to come: of the header and body
what there is, as far as the lengths are good. -/
def streamOutcome (cap : Nat) (o : RecordOut) (stream : Bytes) : Except Err Unit × RecordOut :=
  let hdr := stream.take 5
  let type := hdr.getD 0 0
  let frag := headerFrag hdr
  let body := (stream.drop 5).take frag
  if hdr.length < 5 then (.error .crypto, { o with mem := patch o.mem 0 hdr })
  else if BadFrag cap frag then (.error .crypto, { o with mem := patch o.mem 0 hdr, type })
  else if body.length < frag then (.error .crypto, ⟨patch o.mem 0 (hdr ++ body), type, frag + 5⟩)
  else (if BadCcs type body then .error .decode else .ok (), ⟨patch o.mem 0 (hdr ++ body), type, frag + 5⟩)

/-- At the end of the stream a read has failed. -/
theorem ioRecvExactLoop_short {n : Nat} : ∀ (k : Nat) (got : Bytes) (w : World), n ≤ got.length + k → w.Flowing →
    got.length + w.inbox.flatten.length < n → ioRecvExactLoop n k got w = .error .crypto { w with inbox := [] }
  | 0, got, w, hk, _, hlt => by omega
  | k + 1, got, w, hk, hw, hlt => by
    rw [ioRecvExactLoop, if_pos (by omega)]
    by_cases hnil : w.inbox.flatten = []
    · rw [bind_of_ok (ioRecv_end hw hnil)]
      rfl
    · obtain ⟨d, inbox, hin, hpos, -, hflat, hr⟩ := ioRecv_flowing (show 0 < n - got.length by omega) hw hnil
      rw [hflat, List.length_append] at hlt
      rw [bind_of_ok hr]
      dsimp only
      rw [ioRecvExactLoop_short k (got ++ d) { w with inbox } (by rw [List.length_append]; omega) hin
        (show (got ++ d).length + inbox.flatten.length < n by rw [List.length_append]; omega)]

theorem ioRecvExact_short {n : Nat} {w : World} (hw : w.Flowing) (hlt : w.inbox.flatten.length < n) :
    ioRecvExact n w = .error .crypto { w with inbox := [] } :=
  ioRecvExactLoop_short n [] w (by simp) hw (by simpa using hlt)

theorem recvRecordRun_stream (cap : Nat) (o : RecordOut) {w : World}
    (hw : w.Flowing) :
    ((recvRecordRun cap w o).1, (recvRecordRun cap w o).2.1) = streamOutcome cap o w.inbox.flatten := by
  unfold streamOutcome recvRecordRun
  dsimp only
  by_cases hshort : w.inbox.flatten.length < 5
  · have hhdr := ioRecvExact_short hw hshort
    have hread := ioRecvExactInto_eq 0 (show 5 < 2 ^ 32 by decide) o w
    rw [hhdr] at hread
    obtain ⟨bs, hflat, -, hread⟩ := hread
    have hbs : bs = w.inbox.flatten.take 5 := by
      rw [List.take_of_length_le (by omega), hflat]
      simp
    rw [if_pos (by rw [List.length_take]; omega)]
    unfold wnRecvRecordInto
    rw [bind_of_error hread, ← hbs]
  · have hlen : (w.inbox.flatten.take 5).length = 5 := by
      rw [List.length_take]
      omega
    obtain ⟨inbox, hin, hrest, hhdr⟩ := ioRecvExact_flowing (w.inbox.flatten.take 5) hw
      (List.take_append_drop 5 _).symm hlen
    rw [if_neg (by omega), wnRecvRecordInto_header cap o hhdr]
    generalize w.inbox.flatten.take 5 = hdr at hlen hhdr ⊢
    rw [← hrest]
    by_cases hbad : BadFrag cap (headerFrag hdr)
    · rw [if_pos hbad, recvBodyInto_refused hbad]
    · have hbody := recvBodyInto_eq hbad o hlen (hdr.getD 0 0) { w with inbox }
      rw [if_neg hbad]
      by_cases hcut : inbox.flatten.length < headerFrag hdr
      · rw [ioRecvExact_short (w := { w with inbox }) hin hcut] at hbody
        obtain ⟨bs, hflat, -, hbody⟩ := hbody
        have hbs : bs = inbox.flatten.take (headerFrag hdr) := by
          rw [List.take_of_length_le (by omega)]
          simpa using hflat.symm
        rw [if_pos (by rw [List.length_take]; omega), hbody, ← hbs]
      · have hlen' : (inbox.flatten.take (headerFrag hdr)).length = headerFrag hdr := by
          rw [List.length_take]
          omega
        obtain ⟨inbox', -, -, hr⟩ := ioRecvExact_flowing (w := { w with inbox }) _ hin
          (List.take_append_drop (headerFrag hdr) _).symm hlen'
        rw [hr] at hbody
        rw [if_neg (by omega), hbody]
        by_cases hccs : BadCcs (hdr.getD 0 0) (inbox.flatten.take (headerFrag hdr))
        · rw [failIf_pos hccs, if_pos hccs]
          rfl
        · rw [failIf_neg hccs, if_neg hccs]
          rfl

/-! ## The contract -/

/-- What is written is inside `rec[cap)`, over any transport. -/
theorem recvRecordRun_inside {cap : Nat} (hcap : 5 ≤ cap) {o : RecordOut} (hmem : cap ≤ o.mem.length) (w : World) :
    (recvRecordRun cap w o).2.1.mem.length = o.mem.length ∧
      (recvRecordRun cap w o).2.1.mem.drop cap = o.mem.drop cap := by
  have hkept : ∀ {bs : Bytes}, bs.length ≤ cap →
      (patch o.mem 0 bs).length = o.mem.length ∧ (patch o.mem 0 bs).drop cap = o.mem.drop cap :=
    fun hle => ⟨patch_length (by omega), drop_past_patch _ _ (by omega)⟩
  have heq := wnRecvRecordInto_eq hcap o w
  unfold recvRecordRun
  cases hr : wnRecvRecord cap w with
  | error e w' =>
    rw [hr] at heq
    obtain ⟨bs, type, recLen, hle, heq⟩ := heq
    rw [heq]
    exact hkept hle
  | ok x w' =>
    obtain ⟨type, record⟩ := x
    rw [hr] at heq
    rw [heq.2]
    exact hkept heq.1

/-- A call that succeeds has taken a record off the front of the stream, over
any transport. -/
theorem recvRecordRun_ok {cap : Nat} (hcap : 5 ≤ cap) {o o' : RecordOut} {w w' : World}
    (h : recvRecordRun cap w o = (.ok (), o', w')) : ∃ type v₁ v₂ body,
      w.inbox.flatten = wireRecord type v₁ v₂ body ++ w'.inbox.flatten ∧ recordCheck cap type body = .ok () ∧
        o' = ⟨patch o.mem 0 (wireRecord type v₁ v₂ body), type, body.length + 5⟩ := by
  have heq := wnRecvRecordInto_eq hcap o w
  unfold recvRecordRun at h
  cases hr : wnRecvRecord cap w with
  | error e w₁ =>
    rw [hr] at heq
    obtain ⟨bs, type, recLen, -, heq⟩ := heq
    rw [heq] at h
    cases h
  | ok x w₁ =>
    obtain ⟨type, record⟩ := x
    obtain ⟨v₁, v₂, body, rfl, hcheck, hflat, -⟩ := wnRecvRecord_ok hr
    rw [hr] at heq
    rw [heq.2] at h
    cases h
    exact ⟨type, v₁, v₂, body, hflat, hcheck, by rw [wireRecord_length, Nat.add_comm]⟩

theorem recvRecordRun_wire {cap : Nat} (hcap : 5 ≤ cap) (o : RecordOut) {w : World}
    (hw : w.Flowing) {type v₁ v₂ : UInt8} {body rest : Bytes}
    (hflat : w.inbox.flatten = wireRecord type v₁ v₂ body ++ rest) (hcheck : recordCheck cap type body = .ok ()) :
    (recvRecordRun cap w o).1 = .ok () := by
  have hlen : body.length < 2 ^ 16 := Nat.lt_of_le_of_lt (recordCheck_ok.1 hcheck).2.2.1 (by decide)
  obtain ⟨inbox, -, -, hr⟩ := wnRecvRecord_wire cap hw hflat hlen
  rw [hcheck] at hr
  have heq := wnRecvRecordInto_eq hcap o w
  rw [hr] at heq
  unfold recvRecordRun
  rw [heq.2]

/-- **`wn_RecvRecord` depends only on the bytes**, whatever pieces they come in:
all it leaves its caller is `streamOutcome` of them. It succeeds just on a
record within its limits, which it takes off the stream whole; and no call
writes past `rec[cap)`. -/
theorem wnRecvRecord_bytes {cap : Nat} (hcap : 5 ≤ cap) {o o' : RecordOut} (hmem : cap ≤ o.mem.length) {w w' : World}
    (hw : w.Flowing) {code : Except Err Unit} (h : recvRecordRun cap w o = (code, o', w')) :
    (code, o') = streamOutcome cap o w.inbox.flatten ∧
    (code = .ok () ↔ ∃ type v₁ v₂ body rest, w.inbox.flatten = wireRecord type v₁ v₂ body ++ rest ∧
      1 ≤ body.length ∧ body.length ≤ 2 ^ 14 + 256 ∧ body.length + 5 ≤ cap ∧ (type = 20 → body = [1])) ∧
    (code = .ok () → ∃ type v₁ v₂ body, w.inbox.flatten = wireRecord type v₁ v₂ body ++ w'.inbox.flatten ∧
      o'.type = type ∧ o'.recLen = body.length + 5 ∧
      o'.mem = wireRecord type v₁ v₂ body ++ o.mem.drop (body.length + 5)) ∧
    o'.mem.length = o.mem.length ∧ o'.mem.drop cap = o.mem.drop cap := by
  have hstream := recvRecordRun_stream cap o hw
  have hinside := recvRecordRun_inside hcap hmem w
  rw [h] at hstream hinside
  refine ⟨hstream, ⟨fun hok => ?_, fun hrecord => ?_⟩, fun hok => ?_, hinside⟩
  · subst hok
    obtain ⟨type, v₁, v₂, body, hflat, hcheck, -⟩ := recvRecordRun_ok hcap h
    obtain ⟨hne, hroom, hmax, hccs⟩ := recordCheck_ok.1 hcheck
    exact ⟨type, v₁, v₂, body, _, hflat, List.length_pos_iff.2 hne, hmax, hroom, hccs⟩
  · obtain ⟨type, v₁, v₂, body, rest, hflat, hpos, hmax, hroom, hccs⟩ := hrecord
    have hok := recvRecordRun_wire hcap o hw hflat
      (recordCheck_ok.2 ⟨List.length_pos_iff.1 hpos, hroom, hmax, hccs⟩)
    rwa [h] at hok
  · subst hok
    obtain ⟨type, v₁, v₂, body, hflat, -, rfl⟩ := recvRecordRun_ok hcap h
    refine ⟨type, v₁, v₂, body, hflat, rfl, rfl, ?_⟩
    rw [patch_zero, wireRecord_length, Nat.add_comm]

/-- A record in pieces of one, three and four bytes, and more behind it. -/
theorem wnRecvRecord_bytes_pieces :
    let w := World.fresh [[23], [3, 3, 0], [2, 7, 8, 9]] [] .zero
    recvRecordRun 8 w ⟨List.replicate 10 0, 0, 0⟩ =
      (.ok (), ⟨[23, 3, 3, 0, 2, 7, 8, 0, 0, 0], 23, 7⟩, .fresh [[9]] [] .zero) ∧
    (.ok (), (⟨[23, 3, 3, 0, 2, 7, 8, 0, 0, 0], 23, 7⟩ : RecordOut)) =
      streamOutcome 8 ⟨List.replicate 10 0, 0, 0⟩ [23, 3, 3, 0, 2, 7, 8, 9] := by
  have h : recvRecordRun 8 (.fresh [[23], [3, 3, 0], [2, 7, 8, 9]] [] .zero) ⟨List.replicate 10 0, 0, 0⟩ =
      (.ok (), ⟨[23, 3, 3, 0, 2, 7, 8, 0, 0, 0], 23, 7⟩, .fresh [[9]] [] .zero) := rfl
  exact ⟨h, (wnRecvRecord_bytes (by decide) (by decide) (by simp [World.Flowing, World.fresh]) h).1⟩

end WolfNano

/-
The loop both drivers read the server's flight with.

A turn reads a record, skips it if it is a ChangeCipherSpec, and else opens it
and scans the accumulated contents for whole messages. The drivers differ in
their messages and in what room they have for a record; a `FlightLoop` is what
they have in common. `FlightLoop.repeat_ok` says what a loop that ends well has
read, `FlightLoop.repeat_run` what the loop does with a stream of records that
open: it depends on what the contents spell, not on where they were cut.
-/
import WolfNano.HandshakeFacts
import WolfNano.Lib.Reassembly

namespace WolfNano

open Prog Wire Reassembly

variable {cfg : Config}

/-! ## Message sizes -/

theorem msgLenAt_cons (a b c d : UInt8) (u : Bytes) : msgLenAt (a :: b :: c :: d :: u) 0 = unbe [b, c, d] := by
  rw [← word24Of_eq]
  simp [msgLenAt]

theorem msgLenAt_append {u : Bytes} (v : Bytes) (h : 4 ≤ u.length) : msgLenAt (u ++ v) 0 = msgLenAt u 0 := by
  match u, h with
  | a :: b :: c :: d :: u, _ => rfl

/-! A message is as long as its first four bytes say, which are part of it. -/

theorem msgHead_pos : 0 < 4 := by decide

theorem msgSize_append : ∀ {u : Bytes} (v : Bytes), 4 ≤ u.length → 4 + msgLenAt (u ++ v) 0 = 4 + msgLenAt u 0 := by
  intro u v h
  rw [msgLenAt_append v h]

theorem msgHead_le_size : ∀ u : Bytes, 4 ≤ 4 + msgLenAt u 0 := fun _ => Nat.le_add_right _ _

theorem msgLenAt_drop (buf : Bytes) (off : Nat) : msgLenAt (buf.drop off) 0 = msgLenAt buf off := by
  simp [msgLenAt, List.getD_eq_getElem?_getD]

theorem exists_cons4 {m : Bytes} (h : 4 ≤ m.length) : ∃ a b c d m', m = a :: b :: c :: d :: m' := by
  match m, h with
  | a :: b :: c :: d :: m', _ => exact ⟨a, b, c, d, m', rfl⟩

/-- A message of its own size is type, length, body. -/
theorem hsMsg_of_size {m : Bytes} (hm : 4 + msgLenAt m 0 = m.length) :
    m = Rfc.hsMsg (m.getD 0 0) (m.drop 4) := by
  obtain ⟨a, b, c, d, m, rfl⟩ := exists_cons4 (m := m) (by omega)
  rw [msgLenAt_cons] at hm
  have hl : m.length = unbe [b, c, d] := by simp only [List.length_cons] at hm; omega
  have hbe : be 3 m.length = [b, c, d] := by
    rw [hl]
    exact be_unbe [b, c, d]
  simp [Rfc.hsMsg, vec, hbe]

theorem hsMsg_size {type : UInt8} {body : Bytes} (h : body.length < 2 ^ 24) :
    4 + msgLenAt (Rfc.hsMsg type body) 0 = (Rfc.hsMsg type body).length := by
  have : msgLenAt (Rfc.hsMsg type body) 0 = unbe (be 3 body.length) := by
    rw [Rfc.hsMsg, vec, be_three]
    exact msgLenAt_cons _ _ _ _ _
  rw [this, unbe_be (by omega)]
  simp [Rfc.hsMsg]
  omega

@[simp] theorem hsMsg_type (type : UInt8) (body : Bytes) : (Rfc.hsMsg type body).getD 0 0 = type := rfl

@[simp] theorem hsMsg_body (type : UInt8) (body : Bytes) : (Rfc.hsMsg type body).drop 4 = body := by
  simp [Rfc.hsMsg, vec, be_three]

@[simp] theorem hsMsg_length (type : UInt8) (body : Bytes) : (Rfc.hsMsg type body).length = 4 + body.length := by
  simp [Rfc.hsMsg]; omega

theorem hsMsg_drop_lt {m : Bytes} (h : 4 + msgLenAt m 0 = m.length) : (m.drop 4).length < 2 ^ 24 := by
  have := word24Of_lt (m.getD (0 + 1) 0) (m.getD (0 + 2) 0) (m.getD (0 + 3) 0)
  rw [List.length_drop, ← h]
  unfold msgLenAt
  omega

/-! ## One turn -/

/-- A turn that does `take` with a record that is not a ChangeCipherSpec. -/
def flightTurn {τ : Type} (cap : Nat) (done : τ → Bool) (take : τ → UInt8 → Bytes → Except Err τ) (st : τ) :
    Io (τ ⊕ τ) := do
  let (rtype, record) ← wnRecvRecord cap
  if rtype = wnRecChangeCipher then pure (.inl st)
  else do
    let st ← ofExcept (take st rtype record)
    pure (if done st then .inr st else .inl st)

section Turn

variable {τ : Type} {cap : Nat} {done : τ → Bool} {take : τ → UInt8 → Bytes → Except Err τ} {st : τ} {w w' : World}

theorem flightTurn_ok {x : τ ⊕ τ} (h : flightTurn cap done take st w = .ok x w') :
    (∃ v, x = .inl st ∧ w.Read (ccsRecord v) w') ∨
      ∃ rtype v₁ v₂ body st', recordCheck cap rtype body = .ok () ∧ w.Read (wireRecord rtype v₁ v₂ body) w' ∧
        take st rtype (wireRecord rtype v₁ v₂ body) = .ok st' ∧ x = if done st' then .inr st' else .inl st' := by
  unfold flightTurn at h
  obtain ⟨⟨rtype, record⟩, w₁, hrecv, h⟩ := bind_ok.1 h
  dsimp only at h
  split at h
  · next hccs =>
    cases h
    subst hccs
    obtain ⟨v, rfl, hread⟩ := wnRecvRecord_ccs hrecv
    exact .inl ⟨v, rfl, hread⟩
  · obtain ⟨v₁, v₂, body, rfl, hc, hread⟩ := wnRecvRecord_read hrecv
    obtain ⟨st', w₂, hx, h⟩ := bind_ok.1 h
    obtain ⟨htake, rfl⟩ := ofExcept_eq_ok.1 hx
    cases h
    exact .inr ⟨rtype, v₁, v₂, body, st', hc, hread, htake, rfl⟩

theorem flightTurn_ccs {record : Bytes} (h : wnRecvRecord cap w = .ok (wnRecChangeCipher, record) w') :
    flightTurn cap done take st w = .ok (.inl st) w' := by
  rw [flightTurn, bind_of_ok h]
  rfl

theorem flightTurn_record {rtype : UInt8} {record : Bytes} (h : wnRecvRecord cap w = .ok (rtype, record) w')
    (ht : rtype ≠ wnRecChangeCipher) : flightTurn cap done take st w =
      match take st rtype record with
      | .ok st' => .ok (if done st' then .inr st' else .inl st') w'
      | .error e => .error e w' := by
  rw [flightTurn, bind_of_ok h]
  dsimp only
  rw [if_neg ht]
  cases take st rtype record <;> rfl

/-- Every turn takes a record off the transport. -/
theorem flightTurn_pending {x : τ ⊕ τ} (h : flightTurn cap done take st w = .ok x w') : w'.pending < w.pending := by
  unfold flightTurn at h
  obtain ⟨⟨rtype, record⟩, w₁, hrecv, h⟩ := bind_ok.1 h
  have hlt := wnRecvRecord_pending hrecv
  dsimp only at h
  split at h
  · cases h
    exact hlt
  · obtain ⟨st', w₂, hx, h⟩ := bind_ok.1 h
    obtain ⟨-, rfl⟩ := ofExcept_eq_ok.1 hx
    cases h
    exact hlt

/-- So the loop runs the same with any fuel above what the transport holds. -/
theorem flightTurn_fuel {out : Err} {n : Nat} (hn : w.pending < n) :
    repeatM out (flightTurn cap done take) n st w = repeatM out (flightTurn cap done take) (w.pending + 1) st w :=
  repeatM_fuel (fun _ _ => True) (fun _ w => w.pending) (fun _ h => ⟨trivial, flightTurn_pending h⟩) trivial hn
    (Nat.lt_succ_self _)

end Turn

/-! ## The records of a flight -/

/-- Wire records `rs` that carry the handshake contents `fs`, the first at
sequence number `n` after `acc` bytes of content, with ChangeCipherSpecs among
them. A record of so much plaintext and content fits after so much content
where `room` says so. -/
inductive Flight (p : Provider cfg) (cap : Nat) (key : Block 16) (iv : Block 12)
    (room : (acc inner content : Nat) → Prop) : Nat → Nat → List Bytes → List Bytes → Prop
  | nil {n acc} : Flight p cap key iv room n acc [] []
  | ccs {n acc rs fs} (v : UInt8 × UInt8) : Flight p cap key iv room n acc rs fs →
      Flight p cap key iv room n acc (ccsRecord v :: rs) fs
  | record {n acc v₁ v₂ body rs f fs} : recordCheck cap wnRecAppdata body = .ok () →
      wnRecordUnprotect p key iv (UInt64.ofNat n) (wireRecord wnRecAppdata v₁ v₂ body) = .ok (wnRecHandshake, f) →
      room acc (body.length - 16) f.length → Flight p cap key iv room (n + 1) (acc + f.length) rs fs →
      Flight p cap key iv room n acc (wireRecord wnRecAppdata v₁ v₂ body :: rs) (f :: fs)

section Flight

variable {p : Provider cfg} {cap : Nat} {key : Block 16} {iv : Block 12} {room : Nat → Nat → Nat → Prop}
  {n acc : Nat} {rs fs : List Bytes} (h : Flight p cap key iv room n acc rs fs)
include h

theorem Flight.append {rs' fs' : List Bytes}
    (h' : Flight p cap key iv room (n + fs.length) (acc + fs.flatten.length) rs' fs') :
    Flight p cap key iv room n acc (rs ++ rs') (fs ++ fs') := by
  induction h with
  | nil => simpa using h'
  | ccs v _ ih => exact .ccs v (ih h')
  | @record n acc _ _ _ rs f fs hc hr hroom _ ih =>
    refine .record hc hr hroom (ih ?_)
    rwa [List.length_cons, Nat.add_comm fs.length, ← Nat.add_assoc, List.flatten_cons, List.length_append,
      ← Nat.add_assoc] at h'

theorem Flight.length_le : rs.length ≤ rs.flatten.length := by
  induction h with
  | nil => exact Nat.le_refl 0
  | ccs v _ ih =>
    simp only [List.length_cons, List.flatten_cons, List.length_append, ccsRecord, wireRecord_length]
    omega
  | record _ _ _ _ ih =>
    simp only [List.length_cons, List.flatten_cons, List.length_append, wireRecord_length]
    omega

end Flight

/-- Records `rs` that seal the fragments `fs` as handshake contents, the first
at sequence number `n` after `acc` bytes, padded as `fits` allows, with
ChangeCipherSpecs anywhere among them. -/
inductive Sealed (p : Provider cfg) (t : TrafficKeys) (fits : (acc content pad : Nat) → Prop) :
    Nat → Nat → List Bytes → List Bytes → Prop
  | nil {n acc} : Sealed p t fits n acc [] []
  | ccs {n acc rs fs} (v : UInt8 × UInt8) : Sealed p t fits n acc rs fs → Sealed p t fits n acc (ccsRecord v :: rs) fs
  | record {n acc r rs f fs pad} : Rfc.sealRecord p t (UInt64.ofNat n).toNat wnRecHandshake f pad = some r →
      fits acc f.length pad → Sealed p t fits (n + 1) (acc + f.length) rs fs →
      Sealed p t fits n acc (r :: rs) (f :: fs)

theorem Sealed.unpadded {t : TrafficKeys} {fits : Nat → Nat → Nat → Prop} {p : Provider cfg} {n acc : Nat} {r f : Bytes}
    {rs fs : List Bytes} (h : Rfc.sealRecord p t (UInt64.ofNat n).toNat wnRecHandshake f 0 = some r)
    (hf : fits acc f.length 0) (hs : Sealed p t fits (n + 1) (acc + f.length) rs fs) :
    Sealed p t fits n acc (r :: rs) (f :: fs) :=
  .record h hf hs

/-- Sealed records that fit are a flight. -/
theorem Sealed.flight (hopen : p.OpensSealed) {t : TrafficKeys} (hk : p.aesGcmSetKey t.key = true)
    {fits : Nat → Nat → Nat → Prop} {room : Nat → Nat → Nat → Prop} {cap : Nat} (total : Nat)
    (hfits : ∀ {acc content pad}, fits acc content pad → acc + content ≤ total →
      content + pad + 22 ≤ cap ∧ content + pad + 17 ≤ wnMaxPlaintext + 256 ∧ room acc (content + 1 + pad) content)
    {n acc : Nat} {rs fs : List Bytes} (h : Sealed p t fits n acc rs fs) :
    acc + fs.flatten.length ≤ total → Flight p cap t.key t.iv room n acc rs fs := by
  induction h with
  | nil => exact fun _ => .nil
  | ccs v _ ih => exact fun ht => .ccs v (ih ht)
  | @record n acc r rs f fs pad hseal hf _ ih =>
    intro htotal
    rw [List.flatten_cons, List.length_append] at htotal
    obtain ⟨hcap, hmax, hroom⟩ := hfits hf (by omega)
    have hun := unprotect_sealRecord p hopen hk (by decide) hseal
    obtain ⟨body, rfl, hlen⟩ := ciphertext_wire p hseal
    rw [inner_length] at hlen
    refine .record ?_ hun ?_ (ih (by omega))
    · exact recordCheck_ok.2 ⟨fun hnil => by rw [hnil] at hlen; simp at hlen, by omega, by omega, fun h => by cases h⟩
    · rw [hlen, Nat.add_sub_cancel]
      exact hroom

theorem Sealed.length_le {t : TrafficKeys} {fits : Nat → Nat → Nat → Prop} (cap : Nat)
    (hfits : ∀ {acc content pad}, fits acc content pad → acc + content ≤ cap) {p : Provider cfg} {n acc : Nat}
    {rs fs : List Bytes} (h : Sealed p t fits n acc rs fs) : acc ≤ cap → acc + fs.flatten.length ≤ cap := by
  induction h with
  | nil => exact fun h => h
  | ccs v _ ih => exact ih
  | record _ hf _ ih =>
    intro _
    rw [List.flatten_cons, List.length_append, ← Nat.add_assoc]
    exact ih (hfits hf)

/-! ## The loop -/

/-- A driver's loop: how its state holds the accumulated contents, and what it
makes of a record. -/
structure FlightLoop (p : Provider cfg) (τ : Type) where
  cap : Nat
  key : Block 16
  iv : Block 12
  /-- Whether a record with so much plaintext and content fits after so much. -/
  room : (acc inner content : Nat) → Prop
  framing : Framing UInt8 τ Err
  start : τ
  acc : τ → Bytes
  off : τ → Nat
  sSeq : τ → UInt64
  /-- The state with another accumulator and sequence number. -/
  frame : τ → Bytes → UInt64 → τ
  take : τ → UInt8 → Bytes → Except Err τ
  acc_start : acc start = []
  off_start : off start = 0
  sSeq_start : sSeq start = 0
  frame_start : frame start [] 0 = start
  acc_frame : ∀ s a q, acc (frame s a q) = a
  off_frame : ∀ s a q, off (frame s a q) = off s
  sSeq_frame : ∀ s a q, sSeq (frame s a q) = q
  done_frame : ∀ s a q, framing.done (frame s a q) = framing.done s
  frame_frame : ∀ s a q b r, frame (frame s a q) b r = frame s b r
  frame_self : ∀ s, frame s (acc s) (sSeq s) = s
  handle_keeps : ∀ {s s' m}, framing.handle s m = .ok s' →
    off s' = off s + m.length ∧ acc s' = acc s ∧ sSeq s' = sSeq s
  take_ok : ∀ {st st' rtype record}, take st rtype record = .ok st' → rtype = wnRecAppdata ∧ ∃ f,
    wnRecordUnprotect p key iv (sSeq st) record = .ok (wnRecHandshake, f) ∧
      room (acc st).length (record.length - 21) f.length ∧
      (framing.scan (acc st ++ f) (acc st ++ f).length (off st) (frame st [] 0)).map
        (fun r => frame r.1 (acc st ++ f) (sSeq st + 1)) = .ok st'
  take_of : ∀ {st record f}, wnRecordUnprotect p key iv (sSeq st) record = .ok (wnRecHandshake, f) →
    room (acc st).length (record.length - 21) f.length → take st wnRecAppdata record =
      (framing.scan (acc st ++ f) (acc st ++ f).length (off st) (frame st [] 0)).map
        (fun r => frame r.1 (acc st ++ f) (sSeq st + 1))

namespace FlightLoop

variable {p : Provider cfg} {τ : Type} (L : FlightLoop p τ)

def turn : τ → Io (τ ⊕ τ) := flightTurn L.cap L.framing.done L.take

/-- The records it can read. -/
abbrev Flight : Nat → Nat → List Bytes → List Bytes → Prop := WolfNano.Flight p L.cap L.key L.iv L.room

variable {L}

/-- The contents `fs`, scanned as far as they go. -/
structure At (L : FlightLoop p τ) (fs : List Bytes) (st : τ) : Prop where
  acc : L.acc st = fs.flatten
  sSeq : L.sSeq st = UInt64.ofNat fs.length
  scan : L.framing.scanAll L.start fs.flatten = .ok (L.frame st [] 0, L.off st)

theorem at_start : L.At [] L.start where
  acc := L.acc_start
  sSeq := L.sSeq_start
  scan := by
    rw [L.frame_start, L.off_start]
    rfl

/-- A scan keeps the offset, and leaves the rest of the frame alone. -/
theorem scan_frame {buf acc : Bytes} {sSeq : UInt64} {n : Nat} (off : Nat) {off' : Nat} {st st' : τ}
    (h : L.framing.scan buf n off st = .ok (st', off')) (hoff : L.off st = off) (hacc : L.acc st = acc)
    (hseq : L.sSeq st = sSeq) : L.off st' = off' ∧ L.acc st' = acc ∧ L.sSeq st' = sSeq :=
  Framing.scan_invariant (I := fun s off => L.off s = off ∧ L.acc s = acc ∧ L.sSeq s = sSeq)
    (fun {s s' off m} hi hm => by
      obtain ⟨h₁, h₂, h₃⟩ := L.handle_keeps hm
      exact ⟨by rw [h₁, hi.1], h₂.trans hi.2.1, h₃.trans hi.2.2⟩) ⟨hoff, hacc, hseq⟩ h

section Record

variable {fs : List Bytes} {st : τ} (h : L.At fs st) (f : Bytes)
include h

theorem At.flatten : (fs ++ [f]).flatten = L.acc st ++ f := by rw [h.acc]; simp

/-- With one more record's content, scanning goes on as if all the contents
were scanned at once. -/
theorem At.scan_eq : L.framing.scan (L.acc st ++ f) (L.acc st ++ f).length (L.off st) (L.frame st [] 0) =
    L.framing.scanAll L.start (fs ++ [f]).flatten := by
  have hscan := Framing.scan_append h.scan f
  rw [← h.acc] at hscan
  rw [h.flatten, hscan]

theorem At.record {s : τ} {off : Nat} (hscan : L.framing.scanAll L.start (fs ++ [f]).flatten = .ok (s, off)) :
    L.At (fs ++ [f]) (L.frame s (L.acc st ++ f) (L.sSeq st + 1)) := by
  obtain ⟨hoff, hacc, hseq⟩ := L.scan_frame (L.off st) ((h.scan_eq f).trans hscan) (L.off_frame _ _ _)
    (L.acc_frame _ _ _) (L.sSeq_frame _ _ _)
  refine ⟨by rw [L.acc_frame, h.flatten], ?_, ?_⟩
  · rw [L.sSeq_frame, h.sSeq, List.length_append, List.length_singleton, UInt64.ofNat_add]
    rfl
  · rw [hscan, L.frame_frame, L.off_frame, hoff]
    have hself := L.frame_self s
    rw [hacc, hseq] at hself
    rw [hself]

end Record

/-! ## What a loop that ended well has read -/

theorem turn_ok {w w' w'' : World} {st : τ} {rs fs : List Bytes} {x : τ ⊕ τ} (h : L.At fs st)
    (hnd : L.framing.done st = false) (hf : L.Flight 0 0 rs fs) (hr : w.Read rs.flatten w')
    (hstep : L.turn st w' = .ok x w'') :
    ∃ st' rs' fs', L.At fs' st' ∧ L.Flight 0 0 rs' fs' ∧ w.Read rs'.flatten w'' ∧
      ((x = .inl st' ∧ L.framing.done st' = false) ∨
        (x = .inr st' ∧ L.framing.done st' = true ∧ ∃ f, fs' = fs ++ [f])) := by
  rcases flightTurn_ok hstep with ⟨v, rfl, hread⟩ | ⟨rtype, v₁, v₂, body, st', hc, hread, htake, rfl⟩
  · exact ⟨st, rs ++ [ccsRecord v], fs, h, by simpa using hf.append (.ccs v .nil),
      by rw [List.flatten_append]; simpa using hr.trans hread, .inl ⟨rfl, hnd⟩⟩
  · obtain ⟨rfl, f, hopen, hroom, hmsgs⟩ := L.take_ok htake
    rw [h.scan_eq f] at hmsgs
    cases hscan : L.framing.scanAll L.start (fs ++ [f]).flatten with
    | error e => rw [hscan] at hmsgs; cases hmsgs
    | ok r =>
      obtain ⟨s, off⟩ := r
      rw [hscan] at hmsgs
      cases hmsgs
      rw [h.sSeq] at hopen
      rw [h.acc, wireRecord_length, show 5 + body.length - 21 = body.length - 16 by omega] at hroom
      refine ⟨_, rs ++ [wireRecord wnRecAppdata v₁ v₂ body], fs ++ [f], h.record f hscan,
        hf.append (.record hc (by simpa using hopen) (by simpa using hroom) .nil),
        by rw [List.flatten_append]; simpa using hr.trans hread, ?_⟩
      cases hd : L.framing.done (L.frame s (L.acc st ++ f) (L.sSeq st + 1)) with
      | true => exact .inr ⟨rfl, rfl, f, rfl⟩
      | false => exact .inl ⟨rfl, rfl⟩

/-- **A loop that ends has read messages with which its state wants no more**,
and what follows them in the record that ends them. -/
theorem repeat_ok {n : Nat} {out : Err} {st : τ} {w w' : World} (hnd : L.framing.done L.start = false)
    (h : repeatM out L.turn n L.start w = .ok st w') :
    ∃ rs fs f ms, L.Flight 0 0 rs (fs ++ [f]) ∧ w.Read rs.flatten w' ∧ L.framing.done st = true ∧
      Parser.Reads L.framing.parser L.start ms (L.frame st [] 0) ∧
      (fs ++ [f]).flatten = ms.flatten ++ (L.acc st).drop (L.off st) ∧ fs.flatten.length < ms.flatten.length := by
  obtain ⟨b, w₁, ⟨rs, fs, hat, hnd, hf, hr⟩, hlast⟩ := repeatM_ok
    (I := fun st w' => ∃ rs fs, L.At fs st ∧ L.framing.done st = false ∧ L.Flight 0 0 rs fs ∧ w.Read rs.flatten w')
    (fun {b s b' t} hI hstep => by
      obtain ⟨rs, fs, hat, hnd, hf, hr⟩ := hI
      obtain ⟨st', rs', fs', hat', hf', hr', hx⟩ := turn_ok hat hnd hf hr hstep
      rcases hx with ⟨hx, hnd'⟩ | ⟨hx, -⟩
      · cases hx; exact ⟨rs', fs', hat', hnd', hf', hr'⟩
      · cases hx) ⟨[], [], at_start, hnd, .nil, World.Read.refl w⟩ h
  obtain ⟨st', rs', fs', hat', hf', hr', hx⟩ := turn_ok hat hnd hf hr hlast
  rcases hx with ⟨hx, -⟩ | ⟨hx, hd, f, rfl⟩
  · cases hx
  · cases hx
    obtain ⟨ms, hms, hreads⟩ := Framing.scanAll_reads hat'.scan
    refine ⟨rs', fs, f, ms, hf', hr', hd, hreads, by rw [hat'.acc]; exact hms, ?_⟩
    -- Had the messages been there before, the loop would have ended before.
    by_contra hle
    have hdone := (L.done_frame st [] 0).trans hd
    have hpre : fs.flatten = ms.flatten ++ fs.flatten.drop ms.flatten.length := by
      have htake := congrArg (List.take ms.flatten.length) hms
      rw [List.take_left, List.flatten_append, List.take_append_of_le_length (by omega)] at htake
      conv => lhs; rw [← List.take_append_drop ms.flatten.length fs.flatten, htake]
    have hparse := (Framing.scanAll_ok.1 hat.scan).2
    rw [hpre, hreads.parse, Parser.parse_need (Framing.step_done hdone _)] at hparse
    have hs : L.frame st [] 0 = L.frame b [] 0 := (Prod.mk.inj (Except.ok.inj hparse)).1
    rw [hs, L.done_frame, hnd] at hdone
    cases hdone

/-! ## What the loop does with records that open -/

/-- A turn at the front of a stream of which the next record opens. -/
theorem turn_record {fs₀ : List Bytes} {st : τ} {w : World} {v₁ v₂ : UInt8} {body f : Bytes} (rest : Bytes)
    (hat : L.At fs₀ st)
    (hw : w.Flowing) (hflat : w.inbox.flatten = wireRecord wnRecAppdata v₁ v₂ body ++ rest)
    (hc : recordCheck L.cap wnRecAppdata body = .ok ())
    (hopen : wnRecordUnprotect p L.key L.iv (UInt64.ofNat fs₀.length) (wireRecord wnRecAppdata v₁ v₂ body) =
      .ok (wnRecHandshake, f)) (hroom : L.room fs₀.flatten.length (body.length - 16) f.length) :
    ∃ inbox, [] ∉ inbox ∧ inbox.flatten = rest ∧ L.turn st w =
      match L.framing.scanAll L.start (fs₀ ++ [f]).flatten with
      | .ok (s, _) =>
        .ok (if L.framing.done s then .inr (L.frame s (L.acc st ++ f) (L.sSeq st + 1))
          else .inl (L.frame s (L.acc st ++ f) (L.sSeq st + 1))) { w with inbox }
      | .error e => .error e { w with inbox } := by
  have hlen := (recordCheck_ok.1 hc).2.2.1
  simp only [wnMaxPlaintext] at hlen
  obtain ⟨inbox, hin, hrest, hr⟩ := wnRecvRecord_wire L.cap hw hflat (by omega)
  rw [hc] at hr hrest
  refine ⟨inbox, hin, hrest rfl, ?_⟩
  rw [turn, flightTurn_record hr (by decide), L.take_of (by rw [hat.sSeq]; exact hopen)
    (by rwa [hat.acc, wireRecord_length, show 5 + body.length - 21 = body.length - 16 by omega]), hat.scan_eq f]
  cases hscan : L.framing.scanAll L.start (fs₀ ++ [f]).flatten with
  | error e => rfl
  | ok r =>
    simp only [Except.map, L.done_frame]

/-- **A stream of records that open**: the loop fails at the first record with
which the contents do not scan, or ends at the first with which they scan to a
state that wants no more, or comes to the stream's end. -/
theorem repeat_run (hcap : 6 ≤ L.cap) (out : Err) (rest : Bytes) {n acc : Nat} {rs fs : List Bytes}
    (hf : L.Flight n acc rs fs) : ∀ (fs₀ : List Bytes) {st : τ} {w : World}, n = fs₀.length →
    acc = fs₀.flatten.length → L.At fs₀ st → L.framing.done st = false → w.Flowing →
    w.inbox.flatten = rs.flatten ++ rest →
    (∃ fs₁ fs₂ e inbox, fs = fs₁ ++ fs₂ ∧ L.framing.scanAll L.start (fs₀ ++ fs₁).flatten = .error e ∧
      ∀ k, repeatM out L.turn (k + rs.length) st w = .error e { w with inbox }) ∨
    (∃ fs₁ f fs₂ st' inbox, fs = fs₁ ++ f :: fs₂ ∧ L.At (fs₀ ++ fs₁ ++ [f]) st' ∧ L.framing.done st' = true ∧
      (∃ st₀, L.At (fs₀ ++ fs₁) st₀ ∧ L.framing.done st₀ = false) ∧
      ∀ k, repeatM out L.turn (k + rs.length) st w = .ok st' { w with inbox }) ∨
    (∃ st' inbox, L.At (fs₀ ++ fs) st' ∧ L.framing.done st' = false ∧ [] ∉ inbox ∧ inbox.flatten = rest ∧
      ∀ k, repeatM out L.turn (k + rs.length) st w = repeatM out L.turn k st' { w with inbox }) := by
  induction hf with
  | nil =>
    intro fs₀ st w _ _ hat hnd hw hflat
    exact .inr (.inr ⟨st, w.inbox, by simpa using hat, hnd, hw, by simpa using hflat, fun _ => rfl⟩)
  | @ccs n acc rs fs v _ ih =>
    intro fs₀ st w hn hacc hat hnd hw hflat
    have hflat' : w.inbox.flatten = wireRecord wnRecChangeCipher v.1 v.2 [1] ++ (rs.flatten ++ rest) := by
      rw [hflat]; simp [ccsRecord]
    obtain ⟨inbox, hin, hrest, hr⟩ := wnRecvRecord_wire L.cap hw hflat' (by simp)
    rw [recordCheck_ccs hcap] at hr hrest
    have hturn : L.turn st w = .ok (.inl st) { w with inbox } := flightTurn_ccs hr
    have hcont : ∀ k, repeatM out L.turn (k + (ccsRecord v :: rs).length) st w =
        repeatM out L.turn (k + rs.length) st { w with inbox } := fun k => by
      rw [List.length_cons, ← Nat.add_assoc, repeatM_continue hturn]
    simp only [hcont]
    exact ih fs₀ (w := { w with inbox }) hn hacc hat hnd hin (hrest rfl)
  | @record n acc v₁ v₂ body rs f fs hc hopen hroom _ ih =>
    intro fs₀ st w hn hacc hat hnd hw hflat
    subst hn hacc
    obtain ⟨inbox, hin, hrest, hturn⟩ := turn_record (rs.flatten ++ rest) hat hw
      (by rw [hflat]; simp) hc hopen hroom
    cases hscan : L.framing.scanAll L.start (fs₀ ++ [f]).flatten with
    | error e =>
      rw [hscan] at hturn
      exact .inl ⟨[f], fs, e, inbox, rfl, hscan, fun k => repeatM_error hturn⟩
    | ok r =>
      obtain ⟨s, off⟩ := r
      rw [hscan] at hturn
      have hat' := hat.record f hscan
      have hdf := L.done_frame s (L.acc st ++ f) (L.sSeq st + 1)
      cases hd : L.framing.done s with
      | true =>
        simp only [hd, if_true] at hturn
        exact .inr (.inl ⟨[], f, fs, _, inbox, rfl, by simpa using hat', hdf.trans hd, ⟨st, by simpa using hat, hnd⟩,
          fun k => repeatM_done hturn⟩)
      | false =>
        simp only [hd, Bool.false_eq_true, if_false] at hturn
        have hcont : ∀ k, repeatM out L.turn (k + (wireRecord wnRecAppdata v₁ v₂ body :: rs).length) st w =
            repeatM out L.turn (k + rs.length) _ { w with inbox } := fun k => by
          rw [List.length_cons, ← Nat.add_assoc, repeatM_continue hturn]
        simp only [hcont]
        rcases ih _ (w := { w with inbox }) (by simp) (by simp) hat' (hdf.trans hd) hin hrest with
          ⟨fs₁, fs₂, e, inbox', rfl, hs, hrun⟩ | ⟨fs₁, f', fs₂, st', inbox', rfl, hs, hd', ⟨st₀, h₀, hnd₀⟩, hrun⟩ |
          ⟨st', inbox', hs, hd', hin', hrest', hrun⟩
        · exact .inl ⟨f :: fs₁, fs₂, e, inbox', rfl, by simpa using hs, hrun⟩
        · exact .inr (.inl ⟨f :: fs₁, f', fs₂, st', inbox', rfl, by simpa using hs, hd', ⟨st₀, by simpa using h₀, hnd₀⟩,
            hrun⟩)
        · exact .inr (.inr ⟨st', inbox', by simpa using hs, hd', hin', hrest', hrun⟩)

/-- **A flight whose contents scan to a state that wants no more** ends the
loop in that state, whatever the stream has after it. -/
theorem repeat_done (hcap : 6 ≤ L.cap) (hnd : L.framing.done L.start = false) {rs fs : List Bytes} {rest : Bytes}
    (hf : L.Flight 0 0 rs fs) {w : World} (hw : w.Flowing) (hflat : w.inbox.flatten = rs.flatten ++ rest) {s : τ}
    {off : Nat} (hscan : L.framing.scanAll L.start fs.flatten = .ok (s, off)) (hdone : L.framing.done s = true) :
    ∃ st inbox, L.frame st [] 0 = s ∧
      repeatM .crypto L.turn (w.pending + 1) L.start w = .ok st { w with inbox } := by
  have hle := hf.length_le
  have hfuel : w.pending + 1 = (w.pending - rs.length + 1) + rs.length := by
    rw [World.pending, hflat, List.length_append]
    omega
  rw [hfuel]
  rcases repeat_run hcap .crypto rest hf [] rfl rfl at_start hnd hw hflat with
    ⟨fs₁, fs₂, e, inbox, rfl, hs, -⟩ | ⟨fs₁, f, fs₂, st, inbox, rfl, hs, hd, -, hrun⟩ | ⟨st, inbox, hs, hd, -⟩
  · rw [List.flatten_append, Framing.scanAll_append_error (by simpa using hs)] at hscan
    cases hscan
  · refine ⟨st, inbox, ?_, hrun _⟩
    have hall := Framing.scanAll_append_done hs.scan ((L.done_frame st [] 0).trans hd) fs₂.flatten
    rw [show (fs₁ ++ f :: fs₂).flatten = ([] ++ fs₁ ++ [f]).flatten ++ fs₂.flatten by simp, hall] at hscan
    cases hscan
    rfl
  · have hall := hs.scan
    rw [List.nil_append, hscan] at hall
    cases hall
    rw [L.done_frame, hd] at hdone
    cases hdone

/-- **A flight that ends with its last record** ends the loop, with all that
follows it still to be read. -/
theorem repeat_last (hcap : 6 ≤ L.cap) (hnd : L.framing.done L.start = false) {rs fs : List Bytes} {r f rest : Bytes}
    (hf : L.Flight 0 0 rs fs) (hr : L.Flight fs.length fs.flatten.length [r] [f]) (hne : f ≠ []) {w : World}
    (hw : w.Flowing) (hflat : w.inbox.flatten = rs.flatten ++ (r ++ rest)) {s : τ} {ms : List Bytes}
    (hreads : Parser.Reads L.framing.parser L.start ms s) (hms : fs.flatten ++ f = ms.flatten)
    (hdone : L.framing.done s = true) :
    ∃ st inbox, L.frame st [] 0 = s ∧ [] ∉ inbox ∧ inbox.flatten = rest ∧
      repeatM .crypto L.turn (w.pending + 1) L.start w = .ok st { w with inbox } := by
  have hle := hf.length_le
  have hfuel : w.pending + 1 = (w.pending - rs.length + 1) + rs.length := by
    rw [World.pending, hflat, List.length_append]
    omega
  have hscan : ∀ {s' : τ} {off : Nat}, L.framing.scanAll L.start (fs.flatten ++ f) = .ok (s', off) →
      s' = s ∧ (fs.flatten ++ f).drop off = [] := by
    intro s' off h
    have hparse := hreads.parse []
    rw [List.append_nil, ← hms, (Framing.scanAll_ok.1 h).2, Parser.parse_need (Framing.step_done hdone []),
      Except.ok.injEq, Prod.mk.injEq] at hparse
    exact hparse
  have hall : ∃ off, L.framing.scanAll L.start (fs.flatten ++ f) = .ok (s, off) := by
    have hparse := hreads.parse []
    rw [List.append_nil, ← hms, Parser.parse_need (Framing.step_done hdone [])] at hparse
    exact ⟨_, (Framing.scanAll_eq_parse _ _).trans (congrArg _ hparse)⟩
  obtain ⟨off, hall⟩ := hall
  rw [hfuel]
  rcases repeat_run hcap .crypto (r ++ rest) hf [] rfl rfl at_start hnd hw hflat with
    ⟨fs₁, fs₂, e, inbox, rfl, hs, -⟩ | ⟨fs₁, f', fs₂, st, inbox, rfl, hs, hd, -⟩ | ⟨st, inbox, hs, hd, hin, hrest, hrun⟩
  · rw [List.flatten_append, List.append_assoc, Framing.scanAll_append_error (by simpa using hs)] at hall
    cases hall
  · -- The messages are not all there before the last record.
    have hmore := Framing.scanAll_append_done hs.scan ((L.done_frame st [] 0).trans hd) (fs₂.flatten ++ f)
    have hlen := (Framing.scanAll_ok.1 hs.scan).1
    have hend := (hscan (by rw [← hmore]; simp)).2
    rw [List.drop_eq_nil_iff] at hend
    have := List.length_pos_iff.2 hne
    simp only [List.flatten_append, List.flatten_cons, List.length_append, List.flatten_nil, List.length_nil] at hlen hend
    omega
  · rw [hrun]
    rw [List.nil_append] at hs
    cases hr with
    | ccs _ h => cases h
    | @record _ _ v₁ v₂ body _ _ _ hc hopen hroom _ =>
      obtain ⟨inbox', hin', hrest', hturn⟩ := turn_record (w := { w with inbox }) rest hs hin hrest hc hopen hroom
      have hall : L.framing.scanAll L.start (fs ++ [f]).flatten = .ok (s, off) := by simpa using hall
      rw [hall] at hturn
      simp only [hdone, if_true] at hturn
      have hat := (hs.record f hall).scan
      rw [hall, Except.ok.injEq, Prod.mk.injEq] at hat
      exact ⟨_, inbox', hat.1.symm, hin', hrest', repeatM_done hturn⟩

/-- What becomes of the loop when the stream ends after the contents `bs`. -/
def verdict (L : FlightLoop p τ) (bs : Bytes) : Except Err τ :=
  match L.framing.scanAll L.start bs with
  | .ok (s, _) => if L.framing.done s then .ok s else .error .crypto
  | .error e => .error e

/-- **Where the contents were cut does not matter**: over a whole stream, the
loop does what `verdict` says of the bytes the contents spell. -/
theorem repeat_verdict (hcap : 6 ≤ L.cap) (hnd : L.framing.done L.start = false) {rs fs : List Bytes}
    (hf : L.Flight 0 0 rs fs) {w : World} (hw : w.Flowing) (hflat : w.inbox.flatten = rs.flatten) :
    ∃ inbox, (∃ e, L.verdict fs.flatten = .error e ∧
        repeatM .crypto L.turn (w.pending + 1) L.start w = .error e { w with inbox }) ∨
      ∃ st, L.verdict fs.flatten = .ok (L.frame st [] 0) ∧
        repeatM .crypto L.turn (w.pending + 1) L.start w = .ok st { w with inbox } := by
  have hle := hf.length_le
  have hfuel : w.pending + 1 = (w.pending - rs.length + 1) + rs.length := by
    rw [World.pending, hflat]
    omega
  rw [hfuel]
  rcases repeat_run hcap .crypto [] hf [] rfl rfl at_start hnd hw (by simpa using hflat) with
    ⟨fs₁, fs₂, e, inbox, rfl, hs, hrun⟩ | ⟨fs₁, f, fs₂, st, inbox, rfl, hs, hd, -, hrun⟩ |
    ⟨st, inbox, hs, hd, hin, hrest, hrun⟩
  · refine ⟨inbox, .inl ⟨e, ?_, hrun _⟩⟩
    rw [verdict, List.flatten_append, Framing.scanAll_append_error (by simpa using hs)]
  · refine ⟨inbox, .inr ⟨st, ?_, hrun _⟩⟩
    have hdone := (L.done_frame st [] 0).trans hd
    have hscan := Framing.scanAll_append_done hs.scan hdone fs₂.flatten
    rw [verdict, show (fs₁ ++ f :: fs₂).flatten = ([] ++ fs₁ ++ [f]).flatten ++ fs₂.flatten by simp, hscan]
    exact if_pos hdone
  · refine ⟨[], .inl ⟨.crypto, ?_, ?_⟩⟩
    · have hscan := hs.scan
      rw [List.nil_append] at hscan
      rw [verdict, hscan]
      exact if_neg (by rw [L.done_frame, hd]; simp)
    · rw [hrun]
      refine repeatM_error ?_
      rw [turn, flightTurn, bind_of_error (wnRecvRecord_end (w := { w with inbox }) hin hrest)]

end FlightLoop

end WolfNano

/-
The peer's records as the client meets them: how it reads, opens and processes
one of them, from where it is in each direction.
-/
import WolfNano.RfcPeer
import WolfNano.RecordRoundTrip

namespace WolfNano

open Prog Wire

variable {cfg : Config} {p : Provider cfg}

/-! ## The client's two directions -/

/-- The client's reading direction. -/
def World.readHalf (w : World) : Rfc.Half := ⟨w.sess.readKeys, w.sess.sSeq⟩

/-- Its writing direction. -/
def World.writeHalf (w : World) : Rfc.Half := ⟨w.sess.writeKeys, w.sess.cSeq⟩

/-! ## Content of the peer's records -/

theorem hsMsg_keyUpdate (req : UInt8) : Rfc.hsMsg 24 [req] = keyUpdateMsg req := by
  simp [Rfc.hsMsg, vec, be, keyUpdateMsg, wnHsKeyUpdate]

namespace Rfc.Carried

theorem content_cons (body : Bytes) (tickets : List Bytes) : ∀ update : Option UInt8,
    (post (body :: tickets) update).content = hsMsg wnHsNewSessionTicket body ++ (post tickets update).content
  | none => rfl
  | some _ => List.append_assoc _ _ _

/-- The first message of content that fits. -/
theorem takePost_content {tickets : List Bytes} {update : Option UInt8} (h : (post tickets update).Fits) :
    takePost (post tickets update).content = match tickets, update with
      | _ :: tickets, update => .ok (none, (post tickets update).content)
      | [], some req => .ok (some req, [])
      | [], none => .error .decode := by
  obtain ⟨hbodies, hreq⟩ := h
  cases tickets with
  | cons body tickets =>
    rw [content_cons]
    exact takePost_hsMsg (hbodies body List.mem_cons_self) _
  | nil =>
    cases update with
    | none => rfl
    | some req =>
      have htake := takePost_keyUpdateMsg (hreq req rfl) []
      rwa [List.append_nil, ← hsMsg_keyUpdate] at htake

theorem fits_keyUpdate {req : UInt8} (h : req ≤ 1) : (post [] (some req)).Fits :=
  ⟨nofun, fun _ hreq => Option.some.inj hreq ▸ h⟩

theorem Fits.tail {body : Bytes} {tickets : List Bytes} {update : Option UInt8}
    (h : (post (body :: tickets) update).Fits) : (post tickets update).Fits :=
  ⟨fun b hb => h.1 b (List.mem_cons_of_mem _ hb), h.2⟩

end Rfc.Carried

/-! ## One record -/

/-- The inner plaintext is within its limit (5.4). -/
def Rfc.Sent.Within (i : Rfc.Sent) : Prop := i.carried.content.length + i.pad ≤ 2 ^ 14

instance (i : Rfc.Sent) : Decidable i.Within := inferInstanceAs (Decidable (_ ≤ _))

/-- Room for a record of any such plaintext. -/
def recordRoom : Nat := wnRecordHeaderSz + 2 ^ 14 + 1 + wnRecordTagSz

section Record

variable {s s' : Rfc.Half} {i : Rfc.Sent} (h : Rfc.SealStep p s i s')
include h

/-- The record is read off any stream it is at the front of. -/
theorem Rfc.SealStep.readsBack (hi : i.Within) :
    0 < i.record.length ∧ i.record.length ≤ recordRoom ∧ ReadsBack i.record := by
  have hlimit : i.carried.content.length + 1 + i.pad + 16 ≤ 2 ^ 14 + 256 := by
    unfold Rfc.Sent.Within at hi
    omega
  obtain ⟨hlen, -, hread⟩ := sealRecord_readsBack p h.sealed hlimit
  have hroom : recordRoom = 5 + 2 ^ 14 + 1 + 16 := rfl
  unfold Rfc.Sent.Within at hi
  exact ⟨by omega, by omega, hread⟩

/-- It opens to what it carries. -/
theorem Rfc.SealStep.opens (hp : p.Total) (hopen : p.OpensSealed) :
    wnRecordUnprotect p s.keys.key s.keys.iv s.seq i.record = .ok (i.carried.type, i.carried.content) :=
  unprotect_sealRecord p hopen (hp.aesGcmSetKey _) i.carried.type_ne_zero h.sealed

end Record

/-- `wn_session_posths` reads the tickets over, and comes to the KeyUpdate. -/
theorem posths_content {msg : Bytes} (hs : msg.length < 2 ^ 31) (update : Option UInt8) (w : World) :
    ∀ (tickets : List Bytes) (n : Nat), (Rfc.Carried.post tickets update).content <:+ msg →
      (Rfc.Carried.post tickets update).content.length < n → (Rfc.Carried.post tickets update).Fits →
      repeatM .decode (posthsStep p msg) n (readerAt msg (Rfc.Carried.post tickets update).content) w =
        match update with
        | none => .ok () w
        | some req => posthsKeyUpdate p req [] w := by
  intro tickets
  induction tickets with
  | nil =>
    intro n hq hn hfits
    obtain ⟨n, rfl⟩ := Nat.exists_eq_succ_of_ne_zero (Nat.ne_of_gt (Nat.lt_of_le_of_lt (Nat.zero_le _) hn))
    cases update with
    | none => exact posths_nil n w
    | some req =>
      have hmsg : (Rfc.Carried.post [] (some req)).content = keyUpdateMsg req ++ [] := by
        rw [List.append_nil]
        exact hsMsg_keyUpdate req
      rw [posths_keyUpdate hq hs hmsg (hfits.2 req rfl)]
      rw [hmsg, List.append_nil] at hn
      obtain ⟨n, rfl⟩ : ∃ m, n = m + 1 := ⟨n - 1, by simp only [keyUpdateMsg, List.length_cons] at hn; omega⟩
      dsimp only
      cases hku : posthsKeyUpdate p req [] w with
      | ok u w' => rw [bind_of_ok hku, posths_nil]
      | error e w' => rw [bind_of_error hku]
  | cons body tickets ih =>
    intro n hq hn hfits
    obtain ⟨n, rfl⟩ := Nat.exists_eq_succ_of_ne_zero (Nat.ne_of_gt (Nat.lt_of_le_of_lt (Nat.zero_le _) hn))
    have hmsg := Rfc.Carried.content_cons body tickets update
    rw [posths_ticket hq hs hmsg (hfits.1 body List.mem_cons_self)]
    rw [hmsg] at hq hn
    simp only [List.length_append, Rfc.hsMsg, List.length_cons, vec_length] at hn
    exact ih n ((List.suffix_append _ _).trans hq) (by omega) hfits.tail

theorem wnSessionPosths_content {tickets : List Bytes} {update : Option UInt8}
    (hfits : (Rfc.Carried.post tickets update).Fits)
    (hs : (Rfc.Carried.post tickets update).content.length < 2 ^ 31) (w : World) :
    wnSessionPosths p (Rfc.Carried.post tickets update).content w = match update with
      | none => .ok () w
      | some req => posthsKeyUpdate p req [] w := by
  rw [wnSessionPosths, wnReaderInit_eq]
  exact posths_content hs update w tickets _ (List.suffix_refl _) (Nat.lt_succ_self _) hfits

end WolfNano

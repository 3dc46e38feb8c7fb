/-
What a session leaves in its scratch.

Over any calls, `wn_session.c` over memory does what `Session.lean` says, and no
access is out of bounds. What is left in scratch is then put together from what
has been on the wire, how long contents and paddings were, and content types:
no plaintext stays, but where a record did not open and AES-GCM has left some
(`Residue`).
-/
import WolfNano.SessionMemory
import WolfNano.ScratchRecord
import WolfNano.Observed
import WolfNano.ClearProvider

namespace WolfNano

open Prog

/-! ## Residues -/

/-- What was left in scratch by one thing done there. -/
inductive Residue where
  /-- Bytes of the stream, a record or less. -/
  | received (bs : Bytes)
  /-- A record that was opened and wiped: what is behind its content is left. -/
  | wiped (plainLen : Nat) (type : UInt8) (pad : Nat)
  /-- A record that was opened, with no content type in it. -/
  | blank (innerLen : Nat)
  /-- What AES-GCM has written of a record that did not open. -/
  | spilled (bs : Bytes)
  /-- A record that was sealed and sent. -/
  | sent (record : Bytes)
  /-- A record that was not sealed, and what AES-GCM has written behind its inner plaintext. -/
  | dropped (innerLen : Nat) (rest : Bytes)

namespace Residue

def bytes : Residue → Bytes
  | received bs => bs
  | wiped plainLen type pad => List.replicate plainLen 0 ++ type :: List.replicate pad 0
  | blank innerLen => List.replicate innerLen 0
  | spilled bs => bs
  | sent record => record
  | dropped innerLen rest => protectHeader (innerLen + wnRecordTagSz) ++ (List.replicate innerLen 0 ++ rest)

/-- At the front of scratch, or behind the header of the record there. -/
def dst : Residue → Nat
  | received _ => 0
  | wiped _ _ _ => wnRecordHeaderSz
  | blank _ => wnRecordHeaderSz
  | spilled _ => wnRecordHeaderSz
  | sent _ => 0
  | dropped _ _ => 0

/-- Scratch with it. -/
def onto (mem : Bytes) (r : Residue) : Bytes := patch mem r.dst r.bytes

/-- What it is of the stream. -/
def taken : Residue → Bytes
  | received bs => bs
  | _ => []

def record : Residue → Option Bytes
  | sent record => some record
  | _ => none

/-- It has no plaintext. -/
def Clean : Residue → Prop
  | spilled _ => False
  | _ => True

def Within (n : Nat) (r : Residue) : Prop := r.dst + r.bytes.length ≤ n

theorem onto_length {mem : Bytes} {r : Residue} (h : r.Within mem.length) : (r.onto mem).length = mem.length :=
  patch_length h

end Residue

/-- From one state to another these residues were left in scratch, the bytes
among them being what was taken off the stream, and the records sent. -/
structure Leaves (s s' : RecvState) (rs : List Residue) : Prop where
  mem : s'.out.mem = rs.foldl Residue.onto s.out.mem
  within : ∀ r ∈ rs, r.Within s.out.mem.length
  stream : s.world.inbox.flatten = rs.flatMap Residue.taken ++ s'.world.inbox.flatten
  sends : ∃ evs, s'.world.trace = s.world.trace ++ evs ∧
    (rs.filterMap Residue.record).Sublist (evs.filterMap Event.sent)
  /-- A session that is established still has the scratch it had. -/
  room : s'.world.sess.Established → s.world.sess.Established ∧ s'.world.sess.scratchLen = s.world.sess.scratchLen

theorem foldl_onto_length (rs : List Residue) {mem : Bytes} (h : ∀ r ∈ rs, r.Within mem.length) :
    (rs.foldl Residue.onto mem).length = mem.length := by
  induction rs generalizing mem with
  | nil => rfl
  | cons r rs ih =>
    obtain ⟨hr, hrs⟩ := List.forall_mem_cons.1 h
    have hlen := Residue.onto_length hr
    rw [List.foldl_cons, ih (by rwa [hlen]), hlen]

theorem Leaves.size {s s' : RecvState} {rs : List Residue} (h : Leaves s s' rs) :
    s'.out.mem.length = s.out.mem.length := by
  rw [h.mem, foldl_onto_length rs h.within]

theorem Leaves.refl (s : RecvState) : Leaves s s [] where
  mem := rfl
  within := by simp
  stream := rfl
  sends := ⟨[], (List.append_nil _).symm, .slnil⟩
  room h := ⟨h, rfl⟩

theorem Leaves.append {s s₁ s₂ : RecvState} {rs rs' : List Residue} (h : Leaves s s₁ rs) (h' : Leaves s₁ s₂ rs') :
    Leaves s s₂ (rs ++ rs') where
  mem := by rw [h'.mem, h.mem, List.foldl_append]
  within r hr := by
    rcases List.mem_append.1 hr with hr | hr
    · exact h.within r hr
    · exact h.size ▸ h'.within r hr
  stream := by rw [h.stream, h'.stream, List.flatMap_append, List.append_assoc]
  sends := by
    obtain ⟨evs, htrace, hsub⟩ := h.sends
    obtain ⟨evs', htrace', hsub'⟩ := h'.sends
    refine ⟨evs ++ evs', by rw [htrace', htrace, List.append_assoc], ?_⟩
    rw [List.filterMap_append, List.filterMap_append]
    exact hsub.append hsub'
  room hest := by
    obtain ⟨hest₁, hlen₁⟩ := h'.room hest
    obtain ⟨hest₀, hlen₀⟩ := h.room hest₁
    exact ⟨hest₀, hlen₁.trans hlen₀⟩

variable {cfg : Config} {p : Provider cfg} {spill : Spill}

/-! ## Sealing -/

/-- What is written over is gone, as far as it goes. -/
theorem patch_again {mem bs cs : Bytes} {off : Nat} (h : off ≤ mem.length) :
    patch (patch mem off bs) off cs = patch mem off (cs ++ bs.drop cs.length) := by
  have hend : off + bs.length + (cs.length - bs.length) = off + (cs.length + (bs.length - cs.length)) := by omega
  rw [patch, patch_take h, ← List.drop_drop, drop_patch h, List.drop_append, List.drop_drop, patch, List.length_append,
    List.length_drop, List.append_assoc, List.append_assoc, List.append_assoc, hend]

variable {key : Block 16} {iv : Block 12} {seq : UInt64} {contentType : UInt8} {content buf : Bytes}

/-- What `wn_Record_Protect` leaves at `rec` where it comes to this. -/
def ProtectLeaves (buf buf' : Bytes) : Except Err Bytes → Prop
  | .ok record => buf' = (Residue.sent record).onto buf ∧ (Residue.sent record).Within buf.length
  | .error _ => buf' = buf ∨ ∃ innerLen rest, buf' = (Residue.dropped innerLen rest).onto buf ∧
      (Residue.dropped innerLen rest).Within buf.length

/-- **`wn_Record_Protect` in a buffer** it has the room for: what it returns is of
the record that is sealed, and that is at the front, or what was staged is wiped. -/
theorem protectInto_eq (p : Provider cfg) (spill : Spill) (key : Block 16) (iv : Block 12) (seq : UInt64)
    (contentType : UInt8) (hroom : content.length ≤ wnMaxPlaintext → content.length + 22 ≤ buf.length) (w : World) :
    ∃ buf', protectInto p spill key iv seq contentType content buf w =
      .ok ((protectRecord p key iv seq contentType content).map List.length, buf')
        { w with trace := w.trace ++ [.protect key (wnBuildNonce iv seq) contentType content
          (protectRecord p key iv seq contentType content).isOk] } ∧
      ProtectLeaves buf buf' (protectRecord p key iv seq contentType content) := by
  unfold protectInto protectRecord
  dsimp only
  by_cases hlong : content.length > wnMaxPlaintext
  · rw [if_pos hlong, if_pos hlong]
    exact ⟨buf, rfl, .inl rfl⟩
  have hroom := hroom (Nat.not_lt.1 hlong)
  rw [if_neg hlong, if_neg hlong]
  generalize hinner : content ++ [contentType] = inner
  have hcount : content.length + 1 = inner.length := by rw [← hinner, List.length_append]; rfl
  rw [hcount]
  generalize hheader : protectHeader (inner.length + wnRecordTagSz) = hdr
  have hhdr : hdr.length = wnRecordHeaderSz := by rw [← hheader]; rfl
  have hfive : wnRecordHeaderSz = 5 := rfl
  have htag : wnRecordTagSz = 16 := rfl
  have hsize : ∀ {bs : Bytes}, bs.length ≤ buf.length → (patch buf 0 bs).length = buf.length :=
    fun h => patch_length (by omega)
  -- What is staged for the cipher is the header and the inner plaintext.
  have hcontent := patch_patch buf 0 hdr content
  have htype := patch_patch buf 0 (hdr ++ content) [contentType]
  rw [hhdr, Nat.zero_add] at hcontent
  rw [List.length_append, hhdr, Nat.zero_add, List.append_assoc, hinner] at htype
  have hread₀ := readMem_front buf hdr inner
  have hread₅ := readMem_behind buf hdr inner
  rw [hhdr] at hread₀ hread₅
  have hover : ∀ bs cs : Bytes, patch (patch buf 0 (hdr ++ bs)) wnRecordHeaderSz cs =
      patch buf 0 (hdr ++ (cs ++ bs.drop cs.length)) := by
    intro bs cs
    have hsplit := patch_patch buf 0 hdr bs
    have hthen := patch_patch buf 0 hdr (cs ++ bs.drop cs.length)
    rw [hhdr, Nat.zero_add] at hsplit hthen
    rw [← hsplit, patch_again (by rw [hsize (by omega)]; omega), hthen]
  have hinto : (patch buf 0 (hdr ++ inner)).length = buf.length := hsize (by rw [List.length_append]; omega)
  rw [storeAt_of (by omega), pure_bind, storeAt_of (by rw [hsize (by omega)]; omega), pure_bind, hcontent,
    storeAt_of (by rw [hsize (by rw [List.length_append]; omega), List.length_singleton]; omega), pure_bind, htype]
  have hwipe : ∀ rest : Bytes, rest.length ≤ wnRecordTagSz →
      ∃ innerLen rest', patch buf 0 (hdr ++ (List.replicate inner.length 0 ++ rest)) =
        (Residue.dropped innerLen rest').onto buf ∧ (Residue.dropped innerLen rest').Within buf.length := by
    intro rest hrest
    refine ⟨inner.length, rest, by rw [← hheader]; rfl, ?_⟩
    simp only [Residue.Within, Residue.dst, Residue.bytes, hheader, List.length_append, List.length_replicate]
    omega
  by_cases hkey : p.aesGcmSetKey key = false
  · have hseal : sealInner p key (wnBuildNonce iv seq) inner = .error .crypto := by
      rw [sealInner, if_neg (by simp [hkey])]
    rw [if_pos hkey, hseal]
    refine ⟨patch buf 0 (hdr ++ (List.replicate inner.length 0 ++ [])), ?_, .inr (hwipe [] (Nat.zero_le _))⟩
    rw [bind_of_ok (show unchecked (emit _) w = .ok () _ from rfl),
      storeAt_of (by rw [hinto, List.length_replicate]; omega), pure_bind, hover, List.length_replicate,
      List.drop_length]
    rfl
  · rw [if_neg hkey, bytesAt_of (by omega), pure_bind, bytesAt_of (by omega), pure_bind, check_of (by omega), pure_bind,
      hread₀, hread₅, sealInner, if_pos (by simpa using hkey), hheader]
    cases hout : p.aesGcmEncrypt key (wnBuildNonce iv seq) hdr inner with
    | none =>
      generalize hspill : (spill.encrypt key (wnBuildNonce iv seq) hdr inner).take (inner.length + wnRecordTagSz) = left
      have hleft : left.length ≤ inner.length + wnRecordTagSz := by
        rw [← hspill, List.length_take]
        exact Nat.min_le_left _ _
      dsimp only
      refine ⟨patch buf 0 (hdr ++ (List.replicate inner.length 0 ++
        (left ++ inner.drop left.length).drop inner.length)), ?_, .inr (hwipe _ ?_)⟩
      · have hspilled : (hdr ++ (left ++ inner.drop left.length)).length ≤ buf.length := by
          simp only [List.length_append, List.length_drop]
          omega
        rw [bind_of_ok (show unchecked (emit _) w = .ok () _ from rfl), storeAt_of (by rw [hinto]; omega), pure_bind,
          hover, storeAt_of (by rw [hsize hspilled, List.length_replicate]; omega), pure_bind, hover,
          List.length_replicate]
        rfl
      · simp only [List.length_drop, List.length_append]
        omega
    | some out =>
      obtain ⟨ct, tag⟩ := out
      have hct := ct.length
      have htag := tag.length
      have hrecord : (hdr ++ ct.val ++ tag.val).length = wnRecordHeaderSz + (inner.length + wnRecordTagSz) := by
        rw [List.length_append, List.length_append, hhdr, hct, htag, Nat.add_assoc]
        rfl
      have hsealed : (hdr ++ ct.val).length = wnRecordHeaderSz + inner.length := by
        rw [List.length_append, hhdr, hct]
      have hthen := patch_patch buf 0 (hdr ++ ct.val) tag.val
      rw [Nat.zero_add, hsealed] at hthen
      dsimp only
      refine ⟨patch buf 0 (hdr ++ ct.val ++ tag.val), ?_, rfl, ?_⟩
      · rw [bind_of_ok (show unchecked (emit _) w = .ok () _ from rfl), storeAt_of (by rw [hinto, hct]; omega),
          pure_bind, hover, hct, List.drop_length, List.append_nil,
          storeAt_of (by rw [hsize (by rw [hsealed]; omega), htag]; omega), pure_bind, hthen]
        show EStateM.Result.ok _ _ = .ok (Except.ok (hdr ++ ct.val ++ tag.val).length, _) _
        rw [hrecord]
        rfl
      · show 0 + (hdr ++ ct.val ++ tag.val).length ≤ _
        omega

/-! ## Records in locals -/

theorem protectLocal_refines {n : Nat} (hroom : content.length + 22 ≤ n) :
    Refines Eq (protectLocal p spill n key iv seq contentType content)
      (wnRecordProtect p key iv seq contentType content) := by
  intro w
  have hbuf : content.length + 22 ≤ (List.replicate n (0 : UInt8)).length := by rwa [List.length_replicate]
  obtain ⟨buf, hrun, hleaves⟩ := protectInto_eq p spill key iv seq contentType (fun _ => hbuf) w
  unfold protectLocal wnRecordProtect
  rw [bind_of_ok hrun]
  dsimp only
  cases hseal : protectRecord p key iv seq contentType content with
  | error e => exact ⟨rfl, rfl⟩
  | ok record =>
    rw [hseal] at hleaves
    obtain ⟨rfl, hin⟩ := hleaves
    have hsize := Residue.onto_length hin
    have hend : 0 + record.length ≤ (List.replicate n (0 : UInt8)).length := hin
    have hread : bytesAt ((Residue.sent record).onto (List.replicate n 0))
        ((Residue.sent record).onto (List.replicate n 0)).length 0 record.length = pure record := by
      rw [bytesAt_of (by rw [hsize]; exact hend)]
      exact congrArg pure (readMem_patch (Nat.zero_le _))
    show RefinesAt Eq (bytesAt _ _ 0 record.length _) _
    rw [hread]
    exact ⟨rfl, rfl⟩

namespace InScratch

theorem wnSessionSendKeyUpdate_refines :
    Refines Eq (InScratch.wnSessionSendKeyUpdate p spill) (WolfNano.wnSessionSendKeyUpdate p) := by
  unfold InScratch.wnSessionSendKeyUpdate WolfNano.wnSessionSendKeyUpdate
  refine .seq .get fun w => .seq (protectLocal_refines (by decide)) fun record => .seq (.unchecked _) fun _ => ?_
  refine .seq (.unchecked _) fun sent => .seq ((Refines.failIf _ _).imp fun _ _ _ => rfl) fun _ => ?_
  refine .seq (.unchecked _) fun _ => .seq (.unchecked _) fun _ => .seq (.unchecked _) fun _ => .unchecked _

theorem posthsKeyUpdate_refines (req : UInt8) (unread : Bytes) :
    Refines Eq (InScratch.posthsKeyUpdate p spill req unread) (WolfNano.posthsKeyUpdate p req unread) := by
  unfold InScratch.posthsKeyUpdate WolfNano.posthsKeyUpdate
  refine .seq .get fun w => .seq (.unchecked _) fun _ => .seq (.unchecked _) fun _ => .seq (.unchecked _) fun _ => ?_
  refine .seq (.unchecked _) fun _ => ?_
  split
  · exact wnSessionSendKeyUpdate_refines
  · exact .pure rfl

theorem wnClose_refines (p : Provider cfg) (spill : Spill) :
    Refines Eq (InScratch.wnClose p spill) (WolfNano.wnClose p) := by
  have hnotify : Refines Eq (InScratch.sendCloseNotify p spill) (WolfNano.sendCloseNotify p) := by
    unfold InScratch.sendCloseNotify WolfNano.sendCloseNotify
    refine .seq .get fun w => ?_
    dsimp only
    split
    · exact .seq (protectLocal_refines (by decide)) fun record => .seq (.unchecked _) fun _ => .pure rfl
    · exact .pure rfl
  unfold InScratch.wnClose WolfNano.wnClose
  exact .seq (hnotify.tryCatch fun e => .seq (.unchecked _) fun _ => .throw e) fun _ => .unchecked _

/-! ## Access -/

section Access

variable {s : RecvState}

theorem load_of {off n : Nat} (h : off + n ≤ s.out.mem.length) : load off n s = .ok (readMem s.out.mem off n) s := by
  unfold load scratch
  rw [bind_of_ok (show (get >>= fun s => pure s.out.mem : SessIo Bytes) s = .ok s.out.mem s from rfl), checked,
    bytesAt_of h]
  rfl

theorem store_of {dst : Nat} {bs : Bytes} (h : dst + bs.length ≤ s.out.mem.length) :
    store dst bs s = .ok () { s with out := { s.out with mem := patch s.out.mem dst bs } } := by
  unfold store scratch
  rw [bind_of_ok (show (get >>= fun s => pure s.out.mem : SessIo Bytes) s = .ok s.out.mem s from rfl), checked,
    storeAt_of h]
  rfl

theorem forceZero_of {off n : Nat} (h : off + n ≤ s.out.mem.length) : forceZero off n s =
    .ok () { s with out := { s.out with mem := patch s.out.mem off (List.replicate n 0) } } := by
  unfold forceZero
  by_cases hn : n > 0
  · rw [if_pos hn]
    exact store_of (by rwa [List.length_replicate])
  · have hzero : n = 0 := by omega
    rw [if_neg hn, hzero, List.replicate_zero, patch_nil]
    rfl

end Access

theorem checked_tracks {α β : Type} {R : α → β → Prop} {x : MemIo α} {y : Io β} (h : Refines R x y) (s : RecvState) :
    TracksAt RecvState.world (fun a b u => R a b ∧ ∃ w, y s.world = .ok b w ∧ u = { s with world := w })
      (fun e u => ∃ w, y s.world = .error e w ∧ u = { s with world := w }) (checked x s) (y s.world) :=
  .held (fun _ _ => rfl) (h s.world)

theorem checked_of_ok {α : Type} {x : MemIo α} {s : RecvState} {a : α} {w : World} (h : x s.world = .ok a w) :
    checked x s = .ok a { s with world := w } := by
  unfold checked held
  rw [h]

theorem world_of_ok {α : Type} {x : Io α} {s : RecvState} {a : α} {w : World} (h : x s.world = .ok a w) :
    world x s = .ok a { s with world := w } := checked_of_ok (unchecked_of_ok h)

theorem world_of_error {α : Type} {x : Io α} {s : RecvState} {e : Err} {w : World} (h : x s.world = .error e w) :
    world x s = .error (.ret e) { s with world := w } := by
  unfold world checked held
  rw [unchecked_of_error h]

theorem world_tracks {α : Type} (x : Io α) (s : RecvState) :
    TracksAt RecvState.world (fun a b u => a = b ∧ ∃ w, x s.world = .ok b w ∧ u = { s with world := w })
      (fun e u => ∃ w, x s.world = .error e w ∧ u = { s with world := w }) (world x s) (x s.world) :=
  checked_tracks (.unchecked x) s

/-! ## Receiving -/

/-- These bytes of the stream have come to `buf`; but for the transport, that is
all that has changed of the world and of scratch. -/
structure Came (s s' : RecvState) (buf : Nat) (bs : Bytes) : Prop where
  mem : s'.out.mem = patch s.out.mem buf bs
  stream : s.world.inbox.flatten = bs ++ s'.world.inbox.flatten
  only : OnlyRead s.world s'.world

theorem Came.after {s s₁ s₂ : RecvState} {buf off : Nat} {bs bs' : Bytes} (h' : Came s₁ s₂ off bs')
    (h : Came s s₁ buf bs) (hoff : off = buf + bs.length) : Came s s₂ buf (bs ++ bs') where
  mem := by rw [h'.mem, h.mem, hoff, patch_patch]
  stream := by rw [h.stream, h'.stream, List.append_assoc]
  only := IsTrans.trans _ _ _ h.only h'.only

theorem Came.leaves {s s' : RecvState} {bs : Bytes} (h : Came s s' 0 bs) (hroom : bs.length ≤ s.out.mem.length) :
    Leaves s s' [.received bs] where
  mem := h.mem
  within := by simpa [Residue.Within, Residue.dst, Residue.bytes] using hroom
  stream := by simpa [Residue.taken] using h.stream
  sends := ⟨[], by rw [h.only.frame, List.append_nil], by simp [Residue.record]⟩
  room hest := by
    rw [h.only.frame] at hest ⊢
    exact ⟨hest, rfl⟩

/-- A turn within scratch is the turn without checks. -/
theorem ioRecvExactStep_eq {buf n : Nat} (got : Nat) {s : RecvState} (hn : n < 2 ^ 32)
    (hroom : buf + n ≤ s.out.mem.length) :
    InScratch.ioRecvExactStep buf n got s = unchecked (WolfNano.ioRecvExactStep buf n got) s ∧
      ∀ got' s', WolfNano.ioRecvExactStep buf n got s = .ok (.inl got') s' →
        s'.out.mem.length = s.out.mem.length := by
  by_cases hlt : got < n
  · have hmem : (scratch : SessIo Bytes) s = .ok s.out.mem s := rfl
    have hcheck : (check (buf + got + (n - got) ≤ s.out.mem.length) .overrun : SessIo Unit) = pure () :=
      check_of (by omega) _
    rcases ioRecv_cases (n - got) s.world with ⟨bs, w, hrecv⟩ | ⟨w, hrecv, -⟩
    · obtain ⟨-, -, -, hle⟩ := ioRecv_ok (by omega) hrecv
      have hinto : ioRecvInto (buf + got) (n - got) s =
          .ok (some bs.length) ⟨w, { s.out with mem := patch s.out.mem (buf + got) bs }⟩ := by
        unfold ioRecvInto
        rw [hrecv]
      have hstep : WolfNano.ioRecvExactStep buf n got s =
          .ok (.inl (got + bs.length)) ⟨w, { s.out with mem := patch s.out.mem (buf + got) bs }⟩ := by
        unfold WolfNano.ioRecvExactStep
        rw [if_pos hlt, bind_of_ok hinto]
        dsimp only
        rw [add32_eq (by omega)]
        rfl
      refine ⟨?_, fun got' s' h => ?_⟩
      · unfold InScratch.ioRecvExactStep
        rw [if_pos hlt, bind_of_ok hmem, hcheck, pure_bind, bind_of_ok (unchecked_of_ok hinto), unchecked_of_ok hstep]
        dsimp only
        rw [checked, add32c_of (by omega)]
        rfl
      · rw [hstep] at h
        cases h
        exact patch_length (by omega)
    · have hinto : ioRecvInto (buf + got) (n - got) s = .ok none ⟨w, s.out⟩ := by
        unfold ioRecvInto
        rw [hrecv]
      have hstep : WolfNano.ioRecvExactStep buf n got s = .error .crypto ⟨w, s.out⟩ := by
        unfold WolfNano.ioRecvExactStep
        rw [if_pos hlt, bind_of_ok hinto]
        rfl
      refine ⟨?_, fun got' s' h => ?_⟩
      · unfold InScratch.ioRecvExactStep
        rw [if_pos hlt, bind_of_ok hmem, hcheck, pure_bind, bind_of_ok (unchecked_of_ok hinto),
          unchecked_of_error hstep]
        rfl
      · rw [hstep] at h
        cases h
  · unfold InScratch.ioRecvExactStep WolfNano.ioRecvExactStep
    rw [if_neg hlt, if_neg hlt]
    exact ⟨rfl, nofun⟩

theorem ioRecvExactLoop_eq {buf n : Nat} (hn : n < 2 ^ 32) : ∀ (k got : Nat) {s : RecvState},
    buf + n ≤ s.out.mem.length → repeatM (.ret .crypto) (InScratch.ioRecvExactStep buf n) k got s =
      unchecked (repeatM .crypto (WolfNano.ioRecvExactStep buf n) k got) s
  | 0, _, _, _ => rfl
  | k + 1, got, s, hroom => by
    obtain ⟨hstep, hkept⟩ := ioRecvExactStep_eq got hn hroom
    cases hrun : WolfNano.ioRecvExactStep buf n got s with
    | error e s' =>
      rw [unchecked_of_error hrun] at hstep
      rw [repeatM_error hstep, unchecked_of_error (repeatM_error hrun)]
    | ok x s' =>
      rw [unchecked_of_ok hrun] at hstep
      cases x with
      | inr u => rw [repeatM_done hstep, unchecked_of_ok (repeatM_done hrun)]
      | inl got' =>
        rw [repeatM_continue hstep, unchecked, repeatM_continue hrun]
        exact ioRecvExactLoop_eq hn k got' (by rw [hkept got' s' hrun]; exact hroom)

theorem ioRecvExact_tracks {buf n : Nat} {s : RecvState} (hn : n < 2 ^ 32) (hroom : buf + n ≤ s.out.mem.length) :
    TracksAt RecvState.world (fun _ bs s' => bs.length = n ∧ Came s s' buf bs ∧
        s'.out = { s.out with mem := s'.out.mem })
      (fun _ s' => ∃ bs, bs.length < n ∧ Came s s' buf bs)
      (InScratch.ioRecvExact buf n s) (WolfNano.ioRecvExact n s.world) := by
  have hread := ioRecvExactInto_eq buf hn s.out s.world
  have honly : Steps OnlyRead (WolfNano.ioRecvExact n) := ioRecvExact_onlyRead n
  have hloop : InScratch.ioRecvExact buf n s = unchecked (ioRecvExactInto buf n) s := ioRecvExactLoop_eq hn _ _ hroom
  rw [hloop]
  cases hr : WolfNano.ioRecvExact n s.world with
  | ok bs w =>
    rw [hr] at hread
    obtain ⟨hlen, hflat, -⟩ := ioRecvExact_ok hr
    rw [unchecked_of_ok hread]
    exact .ok rfl ⟨hlen, ⟨rfl, hflat, honly.ok hr⟩, rfl⟩
  | error e w =>
    rw [hr] at hread
    obtain ⟨bs, hflat, hlt, hread⟩ := hread
    rw [unchecked_of_error hread]
    exact .error rfl ⟨bs, hlt, ⟨rfl, hflat, honly.error hr⟩⟩

/-- What `wn_RecvRecord` leaves where it has read a record. -/
structure RecordIn (s s' : RecvState) (cap : Nat) (type : UInt8) (record : Bytes) : Prop where
  came : Came s s' 0 record
  type : s'.out.type = type
  recLen : s'.out.recLen = record.length
  fits : record.length ≤ cap
  max : record.length ≤ wnMaxPlaintext + 261

theorem wnRecvRecord_tracks {cap : Nat} {s : RecvState} (hcap : 5 ≤ cap) (hroom : cap ≤ s.out.mem.length) :
    TracksAt RecvState.world (fun _ x s' => RecordIn s s' cap x.1 x.2)
      (fun _ s' => ∃ bs, bs.length ≤ cap ∧ Came s s' 0 bs)
      (InScratch.wnRecvRecord cap s) (WolfNano.wnRecvRecord cap s.world) := by
  unfold InScratch.wnRecvRecord WolfNano.wnRecvRecord
  refine .bind (ioRecvExact_tracks (by decide) (by omega)) ?_ fun _ hdr u hu => ?_
  · intro e s' h
    obtain ⟨bs, hlt, hcame⟩ := h
    exact ⟨bs, by omega, hcame⟩
  obtain ⟨hlen, hcame, hout⟩ := hu
  have hsize : u.out.mem.length = s.out.mem.length := by rw [hcame.mem, patch_length (by omega)]
  have hread : readMem u.out.mem 0 5 = hdr := by
    rw [hcame.mem, ← hlen]
    exact readMem_patch (Nat.zero_le _)
  rw [bind_of_ok (load_of (by omega)), hread]
  dsimp only
  rw [bind_of_ok (modify_apply _ _)]
  have hcame' : ∀ {s'' : RecvState}, s''.out.mem = u.out.mem → s''.world = u.world → Came s s'' 0 hdr := by
    intro s'' hmem hworld
    exact ⟨by rw [hmem, hcame.mem], by rw [hworld, hcame.stream], by rw [hworld]; exact hcame.only⟩
  refine .bind (.failIf _ fun _ => ⟨hdr, by omega, hcame' rfl rfl⟩) (fun _ _ h => h) fun _ _ v hv => ?_
  obtain ⟨hgood, rfl⟩ := hv
  have hmax : wnMaxPlaintext = 16384 := rfl
  have hfrag : 0 < headerFrag hdr ∧ headerFrag hdr + 5 ≤ cap ∧ headerFrag hdr ≤ wnMaxPlaintext + 256 := by
    omega
  rw [bind_of_ok (modify_apply _ _)]
  refine .bind (ioRecvExact_tracks (by omega) (show 5 + headerFrag hdr ≤ u.out.mem.length by omega)) ?_
    fun _ body v hv => ?_
  · intro e s' h
    obtain ⟨bs, hlt, hcame₂⟩ := h
    exact ⟨hdr ++ bs, by rw [List.length_append]; omega, hcame₂.after (hcame' rfl rfl) (by omega)⟩
  obtain ⟨hbody, hcame₂, hout₂⟩ := hv
  have hall : Came s v 0 (hdr ++ body) := hcame₂.after (hcame' rfl rfl) (by omega)
  have hrecord : (hdr ++ body).length = headerFrag hdr + 5 := by rw [List.length_append, hlen, hbody, Nat.add_comm]
  have hsize₂ : v.out.mem.length = s.out.mem.length := by rw [hall.mem, patch_length (by omega)]
  have hfirst : (readMem v.out.mem 5 1).getD 0 0 = body.getD 0 0 := by
    rw [getD_readMem (by decide), hall.mem]
    exact getD_patch_body hlen (by omega)
  rw [bind_of_ok (load_of (by omega)), hfirst, ← bind_pure (failIf _ _ : SessIo Unit)]
  refine .bind (.failIf _ fun _ => ⟨hdr ++ body, by omega, hall⟩) (fun _ _ h => h) fun _ _ s' hs' => ?_
  obtain ⟨-, rfl⟩ := hs'
  have hfits : (hdr ++ body).length ≤ cap := by omega
  have hlong : (hdr ++ body).length ≤ wnMaxPlaintext + 261 := by omega
  exact .ok rfl ⟨hall, by rw [hout₂], by rw [hout₂, hrecord], hfits, hlong⟩

/-! ## Opening -/

/-- A residue is all that has changed. -/
theorem leaves_one {s : RecvState} {r : Residue} (hin : r.Within s.out.mem.length) (htaken : r.taken = [])
    (hrecord : r.record = none) : Leaves s { s with out := { s.out with mem := r.onto s.out.mem } } [r] where
  mem := rfl
  within := by simpa using hin
  stream := by simp [htaken]
  sends := ⟨[], (List.append_nil _).symm, by simp [hrecord]⟩
  room hest := ⟨hest, rfl⟩

/-- How a part of `wn_Recv` fails: with no plaintext left, unless a record did not open. -/
def Failing (s : RecvState) (e : Err) (s' : RecvState) : Prop :=
  ∃ rs, Leaves s s' rs ∧ (e ≠ .badMac → ∀ r ∈ rs, r.Clean)

/-- The inner plaintext is behind the header. -/
structure OpenedIn (s s' : RecvState) (type : UInt8) (plain : Bytes) (pad : Nat) : Prop where
  state : s' = { s with out := { s.out with
    mem := patch s.out.mem wnRecordHeaderSz (plain ++ type :: List.replicate pad 0) } }
  within : wnRecordHeaderSz + (plain.length + (1 + pad)) ≤ s.out.mem.length
  short : plain.length < s.out.recLen

theorem checked_pure {α : Type} (a : α) : checked (pure a) = (pure a : SessIo α) := rfl

/-- Where there is no content type, there are only zeros. -/
theorem blank_of_unpadded {plain : Bytes} (h : unpadded plain plain.length = 0) :
    plain = List.replicate plain.length 0 := by
  have htake := take_unpadded plain plain.length (Nat.le_refl _)
  rwa [h, List.take_zero, List.take_length, Nat.sub_zero, List.nil_append] at htake

theorem wnRecordUnprotect_tracks {s : RecvState} {record : Bytes} (hread : readMem s.out.mem 0 s.out.recLen = record)
    (hroom : s.out.recLen ≤ s.out.mem.length) :
    TracksAt RecvState.world (fun x y s' => x.1 = y.1 ∧ x.2 = y.2.length ∧ ∃ pad, OpenedIn s s' y.1 y.2 pad)
      (Failing s) (InScratch.wnRecordUnprotect p spill key iv seq s)
      ((ofExcept (WolfNano.wnRecordUnprotect p key iv seq record) : Io _) s.world) := by
  have hlen : record.length = s.out.recLen := by rw [← hread, readMem_length (by omega)]
  have hfive : wnRecordHeaderSz = 5 := rfl
  have htag : wnRecordTagSz = 16 := rfl
  have hsame : ∀ e, Failing s e s := fun e => ⟨[], .refl s, by simp⟩
  unfold InScratch.wnRecordUnprotect WolfNano.wnRecordUnprotect
  rw [bind_of_ok (get_apply s), hlen]
  by_cases hshort : s.out.recLen < wnRecordHeaderSz + wnRecordTagSz + 1
  · rw [failIf_pos hshort, if_pos hshort]
    exact .error rfl (hsame _)
  rw [failIf_neg hshort, if_neg hshort, pure_bind, sub32c_of (by omega), checked_pure, pure_bind, sub32c_of (by omega),
    checked_pure, pure_bind]
  generalize hinner : s.out.recLen - wnRecordHeaderSz - wnRecordTagSz = innerLen
  by_cases hkey : p.aesGcmSetKey key = false
  · rw [failIf_pos hkey, if_neg (by simp [hkey])]
    exact .error rfl (hsame _)
  have hhdr : readMem s.out.mem 0 wnRecordHeaderSz = record.take wnRecordHeaderSz := by
    rw [← hread, readMem, readMem, List.take_take, Nat.min_eq_left (by omega)]
  have hct : readMem s.out.mem wnRecordHeaderSz innerLen = (record.drop wnRecordHeaderSz).take innerLen := by
    rw [← hread, readMem_readMem (by omega), Nat.zero_add]
  have htagIn : readMem s.out.mem (wnRecordHeaderSz + innerLen) wnRecordTagSz =
      record.drop (wnRecordHeaderSz + innerLen) := by
    rw [← hread, drop_readMem, Nat.zero_add]
    exact congrArg _ (by omega)
  rw [failIf_neg hkey, pure_bind, if_pos (by simpa using hkey), bind_of_ok (load_of (by omega)),
    bind_of_ok (load_of (by omega)), bind_of_ok (load_of (by omega)), hhdr, hct, htagIn]
  dsimp only
  cases hout : p.aesGcmDecrypt key (wnBuildNonce iv seq) (record.take wnRecordHeaderSz)
      ((record.drop wnRecordHeaderSz).take innerLen) (record.drop (wnRecordHeaderSz + innerLen)) with
  | none =>
    generalize hspill : (spill.decrypt key (wnBuildNonce iv seq) (record.take wnRecordHeaderSz)
      ((record.drop wnRecordHeaderSz).take innerLen) (record.drop (wnRecordHeaderSz + innerLen))).take innerLen = left
    have hleft : left.length ≤ innerLen := by
      rw [← hspill, List.length_take]
      exact Nat.min_le_left _ _
    have hin : (Residue.spilled left).Within s.out.mem.length := by
      show wnRecordHeaderSz + left.length ≤ _
      omega
    dsimp only
    rw [bind_of_ok (store_of (by omega))]
    exact .error rfl ⟨_, leaves_one hin rfl rfl, fun h => absurd rfl h⟩
  | some inner =>
    obtain ⟨plain, hplain⟩ := inner
    have hcount : innerLen = plain.length := by
      rw [hplain, List.length_take, List.length_drop]
      omega
    have hback : readMem (patch s.out.mem wnRecordHeaderSz plain) wnRecordHeaderSz plain.length = plain :=
      readMem_patch (by omega)
    dsimp only
    rw [bind_of_ok (store_of (by omega)), bind_of_ok (load_of (by rw [patch_length (by omega)]; omega)), hcount, hback]
    by_cases hzero : unpadded plain plain.length = 0
    · have hcontent : innerContent plain = .error .decode := if_pos hzero
      have hin : (Residue.blank plain.length).Within s.out.mem.length := by
        show wnRecordHeaderSz + (List.replicate plain.length (0 : UInt8)).length ≤ _
        rw [List.length_replicate]
        omega
      have hblank := leaves_one hin rfl rfl
      simp only [Residue.onto, Residue.dst, Residue.bytes, ← blank_of_unpadded hzero] at hblank
      rw [failIf_pos hzero, hcontent]
      exact .error rfl ⟨_, hblank, fun _ r hr => by rw [List.mem_singleton.1 hr]; trivial⟩
    · have hcontent : innerContent plain = .ok (plain.getD (unpadded plain plain.length - 1) 0,
          plain.take (unpadded plain plain.length - 1)) := if_neg hzero
      obtain ⟨-, pad, hsplit⟩ := innerContent_ok hcontent
      rw [Rfc.inner] at hsplit
      have hle := unpadded_le plain plain.length
      have hsize := congrArg List.length hsplit
      simp only [List.length_append, List.length_cons, List.length_replicate] at hsize
      rw [failIf_neg hzero, pure_bind, hcontent]
      refine .ok rfl ⟨rfl, ?_, pad, ?_, ?_, ?_⟩
      · rw [List.length_take, Nat.min_eq_left (by omega)]
      · rw [← hsplit]
      · dsimp only
        omega
      · dsimp only
        omega

/-! ## Messages read in place -/

section Posths

variable {mem msg rest : Bytes} (hmem : mem.drop wnRecordHeaderSz = msg ++ rest)
include hmem

theorem reading_of {α : Type} {n : Nat} {read : Reader → α × Reader} {r r' : Reader} {v : α}
    (h : r.Reads mem.length wnRecordHeaderSz n read v r') (hbuf : r.buf = msg) {s : RecvState} (hs : s.out.mem = mem) :
    reading n read (r.over rest) s = .ok (v, r'.over rest) s := by
  have hover : ({ r.over rest with buf := mem.drop wnRecordHeaderSz } : Reader) = r.over rest := by
    rw [hmem, ← hbuf]
    rfl
  have hinto := h.into rest
  unfold reading
  rw [bind_of_ok (show (scratch : SessIo Bytes) s = .ok mem s from by rw [← hs]; rfl), hover, hinto, checked_pure]
  rfl

/-- The cursor in scratch is the cursor on the message, and scratch is as it was. -/
structure Cursor (mem msg rest : Bytes) (o : RecordOut) (r' r : Reader) (s : RecvState) : Prop where
  eq : r' = r.over rest
  inside : r.Inside mem.length wnRecordHeaderSz
  buf : r.buf = msg
  len : r.len = msg.length
  out : s.out = o

theorem posthsStep_tracks {o : RecordOut} (ho : o.mem = mem) {r' r : Reader} {s : RecvState}
    (h : Cursor mem msg rest o r' r s) :
    TracksAt RecvState.world
      (fun x y u => Sum.LiftRel (fun r' r => Cursor mem msg rest o r' r u) (fun _ _ => u.out = o) x y)
      (fun _ u => u.out = o) (InScratch.posthsStep p spill msg.length r' s)
      (WolfNano.posthsStep p msg r s.world) := by
  obtain ⟨rfl, hin, hbuf, hlen, hout⟩ := h
  have hs : s.out.mem = mem := by rw [hout, ho]
  unfold InScratch.posthsStep WolfNano.posthsStep
  rw [Reader.over_pos]
  by_cases hgo : r.pos < msg.length
  · obtain ⟨mType, r₁, h₁⟩ := hin.u8
    obtain ⟨mLen, r₂, hmLen, h₂⟩ := h₁.inside.u24
    have hbuf₁ : r₁.buf = msg := h₁.buf.trans hbuf
    have hbuf₂ : r₂.buf = msg := h₂.buf.trans hbuf₁
    have hlen₂ : r₂.len = msg.length := h₂.len.trans (h₁.len.trans hlen)
    rw [if_pos hgo, if_pos hgo, h₁.eq, bind_of_ok (reading_of hmem h₁ hbuf hs)]
    dsimp only
    rw [h₂.eq, bind_of_ok (reading_of hmem h₂ hbuf₁ hs)]
    dsimp only
    by_cases hticket : mType = wnHsNewSessionTicket
    · obtain ⟨r₃, hskip, h₃⟩ := h₂.inside.skip (show mLen < 2 ^ 31 by omega)
      rw [if_pos hticket, if_pos hticket, bind_of_ok (reading_of hmem h₃ hbuf₂ hs), hskip]
      dsimp only
      refine .bind (.failIf _ fun _ => hout) (fun _ _ h => h) fun _ _ u hu => ?_
      obtain ⟨-, rfl⟩ := hu
      exact .ok rfl (.inl ⟨rfl, h₃.inside, h₃.buf.trans hbuf₂, h₃.len.trans hlen₂, hout⟩)
    rw [if_neg hticket, if_neg hticket]
    by_cases hupdate : mType = wnHsKeyUpdate
    · obtain ⟨req, r₃, h₃⟩ := h₂.inside.u8
      have hbuf₃ : r₃.buf = msg := h₃.buf.trans hbuf₂
      have hlen₃ : r₃.len = msg.length := h₃.len.trans hlen₂
      rw [if_pos hupdate, if_pos hupdate, bind_of_ok (reading_of hmem h₃ hbuf₂ hs), h₃.eq]
      dsimp only
      refine .bind (.failIf _ fun _ => hout) (fun _ _ h => h) fun _ _ u hu => ?_
      obtain ⟨-, rfl⟩ := hu
      have hpos : r₃.pos ≤ msg.length := hlen₃ ▸ h₃.inside.within.pos
      have hends : wnRecordHeaderSz + msg.length ≤ mem.length := hlen ▸ hin.ends
      have hunread : readMem u.out.mem (wnRecordHeaderSz + (r₃.over rest).pos) (msg.length - (r₃.over rest).pos) =
          msg.drop r₃.pos := by
        rw [Reader.over_pos, hs, readMem, ← List.drop_drop, hmem, List.drop_append_of_le_length hpos,
          ← List.length_drop, List.take_left]
      rw [bind_of_ok (load_of (by rw [Reader.over_pos, hs]; omega)), hunread]
      refine .bind (checked_tracks (posthsKeyUpdate_refines req (msg.drop r₃.pos)) u) ?_
        fun _ _ v hv => ?_
      · intro e v hv
        obtain ⟨_, -, rfl⟩ := hv
        exact hout
      · obtain ⟨-, _, -, rfl⟩ := hv
        exact .ok rfl (.inl ⟨rfl, h₃.inside, hbuf₃, hlen₃, hout⟩)
    · rw [if_neg hupdate, if_neg hupdate]
      exact .error rfl hout
  · rw [if_neg hgo, if_neg hgo]
    exact .ok rfl (.inr hout)

end Posths

/-- `wn_session_posths` reads its messages where they are, and leaves scratch as it is. -/
theorem wnSessionPosths_tracks {s : RecvState} {msg : Bytes}
    (hread : readMem s.out.mem wnRecordHeaderSz msg.length = msg)
    (hroom : wnRecordHeaderSz + msg.length ≤ s.out.mem.length) (hsize : msg.length < 2 ^ 24) :
    TracksAt RecvState.world (fun _ _ u => u.out = s.out) (fun _ u => u.out = s.out)
      (InScratch.wnSessionPosths p spill msg.length s) (WolfNano.wnSessionPosths p msg s.world) := by
  have hmem : s.out.mem.drop wnRecordHeaderSz = msg ++ s.out.mem.drop (wnRecordHeaderSz + msg.length) := by
    rw [← List.drop_drop, ← hread, readMem_length hroom, readMem, List.take_append_drop]
  have hinit := wnReaderInit_over s.out.mem wnRecordHeaderSz msg.length
  rw [hread] at hinit
  have hin := wnReaderInit_inside hroom (Nat.le_refl _) hsize
  rw [hread] at hin
  unfold InScratch.wnSessionPosths WolfNano.wnSessionPosths
  rw [bind_of_ok (show (scratch : SessIo Bytes) s = .ok s.out.mem s from rfl), hinit]
  refine .turns (I := Cursor s.out.mem msg (s.out.mem.drop (wnRecordHeaderSz + msg.length)) s.out)
    (fun _ _ _ h => h.out) (fun _ _ _ h => posthsStep_tracks hmem rfl h) _ ⟨rfl, hin, rfl, rfl, rfl⟩

/-! ## One record -/

theorem recvContent_tracks {s : RecvState} {plain : Bytes}
    (hread : readMem s.out.mem wnRecordHeaderSz plain.length = plain)
    (hroom : wnRecordHeaderSz + plain.length ≤ s.out.mem.length) (hsize : plain.length < 2 ^ 24) (outCap : Nat)
    (ctype : UInt8) :
    TracksAt RecvState.world (fun x y u => x = y ∧ u.out = s.out) (fun _ u => u.out = s.out)
      (InScratch.recvContent p spill outCap ctype plain.length s)
      (WolfNano.recvContent p outCap ctype plain s.world) := by
  unfold InScratch.recvContent WolfNano.recvContent
  by_cases hdata : ctype = wnRecAppdata
  · rw [if_pos hdata, if_pos hdata]
    by_cases hsmall : plain.length > outCap
    · rw [if_pos hsmall, if_pos hsmall]
      exact .ok rfl ⟨rfl, rfl⟩
    · rw [if_neg hsmall, if_neg hsmall, bind_of_ok (load_of hroom), hread]
      exact .ok rfl ⟨rfl, rfl⟩
  rw [if_neg hdata, if_neg hdata]
  by_cases hhs : ctype = wnRecHandshake
  · rw [if_pos hhs, if_pos hhs]
    exact .bind (wnSessionPosths_tracks hread hroom hsize) (fun _ _ h => h) fun _ _ u hu => .ok rfl ⟨rfl, hu⟩
  rw [if_neg hhs, if_neg hhs]
  by_cases halert : ctype = wnRecAlert
  · rw [if_pos halert, if_pos halert]
    by_cases hlong : plain.length ≥ 2
    · have hbyte : readMem s.out.mem (wnRecordHeaderSz + 1) 1 = [plain.getD 1 0] := by
        rw [← readMem_readMem (show 1 + 1 ≤ plain.length by omega), hread, List.drop_eq_getElem_cons (by omega),
          List.getD_eq_getElem _ _ (by omega)]
        rfl
      rw [if_pos hlong, bind_of_ok (load_of (by omega)), hbyte]
      dsimp only
      by_cases hzero : plain.getD 1 0 = 0
      · rw [if_pos (List.singleton_inj.2 hzero), if_pos ⟨hlong, hzero⟩]
        exact .error rfl rfl
      · rw [if_neg fun h => hzero (List.singleton_inj.1 h), if_neg fun h => hzero h.2]
        exact .error rfl rfl
    · rw [if_neg hlong, if_neg fun h => hlong h.1]
      exact .error rfl rfl
  · rw [if_neg halert, if_neg halert]
    exact .error rfl rfl

/-! ## What a record's content can change of the world -/

end InScratch

/-- No more is established, and the scratch is the same. -/
structure Session.Room (s s' : Session) : Prop where
  established : s'.Established → s.Established
  scratchLen : s'.scratchLen = s.scratchLen

theorem Session.Room.of {s s₁ s₂ : Session} (h : s.Room s₁) (hflags : s₂.Established → s₁.Established)
    (hlen : s₂.scratchLen = s₁.scratchLen) : s.Room s₂ :=
  ⟨fun hest => h.established (hflags hest), hlen.trans h.scratchLen⟩

/-- From a session with the room of `s`, only to such a session; nothing is
taken off the stream. -/
def KeepsRoom (s : Session) (w w' : World) : Prop :=
  s.Room w.sess → s.Room w'.sess ∧ w'.inbox = w.inbox ∧ ∃ evs, w'.trace = w.trace ++ evs

section KeepsRoom

variable {s : Session}

instance : Std.Refl (KeepsRoom s) := ⟨fun _ h => ⟨h, rfl, [], (List.append_nil _).symm⟩⟩

instance : IsTrans World (KeepsRoom s) := ⟨fun w₁ w₂ w₃ h₁ h₂ h => by
  obtain ⟨hroom, hinbox, evs, htrace⟩ := h₁ h
  obtain ⟨hroom', hinbox', evs', htrace'⟩ := h₂ hroom
  exact ⟨hroom', hinbox'.trans hinbox, evs ++ evs', by rw [htrace', htrace, List.append_assoc]⟩⟩

theorem setSess_keepsRoom {s' : Session} (h : s.Room s') : Steps (KeepsRoom s) (setSess s') :=
  .modify fun _ _ => ⟨h, rfl, [], (List.append_nil _).symm⟩

theorem emit_keepsRoom (ev : Event) : Steps (KeepsRoom s) (emit ev) := .modify fun _ h => ⟨h, rfl, [ev], rfl⟩

theorem get_keepsRoom {α : Type} {f : World → Io α} (h : ∀ w, s.Room w.sess → Steps (KeepsRoom s) (f w)) :
    Steps (KeepsRoom s) (get >>= f) := fun w hroom => h w hroom w hroom

theorem wnSessionSendKeyUpdate_keepsRoom : Steps (KeepsRoom s) (wnSessionSendKeyUpdate p) := by
  refine get_keepsRoom fun w hw => .bind (.bind (emit_keepsRoom _) fun _ => .ofExcept _) fun record => ?_
  refine .bind (setSess_keepsRoom (hw.of id rfl)) fun _ => .bind (fun w hroom => ⟨hroom, rfl, _, rfl⟩) fun sent => ?_
  refine .bind (.failIf _ _) fun _ => .bind (setSess_keepsRoom (hw.of id rfl)) fun _ => .bind (.ofExcept _) fun _ => ?_
  exact .bind (setSess_keepsRoom (hw.of id rfl)) fun _ => emit_keepsRoom _

theorem posthsKeyUpdate_keepsRoom (req : UInt8) (unread : Bytes) :
    Steps (KeepsRoom s) (posthsKeyUpdate p req unread) := by
  refine get_keepsRoom fun w hw => .bind (setSess_keepsRoom (hw.of id rfl)) fun _ => .bind (.ofExcept _) fun _ => ?_
  refine .bind (setSess_keepsRoom (hw.of id rfl)) fun _ => .bind (emit_keepsRoom _) fun _ => ?_
  split
  · exact wnSessionSendKeyUpdate_keepsRoom
  · exact .pure _

theorem recvContent_keepsRoom (outCap : Nat) (ctype : UInt8) (plain : Bytes) :
    Steps (KeepsRoom s) (recvContent p outCap ctype plain) := by
  have hposths : Steps (KeepsRoom s) (wnSessionPosths p plain) := by
    refine .repeatM (fun r => ?_) _ _
    unfold posthsStep
    split
    · dsimp only
      split
      · exact .bind (.failIf _ _) fun _ => .pure _
      · split
        · exact .bind (.failIf _ _) fun _ => .bind (posthsKeyUpdate_keepsRoom _ _) fun _ => .pure _
        · exact .throw _
    · exact .pure _
  unfold recvContent
  split
  · exact .pure _
  split
  · exact .bind hposths fun _ => .pure _
  split
  · split
    · refine get_keepsRoom fun w hw => .bind (setSess_keepsRoom (hw.of (fun hest => ?_) rfl)) fun _ => .throw _
      have hbit : (w.sess.flags ||| wnSessClosed) &&& wnSessEstablished = w.sess.flags &&& wnSessEstablished := by
        rw [Nat.and_or_distrib_right]
        exact Nat.or_zero _
      unfold Session.Established at hest ⊢
      rwa [hbit] at hest
    · exact .throw _
  · exact .throw _

end KeepsRoom

namespace InScratch

/-! ## `wn_Recv` -/

/-- How a part of `wn_Recv` ends where it does not fail: with no plaintext left. -/
def Ending (s s' : RecvState) : Prop := ∃ rs, Leaves s s' rs ∧ ∀ r ∈ rs, r.Clean

theorem Ending.failing {s s₁ s' : RecvState} {e : Err} (h : Ending s s₁) (h' : Failing s₁ e s') : Failing s e s' := by
  obtain ⟨rs, hleaves, hclean⟩ := h
  obtain ⟨rs', hleaves', hclean'⟩ := h'
  exact ⟨rs ++ rs', hleaves.append hleaves', fun hmac => List.forall_mem_append.2 ⟨hclean, hclean' hmac⟩⟩

theorem Ending.trans {s s₁ s' : RecvState} (h : Ending s s₁) (h' : Ending s₁ s') : Ending s s' := by
  obtain ⟨rs, hleaves, hclean⟩ := h
  obtain ⟨rs', hleaves', hclean'⟩ := h'
  exact ⟨rs ++ rs', hleaves.append hleaves', List.forall_mem_append.2 ⟨hclean, hclean'⟩⟩

theorem Ending.refl (s : RecvState) : Ending s s := ⟨[], .refl s, by simp⟩

theorem Ending.fails {s s' : RecvState} (h : Ending s s') (e : Err) : Failing s e s' :=
  h.failing ⟨[], .refl s', by simp⟩

theorem Came.ending {s s' : RecvState} {bs : Bytes} (h : Came s s' 0 bs) (hroom : bs.length ≤ s.out.mem.length) :
    Ending s s' :=
  ⟨_, h.leaves hroom, fun r hr => by rw [List.mem_singleton.1 hr]; trivial⟩

/-- A record that was opened, used and wiped. -/
theorem OpenedIn.ending {s s₁ s₂ : RecvState} {type : UInt8} {plain : Bytes} {pad : Nat}
    (h : OpenedIn s s₁ type plain pad) (hout : s₂.out = s₁.out) (hroom : KeepsRoom s₁.world.sess s₁.world s₂.world) :
    Ending s { s₂ with
      out := { s₂.out with mem := patch s₂.out.mem wnRecordHeaderSz (List.replicate plain.length 0) } } := by
  have hin := h.within
  obtain ⟨hkept, hinbox, evs, htrace⟩ := hroom ⟨id, rfl⟩
  have hworld : s₁.world = s.world := by rw [h.state]
  rw [hworld] at hkept hinbox htrace
  have hmem : s₂.out.mem = patch s.out.mem wnRecordHeaderSz (plain ++ type :: List.replicate pad 0) := by
    rw [hout, h.state]
  refine ⟨[.wiped plain.length type pad], ⟨?_, ?_, ?_, ⟨evs, htrace, List.nil_sublist _⟩, fun hest => ?_⟩, ?_⟩
  · show patch s₂.out.mem wnRecordHeaderSz (List.replicate plain.length 0) = _
    rw [hmem, patch_again (by omega), List.length_replicate, List.drop_left]
    rfl
  · intro r hr
    rw [List.mem_singleton.1 hr]
    simp only [Residue.Within, Residue.dst, Residue.bytes, List.length_append, List.length_cons, List.length_replicate]
    omega
  · simp [Residue.taken, hinbox]
  · exact ⟨hkept.established hest, hkept.scratchLen⟩
  · intro r hr
    rw [List.mem_singleton.1 hr]
    trivial

/-- A turn of the loop: the record it reads, and what is left of that where it was opened. -/
theorem recvStep_tracks {s : RecvState} (hroom : s.world.sess.scratchLen ≤ s.out.mem.length)
    (hmin : 5 ≤ s.world.sess.scratchLen) (outCap : Nat) :
    TracksAt RecvState.world (fun x y u => x = y ∧ Ending s u ∧ u.world.sess.scratchLen = s.world.sess.scratchLen)
      (Failing s) (InScratch.recvStep p spill outCap () s) (WolfNano.recvStep p outCap () s.world) := by
  unfold InScratch.recvStep WolfNano.recvStep
  rw [bind_of_ok (get_apply s), bind_of_ok (get_apply s.world)]
  dsimp only
  refine .bind (wnRecvRecord_tracks hmin hroom) ?_ fun _ x u hu => ?_
  · intro e u hu
    obtain ⟨bs, hle, hcame⟩ := hu
    exact (hcame.ending (by omega)).fails e
  obtain ⟨rtype, record⟩ := x
  have hfits := hu.fits
  have hending : Ending s u := hu.came.ending (by omega)
  have hsize : u.out.mem.length = s.out.mem.length := by
    rw [hu.came.mem, patch_length (by omega)]
  have hread : readMem u.out.mem 0 u.out.recLen = record := by
    rw [hu.recLen, hu.came.mem]
    exact readMem_patch (Nat.zero_le _)
  rw [bind_of_ok (get_apply u), hu.type]
  dsimp only
  refine .bind (.failIf _ fun _ => hending.fails _) (fun _ _ h => h) fun _ _ u' hu' => ?_
  obtain ⟨-, rfl⟩ := hu'
  refine .bind (wnRecordUnprotect_tracks hread (by rw [hu.recLen]; omega)) (fun e v hv => hending.failing hv)
    fun x y v hv => ?_
  obtain ⟨ctype, plainLen⟩ := x
  obtain ⟨ctype', plain⟩ := y
  obtain ⟨htype, hlen, pad, hopen⟩ := hv
  dsimp only at htype hlen hopen ⊢
  subst htype hlen
  have hmem : v.out.mem = patch u'.out.mem wnRecordHeaderSz (plain ++ ctype :: List.replicate pad 0) := by
    rw [hopen.state]
  have hfive : wnRecordHeaderSz = 5 := rfl
  have hin := hopen.within
  have hmemSize : v.out.mem.length = u'.out.mem.length := by
    rw [hmem, patch_length]
    simp only [List.length_append, List.length_cons, List.length_replicate]
    omega
  have hplain : readMem v.out.mem wnRecordHeaderSz plain.length = plain := by
    rw [hmem, readMem, drop_patch (by omega), List.append_assoc, List.take_left]
  have hshort : plain.length < 2 ^ 24 := by
    have hmax := hu.max
    have hrec := hopen.short
    rw [hu.recLen] at hrec
    have hlimit : wnMaxPlaintext = 16384 := rfl
    dsimp only at hmax hrec
    omega
  have hsess : v.world.sess = s.world.sess := by rw [hopen.state, hu.came.only.frame]
  have hbody : TracksAt RecvState.world (fun x y w => x = y ∧ w.out = v.out) (fun _ w => w.out = v.out)
      ((do
        world (setSess { s.world.sess with sSeq := s.world.sess.sSeq + 1 })
        InScratch.recvContent p spill outCap ctype plain.length : SessIo _) v)
      ((do
        setSess { s.world.sess with sSeq := s.world.sess.sSeq + 1 }
        WolfNano.recvContent p outCap ctype plain : Io _) v.world) := by
    refine .bind (world_tracks _ v) ?_ fun _ _ w hw => ?_
    · intro e w hw
      obtain ⟨_, -, rfl⟩ := hw
      rfl
    · obtain ⟨-, after, -, rfl⟩ := hw
      exact recvContent_tracks (s := { v with world := after }) hplain (by dsimp only; omega) hshort outCap ctype
  have hkeeps := hbody.steps (R := KeepsRoom v.world.sess) (.bind
    (setSess_keepsRoom ⟨by rw [hsess]; exact id, by rw [hsess]⟩) fun _ => recvContent_keepsRoom outCap ctype plain)
  refine hkeeps.finallyDo (fun x y w hw => ?_) fun e w hw => ?_
  · obtain ⟨⟨hxy, hout⟩, hroom⟩ := hw
    have hlen := (hroom ⟨id, rfl⟩).1.scratchLen
    rw [hsess] at hlen
    exact ⟨_, forceZero_of (by rw [hout]; omega), rfl, hxy, hending.trans (hopen.ending hout hroom), hlen⟩
  · obtain ⟨hout, hroom⟩ := hw
    exact ⟨_, forceZero_of (by rw [hout]; omega), rfl, (hending.trans (hopen.ending hout hroom)).fails e⟩

/-- What calls ask of the session's scratch. -/
def Roomy (s : RecvState) : Prop :=
  s.world.sess.Established → 5 ≤ s.world.sess.scratchLen ∧ s.world.sess.scratchLen ≤ s.out.mem.length

theorem wnRecv_tracks {s : RecvState} (hs : Roomy s) (outCap : Nat) :
    TracksAt RecvState.world (fun x y u => x = y ∧ Ending s u) (Failing s) (InScratch.wnRecv p spill outCap s)
      (WolfNano.wnRecv p outCap s.world) := by
  unfold InScratch.wnRecv WolfNano.wnRecv recvLoop
  rw [bind_assoc]
  rcases checkOpen_cases s.world with ⟨hopen, -, hest⟩ | ⟨e, hopen⟩
  · obtain ⟨hmin, hroom⟩ := hs hest
    rw [bind_of_ok (world_of_ok hopen), bind_of_ok hopen, bind_assoc, bind_of_ok (get_apply s.world),
      bind_of_ok (get_apply _)]
    refine .bind (.turns (I := fun _ _ u => Ending s u ∧ u.world.sess.scratchLen = s.world.sess.scratchLen)
      (Q := fun x y u => x = y ∧ Ending s u) (E := Failing s) ?_ ?_ _ ⟨.refl s, rfl⟩) (fun _ _ h => h)
      fun x y u hu => ?_
    · intro _ _ u hu
      exact hu.1.fails _
    · intro _ _ u hu
      obtain ⟨hending, hlen⟩ := hu
      obtain ⟨rs, hleaves, hclean⟩ := hending
      have hsize := hleaves.size
      refine (recvStep_tracks (by omega) (by omega) outCap).imp (fun x y v hv => ?_) fun e v hv =>
        Ending.failing ⟨rs, hleaves, hclean⟩ hv
      obtain ⟨rfl, hending', hlen'⟩ := hv
      have hall := Ending.trans ⟨rs, hleaves, hclean⟩ hending'
      cases x with
      | inl _ => exact .inl ⟨hall, hlen'.trans hlen⟩
      | inr _ => exact .inr ⟨rfl, hall⟩
    · obtain ⟨rfl, hending⟩ := hu
      cases x with
      | deliver plain => exact .ok rfl ⟨rfl, hending⟩
      | small => exact .error rfl (hending.fails _)
  · rw [bind_of_error (world_of_error hopen), bind_of_error hopen]
    exact .error rfl ((Ending.refl s).fails e)

/-! ## `wn_Send` and `wn_Close` -/

/-- What was staged of a record that is not sealed is wiped. -/
theorem wnRecordProtect_tracks {s : RecvState}
    (hroom : content.length ≤ wnMaxPlaintext → content.length + 22 ≤ s.out.mem.length) :
    TracksAt RecvState.world (fun n record u => n = record.length ∧ (Residue.sent record).Within s.out.mem.length ∧
        u.out.mem = (Residue.sent record).onto s.out.mem ∧
        ∃ ev, u.world = { s.world with trace := s.world.trace ++ [ev] })
      (fun _ u => Ending s u) (InScratch.wnRecordProtect p spill key iv seq contentType content s)
      (WolfNano.wnRecordProtect p key iv seq contentType content s.world) := by
  obtain ⟨mem, hrun, hleaves⟩ := protectInto_eq p spill key iv seq contentType hroom s.world
  unfold InScratch.wnRecordProtect WolfNano.wnRecordProtect
  rw [bind_of_ok (show (scratch : SessIo Bytes) s = .ok s.out.mem s from rfl), bind_of_ok (checked_of_ok hrun)]
  dsimp only
  rw [bind_of_ok (modify_apply _ _)]
  cases hseal : protectRecord p key iv seq contentType content with
  | ok record =>
    rw [hseal] at hleaves
    exact .ok rfl ⟨rfl, hleaves.2, hleaves.1, _, rfl⟩
  | error e =>
    rw [hseal] at hleaves
    have hsends : ∀ ev : Event, ∃ evs, s.world.trace ++ [ev] = s.world.trace ++ evs ∧
        ([] : List Bytes).Sublist (evs.filterMap Event.sent) := fun ev => ⟨[ev], rfl, List.nil_sublist _⟩
    refine .error rfl ?_
    rcases hleaves with rfl | ⟨innerLen, rest, rfl, hin⟩
    · exact ⟨[], ⟨rfl, by simp, rfl, hsends _, fun hest => ⟨hest, rfl⟩⟩, by simp⟩
    · exact ⟨[.dropped innerLen rest], ⟨rfl, by simpa using hin, rfl, hsends _, fun hest => ⟨hest, rfl⟩⟩,
        fun r hr => by rw [List.mem_singleton.1 hr]; trivial⟩

theorem failIf_tracks (P : Prop) [Decidable P] {e : Err} {s u : RecvState} (h : Ending s u) :
    TracksAt RecvState.world (fun _ _ v => Ending s v) (Failing s) ((failIf P (.ret e) : SessIo Unit) u)
      ((failIf P e : Io Unit) u.world) :=
  (TracksAt.failIf P fun _ => h.fails e).imp (fun _ _ _ hv => hv.2 ▸ h) fun _ _ h => h

/-- A record that was sealed, and handed to `ioSend`. -/
theorem Ending.sent {s u : RecvState} {record : Bytes} {ev : Event} {complete : Bool}
    (hin : (Residue.sent record).Within s.out.mem.length) (hmem : u.out.mem = (Residue.sent record).onto s.out.mem)
    (hinbox : u.world.inbox = s.world.inbox) (htrace : u.world.trace = s.world.trace ++ [ev] ++ [.send record complete])
    (hroom : s.world.sess.Room u.world.sess) : Ending s u := by
  refine ⟨[.sent record], ⟨hmem, by simpa using hin, by simp [Residue.taken, hinbox], ?_, fun hest => ?_⟩, ?_⟩
  · refine ⟨[ev] ++ [.send record complete], by rw [htrace, List.append_assoc], ?_⟩
    rw [List.filterMap_append]
    exact List.sublist_append_right _ _
  · exact ⟨hroom.established hest, hroom.scratchLen⟩
  · intro r hr
    rw [List.mem_singleton.1 hr]
    trivial

theorem wnSend_tracks {s : RecvState} (hs : Roomy s) (data : Bytes) :
    TracksAt RecvState.world (fun _ _ u => Ending s u) (Failing s) (InScratch.wnSend p spill data s)
      (WolfNano.wnSend p data s.world) := by
  unfold InScratch.wnSend WolfNano.wnSend
  rcases checkOpen_cases s.world with ⟨hopen, -, hest⟩ | ⟨e, hopen⟩
  · obtain ⟨-, hroom⟩ := hs hest
    rw [bind_of_ok (world_of_ok hopen), bind_of_ok hopen, bind_of_ok (get_apply s.world), bind_of_ok (get_apply _)]
    refine .bind (.failIf _ fun _ => (Ending.refl s).fails _) (fun _ _ h => h) fun _ _ u hu => ?_
    obtain ⟨hfits, rfl⟩ := hu
    have hover : wnSendOverhead = 22 := rfl
    have hlen : data.length + 22 ≤ s.out.mem.length := by
      dsimp only at hfits
      omega
    refine .bind (wnRecordProtect_tracks fun _ => hlen) (fun e u hu => hu.fails e) fun n record u hu => ?_
    obtain ⟨rfl, hin, hmem, ev, hworld⟩ := hu
    have hsize : u.out.mem.length = s.out.mem.length := by rw [hmem, Residue.onto_length hin]
    have hend : 0 + record.length ≤ s.out.mem.length := hin
    have hread : readMem u.out.mem 0 record.length = record := by
      rw [hmem]
      exact readMem_patch (Nat.zero_le _)
    rw [bind_of_ok (world_of_ok (x := setSess _) rfl), bind_of_ok (show setSess _ u.world = .ok () _ from rfl),
      bind_of_ok (load_of (by dsimp only; omega)), hread, bind_of_ok (world_of_ok (x := ioSend record) rfl),
      bind_of_ok (show ioSend record _ = .ok _ _ from rfl)]
    exact failIf_tracks _ (.sent hin hmem (by rw [hworld]) (by rw [hworld]) ⟨by rw [hworld]; exact id, by rw [hworld]⟩)
  · rw [bind_of_error (world_of_error hopen), bind_of_error hopen]
    exact .error rfl ((Ending.refl s).fails e)

theorem wnClose_ending (s : RecvState) :
    Ending s { s with world := endState (WolfNano.wnClose p s.world) } := by
  have hkept : Steps InboxKept (WolfNano.wnClose p) := by
    have hnotify : Steps InboxKept (WolfNano.sendCloseNotify p) := by
      unfold WolfNano.sendCloseNotify
      refine .bind .get fun w => ?_
      dsimp only
      split
      · exact .bind (.bind (emit_inboxKept _) fun _ => .ofExcept _) fun _ => .bind (ioSend_inboxKept _) fun _ => .pure _
      · exact .pure _
    unfold WolfNano.wnClose
    exact .bind (.tryCatch hnotify fun _ => .bind (setSess_inboxKept _) fun _ => .throw _) fun _ => setSess_inboxKept _
  have hinbox : (endState (WolfNano.wnClose p s.world)).inbox = s.world.inbox := hkept s.world
  have htrace : ∃ evs, (endState (WolfNano.wnClose p s.world)).trace = s.world.trace ++ evs := by
    rcases wnClose_trace (p := p) s.world with h | ⟨-, sealed, sends, -, h⟩
    · exact ⟨[], by rw [h, List.append_nil]⟩
    · exact ⟨_, h⟩
  obtain ⟨evs, htrace⟩ := htrace
  refine ⟨[], ⟨rfl, by simp, by simp [hinbox], ⟨evs, htrace, List.nil_sublist _⟩, fun hest => ?_⟩, by simp⟩
  dsimp only at hest
  rw [wnClose_sess] at hest
  exact absurd hest (by decide)

/-! ## Any calls -/

theorem call_tracks (p : Provider cfg) (spill : Spill) {s : RecvState} (hs : Roomy s) (c : Call) :
    TracksAt RecvState.world (fun x y u => x = y ∧ Ending s u) (Failing s) (call p spill c s) (c.run p s.world) := by
  cases c with
  | send data => exact .bind (wnSend_tracks hs data) (fun _ _ h => h) fun _ _ u hu => .ok rfl ⟨rfl, hu⟩
  | recv outCap => exact wnRecv_tracks hs outCap
  | close =>
    have hclose := checked_tracks (wnClose_refines p spill) s
    refine .bind hclose (fun e u hu => ?_) fun _ _ u hu => ?_
    · obtain ⟨w, hrun, rfl⟩ := hu
      have hending := wnClose_ending (p := p) s
      rw [hrun] at hending
      exact hending.fails e
    · obtain ⟨-, w, hrun, rfl⟩ := hu
      have hending := wnClose_ending (p := p) s
      rw [hrun] at hending
      exact .ok rfl ⟨rfl, hending⟩

/-- How one call stands to the call without memory. -/
theorem call_cases (p : Provider cfg) (spill : Spill) {s : RecvState} (hs : Roomy s) (c : Call) :
    answer (call p spill c s) = (WolfNano.answer (c.run p s.world)).mapError .ret ∧
      (endState (call p spill c s)).world = endState (c.run p s.world) ∧
      ∃ rs, Leaves s (endState (call p spill c s)) rs ∧
        (WolfNano.answer (c.run p s.world) ≠ .error .badMac → ∀ r ∈ rs, r.Clean) := by
  have h := call_tracks p spill hs c
  revert h
  rcases call p spill c s with ⟨a, u⟩ | ⟨_ | e, u⟩ <;> rcases c.run p s.world with ⟨b, w⟩ | ⟨e', w⟩ <;> intro h
  · obtain ⟨hview, rfl, rs, hleaves, hclean⟩ := h
    exact ⟨rfl, hview, rs, hleaves, fun _ => hclean⟩
  · exact h.elim
  · exact h.elim
  · exact h.elim
  · exact h.elim
  · obtain ⟨rfl, hview, rs, hleaves, hclean⟩ := h
    exact ⟨rfl, hview, rs, hleaves, fun hmac => hclean fun he => hmac (by rw [he]; rfl)⟩

theorem Roomy.leaves {s u : RecvState} {rs : List Residue} (h : Roomy s) (hleaves : Leaves s u rs) : Roomy u := by
  intro hest
  obtain ⟨hest₀, hlen⟩ := hleaves.room hest
  have hsize := hleaves.size
  have hs := h hest₀
  omega

end InScratch

end WolfNano

/-
What the data of a session are does not show: over any calls, whatever is on
the transport, a client does the same with other data of the same lengths, both
what it is given to send and what it finds in the records that come.

The two runs are with two providers, which open a record to different data, or
seal different data. The events they leave are the same, but that a record
sent is sealed, under one key and nonce, with the data of its own run
(`EventAlike`): all that is told of the data is told by AES-GCM.
-/
import WolfNano.Client
import WolfNano.Observed
import WolfNano.ProtectFacts
import WolfNano.ClearProvider

namespace WolfNano

open Prog

variable {cfg : Config}

/-! ## Data of one length -/

/-- Contents of one type: the same, or data of the same length. -/
def ContentAlike (type : UInt8) (content content' : Bytes) : Prop :=
  content = content' ∨ type = wnRecAppdata ∧ content.length = content'.length

/-- Inner plaintexts: the same, or with data of the same length and the same padding. -/
inductive Rfc.InnerAlike : Bytes → Bytes → Prop
  | same (plain : Bytes) : InnerAlike plain plain
  | data {content content' : Bytes} (pad : Nat) (h : content.length = content'.length) :
    InnerAlike (inner wnRecAppdata content pad) (inner wnRecAppdata content' pad)

/-- Providers that derive the same keys, and seal and open alike. -/
structure Provider.Alike (p p' : Provider cfg) : Prop where
  expand : ∀ n secret protocol label info,
    p.hkdfExpandLabel n secret protocol label info = p'.hkdfExpandLabel n secret protocol label info
  setKey : ∀ key, p.aesGcmSetKey key = p'.aesGcmSetKey key
  seals : ∀ {plain plain'}, Rfc.InnerAlike plain plain' → ∀ key nonce,
    (Rfc.ciphertext p key nonce plain).isSome = (Rfc.ciphertext p' key nonce plain').isSome
  opens : ∀ key nonce hdr ct tag,
    Option.Rel Rfc.InnerAlike (decrypted p key nonce hdr ct tag) (decrypted p' key nonce hdr ct tag)

/-- Two records, each sealed with its provider, under one key and nonce. -/
def SealedAlike (p p' : Provider cfg) (record record' : Bytes) : Prop :=
  ∃ key nonce plain plain', Rfc.InnerAlike plain plain' ∧ Rfc.ciphertext p key nonce plain = some record ∧
    Rfc.ciphertext p' key nonce plain' = some record'

inductive EventAlike (p p' : Provider cfg) : Event → Event → Prop
  | send {record record' : Bytes} (h : SealedAlike p p' record record') (complete : Bool) :
    EventAlike p p' (.send record complete) (.send record' complete)
  | protect {type : UInt8} {content content' : Bytes} (h : ContentAlike type content content') (key : Block 16)
    (nonce : Block 12) (sealed : Bool) :
    EventAlike p p' (.protect key nonce type content sealed) (.protect key nonce type content' sealed)
  | writeKeys : EventAlike p p' .writeKeys .writeKeys
  | readKeys (unread : Bytes) : EventAlike p p' (.readKeys unread) (.readKeys unread)

/-- Two worlds that were one, when these events had been. -/
structure WorldsAlike (p p' : Provider cfg) (before : List Event) (w w' : World) : Prop where
  inbox : w.inbox = w'.inbox
  sendRes : w.sendRes = w'.sendRes
  sess : w.sess = w'.sess
  trace : ∃ evs evs', w.trace = before ++ evs ∧ w'.trace = before ++ evs' ∧
    List.Forall₂ (EventAlike p p') evs evs'

/-- Calls that differ in what the data are that they send. -/
inductive Call.Alike : Call → Call → Prop
  | send {data data' : Bytes} (h : data.length = data'.length) : Alike (.send data) (.send data')
  | recv (outCap : Nat) : Alike (.recv outCap) (.recv outCap)
  | close : Alike .close .close

/-- No ciphertext shows which of the two it was made of. -/
def Unseen (p p' : Provider cfg) : Prop :=
  ∀ {plain plain'}, Rfc.InnerAlike plain plain' → ∀ key nonce,
    Rfc.ciphertext p key nonce plain = Rfc.ciphertext p' key nonce plain'

/-! ## Records -/

theorem ContentAlike.length {type : UInt8} {content content' : Bytes} (h : ContentAlike type content content') :
    content.length = content'.length := by
  obtain rfl | ⟨-, hlen⟩ := h
  · rfl
  · exact hlen

theorem ContentAlike.inner {type : UInt8} {content content' : Bytes} (h : ContentAlike type content content')
    (pad : Nat) : Rfc.InnerAlike (Rfc.inner type content pad) (Rfc.inner type content' pad) := by
  obtain rfl | ⟨rfl, hlen⟩ := h
  · exact .same _
  · exact .data pad hlen

theorem Rfc.InnerAlike.length {plain plain' : Bytes} (h : InnerAlike plain plain') : plain.length = plain'.length := by
  cases h with
  | same => rfl
  | data pad h => rw [inner_length, inner_length, h]

/-- What is found in them is of one type, and alike. -/
theorem Rfc.InnerAlike.content {plain plain' : Bytes} (h : InnerAlike plain plain') :
    AgreeExcept (fun c c' => c.1 = c'.1 ∧ ContentAlike c.1 c.2 c'.2) (innerContent plain) (innerContent plain') := by
  cases h with
  | same =>
    cases innerContent plain with
    | ok c => exact ⟨rfl, .inl rfl⟩
    | error e => exact rfl
  | data pad h =>
    rw [innerContent_inner (by decide), innerContent_inner (by decide)]
    exact ⟨rfl, .inr ⟨rfl, h⟩⟩

variable {p p' : Provider cfg}

theorem protectRecord_alike (h : p.Alike p') {type : UInt8} {content content' : Bytes}
    (hc : ContentAlike type content content') (key : Block 16) (iv : Block 12) (seq : UInt64) :
    AgreeExcept (SealedAlike p p') (protectRecord p key iv seq type content)
      (protectRecord p' key iv seq type content') := by
  unfold protectRecord
  rw [hc.length]
  split
  · exact rfl
  cases hk : p.aesGcmSetKey key with
  | false =>
    have hk' := (h.setKey key).symm.trans hk
    simp [sealInner, hk, hk', AgreeExcept]
  | true =>
    have hin := hc.inner 0
    have hseals := h.seals hin key (wnBuildNonce iv seq)
    rw [sealInner_eq p hk, sealInner_eq p' ((h.setKey key).symm.trans hk)]
    change AgreeExcept _ (orCrypto (Rfc.ciphertext p key _ (Rfc.inner type content 0)))
      (orCrypto (Rfc.ciphertext p' key _ (Rfc.inner type content' 0)))
    cases hr : Rfc.ciphertext p key (wnBuildNonce iv seq) (Rfc.inner type content 0) <;>
      cases hr' : Rfc.ciphertext p' key (wnBuildNonce iv seq) (Rfc.inner type content' 0)
    · exact rfl
    · simp [hr, hr'] at hseals
    · simp [hr, hr'] at hseals
    · exact ⟨key, _, _, _, hin, hr, hr'⟩

theorem wnRecordUnprotect_alike (h : p.Alike p') (key : Block 16) (iv : Block 12) (seq : UInt64) (record : Bytes) :
    AgreeExcept (fun c c' => c.1 = c'.1 ∧ ContentAlike c.1 c.2 c'.2) (wnRecordUnprotect p key iv seq record)
      (wnRecordUnprotect p' key iv seq record) := by
  unfold wnRecordUnprotect
  split
  · exact rfl
  dsimp only
  rw [h.setKey]
  split
  · have hopens := h.opens key (wnBuildNonce iv seq) (record.take wnRecordHeaderSz)
      ((record.drop wnRecordHeaderSz).take (record.length - wnRecordHeaderSz - wnRecordTagSz))
      (record.drop (wnRecordHeaderSz + (record.length - wnRecordHeaderSz - wnRecordTagSz)))
    simp only [decrypted] at hopens
    revert hopens
    generalize p.aesGcmDecrypt key _ _ _ _ = plain
    generalize p'.aesGcmDecrypt key _ _ _ _ = plain'
    intro hopens
    cases plain <;> cases plain' <;> cases hopens
    · exact rfl
    · next hin => exact hin.content
  · exact rfl

theorem wnTls13KeyUpdate_alike (h : p.Alike p') : wnTls13KeyUpdate p = wnTls13KeyUpdate p' := by
  funext t digest
  simp only [wnTls13KeyUpdate, wnTls13ExpandLabel, h.expand]

/-! ## A provider that does not see the data -/

/-- An inner plaintext with zeros for its data. -/
def blindInner (plain : Bytes) : Bytes :=
  match innerContent plain with
  | .ok (type, content) =>
    if type = wnRecAppdata then List.replicate content.length 0 ++ plain.drop content.length else plain
  | .error _ => plain

theorem blindInner_alike (plain : Bytes) : Rfc.InnerAlike plain (blindInner plain) := by
  unfold blindInner
  split
  · next type content h =>
    obtain ⟨-, pad, rfl⟩ := innerContent_ok h
    split
    · next htype =>
      subst htype
      have hzeros : List.replicate content.length 0 ++ (Rfc.inner wnRecAppdata content pad).drop content.length =
          Rfc.inner wnRecAppdata (List.replicate content.length 0) pad := by simp [Rfc.inner]
      rw [hzeros]
      exact .data pad (by simp)
    · exact .same _
  · exact .same _

theorem blindInner_length (plain : Bytes) : (blindInner plain).length = plain.length :=
  (blindInner_alike plain).length.symm

/-- Data are sealed as zeros, and open to zeros. -/
def Provider.blind (p : Provider cfg) : Provider cfg :=
  { p with
    aesGcmEncrypt := fun key nonce aad plain => (p.aesGcmEncrypt key nonce aad (blindInner plain)).map fun (ct, tag) =>
      (⟨ct.val, ct.property.trans (blindInner_length plain)⟩, tag)
    aesGcmDecrypt := fun key nonce aad ct tag => (p.aesGcmDecrypt key nonce aad ct tag).map fun plain =>
      ⟨blindInner plain.val, (blindInner_length plain.val).trans plain.property⟩ }

theorem ciphertext_blind (key : Block 16) (nonce : Block 12) (plain : Bytes) :
    Rfc.ciphertext p.blind key nonce plain = Rfc.ciphertext p key nonce (blindInner plain) := by
  simp [Rfc.ciphertext, Provider.blind, blindInner_length, Option.map_map, Function.comp_def]

/-- A provider that seals data for their length alone is like its blind one. -/
theorem Provider.blind_alike (h : ∀ {plain plain'}, Rfc.InnerAlike plain plain' → ∀ key nonce,
    (Rfc.ciphertext p key nonce plain).isSome = (Rfc.ciphertext p key nonce plain').isSome) : p.Alike p.blind where
  expand _ _ _ _ _ := rfl
  setKey _ := rfl
  seals hin key nonce := by rw [ciphertext_blind, h hin, h (blindInner_alike _)]
  opens key nonce hdr ct tag := by
    simp only [decrypted, Provider.blind]
    cases p.aesGcmDecrypt key nonce hdr ct tag with
    | none => exact .none
    | some plain => exact .some (blindInner_alike _)

/-! ## Parts of the client -/

variable {before : List Event}

theorem emit_alike {ev ev' : Event} (h : EventAlike p p' ev ev') :
    Rel (WorldsAlike p p' before) Eq (emit ev) (emit ev') :=
  .modify fun _ _ hw => by
    obtain ⟨evs, evs', ht, ht', hevs⟩ := hw.trace
    exact ⟨hw.inbox, hw.sendRes, hw.sess, evs ++ [ev], evs' ++ [ev'], by simp [ht], by simp [ht'],
      List.rel_append hevs (.cons h .nil)⟩

theorem setSess_alike (s : Session) : Rel (WorldsAlike p p' before) Eq (setSess s) (setSess s) :=
  .modify fun _ _ hw => ⟨hw.inbox, hw.sendRes, rfl, hw.trace⟩

theorem ioSend_alike {record record' : Bytes} (h : SealedAlike p p' record record') :
    Rel (WorldsAlike p p' before) Eq (ioSend record) (ioSend record') := by
  intro w w' hw
  obtain ⟨evs, evs', ht, ht', hevs⟩ := hw.trace
  refine ⟨by rw [hw.sendRes], hw.inbox, by rw [hw.sendRes], hw.sess, evs ++ [.send record (w.sendRes.headD true)],
    evs' ++ [.send record' (w.sendRes.headD true)], by simp [ht], by simp [ht', hw.sendRes], ?_⟩
  exact List.rel_append hevs (.cons (.send h _) .nil)

theorem ioRecv_alike (n : Nat) : Rel (WorldsAlike p p' before) Eq (ioRecv n) (ioRecv n) := by
  rintro ⟨inbox, sendRes, trace, sess⟩ ⟨inbox', sendRes', trace', sess'⟩ ⟨hinbox, hres, hsess, htrace⟩
  cases hinbox
  cases inbox with
  | nil => exact ⟨rfl, rfl, hres, hsess, htrace⟩
  | cons piece cs =>
    cases piece with
    | nil => exact ⟨rfl, rfl, hres, hsess, htrace⟩
    | cons b c => exact ⟨rfl, rfl, hres, hsess, htrace⟩

theorem ioRecvExactLoop_alike (n k : Nat) (got : Bytes) :
    Rel (WorldsAlike p p' before) Eq (ioRecvExactLoop n k got) (ioRecvExactLoop n k got) := by
  induction k generalizing got with
  | zero => exact .pure rfl
  | succ k ih =>
    unfold ioRecvExactLoop
    split
    · refine .seq (ioRecv_alike _) fun r => ?_
      cases r with
      | none => exact .throw _
      | some bs => exact ih _
    · exact .pure rfl

theorem wnRecvRecord_alike (cap : Nat) : Rel (WorldsAlike p p' before) Eq (wnRecvRecord cap) (wnRecvRecord cap) :=
  .seq (ioRecvExactLoop_alike 5 5 []) fun _ => .seq (.failIf _ _) fun _ =>
    .seq (ioRecvExactLoop_alike _ _ []) fun _ => .seq (.failIf _ _) fun _ => .pure rfl

theorem wnRecordProtect_alike (h : p.Alike p') {type : UInt8} {content content' : Bytes}
    (hc : ContentAlike type content content') (key : Block 16) (iv : Block 12) (seq : UInt64) :
    Rel (WorldsAlike p p' before) (SealedAlike p p') (wnRecordProtect p key iv seq type content)
      (wnRecordProtect p' key iv seq type content') := by
  have hr := protectRecord_alike h hc key iv seq
  refine .seq (emit_alike ?_) fun _ => .ofExceptBoth hr
  have hok : (protectRecord p key iv seq type content).isOk = (protectRecord p' key iv seq type content').isOk := by
    revert hr
    cases protectRecord p key iv seq type content <;> cases protectRecord p' key iv seq type content' <;> intro hr
    · rfl
    · exact hr.elim
    · exact hr.elim
    · rfl
  rw [hok]
  exact .protect hc _ _ _

/-! ## Calls -/

theorem wnSessionSendKeyUpdate_alike (h : p.Alike p') :
    Rel (WorldsAlike p p' before) Eq (wnSessionSendKeyUpdate p) (wnSessionSendKeyUpdate p') := by
  refine .get fun _ _ hw => ?_
  rw [hw.sess]
  refine .bind (wnRecordProtect_alike h (.inl rfl) _ _ _) fun _ _ hrecord => .seq (setSess_alike _) fun _ => ?_
  refine .seq (ioSend_alike hrecord) fun _ => .seq (.failIf _ _) fun _ => ?_
  rw [wnTls13KeyUpdate_alike h]
  exact .seq (setSess_alike _) fun _ => .seq (.ofExcept _) fun _ => .seq (setSess_alike _) fun _ => emit_alike .writeKeys

theorem posthsKeyUpdate_alike (h : p.Alike p') (req : UInt8) (unread : Bytes) :
    Rel (WorldsAlike p p' before) Eq (posthsKeyUpdate p req unread) (posthsKeyUpdate p' req unread) := by
  refine .get fun _ _ hw => ?_
  rw [hw.sess, wnTls13KeyUpdate_alike h]
  refine .seq (setSess_alike _) fun _ => .seq (.ofExcept _) fun _ => .seq (setSess_alike _) fun _ => ?_
  refine .seq (emit_alike (.readKeys unread)) fun _ => ?_
  split
  · exact wnSessionSendKeyUpdate_alike h
  · exact .pure rfl

theorem posthsStep_alike (h : p.Alike p') (msg : Bytes) (r : Reader) :
    Rel (WorldsAlike p p' before) Eq (posthsStep p msg r) (posthsStep p' msg r) := by
  unfold posthsStep
  split
  · dsimp only
    split
    · exact .seq (.failIf _ _) fun _ => .pure rfl
    split
    · exact .seq (.failIf _ _) fun _ => .seq (posthsKeyUpdate_alike h _ _) fun _ => .pure rfl
    · exact .throw _
  · exact .pure rfl

theorem wnSessionPosths_alike (h : p.Alike p') (msg : Bytes) :
    Rel (WorldsAlike p p' before) Eq (wnSessionPosths p msg) (wnSessionPosths p' msg) :=
  .repeatM_eq (fun r => posthsStep_alike h msg r) _ _

theorem checkOpen_alike : Rel (WorldsAlike p p' before) Eq checkOpen checkOpen := by
  refine .get fun _ _ hw => ?_
  rw [hw.sess]
  exact .seq (.failIf _ _) fun _ => .failIf _ _

theorem wnSend_alike (h : p.Alike p') {data data' : Bytes} (hdata : data.length = data'.length) :
    Rel (WorldsAlike p p' before) Eq (wnSend p data) (wnSend p' data') := by
  refine .seq checkOpen_alike fun _ => .get fun _ _ hw => ?_
  rw [hw.sess, hdata]
  refine .seq (.failIf _ _) fun _ => .bind (wnRecordProtect_alike h (.inr ⟨rfl, hdata⟩) _ _ _) fun _ _ hrecord => ?_
  exact .seq (setSess_alike _) fun _ => .seq (ioSend_alike hrecord) fun _ => .failIf _ _

/-- Data of one length, or too much of it. -/
inductive RecvOut.Alike : RecvOut → RecvOut → Prop
  | deliver {plain plain' : Bytes} (h : plain.length = plain'.length) : Alike (.deliver plain) (.deliver plain')
  | small : Alike .small .small

theorem recvContent_alike (h : p.Alike p') (outCap : Nat) {type : UInt8} {plain plain' : Bytes}
    (hc : ContentAlike type plain plain') :
    Rel (WorldsAlike p p' before) (Sum.LiftRel Eq RecvOut.Alike) (recvContent p outCap type plain)
      (recvContent p' outCap type plain') := by
  unfold recvContent
  split
  · rw [hc.length]
    split
    · exact .pure (.inr .small)
    · exact .pure (.inr (.deliver hc.length))
  · next htype =>
    -- The other types' contents are the same.
    obtain rfl | ⟨rfl, -⟩ := hc
    · split
      · exact .seq (wnSessionPosths_alike h _) fun _ => .pure (.inl rfl)
      split
      · split
        · refine .get fun _ _ hw => ?_
          rw [hw.sess]
          exact .seq (setSess_alike _) fun _ => .throw _
        · exact .throw _
      · exact .throw _
    · exact absurd rfl htype

theorem recvStep_alike (h : p.Alike p') (outCap : Nat) :
    Rel (WorldsAlike p p' before) (Sum.LiftRel Eq RecvOut.Alike) (recvStep p outCap ()) (recvStep p' outCap ()) := by
  refine .get fun _ _ hw => ?_
  rw [hw.sess]
  refine .seq (wnRecvRecord_alike _) fun _ => .seq (.failIf _ _) fun _ => ?_
  refine .bind (.ofExceptBoth (wnRecordUnprotect_alike h _ _ _ _)) ?_
  rintro ⟨type, plain⟩ ⟨type', plain'⟩ ⟨htype, hc⟩
  cases htype
  exact .seq (setSess_alike _) fun _ => recvContent_alike h outCap hc

theorem wnRecv_alike (h : p.Alike p') (outCap : Nat) :
    Rel (WorldsAlike p p' before) (fun plain plain' => plain.length = plain'.length) (wnRecv p outCap)
      (wnRecv p' outCap) := by
  have hloop : Rel (WorldsAlike p p' before) RecvOut.Alike (recvLoop p outCap) (recvLoop p' outCap) := by
    refine .seq checkOpen_alike fun _ => .get fun w w' hw => ?_
    rw [World.pending, hw.inbox]
    exact .repeatM (S := Eq) (fun _ _ _ => recvStep_alike h outCap) _ _ _ rfl
  refine .bind hloop fun out out' hout => ?_
  cases hout with
  | deliver hlen => exact .pure hlen
  | small => exact .throw _

theorem wnClose_alike (h : p.Alike p') : Rel (WorldsAlike p p' before) Eq (wnClose p) (wnClose p') := by
  have hsend : Rel (WorldsAlike p p' before) Eq (sendCloseNotify p) (sendCloseNotify p') := by
    refine .get fun _ _ hw => ?_
    rw [hw.sess]
    dsimp only
    split
    · exact .bind (wnRecordProtect_alike h (.inl rfl) _ _ _) fun _ _ hrecord =>
        .seq (ioSend_alike hrecord) fun _ => .pure rfl
    · exact .pure rfl
  exact .seq (.tryCatch hsend fun e => .seq (setSess_alike _) fun _ => .throw e) fun _ => setSess_alike _

theorem Call.run_alike (h : p.Alike p') {call call' : Call} (hcall : call.Alike call') :
    Rel (WorldsAlike p p' before) (fun bs bs' => bs.length = bs'.length) (call.run p) (call'.run p') := by
  cases hcall with
  | send hdata => exact .seq (wnSend_alike h hdata) fun _ => .pure rfl
  | recv outCap => exact wnRecv_alike h outCap
  | close => exact .seq (wnClose_alike h) fun _ => .pure rfl

theorem callsRun_alike (h : p.Alike p') {calls calls' : List Call} (hcalls : List.Forall₂ Call.Alike calls calls')
    {w w' : World} (hw : WorldsAlike p p' before w w') :
    List.Forall₂ (AgreeExcept fun bs bs' => bs.length = bs'.length) (callsRun p calls w).1 (callsRun p' calls' w').1 ∧
      WorldsAlike p p' before (callsRun p calls w).2 (callsRun p' calls' w').2 := by
  induction hcalls generalizing w w' with
  | nil => exact ⟨.nil, hw⟩
  | cons hcall _ ih =>
    have hrun := Call.run_alike h hcall w w' hw
    obtain ⟨hanswers, hend⟩ := ih hrun.end
    exact ⟨.cons (answer_alike hrun) hanswers, hend⟩

/-- Where the ciphertexts do not tell, the network is not told. -/
theorem EventAlike.sent {ev ev' : Event} (h : EventAlike p p' ev ev') (hunseen : Unseen p p') : ev.sent = ev'.sent := by
  cases h with
  | send h =>
    obtain ⟨key, nonce, plain, plain', hin, hr, hr'⟩ := h
    rw [hunseen hin key nonce, hr'] at hr
    exact hr.symm
  | protect => rfl
  | writeKeys => rfl
  | readKeys => rfl

theorem sent_of_alike {evs evs' : List Event} (h : List.Forall₂ (EventAlike p p') evs evs') (hunseen : Unseen p p') :
    evs.filterMap Event.sent = evs'.filterMap Event.sent := by
  induction h with
  | nil => rfl
  | cons hev _ ih => rw [List.filterMap_cons, List.filterMap_cons, hev.sent hunseen, ih]

/-- **What the data are does not show**: of two runs of calls that send data of
the same lengths, with providers that open each record alike, every call
returns the same code, and as many bytes; the two take the same off the
transport, leave the same session, and do the same, but that the data sealed
are their own. If no ciphertext tells which they are, what is sent is the same. -/
theorem data_independence (h : p.Alike p') {calls calls' : List Call} (hcalls : List.Forall₂ Call.Alike calls calls')
    (w : World) :
    let r := callsRun p calls w
    let r' := callsRun p' calls' w
    List.Forall₂ (AgreeExcept fun bs bs' => bs.length = bs'.length) r.1 r'.1 ∧ WorldsAlike p p' w.trace r.2 r'.2 ∧
      (Unseen p p' → r.2.sent = r'.2.sent) := by
  have hw : WorldsAlike p p' w.trace w w := ⟨rfl, rfl, rfl, [], [], by simp, by simp, .nil⟩
  obtain ⟨hanswers, hend⟩ := callsRun_alike h hcalls hw
  refine ⟨hanswers, hend, fun hunseen => ?_⟩
  obtain ⟨evs, evs', ht, ht', hevs⟩ := hend.trace
  rw [World.sent, World.sent, ht, ht', List.filterMap_append, List.filterMap_append, sent_of_alike hevs hunseen]

/-- Two bytes sent and two received, and the same with zeros. -/
theorem data_independence_blind :
    let w := clearWorld [clearRecord 23 [7, 8]]
    List.Forall₂ (AgreeExcept fun bs bs' => bs.length = bs'.length)
      (callsRun (Provider.clear .small) [.send [1, 2], .recv 4] w).1
      (callsRun (Provider.clear .small).blind [.send [0, 0], .recv 4] w).1 :=
  (data_independence (Provider.blind_alike fun hin key nonce => by simp [Rfc.ciphertext, Provider.clear])
    (.cons (.send rfl) (.cons (.recv 4) .nil)) (clearWorld [clearRecord 23 [7, 8]])).1

end WolfNano

/-
Everything a connection puts on the wire: `wire_image`.

In the clear the ClientHello and a ChangeCipherSpec, each with its header, and
nothing else. After that what `ioSend` gets are records that `wn_Record_Protect`
has just sealed, each once, and they hold a Finished, alerts, KeyUpdates that
ask for none, and data that a `wn_Send` call was given.
-/
import WolfNano.Client
import WolfNano.Observed
import WolfNano.PskFacts
import WolfNano.CertFacts

namespace WolfNano

open Prog

variable {cfg : Config} {p : Provider cfg} {c : CertProvider}

/-! ## Records as they are sent -/

/-- What `wn_Record_Protect` calls for contents in `S` leave in a trace: a
record that is sealed is what `ioSend` gets next. -/
inductive Blocks (p : Provider cfg) (S : UInt8 → Bytes → Prop) : List Event → Prop
  | nil : Blocks p S []
  | sealed {key : Block 16} {nonce : Block 12} {type : UInt8} {content record : Bytes} {evs : List Event}
      (complete : Bool) : S type content → content.length ≤ wnMaxPlaintext →
      Rfc.ciphertext p key nonce (Rfc.inner type content 0) = some record → Blocks p S evs →
      Blocks p S (.protect key nonce type content true :: .send record complete :: evs)
  | failed {key : Block 16} {nonce : Block 12} {type : UInt8} {content : Bytes} {evs : List Event} :
      S type content → Blocks p S evs → Blocks p S (.protect key nonce type content false :: evs)
  | writeKeys {evs : List Event} : Blocks p S evs → Blocks p S (.writeKeys :: evs)
  | readKeys {evs : List Event} (unread : Bytes) : Blocks p S evs → Blocks p S (.readKeys unread :: evs)

section Blocks

variable {S S' : UInt8 → Bytes → Prop} {evs evs' : List Event}

theorem Blocks.append (h : Blocks p S evs) (h' : Blocks p S evs') : Blocks p S (evs ++ evs') := by
  induction h with
  | nil => exact h'
  | sealed complete hs hlen hseal _ ih => exact .sealed complete hs hlen hseal ih
  | failed hs _ ih => exact .failed hs ih
  | writeKeys _ ih => exact .writeKeys ih
  | readKeys unread _ ih => exact .readKeys unread ih

theorem Blocks.mono (h : Blocks p S evs) (hmono : ∀ {type content}, S type content → S' type content) :
    Blocks p S' evs := by
  induction h with
  | nil => exact .nil
  | sealed complete hs hlen hseal _ ih => exact .sealed complete (hmono hs) hlen hseal ih
  | failed hs _ ih => exact .failed (hmono hs) ih
  | writeKeys _ ih => exact .writeKeys ih
  | readKeys unread _ ih => exact .readKeys unread ih

/-- Each buffer that goes out is an application_data record, 17 bytes longer
than the content it holds. -/
theorem Blocks.sent (h : Blocks p S evs) : ∀ r ∈ evs.filterMap Event.sent, ∃ type content body,
    S type content ∧ content.length ≤ 2 ^ 14 ∧ r = wireRecord wnRecAppdata 3 3 body ∧
      body.length = content.length + 17 := by
  induction h with
  | nil => simp
  | @sealed key nonce type content record evs complete hs hlen hseal _ ih =>
    intro r hr
    simp only [List.filterMap_cons, Event.sent, List.mem_cons] at hr
    rcases hr with rfl | hr
    · obtain ⟨body, hbody, hsize⟩ := ciphertext_wire p hseal
      exact ⟨type, content, body, hs, hlen, hbody, by rw [hsize, inner_length]⟩
    · exact ih r hr
  | failed _ _ ih => simpa [Event.sent] using ih
  | writeKeys _ ih => simpa [Event.sent] using ih
  | readKeys _ _ ih => simpa [Event.sent] using ih

end Blocks

/-! ## Parts of the program that leave blocks -/

/-- The trace goes on with blocks. -/
def Puts (p : Provider cfg) (S : UInt8 → Bytes → Prop) (w w' : World) : Prop :=
  ∃ evs, w'.trace = w.trace ++ evs ∧ Blocks p S evs

/-- It goes on with the send of `record`, and then blocks. -/
def PutsFirst (p : Provider cfg) (S : UInt8 → Bytes → Prop) (record : Bytes) (w w' : World) : Prop :=
  ∃ complete evs, w'.trace = w.trace ++ .send record complete :: evs ∧ Blocks p S evs

section Puts

variable {S : UInt8 → Bytes → Prop}

instance : Std.Refl (Puts p S) := ⟨fun _ => ⟨[], by simp, .nil⟩⟩

instance : IsTrans World (Puts p S) := ⟨fun _ _ _ ⟨e₁, h₁, hb₁⟩ ⟨e₂, h₂, hb₂⟩ =>
  ⟨e₁ ++ e₂, by rw [h₂, h₁, List.append_assoc], hb₁.append hb₂⟩⟩

theorem OnlyRead.puts {w w' : World} (h : OnlyRead w w') : Puts p S w w' :=
  ⟨[], by rw [h.trace, List.append_nil], .nil⟩

theorem setSess_puts (s : Session) : Steps (Puts p S) (setSess s) :=
  .modify fun w => ⟨[], by simp, .nil⟩

theorem emit_writeKeys_puts : Steps (Puts p S) (emit .writeKeys) :=
  .modify fun _ => ⟨_, rfl, .writeKeys .nil⟩

theorem emit_readKeys_puts (unread : Bytes) : Steps (Puts p S) (emit (.readKeys unread)) :=
  .modify fun _ => ⟨_, rfl, .readKeys unread .nil⟩

variable {α β : Type}

theorem ioSend_putsFirst {record : Bytes} {k : Bool → Io α} (hk : ∀ sent, Steps (Puts p S) (k sent)) :
    Steps (PutsFirst p S record) (ioSend record >>= k) := by
  intro w
  obtain ⟨evs, htrace, hblocks⟩ := hk (w.sendRes.headD true)
    { w with sendRes := w.sendRes.tail, trace := w.trace ++ [.send record (w.sendRes.headD true)] }
  exact ⟨w.sendRes.headD true, evs, htrace.trans (by simp), hblocks⟩

theorem setSess_putsFirst {record : Bytes} (s : Session) {x : Io α} (hx : Steps (PutsFirst p S record) x) :
    Steps (PutsFirst p S record) (setSess s >>= fun _ => x) :=
  fun w => hx { w with sess := s }

/-- A record is sealed and sent, or not sealed. -/
theorem wnRecordProtect_puts {key : Block 16} {iv : Block 12} {seq : UInt64} {type : UInt8} {content : Bytes}
    (hs : S type content) {k : Bytes → Io α} (hk : ∀ record, Steps (PutsFirst p S record) (k record)) :
    Steps (Puts p S) (wnRecordProtect p key iv seq type content >>= k) := by
  intro w
  cases hr : protectRecord p key iv seq type content with
  | error e =>
    have hrun : wnRecordProtect p key iv seq type content w =
        .error e { w with trace := w.trace ++ [.protect key (wnBuildNonce iv seq) type content false] } := by
      rw [wnRecordProtect, hr]
      rfl
    rw [bind_of_error hrun]
    exact ⟨_, rfl, .failed hs .nil⟩
  | ok record =>
    rw [bind_of_ok (wnRecordProtect_of hr)]
    obtain ⟨complete, evs, htrace, hblocks⟩ := hk record
      { w with trace := w.trace ++ [.protect key (wnBuildNonce iv seq) type content true] }
    rw [protectRecord] at hr
    split at hr
    · cases hr
    · next hlen =>
      exact ⟨_, htrace.trans (List.append_assoc _ _ _),
        .sealed complete hs (Nat.not_lt.1 hlen) (sealInner_ok p hr) hblocks⟩

end Puts

/-! ## The drivers -/

/-- What the drivers seal. -/
inductive DriverSeals : UInt8 → Bytes → Prop
  | finished (mac : Block 32) : DriverSeals wnRecHandshake (Rfc.hsMsg wnHsFinished mac.val)
  | alert (e : Err) : DriverSeals wnRecAlert [2, wnErrToAlert e]

theorem sendFinished_puts (keys : HsKeys) (mac th emptyHash : Block 32) (junk : Junk) (io : Transport) :
    Steps (Puts p DriverSeals) (sendFinished p keys mac th emptyHash junk io) := by
  refine wnRecordProtect_puts (by rw [finishedMsg_eq]; exact .finished mac) fun record => ?_
  refine ioSend_putsFirst fun sent => .bind (.failIf _ _) fun _ => .bind .get fun _ => ?_
  exact .bind (setSess_puts _) fun _ => .bind (.failIf _ _) fun _ => .bind (setSess_puts _) fun _ => emit_writeKeys_puts

theorem wnSendAlert_puts (keys : HsKeys) (seq : UInt64) (e : Err) : Steps (Puts p DriverSeals) (wnSendAlert p keys seq e) :=
  .tryCatch (wnRecordProtect_puts (.alert e) fun _ => ioSend_putsFirst fun _ => .pure _) fun _ => .pure _

theorem alerting_puts {α : Type} (keys : HsKeys) (seq : UInt64) {x : Io α} (hx : Steps (Puts p DriverSeals) x) :
    Steps (Puts p DriverSeals) (alerting p keys seq x) := by
  unfold alerting
  split
  · exact .tryCatch hx fun e => .bind (wnSendAlert_puts keys seq e) fun _ => .throw e
  · exact hx

/-- Part of the sends of a ClientHello and a ChangeCipherSpec. -/
structure Opening (ch : Bytes) (evs : List Event) : Prop where
  plain : ∀ ev ∈ evs, ev.Plain
  sent : evs.filterMap Event.sent <+: (helloSends ch).filterMap Event.sent

theorem Opening.all (ch : Bytes) : Opening ch (helloSends ch) where
  plain ev hev := by
    simp only [helloSends, plainSends, List.cons_append, List.nil_append, List.mem_cons, List.not_mem_nil, or_false] at hev
    rcases hev with rfl | rfl | rfl | rfl <;> trivial
  sent := List.prefix_rfl

/-- A plaintext record goes out, or part of it does. -/
theorem sendPlainRecord_sends (type : UInt8) (body : Bytes) (w : World) :
    (∃ w', sendPlainRecord type body w = .ok () w' ∧ w'.trace = w.trace ++ plainSends type body) ∨
      ∃ e w' evs, sendPlainRecord type body w = .error e w' ∧ w'.trace = w.trace ++ evs ∧
        (∀ ev ∈ evs, ev.Plain) ∧ evs.filterMap Event.sent <+: (plainSends type body).filterMap Event.sent := by
  cases h : sendPlainRecord type body w with
  | ok u w' =>
    rw [sendPlainRecord_ok h]
    exact .inl ⟨_, rfl, rfl⟩
  | error e w' =>
    refine .inr ⟨e, w', ?_⟩
    unfold sendPlainRecord at h
    rcases bind_error.1 h with h | ⟨sent, w₁, h₁, h⟩
    · cases h
    cases h₁
    rcases bind_error.1 h with h | ⟨_, w₂, hf, h⟩
    · obtain ⟨-, -, rfl⟩ := failIf_error.1 h
      exact ⟨_, rfl, rfl, by simp [Event.Plain], by simp [plainSends, Event.sent, be_two]⟩
    obtain ⟨-, rfl⟩ := failIf_ok.1 hf
    rcases bind_error.1 h with h | ⟨sent, w₁, h₁, h⟩
    · cases h
    cases h₁
    obtain ⟨-, -, rfl⟩ := failIf_error.1 h
    refine ⟨_, rfl, List.append_assoc _ _ _, by simp [Event.Plain], ?_⟩
    simp [plainSends, Event.sent, be_two]

/-! ### The ClientHello -/

variable (p c) in
/-- The certificate driver's ClientHello, made and not yet sent. -/
def certHelloDraft (a : CertArgs p c) : Except Err (CertHello p) := do
  let emptyHash ← orCrypto (p.sha256 [])
  let (random32, rng) := p.rngGenerateBlock a.rng 32
  let random32 ← orCrypto random32
  let (sid, rng) := p.rngGenerateBlock rng 32
  let sid ← orCrypto sid
  let (priv, cliPub) ← p.keyShareGenerate rng
  let tc ← wnTranscriptInit p
  let (chLen, scratch) := wnClientHelloBuildEx cfg [] a.io.scratchLen random32 sid.val cliPub.val a.serverName
  let chLen ← chLen
  let ch := scratch.take chLen
  let tc ← wnTranscriptUpdate p tc ch
  pure { random32, sid, priv, emptyHash, ch, tc }

theorem certClientHello_eq (a : CertArgs p c) : certClientHello p c a = (do
    let hello ← ofExcept (certHelloDraft p c a)
    sendPlainRecord wnRecHandshake hello.ch
    sendCcs
    pure hello) := by
  simp only [certClientHello, certHelloDraft, ofExcept_bind, ofExcept_pure, bind_assoc, pure_bind]

/-- The ClientHello that a driver sends when it gets so far. -/
def Connect.hello : Connect p c → Except Err Bytes
  | .psk a => (pskHelloDraft p a).map (·.ch)
  | .cert a => (certHelloDraft p c a).map (·.ch)

/-- What a driver puts on the wire: nothing, part of its opening, or all of it
and then blocks. -/
inductive Spoken (p : Provider cfg) (hello : Except Err Bytes) : List Event → Prop
  | silent : Spoken p hello []
  | cut {ch : Bytes} {evs : List Event} : hello = .ok ch → Opening ch evs → Spoken p hello evs
  | whole {ch : Bytes} {evs : List Event} : hello = .ok ch → Blocks p DriverSeals evs →
      Spoken p hello (helloSends ch ++ evs)

/-- A draft, its sending, and what comes after that leaves blocks. -/
theorem opening_spoken {α H : Type} {draft : Except Err H} {ch : H → Bytes} {k : H → Io α}
    (hk : ∀ hello, Steps (Puts p DriverSeals) (k hello)) (w : World) :
    ∃ evs, (endState ((do
      let hello ← ofExcept draft
      sendPlainRecord wnRecHandshake (ch hello)
      sendCcs
      k hello) w)).trace = w.trace ++ evs ∧ Spoken p (draft.map ch) evs := by
  cases draft with
  | error e => exact ⟨[], (List.append_nil _).symm, .silent⟩
  | ok hello =>
    rw [bind_of_ok (ofExcept_ok_apply _ _)]
    rcases sendPlainRecord_sends wnRecHandshake (ch hello) w with ⟨w₁, h₁, ht₁⟩ | ⟨e, w₁, evs, h₁, ht₁, hplain, hsent⟩
    · rw [bind_of_ok h₁, sendCcs]
      rcases sendPlainRecord_sends wnRecChangeCipher [1] w₁ with ⟨w₂, h₂, ht₂⟩ | ⟨e, w₂, evs, h₂, ht₂, hplain, hsent⟩
      · obtain ⟨evs, htrace, hblocks⟩ := hk hello w₂
        rw [bind_of_ok h₂]
        exact ⟨_, by simp [htrace, ht₂, ht₁, helloSends], .whole rfl hblocks⟩
      · rw [bind_of_error h₂]
        refine ⟨plainSends wnRecHandshake (ch hello) ++ evs, by rw [endState_error, ht₂, ht₁, List.append_assoc],
          .cut rfl ⟨?_, ?_⟩⟩
        · intro ev hev
          rcases List.mem_append.1 hev with hev | hev
          · exact (Opening.all _).plain ev (List.mem_append_left _ hev)
          · exact hplain ev hev
        · simpa [helloSends] using hsent
    · rw [bind_of_error h₁]
      refine ⟨evs, ht₁, .cut rfl ⟨hplain, hsent.trans ?_⟩⟩
      simp [helloSends]

/-- The PSK driver from the ServerHello on. -/
def pskFromServerHello (a : PskArgs p) (hello : PskHello p) : Io Unit := do
  let (tc, ecdhe) ← recvServerHello p a.io.scratchLen hello.priv hello.sid 0 hello.tc
  let th ← ofExcept (wnTranscriptGetHash p tc)
  let keys ← ofExcept (wnDeriveHsKeys p hello.early ecdhe.val hello.emptyHash th)
  let flight ← pskFlight p a.io.scratchLen keys tc
  let th ← ofExcept (wnTranscriptGetHash p flight.tc)
  let mac ← ofExcept (wnTls13FinishedMac p keys.cHs th)
  sendFinished p keys mac th hello.emptyHash a.junk a.io
  emit (.readKeys (flight.plain.drop flight.accOff))

theorem pskFromServerHello_puts (a : PskArgs p) (hello : PskHello p) :
    Steps (Puts p DriverSeals) (pskFromServerHello a hello) := by
  refine .bind ((recvServerHello_onlyRead _ _ _ _ _).mono fun h => h.puts) fun x => .bind (.ofExcept _) fun th => ?_
  refine .bind (.ofExcept _) fun keys => .bind ((pskFlight_onlyRead _ _ _).mono fun h => h.puts) fun flight => ?_
  refine .bind (.ofExcept _) fun th => .bind (.ofExcept _) fun mac => ?_
  exact .bind (sendFinished_puts _ _ _ _ _ _) fun _ => emit_readKeys_puts _

theorem wnConnectPskEx_opening {a : PskArgs p} (hargs : ¬ a.Rejected p) (w : World) :
    wnConnectPskEx p a w = (do
      let hello ← ofExcept (pskHelloDraft p a)
      sendPlainRecord wnRecHandshake hello.ch
      sendCcs
      pskFromServerHello a hello) { w with sess := .zero } := by
  rw [wnConnectPskEx, failIf_neg hargs, pure_bind,
    bind_of_ok (rfl : setSess .zero w = .ok () { w with sess := .zero }), pskClientHello_eq]
  simp only [bind_assoc, pure_bind]
  rfl

/-- The certificate driver from the ServerHello on. -/
def certFromServerHello (a : CertArgs p c) (hello : CertHello p) : Io Unit := do
  let (tc, ecdhe) ← recvServerHello p (certIoCap cfg a.io) hello.priv hello.sid (-1) hello.tc
  let th ← ofExcept (wnTranscriptGetHash p tc)
  let early ← ofExcept (wnTls13Extract p [] (Block.zero 32).val)
  let keys ← ofExcept (wnDeriveHsKeys p early ecdhe.val hello.emptyHash th)
  let (flight, th, mac) ← alerting p keys 0 (certFlightMac p c a (certIoCap cfg a.io) keys tc)
  alerting p keys 1 (sendFinished p keys mac th hello.emptyHash a.junk a.io)
  emit (.readKeys (flight.hsacc.drop flight.off))

theorem certFromServerHello_puts (a : CertArgs p c) (hello : CertHello p) :
    Steps (Puts p DriverSeals) (certFromServerHello a hello) := by
  refine .bind ((recvServerHello_onlyRead _ _ _ _ _).mono fun h => h.puts) fun x => .bind (.ofExcept _) fun th => ?_
  refine .bind (.ofExcept _) fun early => .bind (.ofExcept _) fun keys => ?_
  refine .bind (alerting_puts _ _ ((certFlightMac_onlyRead _ _ _ _).mono fun h => h.puts)) fun x => ?_
  exact .bind (alerting_puts _ _ (sendFinished_puts _ _ _ _ _ _)) fun _ => emit_readKeys_puts _

theorem wnConnectCertImpl_opening {a : CertArgs p c} (hargs : ¬ a.Rejected p c) (w : World) :
    wnConnectCertImpl p c a w = (do
      let hello ← ofExcept (certHelloDraft p c a)
      sendPlainRecord wnRecHandshake hello.ch
      sendCcs
      certFromServerHello a hello) { w with sess := .zero } := by
  rw [wnConnectCertImpl, failIf_neg hargs, pure_bind,
    bind_of_ok (rfl : setSess .zero w = .ok () { w with sess := .zero }), certClientHello_eq]
  simp only [bind_assoc, pure_bind]
  rfl

/-- **What the drivers put on the wire**, whatever they return. -/
theorem Connect.run_spoken (conn : Connect p c) (w : World) :
    ∃ evs, (endState (conn.run p w)).trace = w.trace ++ evs ∧ Spoken p conn.hello evs := by
  have hsilent : ∃ evs, w.trace = w.trace ++ evs ∧ Spoken p conn.hello evs := ⟨[], (List.append_nil _).symm, .silent⟩
  cases conn with
  | psk a =>
    rw [Connect.run]
    by_cases hargs : a.Rejected p
    · rw [wnConnectPskEx, failIf_pos hargs]
      exact hsilent
    · rw [wnConnectPskEx_opening hargs]
      exact opening_spoken (pskFromServerHello_puts a) { w with sess := .zero }
  | cert a =>
    rw [Connect.run]
    by_cases hargs : a.Rejected p c
    · rw [wnConnectCertImpl, failIf_pos hargs]
      exact hsilent
    · rw [wnConnectCertImpl_opening hargs]
      exact opening_spoken (certFromServerHello_puts a) { w with sess := .zero }

/-! ## The calls -/

/-- What a call seals. -/
inductive Call.Seals : Call → UInt8 → Bytes → Prop
  | data (data : Bytes) : Seals (.send data) wnRecAppdata data
  | keyUpdate (outCap : Nat) : Seals (.recv outCap) wnRecHandshake (Rfc.hsMsg wnHsKeyUpdate [0])
  | closeNotify : Seals .close wnRecAlert [1, 0]

/-- What a call puts on the wire: `wn_Send` and `wn_Close` no more than one record. -/
structure Call.Leaves (p : Provider cfg) (call : Call) (evs : List Event) : Prop where
  blocks : Blocks p call.Seals evs
  once : (∀ outCap, call ≠ .recv outCap) → (evs.filterMap Event.sent).length ≤ 1

theorem wnSessionSendKeyUpdate_puts (outCap : Nat) :
    Steps (Puts p (Call.Seals (.recv outCap))) (wnSessionSendKeyUpdate p) := by
  refine .bind .get fun w => wnRecordProtect_puts (.keyUpdate outCap) fun record => setSess_putsFirst _ ?_
  refine ioSend_putsFirst fun sent => .bind (.failIf _ _) fun _ => ?_
  exact .bind (setSess_puts _) fun _ => .bind (.ofExcept _) fun _ => .bind (setSess_puts _) fun _ => emit_writeKeys_puts

theorem wnRecv_puts (outCap : Nat) : Steps (Puts p (Call.Seals (.recv outCap))) (wnRecv p outCap) := by
  refine .bind (.bind ?_ fun _ => .bind .get fun _ => .repeatM (fun _ => ?_) _ _) fun out => ?_
  · exact .bind .get fun _ => .bind (.failIf _ _) fun _ => .failIf _ _
  · refine .bind .get fun w => .bind ((wnRecvRecord_onlyRead _).mono fun h => h.puts) fun x => .bind (.failIf _ _) fun _ => ?_
    refine .bind (.ofExcept _) fun x => .bind (setSess_puts _) fun _ => ?_
    exact recvContent_steps setSess_puts emit_readKeys_puts (wnSessionSendKeyUpdate_puts outCap) _ _ _
  · cases out with
    | deliver plain => exact .pure _
    | small => exact .throw _

/-- A record sealed under the session's keys, and sent. -/
theorem World.protect_blocks {w : World} {S : UInt8 → Bytes → Prop} {type : UInt8} {content record : Bytes}
    (hs : S type content) (h : w.protect p type content = .ok record) (complete : Bool) :
    Blocks p S [.protect w.sess.cKey (wnBuildNonce w.sess.cIv w.sess.cSeq) type content true, .send record complete] := by
  rw [World.protect, protectRecord] at h
  split at h
  · cases h
  · next hlen => exact .sealed complete hs (Nat.not_lt.1 hlen) (sealInner_ok p h) .nil

theorem wnSend_leaves (data : Bytes) (w : World) : ∃ evs, (endState (wnSend p data w)).trace = w.trace ++ evs ∧
    Call.Leaves p (.send data) evs := by
  obtain ⟨acts, hrun, hacts⟩ := wnSend_run (p := p) data w []
  have hacts : acts = [] ∨ acts = [.unsealed wnRecAppdata data] ∨ ∃ record complete, acts = [.sent data record complete] := by
    cases hr : wnSend p data w with
    | ok u w' =>
      rw [hr] at hacts
      obtain ⟨record, hacts⟩ := hacts
      exact .inr (.inr ⟨record, true, hacts⟩)
    | error e w' =>
      rw [hr] at hacts
      rcases hacts with hacts | hacts | ⟨record, hacts⟩
      · exact .inl hacts
      · exact .inr (.inl hacts)
      · exact .inr (.inr ⟨record, false, hacts⟩)
  generalize endState (wnSend p data w) = w' at hrun ⊢
  rcases hacts with rfl | rfl | ⟨record, complete, rfl⟩
  · cases hrun
    exact ⟨[], (List.append_nil _).symm, .nil, fun _ => by simp⟩
  · cases hrun with
    | cons hstep hrest =>
      cases hrest
      cases hstep
      exact ⟨_, rfl, .failed (.data data) .nil, fun _ => Nat.zero_le 1⟩
  · cases hrun with
    | cons hstep hrest =>
      cases hrest
      cases hstep with
      | sent h => exact ⟨_, rfl, World.protect_blocks (.data data) h _, fun _ => Nat.le_refl 1⟩

theorem wnClose_leaves (w : World) : ∃ evs, (endState (wnClose p w)).trace = w.trace ++ evs ∧
    Call.Leaves p .close evs := by
  rw [wnClose_end]
  unfold sendCloseNotify
  rw [bind_of_ok (get_apply w)]
  split
  · rcases wnRecordProtect_cases (p := p) w wnRecAlert [1, 0] with ⟨record, hrec, hrun⟩ | ⟨e, -, hrun⟩
    · rw [bind_of_ok hrun]
      exact ⟨_, List.append_assoc _ _ _, World.protect_blocks .closeNotify hrec _, fun _ => Nat.le_refl 1⟩
    · rw [bind_of_error hrun]
      exact ⟨_, rfl, .failed .closeNotify .nil, fun _ => Nat.zero_le 1⟩
  · exact ⟨[], (List.append_nil _).symm, .nil, fun _ => by simp⟩

theorem Call.after_leaves (call : Call) (w : World) :
    ∃ evs, (call.after p w).trace = w.trace ++ evs ∧ call.Leaves p evs := by
  cases call with
  | send data => exact wnSend_leaves data w
  | recv outCap =>
    obtain ⟨evs, htrace, hblocks⟩ := wnRecv_puts (p := p) outCap w
    exact ⟨evs, htrace, hblocks, fun h => absurd rfl (h outCap)⟩
  | close => exact wnClose_leaves w

/-- What some of the calls seals. -/
def SealedBy (calls : List Call) (type : UInt8) (content : Bytes) : Prop := ∃ call ∈ calls, call.Seals type content

/-- Any calls leave what each of them leaves, one after the other. -/
theorem callsAfter_leaves (calls : List Call) (w : World) :
    ∃ parts, (callsAfter p w calls).trace = w.trace ++ parts.flatten ∧ List.Forall₂ (Call.Leaves p) calls parts ∧
      Blocks p (SealedBy calls) parts.flatten := by
  induction calls generalizing w with
  | nil => exact ⟨[], (List.append_nil _).symm, .nil, .nil⟩
  | cons call calls ih =>
    obtain ⟨evs, htrace, hcall⟩ := call.after_leaves (p := p) w
    obtain ⟨parts, hrest, hparts, hblocks⟩ := ih (call.after p w)
    refine ⟨evs :: parts, ?_, .cons hcall hparts, ?_⟩
    · rw [List.flatten_cons, ← List.append_assoc, ← htrace]
      exact hrest
    · refine (hcall.blocks.mono fun hs => ⟨call, List.mem_cons_self, hs⟩).append (hblocks.mono fun hs => ?_)
      obtain ⟨other, hmem, hs⟩ := hs
      exact ⟨other, List.mem_cons_of_mem _ hmem, hs⟩

/-! ## The connection -/

end WolfNano

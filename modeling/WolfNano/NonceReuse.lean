/-
No nonce is used twice under one client secret.

`afterConnect_sound` numbers the `wn_Record_Protect` calls of a run, whether or
not AES-GCM fails in them: a call that failed may leave its nonce to the next.
Here, where AES-GCM does not fail, every call has sealed (`Event.Sealed`), so
no two share a nonce.
-/
import WolfNano.Nonces
import WolfNano.ClearProvider

namespace WolfNano

open Prog

variable {cfg : Config} {p : Provider cfg} {c : CertProvider}

/-! ## Calls that seal -/

/-- Not a `wn_Record_Protect` call that failed. -/
def Event.Sealed : Event → Prop
  | .protect _ _ _ _ sealed => sealed = true
  | _ => True

theorem Event.Plain.sealed {ev : Event} (h : ev.Plain) : ev.Sealed := by
  cases ev <;> first | exact h.elim | trivial

theorem Emits.sealed {w w' : World} (h : Emits Event.Plain w w') : Emits Event.Sealed w w' :=
  h.mono fun _ hev => hev.sealed

section Total

variable (hp : p.Total)
include hp

theorem wnRecordProtect_sealed (key : Block 16) (iv : Block 12) (seq : UInt64) (type : UInt8) {content : Bytes}
    (hlen : content.length ≤ wnMaxPlaintext) :
    Steps (Emits Event.Sealed) (wnRecordProtect p key iv seq type content) := by
  obtain ⟨record, hrec, -⟩ := protectRecord_total hp ⟨Block.zero 32, key, iv⟩ seq type hlen
  have hsealed : (protectRecord p key iv seq type content).isOk = true := by
    rw [hrec]
    rfl
  exact .bind (emit_emits hsealed) fun _ => .ofExcept _

theorem sendFinished_sealed (keys : HsKeys) (mac th emptyHash : Block 32) (junk : Junk) (io : Transport) :
    Steps (Emits Event.Sealed) (sendFinished p keys mac th emptyHash junk io) := by
  refine .bind (wnRecordProtect_sealed hp _ _ _ _ (by simp [finishedMsg, wnMaxPlaintext])) fun record => ?_
  refine .bind (ioSend_emits fun _ => trivial) fun sent => .bind (.failIf _ _) fun _ => ?_
  exact wnSessionEstablish_emits (P := Event.Sealed) trivial _ _ _ _ _

theorem wnSendAlert_sealed (keys : HsKeys) (seq : UInt64) (e : Err) :
    Steps (Emits Event.Sealed) (wnSendAlert p keys seq e) := by
  refine .tryCatch (.bind (wnRecordProtect_sealed hp _ _ _ _ (by simp [wnMaxPlaintext])) fun record => ?_) fun _ => .pure _
  exact .bind (ioSend_emits fun _ => trivial) fun _ => .pure _

theorem alerting_sealed {α : Type} (keys : HsKeys) (seq : UInt64) {x : Io α} (hx : Steps (Emits Event.Sealed) x) :
    Steps (Emits Event.Sealed) (alerting p keys seq x) := by
  unfold alerting
  split
  · exact .tryCatch hx fun e => .bind (wnSendAlert_sealed hp keys seq e) fun _ => .throw e
  · exact hx

theorem wnConnectPskEx_sealed (a : PskArgs p) : Steps (Emits Event.Sealed) (wnConnectPskEx p a) := by
  rw [wnConnectPskEx_eq]
  refine .bind ((pskHandshake_emits a).mono fun h => h.sealed) fun x => ?_
  exact .bind (sendFinished_sealed hp _ _ _ _ _ _) fun _ => emit_emits (P := Event.Sealed) trivial

theorem wnConnectCertImpl_sealed (a : CertArgs p c) : Steps (Emits Event.Sealed) (wnConnectCertImpl p c a) := by
  rw [wnConnectCertImpl_eq, certHandshake_eq]
  refine .bind (.bind ((certKeys_emits a).mono fun h => h.sealed) fun x => .bind (alerting_sealed hp _ _ ?_) fun x =>
    .pure _) fun x => ?_
  · exact (certFlightMac_onlyRead _ _ _ _).mono fun h => h.emits
  · refine .bind (alerting_sealed hp _ _ (sendFinished_sealed hp _ _ _ _ _ _)) fun _ => ?_
    exact emit_emits (P := Event.Sealed) trivial

theorem wnSend_sealed (data : Bytes) : Steps (Emits Event.Sealed) (wnSend p data) := by
  have hcheck : Steps (Emits Event.Sealed) checkOpen :=
    .bind .get fun _ => .bind (.failIf _ _) fun _ => .failIf _ _
  refine .bind hcheck fun _ => .bind .get fun w => ?_
  by_cases hlen : data.length > wnMaxPlaintext
  · dsimp only
    rw [failIf_pos (.inl hlen)]
    exact fun s => (Std.Refl.refl s : Emits Event.Sealed s s)
  · refine .bind (.failIf _ _) fun _ => .bind (wnRecordProtect_sealed hp _ _ _ _ (Nat.not_lt.1 hlen)) fun record => ?_
    refine .bind (setSess_emits _) fun _ => ?_
    exact .bind (ioSend_emits fun _ => trivial) fun _ => .failIf _ _

theorem wnSessionSendKeyUpdate_sealed : Steps (Emits Event.Sealed) (wnSessionSendKeyUpdate p) := by
  refine .bind .get fun w => .bind (wnRecordProtect_sealed hp _ _ _ _ (by simp [keyUpdateMsg, wnMaxPlaintext])) ?_
  refine fun record => .bind (setSess_emits _) fun _ => .bind (ioSend_emits fun _ => trivial) fun sent => ?_
  refine .bind (.failIf _ _) fun _ => .bind (setSess_emits _) fun _ => .bind (.ofExcept _) fun _ => ?_
  exact .bind (setSess_emits _) fun _ => emit_emits (P := Event.Sealed) trivial

theorem recvContent_sealed (outCap : Nat) (ctype : UInt8) (plain : Bytes) :
    Steps (Emits Event.Sealed) (recvContent p outCap ctype plain) :=
  recvContent_steps (fun _ => setSess_emits _) (fun _ => emit_emits (P := Event.Sealed) trivial)
    (wnSessionSendKeyUpdate_sealed hp) outCap ctype plain

theorem wnRecv_sealed (outCap : Nat) : Steps (Emits Event.Sealed) (wnRecv p outCap) := by
  have hcheck : Steps (Emits Event.Sealed) checkOpen :=
    .bind .get fun _ => .bind (.failIf _ _) fun _ => .failIf _ _
  have hloop : Steps (Emits Event.Sealed) (recvLoop p outCap) := by
    refine .bind hcheck fun _ => .bind .get fun _ => .repeatM (fun _ => ?_) _ _
    refine .bind .get fun w => .bind (wnRecvRecord_emits _) fun r => .bind (.failIf _ _) fun _ => ?_
    exact .bind (.ofExcept _) fun x => .bind (setSess_emits _) fun _ => recvContent_sealed hp _ _ _
  refine .bind hloop fun out => ?_
  cases out with
  | deliver m => exact .pure _
  | small => exact .throw _

theorem wnClose_sealed : Steps (Emits Event.Sealed) (wnClose p) := by
  have hnotify : Steps (Emits Event.Sealed) (sendCloseNotify p) := by
    refine .bind .get fun w => ?_
    dsimp only
    split
    · refine .bind (wnRecordProtect_sealed hp _ _ _ _ (by simp [wnMaxPlaintext])) fun record => ?_
      exact .bind (ioSend_emits fun _ => trivial) fun _ => .pure _
    · exact .pure _
  exact .bind (.tryCatch hnotify fun e => .bind (setSess_emits _) fun _ => .throw e) fun _ => setSess_emits _

theorem callsAfter_sealed : ∀ (calls : List Call) (w : World), Emits Event.Sealed w (callsAfter p w calls)
  | [], w => Std.Refl.refl w
  | call :: calls, w => by
    have hcall : Emits Event.Sealed w (call.after p w) := by
      cases call with
      | send data => exact wnSend_sealed hp data w
      | recv outCap => exact wnRecv_sealed hp outCap w
      | close => exact wnClose_sealed hp w
    exact IsTrans.trans _ _ _ hcall (callsAfter_sealed calls (call.after p w))

end Total

/-! ## No reuse -/

/-- Where every call sealed, no two have the same nonce. -/
theorem NoReuse.nodup {tr : List Event} (htr : ∀ ev ∈ tr, ev.Sealed) {g : Nat} (h : NoReuse (protectCalls g tr)) :
    ((protectCalls g tr).map Prod.fst).Nodup := by
  have hsealed : ∀ x ∈ protectCalls g tr, x.2 = true := by
    intro x hx
    obtain ⟨ev, hev, hprot⟩ := List.mem_filterMap.1 hx
    have hev' := htr ev (segment_subset _ g tr hev)
    cases ev with
    | protect key nonce type content sealed =>
      cases hprot
      exact hev'
    | _ => cases hprot
  rw [List.Nodup, List.pairwise_map]
  exact h.imp_of_mem fun hx _ hxy => hxy (hsealed _ hx)

/-- **No nonce reuse**: after a driver and any calls, under each client secret
with which fewer than 2^64 records were sealed, no nonce of a
`wn_Record_Protect` call that sealed is used by a later one; and where AES-GCM
does not fail, no two calls use the same nonce at all. -/
theorem nonces_not_reused (hx : p.Expands) (connect : Io Unit) (sess : Session)
    (hconnect : (∃ a : PskArgs p, connect = wnConnectPskEx p a ∧ (a.Rejected p → sess.Shut)) ∨
      ∃ a : CertArgs p c, connect = wnConnectCertImpl p c a ∧ (a.Rejected p c → sess.Shut))
    (inbox : List Bytes) (sendRes : List Bool) (calls : List Call) (g : Nat)
    (hcount : (protectCalls g (afterConnect p connect (.fresh inbox sendRes sess) calls).trace).countP (·.2) < 2 ^ 64) :
    NoReuse (protectCalls g (afterConnect p connect (.fresh inbox sendRes sess) calls).trace) ∧
      (p.Total → ((protectCalls g (afterConnect p connect (.fresh inbox sendRes sess) calls).trace).map
        Prod.fst).Nodup) := by
  have hend : DriverEnd (connect (.fresh inbox sendRes sess)) := by
    rcases hconnect with ⟨a, rfl, hsess⟩ | ⟨a, rfl, hsess⟩
    · exact wnConnectPskEx_end a inbox sendRes hsess
    · exact wnConnectCertImpl_end a inbox sendRes hsess
  have hno := (afterConnect_sound hx hend calls g).noReuse hcount
  refine ⟨hno, fun hp => hno.nodup ?_⟩
  have hdriver : Steps (Emits Event.Sealed) connect := by
    rcases hconnect with ⟨a, rfl, -⟩ | ⟨a, rfl, -⟩
    · exact wnConnectPskEx_sealed hp a
    · exact wnConnectCertImpl_sealed hp a
  obtain ⟨evs, htrace, hevs⟩ := IsTrans.trans _ _ _ (hdriver (.fresh inbox sendRes sess))
    (callsAfter_sealed hp calls (endState (connect (.fresh inbox sendRes sess))))
  unfold afterConnect
  rw [htrace]
  exact hevs

/-- After a PSK handshake, a `wn_Send` and `wn_Close`. -/
theorem nonces_not_reused_clear :
    ((protectCalls 1 (afterConnect (.clear .small) (wnConnectPskEx (.clear .small) (.clear [105] 2048))
      (.fresh [clearPskStream] [] .zero) [.send [1], .close]).trace).map Prod.fst).Nodup :=
  (nonces_not_reused (c := .trusting) (Provider.clear_total .small).expands _ .zero
    (.inl ⟨.clear [105] 2048, rfl, fun _ => Session.zero_shut⟩) [clearPskStream] [] [.send [1], .close] 1
    (by decide +kernel)).2 (Provider.clear_total .small)

end WolfNano

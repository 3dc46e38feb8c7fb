/-
Calls on a session, `wn_Close` among them.

A session that is `Shut` refuses `wn_Send` and `wn_Recv`, and stays shut.
`wn_Close` seals at most one record and wipes the session. So any list of calls
is a run of acts, and then nothing, or the close_notify and nothing more.
-/
import WolfNano.SessionRun
import WolfNano.TraceFacts

namespace WolfNano

open Prog

variable {cfg : Config} {p : Provider cfg}

/-! ## Sessions that are shut -/

/-- Refused by the checks that `wn_Send` and `wn_Recv` make first. -/
def Session.Shut (s : Session) : Prop := s.Closed ∨ ¬ s.Established

theorem Session.Shut.checkOpen {w : World} (h : w.sess.Shut) : ∃ e, checkOpen w = .error e w := by
  rcases checkOpen_cases w with ⟨-, hopen, hest⟩ | herr
  · exact absurd h (not_or.2 ⟨hopen, not_not.2 hest⟩)
  · exact herr

theorem Session.Shut.send {w : World} (h : w.sess.Shut) (data : Bytes) : ∃ e, wnSend p data w = .error e w := by
  obtain ⟨e, herr⟩ := h.checkOpen
  exact ⟨e, bind_of_error herr⟩

theorem Session.Shut.recv {w : World} (h : w.sess.Shut) (outCap : Nat) : ∃ e, wnRecv p outCap w = .error e w := by
  obtain ⟨e, herr⟩ := h.checkOpen
  exact ⟨e, bind_of_error (bind_of_error herr)⟩

/-- `wn_Close` is its close_notify, and wipes the session whatever that returns. -/
theorem wnClose_end (w : World) :
    endState (wnClose p w) = { endState (sendCloseNotify p w) with sess := .zero } := by
  unfold wnClose
  cases hc : sendCloseNotify p w with
  | ok _ w₁ =>
    rw [bind_of_ok (tryCatch_of_ok hc)]
    rfl
  | error e w₁ =>
    have herr : tryCatch (sendCloseNotify p) (fun e => do setSess .zero; throw e) w =
        .error e { w₁ with sess := .zero } := by
      rw [tryCatch_of_error hc]
      rfl
    rw [bind_of_error herr]
    rfl

theorem wnClose_sess (w : World) : (endState (wnClose p w)).sess = .zero := by
  rw [wnClose_end]

/-- `wn_Close` does nothing, or seals a close_notify and may send it. -/
theorem wnClose_trace (w : World) : (endState (wnClose p w)).trace = w.trace ∨
    ¬ w.sess.Shut ∧ ∃ sealed sends, (∀ ev ∈ sends, Event.Plain ev) ∧ (endState (wnClose p w)).trace =
      w.trace ++ .protect w.sess.cKey (wnBuildNonce w.sess.cIv w.sess.cSeq) wnRecAlert [1, 0] sealed :: sends := by
  rw [wnClose_end]
  unfold sendCloseNotify
  rw [bind_of_ok (get_apply w)]
  by_cases hopen : ¬ w.sess.Closed ∧ w.sess.Established ∧ w.sess.ioSend ≠ 0
  · rw [if_pos hopen]
    refine .inr ⟨not_or.2 ⟨hopen.1, not_not.2 hopen.2.1⟩, ?_⟩
    rcases wnRecordProtect_cases (p := p) w wnRecAlert [1, 0] with ⟨record, -, hrun⟩ | ⟨e, -, hrun⟩
    · rw [bind_of_ok hrun]
      refine ⟨true, [.send record (w.sendRes.headD true)], by simp [Event.Plain], ?_⟩
      show (w.trace ++ [_]) ++ [_] = _
      rw [List.append_assoc]
      rfl
    · rw [bind_of_error hrun]
      exact ⟨false, [], by simp, rfl⟩
  · rw [if_neg hopen]
    exact .inl rfl

theorem Session.zero_shut : Session.zero.Shut := .inr (by decide)

/-- A session that is shut stays shut. -/
theorem Session.Shut.after {w : World} (h : w.sess.Shut) (call : Call) : (call.after p w).sess.Shut := by
  cases call with
  | send data =>
    obtain ⟨e, herr⟩ := h.send (p := p) data
    rw [Call.after, herr]
    exact h
  | recv outCap =>
    obtain ⟨e, herr⟩ := h.recv (p := p) outCap
    rw [Call.after, herr]
    exact h
  | close =>
    rw [Call.after, wnClose_sess]
    exact Session.zero_shut

theorem Session.Shut.callsAfter : ∀ {calls : List Call} {w : World}, w.sess.Shut → (callsAfter p w calls).sess.Shut
  | [], _, h => h
  | call :: _, w, h => Session.Shut.callsAfter (w := call.after p w) (h.after call)

/-- Calls on a session that is shut leave no trace. -/
theorem Session.Shut.calls_trace : ∀ (calls : List Call) {w : World}, w.sess.Shut →
    (WolfNano.callsAfter p w calls).trace = w.trace
  | [], _, _ => rfl
  | call :: calls, w, h => by
    have hcall : (call.after p w).trace = w.trace := by
      cases call with
      | send data =>
        obtain ⟨e, herr⟩ := h.send (p := p) data
        rw [Call.after, herr, endState_error]
      | recv outCap =>
        obtain ⟨e, herr⟩ := h.recv (p := p) outCap
        rw [Call.after, herr, endState_error]
      | close =>
        rcases wnClose_trace (p := p) w with htrace | ⟨hopen, -⟩
        · exact htrace
        · exact absurd h hopen
    exact (Session.Shut.calls_trace calls (h.after call)).trans hcall

/-! ## Sessions that are used -/

/-- What calls keep of a session as long as it is established. -/
def Session.Usable (s : Session) : Prop := s.Established → s.digest = .sha256 ∧ 2048 ≤ s.scratchLen

theorem Session.Usable.after (hx : p.Expands) {w : World} (h : w.sess.Usable) (call : Call) :
    (call.after p w).sess.Usable := by
  by_cases hest : w.sess.Established
  · obtain ⟨hd, hroom⟩ := h hest
    have hsame : ∀ {s : Session}, w.sess.Same s → s.Usable := fun hs _ =>
      ⟨hs.digest.trans hd, by rw [hs.scratchLen]; exact hroom⟩
    cases call with
    | send data =>
      obtain ⟨acts, hrun, -⟩ := wnSend_run (p := p) data w []
      exact hsame hrun.same
    | recv outCap =>
      obtain ⟨acts, q', hrun, -⟩ := wnRecv_run hx outCap w [] fun _ => hd
      exact hsame hrun.same
    | close =>
      rw [Call.after, wnClose_sess]
      exact fun hzero => absurd hzero (by decide)
  · cases call with
    | send data =>
      obtain ⟨e, herr⟩ := Session.Shut.send (p := p) (.inr hest) data
      rw [Call.after, herr]
      exact h
    | recv outCap =>
      obtain ⟨e, herr⟩ := Session.Shut.recv (p := p) (.inr hest) outCap
      rw [Call.after, herr]
      exact h
    | close =>
      rw [Call.after, wnClose_sess]
      exact fun hzero => absurd hzero (by decide)

theorem Session.Usable.callsAfter (hx : p.Expands) : ∀ (calls : List Call) {w : World}, w.sess.Usable →
    (callsAfter p w calls).sess.Usable
  | [], _, h => h
  | call :: calls, w, h => Session.Usable.callsAfter hx calls (w := call.after p w) (h.after hx call)

/-- **Any calls** are a run of acts, and then nothing, or one `wn_Close`. -/
theorem calls_run_close (hx : p.Expands) : ∀ (calls : List Call) (w : World) (q : Bytes),
    (¬ w.sess.Shut → w.sess.digest = .sha256) → ∃ acts w₁ q', SessRun p (w, q) acts (w₁, q') ∧
      ((callsAfter p w calls).trace = w₁.trace ∨ (callsAfter p w calls).trace = (endState (wnClose p w₁)).trace)
  | [], w, q, _ => ⟨[], w, q, .nil, .inl rfl⟩
  | call :: calls, w, q, hd => by
    by_cases hshut : w.sess.Shut
    · exact ⟨[], w, q, .nil, .inl (Session.Shut.calls_trace (call :: calls) hshut)⟩
    have hd := hd hshut
    have hgo : ∀ {acts : List Act} {w' : World} {q' : Bytes}, call.after p w = w' → SessRun p (w, q) acts (w', q') →
        ∃ acts w₁ q', SessRun p (w, q) acts (w₁, q') ∧ ((callsAfter p w (call :: calls)).trace = w₁.trace ∨
          (callsAfter p w (call :: calls)).trace = (endState (wnClose p w₁)).trace) := by
      intro acts w' q' hafter hrun
      obtain ⟨acts', w₁, q₁, hrun', htrace⟩ := calls_run_close hx calls w' q' fun _ => hrun.same.digest.trans hd
      have hcalls : callsAfter p w (call :: calls) = callsAfter p w' calls := by
        rw [← hafter]
        rfl
      rw [hcalls]
      exact ⟨acts ++ acts', w₁, q₁, hrun.append hrun', htrace⟩
    cases call with
    | send data =>
      obtain ⟨acts, hrun, -⟩ := wnSend_run (p := p) data w q
      exact hgo rfl hrun
    | recv outCap =>
      obtain ⟨acts, q', hrun, -⟩ := wnRecv_run hx outCap w q fun _ => hd
      exact hgo rfl hrun
    | close =>
      refine ⟨[], w, q, .nil, .inr ?_⟩
      have hzero : (endState (wnClose p w)).sess.Shut := by
        rw [wnClose_sess]
        exact Session.zero_shut
      exact Session.Shut.calls_trace calls hzero

end WolfNano

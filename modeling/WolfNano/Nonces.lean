/-
The nonces of the records that the client seals.

A `wn_Record_Protect` call belongs to the client secret in use when it was
made: `protectCalls 0` are those under the handshake secret, `protectCalls n`
those under the `n`-th application secret. In each the calls are `Numbered`
with the nonces of 0, 1, 2, … : `Stamped` says so of a trace and of the session
that goes on from it. Every act keeps it, and so do the drivers and `wn_Close`,
each in its own way.
-/
import WolfNano.Calls
import WolfNano.FailedConnect
import WolfNano.Lib.Numbering

namespace WolfNano

open Prog

variable {cfg : Config} {p : Provider cfg} {c : CertProvider}

/-! ## Calls by generation -/

def Event.isWriteKeys : Event → Bool
  | .writeKeys => true
  | _ => false

/-- The nonce of a `wn_Record_Protect` call, and whether it sealed. -/
def Event.protected : Event → Option (Block 12 × Bool)
  | .protect _ nonce _ _ sealed => some (nonce, sealed)
  | _ => none

/-- How many application secrets have been in use. -/
def generations (tr : List Event) : Nat := tr.countP Event.isWriteKeys

/-- The `wn_Record_Protect` calls under the `g`-th client secret. -/
def protectCalls (g : Nat) (tr : List Event) : List (Block 12 × Bool) :=
  (segment Event.isWriteKeys g tr).filterMap Event.protected

theorem protectCalls_append (g : Nat) (tr evs : List Event) : protectCalls g (tr ++ evs) =
    protectCalls g tr ++ if generations tr ≤ g then protectCalls (g - generations tr) evs else [] := by
  unfold protectCalls generations
  rw [segment_append, List.filterMap_append]
  split <;> rfl

theorem generations_append (tr evs : List Event) : generations (tr ++ evs) = generations tr + generations evs :=
  List.countP_append

/-- The nonces of an iv. -/
def nonces (iv : Block 12) (k : Nat) : Block 12 := wnBuildNonce iv (UInt64.ofNat k)

theorem nonces_inj (iv : Block 12) : ∀ i < 2 ^ 64, ∀ j < 2 ^ 64, nonces iv i = nonces iv j → i = j := by
  intro i hi j hj h
  have hseq := congrArg UInt64.toNat (wnBuildNonce_inj h)
  rwa [UInt64.toNat_ofNat_of_lt' hi, UInt64.toNat_ofNat_of_lt' hj] at hseq

/-- Calls that took their nonces in order, without a gap but for those of the
handshake. -/
def Sound (calls : List (Block 12 × Bool)) : Prop :=
  ∃ iv n, Numbered (nonces iv) calls n ∧ (n ≤ 2 ∨ n = calls.countP (·.2))

/-- No call that sealed shares its nonce with a later one. -/
def NoReuse (calls : List (Block 12 × Bool)) : Prop := calls.Pairwise fun x y => x.2 = true → x.1 ≠ y.1

theorem Sound.nil : Sound [] := ⟨Block.zero 12, 0, .nil, .inl (Nat.zero_le _)⟩

theorem Sound.noReuse {calls : List (Block 12 × Bool)} (h : Sound calls) (hcount : calls.countP (·.2) < 2 ^ 64) :
    NoReuse calls := by
  obtain ⟨iv, n, hnum, hn⟩ := h
  refine hnum.noReuse (nonces_inj iv) ?_
  rcases hn with hn | hn <;> omega

/-! ## The session and its trace -/

/-- Every generation took its nonces in order, and the session goes on with
the present one where it is. -/
structure Stamped (tr : List Event) (s : Session) : Prop where
  past : ∀ g < generations tr, Sound (protectCalls g tr)
  current : ∃ n, Numbered (nonces s.cIv) (protectCalls (generations tr) tr) n ∧
    n = (protectCalls (generations tr) tr).countP (·.2) ∧ s.cSeq = UInt64.ofNat n

namespace Stamped

variable {tr : List Event} {s s' : Session}

theorem sound (h : Stamped tr s) (g : Nat) : Sound (protectCalls g tr) := by
  rcases Nat.lt_trichotomy g (generations tr) with hg | hg | hg
  · exact h.past g hg
  · obtain ⟨n, hnum, hcount, -⟩ := h.current
    rw [hg]
    exact ⟨s.cIv, n, hnum, .inr hcount⟩
  · rw [protectCalls, segment_beyond _ hg]
    exact .nil

/-- Events that change no write keys belong to the present generation. -/
theorem append {evs : List Event} (h : Stamped tr s) (hevs : generations evs = 0)
    (hcur : ∀ n calls, Numbered (nonces s.cIv) calls n → n = calls.countP (·.2) → s.cSeq = UInt64.ofNat n →
      ∃ n', Numbered (nonces s'.cIv) (calls ++ protectCalls 0 evs) n' ∧
        n' = (calls ++ protectCalls 0 evs).countP (·.2) ∧ s'.cSeq = UInt64.ofNat n') : Stamped (tr ++ evs) s' := by
  have hgen : generations (tr ++ evs) = generations tr := by rw [generations_append, hevs, Nat.add_zero]
  constructor
  · intro g hg
    rw [hgen] at hg
    rw [protectCalls_append, if_neg (by omega), List.append_nil]
    exact h.past g hg
  · obtain ⟨n, hnum, hcount, hseq⟩ := h.current
    rw [hgen, protectCalls_append, if_pos (Nat.le_refl _), Nat.sub_self]
    exact hcur n _ hnum hcount hseq

theorem quiet {evs : List Event} (h : Stamped tr s) (hevs : generations evs = 0) (hcalls : protectCalls 0 evs = [])
    (hiv : s'.cIv = s.cIv) (hseq : s'.cSeq = s.cSeq) : Stamped (tr ++ evs) s' := by
  refine h.append hevs fun n calls hnum hcount hn => ?_
  rw [hcalls, List.append_nil, hiv, hseq]
  exact ⟨n, hnum, hcount, hn⟩

theorem sealed {evs : List Event} (h : Stamped tr s) (hevs : generations evs = 0)
    (hcalls : protectCalls 0 evs = [(wnBuildNonce s.cIv s.cSeq, true)]) (hiv : s'.cIv = s.cIv)
    (hseq : s'.cSeq = s.cSeq + 1) : Stamped (tr ++ evs) s' := by
  refine h.append hevs fun n calls hnum hcount hn => ⟨n + 1, ?_, ?_, ?_⟩
  · rw [hcalls, hn, hiv]
    exact hnum.used
  · rw [hcalls, List.countP_append, ← hcount]
    rfl
  · rw [hseq, hn]
    simp

theorem unsealed {evs : List Event} (h : Stamped tr s) (hevs : generations evs = 0)
    (hcalls : protectCalls 0 evs = [(wnBuildNonce s.cIv s.cSeq, false)]) (hiv : s'.cIv = s.cIv)
    (hseq : s'.cSeq = s.cSeq) : Stamped (tr ++ evs) s' := by
  refine h.append hevs fun n calls hnum hcount hn => ⟨n, ?_, ?_, ?_⟩
  · rw [hcalls, hn, hiv]
    exact hnum.left
  · rw [hcalls, List.countP_append, ← hcount]
    rfl
  · rw [hseq, hn]

/-- New write keys begin a new generation. -/
theorem rekeyed (h : ∀ g ≤ generations tr, Sound (protectCalls g tr)) (hseq : s.cSeq = 0) :
    Stamped (tr ++ [.writeKeys]) s := by
  have hgen : generations (tr ++ [.writeKeys]) = generations tr + 1 := generations_append _ _
  constructor
  · intro g hg
    have hnew : ∀ k, protectCalls k [.writeKeys] = [] := by
      intro k
      cases k <;> rfl
    rw [protectCalls_append, hnew, ite_self, List.append_nil]
    exact h g (by omega)
  · have hbeyond : segment Event.isWriteKeys (generations tr + 1) tr = [] := segment_beyond _ (Nat.lt_succ_self _)
    have hempty : protectCalls (generations tr + 1) (tr ++ [.writeKeys]) = [] := by
      rw [protectCalls_append, if_pos (Nat.le_succ _), Nat.add_sub_cancel_left, protectCalls, hbeyond]
      rfl
    rw [hgen, hempty]
    exact ⟨0, .nil, rfl, by rw [hseq]; rfl⟩

end Stamped

/-! ## Every act -/

theorem SessStep.stamped {x y : World × Bytes} {a : Act} (h : SessStep p x a y)
    (hx : Stamped x.1.trace x.1.sess) : Stamped y.1.trace y.1.sess := by
  cases h with
  | sent h => exact hx.sealed rfl rfl rfl rfl
  | @replied w q record t h hsent ht =>
    have hreply : Stamped (w.afterSeal wnRecHandshake (keyUpdateMsg 0) record).trace
        (w.afterSeal wnRecHandshake (keyUpdateMsg 0) record).sess := hx.sealed rfl rfl rfl rfl
    exact Stamped.rekeyed (fun g _ => hreply.sound g) rfl
  | replyCut h hcut => exact hx.sealed rfl rfl rfl rfl
  | unsealed h => exact hx.unsealed rfl rfl rfl rfl
  | skipped h =>
    rw [h.frame]
    exact hx
  | opened hread hopen =>
    dsimp only
    rw [((wnRecvRecord_onlyRead _).ok hread).trace]
    exact ⟨hx.past, hx.current⟩
  | ticket h => exact hx
  | keyUpdate hreq ht => exact hx.quiet rfl rfl rfl rfl
  | shut => exact ⟨hx.past, hx.current⟩

theorem SessRun.stamped {x y : World × Bytes} {acts : List Act} (h : SessRun p x acts y)
    (hx : Stamped x.1.trace x.1.sess) : Stamped y.1.trace y.1.sess :=
  h.invariant (I := fun z => Stamped z.1.trace z.1.sess) (fun hi hs => hs.stamped hi) hx

/-! ## `wn_Close` -/

theorem plain_quiet {evs : List Event} (h : ∀ ev ∈ evs, Event.Plain ev) :
    generations evs = 0 ∧ ∀ g, protectCalls g evs = [] := by
  have hsep : ∀ ev ∈ evs, ¬ ev.isWriteKeys = true := by
    intro ev hev
    have := h ev hev
    cases ev <;> first | exact this.elim | exact nofun
  have hgen : generations evs = 0 := List.countP_eq_zero.2 hsep
  refine ⟨hgen, fun g => ?_⟩
  cases g with
  | zero =>
    rw [protectCalls, segment_zero _ hsep, List.filterMap_eq_nil_iff]
    intro ev hev
    have := h ev hev
    cases ev <;> first | exact this.elim | rfl
  | succ g => rw [protectCalls, segment_beyond _ (show generations evs < g + 1 by omega), List.filterMap_nil]

/-- One call, and what follows it that only sends. -/
theorem protect_plain (key : Block 16) (nonce : Block 12) (type : UInt8) (content : Bytes) (sealed : Bool)
    {sends : List Event} (h : ∀ ev ∈ sends, Event.Plain ev) :
    generations (.protect key nonce type content sealed :: sends) = 0 ∧
      protectCalls 0 (.protect key nonce type content sealed :: sends) = [(nonce, sealed)] := by
  obtain ⟨hgen, hcalls⟩ := plain_quiet h
  constructor
  · exact hgen
  · have hone := protectCalls_append 0 [.protect key nonce type content sealed] sends
    rw [hcalls, ite_self, List.append_nil] at hone
    exact hone

/-- That call after a trace of one generation. -/
theorem protect_appended {tr : List Event} {calls : List (Block 12 × Bool)} (hgen : generations tr = 0)
    (hcalls : protectCalls 0 tr = calls) (key : Block 16) (nonce : Block 12) (type : UInt8) (content : Bytes)
    (sealed : Bool) {sends : List Event} (h : ∀ ev ∈ sends, Event.Plain ev) :
    generations (tr ++ .protect key nonce type content sealed :: sends) = 0 ∧
      protectCalls 0 (tr ++ .protect key nonce type content sealed :: sends) = calls ++ [(nonce, sealed)] := by
  obtain ⟨hgen', hcalls'⟩ := protect_plain key nonce type content sealed h
  refine ⟨by rw [generations_append, hgen, hgen'], ?_⟩
  rw [protectCalls_append, hgen, hcalls, if_pos (Nat.le_refl _), hcalls']

theorem Stamped.closed {w : World} (h : Stamped w.trace w.sess) (g : Nat) :
    Sound (protectCalls g (endState (wnClose p w)).trace) := by
  rcases wnClose_trace (p := p) w with htrace | ⟨-, sealed, sends, hsends, htrace⟩
  · rw [htrace]
    exact h.sound g
  · obtain ⟨hgen, hcalls⟩ := protect_plain w.sess.cKey (wnBuildNonce w.sess.cIv w.sess.cSeq) wnRecAlert [1, 0] sealed hsends
    rw [htrace]
    cases sealed with
    | true =>
      have hend : Stamped _ { w.sess with cSeq := w.sess.cSeq + 1 } := h.sealed hgen hcalls rfl rfl
      exact hend.sound g
    | false =>
      have hend : Stamped _ w.sess := h.unsealed hgen hcalls rfl rfl
      exact hend.sound g

/-! ## The handshake secret -/

theorem sound_one (iv : Block 12) (sealed : Bool) : Sound [(wnBuildNonce iv 0, sealed)] := by
  cases sealed with
  | true => exact ⟨iv, 1, Numbered.nil.used, .inl (by decide)⟩
  | false => exact ⟨iv, 0, Numbered.nil.left, .inl (by decide)⟩

/-- The alert takes the nonce after the Finished's, whether that sealed or not. -/
theorem sound_two (iv : Block 12) (sealed sealed' : Bool) :
    Sound [(wnBuildNonce iv 0, sealed), (wnBuildNonce iv 1, sealed')] := by
  have hfirst : Numbered (nonces iv) [(wnBuildNonce iv 0, sealed)] 1 := by
    cases sealed with
    | true => exact Numbered.nil.used
    | false => exact Numbered.nil.left.skipped
  cases sealed' with
  | true => exact ⟨iv, 2, hfirst.used, .inl (by decide)⟩
  | false => exact ⟨iv, 1, hfirst.left, .inl (by decide)⟩

/-- A trace without new write keys is sound when its calls are. -/
theorem sound_handshake {tr : List Event} {calls : List (Block 12 × Bool)} (hgen : generations tr = 0)
    (hcalls : protectCalls 0 tr = calls) (h : Sound calls) (g : Nat) : Sound (protectCalls g tr) := by
  cases g with
  | zero =>
    rw [hcalls]
    exact h
  | succ g =>
    rw [protectCalls, segment_beyond _ (show generations tr < g + 1 by omega)]
    exact .nil

/-- What a driver that ends so leaves. -/
def DriverEnd : EStateM.Result Err World Unit → Prop
  | .ok _ w => Stamped w.trace w.sess ∧ w.sess.digest = .sha256
  | .error _ w => w.sess.Shut ∧ ∀ g, Sound (protectCalls g w.trace)

theorem Session.zero_flags_shut {s : Session} (h : s.flags = 0) : s.Shut := by
  refine .inr ?_
  rw [Session.Established, h]
  decide

theorem wnSessionEstablish_end {junk : Junk} {hs emptyHash th : Block 32} {io : Transport} {w w' : World}
    (h : wnSessionEstablish p junk hs emptyHash th io w = .ok () w') :
    w'.trace = w.trace ++ [.writeKeys] ∧ w'.sess.cSeq = 0 ∧ w'.sess.digest = .sha256 := by
  unfold wnSessionEstablish at h
  rw [bind_of_ok (get_apply w)] at h
  obtain ⟨_, _, hset, h⟩ := bind_ok.1 h
  cases hset
  obtain ⟨_, _, hf, h⟩ := bind_ok.1 h
  obtain ⟨-, rfl⟩ := failIf_ok.1 hf
  obtain ⟨_, _, hset, h⟩ := bind_ok.1 h
  cases hset
  cases h
  exact ⟨rfl, rfl, rfl⟩

/-- A trace to which one handshake record has been added, at the first sequence number. -/
def FinishedTrace (keys : HsKeys) (w : World) (calls : List Event) : Prop :=
  ∃ content sealed sends, (∀ ev ∈ sends, Event.Plain ev) ∧
    calls = w.trace ++ .protect keys.cKey (wnBuildNonce keys.cIv 0) wnRecHandshake content sealed :: sends

theorem FinishedTrace.calls {keys : HsKeys} {w : World} {calls : List Event} (h : FinishedTrace keys w calls)
    (hgen : generations w.trace = 0) (hcalls : protectCalls 0 w.trace = []) :
    generations calls = 0 ∧ ∃ sealed, protectCalls 0 calls = [(wnBuildNonce keys.cIv 0, sealed)] := by
  obtain ⟨content, sealed, sends, hsends, rfl⟩ := h
  obtain ⟨hgen', hcalls'⟩ := protect_appended hgen hcalls keys.cKey (wnBuildNonce keys.cIv 0) wnRecHandshake content
    sealed hsends
  exact ⟨hgen', sealed, hcalls'⟩

/-- The Finished is one call; new write keys follow if the session is established. -/
theorem sendFinished_trace (keys : HsKeys) (mac th emptyHash : Block 32) (junk : Junk) (io : Transport) (w : World) :
    ∃ calls, FinishedTrace keys w calls ∧ match sendFinished p keys mac th emptyHash junk io w with
      | .ok _ w' => w'.trace = calls ++ [.writeKeys] ∧ w'.sess.cSeq = 0 ∧ w'.sess.digest = .sha256
      | .error _ w' => w'.trace = calls ∧ w'.sess.flags = w.sess.flags := by
  unfold sendFinished
  cases hrec : protectRecord p keys.cKey keys.cIv 0 wnRecHandshake (finishedMsg mac) with
  | error e =>
    have hrun : wnRecordProtect p keys.cKey keys.cIv 0 wnRecHandshake (finishedMsg mac) w = .error e { w with
        trace := w.trace ++ [.protect keys.cKey (wnBuildNonce keys.cIv 0) wnRecHandshake (finishedMsg mac) false] } := by
      rw [wnRecordProtect, hrec]
      rfl
    rw [bind_of_error hrun]
    exact ⟨_, ⟨_, false, [], by simp, rfl⟩, rfl, rfl⟩
  | ok record =>
    rw [bind_of_ok (wnRecordProtect_of hrec)]
    obtain ⟨calls, hcalls⟩ : ∃ calls, calls = w.trace ++ [Event.protect keys.cKey (wnBuildNonce keys.cIv 0)
        wnRecHandshake (finishedMsg mac) true, .send record (w.sendRes.headD true)] := ⟨_, rfl⟩
    refine ⟨calls, ⟨_, true, [.send record (w.sendRes.headD true)], by simp [Event.Plain], hcalls⟩, ?_⟩
    have hsend : ioSend record { w with trace := w.trace ++
          [.protect keys.cKey (wnBuildNonce keys.cIv 0) wnRecHandshake (finishedMsg mac) true] } =
        .ok (w.sendRes.headD true) { w with sendRes := w.sendRes.tail, trace := calls } := by
      rw [hcalls, ioSend, List.append_assoc]
      rfl
    rw [bind_of_ok hsend]
    cases hc : w.sendRes.headD true with
    | false =>
      rw [failIf_pos rfl]
      exact ⟨rfl, rfl⟩
    | true =>
      rw [failIf_neg (by simp), pure_bind]
      cases hest : wnSessionEstablish p junk keys.hs emptyHash th io { w with
          sendRes := w.sendRes.tail, trace := calls } with
      | ok u w' => exact wnSessionEstablish_end hest
      | error e w' =>
        obtain ⟨-, s, rfl, hflags⟩ := wnSessionEstablish_error hest
        exact ⟨rfl, hflags⟩

/-- After the Finished the session is established, in a new generation. -/
theorem FinishedTrace.stamped {keys : HsKeys} {w : World} {calls : List Event} (h : FinishedTrace keys w calls)
    (hgen : generations w.trace = 0) (hcalls : protectCalls 0 w.trace = []) {s : Session} (hseq : s.cSeq = 0) :
    Stamped (calls ++ [.writeKeys]) s := by
  obtain ⟨hgen', sealed, hone⟩ := h.calls hgen hcalls
  exact Stamped.rekeyed (fun g _ => sound_handshake hgen' hone (sound_one _ _) g) hseq

/-! ## The drivers -/

/-- What a driver has done to the session before its Finished: zeroed it, or
left it shut as it was. -/
def SessCleared {α : Type} : EStateM.Result Err World α → Prop
  | .ok _ w => w.sess = .zero
  | .error _ w => w.sess.Shut

theorem SessCleared.of {α : Type} {rejected : Prop} {x : Io α} {w : World}
    (hrej : rejected → x w = .error .invalidArg w) (hsess : rejected → w.sess.Shut)
    (hz : ¬ rejected → (endState (x w)).sess = .zero) : SessCleared (x w) := by
  by_cases hargs : rejected
  · rw [hrej hargs]
    exact hsess hargs
  · have hzero := hz hargs
    cases hx : x w with
    | ok r w' =>
      rw [hx] at hzero
      exact hzero
    | error e w' =>
      rw [hx, endState_error] at hzero
      show w'.sess.Shut
      rw [hzero]
      exact Session.zero_shut

theorem pskHandshake_cleared (a : PskArgs p) {w : World} (hsess : a.Rejected p → w.sess.Shut) :
    SessCleared (pskHandshake p a w) :=
  .of (fun hargs => by rw [pskHandshake, failIf_pos hargs]; rfl) hsess fun hargs => pskHandshake_sess hargs w

theorem certHandshake_cleared (a : CertArgs p c) {w : World} (hsess : a.Rejected p c → w.sess.Shut) :
    SessCleared (certHandshake p c a w) :=
  .of (fun hargs => by rw [certHandshake, failIf_pos hargs]; rfl) hsess fun hargs => certHandshake_sess hargs w

theorem wnConnectPskEx_end (a : PskArgs p) (inbox : List Bytes) (sendRes : List Bool) {sess : Session}
    (hsess : a.Rejected p → sess.Shut) : DriverEnd (wnConnectPskEx p a (.fresh inbox sendRes sess)) := by
  rw [wnConnectPskEx_eq]
  have hemits := pskHandshake_emits a (.fresh inbox sendRes sess)
  obtain ⟨evs, htrace, hplain⟩ := hemits
  obtain ⟨hgen, hcalls⟩ := plain_quiet hplain
  have hcleared := pskHandshake_cleared a (w := .fresh inbox sendRes sess) hsess
  cases hhs : pskHandshake p a (.fresh inbox sendRes sess) with
  | error e w =>
    rw [hhs] at htrace hcleared
    rw [bind_of_error hhs]
    refine ⟨hcleared, ?_⟩
    rw [show w.trace = evs from htrace]
    exact sound_handshake hgen (hcalls 0) .nil
  | ok x w =>
    obtain ⟨hello, keys, flight, th, mac⟩ := x
    rw [hhs] at htrace hcleared
    have htrace : w.trace = evs := htrace
    have hz : w.sess = .zero := hcleared
    rw [bind_of_ok hhs]
    obtain ⟨calls, hfin, hend⟩ := sendFinished_trace (p := p) keys mac th hello.emptyHash a.junk a.io w
    rw [← htrace] at hgen hcalls
    dsimp only
    cases hsend : sendFinished p keys mac th hello.emptyHash a.junk a.io w with
    | error e w' =>
      rw [hsend] at hend
      rw [bind_of_error hsend]
      refine ⟨Session.zero_flags_shut (by rw [hend.2, hz]; rfl), ?_⟩
      obtain ⟨hgen', sealed, hone⟩ := hfin.calls hgen (hcalls 0)
      rw [hend.1]
      exact sound_handshake hgen' hone (sound_one _ _)
    | ok u w' =>
      rw [hsend] at hend
      rw [bind_of_ok hsend]
      have hstamped := hfin.stamped hgen (hcalls 0) hend.2.1
      rw [← hend.1] at hstamped
      exact ⟨hstamped.quiet rfl rfl rfl rfl, hend.2.2⟩

/-- An alert is one call under the handshake secret. -/
theorem wnSendAlert_trace (keys : HsKeys) (seq : UInt64) (e : Err) (w : World) :
    ∃ w' sealed sends, wnSendAlert p keys seq e w = .ok () w' ∧ (∀ ev ∈ sends, Event.Plain ev) ∧
      w'.trace = w.trace ++ .protect keys.cKey (wnBuildNonce keys.cIv seq) wnRecAlert [2, wnErrToAlert e] sealed ::
        sends := by
  unfold wnSendAlert
  cases hrec : protectRecord p keys.cKey keys.cIv seq wnRecAlert [2, wnErrToAlert e] with
  | error e' =>
    have hrun : wnRecordProtect p keys.cKey keys.cIv seq wnRecAlert [2, wnErrToAlert e] w = .error e' { w with
        trace := w.trace ++ [.protect keys.cKey (wnBuildNonce keys.cIv seq) wnRecAlert [2, wnErrToAlert e] false] } := by
      rw [wnRecordProtect, hrec]
      rfl
    rw [tryCatch_of_error (bind_of_error hrun)]
    exact ⟨_, false, [], rfl, by simp, rfl⟩
  | ok record =>
    have hrun := wnRecordProtect_of (w := w) hrec
    refine ⟨_, true, [.send record (w.sendRes.headD true)], tryCatch_of_ok (bind_of_ok hrun), by simp [Event.Plain], ?_⟩
    show (w.trace ++ [_]) ++ [_] = _
    rw [List.append_assoc]
    rfl

/-- A failure passed on, with or without an alert. -/
theorem alerting_trace {α : Type} {keys : HsKeys} {seq : UInt64} {x : Io α} {e : Err} {w w' : World}
    (h : alerting p keys seq x w = .error e w') : ∃ w₁, x w = .error e w₁ ∧ (w'.trace = w₁.trace ∨
      ∃ sealed sends, (∀ ev ∈ sends, Event.Plain ev) ∧ w'.trace = w₁.trace ++
        .protect keys.cKey (wnBuildNonce keys.cIv seq) wnRecAlert [2, wnErrToAlert e] sealed :: sends) := by
  unfold alerting at h
  split at h
  · cases hx : x w with
    | ok r w₁ =>
      rw [tryCatch_of_ok hx] at h
      cases h
    | error e₁ w₁ =>
      obtain ⟨w₂, sealed, sends, hrun, hsends, htrace⟩ := wnSendAlert_trace (p := p) keys seq e₁ w₁
      rw [tryCatch_of_error hx, bind_of_ok hrun] at h
      cases h
      exact ⟨w₁, rfl, .inr ⟨sealed, sends, hsends, htrace⟩⟩
  · exact ⟨w', h, .inl rfl⟩

variable (p c) in
/-- The certificate driver up to its handshake keys. -/
def certKeys (a : CertArgs p c) : Io (CertHello p × HsKeys × Transcript) := do
  failIf (a.Rejected p c) .invalidArg
  setSess .zero
  let hello ← certClientHello p c a
  let (tc, ecdhe) ← recvServerHello p (certIoCap cfg a.io) hello.priv hello.sid (-1) hello.tc
  let th ← ofExcept (wnTranscriptGetHash p tc)
  let early ← ofExcept (wnTls13Extract p [] (Block.zero 32).val)
  let keys ← ofExcept (wnDeriveHsKeys p early ecdhe.val hello.emptyHash th)
  pure (hello, keys, tc)

theorem certHandshake_eq (a : CertArgs p c) : certHandshake p c a = (certKeys p c a >>= fun (hello, keys, tc) => do
    let (flight, th, mac) ← alerting p keys 0 (certFlightMac p c a (certIoCap cfg a.io) keys tc)
    pure (hello, keys, flight, th, mac)) := by
  simp only [certHandshake, certKeys, certIoCap, bind_assoc, pure_bind]

theorem certKeys_emits (a : CertArgs p c) : Steps (Emits Event.Plain) (certKeys p c a) := by
  refine .bind (.failIf _ _) fun _ => .bind (setSess_emits _) fun _ => .bind (certClientHello_emits a) fun hello => ?_
  refine .bind ((recvServerHello_onlyRead _ _ _ _ _).mono fun h => h.emits) fun x => .bind (.ofExcept _) fun th => ?_
  exact .bind (.ofExcept _) fun early => .bind (.ofExcept _) fun keys => .pure _

/-- Before its Finished the certificate driver makes no call but an alert's. -/
theorem certHandshake_trace (a : CertArgs p c) (inbox : List Bytes) (sendRes : List Bool) (sess : Session) :
    match certHandshake p c a (.fresh inbox sendRes sess) with
    | .ok _ w => generations w.trace = 0 ∧ protectCalls 0 w.trace = []
    | .error _ w => ∀ g, Sound (protectCalls g w.trace) := by
  rw [certHandshake_eq]
  obtain ⟨evs, htrace, hplain⟩ := certKeys_emits a (.fresh inbox sendRes sess)
  obtain ⟨hgen, hcalls⟩ := plain_quiet hplain
  cases hk : certKeys p c a (.fresh inbox sendRes sess) with
  | error e w =>
    rw [hk] at htrace
    rw [bind_of_error hk]
    show ∀ g, Sound (protectCalls g w.trace)
    rw [show w.trace = evs from htrace]
    exact sound_handshake hgen (hcalls 0) .nil
  | ok x w =>
    obtain ⟨hello, keys, tc⟩ := x
    rw [hk] at htrace
    have htrace : w.trace = evs := htrace
    rw [bind_of_ok hk]
    rw [← htrace] at hgen hcalls
    have hread := certFlightMac_onlyRead (p := p) a (certIoCap cfg a.io) keys tc w
    dsimp only
    cases hfl : alerting p keys 0 (certFlightMac p c a (certIoCap cfg a.io) keys tc) w with
    | ok x w' =>
      rw [alerting_ok hfl] at hread
      rw [bind_of_ok hfl]
      show generations w'.trace = 0 ∧ protectCalls 0 w'.trace = []
      rw [show w'.trace = w.trace from hread.trace]
      exact ⟨hgen, hcalls 0⟩
    | error e w' =>
      obtain ⟨w₁, hx, hw'⟩ := alerting_trace hfl
      rw [hx] at hread
      have hw₁ : w₁.trace = w.trace := hread.trace
      rw [bind_of_error hfl]
      show ∀ g, Sound (protectCalls g w'.trace)
      rcases hw' with hsame | ⟨sealed, sends, hsends, hone⟩
      · rw [hsame, hw₁]
        exact sound_handshake hgen (hcalls 0) .nil
      · obtain ⟨hgen', hcalls'⟩ := protect_appended hgen (hcalls 0) keys.cKey (wnBuildNonce keys.cIv 0) wnRecAlert
          [2, wnErrToAlert e] sealed hsends
        rw [hone, hw₁]
        exact sound_handshake hgen' hcalls' (sound_one keys.cIv sealed)

theorem wnConnectCertImpl_end (a : CertArgs p c) (inbox : List Bytes) (sendRes : List Bool) {sess : Session}
    (hsess : a.Rejected p c → sess.Shut) : DriverEnd (wnConnectCertImpl p c a (.fresh inbox sendRes sess)) := by
  rw [wnConnectCertImpl_eq]
  have htrace := certHandshake_trace a inbox sendRes sess
  have hcleared := certHandshake_cleared a (w := .fresh inbox sendRes sess) hsess
  cases hhs : certHandshake p c a (.fresh inbox sendRes sess) with
  | error e w =>
    rw [hhs] at htrace hcleared
    rw [bind_of_error hhs]
    exact ⟨hcleared, htrace⟩
  | ok x w =>
    obtain ⟨hello, keys, flight, th, mac⟩ := x
    rw [hhs] at htrace hcleared
    obtain ⟨hgen, hcalls⟩ := htrace
    have hz : w.sess = .zero := hcleared
    rw [bind_of_ok hhs]
    obtain ⟨calls, hfin, hend⟩ := sendFinished_trace (p := p) keys mac th hello.emptyHash a.junk a.io w
    dsimp only
    cases halert : alerting p keys 1 (sendFinished p keys mac th hello.emptyHash a.junk a.io) w with
    | error e w' =>
      rw [bind_of_error halert]
      obtain ⟨w₁, hsend, hsame⟩ := alerting_error halert
      rw [hsend] at hend
      refine ⟨Session.zero_flags_shut (by rw [hsame, hend.2, hz]; rfl), ?_⟩
      obtain ⟨hgen', sealed, hone⟩ := hfin.calls hgen hcalls
      obtain ⟨w₂, hsend', hw'⟩ := alerting_trace halert
      rw [hsend] at hsend'
      cases hsend'
      rcases hw' with hsame | ⟨sealed', sends, hsends, htwo⟩
      · rw [hsame, hend.1]
        exact sound_handshake hgen' hone (sound_one _ _)
      · obtain ⟨hgen₂, hcalls₂⟩ := protect_appended hgen' hone keys.cKey (wnBuildNonce keys.cIv 1) wnRecAlert
          [2, wnErrToAlert e] sealed' hsends
        rw [htwo, hend.1]
        exact sound_handshake hgen₂ hcalls₂ (sound_two keys.cIv sealed sealed')
    | ok u w' =>
      have hsend := alerting_ok halert
      rw [hsend] at hend
      rw [bind_of_ok halert]
      have hstamped := hfin.stamped hgen hcalls hend.2.1
      rw [← hend.1] at hstamped
      exact ⟨hstamped.quiet rfl rfl rfl rfl, hend.2.2⟩

/-! ## Whole runs -/

/-- A driver, and then calls on the session it leaves. -/
def afterConnect (p : Provider cfg) (connect : Io Unit) (w : World) (calls : List Call) : World :=
  callsAfter p (endState (connect w)) calls

theorem afterConnect_sound (hx : p.Expands) {connect : Io Unit} {w : World} (h : DriverEnd (connect w))
    (calls : List Call) (g : Nat) : Sound (protectCalls g (afterConnect p connect w calls).trace) := by
  unfold afterConnect
  cases hc : connect w with
  | error e w' =>
    rw [hc] at h
    rw [endState_error, Session.Shut.calls_trace calls h.1]
    exact h.2 g
  | ok u w' =>
    rw [hc] at h
    obtain ⟨acts, w₁, q', hrun, htrace⟩ := calls_run_close hx calls w' [] fun _ => h.2
    have hstamped : Stamped w₁.trace w₁.sess := hrun.stamped h.1
    rw [endState_ok]
    rcases htrace with htrace | htrace
    · rw [htrace]
      exact hstamped.sound g
    · rw [htrace]
      exact hstamped.closed g

end WolfNano

/-
Key changes and record boundaries (RFC 8446 5.1).

The trace has what was unread of its record whenever the read keys changed.
The drivers stop at the Finished and `wn_session_posths` reads on after a
KeyUpdate; none of them looks at what is left. So the keys change at a record
boundary exactly where the server put one.
-/
import WolfNano.Calls
import WolfNano.Authentication
import WolfNano.Connected

namespace WolfNano

open Prog Wire

variable {cfg : Config} {p : Provider cfg} {c : CertProvider}

/-! ## What was unread -/

def Event.unread : Event → Option Bytes
  | .readKeys unread => some unread
  | _ => none

/-- What was unread of its record at each change of the read keys. -/
def World.unread (w : World) : List Bytes := w.trace.filterMap Event.unread

/-- The read keys changed at record boundaries only. -/
def World.Aligned (w : World) : Prop := ∀ unread ∈ w.unread, unread = []

instance (w : World) : Decidable w.Aligned := inferInstanceAs (Decidable (∀ _ ∈ _, _))

theorem World.fresh_aligned (inbox : List Bytes) (sendRes : List Bool) (sess : Session) :
    (World.fresh inbox sendRes sess).Aligned := by
  intro unread h
  cases h

theorem Event.NotRead.unread {ev : Event} (h : ev.NotRead) : ev.unread = none := by
  cases ev <;> first | rfl | exact h.elim

theorem Emits.unread {w w' : World} (h : Emits Event.NotRead w w') : w'.unread = w.unread := by
  obtain ⟨evs, htrace, hevs⟩ := h
  have hnone : evs.filterMap Event.unread = [] := List.filterMap_eq_nil_iff.2 fun ev hev => (hevs ev hev).unread
  rw [World.unread, htrace, List.filterMap_append, hnone, List.append_nil]
  rfl

theorem Emits.aligned {w w' : World} (h : Emits Event.NotRead w w') : w'.Aligned ↔ w.Aligned := by
  rw [World.Aligned, h.unread]
  rfl

/-- The read keys change. -/
theorem aligned_readKeys {w w' : World} {unread : Bytes} (h : w'.trace = w.trace ++ [.readKeys unread]) :
    w'.Aligned ↔ w.Aligned ∧ unread = [] := by
  have hunread : w'.unread = w.unread ++ [unread] := by
    rw [World.unread, h, List.filterMap_append]
    rfl
  rw [World.Aligned, hunread]
  simp only [List.mem_append, List.mem_singleton]
  constructor
  · exact fun h => ⟨fun u hu => h u (.inl hu), h unread (.inr rfl)⟩
  · rintro ⟨h, hnil⟩ u (hu | hu)
    · exact h u hu
    · exact hu.trans hnil

/-! ## The drivers -/

theorem Emits.notRead {w w' : World} (h : Emits Event.Plain w w') : Emits Event.NotRead w w' :=
  h.mono fun _ hev => hev.notRead

theorem wnConnectPskEx_error_aligned {a : PskArgs p} {w w' : World} {e : Err}
    (h : wnConnectPskEx p a w = .error e w') : w'.Aligned ↔ w.Aligned := by
  rw [wnConnectPskEx_eq] at h
  rcases bind_error.1 h with hhs | ⟨⟨hello, keys, flight, th, mac⟩, w₁, hhs, h⟩
  · exact ((pskHandshake_emits a).error hhs).notRead.aligned
  · rcases bind_error.1 h with hfin | ⟨_, _, -, hemit⟩
    · have hfinished := (sendFinished_emits (fun _ hev => hev) _ _ _ _ _ _).error hfin
      exact hfinished.aligned.trans ((pskHandshake_emits a).ok hhs).notRead.aligned
    · cases hemit

theorem wnConnectCertImpl_error_aligned {a : CertArgs p c} {w w' : World} {e : Err}
    (h : wnConnectCertImpl p c a w = .error e w') : w'.Aligned ↔ w.Aligned := by
  have hnotRead : Steps (Emits Event.NotRead) (certHandshake p c a) := certHandshake_emits (fun _ _ h => h) a
  rw [wnConnectCertImpl_eq] at h
  rcases bind_error.1 h with hhs | ⟨⟨hello, keys, flight, th, mac⟩, w₁, hhs, h⟩
  · exact (hnotRead.error hhs).aligned
  · rcases bind_error.1 h with hfin | ⟨_, _, -, hemit⟩
    · have hfinished := (alerting_emits (fun _ _ hev => hev) _ _
        (sendFinished_emits (fun _ hev => hev) _ _ _ _ _ _)).error hfin
      exact hfinished.aligned.trans (hnotRead.ok hhs).aligned
    · cases hemit

/-- Where the PSK driver changes the keys, the server ended the record. -/
theorem wnConnectPskEx_aligned {a : PskArgs p} {w w' : World} (h : wnConnectPskEx p a w = .ok () w') :
    ∃ x : PskParts p, x.Authentic a ∧ (∃ rest, w.inbox.flatten = x.stream ++ rest) ∧
      (w'.Aligned ↔ w.Aligned ∧ x.extra = []) := by
  rw [wnConnectPskEx_eq] at h
  obtain ⟨⟨hello, keys, flight, th, mac⟩, w₁, hhs, h⟩ := bind_ok.1 h
  obtain ⟨_, w₂, hfin, hemit⟩ := bind_ok.1 h
  cases hemit
  have hsent : w₂.Aligned ↔ w.Aligned :=
    ((sendFinished_emits (fun _ hev => hev) _ _ _ _ _ _).ok hfin).aligned.trans
      ((pskHandshake_emits a).ok hhs).notRead.aligned
  obtain ⟨x, hx, -, -, -, -, -, -, hextra, hread, -⟩ := pskHandshake_ok hhs
  refine ⟨x, hx, ⟨_, hread⟩, ?_⟩
  rw [aligned_readKeys (w := w₂) rfl, hextra, hsent]

/-- The same of the certificate driver. -/
theorem wnConnectCertImpl_aligned {a : CertArgs p c} {w w' : World} (h : wnConnectCertImpl p c a w = .ok () w') :
    ∃ x : CertParts p, x.Authentic a ∧ (∃ rest, w.inbox.flatten = x.stream ++ rest) ∧
      (w'.Aligned ↔ w.Aligned ∧ x.extra = []) := by
  rw [wnConnectCertImpl_eq] at h
  obtain ⟨⟨hello, keys, flight, th, mac⟩, w₁, hhs, h⟩ := bind_ok.1 h
  obtain ⟨_, w₂, hfin, hemit⟩ := bind_ok.1 h
  cases hemit
  have hhandshake := (certHandshake_emits (P := Event.NotRead) (fun _ _ h => h) a).ok hhs
  have hsent : w₂.Aligned ↔ w.Aligned := by
    refine Iff.trans (Emits.aligned ?_) hhandshake.aligned
    exact (alerting_emits (fun _ _ hev => hev) _ _ (sendFinished_emits (fun _ hev => hev) _ _ _ _ _ _)).ok hfin
  obtain ⟨x, hx, -, -, -, -, -, -, hextra, hread, -⟩ := certHandshake_ok hhs
  refine ⟨x, hx, ⟨_, hread⟩, ?_⟩
  rw [aligned_readKeys (w := w₂) rfl, hextra, hsent]

/-! ## Post-handshake content -/

/-- No KeyUpdate that `wn_session_posths` gets to in this content has anything
after it. -/
def KeyUpdateLast (content : Bytes) : Prop :=
  ∀ (tickets : List Bytes) (req : UInt8) (rest : Bytes), (∀ body ∈ tickets, body.length < 2 ^ 24) → req ≤ 1 →
    content = (tickets.map (Rfc.hsMsg wnHsNewSessionTicket)).flatten ++ (keyUpdateMsg req ++ rest) → rest = []

theorem KeyUpdateLast.of_error {q : Bytes} {e : Err} (h : takePost q = .error e) : KeyUpdateLast q := by
  intro tickets req rest htickets hreq heq
  cases tickets with
  | nil =>
    rw [heq, List.map_nil, List.flatten_nil, List.nil_append, takePost_keyUpdateMsg hreq] at h
    cases h
  | cons body tickets =>
    rw [heq, List.map_cons, List.flatten_cons, List.append_assoc,
      takePost_hsMsg (htickets body List.mem_cons_self)] at h
    cases h

theorem KeyUpdateLast.nil : KeyUpdateLast [] := .of_error rfl

theorem keyUpdateLast_ticket {body : Bytes} (hbody : body.length < 2 ^ 24) (q : Bytes) :
    KeyUpdateLast (Rfc.hsMsg wnHsNewSessionTicket body ++ q) ↔ KeyUpdateLast q := by
  constructor
  · intro h tickets req rest htickets hreq heq
    refine h (body :: tickets) req rest (List.forall_mem_cons.2 ⟨hbody, htickets⟩) hreq ?_
    rw [heq, List.map_cons, List.flatten_cons, List.append_assoc]
  · intro h tickets req rest htickets hreq heq
    have htake := takePost_hsMsg hbody q
    cases tickets with
    | nil =>
      rw [heq, List.map_nil, List.flatten_nil, List.nil_append, takePost_keyUpdateMsg hreq] at htake
      cases htake
    | cons body' tickets =>
      rw [heq, List.map_cons, List.flatten_cons, List.append_assoc,
        takePost_hsMsg (htickets body' List.mem_cons_self)] at htake
      cases htake
      exact h tickets req rest (fun b hb => htickets b (List.mem_cons_of_mem _ hb)) hreq rfl

theorem keyUpdateLast_keyUpdate {req : UInt8} (hreq : req ≤ 1) (q : Bytes) :
    KeyUpdateLast (keyUpdateMsg req ++ q) ↔ q = [] := by
  constructor
  · intro h
    exact h [] req q (by simp) hreq rfl
  · intro hq tickets req' rest htickets hreq' heq
    have htake := takePost_keyUpdateMsg hreq q
    cases tickets with
    | nil =>
      rw [heq, List.map_nil, List.flatten_nil, List.nil_append, takePost_keyUpdateMsg hreq'] at htake
      cases htake
      exact hq
    | cons body tickets =>
      rw [heq, List.map_cons, List.flatten_cons, List.append_assoc,
        takePost_hsMsg (htickets body List.mem_cons_self)] at htake
      cases htake

theorem wnSessionSendKeyUpdate_notRead : Steps (Emits Event.NotRead) (wnSessionSendKeyUpdate p) := by
  refine .bind .get fun w => .bind (wnRecordProtect_emits p fun _ => trivial) fun record => ?_
  refine .bind (setSess_emits _) fun _ => .bind (ioSend_emits fun _ => trivial) fun sent => .bind (.failIf _ _) fun _ => ?_
  exact .bind (setSess_emits _) fun _ => .bind (.ofExcept _) fun _ => .bind (setSess_emits _) fun _ => emit_emits trivial

theorem posthsKeyUpdate_aligned (hx : p.Expands) {w : World} (hd : w.sess.digest = .sha256) (req : UInt8) (r : Bytes) :
    (endState (posthsKeyUpdate p req r w)).Aligned ↔ w.Aligned ∧ r = [] := by
  obtain ⟨t, -, hrun⟩ := posthsKeyUpdate_eq hx hd req r
  have hreply : Steps (Emits Event.NotRead) (if req = 1 then wnSessionSendKeyUpdate p else pure ()) := by
    split
    · exact wnSessionSendKeyUpdate_notRead
    · exact .pure ()
  rw [hrun, (hreply _).aligned]
  exact aligned_readKeys rfl

/-- **`wn_session_posths` changes the keys at record boundaries** exactly where
no KeyUpdate has anything after it. -/
theorem posths_aligned (hx : p.Expands) {msg : Bytes} (hs : msg.length < 2 ^ 31) : ∀ (n : Nat) (q : Bytes) (w : World),
    q <:+ msg → q.length < n → w.sess.digest = .sha256 →
    ((endState (repeatM .decode (posthsStep p msg) n (readerAt msg q) w)).Aligned ↔ w.Aligned ∧ KeyUpdateLast q)
  | n + 1, q, w, hq, hn, hd => by
    by_cases hne : q = []
    · subst hne
      rw [posths_nil, endState_ok]
      exact (and_iff_left KeyUpdateLast.nil).symm
    cases ht : takePost q with
    | error e =>
      rw [posths_refused hq hs hne ht, endState_error]
      exact (and_iff_left (.of_error ht)).symm
    | ok x =>
      obtain ⟨req, r⟩ := x
      cases req with
      | none =>
        obtain ⟨body, hbody, rfl⟩ := takePost_ticket ht
        rw [List.length_append, hsMsg_length] at hn
        rw [posths_ticket hq hs rfl hbody, keyUpdateLast_ticket hbody]
        exact posths_aligned hx hs n r w ((List.suffix_append _ _).trans hq) (by omega) hd
      | some req =>
        obtain ⟨hreq, rfl⟩ := takePost_keyUpdate ht
        have hkey := posthsKeyUpdate_aligned hx hd req r
        rw [posths_keyUpdate hq hs rfl hreq, keyUpdateLast_keyUpdate hreq]
        cases hku : posthsKeyUpdate p req r w with
        | error e w₁ =>
          rw [hku] at hkey
          rw [bind_of_error hku]
          exact hkey
        | ok _ w₁ =>
          have hd₁ : w₁.sess.digest = .sha256 := by
            obtain ⟨acts, hrun, -⟩ := posthsKeyUpdate_run hx hd hreq r
            rw [hku] at hrun
            exact hrun.same.digest.trans hd
          have hlen : r.length < n := by
            simp only [keyUpdateMsg, List.length_append, List.length_cons] at hn
            omega
          have hrest := posths_aligned hx hs n r w₁ ((List.suffix_append _ _).trans hq) hlen hd₁
          rw [hku, endState_ok] at hkey
          rw [bind_of_ok hku, hrest, hkey]
          refine and_iff_left_of_imp fun hand => ?_
          rw [hand.2]
          exact .nil

theorem wnSessionPosths_aligned (hx : p.Expands) {content : Bytes} (hs : content.length < 2 ^ 31) {w : World}
    (hd : w.sess.digest = .sha256) :
    (endState (wnSessionPosths p content w)).Aligned ↔ w.Aligned ∧ KeyUpdateLast content := by
  have hrun := posths_aligned hx hs (content.length + 1) content w (List.suffix_refl _) (Nat.lt_succ_self _) hd
  rwa [← wnReaderInit_eq] at hrun

/-! ## Runs -/

/-- No KeyUpdate of a record that was opened has anything after it. -/
def Act.KeyUpdateLast : Act → Prop
  | .opened _ type content => type = wnRecHandshake → WolfNano.KeyUpdateLast content
  | _ => True

/-- What every act keeps when the records end so. -/
theorem SessStep.aligned {x y : World × Bytes} {a : Act} (h : SessStep p x a y) (ha : a.KeyUpdateLast)
    (hx : x.1.Aligned ∧ KeyUpdateLast x.2) : y.1.Aligned ∧ KeyUpdateLast y.2 := by
  obtain ⟨haligned, hlast⟩ := hx
  have hkept : Emits Event.NotRead x.1 y.1 → y.1.Aligned := fun hemits => hemits.aligned.2 haligned
  cases h with
  | sent h => exact ⟨hkept ⟨_, rfl, by simp [Event.NotRead]⟩, hlast⟩
  | replied h hsent ht =>
    refine ⟨hkept ⟨_, List.append_assoc _ _ _, by simp [Event.NotRead]⟩, hlast⟩
  | replyCut h hcut => exact ⟨hkept ⟨_, rfl, by simp [Event.NotRead]⟩, hlast⟩
  | unsealed h => exact ⟨hkept ⟨_, rfl, by simp [Event.NotRead]⟩, hlast⟩
  | skipped h => exact ⟨hkept h.emits, hlast⟩
  | @opened w w' q record content rtype type hread hopen =>
    have hemits : Emits Event.NotRead w w' := (wnRecvRecord_emits _).ok hread
    refine ⟨hkept hemits, ?_⟩
    show KeyUpdateLast (if type = wnRecHandshake then content else [])
    split
    · next htype => exact ha htype
    · exact .nil
  | ticket hbody => exact ⟨haligned, (keyUpdateLast_ticket hbody _).1 hlast⟩
  | keyUpdate hreq ht =>
    have hnil := (keyUpdateLast_keyUpdate hreq _).1 hlast
    exact ⟨(aligned_readKeys rfl).2 ⟨haligned, hnil⟩, by rw [hnil]; exact .nil⟩
  | shut => exact ⟨hkept ⟨[], by simp, by simp⟩, hlast⟩

theorem SessRun.aligned {x y : World × Bytes} {acts : List Act} (h : SessRun p x acts y)
    (hacts : ∀ a ∈ acts, a.KeyUpdateLast) (hx : x.1.Aligned ∧ KeyUpdateLast x.2) : y.1.Aligned ∧ KeyUpdateLast y.2 := by
  induction h with
  | nil => exact hx
  | cons hstep _ ih =>
    obtain ⟨ha, hacts⟩ := List.forall_mem_cons.1 hacts
    exact ih hacts (hstep.aligned ha hx)

theorem wnClose_aligned {w : World} (h : w.Aligned) : (endState (wnClose p w)).Aligned := by
  rcases wnClose_trace (p := p) w with htrace | ⟨-, sealed, sends, hsends, htrace⟩
  · exact (Emits.aligned ⟨[], by simpa using htrace, by simp⟩).2 h
  · refine (Emits.aligned ⟨_, htrace, ?_⟩).2 h
    exact List.forall_mem_cons.2 ⟨trivial, fun ev hev => (hsends ev hev).notRead⟩

/-- The trace is that of `w`, or of closing it. -/
def World.ClosedFrom (p : Provider cfg) (w w' : World) : Prop :=
  w'.trace = w.trace ∨ w'.trace = (endState (wnClose p w)).trace

theorem World.ClosedFrom.aligned {w w' : World} (h : w.ClosedFrom p w') (hw : w.Aligned) : w'.Aligned := by
  rcases h with htrace | htrace
  · exact (Emits.aligned ⟨[], by simpa using htrace, by simp⟩).2 hw
  · exact (Emits.aligned ⟨[], by simpa using htrace, by simp⟩).2 (wnClose_aligned (p := p) hw)

variable (p c) in
/-- `connect` is one of the drivers, and over this transport it accepts a
handshake with `extra` after the Finished, in the records of the flight. -/
def FlightExtra (connect : Io Unit) (inbox : List Bytes) (extra : Bytes) : Prop :=
  (∃ (a : PskArgs p) (x : PskParts p), connect = wnConnectPskEx p a ∧ x.Authentic a ∧
      (∃ rest, inbox.flatten = x.stream ++ rest) ∧ x.extra = extra) ∨
    ∃ (a : CertArgs p c) (x : CertParts p), connect = wnConnectCertImpl p c a ∧ x.Authentic a ∧
      (∃ rest, inbox.flatten = x.stream ++ rest) ∧ x.extra = extra

/-- **When the read keys change at record boundaries.** A driver that fails
changes none. One that succeeds does so at a record boundary if and only if the
server ended the record with its Finished, and `wn_session_posths` if and only
if no KeyUpdate has anything after it; and where all records of a run end so,
the keys have changed at record boundaries only, whatever calls are made. -/
theorem read_keys_aligned (hx : p.Expands) (connect : Io Unit)
    (hconnect : (∃ a : PskArgs p, connect = wnConnectPskEx p a) ∨ ∃ a : CertArgs p c, connect = wnConnectCertImpl p c a)
    (inbox : List Bytes) (sendRes : List Bool) (sess : Session) :
    (∀ e w, connect (.fresh inbox sendRes sess) = .error e w → w.Aligned) ∧
    (∀ w, connect (.fresh inbox sendRes sess) = .ok () w →
      ∃ extra, FlightExtra p c connect inbox extra ∧ (w.Aligned ↔ extra = []) ∧
        ∀ calls, ∃ acts w₁ q, SessRun p (w, []) acts (w₁, q) ∧ w₁.ClosedFrom p (callsAfter p w calls) ∧
          (extra = [] → (∀ a ∈ acts, a.KeyUpdateLast) → (callsAfter p w calls).Aligned)) ∧
    ∀ w content, w.Aligned → w.sess.digest = .sha256 → content.length < 2 ^ 31 →
      ((endState (wnSessionPosths p content w)).Aligned ↔ KeyUpdateLast content) := by
  have hfresh := World.fresh_aligned inbox sendRes sess
  have hok : ∀ w, connect (.fresh inbox sendRes sess) = .ok () w →
      w.sess.digest = .sha256 ∧ ∃ extra, FlightExtra p c connect inbox extra ∧ (w.Aligned ↔ extra = []) := by
    intro w h
    rcases hconnect with ⟨a, rfl⟩ | ⟨a, rfl⟩
    · obtain ⟨io, client, server, hsess, -⟩ := Connected.established (c := c) (.inl ⟨a, _, h⟩)
      obtain ⟨x, hauth, hread, haligned⟩ := wnConnectPskEx_aligned h
      exact ⟨by rw [hsess]; rfl, x.extra, .inl ⟨a, x, rfl, hauth, hread, rfl⟩, haligned.trans (and_iff_right hfresh)⟩
    · obtain ⟨io, client, server, hsess, -⟩ := Connected.established (c := c) (.inr ⟨a, _, h⟩)
      obtain ⟨x, hauth, hread, haligned⟩ := wnConnectCertImpl_aligned h
      exact ⟨by rw [hsess]; rfl, x.extra, .inr ⟨a, x, rfl, hauth, hread, rfl⟩, haligned.trans (and_iff_right hfresh)⟩
  refine ⟨fun e w h => ?_, fun w h => ?_, fun w content hw hd hs => ?_⟩
  · rcases hconnect with ⟨a, rfl⟩ | ⟨a, rfl⟩
    · exact (wnConnectPskEx_error_aligned h).2 hfresh
    · exact (wnConnectCertImpl_error_aligned h).2 hfresh
  · obtain ⟨hd, extra, hflight, haligned⟩ := hok w h
    refine ⟨extra, hflight, haligned, fun calls => ?_⟩
    obtain ⟨acts, w₁, q, hrun, htrace⟩ := calls_run_close hx calls w [] fun _ => hd
    refine ⟨acts, w₁, q, hrun, htrace, fun hextra hacts => ?_⟩
    have hclosed : w₁.ClosedFrom p (callsAfter p w calls) := htrace
    exact hclosed.aligned (hrun.aligned hacts ⟨haligned.2 hextra, .nil⟩).1
  · exact (wnSessionPosths_aligned hx hs hd).trans (and_iff_right hw)

/-- A PSK handshake, a KeyUpdate in a record of its own, and data. -/
def alignedRun : EStateM.Result Err World Unit :=
  wnConnectPskEx (.clear .small) (.clear [105] 2048)
    (.fresh [clearPskStream ++ clearRecord 22 (keyUpdateMsg 0) ++ clearRecord 23 [7]] [] .zero)

theorem alignedRun_ok : alignedRun = .ok () (endState alignedRun) := errorOf_none (by decide +kernel)

theorem read_keys_aligned_clear : ∃ extra,
    FlightExtra (.clear .small) .trusting (wnConnectPskEx (.clear .small) (.clear [105] 2048))
      [clearPskStream ++ clearRecord 22 (keyUpdateMsg 0) ++ clearRecord 23 [7]] extra ∧
    ((endState alignedRun).Aligned ↔ extra = []) := by
  obtain ⟨extra, hflight, haligned, -⟩ := (read_keys_aligned (c := .trusting) (Provider.clear_total .small).expands _
    (.inl ⟨.clear [105] 2048, rfl⟩) [clearPskStream ++ clearRecord 22 (keyUpdateMsg 0) ++ clearRecord 23 [7]] []
    .zero).2.1 _ alignedRun_ok
  exact ⟨extra, hflight, haligned⟩

/-- A byte follows the Finished in its record: the driver succeeds and changes
the keys with that byte unread. After it, `wn_Recv` takes a record with a
NewSessionTicket behind the KeyUpdate. -/
def unalignedRun : EStateM.Result Err World Unit :=
  wnConnectPskEx (.clear .small) (.clear [105] 2048)
    (.fresh [[22, 3, 3] ++ vec 2 (clearServerHello [0, 41, 0, 2, 0, 0]) ++ clearRecord 22 (clearPskFlight ++ [0]) ++
      clearRecord 22 (keyUpdateMsg 0 ++ [4, 0, 0, 0]) ++ clearRecord 23 [7]] [] .zero)

theorem unalignedRun_accepted : code unalignedRun = .ok () ∧ (endState unalignedRun).unread = [[0]] ∧
    errorOf (wnRecv (.clear .small) 64 (endState unalignedRun)) = none ∧
    (endState (wnRecv (.clear .small) 64 (endState unalignedRun))).unread = [[0], [4, 0, 0, 0]] := by
  decide +kernel

end WolfNano

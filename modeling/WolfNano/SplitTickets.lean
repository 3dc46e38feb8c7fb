/-
NewSessionTickets cut over records (RFC 8446 4.6.1, 5.1).

A peer may cut a ticket's bytes over handshake records anywhere. The drivers
put such bytes together again; `wn_session_posths` reads each record on its
own, so a cut ticket fails the call that meets it, and whether the tickets are
skipped is whether each record holds whole ones (`wnRecv_tickets`).
-/
import WolfNano.RecvOutput

namespace WolfNano

open Prog Wire

variable {cfg : Config}

/-! ## What the peer sends -/

namespace Rfc

/-- Tickets on end. -/
def ticketBytes (bodies : List Bytes) : Bytes := (bodies.map (hsMsg 4)).flatten

@[simp] theorem ticketBytes_nil : ticketBytes [] = [] := rfl

@[simp] theorem ticketBytes_cons (body : Bytes) (bodies : List Bytes) :
    ticketBytes (body :: bodies) = hsMsg 4 body ++ ticketBytes bodies := rfl

/-- Every body's length fits its field. -/
def TicketsFit (bodies : List Bytes) : Prop := ∀ body ∈ bodies, body.length < 2 ^ 24

/-- Content that is whole tickets. -/
def WholeTickets (q : Bytes) : Prop := ∃ bodies, TicketsFit bodies ∧ q = ticketBytes bodies

/-- Application data in a record of its own, or tickets, their bytes cut over
records. -/
inductive Shipment where
  | data (m : Bytes)
  | tickets (bodies frags : List Bytes)

namespace Shipment

/-- The records hold just the tickets, and none is empty (5.1). -/
def Fits : Shipment → Prop
  | .data _ => True
  | .tickets bodies frags => TicketsFit bodies ∧ [] ∉ frags ∧ frags.flatten = ticketBytes bodies

/-- No ticket is cut. -/
def Whole : Shipment → Prop
  | .data _ => True
  | .tickets _ frags => ∀ q ∈ frags, WholeTickets q

/-- The same tickets, each in one record. -/
def whole : Shipment → Shipment
  | .data m => .data m
  | .tickets bodies _ => .tickets bodies (bodies.map (hsMsg 4))

/-- The types and contents of its records. -/
def contents : Shipment → List (UInt8 × Bytes)
  | .data m => [(23, m)]
  | .tickets _ frags => frags.map fun q => (22, q)

def data? : Shipment → Option Bytes
  | .data m => some m
  | .tickets .. => none

theorem whole_fits {i : Shipment} (h : i.Fits) : i.whole.Fits := by
  cases i with
  | data m => trivial
  | tickets bodies frags =>
    refine ⟨h.1, fun hmem => ?_, rfl⟩
    obtain ⟨body, -, hnil⟩ := List.mem_map.1 hmem
    exact List.cons_ne_nil _ _ hnil

theorem whole_whole {i : Shipment} (h : i.Fits) : i.whole.Whole := by
  cases i with
  | data m => trivial
  | tickets bodies frags =>
    intro q hq
    obtain ⟨body, hbody, rfl⟩ := List.mem_map.1 hq
    exact ⟨[body], List.forall_mem_singleton.2 (h.1 body hbody), (List.append_nil _).symm⟩

@[simp] theorem data?_whole (i : Shipment) : i.whole.data? = i.data? := by
  cases i <;> rfl

end Shipment

/-- The application data among shipments. -/
def shippedData (items : List Shipment) : List Bytes := items.filterMap Shipment.data?

/-- Contents sealed in order, each within the limit of a record (5.2). -/
inductive Ships (p : Provider cfg) : Half → List (UInt8 × Bytes) → List Bytes → Prop where
  | nil {s : Half} : Ships p s [] []
  | cons {s : Half} {type : UInt8} {content record : Bytes} {pad : Nat} {contents : List (UInt8 × Bytes)}
      {records : List Bytes} (hsealed : sealRecord p s.keys s.seq.toNat type content pad = some record)
      (hlen : content.length + pad ≤ 2 ^ 14) (hrest : Ships p ⟨s.keys, s.seq + 1⟩ contents records) :
      Ships p s ((type, content) :: contents) (record :: records)

end Rfc

/-! ## Content that a record of tickets has -/

/-- Of a ticket less than all makes no message. -/
theorem takePost_cut {q r body : Bytes} (hbody : body.length < 2 ^ 24) (h : q ++ r = Rfc.hsMsg 4 body) (hr : r ≠ []) :
    takePost q = .error .decode := by
  cases q with
  | nil => rfl
  | cons mType q =>
    obtain ⟨rfl, hq⟩ := List.cons.inj h
    have hq : q ++ r = vec 3 body := hq
    show takePost (wnHsNewSessionTicket :: q) = _
    cases hv : takeVec 3 q with
    | none => rw [takePost, if_pos rfl, hv]
    | some x =>
      obtain ⟨body', r'⟩ := x
      obtain ⟨rfl, hbody'⟩ := takeVec_eq_some.1 hv
      have hlong : takeVec 3 (vec 3 body) = some (body', r' ++ r) :=
        takeVec_eq_some.2 ⟨by rw [← hq, List.append_assoc], hbody'⟩
      have hall : takeVec 3 (vec 3 body) = some (body, []) := takeVec_eq_some.2 ⟨by simp, by omega⟩
      rw [hall] at hlong
      have hnil : [] = r' ++ r := (Prod.mk.inj (Option.some.inj hlong)).2
      exact absurd (List.append_eq_nil_iff.1 hnil.symm).2 hr

theorem wholeTickets_cons {body q : Bytes} (hbody : body.length < 2 ^ 24) (h : Rfc.WholeTickets q) :
    Rfc.WholeTickets (Rfc.hsMsg 4 body ++ q) := by
  obtain ⟨bodies, hfits, rfl⟩ := h
  exact ⟨body :: bodies, List.forall_mem_cons.2 ⟨hbody, hfits⟩, rfl⟩

/-- What tickets have after whole ones is whole tickets. -/
theorem wholeTickets_rest {q r : Bytes} {bodies : List Bytes} (hfits : Rfc.TicketsFit bodies)
    (h : q ++ r = Rfc.ticketBytes bodies) (hq : Rfc.WholeTickets q) : Rfc.WholeTickets r := by
  obtain ⟨front, hfront, rfl⟩ := hq
  induction front generalizing bodies with
  | nil => exact ⟨bodies, hfits, h⟩
  | cons body front ih =>
    obtain ⟨hbody, hfront⟩ := List.forall_mem_cons.1 hfront
    rw [Rfc.ticketBytes_cons, List.append_assoc] at h
    have htake := takePost_hsMsg hbody (Rfc.ticketBytes front ++ r)
    cases bodies with
    | nil => exact absurd h (List.cons_ne_nil _ _)
    | cons body' bodies =>
      obtain ⟨hbody', hfits⟩ := List.forall_mem_cons.1 hfits
      rw [show Rfc.hsMsg wnHsNewSessionTicket body ++ (Rfc.ticketBytes front ++ r) =
        Rfc.hsMsg wnHsNewSessionTicket body' ++ Rfc.ticketBytes bodies from h, takePost_hsMsg hbody'] at htake
      exact ih hfits hfront (Prod.mk.inj (Except.ok.inj htake)).2.symm

variable {p : Provider cfg}

/-- The loop takes whole tickets off the front, and fails at the first that the
record has less of. -/
theorem posths_cut {msg : Bytes} (hs : msg.length < 2 ^ 31) (r : Bytes) (w : World) :
    ∀ (bodies : List Bytes) (q : Bytes) (n : Nat),
    Rfc.TicketsFit bodies → q ++ r = Rfc.ticketBytes bodies → ¬ Rfc.WholeTickets q → q <:+ msg →
      repeatM .decode (posthsStep p msg) n (readerAt msg q) w = .error .decode w
  | _, _, 0, _, _, _, _ => rfl
  | [], q, n + 1, _, h, hcut, _ => by
    obtain ⟨rfl, -⟩ := List.append_eq_nil_iff.1 h
    exact absurd ⟨[], nofun, rfl⟩ hcut
  | body :: bodies, q, n + 1, hfits, h, hcut, hq => by
    obtain ⟨hbody, hfits⟩ := List.forall_mem_cons.1 hfits
    rw [Rfc.ticketBytes_cons] at h
    rcases List.append_eq_append_iff.1 h with ⟨r', hmsg, hr⟩ | ⟨q', rfl, hrest⟩
    · by_cases hr' : r' = []
      · subst hr'
        rw [List.append_nil] at hmsg
        exact absurd ⟨[body], List.forall_mem_singleton.2 hbody, by simp [← hmsg]⟩ hcut
      · have hne : q ≠ [] := by
          rintro rfl
          exact hcut ⟨[], nofun, rfl⟩
        exact posths_refused hq hs hne (takePost_cut hbody hmsg.symm hr') n w
    · rw [posths_ticket hq hs rfl hbody]
      exact posths_cut hs r w bodies q' n hfits hrest.symm (mt (wholeTickets_cons hbody) hcut)
        ((List.suffix_append _ _).trans hq)

/-! ## Turns -/

/-- A session on which `wn_Recv` works, and sealed contents in flight to it. -/
structure Inbound (p : Provider cfg) (w : World) (contents : List (UInt8 × Bytes)) : Prop where
  opened : ¬ w.sess.Closed
  established : w.sess.Established
  room : recordRoom ≤ w.sess.scratchLen
  flowing : w.Flowing
  ships : ∃ records, Rfc.Ships p w.readHalf contents records ∧ w.inbox.flatten = records.flatten

section Turns

variable (hp : p.Total) (hopen : p.OpensSealed)
include hp hopen

/-- A turn opens the content in front. -/
theorem Inbound.turn {w : World} {type : UInt8} {content : Bytes} {contents : List (UInt8 × Bytes)}
    (h : Inbound p w ((type, content) :: contents)) (ht : type ≠ 0) : content.length ≤ wnMaxPlaintext ∧
      ∃ w', Inbound p w' contents ∧ ∀ outCap, recvStep p outCap () w = recvContent p outCap type content w' := by
  obtain ⟨records, hships, hflat⟩ := h.ships
  cases hships with
  | @cons _ _ _ record pad _ records hsealed hlen hrest =>
    have hmax : wnMaxPlaintext = 2 ^ 14 := rfl
    have hroom : recordRoom = 5 + 2 ^ 14 + 1 + 16 := rfl
    have hcap := h.room
    obtain ⟨hsize, -, hread⟩ := sealRecord_readsBack p hsealed (by omega)
    obtain ⟨inbox, hin, hrest', hrecv⟩ := hread w.sess.scratchLen w records.flatten (by omega) h.flowing hflat
    have hunprotect := unprotect_sealRecord p hopen (hp.aesGcmSetKey _) ht hsealed
    exact ⟨by omega, w.readOn inbox, ⟨h.opened, h.established, h.room, hin, records, hrest, hrest'⟩,
      fun outCap => recvStep_opened hrecv (by decide) hunprotect⟩

/-! ## Calls -/

omit hp hopen in
/-- A turn that goes on is no part of what the calls answer. -/
theorem recvCalls_skip {caps : List Nat} {w w' : World} {contents contents' : List (UInt8 × Bytes)}
    (h : Inbound p w contents) (h' : Inbound p w' contents')
    (hturn : ∀ outCap, recvStep p outCap () w = .ok (.inl ()) w') : recvCalls p caps w = recvCalls p caps w' := by
  cases caps with
  | nil => rfl
  | cons outCap caps =>
    have hloop : recvLoop p outCap w = recvLoop p outCap w' := by
      rw [recvLoop_of h.opened h.established, recvLoop_of h'.opened h'.established, repeatM_continue (hturn outCap)]
      exact recvLoop_fuel outCap (recvStep_pending (hturn outCap))
    have hcall : wnRecv p outCap w = wnRecv p outCap w' := by
      unfold wnRecv
      rw [bind_apply, bind_apply, hloop]
    rw [recvCalls, recvCalls, hcall]

/-- Calls with room for any record's data return this data, and find nothing after it. -/
def Returned (p : Provider cfg) (w : World) (ms : List Bytes) : Prop :=
  ∀ caps, (∀ outCap ∈ caps, wnMaxPlaintext ≤ outCap) → recvCalls p caps w = answers caps.length ms

omit hp hopen in
theorem Inbound.returned_nil {w : World} (h : Inbound p w []) : Returned p w [] := by
  intro caps
  induction caps generalizing w with
  | nil => exact fun _ => rfl
  | cons outCap caps ih =>
    intro hcaps
    obtain ⟨records, hships, hflat⟩ := h.ships
    cases hships
    have hread : wnRecvRecord w.sess.scratchLen w = .error .crypto { w with inbox := [] } :=
      wnRecvRecord_end h.flowing hflat
    have hstep : recvStep p outCap () w = .error .crypto { w with inbox := [] } := by
      unfold recvStep
      rw [bind_of_ok (get_apply w)]
      exact bind_of_error hread
    have h' : Inbound p { w with inbox := [] } [] :=
      ⟨h.opened, h.established, h.room, by simp [World.Flowing], [], .nil, rfl⟩
    rw [recvCalls, wnRecv_refuse h.opened h.established hstep]
    exact congrArg _ (ih h' (List.forall_mem_cons.1 hcaps).2)

/-- A record of data is returned, and then what is behind it. -/
theorem Inbound.returned_data {w : World} {m : Bytes} {contents : List (UInt8 × Bytes)}
    (h : Inbound p w ((23, m) :: contents)) :
    ∃ w', Inbound p w' contents ∧ ∀ {ms}, Returned p w (m :: ms) ↔ Returned p w' ms := by
  obtain ⟨hlen, w', h', hturn⟩ := h.turn hp hopen (by decide)
  have hcalls : ∀ {outCap : Nat} (caps : List Nat), wnMaxPlaintext ≤ outCap →
      recvCalls p (outCap :: caps) w = .ok m :: recvCalls p caps w' := by
    intro outCap caps hcap
    have hstep : recvStep p outCap () w = .ok (.inr (.deliver m)) w' :=
      (hturn outCap).trans (recvContent_data (Nat.le_trans hlen hcap) w')
    rw [recvCalls, wnRecv_deliver h.opened h.established hstep]
  refine ⟨w', h', fun {ms} => ⟨fun hall caps hcaps => ?_, fun hall caps hcaps => ?_⟩⟩
  · have hmore := hall (wnMaxPlaintext :: caps) (List.forall_mem_cons.2 ⟨Nat.le_refl _, hcaps⟩)
    rw [hcalls caps (Nat.le_refl _)] at hmore
    exact (List.cons.inj hmore).2
  · cases caps with
    | nil => rfl
    | cons outCap caps =>
      obtain ⟨hcap, hcaps⟩ := List.forall_mem_cons.1 hcaps
      rw [hcalls caps hcap, hall caps hcaps]
      rfl

/-- A record of whole tickets is no part of it. -/
theorem Inbound.returned_whole {w : World} {q : Bytes} {contents : List (UInt8 × Bytes)}
    (h : Inbound p w ((22, q) :: contents)) (hq : Rfc.WholeTickets q) :
    ∃ w', Inbound p w' contents ∧ ∀ {ms}, Returned p w ms ↔ Returned p w' ms := by
  obtain ⟨hlen, w', h', hturn⟩ := h.turn hp hopen (by decide)
  obtain ⟨bodies, hfits, rfl⟩ := hq
  have hfits' : (Rfc.Carried.post bodies none).Fits := ⟨hfits, nofun⟩
  have hs : (Rfc.ticketBytes bodies).length < 2 ^ 31 := by
    unfold wnMaxPlaintext at hlen
    omega
  have hstep : ∀ outCap, recvStep p outCap () w = .ok (.inl ()) w' := fun outCap =>
    (hturn outCap).trans (recvContent_post (wnSessionPosths_content hfits' hs w'))
  refine ⟨w', h', fun {ms} => ?_⟩
  unfold Returned
  simp only [recvCalls_skip h h' hstep]

/-- A record that cuts a ticket fails the call. -/
theorem Inbound.returned_cut {w : World} {q r : Bytes} {bodies : List Bytes} {contents : List (UInt8 × Bytes)}
    {ms : List Bytes} (h : Inbound p w ((22, q) :: contents)) (hfits : Rfc.TicketsFit bodies)
    (hq : q ++ r = Rfc.ticketBytes bodies) (hcut : ¬ Rfc.WholeTickets q) : ¬ Returned p w ms := by
  obtain ⟨hlen, w', h', hturn⟩ := h.turn hp hopen (by decide)
  have hs : q.length < 2 ^ 31 := by
    unfold wnMaxPlaintext at hlen
    omega
  have hposths : wnSessionPosths p q w' = .error .decode w' := by
    rw [wnSessionPosths, wnReaderInit_eq]
    exact posths_cut hs r w' bodies q _ hfits hq hcut (List.suffix_refl _)
  have hcontent : recvContent p wnMaxPlaintext wnRecHandshake q w' = .error .decode w' := by
    unfold recvContent
    rw [if_neg (by decide), if_pos rfl]
    exact bind_of_error hposths
  intro hall
  have hone := hall [wnMaxPlaintext] (List.forall_mem_singleton.2 (Nat.le_refl _))
  rw [recvCalls, wnRecv_refuse h.opened h.established ((hturn wnMaxPlaintext).trans hcontent)] at hone
  cases ms <;> cases (List.cons.inj hone).1

/-- The records of some tickets, `P` what the calls' answers behind them depend on. -/
theorem Inbound.returned_tickets {contents : List (UInt8 × Bytes)} {ms : List Bytes} {P : Prop}
    (hrest : ∀ w, Inbound p w contents → (Returned p w ms ↔ P)) : ∀ {frags bodies : List Bytes} {w : World},
      Inbound p w (frags.map (fun q => (22, q)) ++ contents) → Rfc.TicketsFit bodies →
      frags.flatten = Rfc.ticketBytes bodies → (Returned p w ms ↔ (∀ q ∈ frags, Rfc.WholeTickets q) ∧ P)
  | [], _, w, h, _, _ => (hrest w h).trans (and_iff_right nofun).symm
  | q :: frags, bodies, w, h, hfits, hflat => by
    rw [List.forall_mem_cons]
    by_cases hq : Rfc.WholeTickets q
    · obtain ⟨w', h', hskip⟩ := h.returned_whole hp hopen hq
      obtain ⟨bodies', hfits', hflat'⟩ := wholeTickets_rest hfits hflat hq
      rw [hskip, returned_tickets hrest h' hfits' hflat', and_iff_right hq]
    · exact iff_of_false (h.returned_cut hp hopen hfits hflat hq) fun hall => hq hall.1.1

/-- **Whether the tickets are skipped.** -/
theorem Inbound.returned : ∀ {items : List Rfc.Shipment} {w : World}, (∀ i ∈ items, i.Fits) →
    Inbound p w (items.flatMap Rfc.Shipment.contents) →
      (Returned p w (Rfc.shippedData items) ↔ ∀ i ∈ items, i.Whole)
  | [], w, _, h => iff_of_true h.returned_nil nofun
  | i :: items, w, hfits, h => by
    obtain ⟨hi, hrest⟩ := List.forall_mem_cons.1 hfits
    rw [List.forall_mem_cons]
    cases i with
    | data m =>
      have h : Inbound p w ((23, m) :: items.flatMap Rfc.Shipment.contents) := h
      obtain ⟨w', h', hnext⟩ := h.returned_data hp hopen
      exact hnext.trans ((returned hrest h').trans (and_iff_right trivial).symm)
    | tickets bodies frags =>
      have h : Inbound p w (frags.map (fun q => (22, q)) ++ items.flatMap Rfc.Shipment.contents) := h
      exact h.returned_tickets hp hopen (fun w' h' => returned hrest h') hi.1 hi.2.2

end Turns

/-- **Tickets cut over records are not skipped.** Whatever application data and
tickets an honest peer sends, and however it cuts the tickets over records: the
calls return the data, and fail only for want of more, if and only if every
record holds whole tickets. So it is in no other case that they answer as where
each ticket is sent in one record. -/
theorem wnRecv_tickets (hp : p.Total) (hopen : p.OpensSealed) {items : List Rfc.Shipment} {w : World}
    (hfits : ∀ i ∈ items, i.Fits) (h : Inbound p w (items.flatMap Rfc.Shipment.contents)) :
    ((∀ caps, (∀ outCap ∈ caps, wnMaxPlaintext ≤ outCap) →
        recvCalls p caps w = answers caps.length (Rfc.shippedData items)) ↔ ∀ i ∈ items, i.Whole) ∧
    ∀ w₀, Inbound p w₀ ((items.map Rfc.Shipment.whole).flatMap Rfc.Shipment.contents) →
      ((∀ caps, recvCalls p caps w = recvCalls p caps w₀) ↔ ∀ i ∈ items, i.Whole) := by
  have hreturned := h.returned hp hopen hfits
  refine ⟨hreturned, fun w₀ h₀ => ?_⟩
  have hfits₀ : ∀ i ∈ items.map Rfc.Shipment.whole, i.Fits := by
    intro i hi
    obtain ⟨i, hmem, rfl⟩ := List.mem_map.1 hi
    exact Rfc.Shipment.whole_fits (hfits i hmem)
  have hwhole₀ : ∀ i ∈ items.map Rfc.Shipment.whole, i.Whole := by
    intro i hi
    obtain ⟨i, hmem, rfl⟩ := List.mem_map.1 hi
    exact Rfc.Shipment.whole_whole (hfits i hmem)
  have hdata₀ : Rfc.shippedData (items.map Rfc.Shipment.whole) = Rfc.shippedData items := by
    simp [Rfc.shippedData, List.filterMap_map]
  have hall₀ : Returned p w₀ (Rfc.shippedData items) := by
    rw [← hdata₀]
    exact (h₀.returned hp hopen hfits₀).2 hwhole₀
  rw [← hreturned]
  constructor
  · exact fun hsame caps hcaps => (hsame caps).trans (hall₀ caps hcaps)
  · intro hall caps
    have hcaps : ∀ outCap ∈ caps.map fun _ => ampleCap, wnMaxPlaintext ≤ outCap := ampleCap_ample caps
    rw [recvCalls_fitted, hall _ hcaps, recvCalls_fitted caps w₀, hall₀ _ hcaps]

/-- A ticket in two records, and data. -/
def cutWorld : World := clearWorld [clearRecord 22 [4, 0, 0] ++ clearRecord 22 [1, 9] ++ clearRecord 23 [8]]

/-- The same ticket in one record. -/
def wholeWorld : World := clearWorld [clearRecord 22 [4, 0, 0, 1, 9] ++ clearRecord 23 [8]]

/-- The ticket in one record is skipped. -/
theorem wnRecv_tickets_whole : recvCalls (.clear .small) [wnMaxPlaintext] wholeWorld = [.ok [8]] := by
  obtain ⟨hopen, hest⟩ := Session.established_open (.sized 32768) clearHsKeys clearHsKeys
  let items : List Rfc.Shipment := [.tickets [[9]] [[4, 0, 0, 1, 9]], .data [8]]
  have hfits : ∀ i ∈ items, i.Fits := List.forall_mem_cons.2
    ⟨⟨List.forall_mem_singleton.2 (by decide), by decide, by decide⟩, List.forall_mem_singleton.2 trivial⟩
  have hwhole : ∀ i ∈ items, i.Whole := List.forall_mem_cons.2
    ⟨List.forall_mem_singleton.2 ⟨[[9]], List.forall_mem_singleton.2 (by decide), by decide⟩,
      List.forall_mem_singleton.2 trivial⟩
  have hships : Rfc.Ships (Provider.clear .small) ⟨clearHsKeys, 0⟩ [(22, [4, 0, 0, 1, 9]), (23, [8])]
      [clearRecord 22 [4, 0, 0, 1, 9], clearRecord 23 [8]] :=
    .cons (clearRecord_seal .small clearHsKeys 0 22 [4, 0, 0, 1, 9]) (by decide)
      (.cons (clearRecord_seal .small clearHsKeys 1 23 [8]) (by decide) .nil)
  have h : Inbound (Provider.clear .small) wholeWorld (items.flatMap Rfc.Shipment.contents) :=
    ⟨hopen, hest, by decide, by simp [World.Flowing, wholeWorld, clearWorld, World.fresh, clearRecord],
      _, hships, by decide⟩
  have hcalls := wnRecv_tickets (Provider.clear_total .small) (Provider.clear_opensSealed .small) hfits h
  exact hcalls.1.2 hwhole [wnMaxPlaintext] (by decide)

/-- Cut in two it fails the call, and the data is not returned. -/
theorem wnRecv_tickets_cut : recvCalls (.clear .small) [wnMaxPlaintext] cutWorld = [.error .decode] ∧
    recvCalls (.clear .small) [wnMaxPlaintext] wholeWorld = [.ok [8]] := by
  decide +kernel

end WolfNano

/-
What `wn_Recv` leaves its caller: the two outputs of one call, and what calls
with a schedule of capacities return.

The outputs are set up only once the session's flags have been looked at, so
the contract of `wn_session.h` holds of every call that gets that far. The
capacity is looked at only once the record is consumed, so it decides what is
returned and nothing else (`wnRecv_eq`).
-/
import WolfNano.RecordLimit
import WolfNano.ClientMoves

namespace WolfNano

open Prog Wire

variable {cfg : Config} (p : Provider cfg)

/-! ## The outputs of one call -/

/-- The memory at `out`, and `*outLen`. -/
structure RecvOutputs where
  out : Bytes
  outLen : Nat

/-- `wn_Recv` with its outputs: `*outLen` is cleared behind the checks of the
flags, and both are set where the loop is done. -/
def wnRecvOut (outCap : Nat) (o : RecvOutputs) (w : World) : Except Err Unit × RecvOutputs × World :=
  match checkOpen w with
  | .error e w => (.error e, o, w)
  | .ok _ w =>
    match repeatM .crypto (recvStep p outCap) (w.pending + 1) () w with
    | .ok (.deliver plain) w => (.ok (), { out := patch o.out 0 plain, outLen := plain.length }, w)
    | .ok .small w => (.error .invalidArg, { o with outLen := 0 }, w)
    | .error e w => (.error e, { o with outLen := 0 }, w)

/-- `m` is the data of one record, the last that the call read and opened. -/
def Delivers (outCap : Nat) (w : World) (m : Bytes) : Prop :=
  ∃ w₁ w₂ rtype record, Turns p outCap w w₁ ∧ wnRecvRecord w₁.sess.scratchLen w₁ = .ok (rtype, record) w₂ ∧
    wnRecordUnprotect p w₁.sess.sKey w₁.sess.sIv w₁.sess.sSeq record = .ok (wnRecAppdata, m)

/-- The contract of `wn_Recv`: data at the front of `out` and its length, or an
error, no length, and `out` as it was. -/
def RecvContract (outCap : Nat) (o : RecvOutputs) (w : World) : Prop :=
  match wnRecvOut p outCap o w with
  | (.ok _, o', _) => ∃ m, Delivers p outCap w m ∧ m.length ≤ outCap ∧ o'.outLen = m.length ∧
      o'.out = m ++ o.out.drop m.length
  | (.error _, o', _) => o'.outLen = 0 ∧ o'.out = o.out

variable {p}

/-- It is `wn_Recv`, whatever the outputs held before. -/
theorem wnRecv_out (outCap : Nat) (o : RecvOutputs) (w : World) : wnRecv p outCap w =
    match wnRecvOut p outCap o w with
    | (.ok _, o', w') => .ok (o'.out.take o'.outLen) w'
    | (.error e, _, w') => .error e w' := by
  unfold wnRecv recvLoop wnRecvOut
  rcases checkOpen_cases w with ⟨hopen, -, -⟩ | ⟨e, hopen⟩
  · rw [hopen, bind_apply, bind_of_ok hopen, bind_of_ok (get_apply w)]
    dsimp only
    cases repeatM .crypto (recvStep p outCap) (w.pending + 1) () w with
    | error e w' => rfl
    | ok x w' =>
      cases x with
      | small => rfl
      | deliver plain => simp [patch]
  · rw [hopen, bind_of_error (bind_of_error hopen)]

/-- **When `wn_Recv` keeps its contract**: on a session that is established and
not closed, and elsewhere only if `*outLen` was 0 already. -/
theorem wnRecvOut_contract (outCap : Nat) (o : RecvOutputs) (w : World) :
    RecvContract p outCap o w ↔ (¬ w.sess.Closed ∧ w.sess.Established) ∨ o.outLen = 0 := by
  unfold RecvContract wnRecvOut
  rcases checkOpen_cases w with ⟨hopen, hnot, hest⟩ | ⟨e, hopen⟩
  · refine iff_of_true ?_ (.inl ⟨hnot, hest⟩)
    rw [hopen]
    dsimp only
    cases hloop : repeatM .crypto (recvStep p outCap) (w.pending + 1) () w with
    | error e w' => exact ⟨rfl, rfl⟩
    | ok x w' =>
      cases x with
      | small => exact ⟨rfl, rfl⟩
      | deliver m =>
        obtain ⟨_, w₁, hturns, hstep⟩ := repeatM_ok (I := fun _ => Turns p outCap w)
          (fun hi hs => Relation.ReflTransGen.tail hi hs) Relation.ReflTransGen.refl hloop
        obtain ⟨hroom, w₂, rtype, record, hread, hunprotect⟩ := recvStep_deliver hstep
        exact ⟨m, ⟨w₁, w₂, rtype, record, hturns, hread, hunprotect⟩, hroom, rfl, by simp [patch]⟩
  · rw [hopen]
    have hshut : ¬ (¬ w.sess.Closed ∧ w.sess.Established) := by
      intro h
      rw [checkOpen_of h.1 h.2] at hopen
      cases hopen
    exact ⟨fun h => .inr h.1, fun h => ⟨h.resolve_left hshut, rfl⟩⟩

/-- A session that is established, with the length of an earlier message in `*outLen`. -/
theorem wnRecvOut_contract_clear : RecvContract (.clear .small) 64 ⟨[1, 2, 3], 99⟩ (clearWorld [clearRecord 23 [7]]) :=
  (wnRecvOut_contract 64 ⟨[1, 2, 3], 99⟩ (clearWorld [clearRecord 23 [7]])).2
    (.inl (Session.established_open (.sized 32768) clearHsKeys clearHsKeys))

/-- The session after a `wn_Recv` that got the peer's close_notify. -/
def notifiedWorld : World := endState (wnRecv (.clear .small) 64 (clearWorld [clearRecord 21 [1, 0]]))

/-- The next `wn_Recv` answers `WOLFNANO_E_CLOSED` and leaves `*outLen` at 99. -/
theorem wnRecvOut_stale : (wnRecvOut (.clear .small) 64 ⟨[], 99⟩ notifiedWorld).1 = .error .closed ∧
    (wnRecvOut (.clear .small) 64 ⟨[], 99⟩ notifiedWorld).2.1.outLen = 99 ∧
    ¬ RecvContract (.clear .small) 64 ⟨[], 99⟩ notifiedWorld := by
  have hclosed : notifiedWorld.sess.Closed := by decide +kernel
  have hcheck : checkOpen notifiedWorld = .error .closed notifiedWorld := by
    unfold checkOpen
    rw [bind_of_ok (get_apply _), failIf_pos hclosed]
    rfl
  have hrun : wnRecvOut (.clear .small) 64 ⟨[], 99⟩ notifiedWorld = (.error .closed, ⟨[], 99⟩, notifiedWorld) := by
    unfold wnRecvOut
    rw [hcheck]
  refine ⟨by rw [hrun], by rw [hrun], ?_⟩
  unfold RecvContract
  rw [hrun]
  exact fun h => absurd h.1 (by decide)

/-! ## A schedule of capacities -/

/-- What a result is to a caller with so much room. -/
def fitted (outCap : Nat) : Except Err Bytes → Except Err Bytes
  | .ok m => if m.length > outCap then .error .invalidArg else .ok m
  | .error e => .error e

/-- Room for the content of every record that `wn_RecvRecord` takes. -/
def ampleCap : Nat := wnMaxPlaintext + 256

/-- How the loop ends for a caller with so much room that it ends so for one
with ample room. -/
def RecvOut.fitted (outCap : Nat) : RecvOut → RecvOut
  | .deliver m => if m.length > outCap then .small else .deliver m
  | .small => .small

theorem recvContent_fitted (outCap : Nat) (ctype : UInt8) {plain : Bytes} (hlen : plain.length ≤ ampleCap) :
    recvContent p outCap ctype plain =
      recvContent p ampleCap ctype plain >>= fun x => pure (x.map id (RecvOut.fitted outCap)) := by
  unfold recvContent
  by_cases hdata : ctype = wnRecAppdata
  · rw [if_pos hdata, if_pos hdata, if_neg (Nat.not_lt.2 hlen), pure_bind]
    rfl
  · rw [if_neg hdata, if_neg hdata]
    by_cases hhs : ctype = wnRecHandshake
    · rw [if_pos hhs, bind_assoc]
      rfl
    · rw [if_neg hhs]
      by_cases halert : ctype = wnRecAlert
      · rw [if_pos halert]
        split <;> rfl
      · rw [if_neg halert]
        rfl

/-- A turn is the turn with ample room, but for how it ends with data. -/
theorem recvStep_fitted (outCap : Nat) (w : World) : recvStep p outCap () w =
    (recvStep p ampleCap () >>= fun x => pure (x.map id (RecvOut.fitted outCap))) w := by
  unfold recvStep
  rw [bind_assoc, bind_of_ok (get_apply w), bind_of_ok (get_apply w), bind_assoc]
  cases hread : wnRecvRecord w.sess.scratchLen w with
  | error e w₁ => rw [bind_of_error hread, bind_of_error hread]
  | ok x w₁ =>
    obtain ⟨rtype, record⟩ := x
    rw [bind_of_ok hread, bind_of_ok hread, bind_assoc]
    dsimp only
    by_cases hccs : rtype = wnRecChangeCipher
    · rw [failIf_pos hccs]
      rfl
    · rw [failIf_neg hccs, pure_bind, pure_bind, bind_assoc]
      cases hopen : wnRecordUnprotect p w.sess.sKey w.sess.sIv w.sess.sSeq record with
      | error e => rfl
      | ok x =>
        obtain ⟨ctype, plain⟩ := x
        have hlen : plain.length ≤ ampleCap := by
          have := opened_length hread hopen
          unfold ampleCap
          omega
        rw [bind_of_ok (ofExcept_ok_apply _ _), bind_of_ok (ofExcept_ok_apply _ _), bind_assoc]
        dsimp only
        rw [recvContent_fitted outCap ctype hlen]

/-- So is the loop. -/
theorem recvTurns_fitted (outCap : Nat) : ∀ (n : Nat) (w : World), repeatM .crypto (recvStep p outCap) n () w =
    (repeatM .crypto (recvStep p ampleCap) n () >>= fun x => pure (RecvOut.fitted outCap x)) w
  | 0, _ => rfl
  | n + 1, w => by
    have hturn := recvStep_fitted (p := p) outCap w
    cases hstep : recvStep p ampleCap () w with
    | error e w₁ =>
      rw [bind_of_error hstep] at hturn
      rw [repeatM_error hturn, bind_of_error (repeatM_error hstep)]
    | ok x w₁ =>
      rw [bind_of_ok hstep] at hturn
      cases x with
      | inl u =>
        rw [repeatM_continue hturn, bind_apply, repeatM_continue hstep]
        exact recvTurns_fitted outCap n w₁
      | inr out =>
        rw [repeatM_done hturn, bind_of_ok (repeatM_done hstep)]
        rfl

/-- With ample room the loop does not end for the lack of it. -/
theorem recvTurns_ample (n : Nat) (w w' : World) : repeatM .crypto (recvStep p ampleCap) n () w ≠ .ok .small w' := by
  intro h
  obtain ⟨_, w₁, -, hstep⟩ := repeatM_ok (I := fun _ _ => True) (fun _ _ => trivial) trivial h
  obtain ⟨w₂, rtype, record, m, hread, hopen, hout⟩ := recvStep_data hstep
  have hlen := opened_length hread hopen
  have hroom : ¬ m.length > ampleCap := by
    unfold ampleCap
    omega
  rw [if_neg hroom] at hout
  cases hout

/-- **Capacity decides only the answer**: the call does what it does with ample
room, and then looks at the length. -/
theorem wnRecv_fitted (outCap : Nat) (w : World) : wnRecv p outCap w =
    match wnRecv p ampleCap w with
    | .ok m w' => if m.length > outCap then .error .invalidArg w' else .ok m w'
    | .error e w' => .error e w' := by
  unfold wnRecv recvLoop
  rcases checkOpen_cases w with ⟨hopen, -, -⟩ | ⟨e, hopen⟩
  · simp only [bind_apply, hopen, get_apply, recvTurns_fitted outCap]
    cases hloop : repeatM .crypto (recvStep p ampleCap) (w.pending + 1) () w with
    | error e w' => rfl
    | ok out w' =>
      cases out with
      | small => exact absurd hloop (recvTurns_ample _ _ _)
      | deliver m =>
        simp only [pure_apply, RecvOut.fitted]
        by_cases hroom : m.length > outCap
        · rw [if_pos hroom, if_pos hroom]
          rfl
        · rw [if_neg hroom, if_neg hroom]
          rfl
  · rw [bind_of_error (bind_of_error hopen), bind_of_error (bind_of_error hopen)]

theorem ampleCap_ample (caps : List Nat) : ∀ outCap ∈ caps.map fun _ => ampleCap, wnMaxPlaintext ≤ outCap := by
  intro outCap hcap
  obtain ⟨_, -, rfl⟩ := List.mem_map.1 hcap
  exact Nat.le_add_right _ _

/-- What calls with these capacities answer, one after the other. -/
def recvCalls (p : Provider cfg) : List Nat → World → List (Except Err Bytes)
  | [], _ => []
  | outCap :: caps, w =>
    match wnRecv p outCap w with
    | .ok m w' => .ok m :: recvCalls p caps w'
    | .error e w' => .error e :: recvCalls p caps w'

/-- The calls answer as with ample room, but for the data there is no room for. -/
theorem recvCalls_fitted : ∀ (caps : List Nat) (w : World),
    recvCalls p caps w = List.zipWith fitted caps (recvCalls p (caps.map fun _ => ampleCap) w)
  | [], _ => rfl
  | outCap :: caps, w => by
    rw [recvCalls, List.map_cons, recvCalls, wnRecv_fitted]
    cases wnRecv p ampleCap w with
    | error e w' => exact congrArg _ (recvCalls_fitted caps w')
    | ok m w' =>
      dsimp only
      rw [List.zipWith_cons_cons, fitted, ← recvCalls_fitted caps w']
      by_cases hroom : m.length > outCap
      · rw [if_pos hroom, if_pos hroom]
      · rw [if_neg hroom, if_neg hroom]

/-! ## What an honest peer gets across -/

/-- The answers of so many calls with room for each of these plaintexts, and
nothing in flight after them. -/
def answers : Nat → List Bytes → List (Except Err Bytes)
  | 0, _ => []
  | n + 1, [] => .error .crypto :: answers n []
  | n + 1, m :: ms => .ok m :: answers n ms

/-- The data of the calls that succeed. -/
def delivered (results : List (Except Err Bytes)) : List Bytes := results.filterMap Except.toOption

/-- The plaintexts that fit the call that meets them. -/
def fitting (caps : List Nat) (ms : List Bytes) : List Bytes :=
  ((caps.zip ms).filter fun x => x.2.length ≤ x.1).map Prod.snd

theorem delivered_fitted : ∀ (caps : List Nat) (ms : List Bytes),
    delivered (List.zipWith fitted caps (answers caps.length ms)) = fitting caps ms
  | [], _ => rfl
  | outCap :: caps, [] => by
    have hrest := delivered_fitted caps []
    rw [fitting, List.zip_nil_right] at hrest
    exact hrest
  | outCap :: caps, m :: ms => by
    have hrest := delivered_fitted caps ms
    unfold delivered fitting at hrest ⊢
    rw [List.length_cons, answers, List.zipWith_cons_cons, List.zip_cons_cons, fitted]
    by_cases hroom : m.length > outCap
    · rw [if_pos hroom, List.filter_cons_of_neg (by simpa using hroom), ← hrest]
      rfl
    · rw [if_neg hroom, List.filter_cons_of_pos (by simpa using hroom), List.map_cons, ← hrest]
      rfl

/-- Calls with ample room return what is in flight. -/
theorem recvCalls_ample (hp : p.Total) (hopen : p.OpensSealed) : ∀ (caps : List Nat) {pending : List Rfc.Sent}
    {w : World} {s : Rfc.Half}, (∀ outCap ∈ caps, wnMaxPlaintext ≤ outCap) → w.Ready →
      Rfc.Seals p w.readHalf pending s → (∀ i ∈ pending, i.Within) →
      w.inbox.flatten = (pending.map (·.record)).flatten →
      recvCalls p caps w = answers caps.length (Rfc.plaintexts pending)
  | [], _, _, _, _, _, _, _, _ => rfl
  | outCap :: caps, pending, w, s, hcaps, hw, hseals, hwithin, hflat => by
    obtain ⟨hcap, hcaps⟩ := List.forall_mem_cons.1 hcaps
    obtain ⟨got, rest, gave, w', rfl, hmoves, -, hend⟩ := wnRecv_moves hp hopen hcap hw hseals hwithin hflat
    obtain ⟨t, hfirst, hthen⟩ := hseals.split
    obtain rfl := hmoves.read.unique hfirst
    have hinbox := hmoves.inbox
    rw [hflat, List.map_append, List.flatten_append, List.append_cancel_left_eq] at hinbox
    have hrest := recvCalls_ample hp hopen caps hcaps hmoves.ready hthen
      (fun i hi => hwithin i (List.mem_append_right _ hi)) hinbox.symm
    rw [recvCalls, Rfc.plaintexts_append]
    rcases hend with ⟨m, hm, hr⟩ | ⟨hm, rfl, hr⟩
    · rw [hr, hm]
      exact congrArg _ hrest
    · rw [hr, hm]
      exact congrArg _ hrest

/-- Two records of data, of two bytes and of one. -/
def twoRecordWorld : World := clearWorld [clearRecord 23 [7, 7] ++ clearRecord 23 [8]]

end WolfNano

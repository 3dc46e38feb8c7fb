/-
What `wn_Send` and `wn_Recv` do while the peer is honest and nothing fails.

`Moves` is what a call has done when it returns: the records it has read and
sealed, as steps of the two directions. A call that reads goes through what is
in flight up to the first application data, or to the end.
-/
import WolfNano.PeerFacts
import WolfNano.Observed

namespace WolfNano

open Prog Wire

variable {cfg : Config} {p : Provider cfg}

/-- A session on which calls work, over a transport that neither fails nor cuts
a record short. -/
structure World.Ready (w : World) : Prop where
  opened : ¬ w.sess.Closed
  established : w.sess.Established
  digest : w.sess.digest = .sha256
  room : recordRoom ≤ w.sess.scratchLen
  flowing : w.Flowing
  sending : w.Sending

theorem World.Ready.headD {w : World} (h : w.Ready) : w.sendRes.headD true = true := by
  cases hs : w.sendRes with
  | nil => rfl
  | cons b l => exact h.sending b (by rw [hs]; exact List.mem_cons_self)

/-- What the client seals: data, or the answer to a KeyUpdate. -/
def Rfc.Carried.FromClient : Rfc.Carried → Prop
  | .data _ => True
  | .post tickets update => tickets = [] ∧ update = some 0

/-- The client has read and sealed these records and no others, and answered
each KeyUpdate that asked for one. -/
structure Moves (p : Provider cfg) (w : World) (got gave : List Rfc.Sent) (w' : World) : Prop where
  read : Rfc.Seals p w.readHalf got w'.readHalf
  write : Rfc.Seals p w.writeHalf gave w'.writeHalf
  inbox : w.inbox.flatten = (got.map (·.record)).flatten ++ w'.inbox.flatten
  out : w'.sent = w.sent ++ gave.map (·.record)
  answered : gave.countP (·.carried.updates) = got.countP (·.carried.requests)
  answers : ∀ i ∈ gave, i.carried.FromClient
  ready : w'.Ready

theorem Moves.trans {w w₁ w₂ : World} {got gave got' gave' : List Rfc.Sent} (h : Moves p w got gave w₁)
    (h' : Moves p w₁ got' gave' w₂) : Moves p w (got ++ got') (gave ++ gave') w₂ where
  read := h.read.append h'.read
  write := h.write.append h'.write
  inbox := by rw [h.inbox, h'.inbox, List.map_append, List.flatten_append, List.append_assoc]
  out := by rw [h'.out, h.out, List.map_append, List.append_assoc]
  answered := by rw [List.countP_append, List.countP_append, h.answered, h'.answered]
  answers := fun i hi => (List.mem_append.1 hi).elim (h.answers i) (h'.answers i)
  ready := h'.ready

/-! ## What `wn_Recv` does with content -/

theorem recvContent_data {outCap : Nat} {m : Bytes} (h : m.length ≤ outCap) (w : World) :
    recvContent p outCap wnRecAppdata m w = .ok (.inr (.deliver m)) w := by
  unfold recvContent
  rw [if_pos rfl, if_neg (Nat.not_lt.2 h)]
  rfl

theorem recvContent_post {outCap : Nat} {content : Bytes} {w w' : World}
    (h : wnSessionPosths p content w = .ok () w') :
    recvContent p outCap wnRecHandshake content w = .ok (.inl ()) w' := by
  unfold recvContent
  rw [if_neg (by decide), if_pos rfl, bind_of_ok h]
  rfl

theorem World.sent_afterSeal (w : World) (type : UInt8) (content record : Bytes) :
    (w.afterSeal type content record).sent = w.sent ++ [record] := by
  rw [World.sent, World.afterSeal, List.filterMap_append]
  rfl

theorem World.sent_rekeyRead (w : World) (t : TrafficKeys) (unread : Bytes) : (w.rekeyRead t unread).sent = w.sent := by
  rw [World.sent, World.rekeyRead, List.filterMap_append]
  exact List.append_nil _

theorem World.sent_rekeyWrite (w : World) (t : TrafficKeys) : (w.rekeyWrite t).sent = w.sent := by
  rw [World.sent, World.rekeyWrite, List.filterMap_append]
  exact List.append_nil _

/-- A record is at least a byte. -/
theorem Rfc.Seals.length_le {s s' : Rfc.Half} {items : List Rfc.Sent} (h : Rfc.Seals p s items s')
    (hwithin : ∀ i ∈ items, i.Within) : items.length ≤ (items.map (·.record)).flatten.length := by
  induction h with
  | nil => exact Nat.zero_le _
  | cons hstep _ ih =>
    obtain ⟨hi, hwithin⟩ := List.forall_mem_cons.1 hwithin
    have := (hstep.readsBack hi).1
    have := ih hwithin
    simp only [List.length_cons, List.map_cons, List.flatten_cons, List.length_append]
    omega

section Calls

variable (hp : p.Total)
include hp

/-- The client seals a record: a step of its writing direction. -/
theorem World.protect_step (w : World) {c : Rfc.Carried} {s : Rfc.Half} (hfits : c.Fits)
    (hlen : c.content.length ≤ wnMaxPlaintext) (hnext : w.writeHalf.next p c = some s) :
    ∃ record, w.protect p c.type c.content = .ok record ∧ Rfc.SealStep p w.writeHalf ⟨c, 0, record⟩ s := by
  obtain ⟨record, hrec, hseal⟩ := protectRecord_total hp w.sess.writeKeys w.sess.cSeq c.type hlen
  exact ⟨record, hrec, hfits, hseal, hnext⟩

/-- `wn_Send` sends the data, or nothing. -/
theorem wnSend_moves {w : World} (hw : w.Ready) (data : Bytes) :
    (∃ record w', wnSend p data w = .ok () w' ∧ Moves p w [] [⟨.data data, 0, record⟩] w') ∨
      ∃ e, wnSend p data w = .error e w := by
  by_cases hbad : data.length > wnMaxPlaintext ∨ w.sess.scratchLen < wnSendOverhead ∨
      data.length > w.sess.scratchLen - wnSendOverhead
  · refine .inr ⟨.invalidArg, ?_⟩
    unfold wnSend
    rw [bind_of_ok (checkOpen_of hw.opened hw.established), bind_of_ok (get_apply w), failIf_pos hbad]
    rfl
  · simp only [not_or, Nat.not_lt] at hbad
    obtain ⟨record, hrec, hstep⟩ := w.protect_step hp (c := .data data) trivial hbad.1 rfl
    refine .inl ⟨record, w.afterSeal wnRecAppdata data record, ?_, ?_⟩
    · exact wnSend_of hw.opened hw.established hbad.1 (by omega) hrec hw.headD
    · exact ⟨.nil, .single hstep, rfl, w.sent_afterSeal _ _ _, rfl, by simp [Rfc.Carried.FromClient],
        ⟨hw.opened, hw.established, hw.digest, hw.room, hw.flowing, hw.sending.tail rfl⟩⟩

/-- A KeyUpdate moves the read keys on, and is answered if it asks for that. -/
theorem posthsKeyUpdate_moves {w : World} (hw : w.Ready) (req : UInt8) :
    ∃ t w' gave, Rfc.update p w.sess.readKeys = some t ∧ posthsKeyUpdate p req [] w = .ok () w' ∧
      w'.readHalf = ⟨t, 0⟩ ∧ Rfc.Seals p w.writeHalf gave w'.writeHalf ∧ w'.inbox = w.inbox ∧
      w'.sent = w.sent ++ gave.map (·.record) ∧ w'.Ready ∧
      gave.countP (·.carried.updates) = (if req = 1 then 1 else 0) ∧
      (∀ i ∈ gave, i.carried = .post [] (some 0)) := by
  obtain ⟨t, ht, hku⟩ := posthsKeyUpdate_eq hp.expands hw.digest req []
  rw [hku]
  by_cases hreq : req = 1
  · obtain ⟨keys, hkeys⟩ := Rfc.update_of hp.expands w.sess.writeKeys
    have hnext : w.writeHalf.next p (.post [] (some 0)) = some ⟨keys, 0⟩ := by
      simp [Rfc.Half.next, Rfc.Carried.updates, World.writeHalf, hkeys]
    obtain ⟨record, hrec, hstep⟩ := w.protect_step hp (c := .post [] (some 0)) (Rfc.Carried.fits_keyUpdate (by decide))
      (by decide) hnext
    have hrec : (w.rekeyRead t []).protect p wnRecHandshake (keyUpdateMsg 0) = .ok record := by
      rw [← hsMsg_keyUpdate]
      exact hrec
    have hsent : ((((w.rekeyRead t []).afterSeal wnRecHandshake (keyUpdateMsg 0) record).rekeyWrite keys)).sent =
        w.sent ++ [record] := by
      rw [World.sent_rekeyWrite, World.sent_afterSeal, World.sent_rekeyRead]
    have hreply := wnSessionSendKeyUpdate_of (w := w.rekeyRead t []) hw.digest hrec hw.headD hkeys
    rw [if_pos hreq, if_pos hreq, hreply]
    exact ⟨t, _, [⟨.post [] (some 0), 0, record⟩], ht, rfl, rfl, .single hstep, rfl, hsent,
      ⟨hw.opened, hw.established, hw.digest, hw.room, hw.flowing, hw.sending.tail rfl⟩, rfl, by simp⟩
  · rw [if_neg hreq, if_neg hreq]
    exact ⟨t, _, [], ht, rfl, rfl, .nil, rfl, by rw [World.sent_rekeyRead]; simp,
      ⟨hw.opened, hw.established, hw.digest, hw.room, hw.flowing, hw.sending⟩, rfl, by simp⟩

/-- The world with a record read and opened. -/
def World.readOn (w : World) (inbox : List Bytes) : World :=
  { w with inbox, sess := { w.sess with sSeq := w.sess.sSeq + 1 } }

omit hp in
theorem World.Ready.readOn {w : World} (hw : w.Ready) {inbox : List Bytes} (hin : [] ∉ inbox) :
    (w.readOn inbox).Ready :=
  ⟨hw.opened, hw.established, hw.digest, hw.room, hin, hw.sending⟩

/-- What a turn of `wn_Recv` ends with that opens such a record. -/
def turnOf : Rfc.Carried → Unit ⊕ RecvOut
  | .data m => .inr (.deliver m)
  | .post .. => .inl ()

/-- **A turn of `wn_Recv`** reads the record at the front, and answers it. -/
theorem recvStep_moves (hopen : p.OpensSealed) {w : World} (hw : w.Ready) {i : Rfc.Sent} {s : Rfc.Half}
    (h : Rfc.SealStep p w.readHalf i s) (hi : i.Within) {rest : Bytes} (hflat : w.inbox.flatten = i.record ++ rest)
    {outCap : Nat} (hcap : wnMaxPlaintext ≤ outCap) :
    ∃ w' gave, recvStep p outCap () w = .ok (turnOf i.carried) w' ∧ Moves p w [i] gave w' ∧
      Rfc.plaintexts gave = [] := by
  obtain ⟨-, hroom, hread⟩ := h.readsBack hi
  obtain ⟨inbox, hin, hrest, hrecv⟩ := hread w.sess.scratchLen w rest (Nat.le_trans hroom hw.room) hw.flowing hflat
  have hstep : recvStep p outCap () w = _ := recvStep_opened hrecv (by decide) (h.opens hp hopen)
  have hflow : w.inbox.flatten = ([i].map (·.record)).flatten ++ inbox.flatten := by
    rw [hflat, hrest]
    simp
  have hlen : i.carried.content.length ≤ wnMaxPlaintext := by
    unfold Rfc.Sent.Within at hi
    unfold wnMaxPlaintext
    omega
  have hready := hw.readOn hin
  have hquiet : i.carried.updates = false → i.carried.requests = false → Moves p w [i] [] (w.readOn inbox) := by
    intro hupdates hrequests
    have hs := h.keep hupdates
    subst hs
    exact ⟨.single h, .nil, hflow, (List.append_nil _).symm, by simp [hrequests], by simp, hready⟩
  rw [hstep]
  obtain ⟨carried, pad, record⟩ := i
  cases carried with
  | data m => exact ⟨w.readOn inbox, [], recvContent_data (Nat.le_trans hlen hcap) _, hquiet rfl rfl, rfl⟩
  | post tickets update =>
    have hs : (Rfc.Carried.post tickets update).content.length < 2 ^ 31 := by
      unfold wnMaxPlaintext at hlen
      exact Nat.lt_of_le_of_lt hlen (by decide)
    have hcontent := wnSessionPosths_content (p := p) h.fits hs (w.readOn inbox)
    cases update with
    | none => exact ⟨w.readOn inbox, [], recvContent_post hcontent, hquiet rfl rfl, rfl⟩
    | some req =>
      obtain ⟨t, w', gave, ht, hku, hread, hwrite, hinbox, hsent, hready', hcount, hanswers⟩ :=
        posthsKeyUpdate_moves hp hready req
      obtain ⟨t', ht', rfl⟩ := h.update rfl
      obtain rfl : t = t' := Option.some.inj (ht.symm.trans ht')
      refine ⟨w', gave, recvContent_post (hcontent.trans hku), ⟨?_, hwrite, ?_, hsent, ?_, ?_, hready'⟩, ?_⟩
      · rw [hread]
        exact .single h
      · rw [hinbox]
        exact hflow
      · rw [hcount]
        by_cases hreq : req = 1 <;> simp [Rfc.Carried.requests, hreq]
      · intro i hi
        rw [hanswers i hi]
        exact ⟨rfl, rfl⟩
      · exact List.filterMap_eq_nil_iff.2 fun i hi => by rw [hanswers i hi]; rfl

/-- How far a `wn_Recv` loop gets with these records of the peer's at the front of
the stream: to the data of the first that has some, or past them all with so
many turns done. -/
theorem recvLoop_ahead (hopen : p.OpensSealed) {outCap : Nat} (hcap : wnMaxPlaintext ≤ outCap) {tail : Bytes} :
    ∀ (pending : List Rfc.Sent) (n : Nat) (w : World) (s : Rfc.Half), w.Ready → Rfc.Seals p w.readHalf pending s →
      (∀ i ∈ pending, i.Within) → w.inbox.flatten = (pending.map (·.record)).flatten ++ tail → pending.length ≤ n →
      ∃ got rest gave w', pending = got ++ rest ∧ Moves p w got gave w' ∧ Rfc.plaintexts gave = [] ∧
        ((∃ m, Rfc.plaintexts got = [m] ∧ repeatM .crypto (recvStep p outCap) n () w = .ok (.deliver m) w') ∨
          Rfc.plaintexts got = [] ∧ rest = [] ∧ repeatM .crypto (recvStep p outCap) n () w =
            repeatM .crypto (recvStep p outCap) (n - pending.length) () w')
  | [], n, w, s, hw, _, _, hflat, _ => by
    refine ⟨[], [], [], w, rfl, ?_, rfl, .inr ⟨rfl, rfl, rfl⟩⟩
    exact ⟨.nil, .nil, rfl, (List.append_nil _).symm, rfl, by simp, hw⟩
  | i :: pending, n + 1, w, s, hw, hseals, hwithin, hflat, hn => by
    obtain ⟨hi, hwithin⟩ := List.forall_mem_cons.1 hwithin
    cases hseals with
    | @cons _ u _ _ _ hstep hseals =>
      have hfront : w.inbox.flatten = i.record ++ ((pending.map (·.record)).flatten ++ tail) := by
        rw [hflat, List.map_cons, List.flatten_cons, List.append_assoc]
      obtain ⟨w₁, gave, hturn, hmoves, hnone⟩ := recvStep_moves hp hopen hw hstep hi hfront hcap
      have hat : w₁.readHalf = u := hmoves.read.unique (.single hstep)
      have hflat₁ : w₁.inbox.flatten = (pending.map (·.record)).flatten ++ tail := by
        have hinbox := hmoves.inbox
        rw [hfront] at hinbox
        simpa using hinbox.symm
      cases hc : i.carried with
      | data m =>
        rw [hc] at hturn
        refine ⟨[i], pending, gave, w₁, rfl, hmoves, hnone, .inl ⟨m, ?_, repeatM_done hturn⟩⟩
        simp [Rfc.plaintexts, hc, Rfc.Carried.data?]
      | post tickets update =>
        rw [hc] at hturn
        have hskip : Rfc.plaintexts [i] = [] := by simp [Rfc.plaintexts, hc, Rfc.Carried.data?]
        obtain ⟨got, rest, gave', w', rfl, hmoves', hnone', hend⟩ := recvLoop_ahead hopen hcap pending n w₁ s
          hmoves.ready (by rw [hat]; exact hseals) hwithin hflat₁ (by simpa using hn)
        have hgot : Rfc.plaintexts (i :: got) = Rfc.plaintexts got := by
          rw [← List.singleton_append, Rfc.plaintexts_append, hskip, List.nil_append]
        refine ⟨i :: got, rest, gave ++ gave', w', rfl, hmoves.trans hmoves', ?_, ?_⟩
        · rw [Rfc.plaintexts_append, hnone, hnone']
          rfl
        · rw [repeatM_continue hturn, hgot, List.length_cons, Nat.add_sub_add_right]
          exact hend

/-- How a `wn_Recv` loop ends that has got these records, with `rest` in
flight: with the data of the last, or where nothing is left. -/
def LoopEnd (got rest : List Rfc.Sent) (w' : World) (r : EStateM.Result Err World RecvOut) : Prop :=
  (∃ m, Rfc.plaintexts got = [m] ∧ r = .ok (.deliver m) w') ∨
    Rfc.plaintexts got = [] ∧ rest = [] ∧ r = .error .crypto w'

theorem recvLoop_moves (hopen : p.OpensSealed) {outCap : Nat} (hcap : wnMaxPlaintext ≤ outCap)
    (pending : List Rfc.Sent) (n : Nat) (w : World) (s : Rfc.Half) (hw : w.Ready)
    (hseals : Rfc.Seals p w.readHalf pending s) (hwithin : ∀ i ∈ pending, i.Within)
    (hflat : w.inbox.flatten = (pending.map (·.record)).flatten) (hn : pending.length < n) :
    ∃ got rest gave w', pending = got ++ rest ∧ Moves p w got gave w' ∧ Rfc.plaintexts gave = [] ∧
      LoopEnd got rest w' (repeatM .crypto (recvStep p outCap) n () w) := by
  obtain ⟨got, rest, gave, w', rfl, hmoves, hnone, hend⟩ := recvLoop_ahead hp hopen hcap pending n w s hw hseals
    hwithin (by rw [hflat, List.append_nil]) (Nat.le_of_lt hn)
  rcases hend with ⟨m, hm, hr⟩ | ⟨hm, rfl, hr⟩
  · exact ⟨got, rest, gave, w', rfl, hmoves, hnone, .inl ⟨m, hm, hr⟩⟩
  · -- Nothing is left, so the next turn finds the end of the stream.
    have hempty : w'.inbox.flatten = [] := by
      have hinbox := hmoves.inbox
      rw [hflat, List.append_nil] at hinbox
      simpa using hinbox
    have hstop : recvStep p outCap () w' = .error .crypto { w' with inbox := [] } := by
      unfold recvStep
      rw [bind_of_ok (get_apply w')]
      exact bind_of_error (wnRecvRecord_end hmoves.ready.flowing hempty)
    obtain ⟨k, hk⟩ : ∃ k, n - (got ++ []).length = k + 1 := ⟨n - (got ++ []).length - 1, by omega⟩
    refine ⟨got, [], gave, { w' with inbox := [] }, rfl, ?_, hnone, .inr ⟨hm, rfl, ?_⟩⟩
    · exact { hmoves with
        inbox := by rw [hmoves.inbox, hempty]; rfl
        ready := { hmoves.ready with flowing := by simp [World.Flowing] } }
    · rw [hr, hk]
      exact repeatM_error hstop

/-- How such a `wn_Recv` call ends. -/
def RecvEnd (got rest : List Rfc.Sent) (w' : World) (r : EStateM.Result Err World Bytes) : Prop :=
  (∃ m, Rfc.plaintexts got = [m] ∧ r = .ok m w') ∨ Rfc.plaintexts got = [] ∧ rest = [] ∧ r = .error .crypto w'

/-- **`wn_Recv`** reads what is in flight, in order, up to the first data. -/
theorem wnRecv_moves (hopen : p.OpensSealed) {outCap : Nat} (hcap : wnMaxPlaintext ≤ outCap) {pending : List Rfc.Sent}
    {w : World} {s : Rfc.Half} (hw : w.Ready) (hseals : Rfc.Seals p w.readHalf pending s)
    (hwithin : ∀ i ∈ pending, i.Within) (hflat : w.inbox.flatten = (pending.map (·.record)).flatten) :
    ∃ got rest gave w', pending = got ++ rest ∧ Moves p w got gave w' ∧ Rfc.plaintexts gave = [] ∧
      RecvEnd got rest w' (wnRecv p outCap w) := by
  have hfuel : pending.length < w.pending + 1 := by
    rw [World.pending, hflat]
    exact Nat.lt_succ_of_le (hseals.length_le hwithin)
  obtain ⟨got, rest, gave, w', hsplit, hmoves, hnone, hend⟩ :=
    recvLoop_moves hp hopen hcap pending (w.pending + 1) w s hw hseals hwithin hflat hfuel
  refine ⟨got, rest, gave, w', hsplit, hmoves, hnone, ?_⟩
  have hloop : recvLoop p outCap w = _ := recvLoop_of hw.opened hw.established
  rw [← hloop] at hend
  unfold wnRecv
  rcases hend with ⟨m, hm, hr⟩ | ⟨hm, hrest, hr⟩
  · exact .inl ⟨m, hm, by rw [bind_of_ok hr]; rfl⟩
  · exact .inr ⟨hm, hrest, bind_of_error hr⟩

end Calls

end WolfNano

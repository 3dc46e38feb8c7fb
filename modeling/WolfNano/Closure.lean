/-
The end of a connection against an active network: `closed_complete`.

The peer's writing direction over its whole life is a run of records and maybe
an alert after the last (`Rfc.Writer`). The network may drop, repeat, reorder
and cut what it likes; with an AEAD that opens only what the peer sealed, a
call answers `WOLFNANO_E_CLOSED` only if that alert is a close_notify, and by
then every byte the peer sent before it has been returned.
-/
import WolfNano.StreamIntegrity
import WolfNano.FatalErrors
import WolfNano.Client
import Mathlib.Data.List.Induction

namespace WolfNano

open Prog Wire

variable {cfg : Config} {p : Provider cfg}

/-! ## The peer's writing direction -/

namespace Rfc

/-- An alert (6): its content, its padding, its bytes. -/
structure Alert where
  content : Bytes
  pad : Nat
  record : Bytes

/-- It has two bytes, and the second is close_notify's. The level is not
looked at (6). -/
def Alert.Closes (a : Alert) : Prop := 2 ≤ a.content.length ∧ a.content.getD 1 0 = 0

instance (a : Alert) : Decidable a.Closes := inferInstanceAs (Decidable (_ ∧ _))

/-- All that is ever sealed in a direction: the records, and an alert after
which nothing follows. -/
structure Writer (p : Provider cfg) (server : TrafficKeys) where
  items : List Sent
  half : Half
  seals : Seals p ⟨server, 0⟩ items half
  last : Option Alert
  sealedLast : ∀ a ∈ last, sealRecord p half.keys half.seq.toNat 21 a.content a.pad = some a.record

namespace Writer

variable {server : TrafficKeys} (v : Writer p server)

/-- The alert is this record of this plaintext, under the key and nonce. -/
def SealedLast (key : Block 16) (n : Block 12) (record plain : Bytes) : Prop :=
  ∃ a ∈ v.last, v.half.keys.key = key ∧ nonce v.half.keys.iv v.half.seq.toNat = n ∧ a.record = record ∧
    inner 21 a.content a.pad = plain

/-- An ideal AEAD: what opens under the peer's keys is one of its records, or
its alert. -/
def Ideal : Prop :=
  ∀ g ≤ generations v.items, ∀ t, generation p server g = some t → ∀ n hdr ct tag plain,
    p.aesGcmDecrypt t.key n hdr ct tag = some plain →
      SealedAs p server v.items t.key n (hdr ++ ct ++ tag) plain.val ∨
        v.SealedLast t.key n (hdr ++ ct ++ tag) plain.val

/-- Sequence numbers do not wrap, the alert's included. -/
def Few : Prop :=
  ∀ mid, mid <:+: v.items → (∀ i ∈ mid.dropLast, i.carried.updates = false) → mid.length + 1 < 2 ^ 64

variable {v}

theorem Few.fewPerKey (h : v.Few) : FewPerKey v.items := fun mid hmid hnone => by
  have := h mid hmid hnone
  omega

/-- No record is sealed after the alert's number. -/
theorem Few.silent (hfew : v.Few) (hdistinct : DistinctKeys p server v.items) {pre : List Sent} {s : Half}
    (hpre : pre <+: v.items) (h : Seals p ⟨server, 0⟩ pre s) (hkey : s.keys.key = v.half.keys.key) :
    s.seq ≠ v.half.seq + 1 := by
  intro hseq
  obtain ⟨mid, hmid⟩ := hpre
  obtain ⟨hnone, hhalf⟩ := h.between hdistinct ⟨[], (List.append_nil _).trans hmid⟩
    (by rw [hmid]; exact v.seals) hkey
  have hlt : mid.length + 1 < 2 ^ 64 := by
    refine hfew mid ?_ fun i hi => hnone i (List.dropLast_subset _ hi)
    rw [← hmid]
    exact (List.suffix_append pre mid).isInfix
  have hzero : UInt64.ofNat (mid.length + 1) = 0 := by
    rw [hhalf, UInt64.add_assoc] at hseq
    have hsum : UInt64.ofNat mid.length + 1 = 0 := by simpa using hseq.symm
    simpa using hsum
  have hlen := congrArg UInt64.toNat hzero
  rw [UInt64.toNat_ofNat_of_lt' hlt] at hlen
  simp at hlen

end Writer

end Rfc

section Ideal

variable {server : TrafficKeys} {v : Rfc.Writer p server} (hideal : v.Ideal)
  (hdistinct : Rfc.DistinctKeys p server v.items)
include hideal hdistinct

/-- A record that opens is one the peer sealed there, or its alert. -/
theorem opened_until {g : Nat} (hg : g ≤ Rfc.generations v.items) {t : TrafficKeys}
    (ht : Rfc.generation p server g = some t) {seq : UInt64} {type : UInt8} {record content : Bytes}
    (hopen : wnRecordUnprotect p t.key t.iv seq record = .ok (type, content)) :
    (∃ pre i rest, v.items = pre ++ i :: rest ∧ Rfc.Seals p ⟨server, 0⟩ pre ⟨t, seq⟩ ∧ i.carried.type = type ∧
      i.carried.content = content) ∨
    ∃ a ∈ v.last, v.half = ⟨t, seq⟩ ∧ type = wnRecAlert ∧ content = a.content := by
  obtain ⟨hdr, ct, tag, pad, rfl, -, htag, htype, hdec⟩ := wnRecordUnprotect_ok p hopen
  rw [decrypted, Option.map_eq_some_iff] at hdec
  obtain ⟨plain, hdec, hplain⟩ := hdec
  have hsealed := hideal g hg t ht _ _ _ _ _ hdec
  rw [hplain] at hsealed
  rcases hsealed with hsealed | ⟨a, ha, hkey, hnonce, -, hinner⟩
  · exact .inl (hsealed.position hdistinct hg ht htype)
  · have hkeys : v.half.keys = t := by
      have hgen := v.seals.generations
      rw [hdistinct _ (Nat.le_refl _) _ hg _ _ hgen ht hkey, ht] at hgen
      exact (Option.some.inj hgen).symm
    have hseq : v.half.seq = seq := by
      rw [hkeys] at hnonce
      exact UInt64.toNat_inj.1 (Rfc.nonce_inj v.half.seq.toNat_lt seq.toNat_lt hnonce)
    have hcontent := innerContent_inner (show (21 : UInt8) ≠ 0 by decide) a.content a.pad
    rw [hinner, innerContent_inner htype] at hcontent
    cases hcontent
    exact .inr ⟨a, ha, by rw [← hkeys, ← hseq], rfl, rfl⟩

end Ideal

/-! ## What the client opens -/

/-- The client has opened the peer's alert. -/
structure HeardOut {server : TrafficKeys} (v : Rfc.Writer p server) (acts : List Act) (x : World × Bytes) : Prop where
  data : dataOf acts = Rfc.plaintexts v.items
  unread : x.2 = []
  past : x.1.readHalf = ⟨v.half.keys, v.half.seq + 1⟩

/-- It has opened the peer's first records, or all of them and the alert. -/
def Hears {server : TrafficKeys} (v : Rfc.Writer p server) (acts : List Act) (x : World × Bytes) : Prop :=
  InOrder p server v.items acts x ∨ HeardOut v acts x

section Run

variable {server : TrafficKeys} {v : Rfc.Writer p server} (hfew : v.Few) (hideal : v.Ideal)
  (hdistinct : Rfc.DistinctKeys p server v.items)
include hfew hideal hdistinct

/-- After the alert nothing opens. -/
theorem HeardOut.silent {acts : List Act} {x : World × Bytes} (h : HeardOut v acts x) {record content : Bytes}
    {type : UInt8} :
    wnRecordUnprotect p x.1.sess.sKey x.1.sess.sIv x.1.sess.sSeq record ≠ .ok (type, content) := by
  intro hopen
  have hkeys : x.1.sess.readKeys = v.half.keys := congrArg Rfc.Half.keys h.past
  have hseq : x.1.sess.sSeq = v.half.seq + 1 := congrArg Rfc.Half.seq h.past
  have hgen := v.seals.generations
  rw [← hkeys] at hgen
  rcases opened_until hideal hdistinct (Nat.le_refl _) hgen hopen with ⟨pre, i, rest, hitems, hat, -⟩ | ⟨a, -, hhalf, -⟩
  · exact hfew.silent hdistinct ⟨i :: rest, hitems.symm⟩ hat (by rw [← hkeys]) hseq
  · have hwrap : v.half.seq = v.half.seq + 1 := by
      conv => lhs; rw [hhalf]
      exact hseq
    simp at hwrap

omit hideal in
/-- The alert opens where the peer sealed it: after all its records. -/
theorem InOrder.alert {acts : List Act} {w : World} {q : Bytes} (h : InOrder p server v.items acts (w, q))
    (hhalf : v.half = w.readHalf) : dataOf acts = Rfc.plaintexts v.items := by
  obtain ⟨done, hpre, hfollows, hdata⟩ := h
  cases hfollows with
  | upToDate hdone hfits =>
    rw [hdata, hdone.position hdistinct hfew.fewPerKey hpre List.prefix_rfl v.seals (by rw [hhalf]) (by rw [hhalf])]
  | @behind done i s₀ s₁ _ tickets req hdone hstep hi hread hfits =>
    -- The old keys' next number is not where a writer ends that has moved on.
    rw [hread] at hhalf
    exact absurd (congrArg Rfc.Half.seq hhalf)
      (hdone.passed hdistinct hfew.fewPerKey hi hpre List.prefix_rfl v.seals (by rw [hhalf]))

/-- Every act keeps it. -/
theorem Hears.step {acts : List Act} {x y : World × Bytes} {a : Act} (h : Hears v acts x) (hstep : SessStep p x a y) :
    Hears v (acts ++ [a]) y := by
  rcases h with h | h
  · by_cases hopened : ∃ record type content, a = .opened record type content
    · obtain ⟨record, type, content, rfl⟩ := hopened
      have horder := h
      obtain ⟨done, hpre, hfollows, -⟩ := horder
      obtain ⟨g, hg, hgen⟩ := hfollows.generation hpre
      rcases opened_until hideal hdistinct hg hgen hstep.opens with hsealed | ⟨alert, -, hhalf, rfl, rfl⟩
      · refine .inl (h.step_at hdistinct hfew.fewPerKey v.seals hstep fun _ _ _ heq => ?_)
        cases heq
        exact hsealed
      · have hall := h.alert hfew hdistinct hhalf
        cases hstep with
        | opened hread hopen => exact .inr ⟨by rw [dataOf_append, hall]; exact List.append_nil _, rfl, by rw [hhalf]; rfl⟩
    · exact .inl (h.step_at hdistinct hfew.fewPerKey v.seals hstep fun record type content heq =>
        absurd ⟨record, type, content, heq⟩ hopened)
  · obtain ⟨hdata, hunread, hpast⟩ := h
    have hkeep : ∀ {w' : World} {q : Bytes}, q = [] → w'.readHalf = x.1.readHalf → dataOf [a] = [] →
        Hears v (acts ++ [a]) (w', q) := by
      intro w' q hq hread hnone
      exact .inr ⟨by rw [dataOf_append, hnone, List.append_nil, hdata], hq, hread.trans hpast⟩
    cases hstep with
    | sent => exact hkeep hunread rfl rfl
    | replied => exact hkeep hunread rfl rfl
    | replyCut => exact hkeep hunread rfl rfl
    | unsealed => exact hkeep hunread rfl rfl
    | skipped h => exact hkeep hunread (by rw [h.frame]; rfl) rfl
    | shut => exact hkeep hunread rfl rfl
    | opened hread hopen => exact absurd hopen (HeardOut.silent hfew hideal hdistinct ⟨hdata, hunread, hpast⟩)
    | ticket => cases hunread
    | keyUpdate => cases hunread

/-- So every run does. -/
theorem SessRun.hears {acts : List Act} {x y : World × Bytes} (hrun : SessRun p x acts y) (h : Hears v [] x) :
    Hears v acts y := by
  have hend := hrun.history (I := Hears v) (fun hi hs => hi.step hfew hideal hdistinct hs) h
  rwa [List.nil_append] at hend

end Run

/-- At the start nothing is opened. -/
theorem Hears.start {server client : TrafficKeys} (v : Rfc.Writer p server) {io : Transport} {w : World}
    (hw : w.sess = .established io client server) : Hears v [] (w, []) := by
  have hread : w.readHalf = ⟨server, 0⟩ := by
    rw [World.readHalf, hw]
    rfl
  exact .inl ⟨[], List.nil_prefix, .whole (by rw [hread]; exact .nil), rfl⟩

theorem Hears.in_order {server : TrafficKeys} {v : Rfc.Writer p server} {acts : List Act} {x : World × Bytes}
    (h : Hears v acts x) : dataOf acts <+: Rfc.plaintexts v.items := by
  rcases h with ⟨done, ⟨rest, hrest⟩, -, hdata⟩ | h
  · rw [hdata, ← hrest, Rfc.plaintexts_append]
    exact List.prefix_append _ _
  · exact h.data ▸ List.prefix_rfl

/-! ## `WOLFNANO_E_CLOSED` -/

theorem checkOpen_closed {w w' : World} (h : checkOpen w = .error .closed w') : w.sess.Closed := by
  unfold checkOpen at h
  rw [bind_of_ok (get_apply w)] at h
  rcases bind_error.1 h with h | ⟨_, _, -, h⟩
  · exact (failIf_error.1 h).1
  · cases (failIf_error.1 h).2.1

/-- A turn of `wn_Recv` ends so only on an alert whose second byte is 0. -/
theorem recvStep_closed {outCap : Nat} {w w' : World} (h : recvStep p outCap () w = .error .closed w') :
    ∃ rtype record w₁ content, wnRecvRecord w.sess.scratchLen w = .ok (rtype, record) w₁ ∧
      wnRecordUnprotect p w.sess.sKey w.sess.sIv w.sess.sSeq record = .ok (wnRecAlert, content) ∧
      2 ≤ content.length ∧ content.getD 1 0 = 0 := by
  unfold recvStep at h
  rw [bind_of_ok (get_apply w)] at h
  rcases bind_error.1 h with h | ⟨⟨rtype, record⟩, w₁, hread, h⟩
  · exact absurd rfl (wnRecvRecord_notClosed _ h)
  rcases bind_error.1 h with h | ⟨_, w₂, hccs, h⟩
  · cases (failIf_error.1 h).2.1
  obtain ⟨-, rfl⟩ := failIf_ok.1 hccs
  rcases bind_error.1 h with h | ⟨⟨ctype, content⟩, w₃, hun, h⟩
  · exact absurd rfl (wnRecordUnprotect_notClosed (ofExcept_eq_error.1 h).1)
  have hopen := (ofExcept_eq_ok.1 hun).1
  rcases bind_error.1 h with h | ⟨_, w₄, -, h⟩
  · cases h
  refine ⟨rtype, record, w₁, content, hread, ?_⟩
  unfold recvContent at h
  by_cases hdata : ctype = wnRecAppdata
  · rw [if_pos hdata] at h
    cases h
  rw [if_neg hdata] at h
  by_cases hhs : ctype = wnRecHandshake
  · rw [if_pos hhs] at h
    rcases bind_error.1 h with h | ⟨_, _, -, h⟩
    · exact absurd rfl (wnSessionPosths_notClosed content h)
    · cases h
  rw [if_neg hhs] at h
  by_cases halert : ctype = wnRecAlert
  · rw [if_pos halert] at h
    by_cases hclose : content.length ≥ 2 ∧ content.getD 1 0 = 0
    · exact ⟨by rw [← halert]; exact hopen, hclose⟩
    · rw [if_neg hclose] at h
      cases h
  · rw [if_neg halert] at h
    cases h

/-- A `wn_Recv` that ends so has had no data, and opened such an alert last. -/
theorem wnRecv_closed_run (hx : p.Expands) {outCap : Nat} {w w' : World} (q : Bytes) (hd : w.sess.digest = .sha256)
    (hopen : ¬ w.sess.Closed) (h : wnRecv p outCap w = .error .closed w') :
    ∃ acts w₁ q₁ record content, SessRun p (w, q) acts (w₁, q₁) ∧ dataOf acts = [] ∧
      wnRecordUnprotect p w₁.sess.sKey w₁.sess.sIv w₁.sess.sSeq record = .ok (wnRecAlert, content) ∧
      2 ≤ content.length ∧ content.getD 1 0 = 0 := by
  have hloop : recvLoop p outCap w = .error .closed w' := by
    unfold wnRecv at h
    rcases bind_error.1 h with h | ⟨out, w₁, -, h⟩
    · exact h
    · cases out <;> cases h
  have hest : w.sess.Established := by
    rcases checkOpen_cases w with ⟨-, -, hest⟩ | ⟨e, herr⟩
    · exact hest
    · unfold recvLoop at hloop
      rw [bind_of_error herr] at hloop
      cases hloop
      exact absurd (checkOpen_closed herr) hopen
  rw [recvLoop_of hopen hest] at hloop
  obtain ⟨_, w₁, ⟨acts, q₁, hrun, hnone, -⟩, hlast | ⟨hout, -⟩⟩ := repeatM_fails
    (I := fun _ s => ∃ acts q', SessRun p (w, q) acts (s, q') ∧ dataOf acts = [] ∧ s.sess.digest = .sha256)
    (fun {_ s _ t} hi hturn => by
      obtain ⟨acts, q', hrun, hnone, hd⟩ := hi
      obtain ⟨acts', q'', hrun', hacts⟩ := recvStep_run hx outCap hd q'
      rw [hturn] at hrun' hacts
      exact ⟨acts ++ acts', q'', hrun.append hrun', by rw [dataOf_append, hnone, hacts.1]; rfl,
        hrun'.same.digest.trans hd⟩)
    ⟨[], q, .nil, rfl, hd⟩ hloop
  · obtain ⟨rtype, record, w₂, content, -, hopens, hclose⟩ := recvStep_closed hlast
    exact ⟨acts, w₁, q₁, record, content, hrun, hnone, hopens, hclose⟩
  · cases hout

/-! ## Calls -/

theorem callsAfter_append (w : World) (calls calls' : List Call) :
    callsAfter p w (calls ++ calls') = callsAfter p (callsAfter p w calls) calls' :=
  List.foldl_append

/-- A session that `wn_Close` has wiped stays wiped. -/
theorem callsAfter_zero (calls : List Call) {w : World} (h : w.sess = .zero) :
    (callsAfter p w calls).sess = .zero := by
  induction calls generalizing w with
  | nil => exact h
  | cons call calls ih =>
    refine ih (w := call.after p w) ?_
    have hshut : w.sess.Shut := by
      rw [h]
      exact Session.zero_shut
    cases call with
    | send data =>
      obtain ⟨e, herr⟩ := hshut.send (p := p) data
      rw [Call.after, herr]
      exact h
    | recv outCap =>
      obtain ⟨e, herr⟩ := hshut.recv (p := p) outCap
      rw [Call.after, herr]
      exact h
    | close => exact wnClose_sess w

/-- So it is not one that received close_notify. -/
theorem callsAfter_close {w : World} {calls : List Call} (h : (callsAfter p w calls).sess.Closed) :
    Call.close ∉ calls := by
  intro hmem
  obtain ⟨pre, post, rfl⟩ := List.append_of_mem hmem
  rw [callsAfter_append] at h
  have hzero : (callsAfter p (callsAfter p w pre) (.close :: post)).sess = .zero :=
    callsAfter_zero post (w := Call.close.after p _) (wnClose_sess _)
  rw [hzero] at h
  exact absurd h (by decide)

/-- One of the calls was rejected since its `outCap` was too small. -/
def SmallAmong (p : Provider cfg) (w : World) (calls : List Call) : Prop :=
  ∃ pre outCap post, calls = pre ++ .recv outCap :: post ∧ TooSmall p outCap (callsAfter p w pre)

theorem SmallAmong.append {w : World} {calls : List Call} (h : SmallAmong p w calls) (calls' : List Call) :
    SmallAmong p w (calls ++ calls') := by
  obtain ⟨pre, outCap, post, rfl, hsmall⟩ := h
  exact ⟨pre, outCap, post ++ calls', by simp, hsmall⟩

theorem SmallAmong.cons {w : World} {call : Call} {calls : List Call} (h : SmallAmong p (call.after p w) calls) :
    SmallAmong p w (call :: calls) := by
  obtain ⟨pre, outCap, post, rfl, hsmall⟩ := h
  exact ⟨call :: pre, outCap, post, rfl, hsmall⟩

/-- If none was, what the calls return is what they return one after the other. -/
theorem received_append (calls calls' : List Call) : ∀ {w : World}, ¬ SmallAmong p w calls →
    received p w (calls ++ calls') = received p w calls ++ received p (callsAfter p w calls) calls' := by
  induction calls with
  | nil => exact fun _ => rfl
  | cons call calls ih =>
    intro w hsmall
    have hrest := ih (w := call.after p w) fun h => hsmall h.cons
    cases call with
    | send data => exact hrest
    | close => exact hrest
    | recv outCap =>
      have hroom : ¬ TooSmall p outCap w := fun h => hsmall ⟨[], outCap, calls, rfl, h⟩
      rw [Call.after] at hrest
      rw [List.cons_append, received, received]
      show _ = _ ++ received p (callsAfter p (endState (wnRecv p outCap w)) calls) calls'
      cases hr : wnRecv p outCap w with
      | ok m w' =>
        rw [hr] at hrest
        simp only [endState_ok] at hrest ⊢
        rw [hrest, List.cons_append]
      | error e w' =>
        rw [hr] at hrest
        simp only [endState_error, if_neg hroom] at hrest ⊢
        exact hrest

/-- **Calls are a run**, to the world they leave, if none of them was rejected so. -/
theorem calls_received (hx : p.Expands) (calls : List Call) : ∀ (w : World) (q : Bytes), Call.close ∉ calls →
    w.sess.digest = .sha256 → ¬ SmallAmong p w calls →
    ∃ acts q', SessRun p (w, q) acts (callsAfter p w calls, q') ∧ dataOf acts = received p w calls := by
  induction calls with
  | nil => exact fun w q _ _ _ => ⟨[], q, .nil, rfl⟩
  | cons call calls ih =>
    intro w q hclose hd hsmall
    have hgo : ∀ {acts : List Act} {q' : Bytes} {ms : List Bytes}, SessRun p (w, q) acts (call.after p w, q') →
        dataOf acts = ms → ∃ acts q₁, SessRun p (w, q) acts (callsAfter p (call.after p w) calls, q₁) ∧
          dataOf acts = ms ++ received p (call.after p w) calls := by
      intro acts q' ms hrun hdata
      obtain ⟨acts', q₁, hrun', hdata'⟩ := ih (call.after p w) q' (fun h => hclose (List.mem_cons_of_mem _ h))
        (hrun.same.digest.trans hd) fun h => hsmall h.cons
      exact ⟨acts ++ acts', q₁, hrun.append hrun', by rw [dataOf_append, hdata, hdata']⟩
    cases call with
    | close => exact absurd List.mem_cons_self hclose
    | send data =>
      obtain ⟨acts, hrun, hacts⟩ := wnSend_run (p := p) data w q
      exact hgo hrun hacts.noData
    | recv outCap =>
      have hroom : ¬ TooSmall p outCap w := fun h => hsmall ⟨[], outCap, calls, rfl, h⟩
      simp only [Call.after] at hgo
      rw [received]
      cases hr : wnRecv p outCap w with
      | ok m w' =>
        obtain ⟨acts, q', hrun, hacts⟩ := wnRecv_run hx outCap w q fun _ => hd
        rw [hr] at hrun hacts hgo
        have hcalls : callsAfter p w (.recv outCap :: calls) = callsAfter p w' calls := by
          show callsAfter p (endState (wnRecv p outCap w)) calls = _
          rw [hr]
          rfl
        rw [hcalls]
        exact hgo hrun hacts
      | error e w' =>
        obtain ⟨acts, q', hrun, hdata⟩ := wnRecv_error_run hx q (fun _ => hd) hr hroom
        rw [hr] at hgo
        have hcalls : callsAfter p w (.recv outCap :: calls) = callsAfter p w' calls := by
          show callsAfter p (endState (wnRecv p outCap w)) calls = _
          rw [hr]
          rfl
        rw [hcalls]
        simp only [if_neg hroom]
        exact hgo hrun hdata

/-! ## Who says so -/

theorem wnSend_flags {w : World} (hopen : ¬ w.sess.Closed) (data : Bytes) :
    ¬ (endState (wnSend p data w)).sess.Closed := by
  obtain ⟨acts, hrun, hacts⟩ := wnSend_run (p := p) data w []
  have hkeep : Act.shut ∉ acts := by
    intro hmem
    cases hr : wnSend p data w with
    | ok _ _ =>
      rw [hr] at hacts
      obtain ⟨record, rfl⟩ := hacts
      simp at hmem
    | error _ _ =>
      rw [hr] at hacts
      rcases hacts with rfl | rfl | ⟨record, rfl⟩ <;> simp at hmem
  have hflags : (endState (wnSend p data w)).sess.flags = w.sess.flags := hrun.flags hkeep
  simpa only [Session.Closed, hflags] using hopen

theorem wnSend_notClosed {w w' : World} {data : Bytes} (hopen : ¬ w.sess.Closed) :
    wnSend p data w ≠ .error .closed w' := by
  intro h
  unfold wnSend at h
  rcases bind_error.1 h with h | ⟨_, w₁, -, h⟩
  · exact hopen (checkOpen_closed h)
  have hrest : ∀ s : Session, Fails NotClosed (do
      failIf (data.length > wnMaxPlaintext ∨ s.scratchLen < wnSendOverhead ∨
        data.length > s.scratchLen - wnSendOverhead) .invalidArg
      let record ← wnRecordProtect p s.cKey s.cIv s.cSeq wnRecAppdata data
      setSess { s with cSeq := s.cSeq + 1 }
      let sent ← ioSend record
      failIf (sent = false) .crypto : Io Unit) := fun s =>
    .bind (.failIf _ (by simp [NotClosed])) fun _ => .bind (wnRecordProtect_notClosed _ _ _ _ _) fun _ =>
      .bind (.modify _) fun _ => .bind (ioSend_notClosed _) fun _ => .failIf _ (by simp [NotClosed])
  rw [bind_of_ok (get_apply w₁)] at h
  exact hrest _ h rfl

theorem wnClose_notClosed {w w' : World} : wnClose p w ≠ .error .closed w' := by
  intro h
  unfold wnClose at h
  rcases bind_error.1 h with h | ⟨_, _, -, h⟩
  · rw [tryCatch_apply] at h
    cases hs : sendCloseNotify p w with
    | ok _ _ =>
      rw [hs] at h
      cases h
    | error e w₁ =>
      rw [hs] at h
      cases h
      unfold sendCloseNotify at hs
      rw [bind_of_ok (get_apply w)] at hs
      split at hs
      · rcases bind_error.1 hs with hs | ⟨_, _, -, hs⟩
        · exact absurd rfl (wnRecordProtect_notClosed _ _ _ _ _ hs)
        · cases hs
      · cases hs
  · cases h

/-- A `wn_Recv` that returns data leaves the session open. -/
theorem wnRecv_ok_flags (hx : p.Expands) {outCap : Nat} {w w' : World} {m : Bytes} (hopen : ¬ w.sess.Closed)
    (hest : w.sess.Established) (hd : w.sess.digest = .sha256) (h : wnRecv p outCap w = .ok m w') :
    w'.sess.flags = w.sess.flags := by
  unfold wnRecv at h
  obtain ⟨out, w₁, hloop, h⟩ := bind_ok.1 h
  obtain rfl : w₁ = w' := by
    cases out <;> cases h
    rfl
  rw [recvLoop_of hopen hest] at hloop
  obtain ⟨_, t, hi, hlast⟩ := repeatM_ok (I := fun _ s => s.sess.flags = w.sess.flags ∧ s.sess.digest = .sha256)
    (fun {_ s _ t} hi hturn => by
      obtain ⟨acts, q', hrun, -⟩ := recvStep_run hx outCap hi.2 []
      have hstep := recvStep_flags hx outCap hi.2
      rw [hturn] at hrun hstep
      exact ⟨hstep.trans hi.1, hrun.same.digest.trans hi.2⟩) ⟨rfl, hd⟩ hloop
  have hstep := recvStep_flags hx outCap hi.2
  rw [hlast] at hstep
  exact hstep.trans hi.1

/-- Only a `wn_Recv` that says so marks a session closed. -/
theorem Call.after_closed (hx : p.Expands) {w : World} (hw : w.sess.Established → w.sess.digest = .sha256)
    (hopen : ¬ w.sess.Closed) {call : Call}
    (h : (call.after p w).sess.Closed) :
    ∃ outCap w', call = .recv outCap ∧ wnRecv p outCap w = .error .closed w' := by
  cases call with
  | send data => exact absurd h (wnSend_flags hopen data)
  | close =>
    rw [Call.after, wnClose_sess] at h
    exact absurd h (by decide)
  | recv outCap =>
    rw [Call.after] at h
    by_cases hest : w.sess.Established
    · have hd := hw hest
      cases hr : wnRecv p outCap w with
      | ok m w' =>
        rw [hr] at h
        have hflags := wnRecv_ok_flags hx hopen hest hd hr
        simp only [endState_ok, Session.Closed, hflags] at h
        exact absurd h hopen
      | error e w' =>
        have hflags := wnRecv_error_flags hx hopen hest hd hr
        by_cases he : e = .closed
        · subst he
          exact ⟨outCap, w', rfl, hr⟩
        · rw [if_neg he] at hflags
          rw [hr] at h
          simp only [endState_error, Session.Closed, hflags] at h
          exact absurd h hopen
    · obtain ⟨e, herr⟩ := Session.Shut.recv (p := p) (.inr hest) outCap
      rw [herr] at h
      exact absurd h hopen

/-- A call that answers `WOLFNANO_E_CLOSED` is on a session that is closed, or
closes it. -/
theorem Call.run_closed (hx : p.Expands) {w : World} (hw : w.sess.Established → w.sess.digest = .sha256)
    {call : Call} (h : answer (call.run p w) = .error .closed) : w.sess.Closed ∨ (call.after p w).sess.Closed := by
  by_cases hopen : w.sess.Closed
  · exact .inl hopen
  refine .inr ?_
  cases hr : call.run p w with
  | ok m w' =>
    rw [hr] at h
    cases h
  | error e w' =>
    rw [hr] at h
    cases h
    cases call with
    | send data =>
      rcases bind_error.1 hr with hr | ⟨_, _, -, hr⟩
      · exact absurd hr (wnSend_notClosed hopen)
      · cases hr
    | close =>
      rcases bind_error.1 hr with hr | ⟨_, _, -, hr⟩
      · exact absurd hr wnClose_notClosed
      · cases hr
    | recv outCap =>
      have hr : wnRecv p outCap w = .error .closed w' := hr
      have hest : w.sess.Established := by
        by_contra hest
        rcases checkOpen_cases w with ⟨-, -, hest'⟩ | ⟨e, herr⟩
        · exact hest hest'
        · have hrefused : wnRecv p outCap w = .error e w := bind_of_error (bind_of_error herr)
          rw [hrefused] at hr
          cases hr
          exact hopen (checkOpen_closed herr)
      have hflags := wnRecv_error_flags hx hopen hest (hw hest) hr
      rw [if_pos rfl] at hflags
      rw [Call.after, hr]
      exact hflags

/-- Which call an answer is of. -/
theorem callsRun_mem {r : Except Err Bytes} (calls : List Call) : ∀ {w : World}, r ∈ (callsRun p calls w).1 →
    ∃ pre call post, calls = pre ++ call :: post ∧ answer (call.run p (callsAfter p w pre)) = r := by
  induction calls with
  | nil => exact fun hmem => nomatch hmem
  | cons call calls ih =>
    intro w hmem
    rcases List.mem_cons.1 hmem with rfl | hmem
    · exact ⟨[], call, calls, rfl, rfl⟩
    · rw [Call.run_end] at hmem
      obtain ⟨pre, call', post, rfl, hanswer⟩ := ih hmem
      exact ⟨call :: pre, call', post, rfl, hanswer⟩

/-- Calls keep the digest of a session as long as it is established. -/
theorem callsAfter_digest (hx : p.Expands) {w : World} (hd : w.sess.digest = .sha256) (calls : List Call)
    (hest : (callsAfter p w calls).sess.Established) : (callsAfter p w calls).sess.digest = .sha256 := by
  by_cases hclose : Call.close ∈ calls
  · obtain ⟨pre, post, rfl⟩ := List.append_of_mem hclose
    rw [callsAfter_append] at hest
    have hzero : (callsAfter p (callsAfter p w pre) (.close :: post)).sess = .zero :=
      callsAfter_zero post (w := Call.close.after p _) (wnClose_sess _)
    rw [hzero] at hest
    exact absurd hest (by decide)
  · obtain ⟨acts, q', hrun⟩ := calls_run hx calls w [] hclose hd
    exact hrun.same.digest.trans hd

section Complete

variable {server : TrafficKeys} {v : Rfc.Writer p server} (hfew : v.Few) (hideal : v.Ideal)
  (hdistinct : Rfc.DistinctKeys p server v.items) (hx : p.Expands) {io : Transport} {client : TrafficKeys} {w : World}
  (hw : w.sess = .established io client server)
include hfew hideal hdistinct hx hw

/-- What is returned is a prefix of what the peer sent, alerts or not. -/
theorem received_before (calls : List Call) : received p w calls <+: Rfc.plaintexts v.items := by
  obtain ⟨acts, w', q', hrun, hdata⟩ := received_run hx calls w [] fun _ => by rw [hw]; rfl
  rw [← hdata]
  exact (SessRun.hears hfew hideal hdistinct hrun (.start v hw)).in_order

/-- A run comes to a call that meets a close_notify: it is the peer's, and all was
opened before. -/
theorem SessRun.closed {acts : List Act} {u u' : World} {q : Bytes} {outCap : Nat}
    (hrun : SessRun p (w, []) acts (u, q)) (hopen : ¬ u.sess.Closed) (h : wnRecv p outCap u = .error .closed u') :
    (∃ a ∈ v.last, a.Closes) ∧ dataOf acts = Rfc.plaintexts v.items := by
  have hd : u.sess.digest = .sha256 := by
    rw [hrun.same.digest, hw]
    rfl
  obtain ⟨acts', w₁, q₁, record, content, hrun', hnone, hopens, hclose⟩ := wnRecv_closed_run hx q hd hopen h
  have hall := hrun.append hrun'
  rcases SessRun.hears hfew hideal hdistinct hall (.start v hw) with horder | hout
  · have hdata : dataOf (acts ++ acts') = dataOf acts := by rw [dataOf_append, hnone, List.append_nil]
    have hfound := horder
    obtain ⟨done, hpre, hfollows, -⟩ := hfound
    obtain ⟨g, hg, hgen⟩ := hfollows.generation hpre
    rcases opened_until hideal hdistinct hg hgen hopens with ⟨pre, i, rest, -, -, htype, -⟩ | ⟨a, ha, hhalf, -, rfl⟩
    · cases hc : i.carried <;> rw [hc] at htype <;> cases htype
    · rw [← hdata]
      exact ⟨⟨a, ha, hclose⟩, horder.alert hfew hdistinct hhalf⟩
  · exact absurd hopens (hout.silent hfew hideal hdistinct)

/-- What was complete after some calls is so after more. -/
theorem complete_append {calls : List Call} (calls' : List Call)
    (h : received p w calls = Rfc.plaintexts v.items ∨ SmallAmong p w calls) :
    received p w (calls ++ calls') = Rfc.plaintexts v.items ∨ SmallAmong p w (calls ++ calls') := by
  by_cases hsmall : SmallAmong p w calls
  · exact .inr (hsmall.append _)
  · have hpre := received_before hfew hideal hdistinct hx hw (calls ++ calls')
    rw [received_append calls calls' hsmall, h.resolve_right hsmall] at hpre ⊢
    exact .inl (hpre.eq_of_length_le (by simp))

/-- Where a call has met the peer's close_notify, all was returned before. -/
theorem callsAfter_closed (calls : List Call) (h : (callsAfter p w calls).sess.Closed) :
    (∃ a ∈ v.last, a.Closes) ∧ (received p w calls = Rfc.plaintexts v.items ∨ SmallAmong p w calls) := by
  have hd : w.sess.digest = .sha256 := by rw [hw]; rfl
  induction calls using List.reverseRec with
  | nil =>
    have h : w.sess.Closed := h
    rw [hw] at h
    exact absurd h (Session.established_open io client server).1
  | append_singleton calls call ih =>
    suffices hall : (∃ a ∈ v.last, a.Closes) ∧
        (received p w calls = Rfc.plaintexts v.items ∨ SmallAmong p w calls) from
      ⟨hall.1, complete_append hfew hideal hdistinct hx hw [call] hall.2⟩
    by_cases hclosed : (callsAfter p w calls).sess.Closed
    · exact ih hclosed
    have hkept : Call.close ∉ calls := fun hmem => callsAfter_close h (List.mem_append_left _ hmem)
    rw [callsAfter_append] at h
    obtain ⟨outCap, w', rfl, hr⟩ := Call.after_closed hx (callsAfter_digest hx hd calls) hclosed h
    by_cases hsmall : SmallAmong p w calls
    · obtain ⟨acts, q', hrun⟩ := calls_run hx calls w [] hkept hd
      exact ⟨(SessRun.closed hfew hideal hdistinct hx hw hrun hclosed hr).1, .inr hsmall⟩
    · obtain ⟨acts, q', hrun, hdata⟩ := calls_received hx calls w [] hkept hd hsmall
      obtain ⟨hlast, heq⟩ := SessRun.closed hfew hideal hdistinct hx hw hrun hclosed hr
      exact ⟨hlast, .inl (hdata.symm.trans heq)⟩

end Complete

/-- The peer of `tabledItems` sends a close_notify after them. -/
def AeadTable.closing : AeadTable :=
  AeadTable.peer ++ [(clearNextKeys.key, Rfc.nonce clearNextKeys.iv 1, Rfc.header 19, Rfc.inner 21 [1, 0] 0,
    (Block.zero 16).val)]

def closingWriter : Rfc.Writer (.tabled .closing) clearHsKeys where
  items := tabledItems
  half := ⟨clearNextKeys, 1⟩
  seals := tabled_peer
  last := some ⟨[1, 0], 0, clearRecord 21 [1, 0]⟩
  sealedLast := by
    intro a ha
    cases ha
    exact clearRecord_seal .small clearNextKeys 1 21 [1, 0]

theorem closingWriter_ideal : closingWriter.Ideal := by
  intro g _ t _ n hdr ct tag plain hdec
  simp only [Provider.tabled] at hdec
  split at hdec
  · next hmem =>
    cases hdec
    simp only [AeadTable.closing, AeadTable.peer, List.cons_append, List.nil_append, List.mem_cons, List.not_mem_nil,
      or_false, Prod.mk.injEq] at hmem
    rcases hmem with ⟨hkey, rfl, rfl, rfl, rfl⟩ | ⟨hkey, rfl, rfl, rfl, rfl⟩ | ⟨hkey, rfl, rfl, rfl, rfl⟩
    · exact .inl ⟨[], _, _, _, rfl, .nil, hkey.symm, rfl, by decide, rfl⟩
    · exact .inl ⟨[_], _, [], _, rfl, .single tabled_first, hkey.symm, rfl, by decide, rfl⟩
    · exact .inr ⟨_, rfl, hkey.symm, rfl, by decide, rfl⟩
  · cases hdec

end WolfNano

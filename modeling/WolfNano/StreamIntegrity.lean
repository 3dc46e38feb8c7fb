/-
Stream integrity against an active network.

The peer's records are a run of `Rfc.SealStep`; what the network feeds the
client is any stream. With an AEAD that opens only what the peer sealed, the
records the client opens are the peer's first ones, in order (`Follows`), in
every run, through whatever errors and calls. So what `wn_Recv` returns is a
prefix of what the peer sent.
-/
import WolfNano.PeerFacts
import WolfNano.Calls

namespace WolfNano

open Prog Wire

variable {cfg : Config} {p : Provider cfg}

/-! ## What is assumed of the peer and of the AEAD -/

namespace Rfc

variable (p) (server : TrafficKeys) (items : List Sent)

/-- The peer sealed this record of this plaintext under the key and nonce. -/
def SealedAs (key : Block 16) (n : Block 12) (record plain : Bytes) : Prop :=
  ∃ pre i rest s, items = pre ++ i :: rest ∧ Seals p ⟨server, 0⟩ pre s ∧ s.keys.key = key ∧
    nonce s.keys.iv s.seq.toNat = n ∧ i.record = record ∧ inner i.carried.type i.carried.content i.pad = plain

/-- How many generations the peer moved on. -/
def generations : Nat := items.countP (·.carried.updates)

/-- **An ideal AEAD**: under the peer's keys, a header, ciphertext and tag open
with a nonce only if the peer sealed just that record with it. -/
def IdealAead : Prop :=
  ∀ g ≤ generations items, ∀ t, generation p server g = some t → ∀ n hdr ct tag plain,
    p.aesGcmDecrypt t.key n hdr ct tag = some plain → SealedAs p server items t.key n (hdr ++ ct ++ tag) plain.val

/-- Distinct generations have distinct keys. -/
def DistinctKeys : Prop :=
  ∀ g ≤ generations items, ∀ g' ≤ generations items, ∀ t t', generation p server g = some t →
    generation p server g' = some t' → t.key = t'.key → g = g'

/-- Sequence numbers do not wrap (5.3): under one key, fewer than 2^64 records. -/
def FewPerKey : Prop :=
  ∀ mid, mid <:+: items → (∀ i ∈ mid.dropLast, i.carried.updates = false) → mid.length < 2 ^ 64

variable {p} {server} {items}

theorem generations_le {pre : List Sent} (h : pre <+: items) : generations pre ≤ generations items :=
  h.sublist.countP_le

theorem Seals.generations {pre : List Sent} {s : Half} (h : Seals p ⟨server, 0⟩ pre s) :
    Rfc.generation p server (Rfc.generations pre) = some s.keys := by
  have hgen := h.generation (g := 0) rfl
  rwa [Nat.zero_add] at hgen

/-- Between two positions with the same key there is no KeyUpdate. -/
theorem Seals.between (hdistinct : DistinctKeys p server items) {pre mid : List Sent} {s s' : Half}
    (hpre : pre ++ mid <+: items) (h : Seals p ⟨server, 0⟩ pre s) (h' : Seals p ⟨server, 0⟩ (pre ++ mid) s')
    (hkey : s.keys.key = s'.keys.key) :
    (∀ i ∈ mid, i.carried.updates = false) ∧ s' = ⟨s.keys, s.seq + UInt64.ofNat mid.length⟩ := by
  have hle := generations_le ((List.prefix_append pre mid).trans hpre)
  have heq := hdistinct _ hle _ (generations_le hpre) _ _ h.generations h'.generations hkey
  have hnone : ∀ i ∈ mid, i.carried.updates = false := by
    rw [Rfc.generations, Rfc.generations, List.countP_append, Nat.left_eq_add] at heq
    simpa using List.countP_eq_zero.1 heq
  obtain ⟨t, hfirst, hthen⟩ := h'.split
  rw [h.unique hfirst]
  exact ⟨hnone, hthen.keep hnone⟩

theorem FewPerKey.eq_nil (hfew : FewPerKey items) {pre mid : List Sent} (hpre : pre ++ mid <+: items)
    (hnone : ∀ i ∈ mid, i.carried.updates = false) {seq : UInt64} (h : seq + UInt64.ofNat mid.length = seq) :
    mid = [] := by
  have hlt : mid.length < 2 ^ 64 :=
    hfew mid ((List.suffix_append pre mid).isInfix.trans hpre.isInfix) fun i hi => hnone i (List.dropLast_subset _ hi)
  have hzero : UInt64.ofNat mid.length = 0 := by simpa using h
  have hlen := congrArg UInt64.toNat hzero
  rw [UInt64.toNat_ofNat_of_lt' hlt] at hlen
  exact List.eq_nil_of_length_eq_zero hlen

/-- Position by position: where two have the same key and number, they are one. -/
theorem Seals.position (hdistinct : DistinctKeys p server items) (hfew : FewPerKey items) {pre pre' : List Sent}
    {s s' : Half} (hpre : pre <+: items) (hpre' : pre' <+: items) (h : Seals p ⟨server, 0⟩ pre s)
    (h' : Seals p ⟨server, 0⟩ pre' s') (hkey : s.keys.key = s'.keys.key) (hseq : s.seq = s'.seq) : pre = pre' := by
  rcases List.prefix_or_prefix_of_prefix hpre hpre' with ⟨mid, rfl⟩ | ⟨mid, rfl⟩
  · obtain ⟨hnone, rfl⟩ := h.between hdistinct hpre' h' hkey
    rw [hfew.eq_nil hpre' hnone hseq.symm, List.append_nil]
  · obtain ⟨hnone, rfl⟩ := h'.between hdistinct hpre h hkey.symm
    rw [hfew.eq_nil hpre hnone hseq, List.append_nil]

/-- After a KeyUpdate nothing more is sealed under the old key. -/
theorem Seals.passed (hdistinct : DistinctKeys p server items) (hfew : FewPerKey items) {pre pre' : List Sent}
    {i : Sent} {s s' : Half} (hi : i.carried.updates = true) (hpre : pre ++ [i] <+: items) (hpre' : pre' <+: items)
    (h : Seals p ⟨server, 0⟩ pre s) (h' : Seals p ⟨server, 0⟩ pre' s') (hkey : s.keys.key = s'.keys.key) :
    s'.seq ≠ s.seq + 1 := by
  intro hseq
  rcases List.prefix_or_prefix_of_prefix ((List.prefix_append pre [i]).trans hpre) hpre' with ⟨mid, rfl⟩ | ⟨mid, rfl⟩
  · obtain ⟨hnone, rfl⟩ := h.between hdistinct hpre' h' hkey
    cases mid with
    | nil => exact absurd hseq (by simp)
    | cons j mid =>
      obtain ⟨rest, rfl⟩ := hpre
      obtain ⟨rest', heq⟩ := hpre'
      simp only [List.append_assoc, List.append_cancel_left_eq, List.cons_append, List.nil_append,
        List.cons.injEq] at heq
      rw [heq.1] at hnone
      exact absurd hi (by simp [hnone i List.mem_cons_self])
  · obtain ⟨hnone, rfl⟩ := h'.between hdistinct ((List.prefix_append _ [i]).trans hpre) h hkey.symm
    have hlt : (mid ++ [i]).length < 2 ^ 64 := by
      refine hfew (mid ++ [i]) (List.IsInfix.trans ⟨pre', [], by simp⟩ hpre.isInfix) ?_
      rwa [List.dropLast_concat]
    have hzero : UInt64.ofNat (mid ++ [i]).length = 0 := by
      have hsum : s'.seq = s'.seq + (UInt64.ofNat mid.length + 1) := by rw [← UInt64.add_assoc, ← hseq]
      simpa using hsum.symm
    have hlen := congrArg UInt64.toNat hzero
    rw [UInt64.toNat_ofNat_of_lt' hlt] at hlen
    simp at hlen

end Rfc

/-! ## What the client opens -/

/-- Where the peer sealed a plaintext, by its key and nonce. -/
theorem Rfc.SealedAs.position {server : TrafficKeys} {items : List Rfc.Sent}
    (hdistinct : Rfc.DistinctKeys p server items) {g : Nat} (hg : g ≤ Rfc.generations items) {t : TrafficKeys}
    (ht : Rfc.generation p server g = some t) {seq : UInt64} {type : UInt8} {record content : Bytes} {pad : Nat}
    (htype : type ≠ 0)
    (h : Rfc.SealedAs p server items t.key (Rfc.nonce t.iv seq.toNat) record (Rfc.inner type content pad)) :
    ∃ pre i rest, items = pre ++ i :: rest ∧ Rfc.Seals p ⟨server, 0⟩ pre ⟨t, seq⟩ ∧ i.carried.type = type ∧
      i.carried.content = content := by
  obtain ⟨pre, i, rest, s, hitems, hpre, hkey, hnonce, -, hinner⟩ := h
  have hle : Rfc.generations pre ≤ Rfc.generations items := Rfc.generations_le ⟨i :: rest, hitems.symm⟩
  have hkeys : s.keys = t := by
    have hgen := hpre.generations
    rw [hdistinct _ hle _ hg _ _ hgen ht hkey, ht] at hgen
    exact (Option.some.inj hgen).symm
  have hseq : s.seq = seq := by
    rw [hkeys] at hnonce
    exact UInt64.toNat_inj.1 (Rfc.nonce_inj s.seq.toNat_lt seq.toNat_lt hnonce)
  have hcontent := innerContent_inner i.carried.type_ne_zero i.carried.content i.pad
  rw [hinner, innerContent_inner htype] at hcontent
  cases hcontent
  exact ⟨pre, i, rest, hitems, by rw [← hkeys, ← hseq]; exact hpre, rfl, rfl⟩

section Ideal

variable {server : TrafficKeys} {items : List Rfc.Sent} (hideal : Rfc.IdealAead p server items)
  (hdistinct : Rfc.DistinctKeys p server items)
include hideal hdistinct

/-- A record that opens is one the peer sealed there. -/
theorem opened_sealed {g : Nat} (hg : g ≤ Rfc.generations items) {t : TrafficKeys}
    (ht : Rfc.generation p server g = some t) {seq : UInt64} {type : UInt8} {record content : Bytes}
    (hopen : wnRecordUnprotect p t.key t.iv seq record = .ok (type, content)) :
    ∃ pre i rest, items = pre ++ i :: rest ∧ Rfc.Seals p ⟨server, 0⟩ pre ⟨t, seq⟩ ∧ i.carried.type = type ∧
      i.carried.content = content := by
  obtain ⟨hdr, ct, tag, pad, rfl, -, htag, htype, hdec⟩ := wnRecordUnprotect_ok p hopen
  rw [decrypted, Option.map_eq_some_iff] at hdec
  obtain ⟨plain, hdec, hplain⟩ := hdec
  have hsealed := hideal g hg t ht _ _ _ _ _ hdec
  rw [hplain] at hsealed
  exact hsealed.position hdistinct hg ht htype

end Ideal

/-- The client has opened these records of the peer, and has this much of the
last one's messages to process. It is behind while a KeyUpdate is among them. -/
inductive Follows (p : Provider cfg) (server : TrafficKeys) : List Rfc.Sent → World × Bytes → Prop where
  | upToDate {done : List Rfc.Sent} {w : World} {tickets : List Bytes}
      (hdone : Rfc.Seals p ⟨server, 0⟩ done w.readHalf) (hfits : (Rfc.Carried.post tickets none).Fits) :
      Follows p server done (w, (Rfc.Carried.post tickets none).content)
  | behind {done : List Rfc.Sent} {i : Rfc.Sent} {s s' : Rfc.Half} {w : World} {tickets : List Bytes} {req : UInt8}
      (hdone : Rfc.Seals p ⟨server, 0⟩ done s) (hstep : Rfc.SealStep p s i s') (hi : i.carried.updates = true)
      (hread : w.readHalf = ⟨s.keys, s.seq + 1⟩) (hfits : (Rfc.Carried.post tickets (some req)).Fits) :
      Follows p server (done ++ [i]) (w, (Rfc.Carried.post tickets (some req)).content)

/-- With nothing left to process. -/
theorem Follows.whole {server : TrafficKeys} {done : List Rfc.Sent} {w : World}
    (hdone : Rfc.Seals p ⟨server, 0⟩ done w.readHalf) : Follows p server done (w, []) := by
  have hfits : (Rfc.Carried.post [] none).Fits := ⟨nofun, nofun⟩
  exact .upToDate hdone hfits

theorem Follows.frame {server : TrafficKeys} {done : List Rfc.Sent} {w w' : World} {q : Bytes}
    (h : Follows p server done (w, q)) (hread : w'.readHalf = w.readHalf) : Follows p server done (w', q) := by
  cases h with
  | upToDate hdone hfits => exact .upToDate (by rw [hread]; exact hdone) hfits
  | behind hdone hstep hi hr hfits => exact .behind hdone hstep hi (hread.trans hr) hfits

/-- The client reads with the keys of one of the peer's generations. -/
theorem Follows.generation {server : TrafficKeys} {items done : List Rfc.Sent} {w : World} {q : Bytes}
    (h : Follows p server done (w, q)) (hpre : done <+: items) :
    ∃ g ≤ Rfc.generations items, Rfc.generation p server g = some w.sess.readKeys := by
  cases h with
  | upToDate hdone _ => exact ⟨_, Rfc.generations_le hpre, hdone.generations⟩
  | @behind done i s₀ _ _ _ _ hdone _ _ hread _ =>
    have hkeys : w.sess.readKeys = s₀.keys := congrArg Rfc.Half.keys hread
    exact ⟨_, Rfc.generations_le ((List.prefix_append done [i]).trans hpre), by rw [hkeys]; exact hdone.generations⟩

section Step

variable {server : TrafficKeys} {items : List Rfc.Sent} (hdistinct : Rfc.DistinctKeys p server items)
  (hfew : Rfc.FewPerKey items) {s : Rfc.Half} (hpeer : Rfc.Seals p ⟨server, 0⟩ items s)
include hdistinct hfew hpeer

/-- **The record opened is the next one**, if it is one of the peer's for where
the client is. -/
theorem Follows.opened_at {done : List Rfc.Sent} {w w' : World} {q record content : Bytes} {type : UInt8}
    (h : Follows p server done (w, q)) (hpre : done <+: items)
    (hsealed : ∃ pre i rest, items = pre ++ i :: rest ∧ Rfc.Seals p ⟨server, 0⟩ pre w.readHalf ∧
      i.carried.type = type ∧ i.carried.content = content)
    (hw' : w'.readHalf = ⟨w.sess.readKeys, w.sess.sSeq + 1⟩) :
    ∃ i, done ++ [i] <+: items ∧ Follows p server (done ++ [i]) (w', if type = wnRecHandshake then content else []) ∧
      dataOf [.opened record type content] = Rfc.plaintexts [i] := by
  obtain ⟨pre, i, rest, rfl, hat, rfl, rfl⟩ := hsealed
  cases h with
  | upToDate hdone hfits =>
    obtain rfl : pre = done := hat.position hdistinct hfew (List.prefix_append _ _) hpre hdone rfl rfl
    refine ⟨i, ⟨rest, by simp⟩, ?_⟩
    obtain ⟨t, hfirst, hthen⟩ := hpeer.split
    obtain rfl := hdone.unique hfirst
    cases hthen with
    | @cons _ u _ _ _ hstep _ =>
      have hnext := hdone.append (.single hstep)
      obtain ⟨carried, pad, bytes⟩ := i
      cases carried with
      | data m =>
        rw [hstep.keep rfl] at hnext
        exact ⟨.whole (by rw [hw']; exact hnext), rfl⟩
      | post tickets update =>
        refine ⟨?_, rfl⟩
        show Follows p server _ (w', (Rfc.Carried.post tickets update).content)
        cases update with
        | none =>
          rw [hstep.keep rfl] at hnext
          exact .upToDate (by rw [hw']; exact hnext) hstep.fits
        | some req => exact .behind hdone hstep rfl hw' hstep.fits
  | @behind done j s₀ s₁ _ tickets req hdone hstep hj hread hfits =>
    have hkeys : w.sess.readKeys = s₀.keys := congrArg Rfc.Half.keys hread
    have hseq : w.sess.sSeq = s₀.seq + 1 := congrArg Rfc.Half.seq hread
    exact absurd hseq (hdone.passed hdistinct hfew hj hpre ⟨i :: rest, rfl⟩ hat (by rw [← hkeys]; rfl))

end Step

/-- A message taken off what is left is the next one there. -/
theorem Follows.ticket {server : TrafficKeys} {done : List Rfc.Sent} {w : World} {body q : Bytes}
    (h : Follows p server done (w, Rfc.hsMsg wnHsNewSessionTicket body ++ q)) (hbody : body.length < 2 ^ 24) :
    Follows p server done (w, q) := by
  have htake := takePost_hsMsg hbody q
  generalize hq : Rfc.hsMsg wnHsNewSessionTicket body ++ q = content at h htake
  cases h with
  | @upToDate _ _ tickets hdone hfits =>
    rw [Rfc.Carried.takePost_content hfits] at htake
    cases tickets with
    | nil => cases htake
    | cons b tickets =>
      cases htake
      exact .upToDate hdone hfits.tail
  | @behind _ _ _ _ _ tickets req hdone hstep hi hread hfits =>
    rw [Rfc.Carried.takePost_content hfits] at htake
    cases tickets with
    | nil => cases htake
    | cons b tickets =>
      cases htake
      exact .behind hdone hstep hi hread hfits.tail

theorem Follows.keyUpdate {server : TrafficKeys} {done : List Rfc.Sent} {w w' : World} {q : Bytes} {req : UInt8}
    {t : TrafficKeys} (h : Follows p server done (w, keyUpdateMsg req ++ q)) (hreq : req ≤ 1)
    (ht : Rfc.update p w.sess.readKeys = some t) (hw' : w'.readHalf = ⟨t, 0⟩) : Follows p server done (w', q) := by
  have htake := takePost_keyUpdateMsg hreq q
  generalize hq : keyUpdateMsg req ++ q = content at h htake
  cases h with
  | @upToDate _ _ tickets hdone hfits =>
    rw [Rfc.Carried.takePost_content hfits] at htake
    cases tickets <;> cases htake
  | @behind done i s₀ s₁ _ tickets req' hdone hstep hi hread hfits =>
    rw [Rfc.Carried.takePost_content hfits] at htake
    cases tickets with
    | cons b tickets => cases htake
    | nil =>
      cases htake
      have hkeys : w.sess.readKeys = s₀.keys := congrArg Rfc.Half.keys hread
      obtain ⟨t', ht', rfl⟩ := hstep.update hi
      rw [hkeys, ht'] at ht
      cases ht
      have hnext := hdone.append (.single hstep)
      exact .whole (by rw [hw']; exact hnext)

/-! ## Whole runs -/

/-- After these acts: what the client has opened, and what data it has had. -/
def InOrder (p : Provider cfg) (server : TrafficKeys) (items : List Rfc.Sent) (acts : List Act) (x : World × Bytes) : Prop :=
  ∃ done, done <+: items ∧ Follows p server done x ∧ dataOf acts = Rfc.plaintexts done

theorem SessStep.opens {x y : World × Bytes} {record content : Bytes} {type : UInt8}
    (h : SessStep p x (.opened record type content) y) :
    wnRecordUnprotect p x.1.sess.sKey x.1.sess.sIv x.1.sess.sSeq record = .ok (type, content) := by
  cases h with
  | opened _ hopen => exact hopen

section Run

variable {server : TrafficKeys} {items : List Rfc.Sent} (hdistinct : Rfc.DistinctKeys p server items)
  (hfew : Rfc.FewPerKey items) {s : Rfc.Half} (hpeer : Rfc.Seals p ⟨server, 0⟩ items s)
include hdistinct hfew hpeer

/-- An act keeps it that opens nothing, or a record of the peer's. -/
theorem InOrder.step_at {acts : List Act} {x y : World × Bytes} {a : Act} (h : InOrder p server items acts x)
    (hstep : SessStep p x a y) (hsealed : ∀ record type content, a = .opened record type content →
      ∃ pre i rest, items = pre ++ i :: rest ∧ Rfc.Seals p ⟨server, 0⟩ pre x.1.readHalf ∧ i.carried.type = type ∧
        i.carried.content = content) : InOrder p server items (acts ++ [a]) y := by
  obtain ⟨done, hpre, hfollows, hdata⟩ := h
  have hkeep : ∀ {w w' : World} {q : Bytes}, Follows p server done (w, q) → w'.readHalf = w.readHalf →
      dataOf [a] = [] → InOrder p server items (acts ++ [a]) (w', q) := by
    intro w w' q hf hread hnone
    exact ⟨done, hpre, hf.frame hread, by rw [dataOf_append, hnone, List.append_nil, hdata]⟩
  cases hstep with
  | sent => exact hkeep hfollows rfl rfl
  | replied => exact hkeep hfollows rfl rfl
  | replyCut => exact hkeep hfollows rfl rfl
  | unsealed => exact hkeep hfollows rfl rfl
  | skipped h => exact hkeep hfollows (by rw [h.frame]; rfl) rfl
  | shut => exact hkeep hfollows rfl rfl
  | @opened w w' q record content rtype type hread hopen =>
    have hw' : ({ w' with sess := { w.sess with sSeq := w.sess.sSeq + 1 } } : World).readHalf =
        ⟨w.sess.readKeys, w.sess.sSeq + 1⟩ := rfl
    obtain ⟨i, hnext, hf, hi⟩ := hfollows.opened_at hdistinct hfew hpeer hpre
      (hsealed record type content rfl) hw'
    exact ⟨done ++ [i], hnext, hf, by rw [dataOf_append, hi, hdata, Rfc.plaintexts_append]⟩
  | ticket hbody => exact ⟨done, hpre, hfollows.ticket hbody, by rw [dataOf_append, hdata]; exact List.append_nil _⟩
  | keyUpdate hreq ht =>
    exact ⟨done, hpre, hfollows.keyUpdate hreq ht rfl, by rw [dataOf_append, hdata]; exact List.append_nil _⟩

/-- Every act keeps it. -/
theorem InOrder.step (hideal : Rfc.IdealAead p server items) {acts : List Act} {x y : World × Bytes} {a : Act}
    (h : InOrder p server items acts x) (hstep : SessStep p x a y) : InOrder p server items (acts ++ [a]) y := by
  refine h.step_at hdistinct hfew hpeer hstep fun record type content ha => ?_
  subst ha
  obtain ⟨done, hpre, hfollows, -⟩ := h
  obtain ⟨g, hg, hgen⟩ := hfollows.generation hpre
  exact opened_sealed hideal hdistinct hg hgen hstep.opens

/-- So every run does. -/
theorem SessRun.inOrder (hideal : Rfc.IdealAead p server items) {acts : List Act} {x y : World × Bytes}
    (hrun : SessRun p x acts y) (h : InOrder p server items [] x) : InOrder p server items acts y := by
  have hend := hrun.history (I := InOrder p server items)
    (fun hi hs => hi.step hdistinct hfew hpeer hideal hs) h
  rwa [List.nil_append] at hend

end Run

/-! ## What the calls return -/

/-- `wn_Recv` rejects the record it opened, since `outCap` is too small. -/
def TooSmall (p : Provider cfg) (outCap : Nat) (w : World) : Prop := ∃ w', recvLoop p outCap w = .ok .small w'

instance (outCap : Nat) (w : World) : Decidable (TooSmall p outCap w) :=
  match h : recvLoop p outCap w with
  | .ok .small w' => .isTrue ⟨w', h⟩
  | .ok (.deliver _) _ => .isFalse fun ⟨_, h'⟩ => by rw [h] at h'; cases h'
  | .error _ _ => .isFalse fun ⟨_, h'⟩ => by rw [h] at h'; cases h'

/-- The plaintexts that successful `wn_Recv` calls return, up to the first call
rejected since `outCap` is too small. -/
def received (p : Provider cfg) (w : World) : List Call → List Bytes
  | [] => []
  | .recv outCap :: calls =>
    match wnRecv p outCap w with
    | .ok m w' => m :: received p w' calls
    | .error _ w' => if TooSmall p outCap w then [] else received p w' calls
  | call :: calls => received p (call.after p w) calls

/-- A session that is shut returns nothing. -/
theorem received_shut : ∀ (calls : List Call) {w : World}, w.sess.Shut → received p w calls = []
  | [], _, _ => rfl
  | call :: calls, w, h => by
    have hrest := received_shut calls (h.after (p := p) call)
    cases call with
    | send data => exact hrest
    | close => exact hrest
    | recv outCap =>
      obtain ⟨e, herr⟩ := h.recv (p := p) outCap
      rw [Call.after, herr] at hrest
      rw [received, herr]
      dsimp only
      split
      · rfl
      · exact hrest

/-- A call that fails and is not rejected so has had no data. -/
theorem wnRecv_error_run (hx : p.Expands) {outCap : Nat} {w w' : World} {e : Err} (q : Bytes)
    (hd : w.sess.Established → w.sess.digest = .sha256) (h : wnRecv p outCap w = .error e w')
    (hsmall : ¬ TooSmall p outCap w) : ∃ acts q', SessRun p (w, q) acts (w', q') ∧ dataOf acts = [] := by
  unfold wnRecv at h
  rcases bind_error.1 h with hloop | ⟨out, w₁, hloop, h⟩
  · unfold recvLoop at hloop
    rcases checkOpen_cases w with ⟨hopen, -, hest⟩ | ⟨e', hopen⟩
    · rw [bind_of_ok hopen, bind_of_ok (get_apply w)] at hloop
      obtain ⟨acts, q', hrun, hacts⟩ := recvLoop_run hx outCap (w.pending + 1) w q (hd hest)
      rw [hloop] at hrun hacts
      exact ⟨acts, q', hrun, hacts⟩
    · rw [bind_of_error hopen] at hloop
      cases hloop
      exact ⟨[], q, .nil, rfl⟩
  · cases out with
    | deliver m => cases h
    | small => exact absurd ⟨w₁, hloop⟩ hsmall

/-- **The calls are a run** whose data is what they return. -/
theorem received_run (hx : p.Expands) : ∀ (calls : List Call) (w : World) (q : Bytes),
    (¬ w.sess.Shut → w.sess.digest = .sha256) →
    ∃ acts w' q', SessRun p (w, q) acts (w', q') ∧ dataOf acts = received p w calls
  | [], w, q, _ => ⟨[], w, q, .nil, rfl⟩
  | call :: calls, w, q, hd => by
    by_cases hshut : w.sess.Shut
    · exact ⟨[], w, q, .nil, (received_shut _ hshut).symm⟩
    have hd := hd hshut
    have hgo : ∀ {acts : List Act} {w' : World} {q' : Bytes} {ms : List Bytes}, SessRun p (w, q) acts (w', q') →
        dataOf acts = ms → ∃ acts w₁ q₁, SessRun p (w, q) acts (w₁, q₁) ∧ dataOf acts = ms ++ received p w' calls := by
      intro acts w' q' ms hrun hdata
      obtain ⟨acts', w₁, q₁, hrun', hdata'⟩ := received_run hx calls w' q' fun _ => hrun.same.digest.trans hd
      exact ⟨acts ++ acts', w₁, q₁, hrun.append hrun', by rw [dataOf_append, hdata, hdata']⟩
    cases call with
    | send data =>
      obtain ⟨acts, hrun, hacts⟩ := wnSend_run (p := p) data w q
      obtain ⟨acts', w₁, q₁, hrun', hdata⟩ := hgo hrun hacts.noData
      exact ⟨acts', w₁, q₁, hrun', by rw [hdata]; rfl⟩
    | close =>
      refine ⟨[], w, q, .nil, (received_shut calls ?_).symm⟩
      rw [Call.after, wnClose_sess]
      exact Session.zero_shut
    | recv outCap =>
      cases hr : wnRecv p outCap w with
      | ok m w' =>
        obtain ⟨acts, q', hrun, hacts⟩ := wnRecv_run hx outCap w q fun _ => hd
        rw [hr] at hrun hacts
        rw [received, hr]
        exact hgo hrun hacts
      | error e w' =>
        rw [received, hr]
        dsimp only
        by_cases hsmall : TooSmall p outCap w
        · rw [if_pos hsmall]
          exact ⟨[], w, q, .nil, rfl⟩
        · rw [if_neg hsmall]
          obtain ⟨acts, q', hrun, hdata⟩ := wnRecv_error_run hx q (fun _ => hd) hr hsmall
          exact hgo hrun hdata

/-- **Stream integrity.** Whatever the network feeds the client and whatever
calls are made, what `wn_Recv` returns, up to the first call whose `outCap` is
too small, is a prefix of the application data the peer sealed. -/
theorem received_in_order (hx : p.Expands) {server : TrafficKeys} {items : List Rfc.Sent} {s : Rfc.Half}
    (hpeer : Rfc.Seals p ⟨server, 0⟩ items s) (hfew : Rfc.FewPerKey items) (hideal : Rfc.IdealAead p server items)
    (hdistinct : Rfc.DistinctKeys p server items) {io : Transport} {client : TrafficKeys} {w : World}
    (hw : w.sess = .established io client server) (calls : List Call) :
    received p w calls <+: Rfc.plaintexts items := by
  obtain ⟨acts, w', q', hrun, hdata⟩ := received_run hx calls w [] fun _ => by rw [hw]; rfl
  have hstart : w.readHalf = ⟨server, 0⟩ := by
    rw [World.readHalf, hw]
    rfl
  have hfollows : Follows p server [] (w, []) := by
    refine .whole ?_
    rw [hstart]
    exact .nil
  obtain ⟨done, ⟨rest, rfl⟩, -, hdone⟩ :=
    hrun.inOrder hdistinct hfew hpeer hideal ⟨[], List.nil_prefix, hfollows, rfl⟩
  rw [← hdata, hdone, Rfc.plaintexts_append]
  exact List.prefix_append _ _

/-! ## An ideal AEAD -/

/-- Where an AEAD that opens nothing else keeps what was sealed: key, nonce,
header, ciphertext and tag. -/
abbrev AeadTable := List (Block 16 × Block 12 × Bytes × Bytes × Bytes)

/-- The provider without secrets, with such an AEAD. -/
def Provider.tabled (table : AeadTable) : Provider .small where
  __ := Provider.clear .small
  aesGcmDecrypt key n hdr ct tag := if (key, n, hdr, ct, tag) ∈ table then some (.of ct) else none

/-- The generation after `clearHsKeys`. -/
def clearNextKeys : TrafficKeys := ⟨Block.ofNat 32 2, Block.ofNat 16 3, Block.ofNat 12 3⟩

/-- A peer seals a KeyUpdate, and data after it. -/
def tabledItems : List Rfc.Sent :=
  [⟨.post [] (some 0), 0, clearRecord 22 (keyUpdateMsg 0)⟩, ⟨.data [8], 0, clearRecord 23 [8]⟩]

def AeadTable.peer : AeadTable :=
  [(clearHsKeys.key, Rfc.nonce clearHsKeys.iv 0, Rfc.header 22, Rfc.inner 22 (keyUpdateMsg 0) 0, (Block.zero 16).val),
    (clearNextKeys.key, Rfc.nonce clearNextKeys.iv 0, Rfc.header 18, Rfc.inner 23 [8] 0, (Block.zero 16).val)]

theorem tabled_update (table : AeadTable) : Rfc.update (.tabled table) clearHsKeys = some clearNextKeys :=
  (by decide +kernel : Rfc.update (.clear .small) clearHsKeys = some clearNextKeys)

theorem tabled_first {table : AeadTable} : Rfc.SealStep (.tabled table) ⟨clearHsKeys, 0⟩
    ⟨.post [] (some 0), 0, clearRecord 22 (keyUpdateMsg 0)⟩ ⟨clearNextKeys, 0⟩ := by
  refine ⟨Rfc.Carried.fits_keyUpdate (by decide), clearRecord_seal .small clearHsKeys 0 22 (keyUpdateMsg 0), ?_⟩
  simp [Rfc.Half.next, Rfc.Carried.updates, tabled_update]

theorem tabled_peer {table : AeadTable} : Rfc.Seals (.tabled table) ⟨clearHsKeys, 0⟩ tabledItems ⟨clearNextKeys, 1⟩ :=
  .cons tabled_first (.single ⟨trivial, clearRecord_seal .small clearNextKeys 0 23 [8], rfl⟩)

theorem tabled_ideal : Rfc.IdealAead (.tabled .peer) clearHsKeys tabledItems := by
  intro g _ t _ n hdr ct tag plain hdec
  simp only [Provider.tabled] at hdec
  split at hdec
  · next hmem =>
    cases hdec
    simp only [AeadTable.peer, List.mem_cons, List.not_mem_nil, or_false, Prod.mk.injEq] at hmem
    rcases hmem with ⟨hkey, rfl, rfl, rfl, rfl⟩ | ⟨hkey, rfl, rfl, rfl, rfl⟩
    · exact ⟨[], _, _, _, rfl, .nil, hkey.symm, rfl, by decide, rfl⟩
    · exact ⟨[_], _, [], _, rfl, .single tabled_first, hkey.symm, rfl, by decide, rfl⟩
  · cases hdec

theorem tabled_distinct {table : AeadTable} : Rfc.DistinctKeys (.tabled table) clearHsKeys tabledItems := by
  have hkeys : ∀ g ≤ 1, ∀ t, Rfc.generation (.tabled table) clearHsKeys g = some t →
      t = if g = 0 then clearHsKeys else clearNextKeys := by
    intro g hg t ht
    match g, hg with
    | 0, _ => exact (Option.some.inj ht).symm
    | 1, _ => exact (Option.some.inj ((tabled_update table).symm.trans ht)).symm
  intro g hg g' hg' t t' ht ht' hkey
  have hg : g ≤ 1 := hg
  have hg' : g' ≤ 1 := hg'
  rw [hkeys g hg t ht, hkeys g' hg' t' ht'] at hkey
  have hne : clearHsKeys.key ≠ clearNextKeys.key := by decide
  by_cases h : g = 0 <;> by_cases h' : g' = 0 <;> simp only [h, h', if_true, if_false] at hkey <;>
    first | omega | exact absurd hkey hne | exact absurd hkey.symm hne

/-- The network sends the KeyUpdate twice: the second does not open, and the
next call goes on with the data. -/
theorem received_in_order_tabled :
    let w := clearWorld [clearRecord 22 (keyUpdateMsg 0) ++ clearRecord 22 (keyUpdateMsg 0) ++ clearRecord 23 [8]]
    received (.tabled .peer) w [.recv 64, .recv 64] <+: [[8]] ∧
      received (.tabled .peer) w [.recv 64, .recv 64] = [[8]] := by
  refine ⟨received_in_order (p := .tabled .peer) (Provider.clear_total .small).expands tabled_peer ?_ tabled_ideal
    tabled_distinct rfl _, by decide +kernel⟩
  intro mid hmid _
  exact Nat.lt_of_le_of_lt hmid.length_le (by decide)

end WolfNano

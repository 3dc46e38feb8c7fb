/-
The client and an RFC 8446 peer, joined by two in-order lossless channels.

`System.Step` interleaves the client's calls with what the peer does. What is
in flight in a direction leads from where its reader is to where its sender is
(`Synchronised`): every act keeps that, whichever generations are still in
flight, so everything opens where it is read.
-/
import WolfNano.ClientMoves

namespace WolfNano

open Prog Wire

variable {cfg : Config}

/-! ## The peer's reading -/

namespace Rfc

/-- The messages of a client's record: data, or a KeyUpdate. -/
def Carried.ofClient (type : UInt8) (content : Bytes) : Option Carried :=
  if type = 23 then some (.data content)
  else if type = 22 then
    match content with
    | [24, 0, 0, 1, req] => if req ≤ 1 then some (.post [] (some req)) else none
    | _ => none
  else none

/-- A record opens, and moves its reader on. -/
def Half.receive (p : Provider cfg) (s : Half) (record : Bytes) : Option (Carried × Half) := do
  let (type, content) ← openRecord p s.keys s.seq.toNat record
  let c ← Carried.ofClient type content
  let s' ← s.next p c
  some (c, s')

variable {p : Provider cfg}

theorem Carried.FromClient.ofClient {c : Carried} (h : c.FromClient) : Carried.ofClient c.type c.content = some c := by
  cases c with
  | data m => rfl
  | post tickets update =>
    obtain ⟨rfl, rfl⟩ := h
    decide

/-- What the client sealed, the peer opens. -/
theorem SealStep.receive (hopen : p.OpensSealed) {s s' : Half} {i : Sent} (h : SealStep p s i s')
    (hi : i.carried.FromClient) : s.receive p i.record = some (i.carried, s') := by
  simp [Half.receive, openRecord_sealRecord p hopen i.carried.type_ne_zero h.sealed, hi.ofClient, h.next]

end Rfc

/-! ## The system -/

/-- The client; the peer, in each direction; and what either has read and
given. -/
structure System where
  client : World
  peerWrite : Rfc.Half
  peerRead : Rfc.Half
  /-- The records the peer has sealed. -/
  peerSealed : List Rfc.Sent
  /-- How many of the client's `ioSend` buffers the peer has read. -/
  peerTaken : Nat
  /-- The data it has read in them. -/
  peerGot : List Bytes
  /-- The data of the `wn_Send` calls that succeeded. -/
  clientGave : List Bytes
  /-- What `wn_Recv` calls have returned. -/
  clientGot : List Bytes

inductive SystemAct where
  | send (data : Bytes)
  | recv (outCap : Nat)
  | peerSeal (i : Rfc.Sent)
  | peerOpen
  | chunk (inbox : List Bytes)

/-- What a call returned, if it succeeded. -/
def returned {α : Type} : EStateM.Result Err World α → Option α
  | .ok a _ => some a
  | .error _ _ => none

variable (p : Provider cfg)

/-- One act of the client, the peer or the network. -/
inductive System.Step : System → SystemAct → System → Prop where
  /-- The client calls `wn_Send`. -/
  | send {s : System} (data : Bytes) : System.Step s (.send data) { s with
      client := endState (wnSend p data s.client)
      clientGave := s.clientGave ++ ((returned (wnSend p data s.client)).map fun _ => data).toList }
  /-- It calls `wn_Recv`, with room for any record's data. -/
  | recv {s : System} {outCap : Nat} (hcap : wnMaxPlaintext ≤ outCap) : System.Step s (.recv outCap) { s with
      client := endState (wnRecv p outCap s.client)
      clientGot := s.clientGot ++ (returned (wnRecv p outCap s.client)).toList }
  /-- The peer seals a record, and its bytes go into the channel. -/
  | peerSeal {s : System} {i : Rfc.Sent} {h : Rfc.Half} (hstep : Rfc.SealStep p s.peerWrite i h) (hi : i.Within) :
      System.Step s (.peerSeal i) { s with
        client := { s.client with inbox := s.client.inbox ++ [i.record] }
        peerWrite := h
        peerSealed := s.peerSealed ++ [i] }
  /-- The peer opens the next record. -/
  | peerOpen {s : System} {record : Bytes} {c : Rfc.Carried} {h : Rfc.Half}
      (hnext : s.client.sent[s.peerTaken]? = some record) (hopen : s.peerRead.receive p record = some (c, h)) :
      System.Step s .peerOpen { s with
        peerRead := h
        peerTaken := s.peerTaken + 1
        peerGot := s.peerGot ++ c.data?.toList }
  /-- The channel to the client cuts its bytes up anew. -/
  | chunk {s : System} {inbox : List Bytes} (hbytes : inbox.flatten = s.client.inbox.flatten) (hne : [] ∉ inbox) :
      System.Step s (.chunk inbox) { s with client := { s.client with inbox } }

/-- The client in this world, its channel empty, and a peer with the same
secrets. -/
def System.start (w : World) (client server : TrafficKeys) : System where
  client := w
  peerWrite := ⟨server, 0⟩
  peerRead := ⟨client, 0⟩
  peerSealed := []
  peerTaken := w.sent.length
  peerGot := []
  clientGave := []
  clientGot := []

/-! ## Synchronisation -/

/-- Of the peer's records the client has read `got`, and `toClient` are in
flight; of the client's, after the `before` of the handshake, the peer has read
`taken`, and `toPeer` are in flight. -/
structure Synchronised (client server : TrafficKeys) (before : List Bytes) (s : System)
    (got toClient taken toPeer : List Rfc.Sent) : Prop where
  peerSealed : s.peerSealed = got ++ toClient
  channel : s.client.inbox.flatten = (toClient.map (·.record)).flatten
  read : Rfc.Seals p ⟨server, 0⟩ got s.client.readHalf
  inbound : Rfc.Seals p s.client.readHalf toClient s.peerWrite
  clientGot : s.clientGot = Rfc.plaintexts got
  clientSent : s.client.sent = before ++ (taken ++ toPeer).map (·.record)
  peerTaken : s.peerTaken = before.length + taken.length
  peerRead : Rfc.Seals p ⟨client, 0⟩ taken s.peerRead
  outbound : Rfc.Seals p s.peerRead toPeer s.client.writeHalf
  peerGot : s.peerGot = Rfc.plaintexts taken
  clientGave : s.clientGave = Rfc.plaintexts (taken ++ toPeer)
  /-- Each KeyUpdate that asked for one has been answered once. -/
  answered : (taken ++ toPeer).countP (·.carried.updates) = got.countP (·.carried.requests)
  answers : ∀ i ∈ taken ++ toPeer, i.carried.FromClient
  within : ∀ i ∈ toClient, i.Within
  ready : s.client.Ready

variable {p} {client server : TrafficKeys} {before : List Bytes}

theorem Synchronised.start {io : Transport} (hroom : recordRoom ≤ io.scratchLen) {w : World}
    (hw : w.sess = .established io client server) (hin : w.inbox = []) (hsend : w.Sending) :
    Synchronised p client server w.sent (.start w client server) [] [] [] [] := by
  obtain ⟨hopen, hest⟩ := Session.established_open io client server
  have hread : w.readHalf = ⟨server, 0⟩ := by
    rw [World.readHalf, hw]
    rfl
  have hwrite : w.writeHalf = ⟨client, 0⟩ := by
    rw [World.writeHalf, hw]
    rfl
  have hready : w.Ready := by
    refine ⟨?_, ?_, ?_, ?_, by rw [World.Flowing, hin]; simp, hsend⟩ <;> rw [hw]
    · exact hopen
    · exact hest
    · rfl
    · exact hroom
  refine ⟨rfl, by rw [System.start, hin]; rfl, ?_, ?_, rfl, by simp [System.start], rfl, .nil, ?_, rfl, rfl, rfl,
    by simp, by simp, hready⟩
  · show Rfc.Seals p _ [] w.readHalf
    rw [hread]
    exact .nil
  · show Rfc.Seals p w.readHalf [] ⟨server, 0⟩
    rw [hread]
    exact .nil
  · show Rfc.Seals p ⟨client, 0⟩ [] w.writeHalf
    rw [hwrite]
    exact .nil

section Step

variable {s : System} {got toClient taken toPeer : List Rfc.Sent}
  (h : Synchronised p client server before s got toClient taken toPeer)
include h

/-- What a call of the client has done. -/
theorem Synchronised.moves {w : World} {read rest gave : List Rfc.Sent} (hmoves : Moves p s.client read gave w)
    (hsplit : toClient = read ++ rest) {gave' got' : List Bytes} (hgave : gave' = s.clientGave ++ Rfc.plaintexts gave)
    (hgot : got' = s.clientGot ++ Rfc.plaintexts read) :
    Synchronised p client server before { s with client := w, clientGave := gave', clientGot := got' }
      (got ++ read) rest taken (toPeer ++ gave) := by
  subst hsplit hgave hgot
  obtain ⟨u, hfirst, hthen⟩ := h.inbound.split
  obtain rfl := hmoves.read.unique hfirst
  have hinbox := hmoves.inbox
  rw [h.channel, List.map_append, List.flatten_append, List.append_cancel_left_eq] at hinbox
  constructor
  · exact h.peerSealed.trans (List.append_assoc _ _ _).symm
  · exact hinbox.symm
  · exact h.read.append hmoves.read
  · exact hthen
  · rw [Rfc.plaintexts_append, ← h.clientGot]
  · show w.sent = _
    rw [hmoves.out, h.clientSent]
    simp only [List.map_append, List.append_assoc]
  · exact h.peerTaken
  · exact h.peerRead
  · exact h.outbound.append hmoves.write
  · exact h.peerGot
  · rw [← List.append_assoc, Rfc.plaintexts_append, ← h.clientGave]
  · rw [← List.append_assoc, List.countP_append, h.answered, hmoves.answered, List.countP_append]
  · rw [← List.append_assoc]
    exact fun i hi => (List.mem_append.1 hi).elim (h.answers i) (hmoves.answers i)
  · exact fun i hi => h.within i (List.mem_append_right _ hi)
  · exact hmoves.ready

theorem Synchronised.sealed {i : Rfc.Sent} {half : Rfc.Half} (hstep : Rfc.SealStep p s.peerWrite i half) (hi : i.Within) :
    Synchronised p client server before { s with
      client := { s.client with inbox := s.client.inbox ++ [i.record] }
      peerWrite := half
      peerSealed := s.peerSealed ++ [i] } got (toClient ++ [i]) taken toPeer := by
  have hpos := (hstep.readsBack hi).1
  refine { h with peerSealed := ?_, channel := ?_, inbound := h.inbound.snoc hstep, within := ?_, ready := ?_ }
  · show s.peerSealed ++ [i] = _
    rw [h.peerSealed, List.append_assoc]
  · show (s.client.inbox ++ [i.record]).flatten = _
    rw [List.flatten_append, h.channel]
    simp
  · exact fun j hj => (List.mem_append.1 hj).elim (h.within j) fun hj => by rw [List.mem_singleton.1 hj]; exact hi
  · refine { h.ready with flowing := fun hmem => ?_ }
    rcases List.mem_append.1 hmem with hmem | hmem
    · exact h.ready.flowing hmem
    · rw [← List.mem_singleton.1 hmem] at hpos
      exact absurd hpos (Nat.lt_irrefl 0)

theorem Synchronised.chunked {inbox : List Bytes} (hbytes : inbox.flatten = s.client.inbox.flatten) (hne : [] ∉ inbox) :
    Synchronised p client server before { s with client := { s.client with inbox } } got toClient taken toPeer :=
  { h with channel := hbytes.trans h.channel, ready := { h.ready with flowing := hne } }

/-- The next record the peer reads is the next the client sealed, and opens. -/
theorem Synchronised.opened (hopens : p.OpensSealed) {record : Bytes} (hnext : s.client.sent[s.peerTaken]? = some record) :
    ∃ i rest half, toPeer = i :: rest ∧ record = i.record ∧ s.peerRead.receive p record = some (i.carried, half) ∧
      Synchronised p client server before { s with
        peerRead := half
        peerTaken := s.peerTaken + 1
        peerGot := s.peerGot ++ i.carried.data?.toList } got toClient (taken ++ [i]) rest := by
  rw [h.clientSent, h.peerTaken, List.getElem?_append_right (Nat.le_add_right _ _), Nat.add_sub_cancel_left,
    List.map_append, List.getElem?_append_right (by simp), List.length_map, Nat.sub_self] at hnext
  cases hgoing : toPeer with
  | nil =>
    rw [hgoing] at hnext
    cases hnext
  | cons i rest =>
    rw [hgoing] at hnext
    cases hnext
    have hsteps := h.outbound
    rw [hgoing] at hsteps
    cases hsteps with
    | @cons _ half _ _ _ hstep hrest =>
      have hi : i.carried.FromClient := h.answers i (by rw [hgoing]; simp)
      have hlist : taken ++ toPeer = taken ++ [i] ++ rest := by rw [hgoing, List.append_assoc]; rfl
      refine ⟨i, rest, half, rfl, rfl, hstep.receive hopens hi, { h with
        clientSent := by rw [← hlist]; exact h.clientSent
        peerTaken := ?_
        peerRead := h.peerRead.snoc hstep
        outbound := hrest
        peerGot := ?_
        clientGave := by rw [← hlist]; exact h.clientGave
        answered := by rw [← hlist]; exact h.answered
        answers := by rw [← hlist]; exact h.answers }⟩
      · show s.peerTaken + 1 = _
        rw [h.peerTaken, List.length_append, Nat.add_assoc]
        rfl
      · show s.peerGot ++ _ = _
        rw [Rfc.plaintexts_append, h.peerGot, Rfc.plaintexts_singleton]

/-- **Every act keeps it.** -/
theorem Synchronised.step (hp : p.Total) (hopens : p.OpensSealed) {a : SystemAct} {s' : System}
    (hstep : System.Step p s a s') :
    ∃ got toClient taken toPeer, Synchronised p client server before s' got toClient taken toPeer := by
  cases hstep with
  | send data =>
    rcases wnSend_moves hp h.ready data with ⟨record, w, hok, hmoves⟩ | ⟨e, herr⟩
    · rw [hok]
      exact ⟨_, _, _, _, h.moves hmoves rfl rfl (List.append_nil _).symm⟩
    · rw [herr]
      exact ⟨got, toClient, taken, toPeer, by simpa [returned] using h⟩
  | @recv outCap hcap =>
    obtain ⟨read, rest, gave, w, hsplit, hmoves, hnone, hend⟩ :=
      wnRecv_moves hp hopens hcap h.ready h.inbound h.within h.channel
    rcases hend with ⟨m, hm, hr⟩ | ⟨hm, -, hr⟩
    · rw [hr]
      refine ⟨_, _, _, _, h.moves hmoves hsplit ?_ ?_⟩
      · rw [hnone, List.append_nil]
      · rw [hm]
        rfl
    · rw [hr]
      refine ⟨_, _, _, _, h.moves hmoves hsplit ?_ ?_⟩
      · rw [hnone, List.append_nil]
      · rw [hm]
        rfl
  | peerSeal hstep hi => exact ⟨_, _, _, _, h.sealed hstep hi⟩
  | peerOpen hnext hopen =>
    obtain ⟨i, rest, half, -, rfl, hreceive, hsync⟩ := h.opened hopens hnext
    rw [hreceive] at hopen
    cases hopen
    exact ⟨_, _, _, _, hsync⟩
  | chunk hbytes hne => exact ⟨_, _, _, _, h.chunked hbytes hne⟩

end Step

/-- So every run does. -/
theorem Synchronised.run (hp : p.Total) (hopens : p.OpensSealed) {acts : List SystemAct} {s s' : System}
    (hrun : Run (System.Step p) s acts s')
    (h : ∃ got toClient taken toPeer, Synchronised p client server before s got toClient taken toPeer) :
    ∃ got toClient taken toPeer, Synchronised p client server before s' got toClient taken toPeer := by
  refine Run.invariant (I := fun s => ∃ got toClient taken toPeer,
    Synchronised p client server before s got toClient taken toPeer) (fun hi hstep => ?_) h hrun
  obtain ⟨got, toClient, taken, toPeer, hsync⟩ := hi
  exact hsync.step hp hopens hstep

/-! ## What it says -/

section Says

variable {s : System} {got toClient taken toPeer : List Rfc.Sent}
  (h : Synchronised p client server before s got toClient taken toPeer)
include h

/-- What is in flight to the client opens, each record where the client is when
it comes to it. -/
theorem Synchronised.client_opens (hp : p.Total) (hopens : p.OpensSealed) {pre rest : List Rfc.Sent} {i : Rfc.Sent}
    (hi : toClient = pre ++ i :: rest) : ∃ half, Rfc.Seals p s.client.readHalf pre half ∧
      wnRecordUnprotect p half.keys.key half.keys.iv half.seq i.record = .ok (i.carried.type, i.carried.content) := by
  obtain ⟨half, hpre, hrest⟩ := (hi ▸ h.inbound).split
  cases hrest with
  | cons hstep _ => exact ⟨half, hpre, hstep.opens hp hopens⟩

/-- And so does what is in flight to the peer. -/
theorem Synchronised.peer_opens (hopens : p.OpensSealed) {pre rest : List Rfc.Sent} {i : Rfc.Sent}
    (hi : toPeer = pre ++ i :: rest) : ∃ half half', Rfc.Seals p s.peerRead pre half ∧
      half.receive p i.record = some (i.carried, half') := by
  obtain ⟨half, hpre, hrest⟩ := (hi ▸ h.outbound).split
  have hclient : i.carried.FromClient := h.answers i (by rw [hi]; simp)
  cases hrest with
  | cons hstep _ => exact ⟨half, _, hpre, hstep.receive hopens hclient⟩

/-- The next `wn_Recv` returns the first data in flight. -/
theorem Synchronised.recv (hp : p.Total) (hopens : p.OpensSealed) {outCap : Nat} (hcap : wnMaxPlaintext ≤ outCap) :
    (∃ m ms w, Rfc.plaintexts toClient = m :: ms ∧ wnRecv p outCap s.client = .ok m w) ∨
      Rfc.plaintexts toClient = [] ∧ ∃ w, wnRecv p outCap s.client = .error .crypto w := by
  obtain ⟨read, rest, gave, w, rfl, -, -, hend⟩ := wnRecv_moves hp hopens hcap h.ready h.inbound h.within h.channel
  rw [Rfc.plaintexts_append]
  rcases hend with ⟨m, hm, hr⟩ | ⟨hm, rfl, hr⟩
  · exact .inl ⟨m, Rfc.plaintexts rest, w, by rw [hm]; rfl, hr⟩
  · exact .inr ⟨by rw [hm]; rfl, w, hr⟩

/-- Data arrives complete and in order. -/
theorem Synchronised.data : Rfc.plaintexts s.peerSealed = s.clientGot ++ Rfc.plaintexts toClient ∧
    s.clientGave = s.peerGot ++ Rfc.plaintexts toPeer := by
  rw [h.peerSealed, h.clientGot, h.clientGave, h.peerGot, Rfc.plaintexts_append, Rfc.plaintexts_append]
  exact ⟨rfl, rfl⟩

/-- The client's write generation is the number of KeyUpdates it was asked for;
the peer is behind it by those in flight. -/
theorem Synchronised.generations :
    Rfc.generation p client (got.countP (·.carried.requests)) = some s.client.sess.writeKeys ∧
      Rfc.generation p client (taken.countP (·.carried.updates)) = some s.peerRead.keys ∧
      taken.countP (·.carried.updates) + toPeer.countP (·.carried.updates) = got.countP (·.carried.requests) := by
  have hwrite := Rfc.Seals.generation (g := 0) (h.peerRead.append h.outbound) rfl
  have hread := Rfc.Seals.generation (g := 0) h.peerRead rfl
  rw [Nat.zero_add] at hwrite hread
  rw [h.answered] at hwrite
  exact ⟨hwrite, hread, by rw [← List.countP_append, h.answered]⟩

end Says

/-- **Key and sequence synchronisation.** From equal secrets and empty channels,
after any interleaving of calls and of what the peer and the network do: what
is in flight opens at either reader's keys and number when it comes to be read,
what was read is what was given, in order, with the rest in flight, and every
KeyUpdate that the client was asked for is answered by exactly one that asks
for none. -/
theorem synchronised (hp : p.Total) (hopens : p.OpensSealed) {io : Transport} (hroom : recordRoom ≤ io.scratchLen)
    {w : World} (hw : w.sess = .established io client server) (hin : w.inbox = []) (hsend : w.Sending)
    {acts : List SystemAct} {s : System} (hrun : Run (System.Step p) (.start w client server) acts s) :
    ∃ got toClient taken toPeer, Synchronised p client server w.sent s got toClient taken toPeer ∧
      (∀ pre i rest, toClient = pre ++ i :: rest → ∃ half, Rfc.Seals p s.client.readHalf pre half ∧
        wnRecordUnprotect p half.keys.key half.keys.iv half.seq i.record = .ok (i.carried.type, i.carried.content)) ∧
      (∀ pre i rest, toPeer = pre ++ i :: rest → ∃ half half', Rfc.Seals p s.peerRead pre half ∧
        half.receive p i.record = some (i.carried, half')) ∧
      (∀ outCap, wnMaxPlaintext ≤ outCap →
        (∃ m ms w', Rfc.plaintexts toClient = m :: ms ∧ wnRecv p outCap s.client = .ok m w') ∨
          Rfc.plaintexts toClient = [] ∧ ∃ w', wnRecv p outCap s.client = .error .crypto w') ∧
      (Rfc.plaintexts s.peerSealed = s.clientGot ++ Rfc.plaintexts toClient ∧
        s.clientGave = s.peerGot ++ Rfc.plaintexts toPeer) ∧
      Rfc.generation p client (got.countP (·.carried.requests)) = some s.client.sess.writeKeys ∧
      Rfc.generation p client (taken.countP (·.carried.updates)) = some s.peerRead.keys ∧
      taken.countP (·.carried.updates) + toPeer.countP (·.carried.updates) = got.countP (·.carried.requests) ∧
      ∀ i ∈ taken ++ toPeer, i.carried.updates = true → i.carried = .post [] (some 0) := by
  obtain ⟨got, toClient, taken, toPeer, h⟩ := Synchronised.run hp hopens hrun
    ⟨[], [], [], [], .start hroom hw hin hsend⟩
  obtain ⟨hwrite, hread, hcount⟩ := h.generations
  refine ⟨got, toClient, taken, toPeer, h, fun _ _ _ hi => h.client_opens hp hopens hi,
    fun _ _ _ hi => h.peer_opens hopens hi, fun _ hcap => h.recv hp hopens hcap, h.data, hwrite, hread, hcount, ?_⟩
  intro i hi hupdates
  have hclient := h.answers i hi
  cases hc : i.carried with
  | data m =>
    rw [hc] at hupdates
    cases hupdates
  | post tickets update =>
    rw [hc] at hclient
    obtain ⟨rfl, rfl⟩ := hclient
    rfl

/-- The client sends data, the peer asks for a KeyUpdate and sends data of the
next generation, and the client reads and sends on. -/
theorem synchronised_clear : ∃ s, Run (System.Step (Provider.clear .small))
    (.start (clearWorld []) clearHsKeys clearHsKeys) [.send [1],
      .peerSeal ⟨.post [] (some 1), 0, clearRecord 22 (keyUpdateMsg 1)⟩, .peerSeal ⟨.data [8], 0, clearRecord 23 [8]⟩,
      .recv wnMaxPlaintext, .send [2]] s ∧
    ∃ got toClient taken toPeer,
      Synchronised (Provider.clear .small) clearHsKeys clearHsKeys (clearWorld []).sent s got toClient taken toPeer := by
  obtain ⟨t, ht⟩ := Rfc.update_of (Provider.clear_total .small).expands clearHsKeys
  have hasked : Rfc.SealStep (Provider.clear .small) ⟨clearHsKeys, 0⟩
      ⟨.post [] (some 1), 0, clearRecord 22 (keyUpdateMsg 1)⟩ ⟨t, 0⟩ :=
    ⟨Rfc.Carried.fits_keyUpdate (by decide), clearRecord_seal .small clearHsKeys 0 22 (keyUpdateMsg 1),
      by simp [Rfc.Half.next, Rfc.Carried.updates, ht]⟩
  have hdata : Rfc.SealStep (Provider.clear .small) ⟨t, 0⟩ ⟨.data [8], 0, clearRecord 23 [8]⟩ ⟨t, 1⟩ :=
    ⟨trivial, clearRecord_seal .small t 0 23 [8], rfl⟩
  have hrun := Run.cons (System.Step.send (s := .start (clearWorld []) clearHsKeys clearHsKeys) [1])
    (.cons (.peerSeal hasked (by decide)) (.cons (.peerSeal hdata (by decide))
      (.cons (.recv (Nat.le_refl _)) (.single (.send [2])))))
  obtain ⟨got, toClient, taken, toPeer, h, -⟩ := synchronised (Provider.clear_total .small)
    (Provider.clear_opensSealed .small) (by decide) rfl rfl (by simp [World.Sending, clearWorld, World.fresh]) hrun
  exact ⟨_, hrun, got, toClient, taken, toPeer, h⟩

end WolfNano

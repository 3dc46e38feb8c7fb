/-
`wn_session_posths` computes the fold of its messages.

The content of a handshake record after the handshake is a sequence of
messages (RFC 8446 4.6). `Directions.take` says what one of them does to the
two directions of the client and to what it has sent, with keys and numbers
and nothing of the code; the loop takes the messages one by one, refuses any
other content, and neither runs on nor looks past its end.
-/
import WolfNano.ClientMoves

namespace WolfNano

open Prog Wire

/-! ## The messages -/

namespace Rfc

/-- A post-handshake message (4.6). -/
inductive PostMsg where
  | ticket (body : Bytes)
  | keyUpdate (req : UInt8)
  deriving DecidableEq

namespace PostMsg

def encode : PostMsg → Bytes
  | .ticket body => hsMsg 4 body
  | .keyUpdate req => hsMsg 24 [req]

/-- A ticket's length fits its field, and request_update is one of its two values. -/
def Fits : PostMsg → Prop
  | .ticket body => body.length < 2 ^ 24
  | .keyUpdate req => req ≤ 1

def update? : PostMsg → Option UInt8
  | .ticket _ => none
  | .keyUpdate req => some req

/-- The peer moves its keys on. -/
def updates (m : PostMsg) : Bool := m.update?.isSome

/-- It asks for the same. -/
def requests (m : PostMsg) : Bool := m.update? = some 1

end PostMsg

/-- Messages on end. -/
def postContent (msgs : List PostMsg) : Bytes := (msgs.map PostMsg.encode).flatten

@[simp] theorem postContent_nil : postContent [] = [] := rfl

@[simp] theorem postContent_cons (m : PostMsg) (msgs : List PostMsg) :
    postContent (m :: msgs) = m.encode ++ postContent msgs := rfl

/-! ## What a message does -/

/-- The two directions of an endpoint, and the records it has sent. -/
structure Directions where
  read : Half
  write : Half
  out : List Bytes

variable {cfg : Config} (p : Provider cfg)

/-- A KeyUpdate, in the write keys in force, and the keys after it (4.6.3). -/
def Directions.answer (d : Directions) : Option Directions := do
  let record ← sealRecord p d.write.keys d.write.seq.toNat 22 (hsMsg 24 [0]) 0
  let keys ← update p d.write.keys
  some { d with write := ⟨keys, 0⟩, out := d.out ++ [record] }

/-- A message is taken: a ticket changes nothing, a KeyUpdate moves the read
keys on and is answered if it asks for that. -/
def Directions.take (d : Directions) (m : PostMsg) : Option Directions :=
  match m.update? with
  | none => some d
  | some req => do
    let keys ← update p d.read.keys
    let d := { d with read := ⟨keys, 0⟩ }
    if req = 1 then d.answer p else some d

/-- Messages that were taken have moved the read keys on as often as they were
KeyUpdates, and the write keys as often as those asked; each answer is under
the keys before its own move, at the number of its time if it was the first and
else at 0. -/
structure Directions.Folded (d : Directions) (msgs : List PostMsg) (d' : Directions) : Prop where
  read : generation p d.read.keys (msgs.countP PostMsg.updates) = some d'.read.keys
  readSeq : d'.read.seq = if msgs.countP PostMsg.updates = 0 then d.read.seq else 0
  write : generation p d.write.keys (msgs.countP PostMsg.requests) = some d'.write.keys
  writeSeq : d'.write.seq = if msgs.countP PostMsg.requests = 0 then d.write.seq else 0
  out : ∃ answers : List Bytes, d'.out = d.out ++ answers ∧ answers.length = msgs.countP PostMsg.requests ∧
    ∀ (k : Nat) (h : k < answers.length), ∃ keys, generation p d.write.keys k = some keys ∧
      sealRecord p keys (if k = 0 then d.write.seq.toNat else 0) 22 (hsMsg 24 [0]) 0 = some answers[k]

variable {p}

theorem Directions.folded_nil (d : Directions) : d.Folded p [] d :=
  ⟨rfl, rfl, rfl, rfl, [], (List.append_nil _).symm, rfl, fun k h => absurd h (Nat.not_lt_zero k)⟩

theorem Directions.answer_some {d d' : Directions} (h : d.answer p = some d') : ∃ record keys,
    sealRecord p d.write.keys d.write.seq.toNat 22 (hsMsg 24 [0]) 0 = some record ∧ update p d.write.keys = some keys ∧
      d' = { d with write := ⟨keys, 0⟩, out := d.out ++ [record] } := by
  rw [answer] at h
  simp only [Option.bind_eq_bind, Option.bind_eq_some_iff] at h
  obtain ⟨record, hseal, keys, hkeys, h⟩ := h
  exact ⟨record, keys, hseal, hkeys, (Option.some.inj h).symm⟩

/-- A message moves the read half if it is a KeyUpdate, -/
theorem Directions.take_read {d d' : Directions} {m : PostMsg} (h : d.take p m = some d') :
    if m.updates then ∃ keys, update p d.read.keys = some keys ∧ d'.read = ⟨keys, 0⟩ else d'.read = d.read := by
  unfold take at h
  unfold PostMsg.updates
  cases hreq : m.update? with
  | none =>
    rw [hreq] at h
    cases h
    rfl
  | some req =>
    rw [hreq] at h
    simp only [Option.bind_eq_bind, Option.bind_eq_some_iff] at h
    obtain ⟨keys, hkeys, h⟩ := h
    refine ⟨keys, hkeys, ?_⟩
    split at h
    · obtain ⟨_, _, -, -, rfl⟩ := answer_some h
      rfl
    · cases h
      rfl

/-- and the write half if it asks for that. -/
theorem Directions.take_write {d d' : Directions} {m : PostMsg} (h : d.take p m = some d') :
    if m.requests then ∃ record keys, sealRecord p d.write.keys d.write.seq.toNat 22 (hsMsg 24 [0]) 0 = some record ∧
      update p d.write.keys = some keys ∧ d'.write = ⟨keys, 0⟩ ∧ d'.out = d.out ++ [record]
    else d'.write = d.write ∧ d'.out = d.out := by
  unfold take at h
  unfold PostMsg.requests
  cases hreq : m.update? with
  | none =>
    rw [hreq] at h
    cases h
    exact ⟨rfl, rfl⟩
  | some req =>
    rw [hreq] at h
    simp only [Option.bind_eq_bind, Option.bind_eq_some_iff] at h
    obtain ⟨keys, hkeys, h⟩ := h
    by_cases hone : req = 1
    · rw [if_pos hone] at h
      obtain ⟨record, wkeys, hseal, hwkeys, rfl⟩ := answer_some h
      rw [if_pos (by simp [hone])]
      exact ⟨record, wkeys, hseal, hwkeys, rfl, rfl⟩
    · rw [if_neg hone] at h
      cases h
      rw [if_neg (by simp [hone])]
      exact ⟨rfl, rfl⟩

theorem countP_snoc (P : PostMsg → Bool) (msgs : List PostMsg) (m : PostMsg) :
    (msgs ++ [m]).countP P = msgs.countP P + if P m then 1 else 0 := by
  rw [List.countP_append, List.countP_singleton]

/-- The answers so far, and one more under the keys they left. -/
theorem Directions.Folded.answers {d d' : Directions} {msgs : List PostMsg} (h : d.Folded p msgs d') {record : Bytes}
    (hseal : sealRecord p d'.write.keys d'.write.seq.toNat 22 (hsMsg 24 [0]) 0 = some record) :
    ∃ answers : List Bytes, d'.out ++ [record] = d.out ++ answers ∧ answers.length = msgs.countP PostMsg.requests + 1 ∧
      ∀ (k : Nat) (h : k < answers.length), ∃ keys, generation p d.write.keys k = some keys ∧
        sealRecord p keys (if k = 0 then d.write.seq.toNat else 0) 22 (hsMsg 24 [0]) 0 = some answers[k] := by
  obtain ⟨answers, hout, hlen, hanswers⟩ := h.out
  refine ⟨answers ++ [record], by rw [hout, List.append_assoc], by rw [List.length_append, hlen]; rfl, ?_⟩
  intro k hk
  by_cases hlast : k < answers.length
  · rw [List.getElem_append_left hlast]
    exact hanswers k hlast
  · have hk : k = answers.length := by
      rw [List.length_append, List.length_singleton] at hk
      omega
    subst hk
    refine ⟨d'.write.keys, by rw [hlen]; exact h.write, ?_⟩
    rw [List.getElem_concat_length rfl, ← hseal, h.writeSeq, hlen]
    split <;> rfl

/-- The messages are taken from the front; the fold is looked at from the back,
where the last answer's keys are those of the answers before it. -/
theorem Directions.Folded.snoc {d d' d'' : Directions} {msgs : List PostMsg} {m : PostMsg} (h : d.Folded p msgs d')
    (hm : d'.take p m = some d'') : d.Folded p (msgs ++ [m]) d'' := by
  have hread := take_read hm
  have hwrite := take_write hm
  have hreads : generation p d.read.keys ((msgs ++ [m]).countP PostMsg.updates) = some d''.read.keys ∧
      d''.read.seq = if (msgs ++ [m]).countP PostMsg.updates = 0 then d.read.seq else 0 := by
    rw [countP_snoc]
    cases hu : m.updates with
    | false =>
      rw [hu, if_neg Bool.false_ne_true] at hread
      rw [hread]
      exact ⟨h.read, h.readSeq⟩
    | true =>
      rw [hu, if_pos rfl] at hread
      obtain ⟨keys, hkeys, hnew⟩ := hread
      rw [hnew]
      refine ⟨?_, rfl⟩
      rw [if_pos rfl, generation, h.read]
      exact hkeys
  cases hr : m.requests with
  | false =>
    rw [hr, if_neg Bool.false_ne_true] at hwrite
    obtain ⟨hsame, hout⟩ := hwrite
    have hcount : (msgs ++ [m]).countP PostMsg.requests = msgs.countP PostMsg.requests := by
      rw [countP_snoc, hr]
      rfl
    exact ⟨hreads.1, hreads.2, by rw [hcount, hsame, h.write], by rw [hcount, hsame, h.writeSeq],
      by rw [hcount, hout]; exact h.out⟩
  | true =>
    rw [hr, if_pos rfl] at hwrite
    obtain ⟨record, keys, hseal, hkeys, hnew, hout⟩ := hwrite
    have hcount : (msgs ++ [m]).countP PostMsg.requests = msgs.countP PostMsg.requests + 1 := by
      rw [countP_snoc, hr]
      rfl
    refine ⟨hreads.1, hreads.2, ?_, by rw [hcount, hnew]; rfl, by rw [hcount, hout]; exact h.answers hseal⟩
    rw [hcount, hnew, generation, h.write]
    exact hkeys

/-- What a fold of messages comes to. -/
theorem Directions.foldlM_folded {d : Directions} : ∀ {msgs msgs' : List PostMsg} {d' d'' : Directions},
    d.Folded p msgs d' → msgs'.foldlM (Directions.take p) d' = some d'' → d.Folded p (msgs ++ msgs') d''
  | msgs, [], d', d'', h, hfold => by
    cases hfold
    rwa [List.append_nil]
  | msgs, m :: msgs', d', d'', h, hfold => by
    rw [List.foldlM_cons, Option.bind_eq_bind, Option.bind_eq_some_iff] at hfold
    obtain ⟨d₁, hm, hfold⟩ := hfold
    rw [List.append_cons]
    exact foldlM_folded (h.snoc hm) hfold

end Rfc

/-! ## One message -/

variable {cfg : Config} {p : Provider cfg}

theorem takePost_encode {m : Rfc.PostMsg} (h : m.Fits) (r : Bytes) : takePost (m.encode ++ r) = .ok (m.update?, r) := by
  cases m with
  | ticket body => exact takePost_hsMsg h r
  | keyUpdate req =>
    rw [Rfc.PostMsg.encode, hsMsg_keyUpdate]
    exact takePost_keyUpdateMsg h r

theorem takePost_ok {q r : Bytes} {req : Option UInt8} (h : takePost q = .ok (req, r)) :
    ∃ m : Rfc.PostMsg, m.Fits ∧ q = m.encode ++ r := by
  cases req with
  | none =>
    obtain ⟨body, hbody, rfl⟩ := takePost_ticket h
    exact ⟨.ticket body, hbody, rfl⟩
  | some req =>
    obtain ⟨hreq, rfl⟩ := takePost_keyUpdate h
    exact ⟨.keyUpdate req, hreq, by rw [Rfc.PostMsg.encode, hsMsg_keyUpdate]⟩

/-- Content that is messages on end. -/
def IsPost (q : Bytes) : Prop := ∃ msgs : List Rfc.PostMsg, (∀ m ∈ msgs, m.Fits) ∧ q = Rfc.postContent msgs

theorem isPost_nil : IsPost [] := ⟨[], nofun, rfl⟩

theorem isPost_encode {m : Rfc.PostMsg} (h : m.Fits) (r : Bytes) : IsPost (m.encode ++ r) ↔ IsPost r := by
  have htake := takePost_encode h r
  constructor
  · intro hpost
    obtain ⟨msgs, hfits, heq⟩ := hpost
    cases msgs with
    | nil =>
      rw [heq] at htake
      cases htake
    | cons m' msgs =>
      obtain ⟨hm', hfits⟩ := List.forall_mem_cons.1 hfits
      rw [heq, Rfc.postContent_cons, takePost_encode hm'] at htake
      obtain ⟨-, hr⟩ := Prod.mk.inj (Except.ok.inj htake)
      exact ⟨msgs, hfits, hr.symm⟩
  · intro hpost
    obtain ⟨msgs, hfits, rfl⟩ := hpost
    exact ⟨m :: msgs, List.forall_mem_cons.2 ⟨h, hfits⟩, rfl⟩

/-! ## What the client does with it -/

/-- The client's two directions, and what it has sent. -/
def World.directions (w : World) : Rfc.Directions := ⟨w.readHalf, w.writeHalf, w.sent⟩

/-- A session whose answers go out whole. -/
structure World.Answers (w : World) : Prop where
  digest : w.sess.digest = .sha256
  sending : w.Sending

theorem World.Answers.headD {w : World} (h : w.Answers) : w.sendRes.headD true = true := by
  cases hs : w.sendRes with
  | nil => rfl
  | cons b l => exact h.sending b (by rw [hs]; exact List.mem_cons_self)

/-- The act of a turn that takes a message; `r` is what the record has after it. -/
def postAct (p : Provider cfg) (m : Rfc.PostMsg) (r : Bytes) : Io Unit :=
  match m.update? with
  | none => pure ()
  | some req => posthsKeyUpdate p req r

theorem posths_message {msg r : Bytes} {m : Rfc.PostMsg} (hm : m.Fits) (hq : m.encode ++ r <:+ msg)
    (hs : msg.length < 2 ^ 31) (n : Nat) (w : World) :
    repeatM .decode (posthsStep p msg) (n + 1) (readerAt msg (m.encode ++ r)) w =
      (postAct p m r >>= fun _ => repeatM .decode (posthsStep p msg) n (readerAt msg r)) w := by
  cases m with
  | ticket body => exact posths_ticket hq hs rfl hm n w
  | keyUpdate req => exact posths_keyUpdate hq hs (by rw [Rfc.PostMsg.encode, hsMsg_keyUpdate]) hm n w

section Calls

variable (hp : p.Total)
include hp

theorem wnSessionSendKeyUpdate_answer {w : World} (hw : w.Answers) : ∃ w', wnSessionSendKeyUpdate p w = .ok () w' ∧
    w.directions.answer p = some w'.directions ∧ w'.Answers ∧ w'.inbox = w.inbox := by
  obtain ⟨keys, hkeys⟩ := Rfc.update_of hp.expands w.sess.writeKeys
  have hlen : (keyUpdateMsg 0).length ≤ wnMaxPlaintext := by decide
  obtain ⟨record, hrec, hseal⟩ := protectRecord_total hp w.sess.writeKeys w.sess.cSeq wnRecHandshake hlen
  refine ⟨_, wnSessionSendKeyUpdate_of hw.digest hrec hw.headD hkeys, ?_, ⟨hw.digest, hw.sending.tail rfl⟩, rfl⟩
  rw [← hsMsg_keyUpdate] at hseal
  have hsent : ((w.afterSeal wnRecHandshake (keyUpdateMsg 0) record).rekeyWrite keys).sent = w.sent ++ [record] := by
    rw [World.sent_rekeyWrite, World.sent_afterSeal]
  have hanswer : w.directions.answer p = some ⟨w.readHalf, ⟨keys, 0⟩, w.sent ++ [record]⟩ := by
    simp only [Rfc.Directions.answer, World.directions, World.writeHalf]
    rw [show Rfc.sealRecord p w.sess.writeKeys w.sess.cSeq.toNat 22 (Rfc.hsMsg 24 [0]) 0 = some record from hseal, hkeys]
    rfl
  rw [hanswer, ← hsent]
  rfl

/-- **A message taken**: the client's directions move as the RFC has them. -/
theorem postAct_takes {w : World} (hw : w.Answers) {m : Rfc.PostMsg} (r : Bytes) : ∃ w', postAct p m r w = .ok () w' ∧
    w.directions.take p m = some w'.directions ∧ w'.Answers ∧ w'.inbox = w.inbox := by
  unfold postAct Rfc.Directions.take
  cases m.update? with
  | none => exact ⟨w, rfl, rfl, hw, rfl⟩
  | some req =>
    obtain ⟨keys, hkeys, hku⟩ := posthsKeyUpdate_eq hp.expands hw.digest req r
    have hread : (w.rekeyRead keys r).directions = { w.directions with read := ⟨keys, 0⟩ } := by
      unfold World.directions
      rw [World.sent_rekeyRead]
      rfl
    have hw₁ : (w.rekeyRead keys r).Answers := ⟨hw.digest, hw.sending⟩
    have hupdate : Rfc.update p w.directions.read.keys = some keys := hkeys
    dsimp only
    rw [hku, hupdate, Option.bind_eq_bind, Option.bind_some, ← hread]
    by_cases hreq : req = 1
    · rw [if_pos hreq, if_pos hreq]
      exact wnSessionSendKeyUpdate_answer hp hw₁
    · rw [if_neg hreq, if_neg hreq]
      exact ⟨_, rfl, rfl, hw₁, rfl⟩

/-- The loop takes the messages one by one, to the end of the content. -/
theorem posths_takes {msg : Bytes} (hs : msg.length < 2 ^ 31) : ∀ (msgs : List Rfc.PostMsg) (n : Nat) (w : World),
    (∀ m ∈ msgs, m.Fits) → Rfc.postContent msgs <:+ msg → (Rfc.postContent msgs).length < n → w.Answers →
      ∃ w', repeatM .decode (posthsStep p msg) n (readerAt msg (Rfc.postContent msgs)) w = .ok () w' ∧
        msgs.foldlM (Rfc.Directions.take p) w.directions = some w'.directions ∧ w'.inbox = w.inbox
  | [], n + 1, w, _, _, _, _ => ⟨w, posths_nil n w, rfl, rfl⟩
  | m :: msgs, n + 1, w, hfits, hq, hn, hw => by
    obtain ⟨hm, hfits⟩ := List.forall_mem_cons.1 hfits
    rw [Rfc.postContent_cons] at hq hn
    have hpos : 0 < m.encode.length := by cases m <;> exact Nat.zero_lt_succ _
    obtain ⟨w₁, hact, htakes, hw₁, hin₁⟩ := postAct_takes hp hw (m := m) (Rfc.postContent msgs)
    obtain ⟨w', hrun, hfold, hin⟩ := posths_takes hs msgs n w₁ hfits ((List.suffix_append _ _).trans hq)
      (by rw [List.length_append] at hn; omega) hw₁
    refine ⟨w', ?_, ?_, hin.trans hin₁⟩
    · rw [Rfc.postContent_cons, posths_message hm hq hs, bind_of_ok hact, hrun]
    · rw [List.foldlM_cons, htakes]
      exact hfold

/-- Any other content is refused. -/
theorem posths_refuses {msg : Bytes} (hs : msg.length < 2 ^ 31) : ∀ (n : Nat) (q : Bytes) (w : World), q <:+ msg →
    ¬ IsPost q → w.Answers → ∃ e w', repeatM .decode (posthsStep p msg) n (readerAt msg q) w = .error e w'
  | 0, _, w, _, _, _ => ⟨.decode, w, rfl⟩
  | n + 1, q, w, hq, hno, hw => by
    have hne : q ≠ [] := fun h => hno (h ▸ isPost_nil)
    cases ht : takePost q with
    | error e => exact ⟨e, w, posths_refused hq hs hne ht n w⟩
    | ok x =>
      obtain ⟨req, r⟩ := x
      obtain ⟨m, hm, rfl⟩ := takePost_ok ht
      obtain ⟨w₁, hact, -, hw₁, -⟩ := postAct_takes hp hw (m := m) r
      rw [posths_message hm hq hs, bind_of_ok hact]
      exact posths_refuses hs n r w₁ ((List.suffix_append _ _).trans hq) (mt (isPost_encode hm r).2 hno) hw₁

end Calls

/-! ## Where it looks, and when it stops -/

/-- The same reader, over memory that goes on after its buffer. -/
def Reader.over (r : Reader) (rest : Bytes) : Reader := { r with buf := r.buf ++ rest }

theorem Reader.over_pos (r : Reader) (rest : Bytes) : (r.over rest).pos = r.pos := rfl

/-- A cursor within the buffer it reads. -/
structure Reader.Within (r : Reader) : Prop where
  size : r.len = r.buf.length
  pos : r.pos ≤ r.len
  small : r.len < 2 ^ 31

section Over

variable {r : Reader} (h : r.Within) (rest : Bytes)
include h

theorem wnReadU8_over : wnReadU8 (r.over rest) = ((wnReadU8 r).1, (wnReadU8 r).2.over rest) ∧
    (wnReadU8 r).2.Within := by
  unfold wnReadU8
  by_cases hread : r.err = false ∧ r.pos < r.len
  · have hbig := h.small
    have hsum : add32 r.pos 1 = r.pos + 1 := add32_eq (by omega)
    have hin : r.pos < r.buf.length := by rw [← h.size]; exact hread.2
    rw [if_pos hread, if_pos (by exact hread), Reader.over, List.getD_append _ _ _ _ hin]
    exact ⟨rfl, h.size, by rw [hsum]; exact hread.2, h.small⟩
  · rw [if_neg hread, if_neg (by exact hread)]
    exact ⟨rfl, h.size, h.pos, h.small⟩

theorem wnReadU24_over : wnReadU24 (r.over rest) = ((wnReadU24 r).1, (wnReadU24 r).2.over rest) ∧
    (wnReadU24 r).2.Within := by
  have hbig := h.small
  have hpos := h.pos
  have hone : add32 r.pos 1 = r.pos + 1 := add32_eq (by omega)
  have htwo : add32 r.pos 2 = r.pos + 2 := add32_eq (by omega)
  have hsum : add32 r.pos 3 = r.pos + 3 := add32_eq (by omega)
  unfold wnReadU24
  by_cases hread : r.err = false ∧ add32 r.pos 3 ≤ r.len
  · have hin : r.pos + 3 ≤ r.buf.length := by rw [← h.size, ← hsum]; exact hread.2
    rw [if_pos hread, if_pos (by exact hread), Reader.over]
    dsimp only
    rw [hone, htwo, List.getD_append _ _ _ _ (by omega), List.getD_append _ _ _ _ (by omega),
      List.getD_append _ _ _ _ (by omega)]
    exact ⟨rfl, h.size, hread.2, h.small⟩
  · rw [if_neg hread, if_neg (by exact hread)]
    exact ⟨rfl, h.size, h.pos, h.small⟩

theorem wnReadU16_over : wnReadU16 (r.over rest) = ((wnReadU16 r).1, (wnReadU16 r).2.over rest) ∧
    (wnReadU16 r).2.Within := by
  have hbig := h.small
  have hpos := h.pos
  have hone : add32 r.pos 1 = r.pos + 1 := add32_eq (by omega)
  have hsum : add32 r.pos 2 = r.pos + 2 := add32_eq (by omega)
  unfold wnReadU16
  by_cases hread : r.err = false ∧ add32 r.pos 2 ≤ r.len
  · have hin : r.pos + 2 ≤ r.buf.length := by rw [← h.size, ← hsum]; exact hread.2
    rw [if_pos hread, if_pos (by exact hread), Reader.over]
    dsimp only
    rw [hone, List.getD_append _ _ _ _ (by omega), List.getD_append _ _ _ _ (by omega)]
    exact ⟨rfl, h.size, hread.2, h.small⟩
  · rw [if_neg hread, if_neg (by exact hread)]
    exact ⟨rfl, h.size, h.pos, h.small⟩

/-- The bytes' address is all that the loop has of them. -/
theorem wnReadBytes_over (n : Nat) : (wnReadBytes (r.over rest) n).2 = (wnReadBytes r n).2.over rest ∧
    (wnReadBytes r n).2.Within := by
  unfold wnReadBytes
  by_cases hread : r.err = false ∧ add32 r.pos n ≤ r.len
  · rw [if_pos hread, if_pos (by exact hread)]
    exact ⟨rfl, h.size, hread.2, h.small⟩
  · rw [if_neg hread, if_neg (by exact hread)]
    exact ⟨rfl, h.size, h.pos, h.small⟩

/-- A turn goes on with the cursor where it is without the memory after. -/
theorem posthsStep_over (msg : Bytes) : posthsStep p msg (r.over rest) =
    posthsStep p msg r >>= fun x => pure (x.map (·.over rest) id) := by
  obtain ⟨hu8, hin⟩ := wnReadU8_over h rest
  unfold posthsStep
  by_cases hend : r.pos < msg.length
  · rw [if_pos hend, if_pos (by exact hend), hu8]
    generalize wnReadU8 r = x at hin ⊢
    obtain ⟨mType, r₁⟩ := x
    obtain ⟨hu24, hin⟩ := wnReadU24_over hin rest
    dsimp only at hu24 hin ⊢
    rw [hu24]
    generalize wnReadU24 r₁ = x at hin ⊢
    obtain ⟨mLen, r₂⟩ := x
    dsimp only at hin ⊢
    by_cases hticket : mType = wnHsNewSessionTicket
    · obtain ⟨hbytes, -⟩ := wnReadBytes_over hin rest mLen
      rw [if_pos hticket, if_pos hticket, hbytes, bind_assoc]
      rfl
    · rw [if_neg hticket, if_neg hticket]
      by_cases hku : mType = wnHsKeyUpdate
      · obtain ⟨hreq, -⟩ := wnReadU8_over hin rest
        rw [if_pos hku, if_pos hku, hreq]
        simp only [bind_assoc, pure_bind]
        rfl
      · rw [if_neg hku, if_neg hku]
        rfl
  · rw [if_neg hend, if_neg (by exact hend)]
    rfl

theorem posthsStep_within {msg : Bytes} {r' : Reader} {w w' : World} (hstep : posthsStep p msg r w = .ok (.inl r') w') :
    r'.Within := by
  obtain ⟨-, hin⟩ := wnReadU8_over h []
  unfold posthsStep at hstep
  split at hstep
  · generalize wnReadU8 r = x at hin hstep
    obtain ⟨mType, r₁⟩ := x
    obtain ⟨-, hin⟩ := wnReadU24_over hin []
    dsimp only at hin hstep
    generalize wnReadU24 r₁ = x at hin hstep
    obtain ⟨mLen, r₂⟩ := x
    dsimp only at hin hstep
    split at hstep
    · obtain ⟨_, _, -, hstep⟩ := bind_ok.1 hstep
      cases hstep
      exact (wnReadBytes_over hin [] mLen).2
    · split at hstep
      · obtain ⟨_, _, -, hstep⟩ := bind_ok.1 hstep
        obtain ⟨_, _, -, hstep⟩ := bind_ok.1 hstep
        cases hstep
        exact (wnReadU8_over hin []).2
      · cases hstep
  · cases hstep

end Over

/-- Each turn leaves less to read. -/
theorem posthsStep_shorter {msg q : Bytes} (hq : q <:+ msg) (hs : msg.length < 2 ^ 31) {r' : Reader} {w w' : World}
    (hstep : posthsStep p msg (readerAt msg q) w = .ok (.inl r') w') :
    ∃ q', q' <:+ msg ∧ r' = readerAt msg q' ∧ q'.length < q.length := by
  by_cases hne : q = []
  · subst hne
    unfold posthsStep at hstep
    rw [if_neg (by simp [readerAt_pos])] at hstep
    cases hstep
  rw [posthsStep_at hq hs hne] at hstep
  cases ht : takePost q with
  | error e =>
    rw [ht] at hstep
    cases hstep
  | ok x =>
    obtain ⟨req, r⟩ := x
    obtain ⟨m, hm, rfl⟩ := takePost_ok ht
    have hpos : 0 < m.encode.length := by cases m <;> exact Nat.zero_lt_succ _
    have hr : r' = readerAt msg r := by
      rw [ht] at hstep
      cases req with
      | none =>
        cases hstep
        rfl
      | some req =>
        obtain ⟨_, _, -, hstep⟩ := bind_ok.1 hstep
        cases hstep
        rfl
    exact ⟨r, (List.suffix_append _ _).trans hq, hr, by rw [List.length_append]; omega⟩

/-- The loop does not look past the content, and ends before its fuel does. -/
theorem posths_inside {content : Bytes} (hs : content.length < 2 ^ 31) (out : Err) (rest : Bytes) {n : Nat}
    (hn : content.length < n) (w : World) :
    repeatM out (posthsStep p content) n (wnReaderInit (content ++ rest) content.length) w =
      wnSessionPosths p content w := by
  have hwithin : (wnReaderInit content content.length).Within := ⟨rfl, Nat.zero_le _, hs⟩
  have hover : wnReaderInit (content ++ rest) content.length = (wnReaderInit content content.length).over rest := rfl
  rw [hover, repeatM_map (I := Reader.Within) (fun r hr => posthsStep_over hr rest content)
    (fun hr hstep => posthsStep_within hr hstep) hwithin, wnSessionPosths, wnReaderInit_eq]
  refine repeatM_fuel (fun r _ => ∃ q, q <:+ content ∧ r = readerAt content q) (fun r _ => r.len - r.pos) ?_
    ⟨content, List.suffix_refl _, rfl⟩ ?_ ?_
  · intro r w r' w' hr hstep
    obtain ⟨q, hq, rfl⟩ := hr
    obtain ⟨q', hq', rfl, hlt⟩ := posthsStep_shorter hq hs hstep
    refine ⟨⟨q', hq', rfl⟩, ?_⟩
    have := hq.length_le
    simp only [readerAt_len, readerAt_pos]
    omega
  · simp only [readerAt_len, readerAt_pos]
    omega
  · simp only [readerAt_len, readerAt_pos]
    omega

/-! ## The content -/

/-- **`wn_session_posths` computes the fold of its messages**: it accepts
exactly the content that is messages on end, and then has taken them. Whatever
is in memory after the content, no number of turns beyond its length makes a
difference. -/
theorem wnSessionPosths_fold (hp : p.Total) {content : Bytes} (hs : content.length < 2 ^ 31) {w : World}
    (hw : w.Answers) :
    ((∃ w', wnSessionPosths p content w = .ok () w') ↔
      ∃ msgs : List Rfc.PostMsg, (∀ m ∈ msgs, m.Fits) ∧ content = Rfc.postContent msgs) ∧
      (∀ (msgs : List Rfc.PostMsg) (w' : World), (∀ m ∈ msgs, m.Fits) → content = Rfc.postContent msgs →
        wnSessionPosths p content w = .ok () w' →
          msgs.foldlM (Rfc.Directions.take p) w.directions = some w'.directions ∧
            w.directions.Folded p msgs w'.directions ∧ w'.inbox = w.inbox) ∧
      ∀ (out : Err) (rest : Bytes) (n : Nat), content.length < n →
        repeatM out (posthsStep p content) n (wnReaderInit (content ++ rest) content.length) w =
          wnSessionPosths p content w := by
  have hrun : wnSessionPosths p content w =
      repeatM .decode (posthsStep p content) (content.length + 1) (readerAt content content) w := by
    rw [wnSessionPosths, wnReaderInit_eq]
  have htakes : ∀ msgs : List Rfc.PostMsg, (∀ m ∈ msgs, m.Fits) → content = Rfc.postContent msgs →
      ∃ w', wnSessionPosths p content w = .ok () w' ∧
        msgs.foldlM (Rfc.Directions.take p) w.directions = some w'.directions ∧ w'.inbox = w.inbox := by
    intro msgs hfits heq
    have h := posths_takes hp hs msgs (content.length + 1) w hfits (heq ▸ List.suffix_refl content)
      (heq ▸ Nat.lt_succ_self _) hw
    rw [← heq, ← hrun] at h
    exact h
  refine ⟨⟨fun h => ?_, fun h => ?_⟩, fun msgs w' hfits heq hok => ?_, fun out rest n hn => posths_inside hs out rest hn w⟩
  · by_contra hno
    obtain ⟨w', hok⟩ := h
    obtain ⟨e, w'', herr⟩ := posths_refuses hp hs (content.length + 1) content w (List.suffix_refl _) hno hw
    rw [hrun, herr] at hok
    cases hok
  · obtain ⟨msgs, hfits, heq⟩ := h
    obtain ⟨w', hok, -⟩ := htakes msgs hfits heq
    exact ⟨w', hok⟩
  · obtain ⟨w'', hok', hfold, hin⟩ := htakes msgs hfits heq
    rw [hok] at hok'
    cases hok'
    exact ⟨hfold, Rfc.Directions.foldlM_folded (Rfc.Directions.folded_nil _) hfold, hin⟩

/-- A ticket, and a KeyUpdate that asks for one. -/
def ticketAndUpdate : List Rfc.PostMsg := [.ticket [9], .keyUpdate 1]

theorem wnSessionPosths_fold_clear : ∃ w',
    wnSessionPosths (.clear .small) ([4, 0, 0, 1, 9] ++ keyUpdateMsg 1) (clearWorld []) = .ok () w' ∧
      (clearWorld []).directions.Folded (.clear .small) ticketAndUpdate w'.directions := by
  have hfits : ∀ m ∈ ticketAndUpdate, m.Fits := by
    intro m hm
    simp only [ticketAndUpdate, List.mem_cons, List.not_mem_nil, or_false] at hm
    rcases hm with rfl | rfl
    · exact show 1 < 2 ^ 24 by decide
    · exact show (1 : UInt8) ≤ 1 by decide
  obtain ⟨hiff, hfold, -⟩ := wnSessionPosths_fold (Provider.clear_total .small)
    (show ([4, 0, 0, 1, 9] ++ keyUpdateMsg 1).length < 2 ^ 31 by decide) (w := clearWorld [])
    ⟨rfl, by simp [World.Sending, clearWorld, World.fresh]⟩
  obtain ⟨w', hok⟩ := hiff.2 ⟨ticketAndUpdate, hfits, rfl⟩
  exact ⟨w', hok, (hfold ticketAndUpdate w' hfits rfl hok).2.1⟩

end WolfNano

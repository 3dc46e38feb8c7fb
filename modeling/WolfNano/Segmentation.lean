/-
The transport may cut the stream into whatever pieces it likes, over the whole
life of a connection: `dialogue_segmentation`.

A transport is seen as its `stream`, its bytes in order with a mark where a
call fails. `io_recv_exact` is a function of that (`takeExact`), and it is all
that reads; everything else is the same program in both runs, part by part.
-/
import WolfNano.Client
import WolfNano.Observed
import WolfNano.ClearProvider

namespace WolfNano

open Prog

/-! ## The stream -/

/-- What one piece of the transport holds; an empty one is a call that fails. -/
def pieceStream (c : Bytes) : List (Option UInt8) := if c = [] then [none] else c.map some

def stream (inbox : List Bytes) : List (Option UInt8) := inbox.flatMap pieceStream

@[simp] theorem stream_nil : stream [] = [] := rfl

@[simp] theorem stream_cons_nil (cs : List Bytes) : stream ([] :: cs) = none :: stream cs := rfl

@[simp] theorem stream_cons_cons (b : UInt8) (c : Bytes) (cs : List Bytes) :
    stream ((b :: c) :: cs) = some b :: (c.map some ++ stream cs) := rfl

/-- The pieces' bytes are the stream's. -/
theorem stream_bytes (inbox : List Bytes) : (stream inbox).filterMap id = inbox.flatten := by
  induction inbox with
  | nil => rfl
  | cons c cs ih =>
    cases c with
    | nil => simpa using ih
    | cons b c =>
      rw [List.flatten_cons, ← ih]
      simp [List.filterMap_map]

/-- Without failures the stream is the bytes. -/
theorem stream_flowing {inbox : List Bytes} (h : [] ∉ inbox) : stream inbox = inbox.flatten.map some := by
  induction inbox with
  | nil => rfl
  | cons c cs ih =>
    obtain ⟨hc, hcs⟩ := not_or.1 (fun hmem => h (List.mem_cons.2 hmem))
    cases c with
    | nil => exact absurd rfl hc
    | cons b c => simp [ih hcs]

/-- Reading `n` bytes: they, unless a failure or the end comes first, and what
is left of the stream. -/
def takeExact : Nat → List (Option UInt8) → Option Bytes × List (Option UInt8)
  | 0, ts => (some [], ts)
  | _ + 1, [] => (none, [])
  | _ + 1, none :: ts => (none, ts)
  | n + 1, some b :: ts => ((takeExact n ts).1.map (b :: ·), (takeExact n ts).2)

@[simp] theorem takeExact_zero (ts : List (Option UInt8)) : takeExact 0 ts = (some [], ts) := by
  cases ts <;> rfl

/-- Bytes that are there are taken, and as many fewer are still to come. -/
theorem takeExact_append (d : Bytes) (n : Nat) (ts : List (Option UInt8)) :
    takeExact (d.length + n) (d.map some ++ ts) = ((takeExact n ts).1.map (d ++ ·), (takeExact n ts).2) := by
  induction d with
  | nil => simp
  | cons b d ih =>
    rw [List.length_cons, Nat.add_right_comm, List.map_cons, List.cons_append, takeExact, ih]
    simp [Function.comp_def]

/-! ## One read -/

/-- What `ioRecvExactLoop` does, of the stream alone. -/
def streamRead (got : Bytes) (r : Option Bytes) (w : World) : EStateM.Result Err World Bytes :=
  match r with
  | some bs => .ok (got ++ bs) w
  | none => .error .crypto w

theorem ioRecvExactLoop_stream (n : Nat) : ∀ (k : Nat) (got : Bytes) (w : World), got.length ≤ n → n ≤ got.length + k →
    ∃ inbox, stream inbox = (takeExact (n - got.length) (stream w.inbox)).2 ∧ ioRecvExactLoop n k got w =
      streamRead got (takeExact (n - got.length) (stream w.inbox)).1 { w with inbox } := by
  intro k
  induction k with
  | zero =>
    intro got w hle hk
    have hn : n - got.length = 0 := by omega
    exact ⟨w.inbox, by simp [hn], by simp [hn, ioRecvExactLoop, streamRead]⟩
  | succ k ih =>
    intro got w hle hk
    by_cases hg : got.length < n
    · rw [ioRecvExactLoop, if_pos hg]
      obtain ⟨m, hm⟩ : ∃ m, n - got.length = m + 1 := ⟨n - got.length - 1, by omega⟩
      obtain ⟨inbox, sendRes, trace, sess⟩ := w
      cases inbox with
      | nil => exact ⟨[], by simp [hm, takeExact], by rw [hm]; rfl⟩
      | cons piece cs =>
      cases piece with
      | nil => exact ⟨cs, by simp [hm, takeExact], by rw [hm]; rfl⟩
      | cons b c =>
        -- The call takes the piece's front, as much as is asked for.
        have hread : ioRecv (n - got.length) ⟨(b :: c) :: cs, sendRes, trace, sess⟩ =
          .ok (some ((b :: c).take (n - got.length))) ⟨if n - got.length < (b :: c).length
            then (b :: c).drop (n - got.length) :: cs else cs, sendRes, trace, sess⟩ := rfl
        have hlen : ((b :: c).take (n - got.length)).length ≤ n - got.length := by simp
        have hpos : 0 < ((b :: c).take (n - got.length)).length := by simp; omega
        have hstream : stream ((b :: c) :: cs) = ((b :: c).take (n - got.length)).map some ++
            stream (if n - got.length < (b :: c).length then (b :: c).drop (n - got.length) :: cs else cs) := by
          split
          · next hlt =>
            obtain ⟨b', c', hdrop⟩ : ∃ b' c', (b :: c).drop (n - got.length) = b' :: c' :=
              List.exists_cons_of_ne_nil (by simpa [List.drop_eq_nil_iff] using hlt)
            calc stream ((b :: c) :: cs)
                = ((b :: c).take (n - got.length) ++ (b :: c).drop (n - got.length)).map some ++ stream cs := by
                  rw [List.take_append_drop]; simp
              _ = _ := by rw [hdrop]; simp
          · next hlt => rw [List.take_of_length_le (by omega)]; simp
        generalize (b :: c).take (n - got.length) = d at hread hlen hpos hstream
        generalize (if n - got.length < (b :: c).length then (b :: c).drop (n - got.length) :: cs else cs) = inbox
          at hread hstream
        rw [bind_of_ok hread]
        obtain ⟨inbox', hleft, hloop⟩ := ih (got ++ d) ⟨inbox, sendRes, trace, sess⟩
          (by simp; omega) (by simp; omega)
        have hsplit : takeExact (n - got.length) (stream ((b :: c) :: cs)) =
            ((takeExact (n - (got ++ d).length) (stream inbox)).1.map (d ++ ·),
              (takeExact (n - (got ++ d).length) (stream inbox)).2) := by
          rw [hstream, ← takeExact_append, List.length_append]
          congr 1
          omega
        refine ⟨inbox', by rw [hleft, hsplit], ?_⟩
        dsimp only at hloop ⊢
        rw [hloop, hsplit]
        cases (takeExact (n - (got ++ d).length) (stream inbox)).1 with
        | none => rfl
        | some bs => simp [streamRead]
    · have hn : n - got.length = 0 := by omega
      rw [ioRecvExactLoop, if_neg hg]
      exact ⟨w.inbox, by simp [hn], by simp [hn, streamRead]⟩

/-- The same world to every part of the client: what was done, the session and
the stream to come, but not the pieces it comes in. -/
structure SameStream (w w' : World) : Prop where
  stream : stream w.inbox = stream w'.inbox
  sendRes : w.sendRes = w'.sendRes
  trace : w.trace = w'.trace
  sess : w.sess = w'.sess

theorem SameStream.pending {w w' : World} (h : SameStream w w') : w.pending = w'.pending := by
  rw [World.pending, World.pending, ← stream_bytes, ← stream_bytes, h.stream]

theorem ioRecvExact_stream (n : Nat) : Rel SameStream Eq (ioRecvExact n) (ioRecvExact n) := by
  intro w w' h
  obtain ⟨inbox, hleft, hrun⟩ := ioRecvExactLoop_stream n n [] w (by simp) (by simp)
  obtain ⟨inbox', hleft', hrun'⟩ := ioRecvExactLoop_stream n n [] w' (by simp) (by simp)
  have hrest : SameStream { w with inbox } { w' with inbox := inbox' } :=
    ⟨by rw [hleft, hleft', h.stream], h.sendRes, h.trace, h.sess⟩
  unfold ioRecvExact
  rw [hrun, hrun', h.stream]
  cases (takeExact (n - ([] : Bytes).length) (stream w'.inbox)).1 with
  | none => exact ⟨rfl, hrest⟩
  | some bs => exact ⟨rfl, hrest⟩

theorem wnRecvRecord_stream (cap : Nat) : Rel SameStream Eq (wnRecvRecord cap) (wnRecvRecord cap) :=
  .seq (ioRecvExact_stream 5) fun _ => .seq (.failIf _ _) fun _ => .seq (ioRecvExact_stream _) fun _ =>
    .seq (.failIf _ _) fun _ => .pure rfl

/-! ## The parts of the client

None of them looks at the pieces, so each does the same in both worlds. -/

theorem emit_stream (ev : Event) : Rel SameStream Eq (emit ev) (emit ev) :=
  .modify fun _ _ hw => ⟨hw.stream, hw.sendRes, by rw [hw.trace], hw.sess⟩

theorem setSess_stream (s : Session) : Rel SameStream Eq (setSess s) (setSess s) :=
  .modify fun _ _ hw => ⟨hw.stream, hw.sendRes, hw.trace, rfl⟩

theorem ioSend_stream (buf : Bytes) : Rel SameStream Eq (ioSend buf) (ioSend buf) := fun _ _ hw =>
  ⟨by rw [hw.sendRes], hw.stream, by rw [hw.sendRes], by rw [hw.sendRes, hw.trace], hw.sess⟩

/-- A loop with as much fuel as the transport holds bytes. -/
theorem repeatM_stream {α β : Type} {out : Err} {body : β → Io (β ⊕ α)} (h : ∀ b, Rel SameStream Eq (body b) (body b))
    (b : β) : Rel SameStream Eq (do repeatM out body ((← get).pending + 1) b)
      (do repeatM out body ((← get).pending + 1) b) :=
  .get fun _ _ hw => by
    rw [hw.pending]
    exact .repeatM_same h _ b

variable {cfg : Config} {p : Provider cfg} {c : CertProvider}

theorem wnRecordProtect_stream (key : Block 16) (iv : Block 12) (seq : UInt64) (type : UInt8) (content : Bytes) :
    Rel SameStream Eq (wnRecordProtect p key iv seq type content) (wnRecordProtect p key iv seq type content) :=
  .seq (emit_stream _) fun _ => .ofExcept _

theorem sendPlainRecord_stream (type : UInt8) (body : Bytes) :
    Rel SameStream Eq (sendPlainRecord type body) (sendPlainRecord type body) :=
  .seq (ioSend_stream _) fun _ => .seq (.failIf _ _) fun _ => .seq (ioSend_stream _) fun _ => .failIf _ _

theorem pskClientHello_stream (a : PskArgs p) : Rel SameStream Eq (pskClientHello p a) (pskClientHello p a) := by
  refine .seq (.ofExcept _) fun emptyHash => ?_
  refine .seq (.ofExcept _) fun random32 => .seq (.ofExcept _) fun sid => .seq (.ofExcept _) fun share => ?_
  obtain ⟨priv, cliPub⟩ := share
  refine .seq (.ofExcept _) fun tc => ?_
  generalize buildClientHello cfg (wnWriterInit [] a.io.scratchLen) random32 sid cliPub.val a.identity = b
  refine .seq (.failIf _ _) fun _ => .seq (.ofExcept _) fun early => ?_
  refine .seq (.ofExcept _) fun binderKey => .seq (.ofExcept _) fun th => .seq (.ofExcept _) fun binder => ?_
  refine .seq (.ofExcept _) fun tc => .seq (sendPlainRecord_stream _ _) fun _ => ?_
  exact .seq (sendPlainRecord_stream _ _) fun _ => .pure rfl

theorem certClientHello_stream (a : CertArgs p c) :
    Rel SameStream Eq (certClientHello p c a) (certClientHello p c a) := by
  refine .seq (.ofExcept _) fun emptyHash => .seq (.ofExcept _) fun random32 => ?_
  refine .seq (.ofExcept _) fun sid => .seq (.ofExcept _) fun share => .seq (.ofExcept _) fun tc => ?_
  refine .seq (.ofExcept _) fun chLen => .seq (.ofExcept _) fun tc => ?_
  exact .seq (sendPlainRecord_stream _ _) fun _ => .seq (sendPlainRecord_stream _ _) fun _ => .pure rfl

theorem recvServerHello_stream (cap : Nat) (priv : p.Priv) (sid : Block 32) (sel : Int) (tc : Transcript) :
    Rel SameStream Eq (recvServerHello p cap priv sid sel tc) (recvServerHello p cap priv sid sel tc) := by
  have hskip : Rel SameStream Eq (recvSkippingCcs cap) (recvSkippingCcs cap) :=
    repeatM_stream (fun _ => .seq (wnRecvRecord_stream cap) fun _ => .pure rfl) ()
  refine .seq hskip fun _ => .seq (.failIf _ _) fun _ => .seq (.ofExcept _) fun _ => .seq (.failIf _ _) fun _ => ?_
  exact .seq (.ofExcept _) fun _ => .seq (.failIf _ _) fun _ => .seq (.ofExcept _) fun _ => .pure rfl

theorem pskFlight_stream (cap : Nat) (keys : HsKeys) (tc : Transcript) :
    Rel SameStream Eq (pskFlight p cap keys tc) (pskFlight p cap keys tc) := by
  refine repeatM_stream (fun st => ?_) _
  refine .seq (wnRecvRecord_stream cap) fun _ => ?_
  dsimp only
  split
  · exact .pure rfl
  · refine .seq (.failIf _ _) fun _ => .seq (.failIf _ _) fun _ => .seq (.ofExcept _) fun _ => ?_
    exact .seq (.failIf _ _) fun _ => .seq (.ofExcept _) fun _ => .pure rfl

theorem certFlight_stream (a : CertArgs p c) (ioCap : Nat) (keys : HsKeys) (tc : Transcript) :
    Rel SameStream Eq (certFlight p c a ioCap keys tc) (certFlight p c a ioCap keys tc) := by
  refine repeatM_stream (fun st => ?_) _
  refine .seq (wnRecvRecord_stream ioCap) fun _ => ?_
  dsimp only
  split
  · exact .pure rfl
  · refine .seq (.failIf _ _) fun _ => .seq (.ofExcept _) fun _ => .seq (.failIf _ _) fun _ => ?_
    exact .seq (.failIf _ _) fun _ => .seq (.ofExcept _) fun _ => .pure rfl

theorem wnSessionEstablish_stream (junk : Junk) (hs emptyHash th : Block 32) (io : Transport) :
    Rel SameStream Eq (wnSessionEstablish p junk hs emptyHash th io)
      (wnSessionEstablish p junk hs emptyHash th io) := by
  refine .get fun _ _ hw => ?_
  rw [hw.sess]
  exact .seq (setSess_stream _) fun _ => .seq (.failIf _ _) fun _ => .seq (setSess_stream _) fun _ => emit_stream _

theorem sendFinished_stream (keys : HsKeys) (mac th emptyHash : Block 32) (junk : Junk) (io : Transport) :
    Rel SameStream Eq (sendFinished p keys mac th emptyHash junk io) (sendFinished p keys mac th emptyHash junk io) :=
  .seq (wnRecordProtect_stream _ _ _ _ _) fun _ => .seq (ioSend_stream _) fun _ => .seq (.failIf _ _) fun _ =>
    wnSessionEstablish_stream _ _ _ _ _

theorem alerting_stream {α : Type} (keys : HsKeys) (seq : UInt64) {x : Io α} (h : Rel SameStream Eq x x) :
    Rel SameStream Eq (alerting p keys seq x) (alerting p keys seq x) := by
  unfold alerting
  split
  · refine .tryCatch h fun e => .seq (.tryCatch ?_ fun _ => .pure rfl) fun _ => .throw e
    exact .seq (wnRecordProtect_stream _ _ _ _ _) fun _ => .seq (ioSend_stream _) fun _ => .pure rfl
  · exact h

theorem Connect.run_stream (conn : Connect p c) : Rel SameStream Eq (conn.run p) (conn.run p) := by
  cases conn with
  | psk a =>
    refine .seq (.failIf _ _) fun _ => .seq (setSess_stream _) fun _ => .seq (pskClientHello_stream a) fun hello => ?_
    refine .seq (recvServerHello_stream _ _ _ _ _) fun _ => .seq (.ofExcept _) fun _ => .seq (.ofExcept _) fun _ => ?_
    refine .seq (pskFlight_stream _ _ _) fun _ => .seq (.ofExcept _) fun _ => .seq (.ofExcept _) fun _ => ?_
    exact .seq (sendFinished_stream _ _ _ _ _ _) fun _ => emit_stream _
  | cert a =>
    refine .seq (.failIf _ _) fun _ => .seq (setSess_stream _) fun _ => .seq (certClientHello_stream a) fun hello => ?_
    refine .seq (recvServerHello_stream _ _ _ _ _) fun _ => .seq (.ofExcept _) fun _ => .seq (.ofExcept _) fun _ => ?_
    refine .seq (.ofExcept _) fun _ => .seq (alerting_stream _ _ ?_) fun _ => ?_
    · exact .seq (certFlight_stream _ _ _ _) fun _ => .seq (.ofExcept _) fun _ => .seq (.ofExcept _) fun _ => .pure rfl
    · exact .seq (alerting_stream _ _ (sendFinished_stream _ _ _ _ _ _)) fun _ => emit_stream _

/-! ## Calls -/

theorem wnSessionSendKeyUpdate_stream : Rel SameStream Eq (wnSessionSendKeyUpdate p) (wnSessionSendKeyUpdate p) := by
  refine .get fun _ _ hw => ?_
  rw [hw.sess]
  refine .seq (wnRecordProtect_stream _ _ _ _ _) fun _ => .seq (setSess_stream _) fun _ => .seq (ioSend_stream _) fun _ => ?_
  refine .seq (.failIf _ _) fun _ => .seq (setSess_stream _) fun _ => .seq (.ofExcept _) fun _ => ?_
  exact .seq (setSess_stream _) fun _ => emit_stream _

theorem wnSessionPosths_stream (msg : Bytes) : Rel SameStream Eq (wnSessionPosths p msg) (wnSessionPosths p msg) := by
  refine .repeatM_same (fun r => ?_) _ _
  unfold posthsStep
  split
  · dsimp only
    split
    · exact .seq (.failIf _ _) fun _ => .pure rfl
    split
    · refine .seq (.failIf _ _) fun _ => .seq (.get fun _ _ hw => ?_) fun _ => .pure rfl
      rw [hw.sess]
      refine .seq (setSess_stream _) fun _ => .seq (.ofExcept _) fun _ => .seq (setSess_stream _) fun _ => ?_
      refine .seq (emit_stream _) fun _ => ?_
      split
      · exact wnSessionSendKeyUpdate_stream
      · exact .pure rfl
    · exact .throw _
  · exact .pure rfl

theorem recvContent_stream (outCap : Nat) (ctype : UInt8) (plain : Bytes) :
    Rel SameStream Eq (recvContent p outCap ctype plain) (recvContent p outCap ctype plain) := by
  unfold recvContent
  split
  · exact .pure rfl
  split
  · exact .seq (wnSessionPosths_stream _) fun _ => .pure rfl
  split
  · split
    · refine .get fun _ _ hw => ?_
      rw [hw.sess]
      exact .seq (setSess_stream _) fun _ => .throw _
    · exact .throw _
  · exact .throw _

theorem recvStep_stream (outCap : Nat) : Rel SameStream Eq (recvStep p outCap ()) (recvStep p outCap ()) := by
  refine .get fun _ _ hw => ?_
  rw [hw.sess]
  refine .seq (wnRecvRecord_stream _) fun _ => .seq (.failIf _ _) fun _ => .seq (.ofExcept _) fun _ => ?_
  exact .seq (setSess_stream _) fun _ => recvContent_stream _ _ _

theorem checkOpen_stream : Rel SameStream Eq checkOpen checkOpen := by
  refine .get fun _ _ hw => ?_
  rw [hw.sess]
  exact .seq (.failIf _ _) fun _ => .failIf _ _

theorem wnSend_stream (data : Bytes) : Rel SameStream Eq (wnSend p data) (wnSend p data) := by
  refine .seq checkOpen_stream fun _ => .get fun _ _ hw => ?_
  rw [hw.sess]
  refine .seq (.failIf _ _) fun _ => .seq (wnRecordProtect_stream _ _ _ _ _) fun _ => .seq (setSess_stream _) fun _ => ?_
  exact .seq (ioSend_stream _) fun _ => .failIf _ _

theorem wnRecv_stream (outCap : Nat) : Rel SameStream Eq (wnRecv p outCap) (wnRecv p outCap) := by
  refine .seq (.seq checkOpen_stream fun _ => repeatM_stream (fun _ => recvStep_stream outCap) ()) fun out => ?_
  cases out with
  | deliver plain => exact .pure rfl
  | small => exact .throw _

theorem wnClose_stream : Rel SameStream Eq (wnClose p) (wnClose p) := by
  have hsend : Rel SameStream Eq (sendCloseNotify p) (sendCloseNotify p) := by
    refine .get fun _ _ hw => ?_
    rw [hw.sess]
    dsimp only
    split
    · exact .seq (wnRecordProtect_stream _ _ _ _ _) fun _ => .seq (ioSend_stream _) fun _ => .pure rfl
    · exact .pure rfl
  exact .seq (.tryCatch hsend fun e => .seq (setSess_stream _) fun _ => .throw e) fun _ => setSess_stream _

theorem Call.run_stream (call : Call) : Rel SameStream Eq (call.run p) (call.run p) := by
  cases call with
  | send data => exact .seq (wnSend_stream data) fun _ => .pure rfl
  | recv outCap => exact wnRecv_stream outCap
  | close => exact .seq wnClose_stream fun _ => .pure rfl

theorem answer_agree {α : Type} {r r' : EStateM.Result Err World α} (h : Agree SameStream Eq r r') :
    answer r = answer r' := agreeExcept_eq.1 (answer_alike h)

theorem callsRun_stream (calls : List Call) {w w' : World} (h : SameStream w w') :
    (callsRun p calls w).1 = (callsRun p calls w').1 ∧ SameStream (callsRun p calls w).2 (callsRun p calls w').2 := by
  induction calls generalizing w w' with
  | nil => exact ⟨rfl, h⟩
  | cons call calls ih =>
    have hcall := call.run_stream (p := p) w w' h
    obtain ⟨hanswers, hworld⟩ := ih hcall.end
    refine ⟨?_, hworld⟩
    simp only [callsRun, answer_agree hcall, hanswers]

/-- **The pieces do not matter**, from the first byte of a connection to its
last: with either driver and any calls after it, two transports with the same
stream get the client to the same answers, the same doings and the same
session, and are left with the same stream. -/
theorem dialogue_segmentation (conn : Connect p c) (calls : List Call) {inbox inbox' : List Bytes}
    (hstream : stream inbox = stream inbox') (sendRes : List Bool) (sess : Session) :
    let d := dialogue p conn calls (.fresh inbox sendRes sess)
    let d' := dialogue p conn calls (.fresh inbox' sendRes sess)
    d.1 = d'.1 ∧ d.2.1 = d'.2.1 ∧ d.2.2.trace = d'.2.2.trace ∧ d.2.2.sess = d'.2.2.sess ∧
      stream d.2.2.inbox = stream d'.2.2.inbox := by
  have hconn := conn.run_stream (.fresh inbox sendRes sess) (.fresh inbox' sendRes sess)
    ⟨hstream, rfl, rfl, rfl⟩
  obtain ⟨hanswers, hworld⟩ := callsRun_stream (p := p) calls hconn.end
  exact ⟨answer_agree hconn, hanswers, hworld.trace, hworld.sess, hworld.stream⟩

/-- A handshake and a record of data in one piece, or cut in its header and
again in the data, before the transport fails. -/
theorem dialogue_segmentation_clear :
    let bytes := clearPskStream ++ clearRecord 23 [7, 8]
    let connected := dialogue (Provider.clear .small) (c := .trusting) (.psk (.clear [105] 2048)) [.recv 4, .recv 4]
    (connected (.fresh [bytes, [], [9]] [] .zero)).2.1 =
      (connected (.fresh [bytes.take 3, bytes.drop 3, [], [9]] [] .zero)).2.1 := by
  refine (dialogue_segmentation (.psk (.clear [105] 2048)) [.recv 4, .recv 4] ?_ [] .zero).2.1
  decide +kernel

end WolfNano

/-
What a caller and the network see of a run: the return code, the bytes given
to `ioSend`, the session. Runs of the drivers that differ only in what their
transports hold are related by `World.Same`, part by part.
-/
import WolfNano.ConnectCert
import WolfNano.Session
import WolfNano.Lib.TwoRuns

namespace WolfNano

open Prog

/-- The buffer of an `ioSend` call. -/
def Event.sent : Event → Option Bytes
  | .send buf _ => some buf
  | _ => none

/-- The bytes given to `ioSend`, call by call. -/
def World.sent (w : World) : List Bytes := w.trace.filterMap Event.sent

/-- What is seen of a run. -/
structure Outcome where
  code : Except Err Unit
  sent : List Bytes
  sess : Session

def code : EStateM.Result Err World Unit → Except Err Unit
  | .ok _ _ => .ok ()
  | .error e _ => .error e

theorem code_ok {r : EStateM.Result Err World Unit} : code r = .ok () ↔ ∃ w, r = .ok () w := by
  cases r <;> simp [code]

theorem code_error {r : EStateM.Result Err World Unit} {e : Err} : code r = .error e ↔ ∃ w, r = .error e w := by
  cases r <;> simp [code]

/-- The error that a run ends with. -/
def errorOf {α : Type} : EStateM.Result Err World α → Option Err
  | .ok _ _ => none
  | .error e _ => some e

theorem errorOf_some {α : Type} {r : EStateM.Result Err World α} {e : Err} (h : errorOf r = some e) :
    r = .error e (endState r) := by
  cases r with
  | ok a w => cases h
  | error e' w =>
    cases h
    rfl

theorem errorOf_none {r : EStateM.Result Err World Unit} (h : errorOf r = none) : r = .ok () (endState r) := by
  cases r with
  | ok a w => rfl
  | error e w => cases h

def outcome (r : EStateM.Result Err World Unit) : Outcome where
  code := code r
  sent := (endState r).sent
  sess := (endState r).sess

/-- The same to the caller and to the network, whatever the transports hold. -/
structure World.Same (w w' : World) : Prop where
  sendRes : w.sendRes = w'.sendRes
  sent : w.sent = w'.sent
  sess : w.sess = w'.sess

/-- Two runs that end the same are seen the same. -/
theorem outcome_eq_of_agree {r r' : EStateM.Result Err World Unit} (h : Agree World.Same Eq r r') :
    outcome r = outcome r' := by
  have hend := h.end
  have hcode : code r = code r' := by
    cases r <;> cases r'
    · rfl
    · exact h.elim
    · exact h.elim
    · exact congrArg Except.error h.1
  simp only [outcome, hcode, hend.sent, hend.sess]

theorem World.Same.inbox {w w' : World} (h : w.Same w') (inbox inbox' : List Bytes) :
    World.Same { w with inbox } { w' with inbox := inbox' } :=
  ⟨h.sendRes, h.sent, h.sess⟩

section Parts

theorem emit_same {ev ev' : Event} (h : ev.sent = ev'.sent) : Rel World.Same Eq (emit ev) (emit ev') :=
  .modify fun _ _ hw => ⟨hw.sendRes, by
    have := hw.sent
    simp only [World.sent, List.filterMap_append] at this ⊢
    rw [this]
    congr 1
    simp only [List.filterMap_cons, List.filterMap_nil, h], hw.sess⟩

theorem setSess_same (s : Session) : Rel World.Same Eq (setSess s) (setSess s) :=
  .modify fun _ _ hw => ⟨hw.sendRes, hw.sent, rfl⟩

theorem ioSend_same (buf : Bytes) : Rel World.Same Eq (ioSend buf) (ioSend buf) := by
  intro w w' hw
  refine ⟨by rw [hw.sendRes], ?_, ?_, hw.sess⟩
  · simp only [hw.sendRes]
  · have := hw.sent
    simp only [World.sent, List.filterMap_append] at this ⊢
    rw [this]
    rfl

variable {cfg : Config} {p : Provider cfg} {c : CertProvider}

theorem wnRecordProtect_same (key : Block 16) (iv : Block 12) (seq : UInt64) (type : UInt8) (content : Bytes) :
    Rel World.Same Eq (wnRecordProtect p key iv seq type content) (wnRecordProtect p key iv seq type content) :=
  .seq (emit_same rfl) fun _ => .ofExcept _

theorem sendPlainRecord_same (type : UInt8) (body : Bytes) :
    Rel World.Same Eq (sendPlainRecord type body) (sendPlainRecord type body) :=
  .seq (ioSend_same _) fun _ => .seq (.failIf _ _) fun _ => .seq (ioSend_same _) fun _ => .failIf _ _

theorem pskClientHello_same (a : PskArgs p) : Rel World.Same Eq (pskClientHello p a) (pskClientHello p a) := by
  refine .seq (.ofExcept _) fun emptyHash => ?_
  refine .seq (.ofExcept _) fun random32 => .seq (.ofExcept _) fun sid => .seq (.ofExcept _) fun share => ?_
  obtain ⟨priv, cliPub⟩ := share
  refine .seq (.ofExcept _) fun tc => ?_
  generalize buildClientHello cfg (wnWriterInit [] a.io.scratchLen) random32 sid cliPub.val a.identity = b
  refine .seq (.failIf _ _) fun _ => .seq (.ofExcept _) fun early => ?_
  refine .seq (.ofExcept _) fun binderKey => .seq (.ofExcept _) fun th => .seq (.ofExcept _) fun binder => ?_
  refine .seq (.ofExcept _) fun tc => .seq (sendPlainRecord_same _ _) fun _ => ?_
  exact .seq (sendPlainRecord_same _ _) fun _ => .pure rfl

theorem certClientHello_same (a : CertArgs p c) :
    Rel World.Same Eq (certClientHello p c a) (certClientHello p c a) := by
  refine .seq (.ofExcept _) fun emptyHash => .seq (.ofExcept _) fun random32 => ?_
  refine .seq (.ofExcept _) fun sid => .seq (.ofExcept _) fun share => .seq (.ofExcept _) fun tc => ?_
  refine .seq (.ofExcept _) fun chLen => .seq (.ofExcept _) fun tc => ?_
  exact .seq (sendPlainRecord_same _ _) fun _ => .seq (sendPlainRecord_same _ _) fun _ => .pure rfl

theorem wnSessionEstablish_same (junk : Junk) (hs emptyHash th : Block 32) (io : Transport) :
    Rel World.Same Eq (wnSessionEstablish p junk hs emptyHash th io) (wnSessionEstablish p junk hs emptyHash th io) := by
  refine .get fun _ _ hw => ?_
  rw [hw.sess]
  exact .seq (setSess_same _) fun _ => .seq (.failIf _ _) fun _ => .seq (setSess_same _) fun _ => emit_same rfl

theorem sendFinished_same (keys : HsKeys) (mac th emptyHash : Block 32) (junk : Junk) (io : Transport) :
    Rel World.Same Eq (sendFinished p keys mac th emptyHash junk io) (sendFinished p keys mac th emptyHash junk io) :=
  .seq (wnRecordProtect_same _ _ _ _ _) fun _ => .seq (ioSend_same _) fun _ => .seq (.failIf _ _) fun _ =>
    wnSessionEstablish_same _ _ _ _ _

theorem wnSendAlert_same (keys : HsKeys) (seq : UInt64) (e : Err) :
    Rel World.Same Eq (wnSendAlert p keys seq e) (wnSendAlert p keys seq e) :=
  .tryCatch (.seq (wnRecordProtect_same _ _ _ _ _) fun _ => .seq (ioSend_same _) fun _ => .pure rfl) fun _ => .pure rfl

/-- An alert goes out in both runs or in neither. -/
theorem alerting_agree {α : Type} {P : α → α → Prop} (keys : HsKeys) (seq : UInt64) {x y : Io α} {w w' : World}
    (h : Agree World.Same P (x w) (y w')) :
    Agree World.Same P (alerting p keys seq x w) (alerting p keys seq y w') := by
  unfold alerting
  split
  · exact h.tryCatch fun e => .seq (wnSendAlert_same keys seq e) fun _ => .throw e
  · exact h

end Parts

end WolfNano

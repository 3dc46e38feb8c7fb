/-
What each part of the program may add to the trace.

`Emits P` is the relation of a world to a later one whose trace goes on with
events that satisfy `P`. Every part of the handshake but the last only sends
plaintext (`Event.Plain`): it seals nothing and changes no keys.
-/
import WolfNano.ConnectCert
import WolfNano.Session
import WolfNano.RecordFacts

namespace WolfNano

open Prog

/-- The trace goes on with events that satisfy `P`. -/
def Emits (P : Event → Prop) (w w' : World) : Prop :=
  ∃ evs, w'.trace = w.trace ++ evs ∧ ∀ ev ∈ evs, P ev

section Emits

variable {P Q : Event → Prop}

instance : Std.Refl (Emits P) := ⟨fun _ => ⟨[], by simp, by simp⟩⟩

instance : IsTrans World (Emits P) := ⟨fun _ _ _ ⟨e₁, h₁, hp₁⟩ ⟨e₂, h₂, hp₂⟩ =>
  ⟨e₁ ++ e₂, by rw [h₂, h₁, List.append_assoc], by
    simp only [List.mem_append]
    exact fun ev h => h.elim (hp₁ ev) (hp₂ ev)⟩⟩

theorem Emits.mono {w w' : World} (h : Emits P w w') (hpq : ∀ ev, P ev → Q ev) : Emits Q w w' := by
  obtain ⟨evs, htr, hp⟩ := h
  exact ⟨evs, htr, fun ev he => hpq ev (hp ev he)⟩

theorem OnlyRead.trace {w w' : World} (h : OnlyRead w w') : w'.trace = w.trace := by
  rw [h.frame]

theorem OnlyRead.emits {w w' : World} (h : OnlyRead w w') : Emits P w w' :=
  ⟨[], by rw [h.frame]; simp, by simp⟩

theorem emit_emits {ev : Event} (h : P ev) : Steps (Emits P) (emit ev) :=
  .modify fun w => ⟨[ev], rfl, by simpa using h⟩

theorem setSess_emits (s : Session) : Steps (Emits P) (setSess s) :=
  .modify fun w => ⟨[], by simp, by simp⟩

theorem ioSend_emits {buf : Bytes} (h : ∀ c, P (.send buf c)) : Steps (Emits P) (ioSend buf) :=
  fun w => ⟨[.send buf (w.sendRes.headD true)], rfl, by simpa using h _⟩

theorem wnRecordProtect_emits {cfg : Config} (p : Provider cfg) {key : Block 16} {iv : Block 12} {seq : UInt64}
    {type : UInt8} {content : Bytes} (h : ∀ b, P (.protect key (wnBuildNonce iv seq) type content b)) :
    Steps (Emits P) (wnRecordProtect p key iv seq type content) :=
  .bind (emit_emits (h _)) fun _ => .ofExcept _

theorem wnRecvRecord_emits (cap : Nat) : Steps (Emits P) (wnRecvRecord cap) :=
  (wnRecvRecord_onlyRead cap).mono fun h => h.emits

end Emits

/-! ## Parts that only send plaintext -/

/-- An `ioSend` call. -/
def Event.Plain : Event → Prop
  | .send _ _ => True
  | _ => False

/-- Not a change of the read keys. -/
def Event.NotRead : Event → Prop
  | .readKeys _ => False
  | _ => True

theorem Event.Plain.notRead {ev : Event} (h : ev.Plain) : ev.NotRead := by
  cases ev <;> first | exact h.elim | trivial

variable {cfg : Config} {p : Provider cfg} {c : CertProvider}

theorem sendPlainRecord_emits (type : UInt8) (body : Bytes) :
    Steps (Emits Event.Plain) (sendPlainRecord type body) :=
  .bind (ioSend_emits fun _ => trivial) fun _ => .bind (.failIf _ _) fun _ =>
    .bind (ioSend_emits fun _ => trivial) fun _ => .failIf _ _

theorem pskClientHello_emits (a : PskArgs p) : Steps (Emits Event.Plain) (pskClientHello p a) := by
  refine .bind (.ofExcept _) fun emptyHash => ?_
  refine .bind (.ofExcept _) fun random32 => .bind (.ofExcept _) fun sid => .bind (.ofExcept _) fun share => ?_
  refine .bind (.ofExcept _) fun tc => .bind (.failIf _ _) fun _ => .bind (.ofExcept _) fun early => ?_
  refine .bind (.ofExcept _) fun binderKey => .bind (.ofExcept _) fun th => .bind (.ofExcept _) fun binder => ?_
  refine .bind (.ofExcept _) fun tc => .bind (sendPlainRecord_emits _ _) fun _ => ?_
  exact .bind (sendPlainRecord_emits _ _) fun _ => .pure _

theorem certClientHello_emits (a : CertArgs p c) : Steps (Emits Event.Plain) (certClientHello p c a) := by
  refine .bind (.ofExcept _) fun emptyHash => .bind (.ofExcept _) fun random32 => ?_
  refine .bind (.ofExcept _) fun sid => .bind (.ofExcept _) fun share => .bind (.ofExcept _) fun tc => ?_
  refine .bind (.ofExcept _) fun chLen => .bind (.ofExcept _) fun tc => ?_
  exact .bind (sendPlainRecord_emits _ _) fun _ => .bind (sendPlainRecord_emits _ _) fun _ => .pure _

theorem recvSkippingCcs_onlyRead (cap : Nat) : Steps OnlyRead (recvSkippingCcs cap) :=
  .bind .get fun _ => .repeatM (fun _ => .bind (wnRecvRecord_onlyRead cap) fun _ => .pure _) _ _

theorem recvServerHello_onlyRead (cap : Nat) (priv : p.Priv) (sid : Block 32) (sel : Int) (tc : Transcript) :
    Steps OnlyRead (recvServerHello p cap priv sid sel tc) := by
  refine .bind (recvSkippingCcs_onlyRead cap) fun r => .bind (.failIf _ _) fun _ => ?_
  refine .bind (.ofExcept _) fun sh => .bind (.failIf _ _) fun _ => .bind (.ofExcept _) fun tc => ?_
  exact .bind (.failIf _ _) fun _ => .bind (.ofExcept _) fun ecdhe => .pure _

theorem pskFlight_onlyRead (cap : Nat) (keys : HsKeys) (tc : Transcript) :
    Steps OnlyRead (pskFlight p cap keys tc) := by
  refine .bind .get fun _ => .repeatM (fun st => ?_) _ _
  refine .bind (wnRecvRecord_onlyRead cap) fun r => ?_
  dsimp only
  split
  · exact .pure _
  · exact .bind (.failIf _ _) fun _ => .bind (.failIf _ _) fun _ => .bind (.ofExcept _) fun x =>
      .bind (.failIf _ _) fun _ => .bind (.ofExcept _) fun st => .pure _

theorem certFlight_onlyRead (a : CertArgs p c) (cap : Nat) (keys : HsKeys) (tc : Transcript) :
    Steps OnlyRead (certFlight p c a cap keys tc) := by
  refine .bind .get fun _ => .repeatM (fun st => ?_) _ _
  refine .bind (wnRecvRecord_onlyRead cap) fun r => ?_
  dsimp only
  split
  · exact .pure _
  · exact .bind (.failIf _ _) fun _ => .bind (.ofExcept _) fun x => .bind (.failIf _ _) fun _ =>
      .bind (.failIf _ _) fun _ => .bind (.ofExcept _) fun st => .pure _

/-! ## The Finished -/

theorem wnSessionEstablish_emits {P : Event → Prop} (h : P .writeKeys) (junk : Junk) (hs emptyHash th : Block 32)
    (io : Transport) : Steps (Emits P) (wnSessionEstablish p junk hs emptyHash th io) :=
  .bind .get fun _ => .bind (setSess_emits _) fun _ => .bind (.failIf _ _) fun _ =>
    .bind (setSess_emits _) fun _ => emit_emits h

theorem sendFinished_emits {P : Event → Prop} (h : ∀ ev : Event, ev.NotRead → P ev) (keys : HsKeys)
    (mac th emptyHash : Block 32) (junk : Junk) (io : Transport) :
    Steps (Emits P) (sendFinished p keys mac th emptyHash junk io) :=
  .bind (wnRecordProtect_emits p fun _ => h _ trivial) fun _ => .bind (ioSend_emits fun _ => h _ trivial) fun _ =>
    .bind (.failIf _ _) fun _ => wnSessionEstablish_emits (h _ trivial) _ _ _ _ _

end WolfNano

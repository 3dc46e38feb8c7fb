/-
The application's side: a connection made by either driver, then calls on its
session, whatever each of them returns.
-/
import WolfNano.Calls
import WolfNano.Lib.TwoRuns

namespace WolfNano

open Prog

variable {cfg : Config}

/-- One of the two drivers and its arguments. -/
inductive Connect (p : Provider cfg) (c : CertProvider) where
  | psk (a : PskArgs p)
  | cert (a : CertArgs p c)

variable (p : Provider cfg)

def Connect.run {c : CertProvider} : Connect p c → Io Unit
  | .psk a => wnConnectPskEx p a
  | .cert a => wnConnectCertImpl p c a

/-- A call, and the data it has for its caller. -/
def Call.run : Call → Io Bytes
  | .send data => do
    wnSend p data
    pure []
  | .recv outCap => wnRecv p outCap
  | .close => do
    wnClose p
    pure []

/-- What a caller gets. -/
def answer {α : Type} : EStateM.Result Err World α → Except Err α
  | .ok a _ => .ok a
  | .error e _ => .error e

/-- Runs that agree answer alike. -/
theorem answer_alike {α : Type} {R : World → World → Prop} {P : α → α → Prop} {r r' : EStateM.Result Err World α}
    (h : Agree R P r r') : AgreeExcept P (answer r) (answer r') := by
  cases r <;> cases r'
  · exact h.1
  · exact h.elim
  · exact h.elim
  · exact h.1

/-- The answers to one call after the other, and the world after them. -/
def callsRun : List Call → World → List (Except Err Bytes) × World
  | [], w => ([], w)
  | call :: calls, w =>
    let r := call.run p w
    let (answers, w') := callsRun calls (endState r)
    (answer r :: answers, w')

/-- Connect, and then call. -/
def dialogue {c : CertProvider} (conn : Connect p c) (calls : List Call) (w : World) :
    Except Err Unit × List (Except Err Bytes) × World :=
  let r := conn.run p w
  (answer r, callsRun p calls (endState r))

variable {p}

theorem endState_bind_pure {α β : Type} (x : Io α) (b : β) (w : World) :
    endState ((x >>= fun _ => pure b) w) = endState (x w) := by
  rw [bind_apply]
  cases x w <;> rfl

theorem Call.run_end (call : Call) (w : World) : endState (call.run p w) = call.after p w := by
  cases call with
  | send data => exact endState_bind_pure _ _ w
  | recv outCap => rfl
  | close => exact endState_bind_pure _ _ w

theorem callsRun_end (calls : List Call) (w : World) : (callsRun p calls w).2 = callsAfter p w calls := by
  induction calls generalizing w with
  | nil => rfl
  | cons call calls ih =>
    rw [callsRun]
    simp only [ih, Call.run_end]
    rfl

end WolfNano

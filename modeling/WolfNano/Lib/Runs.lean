/-
Runs of a labelled transition relation.

`Run step s as t` is a run from `s` to `t` with the labels `as`. What a single
step keeps is said once, of `step`; `Run.history` carries it along, with the
labels so far at hand, so that an invariant may count them.
-/
import Mathlib.Data.List.Basic

namespace Prog

variable {σ α : Type}

inductive Run (step : σ → α → σ → Prop) : σ → List α → σ → Prop where
  | nil {s : σ} : Run step s [] s
  | cons {s t u : σ} {a : α} {as : List α} : step s a t → Run step t as u → Run step s (a :: as) u

namespace Run

variable {step : σ → α → σ → Prop} {s t u : σ} {as bs : List α}

theorem single {a : α} (h : step s a t) : Run step s [a] t := .cons h .nil

theorem append (h : Run step s as t) (h' : Run step t bs u) : Run step s (as ++ bs) u := by
  induction h with
  | nil => exact h'
  | cons hstep _ ih => exact .cons hstep (ih h')

theorem snoc {a : α} (h : Run step s as t) (h' : step t a u) : Run step s (as ++ [a]) u := h.append (.single h')

/-- **An invariant of the labels so far and the state**, kept by every step,
holds after every run. -/
theorem history {I : List α → σ → Prop} (hstep : ∀ {as s a t}, I as s → step s a t → I (as ++ [a]) t) :
    ∀ {pre : List α} {as : List α} {s t : σ}, I pre s → Run step s as t → I (pre ++ as) t
  | pre, _, _, _, hi, .nil => by simpa using hi
  | pre, _, _, _, hi, .cons h hr => by
    have := history hstep (hstep hi h) hr
    rwa [List.append_assoc] at this

/-- An invariant of the state alone. -/
theorem invariant {I : σ → Prop} (hstep : ∀ {s a t}, I s → step s a t → I t) (hi : I s) (h : Run step s as t) : I t := by
  induction h with
  | nil => exact hi
  | cons hs _ ih => exact ih (hstep hi hs)

end Run

/-! ## Runs of calls -/

section Along

variable {κ : Type} {run : κ → σ → σ}

/-- `P` holds of each call of a run, at the state it is made in. -/
def Along (run : κ → σ → σ) (P : κ → σ → Prop) : List κ → σ → Prop
  | [], _ => True
  | c :: cs, s => P c s ∧ Along run P cs (run c s)

/-- Where an invariant that `P` keeps makes `P` and `Q` the same of a call, they
are the same of a run. -/
theorem along_iff {I : σ → Prop} {P Q : κ → σ → Prop} (hsame : ∀ c {s}, I s → (P c s ↔ Q c s))
    (hkeep : ∀ {c s}, I s → P c s → I (run c s)) : ∀ (cs : List κ) {s : σ}, I s → (Along run P cs s ↔ Along run Q cs s)
  | [], _, _ => Iff.rfl
  | c :: cs, s, hi => by
    simp only [Along]
    rw [← hsame c hi]
    exact and_congr_right fun hp => along_iff hsame hkeep cs (hkeep hi hp)

end Along

end Prog

/-
Checked programs whose state has more in it than the programs they stand for
can see.

A view takes the one state to the other. `TracksAt view Q E` of two ends says
that no check failed and that through the view the ends are the same; the rest
of the state is what `Q` says of it beside the values, or `E` beside the error.
It is proved a bind at a time, like `Refines`, and a loop turn by turn. A
program on the part that is seen is `held` over the rest; one that is to be run
whatever the end is `finallyDo`.
-/
import WolfNano.Lib.Checked

namespace Prog

variable {φ ε σ τ α β γ δ : Type}

theorem unchecked_of_ok {x : EStateM ε σ α} {s t : σ} {a : α} (h : x s = .ok a t) :
    (unchecked x : Checked φ ε σ α) s = .ok a t := by
  rw [unchecked, h]

theorem unchecked_of_error {x : EStateM ε σ α} {s t : σ} {e : ε} (h : x s = .error e t) :
    (unchecked x : Checked φ ε σ α) s = .error (.ret e) t := by
  rw [unchecked, h]

/-- A program on what is seen of the state. -/
def held (view : τ → σ) (put : σ → τ → τ) (x : EStateM ε σ α) : EStateM ε τ α := fun s =>
  match x (view s) with
  | .ok a t => .ok a (put t s)
  | .error e t => .error e (put t s)

/-- Run `x`, and then `last` whatever its end. -/
def finallyDo (x : EStateM ε σ α) (last : EStateM ε σ Unit) : EStateM ε σ α := do
  let a ← tryCatch x (fun e => do
    last
    throw e)
  last
  pure a

/-- No fault; else the same end through the view, and `Q` or `E`. -/
def TracksAt (view : τ → σ) (Q : α → β → τ → Prop) (E : ε → τ → Prop) :
    EStateM.Result (Stop φ ε) τ α → EStateM.Result ε σ β → Prop
  | .ok a s, .ok b t => view s = t ∧ Q a b s
  | .error (.ret e) s, .error e' t => e = e' ∧ view s = t ∧ E e s
  | _, _ => False

section Tracks

variable {view : τ → σ} {Q Q' : α → β → τ → Prop} {E E' : ε → τ → Prop}

theorem TracksAt.ok {a : α} {b : β} {s : τ} {t : σ} (hview : view s = t) (h : Q a b s) :
    TracksAt view Q E (.ok a s : EStateM.Result (Stop φ ε) τ α) (.ok b t) := ⟨hview, h⟩

theorem TracksAt.error {e : ε} {s : τ} {t : σ} (hview : view s = t) (h : E e s) :
    TracksAt view Q E (.error (.ret e) s : EStateM.Result (Stop φ ε) τ α) (.error e t : EStateM.Result ε σ β) :=
  ⟨rfl, hview, h⟩

theorem TracksAt.imp {x : EStateM.Result (Stop φ ε) τ α} {y : EStateM.Result ε σ β} (h : TracksAt view Q E x y)
    (hq : ∀ a b s, Q a b s → Q' a b s) (he : ∀ e s, E e s → E' e s) : TracksAt view Q' E' x y := by
  revert h
  rcases x with ⟨a, s⟩ | ⟨_ | e, s⟩ <;> rcases y with ⟨b, t⟩ | ⟨e', t⟩ <;> intro h
  · exact ⟨h.1, hq a b s h.2⟩
  · exact h.elim
  · exact h.elim
  · exact h.elim
  · exact h.elim
  · exact ⟨h.1, h.2.1, he e s h.2.2⟩

theorem TracksAt.bind {R : γ → δ → τ → Prop} {x : Checked φ ε τ α} {y : EStateM ε σ β} {f : α → Checked φ ε τ γ}
    {g : β → EStateM ε σ δ} {s : τ} {t : σ} (h : TracksAt view Q E (x s) (y t)) (he : ∀ e s, E e s → E' e s)
    (hf : ∀ a b u, Q a b u → TracksAt view R E' (f a u) (g b (view u))) :
    TracksAt view R E' ((x >>= f) s) ((y >>= g) t) := by
  rw [bind_apply, bind_apply]
  revert h
  rcases x s with ⟨a, u⟩ | ⟨_ | e, u⟩ <;> rcases y t with ⟨b, v⟩ | ⟨e', v⟩ <;> intro h
  · obtain ⟨rfl, hq⟩ := h
    exact hf a b u hq
  · exact h.elim
  · exact h.elim
  · exact h.elim
  · exact h.elim
  · exact ⟨h.1, h.2.1, he e u h.2.2⟩

theorem TracksAt.failIf (P : Prop) [Decidable P] {e : ε} {s : τ} (he : P → E e s) :
    TracksAt view (fun _ _ u => ¬ P ∧ u = s) E ((failIf P (.ret e) : Checked φ ε τ Unit) s)
      ((Prog.failIf P e : EStateM ε σ Unit) (view s)) := by
  by_cases h : P
  · rw [failIf_pos h, failIf_pos h]
    exact .error rfl (he h)
  · rw [failIf_neg h, failIf_neg h]
    exact .ok rfl ⟨h, rfl⟩

/-- The rest of the state is as it was. -/
theorem TracksAt.held {put : σ → τ → τ} (hput : ∀ t s, view (put t s) = t) {R : α → β → Prop} {x : Checked φ ε σ α}
    {y : EStateM ε σ β} {s : τ} (h : RefinesAt R (x (view s)) (y (view s))) :
    TracksAt view (fun a b u => R a b ∧ ∃ t, y (view s) = .ok b t ∧ u = put t s)
      (fun e u => ∃ t, y (view s) = .error e t ∧ u = put t s) (Prog.held view put x s) (y (view s)) := by
  unfold Prog.held
  revert h
  rcases x (view s) with ⟨a, t⟩ | ⟨_ | e, t⟩ <;> rcases hy : y (view s) with ⟨b, v⟩ | ⟨e', v⟩ <;> intro h
  · obtain ⟨hr, rfl⟩ := h
    exact ⟨hput t s, hr, t, rfl, rfl⟩
  · exact h.elim
  · exact h.elim
  · exact h.elim
  · exact h.elim
  · obtain ⟨rfl, rfl⟩ := h
    exact ⟨rfl, hput t s, t, rfl, rfl⟩

/-- And what every run of `y` keeps. -/
theorem TracksAt.steps {R : σ → σ → Prop} {x : EStateM.Result (Stop φ ε) τ α} {y : EStateM ε σ β} {t : σ}
    (h : TracksAt view Q E x (y t)) (hy : Steps R y) :
    TracksAt view (fun a b u => Q a b u ∧ R t (view u)) (fun e u => E e u ∧ R t (view u)) x (y t) := by
  have hend := hy t
  revert h hend
  rcases x with ⟨a, u⟩ | ⟨_ | e, u⟩ <;> rcases y t with ⟨b, v⟩ | ⟨e', v⟩ <;> intro h hend
  · obtain ⟨rfl, hq⟩ := h
    exact ⟨rfl, hq, hend⟩
  · exact h.elim
  · exact h.elim
  · exact h.elim
  · exact h.elim
  · obtain ⟨rfl, rfl, he⟩ := h
    exact ⟨rfl, rfl, he, hend⟩

/-- What is run last keeps what is seen. -/
theorem TracksAt.finallyDo {x : Checked φ ε τ α} {last : Checked φ ε τ Unit} {s : τ} {y : EStateM.Result ε σ β}
    (h : TracksAt view Q E (x s) y)
    (hq : ∀ a b u, Q a b u → ∃ v, last u = .ok () v ∧ view v = view u ∧ Q' a b v)
    (he : ∀ e u, E e u → ∃ v, last u = .ok () v ∧ view v = view u ∧ E' e v) :
    TracksAt view Q' E' (Prog.finallyDo x last s) y := by
  unfold Prog.finallyDo
  revert h
  rcases hx : x s with ⟨a, u⟩ | ⟨_ | e, u⟩ <;> rcases y with ⟨b, t⟩ | ⟨e', t⟩ <;> intro h
  · obtain ⟨v, hlast, hview, hq'⟩ := hq a b u h.2
    rw [bind_of_ok (tryCatch_of_ok hx), bind_of_ok hlast]
    exact .ok (hview.trans h.1) hq'
  · exact h.elim
  · exact h.elim
  · exact h.elim
  · exact h.elim
  · obtain ⟨rfl, hu, hE⟩ := h
    obtain ⟨v, hlast, hview, he'⟩ := he e u hE
    have hthrow : (tryCatch x fun e => do last; throw e) s = .error (.ret e) v := by
      rw [tryCatch_of_error hx, bind_of_ok hlast]
      rfl
    rw [bind_of_error hthrow]
    exact .error (hview.trans hu) he'

/-- A loop, each turn of which keeps `I`. -/
theorem TracksAt.turns {out : ε} {body : γ → Checked φ ε τ (γ ⊕ α)} {step : δ → EStateM ε σ (δ ⊕ β)}
    {I : γ → δ → τ → Prop} (hout : ∀ c d s, I c d s → E out s)
    (hturn : ∀ c d s, I c d s → TracksAt view (fun x y u => Sum.LiftRel (fun c d => I c d u) (fun a b => Q a b u) x y)
      E (body c s) (step d (view s))) :
    ∀ (n : Nat) {c : γ} {d : δ} {s : τ}, I c d s →
      TracksAt view Q E (repeatM (.ret out) body n c s) (repeatM out step n d (view s))
  | 0, c, d, s, hi => .error rfl (hout c d s hi)
  | n + 1, c, d, s, hi => by
    rw [repeatM, repeatM]
    refine .bind (hturn c d s hi) (fun _ _ h => h) fun x y u hxy => ?_
    cases hxy with
    | inl hi' => exact TracksAt.turns hout hturn n hi'
    | inr hq => exact .ok rfl hq

end Tracks

end Prog

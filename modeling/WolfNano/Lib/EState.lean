/-
Programs with a state that survives their errors: core's `EStateM`, where a
run ends `.ok a s` or `.error e s` and either way leaves a state behind.

What a run did is read off by inversion (`bind_ok`, `bind_error`), one bind
at a time. What every run keeps is said with `Steps R`: each run takes its
state to an `R`-later one, whatever its result; `R` reflexive and
transitive, it composes. A loop is `repeatM`, with fuel, and has one
induction of each kind: `Steps.repeatM` and `repeatM_ok`.
-/
import Mathlib.Logic.Relation

namespace Prog

variable {ε σ α β : Type}

/-- The state a run leaves behind. -/
def endState : EStateM.Result ε σ α → σ
  | .ok _ s => s
  | .error _ s => s

@[simp] theorem endState_ok (a : α) (s : σ) : endState (.ok a s : EStateM.Result ε σ α) = s := rfl
@[simp] theorem endState_error (e : ε) (s : σ) : endState (.error e s : EStateM.Result ε σ α) = s := rfl

/-! ## One bind at a time -/

@[simp] theorem pure_apply (a : α) (s : σ) : (pure a : EStateM ε σ α) s = .ok a s := rfl

@[simp] theorem throw_apply (e : ε) (s : σ) : (throw e : EStateM ε σ α) s = .error e s := rfl

@[simp] theorem get_apply (s : σ) : (get : EStateM ε σ σ) s = .ok s s := rfl

@[simp] theorem modify_apply (f : σ → σ) (s : σ) : (modify f : EStateM ε σ Unit) s = .ok () (f s) := rfl

theorem bind_apply (x : EStateM ε σ α) (f : α → EStateM ε σ β) (s : σ) :
    (x >>= f) s = match x s with
      | .ok a t => f a t
      | .error e t => .error e t := rfl

theorem bind_of_ok {x : EStateM ε σ α} {f : α → EStateM ε σ β} {s t : σ} {a : α}
    (h : x s = .ok a t) : (x >>= f) s = f a t := by
  rw [bind_apply, h]

theorem bind_of_error {x : EStateM ε σ α} {f : α → EStateM ε σ β} {s t : σ} {e : ε}
    (h : x s = .error e t) : (x >>= f) s = .error e t := by
  rw [bind_apply, h]

theorem bind_ok {x : EStateM ε σ α} {f : α → EStateM ε σ β} {s u : σ} {b : β} :
    (x >>= f) s = .ok b u ↔ ∃ a t, x s = .ok a t ∧ f a t = .ok b u := by
  rw [bind_apply]
  cases hx : x s with
  | ok a t =>
    constructor
    · exact fun h => ⟨a, t, rfl, h⟩
    · rintro ⟨_, _, h, h'⟩; cases h; exact h'
  | error e t => simp

theorem bind_error {x : EStateM ε σ α} {f : α → EStateM ε σ β} {s u : σ} {e : ε} :
    (x >>= f) s = .error e u ↔ x s = .error e u ∨ ∃ a t, x s = .ok a t ∧ f a t = .error e u := by
  rw [bind_apply]
  cases hx : x s with
  | ok a t =>
    constructor
    · exact fun h => .inr ⟨a, t, rfl, h⟩
    · rintro (h | ⟨_, _, h, h'⟩)
      · cases h
      · cases h; exact h'
  | error e t => simp

@[simp] theorem ofExcept_ok_apply (a : α) (s : σ) :
    (ofExcept (.ok a : Except ε α) : EStateM ε σ α) s = .ok a s := rfl

@[simp] theorem ofExcept_error_apply (e : ε) (s : σ) :
    (ofExcept (.error e : Except ε α) : EStateM ε σ α) s = .error e s := rfl

theorem ofExcept_eq_ok {x : Except ε α} {s t : σ} {a : α} :
    (ofExcept x : EStateM ε σ α) s = .ok a t ↔ x = .ok a ∧ s = t := by
  cases x <;> simp

theorem ofExcept_eq_error {x : Except ε α} {s t : σ} {e : ε} :
    (ofExcept x : EStateM ε σ α) s = .error e t ↔ x = .error e ∧ s = t := by
  cases x <;> simp

theorem except_ok_bind (a : α) (f : α → Except ε β) : ((.ok a : Except ε α) >>= f) = f a := rfl

theorem except_bind_ok {x : Except ε α} {f : α → Except ε β} {b : β} :
    (x >>= f) = .ok b ↔ ∃ a, x = .ok a ∧ f a = .ok b := by
  cases x with
  | ok a =>
    constructor
    · exact fun h => ⟨a, rfl, h⟩
    · rintro ⟨_, h, h'⟩; cases h; exact h'
  | error e =>
    constructor
    · exact fun h => by cases h
    · rintro ⟨_, h, -⟩; cases h

theorem tryCatch_apply (x : EStateM ε σ α) (f : ε → EStateM ε σ α) (s : σ) :
    (tryCatch x f) s = match x s with
      | .ok a t => .ok a t
      | .error e t => f e t := by
  show EStateM.tryCatch x f s = _
  unfold EStateM.tryCatch
  cases x s <;> rfl

theorem tryCatch_of_ok {x : EStateM ε σ α} {f : ε → EStateM ε σ α} {s t : σ} {a : α}
    (h : x s = .ok a t) : (tryCatch x f) s = .ok a t := by
  rw [tryCatch_apply, h]

theorem tryCatch_of_error {x : EStateM ε σ α} {f : ε → EStateM ε σ α} {s t : σ} {e : ε}
    (h : x s = .error e t) : (tryCatch x f) s = f e t := by
  rw [tryCatch_apply, h]

/-- A check: `e` if `p`. -/
def failIf (p : Prop) [Decidable p] (e : ε) : EStateM ε σ Unit :=
  if p then throw e else pure ()

theorem failIf_pos {p : Prop} [Decidable p] {e : ε} (h : p) :
    (failIf p e : EStateM ε σ Unit) = throw e :=
  if_pos h

theorem failIf_neg {p : Prop} [Decidable p] {e : ε} (h : ¬ p) :
    (failIf p e : EStateM ε σ Unit) = pure () :=
  if_neg h

theorem failIf_ok {p : Prop} [Decidable p] {e : ε} {s t : σ} {u : Unit} :
    failIf p e s = .ok u t ↔ ¬ p ∧ s = t := by
  unfold failIf
  split <;> simp_all

theorem failIf_error {p : Prop} [Decidable p] {e e' : ε} {s t : σ} :
    failIf p e s = .error e' t ↔ p ∧ e = e' ∧ s = t := by
  unfold failIf
  split <;> simp_all

/-- A check leaves the state alone. -/
theorem failIf_end (p : Prop) [Decidable p] (e : ε) (s : σ) : endState (failIf p e s) = s := by
  unfold failIf
  split <;> rfl

/-! ## Pure parts -/

theorem ofExcept_bind (x : Except ε α) (f : α → Except ε β) :
    (ofExcept (x >>= f) : EStateM ε σ β) = ofExcept x >>= fun a => ofExcept (f a) := by
  cases x <;> rfl

theorem ofExcept_pure (a : α) : (ofExcept (pure a : Except ε α) : EStateM ε σ α) = pure a := rfl

theorem ofExcept_failIf (p : Prop) [Decidable p] (e : ε) (x : Except ε α) :
    (ofExcept (if p then .error e else x) : EStateM ε σ α) = failIf p e >>= fun _ => ofExcept x := by
  by_cases h : p
  · rw [if_pos h, failIf_pos h]; rfl
  · rw [if_neg h, failIf_neg h]; rfl

/-! ## What every run keeps -/

/-- Every run of `x` takes its state to an `R`-later one, failing or not. -/
def Steps (R : σ → σ → Prop) (x : EStateM ε σ α) : Prop := ∀ s, R s (endState (x s))

theorem Steps.ok {R : σ → σ → Prop} {x : EStateM ε σ α} (h : Steps R x) {s t : σ} {a : α}
    (hx : x s = .ok a t) : R s t := by
  have := h s
  rwa [hx] at this

theorem Steps.error {R : σ → σ → Prop} {x : EStateM ε σ α} (h : Steps R x) {s t : σ} {e : ε}
    (hx : x s = .error e t) : R s t := by
  have := h s
  rwa [hx] at this

theorem Steps.mono {R R' : σ → σ → Prop} {x : EStateM ε σ α} (h : Steps R x)
    (hr : ∀ {s t}, R s t → R' s t) : Steps R' x := fun s => hr (h s)

section Preorder

variable {R : σ → σ → Prop}

theorem Steps.pure [Std.Refl R] (a : α) : Steps R (pure a : EStateM ε σ α) :=
  fun s => Std.Refl.refl s

theorem Steps.throw [Std.Refl R] (e : ε) : Steps R (throw e : EStateM ε σ α) :=
  fun s => Std.Refl.refl s

theorem Steps.get [Std.Refl R] : Steps R (get : EStateM ε σ σ) :=
  fun s => Std.Refl.refl s

theorem Steps.ofExcept [Std.Refl R] (x : Except ε α) :
    Steps R (MonadExcept.ofExcept x : EStateM ε σ α) := by
  intro s
  cases x <;> exact Std.Refl.refl s

theorem Steps.failIf [Std.Refl R] (p : Prop) [Decidable p] (e : ε) :
    Steps R (failIf p e : EStateM ε σ Unit) := by
  by_cases hp : p
  · rw [failIf_pos hp]; exact .throw e
  · rw [failIf_neg hp]; exact .pure ()

theorem Steps.modify {f : σ → σ} (h : ∀ s, R s (f s)) : Steps R (modify f : EStateM ε σ Unit) :=
  fun s => h s

theorem Steps.bind [IsTrans σ R] {x : EStateM ε σ α} {f : α → EStateM ε σ β}
    (hx : Steps R x) (hf : ∀ a, Steps R (f a)) : Steps R (x >>= f) := by
  intro s
  rw [bind_apply]
  cases hxs : x s with
  | ok a t => exact IsTrans.trans _ _ _ (hx.ok hxs) (hf a t)
  | error e t => exact hx.error hxs

theorem Steps.tryCatch [IsTrans σ R] {x : EStateM ε σ α} {f : ε → EStateM ε σ α}
    (hx : Steps R x) (hf : ∀ e, Steps R (f e)) : Steps R (tryCatch x f) := by
  intro s
  rw [tryCatch_apply]
  cases hxs : x s with
  | ok a t => exact hx.ok hxs
  | error e t => exact IsTrans.trans _ _ _ (hx.error hxs) (hf e t)

end Preorder

/-! ## What every error is -/

/-- Every error of `x` satisfies `E`. -/
def Fails (E : ε → Prop) (x : EStateM ε σ α) : Prop := ∀ ⦃s t e⦄, x s = .error e t → E e

section Fails

variable {E : ε → Prop}

theorem Fails.pure (a : α) : Fails E (pure a : EStateM ε σ α) := fun _ _ _ h => nomatch h

theorem Fails.get : Fails E (get : EStateM ε σ σ) := fun _ _ _ h => nomatch h

theorem Fails.modify (f : σ → σ) : Fails E (modify f : EStateM ε σ Unit) := fun _ _ _ h => nomatch h

theorem Fails.throw {e : ε} (he : E e) : Fails E (throw e : EStateM ε σ α) := by
  intro s t e' h
  cases h
  exact he

theorem Fails.ofExcept {x : Except ε α} (hx : ∀ e, x = .error e → E e) :
    Fails E (MonadExcept.ofExcept x : EStateM ε σ α) :=
  fun _ _ e h => hx e (ofExcept_eq_error.1 h).1

theorem Fails.failIf (p : Prop) [Decidable p] {e : ε} (he : E e) : Fails E (failIf p e : EStateM ε σ Unit) := by
  intro s t e' h
  obtain ⟨-, rfl, -⟩ := failIf_error.1 h
  exact he

theorem Fails.bind {x : EStateM ε σ α} {f : α → EStateM ε σ β} (hx : Fails E x) (hf : ∀ a, Fails E (f a)) :
    Fails E (x >>= f) := by
  intro s t e h
  rcases bind_error.1 h with h | ⟨a, u, -, h⟩
  · exact hx h
  · exact hf a h

end Fails

/-! ## Loops -/

/-- The loop `body`, run until it answers `.inr`. Out of fuel, it fails with
`out`. -/
def repeatM (out : ε) (body : β → EStateM ε σ (β ⊕ α)) : Nat → β → EStateM ε σ α
  | 0, _ => throw out
  | n + 1, b => do
    match ← body b with
    | .inl b' => repeatM out body n b'
    | .inr a => pure a

section Loop

variable {out : ε} {body : β → EStateM ε σ (β ⊕ α)}

theorem repeatM_continue {n : Nat} {b b' : β} {s t : σ} (h : body b s = .ok (.inl b') t) :
    repeatM out body (n + 1) b s = repeatM out body n b' t := by
  rw [repeatM, bind_of_ok h]

theorem repeatM_done {n : Nat} {b : β} {s t : σ} {a : α} (h : body b s = .ok (.inr a) t) :
    repeatM out body (n + 1) b s = .ok a t := by
  rw [repeatM, bind_of_ok h]
  rfl

theorem repeatM_error {n : Nat} {b : β} {s t : σ} {e : ε} (h : body b s = .error e t) :
    repeatM out body (n + 1) b s = .error e t := by
  rw [repeatM, bind_of_error h]

/-- An iteration that only runs `x` and continues. -/
theorem repeatM_bind {x : EStateM ε σ γ} {n : Nat} {b b' : β} (h : body b = x >>= fun _ => pure (.inl b')) :
    repeatM out body (n + 1) b = x >>= fun _ => repeatM out body n b' := by
  rw [repeatM, h, bind_assoc]
  rfl

theorem Steps.repeatM {R : σ → σ → Prop} [Std.Refl R] [IsTrans σ R] (h : ∀ b, Steps R (body b)) :
    ∀ n b, Steps R (repeatM out body n b)
  | 0, _ => .throw out
  | n + 1, b => by
    rw [Prog.repeatM]
    refine .bind (h b) fun r => ?_
    cases r with
    | inl b' => exact Steps.repeatM h n b'
    | inr a => exact .pure a

/-- An invariant of the loop's variable and state, kept by each iteration
that continues, holds when the last iteration starts. -/
theorem repeatM_ok {I : β → σ → Prop}
    (hstep : ∀ {b s b' t}, I b s → body b s = .ok (.inl b') t → I b' t) :
    ∀ {n b s a u}, I b s → repeatM out body n b s = .ok a u →
      ∃ b' t, I b' t ∧ body b' t = .ok (.inr a) u
  | 0, _, _, _, _, _, h => by simp [repeatM] at h
  | n + 1, b, s, a, u, hi, h => by
    rw [repeatM, bind_ok] at h
    obtain ⟨r, t, hb, h⟩ := h
    cases r with
    | inl b' => exact repeatM_ok hstep (hstep hi hb) h
    | inr a' =>
      simp only [pure_apply, EStateM.Result.ok.injEq] at h
      obtain ⟨rfl, rfl⟩ := h
      exact ⟨b, s, hi, hb⟩

/-- The same where the loop fails, out of fuel or in its last iteration. -/
theorem repeatM_fails {I : β → σ → Prop}
    (hstep : ∀ {b s b' t}, I b s → body b s = .ok (.inl b') t → I b' t) :
    ∀ {n b s e u}, I b s → repeatM out body n b s = .error e u →
      ∃ b' t, I b' t ∧ (body b' t = .error e u ∨ e = out ∧ u = t)
  | 0, b, s, e, u, hi, h => by
    cases h
    exact ⟨b, s, hi, .inr ⟨rfl, rfl⟩⟩
  | n + 1, b, s, e, u, hi, h => by
    rw [repeatM] at h
    rcases bind_error.1 h with h | ⟨r, t, hb, h⟩
    · exact ⟨b, s, hi, .inl h⟩
    · cases r with
      | inl b' => exact repeatM_fails hstep (hstep hi hb) h
      | inr a => cases h

theorem Fails.repeatM {E : ε → Prop} (hout : E out) (h : ∀ b, Fails E (body b)) (n : Nat) (b : β) :
    Fails E (repeatM out body n b) := by
  intro s t e herr
  obtain ⟨b', t', -, hbody | ⟨rfl, -⟩⟩ := repeatM_fails (I := fun _ _ => True) (fun _ _ => trivial) trivial herr
  · exact h b' hbody
  · exact hout

/-- Where every iteration that continues keeps `I` and lowers `need`, any two
fuels above it run the same, whatever is said out of fuel. -/
theorem repeatM_fuel {out' : ε} (I : β → σ → Prop) (need : β → σ → Nat)
    (hdown : ∀ {b s b' t}, I b s → body b s = .ok (.inl b') t → I b' t ∧ need b' t < need b s) :
    ∀ {n m : Nat} {b : β} {s : σ}, I b s → need b s < n → need b s < m →
      repeatM out body n b s = repeatM out' body m b s
  | n + 1, m + 1, b, s, hi, hn, hm => by
    rw [repeatM, repeatM, bind_apply, bind_apply]
    cases hb : body b s with
    | error e t => rfl
    | ok r t =>
      cases r with
      | inr a => rfl
      | inl b' =>
        obtain ⟨hi', hlt⟩ := hdown hi hb
        exact repeatM_fuel I need hdown hi' (by omega) (by omega)

/-- A loop whose variable is seen through `f` runs as the loop itself. -/
theorem repeatM_map {f : β → β} {I : β → Prop} (hmap : ∀ b, I b → body (f b) = body b >>= fun x => pure (x.map f id))
    (hstep : ∀ {b s b' t}, I b → body b s = .ok (.inl b') t → I b') :
    ∀ {n : Nat} {b : β} {s : σ}, I b → repeatM out body n (f b) s = repeatM out body n b s
  | 0, _, _, _ => rfl
  | n + 1, b, s, hi => by
    rw [repeatM, repeatM, hmap b hi, bind_assoc, bind_apply, bind_apply]
    cases hb : body b s with
    | error e t => rfl
    | ok r t =>
      cases r with
      | inr a => rfl
      | inl b' => exact repeatM_map hmap hstep (hstep hi hb)

end Loop

end Prog

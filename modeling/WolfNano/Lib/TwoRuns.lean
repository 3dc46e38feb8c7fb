/-
Two runs side by side.

`Agree R P` says of two results that they have the same outcome: both errors,
the same one, or both values, related by `P`; and that the states they leave
are related by `R`. `Rel R P x y` says that `x` and `y` agree whenever they
start from related states. The rules follow the program; where two runs agree
for a reason of their own, `Agree.bind` takes that and goes on.
-/
import WolfNano.Lib.EState

namespace Prog

variable {ε σ α α' β β' : Type}

def Agree (R : σ → σ → Prop) (P : α → α' → Prop) : EStateM.Result ε σ α → EStateM.Result ε σ α' → Prop
  | .ok a s, .ok b t => P a b ∧ R s t
  | .error e s, .error e' t => e = e' ∧ R s t
  | _, _ => False

def Rel (R : σ → σ → Prop) (P : α → α' → Prop) (x : EStateM ε σ α) (y : EStateM ε σ α') : Prop :=
  ∀ s t, R s t → Agree R P (x s) (y t)

variable {R : σ → σ → Prop} {P : α → α' → Prop} {Q : β → β' → Prop}

theorem Agree.end {r : EStateM.Result ε σ α} {r' : EStateM.Result ε σ α'} (h : Agree R P r r') :
    R (endState r) (endState r') := by
  cases r <;> cases r' <;> first | exact h.2 | exact h.elim

theorem Agree.imp {r : EStateM.Result ε σ α} {r' : EStateM.Result ε σ α'} {P' : α → α' → Prop} (h : Agree R P r r')
    (hp : ∀ a b, P a b → P' a b) : Agree R P' r r' := by
  revert h
  cases r <;> cases r' <;> intro h
  · exact ⟨hp _ _ h.1, h.2⟩
  · exact h.elim
  · exact h.elim
  · exact h

/-- One bind, at the states the runs have come to. -/
theorem Agree.bindAt {x : EStateM ε σ α} {y : EStateM ε σ α'} {f : α → EStateM ε σ β} {g : α' → EStateM ε σ β'}
    {s t : σ} (h : Agree R P (x s) (y t))
    (hf : ∀ a b s' t', x s = .ok a s' → y t = .ok b t' → P a b → R s' t' → Agree R Q (f a s') (g b t')) :
    Agree R Q ((x >>= f) s) ((y >>= g) t) := by
  rw [bind_apply, bind_apply]
  revert h hf
  cases x s <;> cases y t <;> intro h hf
  · exact hf _ _ _ _ rfl rfl h.1 h.2
  · exact h.elim
  · exact h.elim
  · exact h

theorem Agree.bind {x : EStateM ε σ α} {y : EStateM ε σ α'} {f : α → EStateM ε σ β} {g : α' → EStateM ε σ β'} {s t : σ}
    (h : Agree R P (x s) (y t)) (hf : ∀ a b, P a b → Rel R Q (f a) (g b)) :
    Agree R Q ((x >>= f) s) ((y >>= g) t) :=
  h.bindAt fun a b _ _ _ _ hp hr => hf a b hp _ _ hr

theorem Agree.tryCatch {x : EStateM ε σ α} {y : EStateM ε σ α'} {f : ε → EStateM ε σ α} {g : ε → EStateM ε σ α'}
    {s t : σ} (h : Agree R P (x s) (y t)) (hf : ∀ e, Rel R P (f e) (g e)) :
    Agree R P ((tryCatch x f) s) ((tryCatch y g) t) := by
  rw [tryCatch_apply, tryCatch_apply]
  revert h
  cases x s <;> cases y t <;> intro h
  · exact h
  · exact h.elim
  · exact h.elim
  · obtain ⟨rfl, hr⟩ := h
    exact hf _ _ _ hr

theorem Rel.bind {x : EStateM ε σ α} {y : EStateM ε σ α'} {f : α → EStateM ε σ β} {g : α' → EStateM ε σ β'}
    (h : Rel R P x y) (hf : ∀ a b, P a b → Rel R Q (f a) (g b)) : Rel R Q (x >>= f) (y >>= g) :=
  fun s t hr => (h s t hr).bind hf

/-- The same value comes out of both, so what follows is the same program. -/
theorem Rel.seq {x y : EStateM ε σ α} {f : α → EStateM ε σ β} {g : α → EStateM ε σ β'} (h : Rel R Eq x y)
    (hf : ∀ a, Rel R Q (f a) (g a)) : Rel R Q (x >>= f) (y >>= g) :=
  h.bind fun a _ hab => hab ▸ hf a

theorem Rel.tryCatch {x : EStateM ε σ α} {y : EStateM ε σ α'} {f : ε → EStateM ε σ α} {g : ε → EStateM ε σ α'}
    (h : Rel R P x y) (hf : ∀ e, Rel R P (f e) (g e)) : Rel R P (tryCatch x f) (tryCatch y g) :=
  fun s t hr => (h s t hr).tryCatch hf

theorem Rel.pure {a : α} {b : α'} (h : P a b) : Rel R P (pure a : EStateM ε σ α) (pure b) := fun _ _ hr => ⟨h, hr⟩

theorem Rel.throw (e : ε) : Rel R P (throw e : EStateM ε σ α) (throw e) := fun _ _ hr => ⟨rfl, hr⟩

/-- Two computations without effects come to one error, or to related values. -/
def AgreeExcept (P : α → α' → Prop) : Except ε α → Except ε α' → Prop
  | .ok a, .ok b => P a b
  | .error e, .error e' => e = e'
  | _, _ => False

theorem agreeExcept_eq {x y : Except ε α} : AgreeExcept Eq x y ↔ x = y := by
  cases x <;> cases y <;> simp [AgreeExcept]

theorem Rel.ofExceptBoth {x : Except ε α} {y : Except ε α'} (h : AgreeExcept P x y) :
    Rel R P (MonadExcept.ofExcept x : EStateM ε σ α) (MonadExcept.ofExcept y) := by
  intro s t hr
  revert h
  cases x <;> cases y <;> intro h
  · exact ⟨h, hr⟩
  · exact h.elim
  · exact h.elim
  · exact ⟨h, hr⟩

theorem Rel.ofExcept (x : Except ε α) : Rel R Eq (MonadExcept.ofExcept x : EStateM ε σ α) (MonadExcept.ofExcept x) :=
  .ofExceptBoth (agreeExcept_eq.2 rfl)

/-- A computation without effects comes out the same; what follows may use its value. -/
theorem Agree.ofExcept_bind {x : Except ε α} {f : α → EStateM ε σ β} {g : α → EStateM ε σ β'} {s t : σ} (hr : R s t)
    (h : ∀ a, x = .ok a → Agree R Q (f a s) (g a t)) :
    Agree R Q ((MonadExcept.ofExcept x >>= f) s) ((MonadExcept.ofExcept x >>= g) t) := by
  cases x with
  | ok a => exact h a rfl
  | error e => exact ⟨rfl, hr⟩

theorem Rel.failIf (p : Prop) [Decidable p] (e : ε) :
    Rel R Eq (failIf p e : EStateM ε σ Unit) (Prog.failIf p e) := by
  intro s t hr
  by_cases hp : p
  · rw [failIf_pos hp]; exact ⟨rfl, hr⟩
  · rw [failIf_neg hp]; exact ⟨rfl, hr⟩

theorem Rel.modify {f g : σ → σ} (h : ∀ s t, R s t → R (f s) (g t)) :
    Rel R Eq (modify f : EStateM ε σ Unit) (modify g) := fun s t hr => ⟨rfl, h s t hr⟩

/-- Loops whose turns agree: both go on, with related variables, or both are done. -/
theorem Rel.repeatM {S : β → β' → Prop} {out : ε} {body : β → EStateM ε σ (β ⊕ α)}
    {body' : β' → EStateM ε σ (β' ⊕ α')} (h : ∀ b b', S b b' → Rel R (Sum.LiftRel S P) (body b) (body' b')) :
    ∀ (n : Nat) (b : β) (b' : β'), S b b' → Rel R P (repeatM out body n b) (repeatM out body' n b')
  | 0, _, _, _ => .throw out
  | n + 1, b, b', hs => by
    rw [Prog.repeatM, Prog.repeatM]
    refine .bind (h b b' hs) fun r r' hr => ?_
    cases hr with
    | inl hb => exact Rel.repeatM h n _ _ hb
    | inr ha => exact .pure ha

/-- Loops whose turns do the same from related states. -/
theorem Rel.repeatM_eq {out : ε} {body body' : β → EStateM ε σ (β ⊕ α)} (h : ∀ b, Rel R Eq (body b) (body' b))
    (n : Nat) (b : β) : Rel R Eq (Prog.repeatM out body n b) (Prog.repeatM out body' n b) := by
  refine .repeatM (S := Eq) (fun b b' hb s t hr => ?_) n b b rfl
  subst hb
  refine (h b s t hr).imp fun r r' hrr => ?_
  subst hrr
  cases r with
  | inl b' => exact .inl rfl
  | inr a => exact .inr rfl

/-- A loop with one body, run from related states. -/
theorem Rel.repeatM_same {out : ε} {body : β → EStateM ε σ (β ⊕ α)} (h : ∀ b, Rel R Eq (body b) (body b)) (n : Nat)
    (b : β) : Rel R Eq (Prog.repeatM out body n b) (Prog.repeatM out body n b) := .repeatM_eq h n b

/-- What is done with the state may use that the states are related. -/
theorem Rel.get {f : σ → EStateM ε σ β} {g : σ → EStateM ε σ β'} (h : ∀ s t, R s t → Rel R Q (f s) (g t)) :
    Rel R Q (MonadState.get >>= f) (MonadState.get >>= g) := fun s t hr => h s t hr s t hr

end Prog

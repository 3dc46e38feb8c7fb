/-
Programs that check themselves as they run: an index against what has been
written, a sum against the width of its word, a loop against a bound on its
passes. A check that fails stops the program with a fault, which is none of
the errors of the program proper.

`Refines R x y` says that `x` has no fault and otherwise does what `y` does. It
is proved a bind at a time. The loop `whileM` refines the loop `repeatM`
(`Refines.whileM`) or a recursion with fuel (`Refines.whileM_fuel`) where
something goes down with each pass; one `repeatM` refines another turn by turn
(`Refines.turns`).
`mapFault` takes a checked program into one that has more to check.
-/
import WolfNano.Lib.EState

namespace Prog

variable {φ ψ ε σ α β γ δ : Type}

/-- Why a checked program stops: a check that failed, or an error of its own. -/
inductive Stop (φ ε : Type) where
  | fault (f : φ)
  | ret (e : ε)

/-- A program with checks. -/
abbrev Checked (φ ε σ : Type) := EStateM (Stop φ ε) σ

/-- Fault unless `P`. -/
def check (P : Prop) [Decidable P] (f : φ) : Checked φ ε σ Unit := failIf (¬ P) (.fault f)

theorem check_of {P : Prop} [Decidable P] (h : P) (f : φ) : (check P f : Checked φ ε σ Unit) = pure () :=
  failIf_neg fun hn => hn h

/-- The same program, a fault `f` of its being `g f`. -/
def mapFault (g : φ → ψ) (x : Checked φ ε σ α) : Checked ψ ε σ α := fun s =>
  match x s with
  | .ok a t => .ok a t
  | .error (.fault f) t => .error (.fault (g f)) t
  | .error (.ret e) t => .error (.ret e) t

/-- A program without checks. -/
def unchecked (x : EStateM ε σ α) : Checked φ ε σ α := fun s =>
  match x s with
  | .ok a t => .ok a t
  | .error e t => .error (.ret e) t

/-! ## Refinement -/

/-- No fault; else the same end, in the same state, with related values. -/
def RefinesAt (R : α → β → Prop) : EStateM.Result (Stop φ ε) σ α → EStateM.Result ε σ β → Prop
  | .ok a s, .ok b t => R a b ∧ s = t
  | .error (.ret e) s, .error e' t => e = e' ∧ s = t
  | _, _ => False

/-- `x` does what `y` does, and no check fails. -/
def Refines (R : α → β → Prop) (x : Checked φ ε σ α) (y : EStateM ε σ β) : Prop := ∀ s, RefinesAt R (x s) (y s)

theorem Refines.no_fault {R : α → β → Prop} {x : Checked φ ε σ α} {y : EStateM ε σ β} (h : Refines R x y) (s : σ)
    (f : φ) (t : σ) : x s ≠ .error (.fault f) t := by
  intro hx
  have hs := h s
  rw [hx] at hs
  exact hs

theorem Refines.pure {R : α → β → Prop} {a : α} {b : β} (h : R a b) :
    Refines R (pure a : Checked φ ε σ α) (pure b) := fun _ => ⟨h, rfl⟩

theorem Refines.throw {R : α → β → Prop} (e : ε) : Refines R (throw (.ret e) : Checked φ ε σ α) (throw e) :=
  fun _ => ⟨rfl, rfl⟩

theorem Refines.get : Refines Eq (get : Checked φ ε σ σ) get := fun _ => ⟨rfl, rfl⟩

theorem Refines.unchecked (x : EStateM ε σ α) : Refines Eq (unchecked x : Checked φ ε σ α) x := by
  intro s
  unfold Prog.unchecked
  cases x s with
  | ok a t => exact ⟨rfl, rfl⟩
  | error e t => exact ⟨rfl, rfl⟩

theorem Refines.failIf (P : Prop) [Decidable P] (e : ε) :
    Refines (fun _ _ => ¬ P) (failIf P (.ret e) : Checked φ ε σ Unit) (failIf P e) := by
  by_cases h : P
  · rw [failIf_pos h, failIf_pos h]
    exact .throw e
  · rw [failIf_neg h, failIf_neg h]
    exact .pure h

/-- The values are ones that `y` can come to. -/
theorem Refines.outcome {R : α → β → Prop} {x : Checked φ ε σ α} {y : EStateM ε σ β} (h : Refines R x y) :
    Refines (fun a b => R a b ∧ ∃ s t, y s = .ok b t) x y := by
  intro s
  have hs := h s
  revert hs
  rcases x s with ⟨a, t⟩ | ⟨_ | e, t⟩ <;> rcases hy : y s with ⟨b, u⟩ | ⟨e', u⟩
  · exact fun hs => ⟨⟨hs.1, s, u, hy⟩, hs.2⟩
  all_goals exact id

/-- The values are ones that `x` can come to. -/
theorem Refines.reached {R : α → β → Prop} {x : Checked φ ε σ α} {y : EStateM ε σ β} (h : Refines R x y) :
    Refines (fun a b => R a b ∧ ∃ s t, x s = .ok a t) x y := by
  intro s
  have hs := h s
  revert hs
  rcases hx : x s with ⟨a, t⟩ | ⟨_ | e, t⟩ <;> rcases y s with ⟨b, u⟩ | ⟨e', u⟩
  · exact fun hs => ⟨⟨hs.1, s, t, hx⟩, hs.2⟩
  all_goals exact id

theorem Refines.imp {R R' : α → β → Prop} {x : Checked φ ε σ α} {y : EStateM ε σ β} (h : Refines R x y)
    (hr : ∀ a b, R a b → R' a b) : Refines R' x y := by
  intro s
  have hs := h s
  revert hs
  rcases x s with ⟨a, t⟩ | ⟨_ | e, t⟩ <;> rcases y s with ⟨b, u⟩ | ⟨e', u⟩
  · exact fun hs => ⟨hr a b hs.1, hs.2⟩
  all_goals exact id

theorem Refines.mapFault {R : α → β → Prop} {x : Checked φ ε σ α} {y : EStateM ε σ β} (h : Refines R x y)
    (g : φ → ψ) : Refines R (mapFault g x) y := by
  intro s
  have hs := h s
  unfold Prog.mapFault
  revert hs
  rcases x s with ⟨a, t⟩ | ⟨f | e, t⟩ <;> rcases y s with ⟨b, u⟩ | ⟨e', u⟩ <;> exact id

theorem RefinesAt.bind {Q : α → β → Prop} {R : γ → δ → Prop} {x : Checked φ ε σ α} {y : EStateM ε σ β}
    {f : α → Checked φ ε σ γ} {g : β → EStateM ε σ δ} {s : σ} (h : RefinesAt Q (x s) (y s))
    (hf : ∀ a b t, y s = .ok b t → Q a b → RefinesAt R (f a t) (g b t)) :
    RefinesAt R ((x >>= f) s) ((y >>= g) s) := by
  rw [bind_apply, bind_apply]
  revert h
  rcases x s with ⟨a, t⟩ | ⟨_ | e, t⟩ <;> rcases hy : y s with ⟨b, u⟩ | ⟨e', u⟩ <;> intro h
  · obtain ⟨hq, rfl⟩ := h
    exact hf a b t hy hq
  · exact h.elim
  · exact h.elim
  · exact h.elim
  · exact h.elim
  · exact h

theorem Refines.bind {Q : α → β → Prop} {R : γ → δ → Prop} {x : Checked φ ε σ α} {y : EStateM ε σ β}
    {f : α → Checked φ ε σ γ} {g : β → EStateM ε σ δ} (h : Refines Q x y) (hf : ∀ a b, Q a b → Refines R (f a) (g b)) :
    Refines R (x >>= f) (y >>= g) := fun s => (h s).bind fun a b t _ hq => hf a b hq t

/-- The same values, and then the same. -/
theorem Refines.seq {R : γ → δ → Prop} {x : Checked φ ε σ α} {y : EStateM ε σ α} {f : α → Checked φ ε σ γ}
    {g : α → EStateM ε σ δ} (h : Refines Eq x y) (hf : ∀ a, Refines R (f a) (g a)) : Refines R (x >>= f) (y >>= g) := by
  refine h.bind fun a b hab => ?_
  subst hab
  exact hf a

/-- More is done with the value than `y` does. -/
theorem Refines.map {Q : α → β → Prop} {R : γ → β → Prop} {x : Checked φ ε σ α} {y : EStateM ε σ β} {f : α → γ}
    (h : Refines Q x y) (hf : ∀ a b, Q a b → R (f a) b) : Refines R (x >>= fun a => Pure.pure (f a)) y := by
  rw [← bind_pure y]
  exact h.bind fun a b hab => .pure (hf a b hab)

theorem Refines.seqExcept {R : γ → δ → Prop} {x : Checked φ ε σ α} {y : Except ε α} {f : α → Checked φ ε σ γ}
    {g : α → Except ε δ} (h : Refines Eq x (ofExcept y)) (hf : ∀ a, Refines R (f a) (ofExcept (g a))) :
    Refines R (x >>= f) (ofExcept (y >>= g)) := by
  rw [ofExcept_bind]
  exact h.seq hf

theorem Refines.tryCatch {R : α → β → Prop} {x : Checked φ ε σ α} {y : EStateM ε σ β}
    {f : Stop φ ε → Checked φ ε σ α} {g : ε → EStateM ε σ β} (h : Refines R x y)
    (hf : ∀ e, Refines R (f (.ret e)) (g e)) : Refines R (tryCatch x f) (tryCatch y g) := by
  intro s
  have hs := h s
  rw [tryCatch_apply, tryCatch_apply]
  revert hs
  rcases x s with ⟨a, t⟩ | ⟨_ | e, t⟩ <;> rcases y s with ⟨b, u⟩ | ⟨e', u⟩
  · exact id
  · exact False.elim
  · exact False.elim
  · exact False.elim
  · exact False.elim
  · rintro ⟨rfl, rfl⟩
    exact hf e t

/-! ## Loops -/

theorem Refines.turns {out : ε} {body : β → Checked φ ε σ (β ⊕ α)} {step : γ → EStateM ε σ (γ ⊕ δ)}
    {I : β → γ → Prop} {F : α → δ → Prop} (hbody : ∀ b c, I b c → Refines (Sum.LiftRel I F) (body b) (step c)) :
    ∀ (n : Nat) {b : β} {c : γ}, I b c → Refines F (repeatM (.ret out) body n b) (repeatM out step n c)
  | 0, _, _, _ => .throw out
  | n + 1, b, c, hi => by
    rw [repeatM, repeatM]
    refine (hbody b c hi).bind fun x y hxy => ?_
    cases hxy with
    | inl hi' => exact Refines.turns hbody n hi'
    | inr hf => exact .pure hf

/-- What follows a pass, `next` being the rest of the loop. -/
def onward (next : β → Checked φ ε σ β) : β ⊕ β → Checked φ ε σ β
  | .inl b => next b
  | .inr b => pure b

/-- The loop while `guard`, whose body may also break off (`.inr`). It has so
many passes; where it would begin another, that is the fault `spin`. -/
def whileM (spin : φ) (guard : β → Checked φ ε σ Bool) (body : β → Checked φ ε σ (β ⊕ β)) :
    Nat → β → Checked φ ε σ β
  | 0, b => do
    if ← guard b then throw (.fault spin) else pure b
  | n + 1, b => do
    if ← guard b then body b >>= onward (whileM spin guard body n) else pure b

section While

variable {spin : φ} {guard : β → Checked φ ε σ Bool} {body : β → Checked φ ε σ (β ⊕ β)}

theorem whileM_exit {b : β} (h : guard b = pure false) : ∀ n, whileM spin guard body n b = pure b
  | 0 => by rw [whileM, h]; rfl
  | n + 1 => by rw [whileM, h]; rfl

theorem whileM_pass {b : β} (h : guard b = pure true) (n : Nat) :
    whileM spin guard body (n + 1) b = body b >>= onward (whileM spin guard body n) := by
  rw [whileM, h]
  rfl

/-- How a pass stands to a turn: both go on, or the turn is the last. -/
def Turn (I : β → γ → Prop) (F : β → δ → Prop) : β ⊕ β → γ ⊕ δ → Prop
  | .inl b, .inl c => I b c
  | .inl b, .inr d => F b d
  | .inr _, _ => False

/-- A pass that goes on stands to a turn that is the last once it is done. -/
theorem Turn.of_done {R : β → γ → Prop} {b : β} {c : γ} (h : R b c) (done : β → Bool) {d : Bool} (hd : d = done b) :
    Refines (Turn (fun b c => R b c ∧ done b = false) fun b c => R b c ∧ done b = true)
      (Pure.pure (.inl b) : Checked φ ε σ (β ⊕ β)) (Pure.pure (if d then .inr c else .inl c)) := by
  cases d with
  | true => exact .pure ⟨h, hd.symm⟩
  | false => exact .pure ⟨h, hd.symm⟩

/-- A loop refines another by its passes, where each turn of that one lowers
`need` and `fuel`: it has passes enough with one more than `need`. -/
theorem Refines.whileM {out : ε} {step : γ → EStateM ε σ (γ ⊕ δ)} {I : β → γ → Prop} {F : β → δ → Prop}
    (need fuel : σ → Nat) (hgo : ∀ b c, I b c → guard b = Pure.pure true)
    (hend : ∀ b d, F b d → guard b = Pure.pure false)
    (hbody : ∀ b c, I b c → Refines (Turn I F) (body b) (step c))
    (hdown : ∀ c x s t, step c s = .ok x t → need t < need s ∧ fuel t < fuel s) :
    ∀ (n m : Nat) (b : β) (c : γ) (s : σ), I b c → need s < n → fuel s < m →
      RefinesAt F (Prog.whileM spin guard body n b s) (repeatM out step m c s)
  | n + 1, m + 1, b, c, s, hi, hn, hm => by
    rw [whileM_pass (hgo b c hi), repeatM]
    refine RefinesAt.bind (hbody b c hi s) fun x y t hy hq => ?_
    obtain ⟨hneed, hfuel⟩ := hdown c y s t hy
    cases x with
    | inr b' => exact hq.elim
    | inl b' =>
      cases y with
      | inl c' => exact Refines.whileM need fuel hgo hend hbody hdown n m b' c' t hq (by omega) (by omega)
      | inr d =>
        show RefinesAt F (Prog.whileM spin guard body n b' t) (.ok d t)
        rw [whileM_exit (hend b' d hq)]
        exact ⟨hq, rfl⟩

/-- A loop refines a recursion with fuel, where each pass lowers what is
`left`: it has passes enough with that many. `next` is the rest of the loop. -/
theorem Refines.whileM_fuel (go : β → Bool) (left : β → Nat) {f : Nat → γ → EStateM ε σ δ} {I : β → γ → Prop}
    {F : β → δ → Prop} (hguard : ∀ b c, I b c → guard b = Pure.pure (go b))
    (hleft : ∀ b c, I b c → go b = true → 0 < left b)
    (hexit : ∀ b c m, I b c → go b = false → Refines F (Pure.pure b : Checked φ ε σ β) (f m c))
    (hpass : ∀ b c m (next : β → Checked φ ε σ β), I b c → go b = true →
      (∀ b' c', I b' c' → left b' < left b → Refines F (next b') (f m c')) →
      Refines F (body b >>= onward next) (f (m + 1) c)) :
    ∀ (n m : Nat) (b : β) (c : γ), I b c → left b ≤ n → left b ≤ m →
      Refines F (Prog.whileM spin guard body n b) (f m c) := by
  intro n
  induction n with
  | zero =>
    intro m b c hi hn _
    have hgo : go b = false := Bool.eq_false_iff.2 fun hgo => Nat.not_lt.2 hn (hleft b c hi hgo)
    rw [whileM_exit (by rw [hguard b c hi, hgo])]
    exact hexit b c m hi hgo
  | succ n ih =>
    intro m b c hi hn hm
    cases hgo : go b with
    | false =>
      rw [whileM_exit (by rw [hguard b c hi, hgo])]
      exact hexit b c m hi hgo
    | true =>
      have hpos := hleft b c hi hgo
      obtain ⟨m, rfl⟩ : ∃ k, m = k + 1 := ⟨m - 1, by omega⟩
      rw [whileM_pass (by rw [hguard b c hi, hgo])]
      exact hpass b c m _ hi hgo fun b' c' hi' hlt => ih m b' c' hi' (by omega) (by omega)

end While

end Prog

/-
Inputs that a function does not tell apart.

Where the outputs of two runs agree, either the inputs do, or some function on
the way gave two of its own inputs one output. `Collides` names the two:
that a function which shortens its input has a pair somewhere says nothing.
-/
import Mathlib.Data.Prod.Basic

namespace Prog

variable {α β γ δ : Type} {f : α → Option β} {g : β → Option γ}

/-- `f` gives two inputs one output. -/
structure Collides (f : α → Option β) (x y : α) : Prop where
  ne : x ≠ y
  same : ∃ b, f x = some b ∧ f y = some b

theorem eq_or_collides {x y : α} {b : β} (hx : f x = some b) (hy : f y = some b) : x = y ∨ Collides f x y := by
  by_cases h : x = y
  · exact .inl h
  · exact .inr ⟨h, b, hx, hy⟩

/-- Of two functions in turn, the first collides, or the second on what it is given. -/
theorem Collides.of_bind {x y : α} {c : γ} (hx : (f x).bind g = some c) (hy : (f y).bind g = some c) :
    x = y ∨ Collides f x y ∨ ∃ a b, f x = some a ∧ f y = some b ∧ Collides g a b := by
  obtain ⟨a, ha, hga⟩ := Option.bind_eq_some_iff.1 hx
  obtain ⟨b, hb, hgb⟩ := Option.bind_eq_some_iff.1 hy
  rcases eq_or_collides hga hgb with rfl | hg
  · rcases eq_or_collides ha hb with rfl | hf
    · exact .inl rfl
    · exact .inr (.inl hf)
  · exact .inr (.inr ⟨a, b, ha, hb, hg⟩)

/-- Two functions side by side. -/
def both (f : α → Option β) (g : γ → Option δ) (x : α × γ) : Option (β × δ) :=
  (f x.1).bind fun a => (g x.2).map fun b => (a, b)

theorem both_eq_some {g : γ → Option δ} {x : α × γ} {a : β} {b : δ} :
    both f g x = some (a, b) ↔ f x.1 = some a ∧ g x.2 = some b := by
  simp [both, Option.bind_eq_some_iff]

/-- Side by side they collide only where one of them does. -/
theorem Collides.of_both {g : γ → Option δ} {x y : α × γ} (h : Collides (both f g) x y) :
    Collides f x.1 y.1 ∨ Collides g x.2 y.2 := by
  obtain ⟨hne, ⟨a, b⟩, hx, hy⟩ := h
  rw [both_eq_some] at hx hy
  rcases eq_or_collides hx.1 hy.1 with h₁ | h₁
  · rcases eq_or_collides hx.2 hy.2 with h₂ | h₂
    · exact absurd (Prod.ext h₁ h₂) hne
    · exact .inr h₂
  · exact .inl h₁

end Prog

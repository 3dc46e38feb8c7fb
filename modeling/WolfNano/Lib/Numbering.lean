/-
Attempts that take their number from a counter.

`segment` cuts a history at separators. `Numbered f l n` says that the
attempts `l`, each with a value and whether it succeeded, took the values
`f 0`, `f 1`, … in order: an attempt that succeeds uses its number up, one that
fails may leave it to the next, and `n` is the number the next one gets. Where
`f` is injective, a value that a success has used is never used again.
-/
import Mathlib.Data.List.Basic

namespace Prog

/-! ## Segments -/

section Segment

variable {α : Type} (sep : α → Bool)

/-- What comes after the first `g` separators and before the next. -/
def segment : Nat → List α → List α
  | _, [] => []
  | 0, a :: as => if sep a then [] else a :: segment 0 as
  | g + 1, a :: as => if sep a then segment g as else segment (g + 1) as

theorem segment_append : ∀ (g : Nat) (as bs : List α), segment sep g (as ++ bs) =
    segment sep g as ++ if as.countP sep ≤ g then segment sep (g - as.countP sep) bs else []
  | g, [], bs => by simp [segment]
  | 0, a :: as, bs => by
    by_cases ha : sep a
    · simp [segment, ha]
    · simp [segment, ha, segment_append 0 as bs]
  | g + 1, a :: as, bs => by
    by_cases ha : sep a
    · simp [segment, ha, segment_append g as bs]
    · simp [segment, ha, segment_append (g + 1) as bs]

theorem segment_subset : ∀ (g : Nat) (as : List α), segment sep g as ⊆ as
  | _, [] => by simp [segment]
  | 0, a :: as => by
    rw [segment]
    split
    · exact List.nil_subset _
    · exact List.cons_subset_cons a (segment_subset 0 as)
  | g + 1, a :: as => by
    rw [segment]
    split
    · exact List.subset_cons_of_subset a (segment_subset g as)
    · exact List.subset_cons_of_subset a (segment_subset (g + 1) as)

/-- Past the last separator there is nothing. -/
theorem segment_beyond : ∀ {g : Nat} {as : List α}, as.countP sep < g → segment sep g as = []
  | _, [], _ => by simp [segment]
  | g + 1, a :: as, h => by
    by_cases ha : sep a
    · rw [List.countP_cons_of_pos ha] at h
      simp [segment, ha, segment_beyond (Nat.lt_of_succ_lt_succ h)]
    · rw [List.countP_cons_of_neg ha] at h
      simp [segment, ha, segment_beyond h]

/-- Without separators it is all in the first segment. -/
theorem segment_zero {as : List α} (h : ∀ a ∈ as, ¬ sep a) : segment sep 0 as = as := by
  induction as with
  | nil => rfl
  | cons a as ih =>
    rw [List.forall_mem_cons] at h
    simp [segment, h.1, ih h.2]

end Segment

/-! ## Numbered attempts -/

variable {β : Type} {f : Nat → β}

inductive Numbered (f : Nat → β) : List (β × Bool) → Nat → Prop where
  | nil : Numbered f [] 0
  | used {l : List (β × Bool)} {n : Nat} (h : Numbered f l n) : Numbered f (l ++ [(f n, true)]) (n + 1)
  | left {l : List (β × Bool)} {n : Nat} (h : Numbered f l n) : Numbered f (l ++ [(f n, false)]) n
  | skipped {l : List (β × Bool)} {n : Nat} (h : Numbered f l n) : Numbered f l (n + 1)

namespace Numbered

variable {l : List (β × Bool)} {n : Nat}

/-- An attempt has a number below the next, or the next if it failed. -/
theorem mem (h : Numbered f l n) {x : β × Bool} (hx : x ∈ l) :
    ∃ k ≤ n, x.1 = f k ∧ (x.2 = true → k < n) := by
  induction h with
  | nil => cases hx
  | used h ih =>
    rcases List.mem_append.1 hx with hx | hx
    · obtain ⟨k, hk, hf, -⟩ := ih hx
      exact ⟨k, by omega, hf, fun _ => by omega⟩
    · rw [List.mem_singleton.1 hx]
      exact ⟨_, Nat.le_succ _, rfl, fun _ => Nat.lt_succ_self _⟩
  | left h ih =>
    rcases List.mem_append.1 hx with hx | hx
    · exact ih hx
    · rw [List.mem_singleton.1 hx]
      exact ⟨_, Nat.le_refl _, rfl, nofun⟩
  | skipped h ih =>
    obtain ⟨k, hk, hf, -⟩ := ih hx
    exact ⟨k, by omega, hf, fun _ => by omega⟩

/-- **No reuse**: a value that an attempt used up is not that of a later one,
as long as `f` has not repeated itself. -/
theorem noReuse {bound : Nat} (hf : ∀ i < bound, ∀ j < bound, f i = f j → i = j) (h : Numbered f l n)
    (hn : n < bound) : l.Pairwise fun x y => x.2 = true → x.1 ≠ y.1 := by
  have hnew : ∀ {l : List (β × Bool)} {n : Nat} (s : Bool), Numbered f l n → n < bound →
      l.Pairwise (fun x y => x.2 = true → x.1 ≠ y.1) →
      (l ++ [(f n, s)]).Pairwise fun x y => x.2 = true → x.1 ≠ y.1 := by
    intro l n s h hn hl
    rw [List.pairwise_append]
    refine ⟨hl, List.pairwise_singleton _ _, fun x hx y hy hused heq => ?_⟩
    obtain ⟨k, -, hk, hlt⟩ := h.mem hx
    rw [List.mem_singleton.1 hy, hk] at heq
    have hlt := hlt hused
    exact absurd (hf k (by omega) n hn heq) (by omega)
  induction h with
  | nil => exact .nil
  | used h ih => exact hnew true h (by omega) (ih (by omega))
  | left h ih => exact hnew false h hn (ih hn)
  | skipped h ih => exact ih (by omega)

end Numbered

end Prog

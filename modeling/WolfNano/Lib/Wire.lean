/-
Big-endian numbers and length-prefixed vectors, and taking them off the
front of a byte string.

Each taker is characterised by what it took: `takeNat_eq_some`,
`takeVec_eq_some` and `takeBytes_eq_some` say that it answers exactly when the
bytes start with the encoding of its answer, so a parser built of takers and
the encoding it inverts are one statement.
-/
import Mathlib.Data.List.Basic
import Mathlib.Tactic.Ring

namespace Wire

abbrev Bytes := List UInt8

/-- `k` in `n` bytes, most significant first, the high part dropped. -/
def be : Nat → Nat → Bytes
  | 0, _ => []
  | n + 1, k => UInt8.ofNat (k / 256 ^ n) :: be n k

/-- The number a byte string spells, most significant byte first. -/
def unbe : Bytes → Nat
  | [] => 0
  | b :: bs => b.toNat * 256 ^ bs.length + unbe bs

@[simp] theorem be_zero (k : Nat) : be 0 k = [] := rfl

@[simp] theorem be_length (n k : Nat) : (be n k).length = n := by
  induction n with
  | zero => rfl
  | succ n ih => simp [be, ih]

theorem unbe_lt (bs : Bytes) : unbe bs < 256 ^ bs.length := by
  induction bs with
  | nil => simp [unbe]
  | cons b bs ih =>
    have hb : b.toNat ≤ 255 := by have := b.toNat_lt; omega
    have : b.toNat * 256 ^ bs.length ≤ 255 * 256 ^ bs.length := Nat.mul_le_mul_right _ hb
    simp only [unbe, List.length_cons, Nat.pow_succ]
    omega

theorem be_mod (n k m : Nat) (h : n ≤ m) : be n (k % 256 ^ m) = be n k := by
  induction n with
  | zero => rfl
  | succ n ih =>
    have hd : k % 256 ^ m / 256 ^ n % 256 = k / 256 ^ n % 256 := by
      obtain ⟨d, rfl⟩ : ∃ d, m = n + 1 + d := ⟨m - (n + 1), by omega⟩
      rw [Nat.pow_add, Nat.pow_succ, Nat.mul_assoc, Nat.mod_mul_right_div_self, Nat.mod_mul_right_mod]
    simp only [be, ih (by omega), List.cons.injEq, and_true]
    rw [UInt8.ofNat_eq_iff_mod_eq_toNat, UInt8.toNat_ofNat', ← hd]

theorem unbe_be {n k : Nat} (h : k < 256 ^ n) : unbe (be n k) = k := by
  induction n generalizing k with
  | zero => simp only [Nat.pow_zero] at h; simp only [be, unbe]; omega
  | succ n ih =>
    have hd : k / 256 ^ n < 256 := Nat.div_lt_of_lt_mul (by rw [Nat.pow_succ] at h; exact h)
    have hm : k % 256 ^ n < 256 ^ n := Nat.mod_lt _ (Nat.pow_pos (by decide))
    have hb : be n k = be n (k % 256 ^ n) := (be_mod n k n (Nat.le_refl n)).symm
    simp only [be, unbe, be_length, UInt8.toNat_ofNat', Nat.mod_eq_of_lt hd]
    rw [hb, ih hm, Nat.mul_comm]
    exact Nat.div_add_mod k _

theorem be_unbe (bs : Bytes) : be bs.length (unbe bs) = bs := by
  induction bs with
  | nil => rfl
  | cons b bs ih =>
    have hlt := unbe_lt bs
    have hdiv : (b.toNat * 256 ^ bs.length + unbe bs) / 256 ^ bs.length = b.toNat := by
      rw [Nat.mul_comm, Nat.mul_add_div (Nat.pow_pos (by decide)), Nat.div_eq_of_lt hlt, Nat.add_zero]
    have hmod : (b.toNat * 256 ^ bs.length + unbe bs) % 256 ^ bs.length = unbe bs := by
      rw [Nat.mul_comm, Nat.mul_add_mod, Nat.mod_eq_of_lt hlt]
    simp only [unbe, List.length_cons, be, hdiv, UInt8.ofNat_toNat]
    rw [← be_mod bs.length _ bs.length (Nat.le_refl _), hmod, ih]

theorem be_inj {n a b : Nat} (ha : a < 256 ^ n) (hb : b < 256 ^ n) (h : be n a = be n b) : a = b := by
  rw [← unbe_be ha, ← unbe_be hb, h]

theorem unbe_append (a b : Bytes) : unbe (a ++ b) = unbe a * 256 ^ b.length + unbe b := by
  induction a with
  | nil => simp [unbe]
  | cons x a ih =>
    simp only [List.cons_append, unbe, ih, List.length_append, Nat.pow_add]
    ring

/-- A vector: its length in `n` bytes, then its content. -/
def vec (n : Nat) (bs : Bytes) : Bytes := be n bs.length ++ bs

@[simp] theorem vec_length (n : Nat) (bs : Bytes) : (vec n bs).length = n + bs.length := by
  simp [vec]

/-! ## Taking from the front -/

def takeBytes (n : Nat) (bs : Bytes) : Option (Bytes × Bytes) :=
  if n ≤ bs.length then some (bs.take n, bs.drop n) else none

def takeNat (n : Nat) (bs : Bytes) : Option (Nat × Bytes) :=
  (takeBytes n bs).map fun (a, r) => (unbe a, r)

def takeVec (n : Nat) (bs : Bytes) : Option (Bytes × Bytes) :=
  (takeNat n bs).bind fun (k, r) => takeBytes k r

theorem takeBytes_eq_some {n : Nat} {bs a r : Bytes} :
    takeBytes n bs = some (a, r) ↔ bs = a ++ r ∧ a.length = n := by
  unfold takeBytes
  constructor
  · intro h
    split at h
    · simp only [Option.some.injEq, Prod.mk.injEq] at h
      obtain ⟨rfl, rfl⟩ := h
      exact ⟨(List.take_append_drop n bs).symm, by simp; omega⟩
    · cases h
  · intro hall
    obtain ⟨rfl, rfl⟩ := hall
    simp

theorem takeNat_eq_some {n k : Nat} {bs r : Bytes} :
    takeNat n bs = some (k, r) ↔ bs = be n k ++ r ∧ k < 256 ^ n := by
  simp only [takeNat, Option.map_eq_some_iff, Prod.mk.injEq, Prod.exists]
  constructor
  · intro h
    obtain ⟨a, r', h, rfl, rfl⟩ := h
    obtain ⟨rfl, rfl⟩ := takeBytes_eq_some.1 h
    exact ⟨by rw [be_unbe], unbe_lt a⟩
  · intro hall
    obtain ⟨rfl, hk⟩ := hall
    exact ⟨be n k, r, takeBytes_eq_some.2 ⟨rfl, be_length n k⟩, unbe_be hk, rfl⟩

theorem takeVec_eq_some {n : Nat} {bs a r : Bytes} :
    takeVec n bs = some (a, r) ↔ bs = vec n a ++ r ∧ a.length < 256 ^ n := by
  simp only [takeVec, Option.bind_eq_some_iff, Prod.exists]
  constructor
  · intro h
    obtain ⟨k, r', hk, ha⟩ := h
    obtain ⟨rfl, hlt⟩ := takeNat_eq_some.1 hk
    obtain ⟨rfl, rfl⟩ := takeBytes_eq_some.1 ha
    exact ⟨by simp [vec], hlt⟩
  · intro h
    obtain ⟨rfl, hlt⟩ := h
    refine ⟨a.length, a ++ r, takeNat_eq_some.2 ⟨by simp [vec], hlt⟩, takeBytes_eq_some.2 ⟨rfl, rfl⟩⟩

/-! ## Sequences -/

variable {α : Type}

/-- Items, up to the end of the bytes; `n` at most. -/
def takeMany (item : Bytes → Option (α × Bytes)) : Nat → Bytes → Option (List α)
  | _, [] => some []
  | 0, _ :: _ => none
  | n + 1, b :: bs => (item (b :: bs)).bind fun (a, r) => (takeMany item n r).map (a :: ·)

/-- A vector of items. -/
def takeVecOf (n : Nat) (item : Bytes → Option (α × Bytes)) (bs : Bytes) : Option (List α × Bytes) :=
  (takeVec n bs).bind fun (v, r) => (takeMany item v.length v).map fun l => (l, r)

/-- All of the bytes. -/
def whole (x : Option (α × Bytes)) : Option α :=
  x.bind fun (a, r) => if r = [] then some a else none

theorem whole_eq_some {x : Option (α × Bytes)} {a : α} : whole x = some a ↔ x = some (a, []) := by
  simp only [whole, Option.bind_eq_some_iff, Prod.exists]
  constructor
  · intro h
    obtain ⟨a', r, hx, h⟩ := h
    split at h
    · next hr => cases h; rw [hx, hr]
    · cases h
  · rintro rfl
    exact ⟨a, [], rfl, by simp⟩

section Item

variable {item : Bytes → Option (α × Bytes)} {enc : α → Bytes} {Fits : α → Prop}
variable (hitem : ∀ {bs a r}, item bs = some (a, r) ↔ bs = enc a ++ r ∧ Fits a)
variable (hpos : ∀ {a}, Fits a → 0 < (enc a).length)
include hitem hpos

theorem takeMany_eq_some : ∀ {n : Nat} {bs : Bytes} {l : List α}, bs.length ≤ n →
    (takeMany item n bs = some l ↔ bs = l.flatMap enc ∧ ∀ a ∈ l, Fits a)
  | n, [], l, _ => by
    have hnil : takeMany item n [] = some [] := by cases n <;> rfl
    rw [hnil]
    constructor
    · intro h; cases h; simp
    · intro hall
      obtain ⟨h, hfits⟩ := hall
      cases l with
      | nil => rfl
      | cons a l =>
        have := hpos (hfits a List.mem_cons_self)
        have := congrArg List.length h
        simp at this
        omega
  | 0, b :: bs, l, h => by simp at h
  | n + 1, b :: bs, l, hn => by
    simp only [takeMany, Option.bind_eq_some_iff, Option.map_eq_some_iff, Prod.exists]
    constructor
    · intro hall
      obtain ⟨a, r, ha, l', hl', rfl⟩ := hall
      obtain ⟨hbs, hfit⟩ := hitem.1 ha
      have := hpos hfit
      have hlen := congrArg List.length hbs
      simp only [List.length_append, List.length_cons] at hlen hn
      obtain ⟨rfl, hfits⟩ := (takeMany_eq_some (by omega)).1 hl'
      exact ⟨by rw [hbs, List.flatMap_cons], by simpa using ⟨hfit, hfits⟩⟩
    · intro hall
      obtain ⟨hbs, hfits⟩ := hall
      cases l with
      | nil => cases hbs
      | cons a l =>
        have hfit := hfits a List.mem_cons_self
        have := hpos hfit
        have hlen := congrArg List.length hbs
        simp only [List.flatMap_cons, List.length_append, List.length_cons] at hlen hn
        refine ⟨a, l.flatMap enc, hitem.2 ⟨by rw [hbs, List.flatMap_cons], hfit⟩, l, ?_, rfl⟩
        exact (takeMany_eq_some (by omega)).2 ⟨rfl, fun a' ha' => hfits a' (List.mem_cons_of_mem _ ha')⟩

theorem takeVecOf_eq_some {n : Nat} {bs r : Bytes} {l : List α} :
    takeVecOf n item bs = some (l, r) ↔
      bs = vec n (l.flatMap enc) ++ r ∧ (l.flatMap enc).length < 256 ^ n ∧ ∀ a ∈ l, Fits a := by
  simp only [takeVecOf, Option.bind_eq_some_iff, Option.map_eq_some_iff, Prod.exists, Prod.mk.injEq]
  constructor
  · intro h
    obtain ⟨v, r', hv, l', hl', rfl, rfl⟩ := h
    obtain ⟨rfl, hlt⟩ := takeVec_eq_some.1 hv
    obtain ⟨rfl, hfits⟩ := (takeMany_eq_some hitem hpos (Nat.le_refl _)).1 hl'
    exact ⟨rfl, hlt, hfits⟩
  · intro h
    obtain ⟨rfl, hlt, hfits⟩ := h
    exact ⟨_, r, takeVec_eq_some.2 ⟨rfl, hlt⟩, l,
      (takeMany_eq_some hitem hpos (Nat.le_refl _)).2 ⟨rfl, hfits⟩, rfl, rfl⟩

end Item

/-- What a vector's encoding and what follows it were, they are. -/
theorem vec_append_inj {n : Nat} {a b r q : Bytes} (ha : a.length < 256 ^ n) (hb : b.length < 256 ^ n)
    (h : vec n a ++ r = vec n b ++ q) : a = b ∧ r = q := by
  have h₁ : takeVec n (vec n a ++ r) = some (a, r) := takeVec_eq_some.2 ⟨rfl, ha⟩
  have h₂ : takeVec n (vec n a ++ r) = some (b, q) := takeVec_eq_some.2 ⟨h, hb⟩
  rw [h₁] at h₂
  simpa using h₂

end Wire

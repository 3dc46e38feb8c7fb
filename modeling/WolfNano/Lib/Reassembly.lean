/-
Parsing a byte stream that arrives in pieces.

A `Parser` looks at its state and at the bytes not yet read, and asks for
more, fails, or takes a message off the front. Its three laws say that more
bytes never change an answer that was not "need more", and that a message
taken is taken on its own bytes alone. `parse` takes messages while it can.

`parse_append` is the reason to have the laws: reading some bytes and then
more is reading them all at once, so what a stream parses to does not depend
on where it was cut. `parse_reads` recovers the messages.
-/
import Mathlib.Data.List.Basic

namespace Reassembly

variable {α σ ε : Type}

/-- What a parser does with the unread bytes. -/
inductive Step (σ ε : Type) where
  | need
  | fail (e : ε)
  | take (n : Nat) (s : σ)

structure Parser (α σ ε : Type) where
  step : σ → List α → Step σ ε
  take_le : ∀ {s u n s'}, step s u = .take n s' → 0 < n ∧ n ≤ u.length
  take_prefix : ∀ {s u n s'}, step s u = .take n s' → step s (u.take n) = .take n s'
  take_append : ∀ {s u n s'} v, step s u = .take n s' → step s (u ++ v) = .take n s'
  fail_append : ∀ {s u e} v, step s u = .fail e → step s (u ++ v) = .fail e

namespace Parser

variable (P : Parser α σ ε)

/-- Take messages while there are any, `n` at most. -/
def drain : Nat → σ → List α → Except ε (σ × List α)
  | 0, s, u => .ok (s, u)
  | n + 1, s, u =>
    match P.step s u with
    | .need => .ok (s, u)
    | .fail e => .error e
    | .take k s' => drain n s' (u.drop k)

/-- Take every message there is. -/
def parse (s : σ) (u : List α) : Except ε (σ × List α) := P.drain (u.length + 1) s u

variable {P}

/-- Fuel for every byte is fuel enough. -/
theorem drain_fuel : ∀ {n m : Nat} {s : σ} {u : List α}, u.length < n → u.length < m →
    P.drain n s u = P.drain m s u
  | n + 1, m + 1, s, u, hn, hm => by
    simp only [drain]
    split
    · rfl
    · rfl
    · next k s' h =>
      have hk := P.take_le h
      exact drain_fuel (by simp; omega) (by simp; omega)

theorem parse_need {s : σ} {u : List α} (h : P.step s u = .need) : P.parse s u = .ok (s, u) := by
  simp only [parse, drain, h]

theorem parse_fail {s : σ} {u : List α} {e : ε} (h : P.step s u = .fail e) : P.parse s u = .error e := by
  simp only [parse, drain, h]

theorem parse_take {s s' : σ} {u : List α} {k : Nat} (h : P.step s u = .take k s') :
    P.parse s u = P.parse s' (u.drop k) := by
  have hk := P.take_le h
  simp only [parse, drain, h]
  exact drain_fuel (by rw [List.length_drop]; omega) (Nat.lt_succ_self _)

/-- Reading some bytes and then more is reading them all at once. -/
theorem parse_append : ∀ (n : Nat) {s : σ} {u : List α} (v : List α), u.length ≤ n →
    P.parse s (u ++ v) = (P.parse s u).bind fun (s', u') => P.parse s' (u' ++ v) := by
  intro n
  induction n with
  | zero =>
    intro s u v hu
    obtain rfl : u = [] := List.eq_nil_of_length_eq_zero (by omega)
    cases h : P.step s [] with
    | need => rw [parse_need h]; rfl
    | fail e => rw [parse_fail h, parse_fail (P.fail_append v h)]; rfl
    | take k s' => have := P.take_le h; simp at this; omega
  | succ n ih =>
    intro s u v hu
    cases h : P.step s u with
    | need => rw [parse_need h]; rfl
    | fail e => rw [parse_fail h, parse_fail (P.fail_append v h)]; rfl
    | take k s' =>
      have hk := P.take_le h
      rw [parse_take h, parse_take (P.take_append v h), List.drop_append_of_le_length hk.2]
      exact ih v (by simp; omega)

/-! ## The messages read -/

/-- From `s`, reading exactly the messages `ms` leads to `s'`. -/
inductive Reads (P : Parser α σ ε) : σ → List (List α) → σ → Prop
  | nil {s} : Reads P s [] s
  | cons {s m s' ms s''} : P.step s m = .take m.length s' → Reads P s' ms s'' → Reads P s (m :: ms) s''

/-- The messages a parse took, and what it left: a state that wants more. -/
theorem parse_reads : ∀ (n : Nat) {s s' : σ} {u r : List α}, u.length ≤ n → P.parse s u = .ok (s', r) →
    ∃ ms, u = ms.flatten ++ r ∧ Reads P s ms s' ∧ P.step s' r = .need := by
  intro n
  induction n with
  | zero =>
    intro s s' u r hu h
    cases hs : P.step s u with
    | need =>
      rw [parse_need hs] at h; cases h
      exact ⟨[], rfl, .nil, hs⟩
    | fail e => rw [parse_fail hs] at h; cases h
    | take k s₁ => have := P.take_le hs; omega
  | succ n ih =>
    intro s s' u r hu h
    cases hs : P.step s u with
    | need =>
      rw [parse_need hs] at h; cases h
      exact ⟨[], rfl, .nil, hs⟩
    | fail e => rw [parse_fail hs] at h; cases h
    | take k s₁ =>
      have hk := P.take_le hs
      rw [parse_take hs] at h
      obtain ⟨ms, hu', hr, hneed⟩ := ih (by simp; omega) h
      refine ⟨u.take k :: ms, ?_, .cons ?_ hr, hneed⟩
      · rw [List.flatten_cons, List.append_assoc, ← hu', List.take_append_drop]
      · rw [List.length_take, Nat.min_eq_left hk.2]
        exact P.take_prefix hs

/-- Messages that read one by one parse, whatever follows them. -/
theorem Reads.parse {s s' : σ} {ms : List (List α)} (h : Reads P s ms s') (r : List α) :
    P.parse s (ms.flatten ++ r) = P.parse s' r := by
  induction h with
  | nil => rfl
  | cons hs _ ih =>
    rw [List.flatten_cons, List.append_assoc, parse_take (P.take_append _ hs), List.drop_left, ih]

end Parser

/-! ## Messages that say how long they are -/

/-- Messages whose first `head` elements give their size. A state may want no
more of them, and may refuse a size before the message is there. -/
structure Framing (α σ ε : Type) where
  head : Nat
  head_pos : 0 < head
  size : List α → Nat
  size_append : ∀ {u} v, head ≤ u.length → size (u ++ v) = size u
  head_le_size : ∀ u, head ≤ size u
  done : σ → Bool
  refuse : σ → Nat → Option ε
  handle : σ → List α → Except ε σ

namespace Framing

variable {F : Framing α σ ε}

/-- What a handler's answer to a message of size `n` means. -/
def took (n : Nat) : Except ε σ → Step σ ε
  | .error e => .fail e
  | .ok s => .take n s

def step (F : Framing α σ ε) (s : σ) (u : List α) : Step σ ε :=
  if F.done s = true ∨ u.length < F.head then .need
  else match F.refuse s (F.size u) with
    | some e => .fail e
    | none => if u.length < F.size u then .need else took (F.size u) (F.handle s (u.take (F.size u)))

theorem took_eq_take {n k : Nat} {r : Except ε σ} {s : σ} :
    took n r = .take k s ↔ n = k ∧ r = .ok s := by
  cases r <;> simp [took]

theorem step_take {s s' : σ} {u : List α} {n : Nat} :
    F.step s u = .take n s' ↔ F.done s = false ∧ n = F.size u ∧ n ≤ u.length ∧ F.refuse s n = none ∧
      F.handle s (u.take n) = .ok s' := by
  have hge := F.head_le_size u
  unfold step
  constructor
  · intro h
    split at h
    · cases h
    · next hd =>
      simp only [not_or, Bool.not_eq_true, Nat.not_lt] at hd
      split at h
      · cases h
      · next hr =>
        split at h
        · cases h
        · next hlen =>
          obtain ⟨rfl, hs⟩ := took_eq_take.1 h
          exact ⟨hd.1, rfl, by omega, hr, hs⟩
  · intro hall
    obtain ⟨hd, rfl, hlen, hr, hs⟩ := hall
    rw [if_neg (by simp [hd]; omega), hr]
    simp only
    rw [if_neg (by omega), hs]
    rfl

theorem step_fail {s : σ} {u : List α} {e : ε} :
    F.step s u = .fail e ↔ F.done s = false ∧ F.head ≤ u.length ∧
      (F.refuse s (F.size u) = some e ∨
        (F.refuse s (F.size u) = none ∧ F.size u ≤ u.length ∧
          F.handle s (u.take (F.size u)) = .error e)) := by
  unfold step
  constructor
  · intro h
    split at h
    · cases h
    · next hd =>
      simp only [not_or, Bool.not_eq_true, Nat.not_lt] at hd
      split at h
      · next hr => cases h; exact ⟨hd.1, hd.2, .inl hr⟩
      · next hr =>
        split at h
        · cases h
        · next hlen =>
          cases hs : F.handle s (u.take (F.size u)) with
          | error e' => rw [hs] at h; cases h; exact ⟨hd.1, hd.2, .inr ⟨hr, by omega, rfl⟩⟩
          | ok s' => rw [hs] at h; cases h
  · intro hall
    obtain ⟨hd, hlen, hr⟩ := hall
    rw [if_neg (by simp [hd]; omega)]
    rcases hr with hr | ⟨hr, hle, hs⟩
    · rw [hr]
    · rw [hr]
      simp only
      rw [if_neg (by omega), hs]
      rfl

/-- Messages that give their size make a parser. -/
def parser (F : Framing α σ ε) : Parser α σ ε where
  step := F.step
  take_le := by
    intro s u n s' h
    obtain ⟨-, rfl, hle, -, -⟩ := step_take.1 h
    have := F.head_pos
    have := F.head_le_size u
    exact ⟨by omega, hle⟩
  take_prefix := by
    intro s u n s' h
    obtain ⟨hd, rfl, hle, hr, hs⟩ := step_take.1 h
    have hge := F.head_le_size u
    have hsize : F.size (u.take (F.size u)) = F.size u := by
      conv => rhs; rw [← List.take_append_drop (F.size u) u, F.size_append _ (by simp; omega)]
    refine step_take.2 ⟨hd, hsize.symm, by simp [hle], hr, ?_⟩
    rw [List.take_take, Nat.min_self]
    exact hs
  take_append := by
    intro s u n s' v h
    obtain ⟨hd, rfl, hle, hr, hs⟩ := step_take.1 h
    have hge := F.head_le_size u
    refine step_take.2 ⟨hd, (F.size_append v (by omega)).symm, by simp; omega, hr, ?_⟩
    rw [List.take_append_of_le_length hle]
    exact hs
  fail_append := by
    intro s u e v h
    obtain ⟨hd, hle, hr⟩ := step_fail.1 h
    refine step_fail.2 ⟨hd, by simp; omega, ?_⟩
    rw [F.size_append v hle]
    rcases hr with hr | ⟨hr, hsz, hs⟩
    · exact .inl hr
    · exact .inr ⟨hr, by simp; omega, by rwa [List.take_append_of_le_length hsz]⟩

/-- A whole message is read where its handler takes it. -/
theorem step_whole {s s' : σ} {m : List α} (hm : F.size m = m.length) :
    F.parser.step s m = .take m.length s' ↔ F.done s = false ∧ F.refuse s m.length = none ∧
      F.handle s m = .ok s' := by
  show F.step s m = _ ↔ _
  rw [step_take, hm, List.take_length]
  simp

theorem take_not_done {s s' : σ} {u : List α} {n : Nat} (h : F.parser.step s u = .take n s') :
    F.done s = false := (step_take.1 h).1

theorem step_short {s : σ} {u : List α} (h : u.length < F.head) : F.parser.step s u = .need :=
  if_pos (.inr h)

/-- Nothing is read of nothing, so fuel for every byte is fuel enough. -/
theorem drain_eq_parse : ∀ {n : Nat} {s : σ} {u : List α}, u.length ≤ n →
    F.parser.drain n s u = F.parser.parse s u
  | 0, s, u, h => by
    rw [Parser.parse_need (step_short (by have := F.head_pos; omega))]
    rfl
  | n + 1, s, u, h => by
    rw [Parser.drain]
    cases hs : F.parser.step s u with
    | need => rw [Parser.parse_need hs]
    | fail e => rw [Parser.parse_fail hs]
    | take k s' =>
      have hk := F.parser.take_le hs
      rw [Parser.parse_take hs]
      exact drain_eq_parse (by simp; omega)

theorem step_done {s : σ} (h : F.done s = true) (u : List α) : F.parser.step s u = .need :=
  if_pos (.inl h)

/-! ## A buffer and an offset

The same parser as programs write it: the messages so far stay in a buffer,
and the next one starts at an offset. -/

/-- Take the messages of `buf` from `off` on, `n` at most. -/
def scan (F : Framing α σ ε) (buf : List α) : Nat → Nat → σ → Except ε (σ × Nat)
  | 0, off, s => .ok (s, off)
  | n + 1, off, s =>
    if F.done s = false ∧ buf.length - off ≥ F.head then
      match F.refuse s (F.size (buf.drop off)) with
      | some e => .error e
      | none =>
        if off + F.size (buf.drop off) > buf.length then .ok (s, off)
        else (F.handle s ((buf.drop off).take (F.size (buf.drop off)))).bind
          (scan F buf n (off + F.size (buf.drop off)))
    else .ok (s, off)

theorem scan_eq_drain (buf : List α) : ∀ (n : Nat) {off : Nat} (s : σ), off ≤ buf.length →
    F.scan buf n off s =
      (F.parser.drain n s (buf.drop off)).map fun r => (r.1, buf.length - r.2.length)
  | 0, off, s, hoff => by
    simp only [scan, Parser.drain, Except.map, List.length_drop]
    rw [Nat.sub_sub_self hoff]
  | n + 1, off, s, hoff => by
    have hlen : (buf.drop off).length = buf.length - off := List.length_drop
    have hneed : F.parser.step s (buf.drop off) = .need → (F.parser.drain (n + 1) s (buf.drop off)).map
        (fun r => (r.1, buf.length - r.2.length)) = .ok (s, off) := by
      intro h
      simp only [Parser.drain, h, Except.map, hlen]
      rw [Nat.sub_sub_self hoff]
    have hfail : ∀ {e}, F.parser.step s (buf.drop off) = .fail e → (F.parser.drain (n + 1) s (buf.drop off)).map
        (fun r => (r.1, buf.length - r.2.length)) = .error e := by
      intro e h
      simp only [Parser.drain, h, Except.map]
    rw [scan]
    split
    · next hmore =>
      have hdone : ¬ (F.done s = true ∨ (buf.drop off).length < F.head) := by
        rw [hlen]
        simp only [hmore.1, Bool.false_eq_true, false_or]
        omega
      split
      · next e hr =>
        exact (hfail (by show F.step _ _ = _; rw [step, if_neg hdone, hr])).symm
      · next hr =>
        split
        · next hbig =>
          exact (hneed (by show F.step _ _ = _; rw [step, if_neg hdone, hr]; exact if_pos (by omega))).symm
        · next hfit =>
          cases hh : F.handle s ((buf.drop off).take (F.size (buf.drop off))) with
          | error e =>
            exact (hfail (step_fail.2 ⟨hmore.1, by omega, .inr ⟨hr, by omega, hh⟩⟩)).symm
          | ok s' =>
            have hstep : F.parser.step s (buf.drop off) = .take (F.size (buf.drop off)) s' :=
              step_take.2 ⟨hmore.1, rfl, by omega, hr, hh⟩
            rw [Parser.drain, hstep]
            simp only [Except.bind, List.drop_drop]
            exact scan_eq_drain buf n s' (by omega)
    · next hmore =>
      refine (hneed (if_pos ?_)).symm
      rw [hlen]
      simp only [not_and_or, Bool.not_eq_false] at hmore
      exact hmore.imp id (by omega)

/-- Take every message of `buf`. -/
def scanAll (F : Framing α σ ε) (s : σ) (buf : List α) : Except ε (σ × Nat) := F.scan buf buf.length 0 s

theorem scanAll_eq_parse (s : σ) (buf : List α) :
    F.scanAll s buf = (F.parser.parse s buf).map fun r => (r.1, buf.length - r.2.length) := by
  rw [scanAll, scan_eq_drain buf _ s (Nat.zero_le _), List.drop_zero, drain_eq_parse (Nat.le_refl _)]

theorem scanAll_ok {s s' : σ} {buf : List α} {off : Nat} :
    F.scanAll s buf = .ok (s', off) ↔ off ≤ buf.length ∧ F.parser.parse s buf = .ok (s', buf.drop off) := by
  rw [scanAll_eq_parse]
  constructor
  · intro h
    cases hp : F.parser.parse s buf with
    | error e => rw [hp] at h; cases h
    | ok r =>
      obtain ⟨s₁, u⟩ := r
      rw [hp] at h
      cases h
      obtain ⟨ms, hms, -, -⟩ := Parser.parse_reads buf.length (Nat.le_refl _) hp
      refine ⟨Nat.sub_le _ _, ?_⟩
      rw [hms, List.length_append, Nat.add_sub_cancel, List.drop_left]
  · intro hall
    obtain ⟨hoff, hp⟩ := hall
    rw [hp]
    simp only [Except.map, List.length_drop, Nat.sub_sub_self hoff]

/-- **Scanning is resumable**: in a longer buffer, going on from where the
shorter one was left is scanning all of it. -/
theorem scan_append {s s' : σ} {buf : List α} {off : Nat} (h : F.scanAll s buf = .ok (s', off)) (v : List α) :
    F.scan (buf ++ v) (buf ++ v).length off s' = F.scanAll s (buf ++ v) := by
  obtain ⟨hoff, hp⟩ := scanAll_ok.1 h
  rw [scan_eq_drain _ _ s' (by rw [List.length_append]; omega), drain_eq_parse (by simp), scanAll_eq_parse,
    Parser.parse_append _ _ (Nat.le_refl _), hp, List.drop_append_of_le_length hoff]
  rfl

/-- A failure stays one, -/
theorem scanAll_append_error {s : σ} {buf : List α} {e : ε} (h : F.scanAll s buf = .error e) (v : List α) :
    F.scanAll s (buf ++ v) = .error e := by
  rw [scanAll_eq_parse] at h ⊢
  rw [Parser.parse_append _ _ (Nat.le_refl _)]
  cases hp : F.parser.parse s buf with
  | error e' => rw [hp] at h; cases h; rfl
  | ok r => rw [hp] at h; cases h

/-- and a state that wants no more stays. -/
theorem scanAll_append_done {s s' : σ} {buf : List α} {off : Nat} (h : F.scanAll s buf = .ok (s', off))
    (hd : F.done s' = true) (v : List α) : F.scanAll s (buf ++ v) = .ok (s', off) := by
  obtain ⟨hoff, hp⟩ := scanAll_ok.1 h
  refine scanAll_ok.2 ⟨by rw [List.length_append]; omega, ?_⟩
  rw [Parser.parse_append _ _ (Nat.le_refl _), hp, List.drop_append_of_le_length hoff]
  exact Parser.parse_need (step_done hd _)

/-- The messages behind the offset. -/
theorem scanAll_reads {s s' : σ} {buf : List α} {off : Nat} (h : F.scanAll s buf = .ok (s', off)) :
    ∃ ms, buf = ms.flatten ++ buf.drop off ∧ Parser.Reads F.parser s ms s' := by
  obtain ⟨ms, hms, hr, -⟩ := Parser.parse_reads buf.length (Nat.le_refl _) (scanAll_ok.1 h).2
  exact ⟨ms, hms, hr⟩

/-- What the handler keeps of the state and its offset, a scan keeps. -/
theorem scan_invariant {I : σ → Nat → Prop} {buf : List α}
    (hstep : ∀ {s s' : σ} {off : Nat} {m : List α}, I s off → F.handle s m = .ok s' → I s' (off + m.length)) :
    ∀ {n off off' : Nat} {s s' : σ}, I s off → F.scan buf n off s = .ok (s', off') → I s' off'
  | 0, _, _, _, _, hi, h => by cases h; exact hi
  | n + 1, off, off', s, s', hi, h => by
    rw [scan] at h
    split at h
    · split at h
      · cases h
      · split at h
        · cases h; exact hi
        · next hfit =>
          cases hh : F.handle s ((buf.drop off).take (F.size (buf.drop off))) with
          | error e => rw [hh] at h; cases h
          | ok s₁ =>
            rw [hh] at h
            have hi' := hstep hi hh
            rw [List.length_take, List.length_drop, Nat.min_eq_left (by omega)] at hi'
            exact scan_invariant hstep hi' h
    · cases h; exact hi

end Framing

end Reassembly

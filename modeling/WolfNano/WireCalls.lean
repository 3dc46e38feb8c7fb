/-
Runs of the wire primitives with any arguments.

A writer or a reader goes through a list of calls, each with the `word32` that
its caller gives. `WriteCall.Ok` and `ReadCall.Ok` are what the primitives
promise of one call. The checks compare `word32` sums, so that near the top of
the range a sum wraps and the check passes: the promises are kept along a run
just if no call `Wraps`.
-/
import WolfNano.MsgFacts
import WolfNano.Lib.Runs

namespace WolfNano

open Prog

theorem wnWritePtr_some (w : Writer) (p : Bytes) : wnWritePtr w (some p) p.length = wnWriteBytes w p := by
  have hbuf : (if p.length ≠ 0 then patch w.buf w.len (((some p).getD []).take p.length) else w.buf) =
      patch w.buf w.len p := by
    by_cases hp : p.length = 0
    · rw [if_neg (fun h => h hp), List.length_eq_zero_iff.1 hp, patch_nil]
    · rw [if_pos hp, Option.getD_some, List.take_length]
  unfold wnWritePtr wnWriteBytes
  simp only [ne_eq, reduceCtorEq, not_false_eq_true, true_or, and_true, hbuf]

/-! ## Writer -/

/-- A `wn_Write_*` call; `bytes` with the count and the pointer, none for `NULL`. -/
inductive WriteCall where
  | u8 (v : UInt8)
  | u16 (v : Nat)
  | u24 (v : Nat)
  | bytes (n : Nat) (hn : n < 2 ^ 32) (p : Option (Block n))

namespace WriteCall

def run : WriteCall → Writer → Writer
  | .u8 v, w => wnWriteU8 w v
  | .u16 v, w => wnWriteU16 w v
  | .u24 v, w => wnWriteU24 w v
  | .bytes n _ p, w => wnWritePtr w (p.map Subtype.val) n

/-- The bytes a call has to write. -/
def size : WriteCall → Nat
  | .u8 _ => 1
  | .u16 _ => 2
  | .u24 _ => 3
  | .bytes n _ _ => n

/-- The call's check. -/
def Passes : WriteCall → Writer → Prop
  | .u8 _, w => w.err = false ∧ w.len < w.cap
  | .bytes n _ p, w => w.err = false ∧ add32 w.len n ≤ w.cap ∧ (p ≠ none ∨ n = 0)
  | c, w => w.err = false ∧ add32 w.len c.size ≤ w.cap

instance : (c : WriteCall) → (w : Writer) → Decidable (c.Passes w)
  | .u8 _, w => inferInstanceAs (Decidable (w.err = false ∧ w.len < w.cap))
  | .u16 _, w => inferInstanceAs (Decidable (w.err = false ∧ add32 w.len 2 ≤ w.cap))
  | .u24 _, w => inferInstanceAs (Decidable (w.err = false ∧ add32 w.len 3 ≤ w.cap))
  | .bytes n _ p, w => inferInstanceAs (Decidable (w.err = false ∧ add32 w.len n ≤ w.cap ∧ (p ≠ none ∨ n = 0)))

/-- The stores behind the check, each with its offset from `buf`. -/
def plan : WriteCall → Writer → List (Nat × Bytes)
  | .u8 v, w => [(w.len, [v])]
  | .u16 v, w => [(w.len, [UInt8.ofNat (v >>> 8)]), (add32 w.len 1, [UInt8.ofNat v])]
  | .u24 v, w =>
    [(w.len, [UInt8.ofNat (v >>> 16)]), (add32 w.len 1, [UInt8.ofNat (v >>> 8)]),
      (add32 w.len 2, [UInt8.ofNat v])]
  | .bytes n _ p, w => if n ≠ 0 then [(w.len, (p.map Subtype.val).getD [])] else []

/-- The stores a call makes. -/
def stores (c : WriteCall) (w : Writer) : List (Nat × Bytes) := if c.Passes w then c.plan w else []

/-- Where the check passes, the stores are all that happens to the memory. -/
theorem run_passed {c : WriteCall} {w : Writer} (h : c.Passes w) :
    c.run w = { w with
      buf := (c.plan w).foldl (fun buf s => patch buf s.1 s.2) w.buf
      len := add32 w.len c.size } := by
  cases c with
  | u8 v =>
    have hp : w.err = false ∧ w.len < w.cap := h
    rw [run, wnWriteU8, if_pos hp]
    rfl
  | u16 v =>
    have hp : w.err = false ∧ add32 w.len 2 ≤ w.cap := h
    rw [run, wnWriteU16, if_pos hp]
    rfl
  | u24 v =>
    have hp : w.err = false ∧ add32 w.len 3 ≤ w.cap := h
    rw [run, wnWriteU24, if_pos hp]
    rfl
  | bytes n hn p =>
    have hp : w.err = false ∧ add32 w.len n ≤ w.cap ∧ (p.map Subtype.val ≠ none ∨ n = 0) := by
      simpa only [Passes, ne_eq, Option.map_eq_none_iff] using h
    rw [run, wnWritePtr, if_pos hp, plan, size]
    by_cases hz : n = 0
    · rw [if_neg (fun hne => hne hz), if_neg (fun hne => hne hz)]
      rfl
    · obtain ⟨p, rfl⟩ := Option.ne_none_iff_exists'.1 (h.2.2.resolve_right hz)
      rw [if_pos hz, if_pos hz, Option.map_some, Option.getD_some, List.take_of_length_le (by simp)]
      rfl

/-- Where it fails, the call only sets `err`. -/
theorem run_refused {c : WriteCall} {w : Writer} (h : ¬ c.Passes w) :
    c.run w = { w with err := true } ∧ c.stores w = [] := by
  refine ⟨?_, if_neg h⟩
  cases c with
  | u8 | u16 | u24 => exact if_neg h
  | bytes n hn p =>
    refine if_neg ?_
    simpa only [Passes, ne_eq, Option.map_eq_none_iff] using h

@[simp] theorem run_cap (c : WriteCall) (w : Writer) : (c.run w).cap = w.cap := by
  by_cases h : c.Passes w
  · rw [run_passed h]
  · rw [(run_refused h).1]

/-- What is promised of a call. -/
structure Ok (c : WriteCall) (w : Writer) : Prop where
  bounded : (c.run w).len ≤ (c.run w).cap
  inside : ∀ s ∈ c.stores w, s.1 + s.2.length ≤ w.cap
  sticky : w.err = true → c.run w = w ∧ c.stores w = []

/-- The sum that the call compares with `cap` is no `word32`. `wn_Write_U8`
compares `len` itself. -/
def Wraps : WriteCall → Writer → Prop
  | .u8 _, _ => False
  | .u16 _, w => w.err = false ∧ 2 ^ 32 ≤ w.len + 2
  | .u24 _, w => w.err = false ∧ 2 ^ 32 ≤ w.len + 3
  | .bytes n _ p, w => w.err = false ∧ p ≠ none ∧ 2 ^ 32 ≤ w.len + n

/-- What a writer of `word32`s is between calls. -/
def Kept (w : Writer) : Prop := w.len ≤ w.cap ∧ w.cap < 2 ^ 32

theorem Passes.err {c : WriteCall} {w : Writer} (h : c.Passes w) : w.err = false := by
  cases c <;> exact h.1

theorem sticks (c : WriteCall) {w : Writer} (h : w.err = true) : c.run w = w ∧ c.stores w = [] := by
  obtain ⟨hrun, hstores⟩ := run_refused (c := c) (w := w) fun hp => by rw [hp.err] at h; cases h
  refine ⟨?_, hstores⟩
  rw [hrun, ← h]

/-- Where no sum wraps, a call that passes has room. -/
theorem Passes.room {c : WriteCall} {w : Writer} (hp : c.Passes w) (hk : Kept w) (h : ¬ c.Wraps w) :
    add32 w.len c.size = w.len + c.size ∧ w.len + c.size ≤ w.cap := by
  obtain ⟨hlen, hcap⟩ := hk
  cases c with
  | u8 v => exact ⟨add32_eq (by have := hp.2; simp only [size]; omega), hp.2⟩
  | u16 v =>
    have hadd : add32 w.len 2 = w.len + 2 := add32_eq (Nat.lt_of_not_le fun hle => h ⟨hp.1, hle⟩)
    exact ⟨hadd, hadd ▸ hp.2⟩
  | u24 v =>
    have hadd : add32 w.len 3 = w.len + 3 := add32_eq (Nat.lt_of_not_le fun hle => h ⟨hp.1, hle⟩)
    exact ⟨hadd, hadd ▸ hp.2⟩
  | bytes n hn p =>
    by_cases hz : n = 0
    · subst hz
      exact ⟨add32_eq (by simp only [size]; omega), by simpa only [size, Nat.add_zero] using hlen⟩
    · have hadd : add32 w.len n = w.len + n :=
        add32_eq (Nat.lt_of_not_le fun hle => h ⟨hp.1, hp.2.2.resolve_right hz, hle⟩)
      exact ⟨hadd, hadd ▸ hp.2.1⟩

/-- Where no sum wraps, a call keeps the promises. -/
theorem ok_of_not_wraps {c : WriteCall} {w : Writer} (hk : Kept w) (h : ¬ c.Wraps w) : c.Ok w := by
  by_cases hp : c.Passes w
  · obtain ⟨hadd, hroom⟩ := hp.room hk h
    have hcap := hk.2
    refine ⟨by rw [run_passed hp, hadd]; exact hroom, ?_, c.sticks⟩
    intro s hs
    rw [stores, if_pos hp] at hs
    cases c with
    | u8 v =>
      rw [plan, List.mem_singleton] at hs
      subst hs
      exact hroom
    | u16 v =>
      have hone : add32 w.len 1 = w.len + 1 := add32_eq (by simp only [size] at hroom; omega)
      simp only [plan, hone, List.mem_cons, List.not_mem_nil, or_false, size] at hs hroom
      rcases hs with rfl | rfl <;> simp only [List.length_singleton] <;> omega
    | u24 v =>
      have hone : add32 w.len 1 = w.len + 1 := add32_eq (by simp only [size] at hroom; omega)
      have htwo : add32 w.len 2 = w.len + 2 := add32_eq (by simp only [size] at hroom; omega)
      simp only [plan, hone, htwo, List.mem_cons, List.not_mem_nil, or_false, size] at hs hroom
      rcases hs with rfl | rfl | rfl <;> simp only [List.length_singleton] <;> omega
    | bytes n hn p =>
      rw [plan] at hs
      by_cases hz : n = 0
      · rw [if_neg (fun hne => hne hz)] at hs
        cases hs
      · obtain ⟨p, rfl⟩ := Option.ne_none_iff_exists'.1 (hp.2.2.resolve_right hz)
        rw [if_pos hz, List.mem_singleton] at hs
        subst hs
        simpa only [Option.map_some, Option.getD_some, Block.length, size] using hroom
  · obtain ⟨hrun, hstores⟩ := run_refused hp
    exact ⟨by rw [hrun]; exact hk.1, by rw [hstores]; nofun, c.sticks⟩

/-- Where a sum wraps, the check passes and the last cell of the range is
written, which is no writer's. -/
theorem not_ok_of_wraps {c : WriteCall} {w : Writer} (hk : Kept w) (h : c.Wraps w) : ¬ c.Ok w := by
  obtain ⟨hlen, hcap⟩ := hk
  intro hok
  have hinside : c.Passes w → ∀ s ∈ c.plan w, s.1 + s.2.length ≤ w.cap := by
    intro hp s hs
    exact hok.inside s (by rw [stores, if_pos hp]; exact hs)
  cases c with
  | u8 v => exact h
  | u16 v =>
    have hin := hinside ⟨h.1, by have := h.2; unfold add32; simp only [size]; omega⟩
    have hsum := h.2
    simp only [plan, List.mem_cons, List.not_mem_nil, or_false, forall_eq_or_imp, forall_eq, List.length_singleton,
      add32] at hin
    omega
  | u24 v =>
    have hin := hinside ⟨h.1, by have := h.2; unfold add32; simp only [size]; omega⟩
    have hsum := h.2
    simp only [plan, List.mem_cons, List.not_mem_nil, or_false, forall_eq_or_imp, forall_eq, List.length_singleton,
      add32] at hin
    omega
  | bytes n hn p =>
    obtain ⟨herr, hsome, hsum⟩ := h
    have hin := hinside ⟨herr, by unfold add32; omega, .inl hsome⟩
    obtain ⟨p, rfl⟩ := Option.ne_none_iff_exists'.1 hsome
    rw [plan, if_pos (by omega), Option.map_some, Option.getD_some] at hin
    have hcell := hin _ List.mem_cons_self
    rw [Block.length] at hcell
    omega

theorem ok_iff (c : WriteCall) {w : Writer} (hk : Kept w) : c.Ok w ↔ ¬ c.Wraps w :=
  ⟨fun hok h => not_ok_of_wraps hk h hok, ok_of_not_wraps hk⟩

theorem Ok.kept {c : WriteCall} {w : Writer} (hk : Kept w) (h : c.Ok w) : Kept (c.run w) :=
  ⟨h.bounded, by rw [run_cap]; exact hk.2⟩

end WriteCall

/-! ## Reader -/

/-- A `wn_Read_*` call. -/
inductive ReadCall where
  | u8
  | u16
  | u24
  | bytes (n : Nat) (hn : n < 2 ^ 32)

/-- What a call returns: a number, or a pointer with the bytes there. -/
inductive ReadValue where
  | num (v : Nat)
  | ptr (p : Option Bytes)
  deriving DecidableEq

namespace ReadCall

/-- The bytes a call asks for. -/
def size : ReadCall → Nat
  | .u8 => 1
  | .u16 => 2
  | .u24 => 3
  | .bytes n _ => n

def run : ReadCall → Reader → ReadValue × Reader
  | .u8, r => let (v, r) := wnReadU8 r; (.num v.toNat, r)
  | .u16, r => let (v, r) := wnReadU16 r; (.num v, r)
  | .u24, r => let (v, r) := wnReadU24 r; (.num v, r)
  | .bytes n _, r => let (p, r) := wnReadBytes r n; (.ptr p, r)

/-- The call's check. -/
def Passes : ReadCall → Reader → Prop
  | .u8, r => r.err = false ∧ r.pos < r.len
  | c, r => r.err = false ∧ add32 r.pos c.size ≤ r.len

theorem run_passed {c : ReadCall} {r : Reader} (h : c.Passes r) :
    (c.run r).2 = { r with pos := add32 r.pos c.size } ∧ (c.run r).1 ≠ .ptr none := by
  cases c with
  | u8 =>
    have hp : r.err = false ∧ r.pos < r.len := h
    rw [run, wnReadU8, if_pos hp]
    refine ⟨rfl, fun heq => ?_⟩
    cases heq
  | u16 =>
    have hp : r.err = false ∧ add32 r.pos 2 ≤ r.len := h
    rw [run, wnReadU16, if_pos hp]
    refine ⟨rfl, fun heq => ?_⟩
    cases heq
  | u24 =>
    have hp : r.err = false ∧ add32 r.pos 3 ≤ r.len := h
    rw [run, wnReadU24, if_pos hp]
    refine ⟨rfl, fun heq => ?_⟩
    cases heq
  | bytes n hn =>
    have hp : r.err = false ∧ add32 r.pos n ≤ r.len := h
    rw [run, wnReadBytes, if_pos hp]
    refine ⟨rfl, fun heq => ?_⟩
    cases heq

/-- Where the check fails, the call only sets `err`. -/
theorem run_refused {c : ReadCall} {r : Reader} (h : ¬ c.Passes r) :
    (c.run r).2 = { r with err := true } ∧ ∀ p, (c.run r).1 = .ptr p → p = none := by
  cases c with
  | u8 =>
    have hp : ¬ (r.err = false ∧ r.pos < r.len) := h
    rw [run, wnReadU8, if_neg hp]
    refine ⟨rfl, fun p heq => ?_⟩
    cases heq
  | u16 =>
    have hp : ¬ (r.err = false ∧ add32 r.pos 2 ≤ r.len) := h
    rw [run, wnReadU16, if_neg hp]
    refine ⟨rfl, fun p heq => ?_⟩
    cases heq
  | u24 =>
    have hp : ¬ (r.err = false ∧ add32 r.pos 3 ≤ r.len) := h
    rw [run, wnReadU24, if_neg hp]
    refine ⟨rfl, fun p heq => ?_⟩
    cases heq
  | bytes n hn =>
    have hp : ¬ (r.err = false ∧ add32 r.pos n ≤ r.len) := h
    rw [run, wnReadBytes, if_neg hp]
    refine ⟨rfl, fun p heq => ?_⟩
    cases heq
    rfl

/-- What is promised of a call. -/
structure Ok (c : ReadCall) (r : Reader) : Prop where
  bounded : (c.run r).2.pos ≤ (c.run r).2.len
  forward : r.pos ≤ (c.run r).2.pos
  pointer : ∀ p, (c.run r).1 = .ptr p →
    (p ≠ none → r.pos + c.size ≤ r.len) ∧ (p = none → (c.run r).2.err = true)
  sticky : r.err = true → (c.run r).2 = r

/-- The sum that the call compares with `len` is no `word32`. `wn_Read_U8`
compares `pos` itself. -/
def Wraps : ReadCall → Reader → Prop
  | .u8, _ => False
  | c, r => r.err = false ∧ 2 ^ 32 ≤ r.pos + c.size

/-- What a reader of `word32`s is between calls. -/
def Kept (r : Reader) : Prop := r.pos ≤ r.len ∧ r.len < 2 ^ 32

theorem size_lt (c : ReadCall) : c.size < 2 ^ 32 := by
  cases c with
  | bytes n hn => exact hn
  | u8 | u16 | u24 => decide

theorem Passes.err {c : ReadCall} {r : Reader} (h : c.Passes r) : r.err = false := by
  cases c <;> exact h.1

theorem sticks (c : ReadCall) {r : Reader} (h : r.err = true) : (c.run r).2 = r := by
  rw [(run_refused fun hp => by rw [hp.err] at h; cases h).1, ← h]

/-- Where no sum wraps, a call that passes has its bytes. -/
theorem Passes.room {c : ReadCall} {r : Reader} (hp : c.Passes r) (hk : Kept r) (h : ¬ c.Wraps r) :
    add32 r.pos c.size = r.pos + c.size ∧ r.pos + c.size ≤ r.len := by
  obtain ⟨hpos, hlen⟩ := hk
  cases c with
  | u8 => exact ⟨add32_eq (by have := hp.2; simp only [size]; omega), hp.2⟩
  | u16 | u24 | bytes =>
    have hadd := add32_eq (Nat.lt_of_not_le fun hle => h ⟨hp.1, hle⟩)
    exact ⟨hadd, hadd ▸ hp.2⟩

/-- Where no sum wraps, a call keeps the promises. -/
theorem ok_of_not_wraps {c : ReadCall} {r : Reader} (hk : Kept r) (h : ¬ c.Wraps r) : c.Ok r := by
  by_cases hp : c.Passes r
  · obtain ⟨hadd, hroom⟩ := hp.room hk h
    obtain ⟨hrun, hptr⟩ := run_passed hp
    rw [hadd] at hrun
    refine ⟨by rw [hrun]; exact hroom, by rw [hrun]; exact Nat.le_add_right _ _, ?_, c.sticks⟩
    intro p heq
    exact ⟨fun _ => hroom, fun hnone => absurd (hnone ▸ heq) hptr⟩
  · obtain ⟨hrun, hptr⟩ := run_refused hp
    refine ⟨by rw [hrun]; exact hk.1, by rw [hrun], ?_, c.sticks⟩
    intro p heq
    exact ⟨fun hsome => absurd (hptr p heq) hsome, fun _ => by rw [hrun]⟩

/-- Where a sum wraps, the check passes and the cursor goes back. -/
theorem not_ok_of_wraps {c : ReadCall} {r : Reader} (hk : Kept r) (h : c.Wraps r) : ¬ c.Ok r := by
  obtain ⟨hpos, hlen⟩ := hk
  intro hok
  have hback : 2 ^ 32 ≤ r.pos + c.size → add32 r.pos c.size < r.pos := by
    have := c.size_lt
    unfold add32
    omega
  have hforward := hok.forward
  have hpass : c.Passes r := by
    cases c with
    | u8 => exact h.elim
    | u16 | u24 | bytes => exact ⟨h.1, Nat.le_trans (Nat.le_of_lt (hback h.2)) hpos⟩
  have hsum : 2 ^ 32 ≤ r.pos + c.size := by
    cases c with
    | u8 => exact h.elim
    | u16 | u24 | bytes => exact h.2
  rw [(run_passed hpass).1] at hforward
  exact absurd hforward (Nat.not_le_of_lt (hback hsum))

theorem ok_iff (c : ReadCall) {r : Reader} (hk : Kept r) : c.Ok r ↔ ¬ c.Wraps r :=
  ⟨fun hok h => not_ok_of_wraps hk h hok, ok_of_not_wraps hk⟩

/-- The values that a list of calls returns, and the reader after. -/
def runAll : List ReadCall → Reader → List ReadValue × Reader
  | [], r => ([], r)
  | c :: cs, r =>
    let (v, r) := c.run r
    let (vs, r) := runAll cs r
    (v :: vs, r)

theorem runAll_append (cs cs' : List ReadCall) (r : Reader) : runAll (cs ++ cs') r =
    ((runAll cs r).1 ++ (runAll cs' (runAll cs r).2).1, (runAll cs' (runAll cs r).2).2) := by
  induction cs generalizing r with
  | nil => rfl
  | cons c cs ih => simp only [List.cons_append, runAll, ih]

@[simp] theorem run_len (c : ReadCall) (r : Reader) : (c.run r).2.len = r.len := by
  by_cases h : c.Passes r
  · rw [(run_passed h).1]
  · rw [(run_refused h).1]

theorem Ok.kept {c : ReadCall} {r : Reader} (hk : Kept r) (h : c.Ok r) : Kept (c.run r).2 :=
  ⟨h.bounded, by rw [run_len]; exact hk.2⟩

end ReadCall

/-! ## Runs -/

/-- **The wire primitives are bounds-checked just as long as no sum wraps**: in a
run from `Init` every call keeps the promises if and only if none is made,
`err` being clear, with a count that takes the cursor past the top of the range. -/
theorem wire_calls_ok_iff (buf msg : Bytes) {cap len : Nat} (hcap : cap < 2 ^ 32) (hlen : len < 2 ^ 32) :
    (∀ calls, Along WriteCall.run WriteCall.Ok calls (wnWriterInit buf cap) ↔
      Along WriteCall.run (fun c w => ¬ c.Wraps w) calls (wnWriterInit buf cap)) ∧
    (∀ calls, Along (fun c r => (ReadCall.run c r).2) ReadCall.Ok calls (wnReaderInit msg len) ↔
      Along (fun c r => (ReadCall.run c r).2) (fun c r => ¬ c.Wraps r) calls (wnReaderInit msg len)) :=
  ⟨fun calls => along_iff WriteCall.ok_iff WriteCall.Ok.kept calls ⟨Nat.zero_le _, hcap⟩,
    fun calls => along_iff ReadCall.ok_iff ReadCall.Ok.kept calls ⟨Nat.zero_le _, hlen⟩⟩

/-- A byte and a `word16` through three cells. -/
theorem wire_calls_ok_three :
    Along WriteCall.run WriteCall.Ok [.u8 7, .u16 0x0102] (wnWriterInit [0, 0, 0] 3) ∧
      Along (fun c r => (ReadCall.run c r).2) ReadCall.Ok [.u8, .u16] (wnReaderInit [7, 1, 2] 3) := by
  have hthree : 3 < 2 ^ 32 := by decide
  obtain ⟨hwrite, hread⟩ := wire_calls_ok_iff [0, 0, 0] [7, 1, 2] hthree hthree
  exact ⟨(hwrite _).2 ⟨nofun, fun h => absurd h.2 (by decide), trivial⟩,
    (hread _).2 ⟨nofun, fun h => absurd h.2 (by decide), trivial⟩⟩

/-- One byte, then a count of `2 ^ 32 - 1`, in two cells. -/
theorem wire_calls_wrapped :
    ¬ Along WriteCall.run WriteCall.Ok [.u8 7, .bytes (2 ^ 32 - 1) (by decide) (some (.zero _))]
        (wnWriterInit [0, 0] 2) ∧
      ¬ Along (fun c r => (ReadCall.run c r).2) ReadCall.Ok [.u8, .bytes (2 ^ 32 - 1) (by decide)]
        (wnReaderInit [7, 9] 2) := by
  refine ⟨?_, ?_⟩
  · rintro ⟨-, hok, -⟩
    refine (WriteCall.ok_iff _ ?_).1 hok ⟨rfl, nofun, ?_⟩
    · exact (show 1 ≤ 2 ∧ 2 < 2 ^ 32 by decide)
    · exact (show 2 ^ 32 ≤ 1 + (2 ^ 32 - 1) by decide)
  · rintro ⟨-, hok, -⟩
    refine (ReadCall.ok_iff _ ?_).1 hok ⟨rfl, ?_⟩
    · exact (show 1 ≤ 2 ∧ 2 < 2 ^ 32 by decide)
    · exact (show 2 ^ 32 ≤ 1 + (2 ^ 32 - 1) by decide)

end WolfNano

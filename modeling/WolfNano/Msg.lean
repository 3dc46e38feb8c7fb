/-
`wn_msg.c`: the wire primitives. The error sticks: once a write overruns the
buffer or a read runs short, `err` latches and later calls do nothing.

A writer's `buf` is the memory from the caller's pointer on; bytes past `cap`
are there to be kept. A reader's `buf` is the bytes it may read, and `len`
the length the caller gave for them. An index such as `w->len + 1` is a
`word32` sum and wraps like the sums the checks compare.
-/
import WolfNano.Basic

namespace WolfNano

/-! ## Writer -/

structure Writer where
  buf : Bytes
  cap : Nat
  len : Nat
  err : Bool

/-- `buf` with `bs` stored at `off`. -/
def patch (buf : Bytes) (off : Nat) (bs : Bytes) : Bytes :=
  buf.take off ++ bs ++ buf.drop (off + bs.length)

def wnWriterInit (buf : Bytes) (cap : Nat) : Writer :=
  { buf, cap, len := 0, err := false }

def wnWriteU8 (w : Writer) (v : UInt8) : Writer :=
  if w.err = false ∧ w.len < w.cap then
    { w with buf := patch w.buf w.len [v], len := add32 w.len 1 }
  else { w with err := true }

def wnWriteU16 (w : Writer) (v : Nat) : Writer :=
  if w.err = false ∧ add32 w.len 2 ≤ w.cap then
    { w with
      buf := patch (patch w.buf w.len [UInt8.ofNat (v >>> 8)]) (add32 w.len 1) [UInt8.ofNat v]
      len := add32 w.len 2 }
  else { w with err := true }

def wnWriteU24 (w : Writer) (v : Nat) : Writer :=
  if w.err = false ∧ add32 w.len 3 ≤ w.cap then
    { w with
      buf := patch (patch (patch w.buf w.len [UInt8.ofNat (v >>> 16)]) (add32 w.len 1) [UInt8.ofNat (v >>> 8)])
        (add32 w.len 2) [UInt8.ofNat v]
      len := add32 w.len 3 }
  else { w with err := true }

/-- `wn_Write_Bytes` of the `n` bytes at `p`, `p.length = n`; `wnWritePtr` has the pointer. -/
def wnWriteBytes (w : Writer) (p : Bytes) : Writer :=
  if w.err = false ∧ add32 w.len p.length ≤ w.cap then
    { w with buf := patch w.buf w.len p, len := add32 w.len p.length }
  else { w with err := true }

/-- `wn_Write_Bytes` of the first `n` bytes at a pointer, none for `NULL`. -/
def wnWritePtr (w : Writer) (p : Option Bytes) (n : Nat) : Writer :=
  if w.err = false ∧ add32 w.len n ≤ w.cap ∧ (p ≠ none ∨ n = 0) then
    { w with buf := if n ≠ 0 then patch w.buf w.len ((p.getD []).take n) else w.buf, len := add32 w.len n }
  else { w with err := true }

/-- Reserve `lenBytes` bytes; the offset of what follows them. -/
def wnWriteLenStart (w : Writer) (lenBytes : Nat) : Writer × Nat :=
  let w := (List.range lenBytes).foldl (fun w _ => wnWriteU8 w 0) w
  (w, w.len)

/-- Backfill the length of everything written since `offset`. -/
def wnWriteLenEnd (w : Writer) (offset lenBytes : Nat) : Writer :=
  if w.err = false then
    let contentLen := sub32 w.len offset
    let lenPos := sub32 offset lenBytes
    { w with
      buf := patch w.buf lenPos
        ((List.range lenBytes).map fun i => UInt8.ofNat (contentLen >>> (8 * (lenBytes - 1 - i)))) }
  else w

/-! ## Reader -/

structure Reader where
  buf : Bytes
  len : Nat
  pos : Nat
  err : Bool

def wnReaderInit (buf : Bytes) (len : Nat) : Reader :=
  { buf, len, pos := 0, err := false }

def wnReadU8 (r : Reader) : UInt8 × Reader :=
  if r.err = false ∧ r.pos < r.len then
    (r.buf.getD r.pos 0, { r with pos := add32 r.pos 1 })
  else (0, { r with err := true })

def wnReadU16 (r : Reader) : Nat × Reader :=
  if r.err = false ∧ add32 r.pos 2 ≤ r.len then
    (word16Of (r.buf.getD r.pos 0) (r.buf.getD (add32 r.pos 1) 0), { r with pos := add32 r.pos 2 })
  else (0, { r with err := true })

def wnReadU24 (r : Reader) : Nat × Reader :=
  if r.err = false ∧ add32 r.pos 3 ≤ r.len then
    (word24Of (r.buf.getD r.pos 0) (r.buf.getD (add32 r.pos 1) 0) (r.buf.getD (add32 r.pos 2) 0),
      { r with pos := add32 r.pos 3 })
  else (0, { r with err := true })

/-- The `n` bytes at the cursor, or none (`NULL`) if they are not all there. -/
def wnReadBytes (r : Reader) (n : Nat) : Option Bytes × Reader :=
  if r.err = false ∧ add32 r.pos n ≤ r.len then
    (some ((r.buf.drop r.pos).take n), { r with pos := add32 r.pos n })
  else (none, { r with err := true })

end WolfNano

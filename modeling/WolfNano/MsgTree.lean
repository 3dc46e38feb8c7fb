/-
Writing a tree of values: numbers, byte strings, and groups with their length
in front, each group a `LenStart`, its contents, and a `LenEnd`.

`Item.writeAll_tracks` says what the writer holds after: the big-endian
flattening with exact lengths, if it fits. An encoder of the source is shown
to be the writing of a tree, and then its bytes are read off the tree.
-/
import WolfNano.MsgFacts

namespace WolfNano

open Wire

/-- A value to write; `group n` has its length in `n` bytes. -/
inductive Item where
  | u8 (v : UInt8)
  | u16 (v : Nat)
  | u24 (v : Nat)
  | bytes (p : Bytes)
  | group (n : Nat) (items : List Item)

namespace Item

mutual

/-- The calls that write an item. -/
def write : Item → Writer → Writer
  | .u8 v, w => wnWriteU8 w v
  | .u16 v, w => wnWriteU16 w v
  | .u24 v, w => wnWriteU24 w v
  | .bytes p, w => wnWriteBytes w p
  | .group n items, w =>
    let (w, offset) := wnWriteLenStart w n
    wnWriteLenEnd (writeAll items w) offset n

def writeAll : List Item → Writer → Writer
  | [], w => w
  | item :: items, w => writeAll items (write item w)

end

mutual

/-- The big-endian flattening. -/
def encode : Item → Bytes
  | .u8 v => [v]
  | .u16 v => be 2 v
  | .u24 v => be 3 v
  | .bytes p => p
  | .group n items => vec n (encodeAll items)

def encodeAll : List Item → Bytes
  | [] => []
  | item :: items => encode item ++ encodeAll items

end

@[simp] theorem writeAll_nil (w : Writer) : writeAll [] w = w := by simp [writeAll]

@[simp] theorem writeAll_cons (item : Item) (items : List Item) (w : Writer) :
    writeAll (item :: items) w = writeAll items (item.write w) := by simp [writeAll]

theorem writeAll_append (l l' : List Item) (w : Writer) : writeAll (l ++ l') w = writeAll l' (writeAll l w) := by
  induction l generalizing w with
  | nil => simp
  | cons item l ih => simp [ih]

@[simp] theorem encode_u8 (v : UInt8) : (Item.u8 v).encode = [v] := by simp [encode]
@[simp] theorem encode_u16 (v : Nat) : (Item.u16 v).encode = be 2 v := by simp [encode]
@[simp] theorem encode_u24 (v : Nat) : (Item.u24 v).encode = be 3 v := by simp [encode]
@[simp] theorem encode_bytes (p : Bytes) : (Item.bytes p).encode = p := by simp [encode]
@[simp] theorem encode_group (n : Nat) (items : List Item) :
    (Item.group n items).encode = vec n (encodeAll items) := by simp [encode]

@[simp] theorem encodeAll_nil : encodeAll [] = [] := by simp [encodeAll]

@[simp] theorem encodeAll_cons (item : Item) (items : List Item) :
    encodeAll (item :: items) = item.encode ++ encodeAll items := by simp [encodeAll]

theorem encodeAll_append (l l' : List Item) : encodeAll (l ++ l') = encodeAll l ++ encodeAll l' := by
  induction l with
  | nil => simp
  | cons item l ih => simp [ih]

mutual

theorem write_tracks {cap : Nat} {w : Writer} {out : Bytes} : ∀ (item : Item), Tracks cap w out →
    out.length + item.encode.length < 2 ^ 32 → Tracks cap (item.write w) (out ++ item.encode)
  | .u8 v, h, hlt => by
    simpa [write] using h.u8 v (by simpa using hlt)
  | .u16 v, h, hlt => by
    simpa [write] using h.u16 v (by simpa using hlt)
  | .u24 v, h, hlt => by
    simpa [write] using h.u24 v (by simpa using hlt)
  | .bytes p, h, hlt => by
    simpa [write] using h.bytes p (by simpa using hlt)
  | .group n items, h, hlt => by
    simp only [encode_group, vec_length] at hlt
    rw [encode_group, write]
    have hstart := h.lenStart n (by omega)
    have hbody := writeAll_tracks items hstart (by simp; omega)
    exact hbody.lenEnd (h.lenStart_offset n (by omega)) (by simp; omega)

/-- **What writing a tree leaves**: its flattening, or an error if that does
not fit. -/
theorem writeAll_tracks {cap : Nat} {w : Writer} {out : Bytes} : ∀ (items : List Item), Tracks cap w out →
    out.length + (encodeAll items).length < 2 ^ 32 → Tracks cap (writeAll items w) (out ++ encodeAll items)
  | [], h, _ => by simpa using h
  | item :: items, h, hlt => by
    simp only [encodeAll_cons, List.length_append] at hlt
    rw [encodeAll_cons, writeAll_cons, ← List.append_assoc]
    exact writeAll_tracks items (write_tracks item h (by omega)) (by simp; omega)

end

mutual

theorem write_frames {mem : Bytes} {cap : Nat} {w : Writer} {out : Bytes} : ∀ (item : Item), Tracks cap w out →
    Frames mem cap w out → out.length + item.encode.length < 2 ^ 32 →
      Frames mem cap (item.write w) (out ++ item.encode)
  | .u8 v, h, hf, hlt => by
    simpa [write] using hf.u8 h v (by simpa using hlt)
  | .u16 v, h, hf, hlt => by
    simpa [write] using hf.u16 h v (by simpa using hlt)
  | .u24 v, h, hf, hlt => by
    simpa [write] using hf.u24 h v (by simpa using hlt)
  | .bytes p, h, hf, hlt => by
    simpa [write] using hf.bytes h p (by simpa using hlt)
  | .group n items, h, hf, hlt => by
    simp only [encode_group, vec_length] at hlt
    rw [encode_group, write]
    have hstart := h.lenStart n (by omega)
    have hbody := writeAll_tracks items hstart (by simp; omega)
    have hframe := writeAll_frames items hstart (hf.lenStart h n (by omega)) (by simp; omega)
    exact hframe.lenEnd hbody (h.lenStart_offset n (by omega)) (by simp; omega)

/-- **What writing a tree leaves alone**: the memory past its flattening or,
if that does not fit, past the capacity. -/
theorem writeAll_frames {mem : Bytes} {cap : Nat} {w : Writer} {out : Bytes} : ∀ (items : List Item),
    Tracks cap w out → Frames mem cap w out → out.length + (encodeAll items).length < 2 ^ 32 →
      Frames mem cap (writeAll items w) (out ++ encodeAll items)
  | [], _, hf, _ => by simpa using hf
  | item :: items, h, hf, hlt => by
    simp only [encodeAll_cons, List.length_append] at hlt
    rw [encodeAll_cons, writeAll_cons, ← List.append_assoc]
    exact writeAll_frames items (write_tracks item h (by omega)) (write_frames item h hf (by omega)) (by simp; omega)

end

end Item

end WolfNano

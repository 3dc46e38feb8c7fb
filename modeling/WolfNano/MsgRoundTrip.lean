/-
Writing a tree of values and reading it back.

A tree has its calls for the reader as for the writer, a group's prefix being
read as a number. `ReadCall.Reads` says of a list of calls that they take an
encoding off the cursor wherever it stands in the buffer, so that what is
read of a tree follows its constructors.
-/
import WolfNano.MsgTree
import WolfNano.WireCalls

namespace WolfNano

open Wire

/-! ## One call -/

theorem getD_front {r : Reader} {q : Bytes} (hq : r.buf.drop r.pos = q) (i : Nat) :
    r.buf.getD (r.pos + i) 0 = q.getD i 0 := by
  rw [← hq]
  simp [List.getD_eq_getElem?_getD]

section Front

variable {r : Reader} (herr : r.err = false) (hlen : r.len < 2 ^ 31) {rest : Bytes}
include herr hlen

theorem wnReadU8_front {v : UInt8} (hfit : r.pos + 1 ≤ r.len) (hq : r.buf.drop r.pos = v :: rest) :
    wnReadU8 r = (v, { r with pos := r.pos + 1 }) := by
  rw [wnReadU8, if_pos ⟨herr, hfit⟩, add32_eq (by omega), ← Nat.add_zero r.pos, getD_front hq]
  rfl

theorem wnReadU16_front {v : Nat} (hv : v < 2 ^ 16) (hfit : r.pos + 2 ≤ r.len)
    (hq : r.buf.drop r.pos = be 2 v ++ rest) : wnReadU16 r = (v, { r with pos := r.pos + 2 }) := by
  have hadd : ∀ i, i ≤ 2 → add32 r.pos i = r.pos + i := fun i hi => add32_eq (by omega)
  have hget := getD_front hq
  rw [be_two] at hget
  have h0 := hget 0
  rw [Nat.add_zero] at h0
  rw [wnReadU16, hadd 2 (by omega), if_pos ⟨herr, hfit⟩, hadd 1 (by omega), h0, hget 1, word16Of_eq]
  simp only [List.cons_append, List.getD_cons_zero, List.getD_cons_succ]
  rw [← be_two, unbe_be hv]

theorem wnReadU24_front {v : Nat} (hv : v < 2 ^ 24) (hfit : r.pos + 3 ≤ r.len)
    (hq : r.buf.drop r.pos = be 3 v ++ rest) : wnReadU24 r = (v, { r with pos := r.pos + 3 }) := by
  have hadd : ∀ i, i ≤ 3 → add32 r.pos i = r.pos + i := fun i hi => add32_eq (by omega)
  have hget := getD_front hq
  rw [be_three] at hget
  have h0 := hget 0
  rw [Nat.add_zero] at h0
  rw [wnReadU24, hadd 3 (by omega), if_pos ⟨herr, hfit⟩, hadd 1 (by omega), hadd 2 (by omega), h0, hget 1, hget 2,
    word24Of_eq]
  simp only [List.cons_append, List.getD_cons_zero, List.getD_cons_succ]
  rw [← be_three, unbe_be hv]

theorem wnReadBytes_front {p : Bytes} (hfit : r.pos + p.length ≤ r.len) (hq : r.buf.drop r.pos = p ++ rest) :
    wnReadBytes r p.length = (some p, { r with pos := r.pos + p.length }) := by
  have hadd : add32 r.pos p.length = r.pos + p.length := add32_eq (by omega)
  rw [wnReadBytes, hadd, if_pos ⟨herr, hfit⟩, hq, List.take_left]

end Front

/-! ## Lists of calls -/

namespace ReadCall

/-- Where `enc` stands at the cursor the calls return `vs` and end behind it. -/
def Reads (cs : List ReadCall) (vs : List ReadValue) (enc : Bytes) : Prop :=
  ∀ (r : Reader) (rest : Bytes), r.err = false → r.len < 2 ^ 31 → r.pos + enc.length ≤ r.len →
    r.buf.drop r.pos = enc ++ rest → runAll cs r = (vs, { r with pos := r.pos + enc.length })

theorem Reads.nil : Reads [] [] [] := fun _ _ _ _ _ _ => rfl

theorem Reads.append {cs cs' : List ReadCall} {vs vs' : List ReadValue} {enc enc' : Bytes} (h : Reads cs vs enc)
    (h' : Reads cs' vs' enc') : Reads (cs ++ cs') (vs ++ vs') (enc ++ enc') := by
  intro r rest herr hlen hfit hq
  rw [List.length_append] at hfit
  have hfirst := h r (enc' ++ rest) herr hlen (by omega) (by rw [hq, List.append_assoc])
  have hbehind : r.buf.drop (r.pos + enc.length) = enc' ++ rest := by
    rw [← List.drop_drop, hq, List.append_assoc, List.drop_left]
  have hsecond := h' { r with pos := r.pos + enc.length } rest herr hlen
    (by rw [Nat.add_assoc]; exact hfit) hbehind
  rw [runAll_append, hfirst, hsecond, List.length_append, ← Nat.add_assoc]

theorem reads_u8 (v : UInt8) : Reads [.u8] [.num v.toNat] [v] := by
  intro r rest herr hlen hfit hq
  have h := wnReadU8_front herr hlen hfit hq
  simp only [runAll, run, h]
  rfl

theorem reads_u16 {v : Nat} (hv : v < 2 ^ 16) : Reads [.u16] [.num v] (be 2 v) := by
  intro r rest herr hlen hfit hq
  rw [be_length] at hfit ⊢
  have h := wnReadU16_front herr hlen hv hfit hq
  simp only [runAll, run, h]

theorem reads_u24 {v : Nat} (hv : v < 2 ^ 24) : Reads [.u24] [.num v] (be 3 v) := by
  intro r rest herr hlen hfit hq
  rw [be_length] at hfit ⊢
  have h := wnReadU24_front herr hlen hv hfit hq
  simp only [runAll, run, h]

/-- The call for `n` bytes, `n` as a `word32`. -/
def ofLength (n : Nat) : ReadCall := .bytes (n % 2 ^ 32) (Nat.mod_lt n (by decide))

theorem reads_bytes (p : Bytes) : Reads [ofLength p.length] [.ptr (some p)] p := by
  intro r rest herr hlen hfit hq
  have hword : p.length % 2 ^ 32 = p.length := Nat.mod_eq_of_lt (by omega)
  have h := wnReadBytes_front herr hlen hfit hq
  simp only [runAll, run, ofLength, hword, h]

end ReadCall

/-! ## Trees -/

namespace Item

mutual

/-- The numbers have their width, and what is in a group fits its prefix of one,
two or three bytes. -/
def Fits : Item → Prop
  | .u8 _ => True
  | .u16 v => v < 2 ^ 16
  | .u24 v => v < 2 ^ 24
  | .bytes _ => True
  | .group n items => (n = 1 ∨ n = 2 ∨ n = 3) ∧ (encodeAll items).length < 256 ^ n ∧ FitsAll items

def FitsAll : List Item → Prop
  | [] => True
  | item :: items => Fits item ∧ FitsAll items

end

/-- The call that reads a group's prefix. -/
def prefixCall (n : Nat) : ReadCall :=
  match n with
  | 1 => .u8
  | 2 => .u16
  | _ => .u24

mutual

/-- The calls that read an item. -/
def readCalls : Item → List ReadCall
  | .u8 _ => [.u8]
  | .u16 _ => [.u16]
  | .u24 _ => [.u24]
  | .bytes p => [.ofLength p.length]
  | .group n items => prefixCall n :: readCallsAll items

def readCallsAll : List Item → List ReadCall
  | [] => []
  | item :: items => readCalls item ++ readCallsAll items

end

mutual

/-- What they are to return: of a group its length, then what is in it. -/
def values : Item → List ReadValue
  | .u8 v => [.num v.toNat]
  | .u16 v => [.num v]
  | .u24 v => [.num v]
  | .bytes p => [.ptr (some p)]
  | .group _ items => .num (encodeAll items).length :: valuesAll items

def valuesAll : List Item → List ReadValue
  | [] => []
  | item :: items => values item ++ valuesAll items

end

theorem reads_lengthField {n k : Nat} (hn : n = 1 ∨ n = 2 ∨ n = 3) (hk : k < 256 ^ n) :
    ReadCall.Reads [prefixCall n] [.num k] (be n k) := by
  rcases hn with rfl | rfl | rfl
  · have h := ReadCall.reads_u8 (UInt8.ofNat k)
    rw [UInt8.toNat_ofNat_of_lt' (by simpa using hk)] at h
    rw [be_one]
    exact h
  · exact ReadCall.reads_u16 (by simpa using hk)
  · exact ReadCall.reads_u24 (by simpa using hk)

mutual

theorem readCalls_reads : ∀ (item : Item), item.Fits → ReadCall.Reads item.readCalls item.values item.encode
  | .u8 v, _ => by
    simpa only [readCalls, values, encode] using ReadCall.reads_u8 v
  | .u16 v, h => by
    simpa only [readCalls, values, encode] using ReadCall.reads_u16 (by simpa only [Fits] using h)
  | .u24 v, h => by
    simpa only [readCalls, values, encode] using ReadCall.reads_u24 (by simpa only [Fits] using h)
  | .bytes p, _ => by
    simpa only [readCalls, values, encode] using ReadCall.reads_bytes p
  | .group n items, h => by
    obtain ⟨hn, hlen, hitems⟩ : (n = 1 ∨ n = 2 ∨ n = 3) ∧ (encodeAll items).length < 256 ^ n ∧ FitsAll items := by
      simpa only [Fits] using h
    have hall := (reads_lengthField hn hlen).append (readCallsAll_reads items hitems)
    rw [readCalls, values, encode, vec]
    exact hall

/-- **What is read where a tree stands**: its values, and nothing behind it. -/
theorem readCallsAll_reads : ∀ (items : List Item), FitsAll items →
    ReadCall.Reads (readCallsAll items) (valuesAll items) (encodeAll items)
  | [], _ => by
    simpa only [readCallsAll, valuesAll, encodeAll] using ReadCall.Reads.nil
  | item :: items, h => by
    obtain ⟨hitem, hitems⟩ : Fits item ∧ FitsAll items := by simpa only [FitsAll] using h
    have hall := (readCalls_reads item hitem).append (readCallsAll_reads items hitems)
    simpa only [readCallsAll, valuesAll, encodeAll] using hall

end

end Item

/-- **Writer and reader are inverse**: writing a tree ends without an error just
if its flattening has room, the buffer then holding that and reading giving
the tree's values up to its end; and nothing is ever written past `cap`. -/
theorem wire_tree_inverse (items : List Item) (mem : Bytes) (cap : Nat) (hfits : Item.FitsAll items)
    (hlen : (Item.encodeAll items).length < 2 ^ 31) :
    let out := Item.encodeAll items
    let w := Item.writeAll items (wnWriterInit mem cap)
    (w.err = false ↔ out.length ≤ cap) ∧ w.buf.drop cap = mem.drop cap ∧
      (w.err = false → w.len = out.length ∧ w.buf = out ++ mem.drop out.length ∧
        ReadCall.runAll (Item.readCallsAll items) (wnReaderInit w.buf w.len) =
          (Item.valuesAll items, { buf := w.buf, len := w.len, pos := w.len, err := false })) := by
  intro out w
  have htracks := Item.writeAll_tracks items (Tracks.init mem cap) (by simp; omega)
  have hframes := Item.writeAll_frames items (Tracks.init mem cap) (Frames.init mem cap) (by simp; omega)
  rw [List.nil_append] at htracks hframes
  refine ⟨htracks.err, hframes.past, fun herr => ?_⟩
  have hend := htracks.len herr
  have hbuf : w.buf = out ++ mem.drop out.length := by
    rw [← List.take_append_drop out.length w.buf, htracks.buf herr, hframes.tail herr]
  refine ⟨hend, hbuf, ?_⟩
  have hread := Item.readCallsAll_reads items hfits (wnReaderInit w.buf w.len) _ rfl
    (show w.len < 2 ^ 31 by rw [hend]; exact hlen) (show 0 + out.length ≤ w.len by rw [hend, Nat.zero_add]) hbuf
  rw [hread, hend]
  simp [wnReaderInit]

/-- A group in a group, in a buffer with a cell to spare. -/
theorem wire_tree_inverse_nested :
    let items := [Item.u8 7, .group 2 [.u24 5, .group 1 [.bytes [1, 2]]]]
    let w := Item.writeAll items (wnWriterInit (List.replicate 10 9) 9)
    w.err = false ∧ w.buf = [7, 0, 6, 0, 0, 5, 2, 1, 2, 9] ∧
      (ReadCall.runAll (Item.readCallsAll items) (wnReaderInit w.buf w.len)).1 =
        [.num 7, .num 6, .num 5, .num 2, .ptr (some [1, 2])] := by
  intro items w
  have hout : Item.encodeAll items = [7, 0, 6, 0, 0, 5, 2, 1, 2] := by
    simp [items, vec, be]
  have h := wire_tree_inverse items (List.replicate 10 9) 9
    (by simp [items, Item.FitsAll, Item.Fits]) (by rw [hout]; decide)
  rw [hout] at h
  have herr := h.1.2 (by decide)
  obtain ⟨-, hbuf, hread⟩ := h.2.2 herr
  refine ⟨herr, hbuf, ?_⟩
  rw [hread]
  simp [items, Item.valuesAll, Item.values]

end WolfNano

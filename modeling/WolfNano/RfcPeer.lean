/-
An RFC 8446 peer after the handshake.

One direction of a connection is a traffic secret's keys and a sequence number.
Sealing a record moves its sender on, and opening it moves its reader on in the
same way (`SealStep`), so what is in flight is a run from where the reader is
to where the sender is. Nothing here follows the code.
-/
import WolfNano.SessionKeys

namespace WolfNano.Rfc

open Prog Wire

variable {cfg : Config}

/-! ## What a record carries -/

/-- Application data, or NewSessionTickets and maybe a KeyUpdate, which ends
its record (4.6, 5.1). -/
inductive Carried where
  | data (m : Bytes)
  | post (tickets : List Bytes) (update : Option UInt8)
  deriving DecidableEq

namespace Carried

def type : Carried → UInt8
  | .data _ => 23
  | .post .. => 22

/-- The messages' bytes. -/
def content : Carried → Bytes
  | .data m => m
  | .post tickets none => (tickets.map (hsMsg 4)).flatten
  | .post tickets (some req) => (tickets.map (hsMsg 4)).flatten ++ hsMsg 24 [req]

/-- The lengths fit their fields, and request_update is one of its two values. -/
def Fits : Carried → Prop
  | .data _ => True
  | .post tickets update => (∀ body ∈ tickets, body.length < 2 ^ 24) ∧ ∀ req ∈ update, req ≤ 1

/-- A KeyUpdate is among the messages. -/
def updates : Carried → Bool
  | .post _ (some _) => true
  | _ => false

/-- A KeyUpdate is, and it asks for one. -/
def requests : Carried → Bool
  | .post _ (some req) => req = 1
  | _ => false

def data? : Carried → Option Bytes
  | .data m => some m
  | _ => none

theorem type_ne_zero : ∀ c : Carried, c.type ≠ 0
  | .data _ => show (23 : UInt8) ≠ 0 by decide
  | .post .. => show (22 : UInt8) ≠ 0 by decide

end Carried

/-- A record: what it carries, its padding, its bytes. -/
structure Sent where
  carried : Carried
  pad : Nat
  record : Bytes

/-- The application data of records, in order. -/
def plaintexts (items : List Sent) : List Bytes := items.filterMap (·.carried.data?)

theorem plaintexts_append (items items' : List Sent) :
    plaintexts (items ++ items') = plaintexts items ++ plaintexts items' :=
  List.filterMap_append

theorem plaintexts_singleton (i : Sent) : plaintexts [i] = i.carried.data?.toList := by
  cases h : i.carried.data? <;> simp [plaintexts, h]

/-! ## One direction -/

/-- The keys of one direction and the number of its next record. -/
structure Half where
  keys : TrafficKeys
  seq : UInt64

variable (p : Provider cfg)

/-- Where a record leaves its direction: at the next generation after a
KeyUpdate, else at the next number (5.3, 7.2). -/
def Half.next (s : Half) (c : Carried) : Option Half :=
  if c.updates then (update p s.keys).map fun t => ⟨t, 0⟩ else some ⟨s.keys, s.seq + 1⟩

/-- A record is sealed, or opened. -/
structure SealStep (s : Half) (i : Sent) (s' : Half) : Prop where
  fits : i.carried.Fits
  sealed : sealRecord p s.keys s.seq.toNat i.carried.type i.carried.content i.pad = some i.record
  next : s.next p i.carried = some s'

/-- Records in order. -/
abbrev Seals : Half → List Sent → Half → Prop := Run (SealStep p)

variable {p} {s s' : Half} {i : Sent} {items : List Sent}

theorem SealStep.keep (h : SealStep p s i s') (hi : i.carried.updates = false) : s' = ⟨s.keys, s.seq + 1⟩ := by
  have hnext := h.next
  rw [Half.next, if_neg (by rw [hi]; exact Bool.false_ne_true)] at hnext
  exact (Option.some.inj hnext).symm

theorem SealStep.update (h : SealStep p s i s') (hi : i.carried.updates = true) :
    ∃ t, Rfc.update p s.keys = some t ∧ s' = ⟨t, 0⟩ := by
  have hnext := h.next
  rw [Half.next, if_pos hi, Option.map_eq_some_iff] at hnext
  obtain ⟨t, ht, rfl⟩ := hnext
  exact ⟨t, ht, rfl⟩

/-- The keys are those of the generation that the KeyUpdates make it. -/
theorem Seals.generation {server : TrafficKeys} (h : Seals p s items s') : ∀ {g : Nat},
    Rfc.generation p server g = some s.keys →
      Rfc.generation p server (g + items.countP (·.carried.updates)) = some s'.keys := by
  induction h with
  | nil => exact fun hg => hg
  | @cons s t u i items hstep _ ih =>
    intro g hg
    rw [List.countP_cons]
    by_cases hi : i.carried.updates = true
    · obtain ⟨keys, hkeys, rfl⟩ := hstep.update hi
      have hnext : Rfc.generation p server (g + 1) = some keys := by
        rw [Rfc.generation, hg]
        exact hkeys
      rw [if_pos hi, Nat.add_comm (items.countP _) 1, ← Nat.add_assoc]
      exact ih hnext
    · rw [hstep.keep (by simpa using hi)] at ih
      rw [if_neg hi]
      exact ih hg

/-- Without a KeyUpdate the keys stay and the number counts the records. -/
theorem Seals.keep (h : Seals p s items s') (hi : ∀ i ∈ items, i.carried.updates = false) :
    s' = ⟨s.keys, s.seq + UInt64.ofNat items.length⟩ := by
  induction h with
  | nil => simp
  | @cons s t u i items hstep _ ih =>
    obtain ⟨hkeep, hrest⟩ := List.forall_mem_cons.1 hi
    rw [ih hrest, hstep.keep hkeep, List.length_cons]
    simp [UInt64.add_assoc, UInt64.add_comm]

/-- What a run seals first, and what it seals then. -/
theorem Seals.split {items' : List Sent} : ∀ {items : List Sent} {s : Half}, Seals p s (items ++ items') s' →
    ∃ t, Seals p s items t ∧ Seals p t items' s'
  | [], s, h => ⟨s, .nil, h⟩
  | i :: items, s, h => by
    cases h with
    | cons hstep hrest =>
      obtain ⟨t, hfirst, hthen⟩ := Seals.split hrest
      exact ⟨t, .cons hstep hfirst, hthen⟩

/-- A run ends where it ends. -/
theorem Seals.unique {t : Half} (h : Seals p s items s') (h' : Seals p s items t) : s' = t := by
  induction h with
  | nil =>
    cases h'
    rfl
  | cons hstep _ ih =>
    cases h' with
    | cons hstep' hrest =>
      obtain rfl := Option.some.inj (hstep.next.symm.trans hstep'.next)
      exact ih hrest

end WolfNano.Rfc

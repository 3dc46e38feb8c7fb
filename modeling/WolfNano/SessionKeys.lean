/-
Secrets, keys, ivs and counters of a session, in every state a run reaches.

`Consistent` says what each of them is by the acts of the run. Each act keeps
it, so every run does, through sends that fail, records that do not open and
handshake content that is refused halfway.
-/
import WolfNano.SessionRun
import WolfNano.ClearProvider

namespace WolfNano

open Prog Wire

variable {cfg : Config} {p : Provider cfg}

/-! ## Generations -/

/-- The `n`-th update of traffic keys. -/
def Rfc.generation (p : Provider cfg) (t : TrafficKeys) : Nat → Option TrafficKeys
  | 0 => some t
  | n + 1 => (Rfc.generation p t n).bind (Rfc.update p)

/-- Every generation has the key and iv of its secret. -/
theorem Rfc.generation_keys {t : TrafficKeys} (h : Rfc.trafficKeys p t.secret = some t) :
    ∀ {n : Nat} {t' : TrafficKeys}, Rfc.generation p t n = some t' → Rfc.trafficKeys p t'.secret = some t'
  | 0, t', hg => by
    cases hg
    exact h
  | n + 1, t', hg => by
    rw [Rfc.generation, Option.bind_eq_some_iff] at hg
    obtain ⟨t₁, -, hu⟩ := hg
    simp only [Rfc.update, Option.bind_eq_bind, Option.bind_eq_some_iff] at hu
    obtain ⟨secret, -, hk⟩ := hu
    obtain ⟨rfl, -, -⟩ := (Rfc.trafficKeys_eq_some p).1 hk
    exact hk

/-! ## Counting acts -/

namespace Act

def isReplied : Act → Bool
  | .replied _ => true
  | _ => false

def isKeyUpdate : Act → Bool
  | .keyUpdate _ => true
  | _ => false

def isOpened : Act → Bool
  | .opened .. => true
  | _ => false

/-- A record was sealed and the write keys did not move on with it. -/
def isSealed : Act → Bool
  | .sent .. | .replyCut _ => true
  | _ => false

end Act

/-- How many of the acts since the last one that is `reset` are counted. -/
def countSince (reset counted : Act → Bool) (acts : List Act) : Nat :=
  (acts.reverse.takeWhile fun a => !reset a).countP counted

theorem countSince_snoc (reset counted : Act → Bool) (acts : List Act) (a : Act) :
    countSince reset counted (acts ++ [a]) =
      if reset a then 0 else countSince reset counted acts + if counted a then 1 else 0 := by
  unfold countSince
  rw [List.reverse_append, List.reverse_singleton, List.singleton_append, List.takeWhile_cons]
  cases reset a <;> simp [List.countP_cons]

/-! ## What each act changes -/

section Step

variable {x y : World × Bytes} {a : Act} (h : SessStep p x a y)
include h

theorem SessStep.writeKeys : (a.isReplied = true → Rfc.update p x.1.sess.writeKeys = some y.1.sess.writeKeys) ∧
    (¬ a.isReplied = true → y.1.sess.writeKeys = x.1.sess.writeKeys) := by
  cases h with
  | replied _ _ ht => exact ⟨fun _ => ht, fun h => absurd rfl h⟩
  | skipped h => rw [h.frame]; exact ⟨nofun, fun _ => rfl⟩
  | _ => exact ⟨nofun, fun _ => rfl⟩

theorem SessStep.readKeys : (a.isKeyUpdate = true → Rfc.update p x.1.sess.readKeys = some y.1.sess.readKeys) ∧
    (¬ a.isKeyUpdate = true → y.1.sess.readKeys = x.1.sess.readKeys) := by
  cases h with
  | keyUpdate _ ht => exact ⟨fun _ => ht, fun h => absurd rfl h⟩
  | skipped h => rw [h.frame]; exact ⟨nofun, fun _ => rfl⟩
  | _ => exact ⟨nofun, fun _ => rfl⟩

theorem SessStep.cSeq : y.1.sess.cSeq =
    if a.isReplied = true then 0 else if a.isSealed = true then x.1.sess.cSeq + 1 else x.1.sess.cSeq := by
  cases h with
  | skipped h => rw [h.frame]; rfl
  | _ => rfl

theorem SessStep.sSeq : y.1.sess.sSeq =
    if a.isKeyUpdate = true then 0 else if a.isOpened = true then x.1.sess.sSeq + 1 else x.1.sess.sSeq := by
  cases h with
  | skipped h => rw [h.frame]; rfl
  | _ => rfl

end Step

/-! ## Consistency -/

/-- The secrets, keys, ivs and counters of a session after such acts. -/
structure Consistent (p : Provider cfg) (client server : TrafficKeys) (acts : List Act) (s : Session) : Prop where
  /-- `cAppSecret`, `cKey` and `cIv` have been updated once for each KeyUpdate
  record that went out whole. -/
  write : Rfc.generation p client (acts.countP Act.isReplied) = some s.writeKeys
  /-- `sAppSecret`, `sKey` and `sIv` have been updated once for each KeyUpdate
  message processed. -/
  read : Rfc.generation p server (acts.countP Act.isKeyUpdate) = some s.readKeys
  /-- `cSeq` counts the records sealed under the present write keys. -/
  cSeq : s.cSeq = UInt64.ofNat (countSince Act.isReplied Act.isSealed acts)
  /-- `sSeq` counts the records opened since the last KeyUpdate. -/
  sSeq : s.sSeq = UInt64.ofNat (countSince Act.isKeyUpdate Act.isOpened acts)

theorem countP_snoc (counted : Act → Bool) (acts : List Act) (a : Act) :
    (acts ++ [a]).countP counted = acts.countP counted + if counted a then 1 else 0 := by
  simp [List.countP_append, List.countP_cons]

theorem Consistent.step {client server : TrafficKeys} {acts : List Act} {x y : World × Bytes} {a : Act}
    (h : Consistent p client server acts x.1.sess) (hstep : SessStep p x a y) :
    Consistent p client server (acts ++ [a]) y.1.sess := by
  have hnat : ∀ n : Nat, UInt64.ofNat n + 1 = UInt64.ofNat (n + 1) := fun n => by simp
  constructor
  · rw [countP_snoc]
    by_cases ha : a.isReplied = true
    · rw [if_pos ha, Rfc.generation, h.write]
      exact hstep.writeKeys.1 ha
    · rw [if_neg ha, hstep.writeKeys.2 ha]
      exact h.write
  · rw [countP_snoc]
    by_cases ha : a.isKeyUpdate = true
    · rw [if_pos ha, Rfc.generation, h.read]
      exact hstep.readKeys.1 ha
    · rw [if_neg ha, hstep.readKeys.2 ha]
      exact h.read
  · rw [countSince_snoc, hstep.cSeq, h.cSeq]
    split
    · rfl
    · split
      · exact hnat _
      · rfl
  · rw [countSince_snoc, hstep.sSeq, h.sSeq]
    split
    · rfl
    · split
      · exact hnat _
      · rfl

/-- Every run keeps it. -/
theorem SessRun.consistent {client server : TrafficKeys} {acts : List Act} {x y : World × Bytes}
    (hrun : SessRun p x acts y) (h : Consistent p client server [] x.1.sess) :
    Consistent p client server acts y.1.sess := by
  have hend := hrun.history (I := fun acts z => Consistent p client server acts z.1.sess)
    (fun h hs => h.step hs) (show Consistent p client server [] x.1.sess from h)
  rwa [List.nil_append] at hend

theorem Consistent.established (io : Transport) (client server : TrafficKeys) :
    Consistent p client server [] (.established io client server) := ⟨rfl, rfl, rfl, rfl⟩

end WolfNano

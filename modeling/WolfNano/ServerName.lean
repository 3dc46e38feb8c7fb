/-
Server names: what `wn_CheckServerName` accepts, said of labels and letters
rather than of offsets.

A host is compared with each dNSName of the certificate, or with its common
name if it has none. A name stands for itself in any case, or with a first
label `*` for every host that has one label more than the rest of it.
-/
import WolfNano.ChainFacts
import Mathlib.Data.List.Forall2

namespace WolfNano

/-! ## Letters -/

/-- Two bytes that are the same, or one letter in its two cases. -/
def AsciiCaseEq (a b : UInt8) : Prop :=
  a = b ∨ (0x41 ≤ a ∧ a ≤ 0x5A ∧ b = a + 0x20) ∨ (0x41 ≤ b ∧ b ≤ 0x5A ∧ a = b + 0x20)

/-- Two names equal ignoring ASCII case. -/
def CaseEq (a b : Bytes) : Prop := List.Forall₂ AsciiCaseEq a b

theorem wnAsciiLower_toNat (b : UInt8) :
    (wnAsciiLower b).toNat = if 0x41 ≤ b.toNat ∧ b.toNat ≤ 0x5A then b.toNat + 0x20 else b.toNat := by
  unfold wnAsciiLower
  simp only [ge_iff_le, UInt8.le_iff_toNat_le, UInt8.reduceToNat]
  split
  · simp only [UInt8.toNat_add, UInt8.toNat_sub, UInt8.reduceToNat]
    omega
  · rfl

/-- A capital letter's byte, moved to the small letters, does not wrap. -/
theorem toNat_addCase {b : UInt8} (h : b.toNat ≤ 0x5A) : (b + 0x20).toNat = b.toNat + 0x20 := by
  simp only [UInt8.toNat_add, UInt8.reduceToNat]
  omega

theorem wnAsciiLower_eq {a b : UInt8} : wnAsciiLower a = wnAsciiLower b ↔ AsciiCaseEq a b := by
  rw [← UInt8.toNat_inj, wnAsciiLower_toNat, wnAsciiLower_toNat]
  unfold AsciiCaseEq
  simp only [UInt8.le_iff_toNat_le, UInt8.reduceToNat, ← UInt8.toNat_inj]
  constructor
  · intro h
    by_cases ha : 0x41 ≤ a.toNat ∧ a.toNat ≤ 0x5A
    · rw [toNat_addCase ha.2]
      split_ifs at h <;> omega
    · by_cases hb : 0x41 ≤ b.toNat ∧ b.toNat ≤ 0x5A
      · rw [toNat_addCase hb.2]
        split_ifs at h
        omega
      · rw [if_neg ha, if_neg hb] at h
        exact .inl h
  · intro h
    rcases h with h | ⟨hlo, hhi, h⟩ | ⟨hlo, hhi, h⟩
    · rw [h]
    · rw [toNat_addCase hhi] at h
      split_ifs <;> omega
    · rw [toNat_addCase hhi] at h
      split_ifs <;> omega

theorem wnDnsCaseEq_iff {a b : Bytes} : wnDnsCaseEq a b = true ↔ CaseEq a b := by
  unfold wnDnsCaseEq CaseEq
  rw [beq_iff_eq, ← List.forall₂_eq_eq_eq, List.forall₂_map_left_iff, List.forall₂_map_right_iff]
  simp only [wnAsciiLower_eq]

theorem AsciiCaseEq.symm {a b : UInt8} (h : AsciiCaseEq a b) : AsciiCaseEq b a :=
  wnAsciiLower_eq.1 (wnAsciiLower_eq.2 h).symm

theorem CaseEq.symm {a b : Bytes} (h : CaseEq a b) : CaseEq b a :=
  List.Forall₂.flip (h.imp fun _ _ => AsciiCaseEq.symm)

theorem AsciiCaseEq.dot_iff {a b : UInt8} (h : AsciiCaseEq a b) : a = 0x2E ↔ b = 0x2E := by
  unfold AsciiCaseEq at h
  simp only [UInt8.le_iff_toNat_le, UInt8.reduceToNat, ← UInt8.toNat_inj] at h ⊢
  rcases h with h | ⟨hlo, hhi, h⟩ | ⟨hlo, hhi, h⟩
  · rw [h]
  · rw [toNat_addCase hhi] at h
    omega
  · rw [toNat_addCase hhi] at h
    omega

/-- Names equal but for case have the same labels but for case. -/
theorem CaseEq.labels {a b : Bytes} (h : CaseEq a b) :
    List.Forall₂ CaseEq (a.splitOn 0x2E) (b.splitOn 0x2E) := by
  induction h with
  | nil => exact .cons .nil .nil
  | @cons x y a b hxy _ ih =>
    rw [List.splitOn_cons_eq_if_modifyHead, List.splitOn_cons_eq_if_modifyHead]
    simp only [beq_iff_eq]
    by_cases hdot : x = 0x2E
    · rw [if_pos hdot, if_pos (hxy.dot_iff.1 hdot)]
      exact .cons .nil ih
    · rw [if_neg hdot, if_neg (mt hxy.dot_iff.2 hdot)]
      generalize List.splitOn 0x2E a = la at ih ⊢
      generalize List.splitOn 0x2E b = lb at ih ⊢
      cases ih with
      | nil => exact .nil
      | cons hlabel hrest => exact .cons (.cons hxy hlabel) hrest

/-! ## Patterns -/

/-- What a pattern matches: a name without a wildcard, itself in any case; one
of the form `*.s`, a nonempty label in front of `.s`. -/
inductive DnsMatch : Bytes → Bytes → Prop
  | plain {pat host : Bytes} (hpat : pat ≠ []) (hhost : host ≠ []) (hplain : ∀ s, s ≠ [] → pat ≠ 0x2A :: 0x2E :: s)
      (heq : CaseEq pat host) : DnsMatch pat host
  | wildcard {s l t : Bytes} (hs : s ≠ []) (hl : l ≠ []) (hdot : 0x2E ∉ l) (heq : CaseEq t s) :
      DnsMatch (0x2A :: 0x2E :: s) (l ++ 0x2E :: t)

/-- The test of the code's wildcard branch. -/
theorem isWildcard_iff {pat : Bytes} : (pat.length > 2 ∧ pat.getD 0 0 = 0x2A ∧ pat.getD 1 0 = 0x2E) ↔
    ∃ s, s ≠ [] ∧ pat = 0x2A :: 0x2E :: s := by
  match pat with
  | [] | [a] | [a, b] => simp
  | a :: b :: d :: s =>
    simp only [List.length_cons, List.getD_cons_zero, List.getD_cons_succ, List.cons.injEq]
    constructor
    · intro h
      exact ⟨d :: s, List.cons_ne_nil d s, h.2.1, h.2.2, rfl⟩
    · intro h
      obtain ⟨s', -, ha, hb, -⟩ := h
      exact ⟨by omega, ha, hb⟩

/-- The scan for the first dot of a host that has one. -/
theorem takeWhile_label {l t : Bytes} (hdot : 0x2E ∉ l) : (l ++ 0x2E :: t).takeWhile (· ≠ 0x2E) = l := by
  rw [List.takeWhile_append_of_pos, List.takeWhile_cons_of_neg (by decide), List.append_nil]
  intro b hb
  have hne : b ≠ 0x2E := fun hb' => hdot (hb' ▸ hb)
  exact decide_eq_true hne

theorem exists_label {host : Bytes} (h : (host.takeWhile (· ≠ 0x2E)).length < host.length) :
    ∃ l t, 0x2E ∉ l ∧ host = l ++ 0x2E :: t := by
  have hall := List.takeWhile_append_dropWhile (p := (· ≠ 0x2E)) (l := host)
  cases hrest : host.dropWhile (· ≠ 0x2E) with
  | nil =>
    rw [hrest, List.append_nil] at hall
    rw [hall] at h
    exact absurd h (Nat.lt_irrefl _)
  | cons d t =>
    have hd := List.head?_dropWhile_not (· ≠ 0x2E) host
    rw [hrest] at hd
    have hdot : d = 0x2E := by simpa using hd
    subst hdot
    refine ⟨host.takeWhile (· ≠ 0x2E), t, fun hmem => ?_, ?_⟩
    · have hne := List.all_takeWhile (p := (· ≠ 0x2E)) (l := host)
      rw [List.all_eq_true] at hne
      exact absurd (hne _ hmem) (by decide)
    · rw [← hrest]
      exact hall.symm

/-- The wildcard branch: the host's first label is not empty, and what follows
it is what follows the wildcard. -/
theorem wildcardBranch_iff {s host : Bytes} (hs : s ≠ []) :
    wnDnsNameMatch (0x2A :: 0x2E :: s) host = true ↔
      ∃ l t, l ≠ [] ∧ 0x2E ∉ l ∧ CaseEq t s ∧ host = l ++ 0x2E :: t := by
  have hwild := isWildcard_iff.2 ⟨s, hs, rfl⟩
  unfold wnDnsNameMatch
  by_cases hhost : host = []
  · subst hhost
    simp
  have hne : ¬ ((0x2A :: 0x2E :: s).length = 0 ∨ host.length = 0) := by
    rw [List.length_eq_zero_iff, List.length_eq_zero_iff]
    exact not_or.2 ⟨List.cons_ne_nil _ _, hhost⟩
  rw [if_neg hne, if_pos hwild]
  simp only [decide_eq_true_eq, wnDnsCaseEq_iff, List.drop_succ_cons, List.drop_zero]
  constructor
  · intro h
    obtain ⟨hk, hlt, -, heq⟩ := h
    obtain ⟨l, t, hdot, rfl⟩ := exists_label hlt
    rw [takeWhile_label hdot] at hk heq
    rw [List.drop_left] at heq
    cases heq with
    | cons _ heq => exact ⟨l, t, List.length_pos_iff.1 hk, hdot, CaseEq.symm heq, rfl⟩
  · intro h
    obtain ⟨l, t, hl, hdot, heq, rfl⟩ := h
    rw [takeWhile_label hdot, List.drop_left]
    have hlen : t.length = s.length := heq.length_eq
    refine ⟨List.length_pos_iff.2 hl, ?_, ?_, .cons (.inl rfl) heq.symm⟩
    · simp
    · simp [hlen]

theorem wnDnsNameMatch_iff {pat host : Bytes} : wnDnsNameMatch pat host = true ↔ DnsMatch pat host := by
  by_cases hwild : ∃ s, s ≠ [] ∧ pat = 0x2A :: 0x2E :: s
  · obtain ⟨s, hs, rfl⟩ := hwild
    rw [wildcardBranch_iff hs]
    constructor
    · intro h
      obtain ⟨l, t, hl, hdot, heq, rfl⟩ := h
      exact .wildcard hs hl hdot heq
    · intro h
      cases h with
      | plain _ _ hplain _ => exact absurd rfl (hplain s hs)
      | wildcard _ hl hdot heq => exact ⟨_, _, hl, hdot, heq, rfl⟩
  · unfold wnDnsNameMatch
    simp only [if_neg (mt isWildcard_iff.1 hwild), List.length_eq_zero_iff]
    by_cases hempty : pat = [] ∨ host = []
    · rw [if_pos hempty]
      refine ⟨nofun, fun h => ?_⟩
      cases h with
      | plain hpat hhost _ _ => exact absurd hempty (not_or.2 ⟨hpat, hhost⟩)
      | wildcard hs _ _ _ => exact absurd ⟨_, hs, rfl⟩ hwild
    · rw [if_neg hempty, decide_eq_true_eq, wnDnsCaseEq_iff]
      constructor
      · intro h
        exact .plain (mt .inl hempty) (mt .inr hempty) (fun s hs heq => hwild ⟨s, hs, heq⟩) h.2
      · intro h
        cases h with
        | plain _ _ _ heq => exact ⟨heq.length_eq, heq⟩
        | wildcard hs _ _ _ => exact absurd ⟨_, hs, rfl⟩ hwild

/-- A wildcard stands for one label, which is not empty: the host's other
labels are the pattern's other labels, one by one. -/
theorem DnsMatch.labels {s host : Bytes} (hs : s ≠ []) (h : DnsMatch (0x2A :: 0x2E :: s) host) :
    ∃ l ls, host.splitOn 0x2E = l :: ls ∧ l ≠ [] ∧ List.Forall₂ CaseEq ls (s.splitOn 0x2E) := by
  cases h with
  | plain _ _ hplain _ => exact absurd rfl (hplain s hs)
  | @wildcard _ l t _ hl hdot heq =>
    exact ⟨l, t.splitOn 0x2E, List.splitOn_append_cons_self_of_not_mem hdot t, hl, heq.labels⟩

/-! ## The check -/

/-- **Server-name matching**: a certificate is for a host by one of its
dNSNames or, if it has none, by its common name; a pattern and a host match as
`DnsMatch` says, so that a wildcard is exactly one label. -/
theorem wnCheckServerName_iff (leaf : DecodedCert) (host : Bytes) :
    (wnCheckServerName leaf host = .ok () ↔
      (∃ e ∈ leaf.altNames, e.isDns = true ∧ DnsMatch e.name host) ∨
        ((∀ e ∈ leaf.altNames, e.isDns = false) ∧ ∃ cn, leaf.subjectCN = some cn ∧ DnsMatch cn host)) ∧
      (∀ pat, wnDnsNameMatch pat host = true ↔ DnsMatch pat host) ∧
      ∀ s, s ≠ [] → wnDnsNameMatch (0x2A :: 0x2E :: s) host = true →
        ∃ l ls, host.splitOn 0x2E = l :: ls ∧ l ≠ [] ∧ List.Forall₂ CaseEq ls (s.splitOn 0x2E) := by
  refine ⟨?_, fun pat => wnDnsNameMatch_iff, fun s hs h => (wnDnsNameMatch_iff.1 h).labels hs⟩
  rw [wnCheckServerName_ok]
  unfold DecodedCert.Names
  simp only [wnDnsNameMatch_iff]

/-- A certificate for `*.ab`; it has a dNSName, so that its common name does not count. -/
def DecodedCert.wildcard : DecodedCert where
  publicKey := [1]
  keyOID := 0
  isCA := false
  extKeyUsageSet := false
  allowsDigitalSig := false
  extExtKeyUsageSet := false
  allowsServerAuth := false
  altNames := [{ isDns := true, name := [0x2A, 0x2E, 0x61, 0x62] }]
  subjectCN := some [0x61, 0x62]
  beforeDate := none
  afterDate := none

/-- It is for the host `x.Ab`. -/
theorem wnCheckServerName_iff_wildcard : wnCheckServerName .wildcard [0x78, 0x2E, 0x41, 0x62] = .ok () :=
  (wnCheckServerName_iff _ _).1.2 (.inl ⟨_, List.mem_singleton_self _, rfl,
    .wildcard (l := [0x78]) (t := [0x41, 0x62]) nofun nofun (by decide) (wnDnsCaseEq_iff.1 (by decide))⟩)

end WolfNano

/-
`wn_VerifyChain` decides the predicate its comments state: every certificate is
signed by the next and the last by the anchor, presented issuers are
authorities within their window, and the leaf is fit for a TLS server.

The loop looks at each certificate's issuer, one ahead of it, and the leaf is
looked at again after the loop; the predicate is over indices
(`ChainValid`).
-/
import WolfNano.Cert
import WolfNano.ClearProvider

namespace WolfNano

variable {cfg : Config} {c : CertProvider}

theorem ite_error_ok {ε α : Type} {P : Prop} [Decidable P] {e : ε} {x : Except ε α} {a : α} :
    (if P then .error e else x) = .ok a ↔ ¬ P ∧ x = .ok a := by
  by_cases h : P
  · rw [if_pos h]
    exact ⟨nofun, fun hp => absurd h hp.1⟩
  · rw [if_neg h]
    exact ⟨fun hx => ⟨h, hx⟩, fun hp => hp.2⟩

theorem except_seq_ok {ε α : Type} {x : Except ε Unit} {y : Except ε α} {a : α} :
    (x >>= fun _ => y) = .ok a ↔ x = .ok () ∧ y = .ok a := by
  rw [Prog.except_bind_ok]
  constructor
  · intro h
    obtain ⟨_, h⟩ := h
    exact h
  · intro h
    exact ⟨(), h⟩

/-! ## The leaf's checks -/

variable (c) in
/-- `now` is no earlier than a certificate's first date and no later than its last. -/
structure InWindow (cert : DecodedCert) (now : c.Time) : Prop where
  before : ∃ date d fmt, cert.beforeDate = some date ∧ c.getDateInfo date = some (d, fmt) ∧
    c.validateBefore d fmt now = true
  after : ∃ date d fmt, cert.afterDate = some date ∧ c.getDateInfo date = some (d, fmt) ∧
    c.validateAfter d fmt now = true

theorem dateValid_ok {validate : Bytes → UInt8 → Bool} {date : Bytes} :
    dateValid c validate date = .ok () ↔ ∃ d fmt, c.getDateInfo date = some (d, fmt) ∧ validate d fmt = true := by
  unfold dateValid
  cases hinfo : c.getDateInfo date with
  | none =>
    refine ⟨nofun, fun h => ?_⟩
    obtain ⟨d, fmt, hd, -⟩ := h
    cases hd
  | some info =>
    obtain ⟨d, fmt⟩ := info
    dsimp only
    by_cases hv : validate d fmt = true
    · rw [if_pos hv]
      exact ⟨fun _ => ⟨d, fmt, rfl, hv⟩, fun _ => rfl⟩
    · rw [if_neg hv]
      refine ⟨nofun, fun h => ?_⟩
      obtain ⟨d', fmt', hd, hv'⟩ := h
      cases hd
      exact absurd hv' hv

theorem wnCertTimeValid_ok {cert : DecodedCert} {now : c.Time} :
    wnCertTimeValid c cert now = .ok () ↔ InWindow c cert now := by
  unfold wnCertTimeValid
  cases hbefore : cert.beforeDate with
  | none =>
    refine ⟨nofun, fun h => ?_⟩
    obtain ⟨date, d, fmt, hdate, -⟩ := h.before
    rw [hbefore] at hdate
    cases hdate
  | some before =>
    cases hafter : cert.afterDate with
    | none =>
      refine ⟨nofun, fun h => ?_⟩
      obtain ⟨date, d, fmt, hdate, -⟩ := h.after
      rw [hafter] at hdate
      cases hdate
    | some after =>
      dsimp only
      constructor
      · intro h
        obtain ⟨_, h₁, h₂⟩ := Prog.except_bind_ok.1 h
        obtain ⟨d, fmt, hd, hv⟩ := dateValid_ok.1 h₁
        obtain ⟨d', fmt', hd', hv'⟩ := dateValid_ok.1 h₂
        exact ⟨⟨before, d, fmt, hbefore, hd, hv⟩, ⟨after, d', fmt', hafter, hd', hv'⟩⟩
      · intro h
        obtain ⟨date, d, fmt, hdate, hd, hv⟩ := h.before
        obtain ⟨date', d', fmt', hdate', hd', hv'⟩ := h.after
        rw [hbefore] at hdate
        rw [hafter] at hdate'
        cases hdate
        cases hdate'
        exact Prog.except_bind_ok.2 ⟨(), dateValid_ok.2 ⟨d, fmt, hd, hv⟩, dateValid_ok.2 ⟨d', fmt', hd', hv'⟩⟩

/-- A certificate is for a host: by one of its dNSNames or, if it has none, by
its common name. -/
def DecodedCert.Names (leaf : DecodedCert) (host : Bytes) : Prop :=
  (∃ e ∈ leaf.altNames, e.isDns = true ∧ wnDnsNameMatch e.name host = true) ∨
    ((∀ e ∈ leaf.altNames, e.isDns = false) ∧ ∃ cn, leaf.subjectCN = some cn ∧ wnDnsNameMatch cn host = true)

theorem wnCheckServerName_ok {leaf : DecodedCert} {host : Bytes} :
    wnCheckServerName leaf host = .ok () ↔ leaf.Names host := by
  have hany : leaf.altNames.any (fun e => e.isDns && wnDnsNameMatch e.name host) = true ↔
      ∃ e ∈ leaf.altNames, e.isDns = true ∧ wnDnsNameMatch e.name host = true := by
    simp only [List.any_eq_true, Bool.and_eq_true]
  have hsaw : leaf.altNames.any (·.isDns) = false ↔ ∀ e ∈ leaf.altNames, e.isDns = false := by
    simp only [List.any_eq_false, Bool.not_eq_true]
  unfold wnCheckServerName DecodedCert.Names
  dsimp only
  rw [← hany, ← hsaw]
  by_cases hmatch : leaf.altNames.any (fun e => e.isDns && wnDnsNameMatch e.name host) = true
  · rw [if_pos hmatch]
    exact ⟨fun _ => .inl hmatch, fun _ => rfl⟩
  · rw [if_neg hmatch]
    cases hcn : leaf.subjectCN with
    | none =>
      refine ⟨nofun, fun h => ?_⟩
      rcases h with h | ⟨-, cn, hsome, -⟩
      · exact absurd h hmatch
      · cases hsome
    | some cn =>
      dsimp only
      by_cases hfall : leaf.altNames.any (·.isDns) = false ∧ wnDnsNameMatch cn host = true
      · rw [if_pos hfall]
        exact ⟨fun _ => .inr ⟨hfall.1, cn, rfl, hfall.2⟩, fun _ => rfl⟩
      · rw [if_neg hfall]
        refine ⟨nofun, fun h => ?_⟩
        rcases h with h | ⟨hno, cn', hsome, hm⟩
        · exact absurd h hmatch
        · cases hsome
          exact absurd ⟨hno, hm⟩ hfall

theorem wnCheckKeyPin_ok {leaf : DecodedCert} {pin : Bytes} :
    wnCheckKeyPin leaf pin = .ok () ↔ pin ≠ [] ∧ pin = leaf.publicKey := by
  unfold wnCheckKeyPin
  rw [← List.length_pos_iff]
  by_cases h : pin.length > 0 ∧ pin = leaf.publicKey
  · rw [if_pos h]
    exact ⟨fun _ => h, fun _ => rfl⟩
  · rw [if_neg h]
    exact ⟨nofun, fun hp => absurd hp h⟩

/-! ## The predicate -/

variable (c) in
/-- A leaf that may speak for the server, with `spki` its public key. -/
structure LeafValid (spkiCap : Nat) (serverName pinnedKey : Option Bytes) (now : c.Time) (leaf : DecodedCert)
    (spki : Bytes) : Prop where
  key : leaf.publicKey = spki
  fits : spki.length ≤ spkiCap
  keyUsage : leaf.extKeyUsageSet = true → leaf.allowsDigitalSig = true
  extKeyUsage : leaf.extExtKeyUsageSet = true → leaf.allowsServerAuth = true
  pin : ∀ pin, pinnedKey = some pin → pin ≠ [] ∧ pin = spki
  name : ∀ name, serverName = some name → leaf.Names name
  window : InWindow c leaf now

/-- The issuer of the `i`-th certificate: the next one, or the anchor. -/
def issuerOf (certs : List Bytes) (anchor : Bytes) (i : Nat) : Bytes := certs[i + 1]?.getD anchor

variable (c) in
/-- A chain, leaf first, that leads to the anchor, with `spki` the leaf's key. -/
structure ChainValid (certs : List Bytes) (anchor : Bytes) (spkiCap : Nat) (serverName pinnedKey : Option Bytes)
    (now : c.Time) (spki : Bytes) : Prop where
  signed : ∀ (i : Nat) (h : i < certs.length), ∃ issuer, c.parseCert (issuerOf certs anchor i) = some issuer ∧
    c.checkCertSignaturePubKey certs[i] issuer.publicKey issuer.keyOID = true
  authority : ∀ (i : Nat) (h : i < certs.length), 1 ≤ i → ∃ issuer, c.parseCert certs[i] = some issuer ∧
    issuer.isCA = true ∧ (certs[i] ≠ anchor → InWindow c issuer now)
  leaf : ∃ (h : 0 < certs.length) (leaf : DecodedCert), c.parseCert certs[0] = some leaf ∧
    LeafValid c spkiCap serverName pinnedKey now leaf spki

/-! ## The loop -/

theorem checkIssuer_ok (htime : cfg.noAsnTime = false) {anchor cert : Bytes} {now : c.Time} {next : Option Bytes} :
    checkIssuer cfg c anchor now cert next = .ok () ↔ ∃ issuer, c.parseCert (next.getD anchor) = some issuer ∧
      c.checkCertSignaturePubKey cert issuer.publicKey issuer.keyOID = true ∧
      (next.isSome = true → issuer.isCA = true ∧ (next.getD anchor ≠ anchor → InWindow c issuer now)) := by
  unfold checkIssuer
  dsimp only
  cases hparse : c.parseCert (next.getD anchor) with
  | none =>
    refine ⟨nofun, fun h => ?_⟩
    obtain ⟨issuer, hsome, -⟩ := h
    cases hsome
  | some issuer =>
    simp only [ite_error_ok, htime, true_and, Option.some.injEq, exists_eq_left', Bool.not_eq_false]
    rw [← wnCertTimeValid_ok]
    by_cases htimed : next.isSome = true ∧ next.getD anchor ≠ anchor
    · rw [if_pos htimed]
      simp [htimed.1, htimed.2]
    · rw [if_neg htimed]
      simp only [not_and, not_not] at htimed
      by_cases hsome : next.isSome = true
      · simp [hsome, htimed hsome]
      · simp [hsome]

theorem checkIssuers_ok {anchor : Bytes} {now : c.Time} : ∀ {certs : List Bytes},
    checkIssuers cfg c anchor now certs = .ok () ↔
      ∀ (i : Nat) (h : i < certs.length), checkIssuer cfg c anchor now certs[i] certs[i + 1]? = .ok ()
  | [] => ⟨fun _ i h => absurd h (Nat.not_lt_zero i), fun _ => rfl⟩
  | cert :: rest => by
    have hhead : rest.head? = (cert :: rest)[1]? := by rw [List.getElem?_cons_succ, List.head?_eq_getElem?]
    rw [checkIssuers, Prog.except_bind_ok]
    constructor
    · intro h i hi
      obtain ⟨_, hfirst, hrest⟩ := h
      cases i with
      | zero => exact hhead ▸ hfirst
      | succ i => exact checkIssuers_ok.1 hrest i (Nat.lt_of_succ_lt_succ hi)
    · intro h
      refine ⟨(), ?_, checkIssuers_ok.2 fun i hi => h (i + 1) (Nat.succ_lt_succ hi)⟩
      rw [hhead]
      exact h 0 (Nat.zero_lt_succ _)

/-- The loop's shifted indices: what it asks of each issuer, it asks of every
certificate but the leaf. -/
theorem checkIssuers_valid (htime : cfg.noAsnTime = false) {anchor : Bytes} {now : c.Time} {certs : List Bytes} :
    checkIssuers cfg c anchor now certs = .ok () ↔
      (∀ (i : Nat) (h : i < certs.length), ∃ issuer, c.parseCert (issuerOf certs anchor i) = some issuer ∧
        c.checkCertSignaturePubKey certs[i] issuer.publicKey issuer.keyOID = true) ∧
      ∀ (i : Nat) (h : i < certs.length), 1 ≤ i → ∃ issuer, c.parseCert certs[i] = some issuer ∧
        issuer.isCA = true ∧ (certs[i] ≠ anchor → InWindow c issuer now) := by
  simp only [checkIssuers_ok, checkIssuer_ok htime, issuerOf]
  constructor
  · intro h
    refine ⟨fun i hi => ?_, fun i hi hpos => ?_⟩
    · obtain ⟨issuer, hparse, hsig, -⟩ := h i hi
      exact ⟨issuer, hparse, hsig⟩
    · obtain ⟨i, rfl⟩ : ∃ k, i = k + 1 := ⟨i - 1, by omega⟩
      obtain ⟨issuer, hparse, -, hca⟩ := h i (by omega)
      have hget : certs[i + 1]? = some certs[i + 1] := List.getElem?_eq_getElem hi
      rw [hget, Option.getD_some] at hparse hca
      exact ⟨issuer, hparse, hca rfl⟩
  · intro h i hi
    obtain ⟨issuer, hparse, hsig⟩ := h.1 i hi
    refine ⟨issuer, hparse, hsig, fun hsome => ?_⟩
    obtain ⟨next, hnext⟩ := Option.isSome_iff_exists.1 hsome
    obtain ⟨hlt, hget⟩ := List.getElem?_eq_some_iff.1 hnext
    obtain ⟨issuer', hparse', hca⟩ := h.2 (i + 1) hlt (Nat.le_add_left 1 i)
    rw [hnext, Option.getD_some] at hparse ⊢
    rw [hget, hparse] at hparse'
    cases hparse'
    rw [hget] at hca
    exact hca

/-! ## The leaf -/

def leafPin (pinnedKey : Option Bytes) (leaf : DecodedCert) : Except Err Unit :=
  match pinnedKey with
  | some pin => wnCheckKeyPin leaf pin
  | none => pure ()

def leafName (serverName : Option Bytes) (leaf : DecodedCert) : Except Err Unit :=
  match serverName with
  | some name => wnCheckServerName leaf name
  | none => pure ()

theorem leafPin_ok {pinnedKey : Option Bytes} {leaf : DecodedCert} :
    leafPin pinnedKey leaf = .ok () ↔ ∀ pin, pinnedKey = some pin → pin ≠ [] ∧ pin = leaf.publicKey := by
  cases pinnedKey with
  | none => exact iff_of_true rfl nofun
  | some pin => simp only [leafPin, wnCheckKeyPin_ok, Option.some.injEq, forall_eq']

theorem leafName_ok {serverName : Option Bytes} {leaf : DecodedCert} :
    leafName serverName leaf = .ok () ↔ ∀ name, serverName = some name → leaf.Names name := by
  cases serverName with
  | none => exact iff_of_true rfl nofun
  | some name => simp only [leafName, wnCheckServerName_ok, Option.some.injEq, forall_eq']

/-- The checks of the leaf, one behind the other; what a build does without is passed over. -/
theorem checkLeaf_steps (spkiCap : Nat) (serverName pinnedKey : Option Bytes) (now : c.Time) {cert : Bytes}
    {leaf : DecodedCert} (hparse : c.parseCert cert = some leaf) :
    checkLeaf cfg c spkiCap serverName pinnedKey now cert =
      if leaf.publicKey.length > spkiCap then .error .crypto
      else if leaf.extKeyUsageSet ∧ leaf.allowsDigitalSig = false then .error .badCert
      else if leaf.extExtKeyUsageSet ∧ leaf.allowsServerAuth = false then .error .badCert
      else leafPin pinnedKey leaf >>= fun _ =>
        (if cfg.x509Hostname = false ∧ serverName.isSome then .error .unsupported else leafName serverName leaf) >>=
          fun _ => (if cfg.noAsnTime then pure () else wnCertTimeValid c leaf now) >>= fun _ => .ok leaf.publicKey := by
  unfold checkLeaf
  rw [hparse]
  cases pinnedKey <;> cases serverName <;> cases cfg.x509Hostname <;> cases cfg.noAsnTime <;> rfl

theorem checkLeaf_eq (hhost : cfg.x509Hostname = true) (htime : cfg.noAsnTime = false) (spkiCap : Nat)
    (serverName pinnedKey : Option Bytes) (now : c.Time) {cert : Bytes} {leaf : DecodedCert}
    (hparse : c.parseCert cert = some leaf) : checkLeaf cfg c spkiCap serverName pinnedKey now cert =
      if leaf.publicKey.length > spkiCap then .error .crypto
      else if leaf.extKeyUsageSet ∧ leaf.allowsDigitalSig = false then .error .badCert
      else if leaf.extExtKeyUsageSet ∧ leaf.allowsServerAuth = false then .error .badCert
      else leafPin pinnedKey leaf >>= fun _ => leafName serverName leaf >>= fun _ =>
        wnCertTimeValid c leaf now >>= fun _ => .ok leaf.publicKey := by
  simp only [checkLeaf_steps spkiCap serverName pinnedKey now hparse, hhost, htime, Bool.true_eq_false,
    Bool.false_eq_true, false_and, if_false]

/-- The key that is answered is the certificate's, whatever the build checks. -/
theorem checkLeaf_key {spkiCap : Nat} {serverName pinnedKey : Option Bytes} {now : c.Time} {cert key : Bytes}
    {leaf : DecodedCert} (hparse : c.parseCert cert = some leaf)
    (h : checkLeaf cfg c spkiCap serverName pinnedKey now cert = .ok key) : key = leaf.publicKey := by
  rw [checkLeaf_steps spkiCap serverName pinnedKey now hparse, ite_error_ok, ite_error_ok, ite_error_ok] at h
  obtain ⟨-, -, -, h⟩ := h
  obtain ⟨-, h⟩ := except_seq_ok.1 h
  obtain ⟨-, h⟩ := except_seq_ok.1 h
  obtain ⟨-, h⟩ := except_seq_ok.1 h
  cases h
  rfl

theorem checkLeaf_ok (hhost : cfg.x509Hostname = true) (htime : cfg.noAsnTime = false) {spkiCap : Nat}
    {serverName pinnedKey : Option Bytes} {now : c.Time} {cert spki : Bytes} :
    checkLeaf cfg c spkiCap serverName pinnedKey now cert = .ok spki ↔
      ∃ leaf, c.parseCert cert = some leaf ∧ LeafValid c spkiCap serverName pinnedKey now leaf spki := by
  cases hparse : c.parseCert cert with
  | none =>
    unfold checkLeaf
    rw [hparse]
    refine ⟨nofun, fun h => ?_⟩
    obtain ⟨leaf, hsome, -⟩ := h
    cases hsome
  | some leaf =>
    simp only [checkLeaf_eq hhost htime spkiCap serverName pinnedKey now hparse, ite_error_ok, except_seq_ok,
      leafPin_ok, leafName_ok, wnCertTimeValid_ok, Except.ok.injEq, Option.some.injEq, exists_eq_left', not_lt,
      gt_iff_lt, not_and, Bool.not_eq_false]
    constructor
    · intro h
      obtain ⟨hfits, hku, heku, hpin, hname, hwindow, rfl⟩ := h
      exact ⟨rfl, hfits, hku, heku, hpin, hname, hwindow⟩
    · intro h
      obtain ⟨rfl, hfits, hku, heku, hpin, hname, hwindow⟩ := h
      exact ⟨hfits, hku, heku, hpin, hname, hwindow, rfl⟩

/-! ## The chain -/

/-- **`wn_VerifyChain` decides the chain predicate**, in a build that checks
names and dates, and its answer is the leaf's public key. -/
theorem wnVerifyChain_ok_iff (hhost : cfg.x509Hostname = true) (htime : cfg.noAsnTime = false) (certs : List Bytes)
    (anchor : Bytes) (spkiCap : Nat) (serverName pinnedKey : Option Bytes) (now : c.Time) (spki : Bytes) :
    wnVerifyChain cfg c certs anchor spkiCap serverName pinnedKey now = .ok spki ↔
      ChainValid c certs anchor spkiCap serverName pinnedKey now spki := by
  cases certs with
  | nil =>
    refine ⟨nofun, fun h => ?_⟩
    obtain ⟨hpos, -⟩ := h.leaf
    exact absurd hpos (Nat.lt_irrefl 0)
  | cons cert rest =>
    rw [wnVerifyChain, Prog.except_bind_ok]
    constructor
    · intro h
      obtain ⟨_, hloop, hleaf⟩ := h
      obtain ⟨hsigned, hca⟩ := (checkIssuers_valid htime).1 hloop
      exact ⟨hsigned, hca, Nat.zero_lt_succ _, (checkLeaf_ok hhost htime).1 hleaf⟩
    · intro h
      obtain ⟨_, hleaf⟩ := h.leaf
      exact ⟨(), (checkIssuers_valid htime).2 ⟨h.signed, h.authority⟩, (checkLeaf_ok hhost htime).2 hleaf⟩

/-- A leaf under an intermediate under an anchor, with the leaf pinned. -/
theorem wnVerifyChain_ok_iff_trusting : ChainValid .trusting [[1], [2]] [3] 64 none (some [1]) () [1] :=
  (@wnVerifyChain_ok_iff .small .trusting rfl rfl [[1], [2]] [3] 64 none (some [1]) () [1]).1 rfl

/-! ## The anchor, sent along -/

variable (c) in
/-- A certificate that is an authority and was signed with its own key. -/
def SelfSignedCa (der : Bytes) : Prop :=
  ∃ cert, c.parseCert der = some cert ∧ cert.isCA = true ∧
    c.checkCertSignaturePubKey der cert.publicKey cert.keyOID = true

/-- As the last issuer the anchor need only parse and have signed. -/
theorem checkIssuer_last {anchor cert : Bytes} {now : c.Time} :
    checkIssuer cfg c anchor now cert none = .ok () ↔ ∃ issuer, c.parseCert anchor = some issuer ∧
      c.checkCertSignaturePubKey cert issuer.publicKey issuer.keyOID = true := by
  unfold checkIssuer
  cases hparse : c.parseCert anchor with
  | none => simp [hparse]
  | some issuer => simp [hparse]

/-- Sent along it must be an authority as well; its dates are not looked at. -/
theorem checkIssuer_anchor {anchor cert : Bytes} {now : c.Time} :
    checkIssuer cfg c anchor now cert (some anchor) = .ok () ↔ ∃ issuer, c.parseCert anchor = some issuer ∧
      c.checkCertSignaturePubKey cert issuer.publicKey issuer.keyOID = true ∧ issuer.isCA = true := by
  unfold checkIssuer
  cases hparse : c.parseCert anchor with
  | none => simp [hparse]
  | some issuer => simp [hparse, ite_error_ok]

/-- The loop over a chain with the anchor behind it: over the chain, and the
anchor on its own. -/
theorem checkIssuers_echoed {anchor : Bytes} {now : c.Time} : ∀ {certs : List Bytes}, certs ≠ [] →
    (checkIssuers cfg c anchor now (certs ++ [anchor]) = .ok () ↔
      checkIssuers cfg c anchor now certs = .ok () ∧ SelfSignedCa c anchor)
  | [], h => absurd rfl h
  | [cert], _ => by
    simp only [List.cons_append, List.nil_append, checkIssuers, except_seq_ok, List.head?_cons, List.head?_nil,
      checkIssuer_last, checkIssuer_anchor]
    constructor
    · intro h
      obtain ⟨⟨issuer, hparse, hsig, hca⟩, ⟨self, hparse', hself⟩, -⟩ := h
      rw [hparse] at hparse'
      cases hparse'
      exact ⟨⟨⟨issuer, hparse, hsig⟩, trivial⟩, issuer, hparse, hca, hself⟩
    · intro h
      obtain ⟨⟨⟨issuer, hparse, hsig⟩, -⟩, self, hparse', hca, hself⟩ := h
      rw [hparse] at hparse'
      cases hparse'
      exact ⟨⟨issuer, hparse, hsig, hca⟩, ⟨issuer, hparse, hself⟩, trivial⟩
  | cert :: next :: rest, _ => by
    have ih : checkIssuers cfg c anchor now (next :: (rest ++ [anchor])) = .ok () ↔
        checkIssuers cfg c anchor now (next :: rest) = .ok () ∧ SelfSignedCa c anchor :=
      checkIssuers_echoed (List.cons_ne_nil next rest)
    have hstep : ∀ l, checkIssuers cfg c anchor now (cert :: next :: l) = .ok () ↔
        checkIssuer cfg c anchor now cert (some next) = .ok () ∧ checkIssuers cfg c anchor now (next :: l) = .ok () :=
      fun l => by rw [checkIssuers, except_seq_ok, List.head?_cons]
    rw [List.cons_append, List.cons_append, hstep, ih, hstep, and_assoc]

/-- **When a server may send the pinned anchor along**: a chain that verifies
does so with the anchor behind it, to the same key, exactly when the anchor is
an authority that signed itself. -/
theorem wnVerifyChain_echoed {certs : List Bytes} {anchor : Bytes} {spkiCap : Nat} {serverName pinnedKey : Option Bytes}
    {now : c.Time} {spki : Bytes} (hne : certs ≠ [])
    (h : wnVerifyChain cfg c certs anchor spkiCap serverName pinnedKey now = .ok spki) :
    wnVerifyChain cfg c (certs ++ [anchor]) anchor spkiCap serverName pinnedKey now = .ok spki ↔
      SelfSignedCa c anchor := by
  cases certs with
  | nil => exact absurd rfl hne
  | cons cert rest =>
    rw [wnVerifyChain, except_seq_ok] at h
    obtain ⟨hloop, hleaf⟩ := h
    rw [List.cons_append, wnVerifyChain, except_seq_ok, ← List.cons_append, checkIssuers_echoed hne]
    exact ⟨fun hecho => hecho.1.2, fun hself => ⟨⟨hloop, hself⟩, hleaf⟩⟩

/-- A root that signed itself, behind the leaf it signed. -/
theorem wnVerifyChain_echoed_trusting :
    wnVerifyChain .small .trusting ([[1]] ++ [[2]]) [2] 64 none none () = .ok [1] ↔ SelfSignedCa .trusting [2] :=
  wnVerifyChain_echoed (List.cons_ne_nil _ _) rfl

/-- Certificates of two bytes, a subject and its issuer, all of them
authorities: the issuer's name is the key that verifies the signature. -/
def CertProvider.named : CertProvider :=
  { CertProvider.trusting with
    parseCert := fun der => (CertProvider.trusting.parseCert der).map fun cert =>
      { cert with publicKey := der.take 1 }
    checkCertSignaturePubKey := fun der key _ => der.drop 1 == key }

/-- An intermediate 2 issued by 3 is pinned: the leaf alone is accepted, and
refused once the server sends the intermediate too. -/
theorem wnVerifyChain_echoed_pinned :
    (∃ anchor, CertProvider.named.parseCert [2, 3] = some anchor ∧ anchor.isCA = true) ∧
      wnVerifyChain .small .named [[1, 2]] [2, 3] 64 none none () = .ok [1] ∧
      wnVerifyChain .small .named ([[1, 2]] ++ [[2, 3]]) [2, 3] 64 none none () = .error .badCert :=
  ⟨⟨_, rfl, rfl⟩, rfl, rfl⟩

end WolfNano

/-
What the client's parsers of the server's messages accept, for every byte
string: the ServerHello parser its grammar, the EncryptedExtensions check and
the Certificate parser theirs but for what each overlooks.
-/
import WolfNano.HandshakeFacts
import WolfNano.EncExtFacts
import WolfNano.CertificateFacts

namespace WolfNano

open Wire

/-! ## ServerHello: the values -/

/-- The output holds the values of a ServerHello, and the initial ones for the
extensions it has not. -/
structure ServerHello.Holds (sh : ServerHello) (h : Rfc.SHello) : Prop where
  random : sh.random = some h.random.val
  sessionId : sh.sessionId = some h.sessionId ∧ sh.sessionIdLen = h.sessionId.length
  cipher : sh.cipher = h.cipher
  exts : ∀ e ∈ h.exts, sh.Has e
  noKeyShare : (∀ group share, .keyShare group share ∉ h.exts) →
    sh.keyShare = none ∧ sh.group = 0 ∧ sh.keyShareLen = 0
  noVersion : (∀ v, .version v ∉ h.exts) → sh.version = 0
  noPreShared : (∀ n, .preShared n ∉ h.exts) → sh.pskSelected = -1
  isHelloRetry : sh.isHelloRetry = false

theorem ServerHello.ofHello_holds {h : Rfc.SHello} (hnd : (h.exts.map Rfc.ShExt.type).Nodup) :
    (ServerHello.ofHello h).Holds h where
  random := foldl_keep (·.random) (fun e _ sh => by cases e <;> rfl) _
  sessionId := ⟨foldl_keep (·.sessionId) (fun e _ sh => by cases e <;> rfl) _,
    foldl_keep (·.sessionIdLen) (fun e _ sh => by cases e <;> rfl) _⟩
  cipher := foldl_keep (·.cipher) (fun e _ sh => by cases e <;> rfl) _
  exts e he := foldl_has hnd he _
  noKeyShare hno := by
    have hkeep : ∀ e ∈ h.exts, ∀ sh : ServerHello, (sh.add e).keyShare = sh.keyShare ∧ (sh.add e).group = sh.group ∧
        (sh.add e).keyShareLen = sh.keyShareLen := by
      intro e he sh
      cases e with
      | keyShare group share => exact absurd he (hno group share)
      | version => exact ⟨rfl, rfl, rfl⟩
      | preShared => exact ⟨rfl, rfl, rfl⟩
    exact ⟨foldl_keep (·.keyShare) (fun e he sh => (hkeep e he sh).1) _,
      foldl_keep (·.group) (fun e he sh => (hkeep e he sh).2.1) _,
      foldl_keep (·.keyShareLen) (fun e he sh => (hkeep e he sh).2.2) _⟩
  noVersion hno := foldl_keep (·.version) (fun e he sh => by
    cases e with
    | keyShare => rfl
    | version v => exact absurd he (hno v)
    | preShared => rfl) _
  noPreShared hno := foldl_keep (·.pskSelected) (fun e he sh => by
    cases e with
    | keyShare => rfl
    | version => rfl
    | preShared n => exact absurd he (hno n)) _
  isHelloRetry := foldl_add_isHelloRetry _ _

/-- There is one such output. -/
theorem ServerHello.Holds.unique {sh sh' : ServerHello} {h : Rfc.SHello} (hs : sh.Holds h) (hs' : sh'.Holds h) :
    sh = sh' := by
  have hks : sh.keyShare = sh'.keyShare ∧ sh.group = sh'.group ∧ sh.keyShareLen = sh'.keyShareLen := by
    by_cases hmem : ∃ group share, .keyShare group share ∈ h.exts
    · obtain ⟨group, share, hmem⟩ := hmem
      obtain ⟨h₁, h₂, h₃⟩ := hs.exts _ hmem
      obtain ⟨h₁', h₂', h₃'⟩ := hs'.exts _ hmem
      exact ⟨h₁.trans h₁'.symm, h₂.trans h₂'.symm, h₃.trans h₃'.symm⟩
    · have hno : ∀ group share, .keyShare group share ∉ h.exts := fun g s hm => hmem ⟨g, s, hm⟩
      obtain ⟨h₁, h₂, h₃⟩ := hs.noKeyShare hno
      obtain ⟨h₁', h₂', h₃'⟩ := hs'.noKeyShare hno
      exact ⟨h₁.trans h₁'.symm, h₂.trans h₂'.symm, h₃.trans h₃'.symm⟩
  have hver : sh.version = sh'.version := by
    by_cases hmem : ∃ v, .version v ∈ h.exts
    · obtain ⟨v, hmem⟩ := hmem
      exact (hs.exts _ hmem).trans (hs'.exts _ hmem).symm
    · have hno : ∀ v, .version v ∉ h.exts := fun v hm => hmem ⟨v, hm⟩
      exact (hs.noVersion hno).trans (hs'.noVersion hno).symm
  have hpsk : sh.pskSelected = sh'.pskSelected := by
    by_cases hmem : ∃ n, .preShared n ∈ h.exts
    · obtain ⟨n, hmem⟩ := hmem
      exact (hs.exts _ hmem).trans (hs'.exts _ hmem).symm
    · have hno : ∀ n, .preShared n ∉ h.exts := fun n hm => hmem ⟨n, hm⟩
      exact (hs.noPreShared hno).trans (hs'.noPreShared hno).symm
  have h₁ := hs.random.trans hs'.random.symm
  have h₂ := hs.sessionId.1.trans hs'.sessionId.1.symm
  have h₃ := hs.sessionId.2.trans hs'.sessionId.2.symm
  have h₄ := hs.cipher.trans hs'.cipher.symm
  have h₅ := hs.isHelloRetry.trans hs'.isHelloRetry.symm
  cases sh
  cases sh'
  simp only [ServerHello.mk.injEq]
  exact ⟨h₁, hks.1, h₂, hks.2.2, h₄, hks.2.1, hver, hpsk, h₅, h₃⟩

theorem ServerHello.holds_iff {sh : ServerHello} {h : Rfc.SHello} (hnd : (h.exts.map Rfc.ShExt.type).Nodup) :
    sh = .ofHello h ↔ sh.Holds h := by
  constructor
  · intro heq
    rw [heq]
    exact ofHello_holds hnd
  · intro hs
    exact hs.unique (ofHello_holds hnd)

/-- The extension of a type, from the output's values. -/
def ServerHello.ext (sh : ServerHello) (type : Nat) : Rfc.ShExt :=
  if type = wnExtKeyShare then .keyShare sh.group (sh.keyShare.getD [])
  else if type = wnExtSupportedVer then .version sh.version
  else .preShared sh.pskSelected.toNat

/-- The output's values encoded, the extensions in an order of their types. -/
def ServerHello.encode (sh : ServerHello) (order : List Nat) : Bytes :=
  Rfc.hsMsg wnHsServerHello ([3, 3] ++ sh.random.getD [] ++ vec 1 (sh.sessionId.getD []) ++ be 2 sh.cipher ++ [0] ++
    vec 2 ((order.map sh.ext).flatMap Rfc.ShExt.encode))

theorem ServerHello.Has.ext {sh : ServerHello} {e : Rfc.ShExt} (h : sh.Has e) : sh.ext e.type = e := by
  cases e with
  | keyShare group share =>
    obtain ⟨hks, hgroup, -⟩ := h
    simp [ServerHello.ext, Rfc.ShExt.type, wnExtKeyShare, hks, hgroup]
  | version v =>
    have hv : sh.version = v := h
    simp [ServerHello.ext, Rfc.ShExt.type, wnExtKeyShare, wnExtSupportedVer, hv]
  | preShared n =>
    have hn : sh.pskSelected = n := h
    simp [ServerHello.ext, Rfc.ShExt.type, wnExtKeyShare, wnExtSupportedVer, hn]

theorem ServerHello.Holds.encode {sh : ServerHello} {h : Rfc.SHello} (hs : sh.Holds h) :
    sh.encode (h.exts.map Rfc.ShExt.type) = h.encode := by
  have hexts : (h.exts.map Rfc.ShExt.type).map sh.ext = h.exts := by
    rw [List.map_map]
    calc h.exts.map (sh.ext ∘ Rfc.ShExt.type) = h.exts.map id :=
          List.map_congr_left fun e he => (hs.exts e he).ext
      _ = h.exts := List.map_id _
  rw [ServerHello.encode, hexts, hs.random, hs.sessionId.1, hs.cipher]
  rfl

/-! ## ServerHello: messages of any length -/

theorem shExtension_isHelloRetry (st : ShExts) (extEnd : Nat) :
    (shExtension st extEnd).out.isHelloRetry = st.out.isHelloRetry := by
  unfold shExtension
  dsimp only
  split
  · rfl
  · split
    · rfl
    · split
      · rfl
      · split <;> rfl

theorem shExtensions_isHelloRetry (extEnd n : Nat) (st : ShExts) :
    (shExtensions extEnd n st).out.isHelloRetry = st.out.isHelloRetry := by
  induction n generalizing st with
  | zero => rfl
  | succ n ih =>
    rw [shExtensions]
    split
    · rw [ih, shExtension_isHelloRetry]
    · rfl

/-- The extensions end where the message does. -/
theorem shFinish_length {msg : Bytes} {type comp : UInt8} {hsLen lver extLen : Nat} {random : Option Bytes}
    {out sh : ServerHello} {r : Reader} (h : shFinish msg type hsLen lver comp random extLen out r = .ok sh) :
    msg.length ≤ r.pos + extLen ∧ sh.isHelloRetry = out.isHelloRetry := by
  simp only [shFinish] at h
  by_cases hover : add32 r.pos extLen > msg.length
  · rw [if_pos hover] at h
    dsimp only at h
    rw [if_pos (.inl (shExtensions_fail _ rfl))] at h
    cases h
  · rw [if_neg hover] at h
    dsimp only at h
    split at h
    · cases h
    · next hc =>
      simp only [not_or, not_not] at hc
      cases h
      exact ⟨hc.2.2.2.2.2.2 ▸ add32_le _ _, shExtensions_isHelloRetry _ _ _⟩

theorem shRest_length {msg : Bytes} {type : UInt8} {hsLen lver : Nat} {random : Option Bytes} {sh : ServerHello}
    {r : Reader} (h : shRest msg type hsLen lver random r = .ok sh) :
    msg.length < r.pos + 2 ^ 17 ∧ sh.isHelloRetry = false := by
  unfold shRest at h
  dsimp only at h
  obtain ⟨hlen, hretry⟩ := shFinish_length h
  have h₁ := wnReadU8_pos_le r
  have h₂ := wnReadBytes_pos_le (wnReadU8 r).2 (wnReadU8 r).1.toNat
  have h₃ := wnReadU16_pos_le (wnReadBytes (wnReadU8 r).2 (wnReadU8 r).1.toNat).2
  have h₄ := wnReadU8_pos_le (wnReadU16 (wnReadBytes (wnReadU8 r).2 (wnReadU8 r).1.toNat).2).2
  have h₅ := wnReadU16_pos_le (wnReadU8 (wnReadU16 (wnReadBytes (wnReadU8 r).2 (wnReadU8 r).1.toNat).2).2).2
  have h₆ := wnReadU16_lt (wnReadU8 (wnReadU16 (wnReadBytes (wnReadU8 r).2 (wnReadU8 r).1.toNat).2).2).2
  have hsid : (wnReadU8 r).1.toNat < 2 ^ 8 := (wnReadU8 r).1.toNat_lt
  exact ⟨by omega, hretry⟩

/-- The reader past the random, of a message that has one. -/
theorem wnServerHelloParse_reads {msg : Bytes} (h : 38 ≤ msg.length) : wnServerHelloParse msg =
    if msg.getD 0 0 = wnHsServerHello ∧ (msg.drop 6).take 32 = wnHrrRandom then
      .ok { ServerHello.init with random := some ((msg.drop 6).take 32), isHelloRetry := true }
    else shRest msg (msg.getD 0 0) (word24Of (msg.getD 1 0) (msg.getD 2 0) (msg.getD 3 0))
      (word16Of (msg.getD 4 0) (msg.getD 5 0)) (some ((msg.drop 6).take 32)) ⟨msg, msg.length, 38, false⟩ := by
  have h₁ : wnReadU8 (wnReaderInit msg msg.length) = (msg.getD 0 0, ⟨msg, msg.length, 1, false⟩) := by
    rw [wnReadU8, if_pos ⟨rfl, by simp only [wnReaderInit]; omega⟩]
    rfl
  have h₂ : wnReadU24 ⟨msg, msg.length, 1, false⟩ =
      (word24Of (msg.getD 1 0) (msg.getD 2 0) (msg.getD 3 0), ⟨msg, msg.length, 4, false⟩) := by
    rw [wnReadU24, if_pos ⟨rfl, show 4 ≤ msg.length by omega⟩]
    rfl
  have h₃ : wnReadU16 ⟨msg, msg.length, 4, false⟩ =
      (word16Of (msg.getD 4 0) (msg.getD 5 0), ⟨msg, msg.length, 6, false⟩) := by
    rw [wnReadU16, if_pos ⟨rfl, show 6 ≤ msg.length by omega⟩]
    rfl
  have h₄ : wnReadBytes ⟨msg, msg.length, 6, false⟩ 32 =
      (some ((msg.drop 6).take 32), ⟨msg, msg.length, 38, false⟩) := by
    rw [wnReadBytes, if_pos ⟨rfl, show 38 ≤ msg.length by omega⟩]
    rfl
  rw [wnServerHelloParse_eq]
  simp only [h₁, h₂, h₃, h₄, true_and, Option.some.injEq]

/-- What the parser says of a HelloRetryRequest. -/
def ServerHello.retry : ServerHello :=
  { ServerHello.init with random := some wnHrrRandom, isHelloRetry := true }

/-- A HelloRetryRequest is told by its first 38 bytes. -/
theorem wnServerHelloParse_retry {msg : Bytes} {sh : ServerHello} :
    wnServerHelloParse msg = .ok sh ∧ sh.isHelloRetry = true ↔
      38 ≤ msg.length ∧ msg.getD 0 0 = wnHsServerHello ∧ (msg.drop 6).take 32 = wnHrrRandom ∧ sh = .retry := by
  by_cases hlen : 38 ≤ msg.length
  · rw [wnServerHelloParse_reads hlen]
    by_cases hrr : msg.getD 0 0 = wnHsServerHello ∧ (msg.drop 6).take 32 = wnHrrRandom
    · rw [if_pos hrr, hrr.2]
      constructor
      · intro h
        cases h.1
        exact ⟨hlen, hrr.1, rfl, rfl⟩
      · intro h
        rw [h.2.2.2]
        exact ⟨rfl, rfl⟩
    · rw [if_neg hrr]
      constructor
      · intro h
        rw [(shRest_length h.1).2] at h
        cases h.2
      · intro h
        exact absurd ⟨h.2.1, h.2.2.1⟩ hrr
  · constructor
    · intro h
      obtain ⟨type, hsLen, lver, random, q, -, -, hr, henc⟩ := wnServerHelloParse_short (by omega) h.1
      rw [henc] at hlen
      simp [hr] at hlen
      omega
    · intro h
      exact absurd h.1 hlen

theorem wnServerHelloParse_length {msg : Bytes} {sh : ServerHello} (h : wnServerHelloParse msg = .ok sh)
    (hretry : sh.isHelloRetry = false) : msg.length < 2 ^ 31 := by
  by_contra hlong
  rw [wnServerHelloParse_reads (by omega)] at h
  split at h
  · cases h
    cases hretry
  · have hlt := (shRest_length h).1
    dsimp only at hlt
    omega

/-- A ServerHello whose vectors fit their prefixes is not long. -/
theorem Rfc.SHello.Fits.encode_length {h : Rfc.SHello} (hfits : h.Fits) : h.encode.length < 2 ^ 17 := by
  have h₁ := hfits.sessionId
  have h₂ := hfits.extsLen
  simp only [Rfc.SHello.encode, Rfc.hsMsg, Rfc.SHello.body, List.length_append, List.length_cons, List.length_nil,
    vec_length, be_length, Block.length]
  omega

/-- **The parser accepts exactly the ServerHello grammar**, with the values
encoded, and a HelloRetryRequest by its random alone. -/
theorem wnServerHelloParse_exact (msg : Bytes) (sh : ServerHello) :
    (wnServerHelloParse msg = .ok sh ∧ sh.isHelloRetry = false ↔
      ∃ h : Rfc.SHello, h.Fits ∧ h.random.val ≠ wnHrrRandom ∧ (h.exts.map Rfc.ShExt.type).Nodup ∧ msg = h.encode ∧
        sh.Holds h ∧ msg = sh.encode (h.exts.map Rfc.ShExt.type)) ∧
    (wnServerHelloParse msg = .ok sh ∧ sh.isHelloRetry = true ↔
      38 ≤ msg.length ∧ msg.getD 0 0 = 2 ∧ (msg.drop 6).take 32 = wnHrrRandom ∧ sh = .retry) := by
  refine ⟨?_, wnServerHelloParse_retry⟩
  constructor
  · intro hparse
    have hlen := wnServerHelloParse_length hparse.1 hparse.2
    obtain ⟨h, hfits, hrr, hnd, henc, heq⟩ := (wnServerHelloParse_ok hlen).1 hparse
    have hholds := (ServerHello.holds_iff hnd).1 heq
    exact ⟨h, hfits, hrr, hnd, henc, hholds, henc.trans hholds.encode.symm⟩
  · intro hex
    obtain ⟨h, hfits, hrr, hnd, henc, hholds, -⟩ := hex
    have hlen : msg.length < 2 ^ 31 := by
      rw [henc]
      exact Nat.lt_trans hfits.encode_length (by decide)
    exact (wnServerHelloParse_ok hlen).2 ⟨h, hfits, hrr, hnd, henc, (ServerHello.holds_iff hnd).2 hholds⟩

/-! ## EncryptedExtensions -/

/-- The body is a list of extensions that may each be answered. -/
def EncExtList (sniOffered : Bool) (body : Bytes) (exts : List Rfc.Extension) : Prop :=
  body = Rfc.encryptedExtensions exts ∧ (exts.flatMap Rfc.Extension.encode).length < 2 ^ 16 ∧
    ∀ e ∈ exts, e.Fits ∧ EncExtAllowed sniOffered e

/-- The EncryptedExtensions bodies a client may take: no type comes twice. -/
def EncExtLegal (sniOffered : Bool) (body : Bytes) : Prop :=
  ∃ exts : List Rfc.Extension, EncExtList sniOffered body exts ∧ (exts.map Prod.fst).Nodup

theorem wnCheckEncExt_length {body : Bytes} {sniOffered : Bool} (h : wnCheckEncExt body sniOffered = .ok ()) :
    body.length < 2 ^ 31 := by
  unfold wnCheckEncExt at h
  dsimp only at h
  split at h
  · cases h
  · next hc =>
    simp only [not_or, not_not] at hc
    have hpos : (wnReadU16 (wnReaderInit body body.length)).2.pos ≤ 0 + 2 := wnReadU16_pos_le _
    have hext := wnReadU16_lt (wnReaderInit body body.length)
    have hend := add32_le (wnReadU16 (wnReaderInit body body.length)).2.pos
      (wnReadU16 (wnReaderInit body body.length)).1
    rw [hc.2] at hend
    omega

/-- The check, for a body of any length. -/
theorem wnCheckEncExt_list {body : Bytes} {sniOffered : Bool} :
    wnCheckEncExt body sniOffered = .ok () ↔ ∃ exts, EncExtList sniOffered body exts := by
  constructor
  · intro h
    exact (wnCheckEncExt_ok (wnCheckEncExt_length h)).1 h
  · intro h
    obtain ⟨exts, hbody, hlen, hexts⟩ := h
    have hlt : body.length < 2 ^ 31 := by
      rw [hbody, Rfc.encryptedExtensions, vec_length]
      omega
    exact (wnCheckEncExt_ok hlt).2 ⟨exts, hbody, hlen, hexts⟩

theorem Rfc.Extension.encodeAll_inj : ∀ {exts exts' : List Rfc.Extension}, (∀ e ∈ exts, e.Fits) →
    (∀ e ∈ exts', e.Fits) → exts.flatMap encode = exts'.flatMap encode → exts = exts'
  | [], [], _, _, _ => rfl
  | [], e :: exts, _, _, h => by simp [encode, vec, be] at h
  | e :: exts, [], _, _, h => by simp [encode, vec, be] at h
  | e :: exts, e' :: exts', hf, hf', h => by
    obtain ⟨he, hf⟩ := List.forall_mem_cons.1 hf
    obtain ⟨he', hf'⟩ := List.forall_mem_cons.1 hf'
    simp only [List.flatMap_cons, encode, List.append_assoc] at h
    obtain ⟨htype, h⟩ := List.append_inj h (by simp)
    obtain ⟨hdata, h⟩ := vec_append_inj he.2 he'.2 h
    rw [Prod.ext (be_inj he.1 he'.1 htype) hdata, encodeAll_inj hf hf' h]

theorem EncExtList.unique {sniOffered : Bool} {body : Bytes} {exts exts' : List Rfc.Extension}
    (h : EncExtList sniOffered body exts) (h' : EncExtList sniOffered body exts') : exts = exts' := by
  obtain ⟨hbody, hlen, hexts⟩ := h
  obtain ⟨hbody', hlen', hexts'⟩ := h'
  rw [hbody, Rfc.encryptedExtensions, Rfc.encryptedExtensions] at hbody'
  have hall := (vec_append_inj (r := []) (q := []) hlen hlen' (by simpa using hbody')).1
  exact Rfc.Extension.encodeAll_inj (fun e he => (hexts e he).1) (fun e he => (hexts' e he).1) hall

/-- **The check is right but for repeated types**: it takes exactly the legal
bodies, as long as the body is not a list of extensions that may each be
answered and of which two have one type. -/
theorem wnCheckEncExt_exact (body : Bytes) (sniOffered : Bool) :
    (wnCheckEncExt body sniOffered = .ok () ↔ EncExtLegal sniOffered body) ↔
      ¬ ∃ exts, EncExtList sniOffered body exts ∧ ¬ (exts.map Prod.fst).Nodup := by
  rw [wnCheckEncExt_list]
  constructor
  · intro h hrepeat
    obtain ⟨exts, hlist, hdup⟩ := hrepeat
    obtain ⟨exts', hlist', hnd⟩ := h.1 ⟨exts, hlist⟩
    rw [hlist'.unique hlist] at hnd
    exact hdup hnd
  · intro hno
    constructor
    · intro h
      obtain ⟨exts, hlist⟩ := h
      refine ⟨exts, hlist, ?_⟩
      by_contra hdup
      exact hno ⟨exts, hlist, hdup⟩
    · intro h
      obtain ⟨exts, hlist, -⟩ := h
      exact ⟨exts, hlist⟩

/-- Two empty supported_groups extensions are taken. -/
theorem wnCheckEncExt_repeated :
    ¬ ∀ body sniOffered, wnCheckEncExt body sniOffered = .ok () ↔ EncExtLegal sniOffered body := by
  intro h
  have hlist : EncExtList false [0, 8, 0, 10, 0, 0, 0, 10, 0, 0] [(10, []), (10, [])] :=
    ⟨by decide, by decide, by simp [Rfc.Extension.Fits, EncExtAllowed, wnExtSupportedGrp]⟩
  obtain ⟨exts, hlist', hnd⟩ := (h _ _).1 (wnCheckEncExt_list.2 ⟨_, hlist⟩)
  rw [hlist'.unique hlist] at hnd
  simp at hnd

/-! ## Certificate -/

/-- The chain the driver goes on to verify with is the whole of a Certificate's
list, and the list the whole of the body. -/
def CertificateExact (body : Bytes) : Prop :=
  ∀ certs, certificateCerts body = .ok certs → ∃ entries : List Rfc.CertEntry, body = Rfc.certificate entries [] ∧
    (∀ e ∈ entries, e.Fits) ∧ certs = entries.map (·.cert)

theorem Rfc.CertEntry.encodeAll_inj : ∀ {entries entries' : List Rfc.CertEntry} {rest rest' : Bytes},
    entries.length = entries'.length → (∀ e ∈ entries, e.Fits) → (∀ e ∈ entries', e.Fits) →
    entries.flatMap encode ++ rest = entries'.flatMap encode ++ rest' → entries = entries' ∧ rest = rest'
  | [], [], _, _, _, _, _, h => ⟨rfl, h⟩
  | e :: entries, e' :: entries', rest, rest', hl, hf, hf', h => by
    obtain ⟨he, hf⟩ := List.forall_mem_cons.1 hf
    obtain ⟨he', hf'⟩ := List.forall_mem_cons.1 hf'
    simp only [List.flatMap_cons, encode, List.append_assoc] at h
    obtain ⟨hcert, h⟩ := vec_append_inj he.cert he'.cert h
    obtain ⟨hexts, h⟩ := vec_append_inj he.exts he'.exts h
    obtain ⟨htail, hrest⟩ := encodeAll_inj (Nat.succ.inj hl) hf hf' h
    have heq : e = e' := by
      cases e
      cases e'
      exact congrArg₂ Rfc.CertEntry.mk hcert hexts
    exact ⟨by rw [heq, htail], hrest⟩

/-- A body starts with so many entries in one way. -/
theorem Rfc.certificate_inj {entries entries' : List Rfc.CertEntry} {rest rest' : Bytes}
    (hb : (Rfc.certificate entries rest).length < 2 ^ 24) (hl : entries.length = entries'.length)
    (hf : ∀ e ∈ entries, e.Fits) (hf' : ∀ e ∈ entries', e.Fits)
    (h : Rfc.certificate entries rest = Rfc.certificate entries' rest') : entries = entries' ∧ rest = rest' := by
  have hlen : ∀ entries rest, (Rfc.certificate entries rest).length =
      4 + (entries.flatMap Rfc.CertEntry.encode ++ rest).length := by
    intro entries rest
    rw [Rfc.certificate, List.length_append, vec_length, vec_length, List.length_nil]
    omega
  have hb' := hb
  rw [h, hlen] at hb'
  rw [hlen] at hb
  rw [Rfc.certificate, Rfc.certificate, List.append_cancel_left_eq] at h
  have hlist := (vec_append_inj (n := 3) (r := []) (q := []) (by omega) (by omega) (congrArg (· ++ []) h)).1
  exact Rfc.CertEntry.encodeAll_inj hl hf hf' hlist

/-- **The Certificate parser is exact but for long chains**: it takes the whole
of the list, as long as nothing follows four entries in it. A message's body is
shorter than 2^24. -/
theorem certificateCerts_exact {body : Bytes} (hb : body.length < 2 ^ 24) :
    CertificateExact body ↔
      ¬ ∃ (entries : List Rfc.CertEntry) (rest : Bytes), body = Rfc.certificate entries rest ∧
        (∀ e ∈ entries, e.Fits) ∧ entries.length = wnMaxChain ∧ rest ≠ [] := by
  constructor
  · intro hexact hlong
    obtain ⟨entries, rest, hbody, hfits, hlen, hrest⟩ := hlong
    have hcerts := (certificateCerts_ok hb).2 ⟨entries, rest, hbody, hfits, rfl, hlen.le, fun h => by omega⟩
    obtain ⟨entries', hbody', hfits', hcerts'⟩ := hexact _ hcerts
    have hlen' : entries.length = entries'.length := by simpa using congrArg List.length hcerts'
    exact hrest (Rfc.certificate_inj (hbody ▸ hb) hlen' hfits hfits' (hbody.symm.trans hbody')).2
  · intro hno certs h
    obtain ⟨entries, rest, hbody, hfits, hcerts, hlen, hrest⟩ := (certificateCerts_ok hb).1 h
    have hnil : rest = [] := by
      by_cases hlt : entries.length < wnMaxChain
      · exact hrest hlt
      · by_contra hne
        exact hno ⟨entries, rest, hbody, hfits, by omega, hne⟩
    exact ⟨entries, hnil ▸ hbody, hfits, hcerts⟩

/-- A chain of one certificate is taken whole. -/
theorem certificateCerts_exact_one : CertificateExact (Rfc.certificate [⟨[48], []⟩] []) := by
  refine (certificateCerts_exact (by decide)).2 fun hlong => ?_
  obtain ⟨entries, rest, hbody, hfits, hlen, -⟩ := hlong
  have hsize := congrArg List.length hbody
  obtain ⟨e₁, e₂, e₃, e₄, rfl⟩ : ∃ e₁ e₂ e₃ e₄, entries = [e₁, e₂, e₃, e₄] := by
    match entries, hlen with
    | [e₁, e₂, e₃, e₄], _ => exact ⟨e₁, e₂, e₃, e₄, rfl⟩
  simp [Rfc.certificate, Rfc.CertEntry.encode] at hsize
  omega

/-- Four entries, and a byte that is none: the four are taken. -/
theorem certificateCerts_long : ¬ ∀ body : Bytes, body.length < 2 ^ 24 → CertificateExact body := by
  intro h
  have hcerts : certificateCerts (Rfc.certificate (List.replicate 4 ⟨[48], []⟩) [255]) =
      .ok (List.replicate 4 [48]) := by decide +kernel
  obtain ⟨entries, hbody, hfits, hcerts'⟩ := h _ (by decide) _ hcerts
  have hlen : (List.replicate 4 (Rfc.CertEntry.mk [48] [])).length = entries.length := by
    simpa using congrArg List.length hcerts'
  have hrest := (Rfc.certificate_inj (by decide) hlen
    (fun e he => (List.eq_of_mem_replicate he) ▸ ⟨by decide, by decide⟩) hfits hbody).2
  cases hrest

end WolfNano

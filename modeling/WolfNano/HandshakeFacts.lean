/-
What the two drivers share: plaintext records, skipping ChangeCipherSpecs, the
ServerHello, and the client's Finished.

`recvServerHello_ok` reads off what the stream held when a ServerHello was
accepted: valid ChangeCipherSpecs, then one handshake record that is one
ServerHello, echoing the session id and making the one selection the offer
allows (`Rfc.SHello.Selects`). `recvServerHello_wire` is the step as a function
of the stream. The `_of` lemmas say when a part of the program succeeds.
-/
import WolfNano.ConnectPsk
import WolfNano.ServerHelloFacts
import WolfNano.ProtectFacts
import WolfNano.KeyScheduleFacts
import Mathlib.Data.List.Nodup

namespace WolfNano

open Prog Wire

/-! ## The selection -/

/-- The extensions of the one ServerHello a client that offered `group` can
accept, the PSK's index among them if it offered one. -/
def Rfc.selection (group : Nat) (share : Bytes) (psk : Option Nat) : List Rfc.ShExt :=
  .keyShare group share :: .version 0x0304 :: (psk.map Rfc.ShExt.preShared).toList

/-- The code's `psk_selected` for it. -/
def selIndex : Option Nat → Int
  | some n => n
  | none => -1

/-- A ServerHello that echoes `sid` and selects AES-128-GCM with SHA-256, TLS
1.3, a share of the group, and the PSK, in some order. -/
structure Rfc.SHello.Selects (cfg : Config) (h : Rfc.SHello) (sid : Block 32) (share : Bytes)
    (psk : Option Nat) : Prop where
  random : h.random.val ≠ wnHrrRandom
  sessionId : h.sessionId = sid.val
  cipher : h.cipher = 0x1301
  shareLen : share.length = cfg.group.srvShareSz
  exts : h.exts.Perm (Rfc.selection cfg.group.code share psk)

/-- The output has the values of an extension. -/
def ServerHello.Has (sh : ServerHello) : Rfc.ShExt → Prop
  | .keyShare group share => sh.keyShare = some share ∧ sh.group = group ∧ sh.keyShareLen = share.length
  | .version v => sh.version = v
  | .preShared n => sh.pskSelected = n

theorem ServerHello.has_add (sh : ServerHello) (e : Rfc.ShExt) : (sh.add e).Has e := by
  cases e <;> simp [add, Has]

theorem ServerHello.Has.add {sh : ServerHello} {e e' : Rfc.ShExt} (h : sh.Has e) (hne : e'.type ≠ e.type) :
    (sh.add e').Has e := by
  cases e <;> cases e' <;> first | exact h | exact absurd rfl hne

theorem ServerHello.Has.foldl {exts : List Rfc.ShExt} {e : Rfc.ShExt} :
    ∀ {sh : ServerHello}, sh.Has e → (∀ e' ∈ exts, e'.type ≠ e.type) → (exts.foldl ServerHello.add sh).Has e := by
  induction exts with
  | nil => exact fun h _ => h
  | cons e' exts ih =>
    intro sh h hne
    exact ih (h.add (hne e' List.mem_cons_self)) fun e'' he => hne e'' (List.mem_cons_of_mem _ he)

theorem ServerHello.foldl_has {exts : List Rfc.ShExt} {e : Rfc.ShExt}
    (hnd : (exts.map Rfc.ShExt.type).Nodup) (he : e ∈ exts) (sh : ServerHello) :
    (exts.foldl ServerHello.add sh).Has e := by
  obtain ⟨l, r, rfl⟩ := List.append_of_mem he
  rw [List.foldl_append, List.foldl_cons]
  refine (has_add _ e).foldl fun e' he' htype => ?_
  simp only [List.map_append, List.map_cons, List.nodup_append, List.nodup_cons, List.mem_map] at hnd
  exact hnd.2.1.1 ⟨e', he', htype⟩

/-- What no extension sets stays. -/
theorem ServerHello.foldl_keep {α : Type} (f : ServerHello → α) {exts : List Rfc.ShExt}
    (h : ∀ e ∈ exts, ∀ sh : ServerHello, f (sh.add e) = f sh) :
    ∀ sh, f (exts.foldl ServerHello.add sh) = f sh := by
  induction exts with
  | nil => exact fun _ => rfl
  | cons e exts ih =>
    intro sh
    rw [List.foldl_cons, ih (fun e' he => h e' (List.mem_cons_of_mem _ he)), h e List.mem_cons_self]

/-- Lists without repeated keys that have the same keys and one's elements are
permutations of one another. -/
theorem perm_of_keys {α β : Type} {l l' : List α} (f : α → β) (hl : (l.map f).Nodup) (hl' : (l'.map f).Nodup)
    (hsub : ∀ a ∈ l', a ∈ l) (hkeys : ∀ a ∈ l, f a ∈ l'.map f) : l.Perm l' := by
  refine (List.perm_ext_iff_of_nodup hl.of_map hl'.of_map).2 fun a => ⟨fun ha => ?_, hsub a⟩
  obtain ⟨b, hb, hba⟩ := List.mem_map.1 (hkeys a ha)
  exact List.inj_on_of_nodup_map hl (hsub b hb) ha hba ▸ hb

theorem Rfc.selection_types (group : Nat) (share : Bytes) (psk : Option Nat) :
    ((Rfc.selection group share psk).map Rfc.ShExt.type).Nodup := by
  cases psk <;> simp [selection, Rfc.ShExt.type]

variable {cfg : Config}

/-- A field that the extensions changed, one of them sets. -/
theorem ServerHello.exists_sets {α : Type} (f : ServerHello → α) {exts : List Rfc.ShExt} {sh : ServerHello}
    (h : f (exts.foldl ServerHello.add sh) ≠ f sh) : ∃ e ∈ exts, ∃ sh' : ServerHello, f (sh'.add e) ≠ f sh' := by
  by_contra hno
  refine h (ServerHello.foldl_keep f (fun e he sh' => ?_) sh)
  by_contra hset
  exact hno ⟨e, he, sh', hset⟩

/-! Each of the three extensions was in the message, or its field would be unset. -/

section Fields

variable {h : Rfc.SHello} (hnd : (h.exts.map Rfc.ShExt.type).Nodup)
include hnd

theorem ServerHello.ofHello_has {e : Rfc.ShExt} (he : e ∈ h.exts) : (ServerHello.ofHello h).Has e :=
  ServerHello.foldl_has hnd he _

theorem ServerHello.keyShare_mem (hks : (ServerHello.ofHello h).keyShare ≠ none) :
    ∃ share, .keyShare (ServerHello.ofHello h).group share ∈ h.exts := by
  obtain ⟨e, he, sh, hset⟩ := ServerHello.exists_sets (·.keyShare) hks
  cases e with
  | keyShare group share =>
    have hgroup : (ServerHello.ofHello h).group = group := (ServerHello.ofHello_has hnd he).2.1
    exact ⟨share, by rw [hgroup]; exact he⟩
  | version => exact absurd rfl hset
  | preShared => exact absurd rfl hset

theorem ServerHello.version_mem (hver : (ServerHello.ofHello h).version ≠ 0) :
    .version (ServerHello.ofHello h).version ∈ h.exts := by
  obtain ⟨e, he, sh, hset⟩ := ServerHello.exists_sets (·.version) hver
  cases e with
  | version v =>
    have hv : (ServerHello.ofHello h).version = v := ServerHello.ofHello_has hnd he
    rw [hv]
    exact he
  | keyShare => exact absurd rfl hset
  | preShared => exact absurd rfl hset

theorem ServerHello.preShared_mem {n : Nat} (hsel : (ServerHello.ofHello h).pskSelected = n) :
    .preShared n ∈ h.exts := by
  have hne : (ServerHello.ofHello h).pskSelected ≠ -1 := by omega
  obtain ⟨e, he, sh, hset⟩ := ServerHello.exists_sets (·.pskSelected) hne
  cases e with
  | preShared m =>
    have hm : (ServerHello.ofHello h).pskSelected = m := ServerHello.ofHello_has hnd he
    rw [hsel, Int.natCast_inj] at hm
    rw [hm]
    exact he
  | keyShare => exact absurd rfl hset
  | version => exact absurd rfl hset

/-- A message with the fields that the drivers look for has their extensions and no other. -/
theorem ServerHello.exts_perm (hks : (ServerHello.ofHello h).keyShare ≠ none)
    (hver : (ServerHello.ofHello h).version = 0x0304) {psk : Option Nat}
    (hsel : (ServerHello.ofHello h).pskSelected = selIndex psk) :
    ∃ share, (ServerHello.ofHello h).Has (.keyShare (ServerHello.ofHello h).group share) ∧
      h.exts.Perm (Rfc.selection (ServerHello.ofHello h).group share psk) := by
  obtain ⟨share, hshare⟩ := ServerHello.keyShare_mem hnd hks
  have hversion := ServerHello.version_mem hnd (by rw [hver]; decide)
  rw [hver] at hversion
  have hpsk : ∀ n, psk = some n → .preShared n ∈ h.exts := fun n hn =>
    ServerHello.preShared_mem hnd (by rw [hsel, hn, selIndex])
  refine ⟨share, ServerHello.ofHello_has hnd hshare, perm_of_keys Rfc.ShExt.type hnd (Rfc.selection_types _ _ _) ?_ ?_⟩
  · intro e he
    cases psk <;> simp [Rfc.selection] at he
    · rcases he with rfl | rfl
      · exact hshare
      · exact hversion
    · rcases he with rfl | rfl | rfl
      · exact hshare
      · exact hversion
      · exact hpsk _ rfl
  · intro e he
    cases e with
    | keyShare => simp [Rfc.selection, Rfc.ShExt.type]
    | version => simp [Rfc.selection, Rfc.ShExt.type]
    | preShared m =>
      have hm : (ServerHello.ofHello h).pskSelected = m := ServerHello.ofHello_has hnd he
      cases psk with
      | none =>
        rw [hsel, selIndex] at hm
        omega
      | some n => simp [Rfc.selection, Rfc.ShExt.type]

/-- Conversely the fields are those of the extensions. -/
theorem ServerHello.selection_has {group : Nat} {share : Bytes} {psk : Option Nat}
    (hexts : h.exts.Perm (Rfc.selection group share psk)) :
    (ServerHello.ofHello h).Has (.keyShare group share) ∧ (ServerHello.ofHello h).version = 0x0304 ∧
      (ServerHello.ofHello h).pskSelected = selIndex psk := by
  have hmem : ∀ e ∈ Rfc.selection group share psk, (ServerHello.ofHello h).Has e :=
    fun e he => ServerHello.ofHello_has hnd (hexts.mem_iff.2 he)
  refine ⟨hmem _ (by simp [Rfc.selection]), hmem (.version 0x0304) (by simp [Rfc.selection]), ?_⟩
  cases psk with
  | some n => exact hmem (.preShared n) (by simp [Rfc.selection])
  | none =>
    refine ServerHello.foldl_keep (·.pskSelected) (fun e he sh => ?_) _
    have he := hexts.mem_iff.1 he
    simp only [Rfc.selection, Option.map_none, Option.toList_none, List.mem_cons, List.not_mem_nil, or_false] at he
    rcases he with rfl | rfl <;> rfl

end Fields

/-- **The selections the drivers accept** are those of `Selects`. -/
theorem ServerHello.acceptable_iff {h : Rfc.SHello} (hnd : (h.exts.map Rfc.ShExt.type).Nodup)
    (hrr : h.random.val ≠ wnHrrRandom) (sid : Block 32) (psk : Option Nat) :
    ¬ (ServerHello.ofHello h).Unacceptable cfg sid (selIndex psk) ↔
      ∃ share, (ServerHello.ofHello h).keyShare = some share ∧ h.Selects cfg sid share psk := by
  have hsid : (ServerHello.ofHello h).sessionId = some h.sessionId :=
    ServerHello.foldl_keep (·.sessionId) (fun e _ sh => by cases e <;> rfl) _
  have hsidLen : (ServerHello.ofHello h).sessionIdLen = h.sessionId.length :=
    ServerHello.foldl_keep (·.sessionIdLen) (fun e _ sh => by cases e <;> rfl) _
  have hcipher : (ServerHello.ofHello h).cipher = h.cipher :=
    ServerHello.foldl_keep (·.cipher) (fun e _ sh => by cases e <;> rfl) _
  simp only [ServerHello.Unacceptable, hsid, hsidLen, hcipher, Option.some.injEq, not_or, not_not]
  constructor
  · intro hall
    obtain ⟨hks, hlen, hc, hver, hgroup, hsel, -, hs⟩ := hall
    obtain ⟨share, hhas, hexts⟩ := ServerHello.exts_perm hnd hks hver hsel
    rw [hgroup] at hexts
    exact ⟨share, hhas.1, hrr, hs, hc, hhas.2.2.symm.trans hlen, hexts⟩
  · intro hall
    obtain ⟨share, hks, hsel⟩ := hall
    obtain ⟨⟨-, hgroup, hlen⟩, hver, hindex⟩ := ServerHello.selection_has hnd hsel.exts
    refine ⟨by rw [hks]; simp, hlen.trans hsel.shareLen, hsel.cipher, hver, hgroup, hindex, ?_, hsel.sessionId⟩
    rw [hsel.sessionId]
    exact sid.length

/-! ## Plaintext records -/

/-- The two `ioSend` calls of a plaintext record that is sent whole. -/
def plainSends (type : UInt8) (body : Bytes) : List Event :=
  [.send ([type, 3, 3] ++ be 2 body.length) true, .send body true]

theorem ioSend_true {buf : Bytes} {w w' : World} (h : ioSend buf w = .ok true w') :
    w' = { w with sendRes := w.sendRes.tail, trace := w.trace ++ [.send buf true] } := by
  simp only [ioSend, EStateM.Result.ok.injEq] at h
  obtain ⟨hc, rfl⟩ := h
  rw [hc]

theorem sendPlainRecord_ok {type : UInt8} {body : Bytes} {w w' : World} {u : Unit}
    (h : sendPlainRecord type body w = .ok u w') :
    w' = { w with sendRes := w.sendRes.drop 2, trace := w.trace ++ plainSends type body } := by
  unfold sendPlainRecord at h
  obtain ⟨sent, w₁, h₁, h⟩ := bind_ok.1 h
  obtain ⟨_, w₂, hf, h⟩ := bind_ok.1 h
  obtain ⟨hs, rfl⟩ := failIf_ok.1 hf
  obtain ⟨sent', w₃, h₃, h⟩ := bind_ok.1 h
  obtain ⟨hs', rfl⟩ := failIf_ok.1 h
  simp only [Bool.not_eq_false] at hs hs'
  subst hs hs'
  rw [ioSend_true h₃, ioSend_true h₁]
  rcases w.sendRes with _ | ⟨_, _ | ⟨_, _⟩⟩ <;> simp [plainSends, be_two]

/-- Every `ioSend` to come takes the whole buffer. -/
def World.Sending (w : World) : Prop := ∀ b ∈ w.sendRes, b = true

theorem ioSend_of {buf : Bytes} {w : World} (h : w.Sending) : ioSend buf w =
    .ok true { w with sendRes := w.sendRes.tail, trace := w.trace ++ [.send buf true] } := by
  have hhead : w.sendRes.headD true = true := by
    unfold World.Sending at h
    cases hs : w.sendRes with
    | nil => rfl
    | cons b l => exact h b (by rw [hs]; exact List.mem_cons_self)
  rw [ioSend, hhead]

theorem World.Sending.tail {w : World} (h : w.Sending) {w' : World} (hw : w'.sendRes = w.sendRes.tail) : w'.Sending :=
  fun b hb => h b (List.mem_of_mem_tail (hw ▸ hb))

theorem World.Sending.drop {w : World} (h : w.Sending) {n : Nat} {w' : World} (hw : w'.sendRes = w.sendRes.drop n) :
    w'.Sending :=
  fun b hb => h b (List.mem_of_mem_drop (hw ▸ hb))

theorem sendPlainRecord_of {type : UInt8} {body : Bytes} {w : World} (h : w.Sending) :
    sendPlainRecord type body w =
      .ok () { w with sendRes := w.sendRes.drop 2, trace := w.trace ++ plainSends type body } := by
  have h' : ∀ tr, World.Sending { w with sendRes := w.sendRes.tail, trace := tr } := fun _ => h.tail rfl
  rw [sendPlainRecord, bind_of_ok (ioSend_of h), failIf_neg (by simp), pure_bind, bind_of_ok (ioSend_of (h' _)),
    failIf_neg (by simp)]
  rcases w.sendRes with _ | ⟨_, _ | ⟨_, _⟩⟩ <;> simp [plainSends, be_two]

/-- The `ioSend` calls that send a ClientHello and a ChangeCipherSpec. -/
def helloSends (ch : Bytes) : List Event :=
  plainSends wnRecHandshake ch ++ plainSends wnRecChangeCipher [1]

/-! ## Skipping ChangeCipherSpec -/

/-- What remains of a stream after ChangeCipherSpecs and records, and nothing
else changed. -/
def World.Read (w : World) (bytes : Bytes) (w' : World) : Prop :=
  w.inbox.flatten = bytes ++ w'.inbox.flatten ∧ w' = { w with inbox := w'.inbox }

theorem World.Read.refl (w : World) : w.Read [] w := ⟨rfl, rfl⟩

theorem World.Read.trans {w₁ w₂ w₃ : World} {a b : Bytes} (h : w₁.Read a w₂) (h' : w₂.Read b w₃) :
    w₁.Read (a ++ b) w₃ :=
  ⟨by rw [h.1, h'.1, List.append_assoc], by rw [h'.2, h.2]⟩

/-- A record was read, and accepted into `cap` bytes. -/
theorem wnRecvRecord_read {cap : Nat} {w w' : World} {type : UInt8} {record : Bytes}
    (h : wnRecvRecord cap w = .ok (type, record) w') :
    ∃ v₁ v₂ body, record = wireRecord type v₁ v₂ body ∧ recordCheck cap type body = .ok () ∧
      w.Read record w' := by
  obtain ⟨v₁, v₂, body, hrec, hc, hflat, hframe⟩ := wnRecvRecord_ok h
  exact ⟨v₁, v₂, body, hrec, hc, hflat, hframe⟩

/-- A ChangeCipherSpec that is read is the valid one. -/
theorem wnRecvRecord_ccs {cap : Nat} {w w' : World} {record : Bytes}
    (h : wnRecvRecord cap w = .ok (wnRecChangeCipher, record) w') :
    ∃ v, record = ccsRecord v ∧ w.Read record w' := by
  obtain ⟨v₁, v₂, body, hrec, hc, hread⟩ := wnRecvRecord_read h
  obtain rfl := (recordCheck_ok.1 hc).2.2.2 rfl
  exact ⟨(v₁, v₂), hrec, hread⟩

theorem recvSkippingCcs_ok {cap : Nat} {w w' : World} {type : UInt8} {record : Bytes}
    (h : recvSkippingCcs cap w = .ok (type, record) w') :
    ∃ (ccs : List (UInt8 × UInt8)) (v₁ v₂ : UInt8) (body : Bytes),
      record = wireRecord type v₁ v₂ body ∧ recordCheck cap type body = .ok () ∧
      type ≠ wnRecChangeCipher ∧ w.Read (ccs.flatMap ccsRecord ++ record) w' := by
  rw [recvSkippingCcs, bind_of_ok (get_apply w)] at h
  obtain ⟨_, w₁, ⟨ccs, hccs⟩, h⟩ := repeatM_ok
    (I := fun _ w₁ => ∃ ccs : List (UInt8 × UInt8), w.Read (ccs.flatMap ccsRecord) w₁)
    (fun {_ s _ t} hI hstep => by
      obtain ⟨⟨rtype, record⟩, t', hr, hstep⟩ := bind_ok.1 hstep
      dsimp only at hstep
      split at hstep
      · next hccs =>
        cases hstep
        subst hccs
        obtain ⟨ccs, hread⟩ := hI
        obtain ⟨v, rfl, hread'⟩ := wnRecvRecord_ccs hr
        exact ⟨ccs ++ [v], by simpa using hread.trans hread'⟩
      · cases hstep) ⟨[], World.Read.refl w⟩ h
  obtain ⟨⟨rtype, record⟩, t', hr, h⟩ := bind_ok.1 h
  dsimp only at h
  split at h
  · cases h
  · next hne =>
    cases h
    obtain ⟨v₁, v₂, body, hrec, hc, hread⟩ := wnRecvRecord_read hr
    exact ⟨ccs, v₁, v₂, body, hrec, hc, hne, hccs.trans hread⟩

/-- The whole of a loop over a stream that starts with ChangeCipherSpecs, if
the loop skips one that it reads. -/
theorem repeatM_skip {α β : Type} {cap : Nat} (hcap : 6 ≤ cap) (out : Err) {body : β → Io (β ⊕ α)} {b : β}
    (hskip : ∀ {w w' : World} {record : Bytes}, wnRecvRecord cap w = .ok (wnRecChangeCipher, record) w' →
      body b w = .ok (.inl b) w') :
    ∀ (ccs : List (UInt8 × UInt8)) (n : Nat) {w : World} {rest : Bytes}, w.Flowing →
      w.inbox.flatten = ccs.flatMap ccsRecord ++ rest →
      ∃ inbox, [] ∉ inbox ∧ inbox.flatten = rest ∧
        repeatM out body (n + ccs.length) b w = repeatM out body n b { w with inbox }
  | [], n, w, rest, hw, hflat => ⟨w.inbox, hw, by simpa using hflat, rfl⟩
  | v :: ccs, n, w, rest, hw, hflat => by
    have hflat' : w.inbox.flatten = wireRecord wnRecChangeCipher v.1 v.2 [1] ++ (ccs.flatMap ccsRecord ++ rest) := by
      rw [hflat]; simp [ccsRecord]
    obtain ⟨inbox, hin, hrest, hr⟩ := wnRecvRecord_wire cap hw hflat' (by simp)
    rw [recordCheck_ccs hcap] at hr hrest
    obtain ⟨inbox', hin', hrest', hloop⟩ := repeatM_skip hcap out hskip ccs n
      (w := { w with inbox }) hin (hrest rfl)
    refine ⟨inbox', hin', hrest', ?_⟩
    rw [List.length_cons, ← Nat.add_assoc, repeatM_continue (hskip hr), hloop]

theorem ccsRecords_length (ccs : List (UInt8 × UInt8)) : (ccs.flatMap ccsRecord).length = 6 * ccs.length := by
  induction ccs with
  | nil => rfl
  | cons v ccs ih => simp [ccsRecord] at ih ⊢; omega

/-- The first record that is not a ChangeCipherSpec is the one that is read. -/
theorem recvSkippingCcs_wire {cap : Nat} (hcap : 6 ≤ cap) {w : World} {ccs : List (UInt8 × UInt8)}
    {type v₁ v₂ : UInt8} {body rest : Bytes} (hw : w.Flowing) (ht : type ≠ wnRecChangeCipher)
    (hflat : w.inbox.flatten = ccs.flatMap ccsRecord ++ (wireRecord type v₁ v₂ body ++ rest))
    (hlen : body.length < 2 ^ 16) :
    ∃ inbox, [] ∉ inbox ∧ (recordCheck cap type body = .ok () → inbox.flatten = rest) ∧
      recvSkippingCcs cap w = match recordCheck cap type body with
        | .ok () => .ok (type, wireRecord type v₁ v₂ body) { w with inbox }
        | .error e => .error e { w with inbox } := by
  have hskip : ∀ {w w' : World} {record : Bytes}, wnRecvRecord cap w = .ok (wnRecChangeCipher, record) w' →
      skipCcsStep cap () w = .ok (.inl ()) w' := fun h => by rw [skipCcsStep, bind_of_ok h]; rfl
  have hfuel : w.pending + 1 = (w.pending - ccs.length + 1) + ccs.length := by
    rw [World.pending, hflat, List.length_append, ccsRecords_length]
    omega
  rw [recvSkippingCcs, bind_of_ok (get_apply w), hfuel]
  obtain ⟨inbox₁, hin₁, hrest₁, hloop⟩ := repeatM_skip hcap .crypto hskip ccs
    (w.pending - ccs.length + 1) hw hflat
  obtain ⟨inbox, hin, hrest, hr⟩ := wnRecvRecord_wire cap (w := { w with inbox := inbox₁ }) hin₁ hrest₁ hlen
  refine ⟨inbox, hin, hrest, ?_⟩
  rw [hloop]
  cases hc : recordCheck cap type body with
  | ok u =>
    rw [hc] at hr
    refine repeatM_done ?_
    rw [skipCcsStep, bind_of_ok hr]
    simp [ht]
  | error e =>
    rw [hc] at hr
    refine repeatM_error ?_
    rw [skipCcsStep, bind_of_error hr]

/-! ## The ServerHello -/

variable {p : Provider cfg}

theorem wnTranscriptInit_ok {t : Transcript} (h : wnTranscriptInit p = .ok t) : t = [] := by
  unfold wnTranscriptInit at h
  split at h
  · cases h; rfl
  · cases h

theorem wnTranscriptUpdate_ok {t t' : Transcript} {msg : Bytes} (h : wnTranscriptUpdate p t msg = .ok t') :
    t' = t ++ msg := by
  unfold wnTranscriptUpdate at h
  split at h
  · cases h; rfl
  · cases h

theorem wnTranscriptUpdate_of (hp : p.Total) (t : Transcript) (msg : Bytes) :
    wnTranscriptUpdate p t msg = .ok (t ++ msg) :=
  if_pos (hp.sha256Update t msg)

/-- What is made of the first record that is not a ChangeCipherSpec. -/
def acceptServerHello (p : Provider cfg) (priv : p.Priv) (sid : Block 32) (pskSelected : Int) (tc : Transcript)
    (rtype : UInt8) (record : Bytes) : Except Err (Transcript × Block cfg.group.secretSz) :=
  if rtype ≠ wnRecHandshake then .error .unexpectedMsg
  else do
    let sh ← wnServerHelloParse (record.drop 5)
    if sh.isHelloRetry = true then .error .unsupported
    else do
      let tc ← wnTranscriptUpdate p tc (record.drop 5)
      if sh.Unacceptable cfg sid pskSelected then .error .illegalParam
      else do
        let ecdhe ← p.keyShareShared priv (sh.keyShare.getD [])
        pure (tc, ecdhe)

theorem recvServerHello_eq (cap : Nat) (priv : p.Priv) (sid : Block 32) (pskSelected : Int) (tc : Transcript) :
    recvServerHello p cap priv sid pskSelected tc = (recvSkippingCcs cap >>= fun (rtype, record) =>
      ofExcept (acceptServerHello p priv sid pskSelected tc rtype record)) := by
  simp only [recvServerHello, acceptServerHello, ofExcept_failIf, ofExcept_bind, ofExcept_pure]

theorem wireRecord_body (type v₁ v₂ : UInt8) (body : Bytes) : (wireRecord type v₁ v₂ body).drop 5 = body := by
  simp [wireRecord, vec, be_two]

section Accept

variable {priv : p.Priv} {sid : Block 32} {psk : Option Nat} {tc : Transcript} {ecdhe : Block cfg.group.secretSz}

variable (psk) in
theorem acceptServerHello_ok {tc' : Transcript} {rtype v₁ v₂ : UInt8} {body : Bytes} (hlen : body.length < 2 ^ 31)
    (h : acceptServerHello p priv sid (selIndex psk) tc rtype (wireRecord rtype v₁ v₂ body) = .ok (tc', ecdhe)) :
    rtype = wnRecHandshake ∧ ∃ (hello : Rfc.SHello) (share : Bytes), hello.Fits ∧ hello.Selects cfg sid share psk ∧
      body = hello.encode ∧ tc' = tc ++ hello.encode ∧ p.keyShareShared priv share = .ok ecdhe := by
  unfold acceptServerHello at h
  rw [wireRecord_body] at h
  split at h
  · cases h
  · next ht =>
    obtain ⟨sh, hsh, h⟩ := except_bind_ok.1 h
    split at h
    · cases h
    · next hret =>
      obtain ⟨tc₁, htc, h⟩ := except_bind_ok.1 h
      split at h
      · cases h
      · next hacc =>
        obtain ⟨ss, hss, h⟩ := except_bind_ok.1 h
        cases h
        obtain ⟨hello, hfits, hrr, hnd, rfl, rfl⟩ := (wnServerHelloParse_ok hlen).1 ⟨hsh, by simpa using hret⟩
        obtain ⟨share, hks, hsel⟩ := (ServerHello.acceptable_iff hnd hrr sid psk).1 hacc
        rw [hks] at hss
        exact ⟨not_not.1 ht, hello, share, hfits, hsel, rfl, wnTranscriptUpdate_ok htc, hss⟩

variable (psk tc) in
/-- A ServerHello that makes such a selection is accepted. -/
theorem acceptServerHello_of (hp : p.Total) (v₁ v₂ : UInt8) {hello : Rfc.SHello} {share : Bytes} (hfits : hello.Fits)
    (hsel : hello.Selects cfg sid share psk) (hlen : hello.encode.length < 2 ^ 31)
    (hshare : p.keyShareShared priv share = .ok ecdhe) :
    acceptServerHello p priv sid (selIndex psk) tc wnRecHandshake (wireRecord wnRecHandshake v₁ v₂ hello.encode) =
      .ok (tc ++ hello.encode, ecdhe) := by
  have hnd : (hello.exts.map Rfc.ShExt.type).Nodup :=
    (hsel.exts.map _).nodup_iff.2 (Rfc.selection_types _ _ _)
  obtain ⟨hparse, hret⟩ := (wnServerHelloParse_ok hlen).2
    ⟨hello, hfits, hsel.random, hnd, rfl, rfl⟩
  obtain ⟨hks, -, -⟩ : (ServerHello.ofHello hello).Has (.keyShare cfg.group.code share) :=
    ServerHello.foldl_has hnd (hsel.exts.mem_iff.2 (by simp [Rfc.selection])) _
  have hacc := (ServerHello.acceptable_iff hnd hsel.random sid psk).2 ⟨share, hks, hsel⟩
  rw [acceptServerHello, if_neg (by simp), wireRecord_body, hparse, except_ok_bind, if_neg (by simp [hret]),
    wnTranscriptUpdate_of hp, except_ok_bind, if_neg hacc, hks, Option.getD_some, hshare]
  rfl

end Accept

/-- **What the stream held when a ServerHello was accepted.** -/
theorem recvServerHello_ok {cap : Nat} {priv : p.Priv} {sid : Block 32} (psk : Option Nat)
    {tc tc' : Transcript} {ecdhe : Block cfg.group.secretSz} {w w' : World}
    (h : recvServerHello p cap priv sid (selIndex psk) tc w = .ok (tc', ecdhe) w') :
    ∃ (ccs : List (UInt8 × UInt8)) (v₁ v₂ : UInt8) (hello : Rfc.SHello) (share : Bytes),
      hello.Fits ∧ hello.Selects cfg sid share psk ∧ tc' = tc ++ hello.encode ∧
      p.keyShareShared priv share = .ok ecdhe ∧
      w.Read (ccs.flatMap ccsRecord ++ wireRecord wnRecHandshake v₁ v₂ hello.encode) w' := by
  rw [recvServerHello_eq] at h
  obtain ⟨⟨rtype, record⟩, w₁, hr, h⟩ := bind_ok.1 h
  obtain ⟨ccs, v₁, v₂, body, rfl, hc, -, hread⟩ := recvSkippingCcs_ok hr
  obtain ⟨haccept, rfl⟩ := ofExcept_eq_ok.1 h
  have hlen : body.length < 2 ^ 31 := by
    have := (recordCheck_ok.1 hc).2.2.1
    simp only [wnMaxPlaintext] at this
    omega
  obtain ⟨rfl, hello, share, hfits, hsel, rfl, htc, hss⟩ := acceptServerHello_ok psk hlen haccept
  exact ⟨ccs, v₁, v₂, hello, share, hfits, hsel, htc, hss, hread⟩

/-- **The ServerHello step is a function of the first record** that is not a
ChangeCipherSpec, and takes the stream to the end of it. -/
theorem recvServerHello_wire {cap : Nat} (hcap : 6 ≤ cap) (priv : p.Priv) (sid : Block 32) (sel : Int)
    (tc : Transcript) {w : World} {ccs : List (UInt8 × UInt8)} {type v₁ v₂ : UInt8} {body rest : Bytes}
    (ht : type ≠ wnRecChangeCipher) (hlen : body.length < 2 ^ 16) (hw : w.Flowing)
    (hflat : w.inbox.flatten = ccs.flatMap ccsRecord ++ (wireRecord type v₁ v₂ body ++ rest)) :
    ∃ inbox, [] ∉ inbox ∧ (recordCheck cap type body = .ok () → inbox.flatten = rest) ∧
      recvServerHello p cap priv sid sel tc w =
        match recordCheck cap type body >>= fun _ =>
          acceptServerHello p priv sid sel tc type (wireRecord type v₁ v₂ body) with
        | .ok r => .ok r { w with inbox }
        | .error e => .error e { w with inbox } := by
  obtain ⟨inbox, hin, hrest, hr⟩ := recvSkippingCcs_wire hcap hw ht hflat hlen
  refine ⟨inbox, hin, hrest, ?_⟩
  rw [recvServerHello_eq]
  cases hc : recordCheck cap type body with
  | error e =>
    rw [hc] at hr
    rw [bind_of_error hr]
    rfl
  | ok u =>
    rw [hc] at hr
    rw [bind_of_ok hr, except_ok_bind]
    cases h : acceptServerHello p priv sid sel tc type (wireRecord type v₁ v₂ body) <;> (dsimp only; rw [h]; rfl)

/-! ## The client Finished -/

theorem wnRecordProtect_ok {key : Block 16} {iv : Block 12} {seq : UInt64} {type : UInt8} {content record : Bytes}
    {w w' : World} (h : wnRecordProtect p key iv seq type content w = .ok record w') :
    protectRecord p key iv seq type content = .ok record ∧
      w' = { w with trace := w.trace ++ [.protect key (wnBuildNonce iv seq) type content true] } := by
  unfold wnRecordProtect emit at h
  obtain ⟨_, w₁, hm, h⟩ := bind_ok.1 h
  cases hm
  obtain ⟨hrec, rfl⟩ := ofExcept_eq_ok.1 h
  exact ⟨hrec, by rw [hrec]; rfl⟩

theorem sendFinished_ok {psk ecdhe messages : Bytes} {keys : HsKeys} {mac th emptyHash : Block 32} {junk : Junk}
    {io : Transport} {w w' : World} {u : Unit} (hempty : p.sha256 [] = some emptyHash)
    (hhs : Rfc.handshakeSecret p psk ecdhe = some keys.hs) (hth : p.sha256 messages = some th)
    (h : sendFinished p keys mac th emptyHash junk io w = .ok u w') :
    ∃ record client server, protectRecord p keys.cKey keys.cIv 0 wnRecHandshake (finishedMsg mac) = .ok record ∧
      Rfc.apTraffic p psk ecdhe "c ap traffic" messages = some client ∧
      Rfc.apTraffic p psk ecdhe "s ap traffic" messages = some server ∧
      w' = { w with
        sendRes := w.sendRes.tail
        trace := w.trace ++ [.protect keys.cKey (wnBuildNonce keys.cIv 0) wnRecHandshake (finishedMsg mac) true,
          .send record true, .writeKeys]
        sess := .established io client server } := by
  unfold sendFinished at h
  obtain ⟨record, w₁, hseal, h⟩ := bind_ok.1 h
  obtain ⟨hrec, rfl⟩ := wnRecordProtect_ok hseal
  obtain ⟨sent, w₂, hsend, h⟩ := bind_ok.1 h
  obtain ⟨_, w₃, hf, h⟩ := bind_ok.1 h
  obtain ⟨hs, rfl⟩ := failIf_ok.1 hf
  obtain rfl : sent = true := by simpa using hs
  obtain ⟨client, server, hc, hs', hw⟩ := wnSessionEstablish_ok hempty hhs hth h
  refine ⟨record, client, server, hrec, hc, hs', ?_⟩
  rw [hw, ioSend_true hsend]
  simp

theorem finishedMsg_eq (mac : Block 32) : finishedMsg mac = Rfc.hsMsg wnHsFinished mac.val := by
  rw [Rfc.hsMsg, vec, mac.length, be_three]
  rfl

theorem wnRecordProtect_of {key : Block 16} {iv : Block 12} {seq : UInt64} {type : UInt8} {content record : Bytes}
    {w : World} (h : protectRecord p key iv seq type content = .ok record) :
    wnRecordProtect p key iv seq type content w = .ok record { w with
      trace := w.trace ++ [.protect key (wnBuildNonce iv seq) type content true] } := by
  rw [wnRecordProtect, h]
  rfl

/-- A record of at most 2^14 bytes is sealed, as the RFC does. -/
theorem protectRecord_total (hp : p.Total) (t : TrafficKeys) (seq : UInt64) (type : UInt8) {content : Bytes}
    (hlen : content.length ≤ wnMaxPlaintext) : ∃ record, protectRecord p t.key t.iv seq type content = .ok record ∧
      Rfc.sealRecord p t seq.toNat type content 0 = some record := by
  obtain ⟨x, hx⟩ := Option.ne_none_iff_exists'.1 (hp.aesGcmEncrypt t.key (Rfc.nonce t.iv seq.toNat)
    (Rfc.header ((Rfc.inner type content 0).length + 16)) (Rfc.inner type content 0))
  have hseal : ∃ record, Rfc.sealRecord p t seq.toNat type content 0 = some record :=
    ⟨_, by rw [Rfc.sealRecord, Rfc.ciphertext, hx]; rfl⟩
  obtain ⟨record, hseal⟩ := hseal
  exact ⟨record, by rw [protectRecord_eq p (hp.aesGcmSetKey _) seq type hlen, hseal]; rfl, hseal⟩

/-- The Finished goes out and the session is established, when nothing fails. -/
theorem sendFinished_of (hp : p.Total) {psk ecdhe messages : Bytes} {keys : HsKeys} (mac : Block 32)
    {th emptyHash : Block 32} (junk : Junk) (io : Transport) {w : World} {client server : TrafficKeys} (hw : w.Sending)
    (hempty : p.sha256 [] = some emptyHash) (hhs : Rfc.handshakeSecret p psk ecdhe = some keys.hs)
    (hth : p.sha256 messages = some th) (hc : Rfc.apTraffic p psk ecdhe "c ap traffic" messages = some client)
    (hs : Rfc.apTraffic p psk ecdhe "s ap traffic" messages = some server) :
    ∃ record, Rfc.sealRecord p ⟨keys.cHs, keys.cKey, keys.cIv⟩ 0 wnRecHandshake (finishedMsg mac) 0 = some record ∧
      sendFinished p keys mac th emptyHash junk io w = .ok () { w with
        sendRes := w.sendRes.tail
        trace := w.trace ++ [.protect keys.cKey (wnBuildNonce keys.cIv 0) wnRecHandshake (finishedMsg mac) true,
          .send record true, .writeKeys]
        sess := .established io client server } := by
  obtain ⟨record, hrec, hseal⟩ := protectRecord_total hp ⟨keys.cHs, keys.cKey, keys.cIv⟩ 0 wnRecHandshake
    (show (finishedMsg mac).length ≤ _ by simp [finishedMsg, wnMaxPlaintext])
  refine ⟨record, hseal, ?_⟩
  have hw' : ∀ tr, World.Sending { w with trace := tr } := fun _ => hw
  rw [sendFinished, bind_of_ok (wnRecordProtect_of hrec), bind_of_ok (ioSend_of (hw' _)), failIf_neg (by simp), pure_bind,
    wnSessionEstablish_of hempty hhs hth _ hc hs]
  simp

end WolfNano

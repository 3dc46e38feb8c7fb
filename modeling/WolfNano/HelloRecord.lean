/-
The record that the PSK driver sends its ClientHello in.

`send_plain_record` takes the body as it is, and `build_client_hello` checks
the identity's length against nothing but its own 16-bit prefix. So the bytes
sent are a well-formed record with a well-formed ClientHello exactly when the
identity is not empty and leaves room for the rest in 2^14 bytes.
-/
import WolfNano.PskAgreement
import WolfNano.Observed

namespace WolfNano

open Prog Wire

variable {cfg : Config} {p : Provider cfg} {a : PskArgs p}

/-! ## A record of plaintext -/

/-- A TLSPlaintext record of a handshake fragment (RFC 8446 5.1). -/
structure Rfc.HandshakeRecord (bytes fragment : Bytes) : Prop where
  bytes : bytes = [wnRecHandshake, 3, 3] ++ vec 2 fragment
  size : 0 < fragment.length ∧ fragment.length ≤ 2 ^ 14

/-- The bytes are a record of a ClientHello that parses, with the random,
session id, share, identity and binder of the hello that the driver made. -/
def PskHello.SentIn (hello : PskHello p) (identity bytes : Bytes) : Prop :=
  ∃ fragment h before, Rfc.HandshakeRecord bytes fragment ∧ Rfc.ClientHello.parse fragment = some h ∧
    h.random = hello.random32.val ∧ h.sessionId = hello.sid.val ∧
    h.share cfg.group.code = some hello.cliPub.val ∧
    h.exts = before ++ [.preShared [(identity, 0)] [hello.binder.val]]

/-- What `send_plain_record` passes to `ioSend`. -/
def helloBytes (ch : Bytes) : Bytes := [wnRecHandshake, 3, 3] ++ be 2 ch.length ++ ch

theorem PskHelloSent.ch_length {hello : PskHello p} (h : PskHelloSent a hello) :
    hello.ch.length = pskHelloBase cfg + a.identity.length := by
  have hfront := pskHelloFront_length hello.random32 hello.sid a.identity hello.cliPub.length
  rw [h.ch, pskHello_encode _ _ _ _ _ hello.binder.length, List.length_append, List.length_append,
    hello.binder.length]
  simp only [List.length_cons, List.length_nil]
  omega

/-- A hello that parses has an identity that is not empty. -/
theorem PskHello.SentIn.identity {hello : PskHello p} {identity bytes : Bytes} (h : hello.SentIn identity bytes) :
    identity ≠ [] := by
  obtain ⟨fragment, ch, before, -, hparse, -, -, -, hexts⟩ := h
  have hfits := (Rfc.ClientHello.parse_eq_some.1 hparse).2
  have hpsk := (hfits.exts.2 (.preShared [(identity, 0)] [hello.binder.val]) (by simp [hexts])).1
  exact (hpsk.2.2.2.2.1 (identity, 0) List.mem_cons_self).2.2

/-- **The record is well formed** exactly when the identity is not empty and
the hello is no longer than a record may be. -/
theorem PskHelloSent.sentIn_iff {hello : PskHello p} (h : PskHelloSent a hello) :
    hello.SentIn a.identity (helloBytes hello.ch) ↔
      a.identity ≠ [] ∧ pskHelloBase cfg + a.identity.length ≤ 2 ^ 14 := by
  have hlen := h.ch_length
  constructor
  · intro hsent
    refine ⟨hsent.identity, ?_⟩
    obtain ⟨fragment, ch, before, hrec, -⟩ := hsent
    have hfragment : hello.ch = fragment := by
      have hbytes := hrec.bytes
      rw [helloBytes, vec, ← List.append_assoc] at hbytes
      exact (List.append_inj hbytes (by simp)).2
    rw [← hlen, hfragment]
    exact hrec.size.2
  · intro hcond
    obtain ⟨hne, hsize⟩ := hcond
    have hfits := pskHello_fits hello.random32 hello.sid hello.cliPub.length hello.binder.length hne hsize
    have hbase : 0 < pskHelloBase cfg := by
      unfold pskHelloBase
      split <;> omega
    refine ⟨hello.ch, pskHello cfg hello.random32 hello.sid hello.cliPub.val a.identity hello.binder.val,
      pskHelloExts cfg hello.cliPub.val, ⟨?_, by omega⟩, ?_, rfl, rfl, pskHello_share, rfl⟩
    · rw [helloBytes, vec, List.append_assoc]
    · exact Rfc.ClientHello.parse_eq_some.2 ⟨h.ch, hfits⟩

/-! ## The driver -/

variable (a) in
/-- The driver after its ClientHello record. -/
def pskAfterHello (hello : PskHello p) : Io Unit := do
  sendCcs
  let (tc, ecdhe) ← recvServerHello p a.io.scratchLen hello.priv hello.sid 0 hello.tc
  let th ← ofExcept (wnTranscriptGetHash p tc)
  let keys ← ofExcept (wnDeriveHsKeys p hello.early ecdhe.val hello.emptyHash th)
  let flight ← pskFlight p a.io.scratchLen keys tc
  let th ← ofExcept (wnTranscriptGetHash p flight.tc)
  let mac ← ofExcept (wnTls13FinishedMac p keys.cHs th)
  sendFinished p keys mac th hello.emptyHash a.junk a.io
  emit (.readKeys (flight.plain.drop flight.accOff))

theorem pskAfterHello_emits (hello : PskHello p) : Steps (Emits fun _ => True) (pskAfterHello a hello) := by
  refine .bind ((sendPlainRecord_emits _ _).mono fun h => h.mono fun _ _ => trivial) fun _ => ?_
  refine .bind ((recvServerHello_onlyRead _ _ _ _ _).mono fun h => h.emits) fun x => .bind (.ofExcept _) fun th => ?_
  refine .bind (.ofExcept _) fun keys => .bind ((pskFlight_onlyRead _ _ _).mono fun h => h.emits) fun flight => ?_
  refine .bind (.ofExcept _) fun th => .bind (.ofExcept _) fun mac => ?_
  exact .bind (sendFinished_emits (fun _ _ => trivial) _ _ _ _ _ _) fun _ => emit_emits trivial

/-- The driver is a draft, the record, and what comes after. -/
theorem wnConnectPskEx_draft (hargs : ¬ a.Rejected p) (w : World) :
    wnConnectPskEx p a w = (do
      let hello ← ofExcept (pskHelloDraft p a)
      sendPlainRecord wnRecHandshake hello.ch
      pskAfterHello a hello) { w with sess := .zero } := by
  rw [wnConnectPskEx, failIf_neg hargs, pure_bind,
    bind_of_ok (rfl : setSess .zero w = .ok () { w with sess := .zero }), pskClientHello_eq]
  simp only [bind_assoc, pure_bind]
  rfl

/-- Past its argument checks and its draft, the driver first sends the record. -/
theorem wnConnectPskEx_sent (hargs : ¬ a.Rejected p) {hello : PskHello p} (hdraft : pskHelloDraft p a = .ok hello)
    {inbox : List Bytes} {sendRes : List Bool} {sess : Session} (hsend : sendRes.headD true = true) :
    ∃ later, (endState (wnConnectPskEx p a (.fresh inbox sendRes sess))).sent =
      ([wnRecHandshake, 3, 3] ++ be 2 hello.ch.length) :: hello.ch :: later := by
  rw [wnConnectPskEx_draft hargs, hdraft, bind_of_ok (ofExcept_ok_apply _ _)]
  have hheader : ioSend [wnRecHandshake, 3, 3, UInt8.ofNat (hello.ch.length >>> 8), UInt8.ofNat hello.ch.length]
      { World.fresh inbox sendRes sess with sess := .zero } = .ok true { World.fresh inbox sendRes.tail .zero with
        trace := [.send ([wnRecHandshake, 3, 3] ++ be 2 hello.ch.length) true] } := by
    simp only [ioSend, World.fresh, hsend, be_two]
    rfl
  rw [sendPlainRecord, bind_assoc, bind_of_ok hheader, failIf_neg (by simp), pure_bind, bind_assoc]
  -- after the two calls, the rest only adds to the trace
  have hrest : Steps (Emits fun _ => True) (do
      failIf ((sendRes.tail.headD true) = false) Err.crypto
      pskAfterHello a hello) := .bind (.failIf _ _) fun _ => pskAfterHello_emits hello
  obtain ⟨evs, htrace, -⟩ := hrest { World.fresh inbox sendRes.tail.tail .zero with
    trace := [.send ([wnRecHandshake, 3, 3] ++ be 2 hello.ch.length) true,
      .send hello.ch (sendRes.tail.headD true)] }
  refine ⟨evs.filterMap Event.sent, ?_⟩
  have hend : ∀ w : World, w.trace = [.send ([wnRecHandshake, 3, 3] ++ be 2 hello.ch.length) true,
      .send hello.ch (sendRes.tail.headD true)] ++ evs → w.sent =
      ([wnRecHandshake, 3, 3] ++ be 2 hello.ch.length) :: hello.ch :: evs.filterMap Event.sent := by
    intro w hw
    rw [World.sent, hw]
    rfl
  exact hend _ htrace

/-- A driver that has passed something to `ioSend` has made a draft. -/
theorem wnConnectPskEx_drafts {inbox : List Bytes} {sendRes : List Bool} {sess : Session}
    (h : (endState (wnConnectPskEx p a (.fresh inbox sendRes sess))).sent ≠ []) :
    ¬ a.Rejected p ∧ ∃ hello, pskHelloDraft p a = .ok hello := by
  by_cases hargs : a.Rejected p
  · rw [wnConnectPskEx, failIf_pos hargs] at h
    exact absurd rfl h
  · rw [wnConnectPskEx_draft hargs] at h
    cases hdraft : pskHelloDraft p a with
    | ok hello => exact ⟨hargs, hello, rfl⟩
    | error e =>
      rw [hdraft] at h
      exact absurd rfl h

/-- **The format of the ClientHello**: when the PSK driver gets to sending, and
`ioSend` takes the header, what it has passed to `ioSend` is a record of at
most 2^14 bytes with a ClientHello that parses to the values it drew and
derived, exactly when the identity is not empty and the hello fits a record. -/
theorem wnConnectPskEx_hello (p : Provider cfg) (a : PskArgs p) (inbox : List Bytes) (sendRes : List Bool)
    (sess : Session) (hsend : sendRes.headD true = true)
    (h : (endState (wnConnectPskEx p a (.fresh inbox sendRes sess))).sent ≠ []) :
    (∃ hello, pskHelloDraft p a = .ok hello ∧ PskHelloSent a hello ∧
      hello.SentIn a.identity ((endState (wnConnectPskEx p a (.fresh inbox sendRes sess))).sent.take 2).flatten) ↔
      a.identity ≠ [] ∧ pskHelloBase cfg + a.identity.length ≤ 2 ^ 14 := by
  obtain ⟨hargs, hello, hdraft⟩ := wnConnectPskEx_drafts h
  have hid : a.identity.length ≤ 0xFFFF := by
    simp only [PskArgs.Rejected, not_or, Nat.not_lt] at hargs
    exact hargs.2.2.2.2.2
  have hmade : PskHelloSent a hello := pskHelloDraft_ok hid hdraft
  obtain ⟨later, hsent⟩ := wnConnectPskEx_sent hargs hdraft hsend
  have hbytes : ((endState (wnConnectPskEx p a (.fresh inbox sendRes sess))).sent.take 2).flatten =
      helloBytes hello.ch := by
    rw [hsent]
    simp [helloBytes]
  rw [hbytes, ← hmade.sentIn_iff]
  constructor
  · intro hex
    obtain ⟨hello', hdraft', -, hin⟩ := hex
    rw [hdraft] at hdraft'
    cases hdraft'
    exact hin
  · intro hin
    exact ⟨hello, hdraft, hmade, hin⟩

theorem wnConnectPskEx_hello_clear :
    (∃ hello, pskHelloDraft (.clear .small) (.clear [105] 2048) = .ok hello ∧ PskHelloSent (.clear [105] 2048) hello ∧
      hello.SentIn [105] ((endState (wnConnectPskEx (.clear .small) (.clear [105] 2048)
        (.fresh [] [] .zero))).sent.take 2).flatten) ↔
      ([105] : Bytes) ≠ [] ∧ pskHelloBase .small + 1 ≤ 2 ^ 14 :=
  wnConnectPskEx_hello (.clear .small) (.clear [105] 2048) [] [] .zero rfl (by decide +kernel)

/-- With an empty identity the driver sends a hello that no server may parse. -/
theorem wnConnectPskEx_hello_empty :
    (endState (wnConnectPskEx (.clear .small) (.clear [] 2048) (.fresh [] [] .zero))).sent ≠ [] ∧
      ¬ ∃ hello, pskHelloDraft (.clear .small) (.clear [] 2048) = .ok hello ∧ PskHelloSent (.clear [] 2048) hello ∧
        hello.SentIn [] ((endState (wnConnectPskEx (.clear .small) (.clear [] 2048)
          (.fresh [] [] .zero))).sent.take 2).flatten := by
  refine ⟨by decide +kernel, fun hex => ?_⟩
  obtain ⟨hello, -, -, hin⟩ := hex
  exact hin.identity rfl

end WolfNano

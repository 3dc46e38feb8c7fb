/-
The PSK binder covers the truncated ClientHello (RFC 8446 4.2.11.2).

`build_client_hello` notes where the list of binders starts, and goes on to
write it and to fill in the lengths in front of it; the driver hashes up to
the note, writes the binder over its zeros, and only then hashes and sends the
whole. `BuiltHello.Covered` is what makes that right: after the note nothing
in front of it changes any more.
-/
import WolfNano.PskFacts
import WolfNano.ClearProvider

namespace WolfNano

open Prog Wire

namespace BuiltHello

variable (b : BuiltHello)

/-- The memory once the driver has put the binder in its place. -/
def filled (binder : Block 32) : Bytes := patch b.w.buf b.binderOff binder.val

/-- The ClientHello that the driver adds to the transcript and sends. -/
def sent (binder : Block 32) : Bytes := (b.filled binder).take b.w.len

/-- The offsets name the last 35 bytes and the last 32, and whatever the binder,
the bytes hashed for it are the hello's without the 35, and it takes the place
of the 32 and of nothing else. -/
structure Covered : Prop where
  trunc : b.truncOff + 35 = b.w.len
  afterTrunc : b.binderOff = b.truncOff + 3
  last : b.binderOff + 32 = b.w.len
  hashed : ∀ binder, b.w.buf.take b.truncOff = (b.sent binder).take (b.w.len - 35)
  filled : ∀ binder : Block 32,
    b.filled binder = b.w.buf.take (b.w.len - 32) ++ binder.val ++ b.w.buf.drop b.w.len
  length : ∀ binder, (b.sent binder).length = b.w.len

end BuiltHello

section Built

variable {cfg : Config} (random sid : Block 32) {pub identity : Bytes} (hpub : pub.length = cfg.group.pubSz)
  (hid : pskHelloBase cfg + identity.length < 2 ^ 32)
include hpub hid

/-- The hello that goes out, with the binder where the zeros were. -/
theorem buildClientHello_sent (buf : Bytes) (cap : Nat)
    (herr : (buildClientHello cfg (wnWriterInit buf cap) random sid pub identity).w.err = false) (binder : Block 32) :
    (buildClientHello cfg (wnWriterInit buf cap) random sid pub identity).sent binder =
      (pskHello cfg random sid pub identity binder.val).encode := by
  have hfront := pskHelloFront_length random sid identity hpub
  obtain ⟨hlen, hbuf, -, hbinder⟩ := (buildClientHello_ok random sid hpub hid buf cap).2 herr
  rw [BuiltHello.sent, BuiltHello.filled, hbinder, patch_binder (by omega) hbuf,
    pskHello_encode cfg random sid pub identity binder.length]

theorem buildClientHello_covered (buf : Bytes) (cap : Nat)
    (herr : (buildClientHello cfg (wnWriterInit buf cap) random sid pub identity).w.err = false) :
    (buildClientHello cfg (wnWriterInit buf cap) random sid pub identity).Covered := by
  have hfront := pskHelloFront_length random sid identity hpub
  have hsent := buildClientHello_sent random sid hpub hid buf cap herr
  have hhashed := buildClientHello_hashed random sid hpub hid buf cap herr
  obtain ⟨hlen, -, htrunc, hbinder⟩ := (buildClientHello_ok random sid hpub hid buf cap).2 herr
  generalize buildClientHello cfg (wnWriterInit buf cap) random sid pub identity = b at *
  have hencode (binder : Block 32) : b.sent binder =
      pskHelloFront cfg random sid pub identity ++ ([0, 33, 32] ++ binder.val) := by
    rw [hsent, pskHello_encode cfg random sid pub identity binder.length]
  have hcut : b.w.len - 35 = (pskHelloFront cfg random sid pub identity).length := by omega
  refine ⟨by omega, by omega, by omega, fun binder => ?_, fun binder => ?_, fun binder => ?_⟩
  · rw [hhashed, hencode, hcut, List.take_left]
  · rw [BuiltHello.filled, patch, binder.length, show b.w.len - 32 = b.binderOff by omega,
      show b.binderOff + 32 = b.w.len by omega]
  · rw [hencode]
    simp
    omega

end Built

variable {cfg : Config} {p : Provider cfg}

/-- What the driver hashes and sends, once its ClientHello is out, is what it
built. -/
theorem pskClientHello_built {a : PskArgs p} (hident : a.identity.length ≤ 0xFFFF) {hello : PskHello p} {w w' : World}
    (h : pskClientHello p a w = .ok hello w') {b : BuiltHello}
    (hb : b = buildClientHello cfg (wnWriterInit [] a.io.scratchLen) hello.random32 hello.sid hello.cliPub.val
      a.identity) :
    b.w.err = false ∧ hello.ch = b.sent hello.binder ∧ hello.tc = hello.ch ∧
      w'.trace = w.trace ++ helloSends hello.ch ∧
      ∃ binderKey, Rfc.binderKey p a.psk = some binderKey ∧
        Rfc.finished p binderKey (b.w.buf.take b.truncOff) = some hello.binder := by
  have hid := pskHelloBase_lt cfg hident
  have hpub := hello.cliPub.length
  obtain ⟨hsent, hw⟩ := pskClientHello_ok hident h
  have herr := (buildClientHello_ok hello.random32 hello.sid hpub hid [] a.io.scratchLen).1.2 hsent.fits
  have hch := buildClientHello_sent hello.random32 hello.sid hpub hid [] a.io.scratchLen herr hello.binder
  have hhashed := buildClientHello_hashed hello.random32 hello.sid hpub hid [] a.io.scratchLen herr
  obtain ⟨binderKey, hkey, hmac⟩ := hsent.binder
  rw [← hb] at herr hch hhashed
  rw [← hsent.ch] at hch
  rw [← hhashed] at hmac
  exact ⟨herr, hch.symm, hsent.tc, by rw [hw], binderKey, hkey, hmac⟩

/-- **The binder covers exactly the truncated ClientHello**: in every hello
that is built without an error, and in every run of the PSK driver that has
sent its ClientHello. -/
theorem binder_covers (random sid : Block 32) (pub identity : Bytes) (hpub : pub.length = cfg.group.pubSz)
    (hid : pskHelloBase cfg + identity.length < 2 ^ 32) (buf : Bytes) (cap : Nat)
    (herr : (buildClientHello cfg (wnWriterInit buf cap) random sid pub identity).w.err = false) :
    (buildClientHello cfg (wnWriterInit buf cap) random sid pub identity).Covered ∧
      (∀ binder, (buildClientHello cfg (wnWriterInit buf cap) random sid pub identity).sent binder =
        (pskHello cfg random sid pub identity binder.val).encode) ∧
      ∀ (a : PskArgs p) (hello : PskHello p) (w w' : World), a.identity.length ≤ 0xFFFF →
        pskClientHello p a w = .ok hello w' →
          ∃ b, b = buildClientHello cfg (wnWriterInit [] a.io.scratchLen) hello.random32 hello.sid hello.cliPub.val
              a.identity ∧
            b.Covered ∧ hello.ch = b.sent hello.binder ∧ hello.tc = hello.ch ∧
            w'.trace = w.trace ++ helloSends hello.ch ∧
            ∃ binderKey, Rfc.binderKey p a.psk = some binderKey ∧
              Rfc.finished p binderKey (b.w.buf.take b.truncOff) = some hello.binder := by
  refine ⟨buildClientHello_covered random sid hpub hid buf cap herr,
    buildClientHello_sent random sid hpub hid buf cap herr, fun a hello w w' hident h => ⟨_, rfl, ?_⟩⟩
  obtain ⟨herr, hrest⟩ := pskClientHello_built hident h rfl
  exact ⟨buildClientHello_covered hello.random32 hello.sid hello.cliPub.length (pskHelloBase_lt cfg hident) []
    a.io.scratchLen herr, hrest⟩

/-- An identity of one byte, in a buffer that holds something else. -/
theorem binder_covers_small :
    (buildClientHello .small (wnWriterInit (List.replicate 300 7) 300) (.zero 32) (.zero 32) (List.replicate 32 9)
      [1]).Covered :=
  (binder_covers (p := .clear .small) (.zero 32) (.zero 32) (List.replicate 32 9) [1] rfl (by decide) _ _
    (by decide +kernel)).1

end WolfNano

/-
The hybrid key share: both sides come to one secret, and a function that fails
leaves none.

`HybridProvider.Correct` has what is asked of ML-KEM and of X25519. What each
function leaves where it succeeds is read off its steps, the two parts of a
share or a secret standing one behind the other (`patch_behind`); what it
leaves where it fails is inside the 64 bytes that are wiped.
-/
import WolfNano.Hybrid
import WolfNano.MsgFacts
import WolfNano.KeyScheduleFacts

namespace WolfNano

open Prog

/-! ## The provider's part -/

variable {P : HybridProvider}

/-- A key pair that `wc_MlKemKey_MakeKey` has made. -/
def HybridProvider.KemMade (P : HybridProvider) (key : P.KemKey) : Prop :=
  ∃ fresh rng rng', P.mlKemMakeKey fresh rng = (some key, rng')

/-- A key pair that `wc_curve25519_make_key` has made. -/
def HybridProvider.XMade (P : HybridProvider) (key : P.XKey) : Prop :=
  ∃ fresh rng rng', P.curve25519MakeKey rng fresh = (some key, rng')

/-- Decapsulation inverts encapsulation for the matching key pair, X25519
agreement commutes, and the encodings of public keys round-trip; `kemPub` and
`xPub` are the public halves. -/
structure HybridProvider.Correct (P : HybridProvider) {KP XP : Type} (kemPub : P.KemKey → KP) (xPub : P.XKey → XP) :
    Prop where
  decodes : ∀ {key kem kem' pk}, P.mlKemEncodePublicKey key = .ok pk →
    P.mlKemDecodePublicKey kem pk.val = some kem' → kemPub kem' = kemPub key
  imports : ∀ {key x peer pk}, P.curve25519ExportPublic key = .ok pk →
    P.curve25519ImportPublic pk.val x = some peer → xPub peer = xPub key
  decapsulates : ∀ {key kem rng rng' ct ss ss'}, P.KemMade key → kemPub kem = kemPub key →
    P.mlKemEncapsulate kem rng = (.ok (ct, ss), rng') → P.mlKemDecapsulate key ct.val = .ok ss' → ss' = ss
  commutes : ∀ {a b a' b' s s'}, P.XMade a → P.XMade b → xPub a' = xPub a → xPub b' = xPub b →
    P.curve25519SharedSecret a b' = .ok s → P.curve25519SharedSecret b a' = .ok s' → s = s'

/-! ## The steps -/

section Steps

variable {σ ρ α : Type} {s t : σ}

theorem storing_ok {n : Nat} {put : Bytes → σ → σ} {x : Except (Part n) (Block n)} {u : Unit} :
    storing put x s = .ok u t ↔ ∃ b, x = .ok b ∧ t = put b.val s := by
  cases x with
  | error b => simp [storing, bind_ok]
  | ok b => simp [storing, eq_comm]

theorem drawing_ok {rngOf : σ → ρ} {put : ρ → σ → σ} {call : ρ → Option α × ρ} {a : α} :
    drawing rngOf put call s = .ok a t ↔ ∃ rng, call (rngOf s) = (some a, rng) ∧ t = put rng s := by
  have hrun : drawing rngOf put call s =
      (ofExcept (orCrypto (call (rngOf s)).1) : EStateM Err σ α) (put (call (rngOf s)).2 s) := rfl
  rw [hrun, ofExcept_eq_ok, orCrypto_ok]
  generalize call (rngOf s) = x
  obtain ⟨made, rng⟩ := x
  simp only [Prod.mk.injEq]
  exact ⟨fun ⟨h, ht⟩ => ⟨rng, ⟨h, rfl⟩, ht.symm⟩, fun ⟨_, ⟨h, hrng⟩, ht⟩ => ⟨h, by rw [hrng, ht]⟩⟩

end Steps

theorem encapsulating_ok {kem : P.KemKey} {m m' : RespondMem P} {u : Unit} :
    encapsulating kem m = .ok u m' ↔ ∃ ct ss rng, P.mlKemEncapsulate kem m.rng = (.ok (ct, ss), rng) ∧
      m' = { m with rng }.putEncap ct.val ss.val := by
  unfold encapsulating
  generalize P.mlKemEncapsulate kem m.rng = x
  match x with
  | (.error parts, rng) => simp
  | (.ok (ct, ss), rng) =>
    constructor
    · intro h
      cases h
      exact ⟨ct, ss, rng, rfl, rfl⟩
    · rintro ⟨_, _, _, h, rfl⟩
      cases h
      rfl

/-- A component and, where it ends, the next. -/
theorem patch_behind (mem : Bytes) {n k : Nat} (a : Block n) (b : Block k) :
    patch (patch mem 0 a.val) n b.val = a.val ++ b.val ++ mem.drop (n + k) := by
  have h := patch_patch mem 0 a.val b.val
  rw [Nat.zero_add, a.length] at h
  rw [h, patch_zero, List.length_append, a.length, b.length]

theorem front_of_two {n k : Nat} {a : Block n} {b : Block k} {mem rest : Bytes} (h : mem = a.val ++ b.val ++ rest) :
    mem.take n = a.val ∧ (mem.drop n).take k = b.val := by
  obtain ⟨a, rfl⟩ := a
  obtain ⟨b, rfl⟩ := b
  rw [h, List.append_assoc]
  exact ⟨List.take_left, by rw [List.drop_left, List.take_left]⟩

/-! ## What each function leaves -/

theorem clientKeyShare_ok {m m' : KeyShareMem P} (h : clientKeyShare P m = .ok () m') :
    ∃ kem pk x xp, P.KemMade kem ∧ P.mlKemEncodePublicKey kem = .ok pk ∧ P.XMade x ∧
      P.curve25519ExportPublic x = .ok xp ∧ m'.h.kem = kem ∧ m'.h.x = x ∧
      m'.out = pk.val ++ xp.val ++ m.out.drop wnHybridClientShare := by
  unfold clientKeyShare at h
  obtain ⟨fresh, _, hinit, h⟩ := bind_ok.1 h
  obtain ⟨-, rfl⟩ := ofExcept_eq_ok.1 hinit
  rw [bind_of_ok (modify_apply _ _)] at h
  obtain ⟨kem, _, hdraw, h⟩ := bind_ok.1 h
  obtain ⟨_, hmake, rfl⟩ := drawing_ok.1 hdraw
  rw [bind_of_ok (modify_apply _ _)] at h
  obtain ⟨_, _, hput, h⟩ := bind_ok.1 h
  obtain ⟨pk, henc, rfl⟩ := storing_ok.1 hput
  obtain ⟨xfresh, _, hxinit, h⟩ := bind_ok.1 h
  obtain ⟨-, rfl⟩ := ofExcept_eq_ok.1 hxinit
  rw [bind_of_ok (modify_apply _ _)] at h
  obtain ⟨x, _, hxdraw, h⟩ := bind_ok.1 h
  obtain ⟨_, hxmake, rfl⟩ := drawing_ok.1 hxdraw
  rw [bind_of_ok (modify_apply _ _)] at h
  obtain ⟨xp, hexp, rfl⟩ := storing_ok.1 h
  exact ⟨kem, pk, x, xp, ⟨_, _, _, hmake⟩, henc, ⟨_, _, _, hxmake⟩, hexp, rfl, rfl, patch_behind _ _ _⟩

theorem clientShared_ok {h : Hybrid P} {srvShare ss ss' : Bytes} (hok : clientShared h srvShare ss = .ok () ss') :
    ∃ kemSs fresh peer xSs, P.mlKemDecapsulate h.kem (srvShare.take wnHybridMlkemCt) = .ok kemSs ∧
      P.curve25519ImportPublic ((srvShare.drop wnHybridMlkemCt).take wnHybridX25519) fresh = some peer ∧
      P.curve25519SharedSecret h.x peer = .ok xSs ∧
      ss' = kemSs.val ++ xSs.val ++ ss.drop wnHybridSecret := by
  unfold clientShared at hok
  obtain ⟨_, _, hput, hok⟩ := bind_ok.1 hok
  obtain ⟨kemSs, hdec, rfl⟩ := storing_ok.1 hput
  obtain ⟨fresh, _, hinit, hok⟩ := bind_ok.1 hok
  obtain ⟨-, rfl⟩ := ofExcept_eq_ok.1 hinit
  obtain ⟨peer, _, hlift, hok⟩ := bind_ok.1 hok
  obtain ⟨himp, rfl⟩ := ofExcept_eq_ok.1 hlift
  obtain ⟨xSs, hshared, rfl⟩ := storing_ok.1 hok
  exact ⟨kemSs, fresh, peer, xSs, hdec, orCrypto_ok.1 himp, hshared, patch_behind _ _ _⟩

theorem serverRespond_ok {cliShare : Bytes} {m m' : RespondMem P} (h : serverRespond cliShare m = .ok () m') :
    ∃ fresh kem rng rng' ct kemSs srv xp xfresh peer xSs,
      P.mlKemDecodePublicKey fresh (cliShare.take wnHybridMlkemPub) = some kem ∧
      P.mlKemEncapsulate kem rng = (.ok (ct, kemSs), rng') ∧ P.XMade srv ∧ P.curve25519ExportPublic srv = .ok xp ∧
      P.curve25519ImportPublic ((cliShare.drop wnHybridMlkemPub).take wnHybridX25519) xfresh = some peer ∧
      P.curve25519SharedSecret srv peer = .ok xSs ∧
      m'.srvShare = ct.val ++ xp.val ++ m.srvShare.drop wnHybridServerShare ∧
      m'.ss = kemSs.val ++ xSs.val ++ m.ss.drop wnHybridSecret := by
  unfold serverRespond at h
  obtain ⟨fresh, _, hinit, h⟩ := bind_ok.1 h
  obtain ⟨-, rfl⟩ := ofExcept_eq_ok.1 hinit
  obtain ⟨kem, _, hlift, h⟩ := bind_ok.1 h
  obtain ⟨hdec, rfl⟩ := ofExcept_eq_ok.1 hlift
  obtain ⟨_, _, hput, h⟩ := bind_ok.1 h
  obtain ⟨ct, kemSs, rng', henc, rfl⟩ := encapsulating_ok.1 hput
  obtain ⟨sfresh, _, hsinit, h⟩ := bind_ok.1 h
  obtain ⟨-, rfl⟩ := ofExcept_eq_ok.1 hsinit
  obtain ⟨srv, _, hdraw, h⟩ := bind_ok.1 h
  obtain ⟨_, hmake, rfl⟩ := drawing_ok.1 hdraw
  obtain ⟨_, _, hxput, h⟩ := bind_ok.1 h
  obtain ⟨xp, hexp, rfl⟩ := storing_ok.1 hxput
  obtain ⟨xfresh, _, hxinit, h⟩ := bind_ok.1 h
  obtain ⟨-, rfl⟩ := ofExcept_eq_ok.1 hxinit
  obtain ⟨peer, _, hxlift, h⟩ := bind_ok.1 h
  obtain ⟨himp, rfl⟩ := ofExcept_eq_ok.1 hxlift
  obtain ⟨xSs, hshared, rfl⟩ := storing_ok.1 h
  exact ⟨fresh, kem, _, rng', ct, kemSs, srv, xp, xfresh, peer, xSs, orCrypto_ok.1 hdec, henc, ⟨_, _, _, hmake⟩, hexp,
    orCrypto_ok.1 himp, hshared, patch_behind _ _ _, patch_behind _ _ _⟩

/-! ## Where a function fails -/

/-- Nothing past the secret is written. -/
def PastKept (ss ss' : Bytes) : Prop := ss'.drop wnHybridSecret = ss.drop wnHybridSecret

instance : Std.Refl PastKept := ⟨fun _ => rfl⟩

instance : IsTrans Bytes PastKept := ⟨fun _ _ _ h₁ h₂ => Eq.trans h₂ h₁⟩

theorem PastKept.patch (ss : Bytes) {off : Nat} {b : Bytes} (h : off + b.length ≤ wnHybridSecret) :
    PastKept ss (patch ss off b) := drop_past_patch _ _ h

theorem storing_steps {σ : Type} {R : σ → σ → Prop} {n : Nat} {put : Bytes → σ → σ}
    (h : ∀ b s, b.length ≤ n → R s (put b s)) (x : Except (Part n) (Block n)) : Steps R (storing put x) := by
  intro s
  cases x with
  | ok b => exact h b.val s (Nat.le_of_eq b.length)
  | error b => exact h b.val s b.property

theorem clientShared_steps (h : Hybrid P) (srvShare : Bytes) : Steps PastKept (clientShared h srvShare) := by
  have hstore : ∀ {dst : Nat} (x : Except (Part 32) (Block 32)), dst + 32 ≤ wnHybridSecret →
      Steps PastKept (storing (fun b ss => patch ss dst b) x) :=
    fun x hdst => storing_steps (fun b ss hb => .patch ss (by omega)) x
  exact .bind (hstore _ (by decide)) fun _ => .bind (.ofExcept _) fun _ => .bind (.ofExcept _) fun _ =>
    hstore _ (by decide)

/-- The same of the server's memory. -/
def RespondMem.PastKept (m m' : RespondMem P) : Prop := WolfNano.PastKept m.ss m'.ss

instance : Std.Refl (RespondMem.PastKept (P := P)) := ⟨fun _ => rfl⟩

instance : IsTrans (RespondMem P) RespondMem.PastKept := ⟨fun _ _ _ h₁ h₂ => Eq.trans h₂ h₁⟩

theorem encapsulating_steps (kem : P.KemKey) : Steps RespondMem.PastKept (encapsulating kem) := by
  have hput : ∀ (m : RespondMem P) rng ct {ss : Bytes}, ss.length ≤ wcMlKemSsSz →
      RespondMem.PastKept m ({ m with rng }.putEncap ct ss) :=
    fun m rng ct ss hss => WolfNano.PastKept.patch m.ss (by simp only [wcMlKemSsSz, wnHybridSecret] at *; omega)
  intro m
  unfold encapsulating
  generalize P.mlKemEncapsulate kem m.rng = x
  match x with
  | (.ok (ct, ss), rng) => exact hput m rng _ (Nat.le_of_eq ss.length)
  | (.error (ct, ss), rng) => exact hput m rng _ ss.property

theorem serverRespond_steps (cliShare : Bytes) : Steps RespondMem.PastKept (serverRespond (P := P) cliShare) := by
  have hdraw : ∀ {α : Type} (call : P.Rng → Option α × P.Rng),
      Steps RespondMem.PastKept (drawing RespondMem.rng (fun rng m => { m with rng }) call) :=
    fun call => .bind .get fun _ => .bind (.modify fun _ => rfl) fun _ => .ofExcept _
  have hshare : ∀ x : Except (Part wnHybridX25519) (Block wnHybridX25519), Steps (RespondMem.PastKept (P := P))
      (storing (fun b m => { m with srvShare := patch m.srvShare wnHybridMlkemCt b }) x) := by
    intro x
    refine storing_steps (fun b m _ => ?_) x
    exact (Std.Refl.refl m.ss : WolfNano.PastKept m.ss m.ss)
  refine .bind (.ofExcept _) fun _ => .bind (.ofExcept _) fun kem => .bind (encapsulating_steps kem) fun _ =>
    .bind (.ofExcept _) fun _ => .bind (hdraw _) fun _ => .bind (hshare _) fun _ =>
    .bind (.ofExcept _) fun _ => .bind (.ofExcept _) fun _ => storing_steps (fun b m hb => ?_) _
  exact WolfNano.PastKept.patch m.ss (by simp only [wcMlKemSsSz, wnHybridX25519, wnHybridSecret] at *; omega)

/-- Wiping leaves zeros, and what was behind them. -/
theorem wipeSecret_eq {ss ss' : Bytes} (h : PastKept ss ss') :
    wipeSecret ss' = (Block.zero wnHybridSecret).val ++ ss.drop wnHybridSecret := by
  rw [wipeSecret, patch_zero, Block.length, h]

theorem wnHybridClientShared_wipes {h : Option (Hybrid P)} {srvShare : Option Bytes} {srvLen : Nat} {o o' : SecretOut}
    {e : Err} {ss : Bytes} (hss : o.ss = some ss) (herr : wnHybridClientShared h srvShare srvLen o = (.error e, o')) :
    o'.ss = some ((Block.zero wnHybridSecret).val ++ ss.drop wnHybridSecret) := by
  obtain ⟨_, ssLen⟩ := o
  subst hss
  have hnow := wipeSecret_eq (Std.Refl.refl ss : PastKept ss ss)
  unfold wnHybridClientShared at herr
  split at herr
  next h srvShare ss₀ ssLen heq =>
    cases heq
    split at herr
    · cases herr
      exact congrArg some hnow
    · split at herr
      next => cases herr
      next e₁ ss' hrun =>
        cases herr
        exact congrArg some (wipeSecret_eq ((clientShared_steps h srvShare).error hrun))
  next heq =>
    cases herr
    cases heq
    exact congrArg some hnow

theorem wnHybridServerRespond_wipes {cliShare : Option Bytes} {cliLen : Nat} {a a' : RespondArgs P} {e : Err}
    {ss : Bytes} (hss : a.ss = some ss) (herr : wnHybridServerRespond cliShare cliLen a = (.error e, a')) :
    a'.ss = some ((Block.zero wnHybridSecret).val ++ ss.drop wnHybridSecret) := by
  have hnow := wipeSecret_eq (Std.Refl.refl ss : PastKept ss ss)
  unfold wnHybridServerRespond at herr
  split at herr
  next cliShare rng srvShare srvLen ss₀ ssLen =>
    cases hss
    split at herr
    · cases herr
      exact congrArg some hnow
    · split at herr
      next => cases herr
      next e₁ m hrun =>
        cases herr
        exact congrArg some (wipeSecret_eq ((serverRespond_steps cliShare).error hrun))
  next =>
    cases herr
    rw [hss]
    exact congrArg some hnow

/-! ## Agreement -/

theorem wnHybridClientKeyShare_ok {a a' : KeyShareArgs P} (h : wnHybridClientKeyShare a = (.ok (), a')) :
    ∃ h out m, a'.h = some m.h ∧ a'.out = some m.out ∧ a'.outLen = some wnHybridClientShare ∧
      ∃ rng, clientKeyShare P ⟨h, rng, out⟩ = .ok () m := by
  unfold wnHybridClientKeyShare at h
  split at h
  next h₀ rng out outLen =>
    split at h
    next m hrun =>
      cases h
      exact ⟨h₀, out, m, rfl, rfl, rfl, rng, hrun⟩
    next => cases h
  next => cases h

theorem wnHybridClientShared_ok {h : Option (Hybrid P)} {srvShare : Option Bytes} {srvLen : Nat} {o o' : SecretOut}
    (hok : wnHybridClientShared h srvShare srvLen o = (.ok (), o')) :
    ∃ h₀ share ss ss', h = some h₀ ∧ srvShare = some share ∧ o'.ss = some ss' ∧ o'.ssLen = some wnHybridSecret ∧
      clientShared h₀ share ss = .ok () ss' := by
  unfold wnHybridClientShared at hok
  split at hok
  next h₀ share ss ssLen =>
    split at hok
    · cases hok
    · split at hok
      next ss' hrun =>
        cases hok
        exact ⟨h₀, share, ss, ss', rfl, rfl, rfl, rfl, hrun⟩
      next => cases hok
  next => cases hok

theorem wnHybridServerRespond_ok {cliShare : Option Bytes} {cliLen : Nat} {a a' : RespondArgs P}
    (h : wnHybridServerRespond cliShare cliLen a = (.ok (), a')) :
    ∃ (share : Bytes) (m m' : RespondMem P), cliShare = some share ∧ a'.srvShare = some m'.srvShare ∧
      a'.srvLen = some wnHybridServerShare ∧ a'.ss = some m'.ss ∧ a'.ssLen = some wnHybridSecret ∧
      serverRespond share m = .ok () m' := by
  unfold wnHybridServerRespond at h
  split at h
  next share rng srvShare srvLen ss ssLen =>
    split at h
    · cases h
    · split at h
      next m' hrun =>
        cases h
        exact ⟨share, _, m', rfl, rfl, rfl, rfl, rfl, hrun⟩
      next => cases h
  next => cases h

/-- **The hybrid share.** The server's answer to the client's share and the
client's use of the answer come to the same 64 bytes, the ML-KEM secret then
the X25519 secret, and the lengths are those of the group; and a function that
fails leaves zeros for a secret. -/
theorem hybrid_agreement {KP XP : Type} {kemPub : P.KemKey → KP} {xPub : P.XKey → XP} (hP : P.Correct kemPub xPub) :
    (∀ {a a' : KeyShareArgs P} {b b' : RespondArgs P} {c c' : SecretOut} {cliLen srvLen : Nat},
      wnHybridClientKeyShare a = (.ok (), a') → a'.outLen = some cliLen →
      wnHybridServerRespond a'.out cliLen b = (.ok (), b') → b'.srvLen = some srvLen →
      wnHybridClientShared a'.h b'.srvShare srvLen c = (.ok (), c') →
        cliLen = Group.x25519mlkem768.pubSz ∧ srvLen = Group.x25519mlkem768.srvShareSz ∧
        b'.ssLen = some Group.x25519mlkem768.secretSz ∧ c'.ssLen = some Group.x25519mlkem768.secretSz ∧
        ∃ (kemSs xSs : Block 32) (rest rest' : Bytes),
          b'.ss = some (kemSs.val ++ xSs.val ++ rest) ∧ c'.ss = some (kemSs.val ++ xSs.val ++ rest') ∧
          ∃ h ct peer, a'.h = some h ∧ P.mlKemDecapsulate h.kem ct = .ok kemSs ∧
            P.curve25519SharedSecret h.x peer = .ok xSs) ∧
    (∀ {h : Option (Hybrid P)} {srvShare : Option Bytes} {srvLen : Nat} {o o' : SecretOut} {e : Err} {ss : Bytes},
      o.ss = some ss → wnHybridClientShared h srvShare srvLen o = (.error e, o') →
        o'.ss = some (List.replicate 64 0 ++ ss.drop 64)) ∧
    (∀ {cliShare : Option Bytes} {cliLen : Nat} {b b' : RespondArgs P} {e : Err} {ss : Bytes},
      b.ss = some ss → wnHybridServerRespond cliShare cliLen b = (.error e, b') →
        b'.ss = some (List.replicate 64 0 ++ ss.drop 64)) := by
  refine ⟨?_, wnHybridClientShared_wipes, wnHybridServerRespond_wipes⟩
  intro a a' b b' c c' cliLen srvLen hshare hcliLen hrespond hsrvLen hsecret
  obtain ⟨_, _, m, hh, hout, houtLen, _, hclient⟩ := wnHybridClientKeyShare_ok hshare
  obtain ⟨share, _, m', hshare', hsrv, hlen, hss, hssLen, hserver⟩ := wnHybridServerRespond_ok hrespond
  obtain ⟨h₀, reply, _, ss', hh', hreply, hcss, hcssLen, hshared⟩ := wnHybridClientShared_ok hsecret
  rw [houtLen, Option.some.injEq] at hcliLen
  rw [hlen, Option.some.injEq] at hsrvLen
  rw [hout, Option.some.injEq] at hshare'
  rw [hsrv, Option.some.injEq] at hreply
  rw [hh, Option.some.injEq] at hh'
  obtain ⟨key, pk, x, xp, hkey, henc, hx, hexp, hkem, hxkey, hmout⟩ := clientKeyShare_ok hclient
  obtain ⟨_, kem, _, _, ct, kemSs, srv, sp, _, peer, xSs, hdec, hencap, hsrvMade, hsexp, himp, hagree, hmshare, hmss⟩ :=
    serverRespond_ok hserver
  obtain ⟨kemSs', _, peer', xSs', hdecap, himp', hagree', rfl⟩ := clientShared_ok hshared
  -- each side's view of what the other has written
  have hpk := front_of_two (hshare' ▸ hmout)
  have hct := front_of_two (hreply ▸ hmshare)
  rw [hpk.1] at hdec
  rw [hpk.2] at himp
  rw [hct.1, ← hh', hkem] at hdecap
  rw [hct.2] at himp'
  rw [← hh', hxkey] at hagree'
  have hkemSs : kemSs' = kemSs := hP.decapsulates hkey (hP.decodes henc hdec) hencap hdecap
  have hxSs : xSs' = xSs :=
    hP.commutes hx hsrvMade (hP.imports hexp himp) (hP.imports hsexp himp') hagree' hagree
  rw [hkemSs, hxSs] at hcss
  refine ⟨hcliLen.symm, hsrvLen.symm, hssLen, hcssLen, kemSs, xSs, _, _, by rw [hss, hmss], hcss, m.h, ct.val, peer',
    hh, ?_, ?_⟩
  · rw [hkem, hdecap, hkemSs]
  · rw [hxkey, hagree', hxSs]

/-- A byte, `n` times. -/
def Block.fill (n : Nat) (v : UInt8) : Block n := ⟨List.replicate n v, List.length_replicate⟩

/-- A provider without secrets: a key pair is a byte, sent as it is. -/
def HybridProvider.clear : HybridProvider where
  Rng := UInt8
  KemKey := UInt8
  XKey := UInt8
  mlKemInit := some 0
  mlKemMakeKey _ rng := (some rng, rng + 1)
  mlKemEncodePublicKey key := .ok (.fill _ key)
  mlKemDecodePublicKey _ pk := some (pk.getD 0 0)
  mlKemEncapsulate key rng := (.ok (.fill _ (rng + key), .fill _ rng), rng + 1)
  mlKemDecapsulate key ct := .ok (.fill _ (ct.getD 0 0 - key))
  curve25519Init := some 0
  curve25519MakeKey rng _ := (some rng, rng + 1)
  curve25519ExportPublic key := .ok (.fill _ key)
  curve25519ImportPublic pk _ := some (pk.getD 0 0)
  curve25519SharedSecret key peer := .ok (.fill _ (key + peer))

theorem HybridProvider.clear_correct :
    HybridProvider.clear.Correct (fun key : UInt8 => key) (fun key : UInt8 => key) where
  decodes h h' := by cases h; cases h'; rfl
  imports h h' := by cases h; cases h'; rfl
  decapsulates hkey hpub h h' := by
    cases h
    cases h'
    subst hpub
    exact congrArg (Block.fill 32) (UInt8.add_sub_cancel _ _)
  commutes ha hb hpub hpub' h h' := by
    cases h
    cases h'
    subst hpub hpub'
    exact congrArg (Block.fill 32) (UInt8.add_comm _ _)

/-- A key share, its answer and the secret, the generators at 7 and 9. -/
theorem hybrid_agreement_clear :
    ∃ (a' : KeyShareArgs .clear) (b' : RespondArgs .clear) (c' : SecretOut) (kemSs xSs : Block 32) (rest rest' : Bytes),
      wnHybridClientKeyShare ⟨some ⟨(0 : UInt8), (0 : UInt8), false, false⟩, some (7 : UInt8), some [], some 0⟩ =
        (.ok (), a') ∧
      wnHybridServerRespond a'.out 1216 ⟨some (9 : UInt8), some [], some 0, some [], some 0⟩ = (.ok (), b') ∧
      wnHybridClientShared a'.h b'.srvShare 1120 ⟨some [], some 0⟩ = (.ok (), c') ∧
      b'.ss = some (kemSs.val ++ xSs.val ++ rest) ∧ c'.ss = some (kemSs.val ++ xSs.val ++ rest') := by
  obtain ⟨a', h, out, hshare, hh, hout, hlen⟩ : ∃ a' h out, wnHybridClientKeyShare (P := .clear)
      ⟨some ⟨(0 : UInt8), (0 : UInt8), false, false⟩, some (7 : UInt8), some [], some 0⟩ = (.ok (), a') ∧
      a'.h = some h ∧ a'.out = some out ∧ a'.outLen = some 1216 := ⟨_, _, _, rfl, rfl, rfl, rfl⟩
  obtain ⟨b', share, hrespond, hsrv, hsrvLen⟩ : ∃ b' share, wnHybridServerRespond (P := .clear) (some out) 1216
      ⟨some (9 : UInt8), some [], some 0, some [], some 0⟩ = (.ok (), b') ∧
      b'.srvShare = some share ∧ b'.srvLen = some 1120 := ⟨_, _, rfl, rfl, rfl⟩
  obtain ⟨c', hsecret⟩ : ∃ c', wnHybridClientShared (P := .clear) (some h) (some share) 1120 ⟨some [], some 0⟩ =
      (.ok (), c') := ⟨_, rfl⟩
  rw [← hout] at hrespond
  rw [← hh, ← hsrv] at hsecret
  obtain ⟨-, -, -, -, kemSs, xSs, rest, rest', hss, hss', -⟩ :=
    (hybrid_agreement HybridProvider.clear_correct).1 hshare hlen hrespond hsrvLen hsecret
  exact ⟨a', b', c', kemSs, xSs, rest, rest', hshare, hrespond, hsecret, hss, hss'⟩

end WolfNano

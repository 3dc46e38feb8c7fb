/-
The two ends of a key exchange come to one secret, whichever group a build has,
and a driver over this key share connects: `wnKeyShare_connects`.

What is asked of wolfCrypt is that a public key survives its encoding, that
agreement commutes, and that decapsulation gives what was encapsulated.
-/
import WolfNano.KeyShare
import WolfNano.HybridFacts
import WolfNano.Conversation

namespace WolfNano

open Prog Wire

/-! ## A Diffie-Hellman share -/

section Dh

variable {Rng Pub : Type} {d : DhOps Rng}

/-- A key that has been made, and given its generator. -/
def DhOps.Made (d : DhOps Rng) (key : d.Key) : Prop :=
  ∃ fresh rng made rng' rng'', d.makeKey rng fresh = (some made, rng') ∧ d.setRng made rng'' = some key

/-- A key can be started, an exported one imported, and of two keys that were
made each gives with the other's public half what the other gives with its
own. -/
structure DhOps.Correct (d : DhOps Rng) (pub : d.Key → Pub) : Prop where
  inits : d.init ≠ none
  imports : ∀ {key x pk}, d.exportPublic key = .ok pk → ∃ peer, d.importPublic pk.val x = some peer ∧ pub peer = pub key
  commutes : ∀ {a b a' b' s}, d.Made a → d.Made b → pub a' = pub a → pub b' = pub b →
    d.sharedSecret b a' = .ok s → d.sharedSecret a b' = .ok s

theorem dhGenerate_ok {m m' : GenerateMem Rng d.Key} (h : dhGenerate d m = .ok () m') :
    ∃ pk, d.Made m'.key ∧ d.exportPublic m'.key = .ok pk ∧ m'.pub = pk.val ++ m.pub.drop d.pubSz ∧
      m'.pubLen = d.pubSz := by
  unfold dhGenerate at h
  rw [bind_of_ok (get_apply _)] at h
  obtain ⟨made, _, hdraw, h⟩ := bind_ok.1 h
  obtain ⟨_, hmake, rfl⟩ := drawing_ok.1 hdraw
  rw [bind_of_ok (modify_apply _ _), bind_of_ok (get_apply _)] at h
  obtain ⟨key, _, hlift, h⟩ := bind_ok.1 h
  obtain ⟨hset, rfl⟩ := ofExcept_eq_ok.1 hlift
  rw [bind_of_ok (modify_apply _ _)] at h
  obtain ⟨pk, hexp, rfl⟩ := storing_ok.1 h
  exact ⟨pk, ⟨_, _, _, _, _, hmake, orCrypto_ok.1 hset⟩, hexp, by rw [patch_zero, pk.length], rfl⟩

theorem dhShared_ok {key : d.Key} {peerPub : Bytes} {peerPubLen : Nat} {m m' : SharedMem} :
    dhShared d key peerPub peerPubLen m = .ok () m' ↔ peerPubLen = d.pubSz ∧ ∃ fresh peer s, d.init = some fresh ∧
      d.importPublic (peerPub.take peerPubLen) fresh = some peer ∧ d.sharedSecret key peer = .ok s ∧
      m' = ⟨s.val ++ m.out.drop d.secretSz, d.secretSz⟩ := by
  have hpatch : ∀ s : Block d.secretSz, patch m.out 0 s.val = s.val ++ m.out.drop d.secretSz := by
    intro s
    rw [patch_zero, s.length]
  unfold dhShared
  refine ⟨fun h => ?_, ?_⟩
  · obtain ⟨_, _, hcheck, h⟩ := bind_ok.1 h
    obtain ⟨hlen, rfl⟩ := failIf_ok.1 hcheck
    obtain ⟨fresh, _, hlift, h⟩ := bind_ok.1 h
    obtain ⟨hinit, rfl⟩ := ofExcept_eq_ok.1 hlift
    obtain ⟨peer, _, hlift, h⟩ := bind_ok.1 h
    obtain ⟨himp, rfl⟩ := ofExcept_eq_ok.1 hlift
    rw [bind_of_ok (modify_apply _ _)] at h
    obtain ⟨s, hs, rfl⟩ := storing_ok.1 h
    exact ⟨not_not.1 hlen, fresh, peer, s, orCrypto_ok.1 hinit, orCrypto_ok.1 himp, hs, by rw [hpatch]⟩
  · rintro ⟨hlen, fresh, peer, s, hinit, himp, hs, rfl⟩
    rw [bind_of_ok (congrFun (failIf_neg (not_not.2 hlen)) _), bind_of_ok (ofExcept_eq_ok.2 ⟨orCrypto_ok.2 hinit, rfl⟩),
      bind_of_ok (ofExcept_eq_ok.2 ⟨orCrypto_ok.2 himp, rfl⟩), bind_of_ok (modify_apply _ _)]
    exact storing_ok.2 ⟨s, hs, by rw [hpatch]⟩

theorem dhKeyShareGenerate_ok {group : Nat} {ks : KeyShare d.Key} {rng : Rng} {pub : Bytes} {pubLen : Nat}
    {a : GenerateArgs Rng d.Key} (h : dhKeyShareGenerate d group ⟨some ks, some rng, some pub, some pubLen⟩ = (.ok (), a)) :
    ∃ ks' pk, a.ks = some ks' ∧ ks'.group = group ∧ d.Made ks'.key ∧ d.exportPublic ks'.key = .ok pk ∧
      a.pub = some (pk.val ++ pub.drop d.pubSz) ∧ a.pubLen = some d.pubSz := by
  simp only [dhKeyShareGenerate] at h
  split at h
  next hgroup =>
    split at h
    next m hrun =>
      cases h
      obtain ⟨pk, hmade, hexp, hpub, hlen⟩ := dhGenerate_ok hrun
      exact ⟨_, pk, rfl, hgroup, hmade, hexp, by rw [← hpub]; rfl, by rw [← hlen]; rfl⟩
    next => cases h
  next => cases h

theorem dhKeyShareShared_ok {group : Nat} {ks : KeyShare d.Key} {peerPub out : Bytes} {peerPubLen outLen : Nat}
    {o : SecretOut} :
    dhKeyShareShared d group (some ks) (some peerPub) peerPubLen ⟨some out, some outLen⟩ = (.ok (), o) ↔
      ks.group = group ∧ ∃ m, dhShared d ks.key peerPub peerPubLen ⟨out, outLen⟩ = .ok () m ∧
        o = ⟨some m.out, some m.outLen⟩ := by
  simp only [dhKeyShareShared]
  split
  next hgroup =>
    cases hrun : dhShared d ks.key peerPub peerPubLen ⟨out, outLen⟩ with
    | ok u m => simp [hgroup, eq_comm]
    | error e m => simp
  next hgroup => simp [hgroup]

/-- What a share gives with the public half of another, the other gives with
the share's. -/
theorem dhKeyShareShared_agrees {pub : d.Key → Pub} (hd : d.Correct pub) {group : Nat} {ks ks' : KeyShare d.Key}
    (hgroup : ks.group = group) (hmade : d.Made ks.key) (hmade' : d.Made ks'.key) {pk pk' : Block d.pubSz}
    (hexp : d.exportPublic ks.key = .ok pk) (hexp' : d.exportPublic ks'.key = .ok pk') {out : Bytes} {outLen : Nat}
    {o : SecretOut}
    (h : dhKeyShareShared d group (some ks') (some pk.val) pk.val.length ⟨some out, some outLen⟩ = (.ok (), o)) :
    dhKeyShareShared d group (some ks) (some pk'.val) pk'.val.length ⟨some out, some outLen⟩ = (.ok (), o) := by
  obtain ⟨-, m, hrun, rfl⟩ := dhKeyShareShared_ok.1 h
  obtain ⟨-, fresh, peer, s, hinit, himp, hs, rfl⟩ := dhShared_ok.1 hrun
  rw [List.take_length] at himp
  obtain ⟨peer₀, himp₀, hpub⟩ := hd.imports (x := fresh) hexp
  rw [himp, Option.some.injEq] at himp₀
  obtain ⟨peer', himp', hpub'⟩ := hd.imports (x := fresh) hexp'
  have hs' := hd.commutes hmade hmade' (himp₀ ▸ hpub) hpub' hs
  refine dhKeyShareShared_ok.2 ⟨hgroup, _, dhShared_ok.2 ⟨pk'.length, fresh, peer', s, hinit, ?_, hs', rfl⟩, rfl⟩
  rw [List.take_length]
  exact himp'

end Dh

/-! ## The hybrid share -/

section Hybrid

variable {P : HybridProvider}

theorem hybridKeyShareGenerate_ok {ks : KeyShare (Hybrid P)} {rng : P.Rng} {pub : Bytes} {pubLen : Nat}
    {a : GenerateArgs P.Rng (Hybrid P)}
    (h : hybridKeyShareGenerate ⟨some ks, some rng, some pub, some pubLen⟩ = (.ok (), a)) :
    ∃ ks' pk xp rest, a.ks = some ks' ∧ ks'.group = Group.x25519mlkem768.code ∧ P.KemMade ks'.key.kem ∧
      P.mlKemEncodePublicKey ks'.key.kem = .ok pk ∧ P.XMade ks'.key.x ∧ P.curve25519ExportPublic ks'.key.x = .ok xp ∧
      a.pub = some (pk.val ++ xp.val ++ rest) ∧ a.pubLen = some wnHybridClientShare := by
  simp only [hybridKeyShareGenerate] at h
  split at h
  next hgroup =>
    rw [Prod.mk.injEq] at h
    obtain ⟨hret, rfl⟩ := h
    obtain ⟨_, out, m, hh, hout, hlen, _, hrun⟩ := wnHybridClientKeyShare_ok (Prod.ext hret rfl)
    obtain ⟨kem, pk, x, xp, hkem, henc, hx, hexp, rfl, rfl, hpub⟩ := clientKeyShare_ok hrun
    exact ⟨⟨m.h, ks.group⟩, pk, xp, _, by rw [hh]; rfl, hgroup, hkem, henc, hx, hexp, by rw [hout, hpub], hlen⟩
  next => cases h

theorem clientShared_of {h : Hybrid P} {srvShare : Bytes} (ss : Bytes) {kemSs xSs : Block 32} {fresh peer : P.XKey}
    (hdec : P.mlKemDecapsulate h.kem (srvShare.take wnHybridMlkemCt) = .ok kemSs) (hinit : P.curve25519Init = some fresh)
    (himp : P.curve25519ImportPublic ((srvShare.drop wnHybridMlkemCt).take wnHybridX25519) fresh = some peer)
    (hshared : P.curve25519SharedSecret h.x peer = .ok xSs) :
    clientShared h srvShare ss = .ok () (kemSs.val ++ xSs.val ++ ss.drop wnHybridSecret) := by
  have hput : storing (fun b ss => patch ss 0 b) (P.mlKemDecapsulate h.kem (srvShare.take wnHybridMlkemCt)) ss =
      .ok () (patch ss 0 kemSs.val) := storing_ok.2 ⟨kemSs, hdec, rfl⟩
  unfold clientShared
  rw [bind_of_ok hput, bind_of_ok (ofExcept_eq_ok.2 ⟨orCrypto_ok.2 hinit, rfl⟩),
    bind_of_ok (ofExcept_eq_ok.2 ⟨orCrypto_ok.2 himp, rfl⟩)]
  exact storing_ok.2 ⟨xSs, hshared, (patch_behind ss kemSs xSs).symm⟩

theorem hybridKeyShareShared_of {ks : KeyShare (Hybrid P)} (hgroup : ks.group = Group.x25519mlkem768.code)
    {share ss ss' : Bytes} {ssLen : Nat} (hlen : share.length = wnHybridServerShare)
    (h : clientShared ks.key share ss = .ok () ss') :
    hybridKeyShareShared (some ks) (some share) share.length ⟨some ss, some ssLen⟩ =
      (.ok (), ⟨some ss', some wnHybridSecret⟩) := by
  simp [hybridKeyShareShared, wnHybridClientShared, hgroup, hlen, h]

end Hybrid

/-! ## A build's share -/

theorem Block.front_of {n : Nat} (b : Block n) (rest : Bytes) : Block.front n (b.val ++ rest) = b := by
  apply Subtype.ext
  show (b.val ++ rest ++ List.replicate n 0).take n = b.val
  rw [List.append_assoc, List.take_left' b.length]

/-- Two components and what is behind them. -/
theorem Block.front_two {n l size : Nat} (h : n + l = size) (a : Block n) (b : Block l) (rest : Bytes) :
    (Block.front size (a.val ++ b.val ++ rest)).val = a.val ++ b.val := by
  subst h
  exact congrArg Subtype.val (Block.front_of ⟨a.val ++ b.val, by simp⟩ rest)

namespace KeyShareProvider

variable {k : KeyShareProvider} {KP XP EP : Type} {kemPub : k.KemKey → KP} {xPub : k.XKey → XP} {eccPub : k.EccKey → EP}

/-- What the exchange needs of wolfCrypt in the three builds; `kemPub`, `xPub`
and `eccPub` are the public halves of keys. -/
structure Correct (k : KeyShareProvider) (kemPub : k.KemKey → KP) (xPub : k.XKey → XP) (eccPub : k.EccKey → EP) :
    Prop where
  x25519 : k.x25519.Correct xPub
  secp256r1 : k.secp256r1.Correct eccPub
  decodes : ∀ {key kem kem' pk}, k.mlKemEncodePublicKey key = .ok pk → k.mlKemDecodePublicKey kem pk.val = some kem' →
    kemPub kem' = kemPub key
  decapsulates : ∀ {key kem rng rng' ct ss}, k.KemMade key → kemPub kem = kemPub key →
    k.mlKemEncapsulate kem rng = (.ok (ct, ss), rng') → k.mlKemDecapsulate key ct.val = .ok ss

theorem generate_ok {g : Group} {rng : k.Rng} {ks : KeyShare (k.Key g)} {pub : Block g.pubSz}
    (h : k.generate g rng = .ok (ks, pub)) : ∃ key a, k.initKey g = some key ∧
      k.wnKeyShareGenerate g ⟨some ⟨key, g.code⟩, some rng, some [], some 0⟩ = (.ok (), a) ∧
      ks = a.ks.getD ⟨k.zeroKey g, 0⟩ ∧ pub = .front g.pubSz (a.pub.getD []) := by
  simp only [generate, wnKeyShareInit, if_pos] at h
  cases hinit : k.initKey g with
  | none =>
    rw [hinit] at h
    cases h
  | some key =>
    rw [hinit] at h
    simp only [except_ok_bind] at h
    obtain ⟨_, hret, h⟩ := except_bind_ok.1 h
    cases h
    exact ⟨key, _, rfl, Prod.ext hret rfl, rfl, rfl⟩

theorem shared_ok {g : Group} {ks : KeyShare (k.Key g)} {peerPub : Bytes} {secret : Block g.secretSz} :
    k.shared g ks peerPub = .ok secret ↔
      ∃ o, k.wnKeyShareShared g (some ks) (some peerPub) peerPub.length ⟨some [], some 0⟩ = (.ok (), o) ∧
        secret = .front g.secretSz (o.ss.getD []) := by
  rw [shared]
  obtain ⟨ret, o⟩ := k.wnKeyShareShared g (some ks) (some peerPub) peerPub.length ⟨some [], some 0⟩
  cases ret with
  | ok u => simp [Except.map, eq_comm]
  | error e => simp [Except.map]

theorem made_of_xMade {P : HybridProvider} {key : P.XKey} (h : P.XMade key) : P.x25519.Made key := by
  obtain ⟨fresh, rng, rng', h⟩ := h
  exact ⟨fresh, rng, key, rng', rng', h, rfl⟩

/-- Two shares, each with the other's public half in a buffer. -/
theorem dh_exchange {Rng Pub : Type} {d : DhOps Rng} {pub : d.Key → Pub} (hd : d.Correct pub) {group : Nat}
    {ks ks' zero : KeyShare d.Key} {rng rng' : Rng} {a a' : GenerateArgs Rng d.Key} {o : SecretOut}
    (hgen : dhKeyShareGenerate d group ⟨some ks, some rng, some [], some 0⟩ = (.ok (), a))
    (hgen' : dhKeyShareGenerate d group ⟨some ks', some rng', some [], some 0⟩ = (.ok (), a'))
    (h : dhKeyShareShared d group (some (a'.ks.getD zero)) (some (Block.front d.pubSz (a.pub.getD [])).val)
      (Block.front d.pubSz (a.pub.getD [])).val.length ⟨some [], some 0⟩ = (.ok (), o)) :
    dhKeyShareShared d group (some (a.ks.getD zero)) (some (Block.front d.pubSz (a'.pub.getD [])).val)
      (Block.front d.pubSz (a'.pub.getD [])).val.length ⟨some [], some 0⟩ = (.ok (), o) := by
  obtain ⟨made, pk, hks, hgroup, hmade, hexp, hpub, -⟩ := dhKeyShareGenerate_ok hgen
  obtain ⟨made', pk', hks', -, hmade', hexp', hpub', -⟩ := dhKeyShareGenerate_ok hgen'
  rw [hks', hpub, Option.getD_some, Option.getD_some, Block.front_of] at h
  rw [hks, hpub', Option.getD_some, Option.getD_some, Block.front_of]
  exact dhKeyShareShared_agrees hd hgroup hmade hmade' hexp hexp' h

/-- What the server comes to with the client's share, the client comes to with
the server's. -/
theorem answer_agrees (hk : k.Correct kemPub xPub eccPub) {g : Group} {rng rng' : k.Rng} {ks : KeyShare (k.Key g)}
    {pub : Block g.pubSz} (hclient : k.generate g rng = .ok (ks, pub)) {share : Block g.srvShareSz}
    {secret : Block g.secretSz} (hserver : k.answer g rng' pub.val = .ok (share, secret)) :
    k.shared g ks share.val = .ok secret := by
  obtain ⟨key, a, -, hgen, rfl, rfl⟩ := generate_ok hclient
  cases g with
  | x25519 =>
    obtain ⟨⟨ks', share'⟩, hclient', hserver⟩ := except_bind_ok.1 hserver
    obtain ⟨secret', hshared, hserver⟩ := except_bind_ok.1 hserver
    cases hserver
    obtain ⟨key', a', -, hgen', rfl, rfl⟩ := generate_ok hclient'
    obtain ⟨o, hrun, rfl⟩ := shared_ok.1 hshared
    rw [wnKeyShareGenerate] at hgen hgen'
    exact shared_ok.2 ⟨o, dh_exchange (d := k.x25519) hk.x25519 hgen hgen' hrun, rfl⟩
  | secp256r1 =>
    obtain ⟨⟨ks', share'⟩, hclient', hserver⟩ := except_bind_ok.1 hserver
    obtain ⟨secret', hshared, hserver⟩ := except_bind_ok.1 hserver
    cases hserver
    obtain ⟨key', a', -, hgen', rfl, rfl⟩ := generate_ok hclient'
    obtain ⟨o, hrun, rfl⟩ := shared_ok.1 hshared
    rw [wnKeyShareGenerate] at hgen hgen'
    exact shared_ok.2 ⟨o, dh_exchange (d := k.secp256r1) hk.secp256r1 hgen hgen' hrun, rfl⟩
  | x25519mlkem768 =>
    rw [wnKeyShareGenerate] at hgen
    obtain ⟨ks, pk, xp, rest, hks, hgroup, hkem, henc, hx, hexp, hpub, -⟩ := hybridKeyShareGenerate_ok hgen
    simp only [answer] at hserver
    generalize hrespond : wnHybridServerRespond _ _ _ = x at hserver
    obtain ⟨ret, reply⟩ := x
    cases ret with
    | error e => cases hserver
    | ok u =>
      cases hserver
      obtain ⟨cli, m, m', hcli, hsrv, -, hss, -, hrun⟩ := wnHybridServerRespond_ok hrespond
      obtain ⟨fresh, kem, _, _, ct, kemSs, srv, sp, xfresh, peer, xSs, hdec, hencap, hsrvMade, hsexp, himp, hagree, hmshare,
        hmss⟩ := serverRespond_ok hrun
      have hcli' : cli = pk.val ++ xp.val := by
        rw [hpub, Option.some.injEq] at hcli
        rw [← hcli]
        exact Block.front_two rfl pk xp rest
      have hpk := front_of_two (hcli'.trans (List.append_nil _).symm)
      rw [hpk.1] at hdec
      rw [hpk.2] at himp
      have hshare : (Block.front wnHybridServerShare (reply.srvShare.getD [])).val = ct.val ++ sp.val := by
        rw [hsrv, hmshare]
        exact Block.front_two rfl ct sp _
      have hct := front_of_two (hshare.trans (List.append_nil _).symm)
      -- the client's half of each component
      have hdecap := hk.decapsulates hkem (hk.decodes henc hdec) hencap
      obtain ⟨xfresh', hinit⟩ := Option.ne_none_iff_exists'.1 hk.x25519.inits
      obtain ⟨peer₀, himp₀, hpeer⟩ := hk.x25519.imports (x := xfresh) hexp
      obtain rfl : peer₀ = peer := Option.some.inj (himp₀.symm.trans himp)
      obtain ⟨peer', himp', hpeer'⟩ := hk.x25519.imports (x := xfresh') hsexp
      have hagree' := hk.x25519.commutes (made_of_xMade hx) (made_of_xMade hsrvMade) hpeer hpeer' hagree
      have hsecret := clientShared_of [] (hct.1 ▸ hdecap) hinit (hct.2 ▸ himp') hagree'
      refine shared_ok.2 ⟨⟨some (kemSs.val ++ xSs.val ++ []), some wnHybridSecret⟩, ?_, ?_⟩
      · rw [hks]
        exact hybridKeyShareShared_of hgroup (Block.length _) hsecret
      · rw [hss, hmss]
        apply Subtype.ext
        exact (Block.front_two rfl kemSs xSs _).trans (Block.front_two rfl kemSs xSs _).symm

end KeyShareProvider

/-! ## The drivers over it -/

section Drivers

variable {k : KeyShareProvider} {cfg : Config} {p : Provider cfg} {c : CertProvider}

theorem KeyShareProvider.provider_total (hp : p.Total) : (k.provider p).Total :=
  { hp with }

theorem KeyShareProvider.provider_opensSealed (hopen : p.OpensSealed) : (k.provider p).OpensSealed := hopen

/-- A driver's arguments and a server that take each other (`Suits`), and both
with shares from this code, the server's generator at `rng`. -/
inductive Meets (rng : k.Rng) : Connect (k.provider p) c → Rfc.Party cfg → Prop
  | psk {a : PskArgs (k.provider p)} {s : Rfc.Server cfg} {random sid : Block 32} {ks : KeyShare (k.Key cfg.group)}
      {pub : Block cfg.group.pubSz} {answer : Block cfg.group.srvShareSz × Block cfg.group.secretSz}
      (hargs : ¬ a.Rejected (k.provider p)) (hne : a.identity ≠ [])
      (hsize : pskHelloBase cfg + a.identity.length ≤ min a.io.scratchLen wnMaxPlaintext)
      (hdraws : PskDraws a random sid ks pub) (hpsk : s.psk = a.psk) (hid : s.identity = a.identity)
      (hexchange : ∀ cliShare, s.exchange cliShare = (k.answer cfg.group rng cliShare).toOption)
      (hanswer : k.answer cfg.group rng pub.val = .ok answer) : Meets rng (.psk a) (.psk s)
  | cert {a : CertArgs (k.provider p) c} {s : Rfc.CertServer cfg} {random sid : Block 32}
      {ks : KeyShare (k.Key cfg.group)} {pub : Block cfg.group.pubSz} {leafSpki : Bytes}
      {answer : Block cfg.group.srvShareSz × Block cfg.group.secretSz} (hargs : ¬ a.Rejected (k.provider p) c)
      (hname : (a.serverName.getD []).length ≤ 255) (hdraws : CertDraws a random sid ks pub)
      (hscheme : s.scheme ∈ certSigAlgs cfg) (hproves : s.Proves a leafSpki)
      (hexchange : ∀ cliShare, s.exchange cliShare = (k.answer cfg.group rng cliShare).toOption)
      (hanswer : k.answer cfg.group rng pub.val = .ok answer) : Meets rng (.cert a) (.cert s)

variable {KP XP EP : Type} {kemPub : k.KemKey → KP} {xPub : k.XKey → XP} {eccPub : k.EccKey → EP}

theorem Meets.suits (hk : k.Correct kemPub xPub eccPub) {rng : k.Rng} {conn : Connect (k.provider p) c}
    {party : Rfc.Party cfg} (h : Meets rng conn party) : Suits conn party := by
  cases h with
  | psk hargs hne hsize hdraws hpsk hid hexchange hanswer =>
    obtain ⟨_, rng₂, -, -, hgen⟩ := hdraws.draws
    exact .psk hargs hne hsize hdraws hpsk hid ((hexchange _).trans (by rw [hanswer]; rfl))
      (KeyShareProvider.answer_agrees hk hgen hanswer)
  | cert hargs hname hdraws hscheme hproves hexchange hanswer =>
    obtain ⟨_, rng₂, -, -, hgen⟩ := hdraws.draws
    exact .cert hargs hname hdraws hscheme hproves ((hexchange _).trans (by rw [hanswer]; rfl))
      (KeyShareProvider.answer_agrees hk hgen hanswer)

end Drivers

/-- P-256 without secrets, as `HybridProvider.clear`. -/
def KeyShareProvider.clear : KeyShareProvider := { HybridProvider.clear with
  rngGenerateBlock := fun rng n => (some (Block.zero n), rng)
  EccKey := UInt8
  eccInit := some 0
  eccMakeKey := fun (rng : UInt8) _ => (some rng, rng + 1)
  eccSetRng := fun key _ => some key
  eccExportX963 := fun key => .ok (.fill _ key)
  eccImportX963 := fun pk _ => some (pk.getD 0 0)
  eccSharedSecret := fun key peer => .ok (.fill _ (key + peer))
  kemZero := (0 : UInt8)
  xZero := (0 : UInt8)
  eccZero := (0 : UInt8) }

theorem KeyShareProvider.clear_correct : KeyShareProvider.clear.Correct (fun key : UInt8 => key) (fun key : UInt8 => key)
    (fun key : UInt8 => key) where
  x25519 :=
    { inits := Option.some_ne_none _
      imports := fun h => by cases h; exact ⟨_, rfl, rfl⟩
      commutes := fun _ _ ha hb h => by
        cases h
        subst ha hb
        exact congrArg (fun v => Except.ok (Block.fill 32 v)) (UInt8.add_comm _ _) }
  secp256r1 :=
    { inits := Option.some_ne_none _
      imports := fun h => by cases h; exact ⟨_, rfl, rfl⟩
      commutes := fun _ _ ha hb h => by
        cases h
        subst ha hb
        exact congrArg (fun v => Except.ok (Block.fill 32 v)) (UInt8.add_comm _ _) }
  decodes h h' := by cases h; cases h'; rfl
  decapsulates hkey hpub h := by
    cases h
    subst hpub
    exact congrArg (fun v => Except.ok (Block.fill 32 v)) (UInt8.add_sub_cancel _ _)

def Config.hybrid : Config := { Config.small with group := .x25519mlkem768 }

/-- A PSK server of that build, its generator at 9. -/
def Rfc.Server.clearHybrid : Rfc.Server .hybrid where
  psk := [1]
  identity := [105]
  random := Block.zero 32
  random_ne := Block.zero_ne_hrrRandom
  exchange cliShare := (KeyShareProvider.clear.answer .x25519mlkem768 (9 : UInt8) cliShare).toOption
  arrange l := l
  arrange_perm _ := .refl _
  groups := none
  groups_fit := Rfc.CExt.groups_none_fit

def Provider.clearHybrid : Provider .hybrid := KeyShareProvider.clear.provider (.clear .hybrid)

end WolfNano

/-
The certificate checks of `wn_connect.c`: the chain, the server's name, the
pin, the validity window, the CertificateVerify signature, and the parsing of
a Certificate message.
-/
import WolfNano.Msg
import WolfNano.Provider

namespace WolfNano

variable (cfg : Config) (c : CertProvider)

/-! ## CertificateVerify -/

/-- The label of `wn_BuildCvTbs`, in ASCII. -/
def cvLabel : Bytes :=
  [0x54, 0x4c, 0x53, 0x20, 0x31, 0x2e, 0x33, 0x2c, 0x20, 0x73, 0x65, 0x72, 0x76, 0x65, 0x72, 0x20,
   0x43, 0x65, 0x72, 0x74, 0x69, 0x66, 0x69, 0x63, 0x61, 0x74, 0x65, 0x56, 0x65, 0x72, 0x69, 0x66,
   0x79]

/-- `wn_BuildCvTbs`: the content a CertificateVerify signs (RFC 8446 4.4.3). -/
def wnBuildCvTbs (th : Bytes) : Bytes :=
  List.replicate 64 0x20 ++ cvLabel ++ [0x00] ++ th

/-- A verifier's answer: an error, or a signature that is not valid, is bad. -/
def verified : Option Bool → Except Err Unit
  | some true => .ok ()
  | _ => .error .badCert

def wnCvEcdsa (spki : Bytes) (hashType : HashType) (curveSize : Nat) (tbs sig : Bytes) :
    Except Err Unit :=
  match c.hash hashType tbs with
  | none => .error .crypto
  | some hash =>
    if c.eccInit = false then .error .crypto
    else match c.eccPublicKeyDecode spki with
      | none => .error .badCert
      | some key =>
        if c.eccCurveSize key ≠ some curveSize then .error .badCert
        else verified (c.eccVerifyHash sig hash key)

def wnCvEd25519 (spki tbs sig : Bytes) : Except Err Unit :=
  if c.ed25519Init = false then .error .crypto
  else
    let key := if spki.length = 32 then c.ed25519ImportPublic spki else c.ed25519PublicKeyDecode spki
    match key with
    | none => .error .badCert
    | some key => verified (c.ed25519VerifyMsg sig tbs key)

def wnCvRsaPss (spki : Bytes) (hashType : HashType) (tbs sig : Bytes) : Except Err Unit :=
  match c.hash hashType tbs with
  | none => .error .crypto
  | some hash =>
    if c.rsaInit = false then .error .crypto
    else match c.rsaPublicKeyDecode spki with
      | none => .error .badCert
      | some key => verified (some (c.rsaPssVerifyCheck sig hash hashType key))

def wnCvMlDsa (level : MldsaLevel) (spki tbs sig : Bytes) : Except Err Unit :=
  if c.mlDsaInit = false then .error .crypto
  else if c.mlDsaSetParams level = false then .error .crypto
  else match c.mlDsaPublicKeyDecode spki with
    | none => .error .badCert
    | some key => verified (c.mlDsaVerify sig tbs key)

/-- The dispatch of `wn_CertVerify`, on the content to be signed. -/
def cvDispatch (scheme : Nat) (spki tbs sig : Bytes) : Except Err Unit :=
  if scheme = 0x0403 then wnCvEcdsa c spki .sha256 32 tbs sig
  else if scheme = 0x0503 ∧ cfg.haveEcc384 ∧ cfg.sha384 then wnCvEcdsa c spki .sha384 48 tbs sig
  else if scheme = 0x0807 ∧ cfg.haveEd25519 then wnCvEd25519 c spki tbs sig
  else if scheme = 0x0804 ∧ ¬ cfg.noRsa then wnCvRsaPss c spki .sha256 tbs sig
  else if scheme = 0x0805 ∧ ¬ cfg.noRsa ∧ cfg.sha384 then wnCvRsaPss c spki .sha384 tbs sig
  else if scheme = 0x0806 ∧ ¬ cfg.noRsa ∧ cfg.sha512 then wnCvRsaPss c spki .sha512 tbs sig
  else match cfg.mldsa with
    | some level =>
      if scheme = level.scheme then wnCvMlDsa c level spki tbs sig else .error .unsupported
    | none => .error .unsupported

/-- `wn_CertVerify` over the transcript hash `th`. -/
def wnCertVerify (scheme : Nat) (spki th sig : Bytes) : Except Err Unit :=
  cvDispatch cfg c scheme spki (wnBuildCvTbs th) sig

/-! ## Identity -/

def wnCheckKeyPin (leaf : DecodedCert) (pin : Bytes) : Except Err Unit :=
  if pin.length > 0 ∧ pin = leaf.publicKey then .ok () else .error .badCert

def wnAsciiLower (b : UInt8) : UInt8 :=
  if b ≥ 0x41 ∧ b ≤ 0x5A then b - 0x41 + 0x61 else b

/-- `wn_DnsCaseEq` of two names of one length. -/
def wnDnsCaseEq (a b : Bytes) : Bool := a.map wnAsciiLower == b.map wnAsciiLower

/-- `wn_DnsNameMatch`: whether the pattern matches the host. -/
def wnDnsNameMatch (pat host : Bytes) : Bool :=
  if pat.length = 0 ∨ host.length = 0 then false
  else if pat.length > 2 ∧ pat.getD 0 0 = 0x2A ∧ pat.getD 1 0 = 0x2E then
    let k := (host.takeWhile (· ≠ 0x2E)).length
    k > 0 ∧ k < host.length ∧ pat.length - 1 = host.length - k ∧ wnDnsCaseEq (pat.drop 1) (host.drop k)
  else pat.length = host.length ∧ wnDnsCaseEq pat host

def wnCheckServerName (leaf : DecodedCert) (host : Bytes) : Except Err Unit :=
  let sawDns := leaf.altNames.any (·.isDns)
  if leaf.altNames.any (fun e => e.isDns && wnDnsNameMatch e.name host) then .ok ()
  else match leaf.subjectCN with
    | some cn => if sawDns = false ∧ wnDnsNameMatch cn host then .ok () else .error .badCert
    | none => .error .badCert

/-! ## Validity -/

/-- A date, read and checked. -/
def dateValid (validate : Bytes → UInt8 → Bool) (date : Bytes) : Except Err Unit :=
  match c.getDateInfo date with
  | none => .error .badCert
  | some (d, fmt) => if validate d fmt then .ok () else .error .badCert

def wnCertTimeValid (cert : DecodedCert) (now : c.Time) : Except Err Unit :=
  match cert.beforeDate, cert.afterDate with
  | some before, some after => do
    dateValid c (fun d fmt => c.validateBefore d fmt now) before
    dateValid c (fun d fmt => c.validateAfter d fmt now) after
  | _, _ => .error .badCert

/-! ## The chain -/

/-- One turn of `wn_VerifyChain`'s loop: `cert` against its issuer, which is
`next` or, at the top, the anchor. -/
def checkIssuer (anchor : Bytes) (now : c.Time) (cert : Bytes) (next : Option Bytes) :
    Except Err Unit :=
  let issuerDer := next.getD anchor
  match c.parseCert issuerDer with
  | none => .error .badCert
  | some issuer =>
    if c.checkCertSignaturePubKey cert issuer.publicKey issuer.keyOID = false then .error .badCert
    else if next.isSome ∧ issuer.isCA = false then .error .badCert
    else if cfg.noAsnTime = false ∧ next.isSome ∧ issuerDer ≠ anchor then wnCertTimeValid c issuer now
    else .ok ()

def checkIssuers (anchor : Bytes) (now : c.Time) : List Bytes → Except Err Unit
  | [] => .ok ()
  | cert :: rest => do
    checkIssuer cfg c anchor now cert rest.head?
    checkIssuers anchor now rest

/-- The checks on the leaf; its public key. -/
def checkLeaf (spkiCap : Nat) (serverName pinnedKey : Option Bytes) (now : c.Time) (cert : Bytes) :
    Except Err Bytes :=
  match c.parseCert cert with
  | none => .error .badCert
  | some leaf =>
    if leaf.publicKey.length > spkiCap then .error .crypto
    else if leaf.extKeyUsageSet ∧ leaf.allowsDigitalSig = false then .error .badCert
    else if leaf.extExtKeyUsageSet ∧ leaf.allowsServerAuth = false then .error .badCert
    else do
      match pinnedKey with
      | some pin => wnCheckKeyPin leaf pin
      | none => pure ()
      match serverName with
      | some name => if cfg.x509Hostname then wnCheckServerName leaf name else .error .unsupported
      | none => pure ()
      if cfg.noAsnTime then pure () else wnCertTimeValid c leaf now
      pure leaf.publicKey

/-- `wn_VerifyChain`: the leaf's public key, if the chain verifies. -/
def wnVerifyChain (certs : List Bytes) (anchor : Bytes) (spkiCap : Nat)
    (serverName pinnedKey : Option Bytes) (now : c.Time) : Except Err Bytes :=
  match certs with
  | [] => .error .invalidArg
  | leaf :: _ => do
    checkIssuers cfg c anchor now certs
    checkLeaf cfg c spkiCap serverName pinnedKey now leaf

/-! ## The Certificate message -/

def wnMaxChain : Nat := 4

/-- The entry loop of the Certificate parser, for at most `n` more entries. -/
def certEntries (listEnd : Nat) : Nat → Reader → List Bytes × Reader
  | 0, r => ([], r)
  | n + 1, r =>
    if r.pos < listEnd ∧ r.err = false then
      let (cl, r) := wnReadU24 r
      let cert := (r.buf.drop r.pos).take cl
      let (_, r) := wnReadBytes r cl
      let (extl, r) := wnReadU16 r
      let (_, r) := wnReadBytes r extl
      let (certs, r) := certEntries listEnd n r
      (cert :: certs, r)
    else ([], r)

/-- The `certs` array the driver takes from a Certificate's body. -/
def certificateCerts (body : Bytes) : Except Err (List Bytes) :=
  let hr := wnReaderInit body body.length
  let (ctxLen, hr) := wnReadU8 hr
  let (_, hr) := wnReadBytes hr ctxLen.toNat
  let (listLen, hr) := wnReadU24 hr
  let listEnd := add32 hr.pos listLen
  if hr.err = true ∨ ctxLen ≠ 0 ∨ listEnd ≠ body.length then .error .decode
  else
    let (certs, hr) := certEntries listEnd wnMaxChain hr
    if hr.err = true then .error .decode else .ok certs

end WolfNano

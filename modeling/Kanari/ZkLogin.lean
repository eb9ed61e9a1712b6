import Kanari.Address
import Kanari.Lib.Checked

/-!
# The zkLogin transaction authenticator

`verifyZkloginTxSignature` is what transaction verification calls; `admitZkloginTx` is the entry
point written for admission.
-/

namespace Kanari.ZkLogin

open Lib

inductive SignatureError where
  | invalidPrivateKey (message : String)
  | invalidFormat (message : String)
  | invalidPublicKey (message : String)
  | verificationFailed
  | expired
  | invalidSignatureLength
  deriving DecidableEq

/-- A byte array whose length the decoder has checked. -/
structure FixedBytes (n : Nat) where
  bytes : Bytes
  length_eq : bytes.length = n
  deriving DecidableEq

def asBytes (s : String) : Bytes := s.toUTF8.data.toList

lemma asBytes_injective {a b : String} (h : asBytes a = asBytes b) : a = b := by
  have hdata : a.toUTF8.data = b.toUTF8.data := Array.toList_inj.mp h
  exact String.toByteArray_inj.mp (ByteArray.ext hdata)

def saturatingAdd (a b : UInt64) : UInt64 :=
  if a.toNat + b.toNat < 2 ^ 64 then a + b else UInt64.ofNat (2 ^ 64 - 1)

inductive JwtAud where
  | single (aud : String)
  | multiple (auds : List String)
  | missing
  deriving DecidableEq

def JwtAud.contains (a : JwtAud) (aud : String) : Bool :=
  match a with
  | .single s => s == aud
  | .multiple v => v.any (· == aud)
  | .missing => false

structure JwtClaims where
  iss : String
  aud : JwtAud := .missing
  sub : String
  exp : Option UInt64 := none
  iat : Option UInt64 := none
  nbf : Option UInt64 := none
  nonce : Option String := none
  deriving DecidableEq

inductive Algorithm where
  | rs256
  | other (name : String)
  deriving DecidableEq

def Algorithm.debug : Algorithm → String
  | .rs256 => "RS256"
  | .other name => name

structure JwtHeader where
  alg : Algorithm
  kid : Option String

structure RsaJwk where
  kid : Option String := none
  kty : String
  alg : Option String := none
  n : String
  e : String

structure JwksDocument where
  keys : List RsaJwk := []

structure JwtAuth where
  jwt : String
  jwks : JwksDocument
  iss : String
  aud : String
  randomness : FixedBytes 32
  salt : FixedBytes 32

structure ProofAuth where
  vk : Bytes
  inputs : Bytes
  proof : Bytes
  expectedAddress : String

inductive ZkAuthKind where
  | jwt (auth : JwtAuth)
  | proof (auth : ProofAuth)

structure ZkLoginAuthenticator where
  ephemeralPubkey : FixedBytes 32
  ephemeralSig : FixedBytes 64
  maxEpoch : UInt64
  kind : ZkAuthKind

structure VerifiedZkLogin where
  address : String
  maxEpoch : UInt64
  deriving DecidableEq

structure ZkLoginTxSignature where
  v : UInt32
  auth : ZkLoginAuthenticator

/-! ## Primitives from other crates

`K` is the type of RSA public keys, `V` of Groth16 verifying keys, `G` of Groth16 proofs. -/

structure Primitives (K V G : Type) where
  sha256 : Bytes → Bytes
  ed25519KeyValid : Bytes → Bool
  ed25519Verify : Bytes → Bytes → Bytes → Bool
  /-- JSON decoding of a bundle. -/
  parseBundle : Bytes → Option ZkLoginTxSignature
  decodeHeader : String → Except String JwtHeader
  fromRsaComponents : String → String → Except String K
  /-- `jsonwebtoken::decode` with the given key, issuer and audience, without the expiry check. -/
  decodeJwt : K → String → String → String → Option JwtClaims
  /-- The token carries a signature that is valid under the key. -/
  jwtSigned : K → String → Bool
  /-- The payload of a token, whoever signed it. -/
  jwtPayload : String → Option JwtClaims
  vkFromBytes : Bytes → Except String V
  vkToBytes : V → Option Bytes
  proofFromBytes : Bytes → Except String G
  groth16Verify : V → List Nat → G → Option Bool

variable {K V G : Type} (P : Primitives K V G)

def maxIssBytes : Nat := 64
def maxAudBytes : Nat := 96
def maxSubBytes : Nat := 64

def padZero (data : Bytes) (width : Nat) : Bytes :=
  data ++ List.replicate (width - data.length) 0

def addressPreimage (iss aud sub salt : Bytes) : Bytes :=
  asBytes "zkLogin-v2" ++ padZero iss maxIssBytes ++ padZero aud maxAudBytes ++
    padZero sub maxSubBytes ++ salt

def hexLiteral (b : Bytes) : String := String.ofList ('0' :: 'x' :: Hex.encode b)

def deriveZkloginAddressV2 (iss aud sub : String) (salt : Bytes) :
    Except SignatureError String := do
  let issB := asBytes iss
  let audB := asBytes aud
  let subB := asBytes sub
  ensure (!(issB.isEmpty || audB.isEmpty || subB.isEmpty))
    (.invalidFormat "zkLogin iss/aud/sub must all be non-empty")
  ensure (issB.length ≤ maxIssBytes && audB.length ≤ maxAudBytes && subB.length ≤ maxSubBytes)
    (.invalidFormat "zkLogin field too long (iss<=64, aud<=96, sub<=64)")
  ensure (salt.length == 32) (.invalidFormat "zkLogin salt must be exactly 32 bytes")
  return hexLiteral (P.sha256 (addressPreimage issB audB subB salt))

def leewaySecs : UInt64 := 60

def verifyClaimsTiming (claims : JwtClaims) (now : UInt64) : Except SignatureError Unit := do
  let exp ← orError claims.exp (.invalidFormat "JWT has no exp claim")
  ensure (now ≤ saturatingAdd exp leewaySecs) .expired
  ensure (claims.iat.all (· ≤ saturatingAdd now leewaySecs)) .expired
  ensure (claims.nbf.all (· ≤ saturatingAdd now leewaySecs)) .expired

def verifyEphemeral (publicKey msg sig : Bytes) : Except SignatureError Unit := do
  ensure (publicKey.length == 32) (.invalidPublicKey "ephemeral public key must be 32 bytes")
  ensure (P.ed25519KeyValid publicKey) (.invalidPublicKey "bad ephemeral public key")
  ensure (sig.length == 64) (.invalidFormat "ephemeral signature must be 64 bytes")
  ensure (P.ed25519Verify publicKey msg sig) .verificationFailed

def computeNonce (ephemeralPubkey : Bytes) (maxEpoch : UInt64) (randomness : Bytes) : String :=
  String.ofList (Hex.encode (P.sha256
    (asBytes "zkLogin-nonce" ++ ephemeralPubkey ++ Text.leBytes 8 maxEpoch.toNat ++ randomness)))

def RsaJwk.decodingKey (jwk : RsaJwk) : Except SignatureError K := do
  ensure (jwk.kty == "RSA") (.invalidPublicKey ("unsupported JWK kty " ++ jwk.kty))
  mapError (fun e => .invalidPublicKey ("bad RSA JWK components: " ++ e))
    (P.fromRsaComponents jwk.n jwk.e)

def verifyJwtWithJwks (jwt : String) (jwks : JwksDocument) (expectedIss expectedAud : String)
    (expectedNonce : Option String) (now : UInt64) : Except SignatureError JwtClaims := do
  let header ← mapError (fun e => SignatureError.invalidFormat ("bad JWT header: " ++ e))
    (P.decodeHeader jwt)
  ensure (header.alg == .rs256)
    (.invalidFormat ("unsupported JWT alg " ++ header.alg.debug ++ " (need RS256)"))
  let kid ← orError header.kid (.invalidFormat "JWT header has no kid")
  let jwk ← orError (jwks.keys.find? (·.kid == some kid))
    (.invalidPublicKey ("unknown JWK kid " ++ kid))
  let key ← jwk.decodingKey P
  let claims ← orError (P.decodeJwt key expectedIss expectedAud jwt) .verificationFailed
  ensure (!(Text.trim claims.sub.toList).isEmpty) (.invalidFormat "JWT sub is empty")
  verifyClaimsTiming claims now
  ensure (expectedNonce.all fun expected => claims.nonce == some expected) .verificationFailed
  return claims

def maxVkBytes : Nat := 32 * 1024
def maxProofBytes : Nat := 1024
def maxPublicInputs : Nat := 64

/-- The order of the BN254 scalar field. -/
def frModulus : Nat :=
  21888242871839275222246405745257275088548364400416034343698204186575808495617

/-- Consecutive groups of 32 bytes; a shorter remainder is dropped. `fuel` is the byte count. -/
def chunks32 : Nat → Bytes → List Bytes
  | 0, _ => []
  | fuel + 1, bs => if bs.length < 32 then [] else bs.take 32 :: chunks32 fuel (bs.drop 32)

def publicInputsFromBeBytes (bs : Bytes) : Except SignatureError (List Nat) := do
  ensure (bs.length % 32 == 0) (.invalidFormat
    ("public inputs must be a multiple of 32 bytes, got " ++ toString bs.length))
  ensure (bs.length / 32 ≤ maxPublicInputs) (.invalidFormat ("too many public inputs: " ++
    toString (bs.length / 32) ++ " > " ++ toString maxPublicInputs))
  return (chunks32 bs.length bs).map fun c => Text.leNat c.reverse % frModulus

def verifyGroth16Proof (vkBytes publicInputsBytes proofBytes : Bytes) :
    Except SignatureError Bool := do
  ensure (!vkBytes.isEmpty && vkBytes.length ≤ maxVkBytes)
    (.invalidFormat ("bad vk length " ++ toString vkBytes.length))
  ensure (!proofBytes.isEmpty && proofBytes.length ≤ maxProofBytes)
    (.invalidFormat ("bad proof length " ++ toString proofBytes.length))
  let vk ← mapError (fun e => SignatureError.invalidFormat ("bad Groth16 verifying key: " ++ e))
    (P.vkFromBytes vkBytes)
  let proof ← mapError (fun e => SignatureError.invalidFormat ("bad Groth16 proof: " ++ e))
    (P.proofFromBytes proofBytes)
  let inputs ← publicInputsFromBeBytes publicInputsBytes
  orError (P.groth16Verify vk inputs proof) .verificationFailed

def vkFingerprint (vk : V) : Except SignatureError Bytes := do
  let bs ← orError (P.vkToBytes vk) (.invalidFormat "vk does not serialize")
  return P.sha256 bs

def verifyPinnedProof (vkPin vkBytes publicInputsBytes proofBytes : Bytes) :
    Except SignatureError Bool := do
  let vk ← mapError (fun e => SignatureError.invalidFormat ("bad vk bytes: " ++ e))
    (P.vkFromBytes vkBytes)
  let fingerprint ← vkFingerprint P vk
  ensure (fingerprint == vkPin) .verificationFailed
  verifyGroth16Proof P vkBytes publicInputsBytes proofBytes

def trimStart0x : List Char → List Char
  | '0' :: 'x' :: rest => trimStart0x rest
  | cs => cs

/-- Equality up to leading `0x` markers and letter case. -/
def addressesEqual (a b : String) : Bool :=
  (trimStart0x a.toList).map Char.toLower == (trimStart0x b.toList).map Char.toLower

/-- One public input as a byte: its upper 31 bytes must be zero. -/
def inputByte (chunk : Bytes) : Except SignatureError UInt8 := do
  ensure ((chunk.take 31).all (· == 0)) (.invalidFormat "address input is not a byte")
  return chunk.getD 31 0

def addressFromInputs (inputs : Bytes) : Except SignatureError String := do
  ensure (inputs.length == 64 * 32)
    (.invalidFormat ("proof inputs must be 64x32 bytes, got " ++ toString inputs.length))
  let addr ← (chunks32 (32 * 32) (inputs.take (32 * 32))).mapM inputByte
  return hexLiteral addr

/-- Pinned verification where the caller has a pin, bare verification otherwise. -/
def verifyProofAgainst (vkPin : Option Bytes) (proof : ProofAuth) : Except SignatureError Bool :=
  match vkPin with
  | some pin => verifyPinnedProof P pin proof.vk proof.inputs proof.proof
  | none => verifyGroth16Proof P proof.vk proof.inputs proof.proof

def verifyProofKind (ephemeralPubkey ephemeralSig txHash : Bytes) (maxEpoch : UInt64)
    (proof : ProofAuth) (vkPin : Option Bytes) : Except SignatureError VerifiedZkLogin := do
  verifyEphemeral P ephemeralPubkey txHash ephemeralSig
  let valid ← verifyProofAgainst P vkPin proof
  ensure valid .verificationFailed
  let address ← addressFromInputs proof.inputs
  ensure (addressesEqual address proof.expectedAddress) .verificationFailed
  return ⟨address, maxEpoch⟩

def verifyJwtKind (auth : ZkLoginAuthenticator) (jwt : JwtAuth) (now : UInt64) :
    Except SignatureError VerifiedZkLogin := do
  let expected := computeNonce P auth.ephemeralPubkey.bytes auth.maxEpoch jwt.randomness.bytes
  let claims ← verifyJwtWithJwks P jwt.jwt jwt.jwks jwt.iss jwt.aud (some expected) now
  let address ← deriveZkloginAddressV2 P claims.iss jwt.aud claims.sub jwt.salt.bytes
  return ⟨address, auth.maxEpoch⟩

def verifyZkloginAuthenticator (txHash : Bytes) (auth : ZkLoginAuthenticator) (now : UInt64) :
    Except SignatureError VerifiedZkLogin := do
  verifyEphemeral P auth.ephemeralPubkey.bytes txHash auth.ephemeralSig.bytes
  match auth.kind with
  | .jwt jwt => verifyJwtKind P auth jwt now
  | .proof proof =>
    verifyProofKind P auth.ephemeralPubkey.bytes auth.ephemeralSig.bytes txHash auth.maxEpoch
      proof none

def readBundle (signature : Bytes) : Except SignatureError ZkLoginTxSignature := do
  let bundle ← orError (P.parseBundle signature)
    (SignatureError.invalidFormat "zkLogin bundle is not valid JSON")
  ensure (bundle.v == 1)
    (.invalidFormat ("unsupported zkLogin bundle version " ++ toString bundle.v.toNat))
  return bundle

/-- `clock` is the wall clock in seconds, `none` before the epoch. -/
def verifyZkloginTxSignature (clock : Option UInt64) (addressHex : String)
    (message signature : Bytes) : Except SignatureError Bool := do
  let bundle ← readBundle P signature
  let now ← orError clock .verificationFailed
  let verified ← verifyZkloginAuthenticator P message bundle.auth now
  return addressesEqual verified.address addressHex

def checkMaxEpoch (maxEpoch currentEpoch : UInt64) : Except SignatureError Unit :=
  ensure (currentEpoch ≤ maxEpoch) .expired

/-- Digests of transactions seen, each with the time at which it is forgotten. -/
structure ReplayCache where
  seen : List (Bytes × UInt64) := []
  ttlSecs : UInt64

def ReplayCache.sweep (cache : ReplayCache) (now : UInt64) : ReplayCache :=
  { cache with seen := cache.seen.filter fun entry => now < entry.2 }

def ReplayCache.checkAndInsert (cache : ReplayCache) (txHash : Bytes) (now : UInt64) :
    Bool × ReplayCache :=
  let swept := cache.sweep now
  let digest := P.sha256 txHash
  if swept.seen.any (·.1 == digest) then (false, swept)
  else (true, { swept with seen := (digest, saturatingAdd now cache.ttlSecs) :: swept.seen })

structure AdmitOptions where
  vkPin : Option (FixedBytes 32)

/-- Mode verification of admission: a proof is checked against the pinned key only. -/
def admitMode (opts : AdmitOptions) (txHash : Bytes) (auth : ZkLoginAuthenticator)
    (now : UInt64) : Except SignatureError VerifiedZkLogin :=
  match auth.kind with
  | .jwt _ => verifyZkloginAuthenticator P txHash auth now
  | .proof proof => do
    let pin ← orError opts.vkPin .verificationFailed
    verifyProofKind P auth.ephemeralPubkey.bytes auth.ephemeralSig.bytes txHash auth.maxEpoch
      proof (some pin.bytes)

def admitVerified (opts : AdmitOptions) (expectedSender : String) (txHash : Bytes)
    (auth : ZkLoginAuthenticator) (now : UInt64) : Except SignatureError VerifiedZkLogin := do
  let verified ← admitMode P opts txHash auth now
  ensure (addressesEqual verified.address expectedSender) .verificationFailed
  return verified

/-- The cache keeps its new entry when a later check fails. -/
def admitZkloginTx (expectedSender : String) (txHash bundleBytes : Bytes) (opts : AdmitOptions)
    (cache : ReplayCache) (now currentEpoch : UInt64) :
    Except SignatureError VerifiedZkLogin × ReplayCache :=
  match readBundle P bundleBytes with
  | .error e => (.error e, cache)
  | .ok bundle =>
    match checkMaxEpoch bundle.auth.maxEpoch currentEpoch with
    | .error e => (.error e, cache)
    | .ok _ =>
      match cache.checkAndInsert P txHash now with
      | (false, cache') => (.error .verificationFailed, cache')
      | (true, cache') => (admitVerified P opts expectedSender txHash bundle.auth now, cache')

inductive CurveType where
  | k256 | p256 | ed25519 | k256Dilithium3 | ed25519Dilithium3
  | dilithium2 | dilithium3 | dilithium5 | sphincsPlusSha256Robust
  | falcon512 | falcon1024 | zkLogin
  deriving DecidableEq

end Kanari.ZkLogin

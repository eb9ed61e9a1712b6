import Kanari.ZkLogin

/-!
# What an accepted zkLogin signature is anchored in

A bundle brings the keys it is checked against, so acceptance says that somebody signed or proved
the claims.
-/

namespace Kanari.Proofs

open Lib ZkLogin

variable {K V G : Type} (P : Primitives K V G)

/-- The laws of the symbolic primitives. A decoded token is signed, and its audience was
compared if it has one; a signature and a proof are each made with one key. -/
structure SymbolicPrimitives : Prop where
  decode_signed : ∀ {k iss aud jwt claims},
    P.decodeJwt k iss aud jwt = some claims → P.jwtSigned k jwt = true
  decode_payload : ∀ {k iss aud jwt claims},
    P.decodeJwt k iss aud jwt = some claims → P.jwtPayload jwt = some claims
  decode_audience : ∀ {k iss aud jwt claims}, P.decodeJwt k iss aud jwt = some claims →
    claims.aud = .missing ∨ claims.aud.contains aud = true
  signed_unique : ∀ {k k' jwt}, P.jwtSigned k jwt = true → P.jwtSigned k' jwt = true → k = k'
  proved_unique : ∀ {vk vk' inputs proof}, P.groth16Verify vk inputs proof = some true →
    P.groth16Verify vk' inputs proof = some true → vk = vk'

def ClaimsDerive (j : JwtAuth) (address : String) : Prop :=
  ∃ claims, P.jwtPayload j.jwt = some claims ∧ ∃ aud, claims.aud.contains aud = true ∧
    ∃ derived, deriveZkloginAddressV2 P claims.iss aud claims.sub j.salt.bytes = .ok derived ∧
      addressesEqual derived address = true

def ProvedUnder (vk : V) (p : ProofAuth) : Prop :=
  ∃ proof inputs, P.proofFromBytes p.proof = .ok proof ∧
    publicInputsFromBeBytes p.inputs = .ok inputs ∧ P.groth16Verify vk inputs proof = some true

def InputsEncode (p : ProofAuth) (address : String) : Prop :=
  ∃ encoded, addressFromInputs p.inputs = .ok encoded ∧ addressesEqual encoded address = true

def KindAnchored (keys : Set K) (vks : Set V) (address : String) : ZkAuthKind → Prop
  | .jwt j => (∃ k ∈ keys, P.jwtSigned k j.jwt = true) ∧ ClaimsDerive P j address
  | .proof p => (∃ vk ∈ vks, ProvedUnder P vk p) ∧ InputsEncode p address

/-- The bundle holds a session signature on the message, and a token signed under one of
`keys` or a proof under one of `vks`, for the given address. -/
def TrustAnchored (keys : Set K) (vks : Set V) (address : String)
    (message signature : Bytes) : Prop :=
  ∃ bundle, P.parseBundle signature = some bundle ∧
    P.ed25519Verify bundle.auth.ephemeralPubkey.bytes message bundle.auth.ephemeralSig.bytes
      = true ∧
    KindAnchored P keys vks address bundle.auth.kind

def NamesKey (j : JwtAuth) (k : K) : Prop :=
  ∃ header kid jwk, P.decodeHeader j.jwt = .ok header ∧ header.kid = some kid ∧
    j.jwks.keys.find? (·.kid == some kid) = some jwk ∧ jwk.decodingKey P = .ok k

def CarriesAudience (j : JwtAuth) : Prop :=
  ∃ claims, P.jwtPayload j.jwt = some claims ∧ claims.aud ≠ .missing

/-- The keys that the bundle brings along are trusted ones. -/
def BringsTrustedKey (keys : Set K) (vks : Set V) (signature : Bytes) : Prop :=
  ∃ bundle, P.parseBundle signature = some bundle ∧
    match bundle.auth.kind with
    | .jwt j => (∃ k ∈ keys, NamesKey P j k) ∧ CarriesAudience P j
    | .proof p => ∃ vk ∈ vks, P.vkFromBytes p.vk = .ok vk

variable {P}

lemma verifyEphemeral_ok {publicKey msg sig : Bytes} {u : Unit}
    (h : verifyEphemeral P publicKey msg sig = .ok u) :
    P.ed25519Verify publicKey msg sig = true := by
  obtain ⟨_, _, h⟩ := bind_eq_ok.mp h
  obtain ⟨_, _, h⟩ := bind_eq_ok.mp h
  obtain ⟨_, _, h⟩ := bind_eq_ok.mp h
  exact ensure_eq_ok.mp h

variable {j : JwtAuth} {now : UInt64} {p : ProofAuth} {verified : VerifiedZkLogin}
  {signature : Bytes} {address : String}

lemma verifyJwtWithJwks_ok {nonce : Option String} {claims : JwtClaims}
    (h : verifyJwtWithJwks P j.jwt j.jwks j.iss j.aud nonce now = .ok claims) :
    ∃ k, NamesKey P j k ∧ P.decodeJwt k j.iss j.aud j.jwt = some claims := by
  obtain ⟨header, hheader, h⟩ := bind_eq_ok.mp h
  obtain ⟨_, _, h⟩ := bind_eq_ok.mp h
  obtain ⟨kid, hkid, h⟩ := bind_eq_ok.mp h
  obtain ⟨jwk, hjwk, h⟩ := bind_eq_ok.mp h
  obtain ⟨k, hk, h⟩ := bind_eq_ok.mp h
  obtain ⟨claims', hclaims, h⟩ := bind_eq_ok.mp h
  obtain ⟨_, _, h⟩ := bind_eq_ok.mp h
  obtain ⟨_, _, h⟩ := bind_eq_ok.mp h
  obtain ⟨_, _, h⟩ := bind_eq_ok.mp h
  cases h
  exact ⟨k, ⟨header, kid, jwk, mapError_eq_ok.mp hheader, orError_eq_ok.mp hkid,
    orError_eq_ok.mp hjwk, hk⟩, orError_eq_ok.mp hclaims⟩

lemma verifyGroth16Proof_ok (h : verifyGroth16Proof P p.vk p.inputs p.proof = .ok true) :
    ∃ vk, P.vkFromBytes p.vk = .ok vk ∧ ProvedUnder P vk p := by
  obtain ⟨_, _, h⟩ := bind_eq_ok.mp h
  obtain ⟨_, _, h⟩ := bind_eq_ok.mp h
  obtain ⟨vk, hvk, h⟩ := bind_eq_ok.mp h
  obtain ⟨proof, hproof, h⟩ := bind_eq_ok.mp h
  obtain ⟨inputs, hinputs, h⟩ := bind_eq_ok.mp h
  exact ⟨vk, mapError_eq_ok.mp hvk, proof, inputs, mapError_eq_ok.mp hproof, hinputs,
    orError_eq_ok.mp h⟩

lemma verifyProofKind_ok {publicKey sig txHash : Bytes} {maxEpoch : UInt64} {pin : Option Bytes}
    (h : verifyProofKind P publicKey sig txHash maxEpoch p pin = .ok verified) :
    verifyProofAgainst P pin p = .ok true ∧
      addressFromInputs p.inputs = .ok verified.address := by
  obtain ⟨_, _, h⟩ := bind_eq_ok.mp h
  obtain ⟨valid, hvalid, h⟩ := bind_eq_ok.mp h
  obtain ⟨_, htrue, h⟩ := bind_eq_ok.mp h
  obtain ⟨address, haddress, h⟩ := bind_eq_ok.mp h
  obtain ⟨_, _, h⟩ := bind_eq_ok.mp h
  cases h
  have htrue : valid = true := ensure_eq_ok.mp htrue
  subst htrue
  exact ⟨hvalid, haddress⟩

lemma verifyJwtKind_ok {auth : ZkLoginAuthenticator} (h : verifyJwtKind P auth j now = .ok verified) :
    ∃ k claims, NamesKey P j k ∧ P.decodeJwt k j.iss j.aud j.jwt = some claims ∧
      deriveZkloginAddressV2 P claims.iss j.aud claims.sub j.salt.bytes
        = .ok verified.address := by
  obtain ⟨claims, hclaims, h⟩ := bind_eq_ok.mp h
  obtain ⟨address, haddress, h⟩ := bind_eq_ok.mp h
  cases h
  obtain ⟨k, hk, hdecode⟩ := verifyJwtWithJwks_ok hclaims
  exact ⟨k, claims, hk, hdecode, haddress⟩

lemma readBundle_ok {bundle : ZkLoginTxSignature} (h : readBundle P signature = .ok bundle) :
    P.parseBundle signature = some bundle := by
  obtain ⟨bundle', hbundle, h⟩ := bind_eq_ok.mp h
  obtain ⟨_, _, h⟩ := bind_eq_ok.mp h
  cases h
  exact orError_eq_ok.mp hbundle

lemma verifyZkloginTxSignature_ok {clock : Option UInt64} {message : Bytes}
    (h : verifyZkloginTxSignature P clock address message signature = .ok true) :
    ∃ bundle, P.parseBundle signature = some bundle ∧
      P.ed25519Verify bundle.auth.ephemeralPubkey.bytes message bundle.auth.ephemeralSig.bytes
        = true ∧
      ∃ now verified, addressesEqual verified.address address = true ∧
        (match bundle.auth.kind with
          | .jwt j => verifyJwtKind P bundle.auth j now
          | .proof p => verifyProofKind P bundle.auth.ephemeralPubkey.bytes
              bundle.auth.ephemeralSig.bytes message bundle.auth.maxEpoch p none)
          = .ok verified := by
  obtain ⟨bundle, hbundle, h⟩ := bind_eq_ok.mp h
  obtain ⟨now, _, h⟩ := bind_eq_ok.mp h
  obtain ⟨verified, hverified, h⟩ := bind_eq_ok.mp h
  obtain ⟨_, heph, hkind⟩ := bind_eq_ok.mp hverified
  exact ⟨bundle, readBundle_ok hbundle, verifyEphemeral_ok heph, now, verified,
    Except.ok.inj h, hkind⟩

lemma contains_ne_missing {a : JwtAud} {aud : String} (h : a.contains aud = true) :
    a ≠ .missing := by
  rintro rfl
  cases h

/-- In token mode, everything but the trust in the key and the presence of an audience is
already checked. -/
lemma jwt_anchored_iff (hP : SymbolicPrimitives P) {keys : Set K} {k : K} {claims : JwtClaims}
    {derived : String} (hk : NamesKey P j k)
    (hdecode : P.decodeJwt k j.iss j.aud j.jwt = some claims)
    (hderive : deriveZkloginAddressV2 P claims.iss j.aud claims.sub j.salt.bytes = .ok derived)
    (haddress : addressesEqual derived address = true) :
    (∃ k ∈ keys, P.jwtSigned k j.jwt = true) ∧ ClaimsDerive P j address ↔
      (∃ k ∈ keys, NamesKey P j k) ∧ CarriesAudience P j := by
  have hsigned := hP.decode_signed hdecode
  have hpayload := hP.decode_payload hdecode
  constructor
  · rintro ⟨⟨k', hk', hsigned'⟩, claims', hclaims', aud, haud, -⟩
    refine ⟨⟨k', hk', ?_⟩, claims', hclaims', contains_ne_missing haud⟩
    rwa [hP.signed_unique hsigned' hsigned]
  · rintro ⟨⟨k', hk', hnames⟩, claims', hclaims', haud⟩
    have hsame : k' = k := by
      obtain ⟨header, kid, jwk, h₁, h₂, h₃, h₄⟩ := hk
      obtain ⟨header', kid', jwk', h₁', h₂', h₃', h₄'⟩ := hnames
      obtain rfl := Except.ok.inj (h₁.symm.trans h₁')
      obtain rfl := Option.some.inj (h₂.symm.trans h₂')
      obtain rfl := Option.some.inj (h₃.symm.trans h₃')
      exact Except.ok.inj (h₄'.symm.trans h₄)
    obtain rfl := Option.some.inj (hpayload.symm.trans hclaims')
    have hcontains := (hP.decode_audience hdecode).resolve_left haud
    exact ⟨⟨k', hk', hsame ▸ hsigned⟩, claims, hpayload, j.aud, hcontains, derived, hderive,
      haddress⟩

lemma proof_anchored_iff (hP : SymbolicPrimitives P) {vks : Set V} {vk : V} {encoded : String}
    (hvk : P.vkFromBytes p.vk = .ok vk) (hproved : ProvedUnder P vk p)
    (hencoded : addressFromInputs p.inputs = .ok encoded)
    (haddress : addressesEqual encoded address = true) :
    (∃ vk ∈ vks, ProvedUnder P vk p) ∧ InputsEncode p address ↔
      ∃ vk ∈ vks, P.vkFromBytes p.vk = .ok vk := by
  constructor
  · rintro ⟨⟨vk', hvk', proof', inputs', hproof', hinputs', hverify'⟩, -⟩
    obtain ⟨proof, inputs, hproof, hinputs, hverify⟩ := hproved
    obtain rfl := Except.ok.inj (hproof.symm.trans hproof')
    obtain rfl := Except.ok.inj (hinputs.symm.trans hinputs')
    obtain rfl := hP.proved_unique hverify hverify'
    exact ⟨vk, hvk', hvk⟩
  · rintro ⟨vk', hvk', hbytes⟩
    obtain rfl := Except.ok.inj (hvk.symm.trans hbytes)
    exact ⟨⟨vk, hvk', hproved⟩, encoded, hencoded, haddress⟩

/-- An accepted bundle is anchored in the trusted keys exactly if the keys it brings along
are trusted ones and its token, if it holds one, names an audience. -/
theorem zklogin_anchored_iff (hP : SymbolicPrimitives P) (keys : Set K) (vks : Set V)
    (clock : Option UInt64) (address : String) (message signature : Bytes)
    (h : verifyZkloginTxSignature P clock address message signature = .ok true) :
    TrustAnchored P keys vks address message signature ↔
      BringsTrustedKey P keys vks signature := by
  obtain ⟨bundle, hbundle, heph, now, verified, haddress, hkind⟩ := verifyZkloginTxSignature_ok h
  have hcases : KindAnchored P keys vks address bundle.auth.kind ↔
      match bundle.auth.kind with
      | .jwt j => (∃ k ∈ keys, NamesKey P j k) ∧ CarriesAudience P j
      | .proof p => ∃ vk ∈ vks, P.vkFromBytes p.vk = .ok vk := by
    cases hauth : bundle.auth.kind with
    | jwt j =>
      rw [hauth] at hkind
      obtain ⟨k, claims, hk, hdecode, hderive⟩ := verifyJwtKind_ok hkind
      exact jwt_anchored_iff hP hk hdecode hderive haddress
    | proof p =>
      rw [hauth] at hkind
      obtain ⟨hvalid, hencoded⟩ := verifyProofKind_ok hkind
      obtain ⟨vk, hvk, hproved⟩ := verifyGroth16Proof_ok hvalid
      exact proof_anchored_iff hP hvk hproved hencoded haddress
  constructor
  · rintro ⟨bundle', hbundle', -, hanchored⟩
    obtain rfl := Option.some.inj (hbundle.symm.trans hbundle')
    exact ⟨bundle, hbundle, hcases.mp hanchored⟩
  · rintro ⟨bundle', hbundle', hbrings⟩
    obtain rfl := Option.some.inj (hbundle.symm.trans hbundle')
    exact ⟨bundle, hbundle, heph, hcases.mpr hbrings⟩

/-! ## A symbolic instance

Key `0` is the provider's and the ceremony's, key `1` somebody else's. A token is named
after its signer; a proof is the number of the key it was made for. -/

def tokenSigner : String → Option Nat
  | "provider" => some 0
  | "stranger" => some 1
  | _ => none

def sampleRandomness : FixedBytes 32 := ⟨List.replicate 32 7, by decide⟩

def sampleClaims : JwtClaims where
  iss := "https://accounts.google.com"
  aud := .single "client"
  sub := "1234"
  exp := some 2000000000
  nonce := some (String.ofList (Hex.encode sampleRandomness.bytes))

def sampleAuth (kind : ZkAuthKind) : ZkLoginTxSignature where
  v := 1
  auth :=
    { ephemeralPubkey := ⟨List.replicate 32 5, by decide⟩
      ephemeralSig := ⟨List.replicate 32 5 ++ padZero [9] 32, by decide⟩
      maxEpoch := 1000
      kind := kind }

def sampleToken (signer modulus : String) : ZkAuthKind :=
  .jwt
    { jwt := signer
      jwks := ⟨[{ kid := some signer, kty := "RSA", n := modulus, e := "AQAB" }]⟩
      iss := "https://accounts.google.com"
      aud := "client"
      randomness := sampleRandomness
      salt := sampleRandomness }

def sampleProof (key : UInt8) : ZkAuthKind :=
  .proof
    { vk := [key]
      inputs := List.replicate (64 * 32) 0
      proof := [key]
      expectedAddress := hexLiteral (List.replicate 32 0) }

def samplePrimitives : Primitives Nat Nat Nat where
  sha256 bs := bs.reverse.take 32
  ed25519KeyValid _ := true
  ed25519Verify key msg sig := sig == key ++ padZero msg 32
  parseBundle
    | [0] => some (sampleAuth (sampleToken "provider" "0"))
    | [1] => some (sampleAuth (sampleToken "stranger" "1"))
    | [2] => some (sampleAuth (sampleProof 1))
    | _ => none
  decodeHeader jwt := .ok ⟨.rs256, some jwt⟩
  fromRsaComponents n _ := .ok (if n = "0" then 0 else 1)
  decodeJwt k iss aud jwt :=
    if tokenSigner jwt = some k ∧ sampleClaims.iss = iss ∧ sampleClaims.aud.contains aud then
      some sampleClaims
    else none
  jwtSigned k jwt := tokenSigner jwt == some k
  jwtPayload _ := some sampleClaims
  vkFromBytes bs := .ok (bs.headD 0).toNat
  vkToBytes vk := some [UInt8.ofNat vk]
  proofFromBytes bs := .ok (bs.headD 0).toNat
  groth16Verify vk _ proof := some (vk == proof)

lemma samplePrimitives_symbolic : SymbolicPrimitives samplePrimitives where
  decode_signed := by
    intro k iss aud jwt claims h
    simp only [samplePrimitives, Option.ite_none_right_eq_some] at h
    simpa [samplePrimitives] using h.1.1
  decode_payload := by
    intro k iss aud jwt claims h
    simp only [samplePrimitives, Option.ite_none_right_eq_some] at h
    exact h.2
  decode_audience := by
    intro k iss aud jwt claims h
    simp only [samplePrimitives, Option.ite_none_right_eq_some] at h
    obtain ⟨⟨-, -, haud⟩, hclaims⟩ := h
    rw [← Option.some.inj hclaims]
    exact Or.inr haud
  signed_unique := by
    intro k k' jwt h h'
    simp only [samplePrimitives, beq_iff_eq] at h h'
    exact Option.some.inj (h.symm.trans h')
  proved_unique := by
    intro vk vk' inputs proof h h'
    simp only [samplePrimitives, Option.some.injEq, beq_iff_eq] at h h'
    exact h.trans h'.symm

def sampleAddress : String := hexLiteral (List.replicate 32 7)

/-- A token of the provider, brought together with the provider's key. -/
theorem zklogin_anchored_provider_token :
    verifyZkloginTxSignature samplePrimitives (some 1000) sampleAddress [9] [0] = .ok true ∧
      TrustAnchored samplePrimitives {0} ∅ sampleAddress [9] [0] := by
  have haccepted :
      verifyZkloginTxSignature samplePrimitives (some 1000) sampleAddress [9] [0] = .ok true := by
    decide +kernel
  refine ⟨haccepted, (zklogin_anchored_iff samplePrimitives_symbolic _ _ _ _ _ _ haccepted).mpr ?_⟩
  refine ⟨_, rfl, ⟨0, rfl, ⟨.rs256, some "provider"⟩, "provider", _, rfl, rfl, rfl, ?_⟩,
    sampleClaims, rfl, by decide⟩
  rfl

/-- A stranger names a key of their own in the bundle and becomes any sender, with a token
or with a proof. -/
theorem zklogin_accepts_stranger :
    (verifyZkloginTxSignature samplePrimitives (some 1000) sampleAddress [9] [1] = .ok true ∧
      ¬TrustAnchored samplePrimitives {0} {0} sampleAddress [9] [1]) ∧
    (verifyZkloginTxSignature samplePrimitives (some 1000)
        (hexLiteral (List.replicate 32 0)) [9] [2] = .ok true ∧
      ¬TrustAnchored samplePrimitives {0} {0} (hexLiteral (List.replicate 32 0)) [9] [2]) := by
  refine ⟨⟨by decide +kernel, ?_⟩, by decide +kernel, ?_⟩
  · rintro ⟨bundle, hbundle, -, hanchored⟩
    obtain rfl := Option.some.inj hbundle
    obtain ⟨⟨k, rfl, hsigned⟩, -⟩ := hanchored
    exact absurd hsigned (by decide)
  · rintro ⟨bundle, hbundle, -, hanchored⟩
    obtain rfl := Option.some.inj hbundle
    obtain ⟨⟨vk, rfl, proof, inputs, hproof, -, hverify⟩, -⟩ := hanchored
    obtain rfl := Except.ok.inj hproof
    have hsame : ((0 : Nat) == 1) = true := Option.some.inj hverify
    exact absurd hsame (by decide)

end Kanari.Proofs

import Kanari.Proofs.ReplayGuard

/-!
# What a zkLogin proof binds

The nonce commits to the session key and the last epoch of the session, but admission reads the
address only.
-/

namespace Kanari.Proofs

open Lib ZkLogin

variable {K V G : Type} (P : Primitives K V G)

/-- The nonce of the public inputs is the one of this session, for some randomness. -/
def CommitsTo (p : ProofAuth) (ephemeralPubkey : FixedBytes 32) (maxEpoch : UInt64) : Prop :=
  ∃ (inputs : List Nat) (nonce : Bytes) (randomness : FixedBytes 32),
    publicInputsFromBeBytes p.inputs = .ok inputs ∧ inputs.drop 32 = nonce.map UInt8.toNat ∧
      String.ofList (Hex.encode nonce) =
        computeNonce P ephemeralPubkey.bytes maxEpoch randomness.bytes

def SessionBound (opts : AdmitOptions) (sender : String) (p : ProofAuth) : Prop :=
  ∀ (c : AdmitCall) (bundle : ZkLoginTxSignature) (cache : ReplayCache), c.opts = opts →
    c.expectedSender = sender → P.parseBundle c.bundleBytes = some bundle →
    bundle.auth.kind = .proof p → Admitted P cache c →
    CommitsTo P p bundle.auth.ephemeralPubkey bundle.auth.maxEpoch

/-- What admission asks of the proof itself: the pinned key, a valid proof, and an address that is
the announced one and the sender. -/
def ProofPasses (opts : AdmitOptions) (sender : String) (p : ProofAuth) : Prop :=
  ∃ pin address, opts.vkPin = some pin ∧
    verifyPinnedProof P pin.bytes p.vk p.inputs p.proof = .ok true ∧
    addressFromInputs p.inputs = .ok address ∧ addressesEqual address p.expectedAddress = true ∧
    addressesEqual address sender = true

/-- The nonce of a session determines its key and its last epoch. -/
def NonceInjective : Prop :=
  ∀ (k k' r r' : FixedBytes 32) (e e' : UInt64),
    computeNonce P k.bytes e r.bytes = computeNonce P k'.bytes e' r'.bytes → k = k' ∧ e = e'

/-- Somebody can sign: there is a key with a signature on some transaction hash. -/
def SomeoneSigns : Prop :=
  ∃ (key : FixedBytes 32) (sig : FixedBytes 64) (txHash : Bytes),
    P.ed25519KeyValid key.bytes = true ∧ P.ed25519Verify key.bytes txHash sig.bytes = true

/-- Every bundle with this proof has an encoding. -/
def BundlesEncode (p : ProofAuth) : Prop :=
  ∀ auth : ZkLoginAuthenticator, auth.kind = .proof p → ∃ bytes, P.parseBundle bytes = some ⟨1, auth⟩

variable {P}

lemma eq_of_hex_text {a b : Bytes}
    (h : String.ofList (Hex.encode a) = String.ofList (Hex.encode b)) : a = b := by
  have hbytes := congrArg Hex.decode (String.ofList_injective h)
  rw [Hex.decode_encode, Hex.decode_encode] at hbytes
  exact Option.some.inj hbytes

lemma verifyEphemeral_iff {key : FixedBytes 32} {sig : FixedBytes 64} {msg : Bytes} :
    verifyEphemeral P key.bytes msg sig.bytes = .ok () ↔
      P.ed25519KeyValid key.bytes = true ∧ P.ed25519Verify key.bytes msg sig.bytes = true := by
  simp [verifyEphemeral, bind_eq_ok, key.length_eq, sig.length_eq]

variable {auth : ZkLoginAuthenticator} {p : ProofAuth}

lemma admitVerified_proof_iff {opts : AdmitOptions} {sender : String} {txHash : Bytes}
    {now : UInt64} (hkind : auth.kind = .proof p) :
    (∃ verified, admitVerified P opts sender txHash auth now = .ok verified) ↔
      (P.ed25519KeyValid auth.ephemeralPubkey.bytes = true ∧
        P.ed25519Verify auth.ephemeralPubkey.bytes txHash auth.ephemeralSig.bytes = true) ∧
      ProofPasses P opts sender p := by
  unfold admitVerified admitMode
  rw [hkind]
  simp only [verifyProofKind, verifyProofAgainst, bind_eq_ok, pure_eq_ok, orError_eq_ok,
    ensure_eq_ok, Except.ok.injEq]
  constructor
  · rintro ⟨verified, v, ⟨pin, hpin, ⟨⟩, heph, valid, hvalid, ⟨⟩, htrue, address, haddress, ⟨⟩,
      hexpected, rfl⟩, ⟨⟩, hsender, _⟩
    subst htrue
    exact ⟨verifyEphemeral_iff.mp heph, pin, address, hpin, hvalid, haddress, hexpected, hsender⟩
  · rintro ⟨heph, pin, address, hpin, hvalid, haddress, hexpected, hsender⟩
    exact ⟨_, _, ⟨pin, hpin, (), verifyEphemeral_iff.mpr heph, true, hvalid, (), rfl, address,
      haddress, (), hexpected, rfl⟩, (), hsender, rfl⟩

lemma readBundle_of_parse {bytes : Bytes} (h : P.parseBundle bytes = some ⟨1, auth⟩) :
    readBundle P bytes = .ok ⟨1, auth⟩ := by
  simp [readBundle, h, orError]

lemma admitted_of_passes {c : AdmitCall} {ttl : UInt64}
    (hparse : P.parseBundle c.bundleBytes = some ⟨1, auth⟩) (hkind : auth.kind = .proof p)
    (hepoch : c.currentEpoch ≤ auth.maxEpoch)
    (hsigned : P.ed25519KeyValid auth.ephemeralPubkey.bytes = true ∧
      P.ed25519Verify auth.ephemeralPubkey.bytes c.txHash auth.ephemeralSig.bytes = true)
    (hpasses : ProofPasses P c.opts c.expectedSender p) : Admitted P (cacheAfter P ttl []) c := by
  have hread := readBundle_of_parse hparse
  obtain ⟨verified, hverified⟩ : ∃ verified,
      admitVerified P c.opts c.expectedSender c.txHash auth c.now = .ok verified :=
    (admitVerified_proof_iff hkind).mpr ⟨hsigned, hpasses⟩
  refine admitted_iff.mpr ⟨⟨⟨1, auth⟩, hread, by simp [checkMaxEpoch, hepoch]⟩, ?_,
    ⟨1, auth⟩, verified, hread, hverified⟩
  rw [rejectedAsReplay_iff]
  rintro ⟨_, exp, hseen, _⟩
  exact absurd hseen List.not_mem_nil

lemma CommitsTo.unique (hnonce : NonceInjective P) {k k' : FixedBytes 32} {e e' : UInt64}
    (h : CommitsTo P p k e) (h' : CommitsTo P p k' e') : k = k' ∧ e = e' := by
  obtain ⟨inputs, nonce, r, hinputs, hdrop, heq⟩ := h
  obtain ⟨inputs', nonce', r', hinputs', hdrop', heq'⟩ := h'
  obtain rfl : inputs = inputs' := Except.ok.inj (hinputs.symm.trans hinputs')
  have hsame : nonce = nonce' :=
    List.map_injective_iff.mpr (fun _ _ h => UInt8.toNat_inj.mp h) (hdrop.symm.trans hdrop')
  subst hsame
  exact hnonce k k' r r' e e' (heq.symm.trans heq')

/-- Given that nonces commit, the sessions of the bundles with a proof are bound to it only where
the proof does not pass, so that no such bundle is admitted. -/
theorem zklogin_session_bound_iff (hnonce : NonceInjective P) (hsign : SomeoneSigns P)
    (opts : AdmitOptions) (sender : String) (p : ProofAuth) (hencode : BundlesEncode P p) :
    SessionBound P opts sender p ↔ ¬ProofPasses P opts sender p := by
  constructor
  · intro hbound hpasses
    obtain ⟨key, sig, txHash, hsigned⟩ := hsign
    -- The same session key with two last epochs, of which the nonce can name one.
    have hcommits : ∀ e : UInt64, CommitsTo P p key e := by
      intro e
      obtain ⟨bytes, hparse⟩ := hencode ⟨key, sig, e, .proof p⟩ rfl
      have hadmitted : Admitted P (cacheAfter P 0 []) ⟨sender, txHash, bytes, opts, 0, 0⟩ :=
        admitted_of_passes hparse rfl (UInt64.zero_le) hsigned hpasses
      exact hbound ⟨sender, txHash, bytes, opts, 0, 0⟩ ⟨1, key, sig, e, .proof p⟩ (cacheAfter P 0 [])
        rfl rfl hparse rfl hadmitted
    have hepochs : (0 : UInt64) = 1 := ((hcommits 0).unique hnonce (hcommits 1)).2
    exact absurd hepochs (by decide)
  · rintro hfails c bundle cache rfl rfl hparse hkind hadmitted
    obtain ⟨_, _, bundle', verified, hread, hverified⟩ := admitted_iff.mp hadmitted
    obtain rfl := Option.some.inj (hparse.symm.trans (readBundle_ok hread))
    exact absurd ((admitVerified_proof_iff hkind).mp ⟨verified, hverified⟩).2 hfails

/-! ## A symbolic instance

The hash keeps everything, so that nonces commit; bundles are the session's data one after the
other, always with the same proof, which verifies. -/

def zeroProof : ProofAuth :=
  ⟨[0], List.replicate (64 * 32) 0, [0], hexLiteral (List.replicate 32 0)⟩

def plainBundle (bytes : Bytes) : Option ZkLoginTxSignature :=
  if h : bytes.length = 104 then
    some ⟨1, ⟨bytes.take 32, by simp [h]⟩, ⟨(bytes.drop 32).take 64, by simp [h]⟩,
      UInt64.ofNat (Text.leNat (bytes.drop 96)), .proof zeroProof⟩
  else none

def plainPrimitives : Primitives Nat Nat Nat :=
  { samplePrimitives with
    sha256 := id
    ed25519Verify := fun key msg sig => sig == key ++ padZero msg 32
    parseBundle := plainBundle
    vkToBytes := fun _ => some (List.replicate 32 0)
    groth16Verify := fun _ _ _ => some true }

lemma plainPrimitives_nonceInjective : NonceInjective plainPrimitives := by
  intro k k' r r' e e' h
  have hpre : asBytes "zkLogin-nonce" ++ k.bytes ++ Text.leBytes 8 e.toNat ++ r.bytes =
      asBytes "zkLogin-nonce" ++ k'.bytes ++ Text.leBytes 8 e'.toNat ++ r'.bytes := eq_of_hex_text h
  obtain ⟨hinit, _⟩ := List.append_inj' hpre (by rw [r.length_eq, r'.length_eq])
  obtain ⟨hkey, hepoch⟩ := List.append_inj' hinit (by simp)
  refine ⟨?_, ?_⟩
  · cases k
    cases k'
    simpa using hkey
  · have hnat := congrArg Text.leNat hepoch
    rw [Text.leNat_leBytes 8 _ e.toNat_lt, Text.leNat_leBytes 8 _ e'.toNat_lt] at hnat
    exact UInt64.toNat_inj.mp hnat

lemma plainPrimitives_bundlesEncode : BundlesEncode plainPrimitives zeroProof := by
  rintro ⟨key, sig, e, kind⟩ rfl
  have hlen : (key.bytes ++ sig.bytes ++ Text.leBytes 8 e.toNat).length = 104 := by
    simp [key.length_eq, sig.length_eq]
  have hkey : (key.bytes ++ sig.bytes ++ Text.leBytes 8 e.toNat).take 32 = key.bytes := by
    rw [List.append_assoc]
    exact List.take_left' key.length_eq
  have hsig : ((key.bytes ++ sig.bytes ++ Text.leBytes 8 e.toNat).drop 32).take 64 = sig.bytes := by
    rw [List.append_assoc, List.drop_left' key.length_eq]
    exact List.take_left' sig.length_eq
  have hepoch : (key.bytes ++ sig.bytes ++ Text.leBytes 8 e.toNat).drop 96 =
      Text.leBytes 8 e.toNat :=
    List.drop_left' (by simp [key.length_eq, sig.length_eq])
  refine ⟨key.bytes ++ sig.bytes ++ Text.leBytes 8 e.toNat, ?_⟩
  show plainBundle _ = _
  unfold plainBundle
  rw [dif_pos hlen]
  simp only [hkey, hsig, hepoch, Text.leNat_leBytes 8 _ e.toNat_lt, UInt64.ofNat_toNat]

def zeroPin : FixedBytes 32 := ⟨List.replicate 32 0, by decide⟩

theorem zklogin_session_bound_iff_passing :
    ProofPasses plainPrimitives ⟨some zeroPin⟩ (hexLiteral (List.replicate 32 0)) zeroProof ∧
      ¬SessionBound plainPrimitives ⟨some zeroPin⟩ (hexLiteral (List.replicate 32 0)) zeroProof := by
  have hpasses :
      ProofPasses plainPrimitives ⟨some zeroPin⟩ (hexLiteral (List.replicate 32 0)) zeroProof :=
    ⟨zeroPin, hexLiteral (List.replicate 32 0), rfl, by decide +kernel, by decide +kernel,
      by decide +kernel, by decide +kernel⟩
  have hsign : SomeoneSigns plainPrimitives :=
    ⟨⟨List.replicate 32 5, by decide⟩, ⟨List.replicate 32 5 ++ padZero [9] 32, by decide⟩, [9], rfl,
      by decide⟩
  exact ⟨hpasses, fun hbound => (zklogin_session_bound_iff plainPrimitives_nonceInjective hsign
    ⟨some zeroPin⟩ _ zeroProof plainPrimitives_bundlesEncode).mp hbound hpasses⟩

/-! Here the hash keeps a byte of the session key and a byte of the epoch. Session 1 ends with
epoch 5 and has a proof; session 2 puts the proof into a bundle of its own. -/

def sessionHash (bytes : Bytes) : Bytes := bytes.getD 13 0 :: bytes.getD 45 0 :: List.replicate 30 0

def sessionProof : ProofAuth :=
  ⟨[0], List.replicate (32 * 32) 0 ++ (List.replicate 31 0 ++ [1]) ++ (List.replicate 31 0 ++ [5]) ++
    List.replicate (30 * 32) 0, [0], hexLiteral (List.replicate 32 0)⟩

def sessionKey (b : UInt8) : FixedBytes 32 := ⟨List.replicate 32 b, by simp⟩

def sessionBundle (b : UInt8) (maxEpoch : UInt64) : ZkLoginTxSignature :=
  ⟨1, sessionKey b, ⟨List.replicate 32 b ++ padZero [9] 32, by simp [padZero]⟩, maxEpoch,
    .proof sessionProof⟩

def sessionPrimitives : Primitives Nat Nat Nat :=
  { plainPrimitives with
    sha256 := sessionHash
    parseBundle := fun
      | [1] => some (sessionBundle 1 5)
      | [2] => some (sessionBundle 2 9)
      | _ => none }

def sessionCall (bundle : UInt8) (epoch : UInt64) : AdmitCall :=
  ⟨hexLiteral (List.replicate 32 0), [9], [bundle], ⟨some zeroPin⟩, 1000, epoch⟩

lemma computeNonce_session (b : UInt8) (e : UInt64) (r : FixedBytes 32) :
    computeNonce sessionPrimitives (sessionKey b).bytes e r.bytes =
      String.ofList (Hex.encode (b :: UInt8.ofNat (e.toNat % 256) :: List.replicate 30 0)) := by
  have hseed : asBytes "zkLogin-nonce" =
      [122, 107, 76, 111, 103, 105, 110, 45, 110, 111, 110, 99, 101] := by
    decide +kernel
  unfold computeNonce
  rw [hseed]
  rfl

/-- A proof for session 1 admits session 2, in an epoch after the end of session 1. -/
theorem zklogin_proof_serves_other_session :
    CommitsTo sessionPrimitives sessionProof (sessionKey 1) 5 ∧
    Admitted sessionPrimitives (cacheAfter sessionPrimitives 600 []) (sessionCall 1 5) ∧
    ¬CommitsTo sessionPrimitives sessionProof (sessionKey 2) 9 ∧
    Admitted sessionPrimitives (cacheAfter sessionPrimitives 600 []) (sessionCall 2 8) := by
  have hinputs : publicInputsFromBeBytes sessionProof.inputs =
      .ok (List.replicate 32 0 ++ (1 :: 5 :: List.replicate 30 0)) := by decide +kernel
  refine ⟨?_, ?_, ?_, ?_⟩
  · exact ⟨_, 1 :: 5 :: List.replicate 30 0, sampleRandomness, hinputs, by decide,
      (computeNonce_session 1 5 _).symm⟩
  · exact ⟨⟨hexLiteral (List.replicate 32 0), 5⟩, by decide +kernel⟩
  · rintro ⟨inputs, nonce, r, hin, hdrop, heq⟩
    obtain rfl := Except.ok.inj (hinputs.symm.trans hin)
    rw [eq_of_hex_text (heq.trans (computeNonce_session 2 9 r))] at hdrop
    exact absurd hdrop (by decide)
  · exact ⟨⟨hexLiteral (List.replicate 32 0), 9⟩, by decide +kernel⟩

end Kanari.Proofs

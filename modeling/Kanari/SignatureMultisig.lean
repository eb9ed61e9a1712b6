import Kanari.MathNatives
import Kanari.MoveVector

/-!
# The Move module `signature_multisig`

The verification natives are parameters; the loops go over positions as in the source.
-/

namespace Kanari.Move.SignatureMultisig

open Lib

def E_THRESHOLD_NOT_MET : Abort := .code 1
def E_INVALID_THRESHOLD : Abort := .code 2
def E_LENGTH_MISMATCH : Abort := .code 3
def E_INVALID_SCHEME : Abort := .code 4
def E_DUPLICATE_KEY : Abort := .code 5

def SCHEME_ED25519 : UInt8 := 0
def SCHEME_ECDSA_K1 : UInt8 := 1
def SCHEME_ECDSA_R1 : UInt8 := 2

/-- The natives, with the arguments in the order of the source: signature, public key, message. -/
structure Verifiers where
  ed25519 : Bytes → Bytes → Bytes → Bool
  ecdsaK1 : Bytes → Bytes → Bytes → UInt8 → Bool
  ecdsaR1 : Bytes → Bytes → Bytes → Bool

/-- The inner loop over `j`, which stops at the end of the keys. -/
def assertKeyFresh (keys : List Bytes) (i : Nat) : (rounds j : Nat) → Except Abort Unit
  | 0, _ => .ok ()
  | rounds + 1, j => do
    ensure ((← borrow keys i) != (← borrow keys j)) E_DUPLICATE_KEY
    assertKeyFresh keys i rounds (j + 1)

def assertKeysFresh (keys : List Bytes) : (rounds i : Nat) → Except Abort Unit
  | 0, _ => .ok ()
  | rounds + 1, i => do
    assertKeyFresh keys i (keys.length - (i + 1)) (i + 1)
    assertKeysFresh keys rounds (i + 1)

def assertNoDuplicateKeys (keys : List Bytes) : Except Abort Unit :=
  assertKeysFresh keys keys.length 0

def assertValidThreshold (threshold n : Nat) : Except Abort Unit :=
  ensure (decide (0 < threshold) && decide (threshold ≤ n)) E_INVALID_THRESHOLD

/-- The counting loop: `check i` says whether position `i` counts. -/
def countLoop (check : Nat → Except Abort Bool) : (rounds i count : Nat) → Except Abort Nat
  | 0, _, count => .ok count
  | rounds + 1, i, count => do
    let ok ← check i
    countLoop check rounds (i + 1) (if ok then count + 1 else count)

def checkAt (verify : Bytes → Bytes → Bool) (keys signatures : List Bytes) (i : Nat) :
    Except Abort Bool := do
  let signature ← borrow signatures i
  let key ← borrow keys i
  .ok (verify signature key)

def countValid (verify : Bytes → Bytes → Bool) (keys signatures : List Bytes) :
    Except Abort Nat := do
  ensure (keys.length == signatures.length) E_LENGTH_MISMATCH
  assertNoDuplicateKeys keys
  countLoop (checkAt verify keys signatures) keys.length 0 0

variable (V : Verifiers)

def countValidEd25519 (keys signatures : List Bytes) (msg : Bytes) : Except Abort Nat :=
  countValid (fun signature key => V.ed25519 signature key msg) keys signatures

def countValidEcdsaK1 (keys signatures : List Bytes) (msg : Bytes) (hash : UInt8) :
    Except Abort Nat :=
  countValid (fun signature key => V.ecdsaK1 signature key msg hash) keys signatures

def countValidEcdsaR1 (keys signatures : List Bytes) (msg : Bytes) : Except Abort Nat :=
  countValid (fun signature key => V.ecdsaR1 signature key msg) keys signatures

def verifyThreshold (count : Except Abort Nat) (keys : List Bytes) (threshold : Nat) :
    Except Abort Unit := do
  assertValidThreshold threshold keys.length
  ensure (decide (threshold ≤ (← count))) E_THRESHOLD_NOT_MET

def verifyThresholdEd25519 (keys signatures : List Bytes) (msg : Bytes) (threshold : Nat) :
    Except Abort Unit :=
  verifyThreshold (countValidEd25519 V keys signatures msg) keys threshold

def verifyThresholdEcdsaK1 (keys signatures : List Bytes) (msg : Bytes) (hash : UInt8)
    (threshold : Nat) : Except Abort Unit :=
  verifyThreshold (countValidEcdsaK1 V keys signatures msg hash) keys threshold

def verifyThresholdEcdsaR1 (keys signatures : List Bytes) (msg : Bytes) (threshold : Nat) :
    Except Abort Unit :=
  verifyThreshold (countValidEcdsaR1 V keys signatures msg) keys threshold

/-- The body of the mixed loop at one position: the scheme is looked at first. -/
def checkMixedAt (schemes : List UInt8) (keys signatures : List Bytes) (msg : Bytes) (hash : UInt8)
    (i : Nat) : Except Abort Bool := do
  let scheme ← borrow schemes i
  if scheme = SCHEME_ED25519 then
    checkAt (fun signature key => V.ed25519 signature key msg) keys signatures i
  else if scheme = SCHEME_ECDSA_K1 then
    checkAt (fun signature key => V.ecdsaK1 signature key msg hash) keys signatures i
  else if scheme = SCHEME_ECDSA_R1 then
    checkAt (fun signature key => V.ecdsaR1 signature key msg) keys signatures i
  else .error E_INVALID_SCHEME

def verifyThresholdMixed (schemes : List UInt8) (keys signatures : List Bytes) (msg : Bytes)
    (hash : UInt8) (threshold : Nat) : Except Abort Unit := do
  ensure (keys.length == signatures.length) E_LENGTH_MISMATCH
  ensure (keys.length == schemes.length) E_LENGTH_MISMATCH
  assertNoDuplicateKeys keys
  assertValidThreshold threshold keys.length
  let count ← countLoop (checkMixedAt V schemes keys signatures msg hash) keys.length 0 0
  ensure (decide (threshold ≤ count)) E_THRESHOLD_NOT_MET

def buildMessage (domain actionId : Bytes) (nonce : Word 64) : Bytes :=
  domain ++ Text.leBytes 8 actionId.length ++ actionId ++ Text.leBytes 8 nonce.val

end Kanari.Move.SignatureMultisig

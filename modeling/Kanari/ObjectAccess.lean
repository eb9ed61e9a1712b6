import Kanari.Objects

/-!
# Validation of the objects that a transaction names

`validate_transaction_object_access` runs before every execution.
-/

namespace Kanari

open Lib

def GAS_COIN : String := "0x2::kanari::KANARI"

def coinType (tokenType : String) : String := "0x2::coin::Coin<" ++ tokenType ++ ">"

def legacyNestedCoinType (tokenType : String) : String :=
  "0x2::coin::coin::Coin<" ++ tokenType ++ ">"

def isCoinTypeFor (objectType tokenType : String) : Bool :=
  objectType == coinType tokenType || objectType == legacyNestedCoinType tokenType

def isNativeGasCoinType (objectType : String) : Bool := isCoinTypeFor objectType GAS_COIN

/-- What the validation reads of its surroundings. -/
structure AccessEnv where
  getObject : String → Option StoredObject
  digest : StoredObject → String
  hashPublicKey : List Char → List Char → Option AccountAddress

def validateDeclaredOwner (env : AccessEnv) (objectId : String) (stored : StoredObject) :
    ObjectOwnerKind → Except String Unit
  | .addressOwner expectedOwner => do
    ensure (match stored.ownerKind with | .addressOwner _ => true | _ => false)
      s!"Object {objectId} is not canonically address-owned"
    match parseToAccountAddress env.hashPublicKey expectedOwner with
    | none => .error "invalid address"
    | some expected =>
      ensure (stored.owner == expected)
        s!"Owned object {objectId} is not owned by declared owner {expectedOwner}"
  | .shared =>
    ensure (stored.ownerKind == .shared) s!"Object {objectId} is not canonically shared"
  | .immutable =>
    ensure (stored.ownerKind == .immutable) s!"Object {objectId} is not canonically immutable"

def validateObjectInput (env : AccessEnv) (input : ObjectInput) : Except String Unit := do
  let objectId := input.objectRef.objectId
  ensure (input.objectRef.version.isSome && input.objectRef.digest.isSome)
    s!"ExecuteFunction object input {objectId} must include (object_id, version, digest)"
  ensure input.owner.isSome s!"ExecuteFunction object input {objectId} must declare owner semantics"
  ensure (!(input.owner == some .immutable && input.mutable))
    s!"Immutable object input {objectId} cannot be declared mutable"
  match env.getObject objectId with
  | none => .error s!"Referenced object {objectId} does not exist"
  | some stored => do
    ensure (input.objectRef.version.all (stored.version == ·))
      s!"Object version mismatch for {objectId}: expected {input.objectRef.version.getD 0}, found {stored.version}"
    ensure (input.objectRef.digest.all (env.digest stored == ·))
      s!"Object digest mismatch for {objectId}"
    match input.owner with
    | none => .ok ()
    | some owner => validateDeclaredOwner env objectId stored owner

def mutableInputIds (objectInputs : List ObjectInput) : List String :=
  (objectInputs.filter (·.mutable)).map (·.objectRef.objectId)

def validateGasPaymentObject (env : AccessEnv) (objectInputs : List ObjectInput)
    (expectedOwner : AccountAddress) (payment : ObjectRef) : Except String Unit := do
  let objectId := payment.objectId
  ensure (payment.version.isSome && payment.digest.isSome)
    s!"ExecuteFunction gas payment {objectId} must include (object_id, version, digest)"
  match env.getObject objectId with
  | none => .error s!"Gas payment object {objectId} does not exist"
  | some stored => do
    ensure (isNativeGasCoinType stored.typeName)
      s!"Gas payment object {objectId} must be Coin<{GAS_COIN}>, found {stored.typeName}"
    ensure (stored.owner == expectedOwner) s!"Gas payment object {objectId} is not owned by sender"
    ensure (payment.version.all (stored.version == ·))
      s!"Gas payment version mismatch for {objectId}: expected {payment.version.getD 0}, found {stored.version}"
    ensure (payment.digest.all (env.digest stored == ·)) s!"Gas payment digest mismatch for {objectId}"
    -- Compared as text, so another spelling of the same identifier passes.
    ensure (!(mutableInputIds objectInputs).contains objectId)
      s!"Gas payment object {objectId} cannot overlap with a mutable object input"

def validateGasPayment (env : AccessEnv) (objectInputs : List ObjectInput)
    (sender : AccountAddress) (gasPayment : GasPayment) : Except String Unit :=
  match parseToAccountAddress env.hashPublicKey gasPayment.owner with
  | none => .error "invalid address"
  | some expectedOwner => do
    ensure (expectedOwner == sender) "Gas payment owner must match sender"
    ensure (!gasPayment.paymentObjects.isEmpty)
      "ExecuteFunction gas payment must declare at least one payment object"
    forOk (validateGasPaymentObject env objectInputs expectedOwner) gasPayment.paymentObjects

/-- The declared owner is compared with the stored one, never with the sender, and two
inputs are never compared with each other. -/
def validateTransactionObjectAccess (env : AccessEnv) (objectInputs : List ObjectInput)
    (gasPayment : Option GasPayment) (sender : AccountAddress) : Except String Unit := do
  forOk (validateObjectInput env) objectInputs
  match gasPayment with
  | none => .ok ()
  | some payment => validateGasPayment env objectInputs sender payment

end Kanari

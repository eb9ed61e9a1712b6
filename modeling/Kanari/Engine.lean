import Kanari.Apply
import Kanari.Transaction
import Kanari.TypeArguments

/-!
# Executing one transaction

`execute_transaction_with_runtime_overlay` and the functions it calls on the native path. The
Move virtual machine and the hash functions are fields of `EngineEnv`.
-/

namespace Kanari

open Lib

/-- What a session of the virtual machine leaves behind. A session that fails leaves nothing, and
the runtime moves no native balance of its own: the engine charges gas. -/
structure MoveOutput where
  publishedModules : List (AccountAddress × String) := []
  events : List Event := []
  treasuries : List (AccountAddress × String × Nat) := []
  tokenBalanceSets : List (AccountAddress × String × Nat) := []
  createdObjects : List (String × CreatedObject) := []
  deletedObjects : List String := []
  addedDynamicFields : List (String × Bytes × Bytes) := []
  removedDynamicFields : List (String × Bytes) := []
  moveWrites : OrdMap String (Option Bytes) := .empty
  resolverReads : OrdSet String := .empty
  gasUsed : Nat := 0

def MoveOutput.toChangeSet (o : MoveOutput) : ChangeSet where
  ownerDeltas := o.publishedModules.foldl ChangeSet.publishModule .empty
  events := o.events
  treasuries := o.treasuries
  tokenBalanceSets := o.tokenBalanceSets
  createdObjects := o.createdObjects
  deletedObjects := o.deletedObjects
  addedDynamicFields := o.addedDynamicFields
  removedDynamicFields := o.removedDynamicFields
  moveWrites := o.moveWrites
  resolverReads := o.resolverReads
  gasUsed := o.gasUsed

structure EngineEnv where
  blake3 : Bytes → Bytes
  txHash : Transaction → Bytes
  hashPublicKey : List Char → List Char → Option AccountAddress
  /-- Publishing, or a call of an entry function that is no native balance call. -/
  runMove : StateManager → Transaction → Except String MoveOutput

namespace EngineEnv

variable (env : EngineEnv)

def digest (data : Bytes) : String := "0x" ++ String.ofList (Hex.encode (env.blake3 data))

def parseAddress (s : String) : Except String AccountAddress :=
  match parseToAccountAddress env.hashPublicKey s with
  | some a => .ok a
  | none => .error s!"Invalid address {s}"

def accessEnv (σ : StateManager) : AccessEnv where
  getObject := σ.getObject
  digest := fun obj => env.digest obj.data
  hashPublicKey := env.hashPublicKey

def readBalance (data : Bytes) : Option Nat :=
  if 40 ≤ data.length then some (Text.leNat ((data.drop 32).take 8)) else none

def nativeCoinDataWithBalance (objectId : String) (existing : Bytes) (amount : Nat) :
    Except String Bytes := do
  ensure (decide (40 ≤ existing.length)) s!"Native coin object {objectId} has invalid coin bytes"
  return spliceU64 existing 32 amount

def nativeTransferOutputId (tx : Transaction) : String :=
  "0x" ++ String.ofList (Hex.encode
    (env.blake3 (asciiBytes "kanari:native_transfer_output:v1:" ++ env.txHash tx)))

def firstPayment (tx : Transaction) (operation : String) : Except String ObjectRef :=
  match tx.gasPayment with
  | none => .error s!"{operation} requires prepared gas payment"
  | some payment =>
    match payment.paymentObjects with
    | [] => .error s!"{operation} requires one prepared gas payment object"
    | ref :: _ => .ok ref

/-- A native coin of the sender. `role` is the wording of the error texts. -/
def loadSenderCoin (σ : StateManager) (role notFound objectId : String) (sender : AccountAddress) :
    Except String StoredObject :=
  match σ.getObject objectId with
  | none => .error notFound
  | some obj => do
    ensure (isNativeGasCoinType obj.typeName)
      s!"{role} {objectId} must be Coin<{GAS_COIN}>, found {obj.typeName}"
    ensure (obj.owner == sender) s!"{role} {objectId} is not owned by sender {sender.toHexLiteral}"
    return obj

def coinBalance (role objectId : String) (obj : StoredObject) : Except String Nat :=
  match readBalance obj.data with
  | none => .error s!"{role} {objectId} has invalid coin bytes"
  | some balance => .ok balance

def createdFrom (obj : StoredObject) (data : Bytes) : CreatedObject :=
  ⟨obj.owner, obj.ownerKind, obj.typeName, data, obj.version⟩

def ownedBy (owner : AccountAddress) (typeName : String) (data : Bytes) (version : Nat) : CreatedObject :=
  ⟨owner, .addressOwner owner.toHexLiteral, typeName, data, version⟩

def pushCreated (cs : ChangeSet) (id : String) (obj : CreatedObject) : ChangeSet :=
  { cs with createdObjects := cs.createdObjects ++ [(id, obj)] }

/-- The whole coin changes hands: no owner delta, the balances follow from the objects. -/
def transferWhole (cs : ChangeSet) (coinObjectId : String) (coin : StoredObject)
    (recipient : AccountAddress) : ChangeSet :=
  pushCreated cs coinObjectId (ownedBy recipient coin.typeName coin.data coin.version)

/-- The executors write into the change set of the transaction: an error leaves it as it is then. -/
def leaving {α : Type} (cs : ChangeSet) (x : Except String α) : Except (ChangeSet × String) α :=
  mapError (fun e => (cs, e)) x

def transferPart (tx : Transaction) (cs : ChangeSet) (coinObjectId : String) (coin : StoredObject)
    (balance : Nat) (sender recipient : AccountAddress) (amount : Nat) :
    Except (ChangeSet × String) ChangeSet := do
  let cs := cs.transfer sender recipient amount
  let rest ← leaving cs (nativeCoinDataWithBalance coinObjectId coin.data (balance - amount))
  let cs := pushCreated cs coinObjectId (createdFrom coin rest)
  let outputId := env.nativeTransferOutputId tx
  let output ← leaving cs (nativeCoinDataWithBalance outputId coin.data amount)
  let output := match AccountAddress.fromHexLiteral outputId with
    | some a => a.bytes ++ output.drop 32
    | none => output
  return pushCreated cs outputId (ownedBy recipient coin.typeName output 1)

def checkNativeTransfer (σ : StateManager) (tx : Transaction) (sender : AccountAddress)
    (coinObjectId recipient : String) (amount gasCost : Nat) :
    Except String (StoredObject × Nat × AccountAddress) := do
  ensure (decide (0 < amount)) "Native transfer amount must be non-zero"
  let gasRef ← firstPayment tx "Native transfer"
  ensure (gasRef.objectId != coinObjectId)
    (s!"Native transfer requires two distinct Coin<{GAS_COIN}> objects: " ++
      "one mutable transfer input and one separate gas payment object")
  let coin ← loadSenderCoin σ "Native transfer object"
    s!"Native transfer coin object {coinObjectId} was not found" coinObjectId sender
  let gasObject ← loadSenderCoin σ "Native transfer gas object"
    s!"Native transfer gas object {gasRef.objectId} was not found" gasRef.objectId sender
  let transferBalance ← coinBalance "Native transfer object" coinObjectId coin
  let gasBalance ← coinBalance "Native transfer gas object" gasRef.objectId gasObject
  ensure (decide (amount ≤ transferBalance))
    (s!"Native transfer requires Coin<{GAS_COIN}> object {coinObjectId} " ++
      s!"with at least {amount} Mist; only has {transferBalance} Mist")
  ensure (decide (gasCost ≤ gasBalance))
    s!"Native transfer gas object {gasRef.objectId} needs at least {gasCost} Mist; only has {gasBalance} Mist"
  let recipientAddr ← env.parseAddress recipient
  return (coin, transferBalance, recipientAddr)

def executeBackendNativeTransfer (σ : StateManager) (tx : Transaction) (sender : AccountAddress)
    (coinObjectId recipient : String) (amount gasCost : Nat) (cs : ChangeSet) :
    Except (ChangeSet × String) ChangeSet := do
  let (coin, balance, recipientAddr) ←
    leaving cs (env.checkNativeTransfer σ tx sender coinObjectId recipient amount gasCost)
  if balance = amount then return transferWhole cs coinObjectId coin recipientAddr
  else env.transferPart tx cs coinObjectId coin balance sender recipientAddr amount

def checkNativeBurn (σ : StateManager) (tx : Transaction) (sender : AccountAddress)
    (amount gasCost : Nat) : Except String (ObjectRef × StoredObject × Nat × Nat) := do
  ensure (decide (0 < amount)) "Native burn amount must be non-zero"
  let gasRef ← firstPayment tx "Native burn"
  let coin ← loadSenderCoin σ "Native burn gas object"
    s!"Native burn gas object {gasRef.objectId} was not found in state" gasRef.objectId sender
  let balance ← coinBalance "Native burn gas object" gasRef.objectId coin
  let totalRequired ← checkedAdd amount gasCost "Native burn amount + gas overflowed u64"
  ensure (decide (totalRequired ≤ balance))
    (s!"Native burn requires one Coin<{GAS_COIN}> object with at least {totalRequired} Mist " ++
      s!"for burn + gas; selected object {gasRef.objectId} only has {balance} Mist")
  return (gasRef, coin, balance, totalRequired)

def executeBackendNativeBurn (σ : StateManager) (tx : Transaction) (sender : AccountAddress)
    (amount gasCost : Nat) (cs : ChangeSet) : Except (ChangeSet × String) ChangeSet := do
  let (gasRef, coin, balance, totalRequired) ← leaving cs (checkNativeBurn σ tx sender amount gasCost)
  let cs := cs.burn sender amount
  if balance = totalRequired then
    return { cs with deletedObjects := cs.deletedObjects ++ [gasRef.objectId] }
  else do
    let data ← leaving cs (nativeCoinDataWithBalance gasRef.objectId coin.data (balance - amount))
    return pushCreated cs gasRef.objectId (createdFrom coin data)

/-- The collected fee is a ledger credit of the DAO; no coin object is created for it. -/
def applyGasAndSequence (cs : ChangeSet) (sender : AccountAddress) (gasCost gasUsed : Nat) :
    Except String ChangeSet := do
  let cs := cs.debit sender gasCost
  let creditBefore := (cs.nativeGasCredits.find? daoAccountAddress).getD 0
  let collected := cs.collectGas daoAccountAddress gasCost
  ensure (collected.delta daoAccountAddress - cs.delta daoAccountAddress == (gasCost : Int))
    s!"DAO gas credit mismatch: expected {gasCost} Mist"
  ensure (((collected.nativeGasCredits.find? daoAccountAddress).getD 0) - creditBefore == gasCost)
    s!"DAO gas-credit metadata mismatch: expected {gasCost} Mist"
  return { collected with gasUsed := gasUsed }

def objectRefOf (id : String) (version : Nat) (data : Bytes) : ObjectRef :=
  ⟨id, some version, some (env.digest data)⟩

def createdChange (σ : StateManager) (c : String × CreatedObject) : ObjectChange :=
  let next := env.objectRefOf c.1 c.2.version c.2.data
  match σ.getObject c.1 with
  | some existing =>
    { changeType := if existing.owner = c.2.owner then .mutated else .transferred
      objectRef := next
      previousObjectRef := some (env.objectRefOf c.1 existing.version existing.data)
      typeName := some c.2.typeName
      owner := some c.2.ownerKind
      previousOwner := some existing.ownerKind
      previousVersion := some existing.version }
  | none => ⟨.created, next, none, some c.2.typeName, some c.2.ownerKind, none, none⟩

def deletedChange (σ : StateManager) (id : String) : ObjectChange :=
  match σ.getObject id with
  | some existing =>
    let ref := env.objectRefOf id existing.version existing.data
    ⟨.deleted, ref, some ref, none, none, some existing.ownerKind, some existing.version⟩
  | none => ⟨.deleted, ⟨id, none, none⟩, none, none, none, none, none⟩

def annotateChangesetObjectEffects (σ : StateManager) (cs : ChangeSet) : ChangeSet :=
  { cs with explicitObjectChanges :=
      cs.createdObjects.map (env.createdChange σ) ++ cs.deletedObjects.map (env.deletedChange σ) }

/-- Gas is charged whether or not the call succeeded. -/
def finishExecution (σ : StateManager) (sender : AccountAddress) (gasCost gasUsed : Nat)
    (cs : ChangeSet) : Except String ChangeSet := do
  let cs ← applyGasAndSequence cs sender gasCost gasUsed
  return env.annotateChangesetObjectEffects σ cs

def runNative (σ : StateManager) (tx : Transaction) (sender : AccountAddress) (gasCost : Nat)
    (cs : ChangeSet) : NativeCall → Except (ChangeSet × String) ChangeSet
  | .transfer coinObjectId recipient amount =>
    env.executeBackendNativeTransfer σ tx sender coinObjectId recipient amount gasCost cs
  | .burn amount => executeBackendNativeBurn σ tx sender amount gasCost cs

def orFailed : Except (ChangeSet × String) ChangeSet → ChangeSet
  | .ok done => done
  | .error (left, e) => left.markFailed s!"Execution failed: {e}"

/-- The module that a call names, as the resolver key that the call is recorded to read. -/
def moduleReadKey (call : ExecuteFunction) : Except String String :=
  match splitColons call.module.toList with
  | [address, name] => do
    let address ← env.parseAddress (String.ofList address)
    ensure (isIdentifier name) s!"Invalid identifier '{String.ofList name}'"
    ensure (call.typeArgs.all fun t => (parseTypeTag env.hashPublicKey t).isSome) "Invalid type argument"
    return "module:" ++ address.toHexLiteral ++ ":" ++ String.ofList name
  | _ => .error "Invalid module format. Expected: address::module"

/-- A failed call of a function is charged the whole gas limit, a failed publication is not. -/
def runVirtualMachine (σ : StateManager) (tx : Transaction) (cs : ChangeSet) : Except String ChangeSet :=
  let publish (failure : String) : Except String ChangeSet :=
    match env.runMove σ tx with
    | .ok output => .ok (cs.mergeFrom output.toChangeSet)
    | .error e => .ok (cs.markFailed s!"{failure}: {e}")
  match tx.kind with
  | .publishModule _ => publish "Publish failed"
  | .upgradeModule _ => publish "Upgrade failed"
  | .publishPackage _ => publish "Publish package failed"
  | .upgradePackage _ => publish "Upgrade package failed"
  | .executeFunction call => do
    let key ← env.moduleReadKey call
    let cs := { cs with resolverReads := OrdSet.add cs.resolverReads key }
    match env.runMove σ tx with
    | .ok output => return cs.mergeFrom output.toChangeSet
    | .error e =>
      return { cs.markFailed s!"Execution failed: {e}" with gasUsed := tx.header.gasLimit }

def executeChecked (σ : StateManager) (tx : Transaction) (sender : AccountAddress)
    (baseUnits baseCost : Nat) (cs : ChangeSet) : Except String ChangeSet :=
  match tx.nativeCall with
  | some call =>
    env.finishExecution σ sender baseCost baseUnits
      (orFailed (env.runNative σ tx sender baseCost cs call))
  | none => do
    let cs ← env.runVirtualMachine σ tx cs
    let units := max cs.gasUsed baseUnits
    ensure (decide (units ≤ tx.header.gasLimit))
      s!"Runtime gas usage {units} exceeds transaction gas limit {tx.header.gasLimit}"
    let cost ← checkedMul units (effectiveGasPrice tx.header.gasPrice) "Transaction gas cost overflow"
    env.finishExecution σ sender cost units cs

def nativeBalanceOrZero (σ : StateManager) (owner : AccountAddress) : Nat :=
  match σ.resolveOwnerNativeBalance owner with
  | .ok balance => balance
  | .error _ => 0

def executeTransaction (σ : StateManager) (tx : Transaction) : Except String ChangeSet := do
  let sender ← env.parseAddress tx.header.sender
  let cs := ({} : ChangeSet).setTransactionContext tx.objectInputs tx.gasPayment
  let baseUnits ← consumeGas (baseGasUnits tx) tx.header.gasLimit
  let price := effectiveGasPrice tx.header.gasPrice
  let baseCost := saturatingMul baseUnits price
  let maxCost ← checkedMul tx.header.gasLimit price "Transaction maximum gas cost overflow"
  validateTransactionObjectAccess (env.accessEnv σ) tx.objectInputs tx.gasPayment sender
  let balance := nativeBalanceOrZero σ sender
  if 0 < maxCost ∧ balance < maxCost then
    env.finishExecution σ sender (min baseCost balance) baseUnits
      (cs.markFailed s!"Insufficient balance for maximum gas: need {maxCost}, have {balance}")
  else env.executeChecked σ tx sender baseUnits baseCost cs

def raceMarkers : List String :=
  ["Object version mismatch for", "Object digest mismatch for", "Gas payment version mismatch for",
    "Gas payment digest mismatch for"]

/-- The charge for a transaction that failed before it had a change set. A lost race for an
object version is free. -/
def failedChangesetForError (σ : StateManager) (tx : Transaction) (error : String) :
    Except String ChangeSet := do
  let sender ← env.parseAddress tx.header.sender
  let baseUnits := min (baseGasUnits tx) tx.header.gasLimit
  let requestedCost ← checkedMul baseUnits (effectiveGasPrice tx.header.gasPrice)
    "Failed to calculate failure gas cost"
  let isRace := raceMarkers.any fun marker => ChangeSet.containsText marker.toList error.toList
  let cs := ({} : ChangeSet).setTransactionContext tx.objectInputs tx.gasPayment
  if isRace then
    env.finishExecution σ sender 0 baseUnits
      (cs.markFailed s!"{error} (object changed concurrently; retry with fresh object refs)")
  else
    env.finishExecution σ sender (min requestedCost (nativeBalanceOrZero σ sender)) baseUnits
      (cs.markFailed error)

end EngineEnv

end Kanari

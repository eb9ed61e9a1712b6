import Kanari.Apply

/-!
# The fast path for native burns

`try_apply_owned_native_burn_batch_without_supply_validation`. The plan is applied in place: an
error in that part leaves what has been written.
-/

namespace Kanari

open Lib

namespace StateManager

structure BurnBatchPlan where
  ownerDeltas : OrdMap AccountAddress Int := .empty
  objectUpdates : List StoredObject := []
  access : StateAccessSet := {}
  supplyDelta : Int := 0

def isPlainBurn (cs : ChangeSet) : Bool :=
  cs.success && cs.events.isEmpty && cs.treasuries.isEmpty && cs.nftCaps.isEmpty &&
    cs.tokenBalanceSets.isEmpty && cs.sharedInputs.isEmpty && cs.immutableInputs.isEmpty &&
    cs.gasPayment.isSome && cs.gasObjectRefs.length == 1 && cs.createdObjects.length == 1 &&
    cs.deletedObjects.isEmpty && cs.addedDynamicFields.isEmpty && cs.removedDynamicFields.isEmpty &&
    cs.moveWrites.entries.isEmpty && cs.resolverReads.entries.isEmpty

/-- `none` declines the batch. -/
def planOwnerDeltas : BurnBatchPlan → List (AccountAddress × OwnerDelta) →
    Except String (Option BurnBatchPlan)
  | plan, [] => .ok (some plan)
  | plan, e :: rest =>
    if e.2.modulesAdded.entries.isEmpty then do
      let delta ← checkedAddI128 ((plan.ownerDeltas.find? e.1).getD 0) e.2.balanceDelta
        "Native owned batch owner delta overflow"
      let supplyDelta ← checkedAddI128 plan.supplyDelta e.2.balanceDelta
        "Native owned batch supply delta overflow"
      planOwnerDeltas
        { plan with ownerDeltas := plan.ownerDeltas.insert e.1 delta, supplyDelta := supplyDelta } rest
    else .ok none

/-- The written coin once more reduced, by the whole debit of its owner. -/
def planObject (cs : ChangeSet) (canonicalId : String) (created : CreatedObject)
    (objectBalance : Nat) : Except String (Option StoredObject) := do
  let senderDebit ← toU64 (cs.delta created.owner) "Native owned batch sender debit overflowed u64"
  let gasCreditTotal ← foldOk
    (fun total e => checkedAdd total e.2 "Native gas credit overflow in owned batch")
    0 cs.nativeGasCredits.entries
  if senderDebit < gasCreditTotal ∨ objectBalance < senderDebit then return none
  else
    match structTagFromStr created.typeName with
    | none => .error "Native owned batch coin object type is invalid"
    | some st =>
      match writeBalanceToObjectBytes created.data st (objectBalance - senderDebit) with
      | none => return none
      | some data => return some ⟨canonicalId, created.owner, created.ownerKind, created.typeName,
          data, created.version + 1⟩

def planCoin (plan : BurnBatchPlan) (cs : ChangeSet) (gasRef : ObjectRef) (objectId : String)
    (created : CreatedObject) (payment : GasPayment) : Except String (Option BurnBatchPlan) :=
  let canonicalId := canonicalOwnedObjectId objectId
  if canonicalOwnedObjectId gasRef.objectId ≠ canonicalId then .ok none
  else
    match nativeAmount created.typeName created.data with
    | none => .ok none
    | some objectBalance =>
      match AccountAddress.fromHexLiteral payment.owner with
      | none => .error "Native owned batch gas payment owner is invalid"
      | some paymentOwner =>
        if paymentOwner ≠ created.owner ∨ 0 ≤ cs.delta created.owner then .ok none
        else do
          match ← planObject cs canonicalId created objectBalance with
          | none => return none
          | some object =>
            match ← planOwnerDeltas plan cs.ownerDeltas.entries with
            | none => return none
            | some plan => return some { plan with
                objectUpdates := plan.objectUpdates ++ [object]
                access := { plan.access with
                  writes := OrdSet.add plan.access.writes ("object:" ++ canonicalId) } }

def planBurn (plan : BurnBatchPlan) (cs : ChangeSet) : Except String (Option BurnBatchPlan) :=
  if isPlainBurn cs then
    match cs.gasObjectRefs, cs.createdObjects, cs.gasPayment with
    | [gasRef], [(objectId, created)], some payment => planCoin plan cs gasRef objectId created payment
    | _, _, _ => .ok none
  else .ok none

def planBurns : BurnBatchPlan → List ChangeSet → Except String (Option BurnBatchPlan)
  | plan, [] => .ok (some plan)
  | plan, cs :: rest => do
    match ← planBurn plan cs with
    | none => return none
    | some plan => planBurns plan rest

/-- The state as it is left, and the outcome. -/
abbrev InPlace (α : Type) : Type := StateManager × Except String α

/-- The total is written before the visible supply is checked. -/
def burnSupply (σ : StateManager) (burnAmount : Nat) : InPlace Unit :=
  if σ.totalSupply < burnAmount then
    (σ, .error s!"Native total supply underflow: tried to burn {burnAmount} from {σ.totalSupply}")
  else
    let σ := σ.saveNativeTotalSupply (σ.totalSupply - burnAmount)
    let visible := σ.cachedSupply GAS_COIN
    if visible < burnAmount then
      (σ, .error s!"Native visible supply underflow in owned batch: visible={visible}, burn={burnAmount}")
    else
      (saveGlobalTokenSupplies { σ with
        globalTokenSupplies := setSupply σ.globalTokenSupplies GAS_COIN (visible - burnAmount) }, .ok ())

def nextBatchBalance (owner : AccountAddress) (current : Nat) (delta : Int) : Except String Nat :=
  if 0 ≤ delta then do
    let credit ← toU64 delta "Native credit overflowed u64"
    checkedAdd current credit "Native owner balance overflow"
  else do
    let debit ← toU64 delta "Native debit overflowed u64"
    ensure (decide (debit ≤ current))
      s!"Insufficient native balance for {owner.toHexLiteral}: need {debit}, have {current}"
    return current - debit

/-- The ledgers one after another; the index entries of those that stay are returned. -/
def writeOwnerTotals : StateManager → List String → List (AccountAddress × Int) → InPlace (List String)
  | σ, additions, [] => (σ, .ok additions)
  | σ, additions, (owner, delta) :: rest =>
    let ownerState := σ.loadOwnerStateOrDefault owner
    match nextBatchBalance owner ownerState.nativeBalance delta with
    | .error e => (σ, .error e)
    | .ok next =>
      let ownerState := ownerState.setTokenBalanceValue GAS_COIN next
      if ownerState.isEmpty then
        writeOwnerTotals { σ with
          owners := σ.owners.erase owner
          ownerIndex := σ.ownerIndex.erase owner.toHexLiteral } additions rest
      else
        writeOwnerTotals { σ with owners := σ.owners.insert ownerState.address ownerState }
          (additions ++ [owner.toHexLiteral]) rest

def writePlan (σ : StateManager) (plan : BurnBatchPlan) : InPlace Bool :=
  match writeOwnerTotals σ [] plan.ownerDeltas.entries with
  | (σ, .error e) => (σ, .error e)
  | (σ, .ok additions) =>
    let σ := { σ with
      objects := plan.objectUpdates.foldl (fun objects (o : StoredObject) => objects.insert o.id o) σ.objects
      ownerIndex := OrdSet.addAll σ.ownerIndex additions }
    let (σ, advanced) := σ.advanceAccessVersions plan.access
    (σ, advanced.map fun _ => true)

def applyPlan (σ : StateManager) (plan : BurnBatchPlan) : InPlace Bool :=
  if 0 < plan.supplyDelta then (σ, .ok false)
  else if plan.supplyDelta = 0 then writePlan σ plan
  else
    match toU64 plan.supplyDelta "Native owned batch burn overflowed u64" with
    | .error e => (σ, .error e)
    | .ok burnAmount =>
      match burnSupply σ burnAmount with
      | (σ, .error e) => (σ, .error e)
      | (σ, .ok ()) => writePlan σ plan

/-- `.ok false` declines: the caller then applies the change sets in another way. -/
def tryApplyOwnedNativeBurnBatchWithoutSupplyValidation (σ : StateManager) (css : List ChangeSet) :
    InPlace Bool :=
  if css.isEmpty then (σ, .ok true)
  else
    match planBurns {} css with
    | .error e => (σ, .error e)
    | .ok none => (σ, .ok false)
    | .ok (some plan) => applyPlan σ plan

end StateManager

end Kanari

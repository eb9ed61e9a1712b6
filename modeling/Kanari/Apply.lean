import Kanari.Supply

/-!
# Applying a change set

`apply_changeset_with_options`, stage by stage. The local variables of the source that outlive a
stage are the fields of `ApplyAcc`; what is computed before the first write is in `ApplyContext`.
-/

namespace Kanari

open Lib

namespace StateManager

/-! ## What the change set says about gas -/

def supplyDelta (cs : ChangeSet) : Except String Int :=
  foldOk (fun total e => checkedAddI128 total e.2.balanceDelta "Native supply delta overflow")
    0 cs.ownerDeltas.entries

def nextTotalSupply (σ : StateManager) (cs : ChangeSet) : Except String (Option Nat) := do
  let delta ← supplyDelta cs
  if 0 < delta then do
    let mintAmount ← toU64 delta "Native supply delta overflowed u64 total supply"
    let total ← checkedAdd σ.totalSupply mintAmount "Native total supply overflow"
    return some total
  else if delta < 0 then do
    let burnAmount ← toU64 delta "Native supply delta overflowed u64 total supply"
    ensure (decide (burnAmount ≤ σ.totalSupply))
      s!"Native total supply underflow: tried to burn {burnAmount} from {σ.totalSupply}"
    return some (σ.totalSupply - burnAmount)
  else return none

/-- The sum over all collectors, and so over all transactions of a merged change set. -/
def nativeGasDebitTotal (cs : ChangeSet) : Except String Nat :=
  foldOk (fun total e => checkedAdd total e.2 "Native gas debit total overflow")
    0 cs.nativeGasCredits.entries

def ownerNativeDebit (cs : ChangeSet) (owner : AccountAddress) (e : String) : Except String Nat :=
  if cs.delta owner < 0 then toU64 (cs.delta owner) e else .ok 0

def singleDebitOwner (cs : ChangeSet) : Option AccountAddress :=
  match cs.ownerDeltas.entries.filter fun e => decide (e.2.balanceDelta < 0) with
  | [(owner, _)] => some owner
  | _ => none

def implicitGasPayer (cs : ChangeSet) : Option AccountAddress :=
  (cs.gasPayment.bind fun payment => AccountAddress.fromHexLiteral payment.owner).or
    (singleDebitOwner cs)

structure ApplyContext where
  cs : ChangeSet
  gasDebitTotal : Nat
  /-- Ledger and object balance of the owners concerned, before any write. -/
  balancesBefore : OrdMap AccountAddress (Nat × Nat)

namespace ApplyContext

def ownerNativeGasDebit (ctx : ApplyContext) (owner : AccountAddress) (explicitGasObject : Bool) :
    Except String Nat :=
  if explicitGasObject || some owner == implicitGasPayer ctx.cs then do
    let debit ← ownerNativeDebit ctx.cs owner "Native debit overflowed u64 gas object adjustment"
    return min debit ctx.gasDebitTotal
  else .ok 0

def gasObjectIds (ctx : ApplyContext) : List String :=
  ctx.cs.gasObjectRefs.map fun ref => canonicalOwnedObjectId ref.objectId

def createdObjectOwner (ctx : ApplyContext) (canonicalId : String) : Option AccountAddress :=
  ((ctx.cs.createdObjects.reverse.find? fun c => canonicalOwnedObjectId c.1 == canonicalId).map
    fun c => c.2.owner)

end ApplyContext

/-! ## Snapshots -/

def snapshotOwners (σ : StateManager) (cs : ChangeSet) : OrdSet AccountAddress :=
  OrdSet.addAll .empty (cs.ownerDeltas.keys ++
    (cs.createdObjects.filter fun c => (nativeAmount c.2.typeName c.2.data).isSome).map (·.2.owner) ++
    ((cs.deletedObjects.filterMap fun id => (σ.loadStoredObjectByAnyId id).map (·.2)).filter
      fun obj => (nativeAmount obj.typeName obj.data).isSome).map (·.owner))

/-- The object balance is not computed for a debit that the ledger covers. -/
def snapshotBalance (σ : StateManager) (cs : ChangeSet) (owner : AccountAddress) :
    Except String (Nat × Nat) := do
  let debit ← ownerNativeDebit cs owner "Native debit overflowed u64 owner balance"
  if 0 < debit ∧ debit ≤ σ.ledger owner then return (σ.ledger owner, 0)
  else do
    let balances ← σ.computeOwnedTokenBalances owner
    return (σ.ledger owner, (balances.find? GAS_COIN).getD 0)

def nativeBalancesBefore (σ : StateManager) (cs : ChangeSet) :
    Except String (OrdMap AccountAddress (Nat × Nat)) :=
  foldOk (fun acc owner => do
    let balance ← σ.snapshotBalance cs owner
    return acc.insert owner balance) .empty (OrdSet.elems (σ.snapshotOwners cs))

def checkDebit (before : OrdMap AccountAddress (Nat × Nat)) (e : AccountAddress × OwnerDelta) :
    Except String Unit :=
  if 0 ≤ e.2.balanceDelta then .ok ()
  else do
    let debit ← toU64 e.2.balanceDelta "Native debit overflowed u64 owner balance"
    let snapshot := (before.find? e.1).getD (0, 0)
    let balance := max snapshot.1 snapshot.2
    ensure (decide (debit ≤ balance))
      s!"Insufficient native balance for {e.1.toHexLiteral}: need {debit}, have {balance}"

/-! ## Accumulators -/

structure ApplyAcc where
  state : StateManager
  suppliesDirty : Bool := false
  ownersToRecompute : OrdSet AccountAddress := .empty
  nativeObjectChanged : OrdSet AccountAddress := .empty
  nonNativeObjectChanged : OrdSet AccountAddress := .empty
  nativeObjectOwnerChanged : OrdSet AccountAddress := .empty
  nativeObjectCreated : OrdSet AccountAddress := .empty
  nativeObjectGasAdjusted : OrdMap AccountAddress Nat := .empty
  nativeObjectBefore : OrdMap AccountAddress Nat := .empty
  nativeObjectAfter : OrdMap AccountAddress Nat := .empty
  nativeAfterOwnerDeltas : OrdMap AccountAddress Nat := .empty
  ownerIndexAdditions : List String := []
  objectIndexAdditions : List String := []
  objectOwnerIndexAdditions : List String := []
  ownedIndexAdditions : List (AccountAddress × String) := []

namespace ApplyAcc

def recordObjectBalanceOwner (acc : ApplyAcc) (owner : AccountAddress) (typeName : String)
    (data : Bytes) : ApplyAcc :=
  match balanceTokenAmount typeName data with
  | none => acc
  | some (tokenType, _) =>
    if normalizeTokenType tokenType = GAS_COIN then
      { acc with
        ownersToRecompute := OrdSet.add acc.ownersToRecompute owner
        nativeObjectChanged := OrdSet.add acc.nativeObjectChanged owner }
    else
      { acc with
        ownersToRecompute := OrdSet.add acc.ownersToRecompute owner
        nonNativeObjectChanged := OrdSet.add acc.nonNativeObjectChanged owner }

def addObjectBefore (acc : ApplyAcc) (owner : AccountAddress) (amount : Nat) : Except String ApplyAcc := do
  let total ← checkedAdd ((acc.nativeObjectBefore.find? owner).getD 0) amount
    "Native object balance snapshot overflow"
  return { acc with nativeObjectBefore := acc.nativeObjectBefore.insert owner total }

def addObjectAfter (acc : ApplyAcc) (owner : AccountAddress) (amount : Nat) : Except String ApplyAcc := do
  let total ← checkedAdd ((acc.nativeObjectAfter.find? owner).getD 0) amount
    "Native object balance snapshot overflow"
  return { acc with nativeObjectAfter := acc.nativeObjectAfter.insert owner total }

def gasAdjusted (acc : ApplyAcc) (owner : AccountAddress) : Nat :=
  (acc.nativeObjectGasAdjusted.find? owner).getD 0

end ApplyAcc

/-! ## Owner deltas -/

def nextNativeBalance (before : OrdMap AccountAddress (Nat × Nat)) (address : AccountAddress)
    (current : Nat) (delta : Int) : Except String Nat :=
  if 0 < delta then do
    let amount ← toU64 delta "Native credit overflowed u64 owner balance"
    checkedAdd current amount "Native owner balance overflow"
  else if delta < 0 then do
    let debit ← toU64 delta "Native debit overflowed u64 owner balance"
    let effective :=
      if debit ≤ current then current else max current ((before.find? address).getD (current, 0)).2
    ensure (decide (debit ≤ effective))
      s!"Insufficient native balance for {address.toHexLiteral} while applying owner delta: need {debit}, have {effective}"
    return effective - debit
  else .ok current

def applyDeltaToOwner (before : OrdMap AccountAddress (Nat × Nat)) (ownerState : OwnerState)
    (address : AccountAddress) (change : OwnerDelta) : Except String OwnerState := do
  let next ← nextNativeBalance before address ownerState.nativeBalance change.balanceDelta
  let ownerState :=
    if change.balanceDelta = 0 then ownerState else ownerState.setTokenBalanceValue GAS_COIN next
  return ownerState.addModules (OrdSet.elems change.modulesAdded)

/-- Index entries are removed at once and added after the loop. -/
def saveDeltaOwner (acc : ApplyAcc) (s : OwnerState) : ApplyAcc :=
  if s.isEmpty then
    { acc with state :=
      { acc.state with
        owners := acc.state.owners.erase s.address
        ownerIndex := acc.state.ownerIndex.erase s.address.toHexLiteral } }
  else
    { acc with
      state := { acc.state with owners := acc.state.owners.insert s.address s }
      ownerIndexAdditions := acc.ownerIndexAdditions ++ [s.address.toHexLiteral] }

def applyOwnerDelta (before : OrdMap AccountAddress (Nat × Nat)) (acc : ApplyAcc)
    (e : AccountAddress × OwnerDelta) : Except String ApplyAcc := do
  let ownerState := acc.state.loadOwnerStateOrDefault e.1
  let next ← applyDeltaToOwner before ownerState e.1 e.2
  let acc := saveDeltaOwner acc next
  let (state, changed) ← acc.state.captureSupplyChanged next ownerState.tokenBalances
  return { acc with
    state := state
    suppliesDirty := acc.suppliesDirty || changed
    nativeAfterOwnerDeltas := acc.nativeAfterOwnerDeltas.insert next.address next.nativeBalance }

def applyOwnerDeltas (ctx : ApplyContext) (acc : ApplyAcc) : Except String ApplyAcc := do
  let acc ← foldOk (applyOwnerDelta ctx.balancesBefore) acc ctx.cs.ownerDeltas.entries
  return { acc with state :=
    { acc.state with ownerIndex := OrdSet.addAll acc.state.ownerIndex acc.ownerIndexAdditions } }

/-! ## Treasuries, capabilities, balance hints -/

def saveTreasury (σ : StateManager) (tokenType : String) (owner : AccountAddress) (totalSupply : Nat) :
    StateManager :=
  let σ := { σ with
    supplies := σ.supplies.insert tokenType totalSupply
    treasuryOwners := σ.treasuryOwners.insert tokenType owner
    treasuryIndex := OrdSet.add σ.treasuryIndex ("treasury:" ++ tokenType) }
  if normalizeTokenType tokenType = GAS_COIN then σ.saveNativeTotalSupply totalSupply else σ

def applySupplies (nextTotal : Option Nat) (cs : ChangeSet) (σ : StateManager) : StateManager :=
  let σ := match nextTotal with
    | some total => σ.saveNativeTotalSupply total
    | none => σ
  let σ := cs.treasuries.foldl (fun σ t => σ.saveTreasury t.2.1 t.1 t.2.2) σ
  cs.nftCaps.foldl (fun σ c => { σ with nftCaps := σ.nftCaps.insert c.2.1 c.2.2 }) σ

def holdsToken (typeName : String) (data : Bytes) (tokenType : String) : Bool :=
  match balanceTokenAmount typeName data with
  | some (t, _) => normalizeTokenType t == tokenType
  | none => false

def touchesObjectBackedToken (σ : StateManager) (cs : ChangeSet) (owner : AccountAddress)
    (tokenType : String) : Except String Bool := do
  let balances ← σ.computeOwnedTokenBalances owner
  return balances.contains tokenType ||
    cs.createdObjects.any (fun c => c.2.owner == owner && holdsToken c.2.typeName c.2.data tokenType) ||
    cs.deletedObjects.any fun id =>
      match σ.loadStoredObjectByAnyId id with
      | some (_, obj) => obj.owner == owner && holdsToken obj.typeName obj.data tokenType
      | none => false

/-- A balance hint only marks its owner; native hints are ignored. -/
def applyBalanceHint (cs : ChangeSet) (acc : ApplyAcc) (hint : AccountAddress × String × Nat) :
    Except String ApplyAcc :=
  let tokenType := normalizeTokenType hint.2.1
  if tokenType = GAS_COIN then .ok acc
  else do
    let objectBacked ← acc.state.touchesObjectBackedToken cs hint.1 tokenType
    return if objectBacked then
      { acc with ownersToRecompute := OrdSet.add acc.ownersToRecompute hint.1 } else acc

/-! ## Objects -/

def isAddressOwned : ObjectOwnerKind → Bool
  | .addressOwner _ => true
  | _ => false

def dropObject (σ : StateManager) (storedId objectId : String) : StateManager :=
  { σ with
    objects := σ.objects.erase storedId
    objectIndex := (σ.objectIndex.erase storedId).erase (canonicalOwnedObjectId objectId) }

def noteDeletedNative (acc : ApplyAcc) (existing : StoredObject) : Except String ApplyAcc :=
  match nativeAmount existing.typeName existing.data with
  | none => .ok acc
  | some amount => do
    let acc ← acc.addObjectBefore existing.owner amount
    let acc ← acc.addObjectAfter existing.owner 0
    return { acc with
      nativeObjectOwnerChanged := OrdSet.add acc.nativeObjectOwnerChanged existing.owner }

def applyDeletedObject (acc : ApplyAcc) (objectId : String) : Except String ApplyAcc :=
  match acc.state.loadStoredObjectByAnyId objectId with
  | none =>
    .ok { acc with state := { acc.state with
      objects := acc.state.objects.erase objectId
      objectIndex := acc.state.objectIndex.erase (canonicalOwnedObjectId objectId) } }
  | some (storedId, existing) => do
    let acc := acc.recordObjectBalanceOwner existing.owner existing.typeName existing.data
    let acc ← noteDeletedNative acc existing
    let σ := if isAddressOwned existing.ownerKind then
      acc.state.removeOwnedObjectIndexVariants existing.owner objectId (some storedId) else acc.state
    return { acc with state := σ.dropObject storedId objectId }

def indexCollections (cs : ChangeSet) (σ : StateManager) : StateManager :=
  let collections := (cs.createdObjects.filter fun c =>
    ChangeSet.containsText "::collection::Collection".toList c.2.typeName.toList).map (·.1)
  let σ := { σ with collectionIndex := OrdSet.addAll σ.collectionIndex collections }
  (cs.events.filter ChangeSet.isMintLog).foldl (fun σ event =>
    match AccountAddress.ofBytes (event.eventData.take 32),
        AccountAddress.ofBytes ((event.eventData.drop 64).take 32) with
    | some nft, some collection =>
      let members := OrdSet.add (σ.collectionMembers collection.toHexLiteral) nft.toHexLiteral
      { σ with collectionMembers :=
          Function.update σ.collectionMembers collection.toHexLiteral members }
    | _, _ => σ) σ

def isSystemClockType (typeName : String) : Bool :=
  match structTagFromStr typeName with
  | some st => st.module == "clock" && st.name == "Clock" && st.typeParams.isEmpty
  | none => false

def isSystemClockObject (σ : StateManager) (objectId typeName : String) : Bool :=
  isSystemClockType typeName &&
    (σ.systemClockObjectId.isNone || σ.systemClockObjectId == AccountAddress.fromHexLiteral objectId)

/-- The written object before gas: version from the visible state, owner kept where the change
set names the object itself as owner. -/
def succeed (σ : StateManager) (objectId : String) (existing : StoredObject) (new : CreatedObject) :
    CreatedObject :=
  let identicalClockReplay := σ.isSystemClockObject objectId existing.typeName &&
    existing.typeName == new.typeName && existing.data == new.data && existing.owner == new.owner &&
    existing.ownerKind == new.ownerKind
  { new with
    version := if identicalClockReplay then existing.version else existing.version + 1
    owner := if new.owner.toHexLiteral == objectId then existing.owner else new.owner }

def isGasObject (ctx : ApplyContext) (existing : StoredObject) (canonicalId : String) : Bool × Bool :=
  (ctx.gasObjectIds.contains canonicalId,
    ctx.cs.gasObjectRefs.isEmpty && decide (0 < ctx.gasDebitTotal) &&
      decide (ctx.cs.delta existing.owner < 0))

/-- Takes what is left of the gas debit out of a written native coin. -/
def chargeWrittenObject (ctx : ApplyContext) (acc : ApplyAcc) (canonicalId : String)
    (existing : StoredObject) (new : CreatedObject) : Except String (ApplyAcc × CreatedObject) :=
  let (designated, implicit) := isGasObject ctx existing canonicalId
  if (nativeAmount existing.typeName existing.data).isSome && (designated || implicit) then do
    let senderDebit ← ctx.ownerNativeGasDebit existing.owner designated
    let remainingDebit := senderDebit - acc.gasAdjusted existing.owner
    if 0 < remainingDebit then
      match structTagFromStr new.typeName with
      | none => .error "Invalid transferred native coin object type"
      | some st =>
        match extractBalanceFromObjectBytes new.data st with
        | none => .error "Invalid transferred native coin object data"
        | some amount => do
          ensure (decide (remainingDebit ≤ amount))
            s!"Insufficient native coin object balance for gas: balance={amount}, debit={remainingDebit}"
          match writeBalanceToObjectBytes new.data st (amount - remainingDebit) with
          | none => .error "Failed to write adjusted native coin object balance"
          | some data =>
            return ({ acc with nativeObjectGasAdjusted :=
                acc.nativeObjectGasAdjusted.insert existing.owner senderDebit },
              { new with data := data })
    else .ok (acc, new)
  else .ok (acc, new)

def leaveOwner (acc : ApplyAcc) (objectId storedId : String) (existing : StoredObject)
    (new : CreatedObject) : ApplyAcc :=
  if existing.owner ≠ new.owner ∧ isAddressOwned existing.ownerKind then
    { acc with
      nativeObjectOwnerChanged :=
        if (nativeAmount existing.typeName existing.data).isSome then
          OrdSet.add (OrdSet.add acc.nativeObjectOwnerChanged existing.owner) new.owner
        else acc.nativeObjectOwnerChanged
      state := acc.state.removeOwnedObjectIndexVariants existing.owner objectId (some storedId) }
  else acc

def noteExistingNative (acc : ApplyAcc) (existing : StoredObject) : Except String ApplyAcc :=
  match nativeAmount existing.typeName existing.data with
  | some amount => acc.addObjectBefore existing.owner amount
  | none => .ok acc

def replaceExisting (ctx : ApplyContext) (acc : ApplyAcc) (objectId canonicalId storedId : String)
    (existing : StoredObject) (new : CreatedObject) : Except String (ApplyAcc × CreatedObject) := do
  let new := acc.state.succeed objectId existing new
  let acc ← noteExistingNative acc existing
  let (acc, new) ← chargeWrittenObject ctx acc canonicalId existing new
  let acc := leaveOwner acc objectId storedId existing new
  let acc := if storedId = canonicalId then acc else
    { acc with state := { acc.state with objects := acc.state.objects.erase storedId } }
  return (acc.recordObjectBalanceOwner existing.owner existing.typeName existing.data, new)

def noteWrittenNative (acc : ApplyAcc) (new : CreatedObject) (isNew : Bool) : Except String ApplyAcc :=
  match nativeAmount new.typeName new.data with
  | none => .ok acc
  | some amount =>
    let acc := if isNew then
      { acc with nativeObjectCreated := OrdSet.add acc.nativeObjectCreated new.owner } else acc
    acc.addObjectAfter new.owner amount

def saveTreasuryCap (acc : ApplyAcc) (new : CreatedObject) : ApplyAcc :=
  match treasuryCapTokenSupply new.typeName new.data with
  | none => acc
  | some (tokenType, totalSupply) =>
    { acc with state := acc.state.saveTreasury tokenType new.owner totalSupply, suppliesDirty := true }

def saveObject (acc : ApplyAcc) (canonicalId : String) (new : CreatedObject) : ApplyAcc :=
  let stored : StoredObject :=
    ⟨canonicalId, new.owner, new.ownerKind, new.typeName, new.data, new.version⟩
  { acc with
    state := { acc.state with objects := acc.state.objects.insert canonicalId stored }
    objectIndexAdditions := acc.objectIndexAdditions ++ [canonicalId] }

def indexWrittenObject (acc : ApplyAcc) (objectId canonicalId : String)
    (existing : Option (String × StoredObject)) (new : CreatedObject) : ApplyAcc :=
  if isAddressOwned new.ownerKind then
    let acc := { acc with
      objectOwnerIndexAdditions := acc.objectOwnerIndexAdditions ++ [new.owner.toHexLiteral] }
    match existing with
    | none => { acc with
        ownedIndexAdditions := acc.ownedIndexAdditions ++ [(new.owner, canonicalId)] }
    | some (storedId, old) =>
      if storedId ≠ canonicalId ∨ old.owner ≠ new.owner then
        { acc with state := acc.state.refreshOwnedObjectIndex new.owner objectId (some storedId) }
      else acc
  else acc

def nextObject (ctx : ApplyContext) (acc : ApplyAcc) (c : String × CreatedObject)
    (existing : Option (String × StoredObject)) : Except String (ApplyAcc × CreatedObject) :=
  match existing with
  | some (storedId, old) =>
    replaceExisting ctx acc c.1 (canonicalOwnedObjectId c.1) storedId old c.2
  | none => .ok (acc, { c.2 with version := if c.2.version = 0 then 1 else c.2.version })

def applyCreatedObject (ctx : ApplyContext) (acc : ApplyAcc) (c : String × CreatedObject) :
    Except String ApplyAcc := do
  let canonicalId := canonicalOwnedObjectId c.1
  let existing := acc.state.loadStoredObjectByAnyId c.1
  let (acc, new) ← nextObject ctx acc c existing
  let acc := acc.recordObjectBalanceOwner new.owner new.typeName new.data
  let acc ← noteWrittenNative acc new existing.isNone
  let acc := saveObject (saveTreasuryCap acc new) canonicalId new
  return indexWrittenObject acc c.1 canonicalId existing new

/-! ## Gas objects that the transaction did not write -/

def saveGasObject (acc : ApplyAcc) (ref : ObjectRef) (canonicalId storedId : String)
    (next : StoredObject) : ApplyAcc :=
  let objects := acc.state.objects.insert canonicalId next
  let acc := { acc with
    state := { acc.state with objects := if storedId = canonicalId then objects else objects.erase storedId }
    objectIndexAdditions := acc.objectIndexAdditions ++ [canonicalId] }
  if isAddressOwned next.ownerKind then
    { acc with
      state := acc.state.refreshOwnedObjectIndex next.owner ref.objectId (some storedId)
      objectOwnerIndexAdditions := acc.objectOwnerIndexAdditions ++ [next.owner.toHexLiteral] }
  else acc

def alreadyCharged (ctx : ApplyContext) (acc : ApplyAcc) (canonicalId : String) : Except String Bool :=
  match ctx.createdObjectOwner canonicalId with
  | none => .ok false
  | some owner => do
    let senderDebit ← ctx.ownerNativeGasDebit owner true
    return decide (0 < senderDebit) && decide (senderDebit ≤ acc.gasAdjusted owner)

def noteGasObject (acc : ApplyAcc) (next : StoredObject) : Except String ApplyAcc :=
  match nativeAmount next.typeName next.data with
  | some amount => acc.addObjectAfter next.owner amount
  | none => .ok acc

def chargeGasObject (acc : ApplyAcc) (ref : ObjectRef) (storedId : String) (existing : StoredObject)
    (senderDebit amount : Nat) : Except String ApplyAcc :=
  let canonicalId := canonicalOwnedObjectId ref.objectId
  let remainingDebit := senderDebit - acc.gasAdjusted existing.owner
  match structTagFromStr existing.typeName with
  | none => .error "Invalid native gas coin object type"
  | some st => do
    ensure (decide (remainingDebit ≤ amount))
      s!"Insufficient native gas coin balance: balance={amount}, debit={remainingDebit}"
    match writeBalanceToObjectBytes existing.data st (amount - remainingDebit) with
    | none => .error "Failed to write adjusted native gas coin balance"
    | some data => do
      let next := { existing with id := canonicalId, data := data, version := existing.version + 1 }
      let acc := saveGasObject acc ref canonicalId storedId next
      let acc := acc.recordObjectBalanceOwner next.owner next.typeName next.data
      let acc ← noteGasObject acc next
      return { acc with nativeObjectGasAdjusted :=
        acc.nativeObjectGasAdjusted.insert existing.owner senderDebit }

def applyGasObject (ctx : ApplyContext) (acc : ApplyAcc) (ref : ObjectRef) : Except String ApplyAcc := do
  let charged ← alreadyCharged ctx acc (canonicalOwnedObjectId ref.objectId)
  if charged then return acc
  else
    match acc.state.loadStoredObjectByAnyId ref.objectId with
    | none => return acc
    | some (storedId, existing) => do
      let senderDebit ← ctx.ownerNativeGasDebit existing.owner true
      if senderDebit - acc.gasAdjusted existing.owner = 0 then return acc
      else
        match nativeAmount existing.typeName existing.data with
        | none => return acc
        | some amount => chargeGasObject acc ref storedId existing senderDebit amount

/-! ## Indexes and balances -/

def addOwnedIndexEntry (σ : StateManager) (e : AccountAddress × String) : StateManager :=
  { σ with ownedObjects :=
      Function.update σ.ownedObjects e.1 (OrdSet.add (σ.ownedObjects e.1) e.2) }

def flushIndexes (acc : ApplyAcc) : ApplyAcc :=
  let σ := acc.ownedIndexAdditions.foldl addOwnedIndexEntry acc.state
  { acc with state :=
    { σ with
      objectIndex := OrdSet.addAll σ.objectIndex acc.objectIndexAdditions
      ownerIndex := OrdSet.addAll σ.ownerIndex acc.objectOwnerIndexAdditions } }

def recomputeInput (ctx : ApplyContext) (acc : ApplyAcc) (owner : AccountAddress) : NativeRecompute :=
  let snapshot := (ctx.balancesBefore.find? owner).getD (0, 0)
  { delta := ctx.cs.delta owner
    objectChanged := acc.nativeObjectChanged.contains owner
    gasCredit := (ctx.cs.nativeGasCredits.find? owner).getD 0
    ledgerBefore := snapshot.1
    objectBefore := if 0 < snapshot.2 then snapshot.2 else (acc.nativeObjectBefore.find? owner).getD 0 }

/-- Whether the owner delta already produced the balance that the changed objects call for. -/
def ledgerAgrees (acc : ApplyAcc) (owner : AccountAddress) (r : NativeRecompute) : Except String Bool :=
  if (decide (r.delta ≤ 0) || r.gasCredit == 0) && r.objectChanged &&
      !acc.nonNativeObjectChanged.contains owner && !acc.nativeObjectOwnerChanged.contains owner &&
      !acc.nativeObjectCreated.contains owner then
    match acc.nativeObjectAfter.find? owner, acc.nativeAfterOwnerDeltas.find? owner with
    | some objectAfter, some current =>
      if 0 < current then do
        let withPrior ← checkedAdd objectAfter (r.ledgerBefore - r.objectBefore)
          "Native owner balance overflow during object reconciliation"
        let objectBacked ← checkedAdd withPrior r.gasCredit
          "Native owner balance overflow during object reconciliation"
        return (if r.delta < 0 then min objectBacked current else objectBacked) == current
      else .ok false
    | _, _ => .ok false
  else .ok false

def recomputeOwner (ctx : ApplyContext) (acc : ApplyAcc) (owner : AccountAddress) :
    Except String ApplyAcc := do
  let r := recomputeInput ctx acc owner
  let agrees ← ledgerAgrees acc owner r
  if agrees then return acc
  else do
    let (state, changed) ← acc.state.recomputeTokenBalancesForOwner owner r
    return { acc with state := state, suppliesDirty := acc.suppliesDirty || changed }

/-! ## Coins locked inside other objects -/

def isObjectLockedCoinHolderType (typeName : String) : Bool :=
  match structTagFromStr typeName with
  | none => false
  | some st => !isBalanceStruct st &&
      !(st.module == "coin" && (st.name == "TreasuryCap" || st.name == "CoinMetadata"))

def needsObjectLockedReconciliation (σ : StateManager) (cs : ChangeSet) : Bool :=
  !cs.treasuries.isEmpty || !cs.tokenBalanceSets.isEmpty || !cs.deletedObjects.isEmpty ||
    cs.createdObjects.any fun c => !σ.isSystemClockObject c.1 c.2.typeName &&
      (isObjectLockedCoinHolderType c.2.typeName ||
        (treasuryCapTokenSupply c.2.typeName c.2.data).isSome)

def supplyTrackingTokenTypes (σ : StateManager) (cs : ChangeSet) : OrdSet String :=
  OrdSet.addAll .empty (σ.globalTokenSupplies.keys ++ GAS_COIN ::
    cs.treasuries.map (fun t => normalizeTokenType t.2.1) ++
    cs.tokenBalanceSets.map (fun t => normalizeTokenType t.2.1) ++
    cs.createdObjects.filterMap fun c => (balanceTokenAmount c.2.typeName c.2.data).map (·.1))

def visibleSupplySnapshot (σ : StateManager) (tokenType : String) : Except String Nat := do
  let tokenType := normalizeTokenType tokenType
  let indexed ← σ.indexedWalletSupply tokenType
  return max (σ.cachedSupply tokenType) indexed

structure SupplySnapshot where
  tokenType : String
  issued : Nat
  visible : Nat

def captureSupplySnapshots (σ : StateManager) : List String → Except String (List SupplySnapshot)
  | [] => .ok []
  | t :: rest => do
    let visible ← σ.visibleSupplySnapshot t
    let snapshots ← σ.captureSupplySnapshots rest
    return ⟨t, σ.issuedSupplyForToken t, visible⟩ :: snapshots

def supplySnapshots (σ : StateManager) (cs : ChangeSet) : Except String (List SupplySnapshot) :=
  if σ.needsObjectLockedReconciliation cs then
    σ.captureSupplySnapshots (OrdSet.elems (σ.supplyTrackingTokenTypes cs))
  else .ok []

/-- The first record of the holder and token grows; without one a new record is pushed. -/
def raiseLockedCoinRecord (holder : String × CreatedObject) (tokenType : String) (amount : Nat) :
    List ObjectLockedCoinRecord → Except String (List ObjectLockedCoinRecord)
  | [] => .ok [⟨holder.1, holder.2.typeName, holder.2.owner, tokenType, amount⟩]
  | r :: rest =>
    if r.holderObjectId = holder.1 ∧ r.tokenType = tokenType then do
      let total ← checkedAdd r.amount amount "Object-locked coin record overflow"
      return { r with amount := total, holderType := holder.2.typeName, owner := holder.2.owner } :: rest
    else (raiseLockedCoinRecord holder tokenType amount rest).map (r :: ·)

def addLockedCoinRecord (holder : String × CreatedObject) (tokenType : String) (amount : Nat)
    (records : List ObjectLockedCoinRecord) : Except String (List ObjectLockedCoinRecord) :=
  if amount = 0 then .ok records
  else raiseLockedCoinRecord holder tokenType amount records

/-- One pass over the records; `eligible` says which may be reduced. -/
def releaseFrom (eligible : ObjectLockedCoinRecord → Bool) :
    Nat → List ObjectLockedCoinRecord → Nat × List ObjectLockedCoinRecord
  | remaining, [] => (remaining, [])
  | remaining, r :: rest =>
    if eligible r then
      let release := min r.amount remaining
      let (remaining, rest) := releaseFrom eligible (remaining - release) rest
      (remaining, { r with amount := r.amount - release } :: rest)
    else
      let (remaining, rest) := releaseFrom eligible remaining rest
      (remaining, r :: rest)

/-- Records of the written holders first, then any record of the token. -/
def releaseLockedCoinRecords (holderIds : List String) (tokenType : String) (amount : Nat)
    (records : List ObjectLockedCoinRecord) : List ObjectLockedCoinRecord :=
  let (remaining, records) := releaseFrom
    (fun r => r.tokenType == tokenType && holderIds.contains r.holderObjectId) amount records
  let (_, records) := releaseFrom (fun r => r.tokenType == tokenType) remaining records
  records.filter fun r => decide (0 < r.amount)

def reconcileToken (σ : StateManager) (holders : List (String × CreatedObject))
    (records : List ObjectLockedCoinRecord) (before : SupplySnapshot) :
    Except String (List ObjectLockedCoinRecord) := do
  let visibleAfter ← σ.visibleSupplySnapshot before.tokenType
  let issuedDelta : Int := (σ.issuedSupplyForToken before.tokenType : Int) - before.issued
  let visibleDelta : Int := (visibleAfter : Int) - before.visible
  let lockedDelta := issuedDelta - visibleDelta
  let amount := lockedDelta.natAbs % u64Bound
  if 0 < lockedDelta then
    match holders with
    | [] => return records
    | holder :: _ => addLockedCoinRecord holder before.tokenType amount records
  else if lockedDelta < 0 then
    return releaseLockedCoinRecords (holders.map (·.1)) before.tokenType amount records
  else return records

def reconcileObjectLockedCoinRecords (σ : StateManager) (cs : ChangeSet)
    (before : List SupplySnapshot) : Except String StateManager := do
  let holders := cs.createdObjects.filter fun c => isObjectLockedCoinHolderType c.2.typeName
  if holders.isEmpty && before.isEmpty then return σ
  else do
    let kept := σ.lockedCoinRecords.filter fun r => !cs.deletedObjects.contains r.holderObjectId
    let records ← foldOk (σ.reconcileToken holders) kept before
    return { σ with lockedCoinRecords := records }

/-! ## Move storage -/

def applyMoveWrite (σ : StateManager) (e : String × Option Bytes) : StateManager :=
  let isModule := "module:".toList.isPrefixOf e.1.toList
  match e.2 with
  | some bytes =>
    { σ with
      moveStore := σ.moveStore.insert e.1 bytes
      moduleIndex := if isModule then OrdSet.add σ.moduleIndex e.1 else σ.moduleIndex }
  | none =>
    { σ with
      moveStore := σ.moveStore.erase e.1
      moduleIndex := if isModule then σ.moduleIndex.erase e.1 else σ.moduleIndex }

/-- By the whole name, of which the source takes sixteen bytes of the hash. -/
def dynamicFieldKey (objectId : String) (name : Bytes) : String :=
  "df:" ++ objectId ++ ":" ++ String.ofList (Hex.encode name)

def applyStorage (cs : ChangeSet) (σ : StateManager) : StateManager :=
  let σ := cs.moveWrites.entries.foldl applyMoveWrite σ
  let σ := cs.addedDynamicFields.foldl (fun σ f =>
    { σ with dynamicFields := σ.dynamicFields.insert (dynamicFieldKey f.1 f.2.1) f.2.2 }) σ
  cs.removedDynamicFields.foldl (fun σ f =>
    { σ with dynamicFields := σ.dynamicFields.erase (dynamicFieldKey f.1 f.2) }) σ

/-! ## The whole -/

def applyContext (σ : StateManager) (cs : ChangeSet) : Except String ApplyContext := do
  let gasDebitTotal ← nativeGasDebitTotal cs
  let balancesBefore ← σ.nativeBalancesBefore cs
  forOk (checkDebit balancesBefore) cs.ownerDeltas.entries
  return ⟨cs, gasDebitTotal, balancesBefore⟩

def applyObjects (ctx : ApplyContext) (acc : ApplyAcc) : Except String ApplyAcc := do
  let acc ← foldOk (applyBalanceHint ctx.cs) acc ctx.cs.tokenBalanceSets
  let acc ← foldOk applyDeletedObject acc ctx.cs.deletedObjects
  let acc := { acc with state := indexCollections ctx.cs acc.state }
  let acc ← foldOk (applyCreatedObject ctx) acc ctx.cs.createdObjects
  foldOk (applyGasObject ctx) acc ctx.cs.gasObjectRefs

def recomputeOwners (ctx : ApplyContext) (acc : ApplyAcc) : Except String ApplyAcc :=
  foldOk (recomputeOwner ctx) acc (OrdSet.elems acc.ownersToRecompute)

def reconcileLocked (σ : StateManager) (cs : ChangeSet) (reconcile : Bool)
    (before : List SupplySnapshot) : Except String StateManager :=
  if reconcile then σ.reconcileObjectLockedCoinRecords cs before else .ok σ

def finishApply (cs : ChangeSet) (reconcile : Bool) (before : List SupplySnapshot) (acc : ApplyAcc) :
    Except String StateManager := do
  let σ ← acc.state.reconcileLocked cs reconcile before
  let σ := if acc.suppliesDirty then σ.saveGlobalTokenSupplies else σ
  let (σ, advanced) := (applyStorage cs σ).advanceAccessVersions cs.deterministicAccessSet
  advanced
  return σ

def applyChangesetWithoutSupplyValidation (σ : StateManager) (cs : ChangeSet) :
    Except String StateManager := do
  let nextTotal ← σ.nextTotalSupply cs
  let ctx ← σ.applyContext cs
  let before ← σ.supplySnapshots cs
  let acc ← applyOwnerDeltas ctx { state := σ }
  let acc ← applyObjects ctx { acc with state := applySupplies nextTotal cs acc.state }
  let acc ← recomputeOwners ctx (flushIndexes acc)
  finishApply cs (σ.needsObjectLockedReconciliation cs) before acc

/-- Validation works on a copy: an error leaves the state as it was. -/
def applyChangesetValidated (σ : StateManager) (cs : ChangeSet) : Except String StateManager := do
  let candidate ← σ.applyChangesetWithoutSupplyValidation cs
  let candidate ← candidate.repairLegacyNativeWalletOvercount
  candidate.validateCachedSupplyInvariants
  return candidate

/-- A cache that already exceeds the supply is checked against the ledgers first. -/
def validateOvercountedCache (σ : StateManager) (cs : ChangeSet) : Except String Unit :=
  if cs.treasuries.isEmpty && decide (σ.totalSupply < σ.cachedSupply GAS_COIN) then
    σ.validateSupplyInvariants
  else .ok ()

def applyChangeset (σ : StateManager) (cs : ChangeSet) : Except String StateManager := do
  σ.validateOvercountedCache cs
  σ.applyChangesetValidated cs

end StateManager

end Kanari

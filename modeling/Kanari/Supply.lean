import Kanari.State
import Mathlib.Data.Prod.Lex

/-!
# Token supplies

Wallet-visible supply is derived from the ledgers and the coin objects, cached by token type, and
bounded by the issued supply.
-/

namespace Kanari

open Lib

namespace StateManager

def setSupply (supplies : OrdMap String Nat) (tokenType : String) (amount : Nat) : OrdMap String Nat :=
  if amount = 0 then supplies.erase tokenType else supplies.insert tokenType amount

def cachedSupply (σ : StateManager) (tokenType : String) : Nat :=
  (σ.globalTokenSupplies.find? tokenType).getD 0

def addWalletBalance (acc : OrdMap (AccountAddress ×ₗ String) Nat) (object : StoredObject) :
    Except String (OrdMap (AccountAddress ×ₗ String) Nat) :=
  match balanceTokenAmount object.typeName object.data with
  | none => .ok acc
  | some (tokenType, amount) => do
    let total ← checkedAdd ((acc.find? (toLex (object.owner, tokenType))).getD 0) amount
      "Wallet supply index owner balance overflow"
    return acc.insert (toLex (object.owner, tokenType)) total

def addTokenTotal (totals : OrdMap String Nat) (entry : (AccountAddress ×ₗ String) × Nat) :
    Except String (OrdMap String Nat) :=
  let tokenType := (ofLex entry.1).2
  if tokenType = GAS_COIN then .ok totals
  else do
    let total ← checkedAdd ((totals.find? tokenType).getD 0) entry.2
      "Wallet supply index token total overflow"
    return totals.insert tokenType total

/-- The native balance that a wallet shows: the ledger, or the coins when the ledger is empty. -/
def visibleNative (σ : StateManager) (objectBalance : Nat) (owner : AccountAddress) : Nat :=
  if 0 < σ.ledger owner then σ.ledger owner else objectBalance

def addNativeTotal (σ : StateManager) (balances : OrdMap (AccountAddress ×ₗ String) Nat)
    (totals : OrdMap String Nat) (owner : AccountAddress) : Except String (OrdMap String Nat) :=
  let amount := σ.visibleNative ((balances.find? (toLex (owner, GAS_COIN))).getD 0) owner
  if 0 < amount then do
    let total ← checkedAdd ((totals.find? GAS_COIN).getD 0) amount "Native wallet supply index overflow"
    return totals.insert GAS_COIN total
  else .ok totals

def computeWalletSupplyIndex (σ : StateManager) : Except String (OrdMap String Nat) := do
  let indexed ← σ.ownerAddresses
  let objects ← σ.queryObjects
  let balances ← foldOk addWalletBalance .empty objects
  let owners := OrdSet.addAll .empty
    (indexed ++ daoAccountAddress :: balances.keys.map fun k => (ofLex k).1)
  let totals ← foldOk addTokenTotal .empty balances.entries
  foldOk (σ.addNativeTotal balances) totals (OrdSet.elems owners)

def addIndexedBalance (tokenType : String) (acc : OrdMap AccountAddress Nat) (object : StoredObject) :
    Except String (OrdMap AccountAddress Nat) :=
  match balanceTokenAmount object.typeName object.data with
  | none => .ok acc
  | some (objectToken, amount) =>
    if objectToken = tokenType then do
      let total ← checkedAdd ((acc.find? object.owner).getD 0) amount
        "Indexed owner token balance overflow"
      return acc.insert object.owner total
    else .ok acc

def indexedBalance (σ : StateManager) (tokenType : String) (balances : OrdMap AccountAddress Nat)
    (owner : AccountAddress) : Nat :=
  let objectBalance := (balances.find? owner).getD 0
  if tokenType = GAS_COIN then σ.visibleNative objectBalance owner else objectBalance

/-- The DAO is counted even without an index entry: fees are credited to its ledger alone. -/
def indexedWalletSupply (σ : StateManager) (tokenType : String) : Except String Nat := do
  let tokenType := normalizeTokenType tokenType
  let indexed ← σ.ownerAddresses
  let objects ← σ.queryObjects
  let balances ← foldOk (addIndexedBalance tokenType) .empty objects
  let dao := if tokenType = GAS_COIN then [daoAccountAddress] else []
  let owners := OrdSet.addAll .empty (indexed ++ dao ++ balances.keys)
  foldOk (fun total owner => checkedAdd total (σ.indexedBalance tokenType balances owner)
    "Indexed wallet supply overflow") 0 (OrdSet.elems owners)

def objectLockedSupplyForToken (σ : StateManager) (tokenType : String) : Except String Nat :=
  let tokenType := normalizeTokenType tokenType
  foldOk (fun acc (r : ObjectLockedCoinRecord) => checkedAdd acc r.amount "Object-locked token supply overflow")
    0 (σ.lockedCoinRecords.filter fun r => r.tokenType == tokenType)

def issuedSupplyForToken (σ : StateManager) (tokenType : String) : Nat :=
  if tokenType = GAS_COIN then σ.totalSupply
  else (σ.supplies.find? tokenType).getD (σ.cachedSupply tokenType)

def saveNativeTotalSupply (σ : StateManager) (totalSupply : Nat) : StateManager :=
  { σ with
    totalSupply := totalSupply
    totalSupplyRecord := some totalSupply
    supplies := if σ.supplies.contains GAS_COIN then σ.supplies.insert GAS_COIN totalSupply else σ.supplies }

def saveGlobalTokenSupplies (σ : StateManager) : StateManager :=
  { σ with globalTokenSuppliesRecord := some σ.globalTokenSupplies }

/-- Accounts with a positive ledger, the last address (as text) first. -/
def accountsFromLast (σ : StateManager) (addresses : List AccountAddress) : List OwnerState :=
  let accounts := (addresses.filterMap σ.owners.find?).filter fun s => decide (0 < s.nativeBalance)
  ((OrdMap.ofList (accounts.map fun s => (s.address.toHexLiteral, s))).entries.map (·.2)).reverse

def debitExcess (acc : StateManager × Nat) (account : OwnerState) : StateManager × Nat :=
  if acc.2 = 0 then acc
  else
    let debit := min account.nativeBalance acc.2
    let account := account.setTokenBalanceValue GAS_COIN (account.nativeBalance - debit)
    ({ acc.1 with owners := acc.1.owners.insert account.address account }, acc.2 - debit)

def syncNativeVisibleSupplyCache (σ : StateManager) : Except String StateManager := do
  let indexedVisible := min (← σ.indexedWalletSupply GAS_COIN) σ.totalSupply
  return { σ with globalTokenSupplies :=
    if σ.cachedSupply GAS_COIN = indexedVisible then σ.globalTokenSupplies
    else setSupply σ.globalTokenSupplies GAS_COIN indexedVisible }

def repairLegacyNativeWalletOvercount (σ : StateManager) : Except String StateManager := do
  let indexedVisible ← σ.indexedWalletSupply GAS_COIN
  let ledgerLockedSupply ← σ.objectLockedSupplyForToken GAS_COIN
  let maxWalletVisible := σ.totalSupply - ledgerLockedSupply
  if indexedVisible ≤ maxWalletVisible then
    if σ.cachedSupply GAS_COIN = indexedVisible then .ok σ
    else .ok (saveGlobalTokenSupplies
      { σ with globalTokenSupplies := setSupply σ.globalTokenSupplies GAS_COIN indexedVisible })
  else do
    let addresses ← σ.ownerAddresses
    let (repaired, excess) :=
      (σ.accountsFromLast addresses).foldl debitExcess (σ, indexedVisible - maxWalletVisible)
    ensure (excess == 0)
      s!"Unable to repair legacy native supply overcount: remaining_excess={excess}"
    let synced ← repaired.syncNativeVisibleSupplyCache
    return synced.saveGlobalTokenSupplies

structure TokenSupplySummary where
  totalSupply : Nat
  walletVisibleSupply : Nat
  objectLockedSupply : Nat
  accountedSupply : Nat

/-- The maintained cache is taken as it is for every token but the native one. -/
def walletVisibleSupply (σ : StateManager) (tokenType : String) : Except String Nat :=
  if tokenType ≠ GAS_COIN ∧ σ.walletSupplyIndexVersion = 1 then .ok (σ.cachedSupply tokenType)
  else (σ.indexedWalletSupply tokenType).map (max (σ.cachedSupply tokenType))

def tokenSupplySummary (σ : StateManager) (tokenType : String) : Except String TokenSupplySummary := do
  let tokenType := normalizeTokenType tokenType
  let walletVisibleSupply ← σ.walletVisibleSupply tokenType
  let objectLockedSupply ← σ.objectLockedSupplyForToken tokenType
  let accountedSupply ← checkedAdd walletVisibleSupply objectLockedSupply "Accounted token supply overflow"
  return ⟨σ.issuedSupplyForToken tokenType, walletVisibleSupply, objectLockedSupply, accountedSupply⟩

def checkPersistedNativeSupply (σ : StateManager) : Except String Unit :=
  match σ.supplies.find? GAS_COIN with
  | none => .ok ()
  | some persisted => ensure (persisted == σ.totalSupply)
      s!"native total supply mismatch: state.total_supply={σ.totalSupply} persisted_treasury={persisted}"

def validateSupplyInvariants (σ : StateManager) : Except String Unit := do
  σ.checkPersistedNativeSupply
  let native ← σ.tokenSupplySummary GAS_COIN
  ensure (decide (native.walletVisibleSupply ≤ native.totalSupply))
    (s!"native supply overcount: total_supply={native.totalSupply} " ++
      s!"wallet_visible_supply={native.walletVisibleSupply} object_locked_supply={native.objectLockedSupply}")
  ensure (decide (native.accountedSupply ≤ native.totalSupply))
    (s!"native supply overcount: total_supply={native.totalSupply} accounted_supply={native.accountedSupply} " ++
      s!"wallet_visible_supply={native.walletVisibleSupply} object_locked_supply={native.objectLockedSupply}")
  let canonicalIndex ← σ.computeWalletSupplyIndex
  let canonicalVisible := (canonicalIndex.find? GAS_COIN).getD 0
  ensure (canonicalVisible == native.walletVisibleSupply)
    s!"native wallet supply index mismatch: indexed={canonicalVisible} cached={native.walletVisibleSupply}"
  ensure (canonicalIndex == σ.globalTokenSupplies)
    "wallet supply index mismatch for one or more token types"

/-- The transaction path trusts the cache. -/
def validateCachedSupplyInvariants (σ : StateManager) : Except String Unit := do
  σ.checkPersistedNativeSupply
  let walletVisibleSupply := σ.cachedSupply GAS_COIN
  let objectLockedSupply ← σ.objectLockedSupplyForToken GAS_COIN
  let accountedSupply ← checkedAdd walletVisibleSupply objectLockedSupply
    "Accounted native supply overflow"
  ensure (decide (walletVisibleSupply ≤ σ.totalSupply) && decide (accountedSupply ≤ σ.totalSupply))
    (s!"native supply overcount: total_supply={σ.totalSupply} accounted_supply={accountedSupply} " ++
      s!"wallet_visible_supply={walletVisibleSupply} object_locked_supply={objectLockedSupply}")

def adjustSupply (oldBalances newBalances : OrdMap String Nat) (supplies : OrdMap String Nat)
    (tokenType : String) : Except String (OrdMap String Nat) :=
  let oldAmount := (oldBalances.find? tokenType).getD 0
  let newAmount := (newBalances.find? tokenType).getD 0
  let current := (supplies.find? tokenType).getD 0
  if oldAmount = newAmount then .ok supplies
  else if oldAmount ≤ newAmount then do
    let updated ← checkedAdd current (newAmount - oldAmount) "Wallet-visible token supply overflow"
    return setSupply supplies tokenType updated
  else if oldAmount - newAmount ≤ current then
    .ok (setSupply supplies tokenType (current - (oldAmount - newAmount)))
  else .error "Wallet-visible token supply underflow"

/-- Also says whether some balance changed. -/
def captureSupplyChanged (σ : StateManager) (account : OwnerState) (oldBalances : OrdMap String Nat) :
    Except String (StateManager × Bool) := do
  let tokens := OrdSet.elems (OrdSet.addAll .empty (oldBalances.keys ++ account.tokenBalances.keys))
  let supplies ← foldOk (adjustSupply oldBalances account.tokenBalances) σ.globalTokenSupplies tokens
  let changed := tokens.any fun t =>
    (oldBalances.find? t).getD 0 != (account.tokenBalances.find? t).getD 0
  return ({ σ with globalTokenSupplies := supplies }, changed)

structure NativeRecompute where
  delta : Int
  objectChanged : Bool
  gasCredit : Nat
  ledgerBefore : Nat
  objectBefore : Nat

/-- The ledger after the objects changed. A gas credit and whatever the ledger held beyond the
objects are added to the object balance; the result is then held against the ledger that the
owner delta produced. -/
def reconciledNative (r : NativeRecompute) (objectBalance : Option Nat) (afterDeltas : Nat) :
    Except String Nat :=
  match objectBalance with
  | some objectBalance => do
    let withPrior ← checkedAdd objectBalance (r.ledgerBefore - r.objectBefore)
      "Native owner balance overflow during object reconciliation"
    let objectBacked ← checkedAdd withPrior r.gasCredit
      "Native owner balance overflow during object reconciliation"
    return if 0 < r.delta then max objectBacked afterDeltas
      else if r.delta < 0 then min objectBacked afterDeltas
      else objectBacked
  | none => .ok (if r.objectChanged then 0 else afterDeltas)

def recomputeTokenBalancesForOwner (σ : StateManager) (owner : AccountAddress) (r : NativeRecompute) :
    Except String (StateManager × Bool) := do
  let ownerState := σ.loadOwnerStateOrDefault owner
  let aggregated ← σ.computeOwnedTokenBalances owner
  let native ← reconciledNative r (aggregated.find? GAS_COIN) ownerState.nativeBalance
  let next := { ownerState with tokenBalances := aggregated.erase GAS_COIN }.setTokenBalanceValue
    GAS_COIN native
  (σ.saveOwnerStateWithoutSupplyIndex next).captureSupplyChanged next ownerState.tokenBalances

end StateManager

end Kanari

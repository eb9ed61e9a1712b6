import Kanari.AccessVersions
import Kanari.Lib.SortedList

/-!
# The state

`StateManager` as `load_internal` shows it: the overlay merged over the store, one field for
each family of keys. Index lists are kept sorted by every writer, so they are ordered sets.
-/

namespace Kanari

open Lib

structure OwnerState where
  address : AccountAddress
  nonce : Nat := 0
  modules : OrdSet String := .empty
  tokenBalances : OrdMap String Nat := .empty
  deriving DecidableEq

namespace OwnerState

def setTokenBalanceValue (s : OwnerState) (tokenType : String) (amount : Nat) : OwnerState :=
  { s with tokenBalances :=
      if amount = 0 then s.tokenBalances.erase tokenType else s.tokenBalances.insert tokenType amount }

def getTokenBalance (s : OwnerState) (tokenType : String) : Nat := (s.tokenBalances.find? tokenType).getD 0

def nativeBalance (s : OwnerState) : Nat := s.getTokenBalance GAS_COIN

def addModules (s : OwnerState) (names : List String) : OwnerState :=
  { s with modules := OrdSet.addAll s.modules names }

def isEmpty (s : OwnerState) : Bool := s.modules.entries.isEmpty && s.tokenBalances.entries.isEmpty

end OwnerState

structure ObjectLockedCoinRecord where
  holderObjectId : String
  holderType : String
  owner : AccountAddress
  tokenType : String
  amount : Nat
  deriving DecidableEq

structure StateManager where
  objects : OrdMap String StoredObject := .empty
  objectIndex : OrdSet String := .empty
  ownedObjects : AccountAddress → OrdSet String := fun _ => .empty
  owners : OrdMap AccountAddress OwnerState := .empty
  ownerIndex : OrdSet String := .empty
  legacyAccountIndex : OrdSet String := .empty
  totalSupply : Nat := 0
  /-- Wallet-visible supply by token type, kept along with the ledgers. -/
  globalTokenSupplies : OrdMap String Nat := .empty
  totalSupplyRecord : Option Nat := none
  globalTokenSuppliesRecord : Option (OrdMap String Nat) := none
  supplies : OrdMap String Nat := .empty
  treasuryOwners : OrdMap String AccountAddress := .empty
  treasuryIndex : OrdSet String := .empty
  nftCaps : OrdMap String Bytes := .empty
  lockedCoinRecords : List ObjectLockedCoinRecord := []
  collectionIndex : OrdSet String := .empty
  collectionMembers : String → OrdSet String := fun _ => .empty
  moveStore : OrdMap String Bytes := .empty
  moduleIndex : OrdSet String := .empty
  dynamicFields : OrdMap String Bytes := .empty
  systemClockObjectId : Option AccountAddress := none
  walletSupplyIndexVersion : Nat := 1
  access : AccessVersions := {}

def UID_SIZE : Nat := 32
def U64_SIZE : Nat := 8

def isCoinStruct (st : StructTag) : Bool := st.module == "coin" && st.name == "Coin"

def isBareBalanceStruct (st : StructTag) : Bool := st.module == "balance" && st.name == "Balance"

/-- Names only: the address of the module is not looked at. -/
def isBalanceStruct (st : StructTag) : Bool := isCoinStruct st || isBareBalanceStruct st

def extractBalanceFromObjectBytes (data : Bytes) (st : StructTag) : Option Nat :=
  if isCoinStruct st then
    if data.length < UID_SIZE + U64_SIZE then none
    else some (Text.leNat ((data.drop UID_SIZE).take U64_SIZE))
  else if isBareBalanceStruct st then
    if data.length < U64_SIZE then none else some (Text.leNat (data.drop (data.length - U64_SIZE)))
  else none

def spliceU64 (data : Bytes) (start amount : Nat) : Bytes :=
  data.take start ++ Text.leBytes U64_SIZE amount ++ data.drop (start + U64_SIZE)

def writeBalanceToObjectBytes (data : Bytes) (st : StructTag) (amount : Nat) : Option Bytes :=
  if isCoinStruct st then
    if data.length < UID_SIZE + U64_SIZE then none else some (spliceU64 data UID_SIZE amount)
  else if isBareBalanceStruct st then
    if data.length < U64_SIZE then none else some (spliceU64 data (data.length - U64_SIZE) amount)
  else none

def tokenTypeFromBalanceStruct (st : StructTag) : Option String :=
  match st.typeParams with
  | .struct address module name typeParams :: _ =>
    some (StructTag.display ⟨address, module, name, typeParams⟩)
  | _ => none

def balanceTokenAmount (typeName : String) (data : Bytes) : Option (String × Nat) :=
  (structTagFromStr typeName).bind fun st =>
    if isBalanceStruct st then
      (tokenTypeFromBalanceStruct st).bind fun tokenType =>
        (extractBalanceFromObjectBytes data st).map fun amount => (normalizeTokenType tokenType, amount)
    else none

/-- The amount of a native coin; the token type is normalised a second time, as the callers do. -/
def nativeAmount (typeName : String) (data : Bytes) : Option Nat :=
  (balanceTokenAmount typeName data).bind fun p =>
    if normalizeTokenType p.1 = GAS_COIN then some p.2 else none

def treasuryCapTokenSupply (typeName : String) (data : Bytes) : Option (String × Nat) :=
  (structTagFromStr typeName).bind fun st =>
    if st.module == "coin" && st.name == "TreasuryCap" then
      (tokenTypeFromBalanceStruct st).bind fun tokenType =>
        if data.length < UID_SIZE + U64_SIZE then none
        else some (normalizeTokenType tokenType, Text.leNat ((data.drop UID_SIZE).take U64_SIZE))
    else none

namespace StateManager

def objectLookupIds (id : String) : List String :=
  match canonicalObjectId id with
  | some canonicalId => if canonicalId = id then [id] else [id, canonicalId]
  | none => [id]

/-- The object under the given spelling or the canonical one, with the spelling that hit. -/
def loadStoredObjectByAnyId (σ : StateManager) (id : String) : Option (String × StoredObject) :=
  (objectLookupIds id).findSome? fun candidate => (σ.objects.find? candidate).map (candidate, ·)

def getObject (σ : StateManager) (id : String) : Option StoredObject :=
  (σ.loadStoredObjectByAnyId id).map (·.2)

def canonicalOwnedObjectId (id : String) : String := (canonicalObjectId id).getD id

def loadOwnerStateOrDefault (σ : StateManager) (a : AccountAddress) : OwnerState :=
  (σ.owners.find? a).getD { address := a }

def ledger (σ : StateManager) (a : AccountAddress) : Nat :=
  ((σ.owners.find? a).map OwnerState.nativeBalance).getD 0

def parseOwnerIds : List String → Except String (List AccountAddress)
  | [] => .ok []
  | id :: rest =>
    match AccountAddress.fromHexLiteral id with
    | none => .error ("Owner index contains invalid address " ++ id)
    | some a => (parseOwnerIds rest).map (a :: ·)

def ownerAddresses (σ : StateManager) : Except String (List AccountAddress) :=
  parseOwnerIds (OrdSet.elems
    (if σ.ownerIndex.entries.isEmpty then σ.legacyAccountIndex else σ.ownerIndex))

def loadIndexed (σ : StateManager) : List String → Except String (List StoredObject)
  | [] => .ok []
  | id :: rest =>
    match σ.getObject id with
    | none => .error ("Object index references missing object " ++ id)
    | some object => (σ.loadIndexed rest).map (object :: ·)

def queryObjects (σ : StateManager) : Except String (List StoredObject) :=
  σ.loadIndexed (OrdSet.elems σ.objectIndex)

/-- One owned object added to the totals; `seen` keeps a second spelling from counting again. -/
def addOwnedBalance (σ : StateManager) (acc : OrdSet String × OrdMap String Nat) (id : String) :
    Except String (OrdSet String × OrdMap String Nat) :=
  let canonicalId := canonicalOwnedObjectId id
  if acc.1.contains canonicalId then .ok acc
  else
    match (σ.getObject id).bind fun obj => balanceTokenAmount obj.typeName obj.data with
    | none => .ok (OrdSet.add acc.1 canonicalId, acc.2)
    | some (tokenType, amount) => do
      let total ← checkedAdd ((acc.2.find? tokenType).getD 0) amount "Owned token balance overflow"
      return (OrdSet.add acc.1 canonicalId, acc.2.insert tokenType total)

def computeOwnedTokenBalances (σ : StateManager) (owner : AccountAddress) :
    Except String (OrdMap String Nat) := do
  let acc ← foldOk σ.addOwnedBalance (.empty, .empty) (OrdSet.elems (σ.ownedObjects owner))
  return acc.2

/-- The ledger wins wherever it is positive. -/
def resolveOwnerNativeBalance (σ : StateManager) (owner : AccountAddress) : Except String Nat := do
  let balances ← σ.computeOwnedTokenBalances owner
  return if 0 < σ.ledger owner then σ.ledger owner else (balances.find? GAS_COIN).getD 0

def addToIndexList (index : List String) (value : String) : List String := SortedList.insert index value

def removeFromIndexList (index : List String) (value : String) : List String :=
  SortedList.erase index value

def addManyToIndexList (index values : List String) : List String :=
  OrdSet.elems (OrdSet.addAll (OrdSet.addAll .empty index) values)

/-- On sorted lists the writers are the operations of the sets that the state is made of. -/
theorem indexList_writers (s : OrdSet String) :
    (∀ value, addToIndexList (OrdSet.elems s) value = OrdSet.elems (OrdSet.add s value)) ∧
      (∀ value, removeFromIndexList (OrdSet.elems s) value = OrdSet.elems (OrdMap.erase s value)) ∧
      ∀ values, addManyToIndexList (OrdSet.elems s) values = OrdSet.elems (OrdSet.addAll s values) := by
  refine ⟨SortedList.insert_elems s, SortedList.erase_elems s, ?_⟩
  intro values
  unfold addManyToIndexList
  rw [SortedList.addAll_elems]

def removeOwnedObjectIndexVariants (σ : StateManager) (owner : AccountAddress) (objectId : String)
    (storedId : Option String) : StateManager :=
  let canonicalId := canonicalOwnedObjectId objectId
  let index := ((σ.ownedObjects owner).erase objectId).erase canonicalId
  let index := match storedId with
    | some id => index.erase id
    | none => index
  { σ with ownedObjects := Function.update σ.ownedObjects owner index }

def refreshOwnedObjectIndex (σ : StateManager) (owner : AccountAddress) (objectId : String)
    (storedId : Option String) : StateManager :=
  let σ' := σ.removeOwnedObjectIndexVariants owner objectId storedId
  let index := OrdSet.add (σ'.ownedObjects owner) (canonicalOwnedObjectId objectId)
  { σ' with ownedObjects := Function.update σ'.ownedObjects owner index }

/-- An empty record is removed together with its index entry. -/
def saveOwnerStateWithoutSupplyIndex (σ : StateManager) (s : OwnerState) : StateManager :=
  if s.isEmpty then
    { σ with
      owners := σ.owners.erase s.address
      ownerIndex := σ.ownerIndex.erase s.address.toHexLiteral }
  else
    { σ with
      owners := σ.owners.insert s.address s
      ownerIndex := OrdSet.add σ.ownerIndex s.address.toHexLiteral }

/-- With the default setting, which persists the versions. -/
def advanceAccessVersions (σ : StateManager) (access : StateAccessSet) :
    StateManager × Except String Unit :=
  let advanced := σ.access.advanceAccessVersions true access
  ({ σ with access := advanced.1 }, advanced.2)

end StateManager

end Kanari

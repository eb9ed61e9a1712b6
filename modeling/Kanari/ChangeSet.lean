import Kanari.Lib.OrdMap
import Kanari.ObjectAccess
import Kanari.TypeParser
import Mathlib.Data.String.Basic

/-!
# Change sets

The effects of one execution, their merge into a batch, and the access set of an execution.
-/

namespace Kanari

open Lib

def u64Bound : Nat := 2 ^ 64

def i128Bound : Int := 2 ^ 127

def checkedAdd (a b : Nat) (e : String) : Except String Nat :=
  if a + b < u64Bound then .ok (a + b) else .error e

def saturatingAdd (a b : Nat) : Nat := min (a + b) (u64Bound - 1)

def checkedAddI128 (a b : Int) (e : String) : Except String Int :=
  if -i128Bound ≤ a + b ∧ a + b < i128Bound then .ok (a + b) else .error e

def saturatingAddI128 (a b : Int) : Int := max (-i128Bound) (min (a + b) (i128Bound - 1))

/-- `u64::try_from` on the magnitude of a balance delta. -/
def toU64 (d : Int) (e : String) : Except String Nat :=
  if d.natAbs < u64Bound then .ok d.natAbs else .error e

variable {e : String} {n : Nat}

@[simp] lemma checkedAdd_eq_ok {a b c : Nat} :
    checkedAdd a b e = .ok c ↔ a + b < u64Bound ∧ c = a + b := by
  unfold checkedAdd
  split_ifs with h <;> simp [h, eq_comm]

lemma foldOk_checkedAdd {α : Type} {f : α → Nat} {l : List α} {m : Nat}
    (h : foldOk (fun total a => checkedAdd total (f a) e) n l = .ok m) : m = n + (l.map f).sum := by
  induction l generalizing n with
  | nil =>
    cases h
    simp
  | cons a l ih =>
    obtain ⟨mid, hmid, hrest⟩ := foldOk_cons_eq_ok.mp h
    rw [ih hrest, (checkedAdd_eq_ok.mp hmid).2, List.map_cons, List.sum_cons]
    omega

@[simp] lemma toU64_eq_ok {d : Int} : toU64 d e = .ok n ↔ d.natAbs < u64Bound ∧ n = d.natAbs := by
  unfold toU64
  split_ifs with h <;> simp [h, eq_comm]

/-- Keys are text, so every validator derives the same conflict decision. -/
structure StateAccessSet where
  reads : OrdSet String := .empty
  writes : OrdSet String := .empty

namespace StateAccessSet

def conflictsWith (a b : StateAccessSet) : Bool :=
  (OrdSet.elems a.writes).any (fun k => b.reads.contains k || b.writes.contains k) ||
    (OrdSet.elems b.writes).any (a.reads.contains ·)

def extend (target source : StateAccessSet) : StateAccessSet where
  reads := OrdSet.addAll target.reads (OrdSet.elems source.reads)
  writes := OrdSet.addAll target.writes (OrdSet.elems source.writes)

end StateAccessSet

/-- What execution says of an object it wrote. -/
structure CreatedObject where
  owner : AccountAddress
  ownerKind : ObjectOwnerKind
  typeName : String
  data : Bytes
  version : Nat
  deriving DecidableEq

/-- Positive is a credit, negative a debit. -/
structure OwnerDelta where
  balanceDelta : Int := 0
  modulesAdded : OrdSet String := .empty
  deriving DecidableEq

inductive ObjectChangeKind where
  | created | mutated | deleted | transferred
  deriving DecidableEq

structure ObjectChange where
  changeType : ObjectChangeKind
  objectRef : ObjectRef
  previousObjectRef : Option ObjectRef
  typeName : Option String
  owner : Option ObjectOwnerKind
  previousOwner : Option ObjectOwnerKind
  previousVersion : Option Nat
  deriving DecidableEq

structure Event where
  typeTag : String
  eventData : Bytes
  deriving DecidableEq

structure ChangeSet where
  ownerDeltas : OrdMap AccountAddress OwnerDelta := .empty
  /-- Gas fees by collector: the part of a credit that no coin object stands for. -/
  nativeGasCredits : OrdMap AccountAddress Nat := .empty
  events : List Event := []
  treasuries : List (AccountAddress × String × Nat) := []
  nftCaps : List (AccountAddress × String × Bytes) := []
  tokenBalanceSets : List (AccountAddress × String × Nat) := []
  inputObjects : List ObjectInput := []
  sharedInputs : List ObjectRef := []
  immutableInputs : List ObjectRef := []
  gasPayment : Option GasPayment := none
  gasObjectRefs : List ObjectRef := []
  createdObjects : List (String × CreatedObject) := []
  deletedObjects : List String := []
  explicitObjectChanges : List ObjectChange := []
  addedDynamicFields : List (String × Bytes × Bytes) := []
  removedDynamicFields : List (String × Bytes) := []
  /-- `none` deletes the module or resource. -/
  moveWrites : OrdMap String (Option Bytes) := .empty
  resolverReads : OrdSet String := .empty
  gasUsed : Nat := 0
  success : Bool := true
  errorMessage : Option String := none

namespace ChangeSet

def delta (cs : ChangeSet) (a : AccountAddress) : Int := ((cs.ownerDeltas.find? a).map (·.balanceDelta)).getD 0

def getOrCreateOwnerDelta (cs : ChangeSet) (a : AccountAddress) : OwnerDelta :=
  (cs.ownerDeltas.find? a).getD {}

def addDelta (cs : ChangeSet) (a : AccountAddress) (d : Int) : ChangeSet :=
  let old := cs.getOrCreateOwnerDelta a
  { cs with ownerDeltas := cs.ownerDeltas.insert a { old with balanceDelta := old.balanceDelta + d } }

def debit (cs : ChangeSet) (a : AccountAddress) (amount : Nat) : ChangeSet := cs.addDelta a (-amount)

def credit (cs : ChangeSet) (a : AccountAddress) (amount : Nat) : ChangeSet := cs.addDelta a amount

def transfer (cs : ChangeSet) (sender receiver : AccountAddress) (amount : Nat) : ChangeSet :=
  (cs.debit sender amount).credit receiver amount

def burn (cs : ChangeSet) (sender : AccountAddress) (amount : Nat) : ChangeSet := cs.debit sender amount

def publishModule (deltas : OrdMap AccountAddress OwnerDelta) (entry : AccountAddress × String) :
    OrdMap AccountAddress OwnerDelta :=
  let old := (deltas.find? entry.1).getD {}
  deltas.insert entry.1 { old with modulesAdded := OrdSet.add old.modulesAdded entry.2 }

def collectGas (cs : ChangeSet) (dao : AccountAddress) (gasAmount : Nat) : ChangeSet :=
  let collected := (cs.nativeGasCredits.find? dao).getD 0
  { cs.credit dao gasAmount with
    nativeGasCredits := cs.nativeGasCredits.insert dao (saturatingAdd collected gasAmount) }

def markFailed (cs : ChangeSet) (error : String) : ChangeSet :=
  { cs with success := false, errorMessage := some error }

def isShared (input : ObjectInput) : Bool := input.owner == some .shared

def isImmutable (input : ObjectInput) : Bool := input.owner == some .immutable

def setTransactionContext (cs : ChangeSet) (objectInputs : List ObjectInput)
    (gasPayment : Option GasPayment) : ChangeSet :=
  { cs with
    inputObjects := objectInputs
    sharedInputs := (objectInputs.filter isShared).map (·.objectRef)
    immutableInputs := (objectInputs.filter isImmutable).map (·.objectRef)
    gasObjectRefs := (gasPayment.map (·.paymentObjects)).getD []
    gasPayment := gasPayment }

/-- Not `canonicalObjectId`: no trimming, and any text that is no address is kept. -/
def canonicalizeObjectId (id : String) : String :=
  ((AccountAddress.fromHexLiteral id).map AccountAddress.toHexLiteral).getD id

def addTokenBalanceSet (sets : List (AccountAddress × String × Nat))
    (entry : AccountAddress × String × Nat) : List (AccountAddress × String × Nat) :=
  match sets with
  | [] => [entry]
  | (o, t, n) :: rest =>
    if o = entry.1 ∧ t = entry.2.1 then (o, t, saturatingAdd n entry.2.2) :: rest
    else (o, t, n) :: addTokenBalanceSet rest entry

def mergeDelta (deltas : OrdMap AccountAddress OwnerDelta) (entry : AccountAddress × OwnerDelta) :
    OrdMap AccountAddress OwnerDelta :=
  let existing := (deltas.find? entry.1).getD {}
  deltas.insert entry.1
    { balanceDelta := saturatingAddI128 existing.balanceDelta entry.2.balanceDelta
      modulesAdded := OrdSet.addAll existing.modulesAdded (OrdSet.elems entry.2.modulesAdded) }

def mergeCredit (credits : OrdMap AccountAddress Nat) (entry : AccountAddress × Nat) :
    OrdMap AccountAddress Nat :=
  credits.insert entry.1 (saturatingAdd ((credits.find? entry.1).getD 0) entry.2)

/-- `merge` and `merge_from`: amounts add up, lists are appended, the first gas payment stays. -/
def mergeFrom (cs other : ChangeSet) : ChangeSet where
  ownerDeltas := other.ownerDeltas.entries.foldl mergeDelta cs.ownerDeltas
  nativeGasCredits := other.nativeGasCredits.entries.foldl mergeCredit cs.nativeGasCredits
  events := cs.events ++ other.events
  treasuries := cs.treasuries ++ other.treasuries
  nftCaps := cs.nftCaps ++ other.nftCaps
  tokenBalanceSets := other.tokenBalanceSets.foldl addTokenBalanceSet cs.tokenBalanceSets
  inputObjects := cs.inputObjects ++ other.inputObjects
  sharedInputs := cs.sharedInputs ++ other.sharedInputs
  immutableInputs := cs.immutableInputs ++ other.immutableInputs
  gasPayment := cs.gasPayment.or other.gasPayment
  gasObjectRefs := cs.gasObjectRefs ++ other.gasObjectRefs
  createdObjects := cs.createdObjects ++ other.createdObjects
  deletedObjects := cs.deletedObjects ++ other.deletedObjects
  explicitObjectChanges := cs.explicitObjectChanges ++ other.explicitObjectChanges
  addedDynamicFields := cs.addedDynamicFields ++ other.addedDynamicFields
  removedDynamicFields := cs.removedDynamicFields ++ other.removedDynamicFields
  moveWrites := other.moveWrites.entries.foldl (fun m e => m.insert e.1 e.2) cs.moveWrites
  resolverReads := OrdSet.addAll cs.resolverReads (OrdSet.elems other.resolverReads)
  gasUsed := saturatingAdd cs.gasUsed other.gasUsed
  success := cs.success && other.success
  errorMessage := if other.success then cs.errorMessage else other.errorMessage

/-- A debit of the account that pays for gas with coin objects is not reserved: the coins are. -/
def isParallelSafeNativeOwnerDelta (cs : ChangeSet) (owner : AccountAddress) (d : OwnerDelta) : Bool :=
  d.modulesAdded.entries.isEmpty && decide (d.balanceDelta < 0) &&
    match cs.gasPayment with
    | none => false
    | some payment =>
      !payment.paymentObjects.isEmpty &&
        AccountAddress.fromHexLiteral payment.owner == some owner

def objectAccessKey (id : String) : String := "object:" ++ canonicalizeObjectId id

def ownerAccessKey (owner : AccountAddress) : String := "owner:" ++ owner.toHexLiteral

def dynamicAccessKeys (id : String) (name : Bytes) : List String :=
  ["df:*", "dynamic:" ++ canonicalizeObjectId id ++ ":" ++ String.ofList (Hex.encode name)]

def containsText (needle : List Char) : List Char → Bool
  | [] => needle.isEmpty
  | c :: cs => needle.isPrefixOf (c :: cs) || containsText needle cs

def isMintLog (event : Event) : Bool :=
  containsText "::nft::MintLog".toList event.typeTag.toList && decide (96 ≤ event.eventData.length)

def collectionMembersKey (event : Event) : String :=
  "collection_members:0x" ++ String.ofList (Hex.encode ((event.eventData.drop 64).take 32))

def accessReads (cs : ChangeSet) : List String :=
  OrdSet.elems cs.resolverReads ++ ["df:*"] ++
    cs.inputObjects.map (fun input => objectAccessKey input.objectRef.objectId) ++
    cs.sharedInputs.map (fun ref => objectAccessKey ref.objectId) ++
    cs.immutableInputs.map (fun ref => objectAccessKey ref.objectId)

def accessWrites (cs : ChangeSet) : List String :=
  cs.gasObjectRefs.map (fun ref => objectAccessKey ref.objectId) ++
    ((cs.gasPayment.map (·.paymentObjects)).getD []).map (fun ref => objectAccessKey ref.objectId) ++
    (cs.ownerDeltas.entries.filter fun e => !cs.isParallelSafeNativeOwnerDelta e.1 e.2).map
      (fun e => ownerAccessKey e.1) ++
    cs.treasuries.flatMap (fun t => ["supply:" ++ t.2.1, "treasury:" ++ t.2.1, "global_token_supplies"]) ++
    cs.nftCaps.map (fun c => "nft:" ++ c.2.1) ++
    cs.tokenBalanceSets.map (fun t => "token_balance:" ++ t.1.toHexLiteral ++ ":" ++ t.2.1) ++
    cs.createdObjects.map (fun c => objectAccessKey c.1) ++
    cs.deletedObjects.map objectAccessKey ++
    cs.explicitObjectChanges.map (fun c => objectAccessKey c.objectRef.objectId) ++
    cs.addedDynamicFields.flatMap (fun f => dynamicAccessKeys f.1 f.2.1) ++
    cs.removedDynamicFields.flatMap (fun f => dynamicAccessKeys f.1 f.2) ++
    cs.moveWrites.keys ++
    (cs.events.filter isMintLog).map collectionMembersKey

def deterministicAccessSet (cs : ChangeSet) : StateAccessSet where
  reads := OrdSet.addAll .empty cs.accessReads
  writes := OrdSet.addAll .empty cs.accessWrites

end ChangeSet

end Kanari

import Kanari.Binding
import Kanari.ObjectAccess

/-!
# Signatures of the system framework

Structs and entry functions of `kanari_system` as the loader presents them: type parameters are not
instantiated.
-/

namespace Kanari.Framework

def txContextStruct : StructType :=
  ⟨kanariSystemAccountAddress, "tx_context", "TxContext", { drop := true }, []⟩

def kanariStruct : StructType :=
  ⟨kanariSystemAccountAddress, "kanari", "KANARI", { drop := true }, []⟩

def coinStruct : StructType :=
  ⟨kanariSystemAccountAddress, "coin", "Coin", { key := true, store := true }, [true]⟩

def coinOf (t : RuntimeType) : RuntimeType := .structInstantiation coinStruct [t]

def kanariCoin : RuntimeType := coinOf (.struct kanariStruct)

/-- `multisig::approve_entry<T>(wallet_id, proposal_id, ctx: &mut TxContext)`. -/
def approveEntryParameters : List RuntimeType :=
  [.address, .address, .mutableReference (.struct txContextStruct)]

/-- `coin::join_entry<T>(coin: &mut Coin<T>, other: Coin<T>)` and `pay::join<T>`. -/
def joinParameters : List RuntimeType :=
  [.mutableReference (coinOf (.tyParam 0)), coinOf (.tyParam 0)]

/-- `kanari::transfer(c: &mut Coin<KANARI>, amount, recipient, ctx: &mut TxContext)`. -/
def transferParameters : List RuntimeType :=
  [.mutableReference kanariCoin, .u64, .address, .mutableReference (.struct txContextStruct)]

def coinData (id : AccountAddress) (balance : Nat) : Bytes := id.bytes ++ Lib.Text.leBytes 8 balance

/-- An address-owned coin as the transfer natives store it. -/
def coinObject (id owner : AccountAddress) (tokenType : String) (balance : Nat) : StoredObject where
  id := id.toHexLiteral
  owner := owner
  ownerKind := .addressOwner owner.toHexLiteral
  typeName := coinType tokenType
  data := coinData id balance
  version := 1

def viewOf (objects : List StoredObject) : ExecutionView where
  overlay := fun _ => none
  objectStorage := fun _ => none
  state := fun a => objects.find? (·.id == a.toHexLiteral)

def inputFor (digest : StoredObject → String) (obj : StoredObject) (mutable : Bool) : ObjectInput where
  objectRef := ⟨obj.id, some obj.version, some (digest obj)⟩
  owner := some obj.ownerKind
  mutable := mutable

def accessEnvOf (objects : List StoredObject) : AccessEnv where
  getObject := fun id => (canonicalObjectId id).bind fun c => objects.find? (·.id == c)
  digest := fun obj => String.ofList ('0' :: 'x' :: Lib.Hex.encode obj.data)
  hashPublicKey := fun _ _ => none

end Kanari.Framework

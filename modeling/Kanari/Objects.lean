import Kanari.MoveTypes
import Kanari.Lib.Checked

/-!
# Objects and object inputs

Stored objects, the references a transaction makes to them, and the view of the store that
one execution reads: its overlay first, then the runtime's object cache, then the state.
-/

namespace Kanari

inductive ObjectOwnerKind where
  | addressOwner (owner : String)
  | shared
  | immutable
  deriving DecidableEq

structure ObjectRef where
  objectId : String
  version : Option Nat := none
  digest : Option String := none
  deriving DecidableEq

structure ObjectInput where
  objectRef : ObjectRef
  owner : Option ObjectOwnerKind
  mutable : Bool
  deriving DecidableEq

structure GasPayment where
  paymentObjects : List ObjectRef
  owner : String
  budget : Nat
  price : Nat
  deriving DecidableEq

structure StoredObject where
  id : String
  owner : AccountAddress
  ownerKind : ObjectOwnerKind
  typeName : String
  data : Bytes
  version : Nat
  deriving DecidableEq

structure ExecutionView where
  overlay : String → Option (Option StoredObject)
  objectStorage : String → Option StoredObject
  state : AccountAddress → Option StoredObject

/-- An overlay entry wins, a tombstone included. -/
def ExecutionView.getObjectForExecution (view : ExecutionView) (objectId : String) :
    Option StoredObject :=
  match view.overlay objectId with
  | some entry => entry
  | none =>
    match view.objectStorage objectId with
    | some object => some object
    | none => (AccountAddress.fromHexLiteral objectId).bind view.state

end Kanari

import Kanari.Apply

/-!
# Dynamic fields

The natives keep the fields that an execution touches in a journal. Of the types and values of the
virtual machine only the names of types and the serialisation matter here.
-/

namespace Kanari

open Lib

/-- Types have distinct names, and bytes are read back as the value they were made from. -/
structure FieldCodec (Ty Val : Type) where
  typeName : Ty → String
  typeName_injective : Function.Injective typeName
  serialize : Ty → Val → Option Bytes
  deserialize : Ty → Bytes → Option Val
  deserialize_iff : ∀ ty b v, deserialize ty b = some v ↔ serialize ty v = some b

@[ext]
structure FieldLocation where
  objectId : String
  nameBytes : Bytes
  deriving DecidableEq

inductive DynamicFieldState where
  | clean
  | dirty
  | deleted
  deriving DecidableEq

structure CachedDynamicField (Ty Val : Type) where
  location : FieldLocation
  valueSpec : Ty
  value : Val
  lastValueBytes : Bytes
  existedBeforeTx : Bool
  state : DynamicFieldState

inductive DynamicFieldOp where
  | add (objectId : String) (nameBytes valueBytes : Bytes)
  | remove (objectId : String) (nameBytes : Bytes)
  deriving DecidableEq

inductive FieldError where
  | abort (code : Nat)
  | valueSerializationError
  deriving DecidableEq

def E_FIELD_ALREADY_EXISTS : Nat := 1
def E_FIELD_DOES_NOT_EXIST : Nat := 2

abbrev DynamicFieldsExt (Ty Val : Type) := OrdMap String (CachedDynamicField Ty Val)

def fieldKey (location : FieldLocation) : String :=
  location.objectId ++ ":" ++ String.ofList (Hex.encode location.nameBytes)

/-- All sixty-four digits, unlike the canonical spelling. -/
def objectIdFromUid (uid : AccountAddress) : String := "0x" ++ String.ofList (Hex.encode uid.bytes)

namespace DynamicFieldsExt

variable {Ty Val : Type}

def cachedExists (ext : DynamicFieldsExt Ty Val) (location : FieldLocation) : Option Bool :=
  (ext.find? (fieldKey location)).map fun entry => entry.state != .deleted

def insert (ext : DynamicFieldsExt Ty Val) (entry : CachedDynamicField Ty Val) :
    DynamicFieldsExt Ty Val :=
  OrdMap.insert ext (fieldKey entry.location) entry

def serializeCurrentValue (codec : FieldCodec Ty Val) (entry : CachedDynamicField Ty Val) : Bytes :=
  (codec.serialize entry.valueSpec entry.value).getD entry.lastValueBytes

def entryOp (codec : FieldCodec Ty Val) (entry : CachedDynamicField Ty Val) : Option DynamicFieldOp :=
  match entry.state with
  | .deleted =>
    if entry.existedBeforeTx then some (.remove entry.location.objectId entry.location.nameBytes)
    else none
  | .dirty =>
    some (.add entry.location.objectId entry.location.nameBytes (serializeCurrentValue codec entry))
  | .clean => none

def takeAll (codec : FieldCodec Ty Val) (ext : DynamicFieldsExt Ty Val) : List DynamicFieldOp :=
  ext.entries.filterMap fun e => entryOp codec e.2

end DynamicFieldsExt

section Natives

variable {Ty Val : Type} (codec : FieldCodec Ty Val) (fields : OrdMap String Bytes)

def loadFromResolver (location : FieldLocation) : Option Bytes :=
  fields.find? (StateManager.dynamicFieldKey location.objectId location.nameBytes)

def parseFieldLocation (nameTy : Ty) (uid : AccountAddress) (name : Val) :
    Except FieldError FieldLocation :=
  match codec.serialize nameTy name with
  | some nameBytes => .ok ⟨objectIdFromUid uid, nameBytes⟩
  | none => .error .valueSerializationError

def fieldExists (ext : DynamicFieldsExt Ty Val) (location : FieldLocation) : Bool :=
  match ext.cachedExists location with
  | some present => present
  | none => (loadFromResolver fields location).isSome

/-- Bytes that the layout does not fit count as no field. -/
def ensureFieldLoaded (ext : DynamicFieldsExt Ty Val) (location : FieldLocation) (valueSpec : Ty) :
    Bool × DynamicFieldsExt Ty Val :=
  match ext.cachedExists location with
  | some present => (present, ext)
  | none =>
    match loadFromResolver fields location with
    | none => (false, ext)
    | some valueBytes =>
      match codec.deserialize valueSpec valueBytes with
      | none => (false, ext)
      | some value =>
        (true, ext.insert ⟨location, valueSpec, value, valueBytes, true, .clean⟩)

def withLiveField (ext : DynamicFieldsExt Ty Val) (location : FieldLocation) (valueSpec : Ty)
    (onHit : CachedDynamicField Ty Val → CachedDynamicField Ty Val) :
    Option (Val × DynamicFieldsExt Ty Val) :=
  let loaded := ensureFieldLoaded codec fields ext location valueSpec
  if loaded.1 then
    match loaded.2.find? (fieldKey location) with
    | none => none
    | some entry =>
      if entry.state != .deleted && codec.typeName entry.valueSpec == codec.typeName valueSpec then
        some (entry.value, OrdMap.insert loaded.2 (fieldKey location) (onHit entry))
      else none
  else none

def nativeAdd (ext : DynamicFieldsExt Ty Val) (nameTy valueTy : Ty) (uid : AccountAddress)
    (name value : Val) : Except FieldError (DynamicFieldsExt Ty Val) := do
  let location ← parseFieldLocation codec nameTy uid name
  match codec.serialize valueTy value with
  | none => .error .valueSerializationError
  | some valueBytes =>
    if fieldExists fields ext location then .error (.abort E_FIELD_ALREADY_EXISTS)
    else .ok (ext.insert ⟨location, valueTy, value, valueBytes, false, .dirty⟩)

/-- What `borrow`, `borrow_mut` and `remove` share: the value and the journal with the entry
marked, or the abort. -/
def nativeAccess (onHit : CachedDynamicField Ty Val → CachedDynamicField Ty Val)
    (ext : DynamicFieldsExt Ty Val) (nameTy valueTy : Ty) (uid : AccountAddress) (name : Val) :
    Except FieldError (Val × DynamicFieldsExt Ty Val) := do
  let location ← parseFieldLocation codec nameTy uid name
  match withLiveField codec fields ext location valueTy onHit with
  | some hit => .ok hit
  | none => .error (.abort E_FIELD_DOES_NOT_EXIST)

def nativeBorrow := nativeAccess codec fields id

def nativeBorrowMut := nativeAccess codec fields fun entry => { entry with state := .dirty }

def nativeRemove := nativeAccess codec fields fun entry => { entry with state := .deleted }

def nativeExists (ext : DynamicFieldsExt Ty Val) (nameTy : Ty) (uid : AccountAddress) (name : Val) :
    Except FieldError Bool := do
  let location ← parseFieldLocation codec nameTy uid name
  return fieldExists fields ext location

def writeField (ext : DynamicFieldsExt Ty Val) (location : FieldLocation) (value : Val) :
    DynamicFieldsExt Ty Val :=
  match ext.find? (fieldKey location) with
  | none => ext
  | some entry => OrdMap.insert ext (fieldKey location) { entry with value := value }

end Natives

def fieldChanges (ops : List DynamicFieldOp) : ChangeSet where
  addedDynamicFields := ops.filterMap fun
    | .add objectId nameBytes valueBytes => some (objectId, nameBytes, valueBytes)
    | .remove _ _ => none
  removedDynamicFields := ops.filterMap fun
    | .add _ _ _ => none
    | .remove objectId nameBytes => some (objectId, nameBytes)

def applyFieldOps (ops : List DynamicFieldOp) (fields : OrdMap String Bytes) : OrdMap String Bytes :=
  (StateManager.applyStorage (fieldChanges ops) { dynamicFields := fields }).dynamicFields

end Kanari

import Kanari.Address

/-!
# Types of the Move virtual machine

A signature is not instantiated when it is loaded, so it may mention type parameters, and neither
`abilities` nor `typeToTypeTag` answers for a type that does.
-/

namespace Kanari

structure AbilitySet where
  copy : Bool := false
  drop : Bool := false
  store : Bool := false
  key : Bool := false
  deriving DecidableEq

namespace AbilitySet

def primitives : AbilitySet := { copy := true, drop := true, store := true }
def references : AbilitySet := { copy := true, drop := true }
def signer : AbilitySet := { drop := true }
def vector : AbilitySet := { copy := true, drop := true, store := true }

def intersect (a b : AbilitySet) : AbilitySet :=
  ⟨a.copy && b.copy, a.drop && b.drop, a.store && b.store, a.key && b.key⟩

/-- The abilities that a type argument with abilities `a` does not veto: `key` needs `store`. -/
def requiredBy (a : AbilitySet) : AbilitySet := ⟨a.copy, a.drop, a.store, a.store⟩

def polymorphicAbilities (declared : AbilitySet) (phantoms : List Bool)
    (typeArguments : List AbilitySet) : Option AbilitySet :=
  if phantoms.length = typeArguments.length then
    some ((typeArguments.zip phantoms).foldl
      (fun acc p => if p.2 then acc else acc.intersect p.1.requiredBy) declared)
  else none

end AbilitySet

inductive TypeTag where
  | bool | u8 | u16 | u32 | u64 | u128 | u256 | address | signer
  | vector (elem : TypeTag)
  | struct (address : AccountAddress) (module name : String) (typeParams : List TypeTag)

/-- What the loader's module cache knows of a struct. -/
structure StructType where
  address : AccountAddress
  module : String
  name : String
  abilities : AbilitySet
  phantoms : List Bool
  deriving DecidableEq

inductive RuntimeType where
  | bool | u8 | u16 | u32 | u64 | u128 | u256 | address | signer
  | vector (elem : RuntimeType)
  | struct (d : StructType)
  | structInstantiation (d : StructType) (args : List RuntimeType)
  | reference (inner : RuntimeType)
  | mutableReference (inner : RuntimeType)
  | tyParam (idx : Nat)

mutual

def abilities : RuntimeType → Option AbilitySet
  | .bool | .u8 | .u16 | .u32 | .u64 | .u128 | .u256 | .address => some .primitives
  | .reference _ | .mutableReference _ => some .references
  | .signer => some .signer
  | .tyParam _ => none
  | .vector elem => (abilities elem).bind fun a => AbilitySet.polymorphicAbilities .vector [false] [a]
  | .struct d => some d.abilities
  | .structInstantiation d args =>
    (abilitiesList args).bind fun as => AbilitySet.polymorphicAbilities d.abilities d.phantoms as

def abilitiesList : List RuntimeType → Option (List AbilitySet)
  | [] => some []
  | t :: ts => (abilities t).bind fun a => (abilitiesList ts).map (a :: ·)

end

mutual

def typeToTypeTag : RuntimeType → Option TypeTag
  | .bool => some .bool
  | .u8 => some .u8
  | .u16 => some .u16
  | .u32 => some .u32
  | .u64 => some .u64
  | .u128 => some .u128
  | .u256 => some .u256
  | .address => some .address
  | .signer => some .signer
  | .vector elem => (typeToTypeTag elem).map .vector
  | .struct d => some (.struct d.address d.module d.name [])
  | .structInstantiation d args =>
    (typeToTypeTags args).map fun tags => .struct d.address d.module d.name tags
  | .reference _ | .mutableReference _ | .tyParam _ => none

def typeToTypeTags : List RuntimeType → Option (List TypeTag)
  | [] => some []
  | t :: ts => (typeToTypeTag t).bind fun tag => (typeToTypeTags ts).map (tag :: ·)

end

mutual

/-- Replaces type parameters by the arguments of the call. -/
def subst (tyArgs : List RuntimeType) : RuntimeType → Option RuntimeType
  | .vector elem => (subst tyArgs elem).map .vector
  | .structInstantiation d args => (substList tyArgs args).map (.structInstantiation d)
  | .reference inner => (subst tyArgs inner).map .reference
  | .mutableReference inner => (subst tyArgs inner).map .mutableReference
  | .tyParam idx => tyArgs[idx]?
  | ty => some ty

def substList (tyArgs : List RuntimeType) : List RuntimeType → Option (List RuntimeType)
  | [] => some []
  | t :: ts => (subst tyArgs t).bind fun t' => (substList tyArgs ts).map (t' :: ·)

end

mutual

/-- The text that the natives store as an object's type name. -/
def TypeTag.display : TypeTag → String
  | .bool => "bool"
  | .u8 => "u8"
  | .u16 => "u16"
  | .u32 => "u32"
  | .u64 => "u64"
  | .u128 => "u128"
  | .u256 => "u256"
  | .address => "address"
  | .signer => "signer"
  | .vector elem => "vector<" ++ elem.display ++ ">"
  | .struct addr module name typeParams =>
    addr.toHexLiteral ++ "::" ++ module ++ "::" ++ name ++
      match typeParams with
      | [] => ""
      | first :: rest => "<" ++ first.display ++ TypeTag.displayRest rest ++ ">"

def TypeTag.displayRest : List TypeTag → String
  | [] => ""
  | t :: ts => ", " ++ t.display ++ TypeTag.displayRest ts

end

def hasKey (ty : RuntimeType) : Bool :=
  match abilities ty with
  | some a => a.key
  | none => false

inductive MoveTypeLayout where
  | bool | u8 | u16 | u32 | u64 | u128 | u256 | address | signer
  | vector (elem : MoveTypeLayout)
  | struct (fields : List MoveTypeLayout)

end Kanari

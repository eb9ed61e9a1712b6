import Kanari.Apply

/-!
# Keys and records of the persistent store

Keys are text and records are kept decoded. An index list at an object's key, or the other way
round, stands for a record that does not decode.
-/

namespace Kanari

open Lib StateManager

inductive StoredValue where
  | object (object : StoredObject)
  | ids (ids : List String)
  | raw (bytes : Bytes)
  deriving DecidableEq

def startsWith (key start : String) : Bool := start.toList.isPrefixOf key.toList

def objectKey (id : String) : String := "object:" ++ id

def ownedObjectsKey (owner : AccountAddress) : String :=
  "owned_objects:" ++ String.ofList (Hex.encode owner.bytes)

lemma startsWith_iff {key start : String} :
    startsWith key start = true ↔ ∃ rest, start.toList ++ rest = key.toList := List.isPrefixOf_iff_prefix

lemma startsWith_append (start rest : String) : startsWith (start ++ rest) start = true :=
  startsWith_iff.mpr ⟨rest.toList, String.toList_append.symm⟩

lemma objectKey_injective : Function.Injective objectKey := by
  intro a b h
  have hlist := congrArg String.toList h
  unfold objectKey at hlist
  rw [String.toList_append, String.toList_append] at hlist
  exact String.toList_inj.mp (List.append_cancel_left hlist)

lemma ownedObjectsKey_injective : Function.Injective ownedObjectsKey := by
  intro a b h
  have hlist := congrArg String.toList h
  unfold ownedObjectsKey at hlist
  rw [String.toList_append, String.toList_append] at hlist
  have hdecoded := congrArg Hex.decode (List.append_cancel_left hlist)
  simp only [String.toList_ofList, Hex.decode_encode] at hdecoded
  exact AccountAddress.ext_bytes (Option.some.inj hdecoded)

/-! The families of keys are told apart by their first letters. -/

lemma objectKey_toList (id : String) : (objectKey id).toList = 'o' :: 'b' :: ("ject:".toList ++ id.toList) := by
  rw [objectKey, String.toList_append]
  rfl

lemma not_owned_objectKey (id : String) : startsWith (objectKey id) "owned_objects:" = false := by
  unfold startsWith
  rw [objectKey_toList]
  rfl

lemma objectKey_ne_ownedObjectsKey (id : String) (owner : AccountAddress) :
    objectKey id ≠ ownedObjectsKey owner := by
  intro h
  have howned : startsWith (ownedObjectsKey owner) "owned_objects:" = true := startsWith_append _ _
  rw [← h, not_owned_objectKey] at howned
  cases howned

end Kanari

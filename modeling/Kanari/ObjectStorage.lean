import Kanari.StorageKeys

/-!
# The object store

A write of objects and indexes is one batch; `fault` is the error with which the batch fails, if it
does.
-/

namespace Kanari

open Lib

abbrev ObjectRecords := OrdMap String StoredValue

structure ObjectStorage where
  objects : OrdMap String StoredObject
  persistent : Option ObjectRecords

namespace ObjectStorage

def OBJECT_INDEX_KEY : String := "object_index"

def legacyOwnerKey (owner : AccountAddress) : String :=
  "owner_index:" ++ String.ofList (Hex.encode owner.bytes)

def loadObject (store : ObjectRecords) (key : String) : Except String (Option StoredObject) :=
  match store.find? key with
  | none => .ok none
  | some (.object object) => .ok (some object)
  | some _ => .error "PersistenceError: the record is not an object"

def loadIds (store : ObjectRecords) (key : String) : Except String (Option (List String)) :=
  match store.find? key with
  | none => .ok none
  | some (.ids ids) => .ok (some ids)
  | some _ => .error "PersistenceError: the record is not a list of identifiers"

def loadIdIndex (store : ObjectRecords) (key : String) : Except String (List String) := do
  let ids ← loadIds store key
  return OrdSet.elems (OrdSet.addAll .empty (ids.getD []))

/-- The identifiers of an owner, and the legacy record that they replace. -/
def loadOwnedObjectIdsForBatch (store : ObjectRecords) (owner : AccountAddress) :
    Except String (List String × List String) := do
  let canonicalIds ← loadIdIndex store (ownedObjectsKey owner)
  if !canonicalIds.isEmpty then return (canonicalIds, [])
  let legacyKey := legacyOwnerKey owner
  let legacyIds ← loadIdIndex store legacyKey
  return (legacyIds, if !legacyIds.isEmpty then [legacyKey] else [])

def addIndexId (ids : List String) (id : String) : Option (List String) :=
  match SortedList.binarySearch ids id with
  | .ok _ => none
  | .error pos => some (ids.take pos ++ id :: ids.drop pos)

def removeIndexId (ids : List String) (id : String) : Option (List String) :=
  match SortedList.binarySearch ids id with
  | .ok pos => some (ids.eraseIdx pos)
  | .error _ => none

def indexUpdate (key : String) (changed : Option (List String)) : List (String × StoredValue) :=
  (changed.map fun ids => (key, StoredValue.ids ids)).toList

def applyRawChanges (store : ObjectRecords) (updates : List (String × StoredValue))
    (deletes : List String) (fault : Option String) : Except String ObjectRecords :=
  match fault with
  | some e => .error e
  | none => .ok (deletes.foldl OrdMap.erase (updates.foldl (fun m e => m.insert e.1 e.2) store))

def isOwned : ObjectOwnerKind → Bool
  | .addressOwner _ => true
  | .shared => false
  | .immutable => false

def removeFromOwner (store : ObjectRecords) (owner : AccountAddress) (id : String) :
    Except String (List (String × StoredValue)) := do
  let ids ← loadIdIndex store (ownedObjectsKey owner)
  return indexUpdate (ownedObjectsKey owner) (removeIndexId ids id)

def addToOwner (store : ObjectRecords) (owner : AccountAddress) (id : String) :
    Except String (List (String × StoredValue) × List String) := do
  let (ids, deletes) ← loadOwnedObjectIdsForBatch store owner
  return (indexUpdate (ownedObjectsKey owner) (addIndexId ids id), deletes)

def ownerIndexChanges (store : ObjectRecords) (old : Option StoredObject) (obj : StoredObject) :
    Except String (List (String × StoredValue) × List String) :=
  match old with
  | some o =>
    if o.owner ≠ obj.owner ∨ isOwned o.ownerKind ≠ isOwned obj.ownerKind then do
      let removed ← if isOwned o.ownerKind then removeFromOwner store o.owner obj.id else .ok []
      if isOwned obj.ownerKind then
        let (added, deletes) ← addToOwner store obj.owner obj.id
        return (removed ++ added, deletes)
      else return (removed, [])
    else .ok ([], [])
  | none => if isOwned obj.ownerKind then addToOwner store obj.owner obj.id else .ok ([], [])

def ownerIndexRemovals (store : ObjectRecords) (old : Option StoredObject) (id : String) :
    Except String (List (String × StoredValue)) :=
  match old with
  | some object =>
    if isOwned object.ownerKind then removeFromOwner store object.owner id else .ok []
  | none => .ok []

def oldObject (s : ObjectStorage) (id : String) : Except String (Option StoredObject) :=
  match s.objects.find? id, s.persistent with
  | some existing, _ => .ok (some existing)
  | none, some store => loadObject store (objectKey id)
  | none, none => .ok none

def storeObject (s : ObjectStorage) (obj : StoredObject) (fault : Option String) :
    Except String ObjectStorage := do
  let old ← s.oldObject obj.id
  match s.persistent with
  | none => return { s with objects := s.objects.insert obj.id obj }
  | some store =>
    let (ownerUpdates, deletes) ← ownerIndexChanges store old obj
    let ids ← loadIdIndex store OBJECT_INDEX_KEY
    let store ← applyRawChanges store ([(objectKey obj.id, .object obj)] ++ ownerUpdates ++
      indexUpdate OBJECT_INDEX_KEY (addIndexId ids obj.id)) deletes fault
    return ⟨s.objects.insert obj.id obj, some store⟩

def getObject (s : ObjectStorage) (id : String) :
    Except String (Option StoredObject × ObjectStorage) :=
  match s.objects.find? id with
  | some obj => .ok (some obj, s)
  | none =>
    match s.persistent with
    | none => .ok (none, s)
    | some store => do
      let loaded ← loadObject store (objectKey id)
      match loaded with
      | some obj => return (some obj, { s with objects := s.objects.insert id obj })
      | none => return (none, s)

def deleteObject (s : ObjectStorage) (id : String) (fault : Option String) :
    Except String ObjectStorage := do
  let old ← s.oldObject id
  match s.persistent with
  | none => return { s with objects := s.objects.erase id }
  | some store =>
    let ownerUpdates ← ownerIndexRemovals store old id
    let ids ← loadIdIndex store OBJECT_INDEX_KEY
    let store ← applyRawChanges store
      (ownerUpdates ++ indexUpdate OBJECT_INDEX_KEY (removeIndexId ids id)) [objectKey id] fault
    return ⟨s.objects.erase id, some store⟩

def clear (s : ObjectStorage) : ObjectStorage := { s with objects := .empty }

def cacheIndexed (store : ObjectRecords) (objects : OrdMap String StoredObject) (id : String) :
    Except String (OrdMap String StoredObject) := do
  let loaded ← loadObject store (objectKey id)
  let object ← orError loaded
    s!"object index references missing object {id}; refusing to start with a partial object cache"
  return objects.insert id object

def newWithStore (store : ObjectRecords) : Except String ObjectStorage := do
  let ids ← loadIds store OBJECT_INDEX_KEY
  let objects ← foldOk (cacheIndexed store) .empty (ids.getD [])
  return ⟨objects, some store⟩

inductive Call where
  | store (obj : StoredObject) (fault : Option String)
  | get (id : String)
  | delete (id : String) (fault : Option String)
  | clear
  /-- The process ends and the store is opened again. -/
  | reopen

/-- What a call returns: the object for `get`, nothing for the others. -/
abbrev Reply := Except String (Option StoredObject)

def Call.run (s : ObjectStorage) : Call → Reply × ObjectStorage
  | .store obj fault =>
    match s.storeObject obj fault with
    | .ok s' => (.ok none, s')
    | .error e => (.error e, s)
  | .get id =>
    match s.getObject id with
    | .ok (found, s') => (.ok found, s')
    | .error e => (.error e, s)
  | .delete id fault =>
    match s.deleteObject id fault with
    | .ok s' => (.ok none, s')
    | .error e => (.error e, s)
  | .clear => (.ok none, s.clear)
  | .reopen =>
    match newWithStore (s.persistent.getD .empty) with
    | .ok s' => (.ok none, s')
    | .error e => (.error e, s)

def runAll (s : ObjectStorage) : List Call → List Reply × ObjectStorage
  | [] => ([], s)
  | c :: calls =>
    let (reply, s) := c.run s
    let (replies, s) := s.runAll calls
    (reply :: replies, s)

end ObjectStorage

end Kanari

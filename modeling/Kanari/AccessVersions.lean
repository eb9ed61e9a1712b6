import Kanari.ChangeSet

/-!
# Access versions

An advance that would overflow a counter stops there, and what it wrote before stays written: in
memory at once, and in the overlay, which a commit moves to the store.
-/

namespace Kanari

open Lib

structure AccessVersions where
  versions : OrdMap String Nat := .empty
  epoch : Nat := 0
  /-- The records under the per-key prefix that the store does not have yet. -/
  overlay : OrdMap String Nat := .empty
  /-- Those it has. -/
  stored : OrdMap String Nat := .empty

namespace AccessVersions

def versionOf (versions : OrdMap String Nat) (key : String) : Nat := (versions.find? key).getD 0

def accessedKeys (access : StateAccessSet) : List String :=
  OrdSet.elems access.reads ++ OrdSet.elems access.writes

def captureAccessVersions (c : AccessVersions) (access : StateAccessSet) : OrdMap String Nat :=
  OrdMap.ofList ((accessedKeys access).map fun key => (key, versionOf c.versions key))

def validateAccessSnapshot (c : AccessVersions) (snapshot : OrdMap String Nat)
    (access : StateAccessSet) : Bool :=
  (accessedKeys access).all fun key => versionOf snapshot key == versionOf c.versions key

def saveVersion (persist : Bool) (c : AccessVersions) (key : String) (next : Nat) : AccessVersions :=
  { c with
    versions := c.versions.insert key next
    overlay := if persist then c.overlay.insert key next else c.overlay }

/-- The loop over the written keys, left at the first counter that is full. -/
def bumpKeys (persist : Bool) (c : AccessVersions) : List String → AccessVersions × Except String Unit
  | [] => (c, .ok ())
  | key :: keys =>
    match checkedAdd (versionOf c.versions key) 1 "State access version overflow" with
    | .error e => (c, .error e)
    | .ok next => bumpKeys persist (saveVersion persist c key next) keys

def advanceAccessVersions (persist : Bool) (c : AccessVersions) (access : StateAccessSet) :
    AccessVersions × Except String Unit :=
  if access.writes.entries.isEmpty then (c, .ok ())
  else
    match checkedAdd c.epoch 1 "State access epoch overflow" with
    | .error e => (c, .error e)
    | .ok epoch => bumpKeys persist { c with epoch } (OrdSet.elems access.writes)

def insertAll (m : OrdMap String Nat) (records : OrdMap String Nat) : OrdMap String Nat :=
  records.entries.foldl (fun m e => m.insert e.1 e.2) m

def commit (c : AccessVersions) : AccessVersions :=
  { c with stored := insertAll c.stored c.overlay, overlay := .empty }

/-- What `try_new` reads: the records under the prefix go over an older record of all the versions. -/
def loadAccessVersions (older stored : OrdMap String Nat) : AccessVersions where
  versions := insertAll older stored
  stored := stored

end AccessVersions

end Kanari

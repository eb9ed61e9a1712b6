import Kanari.Address
import Kanari.Lib.BitTree
import Kanari.Lib.OrdMap
import Mathlib.Data.List.Sort

/-!
# The sparse Merkle tree

`crates/smt`. The 32 bytes of a digest are its 256 bits, the most significant bit of the first byte
first, and a node key is the list of the first `depth` bits. The hash functions are parameters.
-/

namespace Kanari

open Lib BitTree

structure KeyHash where
  bits : List Bool
  length_bits : bits.length = 256

namespace KeyHash

@[ext] lemma ext {a b : KeyHash} (h : a.bits = b.bits) : a = b := by
  cases a
  cases b
  simpa using h

lemma natOfBits_bits_injective : Function.Injective fun h : KeyHash => natOfBits h.bits := by
  intro a b h
  exact ext (natOfBits_injective (a.length_bits.trans b.length_bits.symm) h)

/-- Byte by byte, as arrays compare. -/
instance : LinearOrder KeyHash :=
  LinearOrder.lift' (fun h : KeyHash => natOfBits h.bits) natOfBits_bits_injective

def zero : KeyHash := ⟨List.replicate 256 false, List.length_replicate⟩

/-- The bit that `key_bit_position(depth)` addresses. -/
def bit (h : KeyHash) (depth : Nat) : Bool := h.bits.getD (depth - 1) false

def flipBit (h : KeyHash) (depth : Nat) : KeyHash :=
  ⟨h.bits.modify (depth - 1) (!·), by rw [List.length_modify, h.length_bits]⟩

/-- Out of the first two bytes; of one byte only, where the depth is at most 8. -/
def topBits (h : KeyHash) (depth : Nat) : Nat :=
  natOfBits (h.bits.take (if 8 < depth then 16 else 8)) >>> (16 - depth)

def prefixFromTopBits (bucketIndex depth : Nat) : KeyHash :=
  ⟨(bitsOfNat depth bucketIndex ++ List.replicate 256 false).take 256, by
    rw [List.length_take, List.length_append, List.length_replicate, min_eq_left (by omega)]⟩

end KeyHash

structure HashFunctions (H : Type) where
  digest : Bytes → KeyHash
  hashLeaf : KeyHash → Bytes → H
  hashNode : H → H → H

abbrev NodeCache (H : Type) := List Bool → Option H

/-- `none` inside marks a node that went back to its default. -/
abbrev NodeOverlay (H : Type) := List Bool → Option (Option H)

structure SmtStore (H : Type) where
  data : OrdMap KeyHash Bytes := .empty
  root : Option H := none

structure SparseMerkleTree (H : Type) where
  db : SmtStore H
  nodeCache : NodeCache H
  nodeCacheReady : Bool

def nodeKey (prefixHash : KeyHash) (depth : Nat) : List Bool := prefixHash.bits.take depth

namespace HashFunctions

variable {H : Type} [DecidableEq H] (hf : HashFunctions H)

def defaultLeaf : H := hf.hashLeaf KeyHash.zero (List.replicate 32 0)

def defaultHash (depth : Nat) : H := emptyRoot hf.hashNode hf.defaultLeaf (256 - depth)

def nodeHashFromCache (cache : NodeCache H) (prefixHash : KeyHash) (depth : Nat) : H :=
  (cache (nodeKey prefixHash depth)).getD (hf.defaultHash depth)

def nodeHashFromOverlay (cache : NodeCache H) (overlay : NodeOverlay H) (prefixHash : KeyHash)
    (depth : Nat) : H :=
  match overlay (nodeKey prefixHash depth) with
  | some value => value.getD (hf.defaultHash depth)
  | none => hf.nodeHashFromCache cache prefixHash depth

def stageNode (overlay : NodeOverlay H) (prefixHash : KeyHash) (depth : Nat) (hash : H) :
    NodeOverlay H :=
  Function.update overlay (nodeKey prefixHash depth)
    (some (if hash = hf.defaultHash depth then none else some hash))

/-- The loop over the depths `stop + n` down to `stop + 1`. The node it starts from is not
staged itself, only the nodes above it. -/
def stagePath (cache : NodeCache H) (keyHash : KeyHash) (stop : Nat) :
    Nat → NodeOverlay H → H → NodeOverlay H × H
  | 0, overlay, current => (overlay, current)
  | n + 1, overlay, current =>
    let depth := stop + n + 1
    let sibling := hf.nodeHashFromOverlay cache overlay (keyHash.flipBit depth) depth
    let parent := join hf.hashNode (keyHash.bit depth) current sibling
    stagePath cache keyHash stop n (hf.stageNode overlay keyHash (depth - 1) parent) parent

def stageNodeUpdateFromDepth (cache : NodeCache H) (overlay : NodeOverlay H) (keyHash : KeyHash)
    (nodeDepth : Nat) (nodeHash : H) : NodeOverlay H :=
  if nodeDepth = 0 then hf.stageNode overlay keyHash 0 nodeHash
  else (hf.stagePath cache keyHash 0 nodeDepth overlay nodeHash).1

def stageLeafNodeUpdate (cache : NodeCache H) (overlay : NodeOverlay H) (keyHash : KeyHash)
    (leafHash : H) : NodeOverlay H :=
  hf.stageNodeUpdateFromDepth cache overlay keyHash 256 leafHash

def stageLeafNodeUpdateToDepth (cache : NodeCache H) (overlay : NodeOverlay H) (keyHash : KeyHash)
    (leafHash : H) (stopDepth : Nat) : NodeOverlay H × H :=
  if stopDepth = 256 then (hf.stageNode overlay keyHash 256 leafHash, leafHash)
  else hf.stagePath cache keyHash stopDepth (256 - stopDepth) overlay leafHash

def applyNodeOverlayToCache (cache : NodeCache H) (overlay : NodeOverlay H) : NodeCache H :=
  fun key => (overlay key).getD (cache key)

def leafHash (keyHash : KeyHash) (value : Option Bytes) : H :=
  value.elim (hf.defaultHash 256) (hf.hashLeaf keyHash)

def stageChanges (cache : NodeCache H) (changes : List (KeyHash × Option Bytes)) : NodeOverlay H :=
  changes.foldl (fun overlay e => hf.stageLeafNodeUpdate cache overlay e.1 (hf.leafHash e.1 e.2))
    fun _ => none

def new (db : SmtStore H) : SparseMerkleTree H := ⟨db, fun _ => none, false⟩

def rebuildNodeCacheFromPersistedData (t : SparseMerkleTree H) : SparseMerkleTree H :=
  let overlay := hf.stageChanges (fun _ => none)
    (t.db.data.entries.map fun e => (e.1, some e.2))
  { t with
    nodeCache := applyNodeOverlayToCache (fun _ => none) overlay
    nodeCacheReady := true }

def ensureNodeIndex (t : SparseMerkleTree H) : SparseMerkleTree H :=
  if t.nodeCacheReady then t else hf.rebuildNodeCacheFromPersistedData t

def rootHash (t : SparseMerkleTree H) : H :=
  if t.nodeCacheReady then hf.nodeHashFromCache t.nodeCache KeyHash.zero 0
  else t.db.root.getD (hf.defaultHash 0)

def get (t : SparseMerkleTree H) (key : Bytes) : Option Bytes := t.db.data.find? (hf.digest key)

def changesOf (updates : List (Bytes × Bytes)) (deletes : List Bytes) :
    OrdMap KeyHash (Option Bytes) :=
  updates.foldl (fun m e => m.insert (hf.digest e.1) (some e.2))
    (deletes.foldl (fun m k => m.insert (hf.digest k) none) .empty)

def parallelBucketDepth : Nat := 12

def bucketsOf {V : Type} (entries : List (KeyHash × V)) : List (Nat × List (KeyHash × V)) :=
  ((List.range (2 ^ parallelBucketDepth)).map fun i =>
    (i, entries.filter fun e => decide (e.1.topBits parallelBucketDepth = i))).filter
      fun b => !b.2.isEmpty

def stageBucket (cache : NodeCache H) (bucket : Nat × List (KeyHash × Option Bytes)) :
    KeyHash × H × NodeOverlay H :=
  let bucketPrefix := KeyHash.prefixFromTopBits bucket.1 parallelBucketDepth
  let (overlay, bucketRoot) := bucket.2.foldl
    (fun acc e => hf.stageLeafNodeUpdateToDepth cache acc.1 e.1 (hf.leafHash e.1 e.2)
      parallelBucketDepth) (fun _ => none, hf.defaultHash parallelBucketDepth)
  (bucketPrefix, bucketRoot, hf.stageNode overlay bucketPrefix parallelBucketDepth bucketRoot)

def extendOverlay (overlay other : NodeOverlay H) : NodeOverlay H :=
  fun key => (other key).or (overlay key)

def rootHashWithSortedChangesParallel (cache : NodeCache H)
    (changes : List (KeyHash × Option Bytes)) : H × NodeOverlay H :=
  let overlay := ((bucketsOf changes).map (hf.stageBucket cache)).foldl
    (fun overlay (r : KeyHash × H × NodeOverlay H) =>
      hf.stageNodeUpdateFromDepth cache (extendOverlay overlay r.2.2) r.1 parallelBucketDepth r.2.1)
    fun _ => none
  (hf.nodeHashFromOverlay cache overlay KeyHash.zero 0, overlay)

/-- Also the tree afterwards: the node index is built when it is first needed. -/
def rootHashWithChangesAndOverlay (t : SparseMerkleTree H) (updates : List (Bytes × Bytes))
    (deletes : List Bytes) : SparseMerkleTree H × H × NodeOverlay H :=
  if updates.isEmpty && deletes.isEmpty then (t, hf.rootHash t, fun _ => none)
  else
    let t := hf.ensureNodeIndex t
    let changes := (hf.changesOf updates deletes).entries
    if 1024 ≤ changes.length then (t, hf.rootHashWithSortedChangesParallel t.nodeCache changes)
    else
      let overlay := hf.stageChanges t.nodeCache changes
      (t, hf.nodeHashFromOverlay t.nodeCache overlay KeyHash.zero 0, overlay)

/-- Keeps the first element of every run with one key. -/
def dedupFrom {α : Type} (key : α → KeyHash) (previous : KeyHash) : List α → List α
  | [] => []
  | a :: rest =>
    if key a = previous then dedupFrom key previous rest else a :: dedupFrom key (key a) rest

def dedupBy {α : Type} (key : α → KeyHash) : List α → List α
  | [] => []
  | a :: rest => a :: dedupFrom key (key a) rest

def sortDedup {α : Type} (key : α → KeyHash) (l : List α) : List α :=
  dedupBy key (l.insertionSort fun a b => key a ≤ key b)

/-- The write batch and the staged nodes of one change list, with the root it installs. -/
def commit (t : SparseMerkleTree H) (data : OrdMap KeyHash Bytes) (root : H)
    (overlay : NodeOverlay H) : SparseMerkleTree H where
  db := ⟨data, some root⟩
  nodeCache := applyNodeOverlayToCache t.nodeCache overlay
  nodeCacheReady := t.nodeCacheReady

def insert (t : SparseMerkleTree H) (kvs : List (Bytes × Bytes)) : SparseMerkleTree H :=
  if kvs.isEmpty then t
  else
    let t := hf.ensureNodeIndex t
    let keyed := sortDedup (·.1) (kvs.map fun e => (hf.digest e.1, e.2))
    let data := keyed.foldl (fun m e => m.insert e.1 e.2) t.db.data
    let overlay := hf.stageChanges t.nodeCache (keyed.map fun e => (e.1, some e.2))
    commit t data (hf.nodeHashFromOverlay t.nodeCache overlay KeyHash.zero 0) overlay

def delete (t : SparseMerkleTree H) (keys : List Bytes) : SparseMerkleTree H :=
  if keys.isEmpty then t
  else
    let t := hf.ensureNodeIndex t
    let keyed := sortDedup id (keys.map hf.digest)
    let data := keyed.foldl (fun m k => m.erase k) t.db.data
    let overlay := hf.stageChanges t.nodeCache (keyed.map fun k => (k, none))
    commit t data (hf.nodeHashFromOverlay t.nodeCache overlay KeyHash.zero 0) overlay

def writeChanges (data : OrdMap KeyHash Bytes) (updates : List (Bytes × Bytes))
    (deletes : List Bytes) : OrdMap KeyHash Bytes :=
  updates.foldl (fun m e => m.insert (hf.digest e.1) e.2)
    (deletes.foldl (fun m k => m.erase (hf.digest k)) data)

/-- The tree afterwards, which on an error has at most gained its node index. -/
def applyChangesWithRoot (t : SparseMerkleTree H) (updates : List (Bytes × Bytes))
    (deletes : List Bytes) (root : H) : SparseMerkleTree H × Except String Unit :=
  let t := hf.ensureNodeIndex t
  let overlay := hf.stageChanges t.nodeCache (hf.changesOf updates deletes).entries
  if hf.nodeHashFromOverlay t.nodeCache overlay KeyHash.zero 0 = root then
    (commit t (hf.writeChanges t.db.data updates deletes) root overlay, .ok ())
  else (t, .error "verified SMT root mismatch while applying incremental node changes")

def applyChangesWithPrecomputedOverlay (t : SparseMerkleTree H) (updates : List (Bytes × Bytes))
    (deletes : List Bytes) (root : H) (overlay : NodeOverlay H) :
    SparseMerkleTree H × Except String Unit :=
  let overlayRoot := ((overlay []).map (·.getD (hf.defaultHash 0))).getD (hf.rootHash t)
  if overlayRoot = root then
    let t := hf.ensureNodeIndex t
    (commit t (hf.writeChanges t.db.data updates deletes) root overlay, .ok ())
  else (t, .error "precomputed SMT overlay root does not match verified root")

def rebuild (_t : SparseMerkleTree H) (entries : List (Bytes × Bytes)) : SparseMerkleTree H :=
  let cleared : SparseMerkleTree H := ⟨⟨.empty, none⟩, fun _ => none, false⟩
  if entries.isEmpty then
    { cleared with db := ⟨.empty, some (hf.defaultHash 0)⟩, nodeCacheReady := true }
  else hf.insert cleared entries

/-- The tree with its node index, and whether the key is a member, its leaf and the siblings from
the leaf upwards. -/
def proof (t : SparseMerkleTree H) (key : Bytes) : SparseMerkleTree H × Bool × H × List H :=
  let keyHash := hf.digest key
  let value := t.db.data.find? keyHash
  let t := hf.ensureNodeIndex t
  (t, value.isSome, hf.leafHash keyHash value, (List.range 256).map fun i =>
    hf.nodeHashFromCache t.nodeCache (keyHash.flipBit (256 - i)) (256 - i))

/-- Siblings joined from the depth `256 - i` upwards. There is no bit for a sibling after the 256th:
the index of its byte is out of range and the program panics. -/
def foldSiblings (keyHash : KeyHash) : (i : Nat) → List H → H → Option H
  | _, [], current => some current
  | i, sibling :: siblings, current =>
    if i < 256 then
      foldSiblings keyHash (i + 1) siblings
        (join hf.hashNode (keyHash.bit (256 - i)) current sibling)
    else none

/-- The first component of a proof is not read; `none` is a panic. -/
def verifyProof (root : H) (key : Bytes) (proof : Bool × H × List H) : Option Bool :=
  (hf.foldSiblings (hf.digest key) 0 proof.2.2 proof.2.1).map fun current => decide (current = root)

def singleEntryRoot (keyHash : KeyHash) (value : Bytes) (height : Nat) : H :=
  (List.range height).foldl (fun current i =>
    join hf.hashNode (keyHash.bit (256 - i)) current (hf.defaultHash (256 - i)))
    (hf.hashLeaf keyHash value)

/-- By the height of the subtree, which is `256 - subtree_depth`. Nothing calls it on no entries. -/
def computeSparseSubtreeRootSorted : Nat → List (KeyHash × Bytes) → H
  | height, [] => hf.defaultHash (256 - height)
  | height, [e] => hf.singleEntryRoot e.1 e.2 height
  | 0, e :: _ => hf.hashLeaf e.1 e.2
  | height + 1, entries =>
    let nextDepth := 256 - height
    let left := entries.takeWhile fun e => !e.1.bit nextDepth
    let right := entries.drop left.length
    hf.hashNode
      (if left.isEmpty then hf.defaultHash nextDepth
        else computeSparseSubtreeRootSorted height left)
      (if right.isEmpty then hf.defaultHash nextDepth
        else computeSparseSubtreeRootSorted height right)

def isSortedByHash : List (KeyHash × Bytes) → Bool
  | a :: b :: rest => decide (a.1 ≤ b.1) && isSortedByHash (b :: rest)
  | _ => true

def computeSparseSubtreeRoot (entries : List (KeyHash × Bytes)) (subtreeDepth : Nat) : H :=
  if entries.isEmpty then hf.defaultHash subtreeDepth
  else if isSortedByHash entries then
    hf.computeSparseSubtreeRootSorted (256 - subtreeDepth) entries
  else
    hf.computeSparseSubtreeRootSorted (256 - subtreeDepth)
      (entries.insertionSort fun a b => a.1 ≤ b.1)

def computeSparseRootParallelByte (entries : List (KeyHash × Bytes)) : H :=
  let roots := (List.range (2 ^ parallelBucketDepth)).map fun i =>
    hf.computeSparseSubtreeRoot
      (entries.filter fun e => decide (e.1.topBits parallelBucketDepth = i)) parallelBucketDepth
  (((pairUp hf.hashNode)^[parallelBucketDepth] roots).head?).getD (hf.defaultHash 0)

def computeSparseRoot (entries : List (Bytes × Bytes)) : H :=
  let keyed := entries.map fun e => (hf.digest e.1, e.2)
  if entries.isEmpty then hf.defaultHash 0
  else if 2048 ≤ entries.length then hf.computeSparseRootParallelByte keyed
  else hf.computeSparseSubtreeRoot keyed 0

end HashFunctions

end Kanari

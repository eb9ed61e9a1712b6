import Kanari.Address
import Kanari.Lib.ByteStream
import Kanari.Lib.PairTree

/-!
# The transaction Merkle tree

`crates/smt/src/merkle.rs`. A proof has one entry for each level, which is empty where there is no
sibling. The hashes are parameters.
-/

namespace Kanari

open Lib BitTree

/-- Hashes and their bytes. Whatever is not the bytes of a hash is read as zero. -/
structure MerkleHash (H : Type) where
  hashNode : H → H → H
  zero : H
  toVec : H → Bytes
  bytesToHash : Bytes → H
  toVec_ne_nil : ∀ h, toVec h ≠ []
  bytesToHash_toVec : ∀ h, bytesToHash (toVec h) = h
  bytesToHash_other : ∀ bytes, (∀ h, toVec h ≠ bytes) → bytesToHash bytes = zero

namespace MerkleHash

/-- The hashes of the source: arrays of 32 bytes. -/
def ofArrays (hashNode : Vector UInt8 32 → Vector UInt8 32 → Vector UInt8 32) :
    MerkleHash (Vector UInt8 32) where
  hashNode := hashNode
  zero := Vector.replicate 32 0
  toVec h := h.toList
  bytesToHash bytes :=
    if h : bytes.length = 32 then ⟨bytes.toArray, by simpa using h⟩ else Vector.replicate 32 0
  toVec_ne_nil h := List.ne_nil_of_length_pos (by simp)
  bytesToHash_toVec h := by simp [Vector.toList]
  bytesToHash_other bytes h := by
    refine dif_neg fun hlen => ?_
    exact h ⟨bytes.toArray, by simpa using hlen⟩ rfl

variable {H : Type} (M : MerkleHash H)

def computeMerkleRootArrays (level : List H) : H :=
  (joinLevels M.hashNode level.length level).headD M.zero

def txHashesToArrays (txHashes : List Bytes) : List H := txHashes.map M.bytesToHash

/-- The root of a single transaction hash is that hash, whatever its length. -/
def computeMerkleRoot : List Bytes → Bytes
  | [txHash] => txHash
  | txHashes => M.toVec (M.computeMerkleRootArrays (M.txHashesToArrays txHashes))

def generateMerkleProofLoop : (fuel : Nat) → List H → Nat → List Bytes
  | 0, _, _ => []
  | fuel + 1, level, index =>
    if level.length ≤ 1 then []
    else
      (match level[neighbour index]? with
        | some sibling => M.toVec sibling
        | none => []) ::
        generateMerkleProofLoop fuel (joinPairs M.hashNode level) (index / 2)

def generateMerkleProof (txHashes : List Bytes) (index : Nat) : List Bytes :=
  if txHashes.length ≤ index then []
  else M.generateMerkleProofLoop txHashes.length (M.txHashesToArrays txHashes) index

/-- One entry of a proof: at an empty one there is nothing to hash. -/
def proofStep (acc : H × Nat) (sibling : Bytes) : H × Nat :=
  (if sibling.isEmpty then acc.1
    else join M.hashNode (decide (acc.2 % 2 = 1)) acc.1 (M.bytesToHash sibling), acc.2 / 2)

def verifyMerkleProof (txHash : Bytes) (index : Nat) (proof : List Bytes) (merkleRoot : Bytes) :
    Bool :=
  (proof.isEmpty && txHash == merkleRoot) ||
    M.toVec (proof.foldl M.proofStep (M.bytesToHash txHash, index)).1 == merkleRoot

end MerkleHash

/-- A proof with the side of each sibling: `true` is right. -/
structure CompressedMerkleProof where
  siblings : List Bytes
  flags : List Bool
  deriving DecidableEq

namespace CompressedMerkleProof

def flagsLoop : (proof : List Bytes) → (currentIndex : Nat) → List Bool
  | [], _ => []
  | _ :: proof, currentIndex => decide (currentIndex % 2 = 0) :: flagsLoop proof (currentIndex / 2)

def fromProof (index : Nat) (proof : List Bytes) : CompressedMerkleProof :=
  ⟨proof, flagsLoop proof index⟩

def verifyStep {H : Type} (M : MerkleHash H) (currentHash : H) (entry : Bytes × Bool) : H :=
  if entry.1.isEmpty then currentHash
  else if entry.2 then M.hashNode currentHash (M.bytesToHash entry.1)
  else M.hashNode (M.bytesToHash entry.1) currentHash

def verify {H : Type} (M : MerkleHash H) (c : CompressedMerkleProof) (txHash merkleRoot : Bytes) :
    Bool :=
  if c.siblings.isEmpty && txHash == merkleRoot then true
  else if c.siblings.length ≠ c.flags.length then false
  else M.toVec ((c.siblings.zip c.flags).foldl (verifyStep M) (M.bytesToHash txHash)) == merkleRoot

/-- The flags as packed bits: `flagByte` is the byte that is being filled, up to `bitPos`. -/
def packLoop : (flags : List Bool) → (flagByte bitPos : Nat) → (bytes : Bytes) → Bytes
  | [], flagByte, bitPos, bytes => if 0 < bitPos then bytes ++ [UInt8.ofNat flagByte] else bytes
  | flag :: flags, flagByte, bitPos, bytes =>
    let flagByte := if flag then flagByte ||| (1 <<< bitPos) else flagByte
    if bitPos + 1 = 8 then packLoop flags 0 0 (bytes ++ [UInt8.ofNat flagByte])
    else packLoop flags flagByte (bitPos + 1) bytes

def toBytes (c : CompressedMerkleProof) : Bytes :=
  packLoop c.flags 0 0 (Text.leBytes 4 c.siblings.length) ++ c.siblings.flatten

def fromBytes (bytes : Bytes) : Option CompressedMerkleProof :=
  if bytes.length < 4 then none
  else
    let count := Text.leNat (bytes.take 4)
    let flagBytesNeeded := (count + 7) / 8
    if bytes.length < 4 + flagBytesNeeded + count * 32 then none
    else
      let flags := (List.range count).map fun i =>
        decide ((bytes.getD (4 + i / 8) 0).toNat &&& (1 <<< (i % 8)) ≠ 0)
      some ⟨pieces 32 count (bytes.drop (4 + flagBytesNeeded)), flags⟩

end CompressedMerkleProof

end Kanari

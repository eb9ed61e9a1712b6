import Kanari.Lib.ByteStream
import Kanari.SparseMerkle

/-!
# Node keys as bytes

`node_key`, and staging in a cache under such keys.
-/

namespace Kanari

open Lib BitTree

/-- `[u8; 32]`. -/
structure Digest where
  bytes : Bytes
  length_bytes : bytes.length = 32

def ROOT_NODE_KEY : Bytes := [0x6e, 0x3a, 0, 0]

/-- The byte, and the bit inside it, that a node of this depth adds to its parent. -/
def keyBitPosition (depth : Nat) : Nat × Nat :=
  let bitIndex := depth - 1
  (bitIndex / 8, 7 - bitIndex % 8)

def nodePrefixLen (depth : Nat) : Nat := (depth + 7) / 8

namespace Digest

def byte (p : Digest) (i : Nat) : UInt8 := p.bytes.getD i 0

def bitMask (depth : Nat) : UInt8 := 1 <<< UInt8.ofNat (keyBitPosition depth).2

def bit (p : Digest) (depth : Nat) : Bool := (p.byte (keyBitPosition depth).1 &&& bitMask depth) != 0

def flipBit (p : Digest) (depth : Nat) : Digest :=
  ⟨p.bytes.modify (keyBitPosition depth).1 (· ^^^ bitMask depth), by
    rw [List.length_modify, p.length_bytes]⟩

def nodeKey (prefixHash : Digest) (depth : Nat) : Bytes :=
  if depth = 0 then ROOT_NODE_KEY
  else
    let out := [0x6e, 0x3a] ++ Text.beBytes 2 depth ++ prefixHash.bytes.take (nodePrefixLen depth)
    let remainingBits := depth % 8
    if remainingBits = 0 then out
    else out.modify (out.length - 1) (· &&& (0xFF <<< UInt8.ofNat (8 - remainingBits)))

/-! ## Staging

The same loops as over lists of bits, with the maps keyed by bytes. -/

variable {H : Type} [DecidableEq H] (hf : HashFunctions H)

def nodeHashFromOverlay (cache : Bytes → Option H) (overlay : Bytes → Option (Option H))
    (prefixHash : Digest) (depth : Nat) : H :=
  match overlay (prefixHash.nodeKey depth) with
  | some value => value.getD (hf.defaultHash depth)
  | none => (cache (prefixHash.nodeKey depth)).getD (hf.defaultHash depth)

def stageNode (overlay : Bytes → Option (Option H)) (prefixHash : Digest) (depth : Nat) (hash : H) :
    Bytes → Option (Option H) :=
  Function.update overlay (prefixHash.nodeKey depth)
    (some (if hash = hf.defaultHash depth then none else some hash))

def stagePath (cache : Bytes → Option H) (keyHash : Digest) :
    Nat → (Bytes → Option (Option H)) → H → Bytes → Option (Option H)
  | 0, overlay, _ => overlay
  | n + 1, overlay, current =>
    let sibling := nodeHashFromOverlay hf cache overlay (keyHash.flipBit (n + 1)) (n + 1)
    let parent := join hf.hashNode (keyHash.bit (n + 1)) current sibling
    stagePath cache keyHash n (stageNode hf overlay keyHash n parent) parent

def stageLeaves (cache : Bytes → Option H) (changes : List (Digest × H)) : Bytes → Option (Option H) :=
  changes.foldl (fun overlay e => e.1.stagePath hf cache 256 overlay e.2) fun _ => none

end Digest

end Kanari

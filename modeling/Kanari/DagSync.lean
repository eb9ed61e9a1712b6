import Kanari.Lib.Worklist
import Kanari.Mempool

/-!
# Vertices sent with a checkpoint

`checkpoint_vertices_for_sync`. The block store has one vertex for each id; reading a block and
encoding a vertex may fail and are parameters.
-/

namespace Kanari

open Lib

structure DagVertex where
  id : Bytes
  round : Nat
  author : String
  parents : List (String × Nat × Bytes)
  /-- Chain id, transactions, time, signature and native block, encoded. -/
  body : Bytes := []
  deriving DecidableEq

/-- The blocks by round, of which those of a parent are below those of a child. -/
structure BlockReader where
  highestRound : Nat
  getBlocksByRound : Nat → List DagVertex
  round_eq : ∀ r, ∀ v ∈ getBlocksByRound r, v.round = r
  round_le : ∀ r, ∀ v ∈ getBlocksByRound r, r ≤ highestRound
  id_inj : ∀ v ∈ getBlocksByRound v.round, ∀ w ∈ getBlocksByRound w.round, v.id = w.id → v = w
  parents_below : ∀ v ∈ getBlocksByRound v.round, ∀ p ∈ v.parents, p.2.1 < v.round

def BlockReader.ofBlocks (blocks : List DagVertex) (hids : (blocks.map (·.id)).Nodup)
    (hparents : ∀ v ∈ blocks, ∀ p ∈ v.parents, p.2.1 < v.round) : BlockReader where
  highestRound := (blocks.map (·.round)).foldr max 0
  getBlocksByRound := fun r => blocks.filter (·.round == r)
  round_eq := fun r v hv => beq_iff_eq.mp (List.mem_filter.mp hv).2
  round_le := fun r v hv => by
    obtain ⟨hmem, hround⟩ := List.mem_filter.mp hv
    exact List.le_max_of_le (List.mem_map_of_mem hmem) (beq_iff_eq.mp hround).ge
  id_inj := fun v hv w hw hid =>
    List.inj_on_of_nodup_map hids (List.mem_of_mem_filter hv) (List.mem_of_mem_filter hw) hid
  parents_below := fun v hv => hparents v (List.mem_of_mem_filter hv)

structure SyncEnv where
  /-- Whether `block_to_vertex` knows the authors and reads the transactions. -/
  readBlock : DagVertex → Except String Unit
  jsonBytes : DagVertex → Except String Nat

def MAX_SYNC_VERTEX_JSON_BYTES : Nat := 4 * 1024 * 1024

namespace BlockReader

variable (R : BlockReader) (env : SyncEnv)

def allBlocks : List DagVertex := (List.range (R.highestRound + 1)).flatMap R.getBlocksByRound

def blockToVertex (block : DagVertex) : Except String DagVertex := (env.readBlock block).map fun _ => block

def recentVertices : Except String (List DagVertex) :=
  ((List.range' 1 R.highestRound).flatMap R.getBlocksByRound).mapM (blockToVertex env)

def resolveRoot (recent : List DagVertex) (id : Bytes) : Except String DagVertex :=
  match recent.find? fun v => v.id == id with
  | some v => .ok v
  | none => .error <| s!"Checkpoint DAG vertex {String.ofList (Hex.encode id)} is missing from retained " ++
      s!"Mysticeti block store (highest_round={R.highestRound}); use snapshot recovery"

def resolveParent (v : DagVertex) (p : String × Nat × Bytes) : Except String DagVertex :=
  match (R.getBlocksByRound p.2.1).find? fun block => block.id == p.2.2 with
  | some block => do
    let parent ← blockToVertex env block
    ensure (parent.author == p.1) s!"DAG parent author mismatch for {String.ofList (Hex.encode p.2.2)}"
    return parent
  | none => .error <| s!"Missing DAG parent {String.ofList (Hex.encode p.2.2)} " ++
      s!"for checkpoint vertex {String.ofList (Hex.encode v.id)}"

def nextParents (closure : List DagVertex) (v : DagVertex) : Except String (List DagVertex) :=
  (v.parents.filter fun p => p.2.1 != 0 && !(closure.map (·.id)).contains p.2.2).mapM (R.resolveParent env v)

/-- One vertex of the loop: the bytes so far and its parents, or the end of the loop. -/
def visit (roots : List Bytes) (limit encodedBytes : Nat) (closure : List DagVertex) (v : DagVertex) :
    Except String (Option (Nat × List DagVertex)) :=
  if limit ≤ closure.length then .ok none
  else do
    let vertexBytes ← env.jsonBytes v
    if !roots.contains v.id && decide (MAX_SYNC_VERTEX_JSON_BYTES < saturatingAdd encodedBytes vertexBytes) then
      .ok none
    else (R.nextParents env closure v).map fun parents => some (saturatingAdd encodedBytes vertexBytes, parents)

def vertexKey (v : DagVertex) : Nat ×ₗ String ×ₗ List Nat :=
  toLex (v.round, toLex (v.author, v.id.map UInt8.toNat))

def sortVertices (vertices : List DagVertex) : List DagVertex :=
  vertices.mergeSort fun a b => decide (vertexKey a ≤ vertexKey b)

/-- Enough for every root and for the parents of every block. -/
def syncFuel (roots : List DagVertex) : Nat :=
  roots.length + (R.allBlocks.map (·.parents.length)).sum * R.allBlocks.length + 1

def checkpointVerticesForSync (checkpointVertices : List Bytes) (limit : Nat) :
    Option (Except String (List DagVertex)) :=
  if checkpointVertices.isEmpty then some (.ok [])
  else if limit = 0 then some (.error "Checkpoint DAG sync limit must be non-zero")
  else
    match do
      let recent ← R.recentVertices env
      checkpointVertices.mapM (R.resolveRoot recent) with
    | .error e => some (.error e)
    | .ok roots =>
      (worklist (·.id) (R.visit env checkpointVertices limit) (R.syncFuel roots) 0 [] roots).map
        (·.map sortVertices)

end BlockReader

end Kanari

import Kanari.CheckpointStore

/-!
# The node

A storage failure is the number of the write that fails; what fails before the first write leaves
the same traces as a failed first write.
-/

namespace Kanari

open Lib PersistentStore

structure Node (σ : Type) where
  chain : Blockchain
  state : σ
  store : Option (PersistentStore σ)
  mempool : MempoolState := {}

structure PreparedCheckpointState (σ : Type) where
  stateRoot : Bytes
  state : σ
  transactions : List SignedTransaction
  effects : List Bytes

variable {σ : Type} (cfg : NodeConfig) (env : AdmissionEnv) (E : StateEnv σ)

namespace Node

/-- In the replay window of the chain, or in the index of the store. -/
def tryIsTransactionCommitted (node : Node σ) (txHash : Bytes) : Bool :=
  node.chain.isTransactionHashExecuted txHash ||
    node.store.any fun s => (s.transactionIndex txHash).isSome

def getExpectedNonce (node : Node σ) (address : String) : Nat :=
  let committed := (node.store.map fun s =>
    MempoolState.cappedWatermark (countOf s.senderNonceWatermark (env.normalizeAddr address))).getD 0
  saturatingAdd (saturatingAdd (MempoolState.pendingTxCountForSender env node.mempool address) committed) 1

def prepareCheckpointState (node : Node σ) (c : Checkpoint) :
    Except String (PreparedCheckpointState σ) := do
  let state ← E.repairLegacyNativeWalletOvercount node.state
  let toExecute := c.transactions.filter fun tx => !node.tryIsTransactionCommitted (env.transactionHash tx)
  let state ← if c.transactions.isEmpty then .ok state else E.applySystemPrologue state c.timestamp
  let (state, effects) ← E.executeWaves state toExecute c.timestamp
  let state ← E.repairLegacyNativeWalletOvercount state
  let stateRoot ← E.stateRoot state
  return { stateRoot, state, transactions := toExecute, effects }

/-- The batch of the state commit: the state, the marker and, inline, the metadata. -/
def commitBatch (c : Checkpoint) (state : σ) (s : PersistentStore σ) : PersistentStore σ :=
  let s := if cfg.inlineCheckpointMetadata then persistCheckpoint cfg env true c s else s
  { s with state := some state, pendingCheckpointCommit := some c }

def clearMarker (s : PersistentStore σ) : PersistentStore σ := { s with pendingCheckpointCommit := none }

def metadataWrites (chain : Blockchain) (s : PersistentStore σ) :
    List (PersistentStore σ → PersistentStore σ) :=
  if cfg.inlineCheckpointMetadata then [] else persistBlockchainSnapshot cfg env chain s

/-- The checks before the commit; a root has to be given in full where there is a store. -/
def checkCommit (node : Node σ) (c : Checkpoint) (state : σ) (validateSupply : Bool) :
    Except String Unit := do
  if validateSupply then E.validateSupplyInvariants state
  if node.store.isSome then
    ensure (c.stateRoot.length == 32) "Verified state root must be 32 bytes"

def commitState (c : Checkpoint) (state : σ) (node : Node σ) : Node σ :=
  { node with state := state, store := node.store.map (commitBatch cfg env c state) }

/-- `finalize_checkpoint_metadata` and the deletion of the marker, on a node that has committed
the state of `c`. -/
def finalizeCheckpointMetadata (fault : Option Nat) (c : Checkpoint) (node : Node σ) :
    Except String Unit × Node σ :=
  match node.chain.addCheckpointWithValidation env.toHashEnv c true with
  | (.error e, _) => (.error e, node)
  | (.ok (), chain) =>
    let node := { node with chain := chain }
    let drained := node.mempool.dropCommitted (env.txHashes c)
    match node.store with
    | none => (.ok (), { node with mempool := drained })
    | some s =>
      let writes := metadataWrites cfg env chain s
      match fault with
      | none => (.ok (), { node with store := some (clearMarker (writeAll writes s)), mempool := drained })
      | some k =>
        if k < writes.length then
          (.error "Failed to persist blockchain metadata for checkpoint",
            { node with store := some (writeAll (writes.take k) s) })
        else
          (.error "Failed to clear durable checkpoint commit marker",
            { node with store := some (writeAll writes s), mempool := drained })

def finalizeCheckpoint (fault : Option Nat) (c : Checkpoint) (state : σ) (validateSupply : Bool)
    (node : Node σ) : Except String Unit × Node σ :=
  match node.checkCommit E c state validateSupply, fault with
  | .error e, _ => (.error e, node)
  | .ok (), some 0 => (.error "Failed to commit state and checkpoint marker to RocksDB", node)
  | .ok (), some (k + 1) => finalizeCheckpointMetadata cfg env (some k) c (node.commitState cfg env c state)
  | .ok (), none => finalizeCheckpointMetadata cfg env none c (node.commitState cfg env c state)

def ensureCheckpointRootMatches (c : Checkpoint) (computedRoot : Bytes) : Except String Unit :=
  ensure (computedRoot == c.stateRoot) s!"[ENGINE] State root mismatch for checkpoint {c.sequence}"

def verifyCheckpoint (node : Node σ) (c : Checkpoint) : Except String σ := do
  let prepared ← node.prepareCheckpointState env E c
  ensureCheckpointRootMatches c prepared.stateRoot
  return prepared.state

def applyCheckpoint (fault : Option Nat) (c : Checkpoint) (node : Node σ) : Except String Unit × Node σ :=
  match node.verifyCheckpoint env E c with
  | .error e => (.error e, node)
  | .ok state => finalizeCheckpoint cfg env E fault c state true node

/-- A marker left by a stopped commit: its checkpoint is appended, or is already the latest one. -/
def recoverMarker (chain : Blockchain) (c : Checkpoint) : Except String Blockchain :=
  if chain.height < c.sequence then
    match chain.addCheckpointWithValidation env.toHashEnv c true with
    | (.error e, _) => .error e
    | (.ok _, chain) => .ok chain
  else if chain.height = c.sequence then do
    let latestHash ← env.hash chain.latestCheckpoint
    let markerHash ← env.hash c
    ensure (latestHash == markerHash)
      s!"Pending checkpoint marker conflicts with persisted checkpoint {c.sequence}"
    return chain
  else .error s!"Pending checkpoint marker {c.sequence} is behind persisted chain height {chain.height}"

def openChain (requireRecoverableMetadata : Bool) (s : PersistentStore σ) :
    Except String (Blockchain × PersistentStore σ) := do
  let (chain, writes) ← loadBlockchain cfg env E requireRecoverableMetadata s
  let s := writeAll writes s
  match s.pendingCheckpointCommit with
  | none => return (chain, s)
  | some c =>
    let chain ← recoverMarker env chain c
    return (chain, clearMarker (writeAll (persistBlockchainSnapshot cfg env chain s) s))

def init (requireRecoverableMetadata : Bool) : Option (PersistentStore σ) → Except String (Node σ)
  | none => do
    let state ← loadState cfg E {}
    return { chain := Blockchain.new env.toHashEnv, state, store := none }
  | some s => do
    let (chain, s) ← openChain cfg env E requireRecoverableMetadata s
    let state ← s.loadState cfg E
    return { chain, state, store := some { s with state := some state } }

/-- A committed sub-DAG with its blocks in order. -/
structure CommittedBatch where
  vertices : List Bytes
  transactions : List SignedTransaction
  timestampMs : UInt64

structure CheckpointInfo where
  sequence : UInt64
  vertexCount : Nat
  txCount : Nat

def newTransactions (node : Node σ) : Finset Bytes → List SignedTransaction → List SignedTransaction
  | _, [] => []
  | seen, tx :: rest =>
    let txHash := env.transactionHash tx
    if txHash ∈ seen ∨ node.tryIsTransactionCommitted txHash = true then
      newTransactions node (insert txHash seen) rest
    else tx :: newTransactions node (insert txHash seen) rest

def prepareCommittedBatch (batch : CommittedBatch) (transactions : List SignedTransaction) (node : Node σ) :
    Except String (Checkpoint × σ) := do
  let latest := node.chain.latestCheckpoint
  let prevHash ← env.hash latest
  let c : Checkpoint := {
    sequence := UInt64.ofNat (saturatingAdd latest.sequence.toNat 1)
    vertices := batch.vertices
    transactions := transactions
    stateRoot := []
    timestamp := max batch.timestampMs (UInt64.ofNat (saturatingAdd latest.timestamp.toNat 1))
    prevCheckpointHash := prevHash }
  let prepared ← node.prepareCheckpointState env E c
  return ({ c with stateRoot := prepared.stateRoot, transactionEffects := prepared.effects }, prepared.state)

def finalizeCommittedBatch (fault : Option Nat) (batch : CommittedBatch) (node : Node σ) :
    Except String (Option Checkpoint) × Node σ :=
  match node.chain.dagCheckpoints.find? fun c => c.vertices == batch.vertices with
  | some existing => (.ok (some existing), node)
  | none =>
    let transactions := node.newTransactions env ∅ batch.transactions
    if transactions.isEmpty then (.ok none, node)
    else
      match node.prepareCommittedBatch env E batch transactions with
      | .error e => (.error e, node)
      | .ok (c, state) =>
        let out := finalizeCheckpoint cfg env E fault c state true node
        (out.1.map fun _ => some c, out.2)

/-- The loop over the batches, with one storage failure or none for each. -/
def finalizeBatches : List (Option Nat) → Option CheckpointInfo → List CommittedBatch → Node σ →
    Except String (Option CheckpointInfo) × Node σ
  | _, info, [], node => (.ok info, node)
  | faults, info, batch :: rest, node =>
    match finalizeCommittedBatch cfg env E (faults.head?.join) batch node with
    | (.error e, node) => (.error e, node)
    | (.ok none, node) => finalizeBatches faults.tail info rest node
    | (.ok (some c), node) =>
      finalizeBatches faults.tail (some ⟨c.sequence, c.vertices.length, c.transactions.length⟩) rest node

/-- The batches not acknowledged yet are offered again; only where there are none the consensus
is asked for those that are `ready`. -/
def tryCommittedBatches (pending ready : List CommittedBatch) : List CommittedBatch :=
  if pending.isEmpty then ready else pending

/-- Offered transactions are signed. -/
def checkBatches (batches : List CommittedBatch) : Except String Unit :=
  forOk (fun batch => forOk (fun tx => (env.verifiedTransactionHash tx).map fun _ => ()) batch.transactions) batches

/-- The result, the node and the batches that wait for an acknowledgement. -/
def finalizeReadyCommits (faults : List (Option Nat)) (ready : List CommittedBatch) (node : Node σ)
    (pending : List CommittedBatch) : Except String (Option CheckpointInfo) × Node σ × List CommittedBatch :=
  let batches := tryCommittedBatches pending ready
  match checkBatches env batches with
  | .error e => (.error e, node, batches)
  | .ok _ =>
    match finalizeBatches cfg env E faults none batches node with
    | (.error e, node) => (.error e, node, batches)
    | (.ok info, node) => (.ok info, node, [])

/-- What a submission reads of the node. -/
def admissionView (node : Node σ) : AdmissionView where
  pendingLen := node.mempool.pendingTxs.length
  tryIsTransactionCommitted := fun txHash => .ok (node.tryIsTransactionCommitted txHash)
  senderNonceWatermark := .ok ((node.store.map (·.senderNonceWatermark)).getD .empty)

end Node

end Kanari

import Kanari.Lib.Window
import Kanari.Transaction

/-!
# Checkpoints and the chain in memory

The hash functions and the encoding are fields of `HashEnv`; effects and object changes enter only
as their encodings.
-/

namespace Kanari

open Lib

def MAX_RETAINED_BLOCKS : Nat := 1000
def MAX_RETAINED_TX_HASHES : Nat := 2000000

structure SignedTransaction where
  transaction : Transaction
  signature : Bytes
  deriving DecidableEq

structure Checkpoint where
  sequence : UInt64
  vertices : List Bytes
  transactions : List SignedTransaction
  transactionEffects : List Bytes := []
  objectChanges : List Bytes := []
  objectGraphEdges : List Bytes := []
  stateRoot : Bytes
  timestamp : UInt64
  prevCheckpointHash : Bytes
  hashVersion : UInt8 := 2
  deriving DecidableEq

/-- What is encoded and hashed, by schema version. -/
inductive CheckpointPreimage where
  | legacy (sequence : UInt64) (txHashes : List Bytes) (stateRoot prevCheckpointHash : Bytes)
  | withObjects (hashVersion : UInt8) (sequence : UInt64) (vertices txHashes transactionEffects
      objectChanges objectGraphEdges : List Bytes) (stateRoot : Bytes) (timestamp : UInt64)
      (prevCheckpointHash : Bytes)
  | current (hashVersion : UInt8) (sequence : UInt64) (vertices txHashes transactionEffects :
      List Bytes) (stateRoot : Bytes) (timestamp : UInt64) (prevCheckpointHash : Bytes)
  deriving DecidableEq

structure HashEnv where
  txHash : Transaction → Bytes
  /-- The digest of the encoding; encoding may fail. -/
  hashPreimage : CheckpointPreimage → Except String Bytes
  emptyStateRoot : Bytes

namespace HashEnv

variable (H : HashEnv)

def transactionHash (tx : SignedTransaction) : Bytes := H.txHash tx.transaction

def txHashes (c : Checkpoint) : List Bytes := c.transactions.map H.transactionHash

def preimage (c : Checkpoint) : CheckpointPreimage :=
  if c.hashVersion = 0 then .legacy c.sequence (H.txHashes c) c.stateRoot c.prevCheckpointHash
  else if c.hashVersion = 1 then
    .withObjects c.hashVersion c.sequence c.vertices (H.txHashes c) c.transactionEffects
      c.objectChanges c.objectGraphEdges c.stateRoot c.timestamp c.prevCheckpointHash
  else
    .current c.hashVersion c.sequence c.vertices (H.txHashes c) c.transactionEffects c.stateRoot
      c.timestamp c.prevCheckpointHash

def hash (c : Checkpoint) : Except String Bytes := H.hashPreimage (H.preimage c)

def genesis : Checkpoint where
  sequence := 0
  vertices := []
  transactions := []
  stateRoot := H.emptyStateRoot
  timestamp := 0
  prevCheckpointHash := List.replicate 32 0
  hashVersion := 0

end HashEnv

/-- The chain in memory; a checkpoint is always there, at least genesis. -/
structure Blockchain where
  dagCheckpoints : List Checkpoint
  executedTxHashes : Finset Bytes := ∅
  txHashQueue : List Bytes := []
  txLocationIndex : Bytes → Option (UInt64 × Nat) := fun _ => none
  totalTransactionCount : Nat := 0
  nonempty : dagCheckpoints ≠ []

namespace Blockchain

variable (H : HashEnv)

def new : Blockchain where
  dagCheckpoints := [H.genesis]
  nonempty := List.cons_ne_nil _ _

def latestCheckpoint (chain : Blockchain) : Checkpoint := chain.dagCheckpoints.getLast chain.nonempty

def height (chain : Blockchain) : UInt64 := chain.latestCheckpoint.sequence

def isTransactionHashExecuted (chain : Blockchain) (txHash : Bytes) : Bool :=
  decide (txHash ∈ chain.executedTxHashes)

/-- The replay window: the set and the queue of the hashes kept, with their locations. -/
structure HashIndex where
  executedTxHashes : Finset Bytes
  txHashQueue : List Bytes
  txLocationIndex : Bytes → Option (UInt64 × Nat)
  totalTransactionCount : Nat

def hashIndex (chain : Blockchain) : HashIndex :=
  ⟨chain.executedTxHashes, chain.txHashQueue, chain.txLocationIndex, chain.totalTransactionCount⟩

def withHashIndex (chain : Blockchain) (index : HashIndex) : Blockchain :=
  { chain with
    executedTxHashes := index.executedTxHashes
    txHashQueue := index.txHashQueue
    txLocationIndex := index.txLocationIndex
    totalTransactionCount := index.totalTransactionCount }

namespace HashIndex

def record (sequence : UInt64) (index : HashIndex) (entry : Bytes × Nat) : HashIndex :=
  let index := if entry.1 ∈ index.executedTxHashes then index else
    { index with
      executedTxHashes := insert entry.1 index.executedTxHashes
      txHashQueue := index.txHashQueue ++ [entry.1]
      totalTransactionCount := saturatingAdd index.totalTransactionCount 1 }
  { index with txLocationIndex :=
      Function.update index.txLocationIndex entry.1 (some (sequence, entry.2)) }

def forgetOldest (index : HashIndex) : HashIndex :=
  match index.txHashQueue with
  | [] => index
  | old :: rest =>
    { index with
      executedTxHashes := index.executedTxHashes.erase old
      txHashQueue := rest
      txLocationIndex := Function.update index.txLocationIndex old none }

def trim : Nat → HashIndex → HashIndex
  | 0, index => index
  | fuel + 1, index =>
    if MAX_RETAINED_TX_HASHES < index.txHashQueue.length then trim fuel index.forgetOldest else index

end HashIndex

def trackCheckpointTransactions (chain : Blockchain) (c : Checkpoint) : Blockchain :=
  let index := ((H.txHashes c).zipIdx).foldl (HashIndex.record c.sequence) chain.hashIndex
  chain.withHashIndex (index.trim index.txHashQueue.length)

def HashIndex.recordTrimmed (sequence : UInt64) (index : HashIndex) (entry : Bytes × Nat) : HashIndex :=
  let index := index.record sequence entry
  index.trim index.txHashQueue.length

def rebuildTxHashIndex (chain : Blockchain) : Blockchain :=
  let index := chain.dagCheckpoints.foldl
    (fun index c => ((H.txHashes c).zipIdx).foldl (HashIndex.recordTrimmed c.sequence) index)
    ⟨∅, [], fun _ => none, 0⟩
  chain.withHashIndex
    { index with totalTransactionCount := max index.totalTransactionCount chain.totalTransactionCount }

def trimBehindGenesis : Nat → List Checkpoint → List Checkpoint
  | 0, rest => rest
  | fuel + 1, rest =>
    if MAX_RETAINED_BLOCKS < rest.length + 1 then trimBehindGenesis fuel rest.tail else rest

/-- Whether genesis had to be put back, the first checkpoint and the others. -/
def ensureGenesisRetained (checkpoints : List Checkpoint) : Bool × Checkpoint × List Checkpoint :=
  match checkpoints with
  | [] => (true, H.genesis, [])
  | first :: rest =>
    if first.sequence = 0 then (false, first, rest)
    else (true, H.genesis, trimBehindGenesis checkpoints.length checkpoints)

def checkTransactions (chain : Blockchain) : Finset Bytes → List Bytes → Except String Unit
  | _, [] => .ok ()
  | seen, txHash :: rest =>
    if txHash ∈ seen then .error "Duplicate transaction found within checkpoint"
    else if chain.isTransactionHashExecuted txHash then
      .error "Replay attack detected: Transaction already executed"
    else checkTransactions chain (insert txHash seen) rest

def validateNext (chain : Blockchain) (c : Checkpoint) : Except String Unit := do
  let expectedSeq := chain.latestCheckpoint.sequence + 1
  ensure (c.sequence == expectedSeq)
    s!"Invalid checkpoint sequence: expected {expectedSeq}, got {c.sequence}"
  let latestHash ← H.hash chain.latestCheckpoint
  ensure (c.prevCheckpointHash == latestHash) "Invalid previous checkpoint hash"
  chain.checkTransactions ∅ (H.txHashes c)

def evict (chain : Blockchain) : Blockchain :=
  match chain.dagCheckpoints with
  | first :: evicted :: rest =>
    if MAX_RETAINED_BLOCKS < (first :: evicted :: rest).length then
      { chain with
        dagCheckpoints := first :: rest
        txLocationIndex := fun txHash =>
          if txHash ∈ H.txHashes evicted then none else chain.txLocationIndex txHash
        nonempty := List.cons_ne_nil _ _ }
    else chain
  | _ => chain

def push (chain : Blockchain) (c : Checkpoint) : Blockchain :=
  { chain with
    dagCheckpoints := chain.dagCheckpoints ++ [c]
    nonempty := List.append_ne_nil_of_right_ne_nil _ (List.cons_ne_nil _ _) }

def append (chain : Blockchain) (c : Checkpoint) : Blockchain :=
  ((chain.trackCheckpointTransactions H c).push c).evict H

def addCheckpointWithValidation (chain : Blockchain) (c : Checkpoint) (validate : Bool) :
    Except String Unit × Blockchain :=
  match if validate then chain.validateNext H c else .ok () with
  | .error e => (.error e, chain)
  | .ok () => (.ok (), chain.append H c)

/-- The transaction, its checkpoint's sequence and state root, and its effects. -/
abbrev TransactionLocation := SignedTransaction × UInt64 × Bytes × Option Bytes

def getCheckpoint (chain : Blockchain) (sequence : UInt64) : Option Checkpoint :=
  chain.dagCheckpoints.find? fun c => c.sequence == sequence

def locateIn (txHash : Bytes) (c : Checkpoint) : Option TransactionLocation :=
  (c.transactions.zipIdx.find? fun e => H.transactionHash e.1 == txHash).map fun e =>
    (e.1, c.sequence, c.stateRoot, c.transactionEffects[e.2]?)

def scanTransactions (chain : Blockchain) (txHash : Bytes) : Option TransactionLocation :=
  chain.dagCheckpoints.reverse.findSome? (locateIn H txHash)

def indexedTransaction (chain : Blockchain) (txHash : Bytes) : Option TransactionLocation := do
  let (sequence, i) ← chain.txLocationIndex txHash
  let c ← chain.getCheckpoint sequence
  let tx ← c.transactions[i]?
  return (tx, c.sequence, c.stateRoot, c.transactionEffects[i]?)

def getTransactionLocationWithEffect (chain : Blockchain) (txHash : Bytes) :
    Option TransactionLocation :=
  (chain.indexedTransaction txHash).or (chain.scanTransactions H txHash)

end Blockchain

end Kanari

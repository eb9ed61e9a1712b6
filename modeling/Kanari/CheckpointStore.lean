import Kanari.Lib.Durable
import Kanari.Mempool

/-!
# Checkpoints in the persistent store

Persisting is a list of atomic writes; loading restores the chain from its serialized form or
replays the metadata. Records are kept decoded, under the sequence numbers of their keys; `σ` stands
for the state entries.
-/

namespace Kanari

open Lib

/-- The kind of database and the variables of the environment that decide what is persisted. -/
structure NodeConfig where
  rocksDb : Bool := true
  historyRetention : Option Nat := none
  persistTxHashIndex : Option Bool := none
  persistBlockchainJson : Option Bool := none
  /-- `supply_invariant_fail_fast_enabled`: unless set, on mainnet only. -/
  supplyInvariantFailFast : Bool := false

namespace NodeConfig

variable (cfg : NodeConfig)

def historyRetentionCheckpoints : Option Nat := cfg.historyRetention.filter (0 < ·)

def persistTransactionHashIndexEnabled : Bool :=
  cfg.persistTxHashIndex.getD (cfg.historyRetentionCheckpoints.isSome || !cfg.rocksDb)

def persistBlockchainJsonSnapshotEnabled : Bool := cfg.persistBlockchainJson.getD (!cfg.rocksDb)

def inlineCheckpointMetadata : Bool :=
  !cfg.persistBlockchainJsonSnapshotEnabled && cfg.historyRetentionCheckpoints.isNone

end NodeConfig

structure PersistedTransactionLocation where
  checkpointSequence : UInt64
  stateRoot : Bytes

/-- What is serialized of a chain. -/
structure ChainSnapshot where
  dagCheckpoints : List Checkpoint
  totalTransactionCount : Nat
  deriving DecidableEq

structure PersistentStore (σ : Type) where
  state : Option σ := none
  checkpointMetadata : OrdMap Nat Checkpoint := .empty
  checkpointMetadataJson : OrdMap Nat Checkpoint := .empty
  checkpointTransactions : OrdMap Nat (List SignedTransaction) := .empty
  transactionIndex : Bytes → Option PersistedTransactionLocation := fun _ => none
  senderNonceWatermark : OrdMap String Nat := .empty
  historyPersistedThrough : Option Nat := none
  historyPrunedThrough : Option Nat := none
  blockchainJson : Option ChainSnapshot := none
  /-- The binary form of older versions. -/
  blockchain : Option ChainSnapshot := none
  pendingCheckpointCommit : Option Checkpoint := none

/-- What the node asks of the state. -/
structure StateEnv (σ : Type) where
  /-- The state of an empty store after genesis. -/
  fresh : Except String σ
  stateRoot : σ → Except String Bytes
  validateSupplyInvariants : σ → Except String Unit
  /-- What opening a committed state makes of it: the schema is migrated, and the derived indexes,
  the native wallet supply and its index are repaired, with commits of their own. -/
  reopen : σ → σ
  /-- After the repairs nothing is left to repair. -/
  reopen_reopen : ∀ state, reopen (reopen state) = reopen state
  /-- Genesis goes through the same repairs. -/
  reopen_fresh : ∀ {state}, fresh = .ok state → reopen state = state
  repairLegacyNativeWalletOvercount : σ → Except String σ
  applySystemPrologue : σ → UInt64 → Except String σ
  /-- The wave executor, with the effects of the transactions. -/
  executeWaves : σ → List SignedTransaction → UInt64 → Except String (σ × List Bytes)

variable {σ : Type}

def checkpointWithoutTransactions (c : Checkpoint) : Checkpoint := { c with transactions := [] }

namespace PersistentStore

section Persist

variable (cfg : NodeConfig) (env : AdmissionEnv)

def indexTransactions (c : Checkpoint) (index : Bytes → Option PersistedTransactionLocation) :
    Bytes → Option PersistedTransactionLocation :=
  c.transactions.foldl (fun index tx =>
    Function.update index (env.transactionHash tx) (some ⟨c.sequence, c.stateRoot⟩)) index

/-- The highest nonce of each sender; marks out of range are dropped to zero first. -/
def raiseWatermark (c : Checkpoint) (watermark : OrdMap String Nat) : OrdMap String Nat :=
  c.transactions.foldl (fun watermark tx =>
      let sender := env.normalizeAddr tx.transaction.header.sender
      let nonce := tx.transaction.header.nonce
      if (watermark.find? sender).getD 0 < nonce then watermark.insert sender nonce else watermark)
    (watermark.mapValues MempoolState.cappedWatermark)

def persistCheckpoint (markHistoryPersisted : Bool) (c : Checkpoint) (s : PersistentStore σ) :
    PersistentStore σ :=
  let s := { s with
    checkpointMetadata := s.checkpointMetadata.insert c.sequence.toNat (checkpointWithoutTransactions c)
    checkpointMetadataJson := s.checkpointMetadataJson.erase c.sequence.toNat }
  let s := if c.transactions.isEmpty || c.sequence == 0 then s else
    { s with
      transactionIndex :=
        if cfg.persistTransactionHashIndexEnabled then indexTransactions env c s.transactionIndex
        else s.transactionIndex
      senderNonceWatermark := raiseWatermark env c s.senderNonceWatermark
      checkpointTransactions := s.checkpointTransactions.insert c.sequence.toNat c.transactions }
  if markHistoryPersisted then { s with historyPersistedThrough := some c.sequence.toNat } else s

def slimSnapshot (chain : Blockchain) : ChainSnapshot where
  dagCheckpoints := chain.dagCheckpoints.map fun c =>
    if c.transactions.isEmpty then c else checkpointWithoutTransactions c
  totalTransactionCount := chain.totalTransactionCount

def savePersistedThrough (height : Nat) (s : PersistentStore σ) : PersistentStore σ :=
  { s with historyPersistedThrough := some height }

def saveBlockchainJson (chain : Blockchain) (s : PersistentStore σ) : PersistentStore σ :=
  { s with blockchainJson :=
      if cfg.persistBlockchainJsonSnapshotEnabled then some (slimSnapshot chain) else none }

def deleteCheckpointTransactions (sequence : Nat) (s : PersistentStore σ) : PersistentStore σ :=
  { s with checkpointTransactions := s.checkpointTransactions.erase sequence }

def savePrunedThrough (through : Nat) (s : PersistentStore σ) : PersistentStore σ :=
  { s with historyPrunedThrough := some through }

def pruneTransactionPayloads (through : Nat) (s : PersistentStore σ) :
    List (PersistentStore σ → PersistentStore σ) :=
  let previous := s.historyPrunedThrough.getD 0
  if through = 0 ∨ through ≤ previous then []
  else (List.range' (previous + 1) (through - previous)).map deleteCheckpointTransactions ++
    [savePrunedThrough through]

/-- The retained checkpoints above the progress mark; a mark above the height counts as the height. -/
def unpersisted (chain : Blockchain) (s : PersistentStore σ) : List Checkpoint :=
  chain.dagCheckpoints.filter fun c =>
    s.historyPersistedThrough.all fun through => min through chain.height.toNat < c.sequence.toNat

def persistBlockchainSnapshot (chain : Blockchain) (s : PersistentStore σ) :
    List (PersistentStore σ → PersistentStore σ) :=
  (unpersisted chain s).map (persistCheckpoint cfg env false) ++
    [savePersistedThrough chain.height.toNat, saveBlockchainJson cfg chain] ++
    match cfg.historyRetentionCheckpoints with
    | some retention => pruneTransactionPayloads (chain.height.toNat - retention) s
    | none => []

end Persist

def loadCheckpointMetadata (s : PersistentStore σ) (sequence : Nat) : Option Checkpoint :=
  (s.checkpointMetadataJson.find? sequence).or (s.checkpointMetadata.find? sequence)

def loadCheckpointTransactions (s : PersistentStore σ) (sequence : Nat) :
    Option (List SignedTransaction) :=
  s.checkpointTransactions.find? sequence

def recoverCheckpointSequences (s : PersistentStore σ) : List Nat :=
  OrdSet.elems (OrdSet.addAll .empty
    (s.checkpointMetadata.keys ++ s.checkpointMetadataJson.keys ++ s.checkpointTransactions.keys))

section Load

variable (cfg : NodeConfig) (env : AdmissionEnv) (E : StateEnv σ)

def recoverMetadata (s : PersistentStore σ) (chain : Blockchain) (sequence : Nat) :
    Except String (Option Checkpoint) :=
  match s.loadCheckpointMetadata sequence, s.loadCheckpointTransactions sequence with
  | some c, _ => .ok (some c)
  | none, none => .ok none
  | none, some transactions => do
    let prevHash ← env.hash chain.latestCheckpoint
    return some {
      sequence := UInt64.ofNat sequence
      vertices := []
      transactions := transactions
      stateRoot := []
      timestamp := UInt64.ofNat (saturatingAdd chain.latestCheckpoint.timestamp.toNat 1)
      prevCheckpointHash := prevHash }

def attachTransactions (s : PersistentStore σ) (sequence : Nat) (c : Checkpoint) : Checkpoint :=
  if c.transactions.isEmpty then
    { c with transactions := (s.loadCheckpointTransactions sequence).getD c.transactions }
  else c

/-- The replay of the stored checkpoints; the first one that does not fit ends it with nothing. -/
def recoverFrom (s : PersistentStore σ) : Blockchain → List Nat → Except String (Option Blockchain)
  | chain, [] => .ok (some chain)
  | chain, sequence :: rest =>
    if sequence = 0 then recoverFrom s chain rest
    else do
      match ← recoverMetadata env s chain sequence with
      | none => return none
      | some c =>
        match chain.addCheckpointWithValidation env.toHashEnv (s.attachTransactions sequence c) true with
        | (.error _, _) => return none
        | (.ok _, chain) => recoverFrom s chain rest

def recoverBlockchainFromCheckpointStore (s : PersistentStore σ) : Except String (Option Blockchain) := do
  let sequences := s.recoverCheckpointSequences
  if sequences.isEmpty then return none
  let recovered ← recoverFrom env s (Blockchain.new env.toHashEnv) sequences
  return recovered.map (Blockchain.rebuildTxHashIndex env.toHashEnv)

def hydrate (s : PersistentStore σ) (c : Checkpoint) : Checkpoint :=
  if c.sequence = 0 then c else s.attachTransactions c.sequence.toNat c

/-- A serialized chain with its transactions put back, and whether genesis was missing. -/
def restoreBlockchain (s : PersistentStore σ) (snapshot : ChainSnapshot) : Bool × Blockchain :=
  let (repaired, first, rest) :=
    Blockchain.ensureGenesisRetained env.toHashEnv snapshot.dagCheckpoints
  let chain : Blockchain :=
    { dagCheckpoints := s.hydrate first :: rest.map s.hydrate
      totalTransactionCount := snapshot.totalTransactionCount
      nonempty := List.cons_ne_nil _ _ }
  (repaired, chain.rebuildTxHashIndex env.toHashEnv)

def hasLogicalEntries (s : PersistentStore σ) : Bool :=
  s.state.isSome || !s.recoverCheckpointSequences.isEmpty || s.historyPersistedThrough.isSome ||
    s.blockchainJson.isSome || s.blockchain.isSome || s.pendingCheckpointCommit.isSome

/-- `StateManager::try_new`: a store without state gets that of genesis, another one is reopened;
a violated supply invariant refuses the state where it has to, and is logged elsewhere. -/
def loadState (s : PersistentStore σ) : Except String σ := do
  let state ← match s.state with
    | none => E.fresh
    | some state => .ok (E.reopen state)
  if cfg.supplyInvariantFailFast then E.validateSupplyInvariants state
  return state

def canUseFreshGenesisMetadata (s : PersistentStore σ) : Except String Bool :=
  if !s.hasLogicalEntries || s.pendingCheckpointCommit.isSome then .ok true
  else do
    let state ← s.loadState cfg E
    let stateRoot ← E.stateRoot state
    let freshState ← loadState cfg E {}
    let freshRoot ← E.stateRoot freshState
    return stateRoot == freshRoot

def freshGenesisIfAllowed (requireRecoverableMetadata : Bool) (s : PersistentStore σ) :
    Except String Blockchain := do
  if requireRecoverableMetadata then
    let allowed ← s.canUseFreshGenesisMetadata cfg E
    ensure allowed ("Refusing to create fresh genesis because persistent store contains state but " ++
      "blockchain metadata could not be recovered: no blockchain metadata or checkpoint recovery records " ++
      "were present")
  return Blockchain.new env.toHashEnv

/-- The chain of the store, and the writes that normalise the store on the way. -/
def loadBlockchain (requireRecoverableMetadata : Bool) (s : PersistentStore σ) :
    Except String (Blockchain × List (PersistentStore σ → PersistentStore σ)) :=
  match s.blockchainJson.or s.blockchain with
  | some snapshot =>
    let (repaired, chain) := restoreBlockchain env s snapshot
    .ok (chain, if repaired then persistBlockchainSnapshot cfg env chain s else [])
  | none => do
    match ← recoverBlockchainFromCheckpointStore env s with
    | some chain => return (chain, persistBlockchainSnapshot cfg env chain s)
    | none =>
      let chain ← freshGenesisIfAllowed cfg env E requireRecoverableMetadata s
      return (chain, [])

end Load

end PersistentStore

end Kanari

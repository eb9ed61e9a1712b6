import Kanari.Node

/-!
# State snapshots

How raw entries are read as records, and what their digest is, are fields of `SnapshotEnv`.
-/

namespace Kanari

open Lib

def STATE_SNAPSHOT_FORMAT_VERSION : Nat := 2
def GENESIS_MANIFEST_FORMAT_VERSION : Nat := 1
def STATE_SCHEMA_VERSION : String := "canonical-state-root-v1"
def PROTOCOL_VERSION : String := "0.3.0"

structure GenesisManifest where
  formatVersion : Nat
  network : String
  protocolVersion : String
  stateSchemaVersion : String
  genesisCheckpointHash : String
  genesisStateRoot : String

structure SnapshotEntry where
  key : String
  value : String

structure StateSnapshot where
  formatVersion : Nat
  network : String
  genesis : GenesisManifest
  checkpointHeight : UInt64
  checkpointHash : String
  /-- The root recorded in the checkpoint, before any migration. -/
  checkpointStateRoot : String
  stateRoot : String
  stateRootMigrated : Bool
  entriesHash : String
  entries : List SnapshotEntry

structure SnapshotEnv (σ : Type) where
  snapshotEntriesHash : List SnapshotEntry → Except String String
  /-- The store that holds these raw entries. -/
  openStore : List (Bytes × Bytes) → PersistentStore σ
  /-- The raw entries behind a node. -/
  logicalEntries : Node σ → Except String (List (Bytes × Bytes))

def hexText (bytes : Bytes) : String := String.ofList (Hex.encode bytes)

def decodeHexText (text message : String) : Except String Bytes := orError (Hex.decode text.toList) message

/-- Missing or unreadable minor and patch numbers count as zero. -/
def parseVersion (version : String) : Option (Nat × Nat × Nat) :=
  let parts := version.toList.splitOn '.'
  let number := fun (i : Nat) => (parts[i]?).bind (Text.parseUnsigned 64)
  (number 0).map fun major => (major, (number 1).getD 0, (number 2).getD 0)

def compatibleProtocolVersion (manifest localVersion : String) : Bool :=
  match parseVersion manifest, parseVersion localVersion with
  | some (major, minor, patch), some (localMajor, localMinor, localPatch) =>
    major == localMajor && minor == localMinor && decide (patch ≤ localPatch)
  | _, _ => manifest == localVersion

def checkpointHashHex (H : HashEnv) (c : Checkpoint) : String :=
  match H.hash c with
  | .ok digest => hexText digest
  | .error _ => ""

def genesisManifest (H : HashEnv) (chain : Blockchain) (network : String) : Except String GenesisManifest := do
  let genesis ← orError (chain.dagCheckpoints.find? fun c => c.sequence == 0) "Genesis checkpoint is missing"
  return {
    formatVersion := GENESIS_MANIFEST_FORMAT_VERSION
    network := network
    protocolVersion := PROTOCOL_VERSION
    stateSchemaVersion := STATE_SCHEMA_VERSION
    genesisCheckpointHash := checkpointHashHex H genesis
    genesisStateRoot := hexText genesis.stateRoot }

def validateGenesisManifest (H : HashEnv) (chain : Blockchain) (manifest : GenesisManifest) (network : String) :
    Except String Unit := do
  ensure (manifest.formatVersion == GENESIS_MANIFEST_FORMAT_VERSION)
    s!"Unsupported genesis manifest format: {manifest.formatVersion}"
  ensure (manifest.network == network)
    s!"Genesis network mismatch: manifest={manifest.network}, local={network}"
  ensure (compatibleProtocolVersion manifest.protocolVersion PROTOCOL_VERSION)
    s!"Genesis protocol version incompatible: manifest={manifest.protocolVersion}, local={PROTOCOL_VERSION}"
  ensure (manifest.stateSchemaVersion == STATE_SCHEMA_VERSION)
    s!"Genesis state schema mismatch: manifest={manifest.stateSchemaVersion}, local={STATE_SCHEMA_VERSION}"
  let localManifest ← genesisManifest H chain network
  ensure (manifest.genesisCheckpointHash == localManifest.genesisCheckpointHash)
    (s!"Genesis checkpoint hash mismatch: manifest={manifest.genesisCheckpointHash}, " ++
      s!"local={localManifest.genesisCheckpointHash}")
  ensure (manifest.genesisStateRoot == localManifest.genesisStateRoot)
    s!"Genesis state root mismatch: manifest={manifest.genesisStateRoot}, local={localManifest.genesisStateRoot}"

variable {σ : Type} (cfg : NodeConfig) (env : AdmissionEnv) (E : StateEnv σ) (S : SnapshotEnv σ)

/-- `overlay` is what the state holds that is not yet written to its store. -/
def exportStateSnapshotWithOptions (node : Node σ) (overlay : List (Bytes × Bytes)) (network : String)
    (allowStateRootMigration : Bool) : Except String StateSnapshot := do
  let genesis ← genesisManifest env.toHashEnv node.chain network
  let checkpoint := node.chain.latestCheckpoint
  ensure overlay.isEmpty "Cannot export snapshot while state has uncommitted changes"
  let currentStateRoot ← E.stateRoot node.state
  let stateRootMigrated := decide (0 < checkpoint.sequence) && checkpoint.stateRoot != currentStateRoot
  ensure (!stateRootMigrated || allowStateRootMigration)
    (s!"Cannot export snapshot: checkpoint state root does not match committed state " ++
      s!"(height={checkpoint.sequence}, checkpoint={hexText checkpoint.stateRoot}, " ++
      s!"computed={hexText currentStateRoot}); rerun with --allow-state-root-migration only after " ++
      "auditing the legacy database")
  let raw ← S.logicalEntries node
  let entries := raw.map fun e => SnapshotEntry.mk (hexText e.1) (hexText e.2)
  let checkpointHash ← env.hash checkpoint
  let entriesHash ← S.snapshotEntriesHash entries
  return {
    formatVersion := STATE_SNAPSHOT_FORMAT_VERSION
    network := network
    genesis := genesis
    checkpointHeight := checkpoint.sequence
    checkpointHash := hexText checkpointHash
    checkpointStateRoot := hexText checkpoint.stateRoot
    stateRoot := hexText currentStateRoot
    stateRootMigrated := stateRootMigrated
    entriesHash := entriesHash
    entries := entries }

/-- Pinned hashes may be written with blanks, `0x` and capitals. -/
def normalizeHash (hash : String) : List Char :=
  (AdmissionEnv.trimStart0x (Text.trim hash.toList)).map Char.toLower

def decodeEntry (entry : SnapshotEntry) : Except String (Bytes × Bytes) := do
  let key ← decodeHexText entry.key s!"Invalid snapshot key {entry.key}"
  let value ← decodeHexText entry.value s!"Invalid snapshot value for key {entry.key}"
  return (key, value)

def checkPinnedHash (snapshot : StateSnapshot) : Option String → Except String Unit
  | some expected => ensure (normalizeHash snapshot.checkpointHash == normalizeHash expected)
      "Snapshot checkpoint hash does not match the externally trusted hash"
  | none => .ok ()

def readSnapshot (snapshot : StateSnapshot) (network : String) (expectedCheckpointHash : Option String) :
    Except String (Bytes × List (Bytes × Bytes)) := do
  ensure (snapshot.formatVersion == STATE_SNAPSHOT_FORMAT_VERSION)
    s!"Unsupported state snapshot format: {snapshot.formatVersion}"
  ensure (snapshot.network == network)
    s!"Snapshot network mismatch: snapshot={snapshot.network}, local={network}"
  checkPinnedHash snapshot expectedCheckpointHash
  let verifier ← Node.init cfg env E false none
  validateGenesisManifest env.toHashEnv verifier.chain snapshot.genesis network
  let entriesHash ← S.snapshotEntriesHash snapshot.entries
  ensure (snapshot.entriesHash == entriesHash) "State snapshot entries hash mismatch"
  let checkpointStateRoot ← decodeHexText snapshot.checkpointStateRoot "Invalid checkpoint state root in snapshot"
  let stateRoot ← decodeHexText snapshot.stateRoot "Invalid state root in snapshot"
  ensure (snapshot.checkpointHeight == 0 || snapshot.stateRootMigrated || checkpointStateRoot == stateRoot)
    "Snapshot root metadata is inconsistent"
  let updates ← snapshot.entries.mapM decodeEntry
  return (checkpointStateRoot, updates)

def checkImported (snapshot : StateSnapshot) (checkpointStateRoot : Bytes) (imported : Node σ) :
    Except String Unit := do
  let checkpoint := imported.chain.latestCheckpoint
  ensure (checkpoint.sequence == snapshot.checkpointHeight) "Imported snapshot height mismatch"
  let checkpointHash ← env.hash checkpoint
  ensure (hexText checkpointHash == snapshot.checkpointHash) "Imported snapshot checkpoint hash mismatch"
  ensure (checkpoint.stateRoot == checkpointStateRoot) "Imported snapshot checkpoint state root mismatch"
  let root ← E.stateRoot imported.state
  ensure (hexText root == snapshot.stateRoot)
    s!"Imported snapshot state root mismatch: snapshot={snapshot.stateRoot}, imported={hexText root}"

/-- The node that was started on the imported entries; `target` is what the data directory held. -/
def importStateSnapshotInner (snapshot : StateSnapshot) (target : List (Bytes × Bytes)) (network : String)
    (expectedCheckpointHash : Option String) : Except String (Node σ) := do
  let (checkpointStateRoot, updates) ← readSnapshot cfg env E S snapshot network expectedCheckpointHash
  ensure target.isEmpty "Refusing to import snapshot into a non-empty data directory"
  let imported ← Node.init cfg env E false (some (S.openStore updates))
  checkImported env E snapshot checkpointStateRoot imported
  return imported

def importStateSnapshot (snapshot : StateSnapshot) (target : List (Bytes × Bytes)) (network : String)
    (expectedCheckpointHash : String) : Except String (Node σ) :=
  importStateSnapshotInner cfg env E S snapshot target network (some expectedCheckpointHash)

end Kanari

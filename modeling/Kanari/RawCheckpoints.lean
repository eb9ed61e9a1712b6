import Kanari.CheckpointStore

/-!
# Checkpoint records as bytes

`checkpoint_persistence_raw_changes` and its readers on a store of raw records. The encodings are a
parameter.
-/

namespace Kanari

open Lib

namespace Checkpoint

def new (sequence : UInt64) (vertices : List Bytes) (transactions : List SignedTransaction)
    (stateRoot : Bytes) (timestamp : UInt64) (prevCheckpointHash : Bytes) : Checkpoint where
  hashVersion := 2
  sequence := sequence
  vertices := vertices
  transactions := transactions
  transactionEffects := []
  objectChanges := []
  objectGraphEdges := []
  stateRoot := stateRoot
  timestamp := timestamp
  prevCheckpointHash := prevCheckpointHash

def withTransactionEffects (c : Checkpoint) (effects : List Bytes) : Checkpoint :=
  { c with transactionEffects := effects }

def withObjectChanges (c : Checkpoint) (objectChanges : List Bytes) : Checkpoint :=
  { c with objectChanges := objectChanges }

def withObjectGraphEdges (c : Checkpoint) (objectGraphEdges : List Bytes) : Checkpoint :=
  { c with objectGraphEdges := objectGraphEdges }

/-- `checkpoint_without_transactions`: built anew, the hash version set back at the end. -/
def stripped (c : Checkpoint) : Checkpoint :=
  { (new c.sequence c.vertices [] c.stateRoot c.timestamp c.prevCheckpointHash
      |>.withTransactionEffects c.transactionEffects
      |>.withObjectChanges c.objectChanges
      |>.withObjectGraphEdges c.objectGraphEdges) with hashVersion := c.hashVersion }

end Checkpoint

structure LegacyCheckpointMetadata where
  sequence : UInt64
  vertices : List Bytes
  transactions : List SignedTransaction
  stateRoot : Bytes
  timestamp : UInt64
  prevCheckpointHash : Bytes

/-- The encodings of the records. -/
structure StoreCodec where
  encodeCheckpoint : Checkpoint → Except String Bytes
  decodeCheckpoint : Bytes → Except String Checkpoint
  decodeLegacy : Bytes → Except String LegacyCheckpointMetadata
  /-- The JSON record: a byte string, then the text in it. -/
  decodeJson : Bytes → Except String Checkpoint
  encodeTransactions : List SignedTransaction → Except String Bytes
  decodeTransactions : Bytes → Except String (List SignedTransaction)
  encodeLocation : PersistedTransactionLocation → Except String Bytes
  encodeHashes : List Bytes → Except String Bytes
  decodeHashes : Bytes → Except String (List Bytes)
  encodeWatermark : OrdMap String Nat → Except String Bytes
  decodeWatermark : Bytes → Except String (OrdMap String Nat)
  encodeSequence : UInt64 → Except String Bytes
  checkpoint_roundTrip : ∀ c bytes, encodeCheckpoint c = .ok bytes → decodeCheckpoint bytes = .ok c
  transactions_roundTrip : ∀ txs bytes, encodeTransactions txs = .ok bytes → decodeTransactions bytes = .ok txs

abbrev RawKey := List Char

abbrev RawStore := RawKey → Option Bytes

/-- Decimal, filled up with zeros to twenty digits. -/
def paddedSequence (sequence : UInt64) : RawKey :=
  let digits := Nat.toDigits 10 sequence.toNat
  List.replicate (20 - digits.length) '0' ++ digits

def checkpointTransactionsKey (sequence : UInt64) : RawKey := "checkpoint_txs/".toList ++ paddedSequence sequence

def checkpointMetadataKey (sequence : UInt64) : RawKey := "checkpoint_meta/".toList ++ paddedSequence sequence

def checkpointMetadataJsonKey (sequence : UInt64) : RawKey :=
  "checkpoint_meta_json_v1/".toList ++ paddedSequence sequence

def transactionIndexKey (txHash : Bytes) : RawKey := "tx_index/".toList ++ Hex.encode txHash

def recentTransactionHashesKey : RawKey := "tx_recent".toList

def senderNonceWatermarkKey : RawKey := "sender_nonce_watermark_v1".toList

def historyPersistedThroughKey : RawKey := "runtime:history_persisted_through".toList

def MAX_PERSISTED_RECENT_TX_HASHES : Nat := 100000

namespace RawStore

def put (store : RawStore) (e : RawKey × Bytes) : RawStore := Function.update store e.1 (some e.2)

def delete (store : RawStore) (key : RawKey) : RawStore := Function.update store key none

/-- Updates in order, then deletes. -/
def applyRawChanges (store : RawStore) (updates : List (RawKey × Bytes)) (deletes : List RawKey) : RawStore :=
  deletes.foldl delete (updates.foldl put store)

section Changes

variable (codec : StoreCodec) (env : AdmissionEnv) (persistHashIndex : Bool)

def loadRecentTransactionHashesForUpdate (store : RawStore) : Except String (List Bytes) :=
  match store recentTransactionHashesKey with
  | none => .ok []
  | some bytes => do
    let hashes ← codec.decodeHashes bytes
    forOk (fun (hash : Bytes) => ensure (hash.length == 32)
      s!"Recent transaction index contains invalid hash length {hash.length}") hashes
    return hashes

def loadSenderNonceWatermark (store : RawStore) : Except String (OrdMap String Nat) :=
  match store senderNonceWatermarkKey with
  | none => .ok .empty
  | some bytes => codec.decodeWatermark bytes

def indexUpdates (c : Checkpoint) : Except String (List (RawKey × Bytes)) :=
  if persistHashIndex then c.transactions.mapM fun tx => do
    let location ← codec.encodeLocation ⟨c.sequence, c.stateRoot⟩
    return (transactionIndexKey (env.transactionHash tx), location)
  else .ok []

def recentAfter (c : Checkpoint) (recent : List Bytes) : List Bytes :=
  let recent := (env.txHashes c).foldl (fun recent h => if h ∈ recent then recent else recent ++ [h]) recent
  recent.drop (recent.length - MAX_PERSISTED_RECENT_TX_HASHES)

def markUpdates (c : Checkpoint) (markHistoryPersisted : Bool) : Except String (List (RawKey × Bytes)) :=
  if markHistoryPersisted then do
    let bytes ← codec.encodeSequence c.sequence
    return [(historyPersistedThroughKey, bytes)]
  else .ok []

def transactionUpdates (store : RawStore) (c : Checkpoint) : Except String (List (RawKey × Bytes)) :=
  if c.transactions.isEmpty || c.sequence == 0 then .ok [] else do
  let recent ← loadRecentTransactionHashesForUpdate codec store
  let index ← indexUpdates codec env persistHashIndex c
  let recentBytes ← codec.encodeHashes (recentAfter env c recent)
  let watermark ← loadSenderNonceWatermark codec store
  let watermarkBytes ← codec.encodeWatermark (PersistentStore.raiseWatermark env c watermark)
  let payload ← codec.encodeTransactions c.transactions
  return index ++ [(recentTransactionHashesKey, recentBytes), (senderNonceWatermarkKey, watermarkBytes),
    (checkpointTransactionsKey c.sequence, payload)]

def checkpointPersistenceRawChanges (store : RawStore) (c : Checkpoint) (markHistoryPersisted : Bool) :
    Except String (List (RawKey × Bytes) × List RawKey) := do
  let metadata ← codec.encodeCheckpoint c.stripped
  let transactions ← transactionUpdates codec env persistHashIndex store c
  let mark ← markUpdates codec c markHistoryPersisted
  return ((checkpointMetadataKey c.sequence, metadata) :: transactions ++ mark,
    [checkpointMetadataJsonKey c.sequence])

end Changes

section Load

variable (codec : StoreCodec)

def loadCheckpointRecord (store : RawStore) (sequence : UInt64) : Option Checkpoint :=
  (store (checkpointMetadataKey sequence)).bind fun bytes =>
    match codec.decodeCheckpoint bytes with
    | .ok c => some c
    | .error _ => (codec.decodeLegacy bytes).toOption.map fun legacy =>
      Checkpoint.new legacy.sequence legacy.vertices legacy.transactions legacy.stateRoot
        legacy.timestamp legacy.prevCheckpointHash

/-- The JSON record first, if there is one and it can be read. -/
def loadCheckpointMetadata (store : RawStore) (sequence : UInt64) : Option Checkpoint :=
  ((store (checkpointMetadataJsonKey sequence)).bind fun bytes => (codec.decodeJson bytes).toOption).or
    (loadCheckpointRecord codec store sequence)

def loadCheckpointTransactions (store : RawStore) (sequence : UInt64) : Option (List SignedTransaction) :=
  (store (checkpointTransactionsKey sequence)).bind fun bytes => (codec.decodeTransactions bytes).toOption

def recoverCheckpoint (store : RawStore) (sequence : UInt64) : Option Checkpoint :=
  (loadCheckpointMetadata codec store sequence).map fun c =>
    if c.transactions.isEmpty then
      { c with transactions := (loadCheckpointTransactions codec store sequence).getD c.transactions }
    else c

end Load

end RawStore

end Kanari

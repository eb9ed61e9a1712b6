import Kanari.ChangeSet
import Kanari.Lib.AssocMap
import Kanari.Lib.ByteStream
import Kanari.Lib.Slots

/-!
# Chunked messages between peers

The receiver collects chunks per sender and hash, for a limited time and within limits. Compression,
encoding and hash are those of a `P2PEnv`; what is published is returned as a list.
-/

namespace Kanari

open Lib

inductive P2PTopicKind where
  | checkpoint
  | transaction
  | peer
  | dagVertex
deriving DecidableEq

structure P2PMessageChunk where
  transferId : Vector UInt8 32
  topic : P2PTopicKind
  index : UInt16
  total : UInt16
  data : Bytes
deriving DecidableEq

structure PeerInfoMsg where
  height : UInt64
  peerId : String
  timestamp : UInt64
  latestCheckpointHash : String
  latestStateRoot : String
  totalTransactions : Nat
deriving DecidableEq

structure DagVertexMsg where
  vertexData : String
  nonce : UInt64
  senderPeerId : String
deriving DecidableEq

structure DagVertexRequestMsg where
  requesterPeerId : String
  parentRound : UInt64
  timestamp : UInt64
  limit : UInt64
deriving DecidableEq

structure DagVertexResponseMsg where
  requesterPeerId : String
  responderPeerId : String
  requestTimestamp : UInt64
  parentRound : UInt64
  vertexData : List String
deriving DecidableEq

structure CheckpointRequestMsg where
  sequence : UInt64
  timestamp : UInt64
  requesterPeerId : String
  responderPeerId : String
deriving DecidableEq

structure CheckpointResponseMsg where
  sequence : UInt64
  requestTimestamp : UInt64
  requesterPeerId : String
  responderPeerId : String
  checkpointData : String
deriving DecidableEq

structure CompressedCheckpointResponseMsg where
  sequence : UInt64
  requestTimestamp : UInt64
  requesterPeerId : String
  responderPeerId : String
  compressedCheckpointData : Bytes
deriving DecidableEq

inductive P2PMessage where
  | newTransaction (data : String)
  | newCheckpoint (data : String)
  | newDagVertex (data : String)
  | dagVertexRebroadcast (msg : DagVertexMsg)
  | dagVertexRequest (req : DagVertexRequestMsg)
  | dagVertexResponse (resp : DagVertexResponseMsg)
  | checkpointRequest (sequence timestamp : UInt64)
  | checkpointResponse (data : String)
  | targetedCheckpointRequest (req : CheckpointRequestMsg)
  | targetedCheckpointResponse (resp : CheckpointResponseMsg)
  | peerInfo (info : PeerInfoMsg)
  | compressedCheckpoint (data : Bytes)
  | compressedDagVertex (data : Bytes)
  | compressedCheckpointResponse (data : Bytes)
  | compressedTargetedCheckpointResponse (resp : CompressedCheckpointResponseMsg)
  | chunk (chunk : P2PMessageChunk)
deriving DecidableEq

def P2PMessage.isChunk : P2PMessage → Bool
  | .chunk _ => true
  | _ => false

def LARGE_MESSAGE_COMPRESSION_THRESHOLD : Nat := 100000
def MAX_GOSSIP_MESSAGE_SIZE : Nat := 4 * 1024 * 1024
def P2P_CHUNK_SIZE : Nat := 512 * 1024
def MAX_CHUNKED_PAYLOAD_SIZE : Nat := 32 * 1024 * 1024
def MAX_CHUNKS_PER_PAYLOAD : Nat := 64

/-- Thirty seconds, in nanoseconds. -/
def CHUNK_TTL : Nat := 30 * 10 ^ 9

structure P2PEnv where
  gzipString : String → Except String Bytes
  encode : P2PMessage → Except String Bytes
  /-- The message and the number of bytes that were read for it. -/
  decode : Bytes → Except String (P2PMessage × Nat)
  hashDataBlake3 : Bytes → Vector UInt8 32
  decode_encode : ∀ {msg data}, encode msg = .ok data → decode data = .ok (msg, data.length)

def messageTopicKind : P2PMessage → P2PTopicKind
  | .newCheckpoint _ | .checkpointResponse _ | .checkpointRequest _ _
  | .targetedCheckpointRequest _ | .targetedCheckpointResponse _ | .compressedCheckpoint _
  | .compressedCheckpointResponse _ | .compressedTargetedCheckpointResponse _ => .checkpoint
  | .newTransaction _ => .transaction
  | .peerInfo _ => .peer
  | .newDagVertex _ | .dagVertexRebroadcast _ | .dagVertexRequest _ | .dagVertexResponse _
  | .compressedDagVertex _ => .dagVertex
  | .chunk chunk => chunk.topic

def compressLargeMessage (E : P2PEnv) : P2PMessage → Except String P2PMessage
  | .newCheckpoint data =>
    if data.utf8ByteSize > LARGE_MESSAGE_COMPRESSION_THRESHOLD then do
      return .compressedCheckpoint (← E.gzipString data)
    else .ok (.newCheckpoint data)
  | .newDagVertex data =>
    if data.utf8ByteSize > LARGE_MESSAGE_COMPRESSION_THRESHOLD then do
      return .compressedDagVertex (← E.gzipString data)
    else .ok (.newDagVertex data)
  | .dagVertexRebroadcast msg =>
    if msg.vertexData.utf8ByteSize > LARGE_MESSAGE_COMPRESSION_THRESHOLD then do
      return .compressedDagVertex (← E.gzipString msg.vertexData)
    else .ok (.dagVertexRebroadcast msg)
  | .checkpointResponse data =>
    if data.utf8ByteSize > LARGE_MESSAGE_COMPRESSION_THRESHOLD then do
      return .compressedCheckpointResponse (← E.gzipString data)
    else .ok (.checkpointResponse data)
  | .targetedCheckpointResponse resp =>
    if resp.checkpointData.utf8ByteSize > LARGE_MESSAGE_COMPRESSION_THRESHOLD then do
      let compressedCheckpointData ← E.gzipString resp.checkpointData
      return .compressedTargetedCheckpointResponse
        { sequence := resp.sequence
          requestTimestamp := resp.requestTimestamp
          requesterPeerId := resp.requesterPeerId
          responderPeerId := resp.responderPeerId
          compressedCheckpointData := compressedCheckpointData }
    else .ok (.targetedCheckpointResponse resp)
  | other => .ok other

/-- What was handed to the gossip layer so far. -/
abbrev Published := List (P2PTopicKind × Bytes)

/-- The answer of the gossip layer to a publication, after those before. -/
abbrev GossipPublish := Published → P2PTopicKind × Bytes → Except String Unit

def isDuplicatePublishError (e : String) : Bool :=
  ChangeSet.containsText "Duplicate".toList e.toList ||
    ChangeSet.containsText "duplicate".toList e.toList

def isInsufficientPeersError (e : String) : Bool :=
  ChangeSet.containsText "InsufficientPeers".toList e.toList

def publishEncoded (publish : GossipPublish) (sent : Published) (topic : P2PTopicKind)
    (data : Bytes) : Except String Published :=
  match publish sent (topic, data) with
  | .ok () => .ok (sent ++ [(topic, data)])
  | .error e =>
    if isDuplicatePublishError e then .ok (sent ++ [(topic, data)])
    else if isInsufficientPeersError e then .ok (sent ++ [(topic, data)])
    else .error s!"Failed to publish P2P message: {e}"

def messageChunks (E : P2PEnv) (topicKind : P2PTopicKind) (data : Bytes) : List P2PMessageChunk :=
  let total := (data.length + P2P_CHUNK_SIZE - 1) / P2P_CHUNK_SIZE
  let transferId := E.hashDataBlake3 data
  (chunks P2P_CHUNK_SIZE data).mapIdx fun index bytes =>
    { transferId := transferId
      topic := topicKind
      index := .ofNat index
      total := .ofNat total
      data := bytes }

def publishChunks (E : P2PEnv) (publish : GossipPublish) (sent : Published) :
    List P2PMessageChunk → Except String Published
  | [] => .ok sent
  | chunk :: rest => do
    let encoded ← mapError (fun e => s!"Failed to encode P2P chunk: {e}") (E.encode (.chunk chunk))
    let sent ← publishEncoded publish sent (messageTopicKind (.chunk chunk)) encoded
    publishChunks E publish sent rest

def publishMessage (E : P2PEnv) (publish : GossipPublish) (sent : Published) (msg : P2PMessage) :
    Except String Published := do
  let finalMsg ← compressLargeMessage E msg
  let data ← mapError (fun e => s!"Failed to encode message: {e}") (E.encode finalMsg)
  if data.length > MAX_GOSSIP_MESSAGE_SIZE then
    ensure (data.length ≤ MAX_CHUNKED_PAYLOAD_SIZE)
      s!"Encoded P2P payload exceeds {MAX_CHUNKED_PAYLOAD_SIZE} byte chunked-message limit"
    ensure ((data.length + P2P_CHUNK_SIZE - 1) / P2P_CHUNK_SIZE ≤ MAX_CHUNKS_PER_PAYLOAD)
      "Encoded P2P payload requires too many chunks"
    publishChunks E publish sent (messageChunks E (messageTopicKind finalMsg) data)
  else
    publishEncoded publish sent (messageTopicKind finalMsg) data

/-- `received` counts the slots that are filled, `bytes` what is in them; that it is within the
limit is checked before a slot is filled. -/
structure ChunkAssembly where
  createdAt : Nat
  topic : P2PTopicKind
  chunks : List (Option Bytes)
  received : Nat
  bytes : Nat
  received_eq : received = filled chunks
  bytes_eq : bytes = stored chunks
  bytes_le : bytes ≤ MAX_CHUNKED_PAYLOAD_SIZE

namespace ChunkAssembly

def start (now : Nat) (topic : P2PTopicKind) (total : Nat) : ChunkAssembly where
  createdAt := now
  topic := topic
  chunks := List.replicate total none
  received := 0
  bytes := 0
  received_eq := (filled_replicate total).symm
  bytes_eq := (stored_replicate total).symm
  bytes_le := Nat.zero_le _

lemma saturatingAdd_eq {a b : Nat} (h : saturatingAdd a b ≤ MAX_CHUNKED_PAYLOAD_SIZE) :
    saturatingAdd a b = a + b := by
  unfold saturatingAdd u64Bound MAX_CHUNKED_PAYLOAD_SIZE at *
  omega

def store (a : ChunkAssembly) (index : Nat) (data : Bytes) (hempty : a.chunks[index]? = some none)
    (hle : saturatingAdd a.bytes data.length ≤ MAX_CHUNKED_PAYLOAD_SIZE) : ChunkAssembly where
  createdAt := a.createdAt
  topic := a.topic
  chunks := a.chunks.set index (some data)
  received := a.received + 1
  bytes := saturatingAdd a.bytes data.length
  received_eq := by rw [filled_set hempty, a.received_eq]
  bytes_eq := by rw [stored_set hempty, ← a.bytes_eq, saturatingAdd_eq hle]
  bytes_le := hle

def receive (a : ChunkAssembly) (chunk : P2PMessageChunk) : Option ChunkAssembly :=
  if a.chunks.length ≠ chunk.total.toNat ∨ a.topic ≠ chunk.topic then none
  else if hempty : a.chunks[chunk.index.toNat]? = some none then
    if hle : saturatingAdd a.bytes chunk.data.length ≤ MAX_CHUNKED_PAYLOAD_SIZE then
      some (a.store chunk.index.toNat chunk.data hempty hle)
    else none
  else some a

def finish (E : P2PEnv) (a : ChunkAssembly) (transferId : Vector UInt8 32) : Option P2PMessage :=
  let encoded := (a.chunks.filterMap id).flatten
  if E.hashDataBlake3 encoded ≠ transferId then none
  else match E.decode encoded with
    | .ok (message, consumed) =>
      if consumed = encoded.length ∧ message.isChunk = false ∧ messageTopicKind message = a.topic then
        some message
      else none
    | .error _ => none

end ChunkAssembly

/-- The limits are read from the environment of the process. -/
structure ChunkLimits where
  maxInflight : Nat
  maxInflightPerPeer : Nat

section

variable {PeerId : Type} [DecidableEq PeerId]

abbrev TransferKey (PeerId : Type) := PeerId × Vector UInt8 32

abbrev Assemblies (PeerId : Type) := AList fun _ : TransferKey PeerId => ChunkAssembly

def retainLive (now : Nat) (assemblies : Assemblies PeerId) : Assemblies PeerId :=
  retain (fun _ assembly => now - assembly.createdAt ≤ CHUNK_TTL) assemblies

def peerTransfers (assemblies : Assemblies PeerId) (peer : PeerId) : Nat :=
  assemblies.keys.countP fun key => key.1 = peer

def acceptChunk (E : P2PEnv) (limits : ChunkLimits) (now : Nat) (assemblies : Assemblies PeerId)
    (source : PeerId) (chunk : P2PMessageChunk) : Option P2PMessage × Assemblies PeerId :=
  let assemblies := retainLive now assemblies
  let total := chunk.total.toNat
  let index := chunk.index.toNat
  if total = 0 ∨ total > MAX_CHUNKS_PER_PAYLOAD ∨ index ≥ total ∨
      chunk.data.length > P2P_CHUNK_SIZE then
    (none, assemblies)
  else
    let key := (source, chunk.transferId)
    if key ∉ assemblies ∧ assemblies.keys.length ≥ limits.maxInflight then (none, assemblies)
    else if key ∉ assemblies ∧ peerTransfers assemblies source ≥ limits.maxInflightPerPeer then
      (none, assemblies)
    else
      let assembly := (assemblies.lookup key).getD (.start now chunk.topic total)
      match assembly.receive chunk with
      | none => (none, assemblies.erase key)
      | some assembly =>
        if assembly.received = total then
          (assembly.finish E chunk.transferId, assemblies.erase key)
        else (none, assemblies.insert key assembly)

/-- A chunk that arrives from a peer. -/
structure Arrival (PeerId : Type) where
  now : Nat
  source : PeerId
  chunk : P2PMessageChunk

def Arrival.key (a : Arrival PeerId) : TransferKey PeerId := (a.source, a.chunk.transferId)

def Arrival.accept (E : P2PEnv) (limits : ChunkLimits) (assemblies : Assemblies PeerId)
    (a : Arrival PeerId) : Option P2PMessage × Assemblies PeerId :=
  acceptChunk E limits a.now assemblies a.source a.chunk

def afterArrivals (E : P2PEnv) (limits : ChunkLimits) (assemblies : Assemblies PeerId)
    (arrivals : List (Arrival PeerId)) : Assemblies PeerId :=
  arrivals.foldl (fun assemblies a => (a.accept E limits assemblies).2) assemblies

end

end Kanari

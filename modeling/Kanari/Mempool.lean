import Kanari.Blockchain
import Kanari.Engine
import Kanari.Lib.Counts
import Mathlib.Data.List.Lex

/-!
# The mempool

The pending transactions are accounted six times over: by hash, in bytes, and in four maps of
counters.
-/

namespace Kanari

open Lib

def MAX_MEMPOOL_SIZE : Nat := 100000
def MAX_MEMPOOL_BYTES : Nat := 256 * 1024 * 1024
def MAX_PENDING_PER_PRIMARY_ACCESS_LANE : Nat := 64
def MAX_PENDING_PER_SENDER : Nat := 256
def MAX_TRANSACTION_BYTES : Nat := 256 * 1024
def MAX_TRANSACTION_GAS_LIMIT : Nat := 10000000
def MAX_NONCE : Nat := 2 ^ 53 - 1
def MAX_WATERMARK : Nat := 2 ^ 53
def MAX_SIGNATURE_SIZE : Nat := 64 * 1024
def MAX_PUBLIC_KEY_OR_ADDRESS_SIZE : Nat := 8 * 1024
def MAX_SIGNED_MESSAGE_SIZE : Nat := 16 * 1024 * 1024
def MAX_DAG_VERTEX_TRANSACTIONS : Nat := 512
def MAX_DAG_VERTEX_TRANSACTION_BYTES : Nat := 350 * 1024

structure PendingTransactionMetadata where
  previewed : Bool := false
  previewGasUsed : Option Nat := none
  previewEffects : Option Bytes := none

structure PendingTransactionRecord where
  signedTx : SignedTransaction
  metadata : PendingTransactionMetadata
  txHash : Bytes
  normalizedSender : String
  primaryAccessKey : String
  congestionAccessKey : String
  accessKeys : List String
  sizeBytes : Nat

structure MempoolState where
  pendingTxs : List PendingTransactionRecord := []
  pendingBytes : Nat := 0
  pendingTxHashes : Finset Bytes := ∅
  pendingSenderCounts : OrdMap String Nat := .empty
  pendingAccessCounts : OrdMap String Nat := .empty
  pendingPrimaryAccessCounts : OrdMap String Nat := .empty
  pendingCongestionAccessCounts : OrdMap String Nat := .empty

/-- What verification and encoding contribute to admission. -/
structure AdmissionEnv extends HashEnv where
  hashPublicKey : List Char → List Char → Option AccountAddress
  /-- `bcs::serialized_size` of a transaction. -/
  transactionSize : Transaction → Except String Nat
  isCurveTag : List Char → Bool
  /-- Verification with the curve of the tag: key or address, message, signature. -/
  verifyWithCurve : List Char → List Char → Bytes → Bytes → Except String Bool
  lowercase : List Char → List Char
  /-- The engine's own reader of type arguments. -/
  parsesTypeTag : String → Bool

/-- What else a submission reads: the queue length at its start, the committed transactions and
the nonce watermarks. -/
structure AdmissionView where
  pendingLen : Nat
  tryIsTransactionCommitted : Bytes → Except String Bool
  senderNonceWatermark : Except String (OrdMap String Nat)

namespace Transaction

/-- The lane of a transaction: its first mutable input, else its first input, its first payment
object, or its sender. -/
def primaryAccessKey (tx : Transaction) : String :=
  match tx.objectInputs.find? (·.mutable), tx.objectInputs, tx.gasPayment.bind (·.paymentObjects.head?) with
  | some input, _, _ => "mut:object:" ++ input.objectRef.objectId
  | none, input :: _, _ => (if input.mutable then "mut" else "ro") ++ ":object:" ++ input.objectRef.objectId
  | none, [], some payment => "mut:gas:" ++ payment.objectId
  | none, [], none => "owner:" ++ tx.header.sender

def congestionAccessKey (tx : Transaction) : String :=
  match tx.objectInputs.find? (·.mutable), tx.objectInputs, tx.gasPayment.bind (·.paymentObjects.head?) with
  | some input, _, _ => "object:" ++ input.objectRef.objectId
  | none, input :: _, _ => "object:" ++ input.objectRef.objectId
  | none, [], some payment => "object:" ++ payment.objectId
  | none, [], none => "owner:" ++ tx.header.sender

def sortedAccessKeys (tx : Transaction) : List String :=
  OrdSet.elems (OrdSet.addAll .empty tx.objectAccessKeys)

end Transaction

namespace AdmissionEnv

variable (env : AdmissionEnv)

/-! ## Senders and signatures -/

def addressFromStr (s : List Char) : Option AccountAddress :=
  (kanariFromHexLiteral env.hashPublicKey (s.length + 1) s).or
    (if s.length = 64 then kanariFromHex s else none)

def trimStart0x : List Char → List Char
  | '0' :: 'x' :: rest => trimStart0x rest
  | s => s

def normalizeAddr (addr : String) : String :=
  match env.addressFromStr addr.toList with
  | some a => String.ofList (Hex.encode a.bytes)
  | none => String.ofList (env.lowercase (trimStart0x addr.toList))

def verifySignature (sender : String) (message signature : Bytes) : Except String Bool := do
  ensure (!signature.isEmpty) "Invalid signature format: Empty signature"
  ensure (decide (signature.length ≤ MAX_SIGNATURE_SIZE)) "Invalid signature format: Signature too large"
  ensure (!sender.isEmpty) "Invalid public key or address: Empty public key or address"
  ensure (decide (sender.utf8ByteSize ≤ MAX_PUBLIC_KEY_OR_ADDRESS_SIZE))
    "Invalid public key or address: Public key or address too large"
  ensure (decide (message.length ≤ MAX_SIGNED_MESSAGE_SIZE))
    "Invalid signature format: Signed message too large"
  match splitOnce ':' sender.toList with
  | some (tag, address) =>
    if env.isCurveTag tag then env.verifyWithCurve tag address message signature
    else .error "Invalid signature format: Tagged address required for signature verification"
  | none => .error "Invalid signature format: Tagged address required for signature verification"

def verifiedTransactionHash (tx : SignedTransaction) : Except String Bytes := do
  ensure (!tx.signature.isEmpty) "Transaction not signed"
  let verified ← mapError ("Signature verification failed: " ++ ·)
    (env.verifySignature tx.transaction.header.sender (env.transactionHash tx) tx.signature)
  ensure verified "Invalid transaction signature"
  return env.transactionHash tx

/-! ## The shape of a transaction -/

def checkCallShape (call : ExecuteFunction) : Except String Unit :=
  match splitColons call.module.toList with
  | [address, name] => do
    ensure (!address.isEmpty && !name.isEmpty) "Invalid module format. Expected: address::module"
    ensure (parseToAccountAddress env.hashPublicKey (String.ofList address)).isSome
      "Invalid entry-function module address"
    ensure (isIdentifier name) "Invalid entry-function module name"
    ensure (call.typeArgs.all env.parsesTypeTag) "Invalid type argument"
  | _ => .error "Invalid module format. Expected: address::module"

def checkNativeAmount : Option NativeCall → Except String Unit
  | some (.transfer _ _ amount) => ensure (decide (0 < amount)) "Native transfer/burn amount must be non-zero"
  | some (.burn amount) => ensure (decide (0 < amount)) "Native transfer/burn amount must be non-zero"
  | none => .ok ()

def checkPayloadShape (tx : Transaction) : Except String Unit :=
  match tx.kind with
  | .executeFunction call => env.checkCallShape call
  | _ => .ok ()

def validateTransactionAdmissionShape (tx : Transaction) : Except String Unit := do
  let size ← env.transactionSize tx
  ensure (decide (size ≤ MAX_TRANSACTION_BYTES))
    s!"Transaction exceeds {MAX_TRANSACTION_BYTES} byte admission limit"
  ensure (decide (tx.header.gasLimit ≤ MAX_TRANSACTION_GAS_LIMIT))
    s!"Transaction gas limit {tx.header.gasLimit} exceeds protocol maximum {MAX_TRANSACTION_GAS_LIMIT}"
  ensure (decide (tx.header.nonce ≤ MAX_NONCE))
    s!"Transaction nonce {tx.header.nonce} exceeds maximum {MAX_NONCE}"
  checkNativeAmount tx.nativeCall
  ensure (parseToAccountAddress env.hashPublicKey tx.header.sender).isSome
    "Invalid transaction sender address"
  env.checkPayloadShape tx
  ensure (decide (0 < tx.header.gasLimit)) "Transaction gas limit must be non-zero"
  ensure (decide (0 < tx.header.gasPrice))
    s!"Transaction gas price {tx.header.gasPrice} is not valid for the active gas model (v3.1); minimum is 1 Mist"

/-! ## Sizes -/

def ulebLength (n : Nat) : Nat :=
  if n < 2 ^ 7 then 1 else if n < 2 ^ 14 then 2 else if n < 2 ^ 21 then 3 else if n < 2 ^ 28 then 4 else 5

/-- `bcs::serialized_size` of a signed transaction: the caches are not serialised. -/
def signedSize (tx : SignedTransaction) : Except String Nat := do
  let size ← env.transactionSize tx.transaction
  return size + ulebLength tx.signature.length + tx.signature.length

def pendingRecordSize (tx : SignedTransaction) (metadata : PendingTransactionMetadata) :
    Except String Nat := do
  let transactionBytes ← env.signedSize tx
  let effectsBytes := (metadata.previewEffects.map List.length).getD 0
  let size := transactionBytes + effectsBytes + 128
  ensure (decide (size < u64Bound)) "Pending transaction memory accounting overflow"
  return size

/-! ## Admission -/

/-- One transaction of the batch, verified and measured. -/
structure VerifiedTx where
  signedTx : SignedTransaction
  txHash : Bytes
  normalizedSender : String
  nonce : Nat
  primaryAccessKey : String
  congestionAccessKey : String
  accessKeys : List String
  sizeBytes : Nat

def verifyForMempool (metadata : PendingTransactionMetadata) (signed : SignedTransaction) :
    Except String VerifiedTx := do
  let txHash ← env.verifiedTransactionHash signed
  let tx := signed.transaction
  env.validateTransactionAdmissionShape tx
  let sizeBytes ← env.pendingRecordSize signed metadata
  return {
    signedTx := signed
    txHash := txHash
    normalizedSender := env.normalizeAddr tx.header.sender
    nonce := tx.header.nonce
    primaryAccessKey := tx.primaryAccessKey
    congestionAccessKey := tx.congestionAccessKey
    accessKeys := tx.sortedAccessKeys
    sizeBytes := sizeBytes }

end AdmissionEnv

open AdmissionEnv (VerifiedTx)

abbrev SortKey := Nat ×ₗ String ×ₗ String ×ₗ Nat ×ₗ List Nat

def sortKey (rank : Nat) (primary sender : String) (nonce : Nat) (txHash : Bytes) : SortKey :=
  toLex (rank, toLex (primary, toLex (sender, toLex (nonce, txHash.map UInt8.toNat))))

namespace AdmissionEnv.VerifiedTx

def admissionKey (tx : VerifiedTx) : SortKey :=
  sortKey 0 tx.primaryAccessKey tx.normalizedSender tx.nonce tx.txHash

def toRecord (metadata : PendingTransactionMetadata) (tx : VerifiedTx) : PendingTransactionRecord where
  signedTx := tx.signedTx
  metadata := metadata
  txHash := tx.txHash
  normalizedSender := tx.normalizedSender
  primaryAccessKey := tx.primaryAccessKey
  congestionAccessKey := tx.congestionAccessKey
  accessKeys := tx.accessKeys
  sizeBytes := tx.sizeBytes

end AdmissionEnv.VerifiedTx

namespace MempoolState

/-- Watermarks out of the JSON-safe range count as zero. -/
def cappedWatermark (v : Nat) : Nat := if MAX_WATERMARK ≤ v then 0 else v

/-- What the transactions of the batch that passed so far have reserved. -/
structure Reservation where
  batchHashes : Finset Bytes := ∅
  acceptedHashes : List Bytes := []
  bySender : OrdMap String Nat := .empty
  byAccess : OrdMap String Nat := .empty
  byPrimaryAccess : OrdMap String Nat := .empty
  byCongestionAccess : OrdMap String Nat := .empty

def checkFresh (pool : MempoolState) (executed : Bytes → Bool) (acc : Reservation) (tx : VerifiedTx) :
    Except String Unit := do
  let hex := String.ofList (Hex.encode tx.txHash)
  ensure (!(decide (tx.txHash ∈ pool.pendingTxHashes) || decide (tx.txHash ∈ acc.batchHashes)))
    s!"Transaction {hex} already in pending pool"
  ensure (!executed tx.txHash) s!"Transaction {hex} already executed"

def checkNonce (watermark : OrdMap String Nat) (tx : VerifiedTx) : Except String Unit :=
  match watermark.find? tx.normalizedSender with
  | some maxCommitted => ensure (!decide (tx.nonce ≤ maxCommitted))
      (s!"Transaction nonce {tx.nonce} for sender {tx.normalizedSender} is stale: " ++
        s!"max committed nonce for sender is {maxCommitted}")
  | none => .ok ()

def checkDepth (pending reserved : OrdMap String Nat) (key : String) (limit : Nat)
    (message : Nat → String) : Except String Unit :=
  let depth := countOf pending key + countOf reserved key
  ensure (decide (depth < limit)) (message depth)

def checkLanes (pool : MempoolState) (acc : Reservation) (tx : VerifiedTx) : Except String Unit := do
  checkDepth pool.pendingSenderCounts acc.bySender tx.normalizedSender MAX_PENDING_PER_SENDER
    fun depth => s!"Sender {tx.normalizedSender} has too many pending transactions: {depth} pending, " ++
      s!"max {MAX_PENDING_PER_SENDER}"
  checkDepth pool.pendingPrimaryAccessCounts acc.byPrimaryAccess tx.primaryAccessKey
    MAX_PENDING_PER_PRIMARY_ACCESS_LANE
    fun depth => s!"Transaction lane {tx.primaryAccessKey} is saturated: {depth} pending transaction(s) " ++
      s!"already target this primary access key, max {MAX_PENDING_PER_PRIMARY_ACCESS_LANE}"
  checkDepth pool.pendingCongestionAccessCounts acc.byCongestionAccess tx.congestionAccessKey
    MAX_PENDING_PER_PRIMARY_ACCESS_LANE
    fun depth => s!"Transaction congestion lane {tx.congestionAccessKey} is saturated: {depth} pending " ++
      s!"transaction(s) already touch this canonical access key, max {MAX_PENDING_PER_PRIMARY_ACCESS_LANE}"

def Reservation.add (acc : Reservation) (tx : VerifiedTx) : Reservation where
  batchHashes := insert tx.txHash acc.batchHashes
  acceptedHashes := acc.acceptedHashes ++ [tx.txHash]
  bySender := bump acc.bySender tx.normalizedSender 1
  byPrimaryAccess := bump acc.byPrimaryAccess tx.primaryAccessKey 1
  byCongestionAccess := bump acc.byCongestionAccess tx.congestionAccessKey 1
  byAccess := tx.accessKeys.foldl (fun m k => bump m k 1) (bump acc.byAccess tx.primaryAccessKey 1)

def reserve (pool : MempoolState) (executed : Bytes → Bool) (watermark : OrdMap String Nat)
    (acc : Reservation) (tx : VerifiedTx) : Except String Reservation := do
  pool.checkFresh executed acc tx
  checkNonce watermark tx
  pool.checkLanes acc tx
  return acc.add tx

/-- All derived indexes change together, under the lock that the checks were made under. -/
def insertBatch (pool : MempoolState) (batch : List VerifiedTx) (metadata : PendingTransactionMetadata)
    (batchBytes : Nat) (acc : Reservation) : MempoolState where
  pendingTxs := pool.pendingTxs ++ batch.map (VerifiedTx.toRecord metadata)
  pendingTxHashes := pool.pendingTxHashes ∪ acc.acceptedHashes.toFinset
  pendingBytes := saturatingAdd pool.pendingBytes batchBytes
  pendingSenderCounts := mergeCounts pool.pendingSenderCounts acc.bySender
  pendingPrimaryAccessCounts := mergeCounts pool.pendingPrimaryAccessCounts acc.byPrimaryAccess
  pendingCongestionAccessCounts := mergeCounts pool.pendingCongestionAccessCounts acc.byCongestionAccess
  pendingAccessCounts := mergeCounts pool.pendingAccessCounts acc.byAccess

def prepareBatch (env : AdmissionEnv) (metadata : PendingTransactionMetadata)
    (signedTxs : List SignedTransaction) : Except String (List VerifiedTx × Nat) := do
  let verified ← signedTxs.mapM (env.verifyForMempool metadata)
  let batchBytes ← foldOk (fun total tx => checkedAdd total tx.sizeBytes "Mempool batch byte size overflow")
    0 verified
  return (verified.mergeSort fun a b => decide (a.admissionKey ≤ b.admissionKey), batchBytes)

def findExecuted (view : AdmissionView) (batch : List VerifiedTx) : Except String (List Bytes) := do
  let executed ← batch.mapM fun tx => (view.tryIsTransactionCommitted tx.txHash).map fun committed =>
    if committed then [tx.txHash] else []
  return executed.flatten

def checkBatch (pool : MempoolState) (view : AdmissionView) (batch : List VerifiedTx)
    (batchBytes : Nat) (executed : List Bytes) : Except String Reservation := do
  ensure (decide (pool.pendingTxs.length + batch.length ≤ MAX_MEMPOOL_SIZE))
    "Mempool is currently full. Please try again later."
  ensure (decide (saturatingAdd pool.pendingBytes batchBytes ≤ MAX_MEMPOOL_BYTES))
    "Mempool byte budget is exhausted. Please try again later."
  let watermark ← view.senderNonceWatermark
  foldOk (pool.reserve (fun h => decide (h ∈ executed)) (watermark.mapValues cappedWatermark)) {} batch

def submitTransactionsBatch (pool : MempoolState) (env : AdmissionEnv) (view : AdmissionView)
    (signedTxs : List SignedTransaction) (metadata : PendingTransactionMetadata) :
    Except String (List Bytes) × MempoolState :=
  if signedTxs.isEmpty then (.ok [], pool)
  else if MAX_MEMPOOL_SIZE < view.pendingLen + signedTxs.length then
    (.error "Mempool is currently full. Please try again later.", pool)
  else
    match prepareBatch env metadata signedTxs with
    | .error e => (.error e, pool)
    | .ok (batch, batchBytes) =>
      match findExecuted view batch >>= pool.checkBatch view batch batchBytes with
      | .error e => (.error e, pool)
      | .ok acc => (.ok acc.acceptedHashes, pool.insertBatch batch metadata batchBytes acc)

/-! ## Removal -/

def forget (pool : MempoolState) (tx : PendingTransactionRecord) : MempoolState :=
  { pool with
    pendingSenderCounts := decrement pool.pendingSenderCounts tx.normalizedSender
    pendingPrimaryAccessCounts := decrement pool.pendingPrimaryAccessCounts tx.primaryAccessKey
    pendingCongestionAccessCounts := decrement pool.pendingCongestionAccessCounts tx.congestionAccessKey
    pendingAccessCounts := tx.accessKeys.foldl decrement
      (decrement pool.pendingAccessCounts tx.primaryAccessKey) }

/-- Every record with one of the hashes leaves, together with its part of the counters. -/
def removeMatching (pool : MempoolState) (targets : List Bytes) : MempoolState :=
  let removed := pool.pendingTxs.filter fun tx => decide (tx.txHash ∈ targets)
  let removedBytes := removed.foldl (fun total tx => saturatingAdd total tx.sizeBytes) 0
  removed.foldl forget
    { pool with
      pendingTxs := pool.pendingTxs.filter fun tx => !decide (tx.txHash ∈ targets)
      pendingBytes := pool.pendingBytes - removedBytes
      pendingTxHashes := pool.pendingTxHashes.filter (· ∉ targets) }

def removePendingTransactionsByHashes (pool : MempoolState) (hashes : List Bytes) :
    List PendingTransactionRecord × MempoolState :=
  let removed := pool.pendingTxs.filter fun tx => decide (tx.txHash ∈ hashes)
  if hashes.isEmpty || removed.isEmpty then ([], pool) else (removed, pool.removeMatching hashes)

/-- The mempool after a checkpoint with these transactions: emptied at once where the pending
transactions are the committed ones in order. -/
def dropCommitted (pool : MempoolState) (committedHashes : List Bytes) : MempoolState :=
  if pool.pendingTxs.length = committedHashes.length ∧
      (pool.pendingTxs.zip committedHashes).all (fun p => p.1.txHash == p.2) then {}
  else pool.removeMatching committedHashes

/-! ## Selection for the next vertex -/

def pendingTxCountForSender (env : AdmissionEnv) (pool : MempoolState) (sender : String) : Nat :=
  countOf pool.pendingSenderCounts (env.normalizeAddr sender)

def pendingSignedTransactions (pool : MempoolState) : List SignedTransaction := pool.pendingTxs.map (·.signedTx)

def selectConflictFreeFrom : OrdSet String → List SignedTransaction → List SignedTransaction
  | _, [] => []
  | reserved, tx :: rest =>
    let keys := OrdSet.elems tx.transaction.getConflictKeys
    if keys.any reserved.contains then selectConflictFreeFrom reserved rest
    else tx :: selectConflictFreeFrom (OrdSet.addAll reserved keys) rest

def selectConflictFreeTransactions (txs : List SignedTransaction) : List SignedTransaction :=
  selectConflictFreeFrom .empty txs

def transactionLaneRank (tx : SignedTransaction) : Nat :=
  if tx.transaction.objectInputs.any fun input => input.owner == some .shared then 2
  else if tx.transaction.objectInputs.isEmpty then 0 else 1

def pendingSortKey (H : HashEnv) (laneAware : Bool) (tx : SignedTransaction) : SortKey :=
  sortKey (if laneAware then transactionLaneRank tx else 0) tx.transaction.primaryAccessKey
    tx.transaction.header.sender tx.transaction.header.nonce (H.transactionHash tx)

/-- The pass under the caps: `taken` transactions of `totalBytes` bytes so far. -/
def takeReady (env : AdmissionEnv) (hotObjectTxCap : Nat) :
    Nat → OrdMap String Nat → Nat → List SignedTransaction → List SignedTransaction
  | _, _, _, [] => []
  | taken, hotObjectCounts, totalBytes, tx :: rest =>
    if MAX_DAG_VERTEX_TRANSACTIONS ≤ taken then []
    else if hotObjectTxCap ≤ countOf hotObjectCounts tx.transaction.primaryAccessKey then
      takeReady env hotObjectTxCap taken hotObjectCounts totalBytes rest
    else
      match env.signedSize tx with
      | .error _ => []
      | .ok size =>
        if u64Bound ≤ totalBytes + size ∨ MAX_DAG_VERTEX_TRANSACTION_BYTES < totalBytes + size then []
        else tx :: takeReady env hotObjectTxCap (taken + 1)
          (bump hotObjectCounts tx.transaction.primaryAccessKey 1) (totalBytes + size) rest

def pendingConflictFreeTransactionsSnapshot (env : AdmissionEnv) (pool : MempoolState)
    (laneAware : Bool) (hotObjectTxCap : Nat) : List SignedTransaction :=
  let transactions := pool.pendingSignedTransactions.mergeSort fun a b =>
    decide (pendingSortKey env.toHashEnv laneAware a ≤ pendingSortKey env.toHashEnv laneAware b)
  takeReady env hotObjectTxCap 0 .empty 0 (selectConflictFreeTransactions transactions)

end MempoolState

end Kanari

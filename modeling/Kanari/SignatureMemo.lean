import Kanari.Mempool
import Kanari.ZkLogin

/-!
# Signed transactions with their memos

Both fields of the transaction stay public, so they can change under the memos. Clones copy the
memos; encoding drops them.
-/

namespace Kanari

open Lib
open ZkLogin (CurveType)

/-- The functions of other crates: hashing, and signing and verifying with errors as text.
A signer may be randomised. -/
structure SignatureEnv where
  hash : Transaction → Bytes
  signMessage : (privateKey : String) → (message : Bytes) → (curveType : CurveType) →
    (randomness : Nat) → Except String Bytes
  verifySignature : (sender : String) → (message signature : Bytes) → Except String Bool

structure MemoizedTransaction where
  transaction : Transaction
  signature : Bytes
  cachedTransactionHash : Option Bytes
  cachedVerifiedSignature : Option (Bytes × Bytes)
  deriving DecidableEq

/-- `OnceLock::set`: the first value stays. -/
def setOnce {α : Type} (cell : Option α) (value : α) : Option α := cell.or (some value)

namespace MemoizedTransaction

def new (transaction : Transaction) : MemoizedTransaction := ⟨transaction, [], none, none⟩

def decoded (tx : SignedTransaction) : MemoizedTransaction := ⟨tx.transaction, tx.signature, none, none⟩

variable (env : SignatureEnv) (self : MemoizedTransaction)

def transactionHash : Bytes × MemoizedTransaction :=
  let hash := self.cachedTransactionHash.getD (env.hash self.transaction)
  (hash, { self with cachedTransactionHash := some hash })

def sign (privateKey : String) (curveType : CurveType) (randomness : Nat) :
    Except String Unit × MemoizedTransaction :=
  let (txHash, self) := self.transactionHash env
  match env.signMessage privateKey txHash curveType randomness with
  | .error e => (.error ("Failed to sign transaction: " ++ e), self)
  | .ok signature =>
    (.ok (), { self with
      signature := signature
      cachedVerifiedSignature := setOnce self.cachedVerifiedSignature (txHash, signature) })

def memoMatches : Bool :=
  self.cachedVerifiedSignature.any fun memo =>
    memo.1 == env.hash self.transaction && memo.2 == self.signature

def remember : MemoizedTransaction :=
  let memo := (env.hash self.transaction, self.signature)
  { self with cachedVerifiedSignature := setOnce self.cachedVerifiedSignature memo }

def verifySignatureForHash (txHash : Bytes) : Except String Bool × MemoizedTransaction :=
  if self.signature.isEmpty then (.error "Transaction not signed", self)
  else if txHash ≠ env.hash self.transaction then (.ok false, self)
  else if self.memoMatches env then (.ok true, self)
  else match env.verifySignature self.transaction.header.sender txHash self.signature with
    | .error e => (.error ("Signature verification failed: " ++ e), self)
    | .ok false => (.ok false, self)
    | .ok true => (.ok true, self.remember env)

def verifySignature : Except String Bool × MemoizedTransaction :=
  let (txHash, self) := self.transactionHash env
  self.verifySignatureForHash env txHash

def verifiedTransactionHash : Except String Bytes × MemoizedTransaction :=
  if self.signature.isEmpty then (.error "Transaction not signed", self)
  else if self.memoMatches env then (.ok (env.hash self.transaction), self)
  else match env.verifySignature self.transaction.header.sender (env.hash self.transaction)
      self.signature with
    | .error e => (.error ("Signature verification failed: " ++ e), self)
    | .ok false => (.error "Invalid transaction signature", self)
    | .ok true => (.ok (env.hash self.transaction), self.remember env)

/-- The wrapper of a transaction that counts as verified, with its hash. -/
structure VerifiedSignedTransaction where
  signed : MemoizedTransaction
  txHash : Bytes

def intoVerified : Except String VerifiedSignedTransaction :=
  match self.verifiedTransactionHash env with
  | (.ok txHash, self) => .ok ⟨self, txHash⟩
  | (.error e, _) => .error e

/-- What a program does with its signed transactions, which are named by their positions. -/
inductive Use where
  | new (transaction : Transaction)
  | decode (tx : SignedTransaction)
  | clone (i : Nat)
  | setTransaction (i : Nat) (transaction : Transaction)
  | setSignature (i : Nat) (signature : Bytes)
  | transactionHash (i : Nat)
  | sign (i : Nat) (privateKey : String) (curveType : CurveType) (randomness : Nat)
  | verifySignature (i : Nat)
  | verifySignatureForHash (i : Nat) (txHash : Bytes)
  | verifiedTransactionHash (i : Nat)
  | intoVerified (i : Nat)

def Use.run (pool : List MemoizedTransaction) : Use → List MemoizedTransaction
  | .new transaction => pool ++ [MemoizedTransaction.new transaction]
  | .decode tx => pool ++ [decoded tx]
  | .clone i => pool ++ pool[i]?.toList
  | .setTransaction i transaction => pool.modify i fun v => { v with transaction := transaction }
  | .setSignature i signature => pool.modify i fun v => { v with signature := signature }
  | .transactionHash i => pool.modify i fun v => (v.transactionHash env).2
  | .sign i privateKey curveType randomness =>
    pool.modify i fun v => (v.sign env privateKey curveType randomness).2
  | .verifySignature i => pool.modify i fun v => (v.verifySignature env).2
  | .verifySignatureForHash i txHash => pool.modify i fun v => (v.verifySignatureForHash env txHash).2
  | .verifiedTransactionHash i => pool.modify i fun v => (v.verifiedTransactionHash env).2
  | .intoVerified i => pool.modify i fun v => (v.verifiedTransactionHash env).2

end MemoizedTransaction

end Kanari

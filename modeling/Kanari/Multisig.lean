import Kanari.DenyList
import Kanari.Lib.OrdMap

/-!
# The Move module `multisig`

Events are left out: the history of a run says what each call did. The type parameter of a wallet is
its `token`.
-/

namespace Kanari.Move.Multisig

open Lib

def E_NOT_OWNER : Abort := .code 1
def E_ALREADY_APPROVED : Abort := .code 2
def E_THRESHOLD_NOT_MET : Abort := .code 3
def E_TRANSACTION_ALREADY_EXECUTED : Abort := .code 4
def E_INVALID_THRESHOLD : Abort := .code 5
def E_EMPTY_OWNERS : Abort := .code 6
def E_OWNER_NOT_FOUND : Abort := .code 7
def E_CANNOT_REMOVE_LAST_OWNER : Abort := .code 8
def E_INVALID_TRANSACTION_TYPE : Abort := .code 9
def E_INSUFFICIENT_BALANCE : Abort := .code 10
def E_ALREADY_OWNER : Abort := .code 11
def E_PROPOSAL_EXPIRED : Abort := .code 12
def E_BINDING_MISMATCH : Abort := .code 13
def E_NOT_PROPOSER : Abort := .code 14
def E_INVALID_PAYLOAD : Abort := .code 15
def E_NOT_EXPIRED : Abort := .code 16
def E_ZERO_AMOUNT : Abort := .code 17
def E_DENIED : Abort := .code 18
def E_ZERO_ADDRESS : Abort := .code 19

def TX_TYPE_TRANSFER : UInt8 := 0
def TX_TYPE_ADD_OWNER : UInt8 := 1
def TX_TYPE_REMOVE_OWNER : UInt8 := 2
def TX_TYPE_CHANGE_THRESHOLD : UInt8 := 3

/-- `ttl_ms == 0` means "never expires". -/
def NO_EXPIRY : Nat := 0

structure MultisigWallet where
  id : AccountAddress
  owners : List AccountAddress
  threshold : Nat
  transactionCount : Nat
  funds : Coin
  deriving DecidableEq

structure TransactionProposal where
  id : AccountAddress
  walletId : AccountAddress
  txType : UInt8
  proposer : AccountAddress
  targetAddress : AccountAddress
  amount : Nat
  payload : Bytes
  description : String
  approvers : List AccountAddress
  executed : Bool
  createdAtMs : Nat
  expiresAtMs : Nat
  deriving DecidableEq

/-- What the functions read of the context; `newId` is what `object::new` gives next. -/
structure TxContext where
  sender : AccountAddress
  epochTimestampMs : Nat
  newId : AccountAddress

def isOwner (w : MultisigWallet) (addr : AccountAddress) : Bool := decide (addr ∈ w.owners)

def ownerCount (w : MultisigWallet) : Nat := w.owners.length

def hasEnoughApprovals (w : MultisigWallet) (p : TransactionProposal) : Bool :=
  decide (w.threshold ≤ p.approvers.length)

def isExpired (p : TransactionProposal) (ctx : TxContext) : Bool :=
  p.expiresAtMs != NO_EXPIRY && decide (p.expiresAtMs ≤ ctx.epochTimestampMs)

def assertBound (w : MultisigWallet) (p : TransactionProposal) : Except Abort Unit :=
  ensure (p.walletId == w.id) E_BINDING_MISMATCH

def checkDuplicateOwners : List AccountAddress → Except Abort Unit
  | [] => .ok ()
  | addr :: rest => do
    forOk (fun other => ensure (addr != other) E_INVALID_THRESHOLD) rest
    checkDuplicateOwners rest

def hasApproved (p : TransactionProposal) (addr : AccountAddress) : Bool :=
  decide (addr ∈ p.approvers)

def removeOwnerAddr (owners : List AccountAddress) (doomed : AccountAddress) :
    Except Abort (List AccountAddress) :=
  match owners.findIdx? (· == doomed) with
  | some i => .ok (swapRemove owners i)
  | none => .error E_OWNER_NOT_FOUND

def peelU64 (bytes : Bytes) : Except Abort (Nat × Bytes) := do
  ensure (decide (8 ≤ bytes.length)) (.code 0)
  return (Text.leNat (bytes.take 8), bytes.drop 8)

def decodeThreshold (payload : Bytes) : Except Abort Nat := do
  ensure (payload.length == 8) E_INVALID_PAYLOAD
  let (v, remainder) ← peelU64 payload
  ensure (remainder.length == 0) E_INVALID_PAYLOAD
  return v

def saturatingAddU64 (x y : Nat) : Nat := if maxU64 - y < x then maxU64 else x + y

def createWallet (owners : List AccountAddress) (threshold : Nat) (initialFunds : Coin)
    (ctx : TxContext) : Except Abort MultisigWallet := do
  ensure (decide (0 < owners.length)) E_EMPTY_OWNERS
  ensure (decide (0 < threshold)) E_INVALID_THRESHOLD
  ensure (decide (threshold ≤ owners.length)) E_INVALID_THRESHOLD
  checkDuplicateOwners owners
  forOk (fun owner => ensure (owner != AccountAddress.zero) E_ZERO_ADDRESS) owners
  return ⟨ctx.newId, owners, threshold, 0, initialFunds⟩

def deposit (w : MultisigWallet) (funds : Coin) : Except Abort MultisigWallet := do
  let funds ← w.funds.join funds
  return { w with funds := funds }

/-- What the four functions that propose add to the common arguments of a proposal. -/
structure ProposalBody where
  txType : UInt8
  targetAddress : AccountAddress
  amount : Nat
  payload : Bytes

def newProposal (w : MultisigWallet) (body : ProposalBody) (description : String) (ttlMs : Nat)
    (ctx : TxContext) : Except Abort TransactionProposal := do
  ensure (isOwner w ctx.sender) E_NOT_OWNER
  let expiresAtMs :=
    if ttlMs = NO_EXPIRY then NO_EXPIRY else saturatingAddU64 ctx.epochTimestampMs ttlMs
  return {
    id := ctx.newId
    walletId := w.id
    txType := body.txType
    proposer := ctx.sender
    targetAddress := body.targetAddress
    amount := body.amount
    payload := body.payload
    description := description
    approvers := [ctx.sender]
    executed := false
    createdAtMs := ctx.epochTimestampMs
    expiresAtMs := expiresAtMs }

def proposeTransfer (w : MultisigWallet) (targetAddress : AccountAddress) (amount : Nat)
    (description : String) (ttlMs : Nat) (ctx : TxContext) : Except Abort TransactionProposal := do
  ensure (decide (0 < amount)) E_ZERO_AMOUNT
  newProposal w ⟨TX_TYPE_TRANSFER, targetAddress, amount, []⟩ description ttlMs ctx

def proposeAddOwner (w : MultisigWallet) (newOwner : AccountAddress) (description : String)
    (ttlMs : Nat) (ctx : TxContext) : Except Abort TransactionProposal := do
  ensure (newOwner != AccountAddress.zero) E_ZERO_ADDRESS
  ensure (!isOwner w newOwner) E_ALREADY_OWNER
  newProposal w ⟨TX_TYPE_ADD_OWNER, newOwner, 0, []⟩ description ttlMs ctx

def proposeRemoveOwner (w : MultisigWallet) (ownerToRemove : AccountAddress) (description : String)
    (ttlMs : Nat) (ctx : TxContext) : Except Abort TransactionProposal := do
  ensure (decide (1 < w.owners.length)) E_CANNOT_REMOVE_LAST_OWNER
  ensure (isOwner w ownerToRemove) E_OWNER_NOT_FOUND
  newProposal w ⟨TX_TYPE_REMOVE_OWNER, ownerToRemove, 0, []⟩ description ttlMs ctx

def proposeChangeThreshold (w : MultisigWallet) (newThreshold : Nat) (description : String)
    (ttlMs : Nat) (ctx : TxContext) : Except Abort TransactionProposal := do
  ensure (decide (0 < newThreshold)) E_INVALID_THRESHOLD
  ensure (decide (newThreshold ≤ ownerCount w)) E_INVALID_THRESHOLD
  newProposal w ⟨TX_TYPE_CHANGE_THRESHOLD, AccountAddress.zero, 0, Text.leBytes 8 newThreshold⟩
    description ttlMs ctx

def approveTransaction (w : MultisigWallet) (p : TransactionProposal) (ctx : TxContext) :
    Except Abort TransactionProposal := do
  assertBound w p
  ensure (isOwner w ctx.sender) E_NOT_OWNER
  ensure (!p.executed) E_TRANSACTION_ALREADY_EXECUTED
  ensure (!isExpired p ctx) E_PROPOSAL_EXPIRED
  ensure (!hasApproved p ctx.sender) E_ALREADY_APPROVED
  return { p with approvers := p.approvers ++ [ctx.sender] }

def checkCancel (w : MultisigWallet) (p : TransactionProposal) (ctx : TxContext) :
    Except Abort Unit := do
  assertBound w p
  ensure (ctx.sender == p.proposer) E_NOT_PROPOSER
  ensure (!p.executed) E_TRANSACTION_ALREADY_EXECUTED

def cancelProposal (w : MultisigWallet) (p : TransactionProposal) (ctx : TxContext) :
    Except Abort Unit := checkCancel w p ctx

def cancelBorrowed (w : MultisigWallet) (p : TransactionProposal) (ctx : TxContext) :
    Except Abort TransactionProposal := do
  checkCancel w p ctx
  return { p with executed := true }

def deleteExpiredProposal (p : TransactionProposal) (ctx : TxContext) : Except Abort Unit :=
  ensure (isExpired p ctx) E_NOT_EXPIRED

/-- A coin that leaves the wallet, with its recipient. -/
structure Payment where
  recipient : AccountAddress
  coin : Coin
  deriving DecidableEq

def executeEffects (w : MultisigWallet) (p : TransactionProposal) :
    Except Abort (MultisigWallet × Option Payment) :=
  if p.txType = TX_TYPE_TRANSFER then do
    ensure (decide (0 < p.amount)) E_ZERO_AMOUNT
    ensure (decide (p.amount ≤ w.funds.value)) E_INSUFFICIENT_BALANCE
    let (rest, out) ← w.funds.split p.amount
    return ({ w with funds := rest }, some ⟨p.targetAddress, out⟩)
  else if p.txType = TX_TYPE_ADD_OWNER then do
    ensure (!isOwner w p.targetAddress) E_ALREADY_OWNER
    return ({ w with owners := w.owners ++ [p.targetAddress] }, none)
  else if p.txType = TX_TYPE_REMOVE_OWNER then do
    ensure (isOwner w p.targetAddress) E_OWNER_NOT_FOUND
    ensure (decide (1 < w.owners.length)) E_CANNOT_REMOVE_LAST_OWNER
    let owners ← removeOwnerAddr w.owners p.targetAddress
    ensure (decide (w.threshold ≤ owners.length)) E_INVALID_THRESHOLD
    return ({ w with owners := owners }, none)
  else if p.txType = TX_TYPE_CHANGE_THRESHOLD then do
    let newThreshold ← decodeThreshold p.payload
    ensure (decide (0 < newThreshold)) E_INVALID_THRESHOLD
    ensure (decide (newThreshold ≤ ownerCount w)) E_INVALID_THRESHOLD
    return ({ w with threshold := newThreshold }, none)
  else .error E_INVALID_TRANSACTION_TYPE

/-- The wallet afterwards and what it pays; the proposal is consumed. -/
def executeTransaction (w : MultisigWallet) (p : TransactionProposal) (ctx : TxContext) :
    Except Abort (MultisigWallet × Option Payment) := do
  assertBound w p
  ensure (isOwner w ctx.sender) E_NOT_OWNER
  ensure (!p.executed) E_TRANSACTION_ALREADY_EXECUTED
  ensure (!isExpired p ctx) E_PROPOSAL_EXPIRED
  ensure (hasEnoughApprovals w p) E_THRESHOLD_NOT_MET
  let (w, payment) ← executeEffects w p
  ensure (decide (w.transactionCount + 1 ≤ maxU64)) .arithmetic
  return ({ w with transactionCount := w.transactionCount + 1 }, payment)

/-- The form for borrowed objects, which has a body of its own: the proposal stays, marked as
executed. -/
def executeBorrowed (w : MultisigWallet) (p : TransactionProposal) (ctx : TxContext) :
    Except Abort (MultisigWallet × TransactionProposal × Option Payment) := do
  assertBound w p
  ensure (isOwner w ctx.sender) E_NOT_OWNER
  ensure (!p.executed) E_TRANSACTION_ALREADY_EXECUTED
  ensure (!isExpired p ctx) E_PROPOSAL_EXPIRED
  ensure (hasEnoughApprovals w p) E_THRESHOLD_NOT_MET
  let (w, payment) ← (
    if p.txType = TX_TYPE_TRANSFER then do
      ensure (decide (0 < p.amount)) E_ZERO_AMOUNT
      ensure (decide (p.amount ≤ w.funds.value)) E_INSUFFICIENT_BALANCE
      let (rest, out) ← w.funds.split p.amount
      return ({ w with funds := rest }, some (Payment.mk p.targetAddress out))
    else if p.txType = TX_TYPE_ADD_OWNER then do
      ensure (!isOwner w p.targetAddress) E_ALREADY_OWNER
      return ({ w with owners := w.owners ++ [p.targetAddress] }, none)
    else if p.txType = TX_TYPE_REMOVE_OWNER then do
      ensure (isOwner w p.targetAddress) E_OWNER_NOT_FOUND
      ensure (decide (1 < w.owners.length)) E_CANNOT_REMOVE_LAST_OWNER
      let owners ← removeOwnerAddr w.owners p.targetAddress
      ensure (decide (w.threshold ≤ owners.length)) E_INVALID_THRESHOLD
      return ({ w with owners := owners }, none)
    else if p.txType = TX_TYPE_CHANGE_THRESHOLD then do
      let newThreshold ← decodeThreshold p.payload
      ensure (decide (0 < newThreshold)) E_INVALID_THRESHOLD
      ensure (decide (newThreshold ≤ ownerCount w)) E_INVALID_THRESHOLD
      return ({ w with threshold := newThreshold }, none)
    else .error E_INVALID_TRANSACTION_TYPE)
  ensure (decide (w.transactionCount + 1 ≤ maxU64)) .arithmetic
  return ({ w with transactionCount := w.transactionCount + 1 }, { p with executed := true }, payment)

def executeTransferChecked (w : MultisigWallet) (p : TransactionProposal) (deny : DenyList)
    (ctx : TxContext) : Except Abort (MultisigWallet × Option Payment) := do
  if p.txType = TX_TYPE_TRANSFER then
    ensure (!deny.contains p.targetAddress) E_DENIED
  executeTransaction w p ctx

structure System (Tok : Type) where
  wallets : OrdMap AccountAddress (Tok × MultisigWallet) := .empty
  proposals : OrdMap AccountAddress TransactionProposal := .empty

/-- A call. The entry wrappers that create, deposit and propose do what the functions they wrap
do; `executeEntry` and `cancelEntry` are the borrowed forms. -/
inductive Operation (Tok : Type) where
  | createWallet (token : Tok) (owners : List AccountAddress) (threshold : Nat) (initialFunds : Coin)
  | deposit (token : Tok) (wallet : AccountAddress) (funds : Coin)
  | proposeTransfer (token : Tok) (wallet target : AccountAddress) (amount : Nat)
      (description : String) (ttlMs : Nat)
  | proposeAddOwner (token : Tok) (wallet newOwner : AccountAddress) (description : String)
      (ttlMs : Nat)
  | proposeRemoveOwner (token : Tok) (wallet ownerToRemove : AccountAddress) (description : String)
      (ttlMs : Nat)
  | proposeChangeThreshold (token : Tok) (wallet : AccountAddress) (newThreshold : Nat)
      (description : String) (ttlMs : Nat)
  | approve (token : Tok) (wallet proposal : AccountAddress)
  | cancelProposal (token : Tok) (wallet proposal : AccountAddress)
  | cancelEntry (token : Tok) (wallet proposal : AccountAddress)
  | deleteExpiredProposal (proposal : AccountAddress)
  | executeTransaction (token : Tok) (wallet proposal : AccountAddress)
  | executeTransferChecked (token : Tok) (wallet proposal : AccountAddress) (deny : DenyList)
  | executeEntry (token : Tok) (wallet proposal : AccountAddress)

/-- A proposal that was executed: the wallet and the proposal as they were when the call was
made. -/
structure Execution where
  wallet : MultisigWallet
  proposal : TransactionProposal
  now : Nat
  payment : Option Payment
  deriving DecidableEq

/-- What a successful call did. -/
inductive Occurrence where
  | created (wallet : MultisigWallet)
  | deposited (wallet : AccountAddress) (amount : Nat)
  | proposed (proposal : TransactionProposal)
  | approved (proposal approver : AccountAddress)
  | cancelled (proposal : AccountAddress)
  | deleted (proposal : AccountAddress)
  | executed (x : Execution)
  deriving DecidableEq

namespace System

variable {Tok : Type} [DecidableEq Tok]

def wallet (s : System Tok) (token : Tok) (id : AccountAddress) : Except Abort MultisigWallet := do
  let (t, w) ← orError (s.wallets.find? id) .noSuchValue
  ensure (decide (t = token)) .noSuchValue
  return w

def proposal (s : System Tok) (id : AccountAddress) : Except Abort TransactionProposal :=
  orError (s.proposals.find? id) .noSuchValue

def saveWallet (s : System Tok) (token : Tok) (w : MultisigWallet) : System Tok :=
  { s with wallets := s.wallets.insert w.id (token, w) }

def saveProposal (s : System Tok) (p : TransactionProposal) : System Tok :=
  { s with proposals := s.proposals.insert p.id p }

def deleteProposal (s : System Tok) (p : TransactionProposal) : System Tok :=
  { s with proposals := s.proposals.erase p.id }

def propose (s : System Tok) (token : Tok) (wallet : AccountAddress)
    (build : MultisigWallet → Except Abort TransactionProposal) :
    Except Abort (System Tok × Occurrence) := do
  let w ← s.wallet token wallet
  let p ← build w
  return (s.saveProposal p, .proposed p)

def execute (s : System Tok) (token : Tok) (wallet proposal : AccountAddress) (ctx : TxContext)
    (body : MultisigWallet → TransactionProposal → Except Abort (MultisigWallet × Option Payment)) :
    Except Abort (System Tok × Occurrence) := do
  let w ← s.wallet token wallet
  let p ← s.proposal proposal
  let (w', payment) ← body w p
  return ((s.saveWallet token w').deleteProposal p,
    .executed ⟨w, p, ctx.epochTimestampMs, payment⟩)

def call (s : System Tok) (ctx : TxContext) : Operation Tok → Except Abort (System Tok × Occurrence)
  | .createWallet token owners threshold initialFunds => do
    let w ← createWallet owners threshold initialFunds ctx
    return (s.saveWallet token w, .created w)
  | .deposit token wallet funds => do
    let w ← s.wallet token wallet
    let w ← deposit w funds
    return (s.saveWallet token w, .deposited w.id funds.value)
  | .proposeTransfer token wallet target amount description ttlMs =>
    s.propose token wallet fun w => proposeTransfer w target amount description ttlMs ctx
  | .proposeAddOwner token wallet newOwner description ttlMs =>
    s.propose token wallet fun w => proposeAddOwner w newOwner description ttlMs ctx
  | .proposeRemoveOwner token wallet ownerToRemove description ttlMs =>
    s.propose token wallet fun w => proposeRemoveOwner w ownerToRemove description ttlMs ctx
  | .proposeChangeThreshold token wallet newThreshold description ttlMs =>
    s.propose token wallet fun w => proposeChangeThreshold w newThreshold description ttlMs ctx
  | .approve token wallet proposal => do
    let w ← s.wallet token wallet
    let p ← s.proposal proposal
    let p ← approveTransaction w p ctx
    return (s.saveProposal p, .approved p.id ctx.sender)
  | .cancelProposal token wallet proposal => do
    let w ← s.wallet token wallet
    let p ← s.proposal proposal
    cancelProposal w p ctx
    return (s.deleteProposal p, .cancelled p.id)
  | .cancelEntry token wallet proposal => do
    let w ← s.wallet token wallet
    let p ← s.proposal proposal
    let p ← cancelBorrowed w p ctx
    return (s.saveProposal p, .cancelled p.id)
  | .deleteExpiredProposal proposal => do
    let p ← s.proposal proposal
    deleteExpiredProposal p ctx
    return (s.deleteProposal p, .deleted p.id)
  | .executeTransaction token wallet proposal =>
    s.execute token wallet proposal ctx fun w p => executeTransaction w p ctx
  | .executeTransferChecked token wallet proposal deny =>
    s.execute token wallet proposal ctx fun w p => executeTransferChecked w p deny ctx
  | .executeEntry token wallet proposal => do
    ensure (wallet != proposal) (.code 1)
    let w ← s.wallet token wallet
    let p ← s.proposal proposal
    let (w', p', payment) ← executeBorrowed w p ctx
    return ((s.saveWallet token w').saveProposal p',
      .executed ⟨w, p, ctx.epochTimestampMs, payment⟩)

end System

end Kanari.Move.Multisig

import Kanari.Binding
import Kanari.ChangeSet

/-!
# Transactions

The payloads, the shape that is taken for a native balance call, the keys by which the
scheduler separates transactions, and the price of gas.
-/

namespace Kanari

open Lib

structure TransactionHeader where
  sender : String
  gasPayment : Option GasPayment
  gasLimit : Nat
  gasPrice : Nat
  nonce : Nat
  deriving DecidableEq

structure PublishedModule where
  moduleName : String
  moduleBytes : Bytes
  deriving DecidableEq

structure ExecuteFunction where
  module : String
  function : String
  typeArgs : List String
  args : List Bytes
  objectInputs : List ObjectInput
  deriving DecidableEq

inductive TransactionKind where
  | publishModule (module : PublishedModule)
  | publishPackage (modules : List PublishedModule)
  | upgradeModule (module : PublishedModule)
  | upgradePackage (modules : List PublishedModule)
  | executeFunction (call : ExecuteFunction)
  deriving DecidableEq

structure Transaction where
  header : TransactionHeader
  kind : TransactionKind
  deriving DecidableEq

inductive NativeCall where
  | transfer (coinObjectId recipient : String) (amount : Nat)
  | burn (amount : Nat)
  deriving DecidableEq

def parseBcsU64 (b : Bytes) : Option Nat := if b.length = 8 then some (Text.leNat b) else none

namespace ExecuteFunction

/-- The coin named by the first argument must be declared as a mutable input. -/
def declaresMutable (call : ExecuteFunction) (coinObjectId : String) : Bool :=
  call.objectInputs.any fun input => input.mutable &&
    (AccountAddress.fromHexLiteral input.objectRef.objectId).map AccountAddress.toHexLiteral ==
      some coinObjectId

def nativeTransfer (call : ExecuteFunction) : Option NativeCall :=
  match call.args with
  | coin :: amount :: recipient :: _ =>
    match AccountAddress.ofBytes coin with
    | none => none
    | some coin =>
      if call.declaresMutable coin.toHexLiteral then
        match parseBcsU64 amount, AccountAddress.ofBytes recipient with
        | some amount, some recipient =>
          some (.transfer coin.toHexLiteral recipient.toHexLiteral amount)
        | _, _ => none
      else none
  | _ => none

def nativeCall (call : ExecuteFunction) : Option NativeCall :=
  if call.module = "0x2::kanari" then
    if call.function = "transfer" then call.nativeTransfer
    else if call.function = "burn" then
      (call.args.getLast?.bind parseBcsU64).map .burn
    else none
  else none

end ExecuteFunction

namespace Transaction

def nativeCall (tx : Transaction) : Option NativeCall :=
  match tx.kind with
  | .executeFunction call => call.nativeCall
  | _ => none

def objectInputs (tx : Transaction) : List ObjectInput :=
  match tx.kind with
  | .executeFunction call => call.objectInputs
  | _ => []

def gasPayment (tx : Transaction) : Option GasPayment := tx.header.gasPayment

/-- Identifiers as written: two spellings of one object are two keys. -/
def objectAccessKeys (tx : Transaction) : List String :=
  tx.objectInputs.map (fun input => "object:" ++ input.objectRef.objectId) ++
    ((tx.gasPayment.map (·.paymentObjects)).getD []).map fun payment => "object:" ++ payment.objectId

def normalizedSender (tx : Transaction) : String :=
  match AccountAddress.fromHexLiteral tx.header.sender with
  | some a => a.toHexLiteral
  | none =>
    if tx.header.sender.toList.take 2 = ['0', 'x'] then tx.header.sender else "0x" ++ tx.header.sender

def parseUleb128 : Nat → Bytes → Option (Nat × Bytes)
  | 0, _ => none
  | _ + 1, [] => none
  | groups + 1, b :: rest =>
    if b.toNat < 128 then some (b.toNat, rest)
    else
      (parseUleb128 groups rest).bind fun p =>
        if p.1 = 0 then none else some (b.toNat - 128 + 128 * p.1, p.2)

def parseBcsString (arg : Bytes) : Option (List Char) :=
  (parseUleb128 5 arg).bind fun p => if p.2.length = p.1 then Text.utf8Decode p.2 else none

/-- The object that an argument may name, for calls that declare nothing. -/
def argConflictKey (arg : Bytes) : Option String :=
  match AccountAddress.ofBytes arg with
  | some a => some ("object:" ++ a.toHexLiteral)
  | none =>
    ((parseBcsString arg).or (Text.utf8Decode arg)).bind fun s =>
      let trimmed := Text.trim s
      let hex := if trimmed.take 2 = ['0', 'x'] then trimmed else '0' :: 'x' :: trimmed
      (AccountAddress.fromHexLiteral (String.ofList hex)).map fun a => "object:" ++ a.toHexLiteral

def getConflictKeys (tx : Transaction) : OrdSet String :=
  let access := OrdSet.addAll .empty tx.objectAccessKeys
  let keys := if access.entries.isEmpty then ["owner:" ++ tx.normalizedSender] else OrdSet.elems access
  let extra := match tx.kind with
    | .executeFunction call =>
      if keys.length = 1 ∧ call.nativeCall.isSome then call.args.filterMap argConflictKey else []
    | .publishModule m | .upgradeModule m => ["module:" ++ m.moduleName]
    | .publishPackage ms | .upgradePackage ms => ms.map fun m => "module:" ++ m.moduleName
  OrdSet.addAll .empty (keys ++ extra)

end Transaction

/-- The active policy divides the requested price by five, but never down to zero. -/
def effectiveGasPrice (requested : Nat) : Nat := if requested = 0 then 0 else max (requested / 5) 1

def baseGasUnits (tx : Transaction) : Nat :=
  match tx.kind with
  | .publishModule m | .upgradeModule m => 500 + m.moduleBytes.length
  | .publishPackage ms | .upgradePackage ms => 500 + (ms.map (·.moduleBytes.length)).sum
  | .executeFunction call => if call.nativeCall.isSome then 100 else 210

/-- `gas_meter.consume` on a fresh meter. -/
def consumeGas (units limit : Nat) : Except String Nat :=
  if limit < units then .error s!"Out of gas: required {units} but limit is {limit}" else .ok units

def checkedMul (a b : Nat) (e : String) : Except String Nat :=
  if a * b < u64Bound then .ok (a * b) else .error e

def saturatingMul (a b : Nat) : Nat := min (a * b) (u64Bound - 1)

end Kanari

import Kanari.Address
import Kanari.Lib.Pool

/-!
# The Move modules `balance` and `coin`

The public functions on the values they take and return, and calls of them by code outside, which
can neither copy nor drop such values. Object identifiers are left out.
-/

namespace Kanari.Move

open Lib

inductive Abort where
  | code (n : Nat)
  | arithmetic
  /-- The caller does not hold the value that the call needs. -/
  | noSuchValue
  deriving DecidableEq

def maxU64 : Nat := 18446744073709551615

structure Balance where
  value : Nat
  deriving DecidableEq

structure Supply where
  total : Nat
  deriving DecidableEq

namespace Balance

def ERR_INSUFFICIENT_BALANCE : Abort := .code 1
def ERR_OVERFLOW : Abort := .code 2
def ERR_ZERO_AMOUNT : Abort := .code 3
def ERR_INSUFFICIENT_SUPPLY : Abort := .code 4

def zero : Balance := ⟨0⟩

def create (value : Nat) : Balance := ⟨value⟩

def increase (b : Balance) (amount : Nat) : Except Abort Balance := do
  ensure (decide (0 < amount)) ERR_ZERO_AMOUNT
  ensure (decide (amount ≤ maxU64 - b.value)) ERR_OVERFLOW
  ensure (decide (b.value ≤ b.value + amount)) ERR_OVERFLOW
  return ⟨b.value + amount⟩

def decrease (b : Balance) (amount : Nat) : Except Abort Balance := do
  ensure (decide (0 < amount)) ERR_ZERO_AMOUNT
  ensure (decide (amount ≤ b.value)) ERR_INSUFFICIENT_BALANCE
  return ⟨b.value - amount⟩

def transfer (source target : Balance) (amount : Nat) : Except Abort (Balance × Balance) := do
  ensure (decide (0 < amount)) ERR_ZERO_AMOUNT
  let source ← source.decrease amount
  let target ← target.increase amount
  return (source, target)

def destroy (b : Balance) : Nat := b.value

def newSupply : Supply := ⟨0⟩

def increaseSupply (s : Supply) (amount : Nat) : Except Abort (Supply × Balance) := do
  ensure (decide (0 < amount)) ERR_ZERO_AMOUNT
  ensure (decide (amount ≤ maxU64 - s.total)) ERR_OVERFLOW
  ensure (decide (s.total ≤ s.total + amount)) ERR_OVERFLOW
  return (⟨s.total + amount⟩, create amount)

def decreaseSupply (s : Supply) (amount : Nat) : Except Abort Supply := do
  ensure (decide (0 < amount)) ERR_ZERO_AMOUNT
  ensure (decide (amount ≤ s.total)) ERR_INSUFFICIENT_SUPPLY
  return ⟨s.total - amount⟩

def merge (target source : Balance) : Except Abort Balance :=
  if 0 < source.destroy then target.increase source.destroy else .ok target

def split (b : Balance) (amount : Nat) : Except Abort (Balance × Balance) := do
  let b ← b.decrease amount
  return (b, create amount)

end Balance

structure Coin where
  balance : Balance
  deriving DecidableEq

structure TreasuryCap where
  totalSupply : Nat
  deriving DecidableEq

structure CoinMetadata where
  decimals : Nat
  name : Bytes
  symbol : Bytes
  description : Bytes
  iconUrl : Option Bytes
  deriving DecidableEq

namespace Coin

def EInvalidArg : Abort := .code 1
def ENotEnough : Abort := .code 2
def EZERO_AMOUNT : Abort := .code 3
def EOVERFLOW : Abort := .code 4
def EUNDERFLOW : Abort := .code 5
def EINVALID_DECIMALS : Abort := .code 6
def ETOO_MANY_PARTS : Abort := .code 7
def EINVALID_ASCII_CHARACTER : Abort := .code 0x10000
def EINVALID_UTF8 : Abort := .code 1

def maxSplitParts : Nat := 1024

/-- Also `create_regulated_currency`, whose additional `DenyCap` is left out. -/
def createCurrency (m : CoinMetadata) : Except Abort (TreasuryCap × CoinMetadata) := do
  ensure (decide (m.decimals ≤ 9)) EINVALID_DECIMALS
  ensure (m.symbol.all fun b => decide (b.toNat ≤ 0x7F)) EINVALID_ASCII_CHARACTER
  ensure (Text.utf8Decode m.name).isSome EINVALID_UTF8
  ensure (Text.utf8Decode m.description).isSome EINVALID_UTF8
  return (⟨0⟩, m)

def mint (cap : TreasuryCap) (amount : Nat) : Except Abort (TreasuryCap × Coin) := do
  ensure (decide (0 < amount)) EZERO_AMOUNT
  ensure (decide (cap.totalSupply + amount ≤ maxU64)) .arithmetic
  ensure (decide (cap.totalSupply ≤ cap.totalSupply + amount)) EOVERFLOW
  return (⟨cap.totalSupply + amount⟩, ⟨Balance.create amount⟩)

def burn (cap : TreasuryCap) (coin : Coin) : Except Abort (TreasuryCap × Nat) := do
  let value := coin.balance.destroy
  ensure (decide (0 < value)) EZERO_AMOUNT
  ensure (decide (value ≤ cap.totalSupply)) EUNDERFLOW
  return (⟨cap.totalSupply - value⟩, value)

def intoBalance (coin : Coin) : Balance := coin.balance

def fromBalance (balance : Balance) : Coin := ⟨balance⟩

def value (coin : Coin) : Nat := coin.balance.value

def zero : Coin := ⟨Balance.create 0⟩

def split (coin : Coin) (amount : Nat) : Except Abort (Coin × Coin) := do
  ensure (decide (0 < amount)) EZERO_AMOUNT
  ensure (decide (amount ≤ coin.value)) ENotEnough
  let (rest, part) ← coin.balance.split amount
  return (⟨rest⟩, ⟨part⟩)

def join (coin other : Coin) : Except Abort Coin := do
  let balance ← coin.balance.merge other.balance
  return ⟨balance⟩

def destroyZero (coin : Coin) : Except Abort Unit := ensure (coin.balance.value == 0) EInvalidArg

def divideLoop (splitAmount : Nat) : Nat → Coin → List Coin → Except Abort (Coin × List Coin)
  | 0, coin, parts => .ok (coin, parts)
  | n + 1, coin, parts => do
    let (coin, part) ← coin.split splitAmount
    divideLoop splitAmount n coin (parts ++ [part])

def divideIntoN (coin : Coin) (n : Nat) : Except Abort (Coin × List Coin) := do
  ensure (decide (0 < n)) EInvalidArg
  ensure (decide (n ≤ maxSplitParts)) ETOO_MANY_PARTS
  ensure (decide (n ≤ coin.value)) ENotEnough
  divideLoop (coin.value / n) (n - 1) coin []

end Coin

/-- What the four update functions of the metadata write. -/
inductive MetadataUpdate where
  | iconUrl (url : Option Bytes)
  | name (name : Bytes)
  | symbol (symbol : Bytes)
  | description (description : Bytes)

def CoinMetadata.update (m : CoinMetadata) : MetadataUpdate → CoinMetadata
  | .iconUrl url => { m with iconUrl := url }
  | .name name => { m with name := name }
  | .symbol symbol => { m with symbol := symbol }
  | .description description => { m with description := description }

/-- The live values of the two modules for one token type, wherever they are kept. -/
structure Holdings where
  coins : List Coin := []
  balances : List Balance := []
  caps : List TreasuryCap := []
  supplies : List Supply := []
  metadata : List CoinMetadata := []

/-- A call of a public function; a value is named by its position among those of its type. After
a value is moved into the call, positions count without it. -/
inductive Call where
  | createCurrency (metadata : CoinMetadata)
  | mint (cap amount : Nat)
  | mintAndTransfer (cap amount : Nat) (recipient : AccountAddress)
  | burn (cap coin : Nat)
  | intoBalance (coin : Nat)
  | fromBalance (balance : Nat)
  | coinZero
  | coinSplit (coin amount : Nat)
  | join (other coin : Nat)
  | joinEntry (other coin : Nat)
  | destroyZero (coin : Nat)
  | divideIntoN (coin n : Nat)
  | updateMetadata (cap metadata : Nat) (update : MetadataUpdate)
  | balanceZero
  | create (value : Nat)
  | increase (balance amount : Nat)
  | decrease (balance amount : Nat)
  | transfer (source target amount : Nat)
  | destroy (balance : Nat)
  | newSupply
  | increaseSupply (supply amount : Nat)
  | decreaseSupply (supply amount : Nat)
  | merge (source target : Nat)
  | balanceSplit (balance amount : Nat)
  /-- `value`, `total_supply`, `supply_total`, `has_sufficient` and `max_split_parts`. -/
  | inspect

namespace Holdings

def addCoin (h : Holdings) (coin : Coin) : Holdings := { h with coins := h.coins ++ [coin] }

def addBalance (h : Holdings) (balance : Balance) : Holdings :=
  { h with balances := h.balances ++ [balance] }

def inPlace {α : Type} (l : List α) (i : Nat) (f : α → Except Abort α) : Except Abort (List α) := do
  let (l, _) ← updateAt l i .noSuchValue fun a => do
    let a ← f a
    return (a, ())
  return l

def mint (h : Holdings) (cap amount : Nat) : Except Abort Holdings := do
  let (caps, coin) ← updateAt h.caps cap .noSuchValue fun c => Coin.mint c amount
  return { h with caps := caps }.addCoin coin

def join (h : Holdings) (other coin : Nat) : Except Abort Holdings := do
  let (other, coins) ← takeAt h.coins other .noSuchValue
  let coins ← inPlace coins coin fun c => c.join other
  return { h with coins := coins }

/-- Two references into one list are to two values. -/
def transfer (h : Holdings) (source target amount : Nat) : Except Abort Holdings :=
  match h.balances[source]?, h.balances[target]? with
  | some a, some b => do
    ensure (source != target) .noSuchValue
    let (a, b) ← a.transfer b amount
    return { h with balances := (h.balances.set source a).set target b }
  | _, _ => .error .noSuchValue

end Holdings

/-- The holdings after a call; an abort takes the whole transaction back. -/
def Call.apply (h : Holdings) : Call → Except Abort Holdings
  | createCurrency metadata => do
    let (cap, metadata) ← Coin.createCurrency metadata
    return { h with caps := h.caps ++ [cap], metadata := h.metadata ++ [metadata] }
  | mint cap amount => h.mint cap amount
  | mintAndTransfer cap amount _ => h.mint cap amount
  | burn cap coin => do
    let (coin, coins) ← takeAt h.coins coin .noSuchValue
    let (caps, _) ← updateAt h.caps cap .noSuchValue fun c => Coin.burn c coin
    return { h with coins := coins, caps := caps }
  | intoBalance coin => do
    let (coin, coins) ← takeAt h.coins coin .noSuchValue
    return { h with coins := coins }.addBalance coin.intoBalance
  | fromBalance balance => do
    let (balance, balances) ← takeAt h.balances balance .noSuchValue
    return { h with balances := balances }.addCoin (Coin.fromBalance balance)
  | coinZero => .ok (h.addCoin Coin.zero)
  | coinSplit coin amount => do
    let (coins, part) ← updateAt h.coins coin .noSuchValue fun c => c.split amount
    return { h with coins := coins }.addCoin part
  | join other coin => h.join other coin
  | joinEntry other coin => h.join other coin
  | destroyZero coin => do
    let (coin, coins) ← takeAt h.coins coin .noSuchValue
    coin.destroyZero
    return { h with coins := coins }
  | divideIntoN coin n => do
    let (coins, parts) ← updateAt h.coins coin .noSuchValue fun c => c.divideIntoN n
    return { h with coins := coins ++ parts }
  | updateMetadata cap i update => do
    ensure h.caps[cap]?.isSome .noSuchValue
    let metadata ← Holdings.inPlace h.metadata i fun m => .ok (m.update update)
    return { h with metadata := metadata }
  | balanceZero => .ok (h.addBalance Balance.zero)
  | create value => .ok (h.addBalance (Balance.create value))
  | increase balance amount => do
    let balances ← Holdings.inPlace h.balances balance fun b => b.increase amount
    return { h with balances := balances }
  | decrease balance amount => do
    let balances ← Holdings.inPlace h.balances balance fun b => b.decrease amount
    return { h with balances := balances }
  | transfer source target amount => h.transfer source target amount
  | destroy balance => do
    let (_, balances) ← takeAt h.balances balance .noSuchValue
    return { h with balances := balances }
  | newSupply => .ok { h with supplies := h.supplies ++ [Balance.newSupply] }
  | increaseSupply supply amount => do
    let (supplies, balance) ← updateAt h.supplies supply .noSuchValue fun s =>
      Balance.increaseSupply s amount
    return { h with supplies := supplies }.addBalance balance
  | decreaseSupply supply amount => do
    let supplies ← Holdings.inPlace h.supplies supply fun s => Balance.decreaseSupply s amount
    return { h with supplies := supplies }
  | merge source target => do
    let (source, balances) ← takeAt h.balances source .noSuchValue
    let balances ← Holdings.inPlace balances target fun b => b.merge source
    return { h with balances := balances }
  | balanceSplit balance amount => do
    let (balances, part) ← updateAt h.balances balance .noSuchValue fun b => b.split amount
    return { h with balances := balances }.addBalance part
  | inspect => .ok h

/-- What callers reach by calls for any token types, each call meeting `cond`. -/
inductive Reached {T : Type} [DecidableEq T] (cond : Holdings → Call → Prop) (start : T → Holdings) :
    (T → Holdings) → Prop
  | start : Reached cond start start
  | call {w : T → Holdings} {t : T} {c : Call} {h : Holdings} :
      Reached cond start w → cond (w t) c → c.apply (w t) = .ok h →
      Reached cond start (Function.update w t h)

end Kanari.Move

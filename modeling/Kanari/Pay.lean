import Kanari.DenyList
import Kanari.MoveVector

/-!
# The Move module `pay`

A coin handed to `transfer::public_transfer` is returned together with its recipient.
-/

namespace Kanari.Move.Pay

open Lib

def ENoCoins : Abort := .code 0
def ETOO_MANY_COINS : Abort := .code 2
def EDIVISION_BY_ZERO : Abort := .code 5

/-- A coin and the address it is transferred to. -/
abbrev Sent := Coin × AccountAddress

def keep (c : Coin) (sender : AccountAddress) : Sent := (c, sender)

def split (self : Coin) (splitAmount : Nat) (sender : AccountAddress) : Except Abort (Coin × Sent) := do
  ensure (decide (0 < splitAmount)) EZERO_AMOUNT
  let (self, part) ← self.split splitAmount
  return (self, keep part sender)

def splitVecLoop (sender : AccountAddress) :
    List Nat → Coin → List Sent → Except Abort (Coin × List Sent)
  | [], self, sent => .ok (self, sent)
  | amount :: amounts, self, sent => do
    let (self, part) ← split self amount sender
    splitVecLoop sender amounts self (sent ++ [part])

def splitVec (self : Coin) (splitAmounts : List Nat) (sender : AccountAddress) :
    Except Abort (Coin × List Sent) := do
  ensure (decide (splitAmounts.length ≤ Coin.maxSplitParts)) ETOO_MANY_COINS
  splitVecLoop sender splitAmounts self []

def keepLoop (sender : AccountAddress) :
    Nat → List Coin → List Sent → Except Abort (List Coin × List Sent)
  | 0, coins, sent => .ok (coins, sent)
  | rounds + 1, coins, sent => do
    let (coin, coins) ← popBack coins
    keepLoop sender rounds coins (sent ++ [(coin, sender)])

def divideAndKeep (self : Coin) (n : Nat) (sender : AccountAddress) :
    Except Abort (Coin × List Sent) := do
  ensure (decide (0 < n)) EDIVISION_BY_ZERO
  let (self, coins) ← self.divideIntoN n
  let (coins, sent) ← keepLoop sender coins.length coins []
  destroyEmpty coins
  return (self, sent)

def joinLoop : Nat → Coin → List Coin → Except Abort (Coin × List Coin)
  | 0, self, coins => .ok (self, coins)
  | rounds + 1, self, coins => do
    let (coin, coins) ← popBack coins
    let self ← self.join coin
    joinLoop rounds self coins

def joinVec (self : Coin) (coins : List Coin) : Except Abort Coin := do
  ensure (decide (coins.length ≤ Coin.maxSplitParts)) ETOO_MANY_COINS
  let (self, coins) ← joinLoop coins.length self coins
  destroyEmpty coins
  return self

def joinVecAndTransfer (coins : List Coin) (receiver sender : AccountAddress) :
    Except Abort Sent := do
  ensure (decide (receiver ≠ sender)) ESELF_PAY
  ensure (decide (0 < coins.length)) ENoCoins
  ensure (decide (coins.length ≤ Coin.maxSplitParts + 1)) ETOO_MANY_COINS
  let (self, coins) ← popBack coins
  let self ← joinVec self coins
  return (self, receiver)

end Kanari.Move.Pay

import Kanari.MoveCoin

/-!
# The Move modules `deny_list` and `pay`

The phantom type of a capability is kept as its `token`; a list has no type.
-/

namespace Kanari.Move

open Lib

structure DenyList where
  addresses : List AccountAddress
  deriving DecidableEq

structure DenyCap (Tok : Type) where
  token : Tok
  deriving DecidableEq

namespace DenyList

def newDenylist : DenyList := ⟨[]⟩

variable {Tok : Type}

def denyListAdd (d : DenyList) (_cap : DenyCap Tok) (addr : AccountAddress) : DenyList :=
  if addr ∈ d.addresses then d else ⟨d.addresses ++ [addr]⟩

def denyListRemove (d : DenyList) (_cap : DenyCap Tok) (addr : AccountAddress) : DenyList :=
  ⟨d.addresses.erase addr⟩

def contains (d : DenyList) (addr : AccountAddress) : Bool := decide (addr ∈ d.addresses)

end DenyList

namespace Pay

def EDENIED : Abort := .code 1
def ESELF_PAY : Abort := .code 3
def EZERO_AMOUNT : Abort := .code 4

def splitAndTransfer (c : Coin) (amount : Nat) (recipient sender : AccountAddress) :
    Except Abort (Coin × Coin) := do
  ensure (decide (0 < amount)) EZERO_AMOUNT
  ensure (decide (recipient ≠ sender)) ESELF_PAY
  c.split amount

def splitAndTransferChecked (c : Coin) (amount : Nat) (recipient : AccountAddress) (deny : DenyList)
    (sender : AccountAddress) : Except Abort (Coin × Coin) := do
  ensure (!deny.contains recipient) EDENIED
  splitAndTransfer c amount recipient sender

end Pay

/-- A call that is given a deny list, which is named by its position. -/
inductive DenyListCall (Tok : Type) where
  | newDenylist
  | add (list : Nat) (cap : DenyCap Tok) (addr : AccountAddress)
  | remove (list : Nat) (cap : DenyCap Tok) (addr : AccountAddress)
  | contains (list : Nat) (addr : AccountAddress)
  | length (list : Nat)
  | splitAndTransferChecked (token : Tok) (list : Nat) (c : Coin) (amount : Nat)
      (recipient sender : AccountAddress)

namespace DenyListCall

variable {Tok : Type}

def run (lists : List DenyList) : DenyListCall Tok → Except Abort (List DenyList)
  | newDenylist => .ok (lists ++ [DenyList.newDenylist])
  | add list cap addr => do
    let d ← orError lists[list]? .noSuchValue
    return lists.set list (d.denyListAdd cap addr)
  | remove list cap addr => do
    let d ← orError lists[list]? .noSuchValue
    return lists.set list (d.denyListRemove cap addr)
  | contains list _ => do
    let _ ← orError lists[list]? .noSuchValue
    return lists
  | length list => do
    let _ ← orError lists[list]? .noSuchValue
    return lists
  | splitAndTransferChecked _ list c amount recipient sender => do
    let d ← orError lists[list]? .noSuchValue
    let _ ← Pay.splitAndTransferChecked c amount recipient d sender
    return lists

def cap? : DenyListCall Tok → Option (DenyCap Tok)
  | add _ cap _ => some cap
  | remove _ cap _ => some cap
  | _ => none

end DenyListCall

end Kanari.Move

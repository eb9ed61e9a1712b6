import Kanari.Lib.Readers
import Kanari.MathNatives
import Kanari.MoveVector

/-!
# The Move module `bcs`

A reader holds the bytes that are left in reverse order and takes them from the back.
-/

namespace Kanari.Move

open Lib

/-- The bytes that are left, the next one last. -/
structure BCS where
  bytes : Bytes
  deriving DecidableEq

namespace BCS

def EOutOfRange : Abort := .code 0
def ENotBool : Abort := .code 1
def ELenOutOfRange : Abort := .code 2
def EAddressParseError : Abort := .code 0

def addressLength : Nat := 32

def new (bytes : Bytes) : BCS := ⟨bytes.reverse⟩

def intoRemainderBytes (bcs : BCS) : Bytes := bcs.bytes.reverse

abbrev Peel (α : Type) := Reader BCS Abort α

def popByte : Peel UInt8 := fun bcs => do
  let (byte, bytes) ← popBack bcs.bytes
  .ok (byte, ⟨bytes⟩)

def addressFromBytes (bytes : Bytes) : Except Abort AccountAddress :=
  orError (AccountAddress.ofBytes bytes) EAddressParseError

def peelAddress : Peel AccountAddress := fun bcs => do
  ensure (decide (addressLength ≤ bcs.bytes.length)) EOutOfRange
  let (addrBytes, bcs) ← repeatRead popByte addressLength [] bcs
  let addr ← addressFromBytes addrBytes
  .ok (addr, bcs)

def peelU8 : Peel UInt8 := fun bcs => do
  ensure (decide (1 ≤ bcs.bytes.length)) EOutOfRange
  popByte bcs

def peelBool : Peel Bool := fun bcs => do
  let (value, bcs) ← peelU8 bcs
  if value = 0 then .ok (false, bcs)
  else if value = 1 then .ok (true, bcs)
  else .error ENotBool

def shiftedByte (w : Nat) (byte : UInt8) (i : Nat) : Word w :=
  ⟨byte.toNat <<< i % 2 ^ w, Nat.mod_lt _ (Nat.two_pow_pos w)⟩

def peelWordLoop (w : Nat) : (rounds i : Nat) → Word w → Peel (Word w)
  | 0, _, value, bcs => .ok (value, bcs)
  | rounds + 1, i, value, bcs => do
    let (byte, bcs) ← popByte bcs
    let value ← moveAdd value (shiftedByte w byte i)
    peelWordLoop w rounds (i + 8) value bcs

def peelWord (w size : Nat) : Peel (Word w) := fun bcs => do
  ensure (decide (size ≤ bcs.bytes.length)) EOutOfRange
  peelWordLoop w size 0 ⟨0, Nat.two_pow_pos w⟩ bcs

def peelU64 : Peel (Word 64) := peelWord 64 8

def peelU128 : Peel (Word 128) := peelWord 128 16

def peelU256 : Peel (Word 256) := peelWord 256 32

/-- The length loop; `left` is how many bytes it may still take. -/
def peelVecLengthLoop : (left total shift : Nat) → Peel Nat
  | 0, _, _, _ => .error ELenOutOfRange
  | left + 1, total, shift, bcs => do
    let (byte, bcs) ← popByte bcs
    let total := total ||| ((byte.toNat &&& 0x7f) <<< shift % 2 ^ 64)
    if byte.toNat &&& 0x80 = 0 then .ok (total, bcs)
    else peelVecLengthLoop left total (shift + 7) bcs

def peelVecLength : Peel Nat := peelVecLengthLoop 5 0 0

def peelVec {α : Type} (peel : Peel α) : Peel (List α) := fun bcs => do
  let (len, bcs) ← peelVecLength bcs
  repeatRead peel len [] bcs

def peelVecAddress : Peel (List AccountAddress) := peelVec peelAddress

def peelVecBool : Peel (List Bool) := peelVec peelBool

def peelVecU8 : Peel Bytes := peelVec peelU8

def peelVecVecU8 : Peel (List Bytes) := peelVec peelVecU8

def peelVecU64 : Peel (List (Word 64)) := peelVec peelU64

def peelVecU128 : Peel (List (Word 128)) := peelVec peelU128

def peelOption {α : Type} (peel : Peel α) : Peel (Option α) := fun bcs => do
  let (present, bcs) ← peelBool bcs
  if present then
    let (value, bcs) ← peel bcs
    .ok (some value, bcs)
  else .ok (none, bcs)

def peelOptionAddress : Peel (Option AccountAddress) := peelOption peelAddress

def peelOptionBool : Peel (Option Bool) := peelOption peelBool

def peelOptionU8 : Peel (Option UInt8) := peelOption peelU8

def peelOptionU64 : Peel (Option (Word 64)) := peelOption peelU64

def peelOptionU128 : Peel (Option (Word 128)) := peelOption peelU128

end BCS

end Kanari.Move

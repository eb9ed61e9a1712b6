import Mathlib.Data.List.Basic
import Mathlib.Tactic.IntervalCases

/-!
# Hexadecimal text

Two digits per byte, lower case on output, either case on input.
-/

namespace Kanari.Lib.Hex

def hexDigit (n : Nat) : Char :=
  if n < 10 then Char.ofNat ('0'.toNat + n) else Char.ofNat ('a'.toNat + (n - 10))

def hexValue (c : Char) : Option Nat :=
  if '0' ≤ c ∧ c ≤ '9' then some (c.toNat - '0'.toNat)
  else if 'a' ≤ c ∧ c ≤ 'f' then some (c.toNat - 'a'.toNat + 10)
  else if 'A' ≤ c ∧ c ≤ 'F' then some (c.toNat - 'A'.toNat + 10)
  else none

def isHexDigit (c : Char) : Bool := (hexValue c).isSome

def encode : List UInt8 → List Char
  | [] => []
  | b :: bs => hexDigit (b.toNat / 16) :: hexDigit (b.toNat % 16) :: encode bs

/-- An odd number of digits and a digit outside `0-9a-fA-F` are both rejected. -/
def decode : List Char → Option (List UInt8)
  | [] => some []
  | [_] => none
  | hi :: lo :: rest => do
    let h ← hexValue hi
    let l ← hexValue lo
    let bs ← decode rest
    some (UInt8.ofNat (16 * h + l) :: bs)

lemma hexValue_hexDigit {n : Nat} (hn : n < 16) : hexValue (hexDigit n) = some n := by
  interval_cases n <;> decide

lemma decode_encode (bs : List UInt8) : decode (encode bs) = some bs := by
  induction bs with
  | nil => rfl
  | cons b bs ih =>
    have hb : b.toNat < 256 := b.toNat_lt
    have hbyte : UInt8.ofNat (16 * (b.toNat / 16) + b.toNat % 16) = b := by
      rw [Nat.div_add_mod]
      exact UInt8.ofNat_toNat
    simp only [encode, decode]
    rw [hexValue_hexDigit (by omega), hexValue_hexDigit (Nat.mod_lt _ (by omega)), ih]
    simp only [Option.bind_eq_bind, Option.bind_some, hbyte]

@[simp] lemma length_encode (bs : List UInt8) : (encode bs).length = 2 * bs.length := by
  induction bs with
  | nil => rfl
  | cons b bs ih => simp only [encode, List.length_cons, ih]; omega

lemma isHexDigit_of_mem_encode {bs : List UInt8} {c : Char} (h : c ∈ encode bs) :
    isHexDigit c = true := by
  induction bs with
  | nil => simp [encode] at h
  | cons b bs ih =>
    have hb : b.toNat < 256 := b.toNat_lt
    simp only [encode, List.mem_cons] at h
    rcases h with rfl | rfl | h
    · simp [isHexDigit, hexValue_hexDigit (n := b.toNat / 16) (by omega)]
    · simp [isHexDigit, hexValue_hexDigit (n := b.toNat % 16) (Nat.mod_lt _ (by omega))]
    · exact ih h

end Kanari.Lib.Hex

import Mathlib.Data.List.Basic
import Mathlib.Algebra.Ring.Nat
import Mathlib.Algebra.Order.Ring.Nat

/-!
# Text and little-endian numbers as byte lists

Everything is structurally recursive, so closed terms evaluate in the kernel.
-/

namespace Kanari.Lib.Text

def isWhitespace (c : Char) : Bool :=
  let n := c.toNat
  (9 ≤ n && n ≤ 13) || n == 32 || n == 0x85 || n == 0xA0 || n == 0x1680 ||
    (0x2000 ≤ n && n ≤ 0x200A) || n == 0x2028 || n == 0x2029 || n == 0x202F || n == 0x205F ||
    n == 0x3000

def trim (s : List Char) : List Char :=
  ((s.dropWhile isWhitespace).reverse.dropWhile isWhitespace).reverse

lemma dropWhile_of_none {p : Char → Bool} {s : List Char} (h : ∀ c ∈ s, p c = false) :
    s.dropWhile p = s := by
  cases s with
  | nil => rfl
  | cons c s => simp [h c List.mem_cons_self]

lemma trim_of_no_whitespace {s : List Char} (h : ∀ c ∈ s, isWhitespace c = false) : trim s = s := by
  have hrev : ∀ c ∈ s.reverse, isWhitespace c = false := by
    intro c hc
    exact h c (List.mem_reverse.mp hc)
  unfold trim
  rw [dropWhile_of_none h, dropWhile_of_none hrev, List.reverse_reverse]

def isContinuation (b : Nat) : Bool := 0x80 ≤ b && b ≤ 0xBF

/-- Strict UTF-8: no overlong forms, no surrogates, nothing above U+10FFFF. -/
def utf8Decode : List UInt8 → Option (List Char)
  | [] => some []
  | b0 :: rest =>
    let n0 := b0.toNat
    if n0 < 0x80 then (utf8Decode rest).map (Char.ofNat n0 :: ·)
    else match rest with
      | [] => none
      | b1 :: rest1 =>
        let n1 := b1.toNat
        if 0xC2 ≤ n0 ∧ n0 ≤ 0xDF then
          if isContinuation n1 then
            (utf8Decode rest1).map (Char.ofNat ((n0 - 0xC0) * 64 + (n1 - 0x80)) :: ·)
          else none
        else match rest1 with
          | [] => none
          | b2 :: rest2 =>
            let n2 := b2.toNat
            if 0xE0 ≤ n0 ∧ n0 ≤ 0xEF then
              if isContinuation n1 && isContinuation n2 && (n0 != 0xE0 || 0xA0 ≤ n1) &&
                  (n0 != 0xED || n1 ≤ 0x9F) then
                (utf8Decode rest2).map
                  (Char.ofNat ((n0 - 0xE0) * 4096 + (n1 - 0x80) * 64 + (n2 - 0x80)) :: ·)
              else none
            else match rest2 with
              | [] => none
              | b3 :: rest3 =>
                let n3 := b3.toNat
                if 0xF0 ≤ n0 ∧ n0 ≤ 0xF4 then
                  if isContinuation n1 && isContinuation n2 && isContinuation n3 &&
                      (n0 != 0xF0 || 0x90 ≤ n1) && (n0 != 0xF4 || n1 ≤ 0x8F) then
                    (utf8Decode rest3).map (Char.ofNat ((n0 - 0xF0) * 262144 +
                      (n1 - 0x80) * 4096 + (n2 - 0x80) * 64 + (n3 - 0x80)) :: ·)
                  else none
                else none

def parseDecimal (s : List Char) : Option Nat :=
  if s.isEmpty || !s.all Char.isDigit then none
  else some (s.foldl (fun acc c => 10 * acc + (c.toNat - '0'.toNat)) 0)

/-- A number below `2 ^ width`, with an optional leading `+`. -/
def parseUnsigned (width : Nat) (s : List Char) : Option Nat :=
  let digits := match s with
    | '+' :: rest => rest
    | other => other
  (parseDecimal digits).bind fun n => if n < 2 ^ width then some n else none

def leBytes : Nat → Nat → List UInt8
  | 0, _ => []
  | width + 1, n => UInt8.ofNat (n % 256) :: leBytes width (n / 256)

def leNat : List UInt8 → Nat
  | [] => 0
  | b :: bs => b.toNat + 256 * leNat bs

@[simp] lemma length_leBytes (width n : Nat) : (leBytes width n).length = width := by
  induction width generalizing n with
  | zero => rfl
  | succ width ih => simp [leBytes, ih]

lemma leNat_leBytes (width n : Nat) (hn : n < 256 ^ width) : leNat (leBytes width n) = n := by
  induction width generalizing n with
  | zero =>
    have : n = 0 := by simpa using hn
    simp [leBytes, leNat, this]
  | succ width ih =>
    have hdiv : n / 256 < 256 ^ width := by
      rw [Nat.div_lt_iff_lt_mul (by omega)]
      rwa [Nat.pow_succ] at hn
    have hbyte : (UInt8.ofNat (n % 256)).toNat = n % 256 := by simp
    simp only [leBytes, leNat, ih _ hdiv, hbyte]
    omega

lemma leNat_lt (bs : List UInt8) : leNat bs < 256 ^ bs.length := by
  induction bs with
  | nil => simp [leNat]
  | cons b bs ih =>
    have hb : b.toNat < 256 := b.toNat_lt
    simp only [leNat, List.length_cons, Nat.pow_succ]
    omega

lemma leNat_injective {bs bs' : List UInt8} (hlen : bs.length = bs'.length)
    (h : leNat bs = leNat bs') : bs = bs' := by
  induction bs generalizing bs' with
  | nil => exact (List.length_eq_zero_iff.mp hlen.symm).symm
  | cons b bs ih =>
    cases bs' with
    | nil => cases hlen
    | cons b' bs' =>
      simp only [leNat] at h
      have hb : b.toNat < 256 := b.toNat_lt
      have hb' : b'.toNat < 256 := b'.toNat_lt
      have hbyte : b = b' := UInt8.toNat_inj.mp (by omega)
      rw [hbyte, ih (by simpa using hlen) (by omega)]

end Kanari.Lib.Text

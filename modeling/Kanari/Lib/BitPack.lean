import Mathlib.Data.List.Basic
import Mathlib.Data.Nat.Bitwise
import Mathlib.Tactic.Ring

/-!
# Bits in bytes

Bits as a number, lowest bit first, and packed into bytes, the last byte filled up with zeros.
-/

namespace Kanari.Lib

def bitsValue : List Bool → Nat
  | [] => 0
  | b :: l => b.toNat + 2 * bitsValue l

lemma bitsValue_lt (l : List Bool) : bitsValue l < 2 ^ l.length := by
  induction l with
  | nil => simp [bitsValue]
  | cons b l ih =>
    have hb := Bool.toNat_lt b
    rw [bitsValue, List.length_cons, Nat.pow_succ]
    omega

lemma testBit_bitsValue (l : List Bool) (i : Nat) : (bitsValue l).testBit i = l.getD i false := by
  induction l generalizing i with
  | nil => simp [bitsValue]
  | cons b l ih =>
    cases i with
    | zero =>
      rw [bitsValue, Nat.testBit_zero, Nat.add_mul_mod_self_left]
      cases b <;> rfl
    | succ i =>
      have hdiv : (b.toNat + 2 * bitsValue l) / 2 = bitsValue l := by
        have hb := Bool.toNat_lt b
        omega
      rw [bitsValue, Nat.testBit_succ, hdiv, ih, List.getD_cons_succ]

lemma bitsValue_concat (l : List Bool) (b : Bool) :
    bitsValue (l ++ [b]) = bitsValue l + b.toNat * 2 ^ l.length := by
  induction l with
  | nil => simp [bitsValue]
  | cons a l ih =>
    rw [List.cons_append, bitsValue, ih, bitsValue, List.length_cons, Nat.pow_succ]
    ring

lemma bitsValue_or (l : List Bool) : bitsValue l ||| 1 <<< l.length = bitsValue (l ++ [true]) := by
  rw [Nat.or_comm, ← Nat.shiftLeft_add_eq_or_of_lt (bitsValue_lt l), bitsValue_concat,
    Nat.shiftLeft_eq, Nat.add_comm]
  rfl

def byteOf (l : List Bool) : UInt8 := UInt8.ofNat (bitsValue l)

def packBits : List Bool → List UInt8
  | [] => []
  | b :: l => byteOf ((b :: l).take 8) :: packBits ((b :: l).drop 8)
termination_by l => l.length
decreasing_by
  simp only [List.length_drop, List.length_cons]
  omega

variable {l : List Bool}

lemma packBits_of_ne_nil (h : l ≠ []) : packBits l = byteOf (l.take 8) :: packBits (l.drop 8) := by
  cases l with
  | nil => exact absurd rfl h
  | cons b l => rw [packBits]

@[simp] lemma packBits_nil : packBits [] = [] := by rw [packBits]

lemma packBits_append (h : l.length = 8) (rest : List Bool) :
    packBits (l ++ rest) = byteOf l :: packBits rest := by
  have hne : l ++ rest ≠ [] := by
    rintro hnil
    rw [(List.append_eq_nil_iff.1 hnil).1] at h
    cases h
  rw [packBits_of_ne_nil hne, List.take_left' h, List.drop_left' h]

lemma packBits_short (hne : l ≠ []) (h : l.length < 8) : packBits l = [byteOf l] := by
  rw [packBits_of_ne_nil hne, List.take_of_length_le h.le, List.drop_of_length_le h.le, packBits_nil]

lemma length_packBits (l : List Bool) : (packBits l).length = (l.length + 7) / 8 := by
  induction l using packBits.induct with
  | case1 => simp
  | case2 b l ih =>
    rw [packBits, List.length_cons, ih, List.length_drop, List.length_cons]
    omega

lemma testBit_byteOf (h : l.length ≤ 8) (i : Nat) :
    (byteOf l).toNat.testBit i = l.getD i false := by
  have hlt : bitsValue l < 256 :=
    (bitsValue_lt l).trans_le (Nat.pow_le_pow_right (by decide) h)
  rw [byteOf, UInt8.toNat_ofNat_of_lt' hlt, testBit_bitsValue]

/-- Each bit is found in its byte. -/
theorem testBit_packBits (l : List Bool) {i : Nat} (h : i < l.length) :
    ((packBits l).getD (i / 8) 0).toNat.testBit (i % 8) = l.getD i false := by
  induction l using packBits.induct generalizing i with
  | case1 => cases h
  | case2 b l ih =>
    rw [packBits]
    by_cases hi : i < 8
    · rw [Nat.div_eq_of_lt hi, Nat.mod_eq_of_lt hi, List.getD_cons_zero,
        testBit_byteOf (List.length_take_le _ _), List.getD_eq_getElem?_getD,
        List.getD_eq_getElem?_getD, List.getElem?_take_of_lt hi]
    · have hdiv : i / 8 = (i - 8) / 8 + 1 := by omega
      have hmod : i % 8 = (i - 8) % 8 := by omega
      have hlt : i - 8 < ((b :: l).drop 8).length := by
        rw [List.length_drop]
        omega
      rw [hdiv, hmod, List.getD_cons_succ, ih hlt]
      simp only [List.getD_eq_getElem?_getD, List.getElem?_drop]
      rw [Nat.add_sub_cancel' (by omega)]

end Kanari.Lib

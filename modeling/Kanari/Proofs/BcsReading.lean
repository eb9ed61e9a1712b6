import Kanari.BcsReader
import Kanari.Binding
import Mathlib.Data.Nat.Bitwise
import Mathlib.Tactic.Ring

/-!
# The reader of `bcs` inverts the encoding

The typed values that the module can read are a type of their own, with their encoding, so that a
sequence of them is a list.
-/

namespace Kanari.Proofs

open Lib Lib.Text Move Move.BCS

lemma new_cons (byte : UInt8) (rest : Bytes) : (BCS.new (byte :: rest)).bytes = rest.reverse ++ [byte] := by
  simp [BCS.new]

@[simp] lemma length_new (bytes : Bytes) : (BCS.new bytes).bytes.length = bytes.length := by
  simp [BCS.new]

lemma popByte_new (byte : UInt8) (rest : Bytes) :
    popByte (BCS.new (byte :: rest)) = .ok (byte, BCS.new rest) := by
  rw [popByte, new_cons, popBack_concat, ok_bind]
  rfl

lemma reads_popByte (byte : UInt8) : Reads BCS.new popByte [byte] byte :=
  popByte_new byte

lemma reads_peelU8 (byte : UInt8) : Reads BCS.new peelU8 [byte] byte := by
  intro rest
  rw [peelU8, length_new, decide_eq_true (by simp), ensure_true, ok_bind]
  exact reads_popByte byte rest

def boolCode (b : Bool) : Bytes := [if b then 1 else 0]

lemma reads_peelBool (b : Bool) : Reads BCS.new peelBool (boolCode b) b := by
  intro rest
  rw [peelBool, boolCode, reads_peelU8 _ rest, ok_bind]
  cases b <;> rfl

lemma reads_peelAddress (a : AccountAddress) : Reads BCS.new peelAddress a.bytes a := by
  intro rest
  have hloop := reads_repeatRead (fun byte => [byte])
    (fun byte (_ : byte ∈ a.bytes) => reads_popByte byte) [] rest
  rw [a.length_eq, List.flatMap_singleton', List.nil_append] at hloop
  have hlen : addressLength ≤ (a.bytes ++ rest).length := by
    rw [List.length_append, a.length_eq]
    exact Nat.le_add_right _ _
  have haddr : addressFromBytes a.bytes = .ok a := by
    rw [addressFromBytes, AccountAddress.ofBytes, dif_pos a.length_eq]
    rfl
  rw [peelAddress, length_new, decide_eq_true hlen, ensure_true, ok_bind, addressLength, hloop,
    ok_bind]
  simp only [haddr, ok_bind]

variable {n shift total : Nat}

/-- The loop adds the bytes at their places; nothing is shifted out and no sum overflows. -/
lemma peelWordLoop_new {w rounds i : Nat} {value : Word w} (hw : i + 8 * rounds = w)
    (hn : n < 256 ^ rounds) (hvalue : value.val < 2 ^ i) (rest : Bytes) :
    ∃ word : Word w, word.val = value.val + n * 2 ^ i ∧
      peelWordLoop w rounds i value (BCS.new (leBytes rounds n ++ rest)) =
        .ok (word, BCS.new rest) := by
  induction rounds generalizing i n value with
  | zero =>
    have hn0 : n = 0 := by simpa using hn
    exact ⟨value, by simp [hn0], rfl⟩
  | succ rounds ih =>
    have hbyte : (UInt8.ofNat (n % 256)).toNat = n % 256 := by simp
    have hplace : n % 256 * 2 ^ i + 2 ^ i ≤ 2 ^ (i + 8) := by
      rw [pow_add, ← Nat.succ_mul, Nat.mul_comm]
      exact Nat.mul_le_mul_left _ (Nat.mod_lt n (by decide))
    have hword : 2 ^ (i + 8) ≤ 2 ^ w := Nat.pow_le_pow_right (by decide) (by omega)
    have hshifted : (shiftedByte w (UInt8.ofNat (n % 256)) i).val = n % 256 * 2 ^ i := by
      change (UInt8.ofNat (n % 256)).toNat <<< i % 2 ^ w = _
      rw [hbyte, Nat.shiftLeft_eq]
      exact Nat.mod_eq_of_lt (by omega)
    let next : Word w := ⟨value.val + n % 256 * 2 ^ i, by omega⟩
    have hadd : moveAdd value (shiftedByte w (UInt8.ofNat (n % 256)) i) = .ok next :=
      moveAdd_eq_ok.2 (by rw [hshifted])
    have hnext : next.val < 2 ^ (i + 8) :=
      show value.val + n % 256 * 2 ^ i < 2 ^ (i + 8) by omega
    obtain ⟨word, hval, hloop⟩ := ih (i := i + 8) (n := n / 256) (by omega)
      (by rw [Nat.div_lt_iff_lt_mul (by decide), ← Nat.pow_succ]; exact hn) hnext
    refine ⟨word, ?_, ?_⟩
    · rw [hval, pow_add]
      change value.val + n % 256 * 2 ^ i + n / 256 * (2 ^ i * 256) = value.val + n * 2 ^ i
      have hsplit := congrArg (· * 2 ^ i) (Nat.div_add_mod n 256)
      simp only [Nat.add_mul] at hsplit
      rw [← hsplit]
      ring
    · rw [leBytes, List.cons_append, peelWordLoop, popByte_new, ok_bind]
      simp only [hadd, ok_bind, hloop]

def wordCode (w size : Nat) (n : Word w) : Bytes := leBytes size n.val

lemma reads_peelWord {w size : Nat} (hw : 8 * size = w) (n : Word w) :
    Reads BCS.new (peelWord w size) (wordCode w size n) n := by
  intro rest
  have hpow : 2 ^ w = 256 ^ size := by rw [← hw, pow_mul]; rfl
  have hn : n.val < 256 ^ size := hpow ▸ n.isLt
  have hzero : (⟨0, Nat.two_pow_pos w⟩ : Word w).val < 2 ^ 0 := Nat.one_pos
  obtain ⟨word, hval, hloop⟩ := peelWordLoop_new (by omega) hn hzero rest
  have hword : word = n := Fin.ext (by rw [hval]; simp)
  rw [peelWord, wordCode, length_new, decide_eq_true (by simp), ensure_true, ok_bind, hloop, hword]

lemma byte_low (byte : Nat) : byte &&& 0x7f = byte % 128 :=
  Nat.and_two_pow_sub_one_eq_mod byte 7

lemma byte_last {byte : Nat} (h : byte < 256) : byte &&& 0x80 = 0 ↔ byte < 128 := by
  have hbit : byte &&& 0x80 = (byte.testBit 7).toNat * 2 ^ 7 := Nat.and_two_pow byte 7
  rw [hbit, Nat.testBit_eq_decide_div_mod_eq]
  by_cases hhigh : byte / 2 ^ 7 % 2 = 1
  · rw [decide_eq_true hhigh]
    simp only [Bool.toNat_true]
    omega
  · rw [decide_eq_false hhigh]
    simp only [Bool.toNat_false]
    omega

lemma length_group {group : Nat} (htotal : total < 2 ^ shift) (hgroup : group < 128)
    (hshift : shift + 7 ≤ 64) :
    total ||| (group <<< shift % 2 ^ 64) = total + group * 2 ^ shift ∧
      total + group * 2 ^ shift < 2 ^ (shift + 7) := by
  have hplace : group * 2 ^ shift + 2 ^ shift ≤ 2 ^ (shift + 7) := by
    rw [pow_add, ← Nat.succ_mul, Nat.mul_comm]
    exact Nat.mul_le_mul_left _ hgroup
  have hword : 2 ^ (shift + 7) ≤ 2 ^ 64 := Nat.pow_le_pow_right (by decide) hshift
  have hsmall : group <<< shift % 2 ^ 64 = group <<< shift := by
    refine Nat.mod_eq_of_lt ?_
    rw [Nat.shiftLeft_eq]
    omega
  refine ⟨?_, by omega⟩
  rw [hsmall, Nat.or_comm, ← Nat.shiftLeft_add_eq_or_of_lt htotal, Nat.shiftLeft_eq, Nat.add_comm]

lemma peelVecLengthLoop_last {left : Nat} (hn : n < 128) (htotal : total < 2 ^ shift)
    (hshift : shift + 7 ≤ 64) (rest : Bytes) :
    peelVecLengthLoop (left + 1) total shift (BCS.new ([UInt8.ofNat n] ++ rest)) =
      .ok (total + n * 2 ^ shift, BCS.new rest) := by
  have hbyte : (UInt8.ofNat n).toNat = n := by
    rw [UInt8.toNat_ofNat']
    omega
  have hlow : n &&& 0x7f = n := by
    rw [byte_low]
    omega
  have hstop : n &&& 0x80 = 0 := (byte_last (by omega)).2 hn
  rw [List.singleton_append, peelVecLengthLoop, popByte_new, ok_bind]
  simp only [hbyte, hlow, (length_group htotal hn hshift).1, if_pos hstop]

lemma peelVecLengthLoop_new {left : Nat} (hn : n < 128 ^ (left + 1)) (htotal : total < 2 ^ shift)
    (hshift : shift + 7 * (left + 1) ≤ 64) (rest : Bytes) :
    peelVecLengthLoop (left + 1) total shift (BCS.new (uleb128 (left + 1) n ++ rest)) =
      .ok (total + n * 2 ^ shift, BCS.new rest) := by
  induction left generalizing total shift n with
  | zero =>
    have hlast : n < 128 := by simpa using hn
    rw [uleb128, if_pos hlast]
    exact peelVecLengthLoop_last hlast htotal (by omega) rest
  | succ left ih =>
    by_cases hlast : n < 128
    · rw [uleb128, if_pos hlast]
      exact peelVecLengthLoop_last hlast htotal (by omega) rest
    · have hmod : n % 128 < 128 := Nat.mod_lt n (by decide)
      have hbyte : (UInt8.ofNat (n % 128 + 128)).toNat = n % 128 + 128 := by
        rw [UInt8.toNat_ofNat']
        omega
      have hlow : (n % 128 + 128) &&& 0x7f = n % 128 := by
        rw [byte_low]
        omega
      have hmore : ¬(n % 128 + 128) &&& 0x80 = 0 := by
        rw [byte_last (by omega)]
        omega
      obtain ⟨hor, hnext⟩ := length_group htotal hmod (by omega)
      rw [uleb128, if_neg hlast, List.cons_append, peelVecLengthLoop, popByte_new, ok_bind]
      simp only [hbyte, hlow, hor, if_neg hmore]
      rw [ih (Nat.div_lt_of_lt_mul (by rw [← Nat.pow_succ']; exact hn)) hnext (by omega)]
      have hsplit : total + n % 128 * 2 ^ shift + n / 128 * 2 ^ (shift + 7) = total + n * 2 ^ shift := by
        have hdiv := congrArg (· * 2 ^ shift) (Nat.div_add_mod n 128)
        simp only [Nat.add_mul] at hdiv
        rw [← hdiv, pow_add]
        ring
      rw [hsplit]

lemma reads_peelVecLength (hn : n < 2 ^ 32) : Reads BCS.new peelVecLength (uleb128 5 n) n := by
  intro rest
  rw [peelVecLength, peelVecLengthLoop_new (by omega) Nat.one_pos (by decide) rest]
  simp

lemma reads_peelVec {α : Type} {peel : Peel α} (code : α → Bytes) {as : List α}
    (h : ∀ a ∈ as, Reads BCS.new peel (code a) a) (hlen : as.length < 2 ^ 32) :
    Reads BCS.new (peelVec peel) (uleb128 5 as.length ++ as.flatMap code) as :=
  (reads_peelVecLength hlen).bind (fun len => repeatRead peel len []) (reads_repeatRead code h [])

def optionCode {α : Type} (code : α → Bytes) : Option α → Bytes
  | none => boolCode false
  | some a => boolCode true ++ code a

lemma reads_peelOption {α : Type} {peel : Peel α} {code : α → Bytes}
    (h : ∀ a, Reads BCS.new peel (code a) a) (o : Option α) :
    Reads BCS.new (peelOption peel) (optionCode code o) o := by
  intro rest
  cases o with
  | none =>
    rw [optionCode, peelOption, reads_peelBool false rest]
    rfl
  | some a =>
    rw [optionCode, List.append_assoc, peelOption, reads_peelBool true (code a ++ rest), ok_bind]
    simp only [if_true, h a rest, ok_bind]

/-- The types that occur in vectors and options. -/
inductive BcsElem
  | address
  | bool
  | u8
  | u64
  | u128

/-- The types that the module can read. -/
inductive BcsType
  | elem (e : BcsElem)
  | u256
  | vec (e : BcsElem)
  | vecVecU8
  | option (e : BcsElem)

def BcsElem.Val : BcsElem → Type
  | .address => AccountAddress
  | .bool => Bool
  | .u8 => UInt8
  | .u64 => Word 64
  | .u128 => Word 128

def BcsType.Val : BcsType → Type
  | .elem e => e.Val
  | .u256 => Word 256
  | .vec e => List e.Val
  | .vecVecU8 => List Bytes
  | .option e => Option e.Val

def BcsElem.encode : (e : BcsElem) → e.Val → Bytes
  | .address, a => AccountAddress.bytes a
  | .bool, b => boolCode b
  | .u8, byte => [byte]
  | .u64, n => wordCode 64 8 n
  | .u128, n => wordCode 128 16 n

def BcsType.encode : (t : BcsType) → t.Val → Bytes
  | .elem e, v => e.encode v
  | .u256, n => wordCode 256 32 n
  | .vec e, vs => uleb128 5 (List.length vs) ++ List.flatMap e.encode vs
  | .vecVecU8, vs => uleb128 5 (List.length vs) ++ List.flatMap bcsBytes vs
  | .option e, o => optionCode e.encode o

def BcsElem.peel : (e : BcsElem) → Peel e.Val
  | .address => peelAddress
  | .bool => peelBool
  | .u8 => peelU8
  | .u64 => peelU64
  | .u128 => peelU128

def BcsType.peel : (t : BcsType) → Peel t.Val
  | .elem e => e.peel
  | .u256 => peelU256
  | .vec .address => peelVecAddress
  | .vec .bool => peelVecBool
  | .vec .u8 => peelVecU8
  | .vec .u64 => peelVecU64
  | .vec .u128 => peelVecU128
  | .vecVecU8 => peelVecVecU8
  | .option .address => peelOptionAddress
  | .option .bool => peelOptionBool
  | .option .u8 => peelOptionU8
  | .option .u64 => peelOptionU64
  | .option .u128 => peelOptionU128

def BcsType.Fits : (t : BcsType) → t.Val → Prop
  | .vec _, vs => List.length vs < 2 ^ 32
  | .vecVecU8, vs => List.length vs < 2 ^ 32 ∧ ∀ v : Bytes, List.Mem v vs → v.length < 2 ^ 32
  | _, _ => True

abbrev TypedValue := Σ t : BcsType, t.Val

def TypedValue.encode (v : TypedValue) : Bytes := v.1.encode v.2

def TypedValue.Fits (v : TypedValue) : Prop := v.1.Fits v.2

def peelAll : List BcsType → Peel (List TypedValue)
  | [], bcs => .ok ([], bcs)
  | t :: ts, bcs => do
    let (v, bcs) ← t.peel bcs
    let (vs, bcs) ← peelAll ts bcs
    .ok (⟨t, v⟩ :: vs, bcs)

lemma reads_elem (e : BcsElem) (v : e.Val) : Reads BCS.new e.peel (e.encode v) v := by
  cases e with
  | address => exact reads_peelAddress v
  | bool => exact reads_peelBool v
  | u8 => exact reads_peelU8 v
  | u64 => exact reads_peelWord (w := 64) rfl v
  | u128 => exact reads_peelWord (w := 128) rfl v

lemma reads_bytes {b : Bytes} (h : b.length < 2 ^ 32) :
    Reads BCS.new peelVecU8 (bcsBytes b) b := by
  have hread := reads_peelVec (fun byte => [byte])
    (fun byte (_ : byte ∈ b) => reads_peelU8 byte) h
  rwa [List.flatMap_singleton'] at hread

lemma peel_vec (e : BcsElem) : (BcsType.vec e).peel = peelVec e.peel := by
  cases e <;> rfl

lemma peel_option (e : BcsElem) : (BcsType.option e).peel = peelOption e.peel := by
  cases e <;> rfl

lemma reads_typed (v : TypedValue) (h : v.Fits) : Reads BCS.new v.1.peel v.encode v.2 := by
  obtain ⟨t, v⟩ := v
  cases t with
  | elem e => exact reads_elem e v
  | u256 => exact reads_peelWord (w := 256) rfl v
  | vec e =>
    rw [peel_vec]
    exact reads_peelVec e.encode (fun a _ => reads_elem e a) h
  | vecVecU8 => exact reads_peelVec bcsBytes (fun b hb => reads_bytes (h.2 b hb)) h.1
  | option e =>
    rw [peel_option]
    exact reads_peelOption (reads_elem e) v

lemma reads_peelAll {values : List TypedValue} (h : ∀ v ∈ values, v.Fits) :
    Reads BCS.new (peelAll (values.map Sigma.fst)) (values.flatMap TypedValue.encode) values := by
  induction values with
  | nil =>
    intro rest
    rfl
  | cons v values ih =>
    intro rest
    obtain ⟨hv, hvalues⟩ := List.forall_mem_cons.1 h
    rw [List.map_cons, List.flatMap_cons, List.append_assoc, peelAll, reads_typed v hv _, ok_bind]
    simp only [ih hvalues rest, ok_bind]

/-- Peeling the types in order gives back the values, and what follows them is the remainder. -/
theorem bcs_reader_inverts (values : List TypedValue) (h : ∀ v ∈ values, v.Fits)
    (remainder : Bytes) :
    ∃ reader, peelAll (values.map Sigma.fst)
        (BCS.new (values.flatMap TypedValue.encode ++ remainder)) = .ok (values, reader) ∧
      reader.intoRemainderBytes = remainder :=
  ⟨_, reads_peelAll h remainder, List.reverse_reverse remainder⟩

def flagAndNumbers : List TypedValue :=
  [⟨.elem .bool, true⟩, ⟨.vec .u64, ([7, 300] : List (Word 64))⟩]

theorem bcs_reader_inverts_sample :
    ∃ reader, peelAll [.elem .bool, .vec .u64]
        (BCS.new [1, 2, 7, 0, 0, 0, 0, 0, 0, 0, 44, 1, 0, 0, 0, 0, 0, 0, 10, 11, 12]) =
        .ok (flagAndNumbers, reader) ∧
      reader.intoRemainderBytes = [10, 11, 12] := by
  have h : ∀ v ∈ flagAndNumbers, v.Fits := by
    intro v hv
    rcases List.mem_cons.1 hv with rfl | hv
    · trivial
    · rw [List.mem_singleton.1 hv]
      exact (by decide : 2 < 2 ^ 32)
  exact bcs_reader_inverts flagAndNumbers h [10, 11, 12]

end Kanari.Proofs

import Kanari.Lib.Text
import Mathlib.Algebra.Ring.GeomSum
import Mathlib.Data.Int.ModEq
import Mathlib.Tactic.LinearCombination
import Mathlib.Tactic.Positivity
import Mathlib.Tactic.Ring

/-!
# Byte strings preceded by their length

Frames that start at different places of one string can end at the same place: `framed_shift_iff`
says which bytes can lie between the two starts.
-/

namespace Kanari.Lib

open Text

def framed (w : Nat) (a : List UInt8) : List UInt8 := leBytes w a.length ++ a

lemma leBytes_add (v w n : Nat) : leBytes (v + w) n = leBytes v n ++ leBytes w (n / 256 ^ v) := by
  induction v generalizing n with
  | zero => simp [leBytes]
  | succ v ih => rw [Nat.succ_add, leBytes, ih, leBytes, List.cons_append, Nat.div_div_eq_div_mul,
      Nat.pow_succ']

lemma leBytes_leNat (bs : List UInt8) : leBytes bs.length (leNat bs) = bs :=
  leNat_injective (length_leBytes _ _) (leNat_leBytes _ _ (leNat_lt bs))

lemma leBytes_mod (w n : Nat) : leBytes w (n % 256 ^ w) = leBytes w n := by
  induction w generalizing n with
  | zero => rfl
  | succ w ih =>
    rw [leBytes, leBytes, Nat.pow_succ', Nat.mod_mul_right_mod, Nat.mod_mul_right_div_self, ih]

variable {w : Nat} {e : List UInt8}

lemma framed_injective {a a' : List UInt8} (h : framed w a = framed w a') : a = a' :=
  (List.append_inj h (by simp)).2

lemma residue_fixed {B M : ℤ} (hdvd : M ∣ B ^ w) (x : ℤ) :
    (B * (x * (∑ i ∈ Finset.range w, B ^ i) % M) + x) % M =
      x * (∑ i ∈ Finset.range w, B ^ i) % M := by
  have hgeom : (∑ i ∈ Finset.range w, B ^ i) * (B - 1) = B ^ w - 1 := geom_sum_mul B w
  generalize (∑ i ∈ Finset.range w, B ^ i) = S at hgeom ⊢
  have hq : x * S % M ≡ x * S [ZMOD M] := Int.mod_modEq _ _
  calc B * (x * S % M) + x
    _ ≡ B * (x * S) + x [ZMOD M] := (hq.mul_left B).add_right x
    _ = x * S + x * B ^ w := by linear_combination x * hgeom
    _ ≡ x * S + 0 [ZMOD M] := Int.ModEq.add_left _ (Int.modEq_zero_iff_dvd.2 (hdvd.mul_left x))
    _ = x * S := add_zero _

/-- There is a number that ends in given bytes and whose upper part is what is left of it, in the
lower bytes, after the number of those bytes is taken off. -/
lemma exists_shifted_length {k E : Nat} (hk : 0 < k) (hkw : k < w) (hw : w ≤ 256) (hE : E < 256 ^ k) :
    ∃ m, k ≤ m ∧ m < 256 ^ w ∧ m % 256 ^ k = E ∧ (m - k) % 256 ^ (w - k) = m / 256 ^ k := by
  have hdvd : ((256 ^ (w - k) : Nat) : ℤ) ∣ ((256 ^ k : Nat) : ℤ) ^ w := by
    rw [← Nat.cast_pow, Int.natCast_dvd_natCast, ← pow_mul]
    refine pow_dvd_pow 256 ?_
    calc w - k ≤ 1 * w := by omega
      _ ≤ k * w := Nat.mul_le_mul_right w hk
  have hfixed := residue_fixed hdvd ((E : ℤ) - k)
  have hM : (0 : ℤ) < ((256 ^ (w - k) : Nat) : ℤ) := by positivity
  have hnonneg := Int.emod_nonneg
    (((E : ℤ) - k) * ∑ i ∈ Finset.range w, ((256 ^ k : Nat) : ℤ) ^ i) hM.ne'
  have hbound := Int.emod_lt_of_pos
    (((E : ℤ) - k) * ∑ i ∈ Finset.range w, ((256 ^ k : Nat) : ℤ) ^ i) hM
  generalize ((E : ℤ) - k) * (∑ i ∈ Finset.range w, ((256 ^ k : Nat) : ℤ) ^ i) %
    ((256 ^ (w - k) : Nat) : ℤ) = residue at hfixed hnonneg hbound
  obtain ⟨q, rfl⟩ := Int.eq_ofNat_of_zero_le hnonneg
  have hq : q < 256 ^ (w - k) := by exact_mod_cast hbound
  have hwide : k < 256 ^ k := Nat.lt_pow_self (by omega)
  have hbyte : 256 ≤ 256 ^ (w - k) := Nat.le_self_pow (by omega) 256
  have hkm : k ≤ 256 ^ k * q + E := by
    -- otherwise the residue is that of a small negative number, which is not zero
    by_contra hlt
    have hq0 : q = 0 := by
      by_contra hne
      have := Nat.le_mul_of_pos_right (256 ^ k) (Nat.pos_of_ne_zero hne)
      omega
    subst hq0
    rw [Nat.mul_zero, Nat.zero_add] at hlt
    rw [Nat.cast_zero, mul_zero, zero_add] at hfixed
    have hdvd' := Int.dvd_neg.2 (Int.dvd_of_emod_eq_zero hfixed)
    have hle := Int.le_of_dvd (by omega) hdvd'
    omega
  refine ⟨256 ^ k * q + E, hkm, ?_, ?_, ?_⟩
  · calc 256 ^ k * q + E < 256 ^ k * (q + 1) := by rw [Nat.mul_succ]; omega
      _ ≤ 256 ^ k * 256 ^ (w - k) := Nat.mul_le_mul_left _ hq
      _ = 256 ^ w := by rw [← pow_add, Nat.add_sub_cancel' hkw.le]
  · rw [Nat.mul_add_mod, Nat.mod_eq_of_lt hE]
  · rw [Nat.mul_add_div (by positivity), Nat.div_eq_of_lt hE, Nat.add_zero]
    have hcast : (((256 ^ k * q + E - k) % 256 ^ (w - k) : Nat) : ℤ) = q := by
      rw [Int.natCast_mod, Nat.cast_sub hkm, Nat.cast_add, Nat.cast_mul, add_sub_assoc]
      exact hfixed
    exact_mod_cast hcast

lemma framed_shift_short (hw : w ≤ 256) (he : 0 < e.length) (hlt : e.length < w) :
    ∃ a a' : List UInt8, a.length < 256 ^ w ∧ a'.length < 256 ^ w ∧
      framed w a = e ++ framed w a' := by
  obtain ⟨m, hkm, hm, hlow, hhigh⟩ := exists_shifted_length he hlt hw (leNat_lt e)
  let a' : List UInt8 := List.replicate (m - e.length) 0
  let top : List UInt8 := leBytes e.length ((m - e.length) / 256 ^ (w - e.length))
  have hlen : (top ++ a').length = m := by
    simp only [top, a', List.length_append, length_leBytes, List.length_replicate]
    omega
  -- both frames have the upper bytes of `m` in the middle
  have hfirst : leBytes w m = e ++ leBytes (w - e.length) (m / 256 ^ e.length) := by
    have hsplit := leBytes_add e.length (w - e.length) m
    rw [Nat.add_sub_cancel' hlt.le, ← leBytes_mod e.length m, hlow, leBytes_leNat] at hsplit
    exact hsplit
  have hsecond : leBytes w (m - e.length) =
      leBytes (w - e.length) (m / 256 ^ e.length) ++ top := by
    have hsplit := leBytes_add (w - e.length) e.length (m - e.length)
    rw [Nat.sub_add_cancel hlt.le, ← leBytes_mod (w - e.length), hhigh] at hsplit
    exact hsplit
  refine ⟨top ++ a', a', by rwa [hlen], by simp only [a', List.length_replicate]; omega, ?_⟩
  rw [framed, framed, hlen, hfirst]
  simp only [a', List.length_replicate, hsecond, List.append_assoc]

lemma framed_shift_long (hw : w ≤ e.length) (hle : e.length ≤ leNat (e.take w)) :
    ∃ a a' : List UInt8, a.length < 256 ^ w ∧ a'.length < 256 ^ w ∧
      framed w a = e ++ framed w a' := by
  have hlt : leNat (e.take w) < 256 ^ w := by
    have := leNat_lt (e.take w)
    rwa [List.length_take_of_le hw] at this
  let a' : List UInt8 := List.replicate (leNat (e.take w) - e.length) 0
  have hlen : (e.drop w ++ framed w a').length = leNat (e.take w) := by
    simp only [framed, a', List.length_append, List.length_drop, length_leBytes,
      List.length_replicate]
    omega
  refine ⟨e.drop w ++ framed w a', a', by rwa [hlen], ?_, ?_⟩
  · simp only [a', List.length_replicate]
    omega
  · have hhead : leBytes w (leNat (e.take w)) = e.take w := by
      have := leBytes_leNat (e.take w)
      rwa [List.length_take_of_le hw] at this
    rw [framed, hlen, hhead, ← List.append_assoc, List.take_append_drop]

/-- Which bytes can stand between the starts of two frames with one end: any that do not fill a
length field, and otherwise those whose own length field reaches to their end. -/
theorem framed_shift_iff (hw : w ≤ 256) (he : e ≠ []) :
    (∃ a a' : List UInt8, a.length < 256 ^ w ∧ a'.length < 256 ^ w ∧
        framed w a = e ++ framed w a') ↔
      e.length < w ∨ e.length ≤ leNat (e.take w) := by
  constructor
  · rintro ⟨a, a', ha, -, h⟩
    refine or_iff_not_imp_left.2 fun hlong => ?_
    have htake : e.take w = leBytes w a.length := by
      have hcongr := congrArg (List.take w) h
      rw [framed, List.take_left' (length_leBytes w _), List.take_append_of_le_length (by omega)]
        at hcongr
      exact hcongr.symm
    have hlength := congrArg List.length h
    simp only [framed, List.length_append, length_leBytes] at hlength
    rw [htake, leNat_leBytes _ _ ha]
    omega
  · rintro (hlt | hle)
    · exact framed_shift_short hw (List.length_pos_of_ne_nil he) hlt
    · by_cases hlt : e.length < w
      · exact framed_shift_short hw (List.length_pos_of_ne_nil he) hlt
      · exact framed_shift_long (by omega) hle

end Kanari.Lib

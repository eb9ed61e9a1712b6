import Mathlib.Algebra.Order.Ring.Nat
import Mathlib.Tactic.Ring
import Mathlib.Tactic.Linarith

/-!
# Constant-product exchange with rounding

What a pool with reserves `x` and `y` pays for `a`, rounded down, is the largest amount that does
not lower the product of the reserves.
-/

namespace Kanari.Lib

def paid (x y a : Nat) : Nat := a * y / (x + a)

variable {x y a b out : Nat}

theorem le_paid_iff (hx : 0 < x) :
    out ≤ paid x y a ↔ out ≤ y ∧ x * y ≤ (x + a) * (y - out) := by
  rw [paid, Nat.le_div_iff_mul_le (by omega)]
  constructor
  · intro h
    have hy : out ≤ y := by
      refine Nat.le_of_mul_le_mul_right (h.trans ?_) (by omega : 0 < x + a)
      rw [Nat.mul_comm y]
      exact Nat.mul_le_mul_right y (Nat.le_add_left a x)
    obtain ⟨k, rfl⟩ := Nat.exists_eq_add_of_le hy
    rw [Nat.add_sub_cancel_left]
    exact ⟨hy, by nlinarith only [h]⟩
  · rintro ⟨hy, h⟩
    obtain ⟨k, rfl⟩ := Nat.exists_eq_add_of_le hy
    rw [Nat.add_sub_cancel_left] at h
    nlinarith only [h]

lemma product_le (hx : 0 < x) : x * y ≤ (x + a) * (y - paid x y a) :=
  ((le_paid_iff hx).1 le_rfl).2

lemma paid_lt (hx : 0 < x) (hy : 0 < y) : paid x y a < y := by
  have hle := ((le_paid_iff hx).1 (le_refl (paid x y a))).1
  -- a pool that paid everything would have product zero
  refine hle.lt_of_ne fun heq => ?_
  have hprod := product_le (y := y) (a := a) hx
  rw [heq, Nat.sub_self, Nat.mul_zero] at hprod
  exact absurd hprod (Nat.mul_pos hx hy).not_ge

/-- Two payments one after the other are at most the payment for both amounts at once. -/
theorem paid_split_le (hx : 0 < x) :
    paid x y a + paid (x + a) (y - paid x y a) b ≤ paid x y (a + b) := by
  have hfirst := (le_paid_iff (y := y) (a := a) hx).1 le_rfl
  have hsecond := (le_paid_iff (x := x + a) (y := y - paid x y a) (a := b) (by omega)).1 le_rfl
  refine (le_paid_iff hx).2 ⟨by omega, ?_⟩
  calc x * y ≤ (x + a) * (y - paid x y a) := hfirst.2
    _ ≤ (x + a + b) * (y - paid x y a - paid (x + a) (y - paid x y a) b) := hsecond.2
    _ = (x + (a + b)) * (y - (paid x y a + paid (x + a) (y - paid x y a) b)) := by
      rw [Nat.add_assoc, Nat.sub_sub]

end Kanari.Lib

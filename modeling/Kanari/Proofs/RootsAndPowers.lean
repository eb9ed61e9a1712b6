import Kanari.MathNatives
import Mathlib.Tactic.Linarith
import Mathlib.Tactic.Ring

/-!
# Integer square root and checked power

The binary search keeps the root between its bounds and halves their distance. A product that
overflows in binary exponentiation is a factor of the value.
-/

namespace Kanari.Proofs

open Move Move.Math

variable {a b c hi lo n : Word 256}

@[simp] lemma one_val : one.val = 1 := rfl

@[simp] lemma two_val : two.val = 2 := rfl

lemma addWord_eq_some (h : c.val = a.val + b.val) : addWord a b = some c := by
  have hfit : a.val + b.val < 2 ^ 256 := h ▸ c.isLt
  exact (dif_pos hfit).trans (congrArg some (Fin.ext h.symm))

lemma subWord_eq_some (h : c.val + b.val = a.val) : subWord a b = some c := by
  have hle : b ≤ a := Fin.le_def.2 (by omega)
  exact (if_pos hle).trans (congrArg some (Fin.ext (by simp only; omega)))

lemma divWord_eq_some (hb : 0 < b.val) (h : c.val = a.val / b.val) : divWord a b = some c :=
  (if_neg hb.ne').trans (congrArg some (Fin.ext h.symm))

/-- The root lies between the bounds of the search, and the rounds left are enough. -/
structure Brackets (n : Word 256) (rounds : Nat) (lo hi : Word 256) : Prop where
  pos : 0 < lo.val
  le : lo.val ≤ hi.val
  sq_le : lo.val * lo.val ≤ n.val
  lt_sq : n.val < (hi.val + 1) * (hi.val + 1)
  close : hi.val - lo.val < 2 ^ rounds

def midpoint (lo hi : Nat) : Nat := lo + (hi - lo + 1) / 2

lemma isqrtLoop_done (h : ¬lo < hi) (rounds : Nat) : isqrtLoop n rounds lo hi = some lo := by
  unfold isqrtLoop
  exact if_neg h

lemma isqrtLoop_round (hlo : 0 < lo.val) (h : lo < hi) (rounds : Nat) :
    ∃ mid below : Word 256, mid.val = midpoint lo.val hi.val ∧ below.val + 1 = mid.val ∧
      isqrtLoop n (rounds + 1) lo hi =
        if mid.val * mid.val ≤ n.val then isqrtLoop n rounds mid hi
        else isqrtLoop n rounds lo below := by
  have hlt : lo.val < hi.val := h
  have hhi := hi.isLt
  let gap : Word 256 := ⟨hi.val - lo.val, by omega⟩
  let wider : Word 256 := ⟨hi.val - lo.val + 1, by omega⟩
  let half : Word 256 := ⟨(hi.val - lo.val + 1) / 2, by omega⟩
  let mid : Word 256 := ⟨midpoint lo.val hi.val, by unfold midpoint; omega⟩
  let below : Word 256 := ⟨midpoint lo.val hi.val - 1, by unfold midpoint; omega⟩
  let quotient : Word 256 := ⟨n.val / mid.val, (Nat.div_le_self _ _).trans_lt n.isLt⟩
  have hpos : 0 < mid.val := by
    simp only [mid, midpoint]
    omega
  have hgap : subWord hi lo = some gap := subWord_eq_some (Nat.sub_add_cancel hlt.le)
  have hwider : addWord gap one = some wider := addWord_eq_some rfl
  have hhalf : divWord wider two = some half := divWord_eq_some Nat.two_pos rfl
  have hmid : addWord lo half = some mid := addWord_eq_some rfl
  have hquotient : divWord n mid = some quotient := divWord_eq_some hpos rfl
  have hbelow : subWord mid one = some below := subWord_eq_some (Nat.sub_add_cancel hpos)
  have hiff : mid ≤ quotient ↔ mid.val * mid.val ≤ n.val := Nat.le_div_iff_mul_le hpos
  refine ⟨mid, below, rfl, Nat.sub_add_cancel hpos, ?_⟩
  rw [isqrtLoop, if_pos h]
  simp only [hgap, hwider, hhalf, hmid, hquotient, hbelow, hiff, Option.bind_eq_bind,
    Option.bind_some]

lemma isqrtLoop_spec {rounds : Nat} (h : Brackets n rounds lo hi) :
    ∃ r, isqrtLoop n rounds lo hi = some r ∧ r.val * r.val ≤ n.val ∧
      n.val < (r.val + 1) * (r.val + 1) := by
  induction rounds generalizing lo hi with
  | zero =>
    have heq : lo.val = hi.val := by
      have := h.close
      have := h.le
      omega
    exact ⟨lo, isqrtLoop_done (by simp [Fin.lt_def, heq]) 0, h.sq_le, heq ▸ h.lt_sq⟩
  | succ rounds ih =>
    by_cases hlt : lo < hi
    · obtain ⟨mid, below, hmid, hbelow, hround⟩ := isqrtLoop_round (n := n) h.pos hlt rounds
      have hclose : hi.val - lo.val < 2 ^ rounds * 2 := pow_succ 2 rounds ▸ h.close
      have hlo : lo.val < mid.val ∧ mid.val ≤ hi.val ∧ hi.val - mid.val < 2 ^ rounds ∧
          below.val - lo.val < 2 ^ rounds := by
        have : lo.val < hi.val := hlt
        unfold midpoint at hmid
        omega
      obtain ⟨hlo, hhi, hupper, hlower⟩ := hlo
      rw [hround]
      split_ifs with hsq
      · exact ih ⟨by omega, hhi, hsq, h.lt_sq, hupper⟩
      · refine ih ⟨h.pos, by omega, h.sq_le, ?_, hlower⟩
        rw [hbelow]
        exact Nat.lt_of_not_ge hsq
    · have heq : lo.val = hi.val := le_antisymm h.le (Nat.le_of_not_lt hlt)
      exact ⟨lo, isqrtLoop_done hlt _, h.sq_le, heq ▸ h.lt_sq⟩

lemma brackets_start (h : 1 < n.val) (hi : Word 256) (hhi : hi.val = n.val / 2 + 1) :
    Brackets n 256 one hi where
  pos := Nat.one_pos
  le := by simp [hhi]
  sq_le := by simpa using h.le
  lt_sq := by
    have : n.val < (n.val / 2 + 1) * 2 := by omega
    rw [hhi]
    nlinarith only [this, Nat.zero_le (n.val / 2)]
  close := by
    have := n.isLt
    rw [hhi, one_val]
    omega

lemma isqrtU256_spec (n : Word 256) :
    ∃ r, isqrtU256 n = some r ∧ r.val * r.val ≤ n.val ∧ n.val < (r.val + 1) * (r.val + 1) := by
  unfold isqrtU256
  by_cases h : n ≤ one
  · have hn : n.val ≤ 1 := h
    refine ⟨n, if_pos h, ?_, ?_⟩ <;> interval_cases n.val <;> decide
  · have hn : 1 < n.val := Nat.lt_of_not_ge h
    let half : Word 256 := ⟨n.val / 2, by omega⟩
    let hi : Word 256 := ⟨n.val / 2 + 1, by omega⟩
    have hhalf : divWord n two = some half := divWord_eq_some Nat.two_pos rfl
    have hhi : addWord half one = some hi := addWord_eq_some rfl
    simp only [if_neg h, hhalf, hhi, Option.bind_eq_bind, Option.bind_some]
    exact isqrtLoop_spec (brackets_start hn hi rfl)

lemma floor_root_unique {n r s : Nat} (hr : r * r ≤ n) (hr' : n < (r + 1) * (r + 1))
    (hs : s * s ≤ n) (hs' : n < (s + 1) * (s + 1)) : s = r := by
  have h₁ : s < r + 1 := Nat.mul_self_lt_mul_self_iff.1 (hs.trans_lt hr')
  have h₂ : r < s + 1 := Nat.mul_self_lt_mul_self_iff.1 (hr.trans_lt hs')
  omega

/-- The search ends with a result, and that is the one floor root of its argument. -/
theorem isqrt_u256_floor_root (n : Word 256) :
    ∃ r, isqrtU256 n = some r ∧
      ∀ s : Nat, s * s ≤ n.val ∧ n.val < (s + 1) * (s + 1) ↔ s = r.val := by
  obtain ⟨r, hr, hle, hlt⟩ := isqrtU256_spec n
  refine ⟨r, hr, fun s => ⟨fun h => floor_root_unique hle hlt h.1 h.2, ?_⟩⟩
  rintro rfl
  exact ⟨hle, hlt⟩

def wordOf (v : Nat) : Option (Word 256) := if h : v < 2 ^ 256 then some ⟨v, h⟩ else none

lemma wordOf_val (a : Word 256) : wordOf a.val = some a := dif_pos a.isLt

lemma wordOf_eq_none {v : Nat} (h : 2 ^ 256 ≤ v) : wordOf v = none := dif_neg (by omega)

lemma checkedMulWord_eq (a b : Word 256) : checkedMulWord a b = wordOf (a.val * b.val) := rfl

lemma remaining_eq (r b e : Nat) :
    r * b ^ e = (if e % 2 = 1 then r * b else r) * (b * b) ^ (e / 2) := by
  have he : e = 2 * (e / 2) + e % 2 := (Nat.div_add_mod e 2).symm
  rw [← pow_two, ← pow_mul]
  rcases Nat.mod_two_eq_zero_or_one e with h | h
  · rw [if_neg (by omega)]
    conv_lhs => rw [he, h, Nat.add_zero]
  · rw [if_pos h]
    conv_lhs => rw [he, h, pow_succ]
    ring

/-- A computation goes on after a number that may overflow: it is enough that whatever overflows
then is part of an overflowing value. -/
lemma wordOf_bind {v value : Nat} {f : Word 256 → Option (Word 256)}
    (hword : ∀ a : Word 256, a.val = v → f a = wordOf value)
    (hover : 2 ^ 256 ≤ v → 2 ^ 256 ≤ value) : (wordOf v).bind f = wordOf value := by
  by_cases h : v < 2 ^ 256
  · rw [← hword ⟨v, h⟩ rfl]
    exact congrArg (Option.bind · f) (wordOf_val ⟨v, h⟩)
  · rw [wordOf_eq_none (Nat.le_of_not_lt h), wordOf_eq_none (hover (Nat.le_of_not_lt h))]
    rfl

lemma le_mul_of_ne_zero {bound a b : Nat} (ha : bound ≤ a) (hb : b ≠ 0) : bound ≤ a * b :=
  ha.trans (Nat.le_mul_of_pos_right a (Nat.pos_of_ne_zero hb))

/-- The loop computes `result * b ^ e`. The result is zero only where the base is: otherwise a
square could overflow although the value is zero. -/
lemma powLoop_eq (result b : Word 256) (e : Nat) (h : result.val = 0 → b.val = 0) :
    powLoop result b e = wordOf (result.val * b.val ^ e) := by
  induction e using Nat.strong_induction_on generalizing result b with
  | _ e ih =>
    by_cases he : e = 0
    · subst he
      rw [powLoop, if_pos rfl, pow_zero, mul_one, wordOf_val]
    · rw [powLoop, if_neg he, remaining_eq]
      generalize hnext : (if e % 2 = 1 then result.val * b.val else result.val) = next
      have hmul : (if e % 2 = 1 then checkedMulWord result b else some result) = wordOf next := by
        rw [← hnext]
        split_ifs with hodd
        · rfl
        · exact (wordOf_val result).symm
      have hzero : next = 0 → b.val = 0 := by
        intro hn
        rw [← hnext] at hn
        split_ifs at hn with hodd
        · exact (Nat.mul_eq_zero.1 hn).elim h id
        · exact h hn
      have hnonzero : 2 ^ 256 ≤ next → b.val ≠ 0 := by
        rintro hover hb
        have := result.isLt
        rw [← hnext, hb] at hover
        split_ifs at hover <;> omega
      rw [hmul, Option.bind_eq_bind]
      refine wordOf_bind (fun a ha => ?_) fun hover => ?_
      · by_cases hmore : 0 < e / 2
        · rw [if_pos hmore, checkedMulWord_eq]
          refine wordOf_bind (fun square hsquare => ?_) fun hover => ?_
          · rw [ih (e / 2) (by omega) a square, ha, hsquare]
            intro ha'
            rw [hsquare, hzero (ha ▸ ha')]
          · -- the square is a factor of the value, since there is a bit left that uses it
            have hb : b.val ≠ 0 := by
              rintro hb
              rw [hb] at hover
              omega
            obtain ⟨k, hk⟩ := Nat.exists_eq_succ_of_ne_zero hmore.ne'
            have hfactor : next * (b.val * b.val) ^ (e / 2) =
                b.val * b.val * ((b.val * b.val) ^ k * next) := by
              rw [hk, pow_succ]
              ring
            rw [hfactor]
            exact le_mul_of_ne_zero hover
              (Nat.mul_ne_zero (pow_ne_zero _ (Nat.mul_ne_zero hb hb)) fun hn => hb (hzero hn))
        · have hlast : e / 2 = 0 := by omega
          rw [if_neg hmore, Option.bind_some,
            ih (e / 2) (by omega) a b (ha ▸ hzero), ha, hlast, pow_zero, pow_zero]
      · have hb := hnonzero hover
        exact le_mul_of_ne_zero hover (pow_ne_zero _ (Nat.mul_ne_zero hb hb))

/-- The checked power is the power where that is a word, and nothing where it is not. -/
theorem pow_u256_checked_exact (b : Word 256) (e : Word 32) :
    powU256Checked b e =
      if h : b.val ^ e.val < 2 ^ 256 then some ⟨b.val ^ e.val, h⟩ else none := by
  rw [powU256Checked, powLoop_eq one b e.val (by simp), one_val, one_mul]
  rfl

end Kanari.Proofs

import Kanari.MoveCoin

/-!
# The Move module `math` and its natives

The arithmetic of Move aborts when a result does not fit, that of the wide integer types of the
natives panics, and the natives take products in twice the width.
-/

namespace Kanari.Move

open Lib

abbrev Word (w : Nat) := Fin (2 ^ w)

def moveAdd {w : Nat} (a b : Word w) : Except Abort (Word w) :=
  if h : a.val + b.val < 2 ^ w then .ok ⟨_, h⟩ else .error .arithmetic

def moveSub {w : Nat} (a b : Word w) : Except Abort (Word w) :=
  if b ≤ a then .ok ⟨a.val - b.val, by omega⟩ else .error .arithmetic

lemma moveAdd_eq_ok {w : Nat} {a b c : Word w} : moveAdd a b = .ok c ↔ c.val = a.val + b.val := by
  unfold moveAdd
  split_ifs with h
  · simp [Fin.ext_iff, eq_comm]
  · simp only [false_iff]
    omega

lemma moveSub_eq_ok {w : Nat} {a b c : Word w} : moveSub a b = .ok c ↔ b ≤ a ∧ c.val = a.val - b.val := by
  unfold moveSub
  split_ifs with h
  · simp [h, Fin.ext_iff, eq_comm]
  · simp [h]

namespace Math

def E_OVERFLOW : Abort := .code 1
def E_DIVIDE_BY_ZERO : Abort := .code 2
def E_INVALID_ARG : Abort := .code 3

def wideMul {w : Nat} (x y : Word w) : Nat := x.val * y.val % 2 ^ (2 * w)

def mulDivChecked (w : Nat) (x y z : Word w) : Except Abort (Word w) :=
  if z.val = 0 then .error E_DIVIDE_BY_ZERO
  else if h : wideMul x y / z.val < 2 ^ w then .ok ⟨_, h⟩
  else .error E_OVERFLOW

def mulDivU128 : Word 128 → Word 128 → Word 128 → Except Abort (Word 128) := mulDivChecked 128

def mulDivU256 : Word 256 → Word 256 → Word 256 → Except Abort (Word 256) := mulDivChecked 256

def quoteWith {w : Nat} (mulDiv : Word w → Word w → Word w → Except Abort (Word w))
    (amountIn reserveIn reserveOut : Word w) : Except Abort (Word w) := do
  ensure (decide (0 < reserveIn.val) && decide (0 < reserveOut.val)) E_INVALID_ARG
  let total ← moveAdd reserveIn amountIn
  mulDiv amountIn reserveOut total

def quoteAmountOut : Word 128 → Word 128 → Word 128 → Except Abort (Word 128) :=
  quoteWith mulDivU128

def quoteAmountOutU256 : Word 256 → Word 256 → Word 256 → Except Abort (Word 256) :=
  quoteWith mulDivU256

/-- The operators of the wide integer type; `none` is a panic. -/
def addWord (a b : Word 256) : Option (Word 256) :=
  if h : a.val + b.val < 2 ^ 256 then some ⟨_, h⟩ else none

def subWord (a b : Word 256) : Option (Word 256) :=
  if b ≤ a then some ⟨a.val - b.val, by omega⟩ else none

def divWord (a b : Word 256) : Option (Word 256) :=
  if b.val = 0 then none else some ⟨a.val / b.val, (Nat.div_le_self _ _).trans_lt a.isLt⟩

def checkedMulWord (a b : Word 256) : Option (Word 256) :=
  if h : a.val * b.val < 2 ^ 256 then some ⟨_, h⟩ else none

def one : Word 256 := ⟨1, by decide⟩

def two : Word 256 := ⟨2, by decide⟩

/-- The binary search, with a bound on its rounds; `none` also when they do not suffice. -/
def isqrtLoop (n : Word 256) : (rounds : Nat) → (lo hi : Word 256) → Option (Word 256)
  | rounds, lo, hi =>
    if lo < hi then
      match rounds with
      | 0 => none
      | rounds + 1 => do
        let half ← divWord (← addWord (← subWord hi lo) one) two
        let mid ← addWord lo half
        if mid ≤ (← divWord n mid) then isqrtLoop n rounds mid hi
        else isqrtLoop n rounds lo (← subWord mid one)
    else some lo

def isqrtU256 (n : Word 256) : Option (Word 256) :=
  if n ≤ one then some n
  else do
    let hi ← addWord (← divWord n two) one
    isqrtLoop n 256 one hi

/-- Here `none` is the overflow that the function reports. -/
def powLoop (result b : Word 256) (e : Nat) : Option (Word 256) :=
  if e = 0 then some result
  else do
    let result ← (if e % 2 = 1 then checkedMulWord result b else some result)
    let b ← (if 0 < e / 2 then checkedMulWord b b else some b)
    powLoop result b (e / 2)
termination_by e
decreasing_by omega

def powU256Checked (base : Word 256) (exponent : Word 32) : Option (Word 256) :=
  powLoop one base exponent.val

end Math

end Kanari.Move

import Kanari.MathNatives
import Kanari.Lib.ConstantProduct

/-!
# Quotes of a constant-product pool

Both widths are instances of one argument.
-/

namespace Kanari.Proofs

open Lib Move Move.Math

variable {w : Nat}

lemma wideMul_eq (x y : Word w) : wideMul x y = x.val * y.val := by
  refine Nat.mod_eq_of_lt ?_
  rw [two_mul, pow_add]
  exact Nat.mul_lt_mul'' x.isLt y.isLt

lemma mulDivChecked_eq_ok {x y z out : Word w} :
    mulDivChecked w x y z = .ok out ↔ 0 < z.val ∧ out.val = x.val * y.val / z.val := by
  unfold mulDivChecked
  rw [wideMul_eq]
  split_ifs with hz h
  · simp [hz]
  · simp [Nat.pos_of_ne_zero hz, Fin.ext_iff, eq_comm]
  · simp only [false_iff]
    rintro ⟨-, hout⟩
    exact h (hout ▸ out.isLt)

/-- A quote is the payment of the exchange rule, and there is one whenever both reserves are
positive and the reserve can take the amount. -/
lemma quoteWith_eq_ok {amount x y out : Word w} :
    quoteWith (mulDivChecked w) amount x y = .ok out ↔
      0 < x.val ∧ 0 < y.val ∧ x.val + amount.val < 2 ^ w ∧
        out.val = paid x.val y.val amount.val := by
  simp only [quoteWith, bind_eq_ok, ensure_eq_ok, exists_const, Bool.and_eq_true, decide_eq_true_eq,
    moveAdd_eq_ok, mulDivChecked_eq_ok, and_assoc]
  refine and_congr_right fun hx => and_congr_right fun _ => ?_
  constructor
  · rintro ⟨total, htotal, -, hout⟩
    rw [htotal] at hout
    exact ⟨htotal ▸ total.isLt, hout⟩
  · rintro ⟨htotal, hout⟩
    exact ⟨⟨_, htotal⟩, rfl, Nat.add_pos_left hx _, hout⟩

/-- The two reserves of a pool. -/
structure QuotePool (w : Nat) where
  x : Word w
  y : Word w
  deriving DecidableEq

inductive Side
  | xForY
  | yForX
  deriving DecidableEq

def QuotePool.facing (pool : QuotePool w) : Side → QuotePool w
  | .xForY => pool
  | .yForX => ⟨pool.y, pool.x⟩

def QuotePool.product (pool : QuotePool w) : Nat := pool.x.val * pool.y.val

structure QuotePool.Stocked (pool : QuotePool w) : Prop where
  x_pos : 0 < pool.x.val
  y_pos : 0 < pool.y.val

/-- One swap of a run, with the pool before and after it. -/
structure Swapped (w : Nat) where
  before : QuotePool w
  side : Side
  out : Word w
  after : QuotePool w
  deriving DecidableEq

/-- A swap priced by `quote`: the input is added to one reserve and the quoted output is taken
from the other. -/
def QuotePool.swap (quote : Word w → Word w → Word w → Except Abort (Word w))
    (pool : QuotePool w) (side : Side) (amount : Word w) : Except Abort (Swapped w) := do
  let facing := pool.facing side
  let out ← quote amount facing.x facing.y
  let x ← moveAdd facing.x amount
  let y ← moveSub facing.y out
  .ok ⟨pool, side, out, (⟨x, y⟩ : QuotePool w).facing side⟩

def QuotePool.swaps (quote : Word w → Word w → Word w → Except Abort (Word w)) :
    QuotePool w → List (Side × Word w) → Except Abort (List (Swapped w))
  | _, [] => .ok []
  | pool, (side, amount) :: rest => do
    let swapped ← pool.swap quote side amount
    let later ← swapped.after.swaps quote rest
    .ok (swapped :: later)

/-- What a quote that favours the pool guarantees, from any pool with two positive reserves. -/
structure FavoursPool (quote : Word w → Word w → Word w → Except Abort (Word w)) : Prop where
  /-- Every swap of a run pays less than the reserve it pays from. -/
  out_lt : ∀ (pool : QuotePool w) (amounts : List (Side × Word w)) (run : List (Swapped w)),
    pool.Stocked → pool.swaps quote amounts = .ok run →
      ∀ swapped ∈ run, swapped.out < (swapped.before.facing swapped.side).y
  /-- Along a run the product of the reserves never decreases. -/
  product_mono : ∀ (pool : QuotePool w) (amounts : List (Side × Word w)) (run : List (Swapped w)),
    pool.Stocked → pool.swaps quote amounts = .ok run →
      (pool.product :: run.map fun swapped => swapped.after.product).Pairwise (· ≤ ·)
  /-- Where two swaps in a row go through, so does the swap of the sum, and it pays no less. -/
  split_le : ∀ (pool : QuotePool w) (side : Side) (a b : Word w) (first second : Swapped w),
    pool.Stocked → pool.swaps quote [(side, a), (side, b)] = .ok [first, second] →
      ∃ (sum : Word w) (whole : Swapped w), moveAdd a b = .ok sum ∧
        pool.swap quote side sum = .ok whole ∧ first.out.val + second.out.val ≤ whole.out.val

@[simp] lemma facing_facing (pool : QuotePool w) (side : Side) :
    (pool.facing side).facing side = pool := by
  cases side <;> rfl

@[simp] lemma product_facing (pool : QuotePool w) (side : Side) :
    (pool.facing side).product = pool.product := by
  cases side
  · rfl
  · exact Nat.mul_comm _ _

lemma swap_eq_ok {pool : QuotePool w} {side : Side} {amount : Word w} {swapped : Swapped w} :
    pool.swap (quoteWith (mulDivChecked w)) side amount = .ok swapped ↔
      (pool.facing side).Stocked ∧ swapped.before = pool ∧ swapped.side = side ∧
        swapped.out.val = paid (pool.facing side).x.val (pool.facing side).y.val amount.val ∧
        (swapped.after.facing side).x.val = (pool.facing side).x.val + amount.val ∧
        (swapped.after.facing side).y.val = (pool.facing side).y.val - swapped.out.val := by
  simp only [QuotePool.swap, bind_eq_ok, quoteWith_eq_ok, moveAdd_eq_ok, moveSub_eq_ok]
  constructor
  · rintro ⟨out, ⟨hx, hy, -, hout⟩, x', hx', y', ⟨-, hy'⟩, heq⟩
    cases heq
    rw [facing_facing]
    exact ⟨⟨hx, hy⟩, rfl, rfl, hout, hx', hy'⟩
  · rintro ⟨⟨hx, hy⟩, hbefore, hside, hout, hx', hy'⟩
    have hlt := paid_lt (a := amount.val) hx hy
    refine ⟨swapped.out, ⟨hx, hy, hx' ▸ Fin.isLt _, hout⟩, _, hx', _,
      ⟨Fin.le_def.2 (by omega), hy'⟩, ?_⟩
    rw [← hbefore, ← hside]
    change Except.ok (Swapped.mk _ _ _ ((swapped.after.facing _).facing _)) = _
    rw [facing_facing]

section Step

variable {pool : QuotePool w} {side : Side} {amount : Word w} {swapped : Swapped w}
  (h : pool.swap (quoteWith (mulDivChecked w)) side amount = .ok swapped)

include h

lemma swap_out_lt : swapped.out < (swapped.before.facing swapped.side).y := by
  obtain ⟨hpool, rfl, rfl, hout, -, -⟩ := swap_eq_ok.1 h
  rw [Fin.lt_def, hout]
  exact paid_lt hpool.x_pos hpool.y_pos

lemma swap_product_le : pool.product ≤ swapped.after.product := by
  obtain ⟨hpool, -, -, hout, hx, hy⟩ := swap_eq_ok.1 h
  rw [← product_facing pool side, ← product_facing swapped.after side]
  unfold QuotePool.product
  rw [hx, hy, hout]
  exact product_le hpool.x_pos

end Step

lemma swaps_cons_eq_ok {quote : Word w → Word w → Word w → Except Abort (Word w)}
    {pool : QuotePool w} {side : Side} {amount : Word w} {rest : List (Side × Word w)}
    {run : List (Swapped w)} :
    pool.swaps quote ((side, amount) :: rest) = .ok run ↔
      ∃ swapped later, pool.swap quote side amount = .ok swapped ∧
        swapped.after.swaps quote rest = .ok later ∧ run = swapped :: later := by
  simp only [QuotePool.swaps, bind_eq_ok, Except.ok.injEq]
  constructor
  · rintro ⟨swapped, h, later, hlater, rfl⟩
    exact ⟨swapped, later, h, hlater, rfl⟩
  · rintro ⟨swapped, later, h, hlater, rfl⟩
    exact ⟨swapped, h, later, hlater, rfl⟩

lemma swaps_spec {amounts : List (Side × Word w)} {pool : QuotePool w} {run : List (Swapped w)}
    (h : pool.swaps (quoteWith (mulDivChecked w)) amounts = .ok run) :
    (∀ swapped ∈ run, swapped.out < (swapped.before.facing swapped.side).y) ∧
      (pool.product :: run.map fun swapped => swapped.after.product).Pairwise (· ≤ ·) := by
  induction amounts generalizing pool run with
  | nil =>
    cases h
    simp
  | cons head rest ih =>
    obtain ⟨swapped, later, hswap, hlater, rfl⟩ := swaps_cons_eq_ok.1 h
    obtain ⟨hout, hmono⟩ := ih hlater
    have hstep := swap_product_le hswap
    refine ⟨List.forall_mem_cons.2 ⟨swap_out_lt hswap, hout⟩, List.Pairwise.cons ?_ hmono⟩
    intro product hmem
    rw [List.map_cons, List.mem_cons] at hmem
    rcases hmem with rfl | hmem
    · exact hstep
    · exact hstep.trans (List.rel_of_pairwise_cons hmono hmem)

lemma swap_split {pool : QuotePool w} {side : Side} {a b : Word w} {first second : Swapped w}
    (hfirst : pool.swap (quoteWith (mulDivChecked w)) side a = .ok first)
    (hsecond : first.after.swap (quoteWith (mulDivChecked w)) side b = .ok second) :
    ∃ (sum : Word w) (whole : Swapped w), moveAdd a b = .ok sum ∧
      pool.swap (quoteWith (mulDivChecked w)) side sum = .ok whole ∧
        first.out.val + second.out.val ≤ whole.out.val := by
  obtain ⟨hpool, -, -, hout₁, hx₁, hy₁⟩ := swap_eq_ok.1 hfirst
  obtain ⟨-, -, -, hout₂, hx₂, -⟩ := swap_eq_ok.1 hsecond
  have hbound := (second.after.facing side).x.isLt
  have hlt := paid_lt (a := a.val + b.val) hpool.x_pos hpool.y_pos
  -- the sum fits because the reserve took both parts
  refine ⟨⟨a.val + b.val, by omega⟩,
    ⟨pool, side, ⟨paid (pool.facing side).x.val (pool.facing side).y.val (a.val + b.val),
      hlt.trans (Fin.isLt _)⟩,
      (⟨⟨(pool.facing side).x.val + (a.val + b.val), by omega⟩,
        ⟨(pool.facing side).y.val -
          paid (pool.facing side).x.val (pool.facing side).y.val (a.val + b.val),
          (Nat.sub_le _ _).trans_lt (Fin.isLt _)⟩⟩ : QuotePool w).facing side⟩, ?_, ?_, ?_⟩
  · exact moveAdd_eq_ok.2 rfl
  · refine swap_eq_ok.2 ⟨hpool, rfl, rfl, rfl, ?_, ?_⟩ <;> simp
  · rw [hout₂, hx₁, hy₁, hout₁]
    exact paid_split_le hpool.x_pos

lemma quoteWith_favoursPool : FavoursPool (quoteWith (mulDivChecked w)) where
  out_lt _ _ _ _ h := (swaps_spec h).1
  product_mono _ _ _ _ h := (swaps_spec h).2
  split_le pool side a b first second _ h := by
    obtain ⟨first', later, hfirst, hlater, heq⟩ := swaps_cons_eq_ok.1 h
    obtain ⟨second', rest, hsecond, -, rfl⟩ := swaps_cons_eq_ok.1 hlater
    cases heq
    exact swap_split hfirst hsecond

/-- Both quotes favour the pool, and the wide product of the larger one loses nothing. -/
theorem quotes_favour_pool :
    FavoursPool quoteAmountOut ∧ FavoursPool quoteAmountOutU256 ∧
      ∀ x y : Word 256, wideMul x y = x.val * y.val :=
  ⟨quoteWith_favoursPool, quoteWith_favoursPool, wideMul_eq⟩

-- three swaps against a pool of 1000 and 500, the second one back
example :
    (QuotePool.swaps quoteAmountOut ⟨1000, 500⟩ [(.xForY, 100), (.yForX, 45), (.xForY, 7)]).map
      (fun run => run.map fun swapped => swapped.out.val) = .ok [45, 99, 3] := by
  decide +kernel

end Kanari.Proofs

import Kanari.Pay
import Mathlib.Data.List.Induction

/-!
# Splitting and joining of coins

Each loop has one lemma, which is an equivalence: the loop goes through exactly under a condition on
its arguments, and then with these results.
-/

namespace Kanari.Proofs

open Lib Move Move.Pay

def coinOf (value : Nat) : Coin := ⟨⟨value⟩⟩

@[simp] lemma value_coinOf (value : Nat) : (coinOf value).value = value := rfl

lemma coinOf_value (c : Coin) : coinOf c.value = c := rfl

variable {c joined rest : Coin} {sender : AccountAddress} {sent : List Sent} {coins : List Coin}

lemma coin_split_eq_ok {part : Coin} {amount : Nat} :
    c.split amount = .ok (rest, part) ↔
      0 < amount ∧ amount ≤ c.value ∧ rest = coinOf (c.value - amount) ∧ part = coinOf amount := by
  have hbalance : 0 < amount → amount ≤ c.value →
      c.balance.split amount = .ok (⟨c.value - amount⟩, ⟨amount⟩) := by
    intro hpos hle
    have hle' : amount ≤ c.balance.value := hle
    simp only [Balance.split, Balance.decrease, decide_eq_true hpos, decide_eq_true hle', ensure_true,
      ok_bind, pure_eq_ok]
    rfl
  rw [Coin.split, check_bind_eq_ok, check_bind_eq_ok, ensure_eq_ok, ensure_eq_ok,
    decide_eq_true_eq, decide_eq_true_eq]
  refine and_congr_right fun hpos => and_congr_right fun hle => ?_
  rw [hbalance hpos hle, ok_bind]
  constructor
  · intro h
    cases h
    exact ⟨rfl, rfl⟩
  · rintro ⟨rfl, rfl⟩
    rfl

/-- A join aborts only where the sum does not fit: a coin of value zero is always taken. -/
lemma coin_join_eq_ok {other : Coin} (hc : c.value ≤ maxU64) :
    c.join other = .ok joined ↔
      c.value + other.value ≤ maxU64 ∧ joined = coinOf (c.value + other.value) := by
  rw [Coin.join, bind_eq_ok]
  by_cases h : 0 < other.value
  · have hmerge : c.balance.merge other.balance = c.balance.increase other.value := if_pos h
    rw [hmerge]
    simp only [Balance.increase, check_bind_eq_ok, ensure_eq_ok, decide_eq_true_eq, pure_eq_ok,
      Except.ok.injEq]
    constructor
    · rintro ⟨b, ⟨-, hfit, -, rfl⟩, rfl⟩
      change other.value ≤ maxU64 - c.value at hfit
      exact ⟨by omega, rfl⟩
    · rintro ⟨hfit, rfl⟩
      refine ⟨_, ⟨h, ?_, Nat.le_add_right _ _, rfl⟩, rfl⟩
      change other.value ≤ maxU64 - c.value
      omega
  · have hmerge : c.balance.merge other.balance = .ok c.balance := if_neg h
    have hzero : other.value = 0 := by omega
    rw [hmerge, hzero]
    simp only [Except.ok.injEq, pure_eq_ok, Nat.add_zero]
    constructor
    · rintro ⟨b, rfl, rfl⟩
      exact ⟨hc, rfl⟩
    · rintro ⟨-, rfl⟩
      exact ⟨_, rfl, rfl⟩

lemma pay_split_eq_ok {amount : Nat} {sent : Sent} :
    Pay.split c amount sender = .ok (rest, sent) ↔
      0 < amount ∧ amount ≤ c.value ∧ rest = coinOf (c.value - amount) ∧
        sent = (coinOf amount, sender) := by
  rw [Pay.split, check_bind_eq_ok, ensure_eq_ok, decide_eq_true_eq, bind_eq_ok]
  constructor
  · rintro ⟨hpos, ⟨rest', part⟩, hsplit, heq⟩
    obtain ⟨-, hle, rfl, rfl⟩ := coin_split_eq_ok.1 hsplit
    cases heq
    exact ⟨hpos, hle, rfl, rfl⟩
  · rintro ⟨hpos, hle, rfl, rfl⟩
    exact ⟨hpos, _, coin_split_eq_ok.2 ⟨hpos, hle, rfl, rfl⟩, rfl⟩

lemma splitVecLoop_eq_ok {amounts : List Nat} {before : List Sent} :
    splitVecLoop sender amounts c before = .ok (rest, sent) ↔
      (∀ a ∈ amounts, 0 < a) ∧ amounts.sum ≤ c.value ∧ rest = coinOf (c.value - amounts.sum) ∧
        sent = before ++ amounts.map fun a => (coinOf a, sender) := by
  induction amounts generalizing c before with
  | nil =>
    simp only [splitVecLoop, Except.ok.injEq, Prod.mk.injEq, List.sum_nil, Nat.sub_zero,
      coinOf_value, List.map_nil, List.append_nil]
    constructor
    · rintro ⟨rfl, rfl⟩
      exact ⟨by simp, Nat.zero_le _, rfl, rfl⟩
    · rintro ⟨-, -, rfl, rfl⟩
      exact ⟨rfl, rfl⟩
  | cons a amounts ih =>
    rw [splitVecLoop, bind_eq_ok, List.forall_mem_cons, List.sum_cons, List.map_cons]
    constructor
    · rintro ⟨⟨c', part⟩, hsplit, hrest⟩
      obtain ⟨hpos, hle, rfl, rfl⟩ := pay_split_eq_ok.1 hsplit
      obtain ⟨hall, hsum, rfl, rfl⟩ := ih.1 hrest
      rw [value_coinOf] at hsum
      refine ⟨⟨hpos, hall⟩, by omega, ?_, ?_⟩
      · rw [value_coinOf, Nat.sub_sub]
      · rw [List.append_assoc, List.singleton_append]
    · rintro ⟨⟨hpos, hall⟩, hsum, rfl, rfl⟩
      refine ⟨_, pay_split_eq_ok.2 ⟨hpos, by omega, rfl, rfl⟩, ih.2 ⟨hall, ?_, ?_, ?_⟩⟩
      · rw [value_coinOf]
        omega
      · rw [value_coinOf, Nat.sub_sub]
      · rw [List.append_assoc, List.singleton_append]

lemma splitVec_eq_ok {amounts : List Nat} :
    splitVec c amounts sender = .ok (rest, sent) ↔
      amounts.length ≤ Coin.maxSplitParts ∧ (∀ a ∈ amounts, 0 < a) ∧ amounts.sum ≤ c.value ∧
        rest = coinOf (c.value - amounts.sum) ∧
        sent = amounts.map fun a => (coinOf a, sender) := by
  rw [splitVec, check_bind_eq_ok, ensure_eq_ok, decide_eq_true_eq, splitVecLoop_eq_ok,
    List.nil_append]

lemma divideLoop_eq_ok {part rounds : Nat} {before parts : List Coin} (hpart : 0 < part) :
    Coin.divideLoop part rounds c before = .ok (rest, parts) ↔
      rounds * part ≤ c.value ∧ rest = coinOf (c.value - rounds * part) ∧
        parts = before ++ List.replicate rounds (coinOf part) := by
  induction rounds generalizing c before with
  | zero =>
    simp only [Coin.divideLoop, Except.ok.injEq, Prod.mk.injEq, Nat.zero_mul, Nat.zero_le,
      Nat.sub_zero, coinOf_value, List.replicate_zero, List.append_nil, true_and]
    exact and_congr eq_comm eq_comm
  | succ rounds ih =>
    rw [Coin.divideLoop, bind_eq_ok, Nat.succ_mul, List.replicate_succ]
    constructor
    · rintro ⟨⟨c', part'⟩, hsplit, hrest⟩
      obtain ⟨-, hle, rfl, rfl⟩ := coin_split_eq_ok.1 hsplit
      obtain ⟨hsum, rfl, rfl⟩ := ih.1 hrest
      rw [value_coinOf] at hsum
      refine ⟨by omega, ?_, ?_⟩
      · rw [value_coinOf, Nat.sub_sub, Nat.add_comm part]
      · rw [List.append_assoc, List.singleton_append]
    · rintro ⟨hsum, rfl, rfl⟩
      refine ⟨_, coin_split_eq_ok.2 ⟨hpart, by omega, rfl, rfl⟩, ih.2 ⟨?_, ?_, ?_⟩⟩
      · rw [value_coinOf]
        omega
      · rw [value_coinOf, Nat.sub_sub, Nat.add_comm part]
      · rw [List.append_assoc, List.singleton_append]

lemma divideIntoN_eq_ok {n : Nat} {parts : List Coin} :
    c.divideIntoN n = .ok (rest, parts) ↔
      0 < n ∧ n ≤ Coin.maxSplitParts ∧ n ≤ c.value ∧
        rest = coinOf (c.value - (n - 1) * (c.value / n)) ∧
        parts = List.replicate (n - 1) (coinOf (c.value / n)) := by
  rw [Coin.divideIntoN, check_bind_eq_ok, check_bind_eq_ok, check_bind_eq_ok, ensure_eq_ok,
    ensure_eq_ok, ensure_eq_ok, decide_eq_true_eq, decide_eq_true_eq, decide_eq_true_eq]
  refine and_congr_right fun hn => and_congr_right fun _ => and_congr_right fun hle => ?_
  have hsum : (n - 1) * (c.value / n) ≤ c.value :=
    (Nat.mul_le_mul_right _ (Nat.sub_le n 1)).trans (Nat.mul_div_le c.value n)
  rw [divideLoop_eq_ok (Nat.div_pos hle hn), List.nil_append, and_iff_right hsum]

lemma keepLoop_eq (sender : AccountAddress) (coins : List Coin) (before : List Sent) :
    keepLoop sender coins.length coins before =
      .ok ([], before ++ coins.reverse.map fun c => (c, sender)) := by
  induction coins using List.reverseRecOn generalizing before with
  | nil => simp [keepLoop]
  | append_singleton coins c ih =>
    rw [List.length_append, List.length_singleton, keepLoop, popBack_concat, ok_bind]
    simp only [ih, List.reverse_append, List.reverse_singleton, List.singleton_append,
      List.map_cons, List.append_assoc]

lemma divideAndKeep_eq_ok {n : Nat} :
    divideAndKeep c n sender = .ok (rest, sent) ↔
      0 < n ∧ n ≤ Coin.maxSplitParts ∧ n ≤ c.value ∧
        rest = coinOf (c.value - (n - 1) * (c.value / n)) ∧
        sent = List.replicate (n - 1) (coinOf (c.value / n), sender) := by
  rw [divideAndKeep, check_bind_eq_ok, ensure_eq_ok, decide_eq_true_eq, bind_eq_ok]
  have hkept : (List.replicate (n - 1) (coinOf (c.value / n))).reverse.map (fun c => (c, sender)) =
      List.replicate (n - 1) (coinOf (c.value / n), sender) := by
    rw [List.reverse_replicate, List.map_replicate]
  constructor
  · rintro ⟨hn, ⟨rest', parts⟩, hdivide, h⟩
    obtain ⟨-, hmax, hle, rfl, rfl⟩ := divideIntoN_eq_ok.1 hdivide
    simp only [keepLoop_eq, ok_bind, List.nil_append, hkept] at h
    cases h
    exact ⟨hn, hmax, hle, rfl, rfl⟩
  · rintro ⟨hn, hmax, hle, rfl, rfl⟩
    refine ⟨hn, _, divideIntoN_eq_ok.2 ⟨hn, hmax, hle, rfl, rfl⟩, ?_⟩
    simp only [keepLoop_eq, ok_bind, List.nil_append, hkept]
    rfl

lemma joinLoop_eq_ok {left : List Coin} (hc : c.value ≤ maxU64) :
    joinLoop coins.length c coins = .ok (joined, left) ↔
      c.value + (coins.map Coin.value).sum ≤ maxU64 ∧
        joined = coinOf (c.value + (coins.map Coin.value).sum) ∧ left = [] := by
  induction coins using List.reverseRecOn generalizing c with
  | nil =>
    simp only [joinLoop, List.length_nil, List.map_nil, List.sum_nil, Nat.add_zero, hc, coinOf_value,
      true_and, Except.ok.injEq, Prod.mk.injEq]
    exact and_congr eq_comm eq_comm
  | append_singleton coins last ih =>
    rw [List.length_append, List.length_singleton, joinLoop, popBack_concat, ok_bind, bind_eq_ok,
      List.map_append, List.sum_append, List.map_singleton, List.sum_singleton]
    constructor
    · rintro ⟨c', hjoin, hrest⟩
      obtain ⟨hfit, rfl⟩ := (coin_join_eq_ok hc).1 hjoin
      obtain ⟨hsum, rfl, rfl⟩ := (ih (c := coinOf _) hfit).1 hrest
      rw [value_coinOf] at hsum
      exact ⟨by omega, by rw [value_coinOf]; congr 1; omega, rfl⟩
    · rintro ⟨hsum, rfl, rfl⟩
      have hfit : c.value + last.value ≤ maxU64 := by omega
      refine ⟨_, (coin_join_eq_ok hc).2 ⟨hfit, rfl⟩, (ih (c := coinOf _) hfit).2 ⟨?_, ?_, rfl⟩⟩
      · rw [value_coinOf]
        omega
      · rw [value_coinOf]
        congr 1
        omega

lemma joinVec_eq_ok (hc : c.value ≤ maxU64) :
    joinVec c coins = .ok joined ↔
      coins.length ≤ Coin.maxSplitParts ∧ c.value + (coins.map Coin.value).sum ≤ maxU64 ∧
        joined = coinOf (c.value + (coins.map Coin.value).sum) := by
  rw [joinVec, check_bind_eq_ok, ensure_eq_ok, decide_eq_true_eq, bind_eq_ok]
  refine and_congr_right fun _ => ?_
  constructor
  · rintro ⟨⟨joined', left⟩, hloop, h⟩
    obtain ⟨hsum, rfl, rfl⟩ := (joinLoop_eq_ok hc).1 hloop
    cases h
    exact ⟨hsum, rfl⟩
  · rintro ⟨hsum, rfl⟩
    exact ⟨_, (joinLoop_eq_ok hc).2 ⟨hsum, rfl, rfl⟩, rfl⟩

lemma joinVecAndTransfer_eq_ok {receiver : AccountAddress} {sent : Sent}
    (hcoins : ∀ c ∈ coins, c.value ≤ maxU64) :
    joinVecAndTransfer coins receiver sender = .ok sent ↔
      receiver ≠ sender ∧ coins ≠ [] ∧ coins.length ≤ Coin.maxSplitParts + 1 ∧
        (coins.map Coin.value).sum ≤ maxU64 ∧
        sent = (coinOf (coins.map Coin.value).sum, receiver) := by
  rw [joinVecAndTransfer, check_bind_eq_ok, check_bind_eq_ok, check_bind_eq_ok, ensure_eq_ok,
    ensure_eq_ok, ensure_eq_ok, decide_eq_true_eq, decide_eq_true_eq, decide_eq_true_eq,
    List.length_pos_iff]
  refine and_congr_right fun _ => and_congr_right fun hne => and_congr_right fun hlen => ?_
  obtain ⟨first, last, rfl⟩ : ∃ first last, coins = first ++ [last] :=
    ⟨_, _, (List.dropLast_append_getLast hne).symm⟩
  have hlast : last.value ≤ maxU64 := hcoins last (by simp)
  have hmax : first.length ≤ Coin.maxSplitParts := by simpa using hlen
  rw [popBack_concat, ok_bind, bind_eq_ok, List.map_append, List.sum_append, List.map_singleton,
    List.sum_singleton, Nat.add_comm _ last.value]
  constructor
  · rintro ⟨joined, hjoin, h⟩
    obtain ⟨-, hsum, rfl⟩ := (joinVec_eq_ok hlast).1 hjoin
    cases h
    exact ⟨hsum, rfl⟩
  · rintro ⟨hsum, rfl⟩
    exact ⟨_, (joinVec_eq_ok hlast).2 ⟨hmax, hsum, rfl⟩, rfl⟩

/-- Splitting and joining conserve value exactly, and abort exactly when a check on the arguments
fails or the sum does not fit. -/
theorem pay_conserves_value (sender : AccountAddress) :
    (∀ (c rest : Coin) (amounts : List Nat) (sent : List Sent),
      splitVec c amounts sender = .ok (rest, sent) ↔
        amounts.length ≤ Coin.maxSplitParts ∧ (∀ a ∈ amounts, 0 < a) ∧ amounts.sum ≤ c.value ∧
          rest = coinOf (c.value - amounts.sum) ∧
          sent = amounts.map fun a => (coinOf a, sender)) ∧
    (∀ (c rest : Coin) (n : Nat) (sent : List Sent),
      divideAndKeep c n sender = .ok (rest, sent) ↔
        0 < n ∧ n ≤ Coin.maxSplitParts ∧ n ≤ c.value ∧
          rest = coinOf (c.value - (n - 1) * (c.value / n)) ∧
          sent = List.replicate (n - 1) (coinOf (c.value / n), sender)) ∧
    (∀ (c joined : Coin) (coins : List Coin), c.value ≤ maxU64 →
      (joinVec c coins = .ok joined ↔
        coins.length ≤ Coin.maxSplitParts ∧ c.value + (coins.map Coin.value).sum ≤ maxU64 ∧
          joined = coinOf (c.value + (coins.map Coin.value).sum))) ∧
    ∀ (coins : List Coin) (receiver : AccountAddress) (sent : Sent),
      (∀ c ∈ coins, c.value ≤ maxU64) →
      (joinVecAndTransfer coins receiver sender = .ok sent ↔
        receiver ≠ sender ∧ coins ≠ [] ∧ coins.length ≤ Coin.maxSplitParts + 1 ∧
          (coins.map Coin.value).sum ≤ maxU64 ∧
          sent = (coinOf (coins.map Coin.value).sum, receiver)) :=
  ⟨fun _ _ _ _ => splitVec_eq_ok, fun _ _ _ _ => divideAndKeep_eq_ok,
    fun _ _ _ hc => joinVec_eq_ok hc, fun _ _ _ hcoins => joinVecAndTransfer_eq_ok hcoins⟩

end Kanari.Proofs

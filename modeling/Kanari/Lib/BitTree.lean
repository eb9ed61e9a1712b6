import Mathlib.Data.List.Basic
import Mathlib.Data.List.Infix
import Mathlib.Logic.Function.Basic
import Mathlib.Tactic.Ring

/-!
# Complete binary trees over bit strings

A node is the bit string that leads to it from the root, most significant bit first, and `subtree`
folds the leaves below a node.
-/

namespace Kanari.Lib.BitTree

variable {H : Type} (node : H → H → H)

def natOfBits : List Bool → Nat := List.foldl (fun n b => 2 * n + b.toNat) 0

def bitsOfNat : Nat → Nat → List Bool
  | 0, _ => []
  | n + 1, i => bitsOfNat n (i / 2) ++ [decide (i % 2 = 1)]

@[simp] lemma natOfBits_nil : natOfBits [] = 0 := rfl

@[simp] lemma natOfBits_concat (l : List Bool) (b : Bool) :
    natOfBits (l ++ [b]) = 2 * natOfBits l + b.toNat := by
  simp [natOfBits]

@[simp] lemma length_bitsOfNat (n i : Nat) : (bitsOfNat n i).length = n := by
  induction n generalizing i with
  | zero => rfl
  | succ n ih => simp [bitsOfNat, ih]

lemma bitsOfNat_natOfBits (l : List Bool) : bitsOfNat l.length (natOfBits l) = l := by
  induction l using List.reverseRecOn with
  | nil => rfl
  | append_singleton l b ih =>
    have hb : b.toNat ≤ 1 := Bool.toNat_le b
    have hdiv : (2 * natOfBits l + b.toNat) / 2 = natOfBits l := by omega
    have hmod : decide ((2 * natOfBits l + b.toNat) % 2 = 1) = b := by cases b <;> simp
    rw [natOfBits_concat, List.length_append, List.length_singleton]
    simp only [bitsOfNat, hdiv, hmod, ih]

variable {n : Nat} {leaf : List Bool → H} {p : List Bool}

lemma natOfBits_bitsOfNat {i : Nat} (h : i < 2 ^ n) : natOfBits (bitsOfNat n i) = i := by
  induction n generalizing i with
  | zero =>
    have : i = 0 := by simpa using h
    rw [this]
    rfl
  | succ n ih =>
    have hbit : (decide (i % 2 = 1)).toNat = i % 2 := by
      rcases Nat.mod_two_eq_zero_or_one i with h0 | h1
      · simp [h0]
      · simp [h1]
    rw [pow_succ] at h
    rw [bitsOfNat, natOfBits_concat, ih (by omega), hbit]
    omega

lemma natOfBits_lt (l : List Bool) : natOfBits l < 2 ^ l.length := by
  induction l using List.reverseRecOn with
  | nil => simp
  | append_singleton l b ih =>
    have hb : b.toNat ≤ 1 := Bool.toNat_le b
    rw [natOfBits_concat, List.length_append, List.length_singleton, pow_succ]
    omega

lemma natOfBits_append (l m : List Bool) :
    natOfBits (l ++ m) = natOfBits l * 2 ^ m.length + natOfBits m := by
  induction m using List.reverseRecOn with
  | nil => simp
  | append_singleton m b ih =>
    rw [← List.append_assoc, natOfBits_concat, ih, natOfBits_concat, List.length_append,
      List.length_singleton, pow_succ]
    ring

lemma natOfBits_injective {l m : List Bool} (hlen : l.length = m.length)
    (h : natOfBits l = natOfBits m) : l = m := by
  rw [← bitsOfNat_natOfBits l, ← bitsOfNat_natOfBits m, hlen, h]

lemma natOfBits_lt_of_left_right (p x y : List Bool) (hlen : x.length = y.length) :
    natOfBits (p ++ false :: x) < natOfBits (p ++ true :: y) := by
  have hx := natOfBits_lt x
  have hsplit : ∀ (b : Bool) (z : List Bool),
      natOfBits (p ++ b :: z) = (2 * natOfBits p + b.toNat) * 2 ^ z.length + natOfBits z := by
    intro b z
    rw [show p ++ b :: z = (p ++ [b]) ++ z by simp, natOfBits_append, natOfBits_concat]
  rw [hsplit, hsplit, ← hlen, add_mul, add_mul]
  simp only [Bool.toNat_false, Bool.toNat_true, zero_mul, one_mul]
  omega

def subtree (leaf : List Bool → H) : Nat → List Bool → H
  | 0, p => leaf p
  | n + 1, p => node (subtree leaf n (p ++ [false])) (subtree leaf n (p ++ [true]))

def emptyRoot (leaf : H) : Nat → H
  | 0 => leaf
  | n + 1 => node (emptyRoot leaf n) (emptyRoot leaf n)

def join (b : Bool) (current sibling : H) : H :=
  if b then node sibling current else node current sibling

lemma subtree_succ (leaf : List Bool → H) (n : Nat) (p : List Bool) (b : Bool) :
    subtree node leaf (n + 1) p =
      join node b (subtree node leaf n (p ++ [b])) (subtree node leaf n (p ++ [!b])) := by
  cases b <;> rfl

lemma subtree_congr {leaf' : List Bool → H}
    (h : ∀ q, p <+: q → q.length = p.length + n → leaf q = leaf' q) :
    subtree node leaf n p = subtree node leaf' n p := by
  induction n generalizing p with
  | zero => exact h p List.prefix_rfl rfl
  | succ n ih =>
    have hchild : ∀ b : Bool, subtree node leaf n (p ++ [b]) = subtree node leaf' n (p ++ [b]) := by
      intro b
      apply ih
      intro q hq hlen
      apply h q ((List.prefix_append p [b]).trans hq)
      rw [hlen, List.length_append, List.length_singleton]
      omega
    rw [subtree, subtree, hchild, hchild]

lemma subtree_injective {node : H → H → H} (hnode : Function.Injective2 node) {leaf' : List Bool → H}
    (h : subtree node leaf n p = subtree node leaf' n p) (q : List Bool) (hq : q.length = n) :
    leaf (p ++ q) = leaf' (p ++ q) := by
  induction n generalizing p q with
  | zero =>
    rw [List.length_eq_zero_iff.mp hq, List.append_nil]
    exact h
  | succ n ih =>
    obtain ⟨hleft, hright⟩ := hnode h
    cases q with
    | nil => cases hq
    | cons b q =>
      rw [List.append_cons]
      cases b with
      | false => exact ih hleft q (Nat.succ.inj hq)
      | true => exact ih hright q (Nat.succ.inj hq)

lemma subtree_update {k : List Bool} {v : H} (h : ¬p <+: k) :
    subtree node (Function.update leaf k v) n p = subtree node leaf n p := by
  apply subtree_congr
  intro q hq _
  have hne : q ≠ k := by
    rintro rfl
    exact h hq
  rw [Function.update_of_ne hne]

lemma subtree_const (d : H) (n : Nat) (p : List Bool) :
    subtree node (fun _ => d) n p = emptyRoot node d n := by
  induction n generalizing p with
  | zero => rfl
  | succ n ih => rw [subtree, ih, ih, emptyRoot]

lemma subtree_empty {d : H} (h : ∀ q, p <+: q → q.length = p.length + n → leaf q = d) :
    subtree node leaf n p = emptyRoot node d n := by
  rw [← subtree_const node d n p]
  exact subtree_congr node h

def pairUp : List H → List H
  | a :: b :: rest => node a b :: pairUp rest
  | _ => []

lemma pairUp_range (f : Nat → H) (m : Nat) :
    pairUp node ((List.range (2 * m)).map f) =
      (List.range m).map fun i => node (f (2 * i)) (f (2 * i + 1)) := by
  induction m generalizing f with
  | zero => rfl
  | succ m ih =>
    have hrange : List.range (2 * (m + 1)) = 0 :: 1 :: (List.range (2 * m)).map (· + 2) := by
      rw [show 2 * (m + 1) = 2 * m + 1 + 1 by ring, List.range_succ_eq_map, List.range_succ_eq_map]
      simp [Function.comp_def]
    rw [hrange, List.range_succ_eq_map]
    simp only [List.map_cons, List.map_map, pairUp]
    have := ih (f ∘ (· + 2))
    simp only [Function.comp_def] at this ⊢
    rw [this]
    simp [Nat.mul_add]

def level (leaf : List Bool → H) (height n : Nat) : List H :=
  (List.range (2 ^ n)).map fun i => subtree node leaf height (bitsOfNat n i)

lemma pairUp_level (leaf : List Bool → H) (height n : Nat) :
    pairUp node (level node leaf height (n + 1)) = level node leaf (height + 1) n := by
  unfold level
  rw [pow_succ, mul_comm, pairUp_range]
  apply List.map_congr_left
  intro i _
  have heven : bitsOfNat (n + 1) (2 * i) = bitsOfNat n i ++ [false] := by
    simp [bitsOfNat]
  have hodd : bitsOfNat (n + 1) (2 * i + 1) = bitsOfNat n i ++ [true] := by
    have hdiv : (2 * i + 1) / 2 = i := by omega
    have hmod : (2 * i + 1) % 2 = 1 := by omega
    simp [bitsOfNat, hdiv, hmod]
  rw [heven, hodd, subtree]

lemma pairUp_iterate_level (leaf : List Bool → H) (height n : Nat) :
    (pairUp node)^[n] (level node leaf height n) = [subtree node leaf (height + n) []] := by
  induction n generalizing height with
  | zero => rfl
  | succ n ih =>
    rw [Function.iterate_succ_apply, pairUp_level, ih]
    congr 2
    omega

end Kanari.Lib.BitTree

import Kanari.Lib.BitTree

/-!
# Binary trees with a root value

If the node function is injective and no leaf holds a value in its range, then a climb that ends in
the root value of a tree started at the node to which its directions lead.
-/

namespace Kanari.Lib

open BitTree

inductive PairTree (α : Type) where
  | leaf (a : α)
  | node (l r : PairTree α)
deriving DecidableEq

namespace PairTree

variable {α : Type} (f : α → α → α)

def root : PairTree α → α
  | leaf a => a
  | node l r => f (root l) (root r)

def reach : PairTree α → List Bool → Option (PairTree α)
  | t, [] => some t
  | leaf _, _ :: _ => none
  | node l r, b :: path => if b then reach r path else reach l path

def values : PairTree α → List α
  | leaf a => [a]
  | node l r => values l ++ values r

lemma reach_nil (t : PairTree α) : t.reach [] = some t := by
  cases t <;> rfl

lemma reach_append (t : PairTree α) (p q : List Bool) :
    t.reach (p ++ q) = (t.reach p).bind (·.reach q) := by
  induction p generalizing t with
  | nil => rw [List.nil_append, reach_nil, Option.bind_some]
  | cons b p ih =>
    cases t with
    | leaf a => rfl
    | node l r => cases b <;> exact ih _

end PairTree

def climb {α : Type} (f : α → α → α) (x : α) (steps : List (Bool × α)) : α :=
  steps.foldl (fun current step => join f step.1 current step.2) x

section

variable {α : Type} {f : α → α → α}

@[simp] lemma climb_nil (x : α) : climb f x [] = x := rfl

@[simp] lemma climb_concat (x : α) (steps : List (Bool × α)) (step : Bool × α) :
    climb f x (steps ++ [step]) = join f step.1 (climb f x steps) step.2 := by
  simp [climb]

lemma join_eq (b : Bool) (x s : α) : ∃ u v, join f b x s = f u v := by
  cases b with
  | false => exact ⟨x, s, rfl⟩
  | true => exact ⟨s, x, rfl⟩

lemma reach_of_climb (hinj : Function.Injective2 f) {t : PairTree α}
    (hleaves : ∀ a ∈ t.values, ∀ u v, f u v ≠ a) {x : α} {steps : List (Bool × α)}
    (h : climb f x steps = t.root f) :
    ∃ sub, t.reach (steps.map (·.1)).reverse = some sub ∧ sub.root f = x := by
  induction steps using List.reverseRecOn generalizing t with
  | nil => exact ⟨t, t.reach_nil, h.symm⟩
  | append_singleton steps step ih =>
    obtain ⟨b, s⟩ := step
    rw [climb_concat] at h
    rw [List.map_append, List.map_singleton, List.reverse_append, List.reverse_singleton,
      List.singleton_append]
    cases t with
    | leaf a =>
      obtain ⟨u, v, huv⟩ := join_eq (f := f) b (climb f x steps) s
      exact absurd (huv.symm.trans h) (hleaves a (List.mem_singleton.mpr rfl) u v)
    | node l r =>
      have hl : ∀ a ∈ l.values, ∀ u v, f u v ≠ a := fun a ha =>
        hleaves a (List.mem_append_left _ ha)
      have hr : ∀ a ∈ r.values, ∀ u v, f u v ≠ a := fun a ha =>
        hleaves a (List.mem_append_right _ ha)
      cases b with
      | false => exact ih hl (hinj h).1
      | true => exact ih hr (hinj h).2

/-- Every node of a tree has siblings with which a climb from it ends in the root. -/
lemma climb_of_reach {t sub : PairTree α} {path : List Bool} (h : t.reach path = some sub) :
    ∃ steps : List (Bool × α), steps.map (·.1) = path.reverse ∧
      climb f (sub.root f) steps = t.root f := by
  induction path generalizing t with
  | nil =>
    have hsub : t = sub := by cases t <;> exact Option.some.inj h
    exact ⟨[], rfl, by rw [hsub, climb_nil]⟩
  | cons b path ih =>
    cases t with
    | leaf a => cases h
    | node l r =>
      cases b with
      | false =>
        obtain ⟨steps, hdirs, hclimb⟩ := ih h
        exact ⟨steps ++ [(false, r.root f)], by simp [hdirs], by simp [hclimb, join, PairTree.root]⟩
      | true =>
        obtain ⟨steps, hdirs, hclimb⟩ := ih h
        exact ⟨steps ++ [(true, l.root f)], by simp [hdirs], by simp [hclimb, join, PairTree.root]⟩

end

section

variable {α : Type} (f : α → α → α) (leaf : List Bool → α)

def PairTree.complete : Nat → List Bool → PairTree α
  | 0, p => .leaf (leaf p)
  | n + 1, p => .node (complete n (p ++ [false])) (complete n (p ++ [true]))

lemma root_complete (n : Nat) (p : List Bool) :
    (PairTree.complete leaf n p).root f = subtree f leaf n p := by
  induction n generalizing p with
  | zero => rfl
  | succ n ih => rw [PairTree.complete, PairTree.root, ih, ih, subtree]

lemma reach_complete {n : Nat} {p path : List Bool} (h : path.length ≤ n) :
    (PairTree.complete leaf n p).reach path =
      some (PairTree.complete leaf (n - path.length) (p ++ path)) := by
  induction path generalizing n p with
  | nil => cases n <;> simp [PairTree.complete, PairTree.reach]
  | cons b path ih =>
    obtain ⟨n, rfl⟩ : ∃ m, n = m + 1 := ⟨n - 1, by rw [List.length_cons] at h; omega⟩
    have hpath : path.length ≤ n := by
      rw [List.length_cons] at h
      omega
    rw [List.length_cons, Nat.add_sub_add_right]
    cases b with
    | false =>
      rw [show p ++ false :: path = p ++ [false] ++ path by simp, ← ih hpath]
      rfl
    | true =>
      rw [show p ++ true :: path = p ++ [true] ++ path by simp, ← ih hpath]
      rfl

lemma mem_values_complete {n : Nat} {p : List Bool} {a : α}
    (h : a ∈ (PairTree.complete leaf n p).values) : ∃ q, a = leaf q := by
  induction n generalizing p with
  | zero => exact ⟨p, List.mem_singleton.mp h⟩
  | succ n ih =>
    obtain h | h := List.mem_append.mp h
    · exact ih h
    · exact ih h

end

/-! ## Levels with an odd end

Neighbours are joined; a last one without a neighbour goes up as it is. -/

section

variable {α β : Type} (f : α → α → α)

def joinPairs : List α → List α
  | a :: b :: rest => f a b :: joinPairs rest
  | [a] => [a]
  | [] => []

def joinLevels : Nat → List α → List α
  | 0, level => level
  | fuel + 1, level => if level.length ≤ 1 then level else joinLevels fuel (joinPairs f level)

lemma length_joinPairs : ∀ l : List α, (joinPairs f l).length = (l.length + 1) / 2
  | [] => by simp [joinPairs]
  | [_] => by simp [joinPairs]
  | _ :: _ :: rest => by
    rw [joinPairs, List.length_cons, length_joinPairs rest, List.length_cons, List.length_cons]
    omega

def neighbour (i : Nat) : Nat := if i % 2 = 0 then i + 1 else i - 1

lemma joinPairs_getElem : ∀ {l : List α} {i : Nat} {x : α}, l[i]? = some x →
    (joinPairs f l)[i / 2]? = some (match l[neighbour i]? with
      | some s => join f (decide (i % 2 = 1)) x s
      | none => x)
  | [], i, x, h => by simp at h
  | [a], i, x, h => by
    obtain ⟨rfl, rfl⟩ : i = 0 ∧ a = x := by
      cases i with
      | zero => exact ⟨rfl, by simpa using h⟩
      | succ i => simp at h
    rfl
  | a :: b :: rest, 0, x, h => by
    obtain rfl : a = x := by simpa using h
    rfl
  | a :: b :: rest, 1, x, h => by
    obtain rfl : b = x := by simpa using h
    rfl
  | a :: b :: rest, i + 2, x, h => by
    have hrest : rest[i]? = some x := by simpa using h
    have hdiv : (i + 2) / 2 = i / 2 + 1 := by omega
    have hmod : (i + 2) % 2 = i % 2 := by omega
    have hneighbour : (a :: b :: rest)[neighbour (i + 2)]? = rest[neighbour i]? := by
      unfold neighbour
      rw [hmod]
      by_cases heven : i % 2 = 0
      · rw [if_pos heven, if_pos heven]
        rfl
      · obtain ⟨j, rfl⟩ : ∃ j, i = j + 1 := ⟨i - 1, by omega⟩
        rw [if_neg heven, if_neg heven]
        rfl
    rw [joinPairs, hdiv, List.getElem?_cons_succ, joinPairs_getElem hrest, hneighbour, hmod]

lemma joinLevels_singleton {fuel : Nat} {l : List α} (hne : l ≠ []) (hfuel : l.length ≤ fuel + 1) :
    ∃ x, joinLevels f fuel l = [x] := by
  induction fuel generalizing l with
  | zero =>
    obtain ⟨x, rfl⟩ := List.length_eq_one_iff.mp
      (le_antisymm hfuel (List.length_pos_iff.mpr hne))
    exact ⟨x, rfl⟩
  | succ fuel ih =>
    unfold joinLevels
    split_ifs with hlen
    · exact List.length_eq_one_iff.mp (le_antisymm hlen (List.length_pos_iff.mpr hne))
    · have hhalf := length_joinPairs f l
      exact ih (List.ne_nil_of_length_pos (by omega)) (by omega)

lemma values_joinPairs : ∀ l : List (PairTree α),
    (joinPairs .node l).flatMap PairTree.values = l.flatMap PairTree.values
  | [] => rfl
  | [_] => rfl
  | a :: b :: rest => by
    rw [joinPairs, List.flatMap_cons, values_joinPairs rest]
    simp [PairTree.values]

lemma values_joinLevels (fuel : Nat) (l : List (PairTree α)) :
    (joinLevels .node fuel l).flatMap PairTree.values = l.flatMap PairTree.values := by
  induction fuel generalizing l with
  | zero => rfl
  | succ fuel ih =>
    unfold joinLevels
    split_ifs
    · rfl
    · rw [ih, values_joinPairs]

variable {f} {g : β → β → β} {h : α → β} (hom : ∀ a b, h (f a b) = g (h a) (h b))
include hom

lemma map_joinPairs : ∀ l : List α, (joinPairs f l).map h = joinPairs g (l.map h)
  | [] => rfl
  | [_] => rfl
  | a :: b :: rest => by
    rw [joinPairs, List.map_cons, hom, map_joinPairs rest]
    rfl

lemma map_joinLevels (fuel : Nat) (l : List α) :
    (joinLevels f fuel l).map h = joinLevels g fuel (l.map h) := by
  induction fuel generalizing l with
  | zero => rfl
  | succ fuel ih =>
    unfold joinLevels
    rw [List.length_map]
    split_ifs
    · rfl
    · rw [ih, map_joinPairs hom]

end

end Kanari.Lib

import Kanari.Lib.OrdMap
import Mathlib.Data.List.Perm.Basic

/-!
# Occurrence counters

Entries that reach zero are removed, so the map is determined by what it counts.
-/

namespace Kanari.Lib

variable {K : Type} [LinearOrder K]

def countOf (m : OrdMap K Nat) (k : K) : Nat := (m.find? k).getD 0

def bump (m : OrdMap K Nat) (k : K) (n : Nat) : OrdMap K Nat := m.insert k (countOf m k + n)

def decrement (m : OrdMap K Nat) (k : K) : OrdMap K Nat :=
  match m.find? k with
  | none => m
  | some n => if n - 1 = 0 then m.erase k else m.insert k (n - 1)

def recount (l : List K) : OrdMap K Nat := l.foldl (fun m k => bump m k 1) .empty

def mergeCounts (m acc : OrdMap K Nat) : OrdMap K Nat := acc.entries.foldl (fun m e => bump m e.1 e.2) m

@[simp] lemma countOf_empty (k : K) : countOf (.empty : OrdMap K Nat) k = 0 := rfl

lemma countOf_bump (m : OrdMap K Nat) (k k' : K) (n : Nat) :
    countOf (bump m k n) k' = countOf m k' + if k' = k then n else 0 := by
  unfold bump countOf
  rw [OrdMap.find?_insert]
  split_ifs with h
  · rw [h, Option.getD_some]
  · rw [Nat.add_zero]

lemma countOf_decrement (m : OrdMap K Nat) (k k' : K) :
    countOf (decrement m k) k' = countOf m k' - if k' = k then 1 else 0 := by
  unfold decrement
  cases h : m.find? k with
  | none =>
    simp only
    split_ifs with hk
    · subst hk
      simp [countOf, h]
    · rfl
  | some n =>
    simp only
    by_cases hk : k' = k
    · subst hk
      rw [if_pos rfl]
      by_cases hzero : n - 1 = 0
      · simp [countOf, OrdMap.find?_erase, h, hzero]
      · simp [countOf, h, hzero]
    · rw [if_neg hk, Nat.sub_zero]
      by_cases hzero : n - 1 = 0
      · simp [countOf, OrdMap.find?_erase, hk, hzero]
      · simp [countOf, OrdMap.find?_insert, hk, hzero]

/-- `m` counts the elements of `l`, without zero entries. -/
structure CountsOf (m : OrdMap K Nat) (l : List K) : Prop where
  count : ∀ k, countOf m k = l.count k
  positive : ∀ k n, m.find? k = some n → 0 < n

namespace CountsOf

variable {m acc : OrdMap K Nat} {l l' b : List K}

lemma empty : CountsOf (.empty : OrdMap K Nat) [] := ⟨fun _ => rfl, fun _ _ h => by cases h⟩

lemma perm (h : CountsOf m l) (hperm : l.Perm l') : CountsOf m l' :=
  ⟨fun k => (h.count k).trans (hperm.count_eq k), h.positive⟩

lemma bump_one (h : CountsOf m l) (k : K) : CountsOf (bump m k 1) (l ++ [k]) where
  count := by
    intro k'
    rw [countOf_bump, h.count, List.count_append, List.count_singleton]
    by_cases hk : k' = k
    · simp [hk]
    · simp [hk, Ne.symm hk]
  positive := by
    intro k' n hn
    unfold Lib.bump at hn
    rw [OrdMap.find?_insert] at hn
    split_ifs at hn with hk
    · cases hn
      exact Nat.succ_pos _
    · exact h.positive k' n hn

lemma bump_all (h : CountsOf m l) (ks : List K) :
    CountsOf (ks.foldl (fun m k => bump m k 1) m) (l ++ ks) := by
  induction ks generalizing m l with
  | nil => simpa using h
  | cons k ks ih => simpa using ih (h.bump_one k)

lemma decrement (h : CountsOf m l) {k : K} (hl : l.Perm (k :: l')) : CountsOf (Lib.decrement m k) l' where
  count := by
    intro k'
    rw [countOf_decrement, h.count, hl.count_eq, List.count_cons]
    by_cases hk : k' = k
    · simp [hk]
    · simp [hk, Ne.symm hk]
  positive := by
    intro k' n hn
    unfold Lib.decrement at hn
    cases hk : m.find? k with
    | none =>
      rw [hk] at hn
      exact h.positive k' n hn
    | some c =>
      rw [hk] at hn
      simp only at hn
      split_ifs at hn with hzero
      · rw [OrdMap.find?_erase] at hn
        split_ifs at hn
        exact h.positive k' n hn
      · rw [OrdMap.find?_insert] at hn
        split_ifs at hn
        · cases hn
          exact Nat.pos_of_ne_zero hzero
        · exact h.positive k' n hn

lemma decrement_all {ks : List K} (h : CountsOf m l) (hl : l.Perm (ks ++ l')) :
    CountsOf (ks.foldl Lib.decrement m) l' := by
  induction ks generalizing m l with
  | nil => exact h.perm hl
  | cons k ks ih => exact ih (h.decrement hl) (List.Perm.refl _)

lemma find? (h : CountsOf m l) (k : K) :
    m.find? k = if l.count k = 0 then none else some (l.count k) := by
  have hcount := h.count k
  unfold countOf at hcount
  cases hk : m.find? k with
  | none =>
    rw [hk, Option.getD_none] at hcount
    rw [if_pos hcount.symm]
  | some n =>
    rw [hk, Option.getD_some] at hcount
    have := h.positive k n hk
    rw [if_neg (by omega), hcount]

lemma recount (l : List K) : CountsOf (Lib.recount l) l := by
  simpa [Lib.recount] using empty.bump_all l

lemma eq_recount (h : CountsOf m l) : m = Lib.recount l :=
  OrdMap.ext fun k => by rw [h.find? k, (recount l).find? k]

lemma mergeEntries (h : CountsOf m l) {es : List (K × Nat)} (hsorted : es.Pairwise (·.1 < ·.1))
    (hpos : ∀ e ∈ es, 0 < e.2) :
    (∀ k, countOf (es.foldl (fun m e => bump m e.1 e.2) m) k = l.count k + (OrdMap.lookup k es).getD 0) ∧
      ∀ k n, (es.foldl (fun m e => bump m e.1 e.2) m).find? k = some n → 0 < n := by
  -- the entry counts are added one by one, so the invariant speaks of any map with positive entries
  have key : ∀ (m : OrdMap K Nat), (∀ k n, m.find? k = some n → 0 < n) →
      (∀ k, countOf (es.foldl (fun m e => bump m e.1 e.2) m) k =
        countOf m k + (OrdMap.lookup k es).getD 0) ∧
      ∀ k n, (es.foldl (fun m e => bump m e.1 e.2) m).find? k = some n → 0 < n := by
    induction es with
    | nil => exact fun m hm => ⟨fun k => rfl, hm⟩
    | cons e es ih =>
      intro m hm
      obtain ⟨hhead, htail⟩ := List.pairwise_cons.mp hsorted
      have hbump : ∀ k n, (bump m e.1 e.2).find? k = some n → 0 < n := by
        intro k n hn
        unfold Lib.bump at hn
        rw [OrdMap.find?_insert] at hn
        split_ifs at hn
        · cases hn
          exact Nat.add_pos_right _ (hpos e List.mem_cons_self)
        · exact hm k n hn
      obtain ⟨hcount, hpositive⟩ := ih htail (fun e he => hpos e (List.mem_cons_of_mem _ he)) _ hbump
      refine ⟨fun k => ?_, hpositive⟩
      rw [List.foldl_cons, hcount, countOf_bump]
      by_cases hk : k = e.1
      · subst hk
        simp [OrdMap.lookup, OrdMap.lookup_eq_none_of_lt hhead]
      · simp [OrdMap.lookup, hk]
  obtain ⟨hcount, hpositive⟩ := key m h.positive
  exact ⟨fun k => (hcount k).trans (by rw [h.count]), hpositive⟩

lemma merge (h : CountsOf m l) (hacc : CountsOf acc b) : CountsOf (mergeCounts m acc) (l ++ b) := by
  obtain ⟨hcount, hpositive⟩ := h.mergeEntries acc.sorted fun e he =>
    hacc.positive e.1 e.2 (OrdMap.mem_entries.mp he)
  refine ⟨fun k => ?_, hpositive⟩
  rw [List.count_append, ← hacc.count]
  exact hcount k

lemma merge_le (h : CountsOf m l) (hacc : CountsOf acc b) {limit : Nat}
    (hlimit : ∀ k, countOf m k + countOf acc k ≤ limit) (k : K) : countOf (mergeCounts m acc) k ≤ limit := by
  rw [(h.merge hacc).count, List.count_append, ← h.count, ← hacc.count]
  exact hlimit k

end CountsOf

end Kanari.Lib

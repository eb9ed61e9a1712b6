import Mathlib.Data.List.DropRight
import Mathlib.Data.Finset.Basic
import Mathlib.Data.List.Nodup

/-!
# Bounded windows of a history

A list that keeps its last `n` elements is the window `l.rtake n` of everything ever appended.
-/

namespace Kanari.Lib

variable {α : Type}

lemma length_rtake (l : List α) (n : Nat) : (l.rtake n).length = min n l.length := by
  unfold List.rtake
  rw [List.length_drop]
  omega

lemma rtake_rtake_append (l m : List α) (n : Nat) : (l.rtake n ++ m).rtake n = (l ++ m).rtake n := by
  unfold List.rtake
  rw [← List.drop_append_of_le_length (Nat.sub_le l.length n), List.drop_drop]
  congr 1
  simp only [List.length_drop, List.length_append]
  omega

variable {n : Nat}

lemma rtake_concat (l : List α) (a : α) :
    (l ++ [a]).rtake n =
      if n < (l.rtake n ++ [a]).length then (l.rtake n ++ [a]).tail else l.rtake n ++ [a] := by
  rw [← rtake_rtake_append l [a] n]
  have hlen : (l.rtake n).length ≤ n := by
    rw [length_rtake]
    exact Nat.min_le_left _ _
  generalize l.rtake n = w at *
  unfold List.rtake
  rw [List.length_append, List.length_singleton]
  split_ifs with hfull
  · rw [show w.length + 1 - n = 1 by omega, List.drop_one]
  · rw [show w.length + 1 - n = 0 by omega, List.drop_zero]

lemma rtake_cons {a : α} {l : List α} (h : n ≤ l.length) : (a :: l).rtake n = l.rtake n := by
  unfold List.rtake
  rw [List.length_cons, show l.length + 1 - n = (l.length - n) + 1 by omega, List.drop_succ_cons]

lemma rtake_of_length_le {l : List α} (h : l.length ≤ n) : l.rtake n = l := by
  unfold List.rtake
  rw [Nat.sub_eq_zero_of_le h, List.drop_zero]

lemma rtake_isSuffix (l : List α) (n : Nat) : l.rtake n <:+ l := List.drop_suffix _ _

lemma mem_rtake_append {x : α} {l m : List α} (h : x ∈ (l ++ m).rtake n) :
    x ∈ l.rtake n ∨ x ∈ m := by
  unfold List.rtake at h ⊢
  rw [List.drop_append, List.mem_append, List.length_append] at h
  exact h.imp (fun h => List.drop_subset_drop_left _ (by omega) h) List.mem_of_mem_drop

lemma mem_rtake_of_suffix {x : α} {l m : List α} (hm : m <:+ l) (h : x ∈ m.rtake n) :
    x ∈ l.rtake n := by
  obtain ⟨t, rfl⟩ := hm
  unfold List.rtake at h ⊢
  rw [List.drop_append, List.length_append, List.mem_append]
  exact .inr (List.drop_subset_drop_left _ (by omega) h)

/-- A suffix that fills the window has the window of the whole. -/
lemma rtake_eq_of_suffix {l m : List α} (hm : m <:+ l) (hn : n ≤ m.length) :
    m.rtake n = l.rtake n := by
  obtain ⟨t, rfl⟩ := hm
  have hdrop : t.drop (t.length + m.length - n) = [] := List.drop_eq_nil_of_le (by omega)
  unfold List.rtake
  rw [List.length_append, List.drop_append, hdrop, List.nil_append]
  congr 1
  omega

def WindowNodup (n : Nat) (l : List α) : Prop := ∀ a x b, l = a ++ x :: b → x ∉ a.rtake n

lemma windowNodup_nil (n : Nat) : WindowNodup n ([] : List α) := fun a x b h => by simp at h

lemma WindowNodup.append {l m : List α} (hl : WindowNodup n l) (hm : m.Nodup)
    (hfresh : ∀ x ∈ m, x ∉ l.rtake n) : WindowNodup n (l ++ m) := by
  intro a x b heq
  rcases List.append_eq_append_iff.mp heq with ⟨a', rfl, rfl⟩ | ⟨c, rfl, hc⟩
  · intro hx
    rcases mem_rtake_append hx with hx | hx
    · exact hfresh x (by simp) hx
    · exact (List.nodup_append.mp hm).2.2 x hx x List.mem_cons_self rfl
  · cases c with
    | nil =>
      rw [List.append_nil] at hfresh
      exact hfresh x (by rw [← List.nil_append m, ← hc]; exact List.mem_cons_self)
    | cons y c =>
      obtain ⟨rfl, -⟩ := List.cons.inj hc
      exact hl a x c rfl

lemma WindowNodup.suffix {l m : List α} (hl : WindowNodup n l) (hm : m <:+ l) :
    WindowNodup n m := by
  rintro a x b rfl hx
  obtain ⟨t, rfl⟩ := hm
  exact hl (t ++ a) x b (List.append_assoc _ _ _).symm (mem_rtake_of_suffix (List.suffix_append t a) hx)

lemma WindowNodup.nodup {l : List α} (hl : WindowNodup n l) (hn : l.length ≤ n) : l.Nodup := by
  induction l using List.reverseRecOn with
  | nil => exact List.nodup_nil
  | append_singleton l x ih =>
    rw [List.length_append, List.length_singleton] at hn
    have hx := hl l x [] rfl
    rw [rtake_of_length_le (by omega)] at hx
    have hpre : WindowNodup n l := fun a y b hab => hl a y (b ++ [x]) (by rw [hab, List.append_assoc, List.cons_append])
    exact List.Nodup.append (ih hpre (by omega)) (List.nodup_singleton x) (by simpa using hx)

variable [DecidableEq α]

lemma erase_toFinset_cons {a : α} {l : List α} (h : (a :: l).Nodup) :
    (a :: l).toFinset.erase a = l.toFinset := by
  rw [List.toFinset_cons, Finset.erase_insert]
  exact fun ha => (List.nodup_cons.mp h).1 (List.mem_toFinset.mp ha)

end Kanari.Lib

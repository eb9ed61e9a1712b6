import Kanari.Lib.Checked
import Mathlib.Algebra.BigOperators.Group.List.Basic
import Mathlib.Algebra.Order.Ring.Nat
import Mathlib.Data.List.Perm.Basic

/-!
# Pools of linear values

Values that can be neither copied nor dropped, held in a list and named by their position.
-/

namespace Kanari.Lib

variable {ε α β : Type}

def takeAt (l : List α) (i : Nat) (missing : ε) : Except ε (α × List α) :=
  match l[i]? with
  | some a => .ok (a, l.eraseIdx i)
  | none => .error missing

def updateAt (l : List α) (i : Nat) (missing : ε) (f : α → Except ε (α × β)) :
    Except ε (List α × β) :=
  match l[i]? with
  | some a => f a >>= fun r => .ok (l.set i r.1, r.2)
  | none => .error missing

def total (f : α → Nat) (l : List α) : Nat := (l.map f).sum

@[simp] lemma total_nil (f : α → Nat) : total f [] = 0 := rfl

@[simp] lemma total_append (f : α → Nat) (l m : List α) : total f (l ++ m) = total f l + total f m := by
  simp [total]

@[simp] lemma total_singleton (f : α → Nat) (a : α) : total f [a] = f a := by
  simp [total]

lemma total_cons (f : α → Nat) (a : α) (l : List α) : total f (a :: l) = f a + total f l := by
  simp [total]

variable {l : List α} {i : Nat} {a : α}

lemma total_eraseIdx (f : α → Nat) (h : l[i]? = some a) :
    total f (l.eraseIdx i) + f a = total f l := by
  induction l generalizing i with
  | nil => simp at h
  | cons b l ih =>
    cases i with
    | zero =>
      obtain rfl : b = a := by simpa using h
      rw [List.eraseIdx_cons_zero, total_cons]
      omega
    | succ i =>
      have := ih (by simpa using h)
      rw [List.eraseIdx_cons_succ, total_cons, total_cons]
      omega

lemma total_set (f : α → Nat) (h : l[i]? = some a) (b : α) :
    total f (l.set i b) + f a = total f l + f b := by
  induction l generalizing i with
  | nil => simp at h
  | cons c l ih =>
    cases i with
    | zero =>
      obtain rfl : c = a := by simpa using h
      rw [List.set_cons_zero, total_cons, total_cons]
      omega
    | succ i =>
      have := ih (by simpa using h)
      rw [List.set_cons_succ, total_cons, total_cons]
      omega

lemma total_takeAt (f : α → Nat) {rest : List α} {missing : ε}
    (h : takeAt l i missing = .ok (a, rest)) : total f rest + f a = total f l := by
  unfold takeAt at h
  cases hi : l[i]? with
  | none =>
    rw [hi] at h
    cases h
  | some b =>
    rw [hi] at h
    cases h
    exact total_eraseIdx f hi

lemma total_updateAt (f : α → Nat) {l' : List α} {missing : ε} {g : α → Except ε (α × β)} {r : β}
    (h : updateAt l i missing g = .ok (l', r)) :
    ∃ a a', g a = .ok (a', r) ∧ total f l' + f a = total f l + f a' := by
  unfold updateAt at h
  cases hi : l[i]? with
  | none =>
    rw [hi] at h
    cases h
  | some a =>
    rw [hi] at h
    obtain ⟨⟨a', r'⟩, hg, heq⟩ := bind_eq_ok.mp h
    cases heq
    exact ⟨a, a', hg, total_set f hi a'⟩

/-- The last element takes the place of the one at `i`. -/
def swapRemove (l : List α) (i : Nat) : List α :=
  match l.getLast? with
  | some last => (l.set i last).dropLast
  | none => []

lemma swapRemove_perm (h : l[i]? = some a) : (a :: swapRemove l i).Perm l := by
  rcases List.eq_nil_or_concat l with rfl | ⟨init, last, hl⟩
  · simp at h
  rw [List.concat_eq_append] at hl
  subst hl
  obtain ⟨hi, rfl⟩ := List.getElem?_eq_some_iff.mp h
  have hswap : swapRemove (init ++ [last]) i = ((init ++ [last]).set i last).dropLast := by
    simp [swapRemove]
  rw [hswap]
  by_cases hlt : i < init.length
  · rw [List.set_append_left _ _ hlt, List.dropLast_concat, List.getElem_append_left hlt]
    have hset : (init.set i last).Perm (last :: init.eraseIdx i) :=
      List.set_perm_cons_eraseIdx hlt last
    have herase : (init[i] :: init.eraseIdx i).Perm init := List.getElem_cons_eraseIdx_perm hlt
    exact (hset.cons _).trans <| (List.Perm.swap ..).trans <| (herase.cons _).trans
      (List.perm_append_singleton last init).symm
  · have hlast : i = init.length := by
      rw [List.length_append, List.length_singleton] at hi
      omega
    subst hlast
    have hset : (init ++ [last]).set init.length last = init ++ [last] := by
      rw [List.set_append_right _ _ le_rfl]
      simp
    rw [hset, List.dropLast_concat, List.getElem_concat_length rfl]
    exact (List.perm_append_singleton last init).symm

end Kanari.Lib

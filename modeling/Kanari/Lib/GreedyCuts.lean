import Mathlib.Data.List.Basic
import Mathlib.Tactic.Common

/-!
# Greedy cuts of a list

The next element joins the open part unless the part is full or the element clashes with what was
accumulated over the part.
-/

namespace Kanari.Lib

variable {α S : Type}

/-- `current` is the open part, `acc` what was accumulated over it. -/
def cutLoop (cap : Nat) (clashes : S → α → Bool) (add : S → α → S) (start : S) :
    List α → (current : List α) → (acc : S) → List (List α)
  | [], current, _ => if current.isEmpty then [] else [current]
  | a :: rest, current, acc =>
    if !current.isEmpty && (decide (cap ≤ current.length) || clashes acc a) then
      current :: cutLoop cap clashes add start rest [a] (add start a)
    else cutLoop cap clashes add start rest (current ++ [a]) (add acc a)

/-- The parts in order, free of conflicts and no more of them than this takes: each part after the
first begins with an element for which there was no room before. -/
structure GreedyCuts (Conflict : α → α → Prop) (cap : Nat) (l : List α) (parts : List (List α)) : Prop where
  flatten : parts.flatten = l
  nonempty : ∀ p ∈ parts, p ≠ []
  bounded : ∀ p ∈ parts, p.length ≤ cap
  free : ∀ p ∈ parts, p.Pairwise fun a b => ¬Conflict a b
  tight : parts.IsChain fun p q => ∃ a, q.head? = some a ∧ (p.length = cap ∨ ∃ b ∈ p, Conflict b a)

variable {cap : Nat} {clashes : S → α → Bool} {add : S → α → S} {start : S} {Conflict : α → α → Prop}

lemma GreedyCuts.cons {l p q : List α} {a : α} {parts : List (List α)}
    (h : GreedyCuts Conflict cap l ((a :: q) :: parts)) (hp : p ≠ []) (hlen : p.length ≤ cap)
    (hfree : p.Pairwise fun a b => ¬Conflict a b) (hfull : p.length = cap ∨ ∃ b ∈ p, Conflict b a) :
    GreedyCuts Conflict cap (p ++ l) (p :: (a :: q) :: parts) where
  flatten := by rw [List.flatten_cons, h.flatten]
  nonempty := List.forall_mem_cons.mpr ⟨hp, h.nonempty⟩
  bounded := List.forall_mem_cons.mpr ⟨hlen, h.bounded⟩
  free := List.forall_mem_cons.mpr ⟨hfree, h.free⟩
  tight := List.isChain_cons_cons.mpr ⟨⟨a, rfl, hfull⟩, h.tight⟩

/-- The loop with an open part, which becomes the beginning of the first part. -/
lemma cutLoop_open
    (hclash : ∀ (members : List α) a, clashes (members.foldl add start) a = true ↔ ∃ b ∈ members, Conflict b a)
    (hcap : 0 < cap) (l current : List α) (hne : current ≠ [])
    (hfree : current.Pairwise fun a b => ¬Conflict a b) (hlen : current.length ≤ cap) :
    ∃ more parts, cutLoop cap clashes add start l current (current.foldl add start) = (current ++ more) :: parts ∧
      GreedyCuts Conflict cap (current ++ l) ((current ++ more) :: parts) := by
  induction l generalizing current with
  | nil =>
    refine ⟨[], [], by simp [cutLoop, hne], ?_⟩
    simp only [List.append_nil]
    exact ⟨by simp, by simpa using hne, by simpa using hlen, by simpa using hfree, .singleton _⟩
  | cons a l ih =>
    by_cases hcut : cap ≤ current.length ∨ clashes (current.foldl add start) a = true
    · obtain ⟨more, parts, hloop, hcuts⟩ := ih [a] (by simp) (by simp) hcap
      refine ⟨[], ([a] ++ more) :: parts, ?_, ?_⟩
      · rw [cutLoop, if_pos (by simpa [hne] using hcut), List.append_nil]
        exact congrArg _ hloop
      · rw [List.append_nil]
        exact hcuts.cons hne hlen hfree (hcut.imp (Nat.le_antisymm hlen) (hclash current a).mp)
    · push Not at hcut
      have hnone : ∀ b ∈ current, ¬Conflict b a := by
        intro b hb hconflict
        exact hcut.2 ((hclash current a).mpr ⟨b, hb, hconflict⟩)
      obtain ⟨more, parts, hloop, hcuts⟩ := ih (current ++ [a]) (by simp)
        (List.pairwise_append.mpr ⟨hfree, by simp, by simpa using hnone⟩) (by simp; omega)
      rw [List.foldl_append, List.append_assoc] at hloop
      rw [List.append_assoc, List.append_assoc] at hcuts
      refine ⟨a :: more, parts, ?_, hcuts⟩
      rw [cutLoop, if_neg (by simp [hcut])]
      exact hloop

theorem greedyCuts_cutLoop (clashes : S → α → Bool)
    (hclash : ∀ (members : List α) a, clashes (members.foldl add start) a = true ↔ ∃ b ∈ members, Conflict b a)
    (hcap : 0 < cap) (l : List α) : GreedyCuts Conflict cap l (cutLoop cap clashes add start l [] start) := by
  cases l with
  | nil => exact ⟨rfl, by simp [cutLoop], by simp [cutLoop], by simp [cutLoop], .nil⟩
  | cons a l =>
    obtain ⟨more, parts, hloop, hcuts⟩ := cutLoop_open hclash hcap l [a] (by simp) (by simp) hcap
    rw [cutLoop, if_neg (by simp)]
    exact hloop ▸ hcuts

end Kanari.Lib

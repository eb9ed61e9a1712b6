import Mathlib.Algebra.Order.BigOperators.Group.List
import Mathlib.Algebra.Group.Action.Defs
import Mathlib.Algebra.Order.Ring.Nat
import Mathlib.Data.List.AList

/-!
# Hash maps

An association list with distinct keys of which only the lookups and the number of keys are used.
-/

namespace Kanari.Lib

variable {α β : Type}

def retain (p : α → β → Bool) (m : AList fun _ : α => β) : AList fun _ : α => β where
  entries := m.entries.filter fun e => p e.1 e.2
  nodupKeys := List.NodupKeys.sublist List.filter_sublist m.nodupKeys

lemma keys_retain (p : α → β → Bool) (m : AList fun _ : α => β) :
    (retain p m).keys.Sublist m.keys :=
  List.filter_sublist.map _

lemma sum_entries_le (m : AList fun _ : α => β) (p : α → Bool) (f : β → Nat) {bound : Nat}
    (hbound : ∀ b, f b ≤ bound) :
    ((m.entries.filter fun e => p e.1).map fun e => f e.2).sum ≤ m.keys.countP p * bound := by
  have hcount : ((m.entries.filter fun e => p e.1).map fun e => f e.2).length =
      m.keys.countP p := by
    rw [List.length_map, ← List.countP_eq_length_filter, AList.keys, List.keys, List.countP_map]
    rfl
  rw [← hcount, ← smul_eq_mul]
  refine List.sum_le_card_nsmul _ _ fun n hn => ?_
  obtain ⟨e, -, rfl⟩ := List.mem_map.mp hn
  exact hbound e.2

variable [DecidableEq α]

lemma lookup_retain {p : α → β → Bool} {m : AList fun _ : α => β} {a : α} {b : β}
    (h : m.lookup a = some b) (hp : p a b = true) : (retain p m).lookup a = some b := by
  have hmem : (⟨a, b⟩ : Σ _ : α, β) ∈ m.entries := AList.mem_lookup_iff.mp h
  exact AList.mem_lookup_iff.mpr (List.mem_filter.mpr ⟨hmem, hp⟩)

lemma keys_erase_sublist (m : AList fun _ : α => β) (a : α) : (m.erase a).keys.Sublist m.keys := by
  rw [AList.keys_erase]
  exact List.erase_sublist

lemma keys_insert_perm {m : AList fun _ : α => β} {a : α} (h : a ∈ m) (b : β) :
    m.keys.Perm (m.insert a b).keys := by
  rw [AList.keys_insert]
  exact List.perm_cons_erase (AList.mem_keys.mp h)

lemma keys_insert_new {m : AList fun _ : α => β} {a : α} (h : a ∉ m) (b : β) :
    (m.insert a b).keys = a :: m.keys := by
  rw [AList.keys_insert, List.erase_of_not_mem (mt AList.mem_keys.mpr h)]

end Kanari.Lib

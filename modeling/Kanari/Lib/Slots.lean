import Mathlib.Algebra.Ring.Nat
import Mathlib.Data.Finset.Insert
import Mathlib.Data.List.Basic
import Mathlib.Data.List.Count
import Mathlib.Data.List.Indexes

/-!
# Slots

`slotsOf pieces seen` are the slots in which the pieces with the indices `seen` have arrived.
-/

namespace Kanari.Lib

variable {α : Type}

def filled (slots : List (Option (List α))) : Nat := slots.countP Option.isSome

def stored (slots : List (Option (List α))) : Nat := (slots.map fun slot => (slot.getD []).length).sum

variable {i : Nat} {pieces : List (List α)}

@[simp] lemma filled_replicate (n : Nat) : filled (List.replicate n (none : Option (List α))) = 0 := by
  simp [filled]

@[simp] lemma stored_replicate (n : Nat) : stored (List.replicate n (none : Option (List α))) = 0 := by
  simp [stored]

lemma filled_set {slots : List (Option (List α))} (h : slots[i]? = some none) (piece : List α) :
    filled (slots.set i (some piece)) = filled slots + 1 := by
  induction slots generalizing i with
  | nil => cases h
  | cons slot slots ih =>
    cases i with
    | zero =>
      cases h
      simp [filled]
    | succ i =>
      have htail := ih (by simpa using h)
      simp only [filled, List.set_cons_succ, List.countP_cons] at htail ⊢
      omega

lemma stored_set {slots : List (Option (List α))} (h : slots[i]? = some none) (piece : List α) :
    stored (slots.set i (some piece)) = stored slots + piece.length := by
  induction slots generalizing i with
  | nil => cases h
  | cons slot slots ih =>
    cases i with
    | zero =>
      cases h
      simp [stored, Nat.add_comm]
    | succ i =>
      have htail := ih (by simpa using h)
      simp only [stored, List.set_cons_succ, List.map_cons, List.sum_cons] at htail ⊢
      omega

def slotsOf (pieces : List (List α)) (seen : Finset Nat) : List (Option (List α)) :=
  pieces.mapIdx fun i piece => if i ∈ seen then some piece else none

@[simp] lemma length_slotsOf (pieces : List (List α)) (seen : Finset Nat) :
    (slotsOf pieces seen).length = pieces.length := by
  simp [slotsOf]

lemma slotsOf_empty (pieces : List (List α)) :
    slotsOf pieces ∅ = List.replicate pieces.length none := by
  rw [List.eq_replicate_iff]
  refine ⟨length_slotsOf pieces ∅, fun slot hslot => ?_⟩
  obtain ⟨i, hi, rfl⟩ := List.mem_mapIdx.mp hslot
  simp

lemma getElem?_slotsOf {piece : List α} (h : pieces[i]? = some piece) (seen : Finset Nat) :
    (slotsOf pieces seen)[i]? = some (if i ∈ seen then some piece else none) := by
  rw [slotsOf, List.getElem?_mapIdx, h]
  rfl

lemma slotsOf_insert {piece : List α} (h : pieces[i]? = some piece) (seen : Finset Nat) :
    (slotsOf pieces seen).set i (some piece) = slotsOf pieces (insert i seen) := by
  refine List.ext_getElem? fun j => ?_
  rw [List.getElem?_set, slotsOf, slotsOf, List.getElem?_mapIdx, List.getElem?_mapIdx,
    List.length_mapIdx]
  by_cases hij : i = j
  · subst hij
    obtain ⟨hlt, rfl⟩ := List.getElem?_eq_some_iff.mp h
    simp [hlt]
  · have hji : ¬j = i := fun h => hij h.symm
    simp [hij, hji]

lemma filled_slotsOf {seen : Finset Nat} :
    filled (slotsOf pieces seen) = pieces.length ↔ ∀ i < pieces.length, i ∈ seen := by
  rw [← length_slotsOf pieces seen, filled, List.countP_eq_length]
  constructor
  · intro hall i hi
    rw [length_slotsOf] at hi
    have hslot := hall _ (List.mem_of_getElem? (getElem?_slotsOf (List.getElem?_eq_getElem hi) seen))
    by_contra hseen
    simp [hseen] at hslot
  · intro hall slot hslot
    obtain ⟨i, hi, rfl⟩ := List.mem_mapIdx.mp hslot
    have hseen := hall i (by simpa using hi)
    simp [hseen]

lemma filterMap_slotsOf {seen : Finset Nat} (h : ∀ i < pieces.length, i ∈ seen) :
    (slotsOf pieces seen).filterMap id = pieces := by
  have hsome : slotsOf pieces seen = pieces.map some := by
    refine List.ext_getElem? fun i => ?_
    rw [slotsOf, List.getElem?_mapIdx, List.getElem?_map]
    cases hi : pieces[i]? with
    | none => rfl
    | some piece =>
      have hseen := h i (List.getElem?_eq_some_iff.mp hi).1
      simp [hseen]
  rw [hsome, List.filterMap_map]
  simp

lemma stored_slotsOf_le (pieces : List (List α)) (seen : Finset Nat) :
    stored (slotsOf pieces seen) ≤ pieces.flatten.length := by
  rw [slotsOf, stored, List.length_flatten]
  induction pieces using List.reverseRecOn with
  | nil => exact le_rfl
  | append_singleton pieces piece ih =>
    have hlast : ((if pieces.length ∈ seen then some piece else none).getD []).length ≤
        piece.length := by
      split_ifs
      · exact le_rfl
      · exact Nat.zero_le _
    simp only [List.mapIdx_append, List.mapIdx_singleton, List.map_append, List.sum_append,
      List.map_cons, List.map_nil, List.sum_cons, List.sum_nil, Nat.zero_add] at ih ⊢
    omega

end Kanari.Lib

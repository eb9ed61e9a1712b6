import Mathlib.Data.Finset.Card

/-!
# Worklists

A traversal takes elements from the front of a list, skips those whose key it has seen and appends
what a visit returns; a visit may fail, or end the traversal.
-/

namespace Kanari.Lib

variable {α κ S ε : Type} [DecidableEq κ] (key : α → κ)
  (visit : S → List α → α → Except ε (Option (S × List α)))

/-- One unit of fuel per element taken; without fuel there is no result. -/
def worklist : Nat → S → List α → List α → Option (Except ε (List α))
  | 0, _, _, _ => none
  | _ + 1, _, done, [] => some (.ok done)
  | fuel + 1, s, done, v :: pending =>
    if key v ∈ done.map key then worklist fuel s done pending
    else match visit s done v with
      | .error e => some (.error e)
      | .ok none => some (.ok done)
      | .ok (some (s, next)) => worklist fuel s (done ++ [v]) (pending ++ next)

variable {key visit}

lemma card_sdiff_concat {K : Finset κ} {done : List α} {v : α} (hv : key v ∈ K) (hnew : key v ∉ done.map key) :
    (K \ ((done ++ [v]).map key).toFinset).card + 1 ≤ (K \ (done.map key).toFinset).card := by
  have hmem : key v ∈ K \ (done.map key).toFinset := by
    rw [Finset.mem_sdiff, List.mem_toFinset]
    exact ⟨hv, hnew⟩
  have hsub : K \ ((done ++ [v]).map key).toFinset ⊆ (K \ (done.map key).toFinset).erase (key v) := by
    intro k hk
    rw [Finset.mem_sdiff, List.mem_toFinset, List.map_append, List.mem_append, not_or] at hk
    rw [Finset.mem_erase, Finset.mem_sdiff, List.mem_toFinset]
    exact ⟨fun heq => hk.2.2 (List.mem_singleton.mpr heq), hk.1, hk.2.1⟩
  have hcard := Finset.card_le_card hsub
  rw [Finset.card_erase_of_mem hmem] at hcard
  have hpos := Finset.card_pos.mpr ⟨_, hmem⟩
  omega

/-- Every key is visited at most once, and a visit appends at most `m` elements. -/
theorem worklist_terminates {K : Finset κ} {U : α → Prop} {m : Nat} (hkey : ∀ v, U v → key v ∈ K)
    (hvisit : ∀ s done v s' next, U v → visit s done v = .ok (some (s', next)) →
      next.length ≤ m ∧ ∀ w ∈ next, U w)
    {fuel : Nat} {s : S} {done pending : List α} (hpending : ∀ v ∈ pending, U v)
    (hfuel : pending.length + m * (K \ (done.map key).toFinset).card < fuel) :
    ∃ r, worklist key visit fuel s done pending = some r := by
  induction fuel generalizing s done pending with
  | zero => exact absurd hfuel (Nat.not_lt_zero _)
  | succ fuel ih =>
    cases pending with
    | nil => exact ⟨_, rfl⟩
    | cons v pending =>
      rw [List.forall_mem_cons] at hpending
      rw [List.length_cons] at hfuel
      unfold worklist
      split_ifs with hseen
      · exact ih hpending.2 (by omega)
      · cases hv : visit s done v with
        | error e => exact ⟨_, rfl⟩
        | ok r =>
          obtain _ | ⟨s', next⟩ := r
          · exact ⟨_, rfl⟩
          · obtain ⟨hlength, hnext⟩ := hvisit s done v s' next hpending.1 hv
            have hcard := Nat.mul_le_mul_left m (card_sdiff_concat (hkey v hpending.1) hseen)
            rw [Nat.mul_add, Nat.mul_one] at hcard
            apply ih
            · intro w hw
              exact (List.mem_append.mp hw).elim (hpending.2 w) (hnext w)
            · rw [List.length_append]
              omega

/-- An invariant of skips and visits holds where the traversal ends: with nothing left, or before an
element that ended it. -/
theorem worklist_rule {I : S → List α → List α → Prop}
    (hskip : ∀ s done v pending, I s done (v :: pending) → key v ∈ done.map key → I s done pending)
    (hvisit : ∀ s done v pending s' next, I s done (v :: pending) → key v ∉ done.map key →
      visit s done v = .ok (some (s', next)) → I s' (done ++ [v]) (pending ++ next))
    {fuel : Nat} {s : S} {done pending result : List α} (hI : I s done pending)
    (h : worklist key visit fuel s done pending = some (.ok result)) :
    ∃ s' pending', I s' result pending' ∧ (pending' = [] ∨ ∃ v rest, pending' = v :: rest ∧
      key v ∉ result.map key ∧ visit s' result v = .ok none) := by
  induction fuel generalizing s done pending with
  | zero => cases h
  | succ fuel ih =>
    cases pending with
    | nil =>
      cases h
      exact ⟨s, [], hI, .inl rfl⟩
    | cons v pending =>
      unfold worklist at h
      split_ifs at h with hseen
      · exact ih (hskip s done v pending hI hseen) h
      · cases hv : visit s done v with
        | error e =>
          rw [hv] at h
          cases h
        | ok r =>
          rw [hv] at h
          obtain _ | ⟨s', next⟩ := r
          · cases h
            exact ⟨s, v :: pending, hI, .inr ⟨v, pending, rfl, hseen, hv⟩⟩
          · exact ih (hvisit s done v pending s' next hI hseen hv) h

end Kanari.Lib

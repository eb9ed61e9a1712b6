import Kanari.RateLimiters
import Mathlib.Data.Finset.Card
import Mathlib.Data.List.Induction

/-!
# Lockouts after failed attempts

The table says how often an identifier failed since its last success and until when it is locked
out, as long as the power of two fits a word and the table is not cleaned up.
-/

namespace Kanari.Proofs

open Lib BackoffLimiter

variable {checks : Bool} {l : BackoffLimiter} {limit : Nat} {identifier : String}
  {calls : List (AttemptCall × Nat)}

def noteCall (identifier : String) (noted : Option (Nat × Nat)) : AttemptCall × Nat → Option (Nat × Nat)
  | (.checkAllowed _, _) => noted
  | (.recordFailure failing, now) =>
    if failing = identifier then some ((noted.map (·.1)).getD 0 + 1, now) else noted
  | (.recordSuccess succeeding, _) => if succeeding = identifier then none else noted

def lastFailure (identifier : String) (calls : List (AttemptCall × Nat)) : Option (Nat × Nat) :=
  calls.foldl (noteCall identifier) none

def lockedUntil (limit : Nat) (failure : Nat × Nat) : Nat := failure.2 + min (2 ^ failure.1) limit

def failing : AttemptCall × Nat → Option String
  | (.recordFailure identifier, _) => some identifier
  | _ => none

def pending (calls : List (AttemptCall × Nat)) : Finset String :=
  (calls.filterMap failing).toFinset.filter fun identifier => (lastFailure identifier calls).isSome

/-- At most 63 failures in a row and lockouts that end within the range of the clock; whenever
`check_allowed` runs, no more identifiers are pending than the table keeps. -/
structure AttemptsInRange (limit : Nat) (calls : List (AttemptCall × Nat)) : Prop where
  inRange : ∀ pre, pre <+: calls → ∀ identifier failure, lastFailure identifier pre = some failure →
    failure.1 ≤ 63 ∧ lockedUntil limit failure < 2 ^ 64
  identifiers : ∀ pre identifier now, pre ++ [(.checkAllowed identifier, now)] <+: calls →
    (pending pre).card ≤ MAX_RATE_LIMITER_ENTRIES

lemma lastFailure_concat (identifier : String) (calls : List (AttemptCall × Nat)) (c : AttemptCall × Nat) :
    lastFailure identifier (calls ++ [c]) = noteCall identifier (lastFailure identifier calls) c := by
  rw [lastFailure, List.foldl_concat, lastFailure]

lemma failing_of_lastFailure {failure : Nat × Nat} (h : lastFailure identifier calls = some failure) :
    identifier ∈ calls.filterMap failing := by
  induction calls using List.reverseRecOn generalizing failure with
  | nil => cases h
  | append_singleton calls c ih =>
    rw [lastFailure_concat] at h
    rw [List.filterMap_append, List.mem_append]
    obtain ⟨c | c | c, now⟩ := c
    · exact .inl (ih h)
    · by_cases hc : c = identifier
      · exact .inr (by simp [failing, hc])
      · rw [noteCall, if_neg hc] at h
        exact .inl (ih h)
    · by_cases hc : c = identifier
      · rw [noteCall, if_pos hc] at h
        cases h
      · rw [noteCall, if_neg hc] at h
        exact .inl (ih h)

lemma AttemptsInRange.init {c : AttemptCall × Nat} (h : AttemptsInRange limit (calls ++ [c])) :
    AttemptsInRange limit calls where
  inRange pre hpre := h.inRange pre (hpre.trans (List.prefix_append _ _))
  identifiers pre identifier now hpre := h.identifiers pre identifier now (hpre.trans (List.prefix_append _ _))

/-- The table is what the calls report. -/
structure Tracks (limit : Nat) (calls : List (AttemptCall × Nat)) (l : BackoffLimiter) : Prop where
  limit_eq : l.lockoutDurationSecs = limit
  entry : ∀ identifier, l.attempts.find? identifier =
    (lastFailure identifier calls).map fun failure => (failure.1, lockedUntil limit failure)

lemma Tracks.length_le (h : Tracks limit calls l) : l.attempts.entries.length ≤ (pending calls).card := by
  have hsub : l.attempts.keys.toFinset ⊆ pending calls := by
    intro identifier hmem
    rw [List.mem_toFinset, OrdMap.mem_keys, OrdMap.contains, h.entry, Option.isSome_map] at hmem
    obtain ⟨failure, hfailure⟩ := Option.isSome_iff_exists.mp hmem
    exact Finset.mem_filter.mpr ⟨List.mem_toFinset.mpr (failing_of_lastFailure hfailure), hmem⟩
  have hcard := Finset.card_le_card hsub
  rwa [List.toFinset_card_of_nodup l.attempts.nodup_keys, OrdMap.keys, List.length_map] at hcard

/-- Cleaning up does not change the answer: it drops only what is no longer locked. -/
lemma checkAllowed_eq (l : BackoffLimiter) (identifier : String) (now : Nat) :
    (l.checkAllowed identifier now).1 =
      !(l.attempts.find? identifier).any fun entry => decide (now < entry.2) := by
  unfold BackoffLimiter.checkAllowed
  dsimp only
  split_ifs
  · congr 1
    rw [Bool.eq_iff_iff, Option.any_eq_true, Option.any_eq_true]
    simp only [← OrdMap.mem_entries, List.mem_filter, decide_eq_true_eq]
    exact exists_congr fun entry => ⟨fun h => ⟨h.1.1, h.2⟩, fun h => ⟨h, h.2⟩⟩
  · rfl

lemma wordResult_of_lt {bits value : Nat} (h : value < 2 ^ bits) : wordResult checks bits value = some value :=
  if_pos h

lemma Tracks.call {c : AttemptCall × Nat} (h : Tracks limit calls l) (hcalls : AttemptsInRange limit (calls ++ [c])) :
    ∃ l', l.call checks c.2 c.1 = some l' ∧ Tracks limit (calls ++ [c]) l' := by
  obtain ⟨c | c | c, now⟩ := c
  · have hfits : l.attempts.entries.length ≤ MAX_RATE_LIMITER_ENTRIES :=
      h.length_le.trans (hcalls.identifiers calls c now (List.prefix_refl _))
    have hsame : (l.checkAllowed c now).2 = l := by
      rw [BackoffLimiter.checkAllowed, if_neg (not_lt.mpr hfits)]
    refine ⟨l, by rw [BackoffLimiter.call, hsame], h.limit_eq, fun identifier => ?_⟩
    rw [lastFailure_concat]
    exact h.entry identifier
  · set n := ((lastFailure c calls).map (·.1)).getD 0 + 1 with hn
    have hnoted : lastFailure c (calls ++ [(.recordFailure c, now)]) = some (n, now) := by
      rw [lastFailure_concat, noteCall, if_pos rfl]
    obtain ⟨hcount, huntil⟩ := hcalls.inRange _ (List.prefix_refl _) c _ hnoted
    have hold : ((l.attempts.find? c).getD (0, 0)).1 + 1 = n := by
      rw [h.entry, hn]
      cases lastFailure c calls <;> rfl
    refine ⟨{ l with attempts := l.attempts.insert c (n, lockedUntil limit (n, now)) }, ?_, h.limit_eq,
      fun identifier => ?_⟩
    · rw [BackoffLimiter.call, recordFailure, hold, wordResult_of_lt (by omega)]
      dsimp only [Option.bind_eq_bind, Option.bind_some]
      rw [wordResult_of_lt (Nat.pow_lt_pow_right (by decide) (by omega))]
      dsimp only [Option.bind_some]
      rw [h.limit_eq]
      change (wordResult checks 64 (lockedUntil limit (n, now))).bind _ = _
      rw [wordResult_of_lt huntil]
      rfl
    · rw [OrdMap.find?_insert, lastFailure_concat, noteCall]
      by_cases hc : identifier = c
      · rw [if_pos hc, if_pos hc.symm, hc]
        rfl
      · rw [if_neg hc, if_neg (Ne.symm hc)]
        exact h.entry identifier
  · refine ⟨l.recordSuccess c, rfl, h.limit_eq, fun identifier => ?_⟩
    rw [recordSuccess, OrdMap.find?_erase, lastFailure_concat, noteCall]
    by_cases hc : identifier = c
    · rw [if_pos hc, if_pos hc.symm]
      rfl
    · rw [if_neg hc, if_neg (Ne.symm hc)]
      exact h.entry identifier

lemma calls_concat (checks : Bool) (l : BackoffLimiter) (calls : List (AttemptCall × Nat)) (c : AttemptCall × Nat) :
    l.calls checks (calls ++ [c]) = (l.calls checks calls).bind fun l => l.call checks c.2 c.1 := by
  induction calls generalizing l with
  | nil => simp [BackoffLimiter.calls]
  | cons first calls ih =>
    rw [List.cons_append, BackoffLimiter.calls, BackoffLimiter.calls, Option.bind_assoc]
    congr 1
    funext l
    exact ih l

lemma AttemptsInRange.tracks (hcalls : AttemptsInRange limit calls) :
    ∃ l, (⟨.empty, limit⟩ : BackoffLimiter).calls checks calls = some l ∧ Tracks limit calls l := by
  induction calls using List.reverseRecOn with
  | nil => exact ⟨_, rfl, rfl, fun _ => rfl⟩
  | append_singleton calls c ih =>
    obtain ⟨l, hl, htracks⟩ := ih hcalls.init
    rw [calls_concat, hl]
    exact htracks.call hcalls

/-- While no identifier fails more than 63 times in a row, and no more identifiers are pending than
the table keeps, no call overflows and the lockout after `n` failures is `2 ^ n` seconds up to the limit. -/
theorem lockout_doubles (hcalls : AttemptsInRange limit calls) :
    ∃ l, (⟨.empty, limit⟩ : BackoffLimiter).calls checks calls = some l ∧
      ∀ identifier n t, lastFailure identifier calls = some (n, t) →
        ∀ now, (l.checkAllowed identifier now).1 = decide (t + min (2 ^ n) limit ≤ now) := by
  obtain ⟨l, hl, htracks⟩ := hcalls.tracks
  refine ⟨l, hl, fun identifier n t hfailure now => ?_⟩
  rw [checkAllowed_eq, htracks.entry, hfailure]
  exact Bool.not_eq_eq_eq_not.mpr (by rw [← decide_not]; exact decide_eq_decide.mpr not_le.symm)

lemma lastFailure_bounds {failure : Nat × Nat} (h : lastFailure identifier calls = some failure) :
    failure.1 ≤ calls.length ∧ ∃ c ∈ calls, c.2 = failure.2 := by
  induction calls using List.reverseRecOn generalizing failure with
  | nil => cases h
  | append_singleton calls c ih =>
    have hkept : lastFailure identifier calls = some failure →
        failure.1 ≤ (calls ++ [c]).length ∧ ∃ c' ∈ calls ++ [c], c'.2 = failure.2 := by
      intro hold
      obtain ⟨hcount, c', hmem, htime⟩ := ih hold
      exact ⟨hcount.trans (by simp), c', List.mem_append_left _ hmem, htime⟩
    rw [lastFailure_concat] at h
    obtain ⟨c | c | c, now⟩ := c
    · exact hkept h
    · rw [noteCall] at h
      split_ifs at h
      · cases h
        refine ⟨?_, _, List.mem_append_right _ (List.mem_singleton_self _), rfl⟩
        cases hold : lastFailure identifier calls with
        | none => simp
        | some old => simpa using (ih hold).1
      · exact hkept h
    · rw [noteCall] at h
      split_ifs at h
      exact hkept h

/-- Any run of at most 63 calls is in range. -/
lemma attemptsInRange_of_length (hlength : calls.length ≤ 63) (htimes : ∀ c ∈ calls, c.2 + limit < 2 ^ 64) :
    AttemptsInRange limit calls where
  inRange pre hpre identifier failure h := by
    obtain ⟨hcount, c, hmem, htime⟩ := lastFailure_bounds h
    have hlate := htimes c (hpre.subset hmem)
    have hle := hpre.length_le
    refine ⟨by omega, ?_⟩
    rw [lockedUntil, ← htime]
    omega
  identifiers pre identifier now hpre := by
    have hle := hpre.length_le
    rw [List.length_append] at hle
    calc (pending pre).card ≤ (pre.filterMap failing).toFinset.card := Finset.card_filter_le _ _
      _ ≤ (pre.filterMap failing).length := List.toFinset_card_le _
      _ ≤ pre.length := List.length_filterMap_le _ _
      _ ≤ 63 := by omega
      _ ≤ MAX_RATE_LIMITER_ENTRIES := by decide

def sampleAttempts : List (AttemptCall × Nat) :=
  [(.recordFailure "a", 10), (.recordFailure "b", 11), (.checkAllowed "a", 11), (.recordFailure "a", 12),
    (.recordSuccess "b", 13), (.checkAllowed "b", 14), (.recordFailure "a", 20)]

/-- Three failures of one identifier, and another one that fails and succeeds in between. -/
theorem lockout_doubles_interleaved :
    ∃ l, (⟨.empty, 3600⟩ : BackoffLimiter).calls true sampleAttempts = some l ∧
      (l.checkAllowed "a" 27).1 = false ∧ (l.checkAllowed "a" 28).1 = true := by
  have hcalls : AttemptsInRange 3600 sampleAttempts := attemptsInRange_of_length (by decide) (by decide)
  obtain ⟨l, hl, hlocked⟩ : ∃ l, (⟨.empty, 3600⟩ : BackoffLimiter).calls true _ = some l ∧ _ :=
    lockout_doubles hcalls
  exact ⟨l, hl, hlocked "a" 3 20 (by decide) 27, hlocked "a" 3 20 (by decide) 28⟩

/-- The 64th failure in a row stops a checked build, and otherwise there is no lockout at all. -/
theorem lockout_overflows :
    lastFailure "a" (List.replicate 64 (.recordFailure "a", 0)) = some (64, 0) ∧
      ((⟨.empty, 3600⟩ : BackoffLimiter).calls true (List.replicate 64 (.recordFailure "a", 0))).isSome = false ∧
      ((⟨.empty, 3600⟩ : BackoffLimiter).calls false (List.replicate 64 (.recordFailure "a", 0))).map
        (fun l => (l.checkAllowed "a" 0).1) = some true := by
  decide +kernel

end Kanari.Proofs

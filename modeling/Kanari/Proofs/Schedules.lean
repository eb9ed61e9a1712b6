import Kanari.Scheduler

/-!
# Waves and batches are greedy cuts

In both schedulers the accumulated keys clash with an element exactly when some member of the open
part conflicts with it.
-/

namespace Kanari.Proofs

open Lib

def SharesConflictKey (a b : SignedTransaction) : Prop :=
  ∃ key, a.transaction.getConflictKeys.contains key = true ∧ b.transaction.getConflictKeys.contains key = true

lemma contains_reserved (txs : List SignedTransaction) (reserved : OrdSet String) (key : String) :
    (txs.foldl (fun reserved tx => OrdSet.addAll reserved (OrdSet.elems tx.transaction.getConflictKeys))
        reserved).contains key = true ↔
      reserved.contains key = true ∨ ∃ tx ∈ txs, tx.transaction.getConflictKeys.contains key = true := by
  induction txs generalizing reserved with
  | nil => simp
  | cons tx txs ih =>
    rw [List.foldl_cons, ih, OrdSet.contains_addAll]
    simp [OrdSet.mem_elems]
    tauto

lemma conflictsWith_iff {a b : StateAccessSet} : a.conflictsWith b = true ↔
    (∃ key, a.writes.contains key = true ∧ (b.reads.contains key = true ∨ b.writes.contains key = true)) ∨
      ∃ key, b.writes.contains key = true ∧ a.reads.contains key = true := by
  simp [StateAccessSet.conflictsWith, List.any_eq_true, OrdSet.mem_elems]

lemma conflictsWith_comm (a b : StateAccessSet) : a.conflictsWith b = b.conflictsWith a := by
  rw [Bool.eq_iff_iff, conflictsWith_iff, conflictsWith_iff]
  grind

lemma conflictsWith_extend {a b c : StateAccessSet} :
    a.conflictsWith (b.extend c) = true ↔ a.conflictsWith b = true ∨ a.conflictsWith c = true := by
  have hreads (key : String) : (b.extend c).reads.contains key = true ↔
      b.reads.contains key = true ∨ c.reads.contains key = true := by
    rw [StateAccessSet.extend, OrdSet.contains_addAll]
    simp [OrdSet.mem_elems, or_comm]
  have hwrites (key : String) : (b.extend c).writes.contains key = true ↔
      b.writes.contains key = true ∨ c.writes.contains key = true := by
    rw [StateAccessSet.extend, OrdSet.contains_addAll]
    simp [OrdSet.mem_elems, or_comm]
  simp only [conflictsWith_iff, hreads, hwrites]
  grind

lemma conflictsWith_accumulated (entries : List (ChangeSet × Nat)) (access acc : StateAccessSet) :
    access.conflictsWith
        (entries.foldl (fun acc entry => acc.extend entry.1.deterministicAccessSet) acc) = true ↔
      access.conflictsWith acc = true ∨
        ∃ entry ∈ entries, access.conflictsWith entry.1.deterministicAccessSet = true := by
  induction entries generalizing acc with
  | nil => simp
  | cons entry entries ih =>
    rw [List.foldl_cons, ih, conflictsWith_extend, List.exists_mem_cons_iff, or_assoc]

lemma dependencyApplyBatchCap_pos (capVariable : Option Nat) : 0 < dependencyApplyBatchCap capVariable := by
  cases capVariable with
  | none => decide
  | some n => by_cases hn : 0 < n <;> simp [dependencyApplyBatchCap, Option.filter, hn]

/-- Waves and batches are non-empty, follow the order of the list, respect the cap, hold no two
conflicting members, and are cut only where there is no room. -/
theorem schedules_greedy (transactions : List SignedTransaction) (changesets : List ChangeSet)
    (capVariable : Option Nat) :
    GreedyCuts SharesConflictKey MAX_SPECULATIVE_WAVE_SIZE transactions (schedule transactions) ∧
    ∃ batches, scheduleDependencyAwareApplyBatches true capVariable changesets = batches.map (·.map (·.2)) ∧
      GreedyCuts (fun a b => a.1.deterministicAccessSet.conflictsWith b.1.deterministicAccessSet = true)
        (dependencyApplyBatchCap capVariable) changesets.zipIdx batches := by
  constructor
  · refine greedyCuts_cutLoop _ (fun members tx => ?_) (by decide) transactions
    simp only [List.any_eq_true, OrdSet.mem_elems, contains_reserved, SharesConflictKey]
    simp only [OrdMap.contains, OrdMap.find?_empty]
    grind
  · have hclash (members : List (ChangeSet × Nat)) (entry : ChangeSet × Nat) :
        entry.1.deterministicAccessSet.conflictsWith
            (members.foldl (fun acc entry => acc.extend entry.1.deterministicAccessSet) {}) = true ↔
          ∃ b ∈ members, b.1.deterministicAccessSet.conflictsWith entry.1.deterministicAccessSet = true := by
      have hnone : entry.1.deterministicAccessSet.conflictsWith {} = false := by
        simp [StateAccessSet.conflictsWith, OrdSet.elems, OrdMap.keys, OrdMap.contains, OrdMap.empty, OrdMap.find?,
          OrdMap.lookup]
      rw [conflictsWith_accumulated, hnone]
      simp only [Bool.false_eq_true, false_or, conflictsWith_comm entry.1.deterministicAccessSet]
    have hcuts := greedyCuts_cutLoop
      (fun acc (entry : ChangeSet × Nat) => entry.1.deterministicAccessSet.conflictsWith acc) hclash
      (dependencyApplyBatchCap_pos capVariable) changesets.zipIdx
    refine ⟨_, ?_, hcuts⟩
    cases changesets with
    | nil => rfl
    | cons cs changesets => rfl

end Kanari.Proofs

import Kanari.Blockchain
import Kanari.Lib.GreedyCuts

/-!
# Waves and batches

`TransactionScheduler::schedule` and `schedule_dependency_aware_apply_batches`.
-/

namespace Kanari

open Lib

def MAX_SPECULATIVE_WAVE_SIZE : Nat := 64

def schedule (transactions : List SignedTransaction) : List (List SignedTransaction) :=
  cutLoop MAX_SPECULATIVE_WAVE_SIZE
    (fun reserved tx => (OrdSet.elems tx.transaction.getConflictKeys).any (reserved.contains ·))
    (fun reserved tx => OrdSet.addAll reserved (OrdSet.elems tx.transaction.getConflictKeys))
    (.empty : OrdSet String) transactions [] .empty

/-- The variable of the environment, where it is a positive number. -/
def dependencyApplyBatchCap (capVariable : Option Nat) : Nat := (capVariable.filter (0 < ·)).getD 65536

/-- The batches as positions in the list. The switch is a variable of the environment, too. -/
def scheduleDependencyAwareApplyBatches (schedulerEnabled : Bool) (capVariable : Option Nat)
    (changesets : List ChangeSet) : List (List Nat) :=
  if changesets.isEmpty then []
  else if !schedulerEnabled then [List.range changesets.length]
  else
    (cutLoop (dependencyApplyBatchCap capVariable)
      (fun access entry => entry.1.deterministicAccessSet.conflictsWith access)
      (fun access entry => access.extend entry.1.deterministicAccessSet) ({} : StateAccessSet)
      changesets.zipIdx [] {}).map (·.map (·.2))

end Kanari

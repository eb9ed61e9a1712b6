import Kanari.Proofs.NodeSteps

/-!
# When applying a checkpoint is all-or-nothing

The chain checks the sequence number, the previous hash and the transactions of a checkpoint only
after its state, its marker and, inline, its metadata have been committed.
-/

namespace Kanari.Proofs

open Lib Node PersistentStore

variable {σ : Type} {cfg : NodeConfig} {env : AdmissionEnv} {E : StateEnv σ}

/-- Preparation, the root check, the supply check or the length of the root stop the checkpoint. -/
def RefusedBeforeCommit (env : AdmissionEnv) (E : StateEnv σ) (node : Node σ) (c : Checkpoint) : Prop :=
  ∀ state, node.verifyCheckpoint env E c = .ok state → node.checkCommit E c state true ≠ .ok ()

/-- What would be committed is there already. -/
def CommitsNothing (cfg : NodeConfig) (env : AdmissionEnv) (E : StateEnv σ) (node : Node σ) (c : Checkpoint) :
    Prop :=
  ∀ state, node.verifyCheckpoint env E c = .ok state → node.commitState cfg env c state = node

/-- A failed call leaves the node as it was, exactly when the checkpoint is refused in time, or
the chain accepts it, or there is nothing to commit. -/
theorem applyCheckpoint_atomic_iff (cfg : NodeConfig) (env : AdmissionEnv) (E : StateEnv σ) (node : Node σ)
    (c : Checkpoint) :
    (∀ e node', applyCheckpoint cfg env E none c node = (.error e, node') → node' = node) ↔
      RefusedBeforeCommit env E node c ∨ node.chain.validateNext env.toHashEnv c = .ok () ∨
        CommitsNothing cfg env E node c := by
  cases hverify : node.verifyCheckpoint env E c with
  | error e =>
    have heq : applyCheckpoint cfg env E none c node = (.error e, node) := by
      simp only [applyCheckpoint, hverify]
    rw [heq]
    refine iff_of_true (fun _ _ h => (Prod.mk.inj h).2.symm) (.inl fun state hstate => ?_)
    rw [hverify] at hstate
    cases hstate
  | ok state =>
    have heq : applyCheckpoint cfg env E none c node = finalizeCheckpoint cfg env E none c state true node := by
      simp only [applyCheckpoint, hverify]
    have hrefused : RefusedBeforeCommit env E node c ↔ node.checkCommit E c state true ≠ .ok () := by
      simp [RefusedBeforeCommit, hverify]
    have hnothing : CommitsNothing cfg env E node c ↔ node.commitState cfg env c state = node := by
      simp [CommitsNothing, hverify]
    rw [heq, hrefused, hnothing]
    by_cases hcheck : node.checkCommit E c state true = .ok ()
    · cases hnext : node.chain.validateNext env.toHashEnv c with
      | ok u =>
        rw [finalizeCheckpoint_accepts hcheck (validateNext_eq_ok.mp hnext)]
        exact iff_of_true (fun _ _ h => by cases h) (.inr (.inl rfl))
      | error e =>
        have hfinal : finalizeCheckpoint cfg env E none c state true node =
            (.error e, node.commitState cfg env c state) := by
          simp only [finalizeCheckpoint, hcheck]
          exact finalizeMetadata_rejected none hnext
        rw [hfinal]
        constructor
        · exact fun h => .inr (.inr (h e _ rfl))
        · rintro (h | h | h)
          · exact absurd hcheck h
          · cases h
          · intro _ _ hpair
            rw [← (Prod.mk.inj hpair).2]
            exact h
    · refine iff_of_true (fun e node' h => ?_) (.inl hcheck)
      rcases finalizeCheckpoint_cases cfg env E none c state true node with
        ⟨_, hout⟩ | ⟨_, -, hok, -⟩ | ⟨-, hok, -⟩
      · rw [hout] at h
        exact (Prod.mk.inj h).2.symm
      · exact absurd hok hcheck
      · exact absurd hok hcheck

def stillState : StateEnv Unit where
  fresh := .ok ()
  stateRoot := fun _ => .ok (List.replicate 32 0)
  validateSupplyInvariants := fun _ => .ok ()
  reopen := id
  reopen_reopen := fun _ => rfl
  reopen_fresh := fun _ => rfl
  repairLegacyNativeWalletOvercount := .ok
  applySystemPrologue := fun s _ => .ok s
  executeWaves := fun s txs _ => .ok (s, txs.map fun _ => [])

/-- An environment in which a transaction's hash is its nonce and a checkpoint's hash its number. -/
def plainEnv : AdmissionEnv where
  txHash := fun tx => Text.leBytes 8 tx.header.nonce
  hashPreimage := fun
    | .legacy sequence _ _ _ => .ok (Text.leBytes 8 sequence.toNat)
    | .withObjects _ sequence _ _ _ _ _ _ _ _ => .ok (Text.leBytes 8 sequence.toNat)
    | .current _ sequence _ _ _ _ _ _ => .ok (Text.leBytes 8 sequence.toNat)
  emptyStateRoot := List.replicate 32 0
  hashPublicKey := fun _ _ => none
  transactionSize := fun _ => .ok 100
  isCurveTag := fun _ => true
  verifyWithCurve := fun _ _ _ _ => .ok true
  lowercase := id
  parsesTypeTag := fun _ => true

def startedNode : Node Unit where
  chain := Blockchain.new plainEnv.toHashEnv
  state := ()
  store := some { state := some () }

def strayCheckpoint : Checkpoint where
  sequence := 1
  vertices := []
  transactions := []
  stateRoot := List.replicate 32 0
  timestamp := 1
  prevCheckpointHash := []

/-- With the default settings, the rejected checkpoint stays in the store as marker and metadata. -/
theorem applyCheckpoint_leaves_marker :
    ∃ e node' s, applyCheckpoint {} plainEnv stillState none strayCheckpoint startedNode = (.error e, node') ∧
      startedNode.store.map (·.pendingCheckpointCommit) = some none ∧ node'.store = some s ∧
      s.pendingCheckpointCommit = some strayCheckpoint ∧
      s.checkpointMetadata.find? 1 = some strayCheckpoint ∧ node'.chain.height = 0 := by
  refine ⟨"Invalid previous checkpoint hash", startedNode.commitState {} plainEnv strayCheckpoint (),
    commitBatch {} plainEnv strayCheckpoint () { state := some () }, ?_, rfl, rfl, rfl, rfl, rfl⟩
  have hverify : startedNode.verifyCheckpoint plainEnv stillState strayCheckpoint = .ok () := rfl
  have hnext : startedNode.chain.validateNext plainEnv.toHashEnv strayCheckpoint =
      .error "Invalid previous checkpoint hash" := by decide +kernel
  have hcheck : startedNode.checkCommit stillState strayCheckpoint () true = .ok () := rfl
  simp only [applyCheckpoint, hverify, finalizeCheckpoint, hcheck]
  exact finalizeMetadata_rejected none hnext

end Kanari.Proofs

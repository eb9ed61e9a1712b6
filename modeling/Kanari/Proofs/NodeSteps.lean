import Kanari.Node
import Kanari.Proofs.ChainInvariant

/-!
# What finalizing a checkpoint can do

A call is refused before anything is written, or the chain rejects the checkpoint after its state
has been committed, or the chain takes it.
-/

namespace Kanari.Proofs

open Lib Node PersistentStore

variable {σ : Type} {cfg : NodeConfig} {env : AdmissionEnv} {E : StateEnv σ}

def closingWrites (cfg : NodeConfig) (env : AdmissionEnv) (chain : Blockchain) (s : PersistentStore σ) :
    List (PersistentStore σ → PersistentStore σ) :=
  metadataWrites cfg env chain s ++ [clearMarker]

def finalizeWrites (cfg : NodeConfig) (env : AdmissionEnv) (chain : Blockchain) (c : Checkpoint) (state : σ)
    (s : PersistentStore σ) : List (PersistentStore σ → PersistentStore σ) :=
  commitBatch cfg env c state ::
    closingWrites cfg env (chain.append env.toHashEnv c) (commitBatch cfg env c state s)

/-- The node after the chain has taken `c`, with what a failure or none has left of the writes. -/
structure Appended (cfg : NodeConfig) (env : AdmissionEnv) (c : Checkpoint) (newState : σ) (node node' : Node σ) :
    Prop where
  chain : node'.chain = node.chain.append env.toHashEnv c
  state : node'.state = newState
  mempool : node'.mempool = node.mempool ∨ node'.mempool = node.mempool.dropCommitted (env.txHashes c)
  noStore : node.store = none → node'.store = none
  store : ∀ s, node.store = some s → ∃ s', node'.store = some s' ∧
    Crash (closingWrites cfg env (node.chain.append env.toHashEnv c) (commitBatch cfg env c newState s))
      (commitBatch cfg env c newState s) s'

/-- Nothing failed: every write was made, the mempool is drained. -/
def finalized (cfg : NodeConfig) (env : AdmissionEnv) (c : Checkpoint) (state : σ) (node : Node σ) : Node σ where
  chain := node.chain.append env.toHashEnv c
  state := state
  store := node.store.map fun s =>
    writeAll (finalizeWrites cfg env node.chain c state s) s
  mempool := node.mempool.dropCommitted (env.txHashes c)

variable {node : Node σ} {c : Checkpoint}

lemma finalizeMetadata_rejected {e : String} (fault : Option Nat)
    (h : node.chain.validateNext env.toHashEnv c = .error e) :
    finalizeCheckpointMetadata cfg env fault c node = (.error e, node) := by
  simp only [finalizeCheckpointMetadata, Blockchain.addCheckpointWithValidation, if_true, h]

variable {state : σ}

lemma finalizeMetadata_ok (h : Continues env.toHashEnv node.chain c) :
    finalizeCheckpointMetadata cfg env none c (node.commitState cfg env c state) =
      (.ok (), finalized cfg env c state node) := by
  have hadd := addCheckpoint_accepts h
  cases hstore : node.store with
  | none =>
    simp only [finalizeCheckpointMetadata, commitState, hadd, hstore, Option.map_none, finalized]
  | some s =>
    simp only [finalizeCheckpointMetadata, commitState, hadd, hstore, Option.map_some, finalized,
      finalizeWrites, closingWrites, writeAll_cons, writeAll_append, writeAll_nil]

lemma finalizeMetadata_appended (fault : Option Nat) (h : Continues env.toHashEnv node.chain c) :
    Appended cfg env c state node
      (finalizeCheckpointMetadata cfg env fault c (node.commitState cfg env c state)).2 := by
  have hadd := addCheckpoint_accepts h
  cases fault with
  | none =>
    rw [finalizeMetadata_ok h]
    refine ⟨rfl, rfl, .inr rfl, fun hnone => by simp [finalized, hnone], fun s hs => ?_⟩
    refine ⟨writeAll (finalizeWrites cfg env node.chain c state s) s, by simp [finalized, hs], ?_⟩
    exact crash_all _ _
  | some k =>
    cases hstore : node.store with
    | none =>
      simp only [finalizeCheckpointMetadata, commitState, hadd, hstore, Option.map_none]
      exact ⟨rfl, rfl, .inr rfl, fun _ => rfl, fun s hs => absurd (hstore.symm.trans hs) (by simp)⟩
    | some s =>
      have hwrites : ∀ {s₁}, node.store = some s₁ → s₁ = s := fun hs => by
        rw [hstore] at hs
        exact (Option.some.inj hs).symm
      simp only [finalizeCheckpointMetadata, commitState, hadd, hstore, Option.map_some]
      split_ifs with hk
      · refine ⟨rfl, rfl, .inl rfl, fun hnone => absurd (hstore.symm.trans hnone) (by simp), fun s₁ hs₁ => ?_⟩
        obtain rfl := hwrites hs₁
        exact ⟨_, rfl, crash_append.mpr (.inl ⟨k, rfl⟩)⟩
      · refine ⟨rfl, rfl, .inr rfl, fun hnone => absurd (hstore.symm.trans hnone) (by simp), fun s₁ hs₁ => ?_⟩
        obtain rfl := hwrites hs₁
        exact ⟨_, rfl, crash_append.mpr (.inl (crash_all _ _))⟩

lemma finalizeCheckpoint_cases (cfg : NodeConfig) (env : AdmissionEnv) (E : StateEnv σ) (fault : Option Nat)
    (c : Checkpoint) (state : σ) (validateSupply : Bool) (node : Node σ) :
    (∃ e, finalizeCheckpoint cfg env E fault c state validateSupply node = (.error e, node)) ∨
    (∃ e, node.chain.validateNext env.toHashEnv c = .error e ∧
      node.checkCommit E c state validateSupply = .ok () ∧
      finalizeCheckpoint cfg env E fault c state validateSupply node =
        (.error e, node.commitState cfg env c state)) ∨
    (Continues env.toHashEnv node.chain c ∧ node.checkCommit E c state validateSupply = .ok () ∧
      Appended cfg env c state node (finalizeCheckpoint cfg env E fault c state validateSupply node).2) := by
  cases hcheck : node.checkCommit E c state validateSupply with
  | error e => exact .inl ⟨e, by simp only [finalizeCheckpoint, hcheck]⟩
  | ok u =>
    by_cases hfault : fault = some 0
    · exact .inl ⟨"Failed to commit state and checkpoint marker to RocksDB", by
        simp only [finalizeCheckpoint, hcheck, hfault]⟩
    obtain ⟨fault', hfault'⟩ : ∃ fault', finalizeCheckpoint cfg env E fault c state validateSupply node =
        finalizeCheckpointMetadata cfg env fault' c (node.commitState cfg env c state) := by
      match fault with
      | none => exact ⟨none, by simp only [finalizeCheckpoint, hcheck]⟩
      | some 0 => exact absurd rfl hfault
      | some (k + 1) => exact ⟨some k, by simp only [finalizeCheckpoint, hcheck]⟩
    cases hnext : node.chain.validateNext env.toHashEnv c with
    | error e =>
      refine .inr (.inl ⟨e, rfl, rfl, hfault'.trans (finalizeMetadata_rejected fault' ?_)⟩)
      exact hnext
    | ok u =>
      have hc := validateNext_eq_ok.mp hnext
      refine .inr (.inr ⟨hc, rfl, ?_⟩)
      rw [hfault']
      exact finalizeMetadata_appended fault' hc

lemma finalizeCheckpoint_eq_ok {validateSupply : Bool} {node' : Node σ} {u : Unit}
    (h : finalizeCheckpoint cfg env E none c state validateSupply node = (.ok u, node')) :
    Continues env.toHashEnv node.chain c ∧ node.checkCommit E c state validateSupply = .ok () ∧
      node' = finalized cfg env c state node := by
  rcases finalizeCheckpoint_cases cfg env E none c state validateSupply node with
    ⟨e, heq⟩ | ⟨e, -, -, heq⟩ | ⟨hc, hcheck, -⟩
  · rw [heq] at h
    cases h
  · rw [heq] at h
    cases h
  · simp only [finalizeCheckpoint, hcheck, finalizeMetadata_ok hc] at h
    cases h
    exact ⟨hc, hcheck, rfl⟩

/-- Without a storage failure, a checkpoint that passes all checks is finalized. -/
lemma finalizeCheckpoint_accepts {validateSupply : Bool}
    (hcheck : node.checkCommit E c state validateSupply = .ok ())
    (hc : Continues env.toHashEnv node.chain c) :
    finalizeCheckpoint cfg env E none c state validateSupply node = (.ok (), finalized cfg env c state node) := by
  simp only [finalizeCheckpoint, hcheck]
  exact finalizeMetadata_ok hc

end Kanari.Proofs

import Kanari.Proofs.CrashRecovery

/-!
# Which committed transactions a restarted node still knows

The running node keeps the last hashes, however many checkpoints they come from, while a restart
rebuilds the set from the retained checkpoints.
-/

namespace Kanari.Proofs

open Lib Node PersistentStore

variable {σ : Type} {cfg : NodeConfig} {env : AdmissionEnv} {E : StateEnv σ} {history : List Checkpoint}

variable {s : PersistentStore σ} {node : Node σ}

lemma finalize_write_index (hindex : cfg.persistTransactionHashIndexEnabled = false)
    {chain : Blockchain} {c : Checkpoint} {state : σ} {w : PersistentStore σ → PersistentStore σ}
    (hw : w ∈ finalizeWrites cfg env chain c state s) (u : PersistentStore σ) :
    (w u).transactionIndex = u.transactionIndex := by
  have hpersist : ∀ mark d (u : PersistentStore σ),
      (persistCheckpoint cfg env mark d u).transactionIndex = u.transactionIndex := by
    intro mark d u
    rw [persistCheckpoint_index, hindex]
    simp
  simp only [finalizeWrites, closingWrites, metadataWrites, List.mem_cons, List.mem_append, List.not_mem_nil,
    or_false] at hw
  rcases hw with rfl | hw | rfl
  · simp only [commitBatch]
    split_ifs
    · exact hpersist true c u
    · rfl
  · split_ifs at hw
    · simp at hw
    rcases snapshot_write_cases hw with ⟨d, -, rfl⟩ | (rfl | rfl) | ⟨k, rfl⟩ | ⟨k, rfl⟩
    · exact hpersist false d u
    all_goals rfl
  · rfl

lemma Built.noIndex (hindex : cfg.persistTransactionHashIndexEnabled = false)
    (h : Built cfg env E history node) (hs : node.store = some s) (x : Bytes) :
    s.transactionIndex x = none := by
  induction h generalizing s with
  | start => cases hs; rfl
  | submit h mempool ih => exact ih hs
  | @finalize history node node' h c state validateSupply hstep ih =>
    obtain ⟨-, -, rfl⟩ := finalizeCheckpoint_eq_ok hstep
    obtain ⟨s₀, hs₀, rfl⟩ := Option.map_eq_some_iff.mp hs
    rw [writeAll_invariant (P := fun u : PersistentStore σ => u.transactionIndex = s₀.transactionIndex)
      (fun w hw u hu => (finalize_write_index hindex hw u).trans hu) rfl]
    exact ih hs₀

def retainedHashes (H : HashEnv) (history : List Checkpoint) : List Bytes :=
  ((history.rtake (MAX_RETAINED_BLOCKS - 1)).flatMap H.txHashes).rtake MAX_RETAINED_TX_HASHES

lemma mem_retainedHashes {H : HashEnv} {x : Bytes}
    (hx : x ∈ (history.flatMap H.txHashes).rtake MAX_RETAINED_TX_HASHES) :
    x ∈ retainedHashes H history ↔ ∃ c ∈ history.rtake (MAX_RETAINED_BLOCKS - 1), x ∈ H.txHashes c := by
  have hsuffix : (history.rtake (MAX_RETAINED_BLOCKS - 1)).flatMap H.txHashes <:+ history.flatMap H.txHashes := by
    obtain ⟨t, ht⟩ := rtake_isSuffix history (MAX_RETAINED_BLOCKS - 1)
    exact ⟨t.flatMap H.txHashes, by rw [← List.flatMap_append, ht]⟩
  unfold retainedHashes
  rw [← List.mem_flatMap]
  constructor
  · exact fun h => (rtake_isSuffix _ _).subset h
  · intro h
    rcases Nat.le_total MAX_RETAINED_TX_HASHES
      ((history.rtake (MAX_RETAINED_BLOCKS - 1)).flatMap H.txHashes).length with hfull | hshort
    · rw [rtake_eq_of_suffix hsuffix hfull]
      exact hx
    · rw [rtake_of_length_le hshort]
      exact h

lemma committed_iff (hstore : node.store = some s) (hindex : ∀ x, s.transactionIndex x = none)
    (x : Bytes) : node.tryIsTransactionCommitted x = true ↔ x ∈ node.chain.executedTxHashes := by
  simp [tryIsTransactionCommitted, Blockchain.isTransactionHashExecuted, hstore, hindex]

/-- The restart works, and what is known before and after it. -/
lemma Built.restart (h : Built cfg env E history node)
    (hretention : cfg.historyRetentionCheckpoints = none)
    (hindex : cfg.persistTransactionHashIndexEnabled = false) (hlenient : cfg.supplyInvariantFailFast = false)
    (hsmall : history.length < 2 ^ 64) (require : Bool) :
    ∃ node', Node.init cfg env E require node.store = .ok node' ∧
      (∀ x, node.tryIsTransactionCommitted x = true ↔
        x ∈ (history.flatMap env.txHashes).rtake MAX_RETAINED_TX_HASHES) ∧
      ∀ x, node'.tryIsTransactionCommitted x = true ↔ x ∈ retainedHashes env.toHashEnv history := by
  obtain ⟨s, hs⟩ := h.storeAgrees hsmall
  have hnone := h.noIndex hindex hs.store
  obtain ⟨chain, hopen, hchain⟩ : ∃ chain, Node.openChain cfg env E require s = .ok (chain, s) ∧
      Reloaded env.toHashEnv history chain :=
    hs.stored.openChain E require hretention hs.accepted hsmall hs.noMarker
      fun hempty _ => h.freshAllowed hempty hs.noMarker hs.state
  have hopens : Opens cfg E node.state (E.reopen node.state) := opens_iff.mpr ⟨rfl, by simp [hlenient]⟩
  refine ⟨_, hs.store ▸ (init_of_openChain hopen hs.state).mpr ⟨_, hopens, rfl⟩, fun x => ?_, fun x => ?_⟩
  · rw [committed_iff hs.store hnone, hs.chain, hs.accepted.executed, List.mem_toFinset]
  · rw [committed_iff (s := { s with state := some (E.reopen node.state) }) rfl hnone]
    show x ∈ chain.executedTxHashes ↔ _
    rw [hchain.executed, hs.accepted.rebuilt_executed, List.mem_toFinset, retainedHashes]

/-- A restart forgets no committed transaction, exactly when every hash of the replay window
occurs in one of the retained checkpoints. -/
theorem replay_knowledge_iff {node : Node σ} (hbuilt : Built {} env E history node)
    (hsmall : history.length < 2 ^ 64) (require : Bool) :
    (∃ node', Node.init {} env E require node.store = .ok node' ∧
      ∀ x, node.tryIsTransactionCommitted x = true → node'.tryIsTransactionCommitted x = true) ↔
    ∀ x ∈ (history.flatMap env.txHashes).rtake MAX_RETAINED_TX_HASHES,
      ∃ c ∈ history.rtake (MAX_RETAINED_BLOCKS - 1), x ∈ env.txHashes c := by
  obtain ⟨node', hinit, hbefore, hafter⟩ := hbuilt.restart rfl rfl rfl hsmall require
  constructor
  · rintro ⟨node'', hinit', hkept⟩ x hx
    obtain rfl : node' = node'' := Except.ok.inj (hinit.symm.trans hinit')
    exact (mem_retainedHashes hx).mp ((hafter x).mp (hkept x ((hbefore x).mpr hx)))
  · intro hcond
    refine ⟨node', hinit, fun x hx => (hafter x).mpr ?_⟩
    have hwindow := (hbefore x).mp hx
    exact (mem_retainedHashes hwindow).mpr (hcond x hwindow)

def nextCheckpoint (transactions : List SignedTransaction) (chain : Blockchain) : Checkpoint where
  sequence := chain.height + 1
  vertices := []
  transactions := transactions
  stateRoot := List.replicate 32 0
  timestamp := chain.height + 1
  prevCheckpointHash := Text.leBytes 8 chain.height.toNat

lemma hash_plainEnv (c : Checkpoint) : plainEnv.hash c = .ok (Text.leBytes 8 c.sequence.toNat) := by
  simp only [HashEnv.hash, HashEnv.preimage]
  split_ifs <;> rfl

/-- Without storage failures every valid checkpoint is taken. -/
lemma Built.append {node : Node Unit} (h : Built cfg env stillState history node) {c : Checkpoint}
    (hroot : c.stateRoot.length = 32) (hnext : Continues env.toHashEnv node.chain c) :
    Built cfg env stillState (history ++ [c]) (finalized cfg env c () node) := by
  have hcheck : node.checkCommit stillState c () true = .ok () := by
    unfold checkCommit
    rw [hroot]
    split_ifs <;> rfl
  exact h.finalize (finalizeCheckpoint_accepts hcheck hnext)

lemma Built.extend {node : Node Unit} (h : Built cfg plainEnv stillState history node)
    {transactions : List SignedTransaction} (hnodup : (transactions.map plainEnv.transactionHash).Nodup)
    (hfresh : ∀ x ∈ transactions.map plainEnv.transactionHash, x ∉ node.chain.executedTxHashes) :
    Built cfg plainEnv stillState (history ++ [nextCheckpoint transactions node.chain])
      (finalized cfg plainEnv (nextCheckpoint transactions node.chain) () node) :=
  h.append rfl ⟨rfl, hash_plainEnv _, hnodup, hfresh⟩

lemma Built.extend_empty {node : Node Unit} (h : Built cfg plainEnv stillState history node) (k : Nat) :
    ∃ (empties : List Checkpoint) (node' : Node Unit), empties.length = k ∧
      (∀ c ∈ empties, c.transactions = []) ∧ Built cfg plainEnv stillState (history ++ empties) node' := by
  induction k with
  | zero => exact ⟨[], node, rfl, by simp, by simpa using h⟩
  | succ k ih =>
    obtain ⟨empties, node', hlength, hempty, hbuilt⟩ := ih
    have hnext : Built cfg plainEnv stillState ((history ++ empties) ++ [nextCheckpoint [] node'.chain])
        (finalized cfg plainEnv (nextCheckpoint [] node'.chain) () node') :=
      hbuilt.extend List.nodup_nil (by simp)
    rw [List.append_assoc] at hnext
    refine ⟨empties ++ [nextCheckpoint [] node'.chain], _, by simp [hlength], ?_, hnext⟩
    intro c hc
    rcases List.mem_append.mp hc with hc | hc
    · exact hempty c hc
    · rw [List.mem_singleton.mp hc]
      rfl

def forgottenTx : SignedTransaction where
  transaction := ⟨⟨"Ed25519:0xa", none, 100, 1, 7⟩, .publishPackage []⟩
  signature := [1]

lemma built_forgottenTx : Built {} plainEnv stillState ([] ++ [nextCheckpoint [forgottenTx] startedNode.chain])
    (finalized {} plainEnv (nextCheckpoint [forgottenTx] startedNode.chain) () startedNode) :=
  Built.extend (.start rfl rfl) (List.nodup_singleton _) fun x _ => Finset.notMem_empty x

/-- Right after its checkpoint, the transaction survives a restart. -/
theorem replay_knowledge_first : ∃ node', Node.init {} plainEnv stillState true
      (finalized {} plainEnv (nextCheckpoint [forgottenTx] startedNode.chain) () startedNode).store = .ok node' ∧
    ∀ x, (finalized {} plainEnv (nextCheckpoint [forgottenTx] startedNode.chain) ()
      startedNode).tryIsTransactionCommitted x = true → node'.tryIsTransactionCommitted x = true := by
  refine (replay_knowledge_iff built_forgottenTx (by decide) true).mpr fun x hx => ?_
  have hmem : x ∈ plainEnv.txHashes (nextCheckpoint [forgottenTx] startedNode.chain) := by
    simpa using (rtake_isSuffix _ _).subset hx
  refine ⟨nextCheckpoint [forgottenTx] startedNode.chain, ?_, hmem⟩
  rw [rtake_of_length_le (by decide)]
  exact List.mem_singleton_self _

/-- One transaction and 999 empty checkpoints later, a restart no longer knows the transaction. -/
theorem restart_forgets :
    ∃ (history : List Checkpoint) (node node' : Node Unit), Built {} plainEnv stillState history node ∧
      history.length = 1000 ∧ Node.init {} plainEnv stillState true node.store = .ok node' ∧
      node.tryIsTransactionCommitted (plainEnv.transactionHash forgottenTx) = true ∧
      node'.tryIsTransactionCommitted (plainEnv.transactionHash forgottenTx) = false := by
  obtain ⟨empties, node, hlength, hempty, hbuilt⟩ := built_forgottenTx.extend_empty 999
  have hlength' : ([] ++ [nextCheckpoint [forgottenTx] startedNode.chain] ++ empties).length = 1000 := by
    simp [hlength]
  obtain ⟨node', hinit, hbefore, hafter⟩ := hbuilt.restart rfl rfl rfl (by rw [hlength']; decide) true
  have hnone : empties.flatMap plainEnv.txHashes = [] := by
    rw [List.flatMap_eq_nil_iff]
    intro c hc
    rw [HashEnv.txHashes, hempty c hc]
    rfl
  refine ⟨_, node, node', hbuilt, hlength', hinit, (hbefore _).mpr ?_, ?_⟩
  · have hflat : ([] ++ [nextCheckpoint [forgottenTx] startedNode.chain] ++ empties).flatMap plainEnv.txHashes =
        [plainEnv.transactionHash forgottenTx] := by
      rw [List.flatMap_append, hnone]
      rfl
    rw [hflat, rtake_of_length_le (by rw [List.length_singleton]; decide)]
    exact List.mem_singleton_self _
  · -- the 999 checkpoints that are left hold no transaction
    have hretained : ([] ++ [nextCheckpoint [forgottenTx] startedNode.chain] ++ empties).rtake
        (MAX_RETAINED_BLOCKS - 1) = empties := by
      rw [← rtake_eq_of_suffix (List.suffix_append _ empties) (by rw [hlength]; decide),
        rtake_of_length_le (by rw [hlength]; decide)]
    rw [Bool.eq_false_iff, ne_eq, hafter, retainedHashes, hretained, hnone, List.rtake_nil]
    exact List.not_mem_nil

end Kanari.Proofs

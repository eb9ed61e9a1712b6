import Kanari.Proofs.ChainHistory
import Kanari.Proofs.NodeSteps

/-!
# What the store holds of a history

The inline mode writes all records with the state; the other mode writes them after the chain has
taken the checkpoint.
-/

namespace Kanari.Proofs

open Lib Node PersistentStore

variable {σ : Type} {cfg : NodeConfig} {env : AdmissionEnv} {E : StateEnv σ} {history : List Checkpoint}
  {s : PersistentStore σ}

/-! ## One persisted checkpoint -/

section Fields

variable (cfg : NodeConfig) (env : AdmissionEnv) (mark : Bool) (c : Checkpoint) (s : PersistentStore σ)

@[simp] lemma persistCheckpoint_metadata : (persistCheckpoint cfg env mark c s).checkpointMetadata =
    s.checkpointMetadata.insert c.sequence.toNat (checkpointWithoutTransactions c) := by
  unfold persistCheckpoint
  split_ifs <;> rfl

@[simp] lemma persistCheckpoint_metadataJson : (persistCheckpoint cfg env mark c s).checkpointMetadataJson =
    s.checkpointMetadataJson.erase c.sequence.toNat := by
  unfold persistCheckpoint
  split_ifs <;> rfl

lemma persistCheckpoint_transactions : (persistCheckpoint cfg env mark c s).checkpointTransactions =
    if c.transactions.isEmpty || c.sequence == 0 then s.checkpointTransactions
    else s.checkpointTransactions.insert c.sequence.toNat c.transactions := by
  unfold persistCheckpoint
  split_ifs <;> rfl

lemma persistCheckpoint_watermark : (persistCheckpoint cfg env mark c s).senderNonceWatermark =
    if c.transactions.isEmpty || c.sequence == 0 then s.senderNonceWatermark
    else raiseWatermark env c s.senderNonceWatermark := by
  unfold persistCheckpoint
  split_ifs <;> rfl

lemma persistCheckpoint_index : (persistCheckpoint cfg env mark c s).transactionIndex =
    if c.transactions.isEmpty || c.sequence == 0 then s.transactionIndex
    else if cfg.persistTransactionHashIndexEnabled then indexTransactions env c s.transactionIndex
    else s.transactionIndex := by
  unfold persistCheckpoint
  split_ifs <;> rfl

@[simp] lemma persistCheckpoint_persistedThrough :
    (persistCheckpoint cfg env mark c s).historyPersistedThrough =
      if mark then some c.sequence.toNat else s.historyPersistedThrough := by
  unfold persistCheckpoint
  split_ifs <;> rfl

@[simp] lemma persistCheckpoint_prunedThrough :
    (persistCheckpoint cfg env mark c s).historyPrunedThrough = s.historyPrunedThrough := by
  unfold persistCheckpoint
  split_ifs <;> rfl

@[simp] lemma persistCheckpoint_blockchainJson :
    (persistCheckpoint cfg env mark c s).blockchainJson = s.blockchainJson := by
  unfold persistCheckpoint
  split_ifs <;> rfl

@[simp] lemma persistCheckpoint_blockchain :
    (persistCheckpoint cfg env mark c s).blockchain = s.blockchain := by
  unfold persistCheckpoint
  split_ifs <;> rfl

@[simp] lemma persistCheckpoint_pending :
    (persistCheckpoint cfg env mark c s).pendingCheckpointCommit = s.pendingCheckpointCommit := by
  unfold persistCheckpoint
  split_ifs <;> rfl

@[simp] lemma persistCheckpoint_state : (persistCheckpoint cfg env mark c s).state = s.state := by
  unfold persistCheckpoint
  split_ifs <;> rfl

end Fields

variable {chain : Blockchain}

lemma freshGenesis_eq {require : Bool} (h : freshGenesisIfAllowed cfg env E require s = .ok chain) :
    chain = Blockchain.new env.toHashEnv := by
  unfold freshGenesisIfAllowed at h
  cases require with
  | false => exact (Except.ok.inj h).symm
  | true =>
    rw [if_pos rfl] at h
    obtain ⟨allowed, -, h⟩ := bind_eq_ok.mp h
    obtain ⟨⟨⟩, -, h⟩ := bind_eq_ok.mp h
    exact (Except.ok.inj h).symm

/-! ## Metadata and transactions -/

/-- A checkpoint without transactions has no entry for them. -/
def storedTransactions (c : Checkpoint) : Option (List SignedTransaction) :=
  if c.transactions.isEmpty then none else some c.transactions

/-- Checkpoint `i + 1` is `history[i]`; the transactions of the first `pruned` ones are gone. -/
structure Records (history : List Checkpoint) (pruned : Nat) (s : PersistentStore σ) : Prop where
  metadata : ∀ i, s.checkpointMetadata.find? (i + 1) = (history[i]?).map checkpointWithoutTransactions
  noMetadataJson : s.checkpointMetadataJson = .empty
  transactions : ∀ i, s.checkpointTransactions.find? (i + 1) =
    if i < pruned then none else (history[i]?).bind storedTransactions
  noGenesisTransactions : s.checkpointTransactions.find? 0 = none
  noBlockchain : s.blockchain = none

lemma records_empty (state : Option σ) : Records [] 0 { state := state } where
  metadata := fun _ => rfl
  noMetadataJson := rfl
  transactions := fun _ => rfl
  noGenesisTransactions := rfl
  noBlockchain := rfl

variable {pruned : Nat}

lemma Records.congr {t : PersistentStore σ} (h : Records history pruned s)
    (hmetadata : t.checkpointMetadata = s.checkpointMetadata)
    (hjson : t.checkpointMetadataJson = s.checkpointMetadataJson)
    (htransactions : t.checkpointTransactions = s.checkpointTransactions)
    (hblockchain : t.blockchain = s.blockchain) : Records history pruned t where
  metadata := fun i => hmetadata ▸ h.metadata i
  noMetadataJson := hjson.trans h.noMetadataJson
  transactions := fun i => htransactions ▸ h.transactions i
  noGenesisTransactions := htransactions ▸ h.noGenesisTransactions
  noBlockchain := hblockchain.trans h.noBlockchain

lemma find?_stored (m : OrdMap Nat (List SignedTransaction)) {c : Checkpoint} {n : Nat}
    (hseq : c.sequence.toNat = n + 1) (k : Nat) (hold : c.transactions.isEmpty → m.find? (n + 1) = none) :
    (if c.transactions.isEmpty || c.sequence == 0 then m
      else m.insert c.sequence.toNat c.transactions).find? k =
      if k = n + 1 then storedTransactions c else m.find? k := by
  have hne : (c.sequence == 0) = false := by
    rw [beq_eq_false_iff_ne]
    rintro heq
    rw [heq] at hseq
    simp at hseq
  rw [hne, Bool.or_false, hseq]
  unfold storedTransactions
  by_cases hempty : c.transactions.isEmpty = true
  · simp only [hempty, if_true]
    split_ifs with hk
    · rw [hk, hold hempty]
    · rfl
  · simp only [hempty, Bool.false_eq_true, if_false, OrdMap.find?_insert]

lemma Records.persist (h : Records history pruned s) (hpruned : pruned ≤ history.length)
    {c : Checkpoint} (hseq : c.sequence.toNat = history.length + 1) (mark : Bool) :
    Records (history ++ [c]) pruned (persistCheckpoint cfg env mark c s) := by
  have hlast : ∀ i, (history ++ [c])[i]? = if i = history.length then some c else history[i]? := by
    intro i
    rw [List.getElem?_append]
    split_ifs with hlt heq heq
    · omega
    · rfl
    · simp [heq]
    · rw [List.getElem?_eq_none (by simp; omega), List.getElem?_eq_none (by omega)]
  refine ⟨fun i => ?_, ?_, fun i => ?_, ?_, ?_⟩
  · rw [persistCheckpoint_metadata, OrdMap.find?_insert, hseq, hlast, h.metadata]
    by_cases hi : i = history.length
    · simp [hi]
    · simp [hi]
  · rw [persistCheckpoint_metadataJson, h.noMetadataJson]
    exact OrdMap.erase_of_absent rfl
  · have hold : s.checkpointTransactions.find? (history.length + 1) = none := by
      rw [h.transactions, List.getElem?_eq_none (Nat.le_refl _)]
      simp
    rw [persistCheckpoint_transactions, find?_stored _ hseq _ fun _ => hold, hlast, h.transactions]
    by_cases hi : i = history.length
    · have : ¬ i < pruned := by omega
      simp [hi, show ¬ history.length < pruned by omega]
    · simp [hi]
  · have hold : s.checkpointTransactions.find? (history.length + 1) = none := by
      rw [h.transactions, List.getElem?_eq_none (Nat.le_refl _)]
      simp
    rw [persistCheckpoint_transactions, find?_stored _ hseq _ fun _ => hold]
    exact h.noGenesisTransactions
  · rw [persistCheckpoint_blockchain]
    exact h.noBlockchain

lemma Records.persist_again {i : Nat} (h : Records history pruned s) (hpruned : pruned ≤ i)
    {c : Checkpoint} (hc : history[i]? = some c) (hseq : c.sequence.toNat = i + 1) (mark : Bool) :
    Records history pruned (persistCheckpoint cfg env mark c s) := by
  have hentry : s.checkpointTransactions.find? (i + 1) = storedTransactions c := by
    rw [h.transactions, hc, if_neg (by omega)]
    rfl
  have hold : c.transactions.isEmpty → s.checkpointTransactions.find? (i + 1) = none := fun hempty => by
    rw [hentry, storedTransactions, if_pos hempty]
  refine ⟨fun j => ?_, ?_, fun j => ?_, ?_, ?_⟩
  · rw [persistCheckpoint_metadata, OrdMap.find?_insert, hseq, h.metadata]
    split_ifs with hj
    · obtain rfl : j = i := by omega
      rw [hc]
      rfl
    · rfl
  · rw [persistCheckpoint_metadataJson, h.noMetadataJson]
    exact OrdMap.erase_of_absent rfl
  · rw [persistCheckpoint_transactions, find?_stored _ hseq _ hold]
    split_ifs with hj hlt hlt
    · omega
    · obtain rfl : j = i := by omega
      rw [hc]
      rfl
    · rw [h.transactions, if_pos hlt]
    · rw [h.transactions, if_neg hlt]
  · rw [persistCheckpoint_transactions, find?_stored _ hseq _ hold]
    exact h.noGenesisTransactions
  · rw [persistCheckpoint_blockchain]
    exact h.noBlockchain

/-- Genesis has metadata only, under a number that the replay skips. -/
lemma Records.persist_genesis (h : Records history pruned s) (mark : Bool) :
    Records history pruned (persistCheckpoint cfg env mark env.genesis s) := by
  refine ⟨fun i => ?_, ?_, ?_, ?_, ?_⟩
  · rw [persistCheckpoint_metadata, OrdMap.find?_insert, h.metadata]
    exact if_neg (Nat.succ_ne_zero i)
  · rw [persistCheckpoint_metadataJson, h.noMetadataJson]
    exact OrdMap.erase_of_absent rfl
  · intro i
    rw [persistCheckpoint_transactions]
    exact h.transactions i
  · rw [persistCheckpoint_transactions]
    exact h.noGenesisTransactions
  · rw [persistCheckpoint_blockchain]
    exact h.noBlockchain

lemma Records.prune (h : Records history pruned s) (k : Nat) :
    Records history (pruned + k)
      (writeAll ((List.range' (pruned + 1) k).map deleteCheckpointTransactions) s) := by
  induction k generalizing pruned s with
  | zero => exact h
  | succ k ih =>
    have hstep : Records history (pruned + 1) (deleteCheckpointTransactions (pruned + 1) s) := by
      refine ⟨h.metadata, h.noMetadataJson, fun i => ?_, ?_, h.noBlockchain⟩
      · simp only [deleteCheckpointTransactions, OrdMap.find?_erase, h.transactions]
        split_ifs <;> first | rfl | omega
      · simp only [deleteCheckpointTransactions, OrdMap.find?_erase, h.noGenesisTransactions]
        split_ifs <;> rfl
    rw [List.range'_succ, List.map_cons, writeAll_cons, show pruned + (k + 1) = (pruned + 1) + k by omega]
    exact ih hstep

/-! ## The checkpoints of a snapshot -/

lemma mem_unpersisted {d : Checkpoint} :
    d ∈ unpersisted chain s ↔ d ∈ chain.dagCheckpoints ∧ ∀ through, s.historyPersistedThrough = some through →
      min through chain.height.toNat < d.sequence.toNat := by
  unfold unpersisted
  rw [List.mem_filter]
  cases s.historyPersistedThrough with
  | none => simp
  | some through => simp

lemma recover_eq_some {chain : Blockchain}
    (h : recoverBlockchainFromCheckpointStore env s = .ok (some chain)) :
    ∃ replayed, recoverFrom env s (Blockchain.new env.toHashEnv) s.recoverCheckpointSequences = .ok (some replayed) ∧
      replayed.rebuildTxHashIndex env.toHashEnv = chain := by
  unfold recoverBlockchainFromCheckpointStore at h
  by_cases hnone : s.recoverCheckpointSequences.isEmpty = true
  · rw [if_pos hnone] at h
    cases h
  rw [if_neg hnone] at h
  obtain ⟨o, ho, h⟩ := bind_eq_ok.mp h
  obtain ⟨replayed, rfl, hchain⟩ := Option.map_eq_some_iff.mp (Except.ok.inj h)
  exact ⟨replayed, ho, hchain⟩

lemma recoverMarker_cases {chain chain' : Blockchain} {c : Checkpoint}
    (h : recoverMarker env chain c = .ok chain') :
    Continues env.toHashEnv chain c ∧ chain' = chain.append env.toHashEnv c ∨ chain' = chain := by
  unfold recoverMarker at h
  split_ifs at h
  · rcases addCheckpoint_cases env.toHashEnv chain c with ⟨hc, hadd⟩ | ⟨e, hadd⟩ <;> rw [hadd] at h
    · exact .inl ⟨hc, (Except.ok.inj h).symm⟩
    · cases h
  · obtain ⟨latestHash, -, h⟩ := bind_eq_ok.mp h
    obtain ⟨markerHash, -, h⟩ := bind_eq_ok.mp h
    obtain ⟨⟨⟩, -, h⟩ := bind_eq_ok.mp h
    exact .inr (Except.ok.inj h).symm

lemma retained_concat (h : Accepted env.toHashEnv (history ++ [c])) :
    ∃ older, (chainOf env.toHashEnv (history ++ [c])).dagCheckpoints = older ++ [c] ∧
      ∀ d ∈ older, d = env.genesis ∨ d ∈ history := by
  rw [h.represents.retained]
  refine ⟨env.genesis :: history.rtake (MAX_RETAINED_BLOCKS - 2), ?_, fun d hd => ?_⟩
  · exact congrArg (env.genesis :: ·) (List.rtake_concat_succ history (MAX_RETAINED_BLOCKS - 2) c)
  · exact (List.mem_cons.mp hd).imp_right ((rtake_isSuffix _ _).subset ·)

lemma Records.persist_older (hrecords : Records history pruned s)
    (h : Accepted env.toHashEnv history) (hsmall : history.length < 2 ^ 64) {l : List Checkpoint}
    (hl : ∀ d ∈ l, d = env.genesis ∨ ∃ i, pruned ≤ i ∧ history[i]? = some d) :
    Records history pruned (writeAll (l.map (persistCheckpoint cfg env false)) s) := by
  refine writeAll_invariant ?_ hrecords
  intro w hw t ht
  obtain ⟨d, hd, rfl⟩ := List.mem_map.mp hw
  rcases hl d hd with rfl | ⟨i, hi, hget⟩
  · exact ht.persist_genesis false
  · exact ht.persist_again hi hget (h.sequence hsmall hget) false

lemma Records.persist_unpersisted (hpruned : pruned ≤ history.length) {c : Checkpoint}
    (h : Accepted env.toHashEnv (history ++ [c])) (hsmall : history.length + 1 < 2 ^ 64)
    (hdag : chain.dagCheckpoints = (chainOf env.toHashEnv (history ++ [c])).dagCheckpoints)
    (hkept : ∀ d ∈ unpersisted chain s, d ∈ history → ∃ i, pruned ≤ i ∧ history[i]? = some d)
    (hrecords : Records (history ++ [c]) pruned s ∨ Records history pruned s ∧
      ∀ through, s.historyPersistedThrough = some through → through ≤ history.length) :
    Records (history ++ [c]) pruned
      (writeAll ((unpersisted chain s).map (persistCheckpoint cfg env false)) s) := by
  have hlength : (history ++ [c]).length < 2 ^ 64 := by simpa using hsmall
  have hlast : (history ++ [c])[history.length]? = some c := by simp
  have hseq := h.sequence hlength hlast
  have hheight : chain.height.toNat = history.length + 1 := by
    rw [height_congr hdag, h.height hlength, List.length_append, List.length_singleton]
  obtain ⟨older, holder, hmem⟩ := retained_concat h
  rcases hrecords with hrecords | ⟨hrecords, hmark⟩
  · refine hrecords.persist_older h hlength fun d hd => ?_
    have hdag' := (mem_unpersisted.mp hd).1
    rw [hdag, holder, List.mem_append, List.mem_singleton] at hdag'
    rcases hdag' with hold | rfl
    · refine (hmem d hold).imp_right fun hd' => ?_
      obtain ⟨i, hi, hget⟩ := hkept d hd hd'
      exact ⟨i, hi, by rw [List.getElem?_append_left (List.getElem?_eq_some_iff.mp hget).1, hget]⟩
    · exact .inr ⟨history.length, hpruned, hlast⟩
  · -- `c` is above the mark and comes after everything else
    obtain ⟨l, hl, hlmem⟩ : ∃ l, unpersisted chain s = l ++ [c] ∧ ∀ d ∈ l, d ∈ older := by
      unfold unpersisted
      rw [hdag, holder, List.filter_append]
      refine ⟨_, congrArg _ (List.filter_eq_self.mpr fun d hd => ?_), fun d hd => (List.mem_filter.mp hd).1⟩
      rw [List.mem_singleton.mp hd, hseq]
      cases hthrough : s.historyPersistedThrough with
      | none => rfl
      | some through =>
        have := hmark through hthrough
        simp only [Option.all_some, decide_eq_true_eq]
        omega
    rw [hl, List.map_append, writeAll_append]
    refine Records.persist ?_ hpruned hseq false
    refine hrecords.persist_older h.of_append (by omega) fun d hd => ?_
    exact (hmem d (hlmem d hd)).imp_right (hkept d (hl ▸ List.mem_append_left _ hd))

/-! ## The whole store -/

def prunedCount (cfg : NodeConfig) (height : Nat) : Nat :=
  match cfg.historyRetentionCheckpoints with
  | some retention => height - retention
  | none => 0

lemma prunedCount_le (cfg : NodeConfig) (height : Nat) : prunedCount cfg height ≤ height := by
  unfold prunedCount
  split
  · exact Nat.sub_le _ _
  · exact Nat.zero_le _

/-- Two chains with the same serialized form: only the replay window may differ. -/
structure SameChain (chain chain' : Blockchain) : Prop where
  dag : chain.dagCheckpoints = chain'.dagCheckpoints
  count : chain.totalTransactionCount = chain'.totalTransactionCount

/-- A serialized chain is there once a checkpoint was persisted, and is that of the history. -/
structure Stored (cfg : NodeConfig) (env : AdmissionEnv) (history : List Checkpoint) (s : PersistentStore σ) :
    Prop where
  records : Records history (prunedCount cfg history.length) s
  unused : history = [] → s.recoverCheckpointSequences = []
  persistedThrough : s.historyPersistedThrough = if history = [] then none else some history.length
  prunedThrough : s.historyPrunedThrough.getD 0 = prunedCount cfg history.length
  blockchainJson : s.blockchainJson =
    if cfg.persistBlockchainJsonSnapshotEnabled = true ∧ history ≠ [] then
      some (slimSnapshot (chainOf env.toHashEnv history)) else none

lemma stored_empty (cfg : NodeConfig) (env : AdmissionEnv) (state : Option σ) :
    Stored cfg env [] { state := state } := by
  have hzero : prunedCount cfg 0 = 0 := Nat.le_zero.mp (prunedCount_le cfg 0)
  refine ⟨?_, fun _ => rfl, rfl, hzero.symm, by simp⟩
  rw [List.length_nil, hzero]
  exact records_empty state

lemma Stored.mark (h : Stored cfg env history s) (state : Option σ) (marker : Option Checkpoint) :
    Stored cfg env history { s with state := state, pendingCheckpointCommit := marker } where
  records := h.records.congr rfl rfl rfl rfl
  unused := h.unused
  persistedThrough := h.persistedThrough
  prunedThrough := h.prunedThrough
  blockchainJson := h.blockchainJson

lemma Stored.clearMarker (h : Stored cfg env history s) : Stored cfg env history (clearMarker s) :=
  h.mark s.state none

/-- The metadata inside the batch of the commit. -/
lemma Stored.persist_inline (h : Stored cfg env history s) (hinline : cfg.inlineCheckpointMetadata = true)
    {c : Checkpoint} (hseq : c.sequence.toNat = history.length + 1) :
    Stored cfg env (history ++ [c]) (persistCheckpoint cfg env true c s) := by
  simp only [NodeConfig.inlineCheckpointMetadata, Bool.and_eq_true, Bool.not_eq_true',
    Option.isNone_iff_eq_none] at hinline
  obtain ⟨hjson, hretention⟩ := hinline
  have hpruned : ∀ n, prunedCount cfg n = 0 := fun n => by simp only [prunedCount, hretention]
  have hrecords := h.records
  rw [hpruned] at hrecords
  refine ⟨?_, by simp, ?_, ?_, ?_⟩
  · rw [hpruned]
    exact hrecords.persist (Nat.zero_le _) hseq true
  · simp [hseq]
  · rw [persistCheckpoint_prunedThrough, h.prunedThrough, hpruned, hpruned]
  · rw [persistCheckpoint_blockchainJson, h.blockchainJson, hjson]
    simp

lemma stored_of_snapshot {c : Checkpoint} (h : Accepted env.toHashEnv (history ++ [c]))
    (hsmall : history.length + 1 < 2 ^ 64) (hsame : SameChain chain (chainOf env.toHashEnv (history ++ [c])))
    (hprunedThrough : s.historyPrunedThrough.getD 0 = prunedCount cfg history.length)
    (hrecords : Records (history ++ [c]) (prunedCount cfg history.length)
      (writeAll ((unpersisted chain s).map (persistCheckpoint cfg env false)) s)) :
    Stored cfg env (history ++ [c]) (writeAll (persistBlockchainSnapshot cfg env chain s) s) := by
  have hlength : (history ++ [c]).length = history.length + 1 := by simp
  have hheight : chain.height.toNat = history.length + 1 := by
    rw [height_congr hsame.dag, h.height (by rw [hlength]; exact hsmall), hlength]
  set persisted := writeAll ((unpersisted chain s).map (persistCheckpoint cfg env false)) s with hpersisted
  set marked := saveBlockchainJson cfg chain (savePersistedThrough chain.height.toNat persisted) with hmarked
  have hwrites : writeAll (persistBlockchainSnapshot cfg env chain s) s =
      writeAll (match cfg.historyRetentionCheckpoints with
        | some retention => pruneTransactionPayloads (chain.height.toNat - retention) s
        | none => []) marked := by
    rw [persistBlockchainSnapshot, writeAll_append, writeAll_append]
    rfl
  have hprunedMark : marked.historyPrunedThrough = s.historyPrunedThrough :=
    writeAll_invariant (P := fun t : PersistentStore σ => t.historyPrunedThrough = s.historyPrunedThrough)
      (fun w hw t ht => by
        obtain ⟨d, -, rfl⟩ := List.mem_map.mp hw
        rw [persistCheckpoint_prunedThrough, ht]) rfl
  have hmarkedRecords : Records (history ++ [c]) (prunedCount cfg history.length) marked :=
    hrecords.congr rfl rfl rfl rfl
  have hpersistedThrough : marked.historyPersistedThrough = some (history ++ [c]).length := by
    rw [hlength, ← hheight]
    rfl
  have hjson : marked.blockchainJson =
      if cfg.persistBlockchainJsonSnapshotEnabled = true ∧ history ++ [c] ≠ [] then
        some (slimSnapshot (chainOf env.toHashEnv (history ++ [c]))) else none := by
    simp only [hmarked, saveBlockchainJson, slimSnapshot, hsame.dag, hsame.count, ne_eq, List.append_eq_nil_iff,
      List.cons_ne_nil, and_false, not_false_eq_true, and_true]
  rw [hwrites]
  cases hretention : cfg.historyRetentionCheckpoints with
  | none =>
    have hpruned : ∀ n, prunedCount cfg n = 0 := fun n => by simp only [prunedCount, hretention]
    rw [hpruned] at hmarkedRecords
    refine ⟨by rw [hpruned]; exact hmarkedRecords, by simp, by simpa using hpersistedThrough, ?_, hjson⟩
    rw [hpruned, writeAll_nil, hprunedMark, hprunedThrough, hpruned]
  | some retention =>
    have hpruned : ∀ n, prunedCount cfg n = n - retention := fun n => by simp only [prunedCount, hretention]
    rw [hpruned] at hmarkedRecords hprunedThrough
    simp only [pruneTransactionPayloads, hprunedThrough, hheight]
    split_ifs with hstay
    · have hsame : history.length + 1 - retention = history.length - retention := by omega
      refine ⟨by rw [hpruned, hlength, hsame]; exact hmarkedRecords, by simp, by simpa using hpersistedThrough,
        ?_, hjson⟩
      rw [hpruned, writeAll_nil, hprunedMark, hprunedThrough, hlength, hsame]
    · set through := history.length + 1 - retention with hthrough
      have hmore := hmarkedRecords.prune (through - (history.length - retention))
      rw [Nat.add_sub_cancel' (by omega : history.length - retention ≤ through)] at hmore
      have hkeep : ∀ sequences : List Nat,
          (writeAll (sequences.map deleteCheckpointTransactions) marked).historyPersistedThrough =
            marked.historyPersistedThrough ∧
          (writeAll (sequences.map deleteCheckpointTransactions) marked).blockchainJson =
            marked.blockchainJson := fun sequences =>
        writeAll_invariant (P := fun t : PersistentStore σ =>
            t.historyPersistedThrough = marked.historyPersistedThrough ∧ t.blockchainJson = marked.blockchainJson)
          (fun w hw t ht => by
            obtain ⟨d, -, rfl⟩ := List.mem_map.mp hw
            exact ht) ⟨rfl, rfl⟩
      rw [writeAll_append]
      refine ⟨?_, by simp, ?_, ?_, ?_⟩
      · rw [hpruned, hlength]
        exact hmore.congr rfl rfl rfl rfl
      · show (writeAll _ marked).historyPersistedThrough = _
        rw [(hkeep _).1, hpersistedThrough]
        simp
      · rw [hpruned, hlength]
        rfl
      · exact (hkeep _).2.trans hjson

lemma stored_snapshot (hretention : cfg.historyRetentionCheckpoints = none) {c : Checkpoint}
    (h : Accepted env.toHashEnv (history ++ [c])) (hsmall : history.length + 1 < 2 ^ 64)
    (hsame : SameChain chain (chainOf env.toHashEnv (history ++ [c])))
    (hprunedThrough : s.historyPrunedThrough.getD 0 = 0)
    (hrecords : Records (history ++ [c]) 0 s ∨ Records history 0 s ∧
      ∀ through, s.historyPersistedThrough = some through → through ≤ history.length) :
    Stored cfg env (history ++ [c]) (writeAll (persistBlockchainSnapshot cfg env chain s) s) := by
  have hpruned : ∀ n, prunedCount cfg n = 0 := fun n => by simp only [prunedCount, hretention]
  refine stored_of_snapshot h hsmall hsame (by rw [hpruned]; exact hprunedThrough) ?_
  rw [hpruned]
  refine Records.persist_unpersisted (Nat.zero_le _) h hsmall hsame.dag (fun d _ hd => ?_) hrecords
  obtain ⟨i, hi⟩ := List.getElem?_of_mem hd
  exact ⟨i, Nat.zero_le _, hi⟩

/-! ## Runs of finalized checkpoints -/

lemma Stored.finalize (hstored : Stored cfg env history s) (h : Accepted env.toHashEnv history)
    (hsmall : history.length + 1 < 2 ^ 64) {c : Checkpoint}
    (hc : Continues env.toHashEnv (chainOf env.toHashEnv history) c) (state : σ) :
    Stored cfg env (history ++ [c])
      (writeAll (finalizeWrites cfg env (chainOf env.toHashEnv history) c state s) s) := by
  have hseq := Continues.sequence_toNat h hsmall hc
  rw [finalizeWrites, writeAll_cons, closingWrites, writeAll_append, metadataWrites, ← chainOf_concat]
  by_cases hinline : cfg.inlineCheckpointMetadata = true
  · simp only [hinline, if_true, commitBatch, writeAll_nil, writeAll_cons]
    exact (hstored.persist_inline hinline hseq).mark _ _
  · simp only [hinline, Bool.false_eq_true, if_false, commitBatch, writeAll_nil, writeAll_cons]
    have hmarked := hstored.mark (some state) (some c)
    refine Stored.clearMarker (stored_of_snapshot (h.append hc) hsmall ⟨rfl, rfl⟩ hmarked.prunedThrough ?_)
    refine Records.persist_unpersisted (prunedCount_le _ _) (h.append hc) hsmall rfl ?_
      (.inr ⟨hmarked.records, ?_⟩)
    · -- nothing of the history is above the mark
      intro d hd hmem
      obtain ⟨i, hi⟩ := List.getElem?_of_mem hmem
      have hlt := (List.getElem?_eq_some_iff.mp hi).1
      have habove := (mem_unpersisted.mp hd).2 history.length
        (hstored.persistedThrough.trans (if_neg (List.ne_nil_of_mem hmem)))
      rw [(h.append hc).height (by simpa using hsmall), h.sequence (by omega) hi, List.length_append,
        List.length_singleton] at habove
      omega
    · intro through hthrough
      have hmark : s.historyPersistedThrough = some through := hthrough
      rw [hstored.persistedThrough] at hmark
      split_ifs at hmark
      exact (Option.some.inj hmark).ge

/-- A node that started on an empty store and has finalized `history`, one checkpoint after the
other; submissions in between change the mempool only. -/
inductive Built (cfg : NodeConfig) (env : AdmissionEnv) (E : StateEnv σ) : List Checkpoint → Node σ → Prop
  | start {state : σ} {root : Bytes} (hfresh : loadState cfg E {} = .ok state) (hroot : E.stateRoot state = .ok root) :
      Built cfg env E []
        { chain := Blockchain.new env.toHashEnv, state := state, store := some { state := some state } }
  | finalize {history : List Checkpoint} {node node' : Node σ} (h : Built cfg env E history node)
      {c : Checkpoint} {state : σ} {validateSupply : Bool}
      (hstep : finalizeCheckpoint cfg env E none c state validateSupply node = (.ok (), node')) :
      Built cfg env E (history ++ [c]) node'
  | submit {history : List Checkpoint} {node : Node σ} (h : Built cfg env E history node)
      (mempool : MempoolState) : Built cfg env E history { node with mempool := mempool }

/-- What a node that was built so looks like. -/
structure StoreAgrees (cfg : NodeConfig) (env : AdmissionEnv) (history : List Checkpoint) (node : Node σ)
    (s : PersistentStore σ) : Prop where
  accepted : Accepted env.toHashEnv history
  chain : node.chain = chainOf env.toHashEnv history
  store : node.store = some s
  state : s.state = some node.state
  noMarker : s.pendingCheckpointCommit = none
  stored : Stored cfg env history s

lemma snapshot_write_cases {w : PersistentStore σ → PersistentStore σ}
    (hw : w ∈ persistBlockchainSnapshot cfg env chain s) :
    (∃ d ∈ unpersisted chain s, w = persistCheckpoint cfg env false d) ∨
      (w = savePersistedThrough chain.height.toNat ∨ w = saveBlockchainJson cfg chain) ∨
      (∃ k, w = deleteCheckpointTransactions k) ∨ ∃ k, w = savePrunedThrough k := by
  simp only [persistBlockchainSnapshot, List.mem_append, List.mem_map, List.mem_cons, List.not_mem_nil,
    or_false] at hw
  rcases hw with (⟨d, hd, rfl⟩ | hw) | hw
  · exact .inl ⟨d, hd, rfl⟩
  · exact .inr (.inl hw)
  · cases hretention : cfg.historyRetentionCheckpoints with
    | none => simp [hretention] at hw
    | some retention =>
      simp only [hretention, pruneTransactionPayloads] at hw
      split_ifs at hw
      · simp at hw
      · simp only [List.mem_append, List.mem_map, List.mem_singleton] at hw
        rcases hw with ⟨k, -, rfl⟩ | rfl
        · exact .inr (.inr (.inl ⟨k, rfl⟩))
        · exact .inr (.inr (.inr ⟨_, rfl⟩))

/-- Where the metadata is not inline, a checkpoint above the progress mark is persisted on its own. -/
lemma persist_mem_closingWrites (hinline : cfg.inlineCheckpointMetadata = false) {c : Checkpoint}
    (hbelow : ∀ through, s.historyPersistedThrough = some through → through < c.sequence.toNat)
    (chain : Blockchain) (state : σ) :
    persistCheckpoint cfg env false c ∈
      closingWrites cfg env (chain.append env.toHashEnv c) (commitBatch cfg env c state s) := by
  have hkept : (commitBatch cfg env c state s).historyPersistedThrough = s.historyPersistedThrough := by
    rw [commitBatch, if_neg (by rw [hinline]; decide)]
  have hunpersisted : c ∈ unpersisted (chain.append env.toHashEnv c) (commitBatch cfg env c state s) := by
    refine mem_unpersisted.mpr ⟨?_, fun through hthrough => ?_⟩
    · have hlast := List.getLast_mem (chain.append env.toHashEnv c).nonempty
      rwa [show List.getLast _ _ = c from append_latestCheckpoint env.toHashEnv chain c] at hlast
    · exact lt_of_le_of_lt (Nat.min_le_left _ _) (hbelow through (hkept ▸ hthrough))
  rw [closingWrites, metadataWrites, if_neg (by rw [hinline]; decide), persistBlockchainSnapshot]
  simp only [List.mem_append, List.mem_map]
  exact .inl (.inl (.inl ⟨c, hunpersisted, rfl⟩))

lemma snapshot_write_keeps {w : PersistentStore σ → PersistentStore σ}
    (hw : w ∈ persistBlockchainSnapshot cfg env chain s) (u : PersistentStore σ) :
    (w u).state = u.state ∧ (w u).pendingCheckpointCommit = u.pendingCheckpointCommit := by
  rcases snapshot_write_cases hw with ⟨d, -, rfl⟩ | (rfl | rfl) | ⟨k, rfl⟩ | ⟨k, rfl⟩
  · rw [persistCheckpoint_state, persistCheckpoint_pending]
    exact ⟨rfl, rfl⟩
  all_goals exact ⟨rfl, rfl⟩

lemma snapshot_state (cfg : NodeConfig) (env : AdmissionEnv) (chain : Blockchain) (s t : PersistentStore σ) :
    (writeAll (persistBlockchainSnapshot cfg env chain s) t).state = t.state ∧
      (writeAll (persistBlockchainSnapshot cfg env chain s) t).pendingCheckpointCommit =
        t.pendingCheckpointCommit :=
  writeAll_invariant (P := fun u : PersistentStore σ =>
      u.state = t.state ∧ u.pendingCheckpointCommit = t.pendingCheckpointCommit)
    (fun _ hw u hu => ⟨(snapshot_write_keeps hw u).1.trans hu.1, (snapshot_write_keeps hw u).2.trans hu.2⟩)
    ⟨rfl, rfl⟩

lemma finalizeWrites_state (cfg : NodeConfig) (env : AdmissionEnv) (chain : Blockchain) (c : Checkpoint)
    (state : σ) (s : PersistentStore σ) :
    (writeAll (finalizeWrites cfg env chain c state s) s).state = some state := by
  rw [finalizeWrites, writeAll_cons, closingWrites, writeAll_append, metadataWrites]
  split_ifs
  · rfl
  · exact (snapshot_state ..).1

lemma Built.storeAgrees {node : Node σ} (h : Built cfg env E history node) (hsmall : history.length < 2 ^ 64) :
    ∃ s, StoreAgrees cfg env history node s := by
  induction h with
  | start hfresh hroot =>
    exact ⟨_, accepted_nil _, rfl, rfl, rfl, rfl, stored_empty cfg env _⟩
  | submit h mempool ih =>
    obtain ⟨s, hs⟩ := ih hsmall
    exact ⟨s, hs.accepted, hs.chain, hs.store, hs.state, hs.noMarker, hs.stored⟩
  | @finalize history node node' h c state validateSupply hstep ih =>
    rw [List.length_append, List.length_singleton] at hsmall
    obtain ⟨s, hs⟩ := ih (by omega)
    obtain ⟨hc, -, rfl⟩ := finalizeCheckpoint_eq_ok hstep
    rw [hs.chain] at hc
    refine ⟨_, hs.accepted.append hc, ?_, ?_, ?_, ?_, hs.stored.finalize hs.accepted hsmall hc state⟩
    · rw [chainOf_concat, ← hs.chain]
      rfl
    · simp only [finalized, hs.store, Option.map_some, hs.chain]
    · rw [finalizeWrites_state]
      rfl
    · rw [finalizeWrites, writeAll_cons, closingWrites, writeAll_append]
      rfl

end Kanari.Proofs

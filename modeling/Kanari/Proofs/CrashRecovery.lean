import Kanari.Proofs.CheckpointAtomicity
import Kanari.Proofs.CheckpointReplay

/-!
# A node that stops while it commits a checkpoint

The state and the marker are one write. With the marker, the records and the serialized chain may be
those before or after the checkpoint; the marker brings all combinations to the same chain.
-/

namespace Kanari.Proofs

open Lib Node PersistentStore

variable {σ : Type} {cfg : NodeConfig} {env : AdmissionEnv} {E : StateEnv σ} {history : List Checkpoint}
  {s t : PersistentStore σ} {c : Checkpoint}

/-- A store with the marker of `c`, at any point between its commit and its last write. -/
structure Between (env : AdmissionEnv) (history : List Checkpoint) (c : Checkpoint) (t : PersistentStore σ) :
    Prop where
  marker : t.pendingCheckpointCommit = some c
  pruned : t.historyPrunedThrough.getD 0 = 0
  records : Records (history ++ [c]) 0 t ∨ Records history 0 t ∧
    ∀ through, t.historyPersistedThrough = some through → through ≤ history.length
  json : t.blockchainJson = some (slimSnapshot (chainOf env.toHashEnv history)) ∨
    t.blockchainJson = some (slimSnapshot (chainOf env.toHashEnv (history ++ [c]))) ∧
      Records (history ++ [c]) 0 t ∨
    t.blockchainJson = none ∧ (history = [] ∨ Records (history ++ [c]) 0 t)

/-! ## Loading -/

variable {require : Bool} {chain : Blockchain} {state : σ}

lemma loadBlockchain_snapshot {snapshot : ChainSnapshot} (hjson : t.blockchainJson = some snapshot)
    (hrepaired : (restoreBlockchain env t snapshot).1 = false) :
    loadBlockchain cfg env E require t = .ok ((restoreBlockchain env t snapshot).2, []) := by
  simp only [loadBlockchain, hjson, Option.some_or, hrepaired, Bool.false_eq_true, if_false]

lemma loadBlockchain_recovered (hjson : t.blockchainJson = none) (hblockchain : t.blockchain = none)
    (hrecover : recoverBlockchainFromCheckpointStore env t = .ok (some chain)) :
    loadBlockchain cfg env E require t = .ok (chain, persistBlockchainSnapshot cfg env chain t) := by
  simp only [loadBlockchain, hjson, hblockchain, Option.none_or, hrecover, ok_bind]
  rfl

lemma loadBlockchain_fresh (hjson : t.blockchainJson = none) (hblockchain : t.blockchain = none)
    (hempty : t.recoverCheckpointSequences = [])
    (hallowed : require = true → t.canUseFreshGenesisMetadata cfg E = .ok true) :
    loadBlockchain cfg env E require t = .ok (Blockchain.new env.toHashEnv, []) := by
  have hrecover : recoverBlockchainFromCheckpointStore env t = .ok none := by
    rw [recoverBlockchainFromCheckpointStore, if_pos (by rw [hempty]; rfl)]
    rfl
  have hfresh : freshGenesisIfAllowed cfg env E require t = .ok (Blockchain.new env.toHashEnv) := by
    cases require with
    | false => rfl
    | true => simp [freshGenesisIfAllowed, hallowed rfl]
  simp only [loadBlockchain, hjson, hblockchain, Option.none_or, hrecover, ok_bind, hfresh]
  rfl

lemma Records.persist_new (hrecords : Records [] 0 t)
    (hretention : cfg.historyRetentionCheckpoints = none)
    (hdag : chain.dagCheckpoints = [env.genesis]) :
    let t' := writeAll (persistBlockchainSnapshot cfg env chain t) t
    Records [] 0 t' ∧ t'.historyPersistedThrough = some 0 ∧
      t'.historyPrunedThrough = t.historyPrunedThrough ∧
      t'.blockchainJson = if cfg.persistBlockchainJsonSnapshotEnabled then some (slimSnapshot chain) else none := by
  intro t'
  have hgenesis : ∀ d ∈ unpersisted chain t, d = env.genesis := fun d hd => by
    have hmem := (mem_unpersisted.mp hd).1
    rw [hdag] at hmem
    exact List.mem_singleton.mp hmem
  have hheight : chain.height.toNat = 0 := by
    rw [height_congr (hdag.trans (show [env.genesis] = (Blockchain.new env.toHashEnv).dagCheckpoints from rfl))]
    rfl
  set u := writeAll ((unpersisted chain t).map (persistCheckpoint cfg env false)) t with hu
  have hpersist : Records [] 0 u ∧ u.historyPrunedThrough = t.historyPrunedThrough := by
    refine writeAll_invariant
      (P := fun u : PersistentStore σ => Records [] 0 u ∧ u.historyPrunedThrough = t.historyPrunedThrough)
      (fun w hw u hu => ?_) ⟨hrecords, rfl⟩
    obtain ⟨d, hd, rfl⟩ := List.mem_map.mp hw
    rw [hgenesis d hd]
    exact ⟨hu.1.persist_genesis false, by rw [persistCheckpoint_prunedThrough]; exact hu.2⟩
  have ht' : t' = saveBlockchainJson cfg chain (savePersistedThrough chain.height.toNat u) := by
    simp only [t', persistBlockchainSnapshot, hretention, List.append_nil, writeAll_append, ← hu,
      writeAll_cons, writeAll_nil]
  rw [ht', hheight]
  exact ⟨hpersist.1.congr rfl rfl rfl rfl, rfl, hpersist.2, rfl⟩

/-- Whatever part of the writes was made, loading gives the chain without or with `c`, and leaves
the store as far. -/
lemma Between.load (hbetween : Between env history c t) (hretention : cfg.historyRetentionCheckpoints = none)
    (h : Accepted env.toHashEnv (history ++ [c])) (hsmall : history.length + 1 < 2 ^ 64) (require : Bool) :
    ∃ chain writes, loadBlockchain cfg env E require t = .ok (chain, writes) ∧
      (Reloaded env.toHashEnv history chain ∨ Reloaded env.toHashEnv (history ++ [c]) chain) ∧
      (writeAll writes t).pendingCheckpointCommit = some c ∧ (writeAll writes t).state = t.state ∧
      (writeAll writes t).historyPrunedThrough.getD 0 = 0 ∧
      (Records (history ++ [c]) 0 (writeAll writes t) ∨ Records history 0 (writeAll writes t) ∧
        ∀ through, (writeAll writes t).historyPersistedThrough = some through → through ≤ history.length) := by
  have hold : Accepted env.toHashEnv history := h.of_append
  have hlength : (history ++ [c]).length < 2 ^ 64 := by simpa using hsmall
  have hvisible : ∀ (l : List Checkpoint) i d, l[i]? = some d → visible 0 i d = d := fun _ _ _ _ => rfl
  rcases hbetween.json with hjson | ⟨hjson, hnew⟩ | ⟨hjson, hrecords⟩
  · -- the serialized chain is the old one
    obtain ⟨hrepaired, hchain⟩ : (restoreBlockchain env t (slimSnapshot (chainOf env.toHashEnv history))).1 = false ∧
        Reloaded env.toHashEnv history
          (restoreBlockchain env t (slimSnapshot (chainOf env.toHashEnv history))).2 := by
      rcases hbetween.records with hnew | ⟨hrecords, -⟩
      · exact hnew.restore hold (by omega) rfl
      · rw [← List.append_nil history] at hrecords
        exact hrecords.restore hold (by omega) rfl
    exact ⟨_, [], loadBlockchain_snapshot hjson hrepaired, .inl hchain, hbetween.marker, rfl,
      hbetween.pruned, hbetween.records⟩
  · -- the serialized chain is the new one
    have hnew' := hnew
    rw [← List.append_nil (history ++ [c])] at hnew'
    obtain ⟨hrepaired, hchain⟩ := hnew'.restore h hlength rfl
    exact ⟨_, [], loadBlockchain_snapshot hjson hrepaired, .inr hchain, hbetween.marker, rfl,
      hbetween.pruned, .inl hnew⟩
  by_cases hnew : Records (history ++ [c]) 0 t
  · -- no serialized chain, and the records go up to `c`
    have hsome : t.recoverCheckpointSequences ≠ [] :=
      List.ne_nil_of_mem ((hnew.mem_sequences history.length).mpr (by simp))
    have hrecover := hnew.recover h (hvisible _) hsome
    have hstored := stored_snapshot hretention h hsmall h.reloaded.toSameChain hbetween.pruned (.inl hnew)
    have hpruned : ∀ n, prunedCount cfg n = 0 := fun n => by simp only [prunedCount, hretention]
    obtain ⟨hstate, hmarker⟩ := snapshot_state cfg env
      ((chainOf env.toHashEnv (history ++ [c])).rebuildTxHashIndex env.toHashEnv) t t
    refine ⟨_, _, loadBlockchain_recovered hjson hnew.noBlockchain hrecover, .inr h.reloaded,
      hmarker.trans hbetween.marker, hstate, ?_, .inl ?_⟩
    · rw [hstored.prunedThrough, hpruned]
    · have hrec := hstored.records
      rw [hpruned] at hrec
      exact hrec
  -- at most genesis is recorded
  obtain rfl : history = [] := hrecords.resolve_right hnew
  obtain ⟨hempty, hmark⟩ := hbetween.records.resolve_left hnew
  by_cases hsome : t.recoverCheckpointSequences = []
  · refine ⟨_, [], loadBlockchain_fresh hjson hempty.noBlockchain hsome fun _ => ?_, .inl ⟨⟨rfl, rfl⟩, rfl⟩,
      hbetween.marker, rfl, hbetween.pruned, .inr ⟨hempty, hmark⟩⟩
    rw [canUseFreshGenesisMetadata, hbetween.marker]
    simp
  · have hrecover := hempty.recover hold (hvisible _) hsome
    obtain ⟨hrecords', hthrough, hpruned', -⟩ := hempty.persist_new hretention
      (rebuild_dagCheckpoints env.toHashEnv (chainOf env.toHashEnv []))
    obtain ⟨hstate, hmarker⟩ := snapshot_state cfg env
      ((chainOf env.toHashEnv []).rebuildTxHashIndex env.toHashEnv) t t
    refine ⟨_, _, loadBlockchain_recovered hjson hempty.noBlockchain hrecover, .inl hold.reloaded,
      hmarker.trans hbetween.marker, hstate, ?_, .inr ⟨hrecords', fun through hth => ?_⟩⟩
    · rw [hpruned']
      exact hbetween.pruned
    · rw [hthrough] at hth
      exact (Option.some.inj hth).ge

/-- The marker takes both chains to the one that ends with `c`. -/
lemma recoverMarker_reloaded (h : Accepted env.toHashEnv (history ++ [c]))
    (hsmall : history.length + 1 < 2 ^ 64) {digest : Bytes} (hdigest : env.hash c = .ok digest)
    (hchain : Reloaded env.toHashEnv history chain ∨ Reloaded env.toHashEnv (history ++ [c]) chain) :
    ∃ chain', recoverMarker env chain c = .ok chain' ∧
      SameChain chain' (chainOf env.toHashEnv (history ++ [c])) := by
  have hold : Accepted env.toHashEnv history := h.of_append
  have hc : Continues env.toHashEnv (chainOf env.toHashEnv history) c := h history c [] rfl
  have hseq := Continues.sequence_toNat hold hsmall hc
  have hlength : (history ++ [c]).length < 2 ^ 64 := by simpa using hsmall
  rcases hchain with hchain | hchain
  · have hheight : chain.height < c.sequence := by
      rw [UInt64.lt_iff_toNat_lt, height_congr hchain.dag, hold.height (by omega), hseq]
      exact Nat.lt_succ_self _
    have hnext := hchain.continues hold hc
    refine ⟨chain.append env.toHashEnv c, ?_, ?_⟩
    · rw [recoverMarker, if_pos hheight, addCheckpoint_accepts hnext]
    · rw [chainOf_concat]
      exact ⟨append_dagCheckpoints hchain.dag c,
        (append_count hnext (hchain.count.trans hold.represents.count)).trans
          (append_count hc hold.represents.count).symm⟩
  · have hlatest : chain.latestCheckpoint = c := by
      rw [latestCheckpoint_congr hchain.dag, chainOf_concat]
      exact append_latestCheckpoint _ _ _
    have hheight : chain.height = c.sequence := congrArg Checkpoint.sequence hlatest
    refine ⟨chain, ?_, hchain.toSameChain⟩
    rw [recoverMarker, if_neg (by rw [hheight]; exact UInt64.lt_irrefl _), if_pos hheight, hlatest, hdigest]
    simp

lemma Between.openChain (hbetween : Between env history c t) (hretention : cfg.historyRetentionCheckpoints = none)
    (h : Accepted env.toHashEnv (history ++ [c])) (hsmall : history.length + 1 < 2 ^ 64) {digest : Bytes}
    (hdigest : env.hash c = .ok digest) (require : Bool) :
    ∃ chain s', Node.openChain cfg env E require t = .ok (chain, s') ∧
      SameChain chain (chainOf env.toHashEnv (history ++ [c])) ∧
      s'.state = t.state ∧ s'.pendingCheckpointCommit = none ∧ Stored cfg env (history ++ [c]) s' := by
  obtain ⟨chain, writes, hload, hchain, hmarker, hstate, hpruned, hrecords⟩ :=
    hbetween.load (E := E) hretention h hsmall require
  obtain ⟨chain', hrecover, hsame⟩ := recoverMarker_reloaded h hsmall hdigest hchain
  have hstored := stored_snapshot hretention h hsmall hsame hpruned hrecords
  refine ⟨chain', clearMarker (writeAll (persistBlockchainSnapshot cfg env chain' (writeAll writes t))
    (writeAll writes t)), ?_, hsame, ?_, rfl, hstored.clearMarker⟩
  · simp only [Node.openChain, hload, ok_bind, hmarker, hrecover]
    rfl
  · exact (snapshot_state cfg env chain' (writeAll writes t) (writeAll writes t)).1.trans hstate

lemma Stored.snapshot_self (hstored : Stored cfg env history s)
    (hretention : cfg.historyRetentionCheckpoints = none)
    (hjson : cfg.persistBlockchainJsonSnapshotEnabled = false) (h : Accepted env.toHashEnv history)
    (hsmall : history.length < 2 ^ 64) (hne : history ≠ [])
    (hdag : chain.dagCheckpoints = (chainOf env.toHashEnv history).dagCheckpoints) :
    writeAll (persistBlockchainSnapshot cfg env chain s) s = s := by
  have hmark : s.historyPersistedThrough = some history.length := hstored.persistedThrough.trans (if_neg hne)
  have hheight : chain.height.toNat = history.length := by rw [height_congr hdag, h.height hsmall]
  have hnone : unpersisted chain s = [] := by
    refine List.eq_nil_iff_forall_not_mem.mpr fun d hd => ?_
    obtain ⟨hmem, habove⟩ := mem_unpersisted.mp hd
    have hlt := habove _ hmark
    rw [hheight, Nat.min_self] at hlt
    rw [hdag, h.represents.retained] at hmem
    rcases List.mem_cons.mp hmem with rfl | hmem
    · exact absurd hlt (Nat.not_lt_zero _)
    · obtain ⟨i, hi⟩ := List.getElem?_of_mem ((rtake_isSuffix _ _).subset hmem)
      have := (List.getElem?_eq_some_iff.mp hi).1
      rw [h.sequence hsmall hi] at hlt
      omega
  have hnoJson : s.blockchainJson = none := by
    have hmap := hstored.blockchainJson
    rwa [hjson, if_neg (by simp)] at hmap
  simp only [persistBlockchainSnapshot, hnone, hretention, hheight, List.map_nil, List.nil_append, List.append_nil,
    writeAll_cons, writeAll_nil]
  obtain ⟨state, metadata, metadataJson, transactions, index, watermark, persisted, pruned, json, chain, pending⟩ := s
  obtain rfl : persisted = some history.length := hmark
  obtain rfl : json = none := hnoJson
  simp [saveBlockchainJson, savePersistedThrough, hjson]

lemma Stored.openChain (E : StateEnv σ) (require : Bool) (hstored : Stored cfg env history s)
    (hretention : cfg.historyRetentionCheckpoints = none) (h : Accepted env.toHashEnv history)
    (hsmall : history.length < 2 ^ 64) (hmarker : s.pendingCheckpointCommit = none)
    (hallowed : history = [] → require = true → s.canUseFreshGenesisMetadata cfg E = .ok true) :
    ∃ chain, Node.openChain cfg env E require s = .ok (chain, s) ∧ Reloaded env.toHashEnv history chain := by
  obtain ⟨chain, writes, hload, hwrites, hchain⟩ : ∃ chain writes,
      loadBlockchain cfg env E require s = .ok (chain, writes) ∧ writeAll writes s = s ∧
        Reloaded env.toHashEnv history chain := by
    have hrecords := hstored.records
    simp only [prunedCount, hretention] at hrecords
    have hmap := hstored.blockchainJson
    by_cases hne : history = []
    · subst hne
      rw [if_neg (by simp)] at hmap
      exact ⟨_, [], loadBlockchain_fresh hmap hrecords.noBlockchain (hstored.unused rfl)
        (hallowed rfl), rfl, ⟨⟨rfl, rfl⟩, rfl⟩⟩
    cases hjson : cfg.persistBlockchainJsonSnapshotEnabled with
    | true =>
      rw [if_pos ⟨hjson, hne⟩] at hmap
      rw [← List.append_nil history] at hrecords
      obtain ⟨hrepaired, hchain⟩ := hrecords.restore h hsmall rfl
      exact ⟨_, [], loadBlockchain_snapshot hmap hrepaired, rfl, hchain⟩
    | false =>
      rw [if_neg (by simp [hjson])] at hmap
      have hsome : s.recoverCheckpointSequences ≠ [] :=
        List.ne_nil_of_mem ((hrecords.mem_sequences 0).mpr (List.length_pos_iff.mpr hne))
      have hrecover := hrecords.recover h (fun _ _ _ => rfl) hsome
      exact ⟨_, _, loadBlockchain_recovered hmap hrecords.noBlockchain hrecover,
        hstored.snapshot_self hretention hjson h hsmall hne (rebuild_dagCheckpoints _ _), h.reloaded⟩
  refine ⟨chain, ?_, hchain⟩
  simp only [Node.openChain, hload, ok_bind, hwrites, hmarker]
  rfl

/-! ## The crashes -/

/-- Opening a store with the first state gives the second one. -/
def Opens (cfg : NodeConfig) (E : StateEnv σ) (state state' : σ) : Prop :=
  loadState cfg E { state := some state } = .ok state'

lemma opens_iff {state' : σ} : Opens cfg E state state' ↔ E.reopen state = state' ∧
    (cfg.supplyInvariantFailFast = true → E.validateSupplyInvariants state' = .ok ()) := by
  unfold Opens loadState
  cases hfast : cfg.supplyInvariantFailFast with
  | false => simp
  | true =>
    simp only [ok_bind, if_true, bind_eq_ok, pure_eq_ok, Except.ok.injEq]
    constructor
    · rintro ⟨⟨⟩, hvalid, rfl⟩
      exact ⟨rfl, fun _ => hvalid⟩
    · rintro ⟨rfl, hvalid⟩
      exact ⟨(), hvalid trivial, rfl⟩

lemma Opens.again {state' : σ} (h : Opens cfg E state state') : Opens cfg E state' state' := by
  obtain ⟨rfl, hvalid⟩ := opens_iff.mp h
  exact opens_iff.mpr ⟨E.reopen_reopen state, hvalid⟩

lemma opens_of_fresh (h : loadState cfg E {} = .ok state) : Opens cfg E state state := by
  obtain ⟨fresh, hfresh, hrest⟩ := bind_eq_ok.mp h
  have hopens : Opens cfg E fresh state := by
    rw [← E.reopen_fresh hfresh] at hrest
    exact hrest
  exact hopens.again

lemma loadState_some (hstate : s.state = some state) :
    loadState cfg E s = loadState cfg E { state := some state } := by
  simp only [loadState, hstate]

/-- Starting from `s` gives a node with this chain and this state, and starting again from what it
leaves gives the same. -/
def Restarts (cfg : NodeConfig) (env : AdmissionEnv) (E : StateEnv σ) (require : Bool) (s : PersistentStore σ)
    (chain : Blockchain) (state : σ) : Prop :=
  ∃ node s', Node.init cfg env E require (some s) = .ok node ∧ SameChain node.chain chain ∧
    node.state = state ∧ node.store = some s' ∧
    ∃ again, Node.init cfg env E require (some s') = .ok again ∧ SameChain again.chain chain ∧
      again.state = state ∧ again.store = some s'

lemma init_of_openChain {s' : PersistentStore σ}
    (hopen : Node.openChain cfg env E require s = .ok (chain, s')) (hstate : s'.state = some state)
    {node : Node σ} : Node.init cfg env E require (some s) = .ok node ↔
      ∃ state', Opens cfg E state state' ∧
        { chain := chain, state := state', store := some { s' with state := some state' } } = node := by
  simp only [Node.init, hopen, ok_bind, loadState_some hstate, bind_eq_ok, pure_eq_ok, Opens, Except.ok.injEq]

lemma Built.fresh {node : Node σ} (h : Built cfg env E history node) (hempty : history = []) :
    ∃ root, loadState cfg E {} = .ok node.state ∧ E.stateRoot node.state = .ok root := by
  induction h with
  | start hfresh hroot => exact ⟨_, hfresh, hroot⟩
  | finalize => simp at hempty
  | submit h mempool ih => exact ih hempty

lemma Built.freshAllowed {node : Node σ} (h : Built cfg env E history node) (hempty : history = [])
    (hmarker : s.pendingCheckpointCommit = none) (hstate : s.state = some node.state) :
    s.canUseFreshGenesisMetadata cfg E = .ok true := by
  obtain ⟨root, hfresh, hroot⟩ := h.fresh hempty
  have hopens : loadState cfg E s = .ok node.state := (loadState_some hstate).trans (opens_of_fresh hfresh)
  rw [canUseFreshGenesisMetadata, hmarker, hasLogicalEntries, hstate, hopens]
  simp [hfresh, hroot]

/-- What a restart from a loadable store says about its chain and its state. -/
lemma Restarts.opens {chain' : Blockchain} {state' : σ} (h : Restarts cfg env E require s chain' state')
    (hopen : Node.openChain cfg env E require s = .ok (chain, s)) (hstate : s.state = some state) :
    chain.height = chain'.height ∧ Opens cfg E state state' := by
  obtain ⟨node, s', hinit, hsame, rfl, -⟩ := h
  obtain ⟨state', hopens, rfl⟩ := (init_of_openChain hopen hstate).mp hinit
  exact ⟨height_congr hsame.dag, hopens⟩

end Kanari.Proofs

import Mathlib.Logic.Equiv.List
import Kanari.Proofs.ReplayKnowledge

/-!
# Recovery of a pruned history

The hash of a checkpoint covers its transactions, so a replay stops at the first pruned checkpoint
that had any; only the serialized chain survives.
-/

namespace Kanari.Proofs

open Lib Node PersistentStore

variable {σ : Type} {cfg : NodeConfig} {env : AdmissionEnv} {E : StateEnv σ} {history : List Checkpoint}
  {s : PersistentStore σ}

lemma visible_eq_iff {pruned i : Nat} {c : Checkpoint} :
    visible pruned i c = c ↔ i < pruned → c.transactions = [] := by
  obtain ⟨sequence, vertices, transactions, effects, changes, edges, root, timestamp, prev, version⟩ := c
  unfold visible checkpointWithoutTransactions
  split_ifs with hi
  · simp [hi, eq_comm]
  · simp [hi]

def LoadsTo (cfg : NodeConfig) (env : AdmissionEnv) (E : StateEnv σ) (require : Bool) (s : PersistentStore σ)
    (running : Blockchain) : Prop :=
  ∃ chain writes, loadBlockchain cfg env E require s = .ok (chain, writes) ∧ chain.height = running.height ∧
    env.hash chain.latestCheckpoint = env.hash running.latestCheckpoint

lemma loadsTo_of_latest {require : Bool} {running chain : Blockchain}
    {writes : List (PersistentStore σ → PersistentStore σ)}
    (hload : loadBlockchain cfg env E require s = .ok (chain, writes))
    (hlatest : chain.latestCheckpoint = running.latestCheckpoint) : LoadsTo cfg env E require s running :=
  ⟨chain, writes, hload, congrArg Checkpoint.sequence hlatest, by rw [hlatest]⟩

/-- A restored chain ends with the latest checkpoint, which is never pruned. -/
lemma restore_latest {pruned : Nat} {c : Checkpoint} (hrecords : Records (history ++ [c]) pruned s)
    (hpruned : pruned ≤ history.length) (h : Accepted env.toHashEnv (history ++ [c]))
    (hsmall : (history ++ [c]).length < 2 ^ 64) {snapshot : ChainSnapshot}
    (hsnapshot : snapshot = slimSnapshot (chainOf env.toHashEnv (history ++ [c]))) :
    (restoreBlockchain env s snapshot).2.latestCheckpoint = c := by
  have hlast : (history ++ [c])[history.length]? = some c := by simp
  have hhydrate : s.hydrate (checkpointWithoutTransactions c) = c := by
    rw [hrecords.hydrate hlast (h.sequence hsmall hlast), visible_eq_iff]
    omega
  have hget : (restoreBlockchain env s snapshot).2.dagCheckpoints.getLast? = some c := by
    have hretained : (history ++ [c]).rtake (MAX_RETAINED_BLOCKS - 1) =
        history.rtake (MAX_RETAINED_BLOCKS - 2) ++ [c] := List.rtake_concat_succ _ _ _
    rw [(restore_slim s h hsnapshot).2, hretained, List.map_append, ← List.cons_append, List.map_singleton,
      List.getLast?_concat, hhydrate]
  rw [List.getLast?_eq_some_getLast (restoreBlockchain env s snapshot).2.nonempty] at hget
  exact Option.some.inj hget

lemma not_loadsTo_of_lost {require : Bool} {running : Blockchain} (hjson : s.blockchainJson = none)
    (hblockchain : s.blockchain = none) (hlost : recoverBlockchainFromCheckpointStore env s = .ok none)
    (hheight : running.height ≠ 0) : ¬ LoadsTo cfg env E require s running := by
  rintro ⟨chain, writes, hload, hsame, -⟩
  simp only [loadBlockchain, hjson, hblockchain, Option.none_or, hlost, ok_bind, bind_eq_ok, pure_eq_ok,
    Except.ok.injEq, Prod.mk.injEq] at hload
  obtain ⟨fresh, hfresh, rfl, -⟩ := hload
  exact hheight (hsame.symm.trans (freshGenesis_eq hfresh ▸ rfl))

/-- With retention, a restart gives the same height and latest hash, exactly when the serialized
chain is kept or no pruned checkpoint had transactions. -/
theorem pruned_recovery_iff {node : Node σ} {retention : Nat} (hfree : CollisionFree env.toHashEnv)
    (hretention : cfg.historyRetentionCheckpoints = some retention) (hbuilt : Built cfg env E history node)
    (hsmall : history.length < 2 ^ 64) (hstore : node.store = some s) (require : Bool) :
    LoadsTo cfg env E require s node.chain ↔
      cfg.persistBlockchainJsonSnapshotEnabled = true ∨
        ∀ i c, history[i]? = some c → i + 1 + retention ≤ history.length → c.transactions = [] := by
  obtain ⟨s', hs⟩ := hbuilt.storeAgrees hsmall
  obtain rfl : s = s' := Option.some.inj (hstore.symm.trans hs.store)
  have hpositive : 0 < retention := by
    have hfilter := Option.filter_eq_some_iff.mp hretention
    simpa using hfilter.2
  have hrecords := hs.stored.records
  have hmap := hs.stored.blockchainJson
  simp only [prunedCount, hretention] at hrecords
  rw [hs.chain]
  rcases List.eq_nil_or_concat' history with rfl | ⟨older, c, rfl⟩
  · -- nothing was persisted yet
    rw [if_neg (by simp)] at hmap
    refine iff_of_true (loadsTo_of_latest (loadBlockchain_fresh hmap hrecords.noBlockchain
      (hs.stored.unused rfl) fun _ => hbuilt.freshAllowed rfl hs.noMarker hs.state) rfl) (.inr ?_)
    simp
  have hlatest : (chainOf env.toHashEnv (older ++ [c])).latestCheckpoint = c := by
    rw [chainOf_concat]
    exact append_latestCheckpoint _ _ _
  have hlength : (older ++ [c]).length = older.length + 1 := by simp
  cases hjson : cfg.persistBlockchainJsonSnapshotEnabled with
  | true =>
    rw [if_pos ⟨hjson, by simp⟩] at hmap
    refine iff_of_true (loadsTo_of_latest (loadBlockchain_snapshot hmap (restore_slim s hs.accepted rfl).1) ?_)
      (.inl rfl)
    rw [hlatest]
    exact restore_latest hrecords (by omega) hs.accepted hsmall rfl
  | false =>
    rw [if_neg (by simp [hjson])] at hmap
    have hsome : s.recoverCheckpointSequences ≠ [] :=
      List.ne_nil_of_mem ((hrecords.mem_sequences older.length).mpr (by omega))
    simp only [Bool.false_eq_true, false_or]
    constructor
    · -- a checkpoint that lost its transactions breaks the replay
      intro hload i d hd hold
      by_contra hne
      refine not_loadsTo_of_lost hmap hrecords.noBlockchain (hrecords.recover_pruned hfree hs.accepted ?_
        ⟨i, d, hd, fun hvisible => hne (visible_eq_iff.mp hvisible (by omega))⟩) ?_ hload
      · omega
      · intro hzero
        have hheight := hs.accepted.height hsmall
        rw [hzero, hlength] at hheight
        simp at hheight
    · intro hempty
      have hrecover := hrecords.recover hs.accepted (fun i d hd => visible_eq_iff.mpr fun hi =>
        hempty i d hd (by omega)) hsome
      exact loadsTo_of_latest (loadBlockchain_recovered hmap hrecords.noBlockchain hrecover)
        (rebuild_latestCheckpoint _ _)

def coveringEnv : AdmissionEnv :=
  { plainEnv with
    hashPreimage := fun
      | .legacy sequence txHashes _ _ => .ok (Text.leBytes 8 sequence.toNat ++ txHashes.flatten)
      | .withObjects _ sequence _ txHashes _ _ _ _ _ _ | .current _ sequence _ txHashes _ _ _ _ =>
        .ok (Text.leBytes 8 sequence.toNat ++ txHashes.flatten) }

def retainOne : NodeConfig := { historyRetention := some 1 }

def prunedHistory : List Checkpoint :=
  [{ sequence := 1, vertices := [], transactions := [forgottenTx], stateRoot := List.replicate 32 0
     timestamp := 1, prevCheckpointHash := Text.leBytes 8 0 },
   { sequence := 2, vertices := [], transactions := [], stateRoot := List.replicate 32 0
     timestamp := 2, prevCheckpointHash := Text.leBytes 8 1 ++ Text.leBytes 8 7 }]

def prunedStart : Node Unit where
  chain := Blockchain.new coveringEnv.toHashEnv
  state := ()
  store := some { state := some () }

def prunedNode : Node Unit :=
  prunedHistory.foldl (fun node c => finalized retainOne coveringEnv c () node) prunedStart

def prunedStore : PersistentStore Unit := prunedNode.store.getD {}

lemma built_prunedNode : Built retainOne coveringEnv stillState prunedHistory prunedNode := by
  have hstart : Built retainOne coveringEnv stillState [] prunedStart := .start rfl rfl
  have hfirst : finalizeCheckpoint retainOne coveringEnv stillState none prunedHistory[0] () true prunedStart =
      (.ok (), finalized retainOne coveringEnv prunedHistory[0] () prunedStart) :=
    finalizeCheckpoint_accepts rfl (validateNext_eq_ok.mp (by decide +kernel))
  have hsecond : finalizeCheckpoint retainOne coveringEnv stillState none prunedHistory[1] () true
      (finalized retainOne coveringEnv prunedHistory[0] () prunedStart) = (.ok (), prunedNode) :=
    finalizeCheckpoint_accepts rfl (validateNext_eq_ok.mp (by decide +kernel))
  exact (hstart.finalize hfirst).finalize hsecond

/-- Retention of one checkpoint, a transaction in the first of two checkpoints: the restarted
node is at genesis. -/
theorem pruned_recovery_loses_chain :
    Built retainOne coveringEnv stillState prunedHistory prunedNode ∧ prunedNode.chain.height = 2 ∧
      prunedNode.store = some prunedStore ∧ ∃ chain writes,
        loadBlockchain retainOne coveringEnv stillState false prunedStore = .ok (chain, writes) ∧
          chain.height = 0 := by
  obtain ⟨⟨chain, writes⟩, hload, hheight⟩ :=
    exists_of_okAnd (x := loadBlockchain retainOne coveringEnv stillState false prunedStore)
      (p := fun r => r.1.height == 0) (by decide +kernel)
  exact ⟨built_prunedNode, by decide +kernel, rfl, chain, writes, hload, by simpa using hheight⟩

/-- The fields of a preimage; the number of lists tells the formats apart. -/
def preimageFields : CheckpointPreimage → List UInt64 × List (List Bytes)
  | .legacy sequence txHashes stateRoot prevCheckpointHash =>
    ([sequence], [txHashes, [stateRoot, prevCheckpointHash]])
  | .withObjects hashVersion sequence vertices txHashes transactionEffects objectChanges objectGraphEdges
      stateRoot timestamp prevCheckpointHash =>
    ([sequence, timestamp], [vertices, txHashes, transactionEffects, objectChanges, objectGraphEdges,
      [[hashVersion], stateRoot, prevCheckpointHash]])
  | .current hashVersion sequence vertices txHashes transactionEffects stateRoot timestamp prevCheckpointHash =>
    ([sequence, timestamp], [vertices, txHashes, transactionEffects,
      [[hashVersion], stateRoot, prevCheckpointHash]])

lemma preimageFields_injective : Function.Injective preimageFields := by
  intro p q h
  cases p <;> cases q <;> simp_all [preimageFields]

instance encodableWord : Encodable UInt64 := .ofLeftInverse UInt64.toNat UInt64.ofNat fun _ => UInt64.ofNat_toNat

instance encodableBytes : Encodable Bytes :=
  letI : Encodable UInt8 := .ofLeftInverse UInt8.toNat UInt8.ofNat fun _ => UInt8.ofNat_toNat
  inferInstanceAs (Encodable (List UInt8))

/-- A digest for every preimage, no two of them equal. -/
def preimageDigest (p : CheckpointPreimage) : Bytes :=
  List.replicate (Encodable.encode (preimageFields p)) 0

def injectiveEnv : AdmissionEnv :=
  { plainEnv with hashPreimage := fun p => .ok (preimageDigest p) }

lemma collisionFree_injectiveEnv : CollisionFree injectiveEnv.toHashEnv := by
  intro p q digest hp hq
  have hdigest : preimageDigest p = preimageDigest q := Except.ok.inj (hp.trans hq.symm)
  exact preimageFields_injective (Encodable.encode_injective (List.replicate_left_injective _ hdigest))

def nextLinked (transactions : List SignedTransaction) (chain : Blockchain) : Checkpoint :=
  { nextCheckpoint transactions chain with
    prevCheckpointHash := preimageDigest (injectiveEnv.preimage chain.latestCheckpoint) }

lemma continues_nextLinked {transactions : List SignedTransaction} {chain : Blockchain}
    (hnodup : (transactions.map injectiveEnv.transactionHash).Nodup)
    (hfresh : ∀ x ∈ transactions.map injectiveEnv.transactionHash, x ∉ chain.executedTxHashes) :
    Continues injectiveEnv.toHashEnv chain (nextLinked transactions chain) :=
  ⟨rfl, rfl, hnodup, hfresh⟩

def keepOne : NodeConfig := { historyRetention := some 1, persistBlockchainJson := some true }

def linkedStart : Node Unit := { prunedStart with chain := Blockchain.new injectiveEnv.toHashEnv }

def linkedFirst (cfg : NodeConfig) : Node Unit :=
  finalized cfg injectiveEnv (nextLinked [forgottenTx] linkedStart.chain) () linkedStart

def linkedNode (cfg : NodeConfig) : Node Unit :=
  finalized cfg injectiveEnv (nextLinked [] (linkedFirst cfg).chain) () (linkedFirst cfg)

def linkedHistory (cfg : NodeConfig) : List Checkpoint :=
  [nextLinked [forgottenTx] linkedStart.chain, nextLinked [] (linkedFirst cfg).chain]

lemma built_linkedNode (cfg : NodeConfig) :
    Built cfg injectiveEnv stillState (linkedHistory cfg) (linkedNode cfg) := by
  have hstart : Built cfg injectiveEnv stillState [] linkedStart := .start (by
    unfold loadState
    split_ifs <;> rfl) rfl
  have hfirst : Built cfg injectiveEnv stillState _ (linkedFirst cfg) :=
    hstart.append rfl (continues_nextLinked (List.nodup_singleton _) fun x _ => Finset.notMem_empty x)
  exact hfirst.append rfl (continues_nextLinked List.nodup_nil (by simp))

/-- A transaction in the first of two checkpoints, of which the last is retained: the chain comes
back where it is also kept in one piece, and not from the records alone. -/
theorem pruned_recovery_linked :
    (linkedHistory keepOne).map (·.transactions) = [[forgottenTx], []] ∧
      (∃ s, (linkedNode keepOne).store = some s ∧ s.loadCheckpointTransactions 1 = none ∧
        LoadsTo keepOne injectiveEnv stillState true s (linkedNode keepOne).chain) ∧
      ∃ s, (linkedNode retainOne).store = some s ∧ s.loadCheckpointTransactions 1 = none ∧
        ¬ LoadsTo retainOne injectiveEnv stillState true s (linkedNode retainOne).chain := by
  refine ⟨rfl, ⟨_, rfl, rfl, ?_⟩, ⟨_, rfl, rfl, fun hloads => ?_⟩⟩
  · exact (pruned_recovery_iff collisionFree_injectiveEnv rfl (built_linkedNode _) (by decide) rfl true).mpr (.inl rfl)
  · rcases (pruned_recovery_iff collisionFree_injectiveEnv rfl (built_linkedNode _) (by decide) rfl true).mp hloads
      with hjson | hempty
    · cases hjson
    · cases hempty 0 _ rfl (by decide)

end Kanari.Proofs

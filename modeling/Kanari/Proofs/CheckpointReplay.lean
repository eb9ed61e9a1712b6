import Kanari.Proofs.CheckpointRecords
import Mathlib.Data.List.Sort

/-!
# Loading the chain of a store

Replaying the records gives the chain of the history, as long as no checkpoint with transactions has
lost them. A serialized chain is restored without being checked.
-/

namespace Kanari.Proofs

open Lib Node PersistentStore

variable {σ : Type} {cfg : NodeConfig} {env : AdmissionEnv} {E : StateEnv σ} {history : List Checkpoint}
  {s : PersistentStore σ} {pruned : Nat}

lemma mem_recoverCheckpointSequences {n : Nat} : n ∈ s.recoverCheckpointSequences ↔
    s.checkpointMetadata.contains n = true ∨ s.checkpointMetadataJson.contains n = true ∨
      s.checkpointTransactions.contains n = true := by
  unfold recoverCheckpointSequences
  rw [OrdSet.mem_elems, OrdSet.contains_addAll]
  simp only [List.mem_append, OrdMap.mem_keys]
  simp [OrdMap.contains, or_assoc]

lemma Records.mem_sequences (h : Records history pruned s) (i : Nat) :
    i + 1 ∈ s.recoverCheckpointSequences ↔ i < history.length := by
  rw [mem_recoverCheckpointSequences]
  simp only [OrdMap.contains, h.metadata, h.noMetadataJson, h.transactions]
  constructor
  · rintro (hmetadata | hjson | htransactions)
    · simpa using hmetadata
    · simp at hjson
    · by_contra hlt
      rw [List.getElem?_eq_none (Nat.le_of_not_lt hlt)] at htransactions
      simp at htransactions
  · intro hlt
    exact .inl (by simpa using hlt)

lemma Records.sequences (h : Records history pruned s) :
    s.recoverCheckpointSequences.filter (· ≠ 0) = List.range' 1 history.length := by
  have hsorted : (s.recoverCheckpointSequences.filter (· ≠ 0)).Pairwise (· < ·) :=
    (OrdMap.sorted_keys _).filter _
  refine List.Perm.eq_of_pairwise (fun _ _ _ _ hab hba => absurd hab (Nat.lt_asymm hba))
    hsorted (List.pairwise_lt_range' ..) ?_
  refine (List.perm_ext_iff_of_nodup (hsorted.imp Nat.ne_of_lt) List.nodup_range').mpr fun n => ?_
  rw [List.mem_filter, List.mem_range'_1]
  cases n with
  | zero => simp
  | succ i =>
    rw [h.mem_sequences]
    simp
    omega

lemma recoverFrom_filter (env : AdmissionEnv) (s : PersistentStore σ) (chain : Blockchain) (sequences : List Nat) :
    recoverFrom env s chain sequences = recoverFrom env s chain (sequences.filter (· ≠ 0)) := by
  induction sequences generalizing chain with
  | nil => rfl
  | cons n rest ih =>
    cases n with
    | zero => simpa [recoverFrom] using ih chain
    | succ n =>
      rw [List.filter_cons_of_pos (by simp)]
      simp only [recoverFrom, Nat.succ_ne_zero, if_false]
      congr 1
      funext found
      cases found with
      | none => rfl
      | some c =>
        simp only
        split
        · rfl
        · exact ih _

def visible (pruned i : Nat) (c : Checkpoint) : Checkpoint :=
  if i < pruned then checkpointWithoutTransactions c else c

variable {i : Nat} {c : Checkpoint} {later : List Checkpoint} {H : HashEnv} {chain : Blockchain}

lemma Records.attach (h : Records history pruned s) (hc : history[i]? = some c) :
    s.attachTransactions (i + 1) (checkpointWithoutTransactions c) = visible pruned i c := by
  have hload : s.loadCheckpointTransactions (i + 1) = if i < pruned then none else storedTransactions c := by
    rw [loadCheckpointTransactions, h.transactions, hc]
    rfl
  obtain ⟨sequence, vertices, transactions, effects, changes, edges, root, timestamp, prev, version⟩ := c
  simp only [attachTransactions, checkpointWithoutTransactions, List.isEmpty_nil, if_true, hload, visible]
  split_ifs with hi
  · rfl
  · cases transactions <;> rfl

lemma Records.recoverFrom_cons (h : Records history pruned s) (hc : history[i]? = some c)
    (chain : Blockchain) (rest : List Nat) :
    recoverFrom env s chain ((i + 1) :: rest) =
      match chain.addCheckpointWithValidation env.toHashEnv (visible pruned i c) true with
      | (.error _, _) => .ok none
      | (.ok _, chain) => recoverFrom env s chain rest := by
  have hmetadata : recoverMetadata env s chain (i + 1) = .ok (some (checkpointWithoutTransactions c)) := by
    simp only [recoverMetadata, loadCheckpointMetadata, h.noMetadataJson, OrdMap.find?_empty, h.metadata, hc,
      Option.map_some, Option.none_or]
  rw [recoverFrom, if_neg (Nat.succ_ne_zero i), hmetadata, ok_bind]
  simp only [h.attach hc]
  rfl

lemma Records.recoverFrom_append {older newer : List Checkpoint}
    (hall : Records (older ++ newer ++ later) pruned s)
    (h : Accepted env.toHashEnv (older ++ newer))
    (hvisible : ∀ i c, newer[i]? = some c → visible pruned (older.length + i) c = c)
    (rest : List Nat) :
    recoverFrom env s (chainOf env.toHashEnv older) (List.range' (older.length + 1) newer.length ++ rest) =
      recoverFrom env s (chainOf env.toHashEnv (older ++ newer)) rest := by
  induction newer generalizing older with
  | nil => simp
  | cons c newer ih =>
    have hget : (older ++ c :: newer ++ later)[older.length]? = some c := by simp
    have hc := h older c newer rfl
    rw [List.length_cons, List.range'_succ, List.cons_append, hall.recoverFrom_cons hget,
      show visible pruned older.length c = c from hvisible 0 c rfl, addCheckpoint_accepts hc]
    simp only
    rw [← chainOf_concat]
    have hassoc : older ++ c :: newer = (older ++ [c]) ++ newer := by simp
    rw [hassoc] at hall h ⊢
    have hnext := ih hall h fun i d hd => by
      rw [List.length_append, List.length_singleton, Nat.add_assoc, Nat.add_comm 1 i]
      exact hvisible (i + 1) d hd
    rw [List.length_append, List.length_singleton] at hnext
    exact hnext

lemma Records.recoverFrom_new {newer : List Checkpoint} (hall : Records (newer ++ later) pruned s)
    (h : Accepted env.toHashEnv newer)
    (hvisible : ∀ i c, newer[i]? = some c → visible pruned i c = c) (rest : List Nat) :
    recoverFrom env s (Blockchain.new env.toHashEnv) (List.range' 1 newer.length ++ rest) =
      recoverFrom env s (chainOf env.toHashEnv newer) rest := by
  have hreplay : recoverFrom env s (chainOf env.toHashEnv [])
      (List.range' (([] : List Checkpoint).length + 1) newer.length ++ rest) =
      recoverFrom env s (chainOf env.toHashEnv ([] ++ newer)) rest :=
    Records.recoverFrom_append hall h
      (fun i c hc => by rw [List.length_nil, Nat.zero_add]; exact hvisible i c hc) rest
  exact hreplay

lemma recover_eq (env : AdmissionEnv) (hall : Records history pruned s)
    (hsome : s.recoverCheckpointSequences ≠ []) :
    recoverBlockchainFromCheckpointStore env s =
      (recoverFrom env s (Blockchain.new env.toHashEnv) (List.range' 1 history.length) >>= fun recovered =>
        .ok (recovered.map (Blockchain.rebuildTxHashIndex env.toHashEnv))) := by
  rw [recoverBlockchainFromCheckpointStore, if_neg (by simpa using hsome), recoverFrom_filter, hall.sequences]
  rfl

lemma Records.recover (hall : Records history pruned s) (h : Accepted env.toHashEnv history)
    (hvisible : ∀ i c, history[i]? = some c → visible pruned i c = c)
    (hsome : s.recoverCheckpointSequences ≠ []) :
    recoverBlockchainFromCheckpointStore env s =
      .ok (some ((chainOf env.toHashEnv history).rebuildTxHashIndex env.toHashEnv)) := by
  have hall' : Records (history ++ []) pruned s := by rwa [List.append_nil]
  have hreplay := hall'.recoverFrom_new h hvisible []
  rw [List.append_nil] at hreplay
  rw [recover_eq env hall hsome, hreplay]
  rfl

/-- Different preimages have different hashes. -/
def CollisionFree (H : HashEnv) : Prop :=
  ∀ p q digest, H.hashPreimage p = .ok digest → H.hashPreimage q = .ok digest → p = q

lemma preimage_txHashes {d : Checkpoint} (h : H.preimage c = H.preimage d) :
    H.txHashes c = H.txHashes d := by
  unfold HashEnv.preimage at h
  split_ifs at h <;> injection h

/-- The next checkpoint does not fit a predecessor without its transactions. -/
lemma stripped_rejects (hfree : CollisionFree H) {d : Checkpoint}
    (hlink : H.hash c = .ok d.prevCheckpointHash) (hne : c.transactions ≠ [])
    (hlatest : chain.latestCheckpoint = checkpointWithoutTransactions c) :
    ¬ Continues H chain d := by
  intro hd
  have hprev := hd.prevHash
  rw [hlatest] at hprev
  have hhashes := preimage_txHashes (hfree _ _ _ hlink hprev)
  simp only [HashEnv.txHashes, checkpointWithoutTransactions, List.map_nil, List.map_eq_nil_iff] at hhashes
  exact hne hhashes

/-- The first checkpoint with transactions that has lost them ends the replay without a chain. -/
lemma Records.recover_pruned (hfree : CollisionFree env.toHashEnv) (hall : Records history pruned s)
    (h : Accepted env.toHashEnv history) (hpruned : pruned < history.length)
    (hlost : ∃ i c, history[i]? = some c ∧ visible pruned i c ≠ c) :
    recoverBlockchainFromCheckpointStore env s = .ok none := by
  classical
  obtain ⟨c, hc, hne⟩ := Nat.find_spec hlost
  have hfirst : ∀ j d, j < Nat.find hlost → history[j]? = some d → visible pruned j d = d := by
    intro j d hj hd
    by_contra hd'
    exact Nat.find_min hlost hj ⟨d, hd, hd'⟩
  generalize Nat.find hlost = i at hc hne hfirst
  have hi : i < pruned := by
    by_contra hi
    exact hne (if_neg hi)
  have hstripped : visible pruned i c = checkpointWithoutTransactions c := if_pos hi
  have htransactions : c.transactions ≠ [] := by
    intro hnil
    apply hne
    rw [hstripped]
    obtain ⟨sequence, vertices, transactions, effects, changes, edges, root, timestamp, prev, version⟩ := c
    obtain rfl : transactions = [] := hnil
    rfl
  -- the successor is there, and its previous hash is that of the whole checkpoint
  obtain ⟨d, hd⟩ : ∃ d, history[i + 1]? = some d := ⟨_, List.getElem?_eq_getElem (by omega)⟩
  have hlink : env.hash c = .ok d.prevCheckpointHash := by
    have hpair := (List.isChain_iff_getElem.mp h.represents.linked (i + 1) (by simp; omega)).2
    simp only [List.getElem_cons_succ] at hpair
    rwa [(List.getElem?_eq_some_iff.mp hc).2, (List.getElem?_eq_some_iff.mp hd).2] at hpair
  have hpre : (history.take i).length = i := by
    rw [List.length_take]
    omega
  have htake : Records (history.take i ++ history.drop i) pruned s := by rwa [List.take_append_drop]
  obtain ⟨k, hk⟩ : ∃ k, history.length = i + (k + 2) := ⟨history.length - i - 2, by omega⟩
  have hrange : List.range' 1 history.length =
      List.range' 1 (history.take i).length ++ (i + 1) :: (i + 2) :: List.range' (i + 3) k := by
    rw [hpre, hk, ← List.range'_append_1, List.range'_succ, List.range'_succ, Nat.add_comm 1 i]
  have hsome : s.recoverCheckpointSequences ≠ [] := List.ne_nil_of_mem ((hall.mem_sequences i).mpr (by omega))
  rw [recover_eq env hall hsome, hrange, htake.recoverFrom_new (Accepted.of_append
    (by rwa [List.take_append_drop])) (fun j e he => ?_), hall.recoverFrom_cons hc, hstripped]
  · rcases addCheckpoint_cases env.toHashEnv (chainOf env.toHashEnv (history.take i))
      (checkpointWithoutTransactions c) with ⟨-, heq⟩ | ⟨e, heq⟩
    · rw [heq]
      simp only
      rw [hall.recoverFrom_cons hd]
      have hreject : ¬ Continues env.toHashEnv ((chainOf env.toHashEnv (history.take i)).append env.toHashEnv
          (checkpointWithoutTransactions c)) (visible pruned (i + 1) d) := by
        refine stripped_rejects hfree (hlink.trans ?_) htransactions (append_latestCheckpoint _ _ _)
        unfold visible
        split_ifs <;> rfl
      rcases addCheckpoint_cases env.toHashEnv ((chainOf env.toHashEnv (history.take i)).append env.toHashEnv
          (checkpointWithoutTransactions c)) (visible pruned (i + 1) d) with ⟨hcont, -⟩ | ⟨e, heq⟩
      · exact absurd hcont hreject
      · rw [heq]
        rfl
    · rw [heq]
      rfl
  · have hj : j < i := by
      have := (List.getElem?_eq_some_iff.mp he).1
      omega
    rw [List.getElem?_take_of_lt hj] at he
    exact hfirst j e hj he

lemma slimSnapshot_dagCheckpoints (chain : Blockchain) :
    (slimSnapshot chain).dagCheckpoints = chain.dagCheckpoints.map checkpointWithoutTransactions := by
  refine List.map_congr_left fun c _ => ?_
  obtain ⟨sequence, vertices, transactions, effects, changes, edges, root, timestamp, prev, version⟩ := c
  cases transactions <;> rfl

lemma Records.hydrate (hall : Records history pruned s) (hc : history[i]? = some c)
    (hseq : c.sequence.toNat = i + 1) :
    s.hydrate (checkpointWithoutTransactions c) = visible pruned i c := by
  have hne : c.sequence ≠ 0 := by
    intro heq
    rw [heq] at hseq
    simp at hseq
  have hattach := hall.attach hc
  rw [← hseq] at hattach
  simp only [PersistentStore.hydrate, checkpointWithoutTransactions, hne, if_false]
  exact hattach

/-- The chain of `history` after a reload, with the hashes its checkpoints contain. -/
structure Reloaded (H : HashEnv) (history : List Checkpoint) (chain : Blockchain) : Prop
    extends SameChain chain (chainOf H history) where
  executed : chain.executedTxHashes = ((chainOf H history).rebuildTxHashIndex H).executedTxHashes

lemma Accepted.reloaded (h : Accepted H history) :
    Reloaded H history ((chainOf H history).rebuildTxHashIndex H) := ⟨⟨rfl, h.rebuilt_count rfl rfl⟩, rfl⟩

lemma Reloaded.continues (hchain : Reloaded H history chain) (h : Accepted H history)
    (hc : Continues H (chainOf H history) c) : Continues H chain c where
  sequence := by rw [height_congr hchain.dag]; exact hc.sequence
  prevHash := by rw [latestCheckpoint_congr hchain.dag]; exact hc.prevHash
  nodup := hc.nodup
  fresh := fun x hx hmem => hc.fresh x hx (h.rebuilt_subset (hchain.executed ▸ hmem))

lemma rebuild_executed_congr (H : HashEnv) {chain' : Blockchain}
    (h : chain.dagCheckpoints = chain'.dagCheckpoints) :
    (chain.rebuildTxHashIndex H).executedTxHashes = (chain'.rebuildTxHashIndex H).executedTxHashes := by
  simp only [Blockchain.rebuildTxHashIndex, Blockchain.withHashIndex, h]

lemma restore_slim (s : PersistentStore σ) (h : Accepted env.toHashEnv history) {snapshot : ChainSnapshot}
    (hsnapshot : snapshot = slimSnapshot (chainOf env.toHashEnv history)) :
    (restoreBlockchain env s snapshot).1 = false ∧
      (restoreBlockchain env s snapshot).2.dagCheckpoints = env.genesis ::
        (history.rtake (MAX_RETAINED_BLOCKS - 1)).map fun c => s.hydrate (checkpointWithoutTransactions c) := by
  replace hsnapshot := congrArg ChainSnapshot.dagCheckpoints hsnapshot
  rw [slimSnapshot_dagCheckpoints, h.represents.retained, List.map_cons] at hsnapshot
  have hfirst : Blockchain.ensureGenesisRetained env.toHashEnv snapshot.dagCheckpoints =
      (false, env.genesis, (history.rtake (MAX_RETAINED_BLOCKS - 1)).map checkpointWithoutTransactions) := by
    have hgenesis : checkpointWithoutTransactions env.genesis = env.genesis := rfl
    rw [hsnapshot, hgenesis, Blockchain.ensureGenesisRetained,
      if_pos (show env.genesis.sequence = 0 from rfl)]
  simp only [restoreBlockchain, hfirst, rebuild_dagCheckpoints, List.map_map]
  exact ⟨trivial, rfl⟩

lemma Records.restore (hall : Records (history ++ later) 0 s) (h : Accepted env.toHashEnv history)
    (hsmall : history.length < 2 ^ 64) {snapshot : ChainSnapshot}
    (hsnapshot : snapshot = slimSnapshot (chainOf env.toHashEnv history)) :
    (restoreBlockchain env s snapshot).1 = false ∧
      Reloaded env.toHashEnv history (restoreBlockchain env s snapshot).2 := by
  obtain ⟨hrepaired, hdag⟩ := restore_slim s h hsnapshot
  have hsame : (restoreBlockchain env s snapshot).2.dagCheckpoints =
      (chainOf env.toHashEnv history).dagCheckpoints := by
    rw [hdag, h.represents.retained]
    refine congrArg (env.genesis :: ·) ((List.map_congr_left fun c hc => ?_).trans (List.map_id _))
    obtain ⟨i, hi⟩ := List.getElem?_of_mem ((rtake_isSuffix _ _).subset hc)
    have hlt := (List.getElem?_eq_some_iff.mp hi).1
    rw [hall.hydrate (by rw [List.getElem?_append_left hlt, hi]) (h.sequence hsmall hi)]
    rfl
  refine ⟨hrepaired, ⟨hsame, h.rebuilt_count hsame (by rw [hsnapshot]; rfl)⟩, ?_⟩
  rw [← rebuild_executed_congr env.toHashEnv hsame]
  exact rebuild_executed_congr env.toHashEnv rfl

end Kanari.Proofs

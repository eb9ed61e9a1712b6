import Kanari.Proofs.CrashRecovery
import Kanari.Proofs.SnapshotImport

/-!
# Snapshots restore the node

A node started on the file has the same chain and the same state, if opening the state has nothing
to repair and nothing to refuse.
-/

namespace Kanari.Proofs

open Lib Node

variable {σ : Type} {cfg : NodeConfig} {env : AdmissionEnv} {E : StateEnv σ} {S : SnapshotEnv σ}
  {history : List Checkpoint} {node : Node σ} {network : String} {snapshot : StateSnapshot}

lemma Built.started (h : Built cfg env E history node) : ∃ state, PersistentStore.loadState cfg E {} = .ok state := by
  induction h with
  | start hfresh _ => exact ⟨_, hfresh⟩
  | finalize _ _ ih => exact ih
  | submit _ _ ih => exact ih

lemma genesisManifest_eq {H : HashEnv} {chain : Blockchain} (h : Represents H history chain) (network : String) :
    genesisManifest H chain network = genesisManifest H (.new H) network := by
  have hnew : (Blockchain.new H).dagCheckpoints = [H.genesis] := rfl
  unfold genesisManifest
  rw [h.retained, hnew, List.find?_cons_of_pos rfl, List.find?_cons_of_pos rfl]

lemma validate_own_manifest {H : HashEnv} {manifest : GenesisManifest}
    (h : genesisManifest H (.new H) network = .ok manifest) :
    validateGenesisManifest H (.new H) manifest network = .ok () := by
  have hversion : compatibleProtocolVersion PROTOCOL_VERSION PROTOCOL_VERSION = true := by decide +kernel
  have hsame := h
  obtain rfl := Except.ok.inj h
  unfold validateGenesisManifest
  simp only [hsame, hversion, beq_self_eq_true, ensure_true, ok_bind]

lemma decodeHexText_hexText (bytes : Bytes) (message : String) : decodeHexText (hexText bytes) message = .ok bytes :=
  decodeHexText_eq_ok.mpr (decode_hexText rfl)

lemma decode_entries (raw : List (Bytes × Bytes)) :
    (raw.map fun e => SnapshotEntry.mk (hexText e.1) (hexText e.2)).mapM decodeEntry = .ok raw := by
  induction raw with
  | nil => rfl
  | cons e raw ih =>
    rw [List.map_cons, List.mapM_cons, ih]
    simp only [decodeEntry, decodeHexText_hexText, ok_bind]
    rfl

lemma rootsConsistent (height : UInt64) (recorded root : Bytes) :
    (height == 0 || (decide (0 < height) && recorded != root) || recorded == root) = true := by
  by_cases hroot : recorded = root
  · simp [hroot]
  · simp [hroot, UInt64.pos_iff_ne_zero, em]

/-- A snapshot of a node whose state opens as it is restores its chain and its state in an empty
directory. -/
theorem snapshot_round_trip (hretention : cfg.historyRetentionCheckpoints = none)
    (hbuilt : Built cfg env E history node) (hsmall : history.length < 2 ^ 64)
    (hopens : Opens cfg E node.state node.state)
    (hraw : ∀ raw s, S.logicalEntries node = .ok raw → node.store = some s → S.openStore raw = s)
    {overlay : List (Bytes × Bytes)} {allow : Bool}
    (hexport : exportStateSnapshotWithOptions env E S node overlay network allow = .ok snapshot) :
    ∃ imported, importStateSnapshot cfg env E S snapshot [] network snapshot.checkpointHash = .ok imported ∧
      SameChain imported.chain node.chain ∧ imported.state = node.state := by
  obtain ⟨s, hagrees⟩ := hbuilt.storeAgrees hsmall
  obtain ⟨start, hstart⟩ := hbuilt.started
  have hrepresents : Represents env.toHashEnv history node.chain := hagrees.chain ▸ hagrees.accepted.represents
  unfold exportStateSnapshotWithOptions at hexport
  obtain ⟨genesis, hgenesis, h⟩ := bind_eq_ok.mp hexport
  obtain ⟨⟨⟩, -, h⟩ := bind_eq_ok.mp h
  obtain ⟨root, hroot, h⟩ := bind_eq_ok.mp h
  obtain ⟨⟨⟩, -, h⟩ := bind_eq_ok.mp h
  obtain ⟨raw, hentries, h⟩ := bind_eq_ok.mp h
  obtain ⟨digest, hdigest, h⟩ := bind_eq_ok.mp h
  obtain ⟨entriesHash, hentriesHash, h⟩ := bind_eq_ok.mp h
  obtain rfl := Except.ok.inj h
  clear hexport
  obtain ⟨chain, hopen, hchain⟩ := hagrees.stored.openChain E false hretention
    hagrees.accepted hsmall hagrees.noMarker fun _ h => nomatch h
  have hinit := (init_of_openChain hopen hagrees.state).mpr ⟨_, hopens, rfl⟩
  have hsame : SameChain chain node.chain := hagrees.chain ▸ hchain.toSameChain
  have hlatest := latestCheckpoint_congr hsame.dag
  rw [genesisManifest_eq hrepresents] at hgenesis
  have hverifier : Node.init cfg env E false none =
      .ok { chain := .new env.toHashEnv, state := start, store := none } := by
    simp only [Node.init, hstart, ok_bind]
    rfl
  refine ⟨⟨chain, node.state, some { s with state := some node.state }, {}⟩, ?_, hsame, rfl⟩
  -- every check of the file compares a value with itself, the two roots apart
  simp only [importStateSnapshot, importStateSnapshotInner, readSnapshot, checkPinnedHash, hverifier,
    validate_own_manifest hgenesis, hentriesHash, decode_entries, decodeHexText_hexText, rootsConsistent,
    List.isEmpty_nil, hraw raw s hentries hagrees.store, hinit, checkImported, hlatest, hdigest, hroot,
    beq_self_eq_true, ensure_true, ok_bind, pure_eq_ok]

/-- Raw entries: the state, the root of the checkpoint numbered 1, and the progress mark. -/
def entriesEnv : SnapshotEnv Bytes where
  snapshotEntriesHash := fun entries => .ok (String.join (entries.map fun e => e.key ++ e.value))
  openStore := fun raw =>
    { state := raw.lookup [0]
      checkpointMetadata := ((raw.lookup [1]).map fun root =>
        OrdMap.empty.insert 1 { committedCheckpoint with stateRoot := root }).getD .empty
      historyPersistedThrough := (raw.lookup [2]).map List.length }
  logicalEntries := fun node => do
    let s ← orError node.store "no store"
    return (s.state.map ([0], ·)).toList ++ ((s.checkpointMetadata.find? 1).map ([1], ·.stateRoot)).toList ++
      (s.historyPersistedThrough.map ([2], List.replicate · 0)).toList

def rootNode : Node Bytes where
  chain := Blockchain.new plainEnv.toHashEnv
  state := List.replicate 32 0
  store := some { state := some (List.replicate 32 0) }

theorem snapshot_round_trip_first :
    let node := finalized {} plainEnv committedCheckpoint (List.replicate 32 1) rootNode
    ∃ snapshot imported,
      exportStateSnapshotWithOptions plainEnv rootState entriesEnv node [] "devnet" false = .ok snapshot ∧
      importStateSnapshot {} plainEnv rootState entriesEnv snapshot [] "devnet" snapshot.checkpointHash =
        .ok imported ∧
      imported.chain.dagCheckpoints = [plainEnv.genesis, committedCheckpoint] ∧
      imported.state = List.replicate 32 1 := by
  intro node
  have hnext : Continues plainEnv.toHashEnv rootNode.chain committedCheckpoint :=
    validateNext_eq_ok.mp (by decide +kernel)
  have hstep : finalizeCheckpoint {} plainEnv rootState none committedCheckpoint (List.replicate 32 1) true
      rootNode = (.ok (), node) := finalizeCheckpoint_accepts rfl hnext
  obtain ⟨snapshot, hexport, -⟩ := exists_of_okAnd (p := fun _ => true)
    (x := exportStateSnapshotWithOptions plainEnv rootState entriesEnv node [] "devnet" false) rfl
  have hraw : ∀ raw s, entriesEnv.logicalEntries node = .ok raw → node.store = some s →
      entriesEnv.openStore raw = s := by
    rintro raw s hraw hs
    obtain rfl := Except.ok.inj hraw
    obtain rfl := Option.some.inj hs
    rfl
  obtain ⟨imported, himport, hsame, hstate⟩ := snapshot_round_trip rfl (.finalize (.start rfl rfl) hstep)
    (by decide) rfl hraw hexport
  exact ⟨snapshot, imported, hexport, himport, hsame.dag, hstate⟩

end Kanari.Proofs

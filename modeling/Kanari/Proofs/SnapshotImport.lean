import Kanari.Proofs.CheckpointAtomicity
import Kanari.Snapshot

/-!
# What a pinned checkpoint hash binds

The state is the one that the pinned checkpoint commits to where the two roots recorded in the file
agree; the file itself can switch that comparison off.
-/

namespace Kanari.Proofs

open Lib Node

variable {σ : Type} {cfg : NodeConfig} {env : AdmissionEnv} {E : StateEnv σ} {S : SnapshotEnv σ}

/-- The chain ends in the checkpoint with the given hash, and the state has the root of that
checkpoint. -/
structure BoundTo (env : AdmissionEnv) (E : StateEnv σ) (expected : String) (node : Node σ) : Prop where
  hash : ∃ digest, env.hash node.chain.latestCheckpoint = .ok digest ∧ Hex.encode digest = normalizeHash expected
  root : 0 < node.chain.latestCheckpoint.sequence →
    E.stateRoot node.state = .ok node.chain.latestCheckpoint.stateRoot

def RootsAgree (snapshot : StateSnapshot) : Prop :=
  snapshot.checkpointHeight = 0 ∨ snapshot.stateRootMigrated = false ∨
    Hex.decode snapshot.checkpointStateRoot.toList = Hex.decode snapshot.stateRoot.toList

lemma isHexDigit_range {c : Char} (h : Hex.isHexDigit c = true) : c ≠ 'x' := by
  rintro rfl
  exact absurd h (by decide)

lemma toLower_of_hexDigit {n : Nat} (hn : n < 16) : (Hex.hexDigit n).toLower = Hex.hexDigit n := by
  interval_cases n <;> decide

lemma map_toLower_encode (bytes : Bytes) : (Hex.encode bytes).map Char.toLower = Hex.encode bytes := by
  induction bytes with
  | nil => rfl
  | cons b bs ih =>
    have hb : b.toNat < 256 := b.toNat_lt
    simp only [Hex.encode, List.map_cons, ih, toLower_of_hexDigit (show b.toNat / 16 < 16 by omega),
      toLower_of_hexDigit (show b.toNat % 16 < 16 from Nat.mod_lt _ (by decide))]

lemma normalizeHash_hexText (bytes : Bytes) : normalizeHash (hexText bytes) = Hex.encode bytes := by
  have hplain : ∀ c ∈ Hex.encode bytes, Text.isWhitespace c = false := fun c hc =>
    not_whitespace_of_isHexDigit (Hex.isHexDigit_of_mem_encode hc)
  have hbare : AdmissionEnv.trimStart0x (Hex.encode bytes) = Hex.encode bytes := by
    unfold AdmissionEnv.trimStart0x
    split
    · rename_i rest heq
      have hx : 'x' ∈ Hex.encode bytes := by rw [heq]; simp
      exact absurd rfl (isHexDigit_range (Hex.isHexDigit_of_mem_encode hx))
    · rfl
  rw [normalizeHash, hexText, String.toList_ofList, Text.trim_of_no_whitespace hplain, hbare, map_toLower_encode]

lemma decodeHexText_eq_ok {text message : String} {bytes : Bytes} :
    decodeHexText text message = .ok bytes ↔ Hex.decode text.toList = some bytes := orError_eq_ok

lemma decode_hexText {bytes : Bytes} {text : String} (h : hexText bytes = text) :
    Hex.decode text.toList = some bytes := by
  rw [← h, hexText, String.toList_ofList, Hex.decode_encode]

lemma readSnapshot_ok {snapshot : StateSnapshot} {network expected : String} {root : Bytes}
    {updates : List (Bytes × Bytes)}
    (h : readSnapshot cfg env E S snapshot network (some expected) = .ok (root, updates)) :
    normalizeHash snapshot.checkpointHash = normalizeHash expected ∧
      Hex.decode snapshot.checkpointStateRoot.toList = some root ∧
      (snapshot.checkpointHeight = 0 ∨ snapshot.stateRootMigrated = true ∨
        Hex.decode snapshot.stateRoot.toList = some root) := by
  unfold readSnapshot at h
  obtain ⟨⟨⟩, -, h⟩ := bind_eq_ok.mp h
  obtain ⟨⟨⟩, -, h⟩ := bind_eq_ok.mp h
  obtain ⟨⟨⟩, hpinned, h⟩ := bind_eq_ok.mp h
  obtain ⟨verifier, -, h⟩ := bind_eq_ok.mp h
  obtain ⟨⟨⟩, -, h⟩ := bind_eq_ok.mp h
  obtain ⟨entriesHash, -, h⟩ := bind_eq_ok.mp h
  obtain ⟨⟨⟩, -, h⟩ := bind_eq_ok.mp h
  obtain ⟨checkpointRoot, hcheckpointRoot, h⟩ := bind_eq_ok.mp h
  obtain ⟨stateRoot, hstateRoot, h⟩ := bind_eq_ok.mp h
  obtain ⟨⟨⟩, hroots, h⟩ := bind_eq_ok.mp h
  obtain ⟨raw, -, h⟩ := bind_eq_ok.mp h
  obtain ⟨rfl, -⟩ := Prod.mk.inj (Except.ok.inj h)
  refine ⟨eq_of_beq (ensure_eq_ok.mp hpinned), decodeHexText_eq_ok.mp hcheckpointRoot, ?_⟩
  have hcases := ensure_eq_ok.mp hroots
  simp only [Bool.or_eq_true, beq_iff_eq, or_assoc] at hcases
  refine hcases.imp_right (Or.imp_right fun heq => ?_)
  rw [heq]
  exact decodeHexText_eq_ok.mp hstateRoot

lemma checkImported_ok {snapshot : StateSnapshot} {root : Bytes} {node : Node σ} {u : Unit}
    (h : checkImported env E snapshot root node = .ok u) :
    node.chain.latestCheckpoint.sequence = snapshot.checkpointHeight ∧
      (∃ digest, env.hash node.chain.latestCheckpoint = .ok digest ∧ hexText digest = snapshot.checkpointHash) ∧
      node.chain.latestCheckpoint.stateRoot = root ∧
      ∃ computed, E.stateRoot node.state = .ok computed ∧ hexText computed = snapshot.stateRoot := by
  unfold checkImported at h
  obtain ⟨⟨⟩, hheight, h⟩ := bind_eq_ok.mp h
  obtain ⟨digest, hdigest, h⟩ := bind_eq_ok.mp h
  obtain ⟨⟨⟩, hhash, h⟩ := bind_eq_ok.mp h
  obtain ⟨⟨⟩, hroot, h⟩ := bind_eq_ok.mp h
  obtain ⟨computed, hcomputed, hstate⟩ := bind_eq_ok.mp h
  exact ⟨eq_of_beq (ensure_eq_ok.mp hheight), ⟨digest, hdigest, eq_of_beq (ensure_eq_ok.mp hhash)⟩,
    eq_of_beq (ensure_eq_ok.mp hroot), computed, hcomputed, eq_of_beq (ensure_eq_ok.mp hstate)⟩

/-- An import that succeeds is bound to the pinned hash exactly when the roots of the file agree. -/
theorem import_bound_iff {snapshot : StateSnapshot} {target : List (Bytes × Bytes)} {network expected : String}
    {node : Node σ} (h : importStateSnapshot cfg env E S snapshot target network expected = .ok node) :
    BoundTo env E expected node ↔ RootsAgree snapshot := by
  unfold importStateSnapshot importStateSnapshotInner at h
  obtain ⟨⟨root, updates⟩, hread, h⟩ := bind_eq_ok.mp h
  obtain ⟨⟨⟩, -, h⟩ := bind_eq_ok.mp h
  obtain ⟨imported, -, h⟩ := bind_eq_ok.mp h
  obtain ⟨⟨⟩, hcheck, h⟩ := bind_eq_ok.mp h
  obtain rfl := Except.ok.inj h
  obtain ⟨hpinned, hcheckpointRoot, hroots⟩ := readSnapshot_ok hread
  obtain ⟨hheight, ⟨digest, hdigest, hhash⟩, rfl, computed, hcomputed, hstate⟩ := checkImported_ok hcheck
  have hstateRoot := decode_hexText hstate
  have hbound : ∃ digest, env.hash imported.chain.latestCheckpoint = .ok digest ∧
      Hex.encode digest = normalizeHash expected := by
    refine ⟨digest, hdigest, ?_⟩
    rw [← hpinned, ← hhash, normalizeHash_hexText]
  have hsame : E.stateRoot imported.state = .ok imported.chain.latestCheckpoint.stateRoot ↔
      Hex.decode snapshot.checkpointStateRoot.toList = Hex.decode snapshot.stateRoot.toList := by
    rw [hcomputed, hcheckpointRoot, hstateRoot]
    exact ⟨fun h => congrArg some (Except.ok.inj h).symm, fun h => congrArg Except.ok (Option.some.inj h).symm⟩
  constructor
  · intro hbinds
    by_cases hzero : snapshot.checkpointHeight = 0
    · exact .inl hzero
    · refine .inr (.inr (hsame.mp (hbinds.root ?_)))
      rw [hheight]
      exact UInt64.pos_iff_ne_zero.mpr hzero
  · intro hagree
    refine ⟨hbound, fun hpositive => hsame.mpr ?_⟩
    rw [hheight] at hpositive
    have hne : snapshot.checkpointHeight ≠ 0 := UInt64.pos_iff_ne_zero.mp hpositive
    rcases hagree with hzero | hplain | hequal
    · exact absurd hzero hne
    · rcases hroots with hzero | hmigrated | hequal
      · exact absurd hzero hne
      · rw [hplain] at hmigrated
        cases hmigrated
      · rw [hcheckpointRoot, hequal]
    · exact hequal

def rootState : StateEnv Bytes where
  fresh := .ok (List.replicate 32 0)
  stateRoot := .ok
  validateSupplyInvariants := fun _ => .ok ()
  reopen := id
  reopen_reopen := fun _ => rfl
  reopen_fresh := fun _ => rfl
  repairLegacyNativeWalletOvercount := .ok
  applySystemPrologue := fun s _ => .ok s
  executeWaves := fun s txs _ => .ok (s, txs.map fun _ => [])

def committedCheckpoint : Checkpoint where
  sequence := 1
  vertices := []
  transactions := []
  stateRoot := List.replicate 32 1
  timestamp := 1
  prevCheckpointHash := Text.leBytes 8 0

/-- Raw entries of which the first is the state, next to the record of the checkpoint. -/
def sampleSnapshotEnv : SnapshotEnv Bytes where
  snapshotEntriesHash := fun _ => .ok "digest"
  openStore := fun updates =>
    { state := updates.head?.map (·.2)
      checkpointMetadata := OrdMap.empty.insert 1 committedCheckpoint }
  logicalEntries := fun node => .ok [([], node.state)]

def snapshotOf (state : Bytes) (migrated : Bool) : StateSnapshot where
  formatVersion := STATE_SNAPSHOT_FORMAT_VERSION
  network := "devnet"
  genesis :=
    { formatVersion := GENESIS_MANIFEST_FORMAT_VERSION
      network := "devnet"
      protocolVersion := PROTOCOL_VERSION
      stateSchemaVersion := STATE_SCHEMA_VERSION
      genesisCheckpointHash := hexText (Text.leBytes 8 0)
      genesisStateRoot := hexText (List.replicate 32 0) }
  checkpointHeight := 1
  checkpointHash := hexText (Text.leBytes 8 1)
  checkpointStateRoot := hexText (List.replicate 32 1)
  stateRoot := hexText state
  stateRootMigrated := migrated
  entriesHash := "digest"
  entries := [⟨"", hexText state⟩]

theorem import_bound_committed :
    ∃ node, importStateSnapshot {} plainEnv rootState sampleSnapshotEnv (snapshotOf (List.replicate 32 1) false) []
        "devnet" "0x0100000000000000" = .ok node ∧ BoundTo plainEnv rootState "0x0100000000000000" node := by
  obtain ⟨node, himport, -⟩ := exists_of_okAnd (p := fun _ => true)
    (x := importStateSnapshot {} plainEnv rootState sampleSnapshotEnv (snapshotOf (List.replicate 32 1) false) []
      "devnet" "0x0100000000000000") (by decide +kernel)
  exact ⟨node, himport, (import_bound_iff himport).mpr (.inr (.inl rfl))⟩

/-- The file names the pinned checkpoint, carries another state and declares a migration. -/
theorem import_forged_state :
    ∃ node, importStateSnapshot {} plainEnv rootState sampleSnapshotEnv (snapshotOf (List.replicate 32 2) true) []
        "devnet" "0x0100000000000000" = .ok node ∧
      node.chain.latestCheckpoint.sequence = 1 ∧
      node.chain.latestCheckpoint.stateRoot = List.replicate 32 1 ∧
      rootState.stateRoot node.state = .ok (List.replicate 32 2) := by
  obtain ⟨node, himport, hnode⟩ := exists_of_okAnd
    (p := fun node => decide (node.chain.latestCheckpoint.sequence = 1) &&
      decide (node.chain.latestCheckpoint.stateRoot = List.replicate 32 1) &&
      decide (node.state = List.replicate 32 2))
    (x := importStateSnapshot {} plainEnv rootState sampleSnapshotEnv (snapshotOf (List.replicate 32 2) true) []
      "devnet" "0x0100000000000000") (by decide +kernel)
  simp only [Bool.and_eq_true, decide_eq_true_eq] at hnode
  exact ⟨node, himport, hnode.1.1, hnode.1.2, congrArg Except.ok hnode.2⟩

end Kanari.Proofs

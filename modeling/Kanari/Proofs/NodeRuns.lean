import Kanari.Proofs.CheckpointRecords
import Mathlib.Logic.Relation

/-!
# Runs of a node with restarts

No step invents a transaction: those of the chain and of the store are those of the checkpoints that
were finalized.
-/

namespace Kanari.Proofs

open Lib Node PersistentStore

variable {σ : Type} {cfg : NodeConfig} {env : AdmissionEnv} {E : StateEnv σ} {P : SignedTransaction → Prop}
  {s : PersistentStore σ}

/-- One step, where only checkpoints with `Q` are finalized. The settings may change between steps. -/
inductive NodeStep (env : AdmissionEnv) (E : StateEnv σ) (Q : Checkpoint → Prop) : Node σ → Node σ → Prop
  | finalize (cfg : NodeConfig) (fault : Option Nat) {c : Checkpoint} (hc : Q c) (state : σ) (validateSupply : Bool)
      (node : Node σ) : NodeStep env E Q node (finalizeCheckpoint cfg env E fault c state validateSupply node).2
  | restart {cfg : NodeConfig} {require : Bool} {node node' : Node σ}
      (hinit : init cfg env E require node.store = .ok node') : NodeStep env E Q node node'
  | submit (node : Node σ) (mempool : MempoolState) : NodeStep env E Q node { node with mempool := mempool }

def Carries (P : SignedTransaction → Prop) (c : Checkpoint) : Prop := ∀ tx ∈ c.transactions, P tx

def ChainCarries (P : SignedTransaction → Prop) (chain : Blockchain) : Prop :=
  ∀ c ∈ chain.dagCheckpoints, Carries P c

/-- Every transaction that a record of the store holds has `P`. -/
structure StoreCarries (P : SignedTransaction → Prop) (s : PersistentStore σ) : Prop where
  metadata : ∀ k c, s.checkpointMetadata.find? k = some c → Carries P c
  metadataJson : ∀ k c, s.checkpointMetadataJson.find? k = some c → Carries P c
  transactions : ∀ k txs, s.checkpointTransactions.find? k = some txs → ∀ tx ∈ txs, P tx
  json : ∀ snapshot, s.blockchainJson = some snapshot → ∀ c ∈ snapshot.dagCheckpoints, Carries P c
  blockchain : ∀ snapshot, s.blockchain = some snapshot → ∀ c ∈ snapshot.dagCheckpoints, Carries P c
  marker : ∀ c, s.pendingCheckpointCommit = some c → Carries P c

lemma storeCarries_empty (P : SignedTransaction → Prop) : StoreCarries P ({} : PersistentStore σ) where
  metadata := fun k c h => by cases h
  metadataJson := fun k c h => by cases h
  transactions := fun k txs h => by cases h
  json := fun snapshot h => by cases h
  blockchain := fun snapshot h => by cases h
  marker := fun c h => by cases h

lemma carries_stripped (P : SignedTransaction → Prop) (c : Checkpoint) :
    Carries P (checkpointWithoutTransactions c) := fun tx htx => by cases htx

lemma carries_genesis (P : SignedTransaction → Prop) (H : HashEnv) : Carries P H.genesis :=
  fun tx htx => by cases htx

lemma chainCarries_new (P : SignedTransaction → Prop) (H : HashEnv) : ChainCarries P (Blockchain.new H) := by
  intro c hc
  obtain rfl := List.mem_singleton.mp hc
  exact carries_genesis P H

variable {chain : Blockchain} {c : Checkpoint}

lemma ChainCarries.append (h : ChainCarries P chain) (hc : Carries P c) (H : HashEnv) :
    ChainCarries P (chain.append H c) := by
  obtain ⟨first, rest, hdag⟩ := List.exists_cons_of_ne_nil chain.nonempty
  have hlast : ∀ d ∈ rest ++ [c], Carries P d := by
    intro d hd
    rcases List.mem_append.mp hd with hd | hd
    · exact h d (hdag ▸ List.mem_cons_of_mem _ hd)
    · exact List.mem_singleton.mp hd ▸ hc
  intro d hd
  rw [append_dagCheckpoints_eq hdag] at hd
  rcases List.mem_cons.mp hd with rfl | hd
  · exact h d (hdag ▸ List.mem_cons_self)
  · split_ifs at hd
    · exact hlast d (List.mem_of_mem_tail hd)
    · exact hlast d hd

lemma ChainCarries.add {chain' : Blockchain} (h : ChainCarries P chain) (hc : Carries P c)
    {H : HashEnv} {r : Except String Unit}
    (hadd : chain.addCheckpointWithValidation H c true = (r, chain')) : ChainCarries P chain' := by
  rcases addCheckpoint_cases H chain c with ⟨-, hadd'⟩ | ⟨e, hadd'⟩
  · rw [hadd'] at hadd
    exact (Prod.mk.inj hadd).2 ▸ h.append hc H
  · rw [hadd'] at hadd
    exact (Prod.mk.inj hadd).2 ▸ h

lemma StoreCarries.persist (h : StoreCarries P s) (hc : Carries P c) (mark : Bool) :
    StoreCarries P (persistCheckpoint cfg env mark c s) where
  metadata := fun k d hd => by
    rw [persistCheckpoint_metadata, OrdMap.find?_insert] at hd
    split_ifs at hd
    · exact Option.some.inj hd ▸ carries_stripped P c
    · exact h.metadata k d hd
  metadataJson := fun k d hd => by
    rw [persistCheckpoint_metadataJson, OrdMap.find?_erase] at hd
    split_ifs at hd
    exact h.metadataJson k d hd
  transactions := fun k txs htxs => by
    rw [persistCheckpoint_transactions] at htxs
    split_ifs at htxs
    · exact h.transactions k txs htxs
    · rw [OrdMap.find?_insert] at htxs
      split_ifs at htxs
      · exact Option.some.inj htxs ▸ hc
      · exact h.transactions k txs htxs
  json := fun snapshot hsnapshot => h.json snapshot (by rwa [persistCheckpoint_blockchainJson] at hsnapshot)
  blockchain := fun snapshot hsnapshot => h.blockchain snapshot (by rwa [persistCheckpoint_blockchain] at hsnapshot)
  marker := fun d hd => h.marker d (by rwa [persistCheckpoint_pending] at hd)

lemma carries_slim (P : SignedTransaction → Prop) (chain : Blockchain) :
    ∀ c ∈ (slimSnapshot chain).dagCheckpoints, Carries P c := by
  intro c hc
  obtain ⟨d, -, rfl⟩ := List.mem_map.mp hc
  split_ifs with hempty
  · intro tx htx
    rw [List.isEmpty_iff.mp hempty] at htx
    cases htx
  · exact carries_stripped P d

lemma StoreCarries.snapshot_write (hchain : ChainCarries P chain) {u : PersistentStore σ}
    {w : PersistentStore σ → PersistentStore σ} (hw : w ∈ persistBlockchainSnapshot cfg env chain s)
    (h : StoreCarries P u) : StoreCarries P (w u) := by
  rcases snapshot_write_cases hw with ⟨d, hd, rfl⟩ | (rfl | rfl) | ⟨k, rfl⟩ | ⟨k, rfl⟩
  · exact h.persist (hchain d (mem_unpersisted.mp hd).1) false
  · exact ⟨h.metadata, h.metadataJson, h.transactions, h.json, h.blockchain, h.marker⟩
  · refine ⟨h.metadata, h.metadataJson, h.transactions, fun snapshot hsnapshot => ?_, h.blockchain, h.marker⟩
    simp only [saveBlockchainJson] at hsnapshot
    split_ifs at hsnapshot
    exact Option.some.inj hsnapshot ▸ carries_slim P chain
  · refine ⟨h.metadata, h.metadataJson, fun j txs htxs => ?_, h.json, h.blockchain, h.marker⟩
    simp only [deleteCheckpointTransactions, OrdMap.find?_erase] at htxs
    split_ifs at htxs
    exact h.transactions j txs htxs
  · exact ⟨h.metadata, h.metadataJson, h.transactions, h.json, h.blockchain, h.marker⟩

lemma StoreCarries.mark (h : StoreCarries P s) (state : Option σ) {marker : Option Checkpoint}
    (hmarker : ∀ c, marker = some c → Carries P c) :
    StoreCarries P { s with state := state, pendingCheckpointCommit := marker } :=
  ⟨h.metadata, h.metadataJson, h.transactions, h.json, h.blockchain, hmarker⟩

lemma StoreCarries.attach (h : StoreCarries P s) (k : Nat) (hc : Carries P c) :
    Carries P (s.attachTransactions k c) := by
  unfold attachTransactions
  split_ifs
  · intro tx htx
    cases hfind : s.loadCheckpointTransactions k with
    | none =>
      rw [hfind] at htx
      exact hc tx htx
    | some txs =>
      rw [hfind] at htx
      exact h.transactions k txs hfind tx htx
  · exact hc

lemma StoreCarries.hydrate (h : StoreCarries P s) (hc : Carries P c) : Carries P (s.hydrate c) := by
  unfold PersistentStore.hydrate
  split_ifs
  · exact hc
  · exact h.attach _ hc

lemma StoreCarries.metadata_of {k : Nat} (h : StoreCarries P s)
    (hmeta : recoverMetadata env s chain k = .ok (some c)) : Carries P c := by
  unfold recoverMetadata at hmeta
  split at hmeta
  · rename_i hd
    obtain rfl := Option.some.inj (Except.ok.inj hmeta)
    rcases Option.or_eq_some_iff.mp hd with hjson | ⟨-, hbinary⟩
    · exact h.metadataJson k _ hjson
    · exact h.metadata k _ hbinary
  · cases hmeta
  · rename_i txs _ htxs
    obtain ⟨prevHash, -, hc⟩ := bind_eq_ok.mp hmeta
    obtain rfl := Option.some.inj (Except.ok.inj hc)
    exact h.transactions k txs htxs

lemma StoreCarries.recoverFrom (h : StoreCarries P s) {sequences : List Nat} {chain' : Blockchain}
    (hchain : ChainCarries P chain)
    (hrecover : recoverFrom env s chain sequences = .ok (some chain')) : ChainCarries P chain' := by
  induction sequences generalizing chain with
  | nil => exact Option.some.inj (Except.ok.inj hrecover) ▸ hchain
  | cons k rest ih =>
    rw [PersistentStore.recoverFrom] at hrecover
    split_ifs at hrecover with hzero
    · exact ih hchain hrecover
    obtain ⟨metadata, hmeta, hrecover⟩ := bind_eq_ok.mp hrecover
    cases metadata with
    | none => cases hrecover
    | some c =>
      have hc := h.attach k (h.metadata_of hmeta)
      cases hadd : chain.addCheckpointWithValidation env.toHashEnv (s.attachTransactions k c) true with
      | mk r next =>
        simp only [hadd] at hrecover
        cases r with
        | error e => cases hrecover
        | ok u => exact ih (hchain.add hc hadd) hrecover

lemma trimBehindGenesis_subset (fuel : Nat) (checkpoints : List Checkpoint) :
    ∀ c ∈ Blockchain.trimBehindGenesis fuel checkpoints, c ∈ checkpoints := by
  induction fuel generalizing checkpoints with
  | zero => exact fun _ hc => hc
  | succ fuel ih =>
    intro c hc
    rw [Blockchain.trimBehindGenesis] at hc
    split_ifs at hc
    · exact List.mem_of_mem_tail (ih _ c hc)
    · exact hc

lemma StoreCarries.restore (h : StoreCarries P s) {snapshot : ChainSnapshot}
    (hsnapshot : ∀ c ∈ snapshot.dagCheckpoints, Carries P c) :
    ChainCarries P (restoreBlockchain env s snapshot).2 := by
  have hretained : ∀ first rest repaired,
      Blockchain.ensureGenesisRetained env.toHashEnv snapshot.dagCheckpoints = (repaired, first, rest) →
        ∀ c ∈ first :: rest, Carries P c := by
    intro first rest repaired heq
    unfold Blockchain.ensureGenesisRetained at heq
    split at heq
    · obtain ⟨-, rfl, rfl⟩ := by simpa using heq
      intro c hc
      obtain rfl := List.mem_singleton.mp hc
      exact carries_genesis P _
    · rename_i head tail hlist
      split_ifs at heq
      · obtain ⟨-, rfl, rfl⟩ := by simpa using heq
        exact hlist ▸ hsnapshot
      · obtain ⟨-, rfl, rfl⟩ := by simpa using heq
        intro c hc
        rcases List.mem_cons.mp hc with rfl | hc
        · exact carries_genesis P _
        · exact hsnapshot c (trimBehindGenesis_subset _ _ c hc)
  cases hensure : Blockchain.ensureGenesisRetained env.toHashEnv snapshot.dagCheckpoints with
  | mk repaired pair =>
    obtain ⟨first, rest⟩ := pair
    intro c hc
    simp only [restoreBlockchain, hensure, rebuild_dagCheckpoints] at hc
    rw [← List.map_cons (f := s.hydrate)] at hc
    obtain ⟨d, hd, rfl⟩ := List.mem_map.mp hc
    exact h.hydrate (hretained first rest repaired hensure d hd)

lemma StoreCarries.load (h : StoreCarries P s) {require : Bool}
    {writes : List (PersistentStore σ → PersistentStore σ)}
    (hload : loadBlockchain cfg env E require s = .ok (chain, writes)) :
    ChainCarries P chain ∧ ∀ w ∈ writes, w ∈ persistBlockchainSnapshot cfg env chain s := by
  unfold loadBlockchain at hload
  split at hload
  · rename_i snapshot hsnapshot
    have hcarries : ∀ c ∈ snapshot.dagCheckpoints, Carries P c := by
      rcases Option.or_eq_some_iff.mp hsnapshot with hjson | ⟨-, hbinary⟩
      · exact h.json snapshot hjson
      · exact h.blockchain snapshot hbinary
    have hpair := Prod.mk.inj (Except.ok.inj hload)
    rw [← hpair.1, ← hpair.2]
    refine ⟨h.restore hcarries, fun w hw => ?_⟩
    split_ifs at hw
    · exact hw
    · cases hw
  · obtain ⟨recovered, hrecover, hload⟩ := bind_eq_ok.mp hload
    cases recovered with
    | some chain' =>
      have hpair := Prod.mk.inj (Except.ok.inj hload)
      rw [← hpair.1, ← hpair.2]
      refine ⟨?_, fun _ hw => hw⟩
      obtain ⟨replayed, ho, rfl⟩ := recover_eq_some hrecover
      intro c hc
      rw [rebuild_dagCheckpoints] at hc
      exact h.recoverFrom (chainCarries_new P _) ho c hc
    | none =>
      obtain ⟨chain', hfresh, hload⟩ := bind_eq_ok.mp hload
      have hpair := Prod.mk.inj (Except.ok.inj hload)
      rw [← hpair.1, ← hpair.2]
      refine ⟨?_, fun w hw => by cases hw⟩
      rw [freshGenesis_eq hfresh]
      exact chainCarries_new P _

end Kanari.Proofs

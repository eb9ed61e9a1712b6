import Kanari.Proofs.CheckpointAtomicity
import Kanari.Proofs.CheckpointRecords

/-!
# Committed batches become checkpoints once

The consensus offers its committed batches again until they are acknowledged, and every call may
fail at any batch.
-/

namespace Kanari.Proofs

open Lib Node PersistentStore Blockchain

variable {σ : Type} {cfg : NodeConfig} {env : AdmissionEnv} {E : StateEnv σ}

/-! ## The checkpoints of a run -/

def newCheckpoints (before after : Blockchain) : List Checkpoint :=
  if after.height = before.height then [] else [after.latestCheckpoint]

def producedBatches (cfg : NodeConfig) (env : AdmissionEnv) (E : StateEnv σ) :
    List (Option Nat) → List CommittedBatch → Node σ → List Checkpoint
  | _, [], _ => []
  | faults, batch :: rest, node =>
    let out := finalizeCommittedBatch cfg env E faults.head?.join batch node
    newCheckpoints node.chain out.2.chain ++
      if out.1.isOk then producedBatches cfg env E faults.tail rest out.2 else []

/-- One call of `finalize_ready_commits`: what the consensus has ready, and the storage failures. -/
structure FinalizeCall where
  ready : List CommittedBatch
  faults : List (Option Nat)

def producedCall (cfg : NodeConfig) (env : AdmissionEnv) (E : StateEnv σ) (call : FinalizeCall) (node : Node σ)
    (pending : List CommittedBatch) : List Checkpoint :=
  let batches := tryCommittedBatches pending call.ready
  if (checkBatches env batches).isOk then producedBatches cfg env E call.faults batches node else []

def producedRun (cfg : NodeConfig) (env : AdmissionEnv) (E : StateEnv σ) :
    List FinalizeCall → Node σ → List CommittedBatch → List Checkpoint
  | [], _, _ => []
  | call :: rest, node, pending =>
    let out := finalizeReadyCommits cfg env E call.faults call.ready node pending
    producedCall cfg env E call node pending ++ producedRun cfg env E rest out.2.1 out.2.2

variable {produced : List Checkpoint} {node : Node σ} {chain : Blockchain} {c : Checkpoint}

section Induction

variable {I : List Checkpoint → Node σ → Prop} {F : Option Nat → Prop}

lemma batches_invariant (hnone : F none)
    (hstep : ∀ produced node fault batch, F fault → I produced node →
      I (produced ++ newCheckpoints node.chain (finalizeCommittedBatch cfg env E fault batch node).2.chain)
        (finalizeCommittedBatch cfg env E fault batch node).2) {batches : List CommittedBatch}
    {faults : List (Option Nat)} (hfaults : ∀ f ∈ faults, F f) (h : I produced node)
    (info : Option CheckpointInfo) :
    I (produced ++ producedBatches cfg env E faults batches node)
      (finalizeBatches cfg env E faults info batches node).2 := by
  induction batches generalizing faults produced node info with
  | nil => simpa [producedBatches, finalizeBatches] using h
  | cons batch rest ih =>
    have hfault : F faults.head?.join := by
      cases faults with
      | nil => exact hnone
      | cons f faults => exact hfaults f List.mem_cons_self
    have hnext := hstep produced node _ batch hfault h
    have hrest : ∀ f ∈ faults.tail, F f := fun f hf => hfaults f (List.mem_of_mem_tail hf)
    simp only [producedBatches, finalizeBatches]
    rcases hout : finalizeCommittedBatch cfg env E faults.head?.join batch node with ⟨e | c, node'⟩
    · rw [hout] at hnext
      simpa [Except.isOk, Except.toBool] using hnext
    · rw [hout] at hnext
      rw [← List.append_assoc]
      cases c with
      | none => exact ih hrest hnext info
      | some c => exact ih hrest hnext _

lemma run_invariant (hnone : F none)
    (hstep : ∀ produced node fault batch, F fault → I produced node →
      I (produced ++ newCheckpoints node.chain (finalizeCommittedBatch cfg env E fault batch node).2.chain)
        (finalizeCommittedBatch cfg env E fault batch node).2) {calls : List FinalizeCall}
    (hfaults : ∀ call ∈ calls, ∀ f ∈ call.faults, F f) (h : I produced node)
    (pending : List CommittedBatch) :
    ∃ node', I (produced ++ producedRun cfg env E calls node pending) node' := by
  induction calls generalizing produced node pending with
  | nil => exact ⟨node, by simpa [producedRun] using h⟩
  | cons call rest ih =>
    simp only [producedRun, producedCall]
    have hrest : ∀ call ∈ rest, ∀ f ∈ call.faults, F f := fun c hc => hfaults c (List.mem_cons_of_mem _ hc)
    set batches := tryCommittedBatches pending call.ready with hbatches
    rw [← List.append_assoc]
    cases hcheck : checkBatches env batches with
    | error e =>
      have hout : finalizeReadyCommits cfg env E call.faults call.ready node pending = (.error e, node, batches) := by
        simp only [finalizeReadyCommits, ← hbatches, hcheck]
      rw [hout]
      simpa [Except.isOk, Except.toBool] using ih hrest h batches
    | ok u =>
      have hnext : I (produced ++ producedBatches cfg env E call.faults batches node)
          (finalizeBatches cfg env E call.faults none batches node).2 :=
        batches_invariant hnone hstep (hfaults call List.mem_cons_self) h none
      obtain ⟨pending', hout⟩ : ∃ pending',
          (finalizeReadyCommits cfg env E call.faults call.ready node pending).2 =
            ((finalizeBatches cfg env E call.faults none batches node).2, pending') := by
        simp only [finalizeReadyCommits, ← hbatches, hcheck]
        rcases finalizeBatches cfg env E call.faults none batches node with ⟨e | info, node'⟩
        · exact ⟨batches, rfl⟩
        · exact ⟨[], rfl⟩
      rw [hout]
      exact ih hrest hnext pending'

end Induction

/-! ## One batch -/

lemma newTransactions_spec (env : AdmissionEnv) (node : Node σ) (seen : Finset Bytes) (txs : List SignedTransaction) :
    ((node.newTransactions env seen txs).map env.transactionHash).Nodup ∧
      ∀ x ∈ (node.newTransactions env seen txs).map env.transactionHash,
        x ∉ seen ∧ node.tryIsTransactionCommitted x = false := by
  induction txs generalizing seen with
  | nil => exact ⟨List.nodup_nil, fun x hx => by cases hx⟩
  | cons tx rest ih =>
    obtain ⟨hnodup, hnew⟩ := ih (insert (env.transactionHash tx) seen)
    rw [newTransactions]
    split_ifs with hknown
    · exact ⟨hnodup, fun x hx => ⟨fun hseen => (hnew x hx).1 (Finset.mem_insert_of_mem hseen), (hnew x hx).2⟩⟩
    · rw [not_or, Bool.not_eq_true] at hknown
      rw [List.map_cons]
      refine ⟨List.nodup_cons.mpr ⟨fun hmem => (hnew _ hmem).1 (Finset.mem_insert_self _ _), hnodup⟩, ?_⟩
      intro x hx
      rcases List.mem_cons.mp hx with rfl | hx
      · exact hknown
      · exact ⟨fun hseen => (hnew x hx).1 (Finset.mem_insert_of_mem hseen), (hnew x hx).2⟩

/-- The checkpoint that is made of a batch. -/
structure FromBatch (env : AdmissionEnv) (node : Node σ) (c : Checkpoint) : Prop where
  sequence : c.sequence = UInt64.ofNat (saturatingAdd node.chain.latestCheckpoint.sequence.toNat 1)
  timestamp : ∃ t, c.timestamp = max t (UInt64.ofNat (saturatingAdd node.chain.latestCheckpoint.timestamp.toNat 1))
  nonempty : c.transactions ≠ []
  nodup : (env.txHashes c).Nodup
  unknown : ∀ x ∈ env.txHashes c, node.tryIsTransactionCommitted x = false

lemma newCheckpoints_self (chain : Blockchain) : newCheckpoints chain chain = [] := if_pos rfl

lemma newCheckpoints_append (hc : Continues env.toHashEnv chain c) :
    newCheckpoints chain (chain.append env.toHashEnv c) = [c] := by
  have hheight : (chain.append env.toHashEnv c).height = chain.height + 1 := by
    rw [Blockchain.height, append_latestCheckpoint]
    exact hc.sequence
  rw [newCheckpoints, if_neg, append_latestCheckpoint]
  rw [hheight]
  intro hsame
  have hnat := congrArg UInt64.toNat hsame
  rw [UInt64.toNat_add] at hnat
  have hlt := chain.height.toNat_lt
  simp at hnat
  omega

lemma finalizeCommittedBatch_cases (cfg : NodeConfig) (env : AdmissionEnv) (E : StateEnv σ) (fault : Option Nat)
    (batch : CommittedBatch) (node : Node σ) :
    (finalizeCommittedBatch cfg env E fault batch node).2 = node ∨
      (∃ c state, (finalizeCommittedBatch cfg env E fault batch node).2 = node.commitState cfg env c state) ∨
      ∃ c state, FromBatch env node c ∧ Continues env.toHashEnv node.chain c ∧
        node.checkCommit E c state true = .ok () ∧
        (finalizeCommittedBatch cfg env E fault batch node).2 =
          (finalizeCheckpoint cfg env E fault c state true node).2 ∧
        Appended cfg env c state node (finalizeCheckpoint cfg env E fault c state true node).2 := by
  unfold finalizeCommittedBatch
  split
  · exact .inl rfl
  dsimp only
  split_ifs with hempty
  · exact .inl rfl
  cases hprepared : node.prepareCommittedBatch env E batch (node.newTransactions env ∅ batch.transactions) with
  | error e => exact .inl rfl
  | ok prepared =>
    obtain ⟨c, state⟩ := prepared
    dsimp only
    rcases finalizeCheckpoint_cases cfg env E fault c state true node with
      ⟨e, heq⟩ | ⟨e, -, -, heq⟩ | ⟨hc, hcheck, happended⟩
    · exact .inl (by rw [heq])
    · exact .inr (.inl ⟨c, state, by rw [heq]⟩)
    · refine .inr (.inr ⟨c, state, ?_, hc, hcheck, rfl, happended⟩)
      unfold prepareCommittedBatch at hprepared
      obtain ⟨prevHash, -, hprepared⟩ := bind_eq_ok.mp hprepared
      obtain ⟨prepared, -, hprepared⟩ := bind_eq_ok.mp hprepared
      obtain ⟨rfl, -⟩ := Prod.mk.inj (Except.ok.inj hprepared)
      obtain ⟨hnodup, hnew⟩ := newTransactions_spec env node ∅ batch.transactions
      exact ⟨rfl, ⟨batch.timestampMs, rfl⟩, fun hnil => hempty (List.isEmpty_iff.mpr hnil), hnodup,
        fun x hx => (hnew x hx).2⟩

/-! ## Order -/

/-- The next checkpoint: one number further and later, unless the time cannot grow any more. -/
def Follows (p c : Checkpoint) : Prop :=
  c.sequence.toNat = p.sequence.toNat + 1 ∧ (p.timestamp.toNat < 2 ^ 64 - 1 → p.timestamp < c.timestamp)

lemma FromBatch.follows (h : FromBatch env node c) (hc : Continues env.toHashEnv node.chain c) :
    Follows node.chain.latestCheckpoint c := by
  set p := node.chain.latestCheckpoint with hp
  have hsequence : c.sequence.toNat = saturatingAdd p.sequence.toNat 1 := by
    rw [h.sequence, UInt64.toNat_ofNat_of_lt']
    exact lt_of_le_of_lt (Nat.min_le_right _ _) (by decide)
  constructor
  · have hnext : c.sequence.toNat = (p.sequence.toNat + 1) % 2 ^ 64 := by
      rw [hc.sequence, UInt64.toNat_add]
      rfl
    have hlt := p.sequence.toNat_lt
    unfold saturatingAdd u64Bound at hsequence
    omega
  · intro hroom
    obtain ⟨t, ht⟩ := h.timestamp
    have hgrown : (UInt64.ofNat (saturatingAdd p.timestamp.toNat 1)).toNat = p.timestamp.toNat + 1 := by
      unfold saturatingAdd u64Bound
      rw [Nat.min_eq_left (by omega), UInt64.toNat_ofNat_of_lt' (show p.timestamp.toNat + 1 < 2 ^ 64 by omega)]
    rw [ht, UInt64.lt_iff_toNat_lt]
    refine lt_of_lt_of_le (Nat.lt_succ_self _) (hgrown.symm.le.trans ?_)
    rw [← UInt64.le_iff_toNat_le]
    change _ ≤ if _ then _ else t
    split_ifs with hle
    · exact UInt64.le_refl _
    · exact UInt64.le_of_lt (UInt64.not_le.mp hle)

/-- The chain after the checkpoints of a run that began with `start`. -/
structure Progress (env : AdmissionEnv) (start : Blockchain) (produced : List Checkpoint) (chain : Blockchain) :
    Prop where
  mirrors : Mirrors chain.hashIndex
  queue : ∃ older, chain.txHashQueue = (older ++ produced.flatMap env.txHashes).rtake MAX_RETAINED_TX_HASHES
  window : WindowNodup MAX_RETAINED_TX_HASHES (produced.flatMap env.txHashes)
  ordered : (start.latestCheckpoint :: produced).IsChain Follows
  latest : (start.latestCheckpoint :: produced).getLast (List.cons_ne_nil _ _) = chain.latestCheckpoint
  nonempty : ∀ c ∈ produced, c.transactions ≠ []

lemma Progress.append {start : Blockchain} (h : Progress env start produced node.chain)
    (hfrom : FromBatch env node c) (hc : Continues env.toHashEnv node.chain c) :
    Progress env start (produced ++ [c]) (node.chain.append env.toHashEnv c) := by
  obtain ⟨older, hqueue⟩ := h.queue
  obtain ⟨hmirrors, hnext⟩ := append_hashIndex h.mirrors hc
  have hhashes : (produced ++ [c]).flatMap env.txHashes = produced.flatMap env.txHashes ++ env.txHashes c := by
    rw [List.flatMap_append, List.flatMap_singleton]
  refine ⟨hmirrors, ⟨older, ?_⟩, ?_, ?_, ?_, ?_⟩
  · rw [hnext, hqueue, rtake_rtake_append, hhashes, List.append_assoc]
  · rw [hhashes]
    refine h.window.append hc.nodup fun x hx hwindow => hc.fresh x hx ?_
    rw [show node.chain.executedTxHashes = node.chain.txHashQueue.toFinset from h.mirrors.executed,
      List.mem_toFinset, hqueue]
    exact mem_rtake_of_suffix (List.suffix_append _ _) hwindow
  · rw [← List.cons_append]
    refine List.isChain_append.mpr ⟨h.ordered, List.isChain_singleton _, ?_⟩
    intro p hp d hd
    obtain rfl : c = d := by simpa using hd
    obtain rfl : node.chain.latestCheckpoint = p := by
      rw [List.getLast?_eq_some_getLast (List.cons_ne_nil _ _), h.latest] at hp
      exact Option.some.inj hp
    exact hfrom.follows hc
  · rw [append_latestCheckpoint]
    simp
  · intro d hd
    rcases List.mem_append.mp hd with hd | hd
    · exact h.nonempty d hd
    · exact List.mem_singleton.mp hd ▸ hfrom.nonempty

lemma Progress.batch {start : Blockchain} (h : Progress env start produced node.chain)
    (fault : Option Nat) (batch : CommittedBatch) :
    Progress env start
      (produced ++ newCheckpoints node.chain (finalizeCommittedBatch cfg env E fault batch node).2.chain)
      (finalizeCommittedBatch cfg env E fault batch node).2.chain := by
  rcases finalizeCommittedBatch_cases cfg env E fault batch node with
    heq | ⟨c, state, heq⟩ | ⟨c, state, hfrom, hc, -, heq, happended⟩
  · rw [heq, newCheckpoints_self, List.append_nil]
    exact h
  · rw [heq, show (node.commitState cfg env c state).chain = node.chain from rfl, newCheckpoints_self,
      List.append_nil]
    exact h
  · rw [heq, happended.chain, newCheckpoints_append hc]
    exact h.append hfrom hc

/-! ## With the persistent index -/

/-- A store that has the hashes in its index and whose progress mark is not ahead of the chain. -/
structure IndexKept (cfg : NodeConfig) (hashes : List Bytes) (height : Nat) (s : PersistentStore σ) : Prop where
  indexed : ∀ x ∈ hashes, (s.transactionIndex x).isSome = true
  progress : cfg.inlineCheckpointMetadata = true ∨
    ∀ through, s.historyPersistedThrough = some through → through ≤ height

lemma isSome_indexTransactions (c : Checkpoint) (index : Bytes → Option PersistedTransactionLocation) (x : Bytes) :
    (indexTransactions env c index x).isSome = true ↔ x ∈ env.txHashes c ∨ (index x).isSome = true := by
  unfold indexTransactions HashEnv.txHashes
  induction c.transactions generalizing index with
  | nil => simp
  | cons tx rest ih =>
    rw [List.foldl_cons, ih, List.map_cons, List.mem_cons, Function.update_apply]
    by_cases hx : x = env.transactionHash tx
    · simp [hx]
    · simp [hx]

section Index

variable {hashes : List Bytes} {height : Nat} {s : PersistentStore σ}

lemma persist_index_mono (mark : Bool) (c : Checkpoint) {x : Bytes} (h : (s.transactionIndex x).isSome = true) :
    ((persistCheckpoint cfg env mark c s).transactionIndex x).isSome = true := by
  rw [persistCheckpoint_index]
  split_ifs
  · exact h
  · exact (isSome_indexTransactions c _ x).mpr (.inr h)
  · exact h

lemma persist_indexes (hindex : cfg.persistTransactionHashIndexEnabled = true) (mark : Bool)
    (hne : c.transactions ≠ []) (hsequence : c.sequence ≠ 0) {x : Bytes} (hx : x ∈ env.txHashes c) :
    ((persistCheckpoint cfg env mark c s).transactionIndex x).isSome = true := by
  have hwritten : (c.transactions.isEmpty || c.sequence == 0) = false := by
    rw [Bool.or_eq_false_iff]
    exact ⟨List.isEmpty_eq_false_iff.mpr hne, beq_false_of_ne hsequence⟩
  rw [persistCheckpoint_index, hwritten, if_neg (by decide), if_pos hindex]
  exact (isSome_indexTransactions c _ x).mpr (.inl hx)

lemma IndexKept.closing_write {u : PersistentStore σ} {w : PersistentStore σ → PersistentStore σ}
    (hw : w ∈ closingWrites cfg env chain s) (h : IndexKept cfg hashes chain.height.toNat u) :
    IndexKept cfg hashes chain.height.toNat (w u) := by
  rcases List.mem_append.mp hw with hw | hw
  · unfold metadataWrites at hw
    split_ifs at hw
    · cases hw
    rcases snapshot_write_cases hw with ⟨d, -, rfl⟩ | (rfl | rfl) | ⟨k, rfl⟩ | ⟨k, rfl⟩
    · refine ⟨fun x hx => persist_index_mono false d (h.indexed x hx), h.progress.imp_right fun hle through => ?_⟩
      rw [persistCheckpoint_persistedThrough, if_neg (by decide)]
      exact hle through
    · exact ⟨h.indexed, .inr fun through hthrough => (Option.some.inj hthrough).symm.le⟩
    all_goals exact ⟨h.indexed, h.progress⟩
  · obtain rfl := List.mem_singleton.mp hw
    exact ⟨h.indexed, h.progress⟩

lemma IndexKept.commitBatch (h : IndexKept cfg hashes height s) (c : Checkpoint) (state : σ) :
    IndexKept cfg hashes height (commitBatch cfg env c state s) := by
  unfold Node.commitBatch
  dsimp only
  split_ifs with hinline
  · exact ⟨fun x hx => persist_index_mono true c (h.indexed x hx), .inl hinline⟩
  · exact ⟨h.indexed, h.progress⟩

lemma IndexKept.mono {height' : Nat} (h : IndexKept cfg hashes height s) (hle : height ≤ height') :
    IndexKept cfg hashes height' s :=
  ⟨h.indexed, h.progress.imp_right fun hbelow through hthrough => (hbelow through hthrough).trans hle⟩

end Index

/-- The hashes of a run are in the index of the node's store, once each. -/
structure Indexed (cfg : NodeConfig) (env : AdmissionEnv) (produced : List Checkpoint) (node : Node σ) : Prop where
  store : ∃ s, node.store = some s ∧ IndexKept cfg (produced.flatMap env.txHashes) node.chain.height.toNat s
  distinct : (produced.flatMap env.txHashes).Nodup

/-- A storage failure before the commit, or one that leaves nothing to be persisted later. -/
def Harmless (cfg : NodeConfig) (fault : Option Nat) : Prop :=
  cfg.inlineCheckpointMetadata = true ∨ fault = none ∨ fault = some 0

/-- A checkpoint that the chain has taken is in the index. -/
lemma indexed_of_appended (hindex : cfg.persistTransactionHashIndexEnabled = true)
    {fault : Option Nat} (hfault : Harmless cfg fault) {state : σ} {s : PersistentStore σ}
    {hashes : List Bytes} (hs : node.store = some s)
    (hkept : IndexKept cfg hashes node.chain.height.toNat s)
    (hc : Continues env.toHashEnv node.chain c)
    (hnext : c.sequence.toNat = node.chain.height.toNat + 1) (hne : c.transactions ≠ [])
    (hcheck : node.checkCommit E c state true = .ok ())
    (happended : Appended cfg env c state node (finalizeCheckpoint cfg env E fault c state true node).2) :
    ∃ s', (finalizeCheckpoint cfg env E fault c state true node).2.store = some s' ∧
      IndexKept cfg (hashes ++ env.txHashes c) c.sequence.toNat s' := by
  have hsequence : c.sequence ≠ 0 := by
    intro hzero
    rw [hzero] at hnext
    simp at hnext
  have hheight : (node.chain.append env.toHashEnv c).height = c.sequence := by
    rw [Blockchain.height, append_latestCheckpoint]
  have hbatch : IndexKept cfg hashes (node.chain.append env.toHashEnv c).height.toNat
      (Node.commitBatch cfg env c state s) := by
    rw [hheight]
    exact (hkept.commitBatch c state).mono (by omega)
  have hadd : ∀ {t : PersistentStore σ} mark, IndexKept cfg hashes (node.chain.append env.toHashEnv c).height.toNat t →
      IndexKept cfg (hashes ++ env.txHashes c) (node.chain.append env.toHashEnv c).height.toNat
        (persistCheckpoint cfg env mark c t) := by
    intro t mark ht
    refine ⟨fun x hx => ?_, ht.progress.imp_right fun hle through hthrough => ?_⟩
    · rcases List.mem_append.mp hx with hx | hx
      · exact persist_index_mono mark c (ht.indexed x hx)
      · exact persist_indexes hindex mark hne hsequence hx
    · rw [persistCheckpoint_persistedThrough] at hthrough
      split_ifs at hthrough
      · exact hheight ▸ (Option.some.inj hthrough).symm.le
      · exact hle through hthrough
  rw [← hheight]
  cases hinline : cfg.inlineCheckpointMetadata with
  | true =>
    obtain ⟨s', hs', hcrash⟩ := happended.store s hs
    refine ⟨s', hs', hcrash.invariant (fun w hw u hu => hu.closing_write hw) ?_⟩
    have hpersisted := hadd true (hkept.mono (by rw [hheight]; omega))
    rw [Node.commitBatch, if_pos hinline]
    exact ⟨hpersisted.indexed, .inl hinline⟩
  | false =>
    have hmark := hkept.progress.resolve_left (by rw [hinline]; decide)
    have hfull : fault = none := by
      rcases hfault with hinline' | hnone | hzero
      · rw [hinline] at hinline'
        cases hinline'
      · exact hnone
      · have hsame := happended.chain
        simp only [finalizeCheckpoint, hcheck, hzero] at hsame
        have hsequence' := congrArg Blockchain.height hsame
        rw [hheight] at hsequence'
        rw [← hsequence'] at hnext
        omega
    rw [hfull, finalizeCheckpoint_accepts hcheck hc]
    refine ⟨_, by rw [finalized, hs, Option.map_some], ?_⟩
    rw [finalizeWrites, writeAll_cons]
    have hwrite : persistCheckpoint cfg env false c ∈ closingWrites cfg env (node.chain.append env.toHashEnv c)
        (Node.commitBatch cfg env c state s) :=
      persist_mem_closingWrites hinline (fun through hthrough => by
        have := hmark through hthrough
        omega) node.chain state
    exact writeAll_establishes (fun w hw u hu => hu.closing_write hw) (fun w hw u hu => hu.closing_write hw) hwrite
      (fun u hu => hadd false hu) hbatch

lemma Indexed.batch (hindex : cfg.persistTransactionHashIndexEnabled = true)
    (h : Indexed cfg env produced node) {fault : Option Nat} (hfault : Harmless cfg fault)
    (batch : CommittedBatch) :
    Indexed cfg env
      (produced ++ newCheckpoints node.chain (finalizeCommittedBatch cfg env E fault batch node).2.chain)
      (finalizeCommittedBatch cfg env E fault batch node).2 := by
  obtain ⟨⟨s, hs, hkept⟩, hdistinct⟩ := h
  rcases finalizeCommittedBatch_cases cfg env E fault batch node with
    heq | ⟨c, state, heq⟩ | ⟨c, state, hfrom, hc, hcheck, heq, happended⟩
  · rw [heq, newCheckpoints_self, List.append_nil]
    exact ⟨⟨s, hs, hkept⟩, hdistinct⟩
  · rw [heq, show (node.commitState cfg env c state).chain = node.chain from rfl, newCheckpoints_self,
      List.append_nil]
    refine ⟨⟨Node.commitBatch cfg env c state s, ?_, hkept.commitBatch c state⟩, hdistinct⟩
    simp only [commitState, hs, Option.map_some]
  · obtain ⟨s', hs', hkept'⟩ := indexed_of_appended hindex hfault hs hkept hc (hfrom.follows hc).1 hfrom.nonempty
      hcheck happended
    rw [heq, happended.chain, newCheckpoints_append hc]
    refine ⟨⟨s', hs', ?_⟩, ?_⟩
    · rw [happended.chain, Blockchain.height, append_latestCheckpoint, List.flatMap_append, List.flatMap_singleton]
      exact hkept'
    · rw [List.flatMap_append, List.flatMap_singleton]
      refine List.Nodup.append hdistinct hfrom.nodup fun x hold hnew => ?_
      have hunknown := hfrom.unknown x hnew
      rw [tryIsTransactionCommitted, hs, Option.any_some, hkept.indexed x hold, Bool.or_true] at hunknown
      cases hunknown

/-! ## The start of a run -/

/-- A replay window in order: the set and the queue agree, and the queue is not too long. -/
def Windowed (index : HashIndex) : Prop :=
  Mirrors index ∧ index.txHashQueue.length ≤ MAX_RETAINED_TX_HASHES

lemma Windowed.recordTrimmed {index : HashIndex} (h : Windowed index) (sequence : UInt64) (entry : Bytes × Nat) :
    Windowed (index.recordTrimmed sequence entry) := by
  have hrecord : Mirrors (index.record sequence entry) := by
    by_cases hknown : entry.1 ∈ index.executedTxHashes
    · simp only [HashIndex.record, if_pos hknown]
      exact ⟨h.1.nodup, h.1.executed⟩
    · exact (h.1.record hknown sequence entry.2).1
  obtain ⟨htrim, hqueue⟩ := hrecord.trim (Nat.le_refl _)
  refine ⟨htrim, ?_⟩
  rw [HashIndex.recordTrimmed, hqueue, length_rtake]
  exact Nat.min_le_left _ _

lemma windowed_rebuild (H : HashEnv) (chain : Blockchain) : Windowed (chain.rebuildTxHashIndex H).hashIndex := by
  have hall : Windowed (chain.dagCheckpoints.foldl
      (fun index c => ((H.txHashes c).zipIdx).foldl (HashIndex.recordTrimmed c.sequence) index)
      ⟨∅, [], fun _ => none, 0⟩) := by
    refine foldl_invariant Windowed (fun index c h => ?_) _ ⟨⟨List.nodup_nil, rfl⟩, Nat.zero_le _⟩
    exact foldl_invariant Windowed (fun index entry h => h.recordTrimmed c.sequence entry) _ h
  exact ⟨⟨hall.1.nodup, hall.1.executed⟩, hall.2⟩

lemma windowed_append (h : Windowed chain.hashIndex) {H : HashEnv} (hc : Continues H chain c) :
    Windowed (chain.append H c).hashIndex := by
  obtain ⟨hmirrors, hqueue⟩ := append_hashIndex h.1 hc
  refine ⟨hmirrors, ?_⟩
  show (chain.append H c).txHashQueue.length ≤ _
  rw [hqueue, length_rtake]
  exact Nat.min_le_left _ _

lemma windowed_load {s : PersistentStore σ} {require : Bool}
    {writes : List (PersistentStore σ → PersistentStore σ)}
    (h : loadBlockchain cfg env E require s = .ok (chain, writes)) : Windowed chain.hashIndex := by
  unfold loadBlockchain at h
  split at h
  · rw [← (Prod.mk.inj (Except.ok.inj h)).1]
    exact windowed_rebuild _ _
  · obtain ⟨recovered, hrecover, h⟩ := bind_eq_ok.mp h
    cases recovered with
    | none =>
      obtain ⟨fresh, hfresh, h⟩ := bind_eq_ok.mp h
      rw [← (Prod.mk.inj (Except.ok.inj h)).1, freshGenesis_eq hfresh]
      exact ⟨⟨List.nodup_nil, rfl⟩, Nat.zero_le _⟩
    | some chain' =>
      rw [← (Prod.mk.inj (Except.ok.inj h)).1]
      obtain ⟨replayed, -, rfl⟩ := recover_eq_some hrecover
      exact windowed_rebuild _ _

lemma windowed_init {require : Bool} {store : Option (PersistentStore σ)}
    (h : Node.init cfg env E require store = .ok node) : Windowed node.chain.hashIndex := by
  cases store with
  | none =>
    obtain ⟨state, -, h⟩ := bind_eq_ok.mp h
    rw [← Except.ok.inj h]
    exact ⟨⟨List.nodup_nil, rfl⟩, Nat.zero_le _⟩
  | some s =>
    obtain ⟨⟨chain, s'⟩, hopen, h⟩ := bind_eq_ok.mp h
    obtain ⟨state, -, h⟩ := bind_eq_ok.mp h
    rw [← Except.ok.inj h]
    obtain ⟨⟨loaded, writes⟩, hload, hopen⟩ := bind_eq_ok.mp hopen
    have hloaded := windowed_load hload
    dsimp only at hopen
    cases hmarker : (writeAll writes s).pendingCheckpointCommit with
    | none =>
      rw [hmarker] at hopen
      exact (Prod.mk.inj (Except.ok.inj hopen)).1 ▸ hloaded
    | some c =>
      rw [hmarker] at hopen
      obtain ⟨recovered, hrecover, hopen⟩ := bind_eq_ok.mp hopen
      rw [← (Prod.mk.inj (Except.ok.inj hopen)).1]
      rcases recoverMarker_cases hrecover with ⟨hc, rfl⟩ | rfl
      · exact windowed_append hloaded hc
      · exact hloaded

lemma Progress.start (h : Windowed node.chain.hashIndex) :
    Progress env node.chain [] node.chain where
  mirrors := h.1
  queue := ⟨node.chain.txHashQueue, by
    rw [List.flatMap_nil, List.append_nil]
    exact (rtake_of_length_le h.2).symm⟩
  window := windowNodup_nil _
  ordered := List.isChain_singleton _
  latest := rfl
  nonempty := fun c hc => by cases hc

/-- The index is written, the progress mark is not ahead of the chain at the start, and no failure
leaves a checkpoint of the chain without its entries. -/
def AllIndexed (cfg : NodeConfig) (start : Node σ) (calls : List FinalizeCall) : Prop :=
  cfg.persistTransactionHashIndexEnabled = true ∧
    (∃ s, start.store = some s ∧ (cfg.inlineCheckpointMetadata = true ∨
      ∀ through, s.historyPersistedThrough = some through → through ≤ start.chain.height.toNat)) ∧
    ∀ call ∈ calls, ∀ fault ∈ call.faults, Harmless cfg fault

/-- The checkpoints of every run of a started node have consecutive numbers and growing times, up
to the largest possible one, and none is empty. No transaction is in two of them if they fit into
the replay window, or if the index is kept complete. -/
theorem dag_finalization_once {require : Bool} {store : Option (PersistentStore σ)} {start : Node σ}
    (hstart : Node.init cfg env E require store = .ok start) (calls : List FinalizeCall)
    (pending : List CommittedBatch) :
    (start.chain.latestCheckpoint :: producedRun cfg env E calls start pending).IsChain Follows ∧
      (∀ c ∈ producedRun cfg env E calls start pending, c.transactions ≠ []) ∧
      (((producedRun cfg env E calls start pending).flatMap env.txHashes).length ≤ MAX_RETAINED_TX_HASHES ∨
          AllIndexed cfg start calls →
        ((producedRun cfg env E calls start pending).flatMap env.txHashes).Nodup) := by
  obtain ⟨node, hprogress⟩ : ∃ node : Node σ,
      Progress env start.chain ([] ++ producedRun cfg env E calls start pending) node.chain :=
    run_invariant (F := fun _ => True) (I := fun produced node => Progress env start.chain produced node.chain)
      trivial (fun produced node fault batch _ h => h.batch fault batch) (fun _ _ _ _ => trivial)
      (Progress.start (windowed_init hstart)) pending
  refine ⟨hprogress.ordered, hprogress.nonempty, ?_⟩
  rintro (hfits | ⟨hindex, ⟨s, hs, hmark⟩, hfaults⟩)
  · exact hprogress.window.nodup hfits
  · have hfirst : Indexed cfg env [] start :=
      ⟨⟨s, hs, ⟨fun x hx => absurd hx List.not_mem_nil, hmark⟩⟩, List.nodup_nil⟩
    obtain ⟨last, hindexed⟩ : ∃ last : Node σ,
        Indexed cfg env ([] ++ producedRun cfg env E calls start pending) last :=
      run_invariant (F := Harmless cfg) (.inr (.inl rfl))
        (fun produced node fault batch hfault h => h.batch hindex hfault batch) hfaults hfirst pending
    exact hindexed.distinct

def nonceBatch (vertex : UInt8) (nonces : List Nat) (timestampMs : UInt64) : CommittedBatch where
  vertices := [[vertex]]
  transactions := nonces.map fun nonce => ⟨⟨⟨"Ed25519:0xa", none, 100, 1, nonce⟩, .publishPackage []⟩, [1]⟩
  timestampMs := timestampMs

/-- Overlapping batches, a failed commit and a retry: two checkpoints, each transaction once. -/
theorem dag_finalization_once_overlapping :
    ((producedRun {} plainEnv stillState
        [⟨[nonceBatch 1 [1, 2, 2] 5, nonceBatch 2 [2, 3] 5], [none, some 0]⟩, ⟨[], []⟩] startedNode []).map
      fun c => (c.sequence, c.timestamp, c.transactions.length)) = [(1, 5, 2), (2, 6, 1)] ∧
    ((producedRun {} plainEnv stillState
        [⟨[nonceBatch 1 [1, 2, 2] 5, nonceBatch 2 [2, 3] 5], [none, some 0]⟩, ⟨[], []⟩] startedNode []).flatMap
      plainEnv.txHashes).Nodup :=
  have hstart : Node.init {} plainEnv stillState true (some {}) = .ok startedNode := rfl
  ⟨by decide +kernel, (dag_finalization_once hstart _ []).2.2 (.inl (by decide +kernel))⟩

/-- The time of the second checkpoint is the largest one, and the third has it again. -/
theorem dag_timestamps_saturate :
    ∃ batches : List CommittedBatch, (∀ batch ∈ batches, batch.timestampMs.toNat < 2 ^ 64 - 1) ∧
      (producedRun {} plainEnv stillState [⟨batches, []⟩] startedNode []).map (·.timestamp.toNat) =
        [2 ^ 64 - 2, 2 ^ 64 - 1, 2 ^ 64 - 1] :=
  ⟨[nonceBatch 1 [1] 18446744073709551614, nonceBatch 2 [2] 0, nonceBatch 3 [3] 0], by decide +kernel, by decide +kernel⟩

end Kanari.Proofs

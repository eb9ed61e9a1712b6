import Kanari.Proofs.CheckpointAtomicity
import Kanari.RawCheckpoints

/-!
# A persisted checkpoint is recovered

A recovery reads the metadata record and the payload; their keys differ from all others.
-/

namespace Kanari.Proofs

open Lib RawStore

variable {codec : StoreCodec} {env : AdmissionEnv} {persistHashIndex : Bool} {store : RawStore}
  {c : Checkpoint}

/-- The constructors set fields that are set again; what is left is the checkpoint without its
transactions. -/
lemma stripped_eq (c : Checkpoint) : c.stripped = checkpointWithoutTransactions c := rfl

lemma append_ne {a b : List Char} (n : Nat) (ha : n ≤ a.length) (hb : n ≤ b.length)
    (h : a.take n ≠ b.take n) (x y : List Char) : a ++ x ≠ b ++ y := by
  intro heq
  have htake := congrArg (List.take n) heq
  rw [List.take_append_of_le_length ha, List.take_append_of_le_length hb] at htake
  exact h htake

/-- A key that neither the metadata nor the payload of a checkpoint is stored under. -/
def Other (key : RawKey) : Prop :=
  ∀ sequence, key ≠ checkpointMetadataKey sequence ∧ key ≠ checkpointTransactionsKey sequence

lemma other_of_start (start : List Char) (hlength : 9 ≤ start.length)
    (h : start.take 9 ≠ "checkpoin".toList) (rest : List Char) : Other (start ++ rest) := by
  intro sequence
  refine ⟨append_ne 9 hlength (by decide) ?_ _ _, append_ne 9 hlength (by decide) ?_ _ _⟩
  · exact h
  · exact h

lemma other_recentTransactionHashesKey : Other recentTransactionHashesKey :=
  other_of_start ("tx_recent".toList) (by decide) (by decide) []

lemma other_senderNonceWatermarkKey : Other senderNonceWatermarkKey :=
  other_of_start ("sender_nonce_watermark_v1".toList) (by decide) (by decide) []

lemma other_historyPersistedThroughKey : Other historyPersistedThroughKey :=
  other_of_start ("runtime:history_persisted_through".toList) (by decide) (by decide) []

lemma metadataKey_ne_transactionsKey (s s' : UInt64) :
    checkpointMetadataKey s ≠ checkpointTransactionsKey s' :=
  append_ne 12 (by decide) (by decide) (by decide) _ _

lemma metadataKey_ne_jsonKey (s s' : UInt64) : checkpointMetadataKey s ≠ checkpointMetadataJsonKey s' :=
  append_ne 16 (by decide) (by decide) (by decide) _ _

lemma transactionsKey_ne_jsonKey (s s' : UInt64) :
    checkpointTransactionsKey s ≠ checkpointMetadataJsonKey s' :=
  append_ne 12 (by decide) (by decide) (by decide) _ _

variable {key : RawKey} {updates : List (RawKey × Bytes)}

lemma foldl_put_apply (updates : List (RawKey × Bytes)) (store : RawStore)
    (h : ∀ e ∈ updates, e.1 ≠ key) : (updates.foldl put store) key = store key := by
  induction updates generalizing store with
  | nil => rfl
  | cons e updates ih =>
    rw [List.foldl_cons, ih _ fun d hd => h d (List.mem_cons_of_mem _ hd)]
    exact Function.update_of_ne (h e List.mem_cons_self).symm _ _

lemma foldl_put_last {before after : List (RawKey × Bytes)} {store : RawStore} {value : Bytes}
    (h : ∀ e ∈ after, e.1 ≠ key) :
    ((before ++ (key, value) :: after).foldl put store) key = some value := by
  rw [List.foldl_append, List.foldl_cons, foldl_put_apply after _ h]
  exact Function.update_self _ _ _

lemma applyRawChanges_single {deleted : RawKey} (h : key ≠ deleted) :
    store.applyRawChanges updates [deleted] key = (updates.foldl put store) key :=
  Function.update_of_ne h _ _

lemma other_indexUpdates {index : List (RawKey × Bytes)}
    (h : indexUpdates codec env persistHashIndex c = .ok index) : ∀ e ∈ index, Other e.1 := by
  intro e he
  unfold indexUpdates at h
  split_ifs at h
  · obtain ⟨tx, -, htx⟩ := mem_of_mapM_ok h e he
    obtain ⟨location, -, htx⟩ := bind_eq_ok.mp htx
    cases htx
    exact other_of_start _ (by decide) (by decide) _
  · cases h
    cases he

lemma other_markUpdates {mark : List (RawKey × Bytes)} {markHistoryPersisted : Bool}
    (h : markUpdates codec c markHistoryPersisted = .ok mark) : ∀ e ∈ mark, Other e.1 := by
  intro e he
  unfold markUpdates at h
  split_ifs at h
  · obtain ⟨bytes, -, h⟩ := bind_eq_ok.mp h
    cases h
    rw [List.mem_singleton.mp he]
    exact other_historyPersistedThroughKey
  · cases h
    cases he

/-- The payload is the last of the updates with the transactions, and the only one a recovery reads. -/
lemma transactionUpdates_ok
    (h : transactionUpdates codec env persistHashIndex store c = .ok updates) :
    (c.transactions.isEmpty || c.sequence == 0) = true ∧ updates = [] ∨
      (c.transactions.isEmpty || c.sequence == 0) = false ∧
      ∃ others payload, updates = others ++ [(checkpointTransactionsKey c.sequence, payload)] ∧
        (∀ e ∈ others, Other e.1) ∧ codec.encodeTransactions c.transactions = .ok payload := by
  unfold transactionUpdates at h
  split_ifs at h with hskip
  · exact .inl ⟨hskip, (Except.ok.inj h).symm⟩
  obtain ⟨recent, -, h⟩ := bind_eq_ok.mp h
  obtain ⟨index, hindex, h⟩ := bind_eq_ok.mp h
  obtain ⟨recentBytes, -, h⟩ := bind_eq_ok.mp h
  obtain ⟨watermark, -, h⟩ := bind_eq_ok.mp h
  obtain ⟨watermarkBytes, -, h⟩ := bind_eq_ok.mp h
  obtain ⟨payload, hpayload, h⟩ := bind_eq_ok.mp h
  cases h
  refine .inr ⟨Bool.eq_false_iff.mpr hskip,
    index ++ [(recentTransactionHashesKey, recentBytes), (senderNonceWatermarkKey, watermarkBytes)],
    payload, by simp, ?_, hpayload⟩
  intro e he
  rcases List.mem_append.mp he with he | he
  · exact other_indexUpdates hindex e he
  · simp only [List.mem_cons, List.not_mem_nil, or_false] at he
    rcases he with rfl | rfl
    · exact other_recentTransactionHashesKey
    · exact other_senderNonceWatermarkKey

/-- What the store holds of a checkpoint after its changes were applied. -/
structure Persisted (codec : StoreCodec) (c : Checkpoint) (store store' : RawStore) : Prop where
  json : store' (checkpointMetadataJsonKey c.sequence) = none
  metadata : ∃ bytes, store' (checkpointMetadataKey c.sequence) = some bytes ∧
    codec.encodeCheckpoint c.stripped = .ok bytes
  payload : if c.transactions.isEmpty || c.sequence == 0 then
      store' (checkpointTransactionsKey c.sequence) = store (checkpointTransactionsKey c.sequence)
    else ∃ bytes, store' (checkpointTransactionsKey c.sequence) = some bytes ∧
      codec.encodeTransactions c.transactions = .ok bytes

lemma persisted_of_changes {markHistoryPersisted : Bool} {deletes : List RawKey}
    (h : checkpointPersistenceRawChanges codec env persistHashIndex store c markHistoryPersisted =
      .ok (updates, deletes)) :
    Persisted codec c store (store.applyRawChanges updates deletes) := by
  obtain ⟨metadata, hmetadata, h⟩ := bind_eq_ok.mp h
  obtain ⟨transactions, htransactions, h⟩ := bind_eq_ok.mp h
  obtain ⟨mark, hmark, h⟩ := bind_eq_ok.mp h
  cases h
  have hmarkOther := other_markUpdates hmark
  refine ⟨Function.update_self _ _ _, ⟨metadata, ?_, hmetadata⟩, ?_⟩
  · rw [applyRawChanges_single (metadataKey_ne_jsonKey _ _), List.cons_append, ← List.nil_append (_ :: _)]
    apply foldl_put_last
    intro e he
    rcases List.mem_append.mp he with he | he
    · obtain ⟨-, rfl⟩ | ⟨-, others, payload, rfl, hothers, -⟩ := transactionUpdates_ok htransactions
      · cases he
      · rcases List.mem_append.mp he with he | he
        · exact (hothers e he _).1
        · rw [List.mem_singleton.mp he]
          exact (metadataKey_ne_transactionsKey _ _).symm
    · exact (hmarkOther e he _).1
  · rw [applyRawChanges_single (transactionsKey_ne_jsonKey _ _)]
    obtain ⟨hskip, rfl⟩ | ⟨hskip, others, payload, rfl, -, hpayload⟩ := transactionUpdates_ok htransactions
    · rw [if_pos hskip]
      apply foldl_put_apply
      intro e he
      rcases List.mem_cons.mp he with rfl | he
      · exact metadataKey_ne_transactionsKey _ _
      · exact (hmarkOther e he _).2
    · rw [hskip, if_neg Bool.false_ne_true]
      refine ⟨payload, ?_, hpayload⟩
      rw [← List.cons_append, List.append_assoc]
      exact foldl_put_last fun e he => (hmarkOther e he _).2

lemma Persisted.recover {store' : RawStore} (h : Persisted codec c store store') (hsequence : c.sequence ≠ 0)
    (hfree : store (checkpointTransactionsKey c.sequence) = none) :
    recoverCheckpoint codec store' c.sequence = some c := by
  obtain ⟨bytes, hstored, hencoded⟩ := h.metadata
  have hmetadata : loadCheckpointMetadata codec store' c.sequence = some c.stripped := by
    simp [loadCheckpointMetadata, loadCheckpointRecord, h.json, hstored,
      codec.checkpoint_roundTrip _ _ hencoded]
  have hpayload := h.payload
  rw [beq_false_of_ne hsequence, Bool.or_false] at hpayload
  have htransactions : (loadCheckpointTransactions codec store' c.sequence).getD [] = c.transactions := by
    split_ifs at hpayload with hempty
    · rw [loadCheckpointTransactions, hpayload, hfree, List.isEmpty_iff.mp hempty]
      rfl
    · obtain ⟨payload, hpayload, hdecoded⟩ := hpayload
      simp [loadCheckpointTransactions, hpayload, codec.transactions_roundTrip _ _ hdecoded,
        Except.toOption]
  rw [recoverCheckpoint, hmetadata, stripped_eq]
  show some { checkpointWithoutTransactions c with
    transactions := (loadCheckpointTransactions codec store' c.sequence).getD [] } = some c
  rw [htransactions]
  rfl

/-- A checkpoint of any hash version that was persisted into a store without a payload for its
sequence is recovered as it was, so with the same hash. -/
theorem persisted_checkpoint_recovered (codec : StoreCodec) (env : AdmissionEnv) (persistHashIndex : Bool)
    (store : RawStore) (c : Checkpoint) (markHistoryPersisted : Bool) (hsequence : c.sequence ≠ 0)
    (hfree : store (checkpointTransactionsKey c.sequence) = none)
    {updates : List (RawKey × Bytes)} {deletes : List RawKey}
    (h : checkpointPersistenceRawChanges codec env persistHashIndex store c markHistoryPersisted =
      .ok (updates, deletes)) :
    ∃ recovered, recoverCheckpoint codec (store.applyRawChanges updates deletes) c.sequence = some recovered ∧
      recovered = c ∧ env.hash recovered = env.hash c :=
  ⟨c, (persisted_of_changes h).recover hsequence hfree, rfl, rfl⟩

/-- A codec that knows one checkpoint only. -/
def oneCheckpointCodec (c : Checkpoint) : StoreCodec where
  encodeCheckpoint := fun d => if d = c.stripped then .ok [1] else .error "unknown"
  decodeCheckpoint := fun _ => .ok c.stripped
  decodeLegacy := fun _ => .error "unknown"
  decodeJson := fun _ => .error "unknown"
  encodeTransactions := fun txs => if txs = c.transactions then .ok [2] else .error "unknown"
  decodeTransactions := fun _ => .ok c.transactions
  encodeLocation := fun _ => .ok []
  encodeHashes := fun _ => .ok []
  decodeHashes := fun _ => .ok []
  encodeWatermark := fun _ => .ok []
  decodeWatermark := fun _ => .ok .empty
  encodeSequence := fun _ => .ok []
  checkpoint_roundTrip := by
    intro d bytes h
    split_ifs at h with hd
    rw [hd]
  transactions_roundTrip := by
    intro txs bytes h
    split_ifs at h with htxs
    rw [htxs]

/-- A checkpoint of version 1 with a transaction and an effect, into an empty store. -/
theorem persisted_checkpoint_recovered_version_one :
    let c : Checkpoint := ⟨3, [], [⟨⟨⟨"Ed25519:0xa", none, 100, 1, 7⟩, .publishPackage []⟩, [1]⟩], [[9]], [], [], [],
      5, [], 1⟩
    ∃ updates deletes,
      checkpointPersistenceRawChanges (oneCheckpointCodec c) plainEnv true (fun _ => none) c true =
          .ok (updates, deletes) ∧
        recoverCheckpoint (oneCheckpointCodec c) (applyRawChanges (fun _ => none) updates deletes) 3 = some c := by
  intro c
  refine ⟨_, _, rfl, ?_⟩
  obtain ⟨recovered, hrecovered, rfl, -⟩ := persisted_checkpoint_recovered (oneCheckpointCodec c) plainEnv true
    (fun _ => none) c true (by decide) rfl rfl
  exact hrecovered

end Kanari.Proofs

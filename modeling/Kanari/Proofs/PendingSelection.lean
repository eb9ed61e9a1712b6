import Kanari.Proofs.MempoolAccounting

/-!
# Selection of a batch from the mempool

Conflicting transactions are thinned out and the list is cut to the limits of a vertex. The hashes
differ, so the sorted list is a function of the set of pending transactions.
-/

namespace Kanari.Proofs

open Lib AdmissionEnv MempoolState

variable {env : AdmissionEnv}

/-! ## The greedy pass -/

def Disjoint₂ (a b : SignedTransaction) : Prop :=
  ∀ k, a.transaction.getConflictKeys.contains k = true → b.transaction.getConflictKeys.contains k = false

lemma selectConflictFreeFrom_sublist (reserved : OrdSet String) (txs : List SignedTransaction) :
    (selectConflictFreeFrom reserved txs).Sublist txs := by
  induction txs generalizing reserved with
  | nil => exact List.Sublist.refl _
  | cons tx rest ih =>
    simp only [selectConflictFreeFrom]
    split_ifs
    · exact (ih reserved).cons tx
    · exact (ih _).cons_cons tx

lemma selectConflictFreeFrom_disjoint (reserved : OrdSet String) (txs : List SignedTransaction) :
    (selectConflictFreeFrom reserved txs).Pairwise Disjoint₂ ∧
      ∀ tx ∈ selectConflictFreeFrom reserved txs, ∀ k, reserved.contains k = true →
        tx.transaction.getConflictKeys.contains k = false := by
  induction txs generalizing reserved with
  | nil => exact ⟨List.Pairwise.nil, fun _ h => absurd h List.not_mem_nil⟩
  | cons tx rest ih =>
    simp only [selectConflictFreeFrom]
    split_ifs with hconflict
    · exact ih reserved
    obtain ⟨hpairwise, havoid⟩ := ih (OrdSet.addAll reserved (OrdSet.elems tx.transaction.getConflictKeys))
    have hkeys : ∀ k, reserved.contains k = true ∨ tx.transaction.getConflictKeys.contains k = true →
        (OrdSet.addAll reserved (OrdSet.elems tx.transaction.getConflictKeys)).contains k = true := by
      intro k hk
      rw [OrdSet.contains_addAll, Bool.or_eq_true, decide_eq_true_eq, OrdSet.mem_elems]
      exact hk.symm
    refine ⟨List.pairwise_cons.mpr ⟨fun later hlater k hk => ?_, hpairwise⟩, fun t ht k hk => ?_⟩
    · exact havoid later hlater k (hkeys k (.inr hk))
    · rcases List.mem_cons.mp ht with rfl | ht
      · rw [← Bool.not_eq_true]
        intro hown
        exact hconflict (List.any_eq_true.mpr ⟨k, OrdSet.mem_elems.mpr hown, hk⟩)
      · exact havoid t ht k (hkeys k (.inl hk))

lemma selectConflictFree_cons (tx : SignedTransaction) (rest : List SignedTransaction) :
    ∃ others, selectConflictFreeTransactions (tx :: rest) = tx :: others := by
  have hnone : (OrdSet.elems tx.transaction.getConflictKeys).any
      (OrdMap.contains (.empty : OrdSet String)) = false := by
    rw [List.any_eq_false]
    intro k _ hk
    cases hk
  refine ⟨selectConflictFreeFrom
    (OrdSet.addAll .empty (OrdSet.elems tx.transaction.getConflictKeys)) rest, ?_⟩
  simp only [selectConflictFreeTransactions, selectConflictFreeFrom, hnone, Bool.false_eq_true, if_false]

/-! ## The pass under the limits -/

def signedBytes (env : AdmissionEnv) (tx : SignedTransaction) : Nat :=
  match env.signedSize tx with
  | .ok size => size
  | .error _ => 0

/-- Everything that the pass guarantees from an arbitrary point of the loop. -/
structure WithinLimits (env : AdmissionEnv) (cap taken : Nat) (hot : OrdMap String Nat) (bytes : Nat)
    (ready : List SignedTransaction) : Prop where
  count : taken ≤ MAX_DAG_VERTEX_TRANSACTIONS → taken + ready.length ≤ MAX_DAG_VERTEX_TRANSACTIONS
  bytes : bytes ≤ MAX_DAG_VERTEX_TRANSACTION_BYTES →
    bytes + (ready.map (signedBytes env)).sum ≤ MAX_DAG_VERTEX_TRANSACTION_BYTES
  hot : (∀ k, countOf hot k ≤ cap) →
    ∀ k, countOf hot k + (ready.map (·.transaction.primaryAccessKey)).count k ≤ cap

lemma WithinLimits.nil (cap taken : Nat) (hot : OrdMap String Nat) (bytes : Nat) :
    WithinLimits env cap taken hot bytes [] :=
  ⟨fun h => h, fun h => h, fun h k => by simpa using h k⟩

variable {tx : SignedTransaction}

lemma WithinLimits.cons {cap taken : Nat} {hot : OrdMap String Nat} {bytes size : Nat}
    {ready : List SignedTransaction} (htaken : taken < MAX_DAG_VERTEX_TRANSACTIONS)
    (hroom : countOf hot tx.transaction.primaryAccessKey < cap)
    (hsize : env.signedSize tx = .ok size)
    (hbytes : bytes + size ≤ MAX_DAG_VERTEX_TRANSACTION_BYTES)
    (h : WithinLimits env cap (taken + 1) (bump hot tx.transaction.primaryAccessKey 1) (bytes + size) ready) :
    WithinLimits env cap taken hot bytes (tx :: ready) where
  count := by
    intro _
    have := h.count htaken
    rw [List.length_cons]
    omega
  bytes := by
    intro _
    have := h.bytes hbytes
    have hown : signedBytes env tx = size := by simp [signedBytes, hsize]
    rw [List.map_cons, List.sum_cons, hown]
    omega
  hot := by
    intro hcap k
    have hbumped : ∀ k, countOf (bump hot tx.transaction.primaryAccessKey 1) k ≤ cap := by
      intro k
      rw [countOf_bump]
      split_ifs with hk
      · subst hk
        omega
      · exact hcap k
    have hrest := h.hot hbumped k
    rw [countOf_bump] at hrest
    rw [List.map_cons, List.count_cons]
    by_cases hk : k = tx.transaction.primaryAccessKey
    · rw [if_pos hk] at hrest
      rw [if_pos (by rw [hk]; exact BEq.refl _)]
      omega
    · rw [if_neg hk] at hrest
      rw [if_neg (by rw [beq_iff_eq]; exact Ne.symm hk)]
      omega

lemma takeReady_sublist (cap taken : Nat) (hot : OrdMap String Nat) (bytes : Nat)
    (txs : List SignedTransaction) : (takeReady env cap taken hot bytes txs).Sublist txs := by
  induction txs generalizing taken hot bytes with
  | nil => exact List.Sublist.refl _
  | cons tx rest ih =>
    simp only [takeReady]
    split_ifs
    · exact List.nil_sublist _
    · exact (ih taken hot bytes).cons tx
    · cases env.signedSize tx with
      | error e => exact List.nil_sublist _
      | ok size =>
        simp only
        split_ifs
        · exact List.nil_sublist _
        · exact (ih _ _ _).cons_cons tx

lemma takeReady_withinLimits (cap taken : Nat) (hot : OrdMap String Nat) (bytes : Nat)
    (txs : List SignedTransaction) :
    WithinLimits env cap taken hot bytes (takeReady env cap taken hot bytes txs) := by
  induction txs generalizing taken hot bytes with
  | nil => exact WithinLimits.nil cap taken hot bytes
  | cons tx rest ih =>
    simp only [takeReady]
    split_ifs with hfull hhot
    · exact WithinLimits.nil cap taken hot bytes
    · exact ih taken hot bytes
    · cases hsize : env.signedSize tx with
      | error e => exact WithinLimits.nil cap taken hot bytes
      | ok size =>
        simp only
        split_ifs with hbytes
        · exact WithinLimits.nil cap taken hot bytes
        · rw [not_or, not_lt] at hbytes
          exact WithinLimits.cons (Nat.lt_of_not_le hfull) (Nat.lt_of_not_le hhot) hsize hbytes.2
            (ih (taken + 1) _ (bytes + size))

/-! ## Admitted transactions -/

/-- The hashes differ, and the sizes are those that admission lets through. -/
structure AllAdmitted (env : AdmissionEnv) (pool : MempoolState) : Prop where
  distinct : (pool.pendingSignedTransactions.map env.transactionHash).Nodup
  transactionSize : ∀ tx ∈ pool.pendingSignedTransactions,
    ∃ n, env.transactionSize tx.transaction = .ok n ∧ n ≤ MAX_TRANSACTION_BYTES
  signatureSize : ∀ tx ∈ pool.pendingSignedTransactions, tx.signature.length ≤ MAX_SIGNATURE_SIZE

lemma AllAdmitted.fits {pool : MempoolState} (h : AllAdmitted env pool)
    (htx : tx ∈ pool.pendingSignedTransactions) :
    ∃ size, env.signedSize tx = .ok size ∧ size ≤ MAX_DAG_VERTEX_TRANSACTION_BYTES := by
  obtain ⟨n, hn, hle⟩ := h.transactionSize tx htx
  have hsig := h.signatureSize tx htx
  refine ⟨n + ulebLength tx.signature.length + tx.signature.length, ?_, ?_⟩
  · simp only [signedSize, hn, ok_bind, pure_eq_ok]
  · have huleb : ulebLength tx.signature.length ≤ 5 := by
      unfold ulebLength
      split_ifs <;> omega
    unfold MAX_TRANSACTION_BYTES at hle
    unfold MAX_SIGNATURE_SIZE at hsig
    unfold MAX_DAG_VERTEX_TRANSACTION_BYTES
    omega

lemma verifiedTransactionHash_ok {txHash : Bytes} (h : env.verifiedTransactionHash tx = .ok txHash) :
    txHash = env.transactionHash tx ∧ tx.signature.length ≤ MAX_SIGNATURE_SIZE ∧
      ∃ tag address, splitOnce ':' tx.transaction.header.sender.toList = some (tag, address) := by
  unfold verifiedTransactionHash at h
  simp only [bind_eq_ok, mapError_eq_ok, pure_eq_ok, Except.ok.injEq] at h
  obtain ⟨-, -, verified, hverified, -, -, rfl⟩ := h
  unfold verifySignature at hverified
  simp only [bind_eq_ok, ensure_eq_ok, decide_eq_true_eq] at hverified
  obtain ⟨-, -, -, hsize, -, -, -, -, -, -, htag⟩ := hverified
  refine ⟨rfl, hsize, ?_⟩
  cases hsplit : splitOnce ':' tx.transaction.header.sender.toList with
  | none =>
    rw [hsplit] at htag
    cases htag
  | some parts => exact ⟨parts.1, parts.2, rfl⟩

def MempoolEvent.VerifiedIn (env : AdmissionEnv) : MempoolEvent → Prop
  | .submit env' _ _ _ => env' = env
  | _ => True

lemma records_afterEvent {P : PendingTransactionRecord → Prop}
    (hverify : ∀ metadata signed tx, env.verifyForMempool metadata signed = .ok tx → P (tx.toRecord metadata))
    {pool : MempoolState} {event : MempoolEvent} (hevent : event.VerifiedIn env)
    (h : ∀ r ∈ pool.pendingTxs, P r) : ∀ r ∈ (afterEvent pool event).pendingTxs, P r := by
  have hremove : ∀ targets, ∀ r ∈ (pool.removeMatching targets).pendingTxs, P r := by
    intro targets r hr
    unfold MempoolState.removeMatching at hr
    rw [foldl_forget] at hr
    exact h r (List.mem_filter.mp hr).1
  cases event with
  | submit env' view signedTxs metadata =>
    obtain rfl : env' = env := hevent
    rcases submit_cases pool env' view signedTxs metadata with
      ⟨r, heq, -⟩ | ⟨batch, batchBytes, executed, acc, hprepared, -, heq⟩
    · simp only [afterEvent, heq]
      exact h
    · obtain ⟨verified, hverified, hperm, -⟩ := prepareBatch_ok hprepared
      simp only [afterEvent, heq, MempoolState.insertBatch]
      intro r hr
      rcases List.mem_append.mp hr with hr | hr
      · exact h r hr
      · obtain ⟨tx, htx, rfl⟩ := List.mem_map.mp hr
        obtain ⟨signed, -, hsigned⟩ := mem_of_mapM_ok hverified tx (hperm.mem_iff.mp htx)
        exact hverify _ _ _ hsigned
  | remove hashes =>
    simp only [afterEvent, removePendingTransactionsByHashes]
    split_ifs
    · exact h
    · exact hremove hashes
  | commit committedHashes =>
    simp only [afterEvent, MempoolState.dropCommitted]
    split_ifs
    · exact fun r hr => absurd hr List.not_mem_nil
    · exact hremove committedHashes

lemma records_run {P : PendingTransactionRecord → Prop}
    (hverify : ∀ metadata signed tx, env.verifyForMempool metadata signed = .ok tx → P (tx.toRecord metadata))
    {events : List MempoolEvent} (hevents : ∀ event ∈ events, event.VerifiedIn env) :
    ∀ r ∈ (events.foldl afterEvent {}).pendingTxs, P r := by
  apply List.foldlRecOn events afterEvent (motive := fun pool => ∀ r ∈ pool.pendingTxs, P r)
  · exact fun r hr => absurd hr List.not_mem_nil
  · exact fun pool hpool event hevent => records_afterEvent hverify (hevents event hevent) hpool

structure RecordAdmitted (env : AdmissionEnv) (r : PendingTransactionRecord) : Prop where
  hash : r.txHash = env.transactionHash r.signedTx
  transactionSize : ∃ n, env.transactionSize r.signedTx.transaction = .ok n ∧ n ≤ MAX_TRANSACTION_BYTES
  signatureSize : r.signedTx.signature.length ≤ MAX_SIGNATURE_SIZE

lemma verifyForMempool_admitted {metadata : PendingTransactionMetadata} {signed : SignedTransaction}
    {tx : VerifiedTx} (h : env.verifyForMempool metadata signed = .ok tx) :
    RecordAdmitted env (tx.toRecord metadata) := by
  unfold verifyForMempool at h
  obtain ⟨txHash, hhash, h⟩ := bind_eq_ok.mp h
  obtain ⟨_, hshape, h⟩ := bind_eq_ok.mp h
  obtain ⟨sizeBytes, -, h⟩ := bind_eq_ok.mp h
  cases h
  obtain ⟨rfl, hsignature, -⟩ := verifiedTransactionHash_ok hhash
  unfold validateTransactionAdmissionShape at hshape
  obtain ⟨n, hsize, hshape⟩ := bind_eq_ok.mp hshape
  obtain ⟨_, hle, -⟩ := bind_eq_ok.mp hshape
  exact ⟨rfl, ⟨n, hsize, of_decide_eq_true (ensure_eq_ok.mp hle)⟩, hsignature⟩

lemma allAdmitted_run {events : List MempoolEvent} (hevents : ∀ event ∈ events, event.VerifiedIn env) :
    AllAdmitted env (events.foldl afterEvent {}) := by
  have hrecords : ∀ r ∈ (events.foldl afterEvent {}).pendingTxs, RecordAdmitted env r :=
    records_run (fun _ _ _ h => verifyForMempool_admitted h) hevents
  have hbooks := (foldl_invariant Accounted (fun pool event h => h.afterEvent event) events
    accounted_empty).books
  refine ⟨?_, List.forall_mem_map.mpr fun r hr => (hrecords r hr).transactionSize,
    List.forall_mem_map.mpr fun r hr => (hrecords r hr).signatureSize⟩
  have hhashes := hbooks.hashesNodup
  rw [List.map_congr_left fun r hr => (hrecords r hr).hash] at hhashes
  rwa [pendingSignedTransactions, List.map_map]

lemma takeReady_cons {cap : Nat} (hcap : 1 ≤ cap) {rest : List SignedTransaction} {size : Nat}
    (hsize : env.signedSize tx = .ok size) (hle : size ≤ MAX_DAG_VERTEX_TRANSACTION_BYTES) :
    takeReady env cap 0 .empty 0 (tx :: rest) ≠ [] := by
  have hcount : ¬ MAX_DAG_VERTEX_TRANSACTIONS ≤ 0 := by decide
  have hhot : ¬ cap ≤ countOf (.empty : OrdMap String Nat) tx.transaction.primaryAccessKey := by
    rw [countOf_empty]
    omega
  have hbytes : ¬ (u64Bound ≤ 0 + size ∨ MAX_DAG_VERTEX_TRANSACTION_BYTES < 0 + size) := by
    have hbound : MAX_DAG_VERTEX_TRANSACTION_BYTES < u64Bound := by decide
    omega
  simp only [takeReady, if_neg hcount, if_neg hhot, hsize, if_neg hbytes]
  exact List.cons_ne_nil _ _

/-! ## The order of admission -/

lemma pendingSortKey_hash {H : HashEnv} {laneAware : Bool} {a b : SignedTransaction}
    (h : pendingSortKey H laneAware a = pendingSortKey H laneAware b) :
    H.transactionHash a = H.transactionHash b := by
  simp only [pendingSortKey, sortKey, toLex_inj, Prod.mk.injEq] at h
  exact List.map_injective_iff.mpr (fun _ _ => UInt8.toNat_inj.mp) h.2.2.2.2

lemma mergeSort_eq_of_perm {H : HashEnv} {laneAware : Bool} {l l' : List SignedTransaction}
    (hperm : l'.Perm l) (hdistinct : (l.map H.transactionHash).Nodup) :
    l'.mergeSort (fun a b => decide (pendingSortKey H laneAware a ≤ pendingSortKey H laneAware b)) =
      l.mergeSort fun a b => decide (pendingSortKey H laneAware a ≤ pendingSortKey H laneAware b) := by
  have hsorted : ∀ m : List SignedTransaction, (m.mergeSort fun a b =>
      decide (pendingSortKey H laneAware a ≤ pendingSortKey H laneAware b)).Pairwise
      fun a b => decide (pendingSortKey H laneAware a ≤ pendingSortKey H laneAware b) = true := by
    intro m
    apply List.pairwise_mergeSort
    · intro a b c hab hbc
      rw [decide_eq_true_eq] at *
      exact hab.trans hbc
    · intro a b
      rw [Bool.or_eq_true, decide_eq_true_eq, decide_eq_true_eq]
      exact le_total _ _
  refine List.Perm.eq_of_pairwise ?_ (hsorted l') (hsorted l)
    ((List.mergeSort_perm l' _).trans (hperm.trans (List.mergeSort_perm l _).symm))
  intro a b ha hb hab hba
  rw [decide_eq_true_eq] at hab hba
  have ha' : a ∈ l := hperm.mem_iff.mp (List.mem_mergeSort.mp ha)
  exact List.inj_on_of_nodup_map hdistinct ha' (List.mem_mergeSort.mp hb)
    (pendingSortKey_hash (le_antisymm hab hba))

/-! ## The selected batch -/

structure ReadyBatch (env : AdmissionEnv) (pool : MempoolState) (cap : Nat)
    (ready : List SignedTransaction) : Prop where
  pending : ∀ tx ∈ ready, tx ∈ pool.pendingSignedTransactions
  distinct : (ready.map env.transactionHash).Nodup
  conflictFree : ready.Pairwise Disjoint₂
  count : ready.length ≤ MAX_DAG_VERTEX_TRANSACTIONS
  sizes : ∀ tx ∈ ready, env.signedSize tx = .ok (signedBytes env tx)
  bytes : (ready.map (signedBytes env)).sum ≤ MAX_DAG_VERTEX_TRANSACTION_BYTES
  hotObjects : ∀ k, (ready.map (·.transaction.primaryAccessKey)).count k ≤ cap
  nonempty : pool.pendingTxs ≠ [] → ready ≠ []

/-- The batch is conflict-free, within every limit and not empty without need, and it is the same
for every order in which the transactions came. -/
theorem pending_selection (env : AdmissionEnv) (pool : MempoolState) (laneAware : Bool) (cap : Nat)
    (hadmitted : AllAdmitted env pool) (hcap : 1 ≤ cap) :
    ReadyBatch env pool cap (pendingConflictFreeTransactionsSnapshot env pool laneAware cap) ∧
      ∀ pool', pool'.pendingSignedTransactions.Perm pool.pendingSignedTransactions →
        pendingConflictFreeTransactionsSnapshot env pool' laneAware cap =
          pendingConflictFreeTransactionsSnapshot env pool laneAware cap := by
  set sorted := pool.pendingSignedTransactions.mergeSort fun a b =>
    decide (pendingSortKey env.toHashEnv laneAware a ≤ pendingSortKey env.toHashEnv laneAware b) with hsorted
  have hperm : sorted.Perm pool.pendingSignedTransactions := List.mergeSort_perm _ _
  have hready : pendingConflictFreeTransactionsSnapshot env pool laneAware cap =
      takeReady env cap 0 .empty 0 (selectConflictFreeTransactions sorted) := rfl
  have hsub : (takeReady env cap 0 .empty 0 (selectConflictFreeTransactions sorted)).Sublist
      (selectConflictFreeTransactions sorted) := takeReady_sublist ..
  have hsub' := hsub.trans (selectConflictFreeFrom_sublist .empty sorted)
  have hmem : ∀ tx ∈ takeReady env cap 0 .empty 0 (selectConflictFreeTransactions sorted),
      tx ∈ pool.pendingSignedTransactions := fun tx htx => hperm.mem_iff.mp (hsub'.subset htx)
  have hlimits : WithinLimits env cap 0 .empty 0
      (takeReady env cap 0 .empty 0 (selectConflictFreeTransactions sorted)) := takeReady_withinLimits ..
  refine ⟨?_, ?_⟩
  · rw [hready]
    refine {
      pending := hmem
      distinct := ((hperm.map env.transactionHash).nodup_iff.mpr hadmitted.distinct).sublist (hsub'.map _)
      conflictFree := (selectConflictFreeFrom_disjoint .empty sorted).1.sublist hsub
      count := by simpa using hlimits.count (Nat.zero_le _)
      sizes := ?_
      bytes := by simpa using hlimits.bytes (Nat.zero_le _)
      hotObjects := fun k => by simpa using hlimits.hot (fun k => Nat.zero_le _) k
      nonempty := ?_ }
    · intro tx htx
      obtain ⟨size, hsize, -⟩ := hadmitted.fits (hmem tx htx)
      simp only [signedBytes, hsize]
    · intro hne
      cases hcases : sorted with
      | nil =>
        have hnil : pool.pendingSignedTransactions = [] := (hcases ▸ hperm).nil_eq.symm
        exact absurd (List.map_eq_nil_iff.mp hnil) hne
      | cons first rest =>
        have hfirst : first ∈ pool.pendingSignedTransactions :=
          hperm.mem_iff.mp (hcases ▸ List.mem_cons_self)
        obtain ⟨others, hothers⟩ := selectConflictFree_cons first rest
        obtain ⟨size, hsize, hle⟩ := hadmitted.fits hfirst
        rw [hothers]
        exact takeReady_cons hcap hsize hle
  · intro pool' hpool'
    unfold pendingConflictFreeTransactionsSnapshot
    rw [mergeSort_eq_of_perm hpool' hadmitted.distinct]

def sampleTx (nonce : Nat) : SignedTransaction where
  transaction := ⟨⟨"Ed25519:0xa", none, 100, 1, nonce⟩, .publishPackage []⟩
  signature := [1]

def sampleEnv : AdmissionEnv where
  txHash := fun tx => Text.leBytes 8 tx.header.nonce
  hashPreimage := fun _ => .ok []
  emptyStateRoot := []
  hashPublicKey := fun _ _ => none
  transactionSize := fun _ => .ok 100
  isCurveTag := fun _ => true
  verifyWithCurve := fun _ _ _ _ => .ok true
  lowercase := id
  parsesTypeTag := fun _ => true

def sampleSubmissions : List MempoolEvent :=
  [1, 2].map fun nonce => .submit sampleEnv ⟨0, fun _ => .ok false, .ok .empty⟩ [sampleTx nonce] {}

def samplePool : MempoolState := sampleSubmissions.foldl afterEvent {}

lemma samplePool_admitted : AllAdmitted sampleEnv samplePool := by
  refine allAdmitted_run fun event hevent => ?_
  obtain ⟨nonce, -, rfl⟩ := List.mem_map.mp hevent
  rfl

theorem pending_selection_sample :
    samplePool.pendingTxs.length = 2 ∧
      pendingConflictFreeTransactionsSnapshot sampleEnv samplePool true 64 ≠ [] := by
  have hlength : samplePool.pendingTxs.length = 2 := by decide +kernel
  have hne : samplePool.pendingTxs ≠ [] := List.ne_nil_of_length_pos (by omega)
  exact ⟨hlength,
    (pending_selection sampleEnv samplePool true 64 samplePool_admitted (by decide)).1.nonempty hne⟩

end Kanari.Proofs

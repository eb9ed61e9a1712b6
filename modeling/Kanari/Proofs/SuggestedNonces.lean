import Kanari.Proofs.NonceWatermark

/-!
# The suggested nonce

The sum of the highest committed nonce and the number of pending transactions passes the pending
nonces only if they leave no gap that is wider than their number.
-/

namespace Kanari.Proofs

open Lib Node PersistentStore MempoolState

variable {σ : Type} {env : AdmissionEnv} {account : String}

def persistAll (cfg : NodeConfig) (env : AdmissionEnv) (mark : Bool) (history : List Checkpoint)
    (s : PersistentStore σ) : PersistentStore σ :=
  history.foldl (fun s c => persistCheckpoint cfg env mark c s) s

lemma noncesOf_append (txs txs' : List SignedTransaction) :
    noncesOf env account (txs ++ txs') = noncesOf env account txs ++ noncesOf env account txs' := by
  simp [noncesOf]

lemma mark_persistAll (cfg : NodeConfig) {history : List Checkpoint} (hseq : ∀ c ∈ history, c.sequence ≠ 0)
    (hrange : ∀ c ∈ history, Carries (NonceInRange env account) c) (mark : Bool) {s : PersistentStore σ}
    (hlow : countOf s.senderNonceWatermark account < MAX_WATERMARK) :
    countOf (persistAll cfg env mark history s).senderNonceWatermark account =
        (noncesOf env account (history.flatMap (·.transactions))).foldl max
          (countOf s.senderNonceWatermark account) ∧
      countOf (persistAll cfg env mark history s).senderNonceWatermark account < MAX_WATERMARK := by
  induction history generalizing s with
  | nil => exact ⟨rfl, hlow⟩
  | cons c history ih =>
    have hc := hrange c List.mem_cons_self
    have hraised := raiseWatermark_mark hc s.senderNonceWatermark
    have hmark : countOf (persistCheckpoint cfg env mark c s).senderNonceWatermark account =
          (noncesOf env account c.transactions).foldl max (countOf s.senderNonceWatermark account) ∧
        countOf (persistCheckpoint cfg env mark c s).senderNonceWatermark account < MAX_WATERMARK := by
      rw [persistCheckpoint_watermark]
      split_ifs with hskip
      · have hempty : c.transactions = [] := by simpa [hseq c List.mem_cons_self] using hskip
        rw [hempty]
        exact ⟨rfl, hlow⟩
      · refine ⟨?_, hraised.1⟩
        rw [countOf_raiseWatermark, cappedWatermark, if_neg (not_le.mpr hlow)]
    have hrest := ih (fun d hd => hseq d (List.mem_cons_of_mem _ hd))
      (fun d hd => hrange d (List.mem_cons_of_mem _ hd)) hmark.2
    rw [hmark.1] at hrest
    rw [List.flatMap_cons, noncesOf_append, List.foldl_append]
    exact hrest

lemma pendingCount_run {events : List MempoolEvent} (hevents : ∀ event ∈ events, event.VerifiedIn env)
    (address : String) :
    (events.foldl afterEvent {}).pendingTxCountForSender env address =
      (noncesOf env (env.normalizeAddr address)
        (events.foldl afterEvent {}).pendingSignedTransactions).length := by
  have hsender : ∀ r ∈ (events.foldl afterEvent {}).pendingTxs,
      r.normalizedSender = env.normalizeAddr r.signedTx.transaction.header.sender := by
    refine records_run (P := fun r =>
      r.normalizedSender = env.normalizeAddr r.signedTx.transaction.header.sender) ?_ hevents
    intro metadata signed tx hverify
    have hsigned : tx.signedTx = signed := by
      obtain ⟨txHash, -, h⟩ := bind_eq_ok.mp hverify
      obtain ⟨⟨⟩, -, h⟩ := bind_eq_ok.mp h
      obtain ⟨size, -, h⟩ := bind_eq_ok.mp h
      cases h
      rfl
    show tx.normalizedSender = env.normalizeAddr tx.signedTx.transaction.header.sender
    rw [hsigned]
    exact (verifyForMempool_ok hverify).2.2.1
  have hbooks := foldl_invariant Accounted (fun pool event h => h.afterEvent event) events accounted_empty
  rw [pendingTxCountForSender, hbooks.bySender.count, List.map_congr_left hsender, List.count, List.countP_map,
    noncesOf, List.length_map, pendingSignedTransactions, ← List.countP_eq_length_filter, List.countP_map]
  rfl

lemma checkNonce_above {watermark : OrdMap String Nat} {tx : AdmissionEnv.VerifiedTx}
    (h : countOf watermark tx.normalizedSender < tx.nonce) : checkNonce watermark tx = .ok () := by
  unfold checkNonce
  unfold countOf at h
  cases hfind : watermark.find? tx.normalizedSender with
  | none => rfl
  | some maxCommitted =>
    rw [hfind] at h
    exact ensure_eq_ok.mpr (by simpa using h)

/-- With a history in the store and any mempool: the suggested nonce is never stale, and it is above
every committed and pending nonce exactly if no pending nonce exceeds the highest committed one by
more than there are pending transactions. -/
theorem expected_nonce_above_iff (cfg : NodeConfig) (chain : Blockchain) (state : σ) (mark : Bool)
    (history : List Checkpoint) (events : List MempoolEvent) (address : String)
    (hevents : ∀ event ∈ events, event.VerifiedIn env)
    (hseq : ∀ c ∈ history, c.sequence ≠ 0)
    (hrange : ∀ c ∈ history, Carries (NonceInRange env (env.normalizeAddr address)) c) :
    let node : Node σ := ⟨chain, state, some (persistAll cfg env mark history {}), events.foldl afterEvent {}⟩
    let committed := noncesOf env (env.normalizeAddr address) (history.flatMap (·.transactions))
    let pending := noncesOf env (env.normalizeAddr address) node.mempool.pendingSignedTransactions
    ((∀ k ∈ committed ++ pending, k < node.getExpectedNonce env address) ↔
        ∀ k ∈ pending, k ≤ committed.foldl max 0 + pending.length) ∧
      ∀ tx : AdmissionEnv.VerifiedTx, tx.normalizedSender = env.normalizeAddr address →
        tx.nonce = node.getExpectedNonce env address →
        checkNonce ((persistAll cfg env mark history ({} : PersistentStore σ)).senderNonceWatermark.mapValues
          cappedWatermark) tx = .ok () := by
  intro node committed pending
  obtain ⟨hmark, hbound⟩ := mark_persistAll cfg hseq hrange mark (s := ({} : PersistentStore σ))
    (Nat.two_pow_pos 53)
  have hcapped : cappedWatermark (countOf (persistAll cfg env mark history
      ({} : PersistentStore σ)).senderNonceWatermark (env.normalizeAddr address)) = committed.foldl max 0 := by
    rw [cappedWatermark, if_neg (not_le.mpr hbound), hmark]
    rfl
  have hcount : node.mempool.pendingTxCountForSender env address = pending.length :=
    pendingCount_run hevents address
  have hsize : pending.length ≤ MAX_PENDING_PER_SENDER := by
    rw [← hcount]
    exact (foldl_invariant Accounted (fun pool event h => h.afterEvent event) events accounted_empty).senderCap _
  have hexpected : node.getExpectedNonce env address = pending.length + committed.foldl max 0 + 1 := by
    have hroom : committed.foldl max 0 < MAX_WATERMARK := by
      rw [← hcapped]
      exact cappedWatermark_lt _
    unfold getExpectedNonce
    simp only [node, Option.map_some, Option.getD_some, hcapped]
    rw [show pendingTxCountForSender env (events.foldl afterEvent {}) address = pending.length from hcount]
    unfold saturatingAdd u64Bound
    unfold MAX_PENDING_PER_SENDER at hsize
    unfold MAX_WATERMARK at hroom
    omega
  obtain ⟨-, hcommitted⟩ := foldl_max_le.mp (le_refl (committed.foldl max 0))
  rw [hexpected]
  refine ⟨⟨fun h k hk => ?_, fun h k hk => ?_⟩, fun tx hsender hnonce => checkNonce_above ?_⟩
  · have := h k (List.mem_append_right _ hk)
    omega
  · rcases List.mem_append.mp hk with hk | hk
    · have := hcommitted k hk
      omega
    · have := h k hk
      omega
  · rw [hsender, countOf_capped, hcapped, hnonce]
    omega

def committedNode : Node Unit where
  chain := Blockchain.new plainEnv.toHashEnv
  state := ()
  store := some (persistAll {} plainEnv true [publicationCheckpoint 7] {})

def laterSubmissions : List MempoolEvent :=
  [8, 9].map fun nonce => .submit plainEnv committedNode.admissionView [sampleTx nonce] {}

/-- One transaction with nonce 7 committed, and the next two pending. -/
theorem expected_nonce_above_iff_pending :
    let node : Node Unit := { committedNode with mempool := laterSubmissions.foldl afterEvent {} }
    noncesOf plainEnv (plainEnv.normalizeAddr "0xa") node.mempool.pendingSignedTransactions = [8, 9] ∧
      ∀ k ∈ [7, 8, 9], k < node.getExpectedNonce plainEnv "0xa" := by
  intro node
  have hpending : noncesOf plainEnv (plainEnv.normalizeAddr "0xa") node.mempool.pendingSignedTransactions =
      [8, 9] := by decide +kernel
  have hrange : ∀ c ∈ [publicationCheckpoint 7],
      Carries (NonceInRange plainEnv (plainEnv.normalizeAddr "0xa")) c := by
    intro c hc tx htx _
    obtain rfl := List.mem_singleton.mp hc
    obtain rfl := List.mem_singleton.mp htx
    decide
  have hevents : ∀ event ∈ laterSubmissions, event.VerifiedIn plainEnv := fun event h => by
    obtain ⟨nonce, -, rfl⟩ := List.mem_map.mp h
    rfl
  have habove := (expected_nonce_above_iff {} (Blockchain.new plainEnv.toHashEnv) () true
    [publicationCheckpoint 7] laterSubmissions "0xa" hevents (by decide) hrange).1.mpr
  rw [show noncesOf plainEnv (plainEnv.normalizeAddr "0xa") _ = _ from hpending] at habove
  exact ⟨hpending, habove (by decide)⟩

/-- Nothing committed and one pending transaction with nonce 5: the suggestion is 2. -/
theorem expected_nonce_below_pending :
    let pool := (startedNode.mempool.submitTransactionsBatch plainEnv startedNode.admissionView [sampleTx 5] {}).2
    let node : Node Unit := { startedNode with mempool := pool }
    (noncesOf plainEnv (plainEnv.normalizeAddr "Ed25519:0xa") node.mempool.pendingSignedTransactions = [5]) ∧
      node.getExpectedNonce plainEnv "Ed25519:0xa" = 2 := by
  decide +kernel

end Kanari.Proofs

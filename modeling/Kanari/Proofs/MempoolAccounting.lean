import Kanari.Mempool

/-!
# The mempool accounts for what is pending

The hashes, the bytes and the four maps of counters are what one would compute from the pending
records.
-/

namespace Kanari.Proofs

open Lib AdmissionEnv MempoolState

def touchedKeys (tx : PendingTransactionRecord) : List String := tx.primaryAccessKey :: tx.accessKeys

def pendingHashes (pool : MempoolState) : List Bytes := pool.pendingTxs.map (·.txHash)

structure Accounted (pool : MempoolState) : Prop where
  hashesNodup : (pendingHashes pool).Nodup
  hashes : pool.pendingTxHashes = (pendingHashes pool).toFinset
  bytes : pool.pendingBytes = (pool.pendingTxs.map (·.sizeBytes)).sum
  bySender : CountsOf pool.pendingSenderCounts (pool.pendingTxs.map (·.normalizedSender))
  byPrimary : CountsOf pool.pendingPrimaryAccessCounts (pool.pendingTxs.map (·.primaryAccessKey))
  byCongestion : CountsOf pool.pendingCongestionAccessCounts (pool.pendingTxs.map (·.congestionAccessKey))
  byAccess : CountsOf pool.pendingAccessCounts (pool.pendingTxs.flatMap touchedKeys)
  sizeCap : pool.pendingTxs.length ≤ MAX_MEMPOOL_SIZE
  bytesCap : pool.pendingBytes ≤ MAX_MEMPOOL_BYTES
  senderCap : ∀ s, countOf pool.pendingSenderCounts s ≤ MAX_PENDING_PER_SENDER
  primaryCap : ∀ k, countOf pool.pendingPrimaryAccessCounts k ≤ MAX_PENDING_PER_PRIMARY_ACCESS_LANE
  congestionCap : ∀ k, countOf pool.pendingCongestionAccessCounts k ≤ MAX_PENDING_PER_PRIMARY_ACCESS_LANE

lemma accounted_empty : Accounted {} where
  hashesNodup := List.nodup_nil
  hashes := rfl
  bytes := rfl
  bySender := .empty
  byPrimary := .empty
  byCongestion := .empty
  byAccess := .empty
  sizeCap := Nat.zero_le _
  bytesCap := Nat.zero_le _
  senderCap := fun _ => Nat.zero_le _
  primaryCap := fun _ => Nat.zero_le _
  congestionCap := fun _ => Nat.zero_le _

/-! ## Reservations of a batch -/

/-- The reservations count the transactions `done`, none of them pending, and leave every lane
within its limit. -/
structure Reserved (pool : MempoolState) (acc : Reservation) (done : List VerifiedTx) : Prop where
  accepted : acc.acceptedHashes = done.map (·.txHash)
  batch : acc.batchHashes = (done.map (·.txHash)).toFinset
  nodup : (done.map (·.txHash)).Nodup
  fresh : ∀ tx ∈ done, tx.txHash ∉ pool.pendingTxHashes
  bySender : CountsOf acc.bySender (done.map (·.normalizedSender))
  byPrimary : CountsOf acc.byPrimaryAccess (done.map (·.primaryAccessKey))
  byCongestion : CountsOf acc.byCongestionAccess (done.map (·.congestionAccessKey))
  byAccess : CountsOf acc.byAccess (done.flatMap fun tx => tx.primaryAccessKey :: tx.accessKeys)
  senderCap : ∀ s, countOf pool.pendingSenderCounts s + countOf acc.bySender s ≤ MAX_PENDING_PER_SENDER
  primaryCap : ∀ k, countOf pool.pendingPrimaryAccessCounts k + countOf acc.byPrimaryAccess k ≤
    MAX_PENDING_PER_PRIMARY_ACCESS_LANE
  congestionCap : ∀ k, countOf pool.pendingCongestionAccessCounts k + countOf acc.byCongestionAccess k ≤
    MAX_PENDING_PER_PRIMARY_ACCESS_LANE

variable {pool : MempoolState} {executed : Bytes → Bool} {watermark : OrdMap String Nat}
  {acc acc' : Reservation} {batchBytes : Nat}

lemma reserved_nil (h : Accounted pool) : Reserved pool {} [] where
  accepted := rfl
  batch := rfl
  nodup := List.nodup_nil
  fresh := fun _ htx => absurd htx List.not_mem_nil
  bySender := .empty
  byPrimary := .empty
  byCongestion := .empty
  byAccess := .empty
  senderCap := h.senderCap
  primaryCap := h.primaryCap
  congestionCap := h.congestionCap

lemma checkDepth_eq_ok {pending reserved : OrdMap String Nat} {key : String} {limit : Nat}
    {message : Nat → String} {u : Unit} :
    checkDepth pending reserved key limit message = .ok u ↔
      countOf pending key + countOf reserved key < limit := by
  unfold checkDepth
  rw [ensure_eq_ok, decide_eq_true_eq]

lemma cap_bump {pending reserved : OrdMap String Nat} {key : String} {limit : Nat}
    (hcap : ∀ k, countOf pending k + countOf reserved k ≤ limit)
    (hroom : countOf pending key + countOf reserved key < limit) (k : String) :
    countOf pending k + countOf (bump reserved key 1) k ≤ limit := by
  rw [countOf_bump]
  split_ifs with hk
  · subst hk
    omega
  · exact hcap k

lemma reserve_eq_ok {tx : VerifiedTx} (h : pool.reserve executed watermark acc tx = .ok acc') :
    tx.txHash ∉ pool.pendingTxHashes ∧ tx.txHash ∉ acc.batchHashes ∧ executed tx.txHash = false ∧
      checkNonce watermark tx = .ok () ∧
      countOf pool.pendingSenderCounts tx.normalizedSender + countOf acc.bySender tx.normalizedSender <
        MAX_PENDING_PER_SENDER ∧
      countOf pool.pendingPrimaryAccessCounts tx.primaryAccessKey +
        countOf acc.byPrimaryAccess tx.primaryAccessKey < MAX_PENDING_PER_PRIMARY_ACCESS_LANE ∧
      countOf pool.pendingCongestionAccessCounts tx.congestionAccessKey +
        countOf acc.byCongestionAccess tx.congestionAccessKey < MAX_PENDING_PER_PRIMARY_ACCESS_LANE ∧
      acc' = acc.add tx := by
  unfold MempoolState.reserve at h
  obtain ⟨⟨⟩, hfresh, h⟩ := bind_eq_ok.mp h
  obtain ⟨⟨⟩, hnonce, h⟩ := bind_eq_ok.mp h
  obtain ⟨⟨⟩, hlanes, h⟩ := bind_eq_ok.mp h
  unfold checkFresh at hfresh
  unfold checkLanes at hlanes
  simp only [bind_eq_ok, ensure_eq_ok, Bool.not_eq_true', Bool.or_eq_false_iff,
    decide_eq_false_iff_not] at hfresh
  simp only [bind_eq_ok, checkDepth_eq_ok] at hlanes
  obtain ⟨-, ⟨hpending, hbatch⟩, hexecuted⟩ := hfresh
  obtain ⟨-, hsender, -, hprimary, hcongestion⟩ := hlanes
  cases h
  exact ⟨hpending, hbatch, hexecuted, hnonce, hsender, hprimary, hcongestion, rfl⟩

lemma Reserved.reserve {done : List VerifiedTx} {tx : VerifiedTx} (h : Reserved pool acc done)
    (hok : pool.reserve executed watermark acc tx = .ok acc') :
    Reserved pool acc' (done ++ [tx]) := by
  obtain ⟨hpending, hbatch, -, -, hsender, hprimary, hcongestion, rfl⟩ := reserve_eq_ok hok
  have hnew : tx.txHash ∉ done.map (·.txHash) := by
    rw [h.batch, List.mem_toFinset] at hbatch
    exact hbatch
  refine {
    accepted := by simp [Reservation.add, h.accepted]
    batch := ?_
    nodup := ?_
    fresh := ?_
    bySender := by simpa [Reservation.add] using h.bySender.bump_one _
    byPrimary := by simpa [Reservation.add] using h.byPrimary.bump_one _
    byCongestion := by simpa [Reservation.add] using h.byCongestion.bump_one _
    byAccess := by
      simpa [Reservation.add] using (h.byAccess.bump_one tx.primaryAccessKey).bump_all tx.accessKeys
    senderCap := cap_bump h.senderCap hsender
    primaryCap := cap_bump h.primaryCap hprimary
    congestionCap := cap_bump h.congestionCap hcongestion }
  · show insert tx.txHash acc.batchHashes = _
    rw [h.batch, List.map_append, List.toFinset_append, Finset.union_comm]
    rfl
  · rw [List.map_append]
    exact List.Nodup.append h.nodup (List.nodup_singleton _) (by simpa using hnew)
  · intro t ht
    rcases List.mem_append.mp ht with ht | ht
    · exact h.fresh t ht
    · rw [List.mem_singleton.mp ht]
      exact hpending

variable {batch : List VerifiedTx}

lemma Reserved.reserve_all {done : List VerifiedTx} (h : Reserved pool acc done)
    (hok : foldOk (pool.reserve executed watermark) acc batch = .ok acc') :
    Reserved pool acc' (done ++ batch) := by
  induction batch generalizing acc done with
  | nil =>
    cases hok
    simpa using h
  | cons tx rest ih =>
    obtain ⟨mid, hmid, hrest⟩ := foldOk_cons_eq_ok.mp hok
    simpa using ih (h.reserve hmid) hrest

/-! ## Admission -/

/-- What the part under the lock has established. -/
structure Admissible (pool : MempoolState) (batch : List VerifiedTx) (batchBytes : Nat)
    (acc : Reservation) : Prop where
  room : pool.pendingTxs.length + batch.length ≤ MAX_MEMPOOL_SIZE
  budget : pool.pendingBytes + batchBytes ≤ MAX_MEMPOOL_BYTES
  reserved : Reserved pool acc batch

lemma checkBatch_ok (h : Accounted pool) {view : AdmissionView} {executed : List Bytes}
    (hok : pool.checkBatch view batch batchBytes executed = .ok acc) :
    Admissible pool batch batchBytes acc := by
  unfold checkBatch at hok
  simp only [bind_eq_ok, ensure_eq_ok, decide_eq_true_eq] at hok
  obtain ⟨-, hroom, -, hbudget, watermark, -, hfold⟩ := hok
  refine ⟨hroom, ?_, by simpa using (reserved_nil h).reserve_all hfold⟩
  unfold saturatingAdd u64Bound at hbudget
  have hmax : MAX_MEMPOOL_BYTES < 2 ^ 64 - 1 := by decide
  omega

lemma prepareBatch_ok {env : AdmissionEnv} {metadata : PendingTransactionMetadata}
    {signedTxs : List SignedTransaction}
    (h : prepareBatch env metadata signedTxs = .ok (batch, batchBytes)) :
    ∃ verified, signedTxs.mapM (env.verifyForMempool metadata) = .ok verified ∧ batch.Perm verified ∧
      batchBytes = (batch.map (·.sizeBytes)).sum := by
  unfold prepareBatch at h
  simp only [bind_eq_ok, pure_eq_ok, Except.ok.injEq, Prod.mk.injEq] at h
  obtain ⟨verified, hverified, total, htotal, rfl, rfl⟩ := h
  have hperm := List.mergeSort_perm verified fun a b => decide (a.admissionKey ≤ b.admissionKey)
  refine ⟨verified, hverified, hperm, ?_⟩
  rw [foldOk_checkedAdd htotal, Nat.zero_add]
  exact ((hperm.map _).sum_eq).symm

lemma Accounted.insertBatch (h : Accounted pool) {metadata : PendingTransactionMetadata}
    (hbatch : Admissible pool batch batchBytes acc)
    (hbytes : batchBytes = (batch.map (·.sizeBytes)).sum) :
    Accounted (pool.insertBatch batch metadata batchBytes acc) := by
  obtain ⟨hroom, hbudget, hreserved⟩ := hbatch
  have hsender := h.bySender.merge hreserved.bySender
  have hprimary := h.byPrimary.merge hreserved.byPrimary
  have hcongestion := h.byCongestion.merge hreserved.byCongestion
  have haccess := h.byAccess.merge hreserved.byAccess
  have hnoOverflow : saturatingAdd pool.pendingBytes batchBytes = pool.pendingBytes + batchBytes := by
    unfold saturatingAdd u64Bound
    have hmax : MAX_MEMPOOL_BYTES < 2 ^ 64 - 1 := by decide
    omega
  have hhashes : pendingHashes (pool.insertBatch batch metadata batchBytes acc) =
      pendingHashes pool ++ batch.map (·.txHash) := by
    simp [pendingHashes, MempoolState.insertBatch, Function.comp_def, VerifiedTx.toRecord]
  refine {
    hashesNodup := ?_
    hashes := ?_
    bytes := ?_
    bySender := by
      simpa [MempoolState.insertBatch, Function.comp_def, VerifiedTx.toRecord] using hsender
    byPrimary := by
      simpa [MempoolState.insertBatch, Function.comp_def, VerifiedTx.toRecord] using hprimary
    byCongestion := by
      simpa [MempoolState.insertBatch, Function.comp_def, VerifiedTx.toRecord] using hcongestion
    byAccess := by
      simpa [MempoolState.insertBatch, List.flatMap_map, VerifiedTx.toRecord, touchedKeys] using haccess
    sizeCap := by simpa [MempoolState.insertBatch] using hroom
    bytesCap := by simpa [MempoolState.insertBatch, hnoOverflow] using hbudget
    senderCap := h.bySender.merge_le hreserved.bySender hreserved.senderCap
    primaryCap := h.byPrimary.merge_le hreserved.byPrimary hreserved.primaryCap
    congestionCap := h.byCongestion.merge_le hreserved.byCongestion hreserved.congestionCap }
  · rw [hhashes]
    refine List.Nodup.append h.hashesNodup hreserved.nodup ?_
    intro x hpending hnew
    obtain ⟨tx, htx, rfl⟩ := List.mem_map.mp hnew
    exact hreserved.fresh tx htx (by rw [h.hashes]; exact List.mem_toFinset.mpr hpending)
  · rw [hhashes, List.toFinset_append, ← h.hashes, ← hreserved.accepted]
    rfl
  · show saturatingAdd pool.pendingBytes batchBytes = _
    rw [hnoOverflow, h.bytes, hbytes]
    simp [MempoolState.insertBatch, Function.comp_def, VerifiedTx.toRecord]

lemma submit_cases (pool : MempoolState) (env : AdmissionEnv) (view : AdmissionView)
    (signedTxs : List SignedTransaction) (metadata : PendingTransactionMetadata) :
    (∃ r, pool.submitTransactionsBatch env view signedTxs metadata = (r, pool) ∧
      (signedTxs = [] ∨ ∃ e, r = .error e)) ∨
      ∃ batch batchBytes executed acc, prepareBatch env metadata signedTxs = .ok (batch, batchBytes) ∧
        pool.checkBatch view batch batchBytes executed = .ok acc ∧
        pool.submitTransactionsBatch env view signedTxs metadata =
          (.ok acc.acceptedHashes, pool.insertBatch batch metadata batchBytes acc) := by
  unfold submitTransactionsBatch
  split_ifs with hempty hfull
  · exact .inl ⟨_, rfl, .inl (List.isEmpty_iff.mp hempty)⟩
  · exact .inl ⟨_, rfl, .inr ⟨_, rfl⟩⟩
  cases hprepared : prepareBatch env metadata signedTxs with
  | error e => exact .inl ⟨_, rfl, .inr ⟨e, rfl⟩⟩
  | ok prepared =>
    obtain ⟨batch, batchBytes⟩ := prepared
    simp only
    cases hchecked : findExecuted view batch >>= pool.checkBatch view batch batchBytes with
    | error e => exact .inl ⟨_, rfl, .inr ⟨e, rfl⟩⟩
    | ok acc =>
      obtain ⟨executed, -, hcheck⟩ := bind_eq_ok.mp hchecked
      exact .inr ⟨batch, batchBytes, executed, acc, rfl, hcheck, rfl⟩

lemma Accounted.submit (h : Accounted pool) (env : AdmissionEnv) (view : AdmissionView)
    (signedTxs : List SignedTransaction) (metadata : PendingTransactionMetadata) :
    Accounted (pool.submitTransactionsBatch env view signedTxs metadata).2 := by
  rcases submit_cases pool env view signedTxs metadata with
    ⟨r, heq, -⟩ | ⟨batch, batchBytes, executed, acc, hprepared, hchecked, heq⟩
  · rw [heq]
    exact h
  · obtain ⟨-, -, -, hbytes⟩ := prepareBatch_ok hprepared
    rw [heq]
    exact h.insertBatch (checkBatch_ok h hchecked) hbytes

/-! ## Removal -/

lemma foldl_forget (removed : List PendingTransactionRecord) (pool : MempoolState) :
    removed.foldl forget pool =
      { pool with
        pendingSenderCounts := (removed.map (·.normalizedSender)).foldl decrement pool.pendingSenderCounts
        pendingPrimaryAccessCounts :=
          (removed.map (·.primaryAccessKey)).foldl decrement pool.pendingPrimaryAccessCounts
        pendingCongestionAccessCounts :=
          (removed.map (·.congestionAccessKey)).foldl decrement pool.pendingCongestionAccessCounts
        pendingAccessCounts := (removed.flatMap touchedKeys).foldl decrement pool.pendingAccessCounts } := by
  induction removed generalizing pool with
  | nil => rfl
  | cons tx rest ih =>
    rw [List.foldl_cons, ih]
    simp [forget, touchedKeys]

lemma foldl_saturatingAdd {α : Type} (f : α → Nat) (l : List α) (n : Nat)
    (h : n + (l.map f).sum < u64Bound) :
    l.foldl (fun total a => saturatingAdd total (f a)) n = n + (l.map f).sum := by
  induction l generalizing n with
  | nil => simp
  | cons a l ih =>
    rw [List.map_cons, List.sum_cons] at h
    have hstep : saturatingAdd n (f a) = n + f a := by
      unfold saturatingAdd
      omega
    rw [List.foldl_cons, hstep, ih (n + f a) (by omega), List.map_cons, List.sum_cons, Nat.add_assoc]

lemma Accounted.removeMatching (h : Accounted pool) (targets : List Bytes) :
    Accounted (pool.removeMatching targets) := by
  set removed := pool.pendingTxs.filter fun tx => decide (tx.txHash ∈ targets) with hremoved
  set kept := pool.pendingTxs.filter fun tx => !decide (tx.txHash ∈ targets) with hkept
  have hperm : pool.pendingTxs.Perm (removed ++ kept) :=
    (List.filter_append_perm (fun tx => decide (tx.txHash ∈ targets)) pool.pendingTxs).symm
  have hsum : (pool.pendingTxs.map (·.sizeBytes)).sum =
      (removed.map (·.sizeBytes)).sum + (kept.map (·.sizeBytes)).sum := by
    rw [(hperm.map _).sum_eq, List.map_append, List.sum_append]
  have hremovedBytes : removed.foldl (fun total tx => saturatingAdd total tx.sizeBytes) 0 =
      (removed.map (·.sizeBytes)).sum := by
    rw [foldl_saturatingAdd (fun tx : PendingTransactionRecord => tx.sizeBytes) removed 0, Nat.zero_add]
    have hcap := h.bytesCap
    have hmax : MAX_MEMPOOL_BYTES < u64Bound := by decide
    rw [h.bytes] at hcap
    omega
  have hsplit : ∀ {f : PendingTransactionRecord → String},
      (pool.pendingTxs.map f).Perm (removed.map f ++ kept.map f) := by
    intro f
    rw [← List.map_append]
    exact hperm.map f
  have hsender := h.bySender.decrement_all hsplit
  have hprimary := h.byPrimary.decrement_all hsplit
  have hcongestion := h.byCongestion.decrement_all hsplit
  have haccess : CountsOf _ (kept.flatMap touchedKeys) := h.byAccess.decrement_all
    (by rw [← List.flatMap_append]; exact hperm.flatMap_right touchedKeys)
  -- no lane gains by a removal
  have hcap : ∀ {m m' : OrdMap String Nat} {f : PendingTransactionRecord → String} {limit : Nat},
      CountsOf m (pool.pendingTxs.map f) → CountsOf m' (kept.map f) → (∀ k, countOf m k ≤ limit) →
      ∀ k, countOf m' k ≤ limit := by
    intro m m' f limit hm hm' hlimit k
    have := hlimit k
    rw [hm.count, hsplit.count_eq, List.count_append] at this
    rw [hm'.count]
    omega
  rw [MempoolState.removeMatching, foldl_forget, ← hremoved, hremovedBytes]
  refine {
    hashesNodup := h.hashesNodup.sublist (List.filter_sublist.map _)
    hashes := ?_
    bytes := by
      show pool.pendingBytes - _ = (kept.map _).sum
      rw [h.bytes, hsum]
      exact Nat.add_sub_cancel_left ..
    bySender := hsender
    byPrimary := hprimary
    byCongestion := hcongestion
    byAccess := haccess
    sizeCap := (List.length_filter_le _ _).trans h.sizeCap
    bytesCap := (Nat.sub_le _ _).trans h.bytesCap
    senderCap := hcap h.bySender hsender h.senderCap
    primaryCap := hcap h.byPrimary hprimary h.primaryCap
    congestionCap := hcap h.byCongestion hcongestion h.congestionCap }
  ext x
  simp only [h.hashes, pendingHashes, Finset.mem_filter, List.mem_toFinset, List.mem_map,
    List.mem_filter, Bool.not_eq_true', decide_eq_false_iff_not]
  constructor
  · rintro ⟨⟨tx, htx, rfl⟩, hx⟩
    exact ⟨tx, ⟨htx, hx⟩, rfl⟩
  · rintro ⟨tx, ⟨htx, hx⟩, rfl⟩
    exact ⟨⟨tx, htx, rfl⟩, hx⟩

lemma Accounted.remove (h : Accounted pool) (hashes : List Bytes) :
    Accounted (pool.removePendingTransactionsByHashes hashes).2 := by
  unfold removePendingTransactionsByHashes
  dsimp only
  split_ifs
  · exact h
  · exact h.removeMatching hashes

lemma Accounted.dropCommitted (h : Accounted pool) (hashes : List Bytes) :
    Accounted (pool.dropCommitted hashes) := by
  unfold MempoolState.dropCommitted
  split_ifs
  · exact accounted_empty
  · exact h.removeMatching hashes

/-! ## Runs -/

/-- What happens to a mempool. A submission may have read the queue length, the committed
transactions and the watermarks at any earlier time. -/
inductive MempoolEvent where
  | submit (env : AdmissionEnv) (view : AdmissionView) (signedTxs : List SignedTransaction)
      (metadata : PendingTransactionMetadata)
  | remove (hashes : List Bytes)
  | commit (committedHashes : List Bytes)

def afterEvent (pool : MempoolState) : MempoolEvent → MempoolState
  | .submit env view signedTxs metadata => (pool.submitTransactionsBatch env view signedTxs metadata).2
  | .remove hashes => (pool.removePendingTransactionsByHashes hashes).2
  | .commit committedHashes => pool.dropCommitted committedHashes

lemma Accounted.afterEvent (h : Accounted pool) (event : MempoolEvent) :
    Accounted (afterEvent pool event) := by
  cases event with
  | submit env view signedTxs metadata => exact h.submit env view signedTxs metadata
  | remove hashes => exact h.remove hashes
  | commit committedHashes => exact h.dropCommitted committedHashes

/-- The books of a mempool, each next to what it is recomputed from. -/
structure MempoolBooks (pool : MempoolState) : Prop where
  hashesNodup : (pool.pendingTxs.map (·.txHash)).Nodup
  hashes : ∀ x, x ∈ pool.pendingTxHashes ↔ ∃ tx ∈ pool.pendingTxs, tx.txHash = x
  bytes : pool.pendingBytes = (pool.pendingTxs.map (·.sizeBytes)).sum
  senderCounts : pool.pendingSenderCounts = recount (pool.pendingTxs.map (·.normalizedSender))
  accessCounts : pool.pendingAccessCounts =
    recount (pool.pendingTxs.flatMap fun tx => tx.primaryAccessKey :: tx.accessKeys)
  primaryCounts : pool.pendingPrimaryAccessCounts = recount (pool.pendingTxs.map (·.primaryAccessKey))
  congestionCounts : pool.pendingCongestionAccessCounts =
    recount (pool.pendingTxs.map (·.congestionAccessKey))
  noZeroEntries : ∀ counts ∈ [pool.pendingSenderCounts, pool.pendingAccessCounts,
    pool.pendingPrimaryAccessCounts, pool.pendingCongestionAccessCounts],
    ∀ k, counts.find? k ≠ some 0
  sizeCap : pool.pendingTxs.length ≤ MAX_MEMPOOL_SIZE
  bytesCap : pool.pendingBytes ≤ MAX_MEMPOOL_BYTES
  senderCap : ∀ s, countOf pool.pendingSenderCounts s ≤ MAX_PENDING_PER_SENDER
  primaryCap : ∀ k, countOf pool.pendingPrimaryAccessCounts k ≤ MAX_PENDING_PER_PRIMARY_ACCESS_LANE
  congestionCap : ∀ k, countOf pool.pendingCongestionAccessCounts k ≤ MAX_PENDING_PER_PRIMARY_ACCESS_LANE

lemma Accounted.books (h : Accounted pool) : MempoolBooks pool where
  hashesNodup := h.hashesNodup
  hashes := by
    intro x
    rw [h.hashes, pendingHashes, List.mem_toFinset, List.mem_map]
  bytes := h.bytes
  senderCounts := h.bySender.eq_recount
  accessCounts := h.byAccess.eq_recount
  primaryCounts := h.byPrimary.eq_recount
  congestionCounts := h.byCongestion.eq_recount
  noZeroEntries := by
    intro counts hcounts k hk
    simp only [List.mem_cons, List.not_mem_nil, or_false] at hcounts
    rcases hcounts with rfl | rfl | rfl | rfl
    · exact absurd (h.bySender.positive k 0 hk) (Nat.lt_irrefl 0)
    · exact absurd (h.byAccess.positive k 0 hk) (Nat.lt_irrefl 0)
    · exact absurd (h.byPrimary.positive k 0 hk) (Nat.lt_irrefl 0)
    · exact absurd (h.byCongestion.positive k 0 hk) (Nat.lt_irrefl 0)
  sizeCap := h.sizeCap
  bytesCap := h.bytesCap
  senderCap := h.senderCap
  primaryCap := h.primaryCap
  congestionCap := h.congestionCap

/-- Through any interleaving of submissions, removals and commits the books are those of the
pending transactions, the caps hold, and a refused submission changes nothing. -/
theorem mempool_books_run (events : List MempoolEvent) :
    MempoolBooks (events.foldl afterEvent {}) ∧
      ∀ env view signedTxs metadata e,
        ((events.foldl afterEvent {}).submitTransactionsBatch env view signedTxs metadata).1 = .error e →
        ((events.foldl afterEvent {}).submitTransactionsBatch env view signedTxs metadata).2 =
          events.foldl afterEvent {} := by
  refine ⟨?_, ?_⟩
  · exact (foldl_invariant Accounted (fun pool event h => h.afterEvent event) events accounted_empty).books
  · intro env view signedTxs metadata e herror
    rcases submit_cases (events.foldl afterEvent {}) env view signedTxs metadata with
      ⟨r, heq, -⟩ | ⟨batch, batchBytes, executed, acc, -, -, heq⟩
    · rw [heq]
    · rw [heq] at herror
      cases herror

end Kanari.Proofs

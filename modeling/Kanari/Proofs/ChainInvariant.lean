import Kanari.Blockchain
import Mathlib.Data.List.Chain

/-!
# The chain in memory is a window of the accepted history

One relation between history and chain, kept by an accepted call and untouched by a rejected one.
-/

namespace Kanari.Proofs

open Lib Blockchain

variable {H : HashEnv}

/-! ## One call -/

variable {chain : Blockchain} {c : Checkpoint} {index : HashIndex} {history : List Checkpoint}

lemma checkTransactions_eq_ok {seen : Finset Bytes} {hashes : List Bytes} :
    chain.checkTransactions seen hashes = .ok () ↔
      hashes.Nodup ∧ (∀ h ∈ hashes, h ∉ seen) ∧ ∀ h ∈ hashes, h ∉ chain.executedTxHashes := by
  induction hashes generalizing seen with
  | nil => simp [checkTransactions]
  | cons h rest ih =>
    simp only [checkTransactions, isTransactionHashExecuted, List.nodup_cons, List.forall_mem_cons]
    by_cases hseen : h ∈ seen
    · simp [hseen]
    by_cases hknown : h ∈ chain.executedTxHashes
    · simp [hseen, hknown]
    simp only [hseen, hknown, decide_false, Bool.false_eq_true, if_false, ih, Finset.mem_insert,
      not_false_eq_true, true_and, not_or]
    constructor
    · rintro ⟨hnodup, hfresh, hunknown⟩
      exact ⟨⟨fun hmem => (hfresh h hmem).1 rfl, hnodup⟩, fun x hx => (hfresh x hx).2, hunknown⟩
    · rintro ⟨⟨hhead, hnodup⟩, hfresh, hunknown⟩
      exact ⟨hnodup, fun x hx => ⟨fun heq => hhead (heq ▸ hx), hfresh x hx⟩, hunknown⟩

/-- What the checks of an accepted checkpoint have established. -/
structure Continues (H : HashEnv) (chain : Blockchain) (c : Checkpoint) : Prop where
  sequence : c.sequence = chain.height + 1
  prevHash : H.hash chain.latestCheckpoint = .ok c.prevCheckpointHash
  nodup : (H.txHashes c).Nodup
  fresh : ∀ h ∈ H.txHashes c, h ∉ chain.executedTxHashes

lemma validateNext_eq_ok : chain.validateNext H c = .ok () ↔ Continues H chain c := by
  unfold validateNext
  simp only [bind_eq_ok, ensure_eq_ok, beq_iff_eq, checkTransactions_eq_ok]
  constructor
  · rintro ⟨-, hseq, latest, hlatest, -, rfl, hnodup, -, hfresh⟩
    exact ⟨hseq, hlatest, hnodup, hfresh⟩
  · rintro ⟨hseq, hlatest, hnodup, hfresh⟩
    exact ⟨(), hseq, _, hlatest, (), rfl, hnodup, by simp, hfresh⟩

lemma addCheckpoint_accepts (h : Continues H chain c) :
    chain.addCheckpointWithValidation H c true = (.ok (), chain.append H c) := by
  simp only [addCheckpointWithValidation, if_true, validateNext_eq_ok.mpr h]

lemma addCheckpoint_cases (H : HashEnv) (chain : Blockchain) (c : Checkpoint) :
    Continues H chain c ∧ chain.addCheckpointWithValidation H c true = (.ok (), chain.append H c) ∨
      ∃ e, chain.addCheckpointWithValidation H c true = (.error e, chain) := by
  cases hnext : chain.validateNext H c with
  | error e =>
    refine .inr ⟨e, ?_⟩
    simp only [addCheckpointWithValidation, if_true, hnext]
  | ok u => exact .inl ⟨validateNext_eq_ok.mp hnext, addCheckpoint_accepts (validateNext_eq_ok.mp hnext)⟩

/-! ## The replay window -/

/-- The set holds exactly what the queue holds, once each. -/
structure Mirrors (index : HashIndex) : Prop where
  nodup : index.txHashQueue.Nodup
  executed : index.executedTxHashes = index.txHashQueue.toFinset

lemma Mirrors.record (h : Mirrors index) {txHash : Bytes} (hfresh : txHash ∉ index.executedTxHashes)
    (sequence : UInt64) (i : Nat) :
    Mirrors (index.record sequence (txHash, i)) ∧
      (index.record sequence (txHash, i)).txHashQueue = index.txHashQueue ++ [txHash] := by
  have hqueue : txHash ∉ index.txHashQueue := by
    rw [h.executed, List.mem_toFinset] at hfresh
    exact hfresh
  simp only [HashIndex.record, if_neg hfresh]
  refine ⟨⟨?_, ?_⟩, trivial⟩
  · exact List.Nodup.append h.nodup (List.nodup_singleton _) (by simpa using hqueue)
  · rw [List.toFinset_append, h.executed, Finset.insert_eq, Finset.union_comm]
    simp

lemma Mirrors.record_all (h : Mirrors index) (sequence : UInt64) {hashes : List Bytes}
    (hnodup : hashes.Nodup) (hfresh : ∀ x ∈ hashes, x ∉ index.executedTxHashes) (start : Nat) :
    Mirrors ((hashes.zipIdx start).foldl (HashIndex.record sequence) index) ∧
      ((hashes.zipIdx start).foldl (HashIndex.record sequence) index).txHashQueue =
        index.txHashQueue ++ hashes := by
  induction hashes generalizing index start with
  | nil => simpa using h
  | cons x rest ih =>
    obtain ⟨hx, hrest⟩ := List.nodup_cons.mp hnodup
    obtain ⟨hstep, hqueue⟩ := h.record (hfresh x List.mem_cons_self) sequence start
    have hfresh' : ∀ y ∈ rest, y ∉ (index.record sequence (x, start)).executedTxHashes := by
      intro y hy
      rw [hstep.executed, hqueue, List.mem_toFinset, List.mem_append, ← List.mem_toFinset (l := index.txHashQueue),
        ← h.executed]
      rintro (hold | hnew)
      · exact hfresh y (List.mem_cons_of_mem _ hy) hold
      · exact hx (List.mem_singleton.mp hnew ▸ hy)
    obtain ⟨hmirrors, hall⟩ := ih hstep hrest hfresh' (start + 1)
    simp only [List.zipIdx_cons, List.foldl_cons]
    exact ⟨hmirrors, by rw [hall, hqueue, List.append_assoc, List.singleton_append]⟩

def lifetimeCount (n : Nat) : Nat := min n (u64Bound - 1)

lemma saturatingAdd_lifetimeCount (n : Nat) : saturatingAdd (lifetimeCount n) 1 = lifetimeCount (n + 1) := by
  unfold saturatingAdd lifetimeCount
  omega

lemma record_all_count (sequence : UInt64) {hashes : List Bytes} (hnodup : hashes.Nodup)
    (hfresh : ∀ x ∈ hashes, x ∉ index.executedTxHashes) (start : Nat) {n : Nat}
    (h : index.totalTransactionCount = lifetimeCount n) :
    ((hashes.zipIdx start).foldl (HashIndex.record sequence) index).totalTransactionCount =
      lifetimeCount (n + hashes.length) := by
  induction hashes generalizing index start n with
  | nil => exact h
  | cons x rest ih =>
    obtain ⟨hx, hrest⟩ := List.nodup_cons.mp hnodup
    obtain ⟨hnew, hothers⟩ := List.forall_mem_cons.mp hfresh
    rw [List.zipIdx_cons, List.foldl_cons, List.length_cons, Nat.add_comm rest.length, ← Nat.add_assoc]
    refine ih hrest (fun y hy => ?_) (start + 1) ?_
    · simp only [HashIndex.record, if_neg hnew, Finset.mem_insert, not_or]
      exact ⟨fun heq => hx (heq ▸ hy), hothers y hy⟩
    · simp only [HashIndex.record, if_neg hnew, h, saturatingAdd_lifetimeCount]

@[simp] lemma trim_count (fuel : Nat) (index : HashIndex) :
    (index.trim fuel).totalTransactionCount = index.totalTransactionCount := by
  induction fuel generalizing index with
  | zero => rfl
  | succ fuel ih =>
    simp only [HashIndex.trim]
    split_ifs
    · rw [ih, HashIndex.forgetOldest]
      split <;> rfl
    · rfl

/-- The trimming loop leaves the window of the newest hashes. -/
lemma Mirrors.trim (h : Mirrors index) {fuel : Nat} (hfuel : index.txHashQueue.length ≤ fuel) :
    Mirrors (index.trim fuel) ∧
      (index.trim fuel).txHashQueue = index.txHashQueue.rtake MAX_RETAINED_TX_HASHES := by
  induction fuel generalizing index with
  | zero =>
    rw [rtake_of_length_le (hfuel.trans (Nat.zero_le _))]
    exact ⟨h, rfl⟩
  | succ fuel ih =>
    simp only [HashIndex.trim]
    split_ifs with hlong
    · obtain ⟨executed, queue, locations, count⟩ := index
      cases queue with
      | nil => simp at hlong
      | cons old rest =>
        have hrest : Mirrors (HashIndex.forgetOldest ⟨executed, old :: rest, locations, count⟩) := by
          refine ⟨(List.nodup_cons.mp h.nodup).2, ?_⟩
          have hset : executed = (old :: rest).toFinset := h.executed
          show executed.erase old = rest.toFinset
          rw [hset]
          exact erase_toFinset_cons h.nodup
        obtain ⟨hmirrors, hqueue⟩ := ih hrest (Nat.le_of_succ_le_succ hfuel)
        refine ⟨hmirrors, ?_⟩
        rw [hqueue, rtake_cons (Nat.le_of_lt_succ hlong)]
        rfl
    · rw [rtake_of_length_le (Nat.le_of_not_lt hlong)]
      exact ⟨h, rfl⟩

/-! ## The history behind the chain -/

def Linked (H : HashEnv) (p c : Checkpoint) : Prop :=
  c.sequence = p.sequence + 1 ∧ H.hash p = .ok c.prevCheckpointHash

/-- The chain is what is retained of `history`, the checkpoints accepted since genesis. -/
structure Represents (H : HashEnv) (history : List Checkpoint) (chain : Blockchain) : Prop where
  retained : chain.dagCheckpoints = H.genesis :: history.rtake (MAX_RETAINED_BLOCKS - 1)
  linked : (H.genesis :: history).IsChain (Linked H)
  queue : chain.txHashQueue = (history.flatMap H.txHashes).rtake MAX_RETAINED_TX_HASHES
  mirrors : Mirrors chain.hashIndex
  count : chain.totalTransactionCount = lifetimeCount (history.flatMap H.txHashes).length

lemma represents_new (H : HashEnv) : Represents H [] (Blockchain.new H) where
  retained := by rw [List.rtake_nil]; rfl
  linked := List.isChain_singleton _
  queue := by rw [List.flatMap_nil, List.rtake_nil]; rfl
  mirrors := ⟨List.nodup_nil, rfl⟩
  count := rfl

lemma Represents.latest (h : Represents H history chain) :
    (H.genesis :: history).getLast (List.cons_ne_nil _ _) = chain.latestCheckpoint := by
  have hlast : chain.dagCheckpoints.getLast? = (H.genesis :: history).getLast? := by
    rw [h.retained]
    rcases List.eq_nil_or_concat' history with rfl | ⟨older, c, rfl⟩
    · rw [List.rtake_nil]
    · rw [show MAX_RETAINED_BLOCKS - 1 = 998 + 1 from rfl, List.rtake_concat_succ, ← List.cons_append,
        ← List.cons_append, List.getLast?_concat, List.getLast?_concat]
  rw [List.getLast?_eq_some_getLast chain.nonempty,
    List.getLast?_eq_some_getLast (List.cons_ne_nil _ _)] at hlast
  exact (Option.some.inj hlast).symm

lemma track_hashIndex (hmirrors : Mirrors chain.hashIndex) (hc : Continues H chain c) :
    Mirrors (chain.trackCheckpointTransactions H c).hashIndex ∧
      (chain.trackCheckpointTransactions H c).txHashQueue =
        (chain.txHashQueue ++ H.txHashes c).rtake MAX_RETAINED_TX_HASHES := by
  obtain ⟨hall, hqueue⟩ := hmirrors.record_all c.sequence hc.nodup hc.fresh 0
  obtain ⟨htrim, hwindow⟩ := hall.trim (Nat.le_refl _)
  exact ⟨htrim, hwindow.trans (by rw [hqueue]; rfl)⟩

lemma evict_spec (H : HashEnv) (chain : Blockchain) {first : Checkpoint} {rest : List Checkpoint}
    (h : chain.dagCheckpoints = first :: rest) :
    (chain.evict H).dagCheckpoints =
        (first :: if MAX_RETAINED_BLOCKS ≤ rest.length then rest.tail else rest) ∧
      (chain.evict H).txHashQueue = chain.txHashQueue ∧
      (chain.evict H).executedTxHashes = chain.executedTxHashes ∧
      (chain.evict H).totalTransactionCount = chain.totalTransactionCount := by
  obtain ⟨checkpoints, executed, queue, locations, count, hne⟩ := chain
  obtain rfl : checkpoints = first :: rest := h
  cases rest with
  | nil => exact ⟨rfl, rfl, rfl, rfl⟩
  | cons evicted rest =>
    simp only [evict, List.length_cons, Nat.lt_succ_iff]
    split_ifs with hfull
    · exact ⟨rfl, rfl, rfl, rfl⟩
    · exact ⟨rfl, rfl, rfl, rfl⟩

lemma append_hashIndex (hmirrors : Mirrors chain.hashIndex) (hc : Continues H chain c) :
    Mirrors (chain.append H c).hashIndex ∧
      (chain.append H c).txHashQueue = (chain.txHashQueue ++ H.txHashes c).rtake MAX_RETAINED_TX_HASHES := by
  obtain ⟨htracked, hqueue⟩ := track_hashIndex hmirrors hc
  obtain ⟨first, rest, hpushed⟩ :=
    List.exists_cons_of_ne_nil ((chain.trackCheckpointTransactions H c).push c).nonempty
  obtain ⟨-, hkeptQueue, hkeptSet, -⟩ := evict_spec H _ hpushed
  refine ⟨⟨?_, ?_⟩, hkeptQueue.trans hqueue⟩
  · have hqueue' : (chain.append H c).hashIndex.txHashQueue =
        (chain.trackCheckpointTransactions H c).hashIndex.txHashQueue := hkeptQueue
    rw [hqueue']
    exact htracked.nodup
  · exact hkeptSet.trans (htracked.executed.trans (congrArg List.toFinset hkeptQueue.symm))

lemma append_count (hc : Continues H chain c) {n : Nat} (h : chain.totalTransactionCount = lifetimeCount n) :
    (chain.append H c).totalTransactionCount = lifetimeCount (n + (H.txHashes c).length) := by
  obtain ⟨first, rest, hpushed⟩ :=
    List.exists_cons_of_ne_nil ((chain.trackCheckpointTransactions H c).push c).nonempty
  exact (evict_spec H _ hpushed).2.2.2.trans ((trim_count _ _).trans
    (record_all_count c.sequence hc.nodup hc.fresh 0 h))

lemma Represents.append (h : Represents H history chain) (hc : Continues H chain c) :
    Represents H (history ++ [c]) (chain.append H c) := by
  obtain ⟨hmirrors, hqueue⟩ := append_hashIndex h.mirrors hc
  have hpushed : ((chain.trackCheckpointTransactions H c).push c).dagCheckpoints =
      H.genesis :: (history.rtake (MAX_RETAINED_BLOCKS - 1) ++ [c]) := by
    show chain.dagCheckpoints ++ [c] = _
    rw [h.retained, List.cons_append]
  refine ⟨(evict_spec H _ hpushed).1.trans ?_, ?_, hqueue.trans ?_, hmirrors, ?_⟩
  · have hfull : ∀ n, (MAX_RETAINED_BLOCKS ≤ n) = (MAX_RETAINED_BLOCKS - 1 < n) := by
      intro n
      unfold MAX_RETAINED_BLOCKS
      rw [eq_iff_iff]
      omega
    rw [rtake_concat history c]
    simp only [hfull]
  · rw [← List.cons_append]
    refine List.isChain_append.mpr ⟨h.linked, List.isChain_singleton _, ?_⟩
    intro p hp d hd
    obtain rfl : c = d := by simpa using hd
    obtain rfl : chain.latestCheckpoint = p := by
      rw [List.getLast?_eq_some_getLast (List.cons_ne_nil _ _), h.latest] at hp
      exact Option.some.inj hp
    exact ⟨hc.sequence, hc.prevHash⟩
  · rw [h.queue, rtake_rtake_append, List.flatMap_append, List.flatMap_singleton]
  · rw [append_count hc h.count, List.flatMap_append, List.length_append, List.flatMap_singleton]

/-! ## Runs -/

def runCalls (H : HashEnv) : Blockchain → List Checkpoint → Blockchain
  | chain, [] => chain
  | chain, c :: rest => runCalls H (chain.addCheckpointWithValidation H c true).2 rest

def acceptedCalls (H : HashEnv) : Blockchain → List Checkpoint → List Checkpoint
  | _, [] => []
  | chain, c :: rest =>
    match chain.addCheckpointWithValidation H c true with
    | (.ok _, chain') => c :: acceptedCalls H chain' rest
    | (.error _, chain') => acceptedCalls H chain' rest

lemma Represents.run (h : Represents H history chain) (calls : List Checkpoint) :
    Represents H (history ++ acceptedCalls H chain calls) (runCalls H chain calls) := by
  induction calls generalizing history chain with
  | nil => simpa [acceptedCalls, runCalls] using h
  | cons c rest ih =>
    rcases addCheckpoint_cases H chain c with ⟨hc, heq⟩ | ⟨e, heq⟩
    · simp only [acceptedCalls, runCalls, heq]
      rw [← List.singleton_append, ← List.append_assoc]
      exact ih (h.append hc)
    · simp only [acceptedCalls, runCalls, heq]
      exact ih h

/-! ## Sequence numbers -/

lemma sequence_of_linked {first : Checkpoint} {rest : List Checkpoint}
    (h : (first :: rest).IsChain (Linked H)) {i : Nat} (hc : (first :: rest)[i]? = some c) :
    c.sequence = first.sequence + UInt64.ofNat i := by
  induction rest generalizing first i with
  | nil =>
    cases i with
    | zero =>
      obtain rfl : first = c := by simpa using hc
      simp
    | succ i => simp at hc
  | cons next rest ih =>
    cases i with
    | zero =>
      obtain rfl : first = c := by simpa using hc
      simp
    | succ i =>
      obtain ⟨hlink, hrest⟩ := List.isChain_cons_cons.mp h
      rw [ih hrest (by simpa using hc), hlink.1, UInt64.ofNat_add, UInt64.add_assoc]
      congr 1
      exact UInt64.add_comm _ _

lemma sequence_toNat (h : (H.genesis :: history).IsChain (Linked H))
    (hsmall : history.length < 2 ^ 64) {i : Nat} (hc : (H.genesis :: history)[i]? = some c) :
    c.sequence.toNat = i := by
  have hi : i < history.length + 1 := by
    have := (List.getElem?_eq_some_iff.mp hc).1
    simpa using this
  rw [sequence_of_linked h hc]
  show ((0 : UInt64) + UInt64.ofNat i).toNat = i
  rw [UInt64.zero_add, UInt64.toNat_ofNat_of_lt' (by show i < 2 ^ 64; omega)]

/-- A retained checkpoint and its predecessor, found by their numbers. -/
lemma prevHash_of_sequence (h : (H.genesis :: history).IsChain (Linked H))
    (hsmall : history.length < 2 ^ 64) {p : Checkpoint} (hp : p ∈ H.genesis :: history)
    (hc : c ∈ H.genesis :: history) (hseq : c.sequence.toNat = p.sequence.toNat + 1) :
    H.hash p = .ok c.prevCheckpointHash := by
  obtain ⟨i, hi⟩ := List.getElem?_of_mem hp
  obtain ⟨j, hj⟩ := List.getElem?_of_mem hc
  rw [sequence_toNat h hsmall hi, sequence_toNat h hsmall hj] at hseq
  subst hseq
  obtain ⟨hi', rfl⟩ := List.getElem?_eq_some_iff.mp hi
  obtain ⟨hj', rfl⟩ := List.getElem?_eq_some_iff.mp hj
  exact (List.isChain_iff_getElem.mp h i (by omega)).2

/-! ## The invariant -/

/-- Everything that holds of a chain whose accepted checkpoints are `accepted`. -/
structure ChainInvariant (H : HashEnv) (accepted : List Checkpoint) (chain : Blockchain) : Prop where
  genesisFirst : chain.dagCheckpoints.head? = some H.genesis
  window : chain.dagCheckpoints.tail = accepted.rtake (MAX_RETAINED_BLOCKS - 1)
  consecutive : chain.dagCheckpoints.tail.IsChain fun p c => c.sequence = p.sequence + 1
  endsAtHeight : chain.dagCheckpoints.getLast?.map (·.sequence) = some chain.height
  /-- In machine words, which wrap; before that, as numbers. -/
  heightCounts : chain.height = UInt64.ofNat accepted.length
  sequenceNumbers : accepted.length < 2 ^ 64 → ∀ i c, chain.dagCheckpoints.tail[i]? = some c →
    c.sequence.toNat + chain.dagCheckpoints.tail.length = chain.height.toNat + 1 + i
  linked : (H.genesis :: accepted).IsChain (Linked H)
  predecessor : accepted.length < 2 ^ 64 → ∀ p ∈ chain.dagCheckpoints, ∀ c ∈ chain.dagCheckpoints,
    c.sequence.toNat = p.sequence.toNat + 1 → H.hash p = .ok c.prevCheckpointHash
  blocksBounded : chain.dagCheckpoints.length ≤ MAX_RETAINED_BLOCKS
  queueNodup : chain.txHashQueue.Nodup
  queueBounded : chain.txHashQueue.length ≤ MAX_RETAINED_TX_HASHES
  queueIsExecuted : ∀ h, h ∈ chain.txHashQueue ↔ chain.isTransactionHashExecuted h = true
  queueRecent : chain.txHashQueue = (accepted.flatMap H.txHashes).rtake MAX_RETAINED_TX_HASHES

lemma Represents.height (h : Represents H history chain) :
    chain.height = UInt64.ofNat history.length := by
  have hlast : (H.genesis :: history)[history.length]? = some chain.latestCheckpoint := by
    rw [← h.latest, List.getLast_eq_getElem]
    simp
  show chain.latestCheckpoint.sequence = _
  rw [sequence_of_linked h.linked hlast]
  exact UInt64.zero_add _

lemma Represents.invariant (h : Represents H history chain) : ChainInvariant H history chain := by
  have htail : chain.dagCheckpoints.tail = history.rtake (MAX_RETAINED_BLOCKS - 1) := by
    rw [h.retained, List.tail_cons]
  have hsub : ∀ c ∈ chain.dagCheckpoints, c ∈ H.genesis :: history := by
    intro c hc
    rw [h.retained] at hc
    rcases List.mem_cons.mp hc with rfl | hc
    · exact List.mem_cons_self
    · exact List.mem_cons_of_mem _ ((rtake_isSuffix _ _).subset hc)
  have hchain := h.linked.suffix ((rtake_isSuffix history (MAX_RETAINED_BLOCKS - 1)).trans
    (List.suffix_cons _ _))
  refine {
    genesisFirst := by rw [h.retained, List.head?_cons]
    window := htail
    consecutive := htail ▸ hchain.imp fun _ _ hl => hl.1
    endsAtHeight := by rw [List.getLast?_eq_some_getLast chain.nonempty]; rfl
    heightCounts := h.height
    sequenceNumbers := ?_
    linked := h.linked
    predecessor := fun hsmall p hp c hc => prevHash_of_sequence h.linked hsmall (hsub p hp) (hsub c hc)
    blocksBounded := ?_
    queueNodup := h.mirrors.nodup
    queueBounded := ?_
    queueIsExecuted := ?_
    queueRecent := h.queue }
  · intro hsmall i c hc
    rw [htail] at hc
    have hget : (H.genesis :: history)[history.length - (MAX_RETAINED_BLOCKS - 1) + i + 1]? = some c := by
      rw [List.getElem?_cons_succ, ← List.getElem?_drop]
      exact hc
    rw [sequence_toNat h.linked hsmall hget, h.height, htail, length_rtake,
      UInt64.toNat_ofNat_of_lt' (show history.length < 2 ^ 64 from hsmall)]
    omega
  · rw [h.retained, List.length_cons, length_rtake]
    exact Nat.succ_le_of_lt (Nat.lt_of_le_of_lt (Nat.min_le_left _ _) (by decide))
  · rw [h.queue, length_rtake]
    exact Nat.min_le_left _ _
  · intro x
    have hset : chain.executedTxHashes = chain.txHashQueue.toFinset := h.mirrors.executed
    simp [isTransactionHashExecuted, hset]

/-- From genesis, whatever checkpoints are offered: the invariant holds of what was accepted, and
the next rejected call leaves the chain as it is. -/
theorem chain_invariant_run (H : HashEnv) (calls : List Checkpoint) :
    ChainInvariant H (acceptedCalls H (Blockchain.new H) calls) (runCalls H (Blockchain.new H) calls) ∧
      ∀ c e, ((runCalls H (Blockchain.new H) calls).addCheckpointWithValidation H c true).1 = .error e →
        ((runCalls H (Blockchain.new H) calls).addCheckpointWithValidation H c true).2 =
          runCalls H (Blockchain.new H) calls := by
  refine ⟨?_, fun c e hrejected => ?_⟩
  · have h := (represents_new H).run calls
    rw [List.nil_append] at h
    exact h.invariant
  · rcases addCheckpoint_cases H (runCalls H (Blockchain.new H) calls) c with ⟨-, heq⟩ | ⟨e', heq⟩
    · rw [heq] at hrejected
      cases hrejected
    · rw [heq]

end Kanari.Proofs

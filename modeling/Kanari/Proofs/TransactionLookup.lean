import Kanari.Proofs.ChainInvariant

/-!
# Looking up a transaction

The index of transaction locations has its own evictions, so a hash may be missing from it while
the transaction is retained.
-/

namespace Kanari.Proofs

open Lib Blockchain

variable {H : HashEnv}

/-- Entry `(sequence, i)` is the newest occurrence of the hash. -/
structure Newest (H : HashEnv) (checkpoints : List Checkpoint) (txHash : Bytes) (sequence : UInt64)
    (i : Nat) (c : Checkpoint) : Prop where
  split : ∃ older newer, checkpoints = older ++ c :: newer ∧ ∀ d ∈ newer, txHash ∉ H.txHashes d
  sequence_eq : c.sequence = sequence
  found : (H.txHashes c)[i]? = some txHash

def PointsToNewest (H : HashEnv) (checkpoints : List Checkpoint)
    (locations : Bytes → Option (UInt64 × Nat)) : Prop :=
  ∀ txHash sequence i, locations txHash = some (sequence, i) →
    ∃ c, Newest H checkpoints txHash sequence i c

def RecordsEntry (step : HashIndex → Bytes × Nat → HashIndex) (sequence : UInt64) : Prop :=
  ∀ index entry txHash location, (step index entry).txLocationIndex txHash = some location →
    txHash = entry.1 ∧ location = (sequence, entry.2) ∨
      txHash ≠ entry.1 ∧ index.txLocationIndex txHash = some location

variable {index : HashIndex} {txHash : Bytes} {c : Checkpoint} {chain : Blockchain}

lemma trim_location {fuel : Nat} {location : UInt64 × Nat}
    (h : (index.trim fuel).txLocationIndex txHash = some location) :
    index.txLocationIndex txHash = some location := by
  induction fuel generalizing index with
  | zero => exact h
  | succ fuel ih =>
    simp only [HashIndex.trim] at h
    split_ifs at h
    · have hforgotten := ih h
      unfold HashIndex.forgetOldest at hforgotten
      split at hforgotten
      · exact hforgotten
      · dsimp only at hforgotten
        rw [Function.update_apply] at hforgotten
        split_ifs at hforgotten
        exact hforgotten
    · exact h

lemma records_record (sequence : UInt64) : RecordsEntry (HashIndex.record sequence) sequence := by
  intro index entry txHash location h
  have hlocations : ((HashIndex.record sequence) index entry).txLocationIndex =
      Function.update index.txLocationIndex entry.1 (some (sequence, entry.2)) := by
    unfold HashIndex.record
    split_ifs <;> rfl
  rw [hlocations, Function.update_apply] at h
  split_ifs at h with hsame
  · exact .inl ⟨hsame, (Option.some.inj h).symm⟩
  · exact .inr ⟨hsame, h⟩

lemma records_recordTrimmed (sequence : UInt64) :
    RecordsEntry (HashIndex.recordTrimmed sequence) sequence :=
  fun index entry txHash location h => records_record sequence index entry txHash location (trim_location h)

lemma RecordsEntry.all {step : HashIndex → Bytes × Nat → HashIndex} {sequence : UInt64}
    (hstep : RecordsEntry step sequence) {hashes : List Bytes} {start : Nat}
    {location : UInt64 × Nat}
    (h : ((hashes.zipIdx start).foldl step index).txLocationIndex txHash = some location) :
    (∃ i, hashes[i]? = some txHash ∧ location = (sequence, start + i)) ∨
      txHash ∉ hashes ∧ index.txLocationIndex txHash = some location := by
  induction hashes generalizing index start with
  | nil => exact .inr ⟨List.not_mem_nil, h⟩
  | cons x rest ih =>
    obtain ⟨i, hi, heq⟩ | ⟨hrest, hindex⟩ := ih h
    · exact .inl ⟨i + 1, hi, by rw [heq, Nat.add_assoc, Nat.add_comm 1 i]⟩
    · obtain ⟨hx, heq⟩ | ⟨hx, hold⟩ := hstep _ _ _ _ hindex
      · exact .inl ⟨0, by rw [hx]; rfl, heq⟩
      · exact .inr ⟨by rw [List.mem_cons, not_or]; exact ⟨hx, hrest⟩, hold⟩

lemma PointsToNewest.record {step : HashIndex → Bytes × Nat → HashIndex}
    {checkpoints : List Checkpoint} (h : PointsToNewest H checkpoints index.txLocationIndex)
    (hstep : RecordsEntry step c.sequence) :
    PointsToNewest H (checkpoints ++ [c]) (((H.txHashes c).zipIdx).foldl step index).txLocationIndex := by
  intro txHash sequence i hlocation
  obtain ⟨j, hj, heq⟩ | ⟨hnew, hold⟩ := hstep.all hlocation
  · obtain ⟨rfl, rfl⟩ := Prod.mk.inj heq
    rw [Nat.zero_add]
    exact ⟨c, ⟨checkpoints, [], rfl, by simp⟩, rfl, hj⟩
  · obtain ⟨d, ⟨older, newer, rfl, hnewer⟩, hseq, hfound⟩ := h txHash sequence i hold
    refine ⟨d, ⟨older, newer ++ [c], by simp, ?_⟩, hseq, hfound⟩
    intro e he
    rcases List.mem_append.mp he with he | he
    · exact hnewer e he
    · rw [List.mem_singleton.mp he]
      exact hnew

lemma pointsToNewest_rebuild (H : HashEnv) (checkpoints : List Checkpoint) :
    PointsToNewest H checkpoints (checkpoints.foldl (fun index c =>
      ((H.txHashes c).zipIdx).foldl (HashIndex.recordTrimmed c.sequence) index)
      ⟨∅, [], fun _ => none, 0⟩).txLocationIndex := by
  induction checkpoints using List.reverseRecOn with
  | nil =>
    intro txHash sequence i h
    cases h
  | append_singleton checkpoints c ih =>
    rw [List.foldl_append]
    exact ih.record (records_recordTrimmed c.sequence)

structure LookupReady (H : HashEnv) (chain : Blockchain) : Prop where
  retained : ∃ rest, chain.dagCheckpoints = H.genesis :: rest ∧ rest.length < MAX_RETAINED_BLOCKS ∧
    rest.IsChain fun p c => c.sequence = p.sequence + 1
  nodup : ∀ c ∈ chain.dagCheckpoints, (H.txHashes c).Nodup
  points : PointsToNewest H chain.dagCheckpoints chain.txLocationIndex

lemma lookupReady_new (H : HashEnv) : LookupReady H (Blockchain.new H) where
  retained := ⟨[], rfl, by decide, List.isChain_nil⟩
  nodup := by
    intro c hc
    rw [List.mem_singleton.mp hc]
    exact List.nodup_nil
  points := by
    intro txHash sequence i h
    cases h

lemma LookupReady.rebuild (h : LookupReady H chain) :
    LookupReady H (chain.rebuildTxHashIndex H) where
  retained := h.retained
  nodup := h.nodup
  points := pointsToNewest_rebuild H chain.dagCheckpoints

lemma PointsToNewest.evict {second : Checkpoint} {rest : List Checkpoint}
    {locations : Bytes → Option (UInt64 × Nat)}
    (h : PointsToNewest H (H.genesis :: second :: rest) locations) :
    PointsToNewest H (H.genesis :: rest) fun txHash =>
      if txHash ∈ H.txHashes second then none else locations txHash := by
  intro txHash sequence i hlocation
  dsimp only at hlocation
  split_ifs at hlocation with hevicted
  obtain ⟨c, ⟨older, newer, hsplit, hnewer⟩, hseq, hfound⟩ := h txHash sequence i hlocation
  refine ⟨c, ?_, hseq, hfound⟩
  rcases older with - | ⟨first, - | ⟨second', older⟩⟩
  · obtain ⟨rfl, -⟩ := List.cons.inj hsplit
    cases hfound
  · obtain ⟨-, hsplit⟩ := List.cons.inj hsplit
    obtain ⟨rfl, -⟩ := List.cons.inj hsplit
    exact absurd (List.mem_of_getElem? hfound) hevicted
  · simp only [List.cons_append, List.cons.injEq] at hsplit
    obtain ⟨rfl, rfl, rfl⟩ := hsplit
    exact ⟨H.genesis :: older, newer, rfl, hnewer⟩

lemma lookupReady_evict (rest : List Checkpoint)
    (hretained : chain.dagCheckpoints = H.genesis :: rest)
    (hlength : rest.length ≤ MAX_RETAINED_BLOCKS)
    (hchain : rest.IsChain fun p c => c.sequence = p.sequence + 1)
    (hnodup : ∀ c ∈ chain.dagCheckpoints, (H.txHashes c).Nodup)
    (hpoints : PointsToNewest H chain.dagCheckpoints chain.txLocationIndex) :
    LookupReady H (chain.evict H) := by
  obtain ⟨checkpoints, executed, queue, locations, count, hne⟩ := chain
  obtain rfl : checkpoints = H.genesis :: rest := hretained
  cases rest with
  | nil => exact ⟨⟨[], rfl, by decide, hchain⟩, hnodup, hpoints⟩
  | cons second newer =>
    unfold Blockchain.evict
    dsimp only
    rw [List.length_cons] at hlength
    split_ifs with hfull
    · refine ⟨⟨newer, rfl, by omega, hchain.tail⟩, fun d hd => hnodup d ?_, hpoints.evict⟩
      exact List.mem_cons.mpr ((List.mem_cons.mp hd).imp_right (List.mem_cons_of_mem _))
    · refine ⟨⟨second :: newer, rfl, ?_, hchain⟩, hnodup, hpoints⟩
      simp only [List.length_cons] at hfull ⊢
      omega

lemma LookupReady.append (h : LookupReady H chain) (hc : Continues H chain c) :
    LookupReady H (chain.append H c) := by
  obtain ⟨rest, hretained, hlength, hchain⟩ := h.retained
  have hpushed : ((chain.trackCheckpointTransactions H c).push c).dagCheckpoints =
      chain.dagCheckpoints ++ [c] := rfl
  apply lookupReady_evict (rest ++ [c])
  · rw [hpushed, hretained, List.cons_append]
  · rw [List.length_append]
    exact hlength
  · refine List.isChain_append.mpr ⟨hchain, List.isChain_singleton _, ?_⟩
    intro p hp d hd
    obtain rfl : c = d := by simpa using hd
    have hlast : some chain.latestCheckpoint = some p := by
      unfold latestCheckpoint
      rw [← List.getLast?_eq_some_getLast, hretained, List.getLast?_cons, Option.mem_def.mp hp]
      rfl
    rw [hc.sequence, ← Option.some.inj hlast]
    rfl
  · intro d hd
    rcases List.mem_append.mp hd with hd | hd
    · exact h.nodup d hd
    · rw [List.mem_singleton.mp hd]
      exact hc.nodup
  · have hrecorded : PointsToNewest H (chain.dagCheckpoints ++ [c])
        (((H.txHashes c).zipIdx).foldl (HashIndex.record c.sequence) chain.hashIndex).txLocationIndex :=
      PointsToNewest.record h.points (records_record c.sequence)
    intro txHash sequence i hlocation
    exact hrecorded txHash sequence i (trim_location hlocation)

lemma sequence_ne (earlier : List Checkpoint) {later : List Checkpoint} {p : Checkpoint}
    (h : (p :: earlier ++ c :: later).IsChain fun p c => c.sequence = p.sequence + 1)
    (hlength : earlier.length < MAX_RETAINED_BLOCKS) : p.sequence ≠ c.sequence := by
  have hsum : c.sequence = p.sequence + UInt64.ofNat (earlier.length + 1) := by
    clear hlength
    induction earlier generalizing p with
    | nil => exact (List.isChain_cons_cons.mp h).1
    | cons q earlier ih =>
      obtain ⟨hstep, hrest⟩ := List.isChain_cons_cons.mp h
      rw [ih hrest, hstep, UInt64.add_assoc, List.length_cons, UInt64.ofNat_add (earlier.length + 1) 1,
        UInt64.add_comm 1]
      rfl
  intro heq
  rw [← heq] at hsum
  have hzero : UInt64.ofNat (earlier.length + 1) = 0 := by
    simpa using hsum.symm
  have hnat := congrArg UInt64.toNat hzero
  unfold MAX_RETAINED_BLOCKS at hlength
  rw [UInt64.toNat_ofNat_of_lt' (show earlier.length + 1 < 2 ^ 64 by omega)] at hnat
  exact absurd hnat (Nat.succ_ne_zero _)

lemma LookupReady.getCheckpoint (h : LookupReady H chain) {older newer : List Checkpoint}
    (hsplit : chain.dagCheckpoints = older ++ c :: newer) :
    chain.getCheckpoint c.sequence = some c ∨ chain.getCheckpoint c.sequence = some H.genesis := by
  obtain ⟨rest, hretained, hlength, hchain⟩ := h.retained
  unfold Blockchain.getCheckpoint
  by_cases hzero : H.genesis.sequence = c.sequence
  · right
    rw [hretained]
    exact List.find?_cons_of_pos (beq_iff_eq.mpr hzero)
  · left
    refine List.find?_eq_some_iff_append.mpr ⟨beq_self_eq_true _, older, newer, hsplit, ?_⟩
    intro p hp
    rw [Bool.not_eq_true', beq_eq_false_iff_ne]
    cases older with
    | nil => cases hp
    | cons first older =>
      rw [hretained, List.cons_append] at hsplit
      obtain ⟨rfl, rfl⟩ := List.cons.inj hsplit
      rcases List.mem_cons.mp hp with rfl | hp
      · exact hzero
      · obtain ⟨before, between, rfl⟩ := List.append_of_mem hp
        rw [List.append_assoc] at hchain hlength
        refine sequence_ne between (hchain.right_of_append) ?_
        simp only [List.length_append, List.length_cons] at hlength
        omega

lemma locateIn_eq_none : locateIn H txHash c = none ↔ txHash ∉ H.txHashes c := by
  simp only [locateIn, Option.map_eq_none_iff, List.find?_eq_none, HashEnv.txHashes, List.mem_map, not_exists,
    not_and, beq_iff_eq]
  constructor
  · intro h tx htx
    obtain ⟨i, hi⟩ := List.getElem?_of_mem htx
    exact h (tx, i) (List.mem_zipIdx_iff_getElem?.mpr hi)
  · intro h e he
    exact h e.1 (List.mem_of_getElem? (List.mem_zipIdx_iff_getElem?.mp he))

lemma locateIn_of_getElem {i : Nat} {tx : SignedTransaction} (hnodup : (H.txHashes c).Nodup)
    (htx : c.transactions[i]? = some tx) (hhash : H.transactionHash tx = txHash) :
    locateIn H txHash c = some (tx, c.sequence, c.stateRoot, c.transactionEffects[i]?) := by
  cases hlocate : locateIn H txHash c with
  | none =>
    refine absurd ?_ (locateIn_eq_none.mp hlocate)
    rw [← hhash]
    exact List.mem_map_of_mem (List.mem_of_getElem? htx)
  | some location =>
    obtain ⟨⟨tx', j⟩, hfind, rfl⟩ := Option.map_eq_some_iff.mp hlocate
    have htx' := List.mem_zipIdx_iff_getElem?.mp (List.mem_of_find?_eq_some hfind)
    have hhash' : H.transactionHash tx' = txHash := by simpa using List.find?_some hfind
    have hi : (H.txHashes c)[i]? = some txHash := by rw [HashEnv.txHashes, List.getElem?_map, htx, ← hhash]; rfl
    have hj : (H.txHashes c)[j]? = some txHash := by
      rw [HashEnv.txHashes, List.getElem?_map, htx', ← hhash']
      rfl
    obtain rfl : i = j := (List.getElem?_inj (List.getElem?_eq_some_iff.mp hi).1 hnodup).mp (hi.trans hj.symm)
    rw [htx] at htx'
    obtain rfl := Option.some.inj htx'
    rfl

lemma LookupReady.lookup_eq_scan (h : LookupReady H chain) (txHash : Bytes) :
    chain.getTransactionLocationWithEffect H txHash = chain.scanTransactions H txHash := by
  unfold getTransactionLocationWithEffect
  cases hlocation : chain.txLocationIndex txHash with
  | none => simp [indexedTransaction, hlocation]
  | some location =>
    obtain ⟨sequence, i⟩ := location
    obtain ⟨c, ⟨older, newer, hsplit, hnewer⟩, rfl, hfound⟩ := h.points txHash sequence i hlocation
    rcases h.getCheckpoint hsplit with hget | hget
    · obtain ⟨tx, htx, hhash⟩ : ∃ tx, c.transactions[i]? = some tx ∧ H.transactionHash tx = txHash := by
        rw [HashEnv.txHashes, List.getElem?_map] at hfound
        exact Option.map_eq_some_iff.mp hfound
      have hindexed : chain.indexedTransaction txHash =
          some (tx, c.sequence, c.stateRoot, c.transactionEffects[i]?) := by
        simp [indexedTransaction, hlocation, hget, htx]
      have hnone : newer.reverse.findSome? (locateIn H txHash) = none :=
        List.findSome?_eq_none_iff.mpr fun d hd => locateIn_eq_none.mpr (hnewer d (List.mem_reverse.mp hd))
      have hc := locateIn_of_getElem (h.nodup c (by rw [hsplit]; simp)) htx hhash
      rw [hindexed, scanTransactions, hsplit]
      simp [List.findSome?_append, hnone, hc]
    · have hindexed : chain.indexedTransaction txHash = none := by
        simp [indexedTransaction, hlocation, hget, HashEnv.genesis]
      rw [hindexed, Option.none_or]

inductive ChainCall where
  | add (c : Checkpoint)
  | rebuild

def afterCall (H : HashEnv) (chain : Blockchain) : ChainCall → Blockchain
  | .add c => (chain.addCheckpointWithValidation H c true).2
  | .rebuild => chain.rebuildTxHashIndex H

def chainAfter (H : HashEnv) (calls : List ChainCall) : Blockchain :=
  calls.foldl (afterCall H) (Blockchain.new H)

lemma LookupReady.afterCall (h : LookupReady H chain) (c : ChainCall) :
    LookupReady H (afterCall H chain c) := by
  cases c with
  | add c =>
    show LookupReady H (chain.addCheckpointWithValidation H c true).2
    rcases addCheckpoint_cases H chain c with ⟨hc, heq⟩ | ⟨e, heq⟩
    · rw [heq]
      exact h.append hc
    · rw [heq]
      exact h
  | rebuild => exact h.rebuild

lemma lookupReady_chainAfter (H : HashEnv) (calls : List ChainCall) : LookupReady H (chainAfter H calls) := by
  unfold chainAfter
  induction calls using List.reverseRecOn with
  | nil => exact lookupReady_new H
  | append_singleton calls c ih =>
    rw [List.foldl_concat]
    exact ih.afterCall c

/-- After any validated additions and rebuilt indexes a lookup returns what the scan from the newest
retained checkpoint to the oldest finds, and nothing exactly if no retained checkpoint has the hash. -/
theorem lookup_exact (H : HashEnv) (calls : List ChainCall) (txHash : Bytes) :
    (chainAfter H calls).getTransactionLocationWithEffect H txHash =
        (chainAfter H calls).dagCheckpoints.reverse.findSome? (locateIn H txHash) ∧
      ((chainAfter H calls).getTransactionLocationWithEffect H txHash = none ↔
        ∀ c ∈ (chainAfter H calls).dagCheckpoints, txHash ∉ H.txHashes c) := by
  have hscan := (lookupReady_chainAfter H calls).lookup_eq_scan txHash
  refine ⟨hscan, ?_⟩
  rw [hscan, scanTransactions, List.findSome?_eq_none_iff]
  simp only [List.mem_reverse, locateIn_eq_none]

end Kanari.Proofs

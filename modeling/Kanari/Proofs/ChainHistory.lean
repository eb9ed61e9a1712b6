import Kanari.Proofs.ChainInvariant

/-!
# Chains by their history

A chain that was built by accepted calls is a function of its history: `chainOf`.
-/

namespace Kanari.Proofs

open Lib Blockchain

variable {H : HashEnv} {history : List Checkpoint}

def chainOf (H : HashEnv) (history : List Checkpoint) : Blockchain :=
  history.foldl (Blockchain.append H) (Blockchain.new H)

@[simp] lemma chainOf_concat (H : HashEnv) (history : List Checkpoint) (c : Checkpoint) :
    chainOf H (history ++ [c]) = (chainOf H history).append H c :=
  List.foldl_concat ..

def Accepted (H : HashEnv) (history : List Checkpoint) : Prop :=
  ∀ older c newer, history = older ++ c :: newer → Continues H (chainOf H older) c

lemma accepted_nil (H : HashEnv) : Accepted H [] := fun older c newer h => by simp at h

variable {c : Checkpoint} {older : List Bytes} {index : HashIndex} {chain chain' : Blockchain}

lemma Accepted.append (h : Accepted H history) (hc : Continues H (chainOf H history) c) :
    Accepted H (history ++ [c]) := by
  intro older d newer heq
  rcases List.eq_nil_or_concat' newer with rfl | ⟨newer, e, rfl⟩
  · obtain ⟨rfl, hlast⟩ := List.append_inj' heq rfl
    obtain rfl := List.singleton_inj.mp hlast
    exact hc
  · rw [← List.cons_append, ← List.append_assoc] at heq
    exact h older d newer (List.append_inj' heq rfl).1

lemma Accepted.of_append {older newer : List Checkpoint} (h : Accepted H (older ++ newer)) :
    Accepted H older := by
  rintro a c b rfl
  exact h a c (b ++ newer) (by simp)

lemma Accepted.represents (h : Accepted H history) : Represents H history (chainOf H history) := by
  induction history using List.reverseRecOn with
  | nil => exact represents_new H
  | append_singleton older c ih =>
    rw [chainOf_concat]
    exact (ih h.of_append).append (h older c [] rfl)

lemma Accepted.executed (h : Accepted H history) :
    (chainOf H history).executedTxHashes =
      ((history.flatMap H.txHashes).rtake MAX_RETAINED_TX_HASHES).toFinset := by
  rw [← h.represents.queue]
  exact h.represents.mirrors.executed

/-- No hash is committed again while it is in the replay window. -/
lemma Accepted.windowNodup (h : Accepted H history) :
    WindowNodup MAX_RETAINED_TX_HASHES (history.flatMap H.txHashes) := by
  induction history using List.reverseRecOn with
  | nil => exact windowNodup_nil _
  | append_singleton older c ih =>
    have hc := h older c [] rfl
    rw [List.flatMap_append, List.flatMap_singleton]
    refine (ih h.of_append).append hc.nodup fun x hx hmem => ?_
    exact hc.fresh x hx (by rw [h.of_append.executed, List.mem_toFinset]; exact hmem)

lemma Accepted.sequence (h : Accepted H history) (hsmall : history.length < 2 ^ 64) {i : Nat}
    (hc : history[i]? = some c) : c.sequence.toNat = i + 1 :=
  sequence_toNat h.represents.linked hsmall (by rw [List.getElem?_cons_succ]; exact hc)

lemma Accepted.height (h : Accepted H history) (hsmall : history.length < 2 ^ 64) :
    (chainOf H history).height.toNat = history.length := by
  rw [h.represents.height, UInt64.toNat_ofNat_of_lt' hsmall]

lemma Continues.sequence_toNat (h : Accepted H history) (hsmall : history.length + 1 < 2 ^ 64)
    (hc : Continues H (chainOf H history) c) : c.sequence.toNat = history.length + 1 :=
  (h.append hc).sequence (by simpa using hsmall) (by simp)

lemma Mirrors.recordTrimmed (h : Mirrors index)
    (hqueue : index.txHashQueue = older.rtake MAX_RETAINED_TX_HASHES) {txHash : Bytes}
    (hfresh : txHash ∉ older.rtake MAX_RETAINED_TX_HASHES) (sequence : UInt64) (i : Nat) :
    Mirrors (index.recordTrimmed sequence (txHash, i)) ∧
      (index.recordTrimmed sequence (txHash, i)).txHashQueue =
        (older ++ [txHash]).rtake MAX_RETAINED_TX_HASHES := by
  have hnew : txHash ∉ index.executedTxHashes := by
    rw [h.executed, List.mem_toFinset, hqueue]
    exact hfresh
  obtain ⟨hrecord, hpushed⟩ := h.record hnew sequence i
  obtain ⟨htrim, hwindow⟩ := hrecord.trim (Nat.le_refl _)
  unfold HashIndex.recordTrimmed
  exact ⟨htrim, hwindow.trans (by rw [hpushed, hqueue, rtake_rtake_append])⟩

lemma Mirrors.recordTrimmed_all (h : Mirrors index)
    (hqueue : index.txHashQueue = older.rtake MAX_RETAINED_TX_HASHES) (sequence : UInt64)
    {hashes : List Bytes} (hfresh : WindowNodup MAX_RETAINED_TX_HASHES (older ++ hashes))
    (start : Nat) :
    Mirrors ((hashes.zipIdx start).foldl (HashIndex.recordTrimmed sequence) index) ∧
      ((hashes.zipIdx start).foldl (HashIndex.recordTrimmed sequence) index).txHashQueue =
        (older ++ hashes).rtake MAX_RETAINED_TX_HASHES := by
  induction hashes generalizing index older start with
  | nil =>
    rw [List.append_nil]
    exact ⟨h, hqueue⟩
  | cons x rest ih =>
    obtain ⟨hmirrors, hstep⟩ := h.recordTrimmed hqueue (hfresh older x rest rfl) sequence start
    rw [List.zipIdx_cons, List.foldl_cons, ← List.singleton_append, ← List.append_assoc]
    rw [← List.singleton_append, ← List.append_assoc] at hfresh
    exact ih hmirrors hstep hfresh (start + 1)

lemma rebuild_index (H : HashEnv) (h : Mirrors index)
    (hqueue : index.txHashQueue = older.rtake MAX_RETAINED_TX_HASHES)
    {checkpoints : List Checkpoint}
    (hfresh : WindowNodup MAX_RETAINED_TX_HASHES (older ++ checkpoints.flatMap H.txHashes)) :
    let rebuilt := checkpoints.foldl
      (fun index c => ((H.txHashes c).zipIdx).foldl (HashIndex.recordTrimmed c.sequence) index) index
    Mirrors rebuilt ∧
      rebuilt.txHashQueue = (older ++ checkpoints.flatMap H.txHashes).rtake MAX_RETAINED_TX_HASHES := by
  induction checkpoints generalizing index older with
  | nil =>
    rw [List.flatMap_nil, List.append_nil]
    exact ⟨h, hqueue⟩
  | cons c rest ih =>
    rw [List.flatMap_cons, ← List.append_assoc] at hfresh ⊢
    have hfirst : WindowNodup MAX_RETAINED_TX_HASHES (older ++ H.txHashes c) := fun a x b heq =>
      hfresh a x (b ++ rest.flatMap H.txHashes) (by rw [heq, List.append_assoc, List.cons_append])
    obtain ⟨hmirrors, hstep⟩ := h.recordTrimmed_all hqueue c.sequence hfirst 0
    exact ih hmirrors hstep hfresh

@[simp] lemma rebuild_dagCheckpoints (H : HashEnv) (chain : Blockchain) :
    (chain.rebuildTxHashIndex H).dagCheckpoints = chain.dagCheckpoints := rfl

@[simp] lemma rebuild_latestCheckpoint (H : HashEnv) (chain : Blockchain) :
    (chain.rebuildTxHashIndex H).latestCheckpoint = chain.latestCheckpoint := rfl

lemma Accepted.rebuilt_executed (h : Accepted H history) :
    ((chainOf H history).rebuildTxHashIndex H).executedTxHashes =
      (((history.rtake (MAX_RETAINED_BLOCKS - 1)).flatMap H.txHashes).rtake MAX_RETAINED_TX_HASHES).toFinset := by
  obtain ⟨t, ht⟩ := rtake_isSuffix history (MAX_RETAINED_BLOCKS - 1)
  have hsuffix : (history.rtake (MAX_RETAINED_BLOCKS - 1)).flatMap H.txHashes <:+ history.flatMap H.txHashes := by
    nth_rewrite 2 [← ht]
    rw [List.flatMap_append]
    exact List.suffix_append _ _
  have hflat : (chainOf H history).dagCheckpoints.flatMap H.txHashes =
      (history.rtake (MAX_RETAINED_BLOCKS - 1)).flatMap H.txHashes := by
    rw [h.represents.retained, List.flatMap_cons]
    exact List.nil_append _
  have hempty : Mirrors ⟨∅, [], fun _ => none, 0⟩ := ⟨List.nodup_nil, rfl⟩
  have hfresh : WindowNodup MAX_RETAINED_TX_HASHES
      ([] ++ (chainOf H history).dagCheckpoints.flatMap H.txHashes) := by
    rw [List.nil_append, hflat]
    exact h.windowNodup.suffix hsuffix
  obtain ⟨hmirrors, hqueue⟩ := rebuild_index H hempty (List.rtake_nil _).symm hfresh
  rw [List.nil_append, hflat] at hqueue
  rw [← hqueue]
  exact hmirrors.executed

lemma rebuild_count_le (H : HashEnv) {n : Nat} {checkpoints : List Checkpoint}
    (h : index.totalTransactionCount ≤ lifetimeCount n) :
    (checkpoints.foldl (fun index c => ((H.txHashes c).zipIdx).foldl (HashIndex.recordTrimmed c.sequence) index)
      index).totalTransactionCount ≤ lifetimeCount (n + (checkpoints.flatMap H.txHashes).length) := by
  have hrecord : ∀ (entries : List (Bytes × Nat)) (sequence : UInt64) {n : Nat} {index : HashIndex},
      index.totalTransactionCount ≤ lifetimeCount n →
        (entries.foldl (HashIndex.recordTrimmed sequence) index).totalTransactionCount ≤
          lifetimeCount (n + entries.length) := by
    intro entries sequence
    induction entries with
    | nil => exact id
    | cons entry rest ih =>
      intro n index h
      rw [List.foldl_cons, List.length_cons, Nat.add_comm rest.length, ← Nat.add_assoc]
      refine ih ?_
      simp only [HashIndex.recordTrimmed, trim_count, HashIndex.record]
      split_ifs
      · exact h.trans (by unfold lifetimeCount; omega)
      · rw [← saturatingAdd_lifetimeCount]
        exact min_le_min_right _ (Nat.add_le_add_right h 1)
  induction checkpoints generalizing index n with
  | nil => exact h
  | cons c rest ih =>
    rw [List.foldl_cons, List.flatMap_cons, List.length_append, ← Nat.add_assoc]
    exact ih (by simpa using hrecord (H.txHashes c).zipIdx c.sequence h)

/-- A chain that counted at least what its checkpoints contain keeps its count. -/
lemma Accepted.rebuilt_count (h : Accepted H history) (hdag : chain.dagCheckpoints = (chainOf H history).dagCheckpoints)
    (hcount : chain.totalTransactionCount = (chainOf H history).totalTransactionCount) :
    (chain.rebuildTxHashIndex H).totalTransactionCount = (chainOf H history).totalTransactionCount := by
  refine (congrArg _ hcount).trans (max_eq_right ((rebuild_count_le H (n := 0) (Nat.zero_le _)).trans ?_))
  obtain ⟨t, ht⟩ := rtake_isSuffix history (MAX_RETAINED_BLOCKS - 1)
  rw [h.represents.count, hdag, h.represents.retained]
  have hle := congrArg (fun l => (List.flatMap H.txHashes l).length) ht
  simp only [List.flatMap_append, List.length_append] at hle
  unfold lifetimeCount
  simp only [List.flatMap_cons, List.length_append, show (H.txHashes H.genesis).length = 0 from rfl]
  omega

lemma Accepted.rebuilt_subset (h : Accepted H history) :
    ((chainOf H history).rebuildTxHashIndex H).executedTxHashes ⊆ (chainOf H history).executedTxHashes := by
  rw [h.rebuilt_executed, h.executed]
  intro x hx
  obtain ⟨t, ht⟩ := rtake_isSuffix history (MAX_RETAINED_BLOCKS - 1)
  rw [List.mem_toFinset] at hx ⊢
  refine mem_rtake_of_suffix ⟨t.flatMap H.txHashes, ?_⟩ hx
  rw [← List.flatMap_append, ht]

lemma append_dagCheckpoints_eq {first : Checkpoint} {rest : List Checkpoint}
    (h : chain.dagCheckpoints = first :: rest) (c : Checkpoint) :
    (chain.append H c).dagCheckpoints =
      first :: if MAX_RETAINED_BLOCKS ≤ (rest ++ [c]).length then (rest ++ [c]).tail else rest ++ [c] := by
  refine (evict_spec H _ ?_).1
  show chain.dagCheckpoints ++ [c] = first :: (rest ++ [c])
  rw [h, List.cons_append]

lemma append_dagCheckpoints (h : chain.dagCheckpoints = chain'.dagCheckpoints) (c : Checkpoint) :
    (chain.append H c).dagCheckpoints = (chain'.append H c).dagCheckpoints := by
  obtain ⟨first, rest, hfirst⟩ := List.exists_cons_of_ne_nil chain.nonempty
  rw [append_dagCheckpoints_eq hfirst, append_dagCheckpoints_eq (h ▸ hfirst)]

lemma append_latestCheckpoint (H : HashEnv) (chain : Blockchain) (c : Checkpoint) :
    (chain.append H c).latestCheckpoint = c := by
  obtain ⟨first, rest, hfirst⟩ := List.exists_cons_of_ne_nil chain.nonempty
  have hlast : (chain.append H c).dagCheckpoints.getLast? = some c := by
    rw [append_dagCheckpoints_eq hfirst]
    split_ifs with hfull
    · cases rest with
      | nil => simp [MAX_RETAINED_BLOCKS] at hfull
      | cons second rest => rw [List.cons_append, List.tail_cons, ← List.cons_append, List.getLast?_concat]
    · rw [← List.cons_append, List.getLast?_concat]
  rw [List.getLast?_eq_some_getLast (chain.append H c).nonempty] at hlast
  exact Option.some.inj hlast

lemma latestCheckpoint_congr (h : chain.dagCheckpoints = chain'.dagCheckpoints) :
    chain.latestCheckpoint = chain'.latestCheckpoint := by
  unfold latestCheckpoint
  simp only [h]

lemma height_congr (h : chain.dagCheckpoints = chain'.dagCheckpoints) :
    chain.height = chain'.height := congrArg Checkpoint.sequence (latestCheckpoint_congr h)

end Kanari.Proofs

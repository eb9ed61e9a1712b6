import Kanari.Lib.PairTree
import Kanari.Proofs.SparseRuns

/-!
# Proofs in the sparse Merkle tree

The verifier reads neither the flag of a proof nor the number of its siblings, so what it accepts is
bound only for proofs with 256 siblings and with the right flag.
-/

namespace Kanari.Proofs

open Lib BitTree HashFunctions

variable {H : Type} [DecidableEq H] (hf : HashFunctions H)

/-! ## Histories with arbitrary batches -/

/-- The trees that operations on keys from `K` lead to, whether they succeed or not; keys may be
repeated in a batch, and may be both deleted and updated. -/
inductive SmtHistory (K : Set Bytes) : SparseMerkleTree H → Prop
  | fresh : SmtHistory K (HashFunctions.new {})
  | step {t : SparseMerkleTree H} {op : SmtOp H} : SmtHistory K t →
      (∀ e ∈ op.updates, e.1 ∈ K) → (∀ k ∈ op.deletes, k ∈ K) → PrecomputedFor hf t op →
      SmtHistory K (op.run hf t).1

variable {hf} {S : Set KeyHash} {t : SparseMerkleTree H}

omit [DecidableEq H] in
lemma find?_writeLeaves_last (m : OrdMap KeyHash Bytes) (l : List (KeyHash × Option Bytes))
    (k : KeyHash) : (writeLeaves m l).find? k =
      ((OrdMap.ofList l).find? k).getD (m.find? k) := by
  induction l using List.reverseRecOn with
  | nil => rfl
  | append_singleton l c ih =>
    have hleaves : writeLeaves m (l ++ [c]) = writeLeaf (writeLeaves m l) c := by simp [writeLeaves]
    have hchanges : OrdMap.ofList (l ++ [c]) = (OrdMap.ofList l).insert c.1 c.2 := by
      simp [OrdMap.ofList]
    rw [hleaves, hchanges, find?_writeLeaf, OrdMap.find?_insert]
    by_cases hk : k = c.1
    · rw [if_pos hk, if_pos hk]
      rfl
    · rw [if_neg hk, if_neg hk, ih]

lemma oneEach_entries (m : OrdMap KeyHash (Option Bytes)) : OneEach m.entries := by
  intro k v v' hv hv'
  have heq := (OrdMap.mem_entries.mp hv).symm.trans (OrdMap.mem_entries.mp hv')
  exact Option.some.inj heq

omit [DecidableEq H] in
lemma changesOf_eq (updates : List (Bytes × Bytes)) (deletes : List Bytes) :
    hf.changesOf updates deletes = OrdMap.ofList (changeList hf updates deletes) := by
  unfold changesOf changeList OrdMap.ofList
  rw [List.foldl_append, List.foldl_map, List.foldl_map]

omit [DecidableEq H] in
lemma writeChanges_changesOf (data : OrdMap KeyHash Bytes) (updates : List (Bytes × Bytes))
    (deletes : List Bytes) : hf.writeChanges data updates deletes =
      writeLeaves data (hf.changesOf updates deletes).entries := by
  refine OrdMap.ext fun k => ?_
  rw [writeChanges_eq, find?_writeLeaves_last, ← changesOf_eq]
  cases hfind : (hf.changesOf updates deletes).find? k with
  | some v => exact (find?_writeLeaves (oneEach_entries _) (OrdMap.mem_entries.mpr hfind) data).symm
  | none =>
    refine (find?_writeLeaves_of_not_mem ?_ data).symm
    rintro ⟨k', v⟩ hc rfl
    rw [OrdMap.mem_entries.mp hc] at hfind
    cases hfind

section

variable {K : Set Bytes} {updates : List (Bytes × Bytes)} {deletes : List Bytes}

omit [DecidableEq H] in
lemma changesOf_keys (hupdates : ∀ e ∈ updates, e.1 ∈ K) (hdeletes : ∀ k ∈ deletes, k ∈ K) :
    ∀ c ∈ (hf.changesOf updates deletes).entries, c.1 ∈ hf.digest '' K := by
  rintro ⟨kh, v⟩ hc
  have hfind := OrdMap.mem_entries.mp hc
  rw [changesOf_eq, OrdMap.ofList] at hfind
  obtain ⟨hnone, -⟩ | ⟨w, hw, -⟩ := OrdMap.find?_foldl_insert .empty
    (changeList hf updates deletes) kh
  · rw [hnone] at hfind
    cases hfind
  · obtain ⟨k, hk, rfl, -⟩ | ⟨k, u, hu, rfl, -⟩ := mem_changeList.mp hw
    · exact ⟨k, hdeletes k hk, rfl⟩
    · exact ⟨k, hupdates _ hu, rfl⟩

lemma mem_of_mem_dedupFrom {α : Type} {key : α → KeyHash} {a : α} {previous : KeyHash} {l : List α}
    (h : a ∈ dedupFrom key previous l) : a ∈ l := by
  induction l generalizing previous with
  | nil => exact h
  | cons b l ih =>
    rw [dedupFrom] at h
    split_ifs at h
    · exact List.mem_cons_of_mem _ (ih h)
    · obtain rfl | h := List.mem_cons.mp h
      · exact List.mem_cons_self
      · exact List.mem_cons_of_mem _ (ih h)

lemma mem_of_mem_sortDedup {α : Type} {key : α → KeyHash} {a : α} {l : List α}
    (h : a ∈ sortDedup key l) : a ∈ l := by
  rw [← (List.perm_insertionSort (fun a b : α => key a ≤ key b) l).mem_iff]
  unfold sortDedup at h
  generalize l.insertionSort (fun a b => key a ≤ key b) = sorted at h ⊢
  cases sorted with
  | nil => exact h
  | cons b rest =>
    obtain rfl | h := List.mem_cons.mp h
    · exact List.mem_cons_self
    · exact List.mem_cons_of_mem _ (mem_of_mem_dedupFrom h)

end

lemma NodeIndexed.committed (h : NodeIndexed hf S t) {l : List (KeyHash × Option Bytes)}
    (hl : ∀ c ∈ l, c.1 ∈ S) {overlay : NodeOverlay H}
    (hright : RightBelow hf (hf.ensureNodeIndex t).nodeCache overlay (writeLeaves t.db.data l) [])
    {root : H} (hroot : root = treeNode hf (leaves hf (writeLeaves t.db.data l)) []) :
    NodeIndexed hf S (commit (hf.ensureNodeIndex t) (writeLeaves t.db.data l) root overlay) :=
  ⟨h.keysIn.writeLeaves hl, hroot, fun _ => hright.commit hf⟩

lemma NodeIndexed.staged (hS : Separated S) (h : NodeIndexed hf S t)
    {l : List (KeyHash × Option Bytes)} (hl : ∀ c ∈ l, c.1 ∈ S) :
    RightBelow hf (hf.ensureNodeIndex t).nodeCache
      (hf.stageChanges (hf.ensureNodeIndex t).nodeCache l) (writeLeaves t.db.data l) [] :=
  stageChanges_right hf hS h.keysIn hl (h.ensureNodeIndex_right hS).2

section

variable {K : Set Bytes} (hK : SeparatedKeys hf K)
include hK

lemma insert_nodeIndexed (h : NodeIndexed hf (hf.digest '' K) t) {kvs : List (Bytes × Bytes)}
    (hkvs : ∀ e ∈ kvs, e.1 ∈ K) : NodeIndexed hf (hf.digest '' K) (hf.insert t kvs) := by
  unfold HashFunctions.insert
  by_cases hempty : kvs = []
  · rwa [if_pos (by simpa using hempty)]
  · rw [if_neg (by simpa using hempty)]
    set keyed := sortDedup (·.1) (kvs.map fun e => (hf.digest e.1, e.2)) with hkeyed
    have hl : ∀ c ∈ keyed.map (fun e => (e.1, some e.2)), c.1 ∈ hf.digest '' K := by
      intro c hc
      obtain ⟨e, he, rfl⟩ := List.mem_map.mp hc
      obtain ⟨kv, hkv, rfl⟩ := List.mem_map.mp (mem_of_mem_sortDedup he)
      exact ⟨kv.1, hkvs kv hkv, rfl⟩
    have hright := h.staged hK.separated hl
    have hdata : keyed.foldl (fun m e => m.insert e.1 e.2) (hf.ensureNodeIndex t).db.data =
        writeLeaves t.db.data (keyed.map fun e => (e.1, some e.2)) := by
      rw [writeLeaves, List.foldl_map, ensureNodeIndex_db]
      rfl
    dsimp only
    rw [hdata]
    exact h.committed hl hright (hright.root hf)

lemma delete_nodeIndexed (h : NodeIndexed hf (hf.digest '' K) t) {keys : List Bytes}
    (hkeys : ∀ k ∈ keys, k ∈ K) : NodeIndexed hf (hf.digest '' K) (hf.delete t keys) := by
  unfold HashFunctions.delete
  by_cases hempty : keys = []
  · rwa [if_pos (by simpa using hempty)]
  · rw [if_neg (by simpa using hempty)]
    set keyed := sortDedup id (keys.map hf.digest) with hkeyed
    have hl : ∀ c ∈ keyed.map (fun k => (k, (none : Option Bytes))), c.1 ∈ hf.digest '' K := by
      intro c hc
      obtain ⟨kh, hkh, rfl⟩ := List.mem_map.mp hc
      obtain ⟨k, hk, rfl⟩ := List.mem_map.mp (mem_of_mem_sortDedup hkh)
      exact ⟨k, hkeys k hk, rfl⟩
    have hright := h.staged hK.separated hl
    have hdata : keyed.foldl (fun m k => m.erase k) (hf.ensureNodeIndex t).db.data =
        writeLeaves t.db.data (keyed.map fun k => (k, none)) := by
      rw [writeLeaves, List.foldl_map, ensureNodeIndex_db]
      rfl
    dsimp only
    rw [hdata]
    exact h.committed hl hright (hright.root hf)

variable {updates : List (Bytes × Bytes)} {deletes : List Bytes}

lemma applyChangesWithRoot_nodeIndexed (h : NodeIndexed hf (hf.digest '' K) t)
    (hupdates : ∀ e ∈ updates, e.1 ∈ K) (hdeletes : ∀ k ∈ deletes, k ∈ K) (root : H) :
    NodeIndexed hf (hf.digest '' K) (hf.applyChangesWithRoot t updates deletes root).1 := by
  have hl : ∀ c ∈ (hf.changesOf updates deletes).entries, c.1 ∈ hf.digest '' K :=
    changesOf_keys hupdates hdeletes
  have hright := h.staged hK.separated hl
  unfold applyChangesWithRoot
  dsimp only
  split_ifs with heq
  · rw [writeChanges_changesOf, ensureNodeIndex_db]
    exact h.committed hl hright (heq.symm.trans (hright.root hf))
  · exact h.ensureNodeIndex hK.separated

lemma rootHashWithChangesAndOverlay_shows (h : NodeIndexed hf (hf.digest '' K) t)
    (hupdates : ∀ e ∈ updates, e.1 ∈ K) (hdeletes : ∀ k ∈ deletes, k ∈ K) :
    RightBelow hf (hf.ensureNodeIndex t).nodeCache
      (hf.rootHashWithChangesAndOverlay t updates deletes).2.2
      (writeLeaves t.db.data (hf.changesOf updates deletes).entries) [] := by
  have hl : ∀ c ∈ (hf.changesOf updates deletes).entries, c.1 ∈ hf.digest '' K :=
    changesOf_keys hupdates hdeletes
  have hcache := (h.ensureNodeIndex_right hK.separated).2
  unfold rootHashWithChangesAndOverlay
  by_cases hempty : (updates.isEmpty && deletes.isEmpty) = true
  · rw [if_pos hempty]
    rw [Bool.and_eq_true, List.isEmpty_iff, List.isEmpty_iff] at hempty
    obtain ⟨rfl, rfl⟩ := hempty
    exact hcache
  · rw [if_neg hempty]
    dsimp only
    split_ifs
    · exact parallel_right hf hK.separated h.keysIn (oneEach_entries _) hl hcache
    · exact h.staged hK.separated hl

lemma applyChangesWithPrecomputedOverlay_nodeIndexed (h : NodeIndexed hf (hf.digest '' K) t)
    (hupdates : ∀ e ∈ updates, e.1 ∈ K) (hdeletes : ∀ k ∈ deletes, k ∈ K) (root : H)
    {overlay : NodeOverlay H}
    (hoverlay : overlay = (hf.rootHashWithChangesAndOverlay t updates deletes).2.2) :
    NodeIndexed hf (hf.digest '' K)
      (hf.applyChangesWithPrecomputedOverlay t updates deletes root overlay).1 := by
  have hright := rootHashWithChangesAndOverlay_shows hK h hupdates hdeletes
  rw [← hoverlay] at hright
  have hshown : ((overlay []).map (·.getD (hf.defaultHash 0))).getD (hf.rootHash t) =
      treeNode hf (leaves hf (writeLeaves t.db.data (hf.changesOf updates deletes).entries)) [] := by
    have hbranch := hright.branch [] List.prefix_rfl (by simp)
    rw [← hbranch]
    cases hcase : overlay [] with
    | some x =>
      unfold nodeValue
      rw [hcase]
      rfl
    | none =>
      have hold := (h.ensureNodeIndex_right hK.separated).2.branch [] List.prefix_rfl (by simp)
      rw [Option.map_none, Option.getD_none, h.rootHash, ← hold]
      exact nodeValue_congr hf _ hcase.symm
  unfold applyChangesWithPrecomputedOverlay
  dsimp only
  split_ifs with heq
  · rw [writeChanges_changesOf, ensureNodeIndex_db]
    exact h.committed (changesOf_keys hupdates hdeletes) hright (heq.symm.trans hshown)
  · exact h

omit hK [DecidableEq H] in
lemma nodeIndexed_empty {t : SparseMerkleTree H} (hdata : t.db.data = .empty)
    (hroot : t.db.root.getD (hf.defaultHash 0) = hf.defaultHash 0)
    (hcache : t.nodeCache = fun _ => none) : NodeIndexed hf (hf.digest '' K) t :=
  (consistent_empty K t hdata hroot hcache).nodeIndexed

/-- Every history keeps root and cache those of the tree over the data. -/
lemma SmtHistory.nodeIndexed (h : SmtHistory hf K t) : NodeIndexed hf (hf.digest '' K) t := by
  induction h with
  | fresh => exact nodeIndexed_empty rfl rfl rfl
  | @step t op _ hupdates hdeletes hpre ih =>
    cases op with
    | insert kvs => exact insert_nodeIndexed hK ih hupdates
    | delete keys => exact delete_nodeIndexed hK ih hdeletes
    | applyChangesWithRoot updates deletes root =>
      exact applyChangesWithRoot_nodeIndexed hK ih hupdates hdeletes root
    | applyChangesWithPrecomputedOverlay updates deletes root overlay =>
      exact applyChangesWithPrecomputedOverlay_nodeIndexed hK ih hupdates hdeletes root hpre
    | rebuild entries =>
      change NodeIndexed hf _ (hf.rebuild t entries)
      unfold HashFunctions.rebuild
      dsimp only
      split_ifs
      · exact nodeIndexed_empty rfl rfl rfl
      · exact insert_nodeIndexed hK (nodeIndexed_empty rfl rfl rfl) hupdates
    | reopen => exact ⟨ih.keysIn, ih.root, fun hready => nomatch hready⟩
    | ensureNodeIndex => exact ih.ensureNodeIndex hK.separated

end

/-! ## Proofs of a tree are accepted -/

omit [DecidableEq H] in
lemma foldSiblings_tree {leaf : List Bool → H} {k : KeyHash} {i : Nat} {siblings : List H}
    (hlen : i + siblings.length ≤ 256)
    (hsiblings : ∀ j, j < siblings.length →
      siblings[j]? = some (treeNode hf leaf (siblingKey k (255 - (i + j))))) :
    hf.foldSiblings k i siblings (treeNode hf leaf (k.bits.take (256 - i))) =
      some (treeNode hf leaf (k.bits.take (256 - (i + siblings.length)))) := by
  induction siblings generalizing i with
  | nil => rfl
  | cons sibling siblings ih =>
    rw [List.length_cons] at hlen hsiblings ⊢
    have hi : i < 256 := by omega
    have hfirst : sibling = treeNode hf leaf (siblingKey k (255 - i)) :=
      Option.some.inj (hsiblings 0 (by omega))
    have hdepth : 256 - i = 255 - i + 1 := by omega
    have hup : 256 - (i + 1) = 255 - i := by omega
    have hrest : ∀ j, j < siblings.length →
        siblings[j]? = some (treeNode hf leaf (siblingKey k (255 - (i + 1 + j)))) := by
      intro j hj
      have hnext := hsiblings (j + 1) (by omega)
      rw [List.getElem?_cons_succ, show i + (j + 1) = i + 1 + j by omega] at hnext
      exact hnext
    rw [foldSiblings, if_pos hi, hfirst, hdepth, ← treeNode_join hf leaf k (by omega), ← hup,
      ih (by omega) hrest, show i + (siblings.length + 1) = i + 1 + siblings.length by omega]

lemma proof_leaf (t : SparseMerkleTree H) (k : Bytes) :
    (hf.proof t k).2.2.1 = hf.leafHash (hf.digest k) (t.db.data.find? (hf.digest k)) := rfl

lemma length_proof_siblings (t : SparseMerkleTree H) (k : Bytes) :
    (hf.proof t k).2.2.2.length = 256 := by
  unfold HashFunctions.proof
  rw [List.length_map, List.length_range]

lemma proof_siblings (t : SparseMerkleTree H) (k : Bytes) {j : Nat} (hj : j < 256) :
    (hf.proof t k).2.2.2[j]? = some (nodeValue hf (hf.ensureNodeIndex t).nodeCache (fun _ => none)
      (siblingKey (hf.digest k) (255 - j))) := by
  unfold HashFunctions.proof
  dsimp only
  have hdepth : 256 - j = 255 - j + 1 := by omega
  rw [List.getElem?_map, List.getElem?_range hj, Option.map_some, hdepth,
    ← nodeKey_flipBit (hf.digest k) (by omega), ← nodeHashFromOverlay_eq hf _ _ _ (by omega)]
  rfl

/-- For a key whose digest differs within the first 255 bits from those of the other live keys, the
proof is accepted against the root, has 256 siblings, and says whether the key is live. -/
theorem sparse_proof_complete {K : Set Bytes} (hK : SeparatedKeys hf K) (h : SmtHistory hf K t)
    (k : Bytes) (hk : ∀ k' ∈ K, (hf.get t k').isSome = true →
      nodeKey (hf.digest k') 255 = nodeKey (hf.digest k) 255 → k' = k) :
    let proof := (hf.proof t k).2
    hf.verifyProof (hf.rootHash t) k proof = some true ∧
      hf.rootHash (hf.proof t k).1 = hf.rootHash t ∧ proof.2.2.length = 256 ∧
      (proof.1 = true ↔ (hf.get t k).isSome = true) := by
  intro proof
  have hindexed := h.nodeIndexed hK
  obtain ⟨-, hright⟩ := hindexed.ensureNodeIndex_right hK.separated
  set kh := hf.digest k with hkh
  have hlen : proof.2.2.length = 256 := length_proof_siblings t k
  have hsiblings : ∀ j, j < proof.2.2.length →
      proof.2.2[j]? = some (treeNode hf (leaves hf t.db.data) (siblingKey kh (255 - (0 + j)))) := by
    intro j hj
    rw [hlen] at hj
    rw [Nat.zero_add, proof_siblings t k hj, ← hkh]
    congr 1
    by_cases hleaf : j = 0
    · -- next to the leaf the cache has nothing, and no other key is live there
      subst hleaf
      have hlast := length_siblingKey kh (show 255 < 256 by omega)
      rw [hright.leafLevel _ hlast, treeNode_leaf hf _ hlast]
      have hS : Separated (insert kh {s | ∃ v, t.db.data.find? s = some v}) := by
        have hlive : ∀ s v, t.db.data.find? s = some v → nodeKey s 255 = nodeKey kh 255 → s = kh := by
          intro s v hs hnode
          obtain ⟨k', hk', rfl⟩ := hindexed.keysIn s v hs
          rw [hk k' hk' (Option.isSome_iff_exists.mpr ⟨v, hs⟩) hnode]
        rintro a (rfl | ⟨v, hv⟩) b (rfl | ⟨w, hw⟩) hnode
        · rfl
        · exact (hlive b w hw hnode.symm).symm
        · exact hlive a v hv hnode
        · exact hK.separated a (hindexed.keysIn a v hv) b (hindexed.keysIn b w hw) hnode
      exact (leaves_sibling hf hS (fun s v hs => Set.mem_insert_of_mem _ ⟨v, hs⟩)
        (Set.mem_insert _ _)).symm
    · exact hright.branch _ List.nil_prefix (by rw [length_siblingKey kh (by omega)]; omega)
  have hleaf : proof.2.1 = treeNode hf (leaves hf t.db.data) (kh.bits.take (256 - 0)) := by
    rw [List.take_of_length_le (by rw [kh.length_bits]), treeNode_leaf hf _ kh.length_bits,
      leaves_bits]
    exact proof_leaf t k
  refine ⟨?_, ?_, hlen, Iff.rfl⟩
  · have hfold := foldSiblings_tree (show 0 + proof.2.2.length ≤ 256 by rw [hlen]) hsiblings
    rw [hlen, List.take_zero, ← hleaf] at hfold
    rw [verifyProof, hfold, Option.map_some, hindexed.rootHash, decide_eq_true rfl]
  · rw [hindexed.rootHash]
    have hafter := (hindexed.ensureNodeIndex hK.separated).rootHash
    rw [ensureNodeIndex_db] at hafter
    exact hafter

lemma SmtRun.history {K : Set Bytes} {live : List (Bytes × Bytes)} (h : SmtRun hf K t live) :
    SmtHistory hf K t := by
  induction h with
  | fresh => exact .fresh
  | done _ hbatch hprecomputed _ ih => exact .step ih hbatch.updates_mem hbatch.deletes_mem hprecomputed
  | failed _ hbatch hprecomputed _ ih => exact .step ih hbatch.updates_mem hbatch.deletes_mem hprecomputed

/-- The proofs of a live key and of a deleted one, after the store was opened again. -/
theorem sparse_proof_complete_after_reopen :
    let t := reopened orHashes [] [2] [7] [7]
    orHashes.verifyProof (orHashes.rootHash t) [2] (orHashes.proof t [2]).2 = some true ∧
      orHashes.verifyProof (orHashes.rootHash t) [] (orHashes.proof t []).2 = some true := by
  have hrun : SmtRun orHashes {[], [2]} (reopened orHashes [] [2] [7] [7]) [([2], [7])] :=
    reopened_run (by simp) (by simp) (by decide) _ _
  have haccepted : ∀ k ∈ ({[], [2]} : Set Bytes), orHashes.verifyProof
      (orHashes.rootHash (reopened orHashes [] [2] [7] [7])) k
      (orHashes.proof (reopened orHashes [] [2] [7] [7]) k).2 = some true := fun k hk =>
    (sparse_proof_complete orHashes_separated hrun.history k
      fun k' hk' _ hnode => orHashes_separated k' hk' k hk hnode).1
  exact ⟨haccepted _ (by simp), haccepted _ (by simp)⟩

lemma foldSiblings_or (kh : KeyHash) {i : Nat} {siblings : List Bool}
    (h : i + siblings.length ≤ 256) : orHashes.foldSiblings kh i siblings true = some true := by
  induction siblings generalizing i with
  | nil => rfl
  | cons sibling siblings ih =>
    rw [List.length_cons] at h
    have hjoin : join orHashes.hashNode (kh.bit (256 - i)) true sibling = true := by
      change join or (kh.bit (256 - i)) true sibling = true
      cases kh.bit (256 - i) <;> simp [join]
    rw [foldSiblings, if_pos (by omega), hjoin, ih (by omega)]

/-- The key `[]` is the only one that is ever live. After its absent neighbour `[1]` was deleted, the
proof for `[]` is not accepted. -/
theorem sparse_proof_rejected_next_to_delete :
    let t := orHashes.delete (orHashes.insert (HashFunctions.new {}) [([], [7])]) [[1]]
    SmtHistory orHashes {[], [1]} t ∧
      (∀ kh v, t.db.data.find? kh = some v ↔ kh = orHashes.digest [] ∧ v = [7]) ∧
      orHashes.verifyProof (orHashes.rootHash t) [] (orHashes.proof t []).2 = some false := by
  intro t
  have hinsert : SmtHistory orHashes {[], [1]} (orHashes.insert (HashFunctions.new {}) [([], [7])]) :=
    (single_run (Set.mem_insert _ _)).history
  have hdata : ∀ kh v, t.db.data.find? kh = some v ↔ kh = orHashes.digest [] ∧ v = [7] := by
    have hne : orHashes.digest [] ≠ orHashes.digest [1] := by
      intro heq
      exact absurd (congrArg KeyHash.bits heq) (by decide +kernel)
    intro kh v
    change ((OrdMap.empty.insert (orHashes.digest []) [7]).erase (orHashes.digest [1])).find? kh =
      some v ↔ _
    rw [OrdMap.find?_erase, OrdMap.find?_insert, OrdMap.find?_empty]
    by_cases h₁ : kh = orHashes.digest [1]
    · simp [h₁, hne.symm]
    · by_cases h₀ : kh = orHashes.digest []
      · simp [h₀, hne, eq_comm]
      · simp [h₁, h₀]
  refine ⟨?_, hdata, ?_⟩
  · change SmtHistory orHashes {[], [1]} ((SmtOp.delete [[1]]).run orHashes _).1
    refine SmtHistory.step hinsert ?_ ?_ trivial
    · intro e he
      exact absurd he List.not_mem_nil
    · intro k hk
      rw [List.mem_singleton.mp hk]
      exact Set.mem_insert_of_mem _ rfl
  · have hroot : orHashes.rootHash t = false := by
      have hshared : nodeKey (orHashes.digest []) 255 = nodeKey (orHashes.digest [1]) 255 := by
        decide +kernel
      rw [rootHash_delete_neighbour [] [1] [7] hshared]
      exact emptyRoot_or 256
    have hleaf : (orHashes.proof t []).2.2.1 = true := by
      rw [proof_leaf, (hdata _ [7]).mpr ⟨rfl, rfl⟩]
      rfl
    rw [verifyProof, hleaf, foldSiblings_or _ (by rw [length_proof_siblings]), hroot]
    rfl

/-! ## What an accepted proof says -/

section

variable (hf)

omit [DecidableEq H] in
lemma foldSiblings_eq (kh : KeyHash) (i : Nat) (siblings : List H) (current : H) :
    hf.foldSiblings kh i siblings current =
      if i + siblings.length ≤ 256 ∨ siblings = [] then
        some (climb hf.hashNode current (((kh.bits.take (256 - i)).reverse).zip siblings))
      else none := by
  induction siblings generalizing i current with
  | nil => simp [foldSiblings]
  | cons sibling siblings ih =>
    rw [foldSiblings, List.length_cons]
    by_cases hi : i < 256
    · have hdepth : 256 - i = 255 - i + 1 := by omega
      have hup : 256 - (i + 1) = 255 - i := by omega
      rw [if_pos hi, ih, hup, hdepth, take_bits_succ kh (by omega), List.reverse_append,
        List.reverse_singleton, List.singleton_append, List.zip_cons_cons]
      by_cases hlen : i + (siblings.length + 1) ≤ 256
      · rw [if_pos (.inl (by omega)), if_pos (.inl hlen)]
        rfl
      · have hne : siblings ≠ [] := by
          rintro rfl
          rw [List.length_nil] at hlen
          omega
        rw [if_neg (by rintro (h | h); exacts [by omega, hne h]),
          if_neg (by rintro (h | h); exacts [hlen h, List.cons_ne_nil _ _ h])]
    · rw [if_neg hi, if_neg (by rintro (h | h); exacts [by omega, List.cons_ne_nil _ _ h])]

def liveValue (entries : List (Bytes × Bytes)) (k : Bytes) : Option Bytes :=
  (entryMap hf entries).find? (hf.digest k)

variable {hf} {entries : List (Bytes × Bytes)}
  (hnodup : (entries.map fun e => hf.digest e.1).Nodup)
include hnodup

/-- The tree of the entries, in which every proof is a climb. -/
lemma verifyProof_eq (k : Bytes) (isMember : Bool) (leaf : H) {siblings : List H}
    (hlen : siblings.length ≤ 256) :
    hf.verifyProof (hf.computeSparseRoot entries) k (isMember, leaf, siblings) = some (decide
      (climb hf.hashNode leaf ((hf.digest k).bits.reverse.zip siblings) =
        (PairTree.complete (leaves hf (entryMap hf entries)) 256 []).root hf.hashNode)) := by
  have hfull : (hf.digest k).bits.take (256 - 0) = (hf.digest k).bits :=
    List.take_of_length_le (by rw [KeyHash.length_bits])
  rw [verifyProof, foldSiblings_eq, if_pos (.inl (by rw [Nat.zero_add]; exact hlen)), hfull,
    computeSparseRoot_eq hf (entriesBelow_entryMap hf hnodup) hnodup, root_complete]
  rfl

omit hnodup [DecidableEq H] in
lemma path_of_siblings (kh : KeyHash) (siblings : List H) :
    ((kh.bits.reverse.zip siblings).map (·.1)).reverse = kh.bits.drop (256 - siblings.length) := by
  have htake : ∀ (l : List Bool) (r : List H), (l.zip r).map (·.1) = l.take r.length := by
    intro l
    induction l with
    | nil => simp
    | cons b l ih =>
      intro r
      cases r with
      | nil => rfl
      | cons s r => rw [List.zip_cons_cons, List.map_cons, ih, List.length_cons, List.take_succ_cons]
  rw [htake, List.reverse_take, List.reverse_reverse, List.length_reverse, kh.length_bits]

omit hnodup [DecidableEq H] in
lemma exists_siblings {kh : KeyHash} {steps : List (Bool × H)} {n : Nat}
    (h : steps.map (·.1) = (kh.bits.drop (256 - n)).reverse) (hn : n ≤ 256) :
    ∃ siblings : List H, siblings.length = n ∧ kh.bits.reverse.zip siblings = steps := by
  have hlength : steps.length = n := by
    have hlen := congrArg List.length h
    rw [List.length_map, List.length_reverse, List.length_drop, kh.length_bits] at hlen
    omega
  refine ⟨steps.map (·.2), by rw [List.length_map, hlength], ?_⟩
  have hbits : kh.bits.reverse = steps.map (·.1) ++ (kh.bits.take (256 - n)).reverse := by
    rw [h, ← List.reverse_append, List.take_append_drop]
  have hzip : ∀ (steps : List (Bool × H)) (rest : List Bool),
      (steps.map (·.1) ++ rest).zip (steps.map (·.2)) = steps := by
    intro steps rest
    induction steps with
    | nil => exact List.zip_nil_right
    | cons step steps ih =>
      rw [List.map_cons, List.map_cons, List.cons_append, List.zip_cons_cons, ih]
  rw [hbits, hzip]

omit hnodup [DecidableEq H] in
lemma leaves_not_node (hdisjoint : ∀ kh v a b, hf.hashLeaf kh v ≠ hf.hashNode a b)
    {m : OrdMap KeyHash Bytes} (p : List Bool) (a b : H) : hf.hashNode a b ≠ leaves hf m p := by
  have hleaf : ∃ kh v, leaves hf m p = hf.hashLeaf kh v := by
    unfold leaves
    split
    · rename_i hp
      cases hfind : m.find? ⟨p, hp⟩ with
      | none => exact ⟨_, _, rfl⟩
      | some v => exact ⟨_, _, rfl⟩
    · exact ⟨_, _, rfl⟩
  obtain ⟨kh, v, heq⟩ := hleaf
  rw [heq]
  exact (hdisjoint kh v a b).symm

/-- With injective node hashes that are never leaf hashes, the proofs with a given flag and number of
siblings are sound if and only if there are 256 siblings and the flag is right. -/
theorem sparse_proof_sound_iff (hinj : Function.Injective2 hf.hashNode)
    (hdisjoint : ∀ kh v a b, hf.hashLeaf kh v ≠ hf.hashNode a b) (k : Bytes) (isMember : Bool)
    (n : Nat) :
    (∀ leaf siblings, siblings.length = n →
      ∃ accepted, hf.verifyProof (hf.computeSparseRoot entries) k (isMember, leaf, siblings) =
          some accepted ∧
        (accepted = true → (isMember = true ↔ (liveValue hf entries k).isSome = true) ∧
          leaf = hf.leafHash (hf.digest k) (liveValue hf entries k))) ↔
      n = 256 ∧ (isMember = true ↔ (liveValue hf entries k).isSome = true) := by
  set kh := hf.digest k with hkh
  set tree := PairTree.complete (leaves hf (entryMap hf entries)) 256 [] with htree
  have hleaves : ∀ a ∈ tree.values, ∀ u v, hf.hashNode u v ≠ a := by
    intro a ha u v
    obtain ⟨q, rfl⟩ := mem_values_complete _ ha
    exact leaves_not_node hdisjoint q u v
  have hpath : ∀ m, m ≤ 256 → tree.reach (kh.bits.drop (256 - m)) = some
      (PairTree.complete (leaves hf (entryMap hf entries)) (256 - m) (kh.bits.drop (256 - m))) := by
    intro m hm
    have hlen : (kh.bits.drop (256 - m)).length = m := by
      rw [List.length_drop, kh.length_bits]
      omega
    rw [htree, reach_complete _ (by omega), hlen, List.nil_append]
  -- the siblings of the tree itself are accepted for every number of them
  have haccept : ∀ m, m ≤ 256 → ∃ siblings : List H, siblings.length = m ∧
      hf.verifyProof (hf.computeSparseRoot entries) k (isMember, (PairTree.complete
        (leaves hf (entryMap hf entries)) (256 - m) (kh.bits.drop (256 - m))).root hf.hashNode,
        siblings) = some true := by
    intro m hm
    obtain ⟨steps, hdirs, hclimb⟩ := climb_of_reach (f := hf.hashNode) (hpath m hm)
    obtain ⟨siblings, hlen, rfl⟩ := exists_siblings hdirs hm
    exact ⟨siblings, hlen, by rw [verifyProof_eq hnodup k isMember _ (by omega), decide_eq_true hclimb]⟩
  have hleaf : (PairTree.complete (leaves hf (entryMap hf entries)) (256 - 256)
      (kh.bits.drop (256 - 256))).root hf.hashNode = hf.leafHash kh (liveValue hf entries k) := by
    rw [Nat.sub_self, List.drop_zero]
    exact leaves_bits hf _ kh
  constructor
  · intro hsound
    have hle : n ≤ 256 := by
      by_contra hgt
      obtain ⟨accepted, hrun, -⟩ := hsound hf.defaultLeaf (List.replicate n hf.defaultLeaf)
        List.length_replicate
      rw [verifyProof, foldSiblings_eq, if_neg] at hrun
      · cases hrun
      · rw [List.length_replicate]
        rintro (h | h)
        · omega
        · rw [List.replicate_eq_nil_iff] at h
          omega
    obtain ⟨siblings, hlen, htrue⟩ := haccept n hle
    obtain ⟨accepted, hrun, hright⟩ := hsound _ siblings hlen
    rw [htrue] at hrun
    obtain ⟨hflag, hvalue⟩ := hright (Option.some.inj hrun).symm
    refine ⟨?_, hflag⟩
    by_contra hne
    -- with fewer siblings the climb starts at an inner node
    obtain ⟨m, hm⟩ : ∃ m, 256 - n = m + 1 := ⟨255 - n, by omega⟩
    rw [hm] at hvalue
    cases hlive : liveValue hf entries k with
    | none =>
      rw [hlive] at hvalue
      exact hdisjoint _ _ _ _ hvalue.symm
    | some v =>
      rw [hlive] at hvalue
      exact hdisjoint _ _ _ _ hvalue.symm
  · rintro ⟨rfl, hflag⟩ leaf siblings hlen
    refine ⟨_, verifyProof_eq hnodup k isMember leaf hlen.le, fun haccepted => ⟨hflag, ?_⟩⟩
    obtain ⟨sub, hreach, hroot⟩ := reach_of_climb hinj hleaves (of_decide_eq_true haccepted)
    rw [path_of_siblings kh siblings, hlen, hpath 256 le_rfl] at hreach
    cases hreach
    rw [← hroot, hleaf]

end

/-- Hashes without any collision. -/
inductive FreeHash where
  | leaf (bits : List Bool) (value : Bytes)
  | node (l r : FreeHash)
deriving DecidableEq

def freeHashes : HashFunctions FreeHash where
  digest := orHashes.digest
  hashLeaf kh value := .leaf kh.bits value
  hashNode := .node

lemma freeHashes_node_injective : Function.Injective2 freeHashes.hashNode := by
  intro a b c d h
  cases h
  exact ⟨rfl, rfl⟩

lemma freeHashes_disjoint (kh : KeyHash) (v : Bytes) (a b : FreeHash) :
    freeHashes.hashLeaf kh v ≠ freeHashes.hashNode a b := by
  intro h
  cases h

omit [DecidableEq H] in
lemma foldSiblings_defaults (kh : KeyHash) {i n : Nat} (h : i + n ≤ 256) (current : H) :
    hf.foldSiblings kh i ((List.range' i n).map fun j => hf.defaultHash (256 - j)) current =
      some ((List.range' i n).foldl (fun current j =>
        join hf.hashNode (kh.bit (256 - j)) current (hf.defaultHash (256 - j))) current) := by
  induction n generalizing i current with
  | zero => rfl
  | succ n ih =>
    rw [List.range'_succ, List.map_cons, foldSiblings, if_pos (by omega), ih (by omega), List.foldl_cons]

/-- The proof of the only live key: its leaf and the roots of empty subtrees. -/
theorem sparse_proof_sound_live :
    let leaf := freeHashes.hashLeaf (freeHashes.digest []) [7]
    freeHashes.verifyProof (freeHashes.computeSparseRoot [([], [7])]) []
        (true, leaf, (List.range' 0 256).map fun j => freeHashes.defaultHash (256 - j)) = some true ∧
      leaf = freeHashes.leafHash (freeHashes.digest []) (liveValue freeHashes [([], [7])] []) := by
  intro leaf
  have hnodup : ([(([] : Bytes), ([7] : Bytes))].map fun e => freeHashes.digest e.1).Nodup :=
    List.nodup_singleton _
  obtain ⟨accepted, hrun, hsound⟩ := (sparse_proof_sound_iff hnodup freeHashes_node_injective
    freeHashes_disjoint [] true 256).mpr ⟨rfl, by decide +kernel⟩ leaf
    ((List.range' 0 256).map fun j => freeHashes.defaultHash (256 - j)) (by simp)
  have htrue : freeHashes.verifyProof (freeHashes.computeSparseRoot [([], [7])]) []
      (true, leaf, (List.range' 0 256).map fun j => freeHashes.defaultHash (256 - j)) = some true := by
    rw [verifyProof, foldSiblings_defaults _ le_rfl, ← List.range_eq_range', Option.map_some]
    exact congrArg some (decide_eq_true rfl)
  exact ⟨htrue, (hsound (Option.some.inj (hrun.symm.trans htrue))).2⟩

/-- The root itself, without siblings, is accepted as a membership proof for the absent key `[2]`. -/
theorem sparse_proof_without_siblings :
    Function.Injective2 freeHashes.hashLeaf ∧ Function.Injective2 freeHashes.hashNode ∧
      (∀ kh v a b, freeHashes.hashLeaf kh v ≠ freeHashes.hashNode a b) ∧
      (∀ e ∈ [(([] : Bytes), ([7] : Bytes))],
        freeHashes.hashLeaf (freeHashes.digest e.1) e.2 ≠ freeHashes.defaultLeaf) ∧
      freeHashes.verifyProof (freeHashes.computeSparseRoot [([], [7])]) [2]
        (true, freeHashes.computeSparseRoot [([], [7])], []) = some true ∧
      liveValue freeHashes [([], [7])] [2] = none := by
  refine ⟨?_, freeHashes_node_injective, freeHashes_disjoint, ?_, ?_, by decide +kernel⟩
  · intro a b c d h
    have hparts := FreeHash.leaf.inj h
    exact ⟨KeyHash.ext hparts.1, hparts.2⟩
  · intro e he hdefault
    rw [List.mem_singleton.mp he] at hdefault
    have hvalue : [7] = List.replicate 32 (0 : UInt8) := (FreeHash.leaf.inj hdefault).2
    exact absurd (congrArg List.length hvalue) (by rw [List.length_replicate]; decide)
  · generalize freeHashes.computeSparseRoot [([], [7])] = root
    simp [verifyProof, foldSiblings]

end Kanari.Proofs

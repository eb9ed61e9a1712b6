import Kanari.Proofs.SparseProofs

/-!
# What the root commits to

With collision-free hashes two trees have one root if and only if they answer every lookup alike.
-/

namespace Kanari.Proofs

open Lib BitTree HashFunctions

variable {H : Type} [DecidableEq H] {hf : HashFunctions H}

omit [DecidableEq H] in
lemma leafHash_injective (hleaf : Function.Injective2 hf.hashLeaf) {kh : KeyHash} (hkh : kh ≠ KeyHash.zero) :
    Function.Injective (hf.leafHash kh) := by
  have hfilled : ∀ v, hf.hashLeaf kh v ≠ hf.defaultLeaf := fun v h => hkh (hleaf h).1
  rintro (_ | v) (_ | v') h
  · rfl
  · exact absurd h.symm (hfilled v')
  · exact absurd h (hfilled v)
  · rw [(hleaf h).2]

/-- Equal roots, equal contents; the all-zero digest is that of the empty leaf. -/
theorem root_commits_to_contents {K : Set Bytes} (hK : SeparatedKeys hf K)
    (hnode : Function.Injective2 hf.hashNode) (hleaf : Function.Injective2 hf.hashLeaf)
    (hzero : ∀ k ∈ K, hf.digest k ≠ KeyHash.zero) {t t' : SparseMerkleTree H}
    (h : SmtHistory hf K t) (h' : SmtHistory hf K t') :
    hf.rootHash t = hf.rootHash t' ↔ ∀ k ∈ K, hf.get t k = hf.get t' k := by
  have hindexed := h.nodeIndexed hK
  have hindexed' := h'.nodeIndexed hK
  rw [hindexed.rootHash, hindexed'.rootHash]
  constructor
  · intro hroots k hk
    have hbits : (hf.digest k).bits.length = 256 := (hf.digest k).length_bits
    have hleaves := subtree_injective hnode hroots (hf.digest k).bits (by simpa using hbits)
    rw [List.nil_append, leaves_bits, leaves_bits] at hleaves
    exact leafHash_injective hleaf (hzero k hk) hleaves
  · intro hget
    have hdata : leaves hf t.db.data = leaves hf t'.db.data := by
      funext p
      unfold leaves
      split_ifs with hp
      · congr 1
        by_cases hkey : (⟨p, hp⟩ : KeyHash) ∈ hf.digest '' K
        · obtain ⟨k, hk, heq⟩ := hkey
          rw [← heq]
          exact hget k hk
        · have hnone : ∀ {u : SparseMerkleTree H}, NodeIndexed hf (hf.digest '' K) u →
              u.db.data.find? ⟨p, hp⟩ = none := by
            intro u hu
            exact Option.eq_none_iff_forall_not_mem.mpr fun v hv => hkey (hu.keysIn _ v hv)
          rw [hnone hindexed, hnone hindexed']
      · rfl
    rw [hdata]

/-- After two insertions, a deletion and a reopening, the root is that of a tree with the remaining
key alone, and not that of the empty tree. -/
theorem root_commits_to_contents_reopened :
    let t := reopened freeHashes [1] [2] [5] [7]
    freeHashes.rootHash t = freeHashes.rootHash (freeHashes.insert (HashFunctions.new {}) [([2], [7])]) ∧
      freeHashes.rootHash t ≠ freeHashes.rootHash (HashFunctions.new {}) := by
  intro t
  have hK : SeparatedKeys freeHashes {[1], [2]} := by
    rintro a (rfl | rfl) b (rfl | rfl) h
    · rfl
    · exact absurd h (by decide +kernel)
    · exact absurd h (by decide +kernel)
    · rfl
  have hleaf : Function.Injective2 freeHashes.hashLeaf := by
    intro a b c d h
    exact ⟨KeyHash.ext (FreeHash.leaf.inj h).1, (FreeHash.leaf.inj h).2⟩
  have hzero : ∀ k ∈ ({[1], [2]} : Set Bytes), freeHashes.digest k ≠ KeyHash.zero := by
    rintro k (rfl | rfl)
    · decide +kernel
    · decide +kernel
  have hrun : SmtRun freeHashes {[1], [2]} t [([2], [7])] :=
    reopened_run (by simp) (by simp) (by decide) _ _
  have hcommits := fun (t' : SparseMerkleTree FreeHash) (h' : SmtHistory freeHashes {[1], [2]} t') =>
    root_commits_to_contents hK freeHashes_node_injective hleaf hzero hrun.history h'
  constructor
  · refine (hcommits _ (single_run (by simp)).history).mpr ?_
    rintro k (rfl | rfl)
    · decide +kernel
    · decide +kernel
  · intro hroots
    exact absurd ((hcommits _ SmtHistory.fresh).mp hroots [2] (by simp)) (by decide +kernel)

end Kanari.Proofs

import Kanari.MerkleTree
import Mathlib.Data.Nat.Pairing

/-!
# Proofs in the transaction Merkle tree

What is accepted besides the honest proofs is decided by the entries at which a proof is empty: they
and the bits of the index give the path that the verifier follows.
-/

namespace Kanari.Proofs

open Lib BitTree MerkleHash

variable {H : Type} (M : MerkleHash H)

variable {i : Nat} {leaves : List H}

lemma generateMerkleProofLoop_leads {fuel : Nat} {level : List H} {x : H} (hx : level[i]? = some x)
    (hfuel : level.length ≤ fuel + 1) :
    ((M.generateMerkleProofLoop fuel level i).foldl M.proofStep (x, i)).1 =
      (joinLevels M.hashNode fuel level).headD M.zero := by
  induction fuel generalizing level i x with
  | zero =>
    obtain ⟨hi, rfl⟩ := List.getElem?_eq_some_iff.mp hx
    obtain ⟨y, rfl⟩ := List.length_eq_one_iff.mp (show level.length = 1 by omega)
    simp [generateMerkleProofLoop, joinLevels]
  | succ fuel ih =>
    obtain ⟨hi, -⟩ := List.getElem?_eq_some_iff.mp hx
    unfold generateMerkleProofLoop joinLevels
    split_ifs with hlen
    · obtain ⟨y, rfl⟩ := List.length_eq_one_iff.mp (show level.length = 1 by omega)
      obtain rfl : y = x := by simpa [show i = 0 by simpa using hi] using hx
      rfl
    · have hhalf := length_joinPairs M.hashNode level
      have habove := ih (joinPairs_getElem M.hashNode hx) (by omega)
      rw [List.foldl_cons, ← habove]
      cases hsibling : level[neighbour i]? with
      | none => simp [proofStep]
      | some s =>
        simp [proofStep, M.toVec_ne_nil, M.bytesToHash_toVec]

/-- The proof generated for a position is accepted against the root of the same list. -/
theorem merkle_proof_complete (txHashes : List Bytes) (i : Fin txHashes.length) :
    M.verifyMerkleProof txHashes[i] i (M.generateMerkleProof txHashes i)
      (M.computeMerkleRoot txHashes) = true := by
  have hi : ¬txHashes.length ≤ i := not_le.mpr i.isLt
  unfold generateMerkleProof verifyMerkleProof
  rw [if_neg hi, Bool.or_eq_true]
  match txHashes, i with
  | [txHash], ⟨0, _⟩ =>
    -- the root is the hash itself, which need not be 32 bytes
    left
    simp [generateMerkleProofLoop, txHashesToArrays, computeMerkleRoot]
  | first :: second :: rest, i =>
    right
    have hlevel : (M.txHashesToArrays (first :: second :: rest))[i.val]? =
        some (M.bytesToHash (first :: second :: rest)[i]) := by
      rw [txHashesToArrays, List.getElem?_map, List.getElem?_eq_getElem i.isLt]
      rfl
    have hfuel : (M.txHashesToArrays (first :: second :: rest)).length ≤
        (first :: second :: rest).length + 1 := by simp [txHashesToArrays]
    rw [generateMerkleProofLoop_leads M hlevel hfuel, computeMerkleRoot, computeMerkleRootArrays,
      txHashesToArrays, List.length_map]
    · exact beq_self_eq_true _
    · rintro txHash heq
      cases heq

def proofShape (proof : List Bytes) : List Bool := proof.map fun sibling => !sibling.isEmpty

/-- The sides on which the verifier takes the hash to be, from the leaf upwards: the bits of the
index at the levels with a sibling. -/
def directions : Nat → List Bool → List Bool
  | _, [] => []
  | i, present :: shape =>
    if present then decide (i % 2 = 1) :: directions (i / 2) shape else directions (i / 2) shape

def proofSteps : Nat → List Bytes → List (Bool × H)
  | _, [] => []
  | i, sibling :: proof =>
    if sibling.isEmpty then proofSteps (i / 2) proof
    else (decide (i % 2 = 1), M.bytesToHash sibling) :: proofSteps (i / 2) proof

lemma foldl_proofStep (x : H) (i : Nat) (proof : List Bytes) :
    (proof.foldl M.proofStep (x, i)).1 = climb M.hashNode x (proofSteps M i proof) := by
  induction proof generalizing x i with
  | nil => rfl
  | cons sibling proof ih =>
    rw [List.foldl_cons, proofStep, ih, proofSteps]
    split_ifs
    · rfl
    · rfl

lemma map_fst_proofSteps (i : Nat) (proof : List Bytes) :
    (proofSteps M i proof).map (·.1) = directions i (proofShape proof) := by
  induction proof generalizing i with
  | nil => rfl
  | cons sibling proof ih =>
    cases hempty : sibling.isEmpty <;> simp [proofSteps, proofShape, directions, hempty, ih]

lemma exists_proof {shape : List Bool} {steps : List (Bool × H)}
    (h : steps.map (·.1) = directions i shape) :
    ∃ proof, proofShape proof = shape ∧ proofSteps M i proof = steps := by
  induction shape generalizing i steps with
  | nil => exact ⟨[], rfl, (List.map_eq_nil_iff.mp h).symm⟩
  | cons present shape ih =>
    cases present with
    | false =>
      obtain ⟨proof, hshape, hsteps⟩ := ih (i := i / 2) h
      exact ⟨[] :: proof, by simp [proofShape, ← hshape], by simp [proofSteps, hsteps]⟩
    | true =>
      rw [directions, if_pos rfl] at h
      obtain ⟨step, rest, rfl, hstep, hrest⟩ := List.map_eq_cons_iff.mp h
      obtain ⟨proof, hshape, hsteps⟩ := ih hrest
      refine ⟨M.toVec step.2 :: proof, ?_, ?_⟩
      · simp [proofShape, ← hshape, M.toVec_ne_nil]
      · simp [proofSteps, M.toVec_ne_nil, M.bytesToHash_toVec, hsteps, ← hstep]

/-- The tree whose levels the root computation goes through. -/
def merkleTree (leaves : List H) : PairTree H :=
  (joinLevels .node leaves.length (leaves.map .leaf)).headD (.leaf M.zero)

lemma exists_merkleTree (hne : leaves ≠ []) :
    ∃ t, joinLevels .node leaves.length (leaves.map .leaf) = [t] ∧ merkleTree M leaves = t := by
  have hmap : leaves.map PairTree.leaf ≠ [] := by simpa using hne
  obtain ⟨t, ht⟩ := joinLevels_singleton .node hmap (show _ ≤ leaves.length + 1 by simp)
  exact ⟨t, ht, by rw [merkleTree, ht]; rfl⟩

lemma root_merkleTree (hne : leaves ≠ []) :
    (merkleTree M leaves).root M.hashNode = M.computeMerkleRootArrays leaves := by
  have hmap := map_joinLevels (f := .node) (g := M.hashNode) (h := PairTree.root M.hashNode)
    (fun _ _ => rfl) leaves.length (leaves.map .leaf)
  rw [List.map_map, show PairTree.root M.hashNode ∘ .leaf = id from rfl, List.map_id] at hmap
  obtain ⟨t, ht⟩ := exists_merkleTree M hne
  unfold computeMerkleRootArrays
  rw [← hmap, ht.1, ht.2]
  rfl

lemma mem_of_mem_merkleTree (hne : leaves ≠ []) {h : H} (hmem : h ∈ (merkleTree M leaves).values) :
    h ∈ leaves := by
  have hvalues := values_joinLevels leaves.length (leaves.map PairTree.leaf)
  obtain ⟨t, ht, htree⟩ := exists_merkleTree M hne
  rw [htree] at hmem
  rw [ht] at hvalues
  have hleaves : (leaves.map PairTree.leaf).flatMap PairTree.values = leaves := by
    rw [List.flatMap_map]
    exact List.flatMap_singleton' leaves
  rw [hleaves] at hvalues
  rw [← hvalues]
  simpa using hmem

lemma computeMerkleRoot_toVec (leaves : List H) :
    M.computeMerkleRoot (leaves.map M.toVec) = M.toVec (M.computeMerkleRootArrays leaves) := by
  have hback : M.txHashesToArrays (leaves.map M.toVec) = leaves := by
    rw [txHashesToArrays, List.map_map]
    exact (List.map_congr_left fun h _ => M.bytesToHash_toVec h).trans (List.map_id _)
  match leaves with
  | [] => rfl
  | [h] => rfl
  | first :: second :: rest => exact congrArg (fun level => M.toVec (M.computeMerkleRootArrays level)) hback

lemma toVec_injective : Function.Injective M.toVec := fun a b h => by
  rw [← M.bytesToHash_toVec a, h, M.bytesToHash_toVec]

/-- The verifier accepts exactly the climbs to the root of the tree. -/
lemma verifyMerkleProof_iff (hne : leaves ≠ []) (x : Bytes) (i : Nat) (proof : List Bytes) :
    M.verifyMerkleProof x i proof (M.computeMerkleRoot (leaves.map M.toVec)) = true ↔
      climb M.hashNode (M.bytesToHash x) (proofSteps M i proof) =
        (merkleTree M leaves).root M.hashNode := by
  rw [root_merkleTree M hne, computeMerkleRoot_toVec, verifyMerkleProof, foldl_proofStep,
    Bool.or_eq_true, Bool.and_eq_true, List.isEmpty_iff, beq_iff_eq, beq_iff_eq,
    (toVec_injective M).eq_iff]
  constructor
  · rintro (⟨rfl, rfl⟩ | h)
    · exact M.bytesToHash_toVec _
    · exact h
  · exact .inr

lemma accepted_reach (hinj : Function.Injective2 M.hashNode) (hne : leaves ≠ [])
    (hrange : ∀ h ∈ leaves, ∀ a b, M.hashNode a b ≠ h) {x : Bytes} {proof : List Bytes}
    (haccept : M.verifyMerkleProof x i proof (M.computeMerkleRoot (leaves.map M.toVec)) = true) :
    ∃ sub, (merkleTree M leaves).reach (directions i (proofShape proof)).reverse = some sub ∧
      sub.root M.hashNode = M.bytesToHash x := by
  have hclimb := (verifyMerkleProof_iff M hne x i proof).mp haccept
  have hreach := reach_of_climb hinj
    (fun h hh => hrange h (mem_of_mem_merkleTree M hne hh)) hclimb
  rwa [map_fst_proofSteps] at hreach

lemma eq_toVec_of_ne_zero {h : H} (hzero : h ≠ M.zero) {x : Bytes} (hx : h = M.bytesToHash x) :
    x = M.toVec h := by
  obtain ⟨h', rfl⟩ : ∃ h', M.toVec h' = x := by
    by_contra hnone
    exact hzero (hx.trans (M.bytesToHash_other x (not_exists.mp hnone)))
  rw [hx, M.bytesToHash_toVec]

lemma binds_of_reach (hinj : Function.Injective2 M.hashNode) (hne : leaves ≠ [])
    (hrange : ∀ h ∈ leaves, ∀ a b, M.hashNode a b ≠ h) {x : Bytes} {proof : List Bytes}
    (hpath : ∀ sub, (merkleTree M leaves).reach (directions i (proofShape proof)).reverse = some sub →
      ∃ h, sub = .leaf h ∧ leaves[i]? = some h ∧ h ≠ M.zero)
    (haccept : M.verifyMerkleProof x i proof (M.computeMerkleRoot (leaves.map M.toVec)) = true) :
    i < leaves.length ∧ (leaves.map M.toVec)[i]? = some x := by
  obtain ⟨sub, hreach, hroot⟩ := accepted_reach M hinj hne hrange haccept
  obtain ⟨h, rfl, hh, hzero⟩ := hpath sub hreach
  obtain rfl := eq_toVec_of_ne_zero M hzero hroot
  refine ⟨(List.getElem?_eq_some_iff.mp hh).1, ?_⟩
  rw [List.getElem?_map, hh]
  rfl

/-- Proofs of one shape bind the position if and only if the path that the index takes through the
tree with them either leaves the tree or ends at a leaf with the hash of that position, which must
not be the one that stands for malformed bytes. -/
theorem merkle_proof_binds_iff (hinj : Function.Injective2 M.hashNode) {leaves : List H}
    (hne : leaves ≠ []) (hrange : ∀ h ∈ leaves, ∀ a b, M.hashNode a b ≠ h) (i : Nat)
    (shape : List Bool) :
    (∀ x proof, proofShape proof = shape →
      M.verifyMerkleProof x i proof (M.computeMerkleRoot (leaves.map M.toVec)) = true →
        i < leaves.length ∧ (leaves.map M.toVec)[i]? = some x) ↔
      ∀ sub, (merkleTree M leaves).reach (directions i shape).reverse = some sub →
        ∃ h, sub = .leaf h ∧ leaves[i]? = some h ∧ h ≠ M.zero := by
  constructor
  · intro hbinds sub hreach
    obtain ⟨steps, hdirs, hclimb⟩ := climb_of_reach (f := M.hashNode) hreach
    rw [List.reverse_reverse] at hdirs
    obtain ⟨proof, hshape, rfl⟩ := exists_proof M hdirs
    have haccept : ∀ x, M.bytesToHash x = sub.root M.hashNode →
        (leaves.map M.toVec)[i]? = some x := by
      intro x hx
      refine (hbinds x proof hshape ((verifyMerkleProof_iff M hne x i proof).mpr ?_)).2
      rw [hx, hclimb]
    have hhash : leaves[i]? = some (sub.root M.hashNode) := by
      have htoVec := haccept _ (M.bytesToHash_toVec (sub.root M.hashNode))
      rw [List.getElem?_map, Option.map_eq_some_iff] at htoVec
      obtain ⟨h, hh, heq⟩ := htoVec
      rw [hh, toVec_injective M heq]
    cases sub with
    | node l r => exact absurd rfl (hrange _ (List.mem_of_getElem? hhash) _ _)
    | leaf h =>
      refine ⟨h, rfl, hhash, ?_⟩
      rintro rfl
      -- the empty string would be accepted as the zero hash
      have hnil := haccept [] (M.bytesToHash_other [] fun h => M.toVec_ne_nil h)
      rw [List.getElem?_map, hhash] at hnil
      exact M.toVec_ne_nil _ (Option.some.inj hnil)
  · rintro hpath x proof rfl haccept
    exact binds_of_reach M hinj hne hrange hpath haccept

lemma reach_generated {fuel : Nat} {level : List H} {trees : List (PairTree H)} {t root : PairTree H}
    (hlength : level.length = trees.length) (ht : trees[i]? = some t) (hfuel : trees.length ≤ fuel + 1)
    (hroot : joinLevels .node fuel trees = [root]) :
    root.reach (directions i (proofShape (M.generateMerkleProofLoop fuel level i))).reverse = some t := by
  have hlast : ∀ {i : Nat} {t}, [root][i]? = some t → root.reach [] = some t := by
    intro i t ht
    obtain ⟨hi, rfl⟩ := List.getElem?_eq_some_iff.mp ht
    simpa using root.reach_nil
  induction fuel generalizing level trees i t with
  | zero =>
    subst hroot
    exact hlast ht
  | succ fuel ih =>
    unfold generateMerkleProofLoop
    unfold joinLevels at hroot
    rw [hlength]
    split_ifs at hroot ⊢ with hlen
    · subst hroot
      exact hlast ht
    · have hhalf := length_joinPairs PairTree.node trees
      have hhashes := length_joinPairs M.hashNode level
      have habove := ih (hhashes.trans ((congrArg (fun n => (n + 1) / 2) hlength).trans hhalf.symm))
        (joinPairs_getElem PairTree.node ht) (by omega) hroot
      cases hsibling : trees[neighbour i]? with
      | none =>
        have hnone : level[neighbour i]? = none := by
          rw [List.getElem?_eq_none_iff] at hsibling ⊢
          omega
        rw [hsibling] at habove
        simpa [hnone, proofShape, directions] using habove
      | some s =>
        have hsome := (List.getElem?_eq_some_iff.mp hsibling).1
        rw [hsibling] at habove
        rw [List.getElem?_eq_getElem (show neighbour i < level.length by omega)]
        have hpresent : (!(M.toVec level[neighbour i]).isEmpty) = true := by simp [M.toVec_ne_nil]
        rw [proofShape, List.map_cons, directions, if_pos hpresent, List.reverse_cons,
          PairTree.reach_append, ← proofShape, habove]
        cases decide (i % 2 = 1) <;> exact t.reach_nil

/-- Every accepted proof that has its siblings at the levels of the generated one is a proof of the
hash at that position. -/
theorem merkle_proof_binds_honest (hinj : Function.Injective2 M.hashNode)
    (hrange : ∀ h ∈ leaves, ∀ a b, M.hashNode a b ≠ h) {h : H} (hh : leaves[i]? = some h)
    (hzero : h ≠ M.zero) {x : Bytes} {proof : List Bytes}
    (hshape : proofShape proof = proofShape (M.generateMerkleProof (leaves.map M.toVec) i))
    (haccept : M.verifyMerkleProof x i proof (M.computeMerkleRoot (leaves.map M.toVec)) = true) :
    x = M.toVec h := by
  have hne : leaves ≠ [] := List.ne_nil_of_mem (List.mem_of_getElem? hh)
  obtain ⟨root, hroot, htree⟩ := exists_merkleTree M hne
  have hlength : (M.txHashesToArrays (leaves.map M.toVec)).length = (leaves.map PairTree.leaf).length := by
    simp [txHashesToArrays]
  have hreach := reach_generated M hlength
    (show (leaves.map PairTree.leaf)[i]? = some (.leaf h) by simp [hh]) (by simp) hroot
  have hi : ¬(leaves.map M.toVec).length ≤ i := by
    simpa using (List.getElem?_eq_some_iff.mp hh).1
  have hbinds := binds_of_reach M hinj hne hrange (fun sub hsub => ?_) haccept
  · simpa [hh] using hbinds.2.symm
  · rw [htree, hshape, generateMerkleProof, if_neg hi, List.length_map, hreach] at hsub
    exact ⟨h, (Option.some.inj hsub).symm, hh, hzero⟩

/-- An injective node hash whose values are odd. -/
def pairHash : MerkleHash Nat where
  hashNode a b := 2 * Nat.pair a b + 1
  zero := 0
  toVec n := List.replicate (n + 1) 0
  bytesToHash bytes :=
    if bytes = List.replicate (bytes.length - 1 + 1) 0 then bytes.length - 1 else 0
  toVec_ne_nil h := by simp
  bytesToHash_toVec h := by simp
  bytesToHash_other bytes h := if_neg fun heq => h (bytes.length - 1) heq.symm

lemma pairHash_injective : Function.Injective2 pairHash.hashNode := by
  intro a b c d h
  have hpair : Nat.pair a c = Nat.pair b d := by
    simp only [pairHash] at h
    omega
  exact Nat.pair_eq_pair.mp hpair

lemma pairHash_even {n : Nat} (h : n % 2 = 0) (a b : Nat) : pairHash.hashNode a b ≠ n := by
  simp only [pairHash]
  omega

/-- The first of two transactions, proved with its sibling. -/
theorem merkle_proof_binds_first :
    pairHash.verifyMerkleProof (pairHash.toVec 2) 0 [pairHash.toVec 4]
        (pairHash.computeMerkleRoot ([2, 4].map pairHash.toVec)) = true ∧
      0 < [2, 4].length ∧ ([2, 4].map pairHash.toVec)[0]? = some (pairHash.toVec 2) := by
  have hne : [2, 4] ≠ [] := List.cons_ne_nil _ _
  have haccepted : pairHash.verifyMerkleProof (pairHash.toVec 2) 0 [pairHash.toVec 4]
      (pairHash.computeMerkleRoot ([2, 4].map pairHash.toVec)) = true := by decide +kernel
  refine ⟨haccepted, (merkle_proof_binds_iff pairHash pairHash_injective hne ?_ 0 [true]).mpr ?_ _
    [pairHash.toVec 4] rfl haccepted⟩
  · intro h hh
    refine pairHash_even ?_
    rcases List.mem_pair.mp hh with rfl | rfl <;> rfl
  · rintro sub hsub
    have hleaf : (merkleTree pairHash [2, 4]).reach (directions 0 [true]).reverse =
        some (.leaf 2) := rfl
    rw [hleaf] at hsub
    cases hsub
    exact ⟨2, rfl, rfl, by decide⟩

/-- With two transactions, the proof of the first one is accepted for position 2, which does not
exist. -/
theorem merkle_proof_position_open :
    Function.Injective2 pairHash.hashNode ∧
      (∀ h ∈ [2, 4], ∀ a b, pairHash.hashNode a b ≠ h) ∧
      pairHash.verifyMerkleProof (pairHash.toVec 2) 2 [pairHash.toVec 4]
        (pairHash.computeMerkleRoot ([2, 4].map pairHash.toVec)) = true ∧ ¬2 < [2, 4].length := by
  refine ⟨pairHash_injective, ?_, by decide +kernel, by decide⟩
  intro h hh
  refine pairHash_even ?_
  rcases List.mem_pair.mp hh with rfl | rfl <;> rfl

end Kanari.Proofs

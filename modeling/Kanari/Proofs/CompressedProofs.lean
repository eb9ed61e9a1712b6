import Kanari.Lib.BitPack
import Kanari.MerkleTree

/-!
# Compressed Merkle proofs

The bytes of a compressed proof can be read back only if every level has a sibling.
-/

namespace Kanari.Proofs

open Lib BitTree CompressedMerkleProof

variable {H : Type} (M : MerkleHash H)

lemma length_flagsLoop (proof : List Bytes) (i : Nat) : (flagsLoop proof i).length = proof.length := by
  induction proof generalizing i with
  | nil => rfl
  | cons sibling proof ih => simp [flagsLoop, ih]

lemma foldl_verifyStep (proof : List Bytes) (h : H) (i : Nat) :
    (proof.zip (flagsLoop proof i)).foldl (verifyStep M) h = (proof.foldl M.proofStep (h, i)).1 := by
  induction proof generalizing h i with
  | nil => rfl
  | cons sibling proof ih =>
    have hstep : verifyStep M h (sibling, decide (i % 2 = 0)) = (M.proofStep (h, i) sibling).1 := by
      rcases Nat.mod_two_eq_zero_or_one i with hi | hi <;>
        simp [verifyStep, MerkleHash.proofStep, hi, join]
    rw [flagsLoop, List.zip_cons_cons, List.foldl_cons, hstep, ih]
    rfl

lemma verify_fromProof (proof : List Bytes) (i : Nat) (txHash merkleRoot : Bytes) :
    (fromProof i proof).verify M txHash merkleRoot =
      M.verifyMerkleProof txHash i proof merkleRoot := by
  rw [CompressedMerkleProof.verify, MerkleHash.verifyMerkleProof, fromProof]
  simp only [length_flagsLoop, ne_eq, not_true_eq_false, if_false, foldl_verifyStep]
  cases (proof.isEmpty && txHash == merkleRoot) <;> simp

lemma packLoop_eq {flags filled : List Bool} (h : filled.length < 8) (bytes : Bytes) :
    packLoop flags (bitsValue filled) filled.length bytes = bytes ++ packBits (filled ++ flags) := by
  induction flags generalizing filled bytes with
  | nil =>
    rw [packLoop, List.append_nil]
    cases filled with
    | nil => simp
    | cons b filled =>
      rw [if_pos (by simp), packBits_short (by simp) h]
      rfl
  | cons flag flags ih =>
    have hbyte : (if flag then bitsValue filled ||| (1 <<< filled.length) else bitsValue filled) =
        bitsValue (filled ++ [flag]) := by
      cases flag with
      | false => simp [bitsValue_concat]
      | true => exact bitsValue_or filled
    have hsplit : filled ++ flag :: flags = (filled ++ [flag]) ++ flags := by simp
    rw [packLoop, hsplit]
    simp only [hbyte]
    by_cases hfull : filled.length + 1 = 8
    · rw [if_pos hfull, packBits_append (by simpa using hfull)]
      have hrest := ih (show ([] : List Bool).length < 8 by decide)
        (bytes ++ [UInt8.ofNat (bitsValue (filled ++ [flag]))])
      rw [List.nil_append, List.append_assoc] at hrest
      exact hrest
    · have hlen : (filled ++ [flag]).length = filled.length + 1 := by simp
      rw [if_neg hfull, ← hlen]
      exact ih (by omega) bytes

lemma toBytes_eq (c : CompressedMerkleProof) :
    c.toBytes = Text.leBytes 4 c.siblings.length ++ packBits c.flags ++ c.siblings.flatten := by
  have hpack : packLoop c.flags 0 0 (Text.leBytes 4 c.siblings.length) = _ :=
    packLoop_eq (show ([] : List Bool).length < 8 by decide) _
  rw [List.nil_append] at hpack
  exact congrArg (· ++ c.siblings.flatten) hpack

variable {siblings : List Bytes} {fuel i : Nat} {level : List H}

lemma length_flatten_le (h : ∀ s ∈ siblings, s = [] ∨ s.length = 32) :
    siblings.flatten.length ≤ siblings.length * 32 := by
  induction siblings with
  | nil => simp
  | cons s siblings ih =>
    obtain ⟨hs, hrest⟩ := List.forall_mem_cons.1 h
    have hle := ih hrest
    rw [List.length_cons, List.flatten_cons, List.length_append]
    rcases hs with rfl | hlen
    · rw [List.length_nil]
      omega
    · omega

lemma flatten_full_iff (h : ∀ s ∈ siblings, s = [] ∨ s.length = 32) :
    siblings.length * 32 ≤ siblings.flatten.length ↔ ∀ s ∈ siblings, s ≠ [] := by
  induction siblings with
  | nil => simp
  | cons s siblings ih =>
    obtain ⟨hs, hrest⟩ := List.forall_mem_cons.1 h
    have hle := length_flatten_le hrest
    have hih := ih hrest
    rw [List.forall_mem_cons, ← hih, List.length_cons, List.flatten_cons, List.length_append]
    rcases hs with rfl | hlen
    · simp only [List.length_nil, ne_eq, not_true_eq_false, false_and, iff_false]
      omega
    · have hne : s ≠ [] := List.ne_nil_of_length_pos (by omega)
      rw [and_iff_right hne]
      omega

lemma pieces_flatten (h : ∀ s ∈ siblings, s.length = 32) :
    pieces 32 siblings.length siblings.flatten = siblings := by
  have hcut := (pieces_unique h (show ([] : Bytes).length < 32 by decide)).1
  have hsiblings : ∀ s ∈ siblings, s = [] ∨ s.length = 32 := fun s hs => .inr (h s hs)
  have hfull := (flatten_full_iff hsiblings).2 fun s hs =>
    List.ne_nil_of_length_pos (by rw [h s hs]; decide)
  have hlen : siblings.flatten.length / 32 = siblings.length := by
    have hle := length_flatten_le hsiblings
    omega
  rwa [List.append_nil, fullPieces, hlen] at hcut

section

variable {c : CompressedMerkleProof} (hflags : c.flags.length = c.siblings.length)
  (hcount : c.siblings.length < 2 ^ 32)

include hflags

lemma length_toBytes : c.toBytes.length =
    4 + (c.siblings.length + 7) / 8 + c.siblings.flatten.length := by
  rw [toBytes_eq, List.length_append, List.length_append, Text.length_leBytes, length_packBits,
    hflags]

include hcount

lemma fromBytes_toBytes : fromBytes c.toBytes =
    if c.siblings.flatten.length < c.siblings.length * 32 then none
    else some ⟨pieces 32 c.siblings.length c.siblings.flatten, c.flags⟩ := by
  have hbytes : c.toBytes.length = _ := length_toBytes hflags
  have htake : Text.leNat (c.toBytes.take 4) = c.siblings.length := by
    rw [toBytes_eq, List.append_assoc, List.take_left' (Text.length_leBytes 4 _),
      Text.leNat_leBytes 4 _ (by omega)]
  have hdrop : c.toBytes.drop (4 + (c.siblings.length + 7) / 8) = c.siblings.flatten := by
    rw [toBytes_eq]
    refine List.drop_left' ?_
    rw [List.length_append, Text.length_leBytes, length_packBits, hflags]
  have hbit : (List.range c.siblings.length).map (fun i =>
      decide ((c.toBytes.getD (4 + i / 8) 0).toNat &&& (1 <<< (i % 8)) ≠ 0)) = c.flags := by
    refine List.ext_getElem (by simp [hflags]) fun i hi hi' => ?_
    have hget : c.toBytes.getD (4 + i / 8) 0 = (packBits c.flags).getD (i / 8) 0 := by
      have hlt : i / 8 < (packBits c.flags).length := by
        rw [length_packBits]
        omega
      rw [toBytes_eq, List.append_assoc, List.getD_append_right _ _ _ _ (by simp),
        Text.length_leBytes, Nat.add_sub_cancel_left, List.getD_append _ _ _ _ hlt]
    rw [List.getElem_map, List.getElem_range, hget, Nat.one_shiftLeft, Nat.and_two_pow,
      testBit_packBits c.flags hi', List.getD_eq_getElem _ _ hi']
    cases c.flags[i] <;> simp
  rw [fromBytes, if_neg (by omega)]
  simp only [htake, hdrop, hbit]
  refine if_congr ?_ rfl rfl
  rw [hbytes]
  omega

lemma fromBytes_toBytes_iff (hsiblings : ∀ s ∈ c.siblings, s = [] ∨ s.length = 32) :
    fromBytes c.toBytes = some c ↔ ∀ s ∈ c.siblings, s ≠ [] := by
  rw [fromBytes_toBytes hflags hcount]
  constructor
  · intro h
    refine (flatten_full_iff hsiblings).1 (Nat.le_of_not_lt fun hlt => ?_)
    rw [if_pos hlt] at h
    cases h
  · intro h
    have hfull : ∀ s ∈ c.siblings, s.length = 32 := fun s hs =>
      (hsiblings s hs).resolve_left (h s hs)
    rw [if_neg (Nat.not_lt_of_le ((flatten_full_iff hsiblings).2 h)), pieces_flatten hfull]

end

/-- On the way up from the position, its node has a neighbour on every level but the last one. -/
def HasSiblings (count index : Nat) : Prop :=
  ∀ k, 2 ^ k < count → neighbour (index / 2 ^ k) ≤ (count - 1) / 2 ^ k

lemma hasSiblings_iff {n : Nat} (h : 1 < n) :
    HasSiblings n i ↔
      neighbour i < n ∧ HasSiblings ((n + 1) / 2) (i / 2) := by
  have hshift : ∀ k, 2 ^ (k + 1) < n ↔ 2 ^ k < (n + 1) / 2 := by
    intro k
    rw [Nat.pow_succ]
    omega
  have hlevel : ∀ k, (n - 1) / 2 ^ (k + 1) = ((n + 1) / 2 - 1) / 2 ^ k := by
    intro k
    rw [Nat.pow_succ', ← Nat.div_div_eq_div_mul]
    congr 1
    omega
  have hindex : ∀ k, i / 2 ^ (k + 1) = i / 2 / 2 ^ k := by
    intro k
    rw [Nat.pow_succ', Nat.div_div_eq_div_mul]
  constructor
  · intro hs
    refine ⟨?_, fun k hk => ?_⟩
    · have := hs 0 (by simpa using h)
      simp only [pow_zero, Nat.div_one] at this
      omega
    · rw [← hlevel, ← hindex]
      exact hs (k + 1) ((hshift k).2 hk)
  · rintro ⟨hn, hs⟩ k hk
    cases k with
    | zero =>
      simp only [pow_zero, Nat.div_one]
      omega
    | succ k =>
      rw [hlevel, hindex]
      exact hs k ((hshift k).1 hk)

lemma siblings_generateMerkleProofLoop (hfuel : level.length ≤ fuel) :
    (∀ s ∈ M.generateMerkleProofLoop fuel level i, s ≠ []) ↔ HasSiblings level.length i := by
  induction fuel generalizing level i with
  | zero =>
    have hzero : level.length = 0 := by omega
    simp [MerkleHash.generateMerkleProofLoop, HasSiblings, hzero]
  | succ fuel ih =>
    rw [MerkleHash.generateMerkleProofLoop]
    split_ifs with hlen
    · have hnone : ∀ k, ¬2 ^ k < level.length := fun k => by
        have := Nat.one_le_two_pow (n := k)
        omega
      simp [HasSiblings, hnone]
    · have hjoin := length_joinPairs M.hashNode level
      have hlen' : 1 < level.length := by omega
      rw [List.forall_mem_cons, ih (by omega), hjoin, hasSiblings_iff (n := level.length) hlen']
      refine and_congr_left' ?_
      cases hget : level[neighbour i]? with
      | none => simpa using List.getElem?_eq_none_iff.1 hget
      | some sibling =>
        simpa [M.toVec_ne_nil] using (List.getElem?_eq_some_iff.1 hget).1

lemma length_generateMerkleProofLoop {m : Nat} (hlevel : level.length ≤ 2 ^ m) :
    (M.generateMerkleProofLoop fuel level i).length ≤ m := by
  induction fuel generalizing level i m with
  | zero => simp [MerkleHash.generateMerkleProofLoop]
  | succ fuel ih =>
    rw [MerkleHash.generateMerkleProofLoop]
    split_ifs with hlen
    · simp
    · cases m with
      | zero => omega
      | succ m =>
        have hjoin := length_joinPairs M.hashNode level
        rw [Nat.pow_succ] at hlevel
        rw [List.length_cons]
        exact Nat.succ_le_succ (ih (by omega))

lemma mem_generateMerkleProofLoop {s : Bytes} (h : s ∈ M.generateMerkleProofLoop fuel level i) :
    s = [] ∨ ∃ hash, s = M.toVec hash := by
  induction fuel generalizing level i with
  | zero => cases h
  | succ fuel ih =>
    rw [MerkleHash.generateMerkleProofLoop] at h
    split_ifs at h with hlen
    · cases h
    · rcases List.mem_cons.1 h with rfl | h
      · cases level[neighbour i]? with
        | none => exact .inl rfl
        | some sibling => exact .inr ⟨sibling, rfl⟩
      · exact ih h

/-- Compressing a proof, writing it and reading it back gives an equivalent proof. -/
def CompressionFaithful (txHashes : List Bytes) (index : Nat) : Prop :=
  ∃ parsed, fromBytes (fromProof index (M.generateMerkleProof txHashes index)).toBytes = some parsed ∧
    parsed = fromProof index (M.generateMerkleProof txHashes index) ∧
    ∀ txHash merkleRoot, parsed.verify M txHash merkleRoot =
      M.verifyMerkleProof txHash index (M.generateMerkleProof txHashes index) merkleRoot

lemma compressionFaithful_iff {txHashes : List Bytes} {index : Nat} :
    CompressionFaithful M txHashes index ↔
      fromBytes (fromProof index (M.generateMerkleProof txHashes index)).toBytes =
        some (fromProof index (M.generateMerkleProof txHashes index)) := by
  constructor
  · rintro ⟨parsed, hparsed, rfl, -⟩
    exact hparsed
  · intro h
    exact ⟨_, h, rfl, verify_fromProof M _ index⟩

section Arrays

variable (hashNode : Vector UInt8 32 → Vector UInt8 32 → Vector UInt8 32)

/-- With the hashes of the source: a proof survives its bytes exactly if the position has a sibling
on every level, or there is no such position. -/
theorem compressed_proof_faithful_iff {txHashes : List Bytes} (h : txHashes.length < 2 ^ 64)
    (index : Nat) :
    CompressionFaithful (.ofArrays hashNode) txHashes index ↔
      txHashes.length ≤ index ∨ HasSiblings txHashes.length index := by
  rw [compressionFaithful_iff]
  by_cases hindex : txHashes.length ≤ index
  · rw [MerkleHash.generateMerkleProof, if_pos hindex]
    refine iff_of_true ?_ (.inl hindex)
    exact (fromBytes_toBytes_iff rfl (by simp [fromProof]) (by simp [fromProof])).2
      (by simp [fromProof])
  · have hlevel : ((MerkleHash.ofArrays hashNode).txHashesToArrays txHashes).length =
        txHashes.length := List.length_map _
    have hlength : ((MerkleHash.ofArrays hashNode).generateMerkleProofLoop txHashes.length
        ((MerkleHash.ofArrays hashNode).txHashesToArrays txHashes) index).length ≤ 64 :=
      length_generateMerkleProofLoop _ (hlevel ▸ h.le)
    rw [MerkleHash.generateMerkleProof, if_neg hindex, or_iff_right hindex,
      fromBytes_toBytes_iff (length_flagsLoop _ _) (hlength.trans_lt (by decide))]
    · have hsiblings := siblings_generateMerkleProofLoop (.ofArrays hashNode) (i := index) hlevel.le
      rwa [hlevel] at hsiblings
    · intro s hs
      refine (mem_generateMerkleProofLoop _ hs).imp_right ?_
      rintro ⟨hash, rfl⟩
      exact Vector.length_toList

/-- Two leaves: both positions have a sibling. -/
theorem compressed_proof_faithful_two :
    CompressionFaithful (.ofArrays fun a _ => a) [[1], [2]] 1 := by
  refine (compressed_proof_faithful_iff (fun a _ => a) (by decide) 1).2 (.inr fun k hk => ?_)
  cases k with
  | zero => decide
  | succ k =>
    rw [List.length_cons, List.length_singleton, Nat.pow_succ] at hk
    have := Nat.one_le_two_pow (n := k)
    omega

/-- Three leaves: the last one has no sibling, and the bytes of its proof are not accepted. -/
theorem compressed_proof_unreadable :
    fromBytes (fromProof 2 ((MerkleHash.ofArrays fun a _ => a).generateMerkleProof
      [List.replicate 32 1, List.replicate 32 2, List.replicate 32 3] 2)).toBytes = none := by
  decide +kernel

end Arrays

end Kanari.Proofs

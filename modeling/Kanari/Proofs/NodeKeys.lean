import Kanari.NodeKeys
import Kanari.Proofs.SparseStaging
import Mathlib.Data.Nat.Bitwise

/-!
# Node keys are faithful

A node key as bytes determines the depth of the node and the bits that lead to it, so the tree can be
modelled with lists of bits as its keys.
-/

namespace Kanari.Proofs

open Lib BitTree Digest

variable {p p' : Digest} {d d' i j b : Nat} {x : UInt8}

lemma testBit_of_ge (x : UInt8) (h : 8 ≤ b) : x.toNat.testBit b = false :=
  Nat.testBit_lt_two_pow (x.toNat_lt.trans_le (Nat.pow_le_pow_right (by norm_num) h))

lemma byte_ext {y : UInt8} (h : ∀ b < 8, x.toNat.testBit b = y.toNat.testBit b) : x = y := by
  apply UInt8.toNat_inj.mp
  apply Nat.eq_of_testBit_eq
  intro b
  by_cases hb : b < 8
  · exact h b hb
  · rw [testBit_of_ge x (by omega), testBit_of_ge y (by omega)]

lemma toNat_shiftLeft (x : UInt8) (h : i < 8) : (x <<< UInt8.ofNat i).toNat = x.toNat <<< i % 2 ^ 8 := by
  rw [UInt8.toNat_shiftLeft, UInt8.toNat_ofNat_of_lt' (by omega : i < 256), Nat.mod_eq_of_lt h]

lemma bitMask_toNat (d : Nat) : (bitMask d).toNat = 2 ^ (keyBitPosition d).2 := by
  have hpos : (keyBitPosition d).2 < 8 := by
    simp only [keyBitPosition]
    omega
  rw [bitMask, toNat_shiftLeft 1 hpos]
  show 1 <<< (keyBitPosition d).2 % 2 ^ 8 = _
  rw [Nat.one_shiftLeft, Nat.mod_eq_of_lt (Nat.pow_lt_pow_right (by norm_num) hpos)]

lemma testBit_masked (x : UInt8) (hi : i < 8) (hb : b < 8) :
    (x &&& (0xFF <<< UInt8.ofNat i)).toNat.testBit b = (decide (i ≤ b) && x.toNat.testBit b) := by
  have hones : (0xFF : UInt8).toNat.testBit (b - i) = true := by
    show (2 ^ 8 - 1).testBit (b - i) = true
    rw [Nat.testBit_two_pow_sub_one]
    exact decide_eq_true (by omega)
  rw [UInt8.toNat_and, Nat.testBit_and, toNat_shiftLeft 0xFF hi, Nat.testBit_mod_two_pow,
    decide_eq_true hb, Bool.true_and, Nat.testBit_shiftLeft, hones, Bool.and_true, Bool.and_comm]

lemma bit_eq_testBit (p : Digest) (d : Nat) :
    p.bit d = (p.byte (keyBitPosition d).1).toNat.testBit (keyBitPosition d).2 := by
  have hzero : (p.byte (keyBitPosition d).1 &&& bitMask d) = 0 ↔
      (p.byte (keyBitPosition d).1).toNat &&& 2 ^ (keyBitPosition d).2 = 0 := by
    rw [← UInt8.toNat_inj, UInt8.toNat_and, bitMask_toNat]
    rfl
  rw [Digest.bit, bne, Bool.eq_iff_iff, Bool.not_eq_true', beq_eq_false_iff_ne, ne_eq, hzero,
    Nat.and_two_pow]
  cases (p.byte (keyBitPosition d).1).toNat.testBit (keyBitPosition d).2 <;> simp

/-- The bits of a digest, byte by byte, in the order of the depths. -/
lemma testBit_byte (p : Digest) (j : Nat) (hb : b < 8) :
    (p.byte j).toNat.testBit b = p.bit (8 * j + (7 - b) + 1) := by
  have hbyte : (8 * j + (7 - b) + 1 - 1) / 8 = j := by omega
  have hbit : 7 - (8 * j + (7 - b) + 1 - 1) % 8 = b := by omega
  rw [bit_eq_testBit]
  simp only [keyBitPosition, hbyte, hbit]

def maskedPrefix (p : Digest) (d : Nat) : Bytes :=
  if d % 8 = 0 then p.bytes.take (nodePrefixLen d)
  else (p.bytes.take (nodePrefixLen d)).modify (nodePrefixLen d - 1) (· &&& (0xFF <<< UInt8.ofNat (8 - d % 8)))

lemma modify_append {α : Type} (l m : List α) (f : α → α) (n : Nat) :
    (l ++ m).modify (l.length + n) f = l ++ m.modify n f := by
  induction l with
  | nil => rw [List.length_nil, Nat.zero_add]; rfl
  | cons a l ih => rw [List.cons_append, List.length_cons, Nat.succ_add, List.modify_succ_cons, ih]; rfl

lemma getD_modify {α : Type} {l : List α} (f : α → α) (n : Nat) (a : α) (h : i < l.length) :
    (l.modify n f).getD i a = if n = i then f (l.getD i a) else l.getD i a := by
  rw [List.getD_eq_getElem?_getD, List.getElem?_modify, List.getD_eq_getElem?_getD,
    List.getElem?_eq_getElem h]
  rfl

lemma length_take_bytes (p : Digest) (hd : d ≤ 256) :
    (p.bytes.take (nodePrefixLen d)).length = nodePrefixLen d := by
  rw [List.length_take, p.length_bytes, nodePrefixLen]
  omega

lemma length_maskedPrefix (p : Digest) (hd : d ≤ 256) : (maskedPrefix p d).length = nodePrefixLen d := by
  unfold maskedPrefix
  split_ifs
  · exact length_take_bytes p hd
  · rw [List.length_modify, length_take_bytes p hd]

lemma nodeKey_eq (p : Digest) (hd : d ≤ 256) :
    p.nodeKey d = [0x6e, 0x3a] ++ Text.beBytes 2 d ++ maskedPrefix p d := by
  unfold Digest.nodeKey maskedPrefix
  by_cases hzero : d = 0
  · subst hzero
    rfl
  · rw [if_neg hzero]
    dsimp only
    split_ifs with hfull
    · rfl
    · have hlen : ([0x6e, 0x3a] ++ Text.beBytes 2 d ++ p.bytes.take (nodePrefixLen d)).length - 1 =
          ([0x6e, 0x3a] ++ Text.beBytes 2 d).length + (nodePrefixLen d - 1) := by
        rw [List.length_append, length_take_bytes p hd, nodePrefixLen]
        omega
      rw [hlen, modify_append]

lemma testBit_maskedPrefix (p : Digest) (hd : d ≤ 256) (hj : j < nodePrefixLen d) (hb : b < 8) :
    ((maskedPrefix p d).getD j 0).toNat.testBit b =
      (decide (8 * j + (7 - b) < d) && p.bit (8 * j + (7 - b) + 1)) := by
  have hread : (p.bytes.take (nodePrefixLen d)).getD j 0 = p.byte j := by
    rw [Digest.byte, List.getD_eq_getElem?_getD, List.getD_eq_getElem?_getD, List.getElem?_take_of_lt hj]
  have hlast : nodePrefixLen d = (d + 7) / 8 := rfl
  unfold maskedPrefix
  split_ifs with hfull
  · rw [hread, testBit_byte p j hb, decide_eq_true (by omega), Bool.true_and]
  · rw [getD_modify _ _ _ (by rwa [length_take_bytes p hd]), hread]
    split_ifs with hj
    · rw [testBit_masked _ (by omega) hb, testBit_byte p j hb]
      congr 1
      exact decide_eq_decide.mpr (by omega)
    · rw [testBit_byte p j hb, decide_eq_true (by omega), Bool.true_and]

/-- The digests have the same bits at the depths `1` to `d`. -/
def AgreeTo (p p' : Digest) (d : Nat) : Prop := ∀ i < d, p.bit (i + 1) = p'.bit (i + 1)

lemma maskedPrefix_eq_iff (hd : d ≤ 256) : maskedPrefix p d = maskedPrefix p' d ↔ AgreeTo p p' d := by
  constructor
  · intro h i hi
    have hj : i / 8 < nodePrefixLen d := by
      unfold nodePrefixLen
      omega
    have hdepth : 8 * (i / 8) + (7 - (7 - i % 8)) = i := by omega
    have hbit := testBit_maskedPrefix p hd hj (show 7 - i % 8 < 8 by omega)
    rw [h, testBit_maskedPrefix p' hd hj (by omega), hdepth, decide_eq_true hi, Bool.true_and,
      Bool.true_and] at hbit
    exact hbit.symm
  · intro h
    apply List.ext_getElem ((length_maskedPrefix p hd).trans (length_maskedPrefix p' hd).symm)
    intro j hj hj'
    rw [← List.getD_eq_getElem _ 0 hj, ← List.getD_eq_getElem _ 0 hj']
    rw [length_maskedPrefix p hd] at hj
    apply byte_ext
    intro b hb
    rw [testBit_maskedPrefix p hd hj hb, testBit_maskedPrefix p' hd hj hb]
    by_cases hin : 8 * j + (7 - b) < d
    · rw [h _ hin]
    · rw [decide_eq_false hin, Bool.false_and, Bool.false_and]

lemma nodeKey_eq_iff (hd : d ≤ 256) (hd' : d' ≤ 256) :
    p.nodeKey d = p'.nodeKey d' ↔ d = d' ∧ AgreeTo p p' d := by
  rw [nodeKey_eq p hd, nodeKey_eq p' hd']
  constructor
  · intro h
    obtain ⟨hheader, hbytes⟩ := List.append_inj h (by simp)
    have hnat := congrArg Text.beNat (List.append_cancel_left hheader)
    rw [Text.beNat_beBytes (by omega), Text.beNat_beBytes (by omega)] at hnat
    subst hnat
    exact ⟨rfl, (maskedPrefix_eq_iff hd).mp hbytes⟩
  · rintro ⟨rfl, h⟩
    rw [(maskedPrefix_eq_iff hd).mpr h]

lemma bit_flipBit (p : Digest) (d : Nat) (hi : i < 256) :
    (p.flipBit (d + 1)).bit (i + 1) = if i = d then !p.bit (i + 1) else p.bit (i + 1) := by
  have hbit (q : Digest) : q.bit (i + 1) = (q.byte (i / 8)).toNat.testBit (7 - i % 8) :=
    bit_eq_testBit q (i + 1)
  have hmask : (bitMask (d + 1)).toNat.testBit (7 - i % 8) = decide (7 - d % 8 = 7 - i % 8) := by
    rw [bitMask_toNat, Nat.testBit_two_pow]
    rfl
  have hbyte : (p.flipBit (d + 1)).byte (i / 8) =
      if d / 8 = i / 8 then p.byte (i / 8) ^^^ bitMask (d + 1) else p.byte (i / 8) :=
    getD_modify _ _ _ (by rw [p.length_bytes]; omega)
  rw [hbit, hbit, hbyte]
  by_cases heq : i = d
  · subst heq
    rw [if_pos rfl, if_pos rfl, UInt8.toNat_xor, Nat.testBit_xor, hmask, decide_eq_true rfl, Bool.xor_true]
  · rw [if_neg heq]
    split_ifs with hsame
    · rw [UInt8.toNat_xor, Nat.testBit_xor, hmask, decide_eq_false (by omega), Bool.xor_false]
    · rfl

lemma agree_flipBit (hd : d < 256) :
    AgreeTo p' (p.flipBit (d + 1)) (d + 1) ↔ AgreeTo p' p d ∧ p'.bit (d + 1) ≠ p.bit (d + 1) := by
  constructor
  · intro h
    refine ⟨fun i hi => ?_, ?_⟩
    · rw [h i (by omega), bit_flipBit p d (by omega), if_neg (by omega)]
    · rw [h d (by omega), bit_flipBit p d hd, if_pos rfl]
      exact Bool.not_ne_self _
  · rintro ⟨habove, hlast⟩ i hi
    rw [bit_flipBit p d (by omega)]
    split_ifs with heq
    · rw [heq, Bool.eq_not]
      exact hlast
    · exact habove i (by omega)

/-- A key stands for one node, its depth and the bits that lead there. With the bit of the depth
flipped it stands for the sibling, and for no other node. -/
theorem node_keys_faithful (p p' : Digest) {d d' : Nat} (hd : d ≤ 256) (hd' : d' ≤ 256) :
    (p.nodeKey d = p'.nodeKey d' ↔ d = d' ∧ AgreeTo p p' d) ∧
      (0 < d → (p'.nodeKey d' = (p.flipBit d).nodeKey d ↔
        d' = d ∧ AgreeTo p' p (d - 1) ∧ p'.bit d ≠ p.bit d)) := by
  refine ⟨nodeKey_eq_iff hd hd', ?_⟩
  intro hpos
  obtain ⟨n, rfl⟩ : ∃ n, d = n + 1 := ⟨d - 1, by omega⟩
  rw [nodeKey_eq_iff hd' hd, Nat.add_sub_cancel, ← agree_flipBit (by omega)]
  constructor
  · rintro ⟨rfl, h⟩
    exact ⟨rfl, h⟩
  · rintro ⟨rfl, h⟩
    exact ⟨rfl, h⟩

def zeroDigest : Digest := ⟨List.replicate 32 0, rfl⟩

/-- The two nodes below the node of depth 255 on the left edge. -/
theorem node_keys_faithful_leaves :
    zeroDigest.nodeKey 256 ≠ (zeroDigest.flipBit 256).nodeKey 256 ∧
      zeroDigest.nodeKey 255 = (zeroDigest.flipBit 256).nodeKey 255 := by
  have hleaf := node_keys_faithful zeroDigest zeroDigest (le_refl 256) (le_refl 256)
  have hparent := node_keys_faithful zeroDigest (zeroDigest.flipBit 256) (Nat.le_succ 255) (Nat.le_succ 255)
  constructor
  · intro h
    exact ((hleaf.2 (by norm_num)).mp h).2.2 rfl
  · apply hparent.1.mpr
    refine ⟨rfl, fun i hi => ?_⟩
    rw [bit_flipBit zeroDigest 255 (by omega), if_neg (by omega)]

def keyHash (p : Digest) : KeyHash := ⟨(List.range 256).map fun i => p.bit (i + 1), by simp⟩

lemma nodeKey_keyHash (p : Digest) (hd : d ≤ 256) :
    nodeKey (keyHash p) d = (List.range d).map fun i => p.bit (i + 1) := by
  rw [nodeKey, keyHash, ← List.map_take, List.take_range, min_eq_left hd]

/-- The keys of the model are equal exactly where the keys in bytes are. -/
theorem nodeKey_refines (hd : d ≤ 256) (hd' : d' ≤ 256) :
    p.nodeKey d = p'.nodeKey d' ↔ nodeKey (keyHash p) d = nodeKey (keyHash p') d' := by
  rw [nodeKey_eq_iff hd hd', nodeKey_keyHash p hd, nodeKey_keyHash p' hd']
  constructor
  · rintro ⟨rfl, h⟩
    exact List.map_congr_left fun i hi => h i (List.mem_range.mp hi)
  · intro h
    have hlen : d = d' := by simpa using congrArg List.length h
    subst hlen
    exact ⟨rfl, fun i hi => List.map_inj_left.mp h i (List.mem_range.mpr hi)⟩

lemma keyHash_bit (p : Digest) (hd : d < 256) : (keyHash p).bit (d + 1) = p.bit (d + 1) := by
  simp [keyHash, KeyHash.bit, List.getD_eq_getElem?_getD, hd]

lemma keyHash_flipBit (p : Digest) (d : Nat) : keyHash (p.flipBit (d + 1)) = (keyHash p).flipBit (d + 1) := by
  apply KeyHash.ext
  apply List.ext_getElem (by rw [(keyHash _).length_bits, KeyHash.length_bits])
  intro i hi hi'
  have hlt : i < 256 := by rwa [(keyHash _).length_bits] at hi
  simp only [keyHash, KeyHash.flipBit, List.getElem_map, List.getElem_range, List.getElem_modify,
    bit_flipBit p d hlt, Nat.add_sub_cancel, eq_comm (a := d)]

def ByteKeyed {V : Type} (bytes : Bytes → Option V) (bits : List Bool → Option V) : Prop :=
  ∀ (p : Digest) {d}, d ≤ 256 → bytes (p.nodeKey d) = bits (nodeKey (keyHash p) d)

variable {H : Type} [DecidableEq H] {hf : HashFunctions H} {cacheBytes : Bytes → Option H}
  {cache : NodeCache H} {overlayBytes : Bytes → Option (Option H)} {overlay : NodeOverlay H}

omit [DecidableEq H] in
lemma ByteKeyed.nodeHash (hcache : ByteKeyed cacheBytes cache) (h : ByteKeyed overlayBytes overlay) (p : Digest)
    (hd : d ≤ 256) : p.nodeHashFromOverlay hf cacheBytes overlayBytes d =
      hf.nodeHashFromOverlay cache overlay (keyHash p) d := by
  unfold Digest.nodeHashFromOverlay HashFunctions.nodeHashFromOverlay HashFunctions.nodeHashFromCache
  rewrite [h p hd, hcache p hd]
  rfl

lemma ByteKeyed.stageNode (h : ByteKeyed overlayBytes overlay) (p : Digest) (hd : d ≤ 256) (hash : H) :
    ByteKeyed (p.stageNode hf overlayBytes d hash) (hf.stageNode overlay (keyHash p) d hash) := by
  intro p' d' hd'
  unfold Digest.stageNode HashFunctions.stageNode
  by_cases hkey : p'.nodeKey d' = p.nodeKey d
  · rw [hkey, (nodeKey_refines hd' hd).mp hkey, Function.update_self, Function.update_self]
  · rw [Function.update_of_ne hkey, Function.update_of_ne (mt (nodeKey_refines hd' hd).mpr hkey), h p' hd']

lemma ByteKeyed.stagePath (hcache : ByteKeyed cacheBytes cache) (h : ByteKeyed overlayBytes overlay) (p : Digest)
    (hd : d ≤ 256) (hash : H) : ByteKeyed (p.stagePath hf cacheBytes d overlayBytes hash)
      (hf.stagePath cache (keyHash p) 0 d overlay hash).1 := by
  induction d generalizing overlayBytes overlay hash with
  | zero => exact h
  | succ d ih =>
    have hsibling : (p.flipBit (d + 1)).nodeHashFromOverlay hf cacheBytes overlayBytes (d + 1) = _ :=
      hcache.nodeHash h _ hd
    rw [keyHash_flipBit] at hsibling
    unfold Digest.stagePath HashFunctions.stagePath
    simp only [Nat.zero_add, hsibling, keyHash_bit p hd, Nat.add_sub_cancel]
    exact ih (h.stageNode p (by omega) _) (by omega) _

lemma ByteKeyed.stageLeaves (hcache : ByteKeyed cacheBytes cache) (l : List (Digest × Option Bytes)) :
    ByteKeyed (Digest.stageLeaves hf cacheBytes (l.map fun c => (c.1, hf.leafHash (keyHash c.1) c.2)))
      (hf.stageChanges cache (l.map fun c => (keyHash c.1, c.2))) := by
  have hstart : ByteKeyed (fun _ => none : Bytes → Option (Option H)) (fun _ => none) := fun _ _ _ => rfl
  unfold Digest.stageLeaves HashFunctions.stageChanges
  generalize (fun _ => none : Bytes → Option (Option H)) = overlayBytes at hstart ⊢
  generalize (fun _ => none : NodeOverlay H) = overlay at hstart ⊢
  induction l generalizing overlayBytes overlay with
  | nil => exact hstart
  | cons c l ih =>
    rw [List.map_cons, List.map_cons, List.foldl_cons, List.foldl_cons, stageLeafNodeUpdate_eq]
    exact ih _ _ (hcache.stagePath hstart c.1 le_rfl _)

/-- Staged under byte keys, every branch node reads as the node of the tree after the changes. -/
theorem byte_staging_right {S : Set KeyHash} {m : OrdMap KeyHash Bytes} {l : List (Digest × Option Bytes)}
    (hcache : ByteKeyed cacheBytes cache) (hS : Separated S) (hm : KeysIn m S)
    (hl : ∀ c ∈ l, keyHash c.1 ∈ S) (h : RightBelow hf cache (fun _ => none) m []) (p : Digest)
    (hd : d < 256) :
    p.nodeHashFromOverlay hf cacheBytes
        (Digest.stageLeaves hf cacheBytes (l.map fun c => (c.1, hf.leafHash (keyHash c.1) c.2))) d =
      treeNode hf (leaves hf (writeLeaves m (l.map fun c => (keyHash c.1, c.2)))) (nodeKey (keyHash p) d) := by
  have hlength : (nodeKey (keyHash p) d).length = d := by simp [nodeKey_keyHash p hd.le]
  have hkeys : ∀ c ∈ l.map fun c => (keyHash c.1, c.2), c.1 ∈ S := by
    rintro _ hc
    obtain ⟨c, hmem, rfl⟩ := List.mem_map.mp hc
    exact hl c hmem
  have hright := stageChanges_right hf hS hm hkeys h
  rw [hcache.nodeHash (hcache.stageLeaves l) p hd.le, ← hright.branch _ List.nil_prefix (by omega), nodeValue, hlength]
  rfl

end Kanari.Proofs

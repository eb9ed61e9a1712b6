import Kanari.Proofs.SparseNodes
import Mathlib.Data.List.TakeWhile

/-!
# The reference root

`compute_sparse_root` of a list of entries is the root of the complete tree over the map that
the list enumerates.
-/

namespace Kanari.Proofs

open Lib BitTree HashFunctions

variable {H : Type} (hf : HashFunctions H)

def EntriesBelow (m : OrdMap KeyHash Bytes) (p : List Bool) (l : List (KeyHash × Bytes)) : Prop :=
  ∀ k v, (k, v) ∈ l ↔ p <+: k.bits ∧ m.find? k = some v

variable {m : OrdMap KeyHash Bytes} {k : KeyHash} {p : List Bool} {height : Nat}
  {l : List (KeyHash × Bytes)}

lemma leaves_of_absent (h : m.find? k = none) : leaves hf m k.bits = hf.defaultLeaf := by
  rw [leaves_bits, h]
  rfl

lemma treeNode_of_no_entries (hp : p.length ≤ 256) (h : EntriesBelow m p []) :
    treeNode hf (leaves hf m) p = hf.defaultHash p.length := by
  apply treeNode_empty hf hp
  intro k hk
  apply leaves_of_absent
  by_contra hne
  obtain ⟨v, hv⟩ := Option.ne_none_iff_exists'.mp hne
  exact absurd ((h k v).mpr ⟨hk, hv⟩) List.not_mem_nil

/-! ## A single entry -/

lemma singleEntryRoot_eq {v : Bytes} (hheight : height ≤ 256) (hk : m.find? k = some v)
    (honly : ∀ k' v', k.bits.take (256 - height) <+: k'.bits → m.find? k' = some v' → k' = k) :
    hf.singleEntryRoot k v height = treeNode hf (leaves hf m) (k.bits.take (256 - height)) := by
  induction height with
  | zero =>
    have hfull : k.bits.take (256 - 0) = k.bits := List.take_of_length_le (by rw [k.length_bits])
    rw [hfull, treeNode_leaf hf _ k.length_bits, leaves_bits, hk]
    rfl
  | succ height ih =>
    obtain ⟨d, hd, hsub⟩ : ∃ d, d < 256 ∧ 256 - height = d + 1 := ⟨255 - height, by omega, by omega⟩
    have hdown : 256 - (height + 1) = d := by omega
    rw [hdown] at honly ⊢
    rw [hsub] at ih
    have hstep : hf.singleEntryRoot k v (height + 1) = join hf.hashNode (k.bit (d + 1))
        (hf.singleEntryRoot k v height) (hf.defaultHash (d + 1)) := by
      unfold singleEntryRoot
      rw [List.range_succ, List.foldl_append, List.foldl_cons, List.foldl_nil, hsub]
    have hshorter : k.bits.take d <+: k.bits.take (d + 1) := by
      rw [take_bits_succ k hd]
      exact List.prefix_append _ _
    have hsibling : treeNode hf (leaves hf m) (siblingKey k d) = hf.defaultHash (d + 1) := by
      have hlen := length_siblingKey k hd
      rw [← hlen]
      apply treeNode_of_no_entries hf (by omega)
      intro k' v'
      refine ⟨fun h => absurd h List.not_mem_nil, ?_⟩
      rintro ⟨hbelow, hfind⟩
      have heq := honly k' v' ((List.prefix_append _ _).trans hbelow) hfind
      exact absurd (heq ▸ hbelow) (siblingKey_not_ancestor k hd)
    rw [hstep, ih (by omega) fun k' v' h => honly k' v' (hshorter.trans h),
      treeNode_join hf _ k hd, hsibling]

/-! ## Sorted entries -/

lemma bit_of_prefix_concat {b : Bool} (h : p ++ [b] <+: k.bits) : k.bit (p.length + 1) = b := by
  obtain ⟨rest, hrest⟩ := h
  simp [KeyHash.bit, ← hrest]

lemma prefix_concat_bit (hp : p.length < 256) (h : p <+: k.bits) :
    p ++ [k.bit (p.length + 1)] <+: k.bits := by
  have heq : p = k.bits.take p.length := List.prefix_iff_eq_take.mp h
  have hsucc := take_bits_succ k hp
  rw [← heq] at hsucc
  exact hsucc ▸ List.take_prefix _ _

lemma bit_mono {a b : KeyHash} (hp : p.length < 256) (ha : p <+: a.bits) (hb : p <+: b.bits)
    (hlt : a < b) (hbit : a.bit (p.length + 1) = true) : b.bit (p.length + 1) = true := by
  by_contra hne
  rw [Bool.not_eq_true] at hne
  have ha' := prefix_concat_bit hp ha
  have hb' := prefix_concat_bit hp hb
  rw [hbit] at ha'
  rw [hne] at hb'
  obtain ⟨x, hx⟩ := ha'
  obtain ⟨y, hy⟩ := hb'
  have hlen : y.length = x.length := by
    have hxl := congrArg List.length hx
    have hyl := congrArg List.length hy
    rw [a.length_bits] at hxl
    rw [b.length_bits] at hyl
    simp only [List.length_append, List.length_singleton] at hxl hyl
    omega
  have horder := natOfBits_lt_of_left_right p y x hlen
  have hab : natOfBits a.bits < natOfBits b.bits := hlt
  rw [← hx, ← hy] at hab
  simp only [List.append_assoc, List.singleton_append] at hab
  omega

lemma entriesBelow_split (hp : p.length < 256) (hl : EntriesBelow m p l)
    (hsorted : l.Pairwise (·.1 < ·.1)) :
    EntriesBelow m (p ++ [false]) (l.takeWhile fun e => !e.1.bit (p.length + 1)) ∧
      EntriesBelow m (p ++ [true]) (l.dropWhile fun e => !e.1.bit (p.length + 1)) := by
  have hleft : ∀ e ∈ l.takeWhile fun e => !e.1.bit (p.length + 1),
      e.1.bit (p.length + 1) = false := by
    intro e he
    simpa using List.mem_takeWhile_imp he
  have hright : ∀ e ∈ l.dropWhile fun e => !e.1.bit (p.length + 1),
      e.1.bit (p.length + 1) = true := by
    intro e he
    cases hd : l.dropWhile fun e => !e.1.bit (p.length + 1) with
    | nil =>
      rw [hd] at he
      cases he
    | cons first rest =>
      have hfirst : first.1.bit (p.length + 1) = true := by
        have hnil : (l.dropWhile fun e => !e.1.bit (p.length + 1)) ≠ [] := by
          rw [hd]
          exact List.cons_ne_nil _ _
        have := List.head_dropWhile_not _ hnil
        simpa [hd] using this
      have hsub : (first :: rest).Sublist l := hd ▸ List.dropWhile_sublist _
      rw [hd] at he
      rcases List.mem_cons.mp he with rfl | hrest
      · exact hfirst
      · have hlt : first.1 < e.1 := (List.pairwise_cons.mp (hsorted.sublist hsub)).1 e hrest
        have hmem₁ := (hl first.1 first.2).mp (hsub.subset List.mem_cons_self)
        have hmem₂ := (hl e.1 e.2).mp (hsub.subset (List.mem_cons_of_mem _ hrest))
        exact bit_mono hp hmem₁.1 hmem₂.1 hlt hfirst
  have hall : ∀ e, e ∈ l ↔ e ∈ (l.takeWhile fun e => !e.1.bit (p.length + 1)) ∨
      e ∈ l.dropWhile fun e => !e.1.bit (p.length + 1) := by
    intro e
    rw [← List.mem_append, List.takeWhile_append_dropWhile]
  refine ⟨?_, ?_⟩
  · intro k v
    constructor
    · intro h
      obtain ⟨hbelow, hfind⟩ := (hl k v).mp ((hall _).mpr (Or.inl h))
      exact ⟨hleft _ h ▸ prefix_concat_bit hp hbelow, hfind⟩
    · rintro ⟨hbelow, hfind⟩
      rcases (hall _).mp ((hl k v).mpr ⟨(List.prefix_append _ _).trans hbelow, hfind⟩) with h | h
      · exact h
      · have hbit := hright _ h
        rw [bit_of_prefix_concat hbelow] at hbit
        cases hbit
  · intro k v
    constructor
    · intro h
      obtain ⟨hbelow, hfind⟩ := (hl k v).mp ((hall _).mpr (Or.inr h))
      exact ⟨hright _ h ▸ prefix_concat_bit hp hbelow, hfind⟩
    · rintro ⟨hbelow, hfind⟩
      rcases (hall _).mp ((hl k v).mpr ⟨(List.prefix_append _ _).trans hbelow, hfind⟩) with h | h
      · have hbit := hleft _ h
        rw [bit_of_prefix_concat hbelow] at hbit
        cases hbit
      · exact h

lemma childRoot_eq {depth : Nat} {q : List Bool} (hq : q.length = depth) (hdepth : depth ≤ 256)
    (hl : EntriesBelow m q l)
    (hroot : hf.computeSparseSubtreeRootSorted height l = treeNode hf (leaves hf m) q) :
    (if l.isEmpty then hf.defaultHash depth else hf.computeSparseSubtreeRootSorted height l) =
      treeNode hf (leaves hf m) q := by
  by_cases hnil : l = []
  · subst hnil
    rw [treeNode_of_no_entries hf (by omega) hl, hq]
    rfl
  · rw [if_neg (by simpa using hnil), hroot]

lemma drop_length_takeWhile {α : Type} (f : α → Bool) (l : List α) :
    l.drop (l.takeWhile f).length = l.dropWhile f := by
  calc l.drop (l.takeWhile f).length
      = (l.takeWhile f ++ l.dropWhile f).drop (l.takeWhile f).length := by
        rw [List.takeWhile_append_dropWhile]
    _ = l.dropWhile f := List.drop_left

lemma computeSparseSubtreeRootSorted_eq (hp : p.length + height = 256) (hl : EntriesBelow m p l)
    (hsorted : l.Pairwise (·.1 < ·.1)) :
    hf.computeSparseSubtreeRootSorted height l = treeNode hf (leaves hf m) p := by
  induction height generalizing p l with
  | zero =>
    match l with
    | [] =>
      rw [computeSparseSubtreeRootSorted, treeNode_of_no_entries hf (by omega) hl]
      congr 1
      omega
    | e :: rest =>
      have hleaf : ∀ e' ∈ e :: rest, e'.1.bits = p := by
        intro e' he'
        have hpre := ((hl e'.1 e'.2).mp he').1
        exact (hpre.eq_of_length (by rw [e'.1.length_bits]; omega)).symm
      have hroot : treeNode hf (leaves hf m) p = hf.hashLeaf e.1 e.2 := by
        rw [← hleaf e List.mem_cons_self, treeNode_leaf hf _ e.1.length_bits, leaves_bits,
          ((hl e.1 e.2).mp List.mem_cons_self).2]
        rfl
      rw [hroot]
      match rest with
      | [] => rfl
      | _ :: _ => rfl
  | succ height ih =>
    match l with
    | [] =>
      rw [computeSparseSubtreeRootSorted, treeNode_of_no_entries hf (by omega) hl]
      congr 1
      omega
    | [e] =>
      obtain ⟨hpre, hfind⟩ := (hl e.1 e.2).mp (List.mem_singleton.mpr rfl)
      have hdepth : 256 - (height + 1) = p.length := by omega
      have htake : e.1.bits.take (256 - (height + 1)) = p := by
        rw [hdepth]
        exact (List.prefix_iff_eq_take.mp hpre).symm
      rw [computeSparseSubtreeRootSorted, singleEntryRoot_eq hf (by omega) hfind, htake]
      intro k' v' hbelow hfind'
      rw [htake] at hbelow
      have := List.mem_singleton.mp ((hl k' v').mpr ⟨hbelow, hfind'⟩)
      exact congrArg Prod.fst this
    | e :: e' :: rest =>
      have hdepth : 256 - height = p.length + 1 := by omega
      obtain ⟨hleft, hright⟩ := entriesBelow_split (by omega) hl hsorted
      have hlength : ∀ b, (p ++ [b]).length = p.length + 1 := fun b => List.length_append
      have hl' := ih (by rw [hlength]; omega) hleft (hsorted.sublist (List.takeWhile_sublist _))
      have hr' := ih (by rw [hlength]; omega) hright (hsorted.sublist (List.dropWhile_sublist _))
      rw [computeSparseSubtreeRootSorted, hdepth, drop_length_takeWhile,
        childRoot_eq hf (hlength _) (by omega) hleft hl',
        childRoot_eq hf (hlength _) (by omega) hright hr']
      · unfold treeNode
        rw [hlength, hlength, show 256 - p.length = 256 - (p.length + 1) + 1 by omega, subtree]
      · exact List.cons_ne_nil _ _
      · simp

/-! ## Unsorted entries and buckets -/

lemma pairwise_of_isSortedByHash (h : isSortedByHash l = true) :
    l.Pairwise fun a b => a.1 ≤ b.1 := by
  rw [← List.isChain_iff_pairwise]
  induction l with
  | nil => exact List.IsChain.nil
  | cons a l ih =>
    cases l with
    | nil => exact List.IsChain.singleton a
    | cons b rest =>
      simp only [isSortedByHash, Bool.and_eq_true, decide_eq_true_eq] at h
      exact List.isChain_cons_cons.mpr ⟨h.1, ih h.2⟩

lemma strict_of_sorted (hnodup : (l.map (·.1)).Nodup) (hle : l.Pairwise fun a b => a.1 ≤ b.1) :
    l.Pairwise (·.1 < ·.1) := by
  have hne : l.Pairwise fun a b => a.1 ≠ b.1 := List.pairwise_map.mp hnodup
  exact hle.imp₂ (fun _ _ hle hne => lt_of_le_of_ne hle hne) hne

lemma computeSparseSubtreeRoot_eq (hp : p.length ≤ 256) (hl : EntriesBelow m p l)
    (hnodup : (l.map (·.1)).Nodup) :
    hf.computeSparseSubtreeRoot l p.length = treeNode hf (leaves hf m) p := by
  unfold computeSparseSubtreeRoot
  by_cases hnil : l = []
  · subst hnil
    rw [treeNode_of_no_entries hf hp hl]
    rfl
  · rw [if_neg (by simpa using hnil)]
    by_cases hsorted : isSortedByHash l = true
    · rw [if_pos hsorted]
      exact computeSparseSubtreeRootSorted_eq hf (by omega) hl
        (strict_of_sorted hnodup (pairwise_of_isSortedByHash hsorted))
    · rw [if_neg hsorted]
      have hperm := List.perm_insertionSort (fun a b : KeyHash × Bytes => a.1 ≤ b.1) l
      apply computeSparseSubtreeRootSorted_eq hf (by omega)
      · intro k v
        rw [hperm.mem_iff]
        exact hl k v
      · apply strict_of_sorted ((hperm.map _).nodup_iff.mpr hnodup)
        have htotal : Std.Total fun a b : KeyHash × Bytes => a.1 ≤ b.1 :=
          ⟨fun a b => le_total a.1 b.1⟩
        have htrans : IsTrans (KeyHash × Bytes) fun a b => a.1 ≤ b.1 :=
          ⟨fun _ _ _ => le_trans⟩
        exact List.pairwise_insertionSort _ l

lemma computeSparseRootParallelByte_eq (hl : EntriesBelow m [] l) (hnodup : (l.map (·.1)).Nodup) :
    hf.computeSparseRootParallelByte l = treeNode hf (leaves hf m) [] := by
  have hbucket : ∀ i, i < 2 ^ parallelBucketDepth → hf.computeSparseSubtreeRoot
      (l.filter fun e => decide (e.1.topBits parallelBucketDepth = i)) parallelBucketDepth =
        subtree hf.hashNode (leaves hf m) (256 - parallelBucketDepth)
          (bitsOfNat parallelBucketDepth i) := by
    intro i hi
    have hlen : (bitsOfNat parallelBucketDepth i).length = parallelBucketDepth :=
      length_bitsOfNat _ _
    have hbelow : EntriesBelow m (bitsOfNat parallelBucketDepth i)
        (l.filter fun e => decide (e.1.topBits parallelBucketDepth = i)) := by
      intro k v
      rw [List.mem_filter, hl k v, decide_eq_true_eq]
      constructor
      · rintro ⟨⟨_, hfind⟩, htop⟩
        exact ⟨take_bits_of_topBits htop ▸ List.take_prefix _ _, hfind⟩
      · rintro ⟨hpre, hfind⟩
        exact ⟨⟨List.nil_prefix, hfind⟩, topBits_of_prefix hi hpre⟩
    have hroot := computeSparseSubtreeRoot_eq hf (by rw [hlen]; decide) hbelow
      (hnodup.sublist (List.filter_sublist.map _))
    rw [hlen] at hroot
    rw [hroot, treeNode, hlen]
  have hlevel : ((List.range (2 ^ parallelBucketDepth)).map fun i => hf.computeSparseSubtreeRoot
      (l.filter fun e => decide (e.1.topBits parallelBucketDepth = i)) parallelBucketDepth) =
        level hf.hashNode (leaves hf m) (256 - parallelBucketDepth) parallelBucketDepth := by
    exact List.map_congr_left fun i hi => hbucket i (List.mem_range.mp hi)
  have hheight : 256 - parallelBucketDepth + parallelBucketDepth = 256 := by decide
  unfold computeSparseRootParallelByte
  simp only [hlevel, pairUp_iterate_level, hheight]
  rfl

/-- The reference root of a list of entries with different digests. -/
lemma computeSparseRoot_eq {entries : List (Bytes × Bytes)}
    (hl : EntriesBelow m [] (entries.map fun e => (hf.digest e.1, e.2)))
    (hnodup : (entries.map fun e => hf.digest e.1).Nodup) :
    hf.computeSparseRoot entries = treeNode hf (leaves hf m) [] := by
  have hnodup' : ((entries.map fun e => (hf.digest e.1, e.2)).map (·.1)).Nodup := by
    rw [List.map_map]
    exact hnodup
  unfold computeSparseRoot
  by_cases hnil : entries = []
  · subst hnil
    rw [treeNode_of_no_entries hf (Nat.zero_le _) hl]
    rfl
  · rw [if_neg (by simpa using hnil)]
    by_cases hmany : 2048 ≤ entries.length
    · rw [if_pos hmany]
      exact computeSparseRootParallelByte_eq hf hl hnodup'
    · rw [if_neg hmany]
      exact computeSparseSubtreeRoot_eq hf (Nat.zero_le _) hl hnodup'

/-! ## The complete tree of a list of entries -/

def entryMap (entries : List (Bytes × Bytes)) : OrdMap KeyHash Bytes :=
  OrdMap.ofList (entries.map fun e => (hf.digest e.1, e.2))

/-- The leaf at a digest is the hash of the entry with that digest, if there is one. -/
def entryLeaf (entries : List (Bytes × Bytes)) (p : List Bool) : H :=
  match entries.find? fun e => decide ((hf.digest e.1).bits = p) with
  | some e => hf.hashLeaf (hf.digest e.1) e.2
  | none => hf.defaultLeaf

variable {entries : List (Bytes × Bytes)} (hnodup : (entries.map fun e => hf.digest e.1).Nodup)
include hnodup

lemma digest_inj_on_entries {e e' : Bytes × Bytes} (he : e ∈ entries) (he' : e' ∈ entries)
    (h : hf.digest e.1 = hf.digest e'.1) : e = e' :=
  List.inj_on_of_nodup_map hnodup he he' h

lemma find?_entryMap {kh : KeyHash} {v : Bytes} :
    (entryMap hf entries).find? kh = some v ↔ ∃ e ∈ entries, hf.digest e.1 = kh ∧ e.2 = v := by
  unfold entryMap OrdMap.ofList
  obtain ⟨hfind, hfree⟩ | ⟨w, hw, hfind⟩ := OrdMap.find?_foldl_insert .empty
    (entries.map fun e => (hf.digest e.1, e.2)) kh
  · rw [hfind, OrdMap.find?_empty]
    refine ⟨fun h => absurd h (Option.some_ne_none v).symm, ?_⟩
    rintro ⟨e, he, rfl, -⟩
    exact absurd rfl (hfree _ (List.mem_map.mpr ⟨e, he, rfl⟩))
  · rw [hfind, Option.some.injEq]
    obtain ⟨e, he, heq⟩ := List.mem_map.mp hw
    cases heq
    constructor
    · rintro rfl
      exact ⟨e, he, rfl, rfl⟩
    · rintro ⟨e', he', hd, rfl⟩
      rw [digest_inj_on_entries hf hnodup he he' hd.symm]

lemma entriesBelow_entryMap :
    EntriesBelow (entryMap hf entries) [] (entries.map fun e => (hf.digest e.1, e.2)) := by
  intro kh v
  rw [find?_entryMap hf hnodup, List.mem_map]
  constructor
  · rintro ⟨e, he, heq⟩
    cases heq
    exact ⟨List.nil_prefix, e, he, rfl, rfl⟩
  · rintro ⟨-, e, he, rfl, rfl⟩
    exact ⟨e, he, rfl⟩

lemma entryLeaf_digest {e : Bytes × Bytes} (he : e ∈ entries) :
    entryLeaf hf entries (hf.digest e.1).bits = hf.hashLeaf (hf.digest e.1) e.2 := by
  unfold entryLeaf
  cases hfind : entries.find? fun e' => decide ((hf.digest e'.1).bits = (hf.digest e.1).bits) with
  | none => simpa using List.find?_eq_none.mp hfind e he
  | some e' =>
    have hbits : (hf.digest e'.1).bits = (hf.digest e.1).bits := by
      simpa using List.find?_some hfind
    rw [digest_inj_on_entries hf hnodup (List.mem_of_find?_eq_some hfind) he (KeyHash.ext hbits)]

lemma leaves_entryMap (k : KeyHash) :
    leaves hf (entryMap hf entries) k.bits = entryLeaf hf entries k.bits := by
  rw [leaves_bits]
  cases hfind : (entryMap hf entries).find? k with
  | some v =>
    obtain ⟨e, he, rfl, rfl⟩ := (find?_entryMap hf hnodup).mp hfind
    rw [entryLeaf_digest hf hnodup he]
    rfl
  | none =>
    have hnone : entries.find? (fun e => decide ((hf.digest e.1).bits = k.bits)) = none := by
      refine List.find?_eq_none.mpr fun e he hbits => ?_
      rw [decide_eq_true_eq] at hbits
      have hsome := (find?_entryMap hf hnodup).mpr ⟨e, he, KeyHash.ext hbits, rfl⟩
      rw [hfind] at hsome
      cases hsome
    rw [entryLeaf, hnone]
    rfl

lemma treeNode_entryMap (hp : p.length ≤ 256) :
    treeNode hf (leaves hf (entryMap hf entries)) p =
      subtree hf.hashNode (entryLeaf hf entries) (256 - p.length) p :=
  treeNode_congr hf hp fun k _ => leaves_entryMap hf hnodup k

/-- For entries with different digests, in any order and by either path, the reference root is that
of the complete tree of 256 levels: its leaf at the digest of a key is the hash of the entry, and a
subtree without entries has the default hash of its depth. -/
theorem reference_root_is_tree_root :
    hf.computeSparseRoot entries = subtree hf.hashNode (entryLeaf hf entries) 256 [] ∧
      (∀ e ∈ entries, entryLeaf hf entries (hf.digest e.1).bits = hf.hashLeaf (hf.digest e.1) e.2) ∧
      (∀ p, p.length ≤ 256 → (∀ e ∈ entries, ¬p <+: (hf.digest e.1).bits) →
        subtree hf.hashNode (entryLeaf hf entries) (256 - p.length) p = hf.defaultHash p.length) ∧
      (∀ entries', entries'.Perm entries →
        hf.computeSparseRoot entries' = hf.computeSparseRoot entries) ∧
      hf.computeSparseSubtreeRoot (entries.map fun e => (hf.digest e.1, e.2)) 0 =
        hf.computeSparseRoot entries ∧
      hf.computeSparseRootParallelByte (entries.map fun e => (hf.digest e.1, e.2)) =
        hf.computeSparseRoot entries := by
  have hbelow := entriesBelow_entryMap hf hnodup
  have hnodup' : ((entries.map fun e => (hf.digest e.1, e.2)).map (·.1)).Nodup := by
    rw [List.map_map]
    exact hnodup
  have hroot := computeSparseRoot_eq hf hbelow hnodup
  refine ⟨?_, fun e he => entryLeaf_digest hf hnodup he, ?_, ?_, ?_, ?_⟩
  · rw [hroot, treeNode_entryMap hf hnodup (Nat.zero_le _)]
    rfl
  · intro p hp hfree
    rw [← treeNode_entryMap hf hnodup hp]
    refine treeNode_of_no_entries hf hp fun kh v => ⟨fun h => absurd h List.not_mem_nil, ?_⟩
    rintro ⟨hpre, hfind⟩
    obtain ⟨e, he, rfl, -⟩ := (find?_entryMap hf hnodup).mp hfind
    exact absurd hpre (hfree e he)
  · intro entries' hperm
    rw [hroot]
    refine computeSparseRoot_eq hf (fun kh v => ?_) ((hperm.map _).nodup_iff.mpr hnodup)
    rw [← hbelow kh v, (hperm.map _).mem_iff]
  · rw [hroot]
    exact computeSparseSubtreeRoot_eq hf (Nat.zero_le _) hbelow hnodup'
  · rw [hroot]
    exact computeSparseRootParallelByte_eq hf hbelow hnodup'

omit hnodup

/-- A tree over `||`: the root says whether some leaf holds `[7]`. The keys `[]` and `[1]` are
neighbours, `[2]` is not their neighbour. -/
def orHashes : HashFunctions Bool where
  digest key := ⟨List.replicate 254 false ++ [key == [2], key == [1]], by
    rw [List.length_append, List.length_replicate]; rfl⟩
  hashLeaf _ value := value == [7]
  hashNode := or

/-- Two entries, one in each half of the last level but one. -/
theorem reference_root_is_tree_root_two :
    orHashes.computeSparseRoot [([], [7]), ([2], [7])] =
      subtree orHashes.hashNode (entryLeaf orHashes [([], [7]), ([2], [7])]) 256 [] :=
  (reference_root_is_tree_root orHashes (by decide +kernel)).1

end Kanari.Proofs

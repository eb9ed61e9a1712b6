import Kanari.Proofs.SparseReference

/-!
# Runs of the sparse Merkle tree

Along every run whose keys have digests that differ within their first 255 bits, the incremental
root is the reference root of the live entries.
-/

namespace Kanari.Proofs

open Lib BitTree HashFunctions

variable {H : Type} [DecidableEq H] (hf : HashFunctions H)

/-! ## Operations -/

inductive SmtOp (H : Type) where
  | insert (kvs : List (Bytes × Bytes))
  | delete (keys : List Bytes)
  | applyChangesWithRoot (updates : List (Bytes × Bytes)) (deletes : List Bytes) (root : H)
  | applyChangesWithPrecomputedOverlay (updates : List (Bytes × Bytes)) (deletes : List Bytes)
      (root : H) (overlay : NodeOverlay H)
  | rebuild (entries : List (Bytes × Bytes))
  | reopen
  | ensureNodeIndex

namespace SmtOp

def run (t : SparseMerkleTree H) : SmtOp H → SparseMerkleTree H × Except String Unit
  | insert kvs => (hf.insert t kvs, .ok ())
  | delete keys => (hf.delete t keys, .ok ())
  | applyChangesWithRoot updates deletes root => hf.applyChangesWithRoot t updates deletes root
  | applyChangesWithPrecomputedOverlay updates deletes root overlay =>
    hf.applyChangesWithPrecomputedOverlay t updates deletes root overlay
  | rebuild entries => (hf.rebuild t entries, .ok ())
  | reopen => (HashFunctions.new t.db, .ok ())
  | ensureNodeIndex => (hf.ensureNodeIndex t, .ok ())

def updates : SmtOp H → List (Bytes × Bytes)
  | insert kvs => kvs
  | applyChangesWithRoot updates _ _ => updates
  | applyChangesWithPrecomputedOverlay updates _ _ _ => updates
  | rebuild entries => entries
  | _ => []

def deletes : SmtOp H → List Bytes
  | delete keys => keys
  | applyChangesWithRoot _ deletes _ => deletes
  | applyChangesWithPrecomputedOverlay _ deletes _ _ => deletes
  | _ => []

end SmtOp

def liveAfter (live updates : List (Bytes × Bytes)) (deletes : List Bytes) : List (Bytes × Bytes) :=
  live.filter (fun e => decide (e.1 ∉ deletes ∧ e.1 ∉ updates.map (·.1))) ++ updates

def SmtOp.live (live : List (Bytes × Bytes)) : SmtOp H → List (Bytes × Bytes)
  | .rebuild entries => entries
  | op => liveAfter live op.updates op.deletes

/-- Keys from `K`, pairwise distinct, and no key both updated and deleted. -/
structure Batch (K : Set Bytes) (updates : List (Bytes × Bytes)) (deletes : List Bytes) : Prop where
  updates_mem : ∀ e ∈ updates, e.1 ∈ K
  deletes_mem : ∀ k ∈ deletes, k ∈ K
  updates_nodup : (updates.map (·.1)).Nodup
  deletes_nodup : deletes.Nodup
  disjoint : ∀ k ∈ deletes, k ∉ updates.map (·.1)

/-- A precomputed overlay is the one computed for the same changes on the tree as it is. -/
def PrecomputedFor (t : SparseMerkleTree H) : SmtOp H → Prop
  | .applyChangesWithPrecomputedOverlay updates deletes _ overlay =>
    overlay = (hf.rootHashWithChangesAndOverlay t updates deletes).2.2
  | _ => True

/-- The trees that operations with keys from `K` lead to, with their live entries. An operation
that reports an error leaves the entries as they were. -/
inductive SmtRun (K : Set Bytes) : SparseMerkleTree H → List (Bytes × Bytes) → Prop
  | fresh : SmtRun K (HashFunctions.new {}) []
  | done {t : SparseMerkleTree H} {live : List (Bytes × Bytes)} {op : SmtOp H} :
      SmtRun K t live → Batch K op.updates op.deletes → PrecomputedFor hf t op →
      (op.run hf t).2 = .ok () → SmtRun K (op.run hf t).1 (op.live live)
  | failed {t : SparseMerkleTree H} {live : List (Bytes × Bytes)} {op : SmtOp H} {e : String} :
      SmtRun K t live → Batch K op.updates op.deletes → PrecomputedFor hf t op →
      (op.run hf t).2 = .error e → SmtRun K (op.run hf t).1 live

/-! ## Changes as one list -/

def changeList (updates : List (Bytes × Bytes)) (deletes : List Bytes) :
    List (KeyHash × Option Bytes) :=
  deletes.map (fun k => (hf.digest k, none)) ++ updates.map fun e => (hf.digest e.1, some e.2)

def SeparatedKeys (K : Set Bytes) : Prop :=
  ∀ a ∈ K, ∀ b ∈ K, nodeKey (hf.digest a) 255 = nodeKey (hf.digest b) 255 → a = b

section batches

omit [DecidableEq H]

variable {hf} {K : Set Bytes} {updates : List (Bytes × Bytes)} {deletes : List Bytes}

lemma SeparatedKeys.digest_inj (hK : SeparatedKeys hf K) {a b : Bytes} (ha : a ∈ K) (hb : b ∈ K)
    (h : hf.digest a = hf.digest b) : a = b := hK a ha b hb (by rw [h])

lemma SeparatedKeys.separated (hK : SeparatedKeys hf K) : Separated (hf.digest '' K) := by
  rintro _ ⟨a, ha, rfl⟩ _ ⟨b, hb, rfl⟩ h
  rw [hK a ha b hb h]

lemma mem_changeList {kh : KeyHash} {c : Option Bytes} :
    (kh, c) ∈ changeList hf updates deletes ↔
      (∃ k ∈ deletes, hf.digest k = kh ∧ c = none) ∨
        ∃ k v, (k, v) ∈ updates ∧ hf.digest k = kh ∧ c = some v := by
  unfold changeList
  rw [List.mem_append, List.mem_map, List.mem_map]
  constructor
  · rintro (⟨k, hk, heq⟩ | ⟨e, he, heq⟩)
    · cases heq
      exact Or.inl ⟨k, hk, rfl, rfl⟩
    · cases heq
      exact Or.inr ⟨e.1, e.2, he, rfl, rfl⟩
  · rintro (⟨k, hk, rfl, rfl⟩ | ⟨k, v, he, rfl, rfl⟩)
    · exact Or.inl ⟨k, hk, rfl⟩
    · exact Or.inr ⟨(k, v), he, rfl⟩

lemma Batch.mem_updates_key (hb : Batch K updates deletes) {k : Bytes}
    (h : k ∈ updates.map (·.1)) : k ∈ K := by
  obtain ⟨e, he, rfl⟩ := List.mem_map.mp h
  exact hb.updates_mem e he

lemma Batch.value_unique (hb : Batch K updates deletes) {k v w : Bytes} (hv : (k, v) ∈ updates)
    (hw : (k, w) ∈ updates) : v = w := by
  have := List.inj_on_of_nodup_map hb.updates_nodup hv hw rfl
  exact congrArg Prod.snd this

lemma changeList_oneEach (hK : SeparatedKeys hf K) (hb : Batch K updates deletes) :
    OneEach (changeList hf updates deletes) := by
  intro kh c c' h h'
  rcases mem_changeList.mp h with ⟨k, hk, hkh, rfl⟩ | ⟨k, v, hv, hkh, rfl⟩
  · rcases mem_changeList.mp h' with ⟨k', hk', hkh', rfl⟩ | ⟨k', v', hv', hkh', rfl⟩
    · rfl
    · have heq := hK.digest_inj (hb.deletes_mem k hk) (hb.updates_mem _ hv') (hkh.trans hkh'.symm)
      exact absurd (List.mem_map.mpr ⟨_, hv', heq.symm⟩) (hb.disjoint k hk)
  · rcases mem_changeList.mp h' with ⟨k', hk', hkh', rfl⟩ | ⟨k', v', hv', hkh', rfl⟩
    · have heq := hK.digest_inj (hb.deletes_mem k' hk') (hb.updates_mem _ hv) (hkh'.trans hkh.symm)
      exact absurd (List.mem_map.mpr ⟨_, hv, heq.symm⟩) (hb.disjoint k' hk')
    · have heq : k' = k := hK.digest_inj (hb.updates_mem _ hv') (hb.updates_mem _ hv)
        (hkh'.trans hkh.symm)
      rw [hb.value_unique hv (heq ▸ hv')]

lemma changeList_keys (hb : Batch K updates deletes) :
    ∀ c ∈ changeList hf updates deletes, c.1 ∈ hf.digest '' K := by
  rintro ⟨kh, c⟩ hc
  rcases mem_changeList.mp hc with ⟨k, hk, rfl, _⟩ | ⟨k, v, hv, rfl, _⟩
  · exact ⟨k, hb.deletes_mem k hk, rfl⟩
  · exact ⟨k, hb.updates_mem _ hv, rfl⟩

lemma mem_changesOf (hone : OneEach (changeList hf updates deletes)) (c : KeyHash × Option Bytes) :
    c ∈ (hf.changesOf updates deletes).entries ↔ c ∈ changeList hf updates deletes := by
  have hfold : hf.changesOf updates deletes = (changeList hf updates deletes).foldl
      (fun m e => m.insert e.1 e.2) .empty := by
    unfold changesOf changeList
    rw [List.foldl_append, List.foldl_map, List.foldl_map]
  obtain ⟨kh, v⟩ := c
  rw [OrdMap.mem_entries, hfold]
  rcases OrdMap.find?_foldl_insert .empty (changeList hf updates deletes) kh with ⟨hfind, hfree⟩ | ⟨w, hw, hfind⟩
  · rw [hfind, OrdMap.find?_empty]
    exact ⟨fun h => absurd h (Option.some_ne_none v).symm, fun h => absurd rfl (hfree _ h)⟩
  · rw [hfind, Option.some.injEq]
    constructor
    · rintro rfl
      exact hw
    · intro h
      exact hone kh w v hw h

/-! ## Sorting a batch -/

lemma dedupFrom_eq {α : Type} {key : α → KeyHash} {previous : KeyHash} {l : List α}
    (h : (previous :: l.map key).Nodup) : dedupFrom key previous l = l := by
  induction l generalizing previous with
  | nil => rfl
  | cons a l ih =>
    obtain ⟨hnot, htail⟩ := List.nodup_cons.mp h
    have hne : key a ≠ previous := fun heq => hnot (by rw [← heq]; exact List.mem_cons_self)
    rw [dedupFrom, if_neg hne, ih htail]

lemma mem_sortDedup {α : Type} {key : α → KeyHash} {l : List α} (h : (l.map key).Nodup) (a : α) :
    a ∈ sortDedup key l ↔ a ∈ l := by
  have hperm := List.perm_insertionSort (fun a b : α => key a ≤ key b) l
  have hsorted : ((l.insertionSort fun a b => key a ≤ key b).map key).Nodup :=
    (hperm.map key).nodup_iff.mpr h
  unfold sortDedup
  rw [← hperm.mem_iff]
  generalize l.insertionSort (fun a b => key a ≤ key b) = sorted at hsorted
  cases sorted with
  | nil => rfl
  | cons a rest => rw [dedupBy, dedupFrom_eq hsorted]

lemma mem_insert_changes (hK : SeparatedKeys hf K) (hb : Batch K updates [])
    (c : KeyHash × Option Bytes) :
    c ∈ (sortDedup (·.1) (updates.map fun e => (hf.digest e.1, e.2))).map
        (fun e => (e.1, some e.2)) ↔ c ∈ changeList hf updates [] := by
  have hnodup : ((updates.map fun e => (hf.digest e.1, e.2)).map (·.1)).Nodup := by
    rw [List.map_map]
    have hcomp : ((fun x : KeyHash × Bytes => x.1) ∘ fun e : Bytes × Bytes => (hf.digest e.1, e.2)) =
        hf.digest ∘ fun e : Bytes × Bytes => e.1 := rfl
    rw [hcomp, ← List.map_map]
    exact hb.updates_nodup.map_on fun a ha b hb' => hK.digest_inj (hb.mem_updates_key ha)
      (hb.mem_updates_key hb')
  rw [List.mem_map]
  simp only [mem_sortDedup hnodup, List.mem_map]
  obtain ⟨kh, v⟩ := c
  rw [mem_changeList]
  constructor
  · rintro ⟨_, ⟨e, he, rfl⟩, heq⟩
    cases heq
    exact Or.inr ⟨e.1, e.2, he, rfl, rfl⟩
  · rintro (⟨k, hk, _⟩ | ⟨k, v, hv, rfl, rfl⟩)
    · cases hk
    · exact ⟨_, ⟨(k, v), hv, rfl⟩, rfl⟩

lemma mem_delete_changes (hK : SeparatedKeys hf K) (hb : Batch K [] deletes)
    (c : KeyHash × Option Bytes) :
    c ∈ (sortDedup id (deletes.map hf.digest)).map (fun k => (k, none)) ↔
      c ∈ changeList hf [] deletes := by
  have hnodup : ((deletes.map hf.digest).map id).Nodup := by
    rw [List.map_id]
    exact hb.deletes_nodup.map_on fun a ha b hb' => hK.digest_inj (hb.deletes_mem a ha)
      (hb.deletes_mem b hb')
  rw [List.mem_map]
  simp only [mem_sortDedup hnodup, List.mem_map]
  obtain ⟨kh, v⟩ := c
  rw [mem_changeList]
  constructor
  · rintro ⟨_, ⟨k, hk, rfl⟩, heq⟩
    cases heq
    exact Or.inl ⟨k, hk, rfl, rfl⟩
  · rintro (⟨k, hk, rfl, rfl⟩ | ⟨k, v, hv, _⟩)
    · exact ⟨_, ⟨k, hk, rfl⟩, rfl⟩
    · cases hv

end batches

/-! ## The invariant -/

/-- Root and cache are those of the tree over the persisted data, whose digests are in `S`. -/
structure NodeIndexed (S : Set KeyHash) (t : SparseMerkleTree H) : Prop where
  keysIn : KeysIn t.db.data S
  root : t.db.root.getD (hf.defaultHash 0) = treeNode hf (leaves hf t.db.data) []
  cache : t.nodeCacheReady = true → RightBelow hf t.nodeCache (fun _ => none) t.db.data []

/-- The persisted data is that of the live entries, and root and cache are those of the tree
over it. -/
structure Consistent (K : Set Bytes) (t : SparseMerkleTree H) (live : List (Bytes × Bytes)) :
    Prop where
  keys : ∀ e ∈ live, e.1 ∈ K
  nodup : (live.map (·.1)).Nodup
  data : ∀ kh v, t.db.data.find? kh = some v ↔ ∃ k, (k, v) ∈ live ∧ hf.digest k = kh
  root : t.db.root.getD (hf.defaultHash 0) = treeNode hf (leaves hf t.db.data) []
  cache : t.nodeCacheReady = true → RightBelow hf t.nodeCache (fun _ => none) t.db.data []

variable {hf} {K : Set Bytes} {t : SparseMerkleTree H} {live updates : List (Bytes × Bytes)}
  {deletes : List Bytes}

omit [DecidableEq H] in
lemma Consistent.keysIn (h : Consistent hf K t live) : KeysIn t.db.data (hf.digest '' K) := by
  intro kh v hv
  obtain ⟨k, hk, rfl⟩ := (h.data kh v).mp hv
  exact ⟨k, h.keys _ hk, rfl⟩

omit [DecidableEq H] in
lemma Consistent.nodeIndexed (h : Consistent hf K t live) : NodeIndexed hf (hf.digest '' K) t :=
  ⟨h.keysIn, h.root, h.cache⟩

variable {S : Set KeyHash}

omit [DecidableEq H] in
lemma NodeIndexed.rootHash (h : NodeIndexed hf S t) :
    hf.rootHash t = treeNode hf (leaves hf t.db.data) [] := by
  unfold HashFunctions.rootHash
  by_cases hready : t.nodeCacheReady = true
  · rw [if_pos hready]
    exact (h.cache hready).root hf
  · rw [if_neg hready]
    exact h.root

omit [DecidableEq H] in
lemma Consistent.rootHash (h : Consistent hf K t live) :
    hf.rootHash t = treeNode hf (leaves hf t.db.data) [] := h.nodeIndexed.rootHash

omit [DecidableEq H] in
lemma data_after (hK : SeparatedKeys hf K) (h : Consistent hf K t live)
    (hb : Batch K updates deletes) (kh : KeyHash) (v : Bytes) :
    (writeLeaves t.db.data (changeList hf updates deletes)).find? kh = some v ↔
      ∃ k, (k, v) ∈ liveAfter live updates deletes ∧ hf.digest k = kh := by
  have hone := changeList_oneEach hK hb
  have hmem : ∀ k, (k, v) ∈ liveAfter live updates deletes ↔
      ((k, v) ∈ live ∧ k ∉ deletes ∧ k ∉ updates.map (·.1)) ∨ (k, v) ∈ updates := by
    intro k
    unfold liveAfter
    rw [List.mem_append, List.mem_filter, decide_eq_true_eq]
  by_cases hin : ∃ c, (kh, c) ∈ changeList hf updates deletes
  · obtain ⟨c, hc⟩ := hin
    rw [find?_writeLeaves hone hc]
    rcases mem_changeList.mp hc with ⟨k, hk, rfl, rfl⟩ | ⟨k, w, hw, rfl, rfl⟩
    · refine ⟨fun h => absurd h (Option.some_ne_none v).symm, ?_⟩
      rintro ⟨k', hk', hd⟩
      rcases (hmem k').mp hk' with ⟨hl, hnd, _⟩ | hup
      · have heq : k' = k := hK.digest_inj (h.keys _ hl) (hb.deletes_mem k hk) hd
        exact absurd (heq ▸ hk) hnd
      · have heq := hK.digest_inj (hb.updates_mem _ hup) (hb.deletes_mem k hk) hd
        exact absurd (List.mem_map.mpr ⟨_, hup, heq⟩) (hb.disjoint k hk)
    · rw [Option.some.injEq]
      constructor
      · rintro rfl
        exact ⟨k, (hmem k).mpr (Or.inr hw), rfl⟩
      · rintro ⟨k', hk', hd⟩
        rcases (hmem k').mp hk' with ⟨hl, _, hnu⟩ | hup
        · have heq := hK.digest_inj (h.keys _ hl) (hb.updates_mem _ hw) hd
          exact absurd (List.mem_map.mpr ⟨_, hw, heq.symm⟩) hnu
        · have heq : k' = k := hK.digest_inj (hb.updates_mem _ hup) (hb.updates_mem _ hw) hd
          exact hb.value_unique hw (heq ▸ hup)
  · have hfree : ∀ c ∈ changeList hf updates deletes, c.1 ≠ kh := by
      rintro ⟨kh', c⟩ hc rfl
      exact hin ⟨c, hc⟩
    rw [find?_writeLeaves_of_not_mem hfree, h.data kh v]
    constructor
    · rintro ⟨k, hk, rfl⟩
      refine ⟨k, (hmem k).mpr (Or.inl ⟨hk, ?_, ?_⟩), rfl⟩
      · intro hd
        exact hin ⟨none, mem_changeList.mpr (Or.inl ⟨k, hd, rfl, rfl⟩)⟩
      · intro hu
        obtain ⟨e, he, rfl⟩ := List.mem_map.mp hu
        exact hin ⟨some e.2, mem_changeList.mpr (Or.inr ⟨e.1, e.2, he, rfl, rfl⟩)⟩
    · rintro ⟨k, hk, rfl⟩
      rcases (hmem k).mp hk with ⟨hl, _⟩ | hup
      · exact ⟨k, hl, rfl⟩
      · exact absurd ⟨some v, mem_changeList.mpr (Or.inr ⟨k, v, hup, rfl, rfl⟩)⟩ hin

omit [DecidableEq H] in
lemma Consistent.commit (hK : SeparatedKeys hf K) (h : Consistent hf K t live)
    (hb : Batch K updates deletes) {overlay : NodeOverlay H}
    (hright : RightBelow hf t.nodeCache overlay
      (writeLeaves t.db.data (changeList hf updates deletes)) []) {root : H}
    (hroot : root = treeNode hf
      (leaves hf (writeLeaves t.db.data (changeList hf updates deletes))) []) :
    Consistent hf K (commit t (writeLeaves t.db.data (changeList hf updates deletes)) root overlay)
      (liveAfter live updates deletes) := by
  refine ⟨?_, ?_, data_after hK h hb, hroot, fun _ => hright.commit hf⟩
  · intro e he
    rcases List.mem_append.mp he with he | he
    · exact h.keys e (List.mem_filter.mp he).1
    · exact hb.updates_mem e he
  · unfold liveAfter
    rw [List.map_append]
    apply List.Nodup.append (h.nodup.sublist (List.filter_sublist.map _)) hb.updates_nodup
    intro k hk hk'
    obtain ⟨e, he, rfl⟩ := List.mem_map.mp hk
    have hcond := (List.mem_filter.mp he).2
    rw [decide_eq_true_eq] at hcond
    exact hcond.2 hk'

/-! ## Each operation keeps the invariant -/

lemma ensureNodeIndex_db (t : SparseMerkleTree H) : (hf.ensureNodeIndex t).db = t.db := by
  unfold HashFunctions.ensureNodeIndex
  split
  · rfl
  · rfl

lemma NodeIndexed.ensureNodeIndex_right (hS : Separated S) (h : NodeIndexed hf S t) :
    (hf.ensureNodeIndex t).nodeCacheReady = true ∧
      RightBelow hf (hf.ensureNodeIndex t).nodeCache (fun _ => none) t.db.data [] := by
  unfold HashFunctions.ensureNodeIndex
  by_cases hready : t.nodeCacheReady = true
  · rw [if_pos hready]
    exact ⟨hready, h.cache hready⟩
  · rw [if_neg hready]
    refine ⟨rfl, ?_⟩
    set entries := t.db.data.entries.map fun e => (e.1, some e.2) with hentries
    have hmem : ∀ kh v, (kh, v) ∈ entries ↔ ∃ w, v = some w ∧ t.db.data.find? kh = some w := by
      intro kh v
      rw [hentries, List.mem_map]
      constructor
      · rintro ⟨e, he, heq⟩
        cases heq
        exact ⟨e.2, rfl, OrdMap.mem_entries.mp he⟩
      · rintro ⟨w, rfl, hw⟩
        exact ⟨(kh, w), OrdMap.mem_entries.mpr hw, rfl⟩
    have hone : OneEach entries := by
      intro kh v v' hv hv'
      obtain ⟨w, rfl, hw⟩ := (hmem kh v).mp hv
      obtain ⟨w', rfl, hw'⟩ := (hmem kh v').mp hv'
      rw [← hw, ← hw']
    have hdata : writeLeaves OrdMap.empty entries = t.db.data := by
      apply OrdMap.ext
      intro kh
      cases hfind : t.db.data.find? kh with
      | some w => exact find?_writeLeaves hone ((hmem kh _).mpr ⟨w, rfl, hfind⟩) _
      | none =>
        apply find?_writeLeaves_of_not_mem
        rintro ⟨kh', v⟩ hc rfl
        obtain ⟨w, _, hw⟩ := (hmem kh' v).mp hc
        rw [hfind] at hw
        cases hw
    have hkeys : ∀ c ∈ entries, c.1 ∈ S := by
      rintro ⟨kh, v⟩ hc
      obtain ⟨w, _, hw⟩ := (hmem kh v).mp hc
      exact h.keysIn kh w hw
    have hstaged := stageChanges_right hf hS (m := OrdMap.empty)
      (fun k v hk => absurd hk (Option.some_ne_none v).symm) hkeys (rightBelow_empty hf)
    rw [hdata] at hstaged
    exact hstaged.commit hf

lemma ensureNodeIndex_right (hK : SeparatedKeys hf K) (h : Consistent hf K t live) :
    (hf.ensureNodeIndex t).nodeCacheReady = true ∧
      RightBelow hf (hf.ensureNodeIndex t).nodeCache (fun _ => none) t.db.data [] :=
  h.nodeIndexed.ensureNodeIndex_right hK.separated

lemma NodeIndexed.ensureNodeIndex (hS : Separated S) (h : NodeIndexed hf S t) :
    NodeIndexed hf S (hf.ensureNodeIndex t) := by
  obtain ⟨-, hright⟩ := h.ensureNodeIndex_right hS
  have hdb : (hf.ensureNodeIndex t).db = t.db := ensureNodeIndex_db t
  exact ⟨hdb ▸ h.keysIn, hdb ▸ h.root, fun _ => hdb ▸ hright⟩

lemma Consistent.ensureNodeIndex (hK : SeparatedKeys hf K) (h : Consistent hf K t live) :
    Consistent hf K (hf.ensureNodeIndex t) live := by
  obtain ⟨-, hroot, hcache⟩ := h.nodeIndexed.ensureNodeIndex hK.separated
  have hdb : (hf.ensureNodeIndex t).db = t.db := ensureNodeIndex_db t
  exact ⟨h.keys, h.nodup, hdb ▸ h.data, hroot, hcache⟩

lemma stageChanges_batch (hK : SeparatedKeys hf K) (h : Consistent hf K t live)
    (hb : Batch K updates deletes) {l : List (KeyHash × Option Bytes)}
    (hl : ∀ c, c ∈ l ↔ c ∈ changeList hf updates deletes) :
    RightBelow hf (hf.ensureNodeIndex t).nodeCache
      (hf.stageChanges (hf.ensureNodeIndex t).nodeCache l)
      (writeLeaves t.db.data (changeList hf updates deletes)) [] := by
  rw [writeLeaves_congr (changeList_oneEach hK hb) (fun c => (hl c).symm) t.db.data]
  exact stageChanges_right hf hK.separated h.keysIn
    (fun c hc => changeList_keys hb c ((hl c).mp hc)) (ensureNodeIndex_right hK h).2

lemma rootHashWithChangesAndOverlay_right (hK : SeparatedKeys hf K) (h : Consistent hf K t live)
    (hb : Batch K updates deletes) :
    let r := hf.rootHashWithChangesAndOverlay t updates deletes
    let next := writeLeaves t.db.data (changeList hf updates deletes)
    hf.ensureNodeIndex r.1 = hf.ensureNodeIndex t ∧ Consistent hf K r.1 live ∧
      r.2.1 = treeNode hf (leaves hf next) [] ∧
      RightBelow hf (hf.ensureNodeIndex t).nodeCache r.2.2 next [] := by
  intro r next
  obtain ⟨hready, hcache⟩ := ensureNodeIndex_right hK h
  have htwice : hf.ensureNodeIndex (hf.ensureNodeIndex t) = hf.ensureNodeIndex t := by
    rw [HashFunctions.ensureNodeIndex, if_pos hready]
  by_cases hempty : (updates.isEmpty && deletes.isEmpty) = true
  · have hr : r = (t, hf.rootHash t, fun _ => none) := if_pos hempty
    have hnext : next = t.db.data := by
      simp only [Bool.and_eq_true, List.isEmpty_iff] at hempty
      obtain ⟨rfl, rfl⟩ := hempty
      rfl
    rw [hr, hnext]
    exact ⟨rfl, h, h.rootHash, hcache⟩
  · have hone := changeList_oneEach hK hb
    have hmem := mem_changesOf hone
    by_cases hmany : 1024 ≤ (hf.changesOf updates deletes).entries.length
    · have hr : r = (hf.ensureNodeIndex t, hf.rootHashWithSortedChangesParallel
          (hf.ensureNodeIndex t).nodeCache (hf.changesOf updates deletes).entries) := by
        show hf.rootHashWithChangesAndOverlay t updates deletes = _
        unfold rootHashWithChangesAndOverlay
        rw [if_neg hempty]
        simp only [hmany, if_true]
      have hone' : OneEach (hf.changesOf updates deletes).entries := fun kh v v' hv hv' =>
        hone kh v v' ((hmem _).mp hv) ((hmem _).mp hv')
      have hright := parallel_right hf hK.separated h.keysIn hone'
        (fun c hc => changeList_keys hb c ((hmem c).mp hc)) hcache
      rw [writeLeaves_congr hone' hmem t.db.data] at hright
      rw [hr]
      exact ⟨htwice, h.ensureNodeIndex hK, (parallel_root hf _ _).trans (hright.root hf), hright⟩
    · have hr : r = (hf.ensureNodeIndex t, hf.nodeHashFromOverlay (hf.ensureNodeIndex t).nodeCache
          (hf.stageChanges (hf.ensureNodeIndex t).nodeCache (hf.changesOf updates deletes).entries)
            KeyHash.zero 0,
          hf.stageChanges (hf.ensureNodeIndex t).nodeCache (hf.changesOf updates deletes).entries) := by
        show hf.rootHashWithChangesAndOverlay t updates deletes = _
        unfold rootHashWithChangesAndOverlay
        rw [if_neg hempty]
        simp only [hmany, if_false]
      have hright := stageChanges_batch hK h hb hmem
      rw [hr]
      exact ⟨htwice, h.ensureNodeIndex hK, hright.root hf, hright⟩

/-- `t'` is `t` with a batch written to it. -/
structure Commits (hf : HashFunctions H) (K : Set Bytes) (t : SparseMerkleTree H)
    (live updates : List (Bytes × Bytes)) (deletes : List Bytes) (t' : SparseMerkleTree H) :
    Prop where
  consistent : Consistent hf K t' (liveAfter live updates deletes)
  data : t'.db.data = writeLeaves t.db.data (changeList hf updates deletes)

omit [DecidableEq H] in
lemma Commits.rootHash {t' : SparseMerkleTree H} (h : Commits hf K t live updates deletes t') :
    hf.rootHash t' =
      treeNode hf (leaves hf (writeLeaves t.db.data (changeList hf updates deletes))) [] := by
  rw [h.consistent.rootHash, h.data]

omit [DecidableEq H] in
lemma commits_nothing (h : Consistent hf K t live) : Commits hf K t live [] [] t := by
  have hlive : liveAfter live [] [] = live := by simp [liveAfter]
  exact ⟨hlive.symm ▸ h, rfl⟩

lemma commits_commit (hK : SeparatedKeys hf K) (h : Consistent hf K t live)
    (hb : Batch K updates deletes) {overlay : NodeOverlay H} {root : H}
    {data : OrdMap KeyHash Bytes}
    (hdata : data = writeLeaves t.db.data (changeList hf updates deletes))
    (hright : RightBelow hf (hf.ensureNodeIndex t).nodeCache overlay
      (writeLeaves t.db.data (changeList hf updates deletes)) [])
    (hroot : root = treeNode hf
      (leaves hf (writeLeaves t.db.data (changeList hf updates deletes))) []) :
    Commits hf K t live updates deletes (commit (hf.ensureNodeIndex t) data root overlay) := by
  have hdb : (hf.ensureNodeIndex t).db = t.db := ensureNodeIndex_db t
  rw [hdata, ← hdb]
  rw [← hdb] at hright hroot
  refine ⟨(h.ensureNodeIndex hK).commit hK hb hright hroot, ?_⟩
  rw [commit, hdb]

lemma commits_staged (hK : SeparatedKeys hf K) (h : Consistent hf K t live)
    (hb : Batch K updates deletes) {changes : List (KeyHash × Option Bytes)}
    (hmem : ∀ c, c ∈ changes ↔ c ∈ changeList hf updates deletes) :
    let t' := hf.ensureNodeIndex t
    let overlay := hf.stageChanges t'.nodeCache changes
    Commits hf K t live updates deletes (commit t' (writeLeaves t'.db.data changes)
      (hf.nodeHashFromOverlay t'.nodeCache overlay KeyHash.zero 0) overlay) := by
  have hright := stageChanges_batch hK h hb hmem
  apply commits_commit hK h hb _ hright (hright.root hf)
  rw [writeLeaves_congr (changeList_oneEach hK hb) (fun c => (hmem c).symm), ensureNodeIndex_db]

lemma insert_commits (hK : SeparatedKeys hf K) (h : Consistent hf K t live)
    (hb : Batch K updates []) : Commits hf K t live updates [] (hf.insert t updates) := by
  unfold HashFunctions.insert
  by_cases hempty : updates = []
  · subst hempty
    exact commits_nothing h
  · rw [if_neg (by simpa using hempty)]
    have hstaged := commits_staged hK h hb (mem_insert_changes hK hb)
    simp only [writeLeaves, List.foldl_map] at hstaged
    exact hstaged

lemma delete_commits (hK : SeparatedKeys hf K) (h : Consistent hf K t live)
    (hb : Batch K [] deletes) : Commits hf K t live [] deletes (hf.delete t deletes) := by
  unfold HashFunctions.delete
  by_cases hempty : deletes = []
  · subst hempty
    exact commits_nothing h
  · rw [if_neg (by simpa using hempty)]
    have hstaged := commits_staged hK h hb (mem_delete_changes hK hb)
    simp only [writeLeaves, List.foldl_map] at hstaged
    exact hstaged

omit [DecidableEq H] in
lemma writeChanges_eq (data : OrdMap KeyHash Bytes) (updates : List (Bytes × Bytes))
    (deletes : List Bytes) :
    hf.writeChanges data updates deletes = writeLeaves data (changeList hf updates deletes) := by
  unfold writeChanges writeLeaves changeList
  rw [List.foldl_append, List.foldl_map, List.foldl_map]
  rfl

/-- The root given by the caller is checked against the incremental one. -/
lemma applyChangesWithRoot_spec (hK : SeparatedKeys hf K) (h : Consistent hf K t live)
    (hb : Batch K updates deletes) (root : H) :
    let r := hf.applyChangesWithRoot t updates deletes root
    if treeNode hf (leaves hf (writeLeaves t.db.data (changeList hf updates deletes))) [] = root then
      r.2 = .ok () ∧ Commits hf K t live updates deletes r.1
    else (∃ e, r.2 = .error e) ∧ Consistent hf K r.1 live := by
  have hright := stageChanges_batch hK h hb (mem_changesOf (changeList_oneEach hK hb))
  have hroot := hright.root hf
  unfold applyChangesWithRoot
  simp only [hroot]
  by_cases heq : treeNode hf
      (leaves hf (writeLeaves t.db.data (changeList hf updates deletes))) [] = root
  · rw [if_pos heq, if_pos heq]
    refine ⟨rfl, commits_commit hK h hb ?_ hright heq.symm⟩
    rw [writeChanges_eq, ensureNodeIndex_db]
  · rw [if_neg heq, if_neg heq]
    exact ⟨⟨_, rfl⟩, h.ensureNodeIndex hK⟩

lemma applyChangesWithPrecomputedOverlay_spec (hK : SeparatedKeys hf K) (h : Consistent hf K t live)
    (hb : Batch K updates deletes) (root : H) {overlay : NodeOverlay H}
    (hright : RightBelow hf (hf.ensureNodeIndex t).nodeCache overlay
      (writeLeaves t.db.data (changeList hf updates deletes)) []) :
    let r := hf.applyChangesWithPrecomputedOverlay t updates deletes root overlay
    if treeNode hf (leaves hf (writeLeaves t.db.data (changeList hf updates deletes))) [] = root then
      r.2 = .ok () ∧ Commits hf K t live updates deletes r.1
    else (∃ e, r.2 = .error e) ∧ Consistent hf K r.1 live := by
  have hshown : ((overlay []).map (·.getD (hf.defaultHash 0))).getD (hf.rootHash t) =
      treeNode hf (leaves hf (writeLeaves t.db.data (changeList hf updates deletes))) [] := by
    have hbranch := hright.branch [] List.prefix_rfl (by simp)
    rw [← hbranch]
    cases hcase : overlay [] with
    | some x =>
      unfold nodeValue
      rw [hcase]
      rfl
    | none =>
      -- the overlay leaves the root alone, so the new root is the one the cache has
      have hold := (ensureNodeIndex_right hK h).2.branch [] List.prefix_rfl (by simp)
      rw [Option.map_none, Option.getD_none, h.rootHash, ← hold]
      exact nodeValue_congr hf _ hcase.symm
  unfold applyChangesWithPrecomputedOverlay
  simp only [hshown]
  by_cases heq : treeNode hf
      (leaves hf (writeLeaves t.db.data (changeList hf updates deletes))) [] = root
  · rw [if_pos heq, if_pos heq]
    refine ⟨rfl, commits_commit hK h hb ?_ hright heq.symm⟩
    rw [writeChanges_eq, ensureNodeIndex_db]
  · rw [if_neg heq, if_neg heq]
    exact ⟨⟨_, rfl⟩, h⟩

omit [DecidableEq H] in
lemma consistent_empty (K : Set Bytes) (t : SparseMerkleTree H) (hdata : t.db.data = .empty)
    (hroot : t.db.root.getD (hf.defaultHash 0) = hf.defaultHash 0)
    (hcache : t.nodeCache = fun _ => none) : Consistent hf K t [] := by
  have hempty : treeNode hf (leaves hf OrdMap.empty) [] = hf.defaultHash 0 :=
    treeNode_of_no_entries hf (Nat.zero_le _) fun k v =>
      ⟨fun h => absurd h List.not_mem_nil, fun h => absurd h.2 (Option.some_ne_none v).symm⟩
  refine ⟨fun e he => absurd he List.not_mem_nil, List.nodup_nil, ?_, ?_, ?_⟩
  · intro kh v
    rw [hdata]
    exact ⟨fun h => absurd h (Option.some_ne_none v).symm,
      fun ⟨k, hk, _⟩ => absurd hk List.not_mem_nil⟩
  · rw [hroot, hdata, hempty]
  · intro _
    rw [hdata, hcache]
    exact rightBelow_empty hf

lemma rebuild_consistent (hK : SeparatedKeys hf K) (t : SparseMerkleTree H)
    (hb : Batch K updates []) : Consistent hf K (hf.rebuild t updates) updates := by
  unfold HashFunctions.rebuild
  by_cases hempty : updates = []
  · subst hempty
    exact consistent_empty K _ rfl rfl rfl
  · simp only [List.isEmpty_iff, hempty, if_false]
    have hcleared : Consistent hf K (⟨⟨.empty, none⟩, fun _ => none, false⟩ : SparseMerkleTree H) [] :=
      consistent_empty K _ rfl rfl rfl
    exact (insert_commits hK hcleared hb).consistent

lemma consistent_of_checked {root : H} {r : SparseMerkleTree H × Except String Unit}
    (hspec : if treeNode hf
        (leaves hf (writeLeaves t.db.data (changeList hf updates deletes))) [] = root then
      r.2 = .ok () ∧ Commits hf K t live updates deletes r.1
    else (∃ e, r.2 = .error e) ∧ Consistent hf K r.1 live) :
    (r.2 = .ok () → Consistent hf K r.1 (liveAfter live updates deletes)) ∧
      ∀ e, r.2 = .error e → Consistent hf K r.1 live := by
  split at hspec
  · refine ⟨fun _ => hspec.2.consistent, ?_⟩
    intro e he
    cases hspec.1.symm.trans he
  · obtain ⟨⟨e, he⟩, hkept⟩ := hspec
    refine ⟨?_, fun _ _ => hkept⟩
    intro hok
    cases he.symm.trans hok

lemma step_consistent (hK : SeparatedKeys hf K) {op : SmtOp H} (h : Consistent hf K t live)
    (hb : Batch K op.updates op.deletes) (hpre : PrecomputedFor hf t op) :
    ((op.run hf t).2 = .ok () → Consistent hf K (op.run hf t).1 (op.live live)) ∧
      ∀ e, (op.run hf t).2 = .error e → Consistent hf K (op.run hf t).1 live := by
  cases op with
  | insert kvs => exact ⟨fun _ => (insert_commits hK h hb).consistent, fun e he => nomatch he⟩
  | delete keys => exact ⟨fun _ => (delete_commits hK h hb).consistent, fun e he => nomatch he⟩
  | applyChangesWithRoot updates deletes root =>
    exact consistent_of_checked (applyChangesWithRoot_spec hK h hb root)
  | applyChangesWithPrecomputedOverlay updates deletes root overlay =>
    obtain rfl : overlay = _ := hpre
    have hright := (rootHashWithChangesAndOverlay_right hK h hb).2.2.2
    exact consistent_of_checked (applyChangesWithPrecomputedOverlay_spec hK h hb root hright)
  | rebuild entries => exact ⟨fun _ => rebuild_consistent hK t hb, fun e he => nomatch he⟩
  | reopen =>
    have hnew : Consistent hf K (HashFunctions.new t.db) live :=
      ⟨h.keys, h.nodup, h.data, h.root, fun hready => nomatch hready⟩
    exact ⟨fun _ => (commits_nothing hnew).consistent, fun e he => nomatch he⟩
  | ensureNodeIndex =>
    exact ⟨fun _ => (commits_nothing (h.ensureNodeIndex hK)).consistent, fun e he => nomatch he⟩

/-- Every run keeps the invariant. -/
lemma SmtRun.consistent (hK : SeparatedKeys hf K) (h : SmtRun hf K t live) :
    Consistent hf K t live := by
  induction h with
  | fresh => exact consistent_empty K _ rfl rfl rfl
  | done _ hb hpre hok ih => exact (step_consistent hK ih hb hpre).1 hok
  | failed _ hb hpre herr ih => exact (step_consistent hK ih hb hpre).2 _ herr

/-! ## The roots agree -/

omit [DecidableEq H] in
lemma Consistent.reference (hK : SeparatedKeys hf K) (h : Consistent hf K t live)
    {entries : List (Bytes × Bytes)} (hperm : entries.Perm live) :
    hf.computeSparseRoot entries = treeNode hf (leaves hf t.db.data) [] := by
  apply computeSparseRoot_eq
  · intro kh v
    rw [h.data kh v, List.mem_map]
    constructor
    · rintro ⟨e, he, heq⟩
      cases heq
      exact ⟨List.nil_prefix, e.1, hperm.mem_iff.mp he, rfl⟩
    · rintro ⟨_, k, hk, rfl⟩
      exact ⟨(k, v), hperm.mem_iff.mpr hk, rfl⟩
  · have hnodup : (entries.map (·.1)).Nodup := (hperm.map _).nodup_iff.mpr h.nodup
    have hcomp : (entries.map fun e => hf.digest e.1) = (entries.map (·.1)).map hf.digest := by
      rw [List.map_map]
      rfl
    have hin : ∀ k ∈ entries.map (·.1), k ∈ K := by
      intro k hk
      obtain ⟨e, he, rfl⟩ := List.mem_map.mp hk
      exact h.keys e (hperm.mem_iff.mp he)
    rw [hcomp]
    exact hnodup.map_on fun a ha b hb => hK.digest_inj (hin a ha) (hin b hb)

omit [DecidableEq H] in
lemma Consistent.get (hK : SeparatedKeys hf K) (h : Consistent hf K t live) {k : Bytes}
    (hk : k ∈ K) (v : Bytes) : hf.get t k = some v ↔ (k, v) ∈ live := by
  unfold HashFunctions.get
  rw [h.data]
  constructor
  · rintro ⟨k', hk', hd⟩
    exact hK.digest_inj (h.keys _ hk') hk hd ▸ hk'
  · intro hl
    exact ⟨k, hl, rfl⟩

/-- After every run over keys whose digests differ within their first 255 bits: the root is the
reference root of the live entries, `get` returns the live values, and the root computed ahead
for a batch is the root observed after committing it, whichever way it is committed. -/
theorem incremental_root_eq_reference (hK : SeparatedKeys hf K) (h : SmtRun hf K t live) :
    (∀ entries, entries.Perm live → hf.rootHash t = hf.computeSparseRoot entries) ∧
      (∀ k ∈ K, ∀ v, hf.get t k = some v ↔ (k, v) ∈ live) ∧
      ∀ updates deletes, Batch K updates deletes →
        let r := hf.rootHashWithChangesAndOverlay t updates deletes
        let checked := hf.applyChangesWithRoot r.1 updates deletes r.2.1
        let precomputed :=
          hf.applyChangesWithPrecomputedOverlay r.1 updates deletes r.2.1 r.2.2
        (checked.2 = .ok () ∧ hf.rootHash checked.1 = r.2.1) ∧
          (precomputed.2 = .ok () ∧ hf.rootHash precomputed.1 = r.2.1) ∧
          (deletes = [] → hf.rootHash (hf.insert r.1 updates) = r.2.1) ∧
          (updates = [] → hf.rootHash (hf.delete r.1 deletes) = r.2.1) := by
  have hc := h.consistent hK
  refine ⟨?_, fun k hk v => hc.get hK hk v, ?_⟩
  · intro entries hperm
    rw [hc.rootHash, hc.reference hK hperm]
  · intro updates deletes hb r checked precomputed
    obtain ⟨hindex, hr, hroot, hright⟩ := rootHashWithChangesAndOverlay_right hK hc hb
    have hdata : r.1.db.data = t.db.data := by
      have := congrArg (fun t : SparseMerkleTree H => t.db.data) hindex
      simpa only [ensureNodeIndex_db] using this
    rw [← hindex, ← hdata] at hright
    rw [← hdata] at hroot
    refine ⟨?_, ?_, ?_, ?_⟩
    · have hspec := applyChangesWithRoot_spec hK hr hb r.2.1
      rw [if_pos hroot.symm] at hspec
      exact ⟨hspec.1, hspec.2.rootHash.trans hroot.symm⟩
    · have hspec := applyChangesWithPrecomputedOverlay_spec hK hr hb r.2.1 hright
      rw [if_pos hroot.symm] at hspec
      exact ⟨hspec.1, hspec.2.rootHash.trans hroot.symm⟩
    · rintro rfl
      exact (insert_commits hK hr hb).rootHash.trans hroot.symm
    · rintro rfl
      exact (delete_commits hK hr hb).rootHash.trans hroot.symm

/-! ## Neighbours below one node of depth 255 -/

lemma orHashes_separated : SeparatedKeys orHashes {[], [2]} := by
  rintro a (rfl | rfl) b (rfl | rfl) h
  · rfl
  · exact absurd h (by decide +kernel)
  · exact absurd h (by decide +kernel)
  · rfl

lemma single_run {K : Set Bytes} {k v : Bytes} (hk : k ∈ K) :
    SmtRun hf K (hf.insert (HashFunctions.new {}) [(k, v)]) [(k, v)] := by
  show SmtRun hf K ((SmtOp.insert [(k, v)]).run hf (HashFunctions.new {})).1
    ((SmtOp.insert [(k, v)] : SmtOp H).live [])
  refine SmtRun.done SmtRun.fresh ?_ trivial rfl
  refine ⟨?_, fun _ h => absurd h List.not_mem_nil, ?_, List.nodup_nil,
    fun _ h => absurd h List.not_mem_nil⟩
  · rintro e he
    rw [List.mem_singleton.mp he]
    exact hk
  · exact List.nodup_singleton k

variable (hf) in
def reopened (a b v w : Bytes) : SparseMerkleTree H :=
  HashFunctions.new (hf.delete (hf.insert (HashFunctions.new {}) [(a, v), (b, w)]) [a]).db

lemma reopened_run {K : Set Bytes} {a b : Bytes} (ha : a ∈ K) (hb : b ∈ K) (hne : a ≠ b) (v w : Bytes) :
    SmtRun hf K (reopened hf a b v w) [(b, w)] := by
  have hinsert : SmtRun hf K ((SmtOp.insert [(a, v), (b, w)]).run hf (HashFunctions.new {})).1
      ((SmtOp.insert [(a, v), (b, w)] : SmtOp H).live []) :=
    .done .fresh (by constructor <;> simp [SmtOp.updates, SmtOp.deletes, ha, hb, hne]) trivial rfl
  have hdelete : SmtRun hf K ((SmtOp.delete [a]).run hf _).1 ((SmtOp.delete [a] : SmtOp H).live _) :=
    .done hinsert (by constructor <;> simp [SmtOp.updates, SmtOp.deletes, ha]) trivial rfl
  have hreopen : SmtRun hf K (SmtOp.reopen.run hf _).1 ((SmtOp.reopen : SmtOp H).live _) :=
    .done hdelete (by constructor <;> simp [SmtOp.updates, SmtOp.deletes]) trivial rfl
  have hlive : (SmtOp.reopen : SmtOp H).live ((SmtOp.delete [a] : SmtOp H).live
      ((SmtOp.insert [(a, v), (b, w)] : SmtOp H).live [])) = [(b, w)] := by
    simp [SmtOp.live, liveAfter, SmtOp.updates, SmtOp.deletes, hne.symm]
  rw [hlive] at hreopen
  exact hreopen

theorem incremental_root_after_reopen :
    SeparatedKeys orHashes {[], [2]} ∧
      SmtRun orHashes {[], [2]} (reopened orHashes [] [2] [7] [7]) [([2], [7])] ∧
      orHashes.rootHash (reopened orHashes [] [2] [7] [7]) = orHashes.computeSparseRoot [([2], [7])] := by
  have hrun : SmtRun orHashes {[], [2]} (reopened orHashes [] [2] [7] [7]) [([2], [7])] :=
    reopened_run (by simp) (by simp) (by decide) _ _
  exact ⟨orHashes_separated, hrun,
    (incremental_root_eq_reference orHashes_separated hrun).1 _ (List.Perm.refl _)⟩

lemma stageChanges_one (cache : NodeCache H) (c : KeyHash × Option Bytes) :
    hf.stageChanges cache [c] =
      (hf.stagePath cache c.1 0 256 (fun _ => none) (hf.leafHash c.1 c.2)).1 := by
  unfold stageChanges stageLeafNodeUpdate stageNodeUpdateFromDepth
  rw [List.foldl_cons, List.foldl_nil, if_neg (by norm_num)]

omit [DecidableEq H] in
lemma rootHash_commit (hready : t.nodeCacheReady = true) (data : OrdMap KeyHash Bytes) (root : H)
    (overlay : NodeOverlay H) : hf.rootHash (commit t data root overlay) =
      hf.nodeHashFromOverlay t.nodeCache overlay KeyHash.zero 0 := by
  unfold HashFunctions.rootHash commit nodeHashFromOverlay nodeHashFromCache applyNodeOverlayToCache
  rw [if_pos hready]
  cases hcase : overlay (nodeKey KeyHash.zero 0) with
  | none => simp [hcase]
  | some value => simp [hcase]

/-- Deleting a key that was never there takes its neighbour out of the tree: the path is
recomputed from an absent leaf, with a sibling that no node stands for. -/
lemma rootHash_delete_neighbour (a b v : Bytes)
    (h : nodeKey (hf.digest a) 255 = nodeKey (hf.digest b) 255) :
    hf.rootHash (hf.delete (hf.insert (HashFunctions.new {}) [(a, v)]) [b]) = hf.defaultHash 0 := by
  have hK : SeparatedKeys hf {a} := by
    rintro x rfl y rfl _
    rfl
  have hrun : SmtRun hf {a} (hf.insert (HashFunctions.new {}) [(a, v)]) [(a, v)] :=
    single_run (Set.mem_singleton a)
  have hc := hrun.consistent hK
  obtain ⟨hready, hright⟩ := ensureNodeIndex_right hK hc
  set t := hf.insert (HashFunctions.new {}) [(a, v)] with ht
  set cache := (hf.ensureNodeIndex t).nodeCache with hcache
  set k := hf.digest b with hk
  have honly : ∀ kh w, t.db.data.find? kh = some w → kh = hf.digest a := by
    intro kh w hw
    obtain ⟨k', hk', rfl⟩ := (hc.data kh w).mp hw
    cases List.mem_singleton.mp hk'
    rfl
  have hpath : PathStaged hf cache (fun _ => hf.defaultLeaf) k 0 256 (fun _ => none)
      (hf.stagePath cache k 0 256 (fun _ => none) (hf.defaultHash 256)) := by
    apply stagePath_staged hf (Nat.le_refl _)
    · rw [treeNode_leaf hf _ (length_take_bits k (Nat.le_refl _)), defaultHash_leaf]
    · intro d _ hd
      have hd' : d < 256 := by omega
      have hlen := length_siblingKey k hd'
      rw [treeNode_empty hf (by omega) fun _ _ => rfl, hlen]
      by_cases hleaf : d = 255
      · subst hleaf
        rw [hright.leafLevel _ hlen]
        rfl
      · rw [hright.branch _ List.nil_prefix (by omega), ← hlen]
        apply treeNode_of_no_entries hf (by omega)
        intro kh w
        refine ⟨fun h => absurd h List.not_mem_nil, ?_⟩
        rintro ⟨hbelow, hfind⟩
        rw [honly kh w hfind] at hbelow
        have hshared : (hf.digest a).bits.take (d + 1) = k.bits.take (d + 1) := by
          have := congrArg (List.take (d + 1)) h
          unfold nodeKey at this
          rwa [List.take_take, List.take_take, min_eq_left (by omega)] at this
        have heq := List.prefix_iff_eq_take.mp hbelow
        rw [hlen, hshared] at heq
        exact absurd heq (siblingKey_ne_take k hd' (d + 1))
  have hstaged := hpath.staged 0 (Nat.le_refl _) (by norm_num)
  rw [List.take_zero, treeNode_empty hf (Nat.zero_le _) fun _ _ => rfl] at hstaged
  have hdelete : hf.delete t [b] = commit (hf.ensureNodeIndex t) ((hf.ensureNodeIndex t).db.data.erase k)
      (hf.nodeHashFromOverlay cache (hf.stageChanges cache [(k, none)]) KeyHash.zero 0)
      (hf.stageChanges cache [(k, none)]) := rfl
  rw [hdelete, rootHash_commit hready, nodeHashFromOverlay_eq hf _ _ KeyHash.zero (Nat.zero_le _),
    stageChanges_one]
  exact hstaged

lemma emptyRoot_or (n : Nat) : emptyRoot or false n = false := by
  induction n with
  | zero => rfl
  | succ n ih => rw [emptyRoot, ih]; rfl

lemma singleEntryRoot_or (kh : KeyHash) (height : Nat) :
    orHashes.singleEntryRoot kh [7] height = true := by
  induction height with
  | zero => rfl
  | succ height ih =>
    have hstep : orHashes.singleEntryRoot kh [7] (height + 1) =
        join or (kh.bit (256 - height)) (orHashes.singleEntryRoot kh [7] height)
          (orHashes.defaultHash (256 - height)) := by
      unfold singleEntryRoot
      rw [List.range_succ, List.foldl_append]
      rfl
    rw [hstep, ih]
    cases kh.bit (256 - height) <;> simp [join]

/-- The digests of `[]` and `[1]` differ, and only `[]` is ever live. The root after the deletion
of the absent `[1]` is still not the reference root of the live entry. -/
theorem incremental_root_loses_neighbour :
    Set.InjOn orHashes.digest {[], [1]} ∧
      SmtRun orHashes {[], [1]} (orHashes.insert (HashFunctions.new {}) [([], [7])]) [([], [7])] ∧
      SmtRun orHashes {[], [1]}
        (orHashes.delete (orHashes.insert (HashFunctions.new {}) [([], [7])]) [[1]]) [([], [7])] ∧
      orHashes.rootHash
          (orHashes.delete (orHashes.insert (HashFunctions.new {}) [([], [7])]) [[1]]) ≠
        orHashes.computeSparseRoot [([], [7])] := by
  have hinsert : SmtRun orHashes {[], [1]}
      (orHashes.insert (HashFunctions.new {}) [([], [7])]) [([], [7])] :=
    single_run (Set.mem_insert _ _)
  refine ⟨?_, hinsert, ?_, ?_⟩
  · rintro a (rfl | rfl) b (rfl | rfl) h
    · rfl
    · exact absurd (congrArg KeyHash.bits h) (by decide +kernel)
    · exact absurd (congrArg KeyHash.bits h) (by decide +kernel)
    · rfl
  · have hbatch : Batch {[], [1]} [] ([[1]] : List Bytes) := by
      refine ⟨fun _ h => absurd h List.not_mem_nil, ?_, List.nodup_nil, List.nodup_singleton _,
        fun _ _ => List.not_mem_nil⟩
      intro k hk
      rw [List.mem_singleton.mp hk]
      exact Set.mem_insert_of_mem _ rfl
    have hlive : liveAfter [([], [7])] [] ([[1]] : List Bytes) = [([], [7])] := by decide
    have hrun := SmtRun.done hinsert (show Batch _ (SmtOp.delete [[1]] : SmtOp Bool).updates
      (SmtOp.delete [[1]] : SmtOp Bool).deletes from hbatch) trivial rfl
    rw [← hlive]
    exact hrun
  · have hshared : nodeKey (orHashes.digest []) 255 = nodeKey (orHashes.digest [1]) 255 := by
      decide +kernel
    have hdeleted := rootHash_delete_neighbour [] [1] [7] hshared
    have hkept : orHashes.computeSparseRoot [([], [7])] = true :=
      singleEntryRoot_or (orHashes.digest []) 256
    have hdefault : orHashes.defaultHash 0 = false := emptyRoot_or 256
    rw [hdeleted, hkept, hdefault]
    decide

end Kanari.Proofs

import Mathlib.Algebra.BigOperators.Group.Finset.Basic
import Mathlib.Algebra.Order.BigOperators.Group.Finset
import Mathlib.Algebra.Order.Ring.Nat
import Mathlib.Tactic.Abel
import Mathlib.Tactic.Linarith

/-!
# Ordered maps

Lists in strictly increasing key order, so that two maps with the same lookups are equal.
-/

namespace Kanari.Lib

variable {K V : Type} [LinearOrder K]

structure OrdMap (K V : Type) [LinearOrder K] where
  entries : List (K × V)
  sorted : entries.Pairwise (·.1 < ·.1)

variable {v : V}

namespace OrdMap

def insertEntry (k : K) (v : V) : List (K × V) → List (K × V)
  | [] => [(k, v)]
  | (k', v') :: rest =>
    if k < k' then (k, v) :: (k', v') :: rest
    else if k = k' then (k, v) :: rest
    else (k', v') :: insertEntry k v rest

def lookup (k : K) : List (K × V) → Option V
  | [] => none
  | (k', v) :: rest => if k = k' then some v else lookup k rest

lemma mem_insertEntry {k : K} {e : K × V} {l : List (K × V)} (h : e ∈ insertEntry k v l) :
    e = (k, v) ∨ e ∈ l := by
  induction l with
  | nil => simpa [insertEntry] using h
  | cons hd tl ih =>
    simp only [insertEntry] at h
    split_ifs at h with hlt heq
    · exact (List.mem_cons.mp h).imp_right id
    · exact (List.mem_cons.mp h).imp_right (List.mem_cons_of_mem _)
    · rcases List.mem_cons.mp h with rfl | h
      · exact .inr List.mem_cons_self
      · exact (ih h).imp_right (List.mem_cons_of_mem _)

lemma sorted_insertEntry (k : K) (v : V) {l : List (K × V)} (h : l.Pairwise (·.1 < ·.1)) :
    (insertEntry k v l).Pairwise (·.1 < ·.1) := by
  induction l with
  | nil => exact List.pairwise_singleton _ _
  | cons hd tl ih =>
    obtain ⟨hhd, htl⟩ := List.pairwise_cons.mp h
    simp only [insertEntry]
    split_ifs with hlt heq
    · refine List.pairwise_cons.mpr ⟨fun e he => ?_, h⟩
      rcases List.mem_cons.mp he with rfl | he
      · exact hlt
      · exact hlt.trans (hhd e he)
    · exact List.pairwise_cons.mpr ⟨fun e he => heq ▸ hhd e he, htl⟩
    · refine List.pairwise_cons.mpr ⟨fun e he => ?_, ih htl⟩
      rcases mem_insertEntry he with rfl | he
      · exact lt_of_le_of_ne (not_lt.mp hlt) (Ne.symm heq)
      · exact hhd e he

lemma lookup_insertEntry (k k' : K) (v : V) (l : List (K × V)) :
    lookup k' (insertEntry k v l) = if k' = k then some v else lookup k' l := by
  induction l with
  | nil => simp [insertEntry, lookup]
  | cons hd tl ih =>
    by_cases hlt : k < hd.1
    · by_cases hk : k' = k <;> simp [insertEntry, hlt, lookup, hk]
    · by_cases heq : k = hd.1
      · by_cases hk : k' = k
        · simp [insertEntry, heq, lookup, hk]
        · simp [insertEntry, heq, lookup, heq ▸ hk]
      · by_cases hk : k' = k
        · subst hk
          simp [insertEntry, hlt, heq, lookup, ih]
        · simp [insertEntry, hlt, heq, lookup, hk, ih]

lemma lookup_eq_none_of_lt {k : K} {l : List (K × V)} (h : ∀ e ∈ l, k < e.1) : lookup k l = none := by
  induction l with
  | nil => rfl
  | cons hd tl ih =>
    have hne : k ≠ hd.1 := (h hd List.mem_cons_self).ne
    simp [lookup, hne, ih fun e he => h e (List.mem_cons_of_mem _ he)]

lemma lookup_filter_ne {k k' : K} {l : List (K × V)} :
    lookup k' (l.filter (·.1 ≠ k)) = if k' = k then none else lookup k' l := by
  induction l with
  | nil => simp [lookup]
  | cons hd tl ih =>
    by_cases hhd : hd.1 = k
    · rw [List.filter_cons_of_neg (by simpa using hhd), ih]
      by_cases hk : k' = k
      · simp [hk]
      · simp [lookup, hk, hhd]
    · rw [List.filter_cons_of_pos (by simpa using hhd)]
      simp only [lookup, ih]
      by_cases hk : k' = hd.1
      · simp [hk, hhd]
      · simp [hk]

lemma lookup_eq_some_iff {k : K} {l : List (K × V)} (h : l.Pairwise (·.1 < ·.1)) :
    lookup k l = some v ↔ (k, v) ∈ l := by
  induction l with
  | nil => simp [lookup]
  | cons hd tl ih =>
    obtain ⟨hhd, htl⟩ := List.pairwise_cons.mp h
    obtain ⟨k₀, v₀⟩ := hd
    simp only [lookup, List.mem_cons, Prod.mk.injEq]
    by_cases hk : k = k₀
    · subst hk
      have hno : (k, v) ∉ tl := fun hmem => lt_irrefl k (hhd (k, v) hmem)
      simp [hno, eq_comm]
    · simp [hk, ih htl]

lemma eq_of_lookup_eq {l l' : List (K × V)} (h : l.Pairwise (·.1 < ·.1))
    (h' : l'.Pairwise (·.1 < ·.1)) (heq : ∀ k, lookup k l = lookup k l') : l = l' := by
  have hsub : ∀ {a b : List (K × V)}, a.Pairwise (·.1 < ·.1) → b.Pairwise (·.1 < ·.1) →
      (∀ k, lookup k a = lookup k b) → ∀ e, e ∈ a → e ∈ b := by
    intro a b ha hb hab e he
    exact (lookup_eq_some_iff hb).mp ((hab e.1) ▸ (lookup_eq_some_iff ha).mpr he)
  have hperm : l.Perm l' := (List.perm_ext_iff_of_nodup
    (h.imp fun hlt heq => (ne_of_lt hlt) (congrArg Prod.fst heq))
    (h'.imp fun hlt heq => (ne_of_lt hlt) (congrArg Prod.fst heq))).mpr fun e =>
      ⟨hsub h h' heq e, hsub h' h (fun k => (heq k).symm) e⟩
  exact hperm.eq_of_pairwise (fun _ _ _ _ hab hba => (lt_asymm hab hba).elim) h h'

def empty : OrdMap K V := ⟨[], List.Pairwise.nil⟩

instance : Inhabited (OrdMap K V) := ⟨empty⟩

instance [DecidableEq V] : DecidableEq (OrdMap K V) := fun a b =>
  decidable_of_iff (a.entries = b.entries) (by cases a; cases b; simp)

def find? (m : OrdMap K V) (k : K) : Option V := lookup k m.entries

def insert (m : OrdMap K V) (k : K) (v : V) : OrdMap K V :=
  ⟨insertEntry k v m.entries, sorted_insertEntry k v m.sorted⟩

def erase (m : OrdMap K V) (k : K) : OrdMap K V :=
  ⟨m.entries.filter (·.1 ≠ k), m.sorted.filter _⟩

def contains (m : OrdMap K V) (k : K) : Bool := (m.find? k).isSome

def keys (m : OrdMap K V) : List K := m.entries.map (·.1)

def ofList (l : List (K × V)) : OrdMap K V := l.foldl (fun m e => m.insert e.1 e.2) empty

@[ext] lemma ext {m m' : OrdMap K V} (h : ∀ k, m.find? k = m'.find? k) : m = m' := by
  have := eq_of_lookup_eq m.sorted m'.sorted h
  cases m; cases m'; simpa using this

@[simp] lemma find?_empty (k : K) : (empty : OrdMap K V).find? k = none := rfl

lemma find?_insert (m : OrdMap K V) (k k' : K) (v : V) :
    (m.insert k v).find? k' = if k' = k then some v else m.find? k' :=
  lookup_insertEntry k k' v m.entries

@[simp] lemma find?_insert_self (m : OrdMap K V) (k : K) (v : V) :
    (m.insert k v).find? k = some v := by simp [find?_insert]

def mapValues {W : Type} (f : V → W) (m : OrdMap K V) : OrdMap K W :=
  ⟨m.entries.map fun e => (e.1, f e.2), List.pairwise_map.mpr m.sorted⟩

lemma find?_mapValues {W : Type} (f : V → W) (m : OrdMap K V) (k : K) :
    (m.mapValues f).find? k = (m.find? k).map f := by
  obtain ⟨entries, sorted⟩ := m
  show lookup k (entries.map fun e => (e.1, f e.2)) = (lookup k entries).map f
  clear sorted
  induction entries with
  | nil => rfl
  | cons e rest ih =>
    simp only [List.map_cons, lookup, ih]
    split_ifs <;> rfl

lemma find?_erase (m : OrdMap K V) (k k' : K) :
    (m.erase k).find? k' = if k' = k then none else m.find? k' := lookup_filter_ne

lemma mem_entries {m : OrdMap K V} {k : K} : (k, v) ∈ m.entries ↔ m.find? k = some v :=
  (lookup_eq_some_iff m.sorted).symm

lemma find?_foldl_insert (m : OrdMap K V) (l : List (K × V)) (k : K) :
    ((l.foldl (fun m e => m.insert e.1 e.2) m).find? k = m.find? k ∧ ∀ e ∈ l, e.1 ≠ k) ∨
      ∃ v, (k, v) ∈ l ∧ (l.foldl (fun m e => m.insert e.1 e.2) m).find? k = some v := by
  induction l generalizing m with
  | nil => exact .inl ⟨rfl, fun e he => absurd he List.not_mem_nil⟩
  | cons e l ih =>
    rcases ih (m.insert e.1 e.2) with ⟨hfind, hfree⟩ | ⟨v, hv, hfind⟩
    · by_cases hkey : k = e.1
      · right
        refine ⟨e.2, by rw [hkey]; exact List.mem_cons_self, ?_⟩
        rw [List.foldl_cons, hfind, find?_insert, if_pos hkey]
      · left
        rw [List.foldl_cons, hfind, find?_insert, if_neg hkey]
        refine ⟨rfl, ?_⟩
        intro e' he'
        rcases List.mem_cons.mp he' with rfl | he'
        · exact Ne.symm hkey
        · exact hfree e' he'
    · exact .inr ⟨v, List.mem_cons_of_mem _ hv, hfind⟩

lemma find?_foldl_erase (m : OrdMap K V) (l : List K) (k : K) :
    (l.foldl erase m).find? k = if k ∈ l then none else m.find? k := by
  induction l generalizing m with
  | nil => rfl
  | cons a l ih =>
    rw [List.foldl_cons, ih, find?_erase]
    by_cases hl : k ∈ l
    · rw [if_pos hl, if_pos (List.mem_cons_of_mem a hl)]
    · rw [if_neg hl]
      by_cases ha : k = a
      · rw [if_pos ha, if_pos (by rw [ha]; exact List.mem_cons_self)]
      · rw [if_neg ha, if_neg (by simp [ha, hl])]

def filterKeys (p : K → Bool) (m : OrdMap K V) : OrdMap K V :=
  ⟨m.entries.filter fun e => p e.1, m.sorted.sublist List.filter_sublist⟩

lemma find?_filterKeys (p : K → Bool) (m : OrdMap K V) (k : K) :
    (filterKeys p m).find? k = if p k then m.find? k else none := by
  refine Option.ext fun v => ?_
  rw [← mem_entries, filterKeys, List.mem_filter, mem_entries]
  split_ifs with hp
  · simp [hp]
  · simp [hp]

lemma mem_of_find?_ofList {l : List (K × V)} {k : K} (h : (ofList l).find? k = some v) :
    (k, v) ∈ l := by
  unfold ofList at h
  rcases find?_foldl_insert empty l k with ⟨hfind, -⟩ | ⟨w, hw, hfind⟩
  · rw [hfind] at h
    cases h
  · rw [hfind, Option.some.injEq] at h
    exact h ▸ hw

lemma mem_keys {m : OrdMap K V} {k : K} : k ∈ m.keys ↔ m.contains k = true := by
  simp only [keys, List.mem_map, contains, Option.isSome_iff_exists, ← mem_entries]
  exact ⟨fun ⟨e, he, hk⟩ => ⟨e.2, hk ▸ he⟩, fun ⟨v, hv⟩ => ⟨(k, v), hv, rfl⟩⟩

lemma sorted_keys (m : OrdMap K V) : m.keys.Pairwise (· < ·) := List.pairwise_map.mpr m.sorted

lemma nodup_keys (m : OrdMap K V) : m.keys.Nodup := m.sorted_keys.imp ne_of_lt

lemma contains_insert (m : OrdMap K V) (k k' : K) (v : V) :
    (m.insert k v).contains k' = (decide (k' = k) || m.contains k') := by
  by_cases h : k' = k <;> simp [contains, find?_insert, h]

lemma contains_erase (m : OrdMap K V) (k k' : K) :
    (m.erase k).contains k' = (!decide (k' = k) && m.contains k') := by
  by_cases h : k' = k <;> simp [contains, find?_erase, h]

lemma insert_insert (m : OrdMap K V) (k : K) (v w : V) : (m.insert k v).insert k w = m.insert k w := by
  refine ext fun k' => ?_
  simp only [find?_insert]
  split_ifs <;> rfl

lemma erase_of_absent {m : OrdMap K V} {k : K} (h : m.find? k = none) : m.erase k = m := by
  apply ext
  intro k'
  rw [find?_erase]
  split_ifs with hk
  · rw [hk, h]
  · rfl

section Sums

variable {M : Type} [AddCommMonoid M]

def sumOn (f : K → V → M) (m : OrdMap K V) : M := (m.entries.map fun e => f e.1 e.2).sum

def valueAt (f : K → V → M) (m : OrdMap K V) (k : K) : M := (m.find? k).elim 0 (f k)

lemma valueAt_insert (f : K → V → M) (m : OrdMap K V) (k k' : K) (v : V) :
    (m.insert k v).valueAt f k' = if k' = k then f k v else m.valueAt f k' := by
  unfold valueAt
  rw [find?_insert]
  by_cases h : k' = k
  · subst h
    simp
  · simp [h]

lemma valueAt_erase (f : K → V → M) (m : OrdMap K V) (k k' : K) :
    (m.erase k).valueAt f k' = if k' = k then 0 else m.valueAt f k' := by
  unfold valueAt
  rw [find?_erase]
  by_cases h : k' = k <;> simp [h]

lemma valueAt_of_not_mem {f : K → V → M} {m : OrdMap K V} {k : K} (h : k ∉ m.keys) :
    m.valueAt f k = 0 := by
  rw [mem_keys] at h
  unfold valueAt
  cases hk : m.find? k with
  | none => rfl
  | some v => simp [contains, hk] at h

/-- A sum over the entries is a sum over any finite set of keys that covers them. -/
lemma sumOn_eq_sum (f : K → V → M) (m : OrdMap K V) {F : Finset K} (hF : ∀ k ∈ m.keys, k ∈ F) :
    sumOn f m = ∑ k ∈ F, m.valueAt f k := by
  have hkeys : (m.entries.map fun e => f e.1 e.2) = m.keys.map (m.valueAt f) := by
    unfold keys
    rw [List.map_map]
    apply List.map_congr_left
    intro e he
    have hfind : m.find? e.1 = some e.2 := mem_entries.mp he
    simp [valueAt, hfind]
  unfold sumOn
  rw [hkeys, ← List.sum_toFinset _ m.nodup_keys]
  apply Finset.sum_subset
  · intro k hk
    exact hF k (List.mem_toFinset.mp hk)
  · intro k _ hk
    exact valueAt_of_not_mem fun hmem => hk (List.mem_toFinset.mpr hmem)

lemma sumOn_change (f : K → V → M) {m m' : OrdMap K V} {k : K}
    (h : ∀ k', k' ≠ k → m'.valueAt f k' = m.valueAt f k') :
    sumOn f m' + m.valueAt f k = sumOn f m + m'.valueAt f k := by
  let F := (k :: (m.keys ++ m'.keys)).toFinset
  have hk : k ∈ F := List.mem_toFinset.mpr List.mem_cons_self
  have hrest : ∑ k' ∈ F.erase k, m'.valueAt f k' = ∑ k' ∈ F.erase k, m.valueAt f k' :=
    Finset.sum_congr rfl fun k' hk' => h k' (Finset.ne_of_mem_erase hk')
  rw [sumOn_eq_sum f m' (F := F) (by simp +contextual [F]), sumOn_eq_sum f m (F := F) (by simp +contextual [F])]
  rw [← Finset.add_sum_erase _ _ hk, ← Finset.add_sum_erase _ (m.valueAt f) hk, hrest]
  abel

lemma sumOn_insert (f : K → V → M) (m : OrdMap K V) (k : K) (v : V) :
    sumOn f (m.insert k v) + m.valueAt f k = sumOn f m + f k v := by
  rw [sumOn_change f fun k' hk' => by rw [valueAt_insert, if_neg hk'], valueAt_insert, if_pos rfl]

lemma sumOn_erase (f : K → V → M) (m : OrdMap K V) (k : K) :
    sumOn f (m.erase k) + m.valueAt f k = sumOn f m := by
  rw [sumOn_change f fun k' hk' => by rw [valueAt_erase, if_neg hk'], valueAt_erase, if_pos rfl, add_zero]

lemma sumOn_mono {f : K → V → Nat} {m m' : OrdMap K V} (h : ∀ k, m.valueAt f k ≤ m'.valueAt f k) :
    sumOn f m ≤ sumOn f m' := by
  let F := (m.keys ++ m'.keys).toFinset
  have hcover : ∀ k ∈ m.keys, k ∈ F := fun k hk => List.mem_toFinset.mpr (List.mem_append_left _ hk)
  have hcover' : ∀ k ∈ m'.keys, k ∈ F := fun k hk => List.mem_toFinset.mpr (List.mem_append_right _ hk)
  rw [sumOn_eq_sum f m hcover, sumOn_eq_sum f m' hcover']
  exact Finset.sum_le_sum fun k _ => h k

end Sums

end OrdMap

abbrev OrdSet (K : Type) [LinearOrder K] := OrdMap K Unit

namespace OrdSet

def add (s : OrdSet K) (k : K) : OrdSet K := OrdMap.insert s k ()

def addAll (s : OrdSet K) (ks : List K) : OrdSet K := ks.foldl add s

def elems (s : OrdSet K) : List K := OrdMap.keys s

lemma contains_add (s : OrdSet K) (k k' : K) :
    (add s k).contains k' = (decide (k' = k) || s.contains k') := OrdMap.contains_insert s k k' ()

lemma mem_elems {s : OrdSet K} {k : K} : k ∈ elems s ↔ s.contains k = true := OrdMap.mem_keys

lemma nodup_elems (s : OrdSet K) : (elems s).Nodup := OrdMap.nodup_keys s

lemma contains_addAll (s : OrdSet K) (ks : List K) (k : K) :
    (addAll s ks).contains k = (decide (k ∈ ks) || s.contains k) := by
  induction ks generalizing s with
  | nil => simp [addAll]
  | cons k' ks ih =>
    rw [addAll, List.foldl_cons, ← addAll, ih, contains_add]
    by_cases h : k = k' <;> simp [h]

lemma ext_contains {s s' : OrdSet K} (h : ∀ k, s.contains k = s'.contains k) : s = s' := by
  refine OrdMap.ext fun k => ?_
  have := h k
  simp only [OrdMap.contains] at this
  cases hs : s.find? k <;> cases hs' : s'.find? k <;> simp_all

def keysWhere {V : Type} (m : OrdMap K V) (p : V → Bool) : OrdSet K :=
  addAll .empty ((m.entries.filter (p ·.2)).map (·.1))

lemma contains_keysWhere {V : Type} {m : OrdMap K V} {p : V → Bool} {k : K} :
    (keysWhere m p).contains k = true ↔ ∃ v, m.find? k = some v ∧ p v = true := by
  rw [keysWhere, contains_addAll]
  simp only [Bool.or_eq_true, decide_eq_true_eq, List.mem_map, List.mem_filter, Prod.exists]
  constructor
  · rintro (⟨k', v, ⟨hv, hp⟩, rfl⟩ | hempty)
    · exact ⟨v, OrdMap.mem_entries.mp hv, hp⟩
    · cases hempty
  · rintro ⟨v, hv, hp⟩
    exact .inl ⟨k, v, ⟨OrdMap.mem_entries.mpr hv, hp⟩, rfl⟩

lemma keysWhere_insert {V : Type} (m : OrdMap K V) (p : V → Bool) (k : K) (v : V) :
    keysWhere (m.insert k v) p =
      if p v = true then (keysWhere m p).add k else OrdMap.erase (keysWhere m p) k := by
  refine ext_contains fun k' => Bool.eq_iff_iff.mpr ?_
  rw [contains_keysWhere, OrdMap.find?_insert]
  split_ifs with hkey hp hp
  · simp [contains_add, hkey, hp]
  · simp [OrdMap.contains_erase, hkey, hp]
  · rw [contains_add, Bool.or_eq_true, contains_keysWhere]
    simp [hkey]
  · rw [OrdMap.contains_erase, Bool.and_eq_true, contains_keysWhere]
    simp [hkey]

lemma keysWhere_erase {V : Type} (m : OrdMap K V) (p : V → Bool) (k : K) :
    keysWhere (m.erase k) p = OrdMap.erase (keysWhere m p) k := by
  refine ext_contains fun k' => Bool.eq_iff_iff.mpr ?_
  rw [contains_keysWhere, OrdMap.find?_erase, OrdMap.contains_erase, Bool.and_eq_true,
    contains_keysWhere]
  split_ifs with hkey
  · simp [hkey]
  · simp [hkey]

lemma add_of_contains {s : OrdSet K} {k : K} (h : s.contains k = true) : s.add k = s := by
  refine ext_contains fun k' => ?_
  rw [contains_add]
  by_cases hk : k' = k
  · simp [hk, h]
  · simp [hk]

lemma erase_of_not_contains {s : OrdSet K} {k : K} (h : ¬s.contains k = true) :
    OrdMap.erase s k = s := by
  refine OrdMap.erase_of_absent ?_
  simpa [OrdMap.contains] using h

end OrdSet

end Kanari.Lib

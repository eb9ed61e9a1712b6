import Kanari.Lib.OrdMap

/-!
# Sets as sorted lists

Binary search in a strictly increasing list, and insertion and removal at the position it finds.
-/

namespace Kanari.Lib.SortedList

variable {K : Type} [LinearOrder K]

/-- The loop of a binary search: of `size` elements from `base` on, keep the half that may hold `x`. -/
def searchFrom (l : List K) (x : K) : Nat → Nat → Nat → Nat
  | 0, base, _ => base
  | fuel + 1, base, size =>
    if size ≤ 1 then base
    else
      let half := size / 2
      match l[base + half]? with
      | some y => searchFrom l x fuel (if x < y then base else base + half) (size - half)
      | none => base

def binarySearch (l : List K) (x : K) : Except Nat Nat :=
  let base := searchFrom l x l.length 0 l.length
  match l[base]? with
  | none => .error 0
  | some y => if y = x then .ok base else .error (if y < x then base + 1 else base)

def insert (l : List K) (x : K) : List K :=
  match binarySearch l x with
  | .ok _ => l
  | .error pos => l.take pos ++ x :: l.drop pos

def erase (l : List K) (x : K) : List K :=
  match binarySearch l x with
  | .ok pos => l.eraseIdx pos
  | .error _ => l

/-- Nothing up to `base` is above `x`, and everything from `base + size` on is. -/
structure Bracket (l : List K) (x : K) (base size : Nat) : Prop where
  pos : 0 < size
  inside : base + size ≤ l.length
  low : base ≠ 0 → ∀ y, l[base]? = some y → y ≤ x
  high : ∀ i y, base + size ≤ i → l[i]? = some y → x < y

lemma lt_of_getElem? {l : List K} (h : l.Pairwise (· < ·)) {i j : Nat} {a b : K} (hij : i < j)
    (hi : l[i]? = some a) (hj : l[j]? = some b) : a < b := by
  obtain ⟨hilt, rfl⟩ := List.getElem?_eq_some_iff.mp hi
  obtain ⟨hjlt, rfl⟩ := List.getElem?_eq_some_iff.mp hj
  exact List.pairwise_iff_getElem.mp h i j hilt hjlt hij

lemma searchFrom_bracket {l : List K} {x : K} (h : l.Pairwise (· < ·)) {fuel base size : Nat}
    (hb : Bracket l x base size) (hfuel : size ≤ fuel) :
    Bracket l x (searchFrom l x fuel base size) 1 := by
  induction fuel generalizing base size with
  | zero => exact absurd hb.pos (by omega)
  | succ fuel ih =>
    unfold searchFrom
    split_ifs with hsize
    · obtain rfl : size = 1 := by have := hb.pos; omega
      exact hb
    have hinside := hb.inside
    have hlt : base + size / 2 < l.length := by omega
    obtain ⟨y, hy⟩ : ∃ y, l[base + size / 2]? = some y := ⟨_, List.getElem?_eq_getElem hlt⟩
    simp only [hy]
    split_ifs with hxy
    · apply ih _ (by omega)
      refine ⟨by omega, by omega, hb.low, ?_⟩
      intro i z hi hz
      obtain rfl | hne := eq_or_ne i (base + size / 2)
      · cases hy.symm.trans hz
        exact hxy
      · exact hxy.trans (lt_of_getElem? h (by omega) hy hz)
    · apply ih _ (by omega)
      refine ⟨by omega, by omega, ?_, fun i z hi => hb.high i z (by omega)⟩
      intro _ z hz
      cases hy.symm.trans hz
      exact not_lt.mp hxy

lemma bracket_start {l : List K} (x : K) (h : l ≠ []) : Bracket l x 0 l.length where
  pos := List.length_pos_iff.mpr h
  inside := by omega
  low := fun h => absurd rfl h
  high := by
    intro i y hi hy
    rw [List.getElem?_eq_none (by omega)] at hy
    cases hy

lemma binarySearch_ok {l : List K} {x : K} {pos : Nat} (h : binarySearch l x = .ok pos) :
    l[pos]? = some x := by
  unfold binarySearch at h
  dsimp only at h
  split at h
  · cases h
  · rename_i y hy
    split_ifs at h with heq
    cases h
    rw [hy, heq]

lemma binarySearch_error {l : List K} {x : K} {pos : Nat} (hl : l.Pairwise (· < ·))
    (h : binarySearch l x = .error pos) :
    pos ≤ l.length ∧ (∀ y ∈ l.take pos, y < x) ∧ ∀ y ∈ l.drop pos, x < y := by
  unfold binarySearch at h
  dsimp only at h
  split at h
  · rename_i hnone
    cases h
    obtain rfl | hne := eq_or_ne l []
    · simp
    · have hinside := (searchFrom_bracket hl (bracket_start x hne) le_rfl).inside
      rw [List.getElem?_eq_none_iff] at hnone
      omega
  · rename_i y hy
    have hbase := (List.getElem?_eq_some_iff.mp hy).1
    have hne : l ≠ [] := List.ne_nil_of_length_pos (by omega)
    have hfound := searchFrom_bracket hl (bracket_start x hne) le_rfl
    generalize searchFrom l x l.length 0 l.length = base at *
    split_ifs at h with heq hlt
    · -- everything up to `base` is below `x`
      cases h
      refine ⟨by omega, ?_, ?_⟩
      · intro z hz
        obtain ⟨i, hi, hget⟩ := List.mem_take_iff_getElem.mp hz
        have hat : l[i]? = some z := List.getElem?_eq_some_iff.mpr ⟨by omega, hget⟩
        obtain rfl | hne := eq_or_ne i base
        · cases hy.symm.trans hat
          exact hlt
        · exact (lt_of_getElem? hl (by omega) hat hy).trans hlt
      · intro z hz
        obtain ⟨i, hi, hz⟩ := List.mem_drop_iff_getElem.mp hz
        exact hfound.high (base + 1 + i) z (by omega) (List.getElem?_eq_some_iff.mpr ⟨by omega, hz⟩)
    · -- the first element is above `x` already
      cases h
      have hlt : x < y := lt_of_le_of_ne (not_lt.mp hlt) (Ne.symm heq)
      have hzero : pos = 0 := by
        by_contra hne
        exact absurd (hfound.low hne y hy) (not_le.mpr hlt)
      subst hzero
      refine ⟨by omega, by simp, ?_⟩
      intro z hz
      rw [List.drop_zero] at hz
      obtain ⟨i, hi, rfl⟩ := List.getElem_of_mem hz
      obtain rfl | hne := eq_or_ne i 0
      · cases hy.symm.trans (List.getElem?_eq_getElem hi)
        exact hlt
      · exact hlt.trans (lt_of_getElem? hl (by omega) hy (List.getElem?_eq_getElem hi))

lemma mem_of_binarySearch_ok {l : List K} {x : K} {pos : Nat} (h : binarySearch l x = .ok pos) :
    x ∈ l := List.mem_of_getElem? (binarySearch_ok h)

lemma notMem_of_binarySearch_error {l : List K} {x : K} {pos : Nat} (hl : l.Pairwise (· < ·))
    (h : binarySearch l x = .error pos) : x ∉ l := by
  obtain ⟨-, hbelow, habove⟩ := binarySearch_error hl h
  rw [← List.take_append_drop pos l, List.mem_append]
  rintro (hx | hx)
  · exact lt_irrefl x (hbelow x hx)
  · exact lt_irrefl x (habove x hx)

lemma eq_of_mem_iff {l l' : List K} (h : l.Pairwise (· < ·)) (h' : l'.Pairwise (· < ·))
    (hmem : ∀ x, x ∈ l ↔ x ∈ l') : l = l' := by
  have hperm : l.Perm l' := (List.perm_ext_iff_of_nodup (h.imp ne_of_lt) (h'.imp ne_of_lt)).mpr hmem
  exact hperm.eq_of_pairwise (fun a b _ _ hab hba => absurd (hab.trans hba) (lt_irrefl a)) h h'

lemma sorted_elems (s : OrdSet K) : (OrdSet.elems s).Pairwise (· < ·) := OrdMap.sorted_keys s

theorem insert_elems (s : OrdSet K) (x : K) : insert (OrdSet.elems s) x = OrdSet.elems (OrdSet.add s x) := by
  have hs := sorted_elems s
  unfold insert
  cases hsearch : binarySearch (OrdSet.elems s) x with
  | ok pos =>
    apply eq_of_mem_iff hs (sorted_elems _)
    intro y
    rw [OrdSet.mem_elems, OrdSet.mem_elems, OrdSet.contains_add, Bool.or_eq_true, decide_eq_true_eq]
    refine ⟨Or.inr, ?_⟩
    rintro (rfl | hy)
    · exact OrdSet.mem_elems.mp (mem_of_binarySearch_ok hsearch)
    · exact hy
  | error pos =>
    obtain ⟨-, hbelow, habove⟩ := binarySearch_error hs hsearch
    apply eq_of_mem_iff _ (sorted_elems _)
    · intro y
      rw [OrdSet.mem_elems, OrdSet.contains_add, Bool.or_eq_true, decide_eq_true_eq, ← OrdSet.mem_elems,
        List.mem_append, List.mem_cons, or_left_comm, ← List.mem_append, List.take_append_drop]
    · rw [List.pairwise_append, List.pairwise_cons]
      refine ⟨hs.sublist (List.take_sublist _ _), ⟨habove, hs.sublist (List.drop_sublist _ _)⟩, ?_⟩
      intro y hy z hz
      obtain rfl | hz := List.mem_cons.mp hz
      · exact hbelow y hy
      · exact (hbelow y hy).trans (habove z hz)

theorem erase_elems (s : OrdSet K) (x : K) : erase (OrdSet.elems s) x = OrdSet.elems (OrdMap.erase s x) := by
  have hs := sorted_elems s
  unfold erase
  cases hsearch : binarySearch (OrdSet.elems s) x with
  | ok pos =>
    obtain ⟨hpos, rfl⟩ := List.getElem?_eq_some_iff.mp (binarySearch_ok hsearch)
    apply eq_of_mem_iff (hs.sublist (List.eraseIdx_sublist _ _)) (sorted_elems _)
    intro y
    rw [OrdSet.mem_elems, OrdMap.contains_erase, Bool.and_eq_true, ← OrdSet.mem_elems,
      ← (OrdSet.nodup_elems s).erase_getElem pos hpos, (OrdSet.nodup_elems s).mem_erase_iff]
    simp
  | error pos =>
    apply eq_of_mem_iff hs (sorted_elems _)
    intro y
    rw [OrdSet.mem_elems, OrdSet.mem_elems, OrdMap.contains_erase, Bool.and_eq_true]
    refine ⟨fun hy => ⟨?_, hy⟩, And.right⟩
    have hne : y ≠ x := by
      rintro rfl
      exact notMem_of_binarySearch_error hs hsearch (OrdSet.mem_elems.mpr hy)
    simp [hne]

lemma addAll_elems (s : OrdSet K) : OrdSet.addAll .empty (OrdSet.elems s) = s := by
  apply OrdSet.ext_contains
  intro k
  rw [OrdSet.contains_addAll, Bool.eq_iff_iff, Bool.or_eq_true, decide_eq_true_eq, OrdSet.mem_elems]
  simp [OrdMap.contains]

end Kanari.Lib.SortedList

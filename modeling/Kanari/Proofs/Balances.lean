import Kanari.Apply

/-!
# Objects and their indexes

The coins of an account as a sum over the live objects, and the agreement of objects and indexes.
-/

namespace Kanari.Proofs

open Lib StateManager

def tokenAmount (tokenType : String) (obj : StoredObject) : Nat :=
  match balanceTokenAmount obj.typeName obj.data with
  | some (t, amount) => if t = tokenType then amount else 0
  | none => 0

def ownedAmount (tokenType : String) (a : AccountAddress) (obj : StoredObject) : Nat :=
  if isAddressOwned obj.ownerKind = true ∧ obj.owner = a then tokenAmount tokenType obj else 0

def coinsOf (σ : StateManager) (tokenType : String) (a : AccountAddress) : Nat :=
  OrdMap.sumOn (fun _ obj => ownedAmount tokenType a obj) σ.objects

/-- Objects are stored under their canonical identifiers, and the indexes list what there is. -/
structure IndexesAgree (objects : OrdMap String StoredObject)
    (ownedObjects : AccountAddress → OrdSet String) (objectIndex : OrdSet String) : Prop where
  canonical : ∀ {id obj}, objects.find? id = some obj → canonicalOwnedObjectId id = id
  owned : ∀ a id, (ownedObjects a).contains id = true ↔
    ∃ obj, objects.find? id = some obj ∧ isAddressOwned obj.ownerKind = true ∧ obj.owner = a
  indexed : ∀ id, objectIndex.contains id = true ↔ objects.contains id = true

variable {id : String} {obj : StoredObject} {ownedObjects' : AccountAddress → OrdSet String}
  {objectIndex' : OrdSet String} {σ : StateManager}

namespace IndexesAgree

variable {objects : OrdMap String StoredObject} {ownedObjects : AccountAddress → OrdSet String}
  {objectIndex : OrdSet String}

lemma write (h : IndexesAgree objects ownedObjects objectIndex)
    (hid : canonicalOwnedObjectId id = id) (new : StoredObject)
    (hother : ∀ a id', id' ≠ id →
      ((ownedObjects' a).contains id' = true ↔ (ownedObjects a).contains id' = true))
    (hself : ∀ a, (ownedObjects' a).contains id = true ↔
      isAddressOwned new.ownerKind = true ∧ new.owner = a)
    (hindex : ∀ id', objectIndex'.contains id' = true ↔ id' = id ∨ objectIndex.contains id' = true) :
    IndexesAgree (objects.insert id new) ownedObjects' objectIndex' where
  canonical := by
    intro id' obj hobj
    rw [OrdMap.find?_insert] at hobj
    split_ifs at hobj with heq
    · rw [heq]
      exact hid
    · exact h.canonical hobj
  owned := by
    intro a id'
    rw [OrdMap.find?_insert]
    by_cases heq : id' = id
    · subst heq
      rw [if_pos rfl, hself]
      simp
    · rw [if_neg heq, hother a id' heq, h.owned]
  indexed := by
    intro id'
    rw [hindex, h.indexed id', OrdMap.contains_insert, Bool.or_eq_true, decide_eq_true_eq]

lemma remove (h : IndexesAgree objects ownedObjects objectIndex) (id : String)
    (howned : ∀ a id', (ownedObjects' a).contains id' = true ↔
      id' ≠ id ∧ (ownedObjects a).contains id' = true)
    (hindex : ∀ id', objectIndex'.contains id' = true ↔ id' ≠ id ∧ objectIndex.contains id' = true) :
    IndexesAgree (objects.erase id) ownedObjects' objectIndex' where
  canonical := by
    intro id' obj hobj
    rw [OrdMap.find?_erase] at hobj
    split_ifs at hobj
    exact h.canonical hobj
  owned := by
    intro a id'
    rw [howned, h.owned a id', OrdMap.find?_erase]
    by_cases hid : id' = id <;> simp [hid]
  indexed := by
    intro id'
    rw [hindex, h.indexed id', OrdMap.contains_erase]
    by_cases hid : id' = id <;> simp [hid]

lemma congr (h : IndexesAgree objects ownedObjects objectIndex)
    (howned : ∀ a id, (ownedObjects' a).contains id = (ownedObjects a).contains id)
    (hindex : ∀ id, objectIndex'.contains id = true ↔ objectIndex.contains id = true) :
    IndexesAgree objects ownedObjects' objectIndex' where
  canonical := h.canonical
  owned := by
    intro a id
    rw [howned]
    exact h.owned a id
  indexed := by
    intro id
    rw [hindex]
    exact h.indexed id

end IndexesAgree

def withIndexes (σ : StateManager) : StateManager :=
  { σ with
    objectIndex := OrdSet.addAll .empty σ.objects.keys
    ownedObjects := fun a => OrdSet.addAll .empty
      ((σ.objects.entries.filter fun e => isAddressOwned e.2.ownerKind && e.2.owner == a).map (·.1)) }

lemma load_of_find (h : σ.objects.find? id = some obj) :
    σ.loadStoredObjectByAnyId id = some (id, obj) := by
  unfold loadStoredObjectByAnyId objectLookupIds
  split
  · split_ifs <;> simp [h]
  · simp [h]

lemma find_of_load {storedId : String} (h : σ.loadStoredObjectByAnyId id = some (storedId, obj)) :
    σ.objects.find? storedId = some obj ∧ (storedId = id ∨ storedId = canonicalOwnedObjectId id) := by
  unfold loadStoredObjectByAnyId at h
  obtain ⟨candidate, hmem, hcandidate⟩ := List.exists_of_findSome?_eq_some h
  obtain ⟨obj', hobj', heq⟩ := Option.map_eq_some_iff.mp hcandidate
  cases heq
  refine ⟨hobj', ?_⟩
  unfold objectLookupIds at hmem
  unfold canonicalOwnedObjectId
  split at hmem
  · rename_i canonicalId hcanonical
    rw [hcanonical]
    split_ifs at hmem <;> simp at hmem
    · exact Or.inl hmem
    · exact hmem
  · simp at hmem
    exact Or.inl hmem

lemma find_of_load_none (h : σ.loadStoredObjectByAnyId id = none) : σ.objects.find? id = none := by
  by_contra hfind
  obtain ⟨obj, hobj⟩ := Option.ne_none_iff_exists'.mp hfind
  rw [load_of_find hobj] at h
  cases h

lemma load_canonical
    (hσ : ∀ {id obj}, σ.objects.find? id = some obj → canonicalOwnedObjectId id = id)
    {storedId : String} (h : σ.loadStoredObjectByAnyId id = some (storedId, obj)) :
    storedId = canonicalOwnedObjectId id ∧ σ.objects.find? storedId = some obj := by
  obtain ⟨hfind, rfl | hid⟩ := find_of_load h
  · exact ⟨(hσ hfind).symm, hfind⟩
  · exact ⟨hid, hfind⟩

lemma load_of_find_canonical
    (hσ : ∀ {id obj}, σ.objects.find? id = some obj → canonicalOwnedObjectId id = id)
    (h : σ.objects.find? (canonicalOwnedObjectId id) = some obj) :
    σ.loadStoredObjectByAnyId id = some (canonicalOwnedObjectId id, obj) := by
  cases hid : σ.objects.find? id with
  | some obj' =>
    have heq := hσ hid
    rw [heq] at h ⊢
    exact load_of_find h
  | none =>
    unfold loadStoredObjectByAnyId objectLookupIds
    unfold canonicalOwnedObjectId at h ⊢
    cases hcanonical : canonicalObjectId id with
    | none =>
      rw [hcanonical, Option.getD_none, hid] at h
      cases h
    | some canonicalId =>
      rw [hcanonical, Option.getD_some] at h
      have hne : canonicalId ≠ id := by
        rintro rfl
        rw [hid] at h
        cases h
      simp [hne, hid, h]

lemma IndexesAgree.drop (h : IndexesAgree σ.objects σ.ownedObjects σ.objectIndex)
    {objectId : String} {old : StoredObject} (hid : canonicalOwnedObjectId objectId = id)
    (hold : σ.objects.find? id = some old) :
    let τ := (σ.removeOwnedObjectIndexVariants old.owner objectId (some id)).dropObject id objectId
    IndexesAgree τ.objects τ.ownedObjects τ.objectIndex := by
  have hspelling : ∀ a, (σ.ownedObjects a).contains objectId = true → objectId = id := by
    intro a hcontains
    obtain ⟨obj, hobj, -⟩ := (h.owned a objectId).mp hcontains
    rw [← hid]
    exact (h.canonical hobj).symm
  apply h.remove id
  · intro a id'
    show (Function.update σ.ownedObjects old.owner _ a).contains id' = true ↔ _
    by_cases ha : a = old.owner
    · subst ha
      rw [Function.update_self, hid, OrdMap.contains_erase, OrdMap.contains_erase,
        OrdMap.contains_erase]
      simp only [Bool.and_eq_true, Bool.not_eq_true', decide_eq_false_iff_not]
      constructor
      · rintro ⟨hne, -, -, hcontains⟩
        exact ⟨hne, hcontains⟩
      · rintro ⟨hne, hcontains⟩
        refine ⟨hne, hne, ?_, hcontains⟩
        rintro rfl
        exact hne (hspelling _ hcontains)
    · rw [Function.update_of_ne ha]
      constructor
      · intro hcontains
        refine ⟨?_, hcontains⟩
        rintro rfl
        obtain ⟨obj, hobj, -, howner⟩ := (h.owned a id').mp hcontains
        rw [hold] at hobj
        cases hobj
        exact ha howner.symm
      · exact And.right
  · intro id'
    show ((σ.objectIndex.erase id).erase (canonicalOwnedObjectId objectId)).contains id' = true ↔ _
    rw [hid, OrdMap.contains_erase, OrdMap.contains_erase]
    simp only [Bool.and_eq_true, Bool.not_eq_true', decide_eq_false_iff_not]
    tauto

end Kanari.Proofs

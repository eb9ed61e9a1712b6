import Kanari.Proofs.ObjectWrites

/-!
# The object indexes through an application

A written object moves its entry only when its owner changes, so a change between owned and shared
or immutable is followed exactly when it comes with a new owner.
-/

namespace Kanari.Proofs

open Lib StateManager

/-! ## Entries -/

lemma canonicalOwnedObjectId_idem (id : String) :
    canonicalOwnedObjectId (canonicalOwnedObjectId id) = canonicalOwnedObjectId id := by
  unfold canonicalOwnedObjectId
  cases h : canonicalObjectId id with
  | none => rw [Option.getD_none, h, Option.getD_none]
  | some canonicalId => rw [Option.getD_some, canonicalObjectId_idem h, Option.getD_some]

def CanonicalEntries (σ : StateManager) : Prop :=
  ∀ a id, (σ.ownedObjects a).contains id = true → canonicalOwnedObjectId id = id

variable {σ σ' : StateManager} {acc acc' : ApplyAcc} {before : OrdMap String StoredObject}
  {created : List (String × CreatedObject)} {c : String × CreatedObject} {ctx : ApplyContext}
  {cs : ChangeSet}

lemma contains_removeOwned (hσ : CanonicalEntries σ) (owner a : AccountAddress)
    (objectId id : String) :
    ((σ.removeOwnedObjectIndexVariants owner objectId
      (some (canonicalOwnedObjectId objectId))).ownedObjects a).contains id = true ↔
      (σ.ownedObjects a).contains id = true ∧ ¬(a = owner ∧ id = canonicalOwnedObjectId objectId) := by
  unfold removeOwnedObjectIndexVariants
  dsimp only
  by_cases ha : a = owner
  · subst ha
    rw [Function.update_self, OrdMap.contains_erase, OrdMap.contains_erase, OrdMap.contains_erase]
    simp only [Bool.and_eq_true, Bool.not_eq_true', decide_eq_false_iff_not, true_and]
    constructor
    · rintro ⟨hne, -, -, hcontains⟩
      exact ⟨hcontains, hne⟩
    · rintro ⟨hcontains, hne⟩
      refine ⟨hne, hne, ?_, hcontains⟩
      rintro rfl
      exact hne (hσ _ _ hcontains).symm
  · rw [Function.update_of_ne ha]
    simp [ha]

lemma CanonicalEntries.removeOwned (hσ : CanonicalEntries σ) (owner : AccountAddress)
    (objectId : String) : CanonicalEntries (σ.removeOwnedObjectIndexVariants owner objectId
      (some (canonicalOwnedObjectId objectId))) :=
  fun a id hid => hσ a id ((contains_removeOwned hσ owner a objectId id).mp hid).1

lemma contains_refreshOwned (hσ : CanonicalEntries σ) (owner a : AccountAddress)
    (objectId id : String) :
    ((σ.refreshOwnedObjectIndex owner objectId
      (some (canonicalOwnedObjectId objectId))).ownedObjects a).contains id = true ↔
      (a = owner ∧ id = canonicalOwnedObjectId objectId) ∨ (σ.ownedObjects a).contains id = true := by
  have hremoved := contains_removeOwned hσ owner a objectId id
  unfold refreshOwnedObjectIndex
  dsimp only
  by_cases ha : a = owner
  · subst ha
    rw [Function.update_self, OrdSet.contains_add, Bool.or_eq_true, hremoved, decide_eq_true_eq]
    tauto
  · rw [Function.update_of_ne ha, hremoved]
    tauto

lemma contains_flushed (acc : ApplyAcc) (a : AccountAddress) (id : String) :
    ((flushIndexes acc).state.ownedObjects a).contains id = true ↔
      (acc.state.ownedObjects a).contains id = true ∨ (a, id) ∈ acc.ownedIndexAdditions := by
  have hfold : ∀ (l : List (AccountAddress × String)) (τ : StateManager),
      ((l.foldl addOwnedIndexEntry τ).ownedObjects a).contains id = true ↔
        (τ.ownedObjects a).contains id = true ∨ (a, id) ∈ l := by
    intro l
    induction l with
    | nil => simp
    | cons e l ih =>
      intro τ
      rw [List.foldl_cons, ih, List.mem_cons]
      unfold addOwnedIndexEntry
      dsimp only
      by_cases ha : a = e.1
      · subst ha
        rw [Function.update_self, OrdSet.contains_add, Bool.or_eq_true, decide_eq_true_eq]
        have hpair : (e.1, id) = e ↔ id = e.2 := by
          constructor
          · intro h
            rw [← h]
          · rintro rfl
            rfl
        rw [hpair]
        tauto
      · rw [Function.update_of_ne ha]
        have hpair : (a, id) ≠ e := by
          rintro rfl
          exact ha rfl
        tauto
  exact hfold acc.ownedIndexAdditions acc.state

lemma contains_flushedIndex (acc : ApplyAcc) (id : String) :
    (flushIndexes acc).state.objectIndex.contains id = true ↔
      acc.state.objectIndex.contains id = true ∨ id ∈ acc.objectIndexAdditions := by
  have hfold : ∀ (l : List (AccountAddress × String)) (τ : StateManager),
      (l.foldl addOwnedIndexEntry τ).objectIndex = τ.objectIndex := by
    intro l
    induction l with
    | nil => exact fun _ => rfl
    | cons e l ih => exact fun τ => ih _
  unfold flushIndexes
  dsimp only
  rw [OrdSet.contains_addAll, hfold, Bool.or_eq_true, decide_eq_true_eq, or_comm]

lemma contains_flushedIndex_append {written : String}
    (hindex : acc'.state.objectIndex = acc.state.objectIndex)
    (hindexed : acc'.objectIndexAdditions = acc.objectIndexAdditions ++ [written]) (id : String) :
    (flushIndexes acc').state.objectIndex.contains id = true ↔
      id = written ∨ (flushIndexes acc).state.objectIndex.contains id = true := by
  rw [contains_flushedIndex, contains_flushedIndex, hindex, hindexed, List.mem_append,
    List.mem_singleton]
  tauto

lemma contains_movedIndex (hσ : CanonicalEntries σ) (objectId : String) (old : StoredObject)
    (new : CreatedObject) (a : AccountAddress) (id : String) :
    (movedIndex σ objectId (canonicalOwnedObjectId objectId) old new a).contains id = true ↔
      if old.owner = new.owner then (σ.ownedObjects a).contains id = true
      else (isAddressOwned new.ownerKind = true ∧ a = new.owner ∧ id = canonicalOwnedObjectId objectId) ∨
        ((σ.ownedObjects a).contains id = true ∧
          ¬(isAddressOwned old.ownerKind = true ∧ a = old.owner ∧ id = canonicalOwnedObjectId objectId)) := by
  unfold movedIndex indexedAfter
  dsimp only
  by_cases howner : old.owner = new.owner
  · rw [if_neg (fun h => h.2.elim (fun h => h rfl) fun h => h howner), if_neg (fun h => h.1 howner),
      if_pos howner]
  rw [if_neg howner]
  obtain ⟨τ, hτ, hcanonical, hleft⟩ : ∃ τ, (if old.owner ≠ new.owner ∧ isAddressOwned old.ownerKind then
      σ.removeOwnedObjectIndexVariants old.owner objectId (some (canonicalOwnedObjectId objectId)) else σ) = τ ∧
      CanonicalEntries τ ∧ ((τ.ownedObjects a).contains id = true ↔ (σ.ownedObjects a).contains id = true ∧
        ¬(isAddressOwned old.ownerKind = true ∧ a = old.owner ∧ id = canonicalOwnedObjectId objectId)) := by
    refine ⟨_, rfl, ?_⟩
    by_cases hkind : isAddressOwned old.ownerKind = true
    · rw [if_pos ⟨howner, hkind⟩, contains_removeOwned hσ]
      exact ⟨hσ.removeOwned _ _, by simp [hkind]⟩
    · rw [if_neg (fun h => hkind h.2)]
      exact ⟨hσ, by simp [hkind]⟩
  rw [hτ, ← hleft]
  split_ifs with hnew
  · rw [contains_refreshOwned hcanonical]
    simp only [hnew.1, true_and]
  · have hkind : ¬isAddressOwned new.ownerKind = true := fun h => hnew ⟨h, .inr howner⟩
    simp only [hkind, Bool.false_eq_true, false_and, false_or]

/-! ## Deleted objects -/

/-- The indexes agree with the objects once the collected additions are written. -/
def Agreeing (acc : ApplyAcc) : Prop :=
  IndexesAgree acc.state.objects (flushIndexes acc).state.ownedObjects (flushIndexes acc).state.objectIndex

lemma Agreeing.canonicalEntries (h : Agreeing acc) : CanonicalEntries acc.state := by
  intro a id hid
  obtain ⟨obj, hobj, -⟩ := (h.owned a id).mp ((contains_flushed acc a id).mpr (.inl hid))
  exact h.canonical hobj

lemma Agreeing.congr (h : Agreeing acc) (hobjects : acc'.state.objects = acc.state.objects)
    (howned : acc'.state.ownedObjects = acc.state.ownedObjects)
    (hindex : acc'.state.objectIndex = acc.state.objectIndex)
    (hadditions : acc'.ownedIndexAdditions = acc.ownedIndexAdditions)
    (hindexed : acc'.objectIndexAdditions = acc.objectIndexAdditions) : Agreeing acc' := by
  unfold Agreeing
  rw [hobjects]
  apply IndexesAgree.congr h
  · intro a id
    rw [Bool.eq_iff_iff, contains_flushed, contains_flushed, howned, hadditions]
  · intro id
    rw [contains_flushedIndex, contains_flushedIndex, hindex, hindexed]

/-- What is on neither list has left the indexes as they are stored. -/
structure Clean (acc : ApplyAcc) : Prop where
  agree : Agreeing acc
  additions : acc.ownedIndexAdditions = []
  indexed : acc.objectIndexAdditions = []

lemma Clean.stored (h : Clean acc) :
    IndexesAgree acc.state.objects acc.state.ownedObjects acc.state.objectIndex := by
  apply IndexesAgree.congr h.agree
  · intro a id
    rw [Bool.eq_iff_iff, contains_flushed, h.additions]
    simp
  · intro id
    rw [contains_flushedIndex, h.indexed]
    simp

lemma Clean.of_stored
    (h : IndexesAgree acc.state.objects acc.state.ownedObjects acc.state.objectIndex)
    (hadditions : acc.ownedIndexAdditions = []) (hindexed : acc.objectIndexAdditions = []) :
    Clean acc := by
  refine ⟨IndexesAgree.congr h ?_ ?_, hadditions, hindexed⟩
  · intro a id
    rw [Bool.eq_iff_iff, contains_flushed, hadditions]
    simp
  · intro id
    rw [contains_flushedIndex, hindexed]
    simp

lemma find_canonical_of_load_none
    (hσ : ∀ {id obj}, σ.objects.find? id = some obj → canonicalOwnedObjectId id = id)
    {objectId : String} (h : σ.loadStoredObjectByAnyId objectId = none) :
    σ.objects.find? (canonicalOwnedObjectId objectId) = none := by
  cases hfind : σ.objects.find? (canonicalOwnedObjectId objectId) with
  | none => rfl
  | some obj =>
    rw [load_of_find_canonical hσ hfind] at h
    cases h

lemma Clean.deleted {objectId : String} (h : Clean acc)
    (hstep : applyDeletedObject acc objectId = .ok acc') :
    Clean acc' ∧ acc'.state.objects = acc.state.objects.erase (canonicalOwnedObjectId objectId) := by
  have hagree := h.stored
  cases hload : acc.state.loadStoredObjectByAnyId objectId with
  | none =>
    have hnone := find_canonical_of_load_none hagree.canonical hload
    unfold applyDeletedObject at hstep
    rw [hload] at hstep
    cases hstep
    have hobjects : acc.state.objects.erase objectId = acc.state.objects :=
      OrdMap.erase_of_absent (find_of_load_none hload)
    refine ⟨Clean.of_stored ?_ h.additions h.indexed, ?_⟩
    · show IndexesAgree (acc.state.objects.erase objectId) acc.state.ownedObjects
        (acc.state.objectIndex.erase (canonicalOwnedObjectId objectId))
      rw [hobjects]
      apply hagree.congr (fun _ _ => rfl)
      intro id
      rw [OrdMap.contains_erase]
      simp only [Bool.and_eq_true, Bool.not_eq_true', decide_eq_false_iff_not]
      refine ⟨And.right, fun hid => ⟨?_, hid⟩⟩
      rintro rfl
      rw [hagree.indexed] at hid
      simp [OrdMap.contains, hnone] at hid
    · show acc.state.objects.erase objectId = _
      rw [hobjects, OrdMap.erase_of_absent hnone]
  | some e =>
    obtain ⟨storedId, old⟩ := e
    obtain ⟨hobjects, howned, hindex, hadditions, hindexed, -, -, -⟩ := applyDeletedObject_ok hload hstep
    obtain ⟨rfl, hold⟩ := load_canonical hagree.canonical hload
    refine ⟨Clean.of_stored ?_ (hadditions.trans h.additions) (hindexed.trans h.indexed), hobjects⟩
    rw [hobjects, howned, hindex]
    split_ifs with hkind
    · exact hagree.drop rfl hold
    · -- nobody lists an object that is not address-owned
      apply hagree.remove (canonicalOwnedObjectId objectId)
      · intro a id
        refine ⟨fun hcontains => ⟨?_, hcontains⟩, And.right⟩
        rintro rfl
        obtain ⟨obj, hobj, hobjKind, -⟩ := (hagree.owned a _).mp hcontains
        rw [hold] at hobj
        cases hobj
        exact hkind hobjKind
      · intro id
        rw [OrdMap.contains_erase, OrdMap.contains_erase]
        simp only [Bool.and_eq_true, Bool.not_eq_true', decide_eq_false_iff_not]
        tauto

/-! ## Written objects -/

/-- What the maintenance of the owned index relies on. Entries for one identifier are owned alike,
and under one owner if the object is new; an object that keeps its owner stays owned, or not owned. -/
structure KeepsIndexes (σ : StateManager) (cs : ChangeSet) : Prop where
  sameKind : ∀ c ∈ cs.createdObjects, ∀ c' ∈ cs.createdObjects,
    canonicalOwnedObjectId c.1 = canonicalOwnedObjectId c'.1 →
      isAddressOwned c.2.ownerKind = isAddressOwned c'.2.ownerKind
  sameOwner : ∀ c ∈ cs.createdObjects, ∀ c' ∈ cs.createdObjects,
    canonicalOwnedObjectId c.1 = canonicalOwnedObjectId c'.1 → isAddressOwned c.2.ownerKind = true →
      (σ.getObject c.1 = none ∨ canonicalOwnedObjectId c.1 ∈ cs.deletedObjects.map canonicalOwnedObjectId) →
      c.2.owner = c'.2.owner
  keptOwner : ∀ c ∈ cs.createdObjects, ∀ old, σ.getObject c.1 = some old →
    canonicalOwnedObjectId c.1 ∉ cs.deletedObjects.map canonicalOwnedObjectId →
    (c.2.owner.toHexLiteral = c.1 ∨ c.2.owner = old.owner) →
      isAddressOwned c.2.ownerKind = isAddressOwned old.ownerKind

/-- The same, for the objects that the deletions left. -/
structure KeepsEntries (before : OrdMap String StoredObject) (created : List (String × CreatedObject)) :
    Prop where
  sameKind : ∀ c ∈ created, ∀ c' ∈ created, canonicalOwnedObjectId c.1 = canonicalOwnedObjectId c'.1 →
    isAddressOwned c.2.ownerKind = isAddressOwned c'.2.ownerKind
  sameOwner : ∀ c ∈ created, ∀ c' ∈ created, canonicalOwnedObjectId c.1 = canonicalOwnedObjectId c'.1 →
    isAddressOwned c.2.ownerKind = true → before.find? (canonicalOwnedObjectId c.1) = none →
      c.2.owner = c'.2.owner
  keptOwner : ∀ c ∈ created, ∀ old, before.find? (canonicalOwnedObjectId c.1) = some old →
    (c.2.owner.toHexLiteral = c.1 ∨ c.2.owner = old.owner) →
      isAddressOwned c.2.ownerKind = isAddressOwned old.ownerKind

/-- In the middle of the writes: pending entries are for new objects, and every object is as it
was before or as the last entry for it says. -/
structure Indexing (before : OrdMap String StoredObject) (created : List (String × CreatedObject))
    (acc : ApplyAcc) : Prop where
  agree : Agreeing acc
  pending : ∀ {a id}, (a, id) ∈ acc.ownedIndexAdditions → before.find? id = none
  kept : ∀ {id}, acc.state.objects.find? id = none → before.find? id = none
  written : ∀ {id obj}, acc.state.objects.find? id = some obj → before.find? id = some obj ∨
    ∃ c ∈ created, canonicalOwnedObjectId c.1 = id ∧
      isAddressOwned c.2.ownerKind = isAddressOwned obj.ownerKind ∧
      (before.find? id = none → isAddressOwned obj.ownerKind = true → c.2.owner = obj.owner)

lemma Indexing.write (h : Indexing before created acc) (hc : c ∈ created) {new : StoredObject}
    (hobjects : acc'.state.objects = acc.state.objects.insert (canonicalOwnedObjectId c.1) new)
    (hagree : Agreeing acc')
    (hpending : ∀ {a id}, (a, id) ∈ acc'.ownedIndexAdditions → before.find? id = none)
    (hkind : new.ownerKind = c.2.ownerKind)
    (howner : before.find? (canonicalOwnedObjectId c.1) = none → isAddressOwned c.2.ownerKind = true →
      c.2.owner = new.owner) : Indexing before created acc' where
  agree := hagree
  pending := hpending
  kept := by
    intro id hid
    rw [hobjects, OrdMap.find?_insert] at hid
    split_ifs at hid
    exact h.kept hid
  written := by
    intro id obj hid
    rw [hobjects, OrdMap.find?_insert] at hid
    split_ifs at hid with heq
    · subst heq
      cases hid
      rw [← hkind] at howner
      exact .inr ⟨c, hc, rfl, by rw [hkind], howner⟩
    · exact h.written hid

lemma Indexing.created_fresh (h : Indexing before created acc) (hc : c ∈ created)
    (hload : acc.state.loadStoredObjectByAnyId c.1 = none)
    (hstep : applyCreatedObject ctx acc c = .ok acc') : Indexing before created acc' := by
  obtain ⟨version, hobjects, howned, hindex, hadditions, hindexed, -, -, -⟩ :=
    applyCreatedObject_fresh hload hstep
  have hnone := find_canonical_of_load_none h.agree.canonical hload
  have hadded : ∀ a id, (a, id) ∈ acc'.ownedIndexAdditions ↔ (a, id) ∈ acc.ownedIndexAdditions ∨
      (isAddressOwned c.2.ownerKind = true ∧ a = c.2.owner ∧ id = canonicalOwnedObjectId c.1) := by
    intro a id
    rw [hadditions, List.mem_append]
    split_ifs with hkind <;> simp [hkind]
  refine h.write hc hobjects ?_ ?_ rfl fun _ _ => rfl
  · unfold Agreeing
    rw [hobjects]
    apply IndexesAgree.write h.agree (canonicalOwnedObjectId_idem c.1)
    · intro a id hne
      rw [contains_flushed, contains_flushed, howned, hadded]
      simp [hne]
    · intro a
      have hunlisted : ¬((flushIndexes acc).state.ownedObjects a).contains (canonicalOwnedObjectId c.1) =
          true := by
        rw [h.agree.owned, hnone]
        simp
      rw [contains_flushed] at hunlisted
      rw [contains_flushed, howned, hadded, ← or_assoc, or_iff_right hunlisted]
      show _ ↔ isAddressOwned c.2.ownerKind = true ∧ c.2.owner = a
      rw [eq_comm (a := a)]
      simp
    · exact contains_flushedIndex_append hindex hindexed
  · intro a id hmem
    obtain hmem | ⟨-, -, rfl⟩ := (hadded a id).mp hmem
    · exact h.pending hmem
    · exact h.kept hnone

lemma Indexing.created_over {storedId : String} {old : StoredObject}
    (hcs : KeepsEntries before created) (h : Indexing before created acc) (hc : c ∈ created)
    (hload : acc.state.loadStoredObjectByAnyId c.1 = some (storedId, old))
    (hstep : applyCreatedObject ctx acc c = .ok acc') : Indexing before created acc' := by
  obtain ⟨new, charged, -, hkind, howner, -, hobjects, howned, hindex, hadditions, hindexed, -, -⟩ :=
    applyCreatedObject_over hload hstep
  obtain ⟨rfl, hold⟩ := load_canonical h.agree.canonical hload
  rw [if_pos rfl] at hobjects
  have hlisted : ∀ a, ((flushIndexes acc).state.ownedObjects a).contains (canonicalOwnedObjectId c.1) =
      true ↔ isAddressOwned old.ownerKind = true ∧ old.owner = a := by
    intro a
    rw [h.agree.owned, hold]
    simp
  -- a new object keeps the owner that the entries for it agree on
  have hfresh : before.find? (canonicalOwnedObjectId c.1) = none →
      isAddressOwned c.2.ownerKind = isAddressOwned old.ownerKind ∧
        (isAddressOwned c.2.ownerKind = true → c.2.owner = old.owner) := by
    intro hnone
    obtain hbefore | ⟨c', hc', hid, hkind', howner'⟩ := h.written hold
    · rw [hnone] at hbefore
      cases hbefore
    · have hsame := hcs.sameKind c hc c' hc' hid.symm
      refine ⟨hsame.trans hkind', fun hc_kind => ?_⟩
      rw [hcs.sameOwner c hc c' hc' hid.symm hc_kind hnone]
      exact howner' hnone (by rw [← hkind', ← hsame, hc_kind])
  have hnewOwner : c.2.owner = old.owner → new.owner = old.owner := by
    intro hsame
    rw [howner, hsame, ite_self]
  have hkept : old.owner = new.owner → isAddressOwned new.ownerKind = isAddressOwned old.ownerKind := by
    intro hsame
    rw [hkind]
    obtain hbefore | ⟨c', hc', hid, hkind', -⟩ := h.written hold
    · apply hcs.keptOwner c hc old hbefore
      rw [howner] at hsame
      split_ifs at hsame with hself
      · exact .inl (eq_of_beq hself)
      · exact .inr hsame.symm
    · exact (hcs.sameKind c hc c' hc' hid.symm).trans hkind'
  have hpendingOwner : ∀ {a}, (a, canonicalOwnedObjectId c.1) ∈ acc.ownedIndexAdditions →
      old.owner = new.owner := by
    intro a hmem
    have hentry := (hlisted a).mp ((contains_flushed acc a _).mpr (.inr hmem))
    obtain ⟨hsame, hsameOwner⟩ := hfresh (h.pending hmem)
    exact (hnewOwner (hsameOwner (hsame.trans hentry.1))).symm
  have hmoved := contains_movedIndex h.agree.canonicalEntries c.1 old new
  refine h.write hc hobjects ?_ ?_ hkind ?_
  · unfold Agreeing
    rw [hobjects]
    apply IndexesAgree.write h.agree (canonicalOwnedObjectId_idem c.1)
    · intro a id hne
      rw [contains_flushed, contains_flushed, howned, hadditions, hmoved]
      simp [hne]
    · intro a
      show _ ↔ isAddressOwned new.ownerKind = true ∧ new.owner = a
      rw [contains_flushed, howned, hadditions, hmoved]
      simp only [and_true]
      split_ifs with hsame
      · rw [← contains_flushed, hlisted, hkept hsame, hsame]
      · have hnot : ¬(a, canonicalOwnedObjectId c.1) ∈ acc.ownedIndexAdditions :=
          fun hmem => hsame (hpendingOwner hmem)
        have hstored : (acc.state.ownedObjects a).contains (canonicalOwnedObjectId c.1) = true ↔
            isAddressOwned old.ownerKind = true ∧ old.owner = a := by
          rw [← hlisted, contains_flushed, or_iff_left hnot]
        rw [hstored, or_iff_left hnot, eq_comm (a := a) (b := new.owner), eq_comm (a := a) (b := old.owner),
          and_not_self_iff, or_false]
    · exact contains_flushedIndex_append hindex hindexed
  · intro a id hmem
    rw [hadditions] at hmem
    exact h.pending hmem
  · intro hnone hc_kind
    have hsame := (hfresh hnone).2 hc_kind
    rw [hsame]
    exact (hnewOwner hsame).symm

lemma Indexing.created_loop (hcs : KeepsEntries before created) (h : Indexing before created acc)
    (hloop : foldOk (applyCreatedObject ctx) acc created = .ok acc') :
    Indexing before created acc' := by
  apply foldOk_invariant (Indexing before created) _ h hloop
  intro s c s' hc hs hstep
  cases hload : s.state.loadStoredObjectByAnyId c.1 with
  | none => exact hs.created_fresh hc hload hstep
  | some e => exact hs.created_over hcs hc hload hstep

def OwnedFrom (before : OrdMap String StoredObject) (created : List (String × CreatedObject))
    (after : OrdMap String StoredObject) : Prop :=
  ∀ id obj, after.find? id = some obj → isAddressOwned obj.ownerKind = true →
    (∃ old, before.find? id = some old ∧ isAddressOwned old.ownerKind = true) ∨
      ∃ c ∈ created, canonicalOwnedObjectId c.1 = id ∧ isAddressOwned c.2.ownerKind = true

lemma Indexing.ownedFrom (h : Indexing before created acc) :
    OwnedFrom before created acc.state.objects := by
  intro id obj hobj hkind
  obtain hold | ⟨c, hc, hid, hsame, -⟩ := h.written hobj
  · exact .inl ⟨obj, hold, hkind⟩
  · exact .inr ⟨c, hc, hid, hsame.trans hkind⟩

/-! ## Gas objects -/

lemma OwnedFrom.gas {ref : ObjectRef} (hagree : Agreeing acc)
    (h : OwnedFrom before created acc.state.objects) (hstep : applyGasObject ctx acc ref = .ok acc') :
    OwnedFrom before created acc'.state.objects := by
  obtain rfl | ⟨storedId, old, debit, data, hload, -, -, hpaid⟩ := applyGasObject_ok hstep
  · exact h
  obtain ⟨rfl, hold⟩ := load_canonical hagree.canonical hload
  intro id obj hobj hkind
  rw [hpaid.objects, if_pos rfl, OrdMap.find?_insert] at hobj
  split_ifs at hobj with heq
  · cases hobj
    rw [heq]
    exact h _ old hold hkind
  · exact h id obj hobj hkind

lemma Agreeing.gas {ref : ObjectRef} (h : Agreeing acc)
    (hstep : applyGasObject ctx acc ref = .ok acc') : Agreeing acc' := by
  obtain rfl | ⟨storedId, old, debit, data, hload, -, -, hpaid⟩ := applyGasObject_ok hstep
  · exact h
  obtain ⟨rfl, hold⟩ := load_canonical h.canonical hload
  have hobjects := hpaid.objects
  rw [if_pos rfl] at hobjects
  have hlisted : ∀ a, ((flushIndexes acc).state.ownedObjects a).contains
      (canonicalOwnedObjectId ref.objectId) = true ↔ isAddressOwned old.ownerKind = true ∧ old.owner = a := by
    intro a
    rw [h.owned, hold]
    simp
  have howned : ∀ a id, (acc'.state.ownedObjects a).contains id = true ↔
      (acc.state.ownedObjects a).contains id = true ∨ (isAddressOwned old.ownerKind = true ∧
        a = old.owner ∧ id = canonicalOwnedObjectId ref.objectId) := by
    intro a id
    rw [hpaid.ownedObjects]
    split_ifs with hkind
    · rw [contains_refreshOwned h.canonicalEntries, or_comm]
      simp [hkind]
    · simp [hkind]
  unfold Agreeing
  rw [hobjects]
  apply IndexesAgree.write h (canonicalOwnedObjectId_idem _)
  · intro a id hne
    rw [contains_flushed, contains_flushed, hpaid.ownedAdditions, howned]
    simp [hne]
  · intro a
    show _ ↔ isAddressOwned old.ownerKind = true ∧ old.owner = a
    rw [← hlisted, contains_flushed, contains_flushed, hpaid.ownedAdditions, howned]
    constructor
    · rintro ((hbefore | ⟨hkind, rfl, -⟩) | hadded)
      · exact .inl hbefore
      · exact (contains_flushed acc _ _).mp ((hlisted _).mpr ⟨hkind, rfl⟩)
      · exact .inr hadded
    · tauto
  · exact contains_flushedIndex_append hpaid.objectIndex hpaid.indexAdditions

/-! ## The object stage -/

lemma getObject_canonical
    (hσ : ∀ {id obj}, σ.objects.find? id = some obj → canonicalOwnedObjectId id = id)
    (objectId : String) :
    σ.getObject objectId = σ.objects.find? (canonicalOwnedObjectId objectId) := by
  unfold getObject
  cases hfind : σ.objects.find? (canonicalOwnedObjectId objectId) with
  | some obj => rw [load_of_find_canonical hσ hfind, Option.map_some]
  | none =>
    cases hload : σ.loadStoredObjectByAnyId objectId with
    | none => rfl
    | some e =>
      obtain ⟨storedId, obj⟩ := e
      obtain ⟨rfl, hobj⟩ := load_canonical hσ hload
      rw [hfind] at hobj
      cases hobj

lemma Clean.deleted_loop {l : List String} (h : Clean acc)
    (hloop : foldOk applyDeletedObject acc l = .ok acc') :
    Clean acc' ∧ ∀ id, acc'.state.objects.find? id =
      if id ∈ l.map canonicalOwnedObjectId then none else acc.state.objects.find? id := by
  induction l generalizing acc with
  | nil =>
    cases hloop
    exact ⟨h, fun id => by simp⟩
  | cons objectId l ih =>
    obtain ⟨mid, hmid, hrest⟩ := foldOk_cons_eq_ok.mp hloop
    obtain ⟨hclean, hobjects⟩ := h.deleted hmid
    obtain ⟨hclean', hfind⟩ := ih hclean hrest
    refine ⟨hclean', fun id => ?_⟩
    rw [hfind, hobjects, OrdMap.find?_erase, List.map_cons]
    by_cases heq : id = canonicalOwnedObjectId objectId <;> simp [heq]

lemma KeepsIndexes.entries (h : KeepsIndexes σ cs)
    (hσ : ∀ {id obj}, σ.objects.find? id = some obj → canonicalOwnedObjectId id = id)
    (hbefore : ∀ id, before.find? id =
      if id ∈ cs.deletedObjects.map canonicalOwnedObjectId then none else σ.objects.find? id) :
    KeepsEntries before cs.createdObjects where
  sameKind := h.sameKind
  sameOwner := by
    intro c hc c' hc' hid hkind hnone
    apply h.sameOwner c hc c' hc' hid hkind
    rw [getObject_canonical hσ]
    rw [hbefore] at hnone
    split_ifs at hnone with hdeleted
    · exact .inr hdeleted
    · exact .inl hnone
  keptOwner := by
    intro c hc old hold
    rw [hbefore] at hold
    split_ifs at hold with hdeleted
    apply h.keptOwner c hc old _ hdeleted
    rw [getObject_canonical hσ, hold]

lemma applyObjects_indexes (h : Clean acc) (hcs : KeepsIndexes acc.state ctx.cs)
    (hstage : applyObjects ctx acc = .ok acc') :
    Agreeing acc' ∧ OwnedFrom acc.state.objects ctx.cs.createdObjects acc'.state.objects := by
  obtain ⟨hinted, hhinted, hstage⟩ := bind_eq_ok.mp hstage
  obtain ⟨deleted, hdeleted, hstage⟩ := bind_eq_ok.mp hstage
  obtain ⟨created, hcreated, hgas⟩ := bind_eq_ok.mp hstage
  obtain ⟨hclean, hstate⟩ : Clean hinted ∧ hinted.state = acc.state := by
    apply foldOk_invariant (fun s : ApplyAcc => Clean s ∧ s.state = acc.state) _ ⟨h, rfl⟩ hhinted
    intro s e s' _ hs hstep
    obtain rfl | rfl := applyBalanceHint_ok hstep
    · exact hs
    · exact ⟨⟨hs.1.agree.congr rfl rfl rfl rfl rfl, hs.1.additions, hs.1.indexed⟩, hs.2⟩
  obtain ⟨hcleaned, hleft⟩ := hclean.deleted_loop hdeleted
  rw [hstate] at hleft
  obtain ⟨_, _, hcollections⟩ := indexCollections_state ctx.cs deleted.state
  have hstart : Indexing deleted.state.objects ctx.cs.createdObjects
      { deleted with state := indexCollections ctx.cs deleted.state } := by
    rw [hcollections]
    refine ⟨hcleaned.agree.congr rfl rfl rfl rfl rfl, ?_, fun hid => hid, fun hid => .inl hid⟩
    intro a id hmem
    have hmem : (a, id) ∈ deleted.ownedIndexAdditions := hmem
    rw [hcleaned.additions] at hmem
    cases hmem
  have hwritten := hstart.created_loop (hcs.entries h.agree.canonical hleft) hcreated
  have hfrom : OwnedFrom acc.state.objects ctx.cs.createdObjects created.state.objects := by
    intro id obj hobj hkind
    obtain ⟨old, hold, hown⟩ | hnew := hwritten.ownedFrom id obj hobj hkind
    · rw [hleft] at hold
      split_ifs at hold
      exact .inl ⟨old, hold, hown⟩
    · exact .inr hnew
  exact foldOk_invariant (fun s : ApplyAcc => Agreeing s ∧ OwnedFrom acc.state.objects ctx.cs.createdObjects
    s.state.objects) (fun _ _ _ _ hs hstep => ⟨hs.1.gas hstep, hs.2.gas hs.1 hstep⟩)
    ⟨hwritten.agree, hfrom⟩ hgas

/-! ## The whole application -/

lemma KeepsIndexes.congr (h : KeepsIndexes σ cs) (hobjects : σ'.objects = σ.objects) :
    KeepsIndexes σ' cs := by
  have hget : ∀ id, σ'.getObject id = σ.getObject id := by
    intro id
    unfold getObject loadStoredObjectByAnyId
    rw [hobjects]
  refine ⟨h.sameKind, ?_, ?_⟩
  · intro c hc c' hc'
    rw [hget]
    exact h.sameOwner c hc c' hc'
  · intro c hc old
    rw [hget]
    exact h.keptOwner c hc old

lemma IndexesAgree.apply (hσ : IndexesAgree σ.objects σ.ownedObjects σ.objectIndex)
    (hcs : KeepsIndexes σ cs) (h : σ.applyChangesetWithoutSupplyValidation cs = .ok σ') :
    IndexesAgree σ'.objects σ'.ownedObjects σ'.objectIndex ∧
      OwnedFrom σ.objects cs.createdObjects σ'.objects := by
  obtain ⟨next, ctx, moved, written, settled, reconcile, before, -, hctx, hmoved, hwritten, hsettled,
    hfinish⟩ := apply_stages h
  rw [← applyContext_cs hctx] at hcs ⊢
  obtain ⟨_, _, _, _, _, _, rfl⟩ := applyOwnerDeltas_stage hmoved
  obtain ⟨_, _, _, _, _, _, hsupplies⟩ := applySupplies_state next cs _
  rw [hsupplies] at hwritten
  obtain ⟨hagree, hfrom⟩ := applyObjects_indexes (Clean.of_stored hσ rfl rfl) (hcs.congr rfl) hwritten
  rw [← apply_objects hsettled hfinish] at hfrom
  refine ⟨?_, hfrom⟩
  unfold Agreeing at hagree
  rw [← flushIndexes_objects] at hagree
  obtain ⟨_, _, _, honly⟩ := recomputeOwners_only hsettled
  obtain ⟨_, _, _, _, _, _, rfl⟩ := finishApply_state hfinish
  rw [honly]
  exact hagree

/-- One change set that the indexes can follow, applied with or without the checks of supply. -/
def AppliesIndexed (σ σ' : StateManager) : Prop :=
  ∃ cs, KeepsIndexes σ cs ∧
    (σ.applyChangeset cs = .ok σ' ∨ σ.applyChangesetWithoutSupplyValidation cs = .ok σ')

lemma IndexesAgree.step (hσ : IndexesAgree σ.objects σ.ownedObjects σ.objectIndex)
    (h : AppliesIndexed σ σ') : IndexesAgree σ'.objects σ'.ownedObjects σ'.objectIndex := by
  obtain ⟨cs, hcs, happly | happly⟩ := h
  · obtain ⟨τ, hτ, hrepair⟩ := applyChangeset_ok happly
    have hagree := (hσ.apply hcs hτ).1
    obtain ⟨_, _, _, rfl⟩ := repairLegacyNativeWalletOvercount_state hrepair
    exact hagree
  · exact (hσ.apply hcs happly).1

lemma IndexesAgree.run (hσ : IndexesAgree σ.objects σ.ownedObjects σ.objectIndex)
    (hrun : Relation.ReflTransGen AppliesIndexed σ σ') :
    IndexesAgree σ'.objects σ'.ownedObjects σ'.objectIndex := by
  induction hrun with
  | refl => exact hσ
  | tail _ hstep ih => exact ih.step hstep

lemma indexesAgree_empty : IndexesAgree ({} : StateManager).objects ({} : StateManager).ownedObjects
    ({} : StateManager).objectIndex where
  canonical := fun h => by cases h
  owned := fun _ _ => ⟨fun h => (by cases h), fun ⟨_, h, _⟩ => (by cases h)⟩
  indexed := fun _ => Iff.rfl

/-! ## Runs -/

/-- Along every run from the empty store the indexes are sorted lists without duplicates of exactly
the objects they are about. -/
theorem object_indexes_run {σ : StateManager} (hrun : Relation.ReflTransGen AppliesIndexed {} σ) :
    (∀ o, (OrdSet.elems (σ.ownedObjects o)).Pairwise (· < ·) ∧
      ∀ id, id ∈ OrdSet.elems (σ.ownedObjects o) ↔
        ∃ obj, σ.objects.find? id = some obj ∧ isAddressOwned obj.ownerKind = true ∧ obj.owner = o) ∧
      (OrdSet.elems σ.objectIndex).Pairwise (· < ·) ∧
      ∀ id, id ∈ OrdSet.elems σ.objectIndex ↔ ∃ obj, σ.objects.find? id = some obj := by
  have hσ := indexesAgree_empty.run hrun
  refine ⟨fun o => ⟨SortedList.sorted_elems _, ?_⟩, SortedList.sorted_elems _, ?_⟩
  · intro id
    rw [OrdSet.mem_elems, hσ.owned]
  · intro id
    rw [OrdSet.mem_elems, hσ.indexed]
    exact Option.isSome_iff_exists

/-! ### An object changes hands and becomes shared -/

def writeItem (id : String) (owner : UInt8) (kind : ObjectOwnerKind) : ChangeSet :=
  { createdObjects := [(id, ⟨.ofByte owner, kind, "0x5::shop::Item", [], 0⟩)] }

lemma writeItem_keepsIndexes {id : String} {owner : UInt8} {kind : ObjectOwnerKind}
    (h : ∀ old, σ.getObject id = some old → (AccountAddress.ofByte owner).toHexLiteral ≠ id ∧
      AccountAddress.ofByte owner ≠ old.owner) : KeepsIndexes σ (writeItem id owner kind) where
  sameKind := by
    intro c hc c' hc' _
    rw [List.mem_singleton.mp hc, List.mem_singleton.mp hc']
  sameOwner := by
    intro c hc c' hc' _ _ _
    rw [List.mem_singleton.mp hc, List.mem_singleton.mp hc']
  keptOwner := by
    intro c hc old hold _ howner
    rw [List.mem_singleton.mp hc] at hold howner
    obtain ⟨hself, hother⟩ := h old hold
    exact absurd howner (not_or.mpr ⟨hself, hother⟩)

lemma sharedItem_run : okAnd (({} : StateManager).applyChangeset (writeItem "0x0c" 0xa (.addressOwner "0xa")))
    (fun σ => decide ((σ.getObject "0xc").map (·.owner) = some (.ofByte 0xa)) &&
      okAnd (σ.applyChangeset (writeItem "0xc" 0xb .shared)) fun σ' =>
        decide ((σ'.objects.find? "0xc").isSome)) = true := by
  decide +kernel

theorem object_indexes_run_shared : ∃ σ, Relation.ReflTransGen AppliesIndexed {} σ ∧
    "0xc" ∈ OrdSet.elems σ.objectIndex := by
  obtain ⟨σ, hcreate, hfacts⟩ := exists_of_okAnd sharedItem_run
  rw [Bool.and_eq_true, decide_eq_true_eq] at hfacts
  obtain ⟨σ', hshare, hfound⟩ := exists_of_okAnd hfacts.2
  have hcreated : AppliesIndexed {} σ := by
    refine ⟨_, writeItem_keepsIndexes ?_, .inl hcreate⟩
    intro old hold
    cases hold
  have hshared : AppliesIndexed σ σ' := by
    refine ⟨_, writeItem_keepsIndexes ?_, .inl hshare⟩
    intro old hold
    have howner := hfacts.1
    rw [hold, Option.map_some, Option.some.injEq] at howner
    rw [howner]
    exact ⟨by decide +kernel, by decide⟩
  have hrun := (Relation.ReflTransGen.single hcreated).tail hshared
  refine ⟨σ', hrun, ((object_indexes_run hrun).2.2 "0xc").mpr ?_⟩
  exact Option.isSome_iff_exists.mp (of_decide_eq_true hfound)

/-! ### The same owner, another kind -/

def EndsIn (css : List ChangeSet) (p : StateManager → Bool) : Prop :=
  okAnd (foldOk applyChangeset {} css) p = true

def listsItem (σ : StateManager) : Bool := decide ("0xc" ∈ OrdSet.elems (σ.ownedObjects (.ofByte 0xa)))

def ownsItem (σ : StateManager) : Bool :=
  (σ.objects.find? "0xc").any fun obj => isAddressOwned obj.ownerKind && obj.owner == .ofByte 0xa

/-- An owned object that becomes shared under its owner stays listed, a shared one that becomes owned
is not listed, and of two entries for a new object the first one stays listed. -/
theorem object_indexes_stale :
    EndsIn [writeItem "0xc" 0xa (.addressOwner "0xa"), writeItem "0xc" 0xa .shared]
      (fun σ => listsItem σ && !ownsItem σ) ∧
    EndsIn [writeItem "0xc" 0xa .shared, writeItem "0xc" 0xa (.addressOwner "0xa")]
      (fun σ => !listsItem σ && ownsItem σ) ∧
    EndsIn [{ createdObjects := (writeItem "0xc" 0xa (.addressOwner "0xa")).createdObjects ++
        (writeItem "0xc" 0xb (.addressOwner "0xb")).createdObjects }]
      (fun σ => listsItem σ && !ownsItem σ) := by
  unfold EndsIn
  decide +kernel

end Kanari.Proofs

import Kanari.ObjectStorage

/-!
# The object store refines a map

The cache holds a part of the map, the persistent store all of it, and the index lists are the
secondary indexes of the map.
-/

namespace Kanari.Proofs

open Lib Kanari.ObjectStorage

/-! ## The abstract store -/

abbrev ObjectMap := OrdMap String StoredObject

/-- The last value stored under an identifier and not deleted since; a write that fails does
nothing. -/
def objectMapRun (m : ObjectMap) : ObjectStorage.Call → Reply × ObjectMap
  | .store _ (some e) => (.error e, m)
  | .store obj none => (.ok none, m.insert obj.id obj)
  | .get id => (.ok (m.find? id), m)
  | .delete _ (some e) => (.error e, m)
  | .delete id none => (.ok none, m.erase id)
  | .clear => (.ok none, m)
  | .reopen => (.ok none, m)

def objectMapRunAll (m : ObjectMap) : List ObjectStorage.Call → List Reply × ObjectMap
  | [] => ([], m)
  | c :: calls =>
    let (reply, m) := objectMapRun m c
    let (replies, m) := objectMapRunAll m calls
    (reply :: replies, m)

def isOwnedBy (owner : AccountAddress) (obj : StoredObject) : Bool :=
  isOwned obj.ownerKind && obj.owner == owner

def ownedIds (m : ObjectMap) (owner : AccountAddress) : OrdSet String :=
  OrdSet.keysWhere m (isOwnedBy owner)

def allIds (m : ObjectMap) : OrdSet String := OrdSet.keysWhere m fun _ => true

/-! ## The relation -/

/-- The record under a key is the list of the set's elements; the empty list may be missing. -/
def HoldsIds (store : ObjectRecords) (key : String) (ids : OrdSet String) : Prop :=
  store.find? key = some (.ids (OrdSet.elems ids)) ∨ (store.find? key = none ∧ OrdSet.elems ids = [])

/-- The persistent store holds the map and its indexes, and no legacy record. -/
structure Persists (m : ObjectMap) (store : ObjectRecords) : Prop where
  objects : ∀ id, store.find? (objectKey id) = (m.find? id).map .object
  all : HoldsIds store OBJECT_INDEX_KEY (allIds m)
  owned : ∀ owner, HoldsIds store (ownedObjectsKey owner) (ownedIds m owner)
  legacy : ∀ owner, store.find? (legacyOwnerKey owner) = none

/-- The storage is open on a store that persists the map, and caches a part of it. -/
structure Refines (m : ObjectMap) (s : ObjectStorage) : Prop where
  cached : ∀ id obj, s.objects.find? id = some obj → m.find? id = some obj
  persisted : ∃ store, s.persistent = some store ∧ Persists m store

/-! ## Keys -/

lemma objectKey_ne_index (id : String) : objectKey id ≠ OBJECT_INDEX_KEY := by
  intro h
  have hlist := congrArg String.toList h
  rw [objectKey_toList] at hlist
  simp [OBJECT_INDEX_KEY] at hlist

lemma ownedObjectsKey_ne_index (owner : AccountAddress) : ownedObjectsKey owner ≠ OBJECT_INDEX_KEY := by
  intro h
  have hstart : startsWith (ownedObjectsKey owner) "owned_objects:" = true := startsWith_append _ _
  rw [h] at hstart
  exact absurd hstart (by decide)

lemma legacyOwnerKey_ne_index (owner : AccountAddress) : legacyOwnerKey owner ≠ OBJECT_INDEX_KEY := by
  intro h
  have hstart : startsWith (legacyOwnerKey owner) "owner_index:" = true := startsWith_append _ _
  rw [h] at hstart
  exact absurd hstart (by decide)

lemma objectKey_ne_legacy (id : String) (owner : AccountAddress) : objectKey id ≠ legacyOwnerKey owner := by
  intro h
  have hlist := congrArg String.toList h
  rw [objectKey_toList, legacyOwnerKey, String.toList_append] at hlist
  simp at hlist

lemma ownedObjectsKey_ne_legacy (owner owner' : AccountAddress) :
    ownedObjectsKey owner ≠ legacyOwnerKey owner' := by
  intro h
  have hlist := congrArg String.toList h
  rw [ownedObjectsKey, legacyOwnerKey, String.toList_append, String.toList_append] at hlist
  simp at hlist

/-! ## Reading the indexes -/

variable {id key : String} {ids : OrdSet String} {s : ObjectStorage} {store' : ObjectRecords}
  {owner : AccountAddress} {o obj : StoredObject}

lemma loadIds_of_holdsIds {store : ObjectRecords} (h : HoldsIds store key ids) :
    ∃ loaded, loadIds store key = .ok loaded ∧
      loaded.getD [] = OrdSet.elems ids := by
  unfold loadIds
  rcases h with h | ⟨h, hempty⟩
  · exact ⟨some (OrdSet.elems ids), by rw [h], rfl⟩
  · exact ⟨none, by rw [h], hempty.symm⟩

lemma loadIdIndex_of_holdsIds {store : ObjectRecords} (h : HoldsIds store key ids) :
    loadIdIndex store key = .ok (OrdSet.elems ids) := by
  obtain ⟨loaded, hload, hget⟩ := loadIds_of_holdsIds h
  simp only [loadIdIndex, hload, ok_bind, hget, SortedList.addAll_elems, pure_eq_ok]

lemma loadObject_of_persists {m : ObjectMap} {store : ObjectRecords} (h : Persists m store)
    (id : String) : loadObject store (objectKey id) = .ok (m.find? id) := by
  unfold loadObject
  rw [h.objects id]
  cases m.find? id with
  | none => rfl
  | some obj => rfl

lemma oldObject_of_refines {m : ObjectMap} (h : Refines m s) (id : String) :
    s.oldObject id = .ok (m.find? id) := by
  obtain ⟨store, hstore, hpersists⟩ := h.persisted
  unfold oldObject
  cases hcached : s.objects.find? id with
  | some obj => rw [h.cached id obj hcached]
  | none =>
    rw [hstore]
    exact loadObject_of_persists hpersists id

/-! ## Writing the indexes -/

def putAll (store : ObjectRecords) (updates : List (String × StoredValue)) : ObjectRecords :=
  updates.foldl (fun m e => m.insert e.1 e.2) store

lemma putAll_append (store : ObjectRecords) (a b : List (String × StoredValue)) :
    putAll store (a ++ b) = putAll (putAll store a) b := List.foldl_append

lemma find?_putAll_indexUpdate (store : ObjectRecords) {k : String} (changed : Option (List String))
    (hne : k ≠ key) : (putAll store (indexUpdate key changed)).find? k = store.find? k := by
  cases changed with
  | none => rfl
  | some ids =>
    show (store.insert key (.ids ids)).find? k = store.find? k
    rw [OrdMap.find?_insert, if_neg hne]

lemma holdsIds_congr {store : ObjectRecords} (h : store'.find? key = store.find? key) :
    HoldsIds store' key ids ↔ HoldsIds store key ids := by
  unfold HoldsIds
  rw [h]

lemma holdsIds_added {store : ObjectRecords} (h : HoldsIds store key ids) :
    HoldsIds (putAll store (indexUpdate key (addIndexId (OrdSet.elems ids) id))) key (ids.add id) := by
  have hinsert := SortedList.insert_elems ids id
  unfold SortedList.insert at hinsert
  unfold addIndexId
  cases hsearch : SortedList.binarySearch (OrdSet.elems ids) id with
  | ok pos =>
    simp only [hsearch] at hinsert
    have hmem := OrdSet.mem_elems.mp (SortedList.mem_of_binarySearch_ok hsearch)
    rw [OrdSet.add_of_contains hmem]
    exact h
  | error pos =>
    simp only [hsearch] at hinsert
    left
    show (store.insert key _).find? key = _
    rw [OrdMap.find?_insert, if_pos rfl, hinsert]

lemma holdsIds_removed {store : ObjectRecords} (h : HoldsIds store key ids) :
    HoldsIds (putAll store (indexUpdate key (removeIndexId (OrdSet.elems ids) id))) key
      (OrdMap.erase ids id) := by
  have herase := SortedList.erase_elems ids id
  unfold SortedList.erase at herase
  unfold removeIndexId
  cases hsearch : SortedList.binarySearch (OrdSet.elems ids) id with
  | ok pos =>
    simp only [hsearch] at herase
    left
    show (store.insert key _).find? key = _
    rw [OrdMap.find?_insert, if_pos rfl, herase]
  | error pos =>
    simp only [hsearch] at herase
    unfold HoldsIds
    rw [← herase]
    exact h

/-! ## The owner lists of a write -/

section

variable {m : ObjectMap} {store : ObjectRecords}

lemma removeFromOwner_ok (h : Persists m store) (owner : AccountAddress) (id : String) :
    removeFromOwner store owner id = .ok (indexUpdate (ownedObjectsKey owner)
      (removeIndexId (OrdSet.elems (ownedIds m owner)) id)) := by
  simp only [removeFromOwner, loadIdIndex_of_holdsIds (h.owned owner), ok_bind, pure_eq_ok]

lemma addToOwner_ok (h : Persists m store) (owner : AccountAddress) (id : String) :
    addToOwner store owner id = .ok (indexUpdate (ownedObjectsKey owner)
      (addIndexId (OrdSet.elems (ownedIds m owner)) id), []) := by
  have hlegacy : loadIdIndex store (legacyOwnerKey owner) = .ok [] := by
    simp only [loadIdIndex, loadIds, h.legacy owner]
    rfl
  unfold addToOwner loadOwnedObjectIdsForBatch
  simp only [loadIdIndex_of_holdsIds (h.owned owner), ok_bind, hlegacy, pure_eq_ok]
  cases hids : OrdSet.elems (ownedIds m owner) with
  | nil => rfl
  | cons id' ids => rfl

/-- The lists of `updates` are those of the map `m'`, and nothing but owner lists is written. -/
structure WritesOwners (store : ObjectRecords) (updates : List (String × StoredValue))
    (m' : ObjectMap) : Prop where
  owned : ∀ owner, HoldsIds (putAll store updates) (ownedObjectsKey owner) (ownedIds m' owner)
  other : ∀ k, (∀ owner, k ≠ ownedObjectsKey owner) →
    (putAll store updates).find? k = store.find? k

def HoldsOwners (store : ObjectRecords) (m : ObjectMap) : Prop :=
  ∀ owner, HoldsIds store (ownedObjectsKey owner) (ownedIds m owner)

lemma writesOwners_of_one {changed : Option (List String)} {m' : ObjectMap}
    (h : HoldsOwners store m)
    (howner : HoldsIds (putAll store (indexUpdate (ownedObjectsKey owner) changed))
      (ownedObjectsKey owner) (ownedIds m' owner))
    (hothers : ∀ owner', owner' ≠ owner → ownedIds m' owner' = ownedIds m owner') :
    WritesOwners store (indexUpdate (ownedObjectsKey owner) changed) m' where
  owned := by
    intro owner'
    by_cases heq : owner' = owner
    · rw [heq]
      exact howner
    · rw [hothers owner' heq]
      refine (holdsIds_congr (find?_putAll_indexUpdate store changed ?_)).mpr (h owner')
      exact fun hkey => heq (ownedObjectsKey_injective hkey)
  other := fun k hk => find?_putAll_indexUpdate store changed (hk owner)

lemma writesOwners_nil {m' : ObjectMap} (h : HoldsOwners store m)
    (hsame : ∀ owner, ownedIds m' owner = ownedIds m owner) : WritesOwners store [] m' where
  owned := fun owner => hsame owner ▸ h owner
  other := fun _ _ => rfl

lemma WritesOwners.append {a b : List (String × StoredValue)} {m₁ m₂ : ObjectMap}
    (ha : WritesOwners store a m₁) (hb : WritesOwners (putAll store a) b m₂) :
    WritesOwners store (a ++ b) m₂ where
  owned := fun owner => by
    rw [putAll_append]
    exact hb.owned owner
  other := fun k hk => by
    rw [putAll_append, hb.other k hk, ha.other k hk]

lemma ownedIds_insert (obj : StoredObject) (owner : AccountAddress) :
    ownedIds (m.insert obj.id obj) owner = if isOwnedBy owner obj = true then
      (ownedIds m owner).add obj.id else OrdMap.erase (ownedIds m owner) obj.id :=
  OrdSet.keysWhere_insert m _ _ _

lemma ownedIds_contains_iff :
    (ownedIds m owner).contains id = true ↔ ∃ o, m.find? id = some o ∧ isOwnedBy owner o = true :=
  OrdSet.contains_keysWhere

lemma isOwnedBy_iff : isOwnedBy owner o = true ↔ isOwned o.ownerKind = true ∧ o.owner = owner := by
  simp [isOwnedBy]

lemma isOwned_iff {kind : ObjectOwnerKind} : isOwned kind = true ↔ ∃ a, kind = .addressOwner a := by
  cases kind <;> simp [isOwned]

lemma ownedIds_insert_of_other (hnew : ¬isOwnedBy owner obj = true)
    (hold : ∀ o, m.find? obj.id = some o → ¬isOwnedBy owner o = true) :
    ownedIds (m.insert obj.id obj) owner = ownedIds m owner := by
  rw [ownedIds_insert, if_neg hnew]
  refine OrdSet.erase_of_not_contains fun hcontains => ?_
  obtain ⟨o, ho, howned⟩ := ownedIds_contains_iff.mp hcontains
  exact hold o ho howned

lemma ownedIds_insert_of_same (hnew : isOwnedBy owner obj = true) (ho : m.find? obj.id = some o)
    (hold : isOwnedBy owner o = true) :
    ownedIds (m.insert obj.id obj) owner = ownedIds m owner := by
  rw [ownedIds_insert, if_pos hnew]
  exact OrdSet.add_of_contains (ownedIds_contains_iff.mpr ⟨o, ho, hold⟩)

lemma ownedIds_erase (id : String) (owner : AccountAddress) :
    ownedIds (m.erase id) owner = OrdMap.erase (ownedIds m owner) id :=
  OrdSet.keysWhere_erase m _ _

lemma ownedIds_erase_of_other (hold : ∀ o, m.find? id = some o → ¬isOwnedBy owner o = true) :
    ownedIds (m.erase id) owner = ownedIds m owner := by
  rw [ownedIds_erase]
  refine OrdSet.erase_of_not_contains fun hcontains => ?_
  obtain ⟨o, ho, howned⟩ := ownedIds_contains_iff.mp hcontains
  exact hold o ho howned

lemma removed_writesOwners (h : HoldsOwners store' m) (ho : m.find? id = some o) :
    WritesOwners store' (indexUpdate (ownedObjectsKey o.owner)
      (removeIndexId (OrdSet.elems (ownedIds m o.owner)) id)) (m.erase id) := by
  refine writesOwners_of_one h ?_ fun owner hne => ownedIds_erase_of_other fun o' ho' howned => ?_
  · rw [ownedIds_erase]
    exact holdsIds_removed (h o.owner)
  · obtain rfl := Option.some.inj (ho.symm.trans ho')
    exact hne (isOwnedBy_iff.mp howned).2.symm

lemma added_writesOwners (h : HoldsOwners store' m) (hnew : isOwned obj.ownerKind = true)
    (hold : ∀ o owner, m.find? obj.id = some o → owner ≠ obj.owner → ¬isOwnedBy owner o = true) :
    WritesOwners store' (indexUpdate (ownedObjectsKey obj.owner)
      (addIndexId (OrdSet.elems (ownedIds m obj.owner)) obj.id)) (m.insert obj.id obj) := by
  have hown : isOwnedBy obj.owner obj = true := isOwnedBy_iff.mpr ⟨hnew, rfl⟩
  refine writesOwners_of_one h ?_ fun owner hne => ?_
  · rw [ownedIds_insert, if_pos hown]
    exact holdsIds_added (h obj.owner)
  · refine ownedIds_insert_of_other (fun howned => ?_) fun o ho => hold o owner ho hne
    exact hne (isOwnedBy_iff.mp howned).2.symm

lemma ownerIndexChanges_ok (h : Persists m store) (obj : StoredObject) :
    ∃ updates, ownerIndexChanges store (m.find? obj.id) obj = .ok (updates, []) ∧
      ∀ store', HoldsOwners store' m → WritesOwners store' updates (m.insert obj.id obj) := by
  unfold ownerIndexChanges
  cases hold : m.find? obj.id with
  | none =>
    dsimp only
    split_ifs with hnew
    · refine ⟨_, addToOwner_ok h obj.owner obj.id, fun store' h' => ?_⟩
      exact added_writesOwners h' hnew fun o owner ho => nomatch hold.symm.trans ho
    · refine ⟨[], rfl, fun store' h' => writesOwners_nil h' fun owner => ?_⟩
      refine ownedIds_insert_of_other (fun howned => hnew (isOwnedBy_iff.mp howned).1) fun o ho => ?_
      exact nomatch hold.symm.trans ho
  | some o =>
    dsimp only
    split_ifs with hmoved howned hnew hnew
    · -- owned before and after, by different owners
      have hne : o.owner ≠ obj.owner := by
        rcases hmoved with hne | hkind
        · exact hne
        · exact absurd (howned.trans hnew.symm) hkind
      have hkept : ownedIds (m.erase obj.id) obj.owner = ownedIds m obj.owner := by
        refine ownedIds_erase_of_other fun o' ho' hby => hne ?_
        obtain rfl := Option.some.inj (hold.symm.trans ho')
        exact (isOwnedBy_iff.mp hby).2
      have hinsert : (m.erase obj.id).insert obj.id obj = m.insert obj.id obj := by
        refine OrdMap.ext fun id => ?_
        simp only [OrdMap.find?_insert, OrdMap.find?_erase]
        split_ifs <;> rfl
      have hgone : (m.erase obj.id).find? obj.id = none := by rw [OrdMap.find?_erase, if_pos rfl]
      simp only [removeFromOwner_ok h, addToOwner_ok h, ok_bind, pure_eq_ok]
      refine ⟨_, rfl, fun store' h' => ?_⟩
      have hremoved := removed_writesOwners h' hold
      have hadded := added_writesOwners hremoved.owned hnew fun o' owner ho' =>
        nomatch hgone.symm.trans ho'
      rw [hkept, hinsert] at hadded
      exact hremoved.append hadded
    · -- owned before, not after
      simp only [removeFromOwner_ok h, ok_bind, pure_eq_ok]
      refine ⟨_, rfl, fun store' h' => ?_⟩
      have hremoved := removed_writesOwners h' hold
      refine ⟨fun owner => ?_, hremoved.other⟩
      have hnot : ¬isOwnedBy owner obj = true := fun hby => hnew (isOwnedBy_iff.mp hby).1
      rw [ownedIds_insert, if_neg hnot, ← ownedIds_erase]
      exact hremoved.owned owner
    · -- owned after, not before
      simp only [addToOwner_ok h, ok_bind, pure_eq_ok]
      refine ⟨_, rfl, fun store' h' => added_writesOwners h' hnew fun o' owner ho' _ hby => ?_⟩
      obtain rfl := Option.some.inj (hold.symm.trans ho')
      exact howned (isOwnedBy_iff.mp hby).1
    · -- owned neither before nor after
      refine ⟨[], rfl, fun store' h' => writesOwners_nil h' fun owner => ?_⟩
      refine ownedIds_insert_of_other (fun hby => hnew (isOwnedBy_iff.mp hby).1) fun o' ho' hby => ?_
      obtain rfl := Option.some.inj (hold.symm.trans ho')
      exact howned (isOwnedBy_iff.mp hby).1
    · -- the same owner and the same kind of ownership
      rw [not_or, not_not, not_not] at hmoved
      obtain ⟨hsame, hkind⟩ := hmoved
      refine ⟨[], rfl, fun store' h' => writesOwners_nil h' fun owner => ?_⟩
      have hiff : isOwnedBy owner o = isOwnedBy owner obj := by simp [isOwnedBy, hsame, hkind]
      by_cases hby : isOwnedBy owner obj = true
      · exact ownedIds_insert_of_same hby hold (hiff.trans hby)
      · refine ownedIds_insert_of_other hby fun o' ho' hby' => ?_
        obtain rfl := Option.some.inj (hold.symm.trans ho')
        exact hby (hiff.symm.trans hby')

/-! ## The operations -/

lemma persists_store (h : Persists m store) {updates : List (String × StoredValue)}
    (hupdates : ∀ store', HoldsOwners store' m → WritesOwners store' updates (m.insert obj.id obj)) :
    Persists (m.insert obj.id obj) (putAll store ([(objectKey obj.id, .object obj)] ++ updates ++
      indexUpdate OBJECT_INDEX_KEY (addIndexId (OrdSet.elems (allIds m)) obj.id))) := by
  have hput : ∀ k, k ≠ objectKey obj.id →
      (putAll store [(objectKey obj.id, .object obj)]).find? k = store.find? k := by
    intro k hk
    show (store.insert _ _).find? k = store.find? k
    rw [OrdMap.find?_insert, if_neg hk]
  have howners : HoldsOwners (putAll store [(objectKey obj.id, .object obj)]) m := fun owner =>
    (holdsIds_congr (hput _ (objectKey_ne_ownedObjectsKey _ _).symm)).mpr (h.owned owner)
  have hwrites := hupdates _ howners
  have hindex : ∀ owner, OBJECT_INDEX_KEY ≠ ownedObjectsKey owner :=
    fun owner => (ownedObjectsKey_ne_index owner).symm
  rw [putAll_append, putAll_append]
  refine ⟨fun id => ?_, ?_, fun owner => ?_, fun owner => ?_⟩
  · rw [find?_putAll_indexUpdate _ _ (objectKey_ne_index id),
      hwrites.other _ fun owner => objectKey_ne_ownedObjectsKey id owner]
    show (store.insert _ _).find? _ = _
    rw [OrdMap.find?_insert, OrdMap.find?_insert, h.objects id]
    by_cases hid : id = obj.id
    · rw [if_pos (congrArg objectKey hid), if_pos hid]
      rfl
    · rw [if_neg fun hkey => hid (objectKey_injective hkey), if_neg hid]
  · have hall : allIds (m.insert obj.id obj) = (allIds m).add obj.id :=
      OrdSet.keysWhere_insert m _ _ _
    rw [hall]
    refine holdsIds_added ((holdsIds_congr ?_).mpr h.all)
    rw [hwrites.other _ hindex, hput _ (objectKey_ne_index _).symm]
  · exact (holdsIds_congr (find?_putAll_indexUpdate _ _ (ownedObjectsKey_ne_index owner))).mpr
      (hwrites.owned owner)
  · rw [find?_putAll_indexUpdate _ _ (legacyOwnerKey_ne_index owner),
      hwrites.other _ fun owner' => (ownedObjectsKey_ne_legacy owner' owner).symm,
      hput _ (objectKey_ne_legacy _ _).symm, h.legacy owner]

lemma storeObject_ok (h : Refines m s) (obj : StoredObject) :
    (∀ e, s.storeObject obj (some e) = .error e) ∧
      ∃ s', s.storeObject obj none = .ok s' ∧ Refines (m.insert obj.id obj) s' := by
  have hold := oldObject_of_refines h obj.id
  obtain ⟨store, hstore, hpersists⟩ := h.persisted
  obtain ⟨updates, hchanges, hupdates⟩ := ownerIndexChanges_ok hpersists obj
  have hids := loadIdIndex_of_holdsIds hpersists.all
  unfold storeObject
  simp only [hold, hstore, hchanges, hids, ok_bind, pure_eq_ok]
  refine ⟨fun e => rfl, _, rfl, ?_, _, rfl, persists_store hpersists hupdates⟩
  intro id obj' hfind
  rw [OrdMap.find?_insert] at hfind ⊢
  split_ifs at hfind ⊢
  · exact hfind
  · exact h.cached id obj' hfind

lemma getObject_ok (h : Refines m s) (id : String) :
    ∃ s', s.getObject id = .ok (m.find? id, s') ∧ Refines m s' := by
  unfold getObject
  cases hcached : s.objects.find? id with
  | some obj =>
    rw [h.cached id obj hcached]
    exact ⟨s, rfl, h⟩
  | none =>
    obtain ⟨store, hstore, hpersists⟩ := h.persisted
    simp only [hstore, loadObject_of_persists hpersists, ok_bind]
    cases hfind : m.find? id with
    | none => exact ⟨s, rfl, h⟩
    | some obj =>
      refine ⟨_, rfl, fun id' obj' hfind' => ?_, store, rfl, hpersists⟩
      rw [OrdMap.find?_insert] at hfind'
      split_ifs at hfind' with heq
      · rw [heq, hfind, hfind']
      · exact h.cached id' obj' hfind'

lemma find?_erase_of_ne {k : String} (hne : k ≠ key) :
    (store.erase key).find? k = store.find? k := by
  rw [OrdMap.find?_erase, if_neg hne]

lemma persists_delete (h : Persists m store) {updates : List (String × StoredValue)}
    (hupdates : WritesOwners store updates (m.erase id)) :
    Persists (m.erase id) ((putAll store (updates ++ indexUpdate OBJECT_INDEX_KEY
      (removeIndexId (OrdSet.elems (allIds m)) id))).erase (objectKey id)) := by
  have hindex : ∀ owner, OBJECT_INDEX_KEY ≠ ownedObjectsKey owner :=
    fun owner => (ownedObjectsKey_ne_index owner).symm
  rw [putAll_append]
  refine ⟨fun id' => ?_, ?_, fun owner => ?_, fun owner => ?_⟩
  · rw [OrdMap.find?_erase, OrdMap.find?_erase]
    by_cases hid : id' = id
    · rw [if_pos (congrArg objectKey hid), if_pos hid]
      rfl
    · rw [if_neg fun hkey => hid (objectKey_injective hkey), if_neg hid,
        find?_putAll_indexUpdate _ _ (objectKey_ne_index id'),
        hupdates.other _ fun owner => objectKey_ne_ownedObjectsKey id' owner, h.objects id']
  · have hall : allIds (m.erase id) = OrdMap.erase (allIds m) id := OrdSet.keysWhere_erase m _ _
    rw [hall]
    refine (holdsIds_congr (find?_erase_of_ne (objectKey_ne_index id).symm)).mpr ?_
    exact holdsIds_removed ((holdsIds_congr (hupdates.other _ hindex)).mpr h.all)
  · refine (holdsIds_congr (find?_erase_of_ne
      (objectKey_ne_ownedObjectsKey id owner).symm)).mpr ?_
    exact (holdsIds_congr (find?_putAll_indexUpdate _ _ (ownedObjectsKey_ne_index owner))).mpr
      (hupdates.owned owner)
  · rw [find?_erase_of_ne (objectKey_ne_legacy id owner).symm,
      find?_putAll_indexUpdate _ _ (legacyOwnerKey_ne_index owner),
      hupdates.other _ fun owner' => (ownedObjectsKey_ne_legacy owner' owner).symm, h.legacy owner]

lemma ownerIndexRemovals_ok (h : Persists m store) (id : String) :
    ∃ updates, ownerIndexRemovals store (m.find? id) id = .ok updates ∧
      WritesOwners store updates (m.erase id) := by
  unfold ownerIndexRemovals
  cases hfind : m.find? id with
  | none =>
    refine ⟨[], rfl, writesOwners_nil h.owned fun owner => ?_⟩
    exact ownedIds_erase_of_other fun o ho => nomatch hfind.symm.trans ho
  | some o =>
    dsimp only
    split_ifs with howned
    · exact ⟨_, removeFromOwner_ok h o.owner id, removed_writesOwners h.owned hfind⟩
    · refine ⟨[], rfl, writesOwners_nil h.owned fun owner => ?_⟩
      refine ownedIds_erase_of_other fun o' ho' hby => howned ?_
      obtain rfl := Option.some.inj (hfind.symm.trans ho')
      exact (isOwnedBy_iff.mp hby).1

lemma deleteObject_ok (h : Refines m s) (id : String) :
    (∀ e, s.deleteObject id (some e) = .error e) ∧
      ∃ s', s.deleteObject id none = .ok s' ∧ Refines (m.erase id) s' := by
  have hold := oldObject_of_refines h id
  obtain ⟨store, hstore, hpersists⟩ := h.persisted
  have hids := loadIdIndex_of_holdsIds hpersists.all
  obtain ⟨updates, hchanges, hupdates⟩ := ownerIndexRemovals_ok hpersists id
  unfold deleteObject
  simp only [hold, hstore, ok_bind, pure_eq_ok, hchanges, hids]
  refine ⟨fun e => rfl, _, rfl, ?_, _, rfl, persists_delete hpersists hupdates⟩
  intro id' obj' hfind
  rw [OrdMap.find?_erase] at hfind ⊢
  split_ifs at hfind ⊢
  exact h.cached id' obj' hfind

lemma cacheIndexed_fold (h : Persists m store) {ids : List String} {objects : ObjectMap}
    (hids : ∀ id ∈ ids, ∃ obj, m.find? id = some obj)
    (hobjects : ∀ id obj, objects.find? id = some obj → m.find? id = some obj) :
    ∃ objects', foldOk (cacheIndexed store) objects ids = .ok objects' ∧
      ∀ id obj, objects'.find? id = some obj → m.find? id = some obj := by
  induction ids generalizing objects with
  | nil => exact ⟨objects, rfl, hobjects⟩
  | cons id ids ih =>
    obtain ⟨obj, hobj⟩ := hids id List.mem_cons_self
    have hinsert : ∀ id' obj', (objects.insert id obj).find? id' = some obj' →
        m.find? id' = some obj' := by
      intro id' obj' hfind
      rw [OrdMap.find?_insert] at hfind
      split_ifs at hfind with heq
      · rw [heq, hobj, hfind]
      · exact hobjects id' obj' hfind
    obtain ⟨objects', hfold, hpart⟩ :=
      ih (fun id' hid' => hids id' (List.mem_cons_of_mem _ hid')) hinsert
    refine ⟨objects', foldOk_cons_eq_ok.mpr ⟨objects.insert id obj, ?_, hfold⟩, hpart⟩
    simp only [cacheIndexed, loadObject_of_persists h, hobj, ok_bind, orError, pure_eq_ok]

lemma newWithStore_ok (h : Persists m store) : ∃ s, newWithStore store = .ok s ∧ Refines m s := by
  obtain ⟨loaded, hload, hget⟩ := loadIds_of_holdsIds h.all
  have hlisted : ∀ id ∈ OrdSet.elems (allIds m), ∃ obj, m.find? id = some obj := by
    intro id hid
    obtain ⟨obj, hobj, _⟩ := OrdSet.contains_keysWhere.mp (OrdSet.mem_elems.mp hid)
    exact ⟨obj, hobj⟩
  have hempty : ∀ id obj, (OrdMap.empty : ObjectMap).find? id = some obj → m.find? id = some obj :=
    fun id obj hfind => nomatch hfind
  obtain ⟨objects, hfold, hpart⟩ := cacheIndexed_fold h hlisted hempty
  refine ⟨⟨objects, some store⟩, ?_, hpart, store, rfl, h⟩
  unfold newWithStore
  simp only [hload, ok_bind, hget, hfold, pure_eq_ok]

/-- One call: the storage answers as the map does, and stays its image. -/
lemma run_refines (h : Refines m s) (c : ObjectStorage.Call) :
    (c.run s).1 = (objectMapRun m c).1 ∧ Refines (objectMapRun m c).2 (c.run s).2 := by
  cases c with
  | store obj fault =>
    obtain ⟨hfails, s', hstore, hrefines⟩ := storeObject_ok h obj
    cases fault with
    | none =>
      simp only [ObjectStorage.Call.run, hstore]
      exact ⟨rfl, hrefines⟩
    | some e =>
      simp only [ObjectStorage.Call.run, hfails e]
      exact ⟨rfl, h⟩
  | get id =>
    obtain ⟨s', hget, hrefines⟩ := getObject_ok h id
    simp only [ObjectStorage.Call.run, hget]
    exact ⟨rfl, hrefines⟩
  | delete id fault =>
    obtain ⟨hfails, s', hdelete, hrefines⟩ := deleteObject_ok h id
    cases fault with
    | none =>
      simp only [ObjectStorage.Call.run, hdelete]
      exact ⟨rfl, hrefines⟩
    | some e =>
      simp only [ObjectStorage.Call.run, hfails e]
      exact ⟨rfl, h⟩
  | clear =>
    refine ⟨rfl, ?_, h.persisted⟩
    exact fun id obj hfind => nomatch hfind
  | reopen =>
    obtain ⟨store, hstore, hpersists⟩ := h.persisted
    obtain ⟨s', hopen, hrefines⟩ := newWithStore_ok hpersists
    simp only [ObjectStorage.Call.run, hstore, Option.getD_some, hopen]
    exact ⟨rfl, hrefines⟩

lemma runAll_refines (h : Refines m s) (calls : List ObjectStorage.Call) :
    (s.runAll calls).1 = (objectMapRunAll m calls).1 ∧
      Refines (objectMapRunAll m calls).2 (s.runAll calls).2 := by
  induction calls generalizing m s with
  | nil => exact ⟨rfl, h⟩
  | cons c calls ih =>
    obtain ⟨hreply, hrefines⟩ := run_refines h c
    obtain ⟨hreplies, hfinal⟩ := ih hrefines
    exact ⟨congrArg₂ List.cons hreply hreplies, hfinal⟩

def ListsExactly (store : ObjectRecords) (key : String) (p : String → Prop) : Prop :=
  ∃ ids, loadIds store key = .ok ids ∧ (ids.getD []).Nodup ∧ ∀ id, id ∈ ids.getD [] ↔ p id

lemma listsExactly_of_holdsIds {p : StoredObject → Bool}
    (h : HoldsIds store key (OrdSet.keysWhere m p)) :
    ListsExactly store key fun id => ∃ obj, m.find? id = some obj ∧ p obj = true := by
  obtain ⟨ids, hload, hget⟩ := loadIds_of_holdsIds h
  refine ⟨ids, hload, ?_, fun id => ?_⟩
  · rw [hget]
    exact OrdSet.nodup_elems _
  · rw [hget, OrdSet.mem_elems]
    exact OrdSet.contains_keysWhere

/-- From a store with some objects, their indexes and no legacy records, after any calls with
reopenings and failing writes among them, every reply was that of the map, and the lists are exact. -/
theorem object_storage_exact {m₀ : ObjectMap} {store₀ : ObjectRecords} (h₀ : Persists m₀ store₀)
    (calls : List ObjectStorage.Call) :
    ∃ s₀, newWithStore store₀ = .ok s₀ ∧
      (s₀.runAll calls).1 = (objectMapRunAll m₀ calls).1 ∧
      ∃ store, (s₀.runAll calls).2.persistent = some store ∧
        (∀ owner, ListsExactly store (ownedObjectsKey owner) fun id =>
          ∃ obj, (objectMapRunAll m₀ calls).2.find? id = some obj ∧
            (∃ a, obj.ownerKind = .addressOwner a) ∧ obj.owner = owner) ∧
        ListsExactly store OBJECT_INDEX_KEY (fun id =>
          ∃ obj, (objectMapRunAll m₀ calls).2.find? id = some obj) ∧
        (∀ id, ∃ s', (s₀.runAll calls).2.getObject id =
          .ok ((objectMapRunAll m₀ calls).2.find? id, s')) ∧
        ∃ reopened, newWithStore store = .ok reopened ∧
          ∀ id, ∃ s', reopened.getObject id = .ok ((objectMapRunAll m₀ calls).2.find? id, s') := by
  obtain ⟨s₀, hopen, hrefines₀⟩ := newWithStore_ok h₀
  obtain ⟨hreplies, hrefines⟩ := runAll_refines hrefines₀ calls
  obtain ⟨store, hstore, hpersists⟩ := hrefines.persisted
  obtain ⟨reopened, hreopen, hrefines'⟩ := newWithStore_ok hpersists
  refine ⟨s₀, hopen, hreplies, store, hstore, fun owner => ?_, ?_, fun id => ?_, reopened, hreopen,
    fun id => ?_⟩
  · obtain ⟨ids, hload, hnodup, hmem⟩ := listsExactly_of_holdsIds (hpersists.owned owner)
    refine ⟨ids, hload, hnodup, fun id => (hmem id).trans (exists_congr fun obj => ?_)⟩
    rw [isOwnedBy_iff, isOwned_iff]
  · obtain ⟨ids, hload, hnodup, hmem⟩ := listsExactly_of_holdsIds hpersists.all
    exact ⟨ids, hload, hnodup, fun id => (hmem id).trans (by simp)⟩
  · obtain ⟨s', hget, _⟩ := getObject_ok hrefines id
    exact ⟨s', hget⟩
  · obtain ⟨s', hget, _⟩ := getObject_ok hrefines' id
    exact ⟨s', hget⟩

lemma persists_empty : Persists .empty .empty :=
  ⟨fun _ => rfl, .inr ⟨rfl, rfl⟩, fun _ => .inr ⟨rfl, rfl⟩, fun _ => rfl⟩

def sampleItem (id : String) (owner : UInt8) (kind : ObjectOwnerKind) : StoredObject :=
  ⟨id, .ofByte owner, kind, "item", [], 1⟩

def sampleCalls : List ObjectStorage.Call :=
  [.store (sampleItem "a" 1 (.addressOwner "1")) none, .store (sampleItem "b" 1 .shared) none,
   .store (sampleItem "a" 2 (.addressOwner "2")) (some "disk full"),
   .store (sampleItem "a" 2 (.addressOwner "2")) none, .reopen, .delete "b" none, .get "b",
   .store (sampleItem "b" 2 (.addressOwner "2")) none]

theorem object_storage_exact_moves :
    ∃ s₀ store, newWithStore .empty = .ok s₀ ∧ (s₀.runAll sampleCalls).2.persistent = some store ∧
      ListsExactly store (ownedObjectsKey (.ofByte 2)) (fun id => id = "a" ∨ id = "b") := by
  obtain ⟨s₀, hopen, _, store, hstore, howned, _⟩ := object_storage_exact persists_empty sampleCalls
  refine ⟨s₀, store, hopen, hstore, ?_⟩
  obtain ⟨ids, hload, hnodup, hmem⟩ := howned (.ofByte 2)
  refine ⟨ids, hload, hnodup, fun id => (hmem id).trans ?_⟩
  have hmap : (objectMapRunAll .empty sampleCalls).2.find? id =
      if id = "b" then some (sampleItem "b" 2 (.addressOwner "2"))
      else if id = "a" then some (sampleItem "a" 2 (.addressOwner "2")) else none := by
    simp only [sampleCalls, objectMapRunAll, objectMapRun, sampleItem, OrdMap.find?_insert,
      OrdMap.find?_erase]
    split_ifs <;> simp_all
  simp only [hmap]
  split_ifs with hb ha
  · simp [hb, sampleItem]
  · simp [ha, sampleItem]
  · simp [hb, ha]

end

end Kanari.Proofs

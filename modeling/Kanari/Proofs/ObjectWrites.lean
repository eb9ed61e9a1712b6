import Kanari.Proofs.TransferExecution

/-!
# What the object stage writes

Inversion lemmas for the steps of the object stage that hold in every state and for every change set.
-/

namespace Kanari.Proofs

open Lib StateManager EngineEnv

/-! ## Balances in bytes -/

lemma leNat_lt_u64 {l : Bytes} (h : l.length ≤ 8) : Text.leNat l < u64Bound := by
  have hlt := Text.leNat_lt l
  have hpow : 256 ^ l.length ≤ 256 ^ 8 := Nat.pow_le_pow_right (by omega) h
  have hbound : (256 : Nat) ^ 8 = u64Bound := by decide
  omega

variable {data data' : Bytes} {st : StructTag} {n : Nat} {storedId typeName : String}
  {acc acc' acc'' : ApplyAcc} {owner : AccountAddress} {new : CreatedObject} {ctx : ApplyContext}
  {old : StoredObject} {c : String × CreatedObject} {ref : ObjectRef}

lemma extractBalance_lt (h : extractBalanceFromObjectBytes data st = some n) : n < u64Bound := by
  unfold extractBalanceFromObjectBytes at h
  split_ifs at h
  · cases h
    apply leNat_lt_u64
    simp [U64_SIZE]
  · cases h
    apply leNat_lt_u64
    simp only [List.length_drop, U64_SIZE]
    omega

lemma extractBalance_write (hn : n < u64Bound)
    (h : writeBalanceToObjectBytes data st n = some data') :
    extractBalanceFromObjectBytes data' st = some n := by
  have hread : Text.leNat (Text.leBytes 8 n) = n := by
    apply Text.leNat_leBytes
    exact lt_of_lt_of_eq hn (by decide)
  unfold writeBalanceToObjectBytes at h
  unfold extractBalanceFromObjectBytes
  simp only [show UID_SIZE = 32 from rfl, show U64_SIZE = 8 from rfl] at h ⊢
  cases hcoin : isCoinStruct st with
  | true =>
    simp only [hcoin, if_true] at h ⊢
    split_ifs at h with hshort
    cases h
    have hlen : 32 + 8 ≤ data.length := by omega
    rw [length_spliceU64 hlen, if_neg hshort, drop_spliceU64 hlen,
      List.take_append_of_le_length (by simp), List.take_of_length_le (by simp), hread]
  | false =>
    simp only [hcoin, Bool.false_eq_true, if_false] at h ⊢
    split_ifs at h ⊢ with hbare hshort hlong
    · cases h
      have hlen : data.length - 8 + 8 ≤ data.length := by omega
      rw [length_spliceU64 hlen] at hshort
      exact absurd hshort hlong
    · cases h
      have hlen : data.length - 8 + 8 ≤ data.length := by omega
      rw [length_spliceU64 hlen, drop_spliceU64 hlen, List.drop_of_length_le (by omega),
        List.append_nil, hread]

variable {amount : Nat}

lemma balanceTokenAmount_write (hst : structTagFromStr typeName = some st)
    (hamount : extractBalanceFromObjectBytes data st = some amount) (hn : n ≤ amount)
    (h : writeBalanceToObjectBytes data st n = some data') :
    balanceTokenAmount typeName data' =
      (balanceTokenAmount typeName data).map fun p => (p.1, p.2 - (amount - n)) := by
  have hread := extractBalance_write (lt_of_le_of_lt hn (extractBalance_lt hamount)) h
  simp only [balanceTokenAmount, hst, Option.bind_some, hread, hamount, Option.map_some]
  split_ifs
  · cases tokenTypeFromBalanceStruct st with
    | none => rfl
    | some token => simp [Nat.sub_sub_self hn]
  · rfl

lemma nativeAmount_charged {charged : Nat}
    (h : balanceTokenAmount typeName data' =
      (balanceTokenAmount typeName data).map fun p => (p.1, p.2 - charged)) :
    nativeAmount typeName data' = (nativeAmount typeName data).map (· - charged) := by
  unfold nativeAmount
  rw [h]
  cases balanceTokenAmount typeName data with
  | none => rfl
  | some p =>
    simp only [Option.map_some, Option.bind_some]
    split_ifs <;> rfl

/-! ## Notes -/

/-- The balance noted so far for the coins of an owner before they were written. -/
def notedBefore (acc : ApplyAcc) (owner : AccountAddress) : Nat :=
  (acc.nativeObjectBefore.find? owner).getD 0

lemma addObjectAfter_ok (h : acc.addObjectAfter owner amount = .ok acc') :
    ∃ after, acc' = { acc with nativeObjectAfter := after } := by
  obtain ⟨total, -, h⟩ := bind_eq_ok.mp h
  cases h
  exact ⟨_, rfl⟩

lemma addObjectBefore_ok (h : acc.addObjectBefore owner amount = .ok acc') :
    acc' = { acc with
      nativeObjectBefore := acc.nativeObjectBefore.insert owner (notedBefore acc owner + amount) } := by
  obtain ⟨total, htotal, h⟩ := bind_eq_ok.mp h
  rw [checkedAdd_eq_ok] at htotal
  cases h
  rw [htotal.2]
  rfl

/-- The objects, the indexes and the ledgers are as they were; only notes were taken. -/
structure Quiet (acc acc' : ApplyAcc) : Prop where
  objects : acc'.state.objects = acc.state.objects
  ownedObjects : acc'.state.ownedObjects = acc.state.ownedObjects
  objectIndex : acc'.state.objectIndex = acc.state.objectIndex
  owners : acc'.state.owners = acc.state.owners
  ownerIndex : acc'.state.ownerIndex = acc.state.ownerIndex
  supplies : acc'.state.globalTokenSupplies = acc.state.globalTokenSupplies
  locked : acc'.state.lockedCoinRecords = acc.state.lockedCoinRecords
  ownedAdditions : acc'.ownedIndexAdditions = acc.ownedIndexAdditions
  indexAdditions : acc'.objectIndexAdditions = acc.objectIndexAdditions

lemma Quiet.refl (acc : ApplyAcc) : Quiet acc acc := ⟨rfl, rfl, rfl, rfl, rfl, rfl, rfl, rfl, rfl⟩

lemma Quiet.trans (h : Quiet acc acc') (h' : Quiet acc' acc'') : Quiet acc acc'' where
  objects := h'.objects.trans h.objects
  ownedObjects := h'.ownedObjects.trans h.ownedObjects
  objectIndex := h'.objectIndex.trans h.objectIndex
  owners := h'.owners.trans h.owners
  ownerIndex := h'.ownerIndex.trans h.ownerIndex
  supplies := h'.supplies.trans h.supplies
  locked := h'.locked.trans h.locked
  ownedAdditions := h'.ownedAdditions.trans h.ownedAdditions
  indexAdditions := h'.indexAdditions.trans h.indexAdditions

lemma recordObjectBalanceOwner_state (acc : ApplyAcc) (owner : AccountAddress) (typeName : String)
    (data : Bytes) : (acc.recordObjectBalanceOwner owner typeName data).state = acc.state := by
  unfold ApplyAcc.recordObjectBalanceOwner
  split
  · rfl
  · split_ifs <;> rfl

lemma addObjectAfter_state (h : acc.addObjectAfter owner amount = .ok acc') :
    acc'.state = acc.state := by
  obtain ⟨after, rfl⟩ := addObjectAfter_ok h
  rfl

lemma addObjectBefore_state (h : acc.addObjectBefore owner amount = .ok acc') :
    acc'.state = acc.state := by
  rw [addObjectBefore_ok h]

lemma noteWrittenNative_state {isNew : Bool} (h : noteWrittenNative acc new isNew = .ok acc') :
    acc'.state = acc.state := by
  unfold noteWrittenNative at h
  split at h
  · cases h
    rfl
  · rw [addObjectAfter_state h]
    split_ifs <;> rfl

lemma noteGasObject_state {next : StoredObject} (h : noteGasObject acc next = .ok acc') :
    acc'.state = acc.state := by
  unfold noteGasObject at h
  split at h
  · exact addObjectAfter_state h
  · cases h
    rfl

/-- The lists of owners, and the gas already taken from coins, are as they were too. -/
structure Silent (acc acc' : ApplyAcc) : Prop extends Quiet acc acc' where
  recompute : acc'.ownersToRecompute = acc.ownersToRecompute
  nonNative : acc'.nonNativeObjectChanged = acc.nonNativeObjectChanged
  adjusted : acc'.nativeObjectGasAdjusted = acc.nativeObjectGasAdjusted

lemma Silent.refl (acc : ApplyAcc) : Silent acc acc := ⟨Quiet.refl acc, rfl, rfl, rfl⟩

lemma Silent.trans (h : Silent acc acc') (h' : Silent acc' acc'') : Silent acc acc'' :=
  ⟨h.toQuiet.trans h'.toQuiet, h'.recompute.trans h.recompute, h'.nonNative.trans h.nonNative,
    h'.adjusted.trans h.adjusted⟩

/-- The object counts for the wallets, and for a token that is not native. -/
def CountsNonNative (typeName : String) (data : Bytes) : Prop :=
  ∃ token amount, balanceTokenAmount typeName data = some (token, amount) ∧
    normalizeTokenType token ≠ GAS_COIN

/-- The owner of an object was put on the lists, if the object counts. -/
structure Marks (acc acc' : ApplyAcc) (owner : AccountAddress) (typeName : String) (data : Bytes) :
    Prop where
  recompute : ∀ a, acc'.ownersToRecompute.contains a = true ↔
    acc.ownersToRecompute.contains a = true ∨ (a = owner ∧ (balanceTokenAmount typeName data).isSome)
  nonNative : ∀ a, acc'.nonNativeObjectChanged.contains a = true ↔
    acc.nonNativeObjectChanged.contains a = true ∨ (a = owner ∧ CountsNonNative typeName data)

lemma Marks.silent (h : Marks acc acc' owner typeName data) (h' : Silent acc' acc'') :
    Marks acc acc'' owner typeName data :=
  ⟨by rw [h'.recompute]; exact h.recompute, by rw [h'.nonNative]; exact h.nonNative⟩

lemma recordObjectBalanceOwner_ok (acc : ApplyAcc) (owner : AccountAddress) (typeName : String)
    (data : Bytes) :
    let acc' := acc.recordObjectBalanceOwner owner typeName data
    Quiet acc acc' ∧ acc'.nativeObjectGasAdjusted = acc.nativeObjectGasAdjusted ∧
      Marks acc acc' owner typeName data := by
  unfold ApplyAcc.recordObjectBalanceOwner
  cases hbalance : balanceTokenAmount typeName data with
  | none => exact ⟨Quiet.refl acc, rfl, by simp [hbalance], by simp [hbalance, CountsNonNative]⟩
  | some p =>
    obtain ⟨token, amount⟩ := p
    have hcounts : CountsNonNative typeName data ↔ normalizeTokenType token ≠ GAS_COIN := by
      simp [CountsNonNative, hbalance]
    dsimp only
    split_ifs with hnative
    · refine ⟨⟨rfl, rfl, rfl, rfl, rfl, rfl, rfl, rfl, rfl⟩, rfl, ?_, ?_⟩
      · intro a
        simp [OrdSet.contains_add, hbalance, or_comm]
      · intro a
        simp [hcounts, hnative]
    · refine ⟨⟨rfl, rfl, rfl, rfl, rfl, rfl, rfl, rfl, rfl⟩, rfl, ?_, ?_⟩
      · intro a
        simp [OrdSet.contains_add, hbalance, or_comm]
      · intro a
        simp [OrdSet.contains_add, hcounts, hnative, or_comm]

lemma addObjectBefore_silent (h : acc.addObjectBefore owner amount = .ok acc') :
    Silent acc acc' := by
  rw [addObjectBefore_ok h]
  exact ⟨⟨rfl, rfl, rfl, rfl, rfl, rfl, rfl, rfl, rfl⟩, rfl, rfl, rfl⟩

lemma addObjectAfter_silent (h : acc.addObjectAfter owner amount = .ok acc') : Silent acc acc' := by
  obtain ⟨after, rfl⟩ := addObjectAfter_ok h
  exact ⟨⟨rfl, rfl, rfl, rfl, rfl, rfl, rfl, rfl, rfl⟩, rfl, rfl, rfl⟩

lemma noteExistingNative_silent {existing : StoredObject}
    (h : noteExistingNative acc existing = .ok acc') : Silent acc acc' := by
  unfold noteExistingNative at h
  split at h
  · exact addObjectBefore_silent h
  · cases h
    exact Silent.refl acc

lemma noteWrittenNative_silent {isNew : Bool} (h : noteWrittenNative acc new isNew = .ok acc') :
    Silent acc acc' := by
  unfold noteWrittenNative at h
  split at h
  · cases h
    exact Silent.refl acc
  · apply Silent.trans _ (addObjectAfter_silent h)
    split_ifs
    · exact ⟨⟨rfl, rfl, rfl, rfl, rfl, rfl, rfl, rfl, rfl⟩, rfl, rfl, rfl⟩
    · exact Silent.refl acc

lemma noteGasObject_silent {next : StoredObject} (h : noteGasObject acc next = .ok acc') :
    Silent acc acc' := by
  unfold noteGasObject at h
  split at h
  · exact addObjectAfter_silent h
  · cases h
    exact Silent.refl acc

lemma saveTreasuryCap_silent (acc : ApplyAcc) (new : CreatedObject) :
    Silent acc (saveTreasuryCap acc new) := by
  unfold saveTreasuryCap
  split
  · exact Silent.refl acc
  · unfold saveTreasury
    split_ifs <;> exact ⟨⟨rfl, rfl, rfl, rfl, rfl, rfl, rfl, rfl, rfl⟩, rfl, rfl, rfl⟩

/-! ## Gas taken out of a written coin -/

/-- Gas taken out of a written object: nothing, or the rest of the owner's debit out of a native
coin. -/
structure Charge (ctx : ApplyContext) (acc : ApplyAcc) (old : StoredObject) (new : CreatedObject)
    (charged : Nat) (data : Bytes) (adjusted : OrdMap AccountAddress Nat) : Prop where
  amount : balanceTokenAmount new.typeName data =
    (balanceTokenAmount new.typeName new.data).map fun p => (p.1, p.2 - charged)
  debit : (charged = 0 ∧ adjusted = acc.nativeObjectGasAdjusted) ∨
    ((nativeAmount old.typeName old.data).isSome = true ∧
      ∃ designated debit, ctx.ownerNativeGasDebit old.owner designated = .ok debit ∧
        charged = debit - acc.gasAdjusted old.owner ∧
        adjusted = acc.nativeObjectGasAdjusted.insert old.owner debit)

lemma Charge.none (ctx : ApplyContext) (acc : ApplyAcc) (old : StoredObject) (new : CreatedObject) :
    Charge ctx acc old new 0 new.data acc.nativeObjectGasAdjusted := ⟨by simp, .inl ⟨rfl, rfl⟩⟩

lemma chargeWrittenObject_ok {id : String} {new' : CreatedObject}
    (h : chargeWrittenObject ctx acc id old new = .ok (acc', new')) :
    ∃ charged data adjusted, new' = { new with data := data } ∧
      acc' = { acc with nativeObjectGasAdjusted := adjusted } ∧
      Charge ctx acc old new charged data adjusted := by
  unfold chargeWrittenObject at h
  dsimp only at h
  split_ifs at h with hcoin
  · rw [Bool.and_eq_true] at hcoin
    obtain ⟨debit, hdebit, h⟩ := bind_eq_ok.mp h
    split_ifs at h with hpos
    · cases hst : structTagFromStr new.typeName with
      | none =>
        rw [hst] at h
        cases h
      | some st =>
        rw [hst] at h
        dsimp only at h
        cases hamount : extractBalanceFromObjectBytes new.data st with
        | none =>
          rw [hamount] at h
          cases h
        | some amount =>
          rw [hamount] at h
          obtain ⟨_, henough, h⟩ := bind_eq_ok.mp h
          have henough : debit - acc.gasAdjusted old.owner ≤ amount :=
            of_decide_eq_true (ensure_eq_ok.mp henough)
          cases hwrite : writeBalanceToObjectBytes new.data st
              (amount - (debit - acc.gasAdjusted old.owner)) with
          | none =>
            rw [hwrite] at h
            cases h
          | some data =>
            rw [hwrite] at h
            cases h
            refine ⟨_, data, _, rfl, rfl, ?_, .inr ⟨hcoin.1, _, debit, hdebit, rfl, rfl⟩⟩
            rw [balanceTokenAmount_write hst hamount (Nat.sub_le _ _) hwrite,
              Nat.sub_sub_self henough]
    · cases h
      exact ⟨0, _, _, rfl, rfl, Charge.none ctx acc old new⟩
  · cases h
    exact ⟨0, _, _, rfl, rfl, Charge.none ctx acc old new⟩

/-! ## A written object -/

def storedAs (id : String) (new : CreatedObject) : StoredObject :=
  ⟨id, new.owner, new.ownerKind, new.typeName, new.data, new.version⟩

/-- The ledgers, their index and the cached supplies: no step of the object stage touches them. -/
structure Kept (acc acc' : ApplyAcc) : Prop where
  owners : acc'.state.owners = acc.state.owners
  ownerIndex : acc'.state.ownerIndex = acc.state.ownerIndex
  supplies : acc'.state.globalTokenSupplies = acc.state.globalTokenSupplies
  locked : acc'.state.lockedCoinRecords = acc.state.lockedCoinRecords

lemma Quiet.kept (h : Quiet acc acc') : Kept acc acc' :=
  ⟨h.owners, h.ownerIndex, h.supplies, h.locked⟩

lemma Kept.trans (h : Kept acc acc') (h' : Kept acc' acc'') : Kept acc acc'' :=
  ⟨h'.owners.trans h.owners, h'.ownerIndex.trans h.ownerIndex, h'.supplies.trans h.supplies,
    h'.locked.trans h.locked⟩

/-- The owned index after an object was stored. -/
def indexedAfter (σ : StateManager) (objectId : String) (existing : Option (String × StoredObject))
    (new : CreatedObject) : AccountAddress → OrdSet String :=
  match existing with
  | none => σ.ownedObjects
  | some (storedId, old) =>
    if isAddressOwned new.ownerKind ∧ (storedId ≠ canonicalOwnedObjectId objectId ∨ old.owner ≠ new.owner)
    then (σ.refreshOwnedObjectIndex new.owner objectId (some storedId)).ownedObjects
    else σ.ownedObjects

lemma storeWritten_ok (acc : ApplyAcc) (objectId : String) (existing : Option (String × StoredObject))
    (new : CreatedObject) :
    let id := canonicalOwnedObjectId objectId
    let acc' := indexWrittenObject (saveObject acc id new) objectId id existing new
    acc'.state.objects = acc.state.objects.insert id (storedAs id new) ∧
      acc'.state.ownedObjects = indexedAfter acc.state objectId existing new ∧
      acc'.state.objectIndex = acc.state.objectIndex ∧
      acc'.ownedIndexAdditions = acc.ownedIndexAdditions ++
        (if isAddressOwned new.ownerKind ∧ existing = none then [(new.owner, id)] else []) ∧
      acc'.objectIndexAdditions = acc.objectIndexAdditions ++ [id] ∧
      acc'.ownersToRecompute = acc.ownersToRecompute ∧
      acc'.nonNativeObjectChanged = acc.nonNativeObjectChanged ∧
      acc'.nativeObjectGasAdjusted = acc.nativeObjectGasAdjusted ∧ Kept acc acc' := by
  intro id acc'
  by_cases hkind : isAddressOwned new.ownerKind = true
  · cases existing with
    | none =>
      have hacc' : acc' = indexWrittenObject (saveObject acc id new) objectId id none new := rfl
      unfold indexWrittenObject at hacc'
      rw [if_pos hkind] at hacc'
      rw [hacc', if_pos ⟨hkind, rfl⟩]
      exact ⟨rfl, rfl, rfl, rfl, rfl, rfl, rfl, rfl, rfl, rfl, rfl, rfl⟩
    | some e =>
      obtain ⟨storedId, old⟩ := e
      have hacc' : acc' = indexWrittenObject (saveObject acc id new) objectId id
        (some (storedId, old)) new := rfl
      unfold indexWrittenObject at hacc'
      rw [if_pos hkind] at hacc'
      dsimp only at hacc'
      have hnew : ¬(isAddressOwned new.ownerKind = true ∧ some (storedId, old) = none) := by simp
      rw [if_neg hnew, List.append_nil]
      unfold indexedAfter
      dsimp only
      by_cases hmoved : storedId ≠ id ∨ old.owner ≠ new.owner
      · rw [if_pos hmoved] at hacc'
        rw [hacc', if_pos ⟨hkind, hmoved⟩]
        exact ⟨rfl, rfl, rfl, rfl, rfl, rfl, rfl, rfl, rfl, rfl, rfl, rfl⟩
      · rw [if_neg hmoved] at hacc'
        rw [hacc', if_neg (fun h => hmoved h.2)]
        exact ⟨rfl, rfl, rfl, rfl, rfl, rfl, rfl, rfl, rfl, rfl, rfl, rfl⟩
  · have hacc' : acc' = saveObject acc id new := by
      show indexWrittenObject (saveObject acc id new) objectId id existing new = _
      unfold indexWrittenObject
      rw [if_neg hkind]
    have howned : indexedAfter acc.state objectId existing new = acc.state.ownedObjects := by
      unfold indexedAfter
      cases existing with
      | none => rfl
      | some e => simp [hkind]
    rw [hacc', howned, if_neg (fun h => hkind h.1), List.append_nil]
    exact ⟨rfl, rfl, rfl, rfl, rfl, rfl, rfl, rfl, rfl, rfl, rfl, rfl⟩

lemma applyCreatedObject_fresh (hnone : acc.state.loadStoredObjectByAnyId c.1 = none)
    (h : applyCreatedObject ctx acc c = .ok acc') :
    ∃ version, acc'.state.objects = acc.state.objects.insert (canonicalOwnedObjectId c.1)
        (storedAs (canonicalOwnedObjectId c.1) { c.2 with version := version }) ∧
      acc'.state.ownedObjects = acc.state.ownedObjects ∧
      acc'.state.objectIndex = acc.state.objectIndex ∧
      acc'.ownedIndexAdditions = acc.ownedIndexAdditions ++
        (if isAddressOwned c.2.ownerKind then [(c.2.owner, canonicalOwnedObjectId c.1)] else []) ∧
      acc'.objectIndexAdditions = acc.objectIndexAdditions ++ [canonicalOwnedObjectId c.1] ∧
      acc'.nativeObjectGasAdjusted = acc.nativeObjectGasAdjusted ∧
      Marks acc acc' c.2.owner c.2.typeName c.2.data ∧ Kept acc acc' := by
  unfold applyCreatedObject at h
  rw [hnone] at h
  obtain ⟨⟨acc₁, new⟩, hnext, h⟩ := bind_eq_ok.mp h
  cases hnext
  obtain ⟨acc₂, hnote, h⟩ := bind_eq_ok.mp h
  cases h
  obtain ⟨hquiet, hadjusted, hmarks⟩ :=
    recordObjectBalanceOwner_ok acc c.2.owner c.2.typeName c.2.data
  have hsilent := (noteWrittenNative_silent hnote).trans (saveTreasuryCap_silent acc₂
    { c.2 with version := if c.2.version = 0 then 1 else c.2.version })
  have hrest := hquiet.trans hsilent.toQuiet
  obtain ⟨hobjects, howned, hindex, hadditions, hindexed, hrecompute, hnonNative, hadjusted', hkept⟩ :=
    storeWritten_ok (saveTreasuryCap acc₂ { c.2 with
      version := if c.2.version = 0 then 1 else c.2.version }) c.1 none
      { c.2 with version := if c.2.version = 0 then 1 else c.2.version }
  refine ⟨if c.2.version = 0 then 1 else c.2.version, ?_, ?_, ?_, ?_, ?_, ?_, ⟨?_, ?_⟩,
    hrest.kept.trans hkept⟩
  · rw [hobjects, hrest.objects]
  · rw [howned, ← hrest.ownedObjects]
    rfl
  · rw [hindex, hrest.objectIndex]
  · rw [hadditions, hrest.ownedAdditions]
    simp
  · rw [hindexed, hrest.indexAdditions]
  · rw [hadjusted', hsilent.adjusted]
    exact hadjusted
  · rw [hrecompute, hsilent.recompute]
    exact hmarks.recompute
  · rw [hnonNative, hsilent.nonNative]
    exact hmarks.nonNative

/-- The owned index after an object took the place of another. -/
def movedIndex (σ : StateManager) (objectId storedId : String) (old : StoredObject)
    (new : CreatedObject) : AccountAddress → OrdSet String :=
  indexedAfter (if old.owner ≠ new.owner ∧ isAddressOwned old.ownerKind then
    σ.removeOwnedObjectIndexVariants old.owner objectId (some storedId) else σ) objectId
    (some (storedId, old)) new

/-- The object has left its owner and its old spelling. -/
def departed (acc : ApplyAcc) (objectId storedId : String) (old : StoredObject) (new : CreatedObject) :
    ApplyAcc :=
  let acc := leaveOwner acc objectId storedId old new
  if storedId = canonicalOwnedObjectId objectId then acc
  else { acc with state := { acc.state with objects := acc.state.objects.erase storedId } }

lemma departed_ok (acc : ApplyAcc) (objectId storedId : String) (old : StoredObject)
    (new : CreatedObject) :
    let acc' := departed acc objectId storedId old new
    acc'.state.objects = (if storedId = canonicalOwnedObjectId objectId then acc.state.objects
        else acc.state.objects.erase storedId) ∧
      acc'.state.ownedObjects = (if old.owner ≠ new.owner ∧ isAddressOwned old.ownerKind then
        acc.state.removeOwnedObjectIndexVariants old.owner objectId (some storedId)
        else acc.state).ownedObjects ∧
      acc'.state.objectIndex = acc.state.objectIndex ∧
      acc'.ownedIndexAdditions = acc.ownedIndexAdditions ∧
      acc'.objectIndexAdditions = acc.objectIndexAdditions ∧
      acc'.ownersToRecompute = acc.ownersToRecompute ∧
      acc'.nonNativeObjectChanged = acc.nonNativeObjectChanged ∧
      acc'.nativeObjectGasAdjusted = acc.nativeObjectGasAdjusted ∧ Kept acc acc' := by
  unfold departed leaveOwner
  dsimp only
  split_ifs <;> exact ⟨rfl, rfl, rfl, rfl, rfl, rfl, rfl, rfl, rfl, rfl, rfl, rfl⟩

lemma indexedAfter_congr {σ τ : StateManager} (h : τ.ownedObjects = σ.ownedObjects) (objectId : String)
    (existing : Option (String × StoredObject)) (new : CreatedObject) :
    indexedAfter τ objectId existing new = indexedAfter σ objectId existing new := by
  unfold indexedAfter refreshOwnedObjectIndex removeOwnedObjectIndexVariants
  rw [h]

lemma applyCreatedObject_over (hload : acc.state.loadStoredObjectByAnyId c.1 = some (storedId, old))
    (h : applyCreatedObject ctx acc c = .ok acc') :
    ∃ new charged, new.typeName = c.2.typeName ∧ new.ownerKind = c.2.ownerKind ∧
      new.owner = (if c.2.owner.toHexLiteral == c.1 then old.owner else c.2.owner) ∧
      Charge ctx acc old c.2 charged new.data acc'.nativeObjectGasAdjusted ∧
      acc'.state.objects = (if storedId = canonicalOwnedObjectId c.1 then acc.state.objects
        else acc.state.objects.erase storedId).insert (canonicalOwnedObjectId c.1)
          (storedAs (canonicalOwnedObjectId c.1) new) ∧
      acc'.state.ownedObjects = movedIndex acc.state c.1 storedId old new ∧
      acc'.state.objectIndex = acc.state.objectIndex ∧
      acc'.ownedIndexAdditions = acc.ownedIndexAdditions ∧
      acc'.objectIndexAdditions = acc.objectIndexAdditions ++ [canonicalOwnedObjectId c.1] ∧
      (∃ mid, Marks acc mid old.owner old.typeName old.data ∧
        Marks mid acc' new.owner new.typeName new.data) ∧ Kept acc acc' := by
  unfold applyCreatedObject at h
  rw [hload] at h
  obtain ⟨⟨acc₁, new⟩, hnext, h⟩ := bind_eq_ok.mp h
  obtain ⟨acc₂, hnote, h⟩ := bind_eq_ok.mp h
  cases h
  unfold nextObject replaceExisting at hnext
  dsimp only at hnext hnote
  obtain ⟨accB, hbefore, hnext⟩ := bind_eq_ok.mp hnext
  obtain ⟨⟨accC, newC⟩, hcharge, hnext⟩ := bind_eq_ok.mp hnext
  have hB := noteExistingNative_silent hbefore
  obtain ⟨charged, data, adjusted, rfl, rfl, hcharged⟩ := chargeWrittenObject_ok hcharge
  have hnext : (Except.ok ((departed { accB with nativeObjectGasAdjusted := adjusted } c.1 storedId old
      { acc.state.succeed c.1 old c.2 with data := data }).recordObjectBalanceOwner old.owner old.typeName
      old.data, { acc.state.succeed c.1 old c.2 with data := data }) : Except String _) =
      .ok (acc₁, new) := hnext
  obtain ⟨rfl, rfl⟩ := Prod.mk.inj (Except.ok.inj hnext)
  obtain ⟨hobjD, hownedD, hindexD, haddD, hindexedD, hrecD, hnonD, hadjD, hkeptD⟩ :=
    departed_ok { accB with nativeObjectGasAdjusted := adjusted } c.1 storedId old
      { acc.state.succeed c.1 old c.2 with data := data }
  generalize hnew : ({ acc.state.succeed c.1 old c.2 with data := data } : CreatedObject) = new at *
  generalize departed { accB with nativeObjectGasAdjusted := adjusted } c.1 storedId old new = accD at *
  obtain ⟨hquiet, hadj, hmarks⟩ := recordObjectBalanceOwner_ok accD old.owner old.typeName old.data
  obtain ⟨hquiet', hadj', hmarks'⟩ := recordObjectBalanceOwner_ok
    (accD.recordObjectBalanceOwner old.owner old.typeName old.data) new.owner new.typeName new.data
  have hsilent := (noteWrittenNative_silent hnote).trans (saveTreasuryCap_silent acc₂ new)
  have hrest := (hquiet.trans hquiet').trans hsilent.toQuiet
  obtain ⟨hobjects, howned, hindex, hadditions, hindexed, hrecompute, hnonNative, hadjusted, hkept⟩ :=
    storeWritten_ok (saveTreasuryCap acc₂ new) c.1 (some (storedId, old)) new
  have hadjusted : (indexWrittenObject (saveObject (saveTreasuryCap acc₂ new)
      (canonicalOwnedObjectId c.1) new) c.1 (canonicalOwnedObjectId c.1) (some (storedId, old))
      new).nativeObjectGasAdjusted = adjusted := by
    rw [hadjusted, hsilent.adjusted, hadj', hadj, hadjD]
  have hkeptB : Kept acc { accB with nativeObjectGasAdjusted := adjusted } :=
    ⟨hB.owners, hB.ownerIndex, hB.supplies, hB.locked⟩
  refine ⟨new, charged, by rw [← hnew]; rfl, by rw [← hnew]; rfl, by rw [← hnew]; rfl, ?_, ?_, ?_, ?_,
    ?_, ?_, ⟨accD.recordObjectBalanceOwner old.owner old.typeName old.data, ⟨?_, ?_⟩, ⟨?_, ?_⟩⟩,
    ((hkeptB.trans hkeptD).trans hrest.kept).trans hkept⟩
  · rw [hadjusted, ← hnew]
    refine ⟨hcharged.amount, ?_⟩
    have hdebit := hcharged.debit
    unfold ApplyAcc.gasAdjusted at hdebit ⊢
    rw [hB.adjusted] at hdebit
    exact hdebit
  · rw [hobjects, hrest.objects, hobjD]
    show (if _ then accB.state.objects else accB.state.objects.erase storedId).insert _ _ = _
    rw [hB.objects]
  · rw [howned]
    unfold movedIndex
    apply indexedAfter_congr
    rw [hrest.ownedObjects, hownedD]
    show (if _ then accB.state.removeOwnedObjectIndexVariants _ _ _ else accB.state).ownedObjects = _
    unfold removeOwnedObjectIndexVariants
    split_ifs
    · dsimp only
      rw [hB.ownedObjects]
    · exact hB.ownedObjects
  · rw [hindex, hrest.objectIndex, hindexD]
    exact hB.objectIndex
  · rw [hadditions, hrest.ownedAdditions, haddD]
    show accB.ownedIndexAdditions ++ _ = _
    rw [hB.ownedAdditions]
    simp
  · rw [hindexed, hrest.indexAdditions, hindexedD]
    show accB.objectIndexAdditions ++ _ = _
    rw [hB.indexAdditions]
  · intro a
    rw [hmarks.recompute a, hrecD]
    show accB.ownersToRecompute.contains a = true ∨ _ ↔ _
    rw [hB.recompute]
  · intro a
    rw [hmarks.nonNative a, hnonD]
    show accB.nonNativeObjectChanged.contains a = true ∨ _ ↔ _
    rw [hB.nonNative]
  · rw [hrecompute, hsilent.recompute]
    exact hmarks'.recompute
  · rw [hnonNative, hsilent.nonNative]
    exact hmarks'.nonNative

/-! ## A deleted object -/

lemma applyDeletedObject_ok {objectId : String}
    (hload : acc.state.loadStoredObjectByAnyId objectId = some (storedId, old))
    (h : applyDeletedObject acc objectId = .ok acc') :
    acc'.state.objects = acc.state.objects.erase storedId ∧
      acc'.state.ownedObjects = (if isAddressOwned old.ownerKind then
        acc.state.removeOwnedObjectIndexVariants old.owner objectId (some storedId)
        else acc.state).ownedObjects ∧
      acc'.state.objectIndex =
        (acc.state.objectIndex.erase storedId).erase (canonicalOwnedObjectId objectId) ∧
      acc'.ownedIndexAdditions = acc.ownedIndexAdditions ∧
      acc'.objectIndexAdditions = acc.objectIndexAdditions ∧
      acc'.nativeObjectGasAdjusted = acc.nativeObjectGasAdjusted ∧
      Marks acc acc' old.owner old.typeName old.data ∧ Kept acc acc' := by
  unfold applyDeletedObject at h
  rw [hload] at h
  obtain ⟨acc₁, hnote, h⟩ := bind_eq_ok.mp h
  obtain ⟨hquiet, hadj, hmarks⟩ := recordObjectBalanceOwner_ok acc old.owner old.typeName old.data
  have hsilent : Silent (acc.recordObjectBalanceOwner old.owner old.typeName old.data) acc₁ := by
    unfold noteDeletedNative at hnote
    split at hnote
    · cases hnote
      exact Silent.refl _
    · obtain ⟨accB, hbefore, hnote⟩ := bind_eq_ok.mp hnote
      obtain ⟨accA, hafter, hnote⟩ := bind_eq_ok.mp hnote
      cases hnote
      have hnoted := (addObjectBefore_silent hbefore).trans (addObjectAfter_silent hafter)
      exact ⟨⟨hnoted.objects, hnoted.ownedObjects, hnoted.objectIndex, hnoted.owners, hnoted.ownerIndex,
        hnoted.supplies, hnoted.locked, hnoted.ownedAdditions, hnoted.indexAdditions⟩,
        hnoted.recompute, hnoted.nonNative, hnoted.adjusted⟩
  have hrest := hquiet.trans hsilent.toQuiet
  have hmarks := hmarks.silent hsilent
  cases h
  unfold dropObject removeOwnedObjectIndexVariants
  rw [← hrest.objects, ← hrest.objectIndex, ← hrest.ownedAdditions, ← hrest.indexAdditions, ← hadj,
    ← hsilent.adjusted]
  split_ifs
  · dsimp only
    rw [← hrest.ownedObjects]
    exact ⟨rfl, rfl, rfl, rfl, rfl, rfl, ⟨hmarks.recompute, hmarks.nonNative⟩, hrest.owners,
      hrest.ownerIndex, hrest.supplies, hrest.locked⟩
  · dsimp only
    rw [← hrest.ownedObjects]
    exact ⟨rfl, rfl, rfl, rfl, rfl, rfl, ⟨hmarks.recompute, hmarks.nonNative⟩, hrest.owners,
      hrest.ownerIndex, hrest.supplies, hrest.locked⟩

/-! ## A gas object -/

lemma extractBalance_of_nativeAmount (hst : structTagFromStr typeName = some st)
    (h : nativeAmount typeName data = some amount) :
    extractBalanceFromObjectBytes data st = some amount := by
  unfold nativeAmount balanceTokenAmount at h
  rw [hst, Option.bind_some] at h
  split_ifs at h
  · cases htoken : tokenTypeFromBalanceStruct st with
    | none => simp [htoken] at h
    | some token =>
      cases hread : extractBalanceFromObjectBytes data st with
      | none => simp [htoken, hread] at h
      | some n =>
        simp only [htoken, hread, Option.bind_some, Option.map_some] at h
        split_ifs at h
        exact h
  · simp at h

lemma saveGasObject_ok (acc : ApplyAcc) (ref : ObjectRef) (canonicalId storedId : String)
    (next : StoredObject) :
    let acc' := saveGasObject acc ref canonicalId storedId next
    acc'.state.objects = (if storedId = canonicalId then acc.state.objects.insert canonicalId next
        else (acc.state.objects.insert canonicalId next).erase storedId) ∧
      acc'.state.ownedObjects = (if isAddressOwned next.ownerKind then
        acc.state.refreshOwnedObjectIndex next.owner ref.objectId (some storedId)
        else acc.state).ownedObjects ∧
      acc'.state.objectIndex = acc.state.objectIndex ∧
      acc'.ownedIndexAdditions = acc.ownedIndexAdditions ∧
      acc'.objectIndexAdditions = acc.objectIndexAdditions ++ [canonicalId] ∧
      acc'.ownersToRecompute = acc.ownersToRecompute ∧
      acc'.nonNativeObjectChanged = acc.nonNativeObjectChanged ∧
      acc'.nativeObjectGasAdjusted = acc.nativeObjectGasAdjusted ∧ Kept acc acc' := by
  unfold saveGasObject refreshOwnedObjectIndex removeOwnedObjectIndexVariants
  dsimp only
  split_ifs <;> exact ⟨rfl, rfl, rfl, rfl, rfl, rfl, rfl, rfl, rfl, rfl, rfl, rfl⟩

/-- The object after `charged` was taken out of it, as a gas object. -/
structure GasPaid (acc acc' : ApplyAcc) (ref : ObjectRef) (storedId : String) (old : StoredObject)
    (debit : Nat) (data : Bytes) : Prop where
  amount : balanceTokenAmount old.typeName data = (balanceTokenAmount old.typeName old.data).map
    fun p => (p.1, p.2 - (debit - acc.gasAdjusted old.owner))
  objects : acc'.state.objects =
    if storedId = canonicalOwnedObjectId ref.objectId then
      acc.state.objects.insert (canonicalOwnedObjectId ref.objectId)
        ⟨canonicalOwnedObjectId ref.objectId, old.owner, old.ownerKind, old.typeName, data, old.version + 1⟩
    else (acc.state.objects.insert (canonicalOwnedObjectId ref.objectId)
        ⟨canonicalOwnedObjectId ref.objectId, old.owner, old.ownerKind, old.typeName, data,
          old.version + 1⟩).erase storedId
  ownedObjects : acc'.state.ownedObjects = (if isAddressOwned old.ownerKind then
    acc.state.refreshOwnedObjectIndex old.owner ref.objectId (some storedId)
    else acc.state).ownedObjects
  objectIndex : acc'.state.objectIndex = acc.state.objectIndex
  ownedAdditions : acc'.ownedIndexAdditions = acc.ownedIndexAdditions
  indexAdditions : acc'.objectIndexAdditions =
    acc.objectIndexAdditions ++ [canonicalOwnedObjectId ref.objectId]
  adjusted : acc'.nativeObjectGasAdjusted = acc.nativeObjectGasAdjusted.insert old.owner debit
  marks : Marks acc acc' old.owner old.typeName data
  kept : Kept acc acc'

lemma chargeGasObject_ok {debit : Nat} (hnative : nativeAmount old.typeName old.data = some amount)
    (h : chargeGasObject acc ref storedId old debit amount = .ok acc') :
    ∃ data, GasPaid acc acc' ref storedId old debit data := by
  unfold chargeGasObject at h
  dsimp only at h
  cases hst : structTagFromStr old.typeName with
  | none =>
    rw [hst] at h
    cases h
  | some st =>
    rw [hst] at h
    obtain ⟨_, henough, h⟩ := bind_eq_ok.mp h
    have henough : debit - acc.gasAdjusted old.owner ≤ amount :=
      of_decide_eq_true (ensure_eq_ok.mp henough)
    cases hwrite : writeBalanceToObjectBytes old.data st
        (amount - (debit - acc.gasAdjusted old.owner)) with
    | none =>
      rw [hwrite] at h
      cases h
    | some data =>
      rw [hwrite] at h
      obtain ⟨acc₁, hnote, h⟩ := bind_eq_ok.mp h
      cases h
      have hsilent := noteGasObject_silent hnote
      obtain ⟨hobjects, howned, hindex, hadditions, hindexed, hrecompute, hnonNative, hadjusted, hkept⟩ :=
        saveGasObject_ok acc ref (canonicalOwnedObjectId ref.objectId) storedId
          { old with
            id := canonicalOwnedObjectId ref.objectId, data := data, version := old.version + 1 }
      obtain ⟨hquiet, hadj, hmarks⟩ := recordObjectBalanceOwner_ok
        (saveGasObject acc ref (canonicalOwnedObjectId ref.objectId) storedId
          { old with
            id := canonicalOwnedObjectId ref.objectId, data := data, version := old.version + 1 })
        old.owner old.typeName data
      have hrest := hquiet.trans hsilent.toQuiet
      have hmarks := hmarks.silent hsilent
      refine ⟨data, ?_, ?_, ?_, ?_, ?_, ?_, ?_, ⟨?_, ?_⟩, hkept.trans ⟨hrest.owners, hrest.ownerIndex,
        hrest.supplies, hrest.locked⟩⟩
      · rw [balanceTokenAmount_write hst (extractBalance_of_nativeAmount hst hnative) (Nat.sub_le _ _)
          hwrite, Nat.sub_sub_self henough]
      · exact hrest.objects.trans hobjects
      · exact hrest.ownedObjects.trans howned
      · exact hrest.objectIndex.trans hindex
      · exact hrest.ownedAdditions.trans hadditions
      · exact hrest.indexAdditions.trans hindexed
      · exact congrArg (OrdMap.insert · old.owner debit)
          ((hsilent.adjusted.trans hadj).trans hadjusted)
      · rw [← hrecompute]
        exact hmarks.recompute
      · rw [← hnonNative]
        exact hmarks.nonNative

lemma applyGasObject_ok (h : applyGasObject ctx acc ref = .ok acc') :
    acc' = acc ∨ ∃ storedId old debit data,
      acc.state.loadStoredObjectByAnyId ref.objectId = some (storedId, old) ∧
      ctx.ownerNativeGasDebit old.owner true = .ok debit ∧
      (nativeAmount old.typeName old.data).isSome = true ∧
      GasPaid acc acc' ref storedId old debit data := by
  obtain ⟨charged, -, h⟩ := bind_eq_ok.mp h
  split_ifs at h
  · cases h
    exact .inl rfl
  cases hload : acc.state.loadStoredObjectByAnyId ref.objectId with
  | none =>
    rw [hload] at h
    cases h
    exact .inl rfl
  | some e =>
    obtain ⟨storedId, old⟩ := e
    rw [hload] at h
    obtain ⟨debit, hdebit, h⟩ := bind_eq_ok.mp h
    split_ifs at h with hzero
    · cases h
      exact .inl rfl
    cases hnative : nativeAmount old.typeName old.data with
    | none =>
      rw [hnative] at h
      cases h
      exact .inl rfl
    | some amount =>
      rw [hnative] at h
      obtain ⟨data, hpaid⟩ := chargeGasObject_ok hnative h
      exact .inr ⟨storedId, old, debit, data, rfl, hdebit, by rw [hnative]; rfl, hpaid⟩

/-! ## The whole stage -/

lemma applyBalanceHint_ok {cs : ChangeSet} {e : AccountAddress × String × Nat}
    (h : applyBalanceHint cs acc e = .ok acc') :
    acc' = acc ∨ acc' = { acc with ownersToRecompute := OrdSet.add acc.ownersToRecompute e.1 } := by
  unfold applyBalanceHint at h
  dsimp only at h
  split_ifs at h
  · cases h
    exact .inl rfl
  · obtain ⟨backed, -, h⟩ := bind_eq_ok.mp h
    cases h
    split_ifs
    · exact .inr rfl
    · exact .inl rfl

end Kanari.Proofs

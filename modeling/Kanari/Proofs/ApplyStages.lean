import Kanari.Proofs.Balances

/-!
# What each stage of an application changes

One lemma for each stage: the fields it may write.
-/

namespace Kanari.Proofs

open Lib StateManager

variable {σ σ' : StateManager} {changed reconcile : Bool}
  {before : OrdMap AccountAddress (Nat × Nat)} {a owner : AccountAddress} {acc acc' : ApplyAcc}
  {ctx : ApplyContext} {cs : ChangeSet}

lemma captureSupplyChanged_ok {account : OwnerState} {old : OrdMap String Nat}
    (h : σ.captureSupplyChanged account old = .ok (σ', changed)) :
    ∃ supplies, σ' = { σ with globalTokenSupplies := supplies } := by
  obtain ⟨supplies, -, h⟩ := bind_eq_ok.mp h
  cases h
  exact ⟨supplies, rfl⟩

def OwnerStage (acc acc' : ApplyAcc) : Prop :=
  ∃ owners ownerIndex supplies dirty additions after,
    acc' = { acc with
      state := { acc.state with
        owners := owners, ownerIndex := ownerIndex, globalTokenSupplies := supplies }
      suppliesDirty := dirty
      ownerIndexAdditions := additions
      nativeAfterOwnerDeltas := after }

lemma OwnerStage.refl (acc : ApplyAcc) : OwnerStage acc acc := ⟨_, _, _, _, _, _, rfl⟩

lemma OwnerStage.trans {acc'' : ApplyAcc} (h : OwnerStage acc acc') (h' : OwnerStage acc' acc'') :
    OwnerStage acc acc'' := by
  obtain ⟨_, _, _, _, _, _, rfl⟩ := h
  obtain ⟨_, _, _, _, _, _, rfl⟩ := h'
  exact ⟨_, _, _, _, _, _, rfl⟩

lemma saveDeltaOwner_stage (acc : ApplyAcc) (s : OwnerState) :
    OwnerStage acc (saveDeltaOwner acc s) := by
  unfold saveDeltaOwner
  split_ifs
  · exact ⟨_, _, _, _, _, _, rfl⟩
  · exact ⟨_, _, _, _, _, _, rfl⟩

lemma applyOwnerDelta_stage {e : AccountAddress × OwnerDelta}
    (h : applyOwnerDelta before acc e = .ok acc') : OwnerStage acc acc' := by
  obtain ⟨next, -, h⟩ := bind_eq_ok.mp h
  obtain ⟨⟨state, changed⟩, hcapture, h⟩ := bind_eq_ok.mp h
  obtain ⟨supplies, rfl⟩ := captureSupplyChanged_ok hcapture
  cases h
  exact (saveDeltaOwner_stage acc next).trans ⟨_, _, _, _, _, _, rfl⟩

lemma applyOwnerDeltas_stage (h : applyOwnerDeltas ctx acc = .ok acc') : OwnerStage acc acc' := by
  obtain ⟨mid, hmid, h⟩ := bind_eq_ok.mp h
  cases h
  have hstage : OwnerStage acc mid := foldOk_invariant (OwnerStage acc)
    (fun _ _ _ _ hs hstep => hs.trans (applyOwnerDelta_stage hstep)) (OwnerStage.refl acc) hmid
  exact hstage.trans ⟨_, _, _, _, _, _, rfl⟩

lemma delta_of_find {d : OwnerDelta} (h : cs.ownerDeltas.find? a = some d) :
    cs.delta a = d.balanceDelta := by
  simp [ChangeSet.delta, h]

def LedgersOnly (σ σ' : StateManager) : Prop :=
  ∃ owners ownerIndex supplies, σ' =
    { σ with owners := owners, ownerIndex := ownerIndex, globalTokenSupplies := supplies }

lemma saveOwnerState_ledgersOnly (σ : StateManager) (s : OwnerState) :
    LedgersOnly σ (σ.saveOwnerStateWithoutSupplyIndex s) := by
  unfold saveOwnerStateWithoutSupplyIndex
  split_ifs
  · exact ⟨_, _, _, rfl⟩
  · exact ⟨_, _, _, rfl⟩

lemma LedgersOnly.refl (σ : StateManager) : LedgersOnly σ σ := ⟨_, _, _, rfl⟩

lemma LedgersOnly.trans {σ'' : StateManager} (h : LedgersOnly σ σ') (h' : LedgersOnly σ' σ'') :
    LedgersOnly σ σ'' := by
  obtain ⟨_, _, _, rfl⟩ := h
  obtain ⟨_, _, _, rfl⟩ := h'
  exact ⟨_, _, _, rfl⟩

lemma recomputeTokenBalancesForOwner_only {r : NativeRecompute}
    (h : σ.recomputeTokenBalancesForOwner owner r = .ok (σ', changed)) : LedgersOnly σ σ' := by
  obtain ⟨balances, -, h⟩ := bind_eq_ok.mp h
  obtain ⟨native, -, h⟩ := bind_eq_ok.mp h
  obtain ⟨supplies, rfl⟩ := captureSupplyChanged_ok h
  exact (saveOwnerState_ledgersOnly σ _).trans ⟨_, _, _, rfl⟩

lemma recomputeOwner_only (h : recomputeOwner ctx acc owner = .ok acc') :
    (∃ state dirty, acc' = { acc with state := state, suppliesDirty := dirty }) ∧
      LedgersOnly acc.state acc'.state := by
  obtain ⟨agrees, -, h⟩ := bind_eq_ok.mp h
  cases agrees with
  | true =>
    cases h
    exact ⟨⟨_, _, rfl⟩, LedgersOnly.refl _⟩
  | false =>
    simp only [Bool.false_eq_true, if_false] at h
    obtain ⟨⟨state, changed⟩, hrecompute, h⟩ := bind_eq_ok.mp h
    cases h
    exact ⟨⟨_, _, rfl⟩, recomputeTokenBalancesForOwner_only hrecompute⟩

lemma recomputeOwners_only (h : recomputeOwners ctx acc = .ok acc') :
    LedgersOnly acc.state acc'.state :=
  foldOk_invariant (fun mid => LedgersOnly acc.state mid.state)
    (fun _ _ _ _ hs hstep => hs.trans (recomputeOwner_only hstep).2) (LedgersOnly.refl _) h

lemma indexCollections_state (cs : ChangeSet) (σ : StateManager) :
    ∃ index members, indexCollections cs σ =
      { σ with collectionIndex := index, collectionMembers := members } := by
  let P (τ : StateManager) : Prop := ∃ index members, τ =
    { σ with collectionIndex := index, collectionMembers := members }
  unfold indexCollections
  apply foldl_invariant P
  · rintro τ event ⟨_, _, rfl⟩
    split <;> exact ⟨_, _, rfl⟩
  · exact ⟨_, _, rfl⟩

lemma applyStorage_state (cs : ChangeSet) (σ : StateManager) :
    ∃ store index fields, applyStorage cs σ =
      { σ with moveStore := store, moduleIndex := index, dynamicFields := fields } := by
  let P (τ : StateManager) : Prop := ∃ store index fields, τ =
    { σ with moveStore := store, moduleIndex := index, dynamicFields := fields }
  unfold applyStorage
  apply foldl_invariant P
  · rintro τ f ⟨_, _, _, rfl⟩
    exact ⟨_, _, _, rfl⟩
  apply foldl_invariant P
  · rintro τ f ⟨_, _, _, rfl⟩
    exact ⟨_, _, _, rfl⟩
  apply foldl_invariant P
  · rintro τ e ⟨_, _, _, rfl⟩
    unfold applyMoveWrite
    cases e.2 <;> exact ⟨_, _, _, rfl⟩
  · exact ⟨_, _, _, rfl⟩

/-- Whatever the repair does, it writes ledgers and the cached supply only. -/
lemma repairLegacyNativeWalletOvercount_state (h : σ.repairLegacyNativeWalletOvercount = .ok σ') :
    ∃ owners supplies record, σ' = { σ with
      owners := owners, globalTokenSupplies := supplies, globalTokenSuppliesRecord := record } := by
  have hdebits : ∀ (l : List OwnerState) (acc : StateManager × Nat),
      ∃ owners, (l.foldl debitExcess acc).1 = { acc.1 with owners := owners } := by
    intro l
    induction l with
    | nil => exact fun acc => ⟨_, rfl⟩
    | cons s l ih =>
      intro acc
      obtain ⟨owners, hl⟩ := ih (debitExcess acc s)
      rw [List.foldl_cons, hl]
      unfold debitExcess
      split_ifs <;> exact ⟨_, rfl⟩
  obtain ⟨visible, -, h⟩ := bind_eq_ok.mp h
  obtain ⟨locked, -, h⟩ := bind_eq_ok.mp h
  dsimp only at h
  split_ifs at h
  · cases h
    exact ⟨_, _, _, rfl⟩
  · cases h
    exact ⟨_, _, _, rfl⟩
  · obtain ⟨addresses, -, h⟩ := bind_eq_ok.mp h
    obtain ⟨_, -, h⟩ := bind_eq_ok.mp h
    obtain ⟨synced, hsynced, h⟩ := bind_eq_ok.mp h
    obtain ⟨owners, hdebited⟩ := hdebits (σ.accountsFromLast addresses) (σ, visible - (σ.totalSupply - locked))
    obtain ⟨indexed, -, hsynced⟩ := bind_eq_ok.mp hsynced
    cases h
    cases hsynced
    rw [hdebited]
    exact ⟨_, _, _, rfl⟩

lemma flushIndexes_state (acc : ApplyAcc) :
    ∃ owned index ownerIndex, (flushIndexes acc).state = { acc.state with
      ownedObjects := owned, objectIndex := index, ownerIndex := ownerIndex } := by
  have hfold : ∀ (l : List (AccountAddress × String)) (τ : StateManager),
      ∃ owned, l.foldl addOwnedIndexEntry τ = { τ with ownedObjects := owned } := by
    intro l
    induction l with
    | nil =>
      intro τ
      exact ⟨_, rfl⟩
    | cons e l ih =>
      intro τ
      obtain ⟨owned, hl⟩ := ih (addOwnedIndexEntry τ e)
      exact ⟨owned, hl⟩
  obtain ⟨owned, hl⟩ := hfold acc.ownedIndexAdditions acc.state
  unfold flushIndexes
  dsimp only
  rw [hl]
  exact ⟨owned, _, _, rfl⟩

lemma flushIndexes_objects (acc : ApplyAcc) : (flushIndexes acc).state.objects = acc.state.objects := by
  obtain ⟨owned, index, ownerIndex, hflush⟩ := flushIndexes_state acc
  rw [hflush]

lemma reconcileLocked_state {before : List SupplySnapshot}
    (h : σ.reconcileLocked cs reconcile before = .ok σ') :
    ∃ records, σ' = { σ with lockedCoinRecords := records } := by
  unfold reconcileLocked at h
  split_ifs at h
  · unfold reconcileObjectLockedCoinRecords at h
    dsimp only at h
    split_ifs at h
    · cases h
      exact ⟨_, rfl⟩
    · obtain ⟨records, -, h⟩ := bind_eq_ok.mp h
      cases h
      exact ⟨records, rfl⟩
  · cases h
    exact ⟨_, rfl⟩

lemma applySupplies_state (next : Option Nat) (cs : ChangeSet) (σ : StateManager) :
    ∃ total record supplies owners index caps, applySupplies next cs σ = { σ with
      totalSupply := total, totalSupplyRecord := record, supplies := supplies
      treasuryOwners := owners, treasuryIndex := index, nftCaps := caps } := by
  let P (τ : StateManager) : Prop := ∃ total record supplies owners index caps, τ = { σ with
    totalSupply := total, totalSupplyRecord := record, supplies := supplies
    treasuryOwners := owners, treasuryIndex := index, nftCaps := caps }
  unfold applySupplies
  apply foldl_invariant P
  · rintro τ c ⟨_, _, _, _, _, _, rfl⟩
    exact ⟨_, _, _, _, _, _, rfl⟩
  apply foldl_invariant P
  · rintro τ t ⟨_, _, _, _, _, _, rfl⟩
    unfold saveTreasury
    dsimp only
    split_ifs <;> exact ⟨_, _, _, _, _, _, rfl⟩
  · cases next <;> exact ⟨_, _, _, _, _, _, rfl⟩

lemma finishApply_state {before : List SupplySnapshot}
    (h : finishApply cs reconcile before acc = .ok σ') :
    ∃ records record store index fields access, σ' = { acc.state with
      lockedCoinRecords := records, globalTokenSuppliesRecord := record, moveStore := store
      moduleIndex := index, dynamicFields := fields, access := access } := by
  obtain ⟨σ, hσ, h⟩ := bind_eq_ok.mp h
  obtain ⟨records, rfl⟩ := reconcileLocked_state hσ
  obtain ⟨store, index, fields, hstorage⟩ := applyStorage_state cs
    (if acc.suppliesDirty then
      saveGlobalTokenSupplies { acc.state with lockedCoinRecords := records }
      else { acc.state with lockedCoinRecords := records })
  obtain ⟨⟨⟩, -, h⟩ := bind_eq_ok.mp h
  obtain rfl := Except.ok.inj h
  rw [hstorage]
  split_ifs <;> exact ⟨_, _, _, _, _, _, rfl⟩

lemma apply_steps (h : σ.applyChangesetWithoutSupplyValidation cs = .ok σ') :
    ∃ next ctx before moved written settled, σ.nextTotalSupply cs = .ok next ∧
      σ.applyContext cs = .ok ctx ∧ σ.supplySnapshots cs = .ok before ∧
      applyOwnerDeltas ctx { state := σ } = .ok moved ∧
      applyObjects ctx { moved with state := applySupplies next cs moved.state } = .ok written ∧
      recomputeOwners ctx (flushIndexes written) = .ok settled ∧
      finishApply cs (σ.needsObjectLockedReconciliation cs) before settled = .ok σ' := by
  obtain ⟨next, hnext, h⟩ := bind_eq_ok.mp h
  obtain ⟨ctx, hctx, h⟩ := bind_eq_ok.mp h
  obtain ⟨before, hbefore, h⟩ := bind_eq_ok.mp h
  obtain ⟨moved, hmoved, h⟩ := bind_eq_ok.mp h
  obtain ⟨written, hwritten, h⟩ := bind_eq_ok.mp h
  obtain ⟨settled, hsettled, hfinish⟩ := bind_eq_ok.mp h
  exact ⟨next, ctx, before, moved, written, settled, hnext, hctx, hbefore, hmoved, hwritten, hsettled, hfinish⟩

lemma apply_stages (h : σ.applyChangesetWithoutSupplyValidation cs = .ok σ') :
    ∃ next ctx moved written settled reconcile before, σ.nextTotalSupply cs = .ok next ∧
      σ.applyContext cs = .ok ctx ∧ applyOwnerDeltas ctx { state := σ } = .ok moved ∧
      applyObjects ctx { moved with state := applySupplies next cs moved.state } = .ok written ∧
      recomputeOwners ctx (flushIndexes written) = .ok settled ∧
      finishApply cs reconcile before settled = .ok σ' := by
  obtain ⟨next, ctx, before, moved, written, settled, hnext, hctx, -, hmoved, hwritten, hsettled, hfinish⟩ :=
    apply_steps h
  exact ⟨next, ctx, moved, written, settled, _, before, hnext, hctx, hmoved, hwritten, hsettled, hfinish⟩

lemma applyContext_cs (h : σ.applyContext cs = .ok ctx) : ctx.cs = cs := by
  obtain ⟨total, -, h⟩ := bind_eq_ok.mp h
  obtain ⟨before, -, h⟩ := bind_eq_ok.mp h
  obtain ⟨_, -, h⟩ := bind_eq_ok.mp h
  cases h
  rfl

lemma applyChangeset_checked (h : σ.applyChangeset cs = .ok σ') :
    ∃ τ, σ.applyChangesetWithoutSupplyValidation cs = .ok τ ∧
      τ.repairLegacyNativeWalletOvercount = .ok σ' ∧ σ'.validateCachedSupplyInvariants = .ok () := by
  obtain ⟨_, -, h⟩ := bind_eq_ok.mp h
  obtain ⟨τ, hτ, h⟩ := bind_eq_ok.mp h
  obtain ⟨repaired, hrepaired, h⟩ := bind_eq_ok.mp h
  obtain ⟨_, hchecked, h⟩ := bind_eq_ok.mp h
  cases h
  exact ⟨τ, hτ, hrepaired, hchecked⟩

lemma applyChangeset_ok (h : σ.applyChangeset cs = .ok σ') :
    ∃ τ, σ.applyChangesetWithoutSupplyValidation cs = .ok τ ∧
      τ.repairLegacyNativeWalletOvercount = .ok σ' := by
  obtain ⟨τ, hτ, hrepaired, -⟩ := applyChangeset_checked h
  exact ⟨τ, hτ, hrepaired⟩

lemma apply_objects {written settled : ApplyAcc} {before : List SupplySnapshot}
    (hrecompute : recomputeOwners ctx (flushIndexes written) = .ok settled)
    (hfinish : finishApply cs reconcile before settled = .ok σ') :
    σ'.objects = written.state.objects := by
  obtain ⟨_, _, _, _, _, _, rfl⟩ := finishApply_state hfinish
  obtain ⟨_, _, _, honly⟩ := recomputeOwners_only hrecompute
  rw [honly]
  exact flushIndexes_objects written

end Kanari.Proofs

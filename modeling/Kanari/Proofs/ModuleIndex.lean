import Kanari.Lib.Overlay
import Kanari.Proofs.ObjectIndexes

/-!
# The module index

The index lists exactly the modules in the store; only the move writes touch either of them.
-/

namespace Kanari.Proofs

open Lib StateManager

def isModuleKey (key : String) : Bool := "module:".toList.isPrefixOf key.toList

variable {σ σ' : StateManager} {acc acc' : ApplyAcc} {ctx : ApplyContext} {cs : ChangeSet}

structure SameModules (σ σ' : StateManager) : Prop where
  moveStore : σ'.moveStore = σ.moveStore
  moduleIndex : σ'.moduleIndex = σ.moduleIndex

lemma SameModules.refl (σ : StateManager) : SameModules σ σ := ⟨rfl, rfl⟩

lemma SameModules.trans {σ'' : StateManager} (h : SameModules σ σ') (h' : SameModules σ' σ'') :
    SameModules σ σ'' := ⟨h'.moveStore.trans h.moveStore, h'.moduleIndex.trans h.moduleIndex⟩

lemma SameModules.of_eq (h : σ' = σ) : SameModules σ σ' := by
  subst h
  exact SameModules.refl _

lemma applyDeletedObject_modules {objectId : String}
    (h : applyDeletedObject acc objectId = .ok acc') : SameModules acc.state acc'.state := by
  unfold applyDeletedObject at h
  split at h
  · cases h
    exact ⟨rfl, rfl⟩
  · obtain ⟨noted, hnote, h⟩ := bind_eq_ok.mp h
    have hnoted : noted.state = acc.state := by
      unfold noteDeletedNative at hnote
      split at hnote
      · cases hnote
        exact recordObjectBalanceOwner_state _ _ _ _
      · obtain ⟨before, hbefore, hnote⟩ := bind_eq_ok.mp hnote
        obtain ⟨after, hafter, hnote⟩ := bind_eq_ok.mp hnote
        cases hnote
        show after.state = _
        rw [addObjectAfter_state hafter, addObjectBefore_state hbefore, recordObjectBalanceOwner_state]
    cases h
    rw [← hnoted]
    split_ifs <;> exact ⟨rfl, rfl⟩

lemma nextObject_modules {c : String × CreatedObject} {existing : Option (String × StoredObject)}
    {new : CreatedObject} (h : nextObject ctx acc c existing = .ok (acc', new)) :
    SameModules acc.state acc'.state := by
  cases existing with
  | none =>
    cases h
    exact SameModules.refl _
  | some e =>
    obtain ⟨noted, hnote, h⟩ := bind_eq_ok.mp h
    obtain ⟨⟨charged, new'⟩, hcharge, h⟩ := bind_eq_ok.mp h
    cases h
    obtain ⟨_, _, _, rfl, rfl, -⟩ := chargeWrittenObject_ok hcharge
    have hnoted : noted.state = acc.state := by
      unfold noteExistingNative at hnote
      split at hnote
      · exact addObjectBefore_state hnote
      · cases hnote
        rfl
    rw [recordObjectBalanceOwner_state, ← hnoted]
    unfold leaveOwner
    split_ifs <;> exact ⟨rfl, rfl⟩

lemma applyCreatedObject_modules {c : String × CreatedObject}
    (h : applyCreatedObject ctx acc c = .ok acc') : SameModules acc.state acc'.state := by
  obtain ⟨⟨next, new⟩, hnext, h⟩ := bind_eq_ok.mp h
  obtain ⟨noted, hnote, h⟩ := bind_eq_ok.mp h
  cases h
  have hnoted := (noteWrittenNative_state hnote).trans (recordObjectBalanceOwner_state _ _ _ _)
  have hcap : SameModules noted.state (saveTreasuryCap noted new).state := by
    unfold saveTreasuryCap
    split
    · exact SameModules.refl _
    · unfold saveTreasury
      split_ifs <;> exact ⟨rfl, rfl⟩
  apply ((nextObject_modules hnext).trans (SameModules.of_eq hnoted)).trans
  apply hcap.trans
  unfold indexWrittenObject
  split_ifs
  · split
    · exact ⟨rfl, rfl⟩
    · split_ifs <;> exact ⟨rfl, rfl⟩
  · exact ⟨rfl, rfl⟩

lemma applyGasObject_modules {ref : ObjectRef} (h : applyGasObject ctx acc ref = .ok acc') :
    SameModules acc.state acc'.state := by
  obtain ⟨charged, -, h⟩ := bind_eq_ok.mp h
  split_ifs at h
  · cases h
    exact SameModules.refl _
  split at h
  · cases h
    exact SameModules.refl _
  obtain ⟨debit, -, h⟩ := bind_eq_ok.mp h
  split_ifs at h
  · cases h
    exact SameModules.refl _
  split at h
  · cases h
    exact SameModules.refl _
  unfold chargeGasObject at h
  dsimp only at h
  split at h
  · cases h
  obtain ⟨_, -, h⟩ := bind_eq_ok.mp h
  split at h
  · cases h
  obtain ⟨noted, hnote, h⟩ := bind_eq_ok.mp h
  cases h
  show SameModules acc.state noted.state
  rw [noteGasObject_state hnote, recordObjectBalanceOwner_state]
  unfold saveGasObject
  dsimp only
  split_ifs <;> exact ⟨rfl, rfl⟩

lemma applyObjects_modules (h : applyObjects ctx acc = .ok acc') :
    SameModules acc.state acc'.state := by
  obtain ⟨hinted, hhinted, h⟩ := bind_eq_ok.mp h
  obtain ⟨deleted, hdeleted, h⟩ := bind_eq_ok.mp h
  obtain ⟨created, hcreated, hgas⟩ := bind_eq_ok.mp h
  have hhinted : SameModules acc.state hinted.state := by
    apply foldOk_invariant (fun s : ApplyAcc => SameModules acc.state s.state) _ (SameModules.refl _) hhinted
    intro s e s' _ hs hstep
    obtain rfl | rfl := applyBalanceHint_ok hstep <;> exact hs
  have hdeleted : SameModules acc.state deleted.state :=
    foldOk_invariant (fun s : ApplyAcc => SameModules acc.state s.state)
      (fun _ _ _ _ hs hstep => hs.trans (applyDeletedObject_modules hstep)) hhinted hdeleted
  obtain ⟨_, _, hcollections⟩ := indexCollections_state ctx.cs deleted.state
  have hindexed : SameModules acc.state (indexCollections ctx.cs deleted.state) := by
    rw [hcollections]
    exact ⟨hdeleted.moveStore, hdeleted.moduleIndex⟩
  have hcreated : SameModules acc.state created.state :=
    foldOk_invariant (fun s : ApplyAcc => SameModules acc.state s.state)
      (fun _ _ _ _ hs hstep => hs.trans (applyCreatedObject_modules hstep)) hindexed hcreated
  exact foldOk_invariant (fun s : ApplyAcc => SameModules acc.state s.state)
    (fun _ _ _ _ hs hstep => hs.trans (applyGasObject_modules hstep)) hcreated hgas

lemma finishApply_modules {reconcile : Bool} {before : List SupplySnapshot}
    (h : finishApply cs reconcile before acc = .ok σ') :
    ∃ τ, SameModules acc.state τ ∧ SameModules (applyStorage cs τ) σ' := by
  obtain ⟨τ, hτ, h⟩ := bind_eq_ok.mp h
  obtain ⟨records, rfl⟩ := reconcileLocked_state hτ
  dsimp only at h
  generalize hsaved : (if acc.suppliesDirty = true then _ else _) = saved at h
  have hsame : SameModules acc.state saved := by
    subst hsaved
    split_ifs <;> exact ⟨rfl, rfl⟩
  obtain ⟨⟨⟩, -, h⟩ := bind_eq_ok.mp h
  obtain rfl := Except.ok.inj h
  exact ⟨saved, hsame, rfl, rfl⟩

lemma apply_modules (happly : σ.applyChangesetWithoutSupplyValidation cs = .ok σ') :
    ∃ τ, SameModules σ τ ∧ SameModules (applyStorage cs τ) σ' := by
  obtain ⟨next, ctx, moved, written, settled, reconcile, before, -, -, hmoved, hwritten, hsettled,
    hfinish⟩ := apply_stages happly
  obtain ⟨_, _, _, _, _, _, rfl⟩ := applyOwnerDeltas_stage hmoved
  obtain ⟨_, _, _, _, _, _, hsupplies⟩ := applySupplies_state next cs _
  rw [hsupplies] at hwritten
  have hwritten := applyObjects_modules hwritten
  obtain ⟨_, _, _, hflushed⟩ := flushIndexes_state written
  obtain ⟨_, _, _, honly⟩ := recomputeOwners_only hsettled
  have hsettled : SameModules σ settled.state := by
    rw [honly, hflushed]
    exact ⟨hwritten.moveStore, hwritten.moduleIndex⟩
  obtain ⟨τ, hτ, hstored⟩ := finishApply_modules hfinish
  exact ⟨τ, hsettled.trans hτ, hstored⟩

lemma applyStorage_moveStore (cs : ChangeSet) (σ : StateManager) :
    (applyStorage cs σ).moveStore = Overlay.flush cs.moveWrites σ.moveStore := by
  have hwrites : ∀ (l : List (String × Option Bytes)) (σ : StateManager),
      (l.foldl applyMoveWrite σ).moveStore = l.foldl Overlay.writeEntry σ.moveStore := by
    intro l
    induction l with
    | nil => exact fun _ => rfl
    | cons e l ih =>
      intro σ
      rw [List.foldl_cons, List.foldl_cons, ih]
      congr 1
      unfold applyMoveWrite Overlay.writeEntry
      cases e.2 <;> rfl
  rw [Overlay.flush, ← hwrites]
  unfold applyStorage
  generalize cs.moveWrites.entries.foldl applyMoveWrite σ = τ
  apply foldl_invariant (fun s : StateManager => s.moveStore = τ.moveStore)
  · intro _ _ hs
    exact hs
  apply foldl_invariant (fun s : StateManager => s.moveStore = τ.moveStore)
  · intro _ _ hs
    exact hs
  · rfl

/-- An application writes the move writes of its change set, and nothing else. -/
theorem applyChangeset_moveStore (h : σ.applyChangeset cs = .ok σ') :
    σ'.moveStore = Overlay.flush cs.moveWrites σ.moveStore := by
  obtain ⟨τ, hτ, hrepair⟩ := applyChangeset_ok h
  obtain ⟨_, _, _, rfl⟩ := repairLegacyNativeWalletOvercount_state hrepair
  obtain ⟨ρ, hsame, hstored⟩ := apply_modules hτ
  show τ.moveStore = _
  rw [hstored.moveStore, applyStorage_moveStore, hsame.moveStore]

end Kanari.Proofs

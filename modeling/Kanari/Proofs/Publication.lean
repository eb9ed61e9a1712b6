import Kanari.Publish
import Kanari.Proofs.GasCharges
import Kanari.Proofs.ModuleIndex

/-!
# Publications within a checkpoint

The checks look at the committed store, so a second publication of a module is checked against the
version before the checkpoint.
-/

namespace Kanari.Proofs

open Lib StateManager EngineEnv PublishEnv

variable {Code : Type} {P : PublishEnv Code} {committed : CommittedModules}

def intentOf (tx : Transaction) : Option ModulePublishIntent :=
  match tx.kind with
  | .publishModule _ | .publishPackage _ => some .publish
  | .upgradeModule _ | .upgradePackage _ => some .upgrade
  | .executeFunction _ => none

def moduleBytesOf (tx : Transaction) : List Bytes :=
  match tx.kind with
  | .publishModule m | .upgradeModule m => [m.moduleBytes]
  | .publishPackage ms | .upgradePackage ms => ms.map (·.moduleBytes)
  | .executeFunction _ => []

/-- The keys of the modules that a transaction publishes, by the identifiers in the bytecode. -/
def namedModules (P : PublishEnv Code) (tx : Transaction) : List String :=
  (moduleBytesOf tx).filterMap fun bytes =>
    (P.deserialize bytes).toOption.map fun compiled => (P.selfId compiled).key

/-- The module is part of the transaction and passed the checks. -/
structure Vetted (P : PublishEnv Code) (committed : CommittedModules) (intent : ModulePublishIntent)
    (m : CheckedModule) : Prop where
  checked : ∃ sender compiled, P.deserialize m.2 = .ok compiled ∧ P.selfId compiled = m.1 ∧
    P.verifyModulePublishSafety committed sender m.1 compiled m.2 intent = .ok ()

lemma isModuleKey_key (id : ModuleId) : isModuleKey id.key = true := by
  simp only [isModuleKey, ModuleId.key, String.toList_append, List.append_assoc,
    List.isPrefixOf_iff_prefix]
  exact List.prefix_append _ _

variable {sender : AccountAddress} {intent : ModulePublishIntent} {m : CheckedModule} {key : String}
  {σ : StateManager} {tx : Transaction} {cs : ChangeSet}

lemma checkModule_vetted {bytes : Bytes} (h : P.checkModule committed sender intent bytes = .ok m) :
    m.2 = bytes ∧ Vetted P committed intent m := by
  obtain ⟨compiled, hcompiled, h⟩ := bind_eq_ok.mp h
  obtain ⟨_, hsafe, h⟩ := bind_eq_ok.mp h
  cases h
  exact ⟨rfl, ⟨sender, compiled, hcompiled, rfl, hsafe⟩⟩

lemma checkPackage_vetted {modules : List PublishedModule} {checked : List CheckedModule}
    (h : foldOk (P.checkPackageModule committed sender intent) [] modules = .ok checked) :
    ∀ m ∈ checked, m.2 ∈ modules.map (·.moduleBytes) ∧ Vetted P committed intent m := by
  refine foldOk_invariant (fun checked => ∀ m ∈ checked,
    m.2 ∈ modules.map (·.moduleBytes) ∧ Vetted P committed intent m) ?_ (by simp) h
  intro checked m checked' hm hchecked hstep
  obtain ⟨compiled, hcompiled, hstep⟩ := bind_eq_ok.mp hstep
  obtain ⟨_, -, hstep⟩ := bind_eq_ok.mp hstep
  obtain ⟨_, hsafe, hstep⟩ := bind_eq_ok.mp hstep
  cases hstep
  intro m' hm'
  obtain hm' | hm' := List.mem_append.mp hm'
  · exact hchecked m' hm'
  · rw [List.mem_singleton.mp hm']
    exact ⟨List.mem_map_of_mem hm, ⟨sender, compiled, hcompiled, rfl, hsafe⟩⟩

lemma finishPublish_writes {limit price : Nat} {modules : List CheckedModule} {output : MoveOutput}
    (h : P.finishPublish committed sender limit price modules = .ok output) {value : Option Bytes}
    (hkey : output.moveWrites.find? key = some value) :
    ∃ m ∈ modules, m.1.key = key ∧ value = some m.2 := by
  obtain ⟨⟨events, vmGasUsed⟩, -, h⟩ := bind_eq_ok.mp h
  obtain ⟨gasUsed, -, h⟩ := bind_eq_ok.mp h
  cases h
  have hwrites : modules.foldl (fun m e => m.insert e.1.key (some e.2)) .empty =
      OrdMap.ofList (modules.map fun e => (e.1.key, some e.2)) := by
    rw [OrdMap.ofList, List.foldl_map]
  rw [hwrites] at hkey
  obtain ⟨m, hm, heq⟩ := List.mem_map.mp (OrdMap.mem_of_find?_ofList hkey)
  cases heq
  exact ⟨m, hm, rfl, rfl⟩

lemma runMove_vetted {output : MoveOutput} (h : P.runMove committed σ tx = .ok output)
    (hmodule : isModuleKey key = true) {value : Option Bytes}
    (hkey : output.moveWrites.find? key = some value) :
    ∃ intent m, intentOf tx = some intent ∧ m.2 ∈ moduleBytesOf tx ∧ m.1.key = key ∧
      value = some m.2 ∧ Vetted P committed intent m := by
  have hone : ∀ {bytes : Bytes} {sender : AccountAddress} {limit price : Nat} (intent),
      P.publishModuleWithIntent committed bytes sender limit price intent = .ok output →
      ∃ m, m.2 = bytes ∧ m.1.key = key ∧ value = some m.2 ∧ Vetted P committed intent m := by
    intro bytes sender limit price intent h
    obtain ⟨m, hm, h⟩ := bind_eq_ok.mp h
    obtain ⟨m', hm', hfound⟩ := finishPublish_writes h hkey
    rw [List.mem_singleton.mp hm'] at hfound
    obtain ⟨hbytes, hvetted⟩ := checkModule_vetted hm
    exact ⟨m, hbytes, hfound.1, hfound.2, hvetted⟩
  have hpackage : ∀ {ms : List PublishedModule} {sender : AccountAddress} {limit price : Nat} (intent),
      P.publishPackageWithIntent committed ms sender limit price intent = .ok output →
      ∃ m, m.2 ∈ ms.map (·.moduleBytes) ∧ m.1.key = key ∧ value = some m.2 ∧
        Vetted P committed intent m := by
    intro ms sender limit price intent h
    obtain ⟨checked, hchecked, h⟩ := bind_eq_ok.mp h
    obtain ⟨m, hm, hfound⟩ := finishPublish_writes h hkey
    obtain ⟨hbytes, hvetted⟩ := checkPackage_vetted hchecked m hm
    exact ⟨m, hbytes, hfound.1, hfound.2, hvetted⟩
  obtain ⟨sender, -, h⟩ := bind_eq_ok.mp h
  dsimp only at h
  unfold intentOf moduleBytesOf
  cases hkind : tx.kind with
  | publishModule m =>
    rw [hkind] at h
    obtain ⟨m', hbytes, hfound⟩ := hone .publish h
    exact ⟨.publish, m', rfl, by simp [hbytes], hfound⟩
  | upgradeModule m =>
    rw [hkind] at h
    obtain ⟨m', hbytes, hfound⟩ := hone .upgrade h
    exact ⟨.upgrade, m', rfl, by simp [hbytes], hfound⟩
  | publishPackage ms =>
    rw [hkind] at h
    obtain ⟨m', hbytes, hfound⟩ := hpackage .publish h
    exact ⟨.publish, m', rfl, hbytes, hfound⟩
  | upgradePackage ms =>
    rw [hkind] at h
    obtain ⟨m', hbytes, hfound⟩ := hpackage .upgrade h
    exact ⟨.upgrade, m', rfl, hbytes, hfound⟩
  | executeFunction call =>
    rw [hkind] at h
    have hmem : key ∈ output.moveWrites.keys := by
      rw [OrdMap.mem_keys, OrdMap.contains, hkey]
      rfl
    have hnot := P.callFunction_modules h key hmem
    rw [isModuleKey, hnot] at hmodule
    cases hmodule

lemma Vetted.named (h : Vetted P committed intent m) (hm : m.2 ∈ moduleBytesOf tx) :
    m.1.key ∈ namedModules P tx := by
  obtain ⟨_, compiled, hcompiled, hid, -⟩ := h.checked
  exact List.mem_filterMap.mpr ⟨m.2, hm, by rw [hcompiled, ← hid]; rfl⟩

def PublishesOnly (P : PublishEnv Code) (committed : CommittedModules) (tx : Transaction)
    (cs : ChangeSet) : Prop :=
  ∀ key value, isModuleKey key = true → cs.moveWrites.find? key = some value →
    ∃ intent m, intentOf tx = some intent ∧ m.2 ∈ moduleBytesOf tx ∧ m.1.key = key ∧
      value = some m.2 ∧ Vetted P committed intent m

lemma publishesOnly_of_empty (h : cs.moveWrites = .empty) : PublishesOnly P committed tx cs := by
  intro key value _ hfind
  rw [h, OrdMap.find?_empty] at hfind
  cases hfind

lemma executeTransaction_publishes (h : (P.engine committed).executeTransaction σ tx = .ok cs) :
    PublishesOnly P committed tx cs := by
  obtain ⟨s, fee, units, cs₀, -, -, hresult, hfinish, -, -⟩ := executeTransaction_exits h
  have hwrites : cs.moveWrites = cs₀.moveWrites := by
    obtain ⟨rfl, -⟩ := finishExecution_eq hfinish
    rfl
  cases hresult with
  | failed => exact publishesOnly_of_empty hwrites
  | native _ hrun => exact publishesOnly_of_empty (hwrites.trans (runNative_storage hrun).1)
  | @move output _ reads hcall hrun =>
    intro key value hmodule hfind
    rw [hwrites] at hfind
    exact runMove_vetted hrun hmodule (OrdMap.mem_entries.mp (OrdMap.mem_of_find?_ofList hfind))

lemma failed_moveWrites {env : EngineEnv} {e : String}
    (h : env.failedChangesetForError σ tx e = .ok cs) : cs.moveWrites = .empty := by
  obtain ⟨s, -, h⟩ := bind_eq_ok.mp h
  obtain ⟨cost, -, h⟩ := bind_eq_ok.mp h
  dsimp only at h
  split_ifs at h
  · obtain ⟨rfl, -⟩ := finishExecution_eq h
    rfl
  · obtain ⟨rfl, -⟩ := finishExecution_eq h
    rfl

lemma executeNext_ok {step : SerialStep} (h : (P.engine committed).executeNext σ tx = .ok step) :
    step.tx = tx ∧ step.before = σ ∧ PublishesOnly P committed tx step.changeset ∧
      step.after.moveStore = Overlay.flush step.changeset.moveWrites σ.moveStore := by
  unfold executeNext at h
  cases hexec : (P.engine committed).executeTransaction σ tx with
  | ok cs =>
    rw [hexec] at h
    obtain ⟨σ', happly, h⟩ := bind_eq_ok.mp h
    cases h
    exact ⟨rfl, rfl, executeTransaction_publishes hexec,
      applyChangeset_moveStore (mapError_eq_ok.mp happly)⟩
  | error e =>
    rw [hexec] at h
    obtain ⟨failed, hfailed, h⟩ := bind_eq_ok.mp h
    obtain ⟨σ', happly, h⟩ := bind_eq_ok.mp h
    cases h
    exact ⟨rfl, rfl, publishesOnly_of_empty (failed_moveWrites hfailed),
      applyChangeset_moveStore (mapError_eq_ok.mp happly)⟩

def CompatibleBytes (P : PublishEnv Code) (old new : Bytes) : Prop :=
  ∃ oldCode newCode, P.deserialize old = .ok oldCode ∧ P.deserialize new = .ok newCode ∧
    P.checkCompatibility oldCode newCode = .ok ()

/-- A publication leaves every module that is there as it is; a module that an upgrade changes is
compatible with the version that it replaces. -/
def SafelyPublished (P : PublishEnv Code) (step : SerialStep) : Prop :=
  match intentOf step.tx with
  | some .publish => ∀ key old, isModuleKey key = true →
      step.before.moveStore.find? key = some old → step.after.moveStore.find? key = some old
  | some .upgrade => ∀ key old new, isModuleKey key = true →
      step.before.moveStore.find? key = some old → step.after.moveStore.find? key = some new →
      old ≠ new → CompatibleBytes P old new
  | _ => True

lemma Vetted.publish (h : Vetted P committed .publish m) : committed.find? m.1.key = none := by
  obtain ⟨sender, compiled, -, -, hsafe⟩ := h.checked
  obtain ⟨_, -, hsafe⟩ := bind_eq_ok.mp hsafe
  obtain ⟨old, hold, -⟩ := bind_eq_ok.mp hsafe
  unfold verifyModulePublishIntent at hold
  cases hfind : committed.find? m.1.key with
  | none => rfl
  | some old =>
    rw [hfind] at hold
    cases hold

lemma Vetted.upgrade (h : Vetted P committed .upgrade m) {old : Bytes}
    (hfind : committed.find? m.1.key = some old) (hne : old ≠ m.2) : CompatibleBytes P old m.2 := by
  obtain ⟨sender, compiled, hcompiled, -, hsafe⟩ := h.checked
  obtain ⟨_, -, hsafe⟩ := bind_eq_ok.mp hsafe
  obtain ⟨found, hfound, hsafe⟩ := bind_eq_ok.mp hsafe
  obtain ⟨_, -, hsafe⟩ := bind_eq_ok.mp hsafe
  obtain ⟨_, -, hsafe⟩ := bind_eq_ok.mp hsafe
  unfold verifyModulePublishIntent at hfound
  rw [hfind] at hfound
  cases hfound
  have hsafe : P.verifyModuleUpgradeCompatibility m.1 compiled m.2 old = .ok () := hsafe
  unfold verifyModuleUpgradeCompatibility at hsafe
  rw [if_neg hne] at hsafe
  obtain ⟨oldCode, holdCode, hsafe⟩ := bind_eq_ok.mp hsafe
  exact ⟨oldCode, compiled, holdCode, hcompiled, mapError_eq_ok.mp hsafe⟩

/-- The modules that a transaction names are in the state as they are committed. -/
def Current (P : PublishEnv Code) (committed : CommittedModules) (σ : StateManager)
    (tx : Transaction) : Prop :=
  ∀ key ∈ namedModules P tx, σ.moveStore.find? key = committed.find? key

lemma executeNext_safe {step : SerialStep} (h : (P.engine committed).executeNext σ tx = .ok step)
    (hcurrent : Current P committed σ tx) : SafelyPublished P step := by
  obtain ⟨rfl, rfl, hpublishes, hafter⟩ := executeNext_ok h
  unfold SafelyPublished
  have hread : ∀ key, step.after.moveStore.find? key =
      Overlay.read step.changeset.moveWrites step.before.moveStore key := by
    intro key
    rw [hafter, Overlay.find?_flush]
  split
  · rename_i hintent
    intro key old hmodule hold
    cases hwrite : step.changeset.moveWrites.find? key with
    | none => rw [hread, Overlay.read_of_absent hwrite, hold]
    | some value =>
      obtain ⟨intent, m, hintent', hm, rfl, -, hvetted⟩ := hpublishes key value hmodule hwrite
      obtain rfl := Option.some.inj (hintent.symm.trans hintent')
      rw [hcurrent _ (hvetted.named hm), hvetted.publish] at hold
      cases hold
  · rename_i hintent
    intro key old new hmodule hold hnew hne
    rw [hread] at hnew
    cases hwrite : step.changeset.moveWrites.find? key with
    | none =>
      rw [Overlay.read_of_absent hwrite, hold] at hnew
      exact absurd (Option.some.inj hnew) hne
    | some value =>
      obtain ⟨intent, m, hintent', hm, rfl, rfl, hvetted⟩ := hpublishes key value hmodule hwrite
      obtain rfl := Option.some.inj (hintent.symm.trans hintent')
      rw [Overlay.read_of_present hwrite] at hnew
      obtain rfl := Option.some.inj hnew
      rw [hcurrent _ (hvetted.named hm)] at hold
      exact hvetted.upgrade hold hne
  · trivial

/-- No module is named by two transactions. -/
def DistinctModules (P : PublishEnv Code) (txs : List Transaction) : Prop :=
  txs.Pairwise fun tx tx' => ∀ key ∈ namedModules P tx, key ∉ namedModules P tx'

lemma isModuleKey_named (h : key ∈ namedModules P tx) : isModuleKey key = true := by
  obtain ⟨bytes, -, hkey⟩ := List.mem_filterMap.mp h
  obtain ⟨compiled, -, rfl⟩ := Option.map_eq_some_iff.mp hkey
  exact isModuleKey_key _

lemma executeSerial_safe {txs : List Transaction} {steps : List SerialStep}
    (hdistinct : DistinctModules P txs) (hcurrent : ∀ tx ∈ txs, Current P committed σ tx)
    (h : (P.engine committed).executeSerial σ txs = .ok steps) :
    ∀ step ∈ steps, SafelyPublished P step := by
  induction txs generalizing σ steps with
  | nil =>
    cases h
    exact fun step hstep => nomatch hstep
  | cons tx txs ih =>
    obtain ⟨hfirst, hdistinct⟩ := List.pairwise_cons.mp hdistinct
    obtain ⟨step, hstep, h⟩ := bind_eq_ok.mp h
    obtain ⟨rest, hrest, h⟩ := bind_eq_ok.mp h
    cases h
    obtain ⟨-, hbefore, hpublishes, hafter⟩ := executeNext_ok hstep
    have hcurrent' : ∀ tx' ∈ txs, Current P committed step.after tx' := by
      intro tx' htx' key hkey
      have hunwritten : step.changeset.moveWrites.find? key = none := by
        by_contra hwrite
        obtain ⟨value, hwrite⟩ := Option.ne_none_iff_exists'.mp hwrite
        obtain ⟨intent, m, -, hm, rfl, -, hvetted⟩ :=
          hpublishes key value (isModuleKey_named hkey) hwrite
        exact hfirst tx' htx' _ (hvetted.named hm) hkey
      rw [hafter, Overlay.find?_flush, Overlay.read_of_absent hunwritten]
      exact hcurrent tx' (List.mem_cons_of_mem _ htx') key hkey
    intro step' hstep'
    obtain rfl | hstep' := List.mem_cons.mp hstep'
    · exact executeNext_safe hstep (hcurrent tx List.mem_cons_self)
    · exact ih hdistinct hcurrent' hrest step' hstep'

/-- A checkpoint in which no module is named twice: every publication leaves the existing modules
alone, and every upgrade is compatible with what it replaces. -/
theorem publication_safe {σ : StateManager} {txs : List Transaction} {steps : List SerialStep}
    (hdistinct : DistinctModules P txs) (h : P.executeCheckpoint σ txs = .ok steps) :
    ∀ step ∈ steps, SafelyPublished P step :=
  executeSerial_safe hdistinct (fun _ _ _ _ => rfl) h

/-- The byte names the module modulo 16, and no two versions are compatible. -/
def sampleMoveEnv : PublishEnv Bytes where
  deserialize := .ok
  selfId := fun code => ⟨.ofByte 0xa, if code.map (· % 16) = [1] then "one" else "two"⟩
  verifyModuleUnmetered := fun _ => .ok ()
  verifyModule := fun _ => .ok ()
  checkCompatibility := fun _ _ => .error "changed"
  session := fun _ _ _ _ => .ok ([], 0)
  storageGas := fun _ _ size _ => .ok (500 + size)
  callFunction := fun _ _ => .error "no function"
  blake3 := walletEnv.blake3
  txHash := walletEnv.txHash
  hashPublicKey := walletEnv.hashPublicKey
  callFunction_modules := fun h => nomatch h

def publisherWallet : StateManager :=
  walletState [walletCoin 0xc 0xa 1000, walletCoin 0xd 0xa 1000] [(0xa, 2000)] 2000

def publishOne (payment code : UInt8) : Transaction where
  header :=
    { sender := "0xa", gasLimit := 600, gasPrice := 5, nonce := 0
      gasPayment := some ⟨[walletRef (walletCoin payment 0xa 1000)], "0xa", 600, 5⟩ }
  kind := .publishModule ⟨"module", [code]⟩

def sampleKey (name : String) : String := (ModuleId.mk (.ofByte 0xa) name).key

lemma publish_distinct_run :
    okAnd (sampleMoveEnv.executeCheckpoint publisherWallet [publishOne 0xc 1, publishOne 0xd 2])
      (fun steps => steps.length == 2 && steps.all (·.changeset.success)) = true := by
  decide +kernel

theorem publication_safe_two_modules :
    ∃ steps, sampleMoveEnv.executeCheckpoint publisherWallet [publishOne 0xc 1, publishOne 0xd 2] =
        .ok steps ∧ steps.length = 2 ∧ ∀ step ∈ steps, SafelyPublished sampleMoveEnv step := by
  obtain ⟨steps, hrun, hfacts⟩ := exists_of_okAnd publish_distinct_run
  rw [Bool.and_eq_true, beq_iff_eq] at hfacts
  refine ⟨steps, hrun, hfacts.1, publication_safe ?_ hrun⟩
  unfold DistinctModules
  decide +kernel

lemma publish_twice_run :
    okAnd (sampleMoveEnv.executeCheckpoint publisherWallet [publishOne 0xc 1, publishOne 0xd 17])
      (fun steps => steps.length == 2 && steps.all (·.changeset.success) &&
        steps.any fun step => intentOf step.tx == some .publish &&
          step.before.moveStore.find? (sampleKey "one") == some [1] &&
          step.after.moveStore.find? (sampleKey "one") == some [17]) = true := by
  decide +kernel

/-- Two publications of one module in a checkpoint: both succeed, and the second replaces the
code of the first. -/
theorem publication_replaces_module :
    ∃ steps, sampleMoveEnv.executeCheckpoint publisherWallet [publishOne 0xc 1, publishOne 0xd 17] =
        .ok steps ∧ (∀ step ∈ steps, step.changeset.success = true) ∧
      ∃ step ∈ steps, intentOf step.tx = some .publish ∧
        step.before.moveStore.find? (sampleKey "one") = some [1] ∧
        step.after.moveStore.find? (sampleKey "one") = some [17] ∧
        ¬SafelyPublished sampleMoveEnv step := by
  obtain ⟨steps, hrun, hfacts⟩ := exists_of_okAnd publish_twice_run
  simp only [Bool.and_eq_true, beq_iff_eq, List.all_eq_true, List.any_eq_true] at hfacts
  obtain ⟨⟨-, hsuccess⟩, step, hstep, ⟨hintent, hbefore⟩, hafter⟩ := hfacts
  refine ⟨steps, hrun, hsuccess, step, hstep, hintent, hbefore, hafter, ?_⟩
  intro hsafe
  unfold SafelyPublished at hsafe
  rw [hintent] at hsafe
  have hkept := hsafe _ _ (isModuleKey_key _) hbefore
  have hsame : some [17] = some [(1 : UInt8)] := hafter.symm.trans hkept
  exact absurd hsame (by decide)

end Kanari.Proofs

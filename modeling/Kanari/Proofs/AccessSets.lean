import Kanari.StorageKeys
import Kanari.Proofs.GasCharges

/-!
# Access sets and what execution depends on

Execution asks whether the sender can pay for the whole gas limit, and the sender's balance is never
in the read set.
-/

namespace Kanari.Proofs

open Lib StateManager EngineEnv

inductive StateKey where
  | object (id : String)
  | owner (address : AccountAddress)
  /-- A module or a resource, under its own key. -/
  | move (key : String)
  | dynamicField (objectId : String) (name : Bytes)
  | supply (token : String)
  | treasury (token : String)
  | nftCap (token : String)
  | collectionMembers (collection : String)
  | totalSupply
  | globalTokenSupplies
  | objectIndex
  | ownerIndex
  | ownedObjects (owner : AccountAddress)

def StateKey.text : StateKey → String
  | .object id => "object:" ++ id
  | .owner a => ChangeSet.ownerAccessKey a
  | .move key => key
  | .dynamicField id name =>
    "dynamic:" ++ ChangeSet.canonicalizeObjectId id ++ ":" ++ String.ofList (Hex.encode name)
  | .supply token => "supply:" ++ token
  | .treasury token => "treasury:" ++ token
  | .nftCap token => "nft:" ++ token
  | .collectionMembers collection => "collection_members:" ++ collection
  | .totalSupply => "total_supply"
  | .globalTokenSupplies => "global_token_supplies"
  | .objectIndex => "object_index"
  | .ownerIndex => "owner_index"
  | .ownedObjects a => ownedObjectsKey a

def SameAt (σ σ' : StateManager) : StateKey → Prop
  | .object id => σ'.objects.find? id = σ.objects.find? id
  | .owner a => σ'.owners.find? a = σ.owners.find? a
  | .move key => σ'.moveStore.find? key = σ.moveStore.find? key
  | .dynamicField id name => σ'.dynamicFields.find? (dynamicFieldKey id name) =
      σ.dynamicFields.find? (dynamicFieldKey id name)
  | .supply token => σ'.supplies.find? token = σ.supplies.find? token
  | .treasury token => σ'.treasuryOwners.find? token = σ.treasuryOwners.find? token
  | .nftCap token => σ'.nftCaps.find? token = σ.nftCaps.find? token
  | .collectionMembers collection => σ'.collectionMembers collection = σ.collectionMembers collection
  | .totalSupply => σ'.totalSupply = σ.totalSupply
  | .globalTokenSupplies => σ'.globalTokenSupplies = σ.globalTokenSupplies
  | .objectIndex => σ'.objectIndex = σ.objectIndex
  | .ownerIndex => σ'.ownerIndex = σ.ownerIndex
  | .ownedObjects owner => σ'.ownedObjects owner = σ.ownedObjects owner

/-- The key `df:*` stands for all dynamic fields. -/
def AgreesOn (keys : OrdSet String) (σ σ' : StateManager) : Prop :=
  (∀ k : StateKey, keys.contains k.text = true → SameAt σ σ' k) ∧
    (keys.contains "df:*" = true → σ'.dynamicFields = σ.dynamicFields)

def besidesNative (owner : Option OwnerState) : Option (OrdSet String × OrdMap String Nat) :=
  owner.map fun o => (o.modules, o.tokenBalances.erase GAS_COIN)

/-- Nothing changes but the keys in the set and native owner balances. -/
def ChangesOnlyOn (keys : OrdSet String) (σ σ' : StateManager) : Prop :=
  ∀ k : StateKey, keys.contains k.text = false →
    match k with
    | .owner a => besidesNative (σ'.owners.find? a) = besidesNative (σ.owners.find? a)
    | k => SameAt σ σ' k

def OneSpelling (keys : OrdSet String) : Prop :=
  ∀ id a, keys.contains ("object:" ++ id) = true → AccountAddress.fromHexLiteral id = some a →
    id = a.toHexLiteral

/-- The change set depends on its read set, is written to its write set, and names objects in one
spelling. -/
structure AccessComplete (env : EngineEnv) (σ : StateManager) (tx : Transaction) (cs : ChangeSet) :
    Prop where
  determined : ∀ σ', AgreesOn cs.deterministicAccessSet.reads σ σ' →
    env.executeTransaction σ' tx = .ok cs
  framed : ∀ σ', σ.applyChangeset cs = .ok σ' → ChangesOnlyOn cs.deterministicAccessSet.writes σ σ'
  spelled : OneSpelling cs.deterministicAccessSet.reads ∧ OneSpelling cs.deterministicAccessSet.writes

def isResolverKey (key : String) : Bool :=
  "module:".toList.isPrefixOf key.toList || "resource:".toList.isPrefixOf key.toList ||
    "object:".toList.isPrefixOf key.toList

/-- The sessions of the virtual machine record reads of modules, resources and objects. -/
def RecordsResolverReads (env : EngineEnv) : Prop :=
  ∀ σ tx output, env.runMove σ tx = .ok output →
    ∀ key ∈ OrdSet.elems output.resolverReads, isResolverKey key = true

lemma isResolverKey_module (rest : String) : isResolverKey ("module:" ++ rest) = true := by
  simp [isResolverKey, String.toList_append]

lemma isResolverKey_object (rest : String) : isResolverKey ("object:" ++ rest) = true := by
  simp [isResolverKey, String.toList_append]

lemma not_isResolverKey_owner (a : AccountAddress) :
    isResolverKey (ChangeSet.ownerAccessKey a) = false := by
  simp [isResolverKey, ChangeSet.ownerAccessKey, String.toList_append, List.isPrefixOf]

lemma not_isResolverKey_owned (a : AccountAddress) : isResolverKey (ownedObjectsKey a) = false := by
  simp [isResolverKey, ownedObjectsKey, String.toList_append, List.isPrefixOf]

lemma ownerAccessKey_ne_fence (a : AccountAddress) : ChangeSet.ownerAccessKey a ≠ "df:*" := by
  intro h
  have hlist := congrArg String.toList h
  simp [ChangeSet.ownerAccessKey, String.toList_append] at hlist

lemma ownedObjectsKey_ne_fence (a : AccountAddress) : ownedObjectsKey a ≠ "df:*" := by
  intro h
  have hlist := congrArg String.toList h
  simp [ownedObjectsKey, String.toList_append] at hlist

def ResolverReads (reads : OrdSet String) : Prop := ∀ key, reads.contains key = true → isResolverKey key = true

lemma resolverReads_empty : ResolverReads .empty := by
  intro key hkey
  cases hkey

variable {env : EngineEnv} {σ : StateManager} {tx : Transaction} {cs : ChangeSet}

lemma isResolverKey_readKey {call : ExecuteFunction} {key : String}
    (h : env.moduleReadKey call = .ok key) : isResolverKey key = true := by
  unfold moduleReadKey at h
  split at h
  · obtain ⟨address, -, h⟩ := bind_eq_ok.mp h
    obtain ⟨_, -, h⟩ := bind_eq_ok.mp h
    obtain ⟨_, -, h⟩ := bind_eq_ok.mp h
    cases h
    rw [String.append_assoc, String.append_assoc]
    exact isResolverKey_module _
  · cases h

lemma runVirtualMachine_reads (henv : RecordsResolverReads env)
    (h : env.runVirtualMachine σ tx (contextOf tx) = .ok cs) : ResolverReads cs.resolverReads := by
  have hmerged : ∀ {reads : OrdSet String} {output : MoveOutput}, ResolverReads reads →
      env.runMove σ tx = .ok output →
      ResolverReads (OrdSet.addAll reads (OrdSet.elems output.resolverReads)) := by
    intro reads output hreads hrun key hkey
    rw [OrdSet.contains_addAll, Bool.or_eq_true, decide_eq_true_eq] at hkey
    obtain hkey | hkey := hkey
    · exact henv σ tx output hrun key hkey
    · exact hreads key hkey
  unfold runVirtualMachine at h
  cases hkind : tx.kind with
  | executeFunction call =>
    rw [hkind] at h
    obtain ⟨key, hkey, h⟩ := bind_eq_ok.mp h
    have hmodule : ResolverReads (OrdSet.add (contextOf tx).resolverReads key) := by
      intro key' hkey'
      rw [OrdSet.contains_add, Bool.or_eq_true, decide_eq_true_eq] at hkey'
      obtain rfl | hkey' := hkey'
      · exact isResolverKey_readKey hkey
      · exact resolverReads_empty key' hkey'
    cases hrun : env.runMove σ tx with
    | error e =>
      rw [hrun] at h
      cases h
      exact hmodule
    | ok output =>
      rw [hrun] at h
      cases h
      exact hmerged hmodule hrun
  | _ =>
    rw [hkind] at h
    cases hrun : env.runMove σ tx with
    | error e =>
      rw [hrun] at h
      cases h
      exact resolverReads_empty
    | ok output =>
      rw [hrun] at h
      cases h
      exact hmerged resolverReads_empty hrun

lemma executeTransaction_reads (henv : RecordsResolverReads env)
    (h : env.executeTransaction σ tx = .ok cs) : ResolverReads cs.resolverReads := by
  have hfinish : ∀ {s fee units} {cs₀ : ChangeSet}, env.finishExecution σ s fee units cs₀ = .ok cs →
      ResolverReads cs₀.resolverReads → ResolverReads cs.resolverReads := by
    intro s fee units cs₀ hfinish hreads
    obtain ⟨rfl, -⟩ := finishExecution_eq hfinish
    exact hreads
  obtain ⟨s, -, h⟩ := bind_eq_ok.mp h
  obtain ⟨units, -, h⟩ := bind_eq_ok.mp h
  obtain ⟨maxCost, -, h⟩ := bind_eq_ok.mp h
  obtain ⟨_, -, h⟩ := bind_eq_ok.mp h
  dsimp only at h
  split_ifs at h
  · exact hfinish h resolverReads_empty
  · unfold executeChecked at h
    cases hcall : tx.nativeCall with
    | none =>
      rw [hcall] at h
      obtain ⟨cs₀, hrun, h⟩ := bind_eq_ok.mp h
      obtain ⟨_, -, h⟩ := bind_eq_ok.mp h
      obtain ⟨cost, -, h⟩ := bind_eq_ok.mp h
      exact hfinish h (runVirtualMachine_reads henv hrun)
    | some call =>
      rw [hcall] at h
      refine hfinish h ?_
      generalize hrun : env.runNative σ tx s _ _ call = result
      cases result with
      | ok cs₀ =>
        show ResolverReads cs₀.resolverReads
        rw [(runNative_storage hrun).2]
        exact resolverReads_empty
      | error failure =>
        obtain ⟨left, e⟩ := failure
        obtain rfl := runNative_error hrun
        exact resolverReads_empty

lemma accessReads_keys (h : ResolverReads cs.resolverReads) {key : String}
    (hkey : cs.deterministicAccessSet.reads.contains key = true) :
    isResolverKey key = true ∨ key = "df:*" := by
  have hobject : ∀ id, isResolverKey (ChangeSet.objectAccessKey id) = true := fun _ =>
    isResolverKey_object _
  rw [ChangeSet.deterministicAccessSet, OrdSet.contains_addAll, Bool.or_eq_true, decide_eq_true_eq] at hkey
  obtain hkey | hkey := hkey
  · simp only [ChangeSet.accessReads, List.mem_append, List.mem_map, List.mem_singleton] at hkey
    obtain (((hkey | rfl) | ⟨input, -, rfl⟩) | ⟨ref, -, rfl⟩) | ⟨ref, -, rfl⟩ := hkey
    · exact .inl (h key (OrdSet.mem_elems.mp hkey))
    · exact .inr rfl
    · exact .inl (hobject _)
    · exact .inl (hobject _)
    · exact .inl (hobject _)
  · cases hkey

/-- The state with `n` as the balance of `s`, and no coins behind it. -/
def withBalance (σ : StateManager) (s : AccountAddress) (n : Nat) : StateManager :=
  { σ with
    owners := σ.owners.insert s { address := s, tokenBalances := OrdMap.empty.insert GAS_COIN n }
    ownedObjects := fun a => if a = s then .empty else σ.ownedObjects a }

lemma agreesOn_withBalance {keys : OrdSet String} (σ : StateManager) (s : AccountAddress) (n : Nat)
    (h : ∀ key, keys.contains key = true → isResolverKey key = true ∨ key = "df:*") :
    AgreesOn keys σ (withBalance σ s n) := by
  have hkept : ∀ key, isResolverKey key = false → key ≠ "df:*" → keys.contains key = true → False := by
    intro key hresolver hfence hkey
    obtain hkey | hkey := h key hkey
    · rw [hresolver] at hkey
      cases hkey
    · exact hfence hkey
  refine ⟨fun k hk => ?_, fun _ => rfl⟩
  cases k with
  | owner a => exact (hkept _ (not_isResolverKey_owner a) (ownerAccessKey_ne_fence a) hk).elim
  | ownedObjects a => exact (hkept _ (not_isResolverKey_owned a) (ownedObjectsKey_ne_fence a) hk).elim
  | _ => rfl

lemma nativeBalance_withBalance (σ : StateManager) (s : AccountAddress) {n : Nat} (hn : 0 < n) :
    nativeBalanceOrZero (withBalance σ s n) s = n := by
  have hledger : (withBalance σ s n).ledger s = n := by
    simp [ledger, withBalance, OwnerState.nativeBalance, OwnerState.getTokenBalance]
  have howned : (withBalance σ s n).ownedObjects s = .empty := if_pos rfl
  simp [nativeBalanceOrZero, resolveOwnerNativeBalance, computeOwnedTokenBalances, howned, hledger, hn,
    OrdSet.elems, OrdMap.keys, OrdMap.empty]

lemma baseGasUnits_ge (tx : Transaction) : 100 ≤ baseGasUnits tx := by
  unfold baseGasUnits
  split
  · omega
  · omega
  · omega
  · omega
  · split_ifs <;> omega

/-- A balance below the cheapest transaction is taken as the fee. -/
lemma fee_withBalance {s : AccountAddress} {n : Nat}
    (hs : env.parseAddress tx.header.sender = .ok s) (hprice : 0 < tx.header.gasPrice)
    (hpos : 0 < n) (hsmall : n < 100) (h : env.executeTransaction (withBalance σ s n) tx = .ok cs) :
    cs.nativeGasCredits = (OrdMap.empty : OrdMap AccountAddress Nat).insert daoAccountAddress n := by
  obtain ⟨s', hs', h⟩ := bind_eq_ok.mp h
  obtain rfl := Except.ok.inj (hs.symm.trans hs')
  obtain ⟨units, hunits, h⟩ := bind_eq_ok.mp h
  obtain ⟨maxCost, hmax, h⟩ := bind_eq_ok.mp h
  obtain ⟨_, -, h⟩ := bind_eq_ok.mp h
  have hprice' : 0 < effectiveGasPrice tx.header.gasPrice := by
    unfold effectiveGasPrice
    rw [if_neg hprice.ne']
    exact lt_of_lt_of_le Nat.one_pos (le_max_right _ _)
  have hbase := baseGasUnits_ge tx
  obtain ⟨rfl, hlimit⟩ := consumeGas_eq_ok hunits
  have hmaxCost : 100 ≤ maxCost := by
    rw [checkedMul_eq_ok hmax]
    exact (hbase.trans hlimit).trans (Nat.le_mul_of_pos_right _ hprice')
  have hcost : n ≤ saturatingMul (baseGasUnits tx) (effectiveGasPrice tx.header.gasPrice) := by
    have hle : baseGasUnits tx ≤ baseGasUnits tx * effectiveGasPrice tx.header.gasPrice :=
      Nat.le_mul_of_pos_right _ hprice'
    unfold saturatingMul u64Bound
    omega
  dsimp only at h
  rw [nativeBalance_withBalance σ s hpos, if_pos ⟨by omega, by omega⟩, min_eq_right hcost] at h
  exact (finishExecution_ok rfl h).2.2.1

/-- Whatever a transaction with a gas price does, another state with the same records under all
keys of the read set makes it do something else. -/
theorem access_set_never_complete {env : EngineEnv} (henv : RecordsResolverReads env)
    {σ : StateManager} {tx : Transaction} {cs : ChangeSet} (hprice : 0 < tx.header.gasPrice)
    (h : env.executeTransaction σ tx = .ok cs) : ¬AccessComplete env σ tx cs := by
  intro hcomplete
  obtain ⟨s, fee, units, cs₀, hs, -, hresult, hfinish, -, -⟩ := executeTransaction_exits h
  have hcharged := (finishExecution_ok hresult.credits hfinish).2.2.1
  have hagrees : ∀ n, AgreesOn cs.deterministicAccessSet.reads σ (withBalance σ s n) := fun n =>
    agreesOn_withBalance σ s n fun _ hkey => accessReads_keys (executeTransaction_reads henv h) hkey
  -- one of the balances 1 and 2 is not the fee
  have hfee : ∀ n, 0 < n → n < 100 → fee = n := by
    intro n hpos hsmall
    have hcredits := fee_withBalance hs hprice hpos hsmall (hcomplete.determined _ (hagrees n))
    have hfind := congrArg (OrdMap.find? · daoAccountAddress) (hcharged.symm.trans hcredits)
    simpa using hfind
  have hone := hfee 1 (by omega) (by omega)
  have htwo := hfee 2 (by omega) (by omega)
  omega

lemma walletEnv_reads : RecordsResolverReads walletEnv := fun _ _ _ h => nomatch h

theorem access_set_never_complete_burn :
    ∃ cs, walletEnv.executeTransaction (burnWallet 2000) walletBurn = .ok cs ∧
      ¬AccessComplete walletEnv (burnWallet 2000) walletBurn cs := by
  obtain ⟨cs, hexec, -⟩ := exists_of_okAnd walletBurn_executed
  exact ⟨cs, hexec, access_set_never_complete walletEnv_reads (by decide) hexec⟩

lemma walletBurn_poor :
    okAnd (walletEnv.executeTransaction (withBalance (burnWallet 2000) (.ofByte 0xa) 1) walletBurn)
      (fun cs => !cs.success) = true := by
  decide +kernel

/-- The burn succeeds for a sender with 1000 and fails for one with 1; the two states agree on
everything that the successful burn is recorded to have read. -/
theorem balance_read_not_recorded :
    ∃ cs cs', walletEnv.executeTransaction (burnWallet 2000) walletBurn = .ok cs ∧ cs.success = true ∧
      AgreesOn cs.deterministicAccessSet.reads (burnWallet 2000)
        (withBalance (burnWallet 2000) (.ofByte 0xa) 1) ∧
      walletEnv.executeTransaction (withBalance (burnWallet 2000) (.ofByte 0xa) 1) walletBurn = .ok cs' ∧
      cs'.success = false := by
  obtain ⟨cs, hexec, hsuccess⟩ := exists_of_okAnd walletBurn_executed
  obtain ⟨cs', hexec', hfailed⟩ := exists_of_okAnd walletBurn_poor
  refine ⟨cs, cs', hexec, hsuccess, ?_, hexec', by simpa using hfailed⟩
  exact agreesOn_withBalance _ _ _ fun _ hkey =>
    accessReads_keys (executeTransaction_reads walletEnv_reads hexec) hkey

end Kanari.Proofs

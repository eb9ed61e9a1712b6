import Kanari.Framework
import Kanari.Proofs.TransferExecution
import Mathlib.Algebra.BigOperators.Ring.Finset

/-!
# What a transaction pays

Execution charges gas on each of its exits: the sender's owner delta carries the debit and the
collector's the credit.
-/

namespace Kanari.Proofs

open Lib StateManager EngineEnv

def deltaTotal (cs : ChangeSet) : Int :=
  OrdMap.sumOn (fun _ d => OwnerDelta.balanceDelta d) cs.ownerDeltas

lemma deltaTotal_eq_sum (cs : ChangeSet) {F : Finset AccountAddress}
    (hF : ∀ a, cs.ownerDeltas.contains a = true → a ∈ F) : deltaTotal cs = ∑ a ∈ F, cs.delta a := by
  unfold deltaTotal
  rw [OrdMap.sumOn_eq_sum _ _ fun a ha => hF a (OrdMap.mem_keys.mp ha)]
  apply Finset.sum_congr rfl
  intro a _
  unfold OrdMap.valueAt ChangeSet.delta
  cases cs.ownerDeltas.find? a <;> rfl

lemma deltaTotal_addDelta (cs : ChangeSet) (a : AccountAddress) (d : Int) :
    deltaTotal (cs.addDelta a d) = deltaTotal cs + d := by
  let F := insert a cs.ownerDeltas.keys.toFinset
  have hold : ∀ b, cs.ownerDeltas.contains b = true → b ∈ F := by
    intro b hb
    simp [F, OrdMap.mem_keys.mpr hb]
  have hnew : ∀ b, (cs.addDelta a d).ownerDeltas.contains b = true → b ∈ F := by
    intro b hb
    rw [contains_addDelta, Bool.or_eq_true, decide_eq_true_eq] at hb
    obtain rfl | hb := hb
    · exact Finset.mem_insert_self _ _
    · exact hold b hb
  have ha : a ∈ F := Finset.mem_insert_self _ _
  rw [deltaTotal_eq_sum _ hnew, deltaTotal_eq_sum _ hold]
  simp only [delta_addDelta, Finset.sum_add_distrib, Finset.sum_ite_eq', ha, if_true]

lemma deltaTotal_contextOf (tx : Transaction) : deltaTotal (contextOf tx) = 0 := rfl

variable {env : EngineEnv} {σ : StateManager} {s : AccountAddress} {fee : Nat} {cs : ChangeSet}
  {deltas : OrdMap AccountAddress OwnerDelta} {tx : Transaction}

lemma nativeGasDebitTotal_single {total : Nat}
    (hcredits : cs.nativeGasCredits =
      (OrdMap.empty : OrdMap AccountAddress Nat).insert daoAccountAddress fee)
    (h : nativeGasDebitTotal cs = .ok total) : total = fee := by
  unfold nativeGasDebitTotal at h
  rw [hcredits] at h
  have hentries : ((OrdMap.empty : OrdMap AccountAddress Nat).insert daoAccountAddress fee).entries =
      [(daoAccountAddress, fee)] := rfl
  rw [hentries] at h
  have hsum := foldOk_checkedAdd h
  simpa using hsum

lemma deltaTotal_finishExecution {units : Nat} {cs' : ChangeSet}
    (h : env.finishExecution σ s fee units cs = .ok cs') : deltaTotal cs' = deltaTotal cs := by
  obtain ⟨rfl, -⟩ := finishExecution_eq h
  show deltaTotal ((cs.addDelta s (-fee)).addDelta daoAccountAddress fee) = _
  rw [deltaTotal_addDelta, deltaTotal_addDelta]
  omega

def Still (deltas : OrdMap AccountAddress OwnerDelta) : Prop :=
  ∀ a d, deltas.find? a = some d → d.balanceDelta = 0

lemma Still.empty : Still .empty := by
  intro a d h
  rw [OrdMap.find?_empty] at h
  cases h

lemma Still.getD (h : Still deltas) (a : AccountAddress) :
    ((deltas.find? a).getD {}).balanceDelta = 0 := by
  cases hfind : deltas.find? a with
  | none => rfl
  | some d => exact h a d hfind

lemma Still.insert (h : Still deltas) {a : AccountAddress} {d : OwnerDelta}
    (hd : d.balanceDelta = 0) : Still (deltas.insert a d) := by
  intro b e hfind
  rw [OrdMap.find?_insert] at hfind
  split_ifs at hfind with hb
  · cases hfind
    exact hd
  · exact h b e hfind

lemma Still.publishModules (h : Still deltas) (l : List (AccountAddress × String)) :
    Still (l.foldl ChangeSet.publishModule deltas) := by
  induction l generalizing deltas with
  | nil => exact h
  | cons e l ih => exact ih (h.insert (h.getD e.1))

lemma Still.mergeDeltas (h : Still deltas) {l : List (AccountAddress × OwnerDelta)}
    (hl : ∀ e ∈ l, e.2.balanceDelta = 0) : Still (l.foldl ChangeSet.mergeDelta deltas) := by
  induction l generalizing deltas with
  | nil => exact h
  | cons e l ih =>
    apply ih
    · apply h.insert
      show saturatingAddI128 ((deltas.find? e.1).getD {}).balanceDelta e.2.balanceDelta = 0
      rw [h.getD, hl e (List.mem_cons_self ..)]
      rfl
    · intro e' he'
      exact hl e' (List.mem_cons_of_mem _ he')

lemma Still.delta (h : Still cs.ownerDeltas) (a : AccountAddress) : cs.delta a = 0 := by
  unfold ChangeSet.delta
  cases hfind : cs.ownerDeltas.find? a with
  | none => rfl
  | some d => exact h a d hfind

lemma still_mergeFrom_output (h : Still cs.ownerDeltas) (output : MoveOutput) :
    Still (cs.mergeFrom output.toChangeSet).ownerDeltas := by
  apply h.mergeDeltas
  intro e he
  exact Still.empty.publishModules output.publishedModules e.1 e.2 (OrdMap.mem_entries.mp he)

/-- A transfer moves some amount from the sender to some account: nothing if the coin changes
hands as a whole. -/
lemma runNative_transfer {coinId recipient : String} {amount : Nat}
    (h : env.runNative σ tx s fee (contextOf tx) (.transfer coinId recipient amount) = .ok cs) :
    (∃ r m, ∀ a, cs.delta a = (if a = r then (m : Int) else 0) - if a = s then (m : Int) else 0) ∧
    deltaTotal cs = 0 ∧ cs.nativeGasCredits = .empty ∧ cs.success = true := by
  obtain ⟨_, coin, _, r, -, hchecked, -, h⟩ := executeBackendNativeTransfer_ok h
  split_ifs at h with hwhole
  · cases h
    refine ⟨⟨s, 0, fun a => ?_⟩, rfl, rfl, rfl⟩
    rw [sub_self]
    rfl
  · obtain ⟨rest, output, -, -, -, -, heq⟩ :=
      transferPart_eq env tx (contextOf tx) coinId s r hchecked.coin_bytes hchecked.enough
    obtain rfl := Except.ok.inj (heq.symm.trans h)
    refine ⟨⟨r, amount, fun a => ?_⟩, ?_, rfl, rfl⟩
    · show (((contextOf tx).addDelta s (-amount)).addDelta r amount).delta a = _
      rw [delta_addDelta, delta_addDelta, show (contextOf tx).delta a = 0 from rfl]
      split_ifs <;> omega
    · show deltaTotal (((contextOf tx).addDelta s (-amount)).addDelta r amount) = 0
      rw [deltaTotal_addDelta, deltaTotal_addDelta, deltaTotal_contextOf]
      omega

lemma runNative_burn {amount : Nat}
    (h : env.runNative σ tx s fee (contextOf tx) (.burn amount) = .ok cs) :
    (∀ a, cs.delta a = -if a = s then (amount : Int) else 0) ∧
    deltaTotal cs = -amount ∧ cs.nativeGasCredits = .empty ∧ cs.success = true := by
  obtain ⟨ref, coin, -, -, -, -, -, -, hcs⟩ := executeBackendNativeBurn_ok h
  have hdelta : ∀ a, ((contextOf tx).addDelta s (-amount)).delta a =
      -if a = s then (amount : Int) else 0 := by
    intro a
    rw [delta_addDelta, show (contextOf tx).delta a = 0 from rfl]
    split_ifs <;> omega
  have htotal : deltaTotal ((contextOf tx).addDelta s (-amount)) = -amount := by
    rw [deltaTotal_addDelta, deltaTotal_contextOf, zero_add]
  split_ifs at hcs
  · subst hcs
    exact ⟨hdelta, htotal, rfl, rfl⟩
  · subst hcs
    exact ⟨hdelta, htotal, rfl, rfl⟩

lemma runNative_storage {call : NativeCall}
    (h : env.runNative σ tx s fee (contextOf tx) call = .ok cs) :
    cs.moveWrites = .empty ∧ cs.resolverReads = .empty := by
  cases call with
  | transfer coinId recipient amount =>
    obtain ⟨_, coin, _, r, -, hchecked, -, h⟩ := executeBackendNativeTransfer_ok h
    split_ifs at h with hwhole
    · cases h
      exact ⟨rfl, rfl⟩
    · obtain ⟨rest, output, -, -, -, -, heq⟩ :=
        transferPart_eq env tx (contextOf tx) coinId s r hchecked.coin_bytes hchecked.enough
      obtain rfl := Except.ok.inj (heq.symm.trans h)
      exact ⟨rfl, rfl⟩
  | burn amount =>
    obtain ⟨ref, coin, -, -, -, -, -, -, hcs⟩ := executeBackendNativeBurn_ok h
    split_ifs at hcs
    · subst hcs
      exact ⟨rfl, rfl⟩
    · subst hcs
      exact ⟨rfl, rfl⟩

lemma CallResult.credits (h : CallResult env σ tx s fee cs) : cs.nativeGasCredits = .empty := by
  cases h with
  | failed => rfl
  | @native call _ hcall hrun =>
    cases call with
    | transfer => exact (runNative_transfer hrun).2.2.1
    | burn => exact (runNative_burn hrun).2.2.1
  | move => rfl

lemma CallResult.eq_failed (h : CallResult env σ tx s fee cs) (hfailed : cs.success = false) :
    ∃ reads gasUsed e,
      cs = ({ contextOf tx with resolverReads := reads, gasUsed := gasUsed }).markFailed e := by
  cases h with
  | failed _ reads gasUsed e => exact ⟨reads, gasUsed, e, rfl⟩
  | @native call _ hcall hrun =>
    have hsuccess : cs.success = true := by
      cases call with
      | transfer => exact (runNative_transfer hrun).2.2.2
      | burn => exact (runNative_burn hrun).2.2.2
    rw [hsuccess] at hfailed
    cases hfailed
  | move => cases hfailed

/-- The owner deltas of a transaction: what its call moves, and a fee that goes from the sender to
the collector. -/
structure GasCharged (cs : ChangeSet) (s : AccountAddress) (fee : Nat) (moved : AccountAddress → Int) :
    Prop where
  delta : ∀ a, cs.delta a = moved a - (if a = s then (fee : Int) else 0) +
    if a = daoAccountAddress then (fee : Int) else 0
  credits : cs.nativeGasCredits = (OrdMap.empty : OrdMap AccountAddress Nat).insert daoAccountAddress fee

/-- The fee is what the collector is credited with. It stays within the gas limit and within what
the sender has, and it does not change the sum of the owner deltas. -/
theorem gas_conserved {env : EngineEnv} {σ : StateManager} {tx : Transaction} {cs : ChangeSet}
    (h : env.executeTransaction σ tx = .ok cs) :
    ∃ s fee moved, env.parseAddress tx.header.sender = .ok s ∧ GasCharged cs s fee moved ∧
      fee ≤ tx.header.gasLimit * effectiveGasPrice tx.header.gasPrice ∧
      fee ≤ nativeBalanceOrZero σ s ∧
      (tx.nativeCall = none ∨ cs.success = false → ∀ a, moved a = 0) ∧
      (∀ coinId recipient amount, tx.nativeCall = some (.transfer coinId recipient amount) →
        (∃ r m, ∀ a, moved a = (if a = r then (m : Int) else 0) - if a = s then (m : Int) else 0) ∧
          deltaTotal cs = 0) ∧
      (∀ amount, tx.nativeCall = some (.burn amount) → cs.success = true →
        (∀ a, moved a = -if a = s then (amount : Int) else 0) ∧ deltaTotal cs = -amount) := by
  obtain ⟨s, fee, units, cs₀, hs, -, hresult, hfinish, hlimit, hbalance⟩ := executeTransaction_exits h
  obtain ⟨hdelta, -, hcredits, -⟩ := finishExecution_ok hresult.credits hfinish
  have hsuccess : cs.success = cs₀.success := by
    obtain ⟨rfl, -⟩ := finishExecution_eq hfinish
    rfl
  have htotal := deltaTotal_finishExecution hfinish
  refine ⟨s, fee, cs₀.delta, hs, ⟨hdelta, hcredits⟩, hlimit, hbalance, ?_⟩
  rw [hsuccess, htotal]
  cases hresult with
  | failed _ reads gasUsed e =>
    refine ⟨fun _ _ => rfl, fun _ _ _ _ => ⟨⟨s, 0, fun a => ?_⟩, rfl⟩, fun _ _ hok => ?_⟩
    · rw [sub_self]
      rfl
    · cases hok
  | @native call _ hcall hrun =>
    cases call with
    | transfer coinId recipient amount =>
      obtain ⟨hmoved, hsum, -, hok⟩ := runNative_transfer hrun
      refine ⟨?_, fun _ _ _ _ => ⟨hmoved, hsum⟩, ?_⟩
      · rintro (hnone | hfailed)
        · rw [hcall] at hnone
          cases hnone
        · rw [hok] at hfailed
          cases hfailed
      · intro _ hburn
        rw [hcall] at hburn
        cases hburn
    | burn amount =>
      obtain ⟨hmoved, hsum, -, hok⟩ := runNative_burn hrun
      refine ⟨?_, ?_, ?_⟩
      · rintro (hnone | hfailed)
        · rw [hcall] at hnone
          cases hnone
        · rw [hok] at hfailed
          cases hfailed
      · intro _ _ _ htransfer
        rw [hcall] at htransfer
        cases htransfer
      · intro _ hburn _
        rw [hcall] at hburn
        cases hburn
        exact ⟨hmoved, hsum⟩
  | @move output _ reads hcall hrun =>
    have hstill : Still ({ contextOf tx with resolverReads := reads }.mergeFrom
        output.toChangeSet).ownerDeltas := still_mergeFrom_output Still.empty output
    refine ⟨fun _ => hstill.delta, ?_, ?_⟩
    · intro _ _ _ htransfer
      rw [hcall] at htransfer
      cases htransfer
    · intro _ hburn
      rw [hcall] at hburn
      cases hburn

/-- Every digest is the same, and no module is published. -/
def walletEnv : EngineEnv where
  blake3 := fun _ => List.replicate 32 0x77
  txHash := fun _ => []
  hashPublicKey := fun _ _ => none
  runMove := fun _ _ => .error "no module"

def walletCoin (id owner : UInt8) (balance : Nat) : StoredObject :=
  Framework.coinObject (.ofByte id) (.ofByte owner) GAS_COIN balance

def walletOwner (owner : UInt8) (balance : Nat) : OwnerState where
  address := .ofByte owner
  tokenBalances := OrdMap.empty.insert GAS_COIN balance

def walletState (coins : List StoredObject) (ledgers : List (UInt8 × Nat)) (supply : Nat) : StateManager :=
  withIndexes
    { objects := .ofList (coins.map fun coin => (coin.id, coin))
      owners := .ofList (ledgers.map fun e => (.ofByte e.1, walletOwner e.1 e.2))
      ownerIndex := OrdSet.addAll .empty (ledgers.map fun e => (AccountAddress.ofByte e.1).toHexLiteral)
      totalSupply := supply
      globalTokenSupplies := OrdMap.empty.insert GAS_COIN supply }

def walletRef (obj : StoredObject) : ObjectRef :=
  ⟨obj.id, some obj.version, some (walletEnv.digest obj.data)⟩

def walletHeader (payments : List ObjectRef) : TransactionHeader :=
  { sender := "0xa", gasLimit := 100, gasPrice := 5, nonce := 0
    gasPayment := some ⟨payments, "0xa", 100, 5⟩ }

def burnWallet (supply : Nat) : StateManager :=
  walletState [walletCoin 0xc 0xa 1000, walletCoin 0xd 0xf 1000] [(0xa, 1000), (0xf, 1000)] supply

def walletBurn : Transaction where
  header := walletHeader [walletRef (walletCoin 0xc 0xa 1000)]
  kind := .executeFunction
    { module := "0x2::kanari", function := "burn", typeArgs := []
      args := [Text.leBytes 8 200], objectInputs := [] }

lemma walletBurn_call : walletBurn.nativeCall = some (.burn 200) := by decide +kernel

lemma walletBurn_executed :
    okAnd (walletEnv.executeTransaction (burnWallet 2000) walletBurn) (fun cs => cs.success) = true := by
  decide +kernel

theorem gas_conserved_burn : ∃ cs, walletEnv.executeTransaction (burnWallet 2000) walletBurn = .ok cs ∧
    cs.success = true ∧ deltaTotal cs = -200 := by
  obtain ⟨cs, hexec, hsuccess⟩ := exists_of_okAnd walletBurn_executed
  obtain ⟨_, _, _, -, -, -, -, -, -, hburn⟩ := gas_conserved hexec
  exact ⟨cs, hexec, hsuccess, (hburn 200 walletBurn_call hsuccess).2⟩

/-- Nothing but a fee from `s` to the collector. -/
structure OnlyGas (cs : ChangeSet) (s : AccountAddress) (fee : Nat) : Prop where
  created : cs.createdObjects = []
  deleted : cs.deletedObjects = []
  moveWrites : cs.moveWrites = .empty
  modules : ∀ a d, cs.ownerDeltas.find? a = some d → d.modulesAdded = .empty
  addedFields : cs.addedDynamicFields = []
  removedFields : cs.removedDynamicFields = []
  treasuries : cs.treasuries = []
  nftCaps : cs.nftCaps = []
  tokenBalances : cs.tokenBalanceSets = []
  events : cs.events = []
  owners : ∀ a, cs.ownerDeltas.contains a = true ↔ a = s ∨ a = daoAccountAddress
  charged : GasCharged cs s fee fun _ => 0

lemma modules_addDelta (a : AccountAddress) (d : Int)
    (h : ∀ b e, cs.ownerDeltas.find? b = some e → e.modulesAdded = .empty) :
    ∀ b e, (cs.addDelta a d).ownerDeltas.find? b = some e → e.modulesAdded = .empty := by
  intro b e hfind
  unfold ChangeSet.addDelta ChangeSet.getOrCreateOwnerDelta at hfind
  rw [OrdMap.find?_insert] at hfind
  split_ifs at hfind
  · cases hfind
    cases hold : cs.ownerDeltas.find? a with
    | none => rfl
    | some old => exact h a old hold
  · exact h b e hfind

lemma onlyGas_of_finish {units : Nat} {reads : OrdSet String} {gasUsed : Nat} {e : String}
    (h : env.finishExecution σ s fee units
      (({ contextOf tx with resolverReads := reads, gasUsed := gasUsed }).markFailed e) = .ok cs) :
    OnlyGas cs s fee := by
  obtain ⟨hdelta, hcontains, hcredits, hcreated, hdeleted, htreasuries, hcaps, hhints, -⟩ :=
    finishExecution_ok rfl h
  obtain ⟨rfl, -⟩ := finishExecution_eq h
  refine ⟨hcreated, hdeleted, rfl, ?_, rfl, rfl, htreasuries, hcaps, hhints, rfl, ?_, hdelta, hcredits⟩
  · apply modules_addDelta
    apply modules_addDelta
    intro b e hfind
    have hfind : (OrdMap.empty : OrdMap AccountAddress OwnerDelta).find? b = some e := hfind
    rw [OrdMap.find?_empty] at hfind
    cases hfind
  · intro a
    rw [hcontains a]
    simp [ChangeSet.markFailed, contextOf, ChangeSet.setTransactionContext, OrdMap.contains]

/-- A failed transaction has paid its fee and done nothing else, whether execution itself failed
or its error was turned into a charge. -/
theorem failed_only_pays_gas {env : EngineEnv} {σ : StateManager} {tx : Transaction} {cs : ChangeSet}
    (h : env.executeTransaction σ tx = .ok cs ∨ ∃ e, env.failedChangesetForError σ tx e = .ok cs)
    (hfailed : cs.success = false) :
    ∃ s fee, env.parseAddress tx.header.sender = .ok s ∧ OnlyGas cs s fee := by
  obtain h | ⟨e, h⟩ := h
  · obtain ⟨s, fee, units, cs₀, hs, -, hresult, hfinish, -⟩ := executeTransaction_exits h
    have hfailed : cs₀.success = false := by
      obtain ⟨rfl, -⟩ := finishExecution_eq hfinish
      exact hfailed
    obtain ⟨reads, gasUsed, e, rfl⟩ := hresult.eq_failed hfailed
    exact ⟨s, fee, hs, onlyGas_of_finish hfinish⟩
  · obtain ⟨s, hs, h⟩ := bind_eq_ok.mp h
    obtain ⟨cost, -, h⟩ := bind_eq_ok.mp h
    dsimp only at h
    split_ifs at h
    · exact ⟨s, 0, hs, onlyGas_of_finish h⟩
    · exact ⟨s, _, hs, onlyGas_of_finish h⟩

def shortWallet : StateManager := walletState [walletCoin 0xc 0xa 250] [(0xa, 250)] 250

lemma walletBurn_short :
    okAnd (walletEnv.executeTransaction shortWallet walletBurn) (fun cs => !cs.success) = true := by
  decide +kernel

theorem failed_only_pays_gas_short : ∃ cs, walletEnv.executeTransaction shortWallet walletBurn = .ok cs ∧
    cs.success = false ∧ ∃ s fee, OnlyGas cs s fee := by
  obtain ⟨cs, hexec, hfailed⟩ := exists_of_okAnd walletBurn_short
  rw [Bool.not_eq_true'] at hfailed
  obtain ⟨s, fee, -, honly⟩ := failed_only_pays_gas (.inl hexec) hfailed
  exact ⟨cs, hexec, hfailed, s, fee, honly⟩

end Kanari.Proofs

import Kanari.Engine
import Kanari.Proofs.ApplyStages

/-!
# Executing a transaction

The ways in which execution returns a change set, and what a native balance call has checked and
written by then.
-/

namespace Kanari.Proofs

open Lib StateManager EngineEnv

/-! ## Bytes of a native coin -/

def coinValue (data : Bytes) : Nat := Text.leNat ((data.drop 32).take 8)

variable {data : Bytes} {coin obj : StoredObject} {coinId id recipient : String}
  {amount balance units : Nat} {cs cs' : ChangeSet} {ref : ObjectRef}

lemma coinValue_lt (data : Bytes) : coinValue data < u64Bound := by
  have hlt := Text.leNat_lt ((data.drop 32).take 8)
  have hlen : ((data.drop 32).take 8).length ≤ 8 := by simp
  have hpow : 256 ^ ((data.drop 32).take 8).length ≤ 256 ^ 8 := Nat.pow_le_pow_right (by omega) hlen
  have hbound : (256 : Nat) ^ 8 = u64Bound := by decide
  unfold coinValue
  omega

lemma length_spliceU64 {start : Nat} (h : start + 8 ≤ data.length) (n : Nat) :
    (spliceU64 data start n).length = data.length := by
  simp only [spliceU64, U64_SIZE, List.length_append, List.length_take, List.length_drop,
    Text.length_leBytes]
  omega

lemma drop_spliceU64 {start : Nat} (h : start + 8 ≤ data.length) (n : Nat) :
    (spliceU64 data start n).drop start = Text.leBytes 8 n ++ data.drop (start + 8) := by
  have hlen : (data.take start).length = start := by
    rw [List.length_take]
    omega
  unfold spliceU64
  rw [List.append_assoc, List.drop_append_of_le_length (by omega), List.drop_of_length_le (by omega)]
  rfl

lemma coinValue_spliceU64 (h : 40 ≤ data.length) {n : Nat} (hn : n < u64Bound) :
    coinValue (spliceU64 data 32 n) = n := by
  unfold coinValue
  rw [drop_spliceU64 h, List.take_append_of_le_length (by simp), List.take_of_length_le (by simp)]
  apply Text.leNat_leBytes
  exact lt_of_lt_of_eq hn (by decide)

lemma readBalance_eq (h : readBalance data = some balance) :
    40 ≤ data.length ∧ balance = coinValue data := by
  unfold readBalance at h
  split_ifs at h with hlen
  cases h
  exact ⟨hlen, rfl⟩

/-! ## The change set -/

def nativeGasCost (tx : Transaction) : Nat :=
  saturatingMul (baseGasUnits tx) (effectiveGasPrice tx.header.gasPrice)

def contextOf (tx : Transaction) : ChangeSet :=
  ({} : ChangeSet).setTransactionContext tx.objectInputs tx.gasPayment

lemma delta_addDelta (cs : ChangeSet) (a b : AccountAddress) (d : Int) :
    (cs.addDelta a d).delta b = cs.delta b + if b = a then d else 0 := by
  unfold ChangeSet.addDelta ChangeSet.delta ChangeSet.getOrCreateOwnerDelta
  dsimp only
  rw [OrdMap.find?_insert]
  by_cases h : b = a
  · subst h
    cases cs.ownerDeltas.find? b <;> simp
  · simp [h]

lemma contains_addDelta (cs : ChangeSet) (a b : AccountAddress) (d : Int) :
    (cs.addDelta a d).ownerDeltas.contains b = (decide (b = a) || cs.ownerDeltas.contains b) := by
  exact OrdMap.contains_insert cs.ownerDeltas a b _

variable {env : EngineEnv} {σ : StateManager} {s : AccountAddress} {fee : Nat} {tx : Transaction}

lemma finishExecution_eq (h : env.finishExecution σ s fee units cs = .ok cs') :
    cs' = env.annotateChangesetObjectEffects σ
      { (cs.debit s fee).collectGas daoAccountAddress fee with gasUsed := units } ∧
    (cs.nativeGasCredits = .empty → saturatingAdd 0 fee = fee) := by
  obtain ⟨charged, hcharged, h⟩ := bind_eq_ok.mp h
  obtain ⟨_, _, hcharged⟩ := bind_eq_ok.mp hcharged
  obtain ⟨_, hcredit, hcharged⟩ := bind_eq_ok.mp hcharged
  cases h
  cases hcharged
  refine ⟨rfl, ?_⟩
  intro hcredits
  have hcredit := beq_iff_eq.mp (ensure_eq_ok.mp hcredit)
  simpa [ChangeSet.collectGas, ChangeSet.debit, ChangeSet.addDelta, hcredits] using hcredit

lemma finishExecution_ok (hcredits : cs.nativeGasCredits = .empty)
    (h : env.finishExecution σ s fee units cs = .ok cs') :
    (∀ a, cs'.delta a = cs.delta a - (if a = s then (fee : Int) else 0) +
      if a = daoAccountAddress then (fee : Int) else 0) ∧
    (∀ a, cs'.ownerDeltas.contains a = true ↔
      a = s ∨ a = daoAccountAddress ∨ cs.ownerDeltas.contains a = true) ∧
    cs'.nativeGasCredits = (OrdMap.empty : OrdMap AccountAddress Nat).insert daoAccountAddress fee ∧
    cs'.createdObjects = cs.createdObjects ∧ cs'.deletedObjects = cs.deletedObjects ∧
    cs'.treasuries = cs.treasuries ∧ cs'.nftCaps = cs.nftCaps ∧
    cs'.tokenBalanceSets = cs.tokenBalanceSets ∧ cs'.gasObjectRefs = cs.gasObjectRefs := by
  obtain ⟨rfl, hnoted⟩ := finishExecution_eq h
  refine ⟨?_, ?_, ?_, rfl, rfl, rfl, rfl, rfl, rfl⟩
  · intro a
    show ((cs.addDelta s (-fee)).addDelta daoAccountAddress fee).delta a = _
    rw [delta_addDelta, delta_addDelta]
    split_ifs <;> omega
  · intro a
    show ((cs.addDelta s (-fee)).addDelta daoAccountAddress fee).ownerDeltas.contains a = true ↔ _
    rw [contains_addDelta, contains_addDelta]
    simp only [Bool.or_eq_true, decide_eq_true_eq]
    tauto
  · show cs.nativeGasCredits.insert daoAccountAddress
      (saturatingAdd ((cs.nativeGasCredits.find? daoAccountAddress).getD 0) fee) = _
    rw [hcredits, OrdMap.find?_empty, Option.getD_none, hnoted hcredits]

lemma loadSenderCoin_ok {role notFound : String} (h : loadSenderCoin σ role notFound id s = .ok obj) :
    σ.getObject id = some obj ∧ obj.owner = s := by
  unfold loadSenderCoin at h
  cases hobj : σ.getObject id with
  | none =>
    rw [hobj] at h
    cases h
  | some stored =>
    rw [hobj] at h
    obtain ⟨_, _, h⟩ := bind_eq_ok.mp h
    obtain ⟨_, howner, h⟩ := bind_eq_ok.mp h
    cases h
    exact ⟨rfl, by simpa using howner⟩

lemma coinBalance_ok {role : String} (h : coinBalance role id obj = .ok balance) :
    40 ≤ obj.data.length ∧ balance = coinValue obj.data := by
  unfold coinBalance at h
  cases hread : readBalance obj.data with
  | none =>
    rw [hread] at h
    cases h
  | some n =>
    rw [hread] at h
    cases h
    exact readBalance_eq hread

/-- What a successful native transfer has checked. -/
structure TransferChecked (σ : StateManager) (s : AccountAddress) (coinId : String)
    (gasRef : ObjectRef) (coin gasCoin : StoredObject) (amount fee : Nat) : Prop where
  positive : 0 < amount
  coin_found : σ.getObject coinId = some coin
  coin_owner : coin.owner = s
  coin_bytes : 40 ≤ coin.data.length
  enough : amount ≤ coinValue coin.data
  gas_found : σ.getObject gasRef.objectId = some gasCoin
  gas_owner : gasCoin.owner = s
  gas_bytes : 40 ≤ gasCoin.data.length
  gas_enough : fee ≤ coinValue gasCoin.data

lemma checkNativeTransfer_ok {r : AccountAddress}
    (h : env.checkNativeTransfer σ tx s coinId recipient amount fee = .ok (coin, balance, r)) :
    balance = coinValue coin.data ∧ env.parseAddress recipient = .ok r ∧
    ∃ gasRef gasCoin, firstPayment tx "Native transfer" = .ok gasRef ∧
      TransferChecked σ s coinId gasRef coin gasCoin amount fee := by
  obtain ⟨_, hpositive, h⟩ := bind_eq_ok.mp h
  obtain ⟨gasRef, hgasRef, h⟩ := bind_eq_ok.mp h
  obtain ⟨_, _, h⟩ := bind_eq_ok.mp h
  obtain ⟨coin, hcoin, h⟩ := bind_eq_ok.mp h
  obtain ⟨gasCoin, hgasCoin, h⟩ := bind_eq_ok.mp h
  obtain ⟨balance, hbalance, h⟩ := bind_eq_ok.mp h
  obtain ⟨gasBalance, hgasBalance, h⟩ := bind_eq_ok.mp h
  obtain ⟨hcoinBytes, rfl⟩ := coinBalance_ok hbalance
  obtain ⟨hgasBytes, rfl⟩ := coinBalance_ok hgasBalance
  obtain ⟨_, henough, h⟩ := bind_eq_ok.mp h
  obtain ⟨_, hgasEnough, h⟩ := bind_eq_ok.mp h
  obtain ⟨r, hr, h⟩ := bind_eq_ok.mp h
  cases h
  obtain ⟨hcoinFound, hcoinOwner⟩ := loadSenderCoin_ok hcoin
  obtain ⟨hgasFound, hgasOwner⟩ := loadSenderCoin_ok hgasCoin
  refine ⟨rfl, hr, gasRef, gasCoin, hgasRef, ?_, hcoinFound, hcoinOwner, hcoinBytes, ?_, hgasFound,
    hgasOwner, hgasBytes, ?_⟩
  · exact of_decide_eq_true (ensure_eq_ok.mp hpositive)
  · exact of_decide_eq_true (ensure_eq_ok.mp henough)
  · exact of_decide_eq_true (ensure_eq_ok.mp hgasEnough)

lemma executeBackendNativeTransfer_ok
    (h : env.executeBackendNativeTransfer σ tx s coinId recipient amount fee cs = .ok cs') :
    ∃ gasRef coin gasCoin r, firstPayment tx "Native transfer" = .ok gasRef ∧
      TransferChecked σ s coinId gasRef coin gasCoin amount fee ∧
      env.parseAddress recipient = .ok r ∧
      (if coinValue coin.data = amount then .ok (transferWhole cs coinId coin r)
        else env.transferPart tx cs coinId coin (coinValue coin.data) s r amount) = .ok cs' := by
  obtain ⟨⟨coin, balance, r⟩, hcheck, h⟩ := bind_eq_ok.mp h
  obtain ⟨rfl, hr, gasRef, gasCoin, hgasRef, hchecked⟩ :=
    checkNativeTransfer_ok (mapError_eq_ok.mp hcheck)
  exact ⟨gasRef, coin, gasCoin, r, hgasRef, hchecked, hr, h⟩

lemma nativeCoinDataWithBalance_eq (id : String) (amount : Nat) (h : 40 ≤ data.length) :
    nativeCoinDataWithBalance id data amount = .ok (spliceU64 data 32 amount) := by
  unfold nativeCoinDataWithBalance
  rw [decide_eq_true h]
  rfl

lemma coinValue_output (h : 40 ≤ data.length) (hamount : amount < u64Bound)
    (id : Option AccountAddress) :
    let output := match id with
      | some a => a.bytes ++ (spliceU64 data 32 amount).drop 32
      | none => spliceU64 data 32 amount
    40 ≤ output.length ∧ coinValue output = amount := by
  have hlen := length_spliceU64 h amount
  have hbytes : 40 ≤ (spliceU64 data 32 amount).length := by omega
  cases id with
  | none => exact ⟨hbytes, coinValue_spliceU64 h hamount⟩
  | some a =>
    have hdrop : (a.bytes ++ (spliceU64 data 32 amount).drop 32).drop 32 =
        (spliceU64 data 32 amount).drop 32 := by
      rw [List.drop_append_of_le_length (by rw [a.length_eq]),
        List.drop_of_length_le (by rw [a.length_eq]), List.nil_append]
    refine ⟨?_, ?_⟩
    · simp only [List.length_append, List.length_drop, a.length_eq]
      omega
    · unfold coinValue
      dsimp only
      rw [hdrop]
      exact coinValue_spliceU64 h hamount

lemma transferPart_eq (env : EngineEnv) (tx : Transaction) (cs : ChangeSet) (coinId : String)
    (s r : AccountAddress) (hbytes : 40 ≤ coin.data.length) (henough : amount ≤ coinValue coin.data) :
    ∃ rest output, 40 ≤ rest.length ∧ coinValue rest = coinValue coin.data - amount ∧
      40 ≤ output.length ∧ coinValue output = amount ∧
      env.transferPart tx cs coinId coin (coinValue coin.data) s r amount =
        .ok (pushCreated (pushCreated (cs.transfer s r amount) coinId (createdFrom coin rest))
          (env.nativeTransferOutputId tx) (ownedBy r coin.typeName output 1)) := by
  have hlt := coinValue_lt coin.data
  obtain ⟨hlen, hvalue⟩ := coinValue_output hbytes (lt_of_le_of_lt henough hlt)
    (AccountAddress.fromHexLiteral (env.nativeTransferOutputId tx))
  refine ⟨_, _, ?_, coinValue_spliceU64 hbytes (by omega), hlen, hvalue, ?_⟩
  · rw [length_spliceU64 hbytes]
    exact hbytes
  · unfold transferPart
    dsimp only
    rewrite [nativeCoinDataWithBalance_eq coinId _ hbytes,
      nativeCoinDataWithBalance_eq (env.nativeTransferOutputId tx) _ hbytes]
    rfl

/-! ## Burns -/

lemma checkNativeBurn_ok {total : Nat}
    (h : checkNativeBurn σ tx s amount fee = .ok (ref, coin, balance, total)) :
    balance = coinValue coin.data ∧ total = amount + fee ∧ 0 < amount ∧
      firstPayment tx "Native burn" = .ok ref ∧ σ.getObject ref.objectId = some coin ∧
      coin.owner = s ∧ 40 ≤ coin.data.length ∧ amount + fee ≤ coinValue coin.data := by
  obtain ⟨_, hpositive, h⟩ := bind_eq_ok.mp h
  obtain ⟨ref, href, h⟩ := bind_eq_ok.mp h
  obtain ⟨coin, hcoin, h⟩ := bind_eq_ok.mp h
  obtain ⟨balance, hbalance, h⟩ := bind_eq_ok.mp h
  obtain ⟨total, htotal, h⟩ := bind_eq_ok.mp h
  obtain ⟨_, henough, h⟩ := bind_eq_ok.mp h
  cases h
  obtain ⟨hfound, howner⟩ := loadSenderCoin_ok hcoin
  obtain ⟨hbytes, rfl⟩ := coinBalance_ok hbalance
  rw [checkedAdd_eq_ok] at htotal
  obtain ⟨-, rfl⟩ := htotal
  exact ⟨rfl, rfl, of_decide_eq_true (ensure_eq_ok.mp hpositive), href, hfound, howner, hbytes,
    of_decide_eq_true (ensure_eq_ok.mp henough)⟩

lemma executeBackendNativeBurn_eq {total : Nat} (cs : ChangeSet)
    (h : checkNativeBurn σ tx s amount fee = .ok (ref, coin, balance, total)) :
    executeBackendNativeBurn σ tx s amount fee cs =
      .ok (if coinValue coin.data = amount + fee then
          { cs.burn s amount with deletedObjects := cs.deletedObjects ++ [ref.objectId] }
        else pushCreated (cs.burn s amount) ref.objectId
          (createdFrom coin (spliceU64 coin.data 32 (coinValue coin.data - amount)))) := by
  obtain ⟨rfl, rfl, -, -, -, -, hbytes, -⟩ := checkNativeBurn_ok h
  simp only [executeBackendNativeBurn, leaving, h, mapError, ok_bind,
    nativeCoinDataWithBalance_eq _ _ hbytes]
  split_ifs <;> rfl

lemma executeBackendNativeBurn_ok (h : executeBackendNativeBurn σ tx s amount fee cs = .ok cs') :
    ∃ ref coin, 0 < amount ∧ firstPayment tx "Native burn" = .ok ref ∧
      σ.getObject ref.objectId = some coin ∧ coin.owner = s ∧ 40 ≤ coin.data.length ∧
      amount + fee ≤ coinValue coin.data ∧
      cs' = if coinValue coin.data = amount + fee then
          { cs.burn s amount with deletedObjects := cs.deletedObjects ++ [ref.objectId] }
        else pushCreated (cs.burn s amount) ref.objectId
          (createdFrom coin (spliceU64 coin.data 32 (coinValue coin.data - amount))) := by
  obtain ⟨⟨ref, coin, balance, total⟩, hcheck, -⟩ := bind_eq_ok.mp h
  have hcheck := mapError_eq_ok.mp hcheck
  obtain ⟨-, -, hpositive, href, hfound, howner, hbytes, henough⟩ := checkNativeBurn_ok hcheck
  rw [executeBackendNativeBurn_eq cs hcheck] at h
  exact ⟨ref, coin, hpositive, href, hfound, howner, hbytes, henough, (Except.ok.inj h).symm⟩

/-! ## The exits of execution -/

/-- A native call that fails has written nothing: whatever comes after the checks succeeds. -/
lemma runNative_error {left : ChangeSet} {call : NativeCall} {e : String}
    (h : env.runNative σ tx s fee cs call = .error (left, e)) : left = cs := by
  cases call with
  | transfer coinId recipient amount =>
    have h : env.executeBackendNativeTransfer σ tx s coinId recipient amount fee cs = .error (left, e) := h
    unfold executeBackendNativeTransfer leaving at h
    cases hcheck : env.checkNativeTransfer σ tx s coinId recipient amount fee with
    | error e' =>
      rw [hcheck] at h
      cases h
      rfl
    | ok checked =>
      obtain ⟨coin, balance, r⟩ := checked
      obtain ⟨rfl, -, gasRef, gasCoin, -, hchecked⟩ := checkNativeTransfer_ok hcheck
      obtain ⟨rest, output, -, -, -, -, hpart⟩ :=
        transferPart_eq env tx cs coinId s r hchecked.coin_bytes hchecked.enough
      rw [hcheck] at h
      simp only [mapError, ok_bind, hpart] at h
      split_ifs at h
      cases h
  | burn amount =>
    have h : executeBackendNativeBurn σ tx s amount fee cs = .error (left, e) := h
    cases hcheck : checkNativeBurn σ tx s amount fee with
    | error e' =>
      unfold executeBackendNativeBurn leaving at h
      rw [hcheck] at h
      cases h
      rfl
    | ok checked =>
      obtain ⟨ref, coin, balance, total⟩ := checked
      rw [executeBackendNativeBurn_eq cs hcheck] at h
      cases h

/-- What the call itself has put into the change set when gas is charged. -/
inductive CallResult (env : EngineEnv) (σ : StateManager) (tx : Transaction) (s : AccountAddress) :
    Nat → ChangeSet → Prop
  /-- Nothing but the status. -/
  | failed (fee : Nat) (reads : OrdSet String) (gasUsed : Nat) (e : String) :
    CallResult env σ tx s fee
      ({ contextOf tx with resolverReads := reads, gasUsed := gasUsed }.markFailed e)
  | native {call : NativeCall} {cs : ChangeSet} (hcall : tx.nativeCall = some call)
    (hrun : env.runNative σ tx s (nativeGasCost tx) (contextOf tx) call = .ok cs) :
    CallResult env σ tx s (nativeGasCost tx) cs
  | move {output : MoveOutput} (fee : Nat) (reads : OrdSet String) (hcall : tx.nativeCall = none)
    (hrun : env.runMove σ tx = .ok output) :
    CallResult env σ tx s fee
      ({ contextOf tx with resolverReads := reads }.mergeFrom output.toChangeSet)

lemma runVirtualMachine_ok (fee : Nat) (hcall : tx.nativeCall = none)
    (h : env.runVirtualMachine σ tx (contextOf tx) = .ok cs) : CallResult env σ tx s fee cs := by
  unfold runVirtualMachine at h
  cases hkind : tx.kind with
  | executeFunction call =>
    rw [hkind] at h
    obtain ⟨key, -, h⟩ := bind_eq_ok.mp h
    cases hrun : env.runMove σ tx with
    | error e =>
      rw [hrun] at h
      cases h
      exact .failed fee _ tx.header.gasLimit _
    | ok output =>
      rw [hrun] at h
      cases h
      exact .move fee _ hcall hrun
  | _ =>
    rw [hkind] at h
    cases hrun : env.runMove σ tx with
    | error e =>
      rw [hrun] at h
      cases h
      exact .failed fee (contextOf tx).resolverReads (contextOf tx).gasUsed _
    | ok output =>
      rw [hrun] at h
      cases h
      exact .move fee (contextOf tx).resolverReads hcall hrun

lemma consumeGas_eq_ok {n limit units : Nat} (h : consumeGas n limit = .ok units) : units = n ∧ n ≤ limit := by
  unfold consumeGas at h
  split_ifs at h with hlt
  exact ⟨(Except.ok.inj h).symm, not_lt.mp hlt⟩

lemma checkedMul_eq_ok {a b n : Nat} {e : String} (h : checkedMul a b e = .ok n) : n = a * b := by
  unfold checkedMul at h
  split_ifs at h
  exact (Except.ok.inj h).symm

/-- Every exit charges the sender what it owes, within the gas limit and within its balance. -/
lemma executeTransaction_exits (h : env.executeTransaction σ tx = .ok cs) :
    ∃ s fee units cs₀, env.parseAddress tx.header.sender = .ok s ∧
      validateTransactionObjectAccess (env.accessEnv σ) tx.objectInputs tx.gasPayment s = .ok () ∧
      CallResult env σ tx s fee cs₀ ∧ env.finishExecution σ s fee units cs₀ = .ok cs ∧
      fee ≤ tx.header.gasLimit * effectiveGasPrice tx.header.gasPrice ∧
      fee ≤ nativeBalanceOrZero σ s := by
  obtain ⟨s, hs, h⟩ := bind_eq_ok.mp h
  obtain ⟨units, hunits, h⟩ := bind_eq_ok.mp h
  obtain ⟨maxCost, hmax, h⟩ := bind_eq_ok.mp h
  obtain ⟨_, haccess, h⟩ := bind_eq_ok.mp h
  obtain ⟨rfl, hlimit⟩ := consumeGas_eq_ok hunits
  obtain rfl := checkedMul_eq_ok hmax
  have hbase : nativeGasCost tx ≤ tx.header.gasLimit * effectiveGasPrice tx.header.gasPrice :=
    le_trans (min_le_left _ _) (Nat.mul_le_mul_right _ hlimit)
  dsimp only at h
  split_ifs at h with hpoor
  · exact ⟨s, _, _, _, hs, haccess, .failed _ _ _ _, h, le_trans (min_le_left _ _) hbase,
      min_le_right _ _⟩
  · have hbalance : ∀ {fee}, fee ≤ tx.header.gasLimit * effectiveGasPrice tx.header.gasPrice →
        fee ≤ nativeBalanceOrZero σ s := by
      intro fee hfee
      rw [not_and_or, not_lt, not_lt] at hpoor
      omega
    unfold executeChecked at h
    cases hcall : tx.nativeCall with
    | none =>
      rw [hcall] at h
      obtain ⟨cs₀, hrun, h⟩ := bind_eq_ok.mp h
      obtain ⟨_, hunits, h⟩ := bind_eq_ok.mp h
      obtain ⟨cost, hcost, h⟩ := bind_eq_ok.mp h
      have hfee : cost ≤ tx.header.gasLimit * effectiveGasPrice tx.header.gasPrice := by
        rw [checkedMul_eq_ok hcost]
        exact Nat.mul_le_mul_right _ (of_decide_eq_true (ensure_eq_ok.mp hunits))
      exact ⟨s, cost, _, cs₀, hs, haccess, runVirtualMachine_ok cost hcall hrun, h, hfee, hbalance hfee⟩
    | some call =>
      rw [hcall] at h
      dsimp only at h
      refine ⟨s, nativeGasCost tx, _, _, hs, haccess, ?_, h, hbase, hbalance hbase⟩
      cases hrun : env.runNative σ tx s (nativeGasCost tx) (contextOf tx) call with
      | ok cs₀ =>
        have hresult : CallResult env σ tx s (nativeGasCost tx) (orFailed (.ok cs₀)) := .native hcall hrun
        exact hrun ▸ hresult
      | error failure =>
        obtain ⟨left, e⟩ := failure
        obtain rfl := runNative_error hrun
        have hresult : CallResult env σ tx s (nativeGasCost tx) (orFailed (.error (contextOf tx, e))) :=
          .failed _ _ _ _
        exact hrun ▸ hresult

lemma executeTransaction_native {call : NativeCall} (hcall : tx.nativeCall = some call)
    (h : env.executeTransaction σ tx = .ok cs) (hsuccess : cs.success = true) :
    ∃ s units cs₀, env.parseAddress tx.header.sender = .ok s ∧
      validateTransactionObjectAccess (env.accessEnv σ) tx.objectInputs tx.gasPayment s = .ok () ∧
      env.runNative σ tx s (nativeGasCost tx) (contextOf tx) call = .ok cs₀ ∧
      env.finishExecution σ s (nativeGasCost tx) units cs₀ = .ok cs := by
  obtain ⟨s, fee, units, cs₀, hs, haccess, hresult, hfinish, -⟩ := executeTransaction_exits h
  cases hresult with
  | failed _ reads gasUsed e =>
    obtain ⟨rfl, -⟩ := finishExecution_eq hfinish
    cases hsuccess
  | native hcall' hrun =>
    rw [hcall] at hcall'
    cases hcall'
    exact ⟨s, units, cs₀, hs, haccess, hrun, hfinish⟩
  | move _ reads hcall' _ =>
    rw [hcall] at hcall'
    cases hcall'

def paymentRefs (tx : Transaction) : List ObjectRef := (tx.gasPayment.map (·.paymentObjects)).getD []

lemma firstPayment_ok {operation : String} (h : firstPayment tx operation = .ok ref) :
    ∃ rest, paymentRefs tx = ref :: rest := by
  unfold firstPayment at h
  unfold paymentRefs
  cases hpay : tx.gasPayment with
  | none =>
    rw [hpay] at h
    cases h
  | some payment =>
    rw [hpay] at h
    dsimp only at h
    cases hobjects : payment.paymentObjects with
    | nil =>
      rw [hobjects] at h
      cases h
    | cons first rest =>
      rw [hobjects] at h
      cases h
      exact ⟨rest, by simp [hobjects]⟩

end Kanari.Proofs

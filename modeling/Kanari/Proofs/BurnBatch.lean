import Kanari.BurnBatch
import Kanari.Proofs.GasCharges
import Kanari.Proofs.ObjectWrites

/-!
# The fast path for burns against the single applications

The fast path takes amount and gas out of a coin from which the burn has taken the amount already.
-/

namespace Kanari.Proofs

open Lib StateManager EngineEnv

/-! ## Reading the change sets -/

/-- A change set that the fast path takes: one coin, which is written and pays for gas. -/
structure FastBurn (cs : ChangeSet) (ref : ObjectRef) (id : String) (coin : CreatedObject)
    (pay : GasPayment) (balance : Nat) : Prop where
  plain : isPlainBurn cs = true
  refs : cs.gasObjectRefs = [ref]
  created : cs.createdObjects = [(id, coin)]
  payment : cs.gasPayment = some pay
  spelling : canonicalOwnedObjectId ref.objectId = canonicalOwnedObjectId id
  native : nativeAmount coin.typeName coin.data = some balance
  payer : AccountAddress.fromHexLiteral pay.owner = some coin.owner
  debit : cs.delta coin.owner < 0
  gas : (cs.nativeGasCredits.entries.map (·.2)).sum ≤ (cs.delta coin.owner).natAbs
  covered : (cs.delta coin.owner).natAbs ≤ balance

def IsFastBurn (cs : ChangeSet) : Prop :=
  ∃ ref id coin pay balance, FastBurn cs ref id coin pay balance

variable {plan plan' : BurnBatchPlan} {balance fee n : Nat} {cs : ChangeSet} {id : String}
  {css : List ChangeSet} {σ : StateManager} {s : AccountAddress}

lemma planOwnerDeltas_ok {l : List (AccountAddress × OwnerDelta)}
    (h : planOwnerDeltas plan l = .ok (some plan')) :
    plan'.supplyDelta = plan.supplyDelta + (l.map fun e => e.2.balanceDelta).sum ∧
      plan'.objectUpdates = plan.objectUpdates := by
  induction l generalizing plan with
  | nil =>
    cases h
    simp
  | cons e l ih =>
    unfold planOwnerDeltas at h
    split_ifs at h
    · obtain ⟨delta, -, h⟩ := bind_eq_ok.mp h
      obtain ⟨supplyDelta, hsupply, h⟩ := bind_eq_ok.mp h
      unfold checkedAddI128 at hsupply
      split_ifs at hsupply
      cases hsupply
      obtain ⟨hsum, hobjects⟩ := ih h
      refine ⟨?_, hobjects⟩
      rw [hsum, List.map_cons, List.sum_cons, ← add_assoc]
    · cases h

/-- All sums of a plan are at most `n` times the range of a machine word. -/
structure SumsWithin (plan : BurnBatchPlan) (n : Nat) : Prop where
  owners : ∀ a, ((plan.ownerDeltas.find? a).getD 0).natAbs ≤ n * 2 ^ 64
  supply : plan.supplyDelta.natAbs ≤ n * 2 ^ 64

lemma checkedAddI128_fits {a b : Int} (ha : a.natAbs ≤ n * 2 ^ 64) (hb : b.natAbs ≤ 2 ^ 64)
    (hn : n + 1 < 2 ^ 63) (e : String) : checkedAddI128 a b e = .ok (a + b) := by
  unfold checkedAddI128 i128Bound
  rw [if_pos]
  omega

lemma planOwnerDeltas_fits {l : List (AccountAddress × OwnerDelta)}
    (hl : ∀ e ∈ l, e.2.modulesAdded = .empty ∧ e.2.balanceDelta.natAbs ≤ 2 ^ 64)
    (hplan : SumsWithin plan n) (hn : n + l.length < 2 ^ 63) :
    ∃ plan', planOwnerDeltas plan l = .ok (some plan') ∧ SumsWithin plan' (n + l.length) := by
  induction l generalizing plan n with
  | nil => exact ⟨plan, rfl, hplan⟩
  | cons e l ih =>
    rw [List.length_cons] at hn
    obtain ⟨hmodules, hdelta⟩ := hl e List.mem_cons_self
    have howner := checkedAddI128_fits (hplan.owners e.1) hdelta (by omega)
      "Native owned batch owner delta overflow"
    have hsupply := checkedAddI128_fits hplan.supply hdelta (by omega)
      "Native owned batch supply delta overflow"
    have hnext : SumsWithin { plan with
        ownerDeltas := plan.ownerDeltas.insert e.1
          ((plan.ownerDeltas.find? e.1).getD 0 + e.2.balanceDelta)
        supplyDelta := plan.supplyDelta + e.2.balanceDelta } (n + 1) := by
      have hadd : ∀ d : Int, d.natAbs ≤ n * 2 ^ 64 → (d + e.2.balanceDelta).natAbs ≤ (n + 1) * 2 ^ 64 := by
        intro d hd
        omega
      refine ⟨?_, hadd _ hplan.supply⟩
      intro a
      rw [OrdMap.find?_insert]
      split_ifs
      · exact hadd _ (hplan.owners e.1)
      · exact (hplan.owners a).trans (Nat.mul_le_mul_right _ (Nat.le_succ n))
    obtain ⟨plan', hplan', hwithin⟩ := ih (fun e' he' => hl e' (List.mem_cons_of_mem _ he')) hnext
      (by omega)
    refine ⟨plan', ?_, ?_⟩
    · have hempty : e.2.modulesAdded.entries.isEmpty = true := by rw [hmodules]; rfl
      unfold planOwnerDeltas
      rw [if_pos hempty, howner, hsupply]
      exact hplan'
    · rw [List.length_cons, Nat.add_comm l.length 1, ← Nat.add_assoc]
      exact hwithin

lemma structTag_of_nativeAmount {typeName : String} {data : Bytes}
    (h : nativeAmount typeName data = some balance) :
    ∃ st, structTagFromStr typeName = some st := by
  obtain ⟨_, hbalance, -⟩ := Option.bind_eq_some_iff.mp h
  obtain ⟨st, hst, -⟩ := Option.bind_eq_some_iff.mp hbalance
  exact ⟨st, hst⟩

lemma writeBalance_of_extract {data : Bytes} {st : StructTag}
    (h : extractBalanceFromObjectBytes data st = some n) (m : Nat) :
    ∃ data', writeBalanceToObjectBytes data st m = some data' := by
  unfold extractBalanceFromObjectBytes at h
  unfold writeBalanceToObjectBytes
  split_ifs at h ⊢
  · exact ⟨_, rfl⟩
  · exact ⟨_, rfl⟩

variable {coin : CreatedObject} {amount : Nat}

lemma planObject_ok {canonicalId : String} {object : StoredObject}
    (hnative : nativeAmount coin.typeName coin.data = some balance)
    (h : planObject cs canonicalId coin balance = .ok (some object)) :
    (cs.nativeGasCredits.entries.map (·.2)).sum ≤ (cs.delta coin.owner).natAbs ∧
      (cs.delta coin.owner).natAbs ≤ balance ∧ object.id = canonicalId ∧
      nativeAmount object.typeName object.data = some (balance - (cs.delta coin.owner).natAbs) := by
  obtain ⟨debit, hdebit, h⟩ := bind_eq_ok.mp h
  obtain ⟨gas, hgas, h⟩ := bind_eq_ok.mp h
  have hgas : gas = (cs.nativeGasCredits.entries.map (·.2)).sum :=
    (foldOk_checkedAdd hgas).trans (zero_add _)
  obtain ⟨-, rfl⟩ := toU64_eq_ok.mp hdebit
  obtain ⟨st, hst⟩ := structTag_of_nativeAmount hnative
  rw [hst] at h
  dsimp only at h
  split_ifs at h with hshort
  · cases h
  cases hwrite : writeBalanceToObjectBytes coin.data st (balance - (cs.delta coin.owner).natAbs) with
  | none =>
    rw [hwrite] at h
    cases h
  | some data =>
    rw [hwrite] at h
    cases h
    have hcovered : (cs.delta coin.owner).natAbs ≤ balance := by omega
    refine ⟨by omega, hcovered, rfl, ?_⟩
    rw [nativeAmount_charged (balanceTokenAmount_write hst (extractBalance_of_nativeAmount hst hnative)
      (Nat.sub_le _ _) hwrite), hnative, Option.map_some, Nat.sub_sub_self hcovered]

lemma planObject_of_fast {ref : ObjectRef} {pay : GasPayment}
    (hfast : FastBurn cs ref id coin pay balance)
    (hcredits : cs.nativeGasCredits =
      (OrdMap.empty : OrdMap AccountAddress Nat).insert daoAccountAddress fee)
    (canonicalId : String) :
    ∃ object, planObject cs canonicalId coin balance = .ok (some object) := by
  obtain ⟨st, hst⟩ := structTag_of_nativeAmount hfast.native
  have hextract := extractBalance_of_nativeAmount hst hfast.native
  have hbalance := extractBalance_lt hextract
  have hcovered := hfast.covered
  have hgas := hfast.gas
  obtain ⟨data, hwrite⟩ := writeBalance_of_extract hextract (balance - (cs.delta coin.owner).natAbs)
  have hentries : cs.nativeGasCredits.entries = [(daoAccountAddress, fee)] := by
    rw [hcredits]
    rfl
  rw [hentries, List.map_singleton, List.sum_singleton] at hgas
  have hdebit : toU64 (cs.delta coin.owner) "Native owned batch sender debit overflowed u64" =
      .ok (cs.delta coin.owner).natAbs := toU64_eq_ok.mpr ⟨by omega, rfl⟩
  have htotal : checkedAdd 0 fee "Native gas credit overflow in owned batch" = .ok fee :=
    checkedAdd_eq_ok.mpr ⟨by omega, (zero_add fee).symm⟩
  have hfits : ¬((cs.delta coin.owner).natAbs < fee ∨ balance < (cs.delta coin.owner).natAbs) := by omega
  unfold planObject
  rw [hdebit, hentries, ok_bind, foldOk, htotal, ok_bind, foldOk_nil, ok_bind, if_neg hfits, hst]
  dsimp only
  rw [hwrite]
  exact ⟨_, rfl⟩

def PlannedObject (cs : ChangeSet) (object : StoredObject) : Prop :=
  ∃ ref id coin pay balance, FastBurn cs ref id coin pay balance ∧
    object.id = canonicalOwnedObjectId id ∧
    nativeAmount object.typeName object.data = some (balance - (cs.delta coin.owner).natAbs)

lemma planBurn_ok (h : planBurn plan cs = .ok (some plan')) :
    ∃ object, PlannedObject cs object ∧ plan'.supplyDelta = plan.supplyDelta + deltaTotal cs ∧
      plan'.objectUpdates = plan.objectUpdates ++ [object] := by
  unfold planBurn at h
  by_cases hplain : isPlainBurn cs = true
  swap
  · rw [if_neg hplain] at h
    cases h
  rw [if_pos hplain] at h
  split at h
  case h_2 => cases h
  case h_1 ref id coin pay hrefs hcreated hpayment =>
    unfold planCoin at h
    dsimp only at h
    by_cases hspelling : canonicalOwnedObjectId ref.objectId = canonicalOwnedObjectId id
    swap
    · rw [if_pos hspelling] at h
      cases h
    rw [if_neg (not_not.mpr hspelling)] at h
    cases hnative : nativeAmount coin.typeName coin.data with
    | none =>
      rw [hnative] at h
      cases h
    | some balance =>
      cases hpayer : AccountAddress.fromHexLiteral pay.owner with
      | none =>
        rw [hnative, hpayer] at h
        cases h
      | some payer =>
        rw [hnative, hpayer] at h
        dsimp only at h
        by_cases hother : payer ≠ coin.owner ∨ 0 ≤ cs.delta coin.owner
        · rw [if_pos hother] at h
          cases h
        rw [if_neg hother] at h
        rw [not_or, not_not, not_le] at hother
        obtain ⟨rfl, hdebit⟩ := hother
        obtain ⟨planned, hobject, h⟩ := bind_eq_ok.mp h
        cases planned with
        | none => cases h
        | some object =>
          obtain ⟨mid, hdeltas, h⟩ := bind_eq_ok.mp h
          cases mid with
          | none => cases h
          | some mid =>
            cases h
            obtain ⟨hsupply, hupdates⟩ := planOwnerDeltas_ok hdeltas
            obtain ⟨hgas, hcovered, hid, hamount⟩ := planObject_ok hnative hobject
            exact ⟨object, ⟨ref, id, coin, pay, balance, ⟨hplain, hrefs, hcreated, hpayment, hspelling,
              hnative, hpayer, hdebit, hgas, hcovered⟩, hid, hamount⟩, hsupply, by rw [hupdates]⟩

lemma planBurn_of_fast {mid : BurnBatchPlan} (hfast : IsFastBurn cs)
    (hcredits : cs.nativeGasCredits =
      (OrdMap.empty : OrdMap AccountAddress Nat).insert daoAccountAddress fee)
    (hdeltas : planOwnerDeltas plan cs.ownerDeltas.entries = .ok (some mid)) :
    ∃ plan', planBurn plan cs = .ok (some plan') ∧ plan'.ownerDeltas = mid.ownerDeltas ∧
      plan'.supplyDelta = mid.supplyDelta := by
  obtain ⟨ref, id, coin, pay, balance, hfast⟩ := hfast
  obtain ⟨object, hobject⟩ := planObject_of_fast hfast hcredits (canonicalOwnedObjectId id)
  have hdebit : ¬(coin.owner ≠ coin.owner ∨ 0 ≤ cs.delta coin.owner) := by
    have := hfast.debit
    rw [not_or]
    exact ⟨not_not.mpr rfl, by omega⟩
  unfold planBurn
  rw [if_pos hfast.plain, hfast.refs, hfast.created, hfast.payment]
  dsimp only
  unfold planCoin
  dsimp only
  rw [if_neg (not_not.mpr hfast.spelling), hfast.native, hfast.payer]
  dsimp only
  rw [if_neg hdebit, hobject, ok_bind]
  dsimp only
  rw [hdeltas]
  exact ⟨_, rfl, rfl, rfl⟩

lemma planBurns_ok (h : planBurns plan css = .ok (some plan')) :
    ∃ objects, List.Forall₂ PlannedObject css objects ∧
      plan'.supplyDelta = plan.supplyDelta + (css.map deltaTotal).sum ∧
      plan'.objectUpdates = plan.objectUpdates ++ objects := by
  induction css generalizing plan with
  | nil =>
    cases h
    exact ⟨[], .nil, by simp, by simp⟩
  | cons cs css ih =>
    obtain ⟨next, hnext, h⟩ := bind_eq_ok.mp h
    cases next with
    | none => cases h
    | some next =>
      obtain ⟨object, hobject, hsupply, hupdates⟩ := planBurn_ok hnext
      obtain ⟨objects, hobjects, hsupply', hupdates'⟩ := ih h
      refine ⟨object :: objects, .cons hobject hobjects, ?_, ?_⟩
      · rw [hsupply', hsupply, List.map_cons, List.sum_cons, add_assoc]
      · rw [hupdates', hupdates, List.append_assoc, List.singleton_append]

/-! ## What a burn puts into its change set -/

/-- The change set comes from a native burn that was executed on the state. -/
def BurnExecuted (env : EngineEnv) (σ : StateManager) (cs : ChangeSet) : Prop :=
  ∃ tx amount, tx.nativeCall = some (.burn amount) ∧ env.executeTransaction σ tx = .ok cs

structure BurnSet (cs : ChangeSet) (s : AccountAddress) (amount fee : Nat) : Prop where
  positive : 0 < amount
  fits : amount + fee < u64Bound
  delta : ∀ a, cs.delta a =
    (if a = daoAccountAddress then (fee : Int) else 0) - if a = s then (amount : Int) + fee else 0
  owners : ∀ a, cs.ownerDeltas.contains a = true → a = s ∨ a = daoAccountAddress
  modules : ∀ a d, cs.ownerDeltas.find? a = some d → d.modulesAdded = .empty
  credits : cs.nativeGasCredits = (OrdMap.empty : OrdMap AccountAddress Nat).insert daoAccountAddress fee
  total : deltaTotal cs = -amount
  coin : ∀ ref id coin, cs.gasObjectRefs = [ref] → cs.createdObjects = [(id, coin)] →
    ref.objectId = id ∧ coin.owner = s

lemma BurnExecuted.burnSet {env : EngineEnv} (h : BurnExecuted env σ cs)
    (hsuccess : cs.success = true) : ∃ s amount fee, BurnSet cs s amount fee := by
  obtain ⟨tx, amount, hcall, hexec⟩ := h
  obtain ⟨s, units, cs₀, -, -, hrun, hfinish⟩ := executeTransaction_native hcall hexec hsuccess
  obtain ⟨hmoved, htotal, hcredits, -⟩ := runNative_burn hrun
  obtain ⟨hdelta, hcontains, hcredits, hcreated, -, -, -, -, hrefs⟩ := finishExecution_ok hcredits hfinish
  obtain ⟨ref, coin, hpositive, hpay, -, howner, -, henough, hcs₀⟩ := executeBackendNativeBurn_ok hrun
  obtain ⟨more, hpayments⟩ := firstPayment_ok hpay
  have hbase : cs₀.ownerDeltas = ((contextOf tx).addDelta s (-amount)).ownerDeltas ∧
      cs₀.gasObjectRefs = paymentRefs tx ∧ ∀ id new, cs₀.createdObjects = [(id, new)] →
        ref.objectId = id ∧ new.owner = s := by
    split_ifs at hcs₀
    · subst hcs₀
      exact ⟨rfl, rfl, fun id new hnew => by cases hnew⟩
    · subst hcs₀
      refine ⟨rfl, rfl, fun id new hnew => ?_⟩
      cases hnew
      exact ⟨rfl, howner⟩
  have hempty : ∀ b e, (contextOf tx).ownerDeltas.find? b = some e → e.modulesAdded = .empty := by
    intro b e hfind
    cases hfind
  have hvalue := coinValue_lt coin.data
  refine ⟨s, amount, nativeGasCost tx, hpositive, by omega, ?_, ?_, ?_, hcredits, ?_, ?_⟩
  · intro a
    rw [hdelta a, hmoved a]
    split_ifs <;> omega
  · intro a ha
    rw [hcontains a, hbase.1, contains_addDelta] at ha
    simp only [Bool.or_eq_true, decide_eq_true_eq] at ha
    rcases ha with ha | ha | ha | ha
    · exact .inl ha
    · exact .inr ha
    · exact .inl ha
    · cases ha
  · obtain ⟨rfl, -⟩ := finishExecution_eq hfinish
    apply modules_addDelta
    apply modules_addDelta
    rw [hbase.1]
    exact modules_addDelta s (-amount) hempty
  · rw [deltaTotal_finishExecution hfinish, htotal]
  · intro ref' id new href hnew
    rw [hrefs, hbase.2.1, hpayments] at href
    cases href
    exact hbase.2.2 id new (hcreated ▸ hnew)

lemma BurnSet.entries (h : BurnSet cs s amount fee) :
    cs.ownerDeltas.entries.length ≤ 2 ∧
      ∀ e ∈ cs.ownerDeltas.entries, e.2.modulesAdded = .empty ∧ e.2.balanceDelta.natAbs ≤ 2 ^ 64 := by
  have hfits : amount + fee < 2 ^ 64 := h.fits
  refine ⟨?_, ?_⟩
  · have hsub : cs.ownerDeltas.keys ⊆ [s, daoAccountAddress] := by
      intro a ha
      simpa using h.owners a (OrdMap.mem_keys.mp ha)
    have hlength := (List.subperm_of_subset cs.ownerDeltas.nodup_keys hsub).length_le
    rwa [OrdMap.keys, List.length_map] at hlength
  · intro e he
    have hfind := OrdMap.mem_entries.mp he
    refine ⟨h.modules e.1 e.2 hfind, ?_⟩
    rw [← delta_of_find hfind, h.delta e.1]
    split_ifs <;> omega

lemma SumsWithin.mono {m : Nat} (h : SumsWithin plan n) (hnm : n ≤ m) : SumsWithin plan m :=
  ⟨fun a => (h.owners a).trans (Nat.mul_le_mul_right _ hnm),
    h.supply.trans (Nat.mul_le_mul_right _ hnm)⟩

lemma planBurns_of_fast
    (hburns : ∀ cs ∈ css, IsFastBurn cs ∧ ∃ s amount fee, BurnSet cs s amount fee)
    (hplan : SumsWithin plan n) (hn : n + 2 * css.length < 2 ^ 63) :
    ∃ plan', planBurns plan css = .ok (some plan') := by
  induction css generalizing plan n with
  | nil => exact ⟨plan, rfl⟩
  | cons cs css ih =>
    rw [List.length_cons] at hn
    obtain ⟨hfast, s, amount, fee, hburn⟩ := hburns cs List.mem_cons_self
    obtain ⟨hlength, hentries⟩ := hburn.entries
    obtain ⟨mid, hmid, hwithin⟩ := planOwnerDeltas_fits hentries hplan (by omega)
    obtain ⟨next, hnext, howners, hsupply⟩ := planBurn_of_fast hfast hburn.credits hmid
    have hnextWithin : SumsWithin next (n + 2) := by
      refine ⟨?_, ?_⟩
      · rw [howners]
        exact (hwithin.mono (Nat.add_le_add_left hlength n)).owners
      · rw [hsupply]
        exact (hwithin.mono (Nat.add_le_add_left hlength n)).supply
    obtain ⟨plan', hplan'⟩ := ih (fun cs' hcs' => hburns cs' (List.mem_cons_of_mem _ hcs')) hnextWithin
      (by omega)
    refine ⟨plan', ?_⟩
    unfold planBurns
    rw [hnext]
    exact hplan'

/-! ## Writing the plan -/

lemma writeOwnerTotals_frame (σ : StateManager) (additions : List String)
    (l : List (AccountAddress × Int)) :
    (writeOwnerTotals σ additions l).1.objects = σ.objects ∧
      (writeOwnerTotals σ additions l).1.totalSupply = σ.totalSupply := by
  induction l generalizing σ additions with
  | nil => exact ⟨rfl, rfl⟩
  | cons e l ih =>
    obtain ⟨owner, delta⟩ := e
    unfold writeOwnerTotals
    dsimp only
    cases nextBatchBalance owner (σ.loadOwnerStateOrDefault owner).nativeBalance delta with
    | error e => exact ⟨rfl, rfl⟩
    | ok next =>
      dsimp only
      split_ifs
      · exact ih _ additions
      · exact ih _ (additions ++ [owner.toHexLiteral])

lemma writePlan_frame (σ : StateManager) (plan : BurnBatchPlan) :
    (writePlan σ plan).1.totalSupply = σ.totalSupply ∧ ∀ σ', writePlan σ plan = (σ', .ok true) →
      σ'.objects = plan.objectUpdates.foldl (fun objects o => objects.insert o.id o) σ.objects := by
  obtain ⟨hobjects, htotal⟩ := writeOwnerTotals_frame σ [] plan.ownerDeltas.entries
  unfold writePlan
  generalize writeOwnerTotals σ [] plan.ownerDeltas.entries = written at hobjects htotal
  obtain ⟨τ, outcome⟩ := written
  cases outcome with
  | error e => exact ⟨htotal, fun σ' h => by cases h⟩
  | ok additions =>
    refine ⟨htotal, fun σ' h => ?_⟩
    rw [← (Prod.mk.inj h).1, ← hobjects]

lemma applyPlan_short (h : (σ.totalSupply : Int) < -plan.supplyDelta) :
    ∃ e, applyPlan σ plan = (σ, .error e) := by
  unfold applyPlan
  rw [if_neg (by omega), if_neg (by omega)]
  cases hburn : toU64 plan.supplyDelta "Native owned batch burn overflowed u64" with
  | error e => exact ⟨e, rfl⟩
  | ok burnAmount =>
    rw [toU64_eq_ok] at hburn
    dsimp only
    unfold burnSupply
    rw [if_pos (by omega)]
    exact ⟨_, rfl⟩

lemma applyPlan_burns (hsupply : σ.totalSupply < u64Bound) (hneg : plan.supplyDelta < 0)
    (hcovered : -plan.supplyDelta ≤ σ.totalSupply) :
    (applyPlan σ plan).1.totalSupply ≠ σ.totalSupply ∧ (applyPlan σ plan).2 ≠ .ok false ∧
      ∀ σ', applyPlan σ plan = (σ', .ok true) →
        σ'.objects = plan.objectUpdates.foldl (fun objects o => objects.insert o.id o) σ.objects := by
  have hburn : toU64 plan.supplyDelta "Native owned batch burn overflowed u64" =
      .ok plan.supplyDelta.natAbs := toU64_eq_ok.mpr ⟨by omega, rfl⟩
  unfold applyPlan
  rw [if_neg (by omega), if_neg (by omega), hburn]
  dsimp only
  unfold burnSupply
  rw [if_neg (by omega)]
  dsimp only
  split_ifs with hvisible
  · refine ⟨?_, ?_, ?_⟩
    · show σ.totalSupply - plan.supplyDelta.natAbs ≠ σ.totalSupply
      omega
    · intro h
      cases h
    · intro σ' h
      cases h
  · dsimp only
    obtain ⟨htotal, hobjects⟩ := writePlan_frame (saveGlobalTokenSupplies
      { σ.saveNativeTotalSupply (σ.totalSupply - plan.supplyDelta.natAbs) with
        globalTokenSupplies := setSupply (σ.saveNativeTotalSupply
          (σ.totalSupply - plan.supplyDelta.natAbs)).globalTokenSupplies GAS_COIN
          ((σ.saveNativeTotalSupply (σ.totalSupply - plan.supplyDelta.natAbs)).cachedSupply GAS_COIN
            - plan.supplyDelta.natAbs) }) plan
    refine ⟨?_, ?_, hobjects⟩
    · rw [htotal]
      show σ.totalSupply - plan.supplyDelta.natAbs ≠ σ.totalSupply
      omega
    · unfold writePlan
      split
      · intro h
        cases h
      · dsimp only
        cases (StateManager.advanceAccessVersions _ plan.access).2 <;> exact fun h => by cases h

/-! ## One application -/

lemma load_eq (σ : StateManager) (id : String) : σ.loadStoredObjectByAnyId id =
    match σ.objects.find? id with
    | some obj => some (id, obj)
    | none => (σ.objects.find? (canonicalOwnedObjectId id)).map (canonicalOwnedObjectId id, ·) := by
  unfold loadStoredObjectByAnyId objectLookupIds canonicalOwnedObjectId
  cases canonicalObjectId id with
  | none => cases hfind : σ.objects.find? id <;> simp [hfind]
  | some canonicalId =>
    dsimp only
    split_ifs with heq
    · subst heq
      cases hfind : σ.objects.find? canonicalId <;> simp [hfind]
    · cases hfind : σ.objects.find? id with
      | none => cases hcanonical : σ.objects.find? canonicalId <;> simp [hfind, hcanonical]
      | some obj => simp [hfind]

lemma ownerNativeGasDebit_le {ctx : ApplyContext} {owner : AccountAddress} {designated : Bool}
    {debit : Nat} (h : ctx.ownerNativeGasDebit owner designated = .ok debit) :
    debit ≤ ctx.gasDebitTotal ∧ (0 ≤ ctx.cs.delta owner → debit = 0) := by
  unfold ApplyContext.ownerNativeGasDebit at h
  split_ifs at h
  · obtain ⟨owed, howed, h⟩ := bind_eq_ok.mp h
    cases h
    refine ⟨Nat.min_le_right _ _, fun hpos => ?_⟩
    unfold ownerNativeDebit at howed
    rw [if_neg (by omega)] at howed
    cases howed
    exact Nat.zero_min _
  · cases h
    exact ⟨Nat.zero_le _, fun _ => rfl⟩

/-- After a coin was written: what is left in it, and that it is found under its spelling. -/
structure CoinWritten (ctx : ApplyContext) (acc : ApplyAcc) (s : AccountAddress) (id : String)
    (obj : StoredObject) (balance charged : Nat) : Prop where
  loaded : acc.state.loadStoredObjectByAnyId id = some (canonicalOwnedObjectId id, obj)
  amount : nativeAmount obj.typeName obj.data = some (balance - charged)
  bounded : charged ≤ ctx.gasDebitTotal
  noted : charged ≤ acc.gasAdjusted s

lemma load_after_insert {objects : OrdMap String StoredObject} {obj : StoredObject}
    (hobjects : σ.objects = objects.insert (canonicalOwnedObjectId id) obj)
    (hraw : id ≠ canonicalOwnedObjectId id → objects.find? id = none) :
    σ.loadStoredObjectByAnyId id = some (canonicalOwnedObjectId id, obj) := by
  rw [load_eq, hobjects, OrdMap.find?_insert]
  by_cases heq : id = canonicalOwnedObjectId id
  · rw [if_pos heq]
    dsimp only
    rw [← heq]
  · rw [if_neg heq, hraw heq, OrdMap.find?_insert_self]
    rfl

lemma applyCreatedObject_native {ctx : ApplyContext} {acc acc' : ApplyAcc}
    (hs : ∀ a, ctx.cs.delta a < 0 → a = s) (hadjusted : acc.nativeObjectGasAdjusted = .empty)
    (hnative : nativeAmount coin.typeName coin.data = some balance)
    (h : applyCreatedObject ctx acc (id, coin) = .ok acc') :
    ∃ obj charged, CoinWritten ctx acc' s id obj balance charged := by
  cases hload : acc.state.loadStoredObjectByAnyId id with
  | none =>
    obtain ⟨version, hobjects, -⟩ := applyCreatedObject_fresh (c := (id, coin)) hload h
    refine ⟨_, 0, load_after_insert hobjects ?_, hnative, Nat.zero_le _, Nat.zero_le _⟩
    intro _
    rw [load_eq] at hload
    cases hfind : acc.state.objects.find? id with
    | none => rfl
    | some obj =>
      rw [hfind] at hload
      cases hload
  | some e =>
    obtain ⟨storedId, old⟩ := e
    obtain ⟨new, charged, htype, -, -, hcharge, hobjects, -⟩ := applyCreatedObject_over (c := (id, coin)) hload h
    have hamount := nativeAmount_charged hcharge.amount
    rw [hnative, Option.map_some, ← htype] at hamount
    have hbounds : charged ≤ ctx.gasDebitTotal ∧ charged ≤ acc'.gasAdjusted s := by
      obtain ⟨rfl, -⟩ | ⟨-, designated, debit, hdebit, hcharged, hnoted⟩ := hcharge.debit
      · exact ⟨Nat.zero_le _, Nat.zero_le _⟩
      · obtain ⟨hle, hzero⟩ := ownerNativeGasDebit_le hdebit
        have hfirst : acc.gasAdjusted old.owner = 0 := by
          unfold ApplyAcc.gasAdjusted
          rw [hadjusted]
          rfl
        refine ⟨by omega, ?_⟩
        by_cases hneg : ctx.cs.delta old.owner < 0
        · have hnoted : acc'.gasAdjusted s = debit := by
            unfold ApplyAcc.gasAdjusted
            rw [hnoted, hs old.owner hneg, OrdMap.find?_insert_self]
            rfl
          omega
        · have := hzero (by omega)
          omega
    refine ⟨_, charged, load_after_insert hobjects ?_, hamount, hbounds.1, hbounds.2⟩
    intro hne
    rw [load_eq] at hload
    cases hfind : acc.state.objects.find? id with
    | none =>
      split_ifs
      · exact hfind
      · rw [OrdMap.find?_erase, hfind, ite_self]
    | some obj =>
      rw [hfind] at hload
      cases hload
      rw [if_neg hne, OrdMap.find?_erase, if_pos rfl]

lemma isPlainBurn_fields (h : isPlainBurn cs = true) :
    cs.success = true ∧ cs.tokenBalanceSets = [] ∧ cs.deletedObjects = [] := by
  unfold isPlainBurn at h
  simp only [Bool.and_eq_true, List.isEmpty_iff] at h
  tauto

/-- A single application takes no more than the gas out of the written coin. -/
lemma apply_fastBurn {σ' : StateManager} {ref : ObjectRef} {pay : GasPayment}
    (hburn : BurnSet cs s amount fee) (hfast : FastBurn cs ref id coin pay balance)
    (h : σ.applyChangesetWithoutSupplyValidation cs = .ok σ') :
    ∃ obj left, σ'.objects.find? (canonicalOwnedObjectId id) = some obj ∧
      nativeAmount obj.typeName obj.data = some left ∧ balance ≤ left + fee := by
  obtain ⟨hid, -⟩ := hburn.coin ref id coin hfast.refs hfast.created
  subst hid
  obtain ⟨-, hhints, hdeleted⟩ := isPlainBurn_fields hfast.plain
  obtain ⟨next, ctx, moved, written, settled, reconcile, before, -, hctx, hmoved, hobjects, hrecompute,
    hfinish⟩ := apply_stages h
  obtain ⟨total, htotal, hctx⟩ := bind_eq_ok.mp hctx
  obtain ⟨balancesBefore, -, hctx⟩ := bind_eq_ok.mp hctx
  obtain ⟨_, -, hctx⟩ := bind_eq_ok.mp hctx
  cases hctx
  obtain rfl := nativeGasDebitTotal_single hburn.credits htotal
  obtain ⟨_, _, _, _, _, _, rfl⟩ := applyOwnerDeltas_stage hmoved
  have hs : ∀ a, cs.delta a < 0 → a = s := by
    intro a hneg
    by_contra hne
    rw [hburn.delta a, if_neg hne] at hneg
    split_ifs at hneg <;> omega
  unfold applyObjects at hobjects
  dsimp only at hobjects
  rw [hhints, hdeleted, hfast.created, hfast.refs, foldOk_nil, ok_bind, foldOk_nil, ok_bind] at hobjects
  obtain ⟨acc, hcreated, hgas⟩ := bind_eq_ok.mp hobjects
  obtain ⟨acc', hcreated, hrest⟩ := foldOk_cons_eq_ok.mp hcreated
  cases hrest
  obtain ⟨written', hgas, hrest⟩ := foldOk_cons_eq_ok.mp hgas
  cases hrest
  obtain ⟨obj, charged, hwritten⟩ := applyCreatedObject_native hs rfl hfast.native hcreated
  have hbounded := hwritten.bounded
  have hnoted := hwritten.noted
  have hcovered := hfast.covered
  rw [apply_objects hrecompute hfinish]
  obtain rfl | ⟨storedId, old, debit, data, hload, hdebit, -, hpaid⟩ := applyGasObject_ok hgas
  · have hfind := (find_of_load hwritten.loaded).1
    exact ⟨obj, _, hfind, hwritten.amount, by dsimp only at hbounded; omega⟩
  · rw [hwritten.loaded] at hload
    cases hload
    have hobjects := hpaid.objects
    rw [if_pos rfl] at hobjects
    have hamount := nativeAmount_charged hpaid.amount
    rw [hwritten.amount, Option.map_some] at hamount
    refine ⟨_, _, by rw [hobjects]; exact OrdMap.find?_insert_self _ _ _, hamount, ?_⟩
    obtain ⟨hle, hzero⟩ := ownerNativeGasDebit_le hdebit
    dsimp only at hbounded hle hzero
    by_cases hneg : cs.delta obj.owner < 0
    · rw [hs _ hneg]
      omega
    · have := hzero (by omega)
      omega

/-! ## The batch -/

/-- What the two ways of applying burns have to agree on. -/
structure SameAccounts (σ σ' : StateManager) : Prop where
  owners : σ'.owners = σ.owners
  objects : σ'.objects = σ.objects
  ownedObjects : σ'.ownedObjects = σ.ownedObjects
  ownerIndex : σ'.ownerIndex = σ.ownerIndex
  totalSupply : σ'.totalSupply = σ.totalSupply
  supplies : σ'.globalTokenSupplies = σ.globalTokenSupplies

/-- A batch that was taken leaves the accounts of the single applications, and any other the state. -/
def BatchFaithful (σ : StateManager) (css : List ChangeSet) : Prop :=
  match tryApplyOwnedNativeBurnBatchWithoutSupplyValidation σ css with
  | (σ', .ok true) => ∃ σ'', foldOk applyChangesetWithoutSupplyValidation σ css = .ok σ'' ∧
      SameAccounts σ' σ''
  | (σ', _) => σ' = σ

/-- The batch is left before anything is written. -/
def BatchSpared (σ : StateManager) (css : List ChangeSet) : Prop :=
  css = [] ∨ (∃ cs ∈ css, ¬IsFastBurn cs) ∨ (σ.totalSupply : Int) < -(css.map deltaTotal).sum

lemma batchFaithful_of_spared (h : BatchSpared σ css) : BatchFaithful σ css := by
  unfold BatchFaithful tryApplyOwnedNativeBurnBatchWithoutSupplyValidation
  cases css with
  | nil => exact ⟨σ, rfl, ⟨rfl, rfl, rfl, rfl, rfl, rfl⟩⟩
  | cons cs css =>
    simp only [List.isEmpty_cons, Bool.false_eq_true, if_false]
    cases hplan : planBurns {} (cs :: css) with
    | error e => rfl
    | ok planned =>
      cases planned with
      | none => rfl
      | some plan =>
        obtain ⟨objects, hobjects, hsupply, -⟩ := planBurns_ok hplan
        obtain hnil | ⟨slow, hmem, hslow⟩ | hshort := h
        · cases hnil
        · obtain ⟨i, hi, rfl⟩ := List.mem_iff_getElem.mp hmem
          have hlength := hobjects.length_eq
          obtain ⟨ref, id, coin, pay, balance, hfast, -⟩ :=
            hobjects.get (i := i) hi (by omega)
          exact absurd ⟨ref, id, coin, pay, balance, hfast⟩ hslow
        · have hshort : (σ.totalSupply : Int) < -plan.supplyDelta := by
            rw [hsupply]
            simpa using hshort
          obtain ⟨e, he⟩ := applyPlan_short hshort
          dsimp only
          rw [he]

lemma forall₂_concat {α β : Type} {R : α → β → Prop} {as : List α} {a : α} {bs : List β}
    (h : List.Forall₂ R (as ++ [a]) bs) : ∃ bs' b, bs = bs' ++ [b] ∧ R a b := by
  have hreverse := List.forall₂_reverse_iff.mpr h
  rw [List.reverse_append] at hreverse
  cases hbs : bs.reverse with
  | nil =>
    rw [hbs] at hreverse
    cases hreverse
  | cons b rest =>
    rw [hbs] at hreverse
    cases hreverse with
    | cons hab _ => exact ⟨rest.reverse, b, by simpa using congrArg List.reverse hbs, hab⟩

/-- The last coin of the batch in both ways: the fast path takes the whole debit out of it, the
single application at most the gas. -/
lemma debit_le_fee {τ σ' σ'' : StateManager} {object : StoredObject}
    (hburn : BurnSet cs s amount fee) (hplanned : PlannedObject cs object)
    (hfind : σ'.objects.find? object.id = some object)
    (happly : τ.applyChangesetWithoutSupplyValidation cs = .ok σ'') (hsame : SameAccounts σ' σ'') :
    s = daoAccountAddress ∧ amount = fee := by
  obtain ⟨ref, id, coin, pay, balance, hfast, hid, hamount⟩ := hplanned
  obtain ⟨obj, left, hfound, hleft, hle⟩ := apply_fastBurn hburn hfast happly
  obtain ⟨-, howner⟩ := hburn.coin ref id coin hfast.refs hfast.created
  rw [hsame.objects, ← hid, hfind] at hfound
  cases hfound
  rw [hamount] at hleft
  cases hleft
  have hpositive := hburn.positive
  have hcovered := hfast.covered
  have hgas : fee ≤ (cs.delta coin.owner).natAbs := by
    have hgas := hfast.gas
    have hentries : cs.nativeGasCredits.entries = [(daoAccountAddress, fee)] := by
      rw [hburn.credits]
      rfl
    rwa [hentries, List.map_singleton, List.sum_singleton] at hgas
  have hdelta := hburn.delta coin.owner
  rw [howner] at hcovered hgas hdelta hle
  rw [if_pos rfl] at hdelta
  by_cases hdao : s = daoAccountAddress
  · rw [if_pos hdao] at hdelta
    exact ⟨hdao, by omega⟩
  · rw [if_neg hdao] at hdelta
    omega

lemma batchSpared_of_faithful {env : EngineEnv} (hburns : ∀ cs ∈ css, BurnExecuted env σ cs)
    (hsupply : σ.totalSupply < u64Bound) (h : BatchFaithful σ css) :
    BatchSpared σ css ∨ 2 ^ 62 ≤ css.length ∨
      ∃ cs ∈ css.getLast?, ∃ amount, BurnSet cs daoAccountAddress amount amount := by
  by_contra hnot
  rw [not_or, not_or] at hnot
  obtain ⟨hwrites, hlength, hlast⟩ := hnot
  unfold BatchSpared at hwrites
  rw [not_or, not_or] at hwrites
  obtain ⟨hne, hfast, hcovered⟩ := hwrites
  have hsets : ∀ cs ∈ css, IsFastBurn cs ∧ ∃ s amount fee, BurnSet cs s amount fee := by
    intro cs hcs
    have hcsFast : IsFastBurn cs := by
      by_contra hslow
      exact hfast ⟨cs, hcs, hslow⟩
    have hplain : isPlainBurn cs = true := by
      obtain ⟨_, _, _, _, _, hplain⟩ := hcsFast
      exact hplain.plain
    exact ⟨hcsFast, (hburns cs hcs).burnSet (isPlainBurn_fields hplain).1⟩
  have hstart : SumsWithin {} 0 := ⟨fun a => by simp, by simp⟩
  obtain ⟨plan, hplan⟩ := planBurns_of_fast hsets hstart (by omega)
  obtain ⟨objects, hobjects, hdelta, hupdates⟩ := planBurns_ok hplan
  have hneg : (css.map deltaTotal).sum < 0 := by
    have hle : (css.map deltaTotal).sum ≤ (css.map deltaTotal).length • (-1 : Int) := by
      apply List.sum_le_card_nsmul
      intro d hd
      obtain ⟨cs, hcs, rfl⟩ := List.mem_map.mp hd
      obtain ⟨-, s, amount, fee, hburn⟩ := hsets cs hcs
      have := hburn.positive
      rw [hburn.total]
      omega
    have hpos := List.length_pos_of_ne_nil hne
    rw [List.length_map, nsmul_eq_mul] at hle
    omega
  have hsum : plan.supplyDelta = (css.map deltaTotal).sum := by
    rw [hdelta]
    exact zero_add _
  obtain ⟨htotal, hdeclined, hwritten⟩ := applyPlan_burns hsupply (by omega) (by omega : -plan.supplyDelta ≤ _)
  unfold BatchFaithful tryApplyOwnedNativeBurnBatchWithoutSupplyValidation at h
  rw [hplan, if_neg (by simpa using hne)] at h
  dsimp only at h
  generalize applyPlan σ plan = result at h htotal hdeclined hwritten
  obtain ⟨σ', outcome⟩ := result
  match outcome, h with
  | .error e, h => exact htotal (congrArg totalSupply h)
  | .ok false, h => exact hdeclined rfl
  | .ok true, h =>
    obtain ⟨σ'', hsingle, hsame⟩ := h
    obtain hnil | ⟨init, last, rfl⟩ := List.eq_nil_or_concat css
    · exact hne hnil
    rw [List.concat_eq_append] at hobjects hsingle hsets hlast
    obtain ⟨inits, object, rfl, hplanned⟩ := forall₂_concat hobjects
    obtain ⟨τ, -, hstep⟩ := foldOk_append_eq_ok.mp hsingle
    obtain ⟨σ₃, happly, hrest⟩ := foldOk_cons_eq_ok.mp hstep
    cases hrest
    obtain ⟨-, s, amount, fee, hburn⟩ := hsets last (by simp)
    have hfind : σ'.objects.find? object.id = some object := by
      have hwritten := hwritten σ' rfl
      rw [hupdates, ← List.append_assoc, List.foldl_append] at hwritten
      rw [hwritten]
      exact OrdMap.find?_insert_self _ _ _
    obtain ⟨rfl, rfl⟩ := debit_le_fee hburn hplanned hfind happly hsame
    exact hlast ⟨last, by simp, amount, hburn⟩

/-- The fast path keeps to the single applications exactly where it is left before it writes. The
exceptions are batches beyond any memory and a last burn by which the collector burns its own fee. -/
theorem burn_batch_faithful {env : EngineEnv} {σ : StateManager} {css : List ChangeSet}
    (hburns : ∀ cs ∈ css, BurnExecuted env σ cs) (hsupply : σ.totalSupply < u64Bound) :
    (BatchSpared σ css → BatchFaithful σ css) ∧
    (BatchFaithful σ css → BatchSpared σ css ∨ 2 ^ 62 ≤ css.length ∨
      ∃ cs ∈ css.getLast?, ∃ amount, BurnSet cs daoAccountAddress amount amount) :=
  ⟨batchFaithful_of_spared, batchSpared_of_faithful hburns hsupply⟩

lemma walletBurn_short_supply : okAnd (walletEnv.executeTransaction (burnWallet 100) walletBurn)
    (fun cs => decide (deltaTotal cs = -200)) = true := by
  decide +kernel

theorem burn_batch_faithful_short : ∃ cs, BurnExecuted walletEnv (burnWallet 100) cs ∧
    BatchFaithful (burnWallet 100) [cs] := by
  obtain ⟨cs, hexec, htotal⟩ := exists_of_okAnd walletBurn_short_supply
  have hburn : BurnExecuted walletEnv (burnWallet 100) cs := ⟨walletBurn, 200, walletBurn_call, hexec⟩
  have hburns : ∀ cs' ∈ [cs], BurnExecuted walletEnv (burnWallet 100) cs' := by simpa using hburn
  refine ⟨cs, hburn, (burn_batch_faithful hburns (by decide)).1 ?_⟩
  refine .inr (.inr ?_)
  rw [List.map_singleton, List.sum_singleton, of_decide_eq_true htotal]
  decide

def batchAndSingle (cs : ChangeSet) : Option (Nat × Nat) :=
  match tryApplyOwnedNativeBurnBatchWithoutSupplyValidation (burnWallet 2000) [cs],
    foldOk applyChangesetWithoutSupplyValidation (burnWallet 2000) [cs] with
  | (fast, .ok true), .ok single =>
    some (coinsOf fast GAS_COIN (.ofByte 0xa), coinsOf single GAS_COIN (.ofByte 0xa))
  | _, _ => none

lemma walletBurn_twice : okAnd (walletEnv.executeTransaction (burnWallet 2000) walletBurn)
    (fun cs => decide (batchAndSingle cs = some (500, 700))) = true := by
  decide +kernel

/-- 200 out of 1000 are burnt for a fee of 100; the batch leaves 500 instead of 700. -/
theorem burn_batch_loses_amount : ∃ cs, BurnExecuted walletEnv (burnWallet 2000) cs ∧
    batchAndSingle cs = some (500, 700) ∧ ¬BatchFaithful (burnWallet 2000) [cs] := by
  obtain ⟨cs, hexec, hboth⟩ := exists_of_okAnd walletBurn_twice
  have hboth := of_decide_eq_true hboth
  refine ⟨cs, ⟨walletBurn, 200, walletBurn_call, hexec⟩, hboth, ?_⟩
  intro hfaithful
  unfold BatchFaithful at hfaithful
  unfold batchAndSingle at hboth
  split at hboth
  case h_2 => cases hboth
  case h_1 fast single hfast hsingle =>
    rw [hfast] at hfaithful
    obtain ⟨σ'', hσ'', hsame⟩ := hfaithful
    rw [hsingle] at hσ''
    cases hσ''
    simp only [Option.some.injEq, Prod.mk.injEq] at hboth
    unfold coinsOf at hboth
    rw [hsame.objects] at hboth
    omega

end Kanari.Proofs

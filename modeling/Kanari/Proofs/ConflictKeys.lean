import Kanari.Framework
import Kanari.Transaction

/-!
# Conflict keys and the spelling of identifiers

Keys compare object identifiers as they are written, while the state finds an object under every
spelling of its identifier.
-/

namespace Kanari.Proofs

open Lib Transaction

def objectUses (tx : Transaction) : List (String × Bool) :=
  tx.objectInputs.map (fun input => (input.objectRef.objectId, input.mutable)) ++
    ((tx.gasPayment.map (·.paymentObjects)).getD []).map fun payment => (payment.objectId, true)

def declaredIds (tx : Transaction) : List String := (objectUses tx).map (·.1)

def SameObject (id id' : String) : Prop :=
  ∃ canonicalId, canonicalObjectId id = some canonicalId ∧ canonicalObjectId id' = some canonicalId

def SharesObject (tx tx' : Transaction) : Prop :=
  ∃ use ∈ objectUses tx, ∃ use' ∈ objectUses tx',
    SameObject use.1 use'.1 ∧ (use.2 = true ∨ use'.2 = true)

def KeysMeet (tx tx' : Transaction) : Prop :=
  ∃ key, tx.getConflictKeys.contains key = true ∧ tx'.getConflictKeys.contains key = true

def argAddress (arg : Bytes) : Option AccountAddress :=
  match AccountAddress.ofBytes arg with
  | some a => some a
  | none =>
    ((parseBcsString arg).or (Text.utf8Decode arg)).bind fun s =>
      let trimmed := Text.trim s
      let hex := if trimmed.take 2 = ['0', 'x'] then trimmed else '0' :: 'x' :: trimmed
      AccountAddress.fromHexLiteral (String.ofList hex)

def argumentIds (tx : Transaction) : List String :=
  match tx.kind with
  | .executeFunction call =>
    if (∀ id ∈ declaredIds tx, ∀ id' ∈ declaredIds tx, id = id') ∧ call.nativeCall.isSome then
      (call.args.filterMap argAddress).map AccountAddress.toHexLiteral
    else []
  | _ => []

def namedIds (tx : Transaction) : List String := declaredIds tx ++ argumentIds tx

def moduleNames (tx : Transaction) : List String :=
  match tx.kind with
  | .executeFunction _ => []
  | .publishModule m | .upgradeModule m => [m.moduleName]
  | .publishPackage ms | .upgradePackage ms => ms.map (·.moduleName)

/-- Some identifier, or the name of a published module, is written alike in both. -/
def NamesAlike (tx tx' : Transaction) : Prop :=
  (∃ id ∈ namedIds tx, id ∈ namedIds tx') ∨ ∃ name ∈ moduleNames tx, name ∈ moduleNames tx'

lemma argConflictKey_eq (arg : Bytes) :
    argConflictKey arg = (argAddress arg).map fun a => "object:" ++ a.toHexLiteral := by
  unfold argConflictKey argAddress
  cases AccountAddress.ofBytes arg with
  | some a => rfl
  | none => simp only [Option.map_bind, Function.comp_def]

lemma objectAccessKeys_eq (tx : Transaction) :
    tx.objectAccessKeys = (declaredIds tx).map ("object:" ++ ·) := by
  simp [objectAccessKeys, declaredIds, objectUses, Function.comp_def]

lemma text_append_injective (s : String) : Function.Injective (s ++ ·) := by
  intro a b h
  have hlist := congrArg String.toList h
  simp only [String.toList_append] at hlist
  exact String.toList_injective (List.append_cancel_left hlist)

lemma length_eq_one_of_nodup {l : List String} (hnodup : l.Nodup) (hne : l ≠ []) :
    l.length = 1 ↔ ∀ k ∈ l, ∀ k' ∈ l, k = k' := by
  match l, hne with
  | [k], _ => simp
  | k :: k' :: rest, _ =>
    have hkk' : k ≠ k' := fun h => (List.nodup_cons.mp hnodup).1 (by simp [h])
    simp only [List.length_cons, Nat.add_eq_right, Nat.add_eq_zero_iff, one_ne_zero, and_false, false_iff]
    exact fun h => hkk' (h k (by simp) k' (by simp))

def accessKeys (tx : Transaction) : OrdSet String := OrdSet.addAll .empty tx.objectAccessKeys

variable {tx : Transaction} {env : AccessEnv}

lemma mem_accessKeys {key : String} :
    key ∈ OrdSet.elems (accessKeys tx) ↔ ∃ id ∈ declaredIds tx, "object:" ++ id = key := by
  rw [OrdSet.mem_elems, accessKeys, OrdSet.contains_addAll, objectAccessKeys_eq]
  simp [OrdMap.contains]

lemma accessKeys_ne_nil (hne : declaredIds tx ≠ []) : OrdSet.elems (accessKeys tx) ≠ [] := by
  obtain ⟨id, hid⟩ := List.exists_mem_of_ne_nil _ hne
  exact List.ne_nil_of_mem (mem_accessKeys.mpr ⟨id, hid, rfl⟩)

lemma accessKeys_single (hne : declaredIds tx ≠ []) :
    (OrdSet.elems (accessKeys tx)).length = 1 ↔
      ∀ id ∈ declaredIds tx, ∀ id' ∈ declaredIds tx, id = id' := by
  rw [length_eq_one_of_nodup (OrdSet.nodup_elems _) (accessKeys_ne_nil hne)]
  constructor
  · intro h id hid id' hid'
    exact text_append_injective "object:" (h _ (mem_accessKeys.mpr ⟨id, hid, rfl⟩) _
      (mem_accessKeys.mpr ⟨id', hid', rfl⟩))
  · intro h key hkey key' hkey'
    obtain ⟨id, hid, rfl⟩ := mem_accessKeys.mp hkey
    obtain ⟨id', hid', rfl⟩ := mem_accessKeys.mp hkey'
    rw [h id hid id' hid']

lemma extraKeys_eq (hne : declaredIds tx ≠ []) :
    (match tx.kind with
      | .executeFunction call =>
        if (OrdSet.elems (accessKeys tx)).length = 1 ∧ call.nativeCall.isSome then
          call.args.filterMap argConflictKey
        else []
      | .publishModule m | .upgradeModule m => ["module:" ++ m.moduleName]
      | .publishPackage ms | .upgradePackage ms => ms.map fun m => "module:" ++ m.moduleName) =
    (argumentIds tx).map ("object:" ++ ·) ++ (moduleNames tx).map ("module:" ++ ·) := by
  unfold argumentIds moduleNames
  cases tx.kind with
  | executeFunction call =>
    simp only [accessKeys_single hne]
    split_ifs
    · have hargs : argConflictKey = fun arg => (argAddress arg).map fun a => "object:" ++ a.toHexLiteral :=
        funext argConflictKey_eq
      rw [hargs, ← List.map_filterMap]
      simp
    · rfl
  | publishModule m => rfl
  | upgradeModule m => rfl
  | publishPackage ms => simp
  | upgradePackage ms => simp

lemma contains_getConflictKeys (hne : declaredIds tx ≠ []) (key : String) :
    tx.getConflictKeys.contains key = true ↔
      (∃ id ∈ namedIds tx, "object:" ++ id = key) ∨ ∃ name ∈ moduleNames tx, "module:" ++ name = key := by
  have hentries : (accessKeys tx).entries.isEmpty = false := by
    have := accessKeys_ne_nil hne
    simpa [OrdSet.elems, OrdMap.keys] using this
  have hkeys : tx.getConflictKeys = OrdSet.addAll .empty (OrdSet.elems (accessKeys tx) ++
      ((argumentIds tx).map ("object:" ++ ·) ++ (moduleNames tx).map ("module:" ++ ·))) := by
    rw [← extraKeys_eq hne]
    unfold getConflictKeys
    rw [accessKeys] at hentries ⊢
    dsimp only
    rewrite [if_neg (Bool.eq_false_iff.mp hentries)]
    rfl
  rw [hkeys, OrdSet.contains_addAll]
  simp only [OrdMap.contains, OrdMap.find?_empty, Option.isSome_none, Bool.or_false, decide_eq_true_eq,
    List.mem_append, mem_accessKeys, List.mem_map, namedIds]
  grind

lemma object_ne_module (id name : String) : "object:" ++ id ≠ "module:" ++ name := by
  intro h
  have hlist := congrArg (fun s => s.toList.head?) h
  simp [String.toList_append] at hlist

/-- Where both declare objects, the keys meet exactly when something is written alike. -/
lemma keysMeet_iff {tx' : Transaction} (hne : declaredIds tx ≠ []) (hne' : declaredIds tx' ≠ []) :
    KeysMeet tx tx' ↔ NamesAlike tx tx' := by
  unfold KeysMeet NamesAlike
  simp only [contains_getConflictKeys hne, contains_getConflictKeys hne']
  constructor
  · rintro ⟨key, ⟨id, hid, rfl⟩ | ⟨name, hname, rfl⟩, ⟨id', hid', heq⟩ | ⟨name', hname', heq⟩⟩
    · exact .inl ⟨id, hid, text_append_injective _ heq ▸ hid'⟩
    · exact absurd heq.symm (object_ne_module id name')
    · exact absurd heq (object_ne_module id' name)
    · exact .inr ⟨name, hname, text_append_injective _ heq ▸ hname'⟩
  · rintro (⟨id, hid, hid'⟩ | ⟨name, hname, hname'⟩)
    · exact ⟨_, .inl ⟨id, hid, rfl⟩, .inl ⟨id, hid', rfl⟩⟩
    · exact ⟨_, .inr ⟨name, hname, rfl⟩, .inr ⟨name, hname', rfl⟩⟩

/-- A gas payment object is also a mutable input, under some spelling. -/
def PaysWithMutableInput (tx : Transaction) : Prop :=
  ∃ payment ∈ (tx.gasPayment.map (·.paymentObjects)).getD [],
    ∃ id ∈ mutableInputIds tx.objectInputs, SameObject payment.objectId id

def PaysAlike (tx : Transaction) : Prop :=
  ∃ payment ∈ (tx.gasPayment.map (·.paymentObjects)).getD [],
    payment.objectId ∈ mutableInputIds tx.objectInputs

def validateAccess (env : AccessEnv) (tx : Transaction) (sender : AccountAddress) : Except String Unit :=
  validateTransactionObjectAccess env tx.objectInputs tx.gasPayment sender

/-- Every declared input passes, and the gas payment would pass without inputs. -/
def DeclaredWell (env : AccessEnv) (tx : Transaction) (sender : AccountAddress) : Prop :=
  (∀ input ∈ tx.objectInputs, validateObjectInput env input = .ok ()) ∧
    ∀ payment, tx.gasPayment = some payment → validateGasPayment env [] sender payment = .ok ()

lemma validateGasPaymentObject_iff (inputs : List ObjectInput) {owner : AccountAddress}
    {payment : ObjectRef} :
    validateGasPaymentObject env inputs owner payment = .ok () ↔
      validateGasPaymentObject env [] owner payment = .ok () ∧
        payment.objectId ∉ mutableInputIds inputs := by
  unfold validateGasPaymentObject
  dsimp only
  rw [bind_eq_ok, bind_eq_ok]
  cases env.getObject payment.objectId with
  | none => simp
  | some stored => simp [bind_eq_ok, mutableInputIds, and_assoc]

lemma validateGasPayment_iff (inputs : List ObjectInput) {sender : AccountAddress}
    {payment : GasPayment} :
    validateGasPayment env inputs sender payment = .ok () ↔
      validateGasPayment env [] sender payment = .ok () ∧
        ∀ ref ∈ payment.paymentObjects, ref.objectId ∉ mutableInputIds inputs := by
  unfold validateGasPayment
  cases parseToAccountAddress env.hashPublicKey payment.owner with
  | none => simp
  | some owner =>
    simp only [bind_eq_ok, forOk_eq_ok, validateGasPaymentObject_iff inputs, forall_and]
    tauto

lemma validateAccess_iff {sender : AccountAddress} :
    validateAccess env tx sender = .ok () ↔ DeclaredWell env tx sender ∧ ¬PaysAlike tx := by
  unfold validateAccess validateTransactionObjectAccess DeclaredWell PaysAlike
  simp only [bind_eq_ok, forOk_eq_ok, exists_and_left]
  cases tx.gasPayment with
  | none => simp
  | some payment =>
    simp only [validateGasPayment_iff tx.objectInputs]
    simp [and_assoc]

/-- What is kept apart and what is rejected, in terms of how the identifiers are written. -/
theorem conflict_keys_by_spelling (env : AccessEnv) (tx tx' : Transaction) (sender : AccountAddress) :
    ((SharesObject tx tx' → KeysMeet tx tx') ∧
      (PaysWithMutableInput tx → validateAccess env tx sender ≠ .ok ())) ↔
    (SharesObject tx tx' → NamesAlike tx tx') ∧
      (PaysWithMutableInput tx → PaysAlike tx ∨ ¬DeclaredWell env tx sender) := by
  have hkeys : SharesObject tx tx' → (KeysMeet tx tx' ↔ NamesAlike tx tx') := by
    rintro ⟨use, huse, use', huse', -⟩
    exact keysMeet_iff (List.ne_nil_of_mem (List.mem_map_of_mem huse))
      (List.ne_nil_of_mem (List.mem_map_of_mem huse'))
  have haccess : validateAccess env tx sender ≠ .ok () ↔ PaysAlike tx ∨ ¬DeclaredWell env tx sender := by
    rw [Ne, validateAccess_iff]
    tauto
  rw [haccess]
  exact and_congr_left fun _ => forall_congr' hkeys

def spelledCoin : StoredObject := Framework.coinObject (.ofByte 0x2a) (.ofByte 0xa1) GAS_COIN 5

def spelledRef (id : String) : ObjectRef :=
  ⟨id, some spelledCoin.version, some ((Framework.accessEnvOf [spelledCoin]).digest spelledCoin)⟩

def spelledCall (id : String) (payments : List String) : Transaction where
  header :=
    { sender := "0xa1"
      gasPayment := some ⟨payments.map spelledRef, "0xa1", 1000, 1⟩
      gasLimit := 1000
      gasPrice := 1
      nonce := 0 }
  kind := .executeFunction ⟨"0x2::pay", "keep", [], [], [⟨spelledRef id, some spelledCoin.ownerKind, true⟩]⟩

/-- Two calls that take one coin as a mutable input share no key, and a call passes the validation
although it pays with the coin that it takes as a mutable input. -/
theorem conflict_keys_miss_spelling :
    (SharesObject (spelledCall "0x2a" []) (spelledCall "0x02a" []) ∧
      ¬KeysMeet (spelledCall "0x2a" []) (spelledCall "0x02a" [])) ∧
    PaysWithMutableInput (spelledCall "0x2a" ["0x02a"]) ∧
      validateAccess (Framework.accessEnvOf [spelledCoin]) (spelledCall "0x2a" ["0x02a"]) (.ofByte 0xa1) =
        .ok () := by
  have hsame : SameObject "0x2a" "0x02a" := ⟨"0x2a", by decide +kernel, by decide +kernel⟩
  have hsame' : SameObject "0x02a" "0x2a" := ⟨"0x2a", by decide +kernel, by decide +kernel⟩
  refine ⟨⟨⟨("0x2a", true), ?_, ("0x02a", true), ?_, hsame, .inl rfl⟩, ?_⟩, ?_, ?_⟩
  · simp [objectUses, spelledCall, spelledRef, Transaction.objectInputs]
  · simp [objectUses, spelledCall, spelledRef, Transaction.objectInputs]
  · rw [keysMeet_iff (by decide +kernel) (by decide +kernel), NamesAlike]
    decide +kernel
  · exact ⟨spelledRef "0x02a", by simp [Transaction.gasPayment, spelledCall], "0x2a",
      by simp [mutableInputIds, Transaction.objectInputs, spelledCall, spelledRef], hsame'⟩
  · decide +kernel

end Kanari.Proofs

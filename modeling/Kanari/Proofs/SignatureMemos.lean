import Kanari.Lib.Runs
import Kanari.Proofs.CheckpointAtomicity
import Kanari.SignatureMemo

/-!
# When the memo of a signature can be trusted

Verifying keeps memos sound, and so does every edit of the fields; signing writes a memo without
looking whose key it was given.
-/

namespace Kanari.Proofs

open Lib MemoizedTransaction
open ZkLogin (CurveType)

variable (env : SignatureEnv)

def SignatureValid (v : MemoizedTransaction) : Prop :=
  env.verifySignature v.transaction.header.sender (env.hash v.transaction) v.signature = .ok true

def MemoSound (v : MemoizedTransaction) : Prop :=
  ∀ memo, v.cachedVerifiedSignature = some memo → ∀ tx : Transaction, env.hash tx = memo.1 →
    env.verifySignature tx.header.sender memo.1 memo.2 = .ok true

/-- `belongs key curve sender`: the private key is the sender's. A first signature is made with a
key of the sender whose transaction is hashed. -/
def SignsWithOwnKey (belongs : String → CurveType → String → Prop) (pool : List MemoizedTransaction) :
    Use → Prop
  | .sign i privateKey curveType _ => ∀ v, pool[i]? = some v → v.cachedVerifiedSignature = none →
      ∀ tx : Transaction, env.hash tx = (v.transactionHash env).1 →
        belongs privateKey curveType tx.header.sender
  | _ => True

/-- An ideal scheme: a signature by a key of the sender is valid, and a hash is of transactions of
one sender. -/
structure IdealScheme (belongs : String → CurveType → String → Prop) : Prop where
  signed : ∀ {privateKey message curveType randomness signature sender},
    env.signMessage privateKey message curveType randomness = .ok signature →
    belongs privateKey curveType sender → env.verifySignature sender message signature = .ok true
  sender : ∀ {tx tx'}, env.hash tx = env.hash tx' → tx.header.sender = tx'.header.sender

/-- The values a program can come to hold, if it signs with matching keys. -/
def HoldsValues (belongs : String → CurveType → String → Prop) :
    List Use → List MemoizedTransaction → Prop :=
  Run (fun _ pool use pool' => SignsWithOwnKey env belongs pool use ∧ pool' = use.run env pool) []

variable {env} {belongs : String → CurveType → String → Prop} {v : MemoizedTransaction}

lemma valid_of_memoMatches (hv : MemoSound env v) (h : v.memoMatches env = true) :
    SignatureValid env v := by
  unfold memoMatches at h
  cases hmemo : v.cachedVerifiedSignature with
  | none => simp [hmemo] at h
  | some memo =>
    simp only [hmemo, Option.any_some, Bool.and_eq_true, beq_iff_eq] at h
    obtain ⟨hhash, hsig⟩ := h
    have := hv memo hmemo v.transaction hhash.symm
    rw [hhash, hsig] at this
    exact this

lemma valid_of_verifySignatureForHash (hv : MemoSound env v) {txHash : Bytes}
    (h : (v.verifySignatureForHash env txHash).1 = .ok true) : SignatureValid env v := by
  unfold verifySignatureForHash at h
  split_ifs at h with hempty hother hmemo
  · cases h
  · exact valid_of_memoMatches hv hmemo
  · rw [not_not] at hother
    subst hother
    split at h
    · cases h
    · cases h
    · assumption

lemma memoSound_of_memo_eq {v' : MemoizedTransaction} (hv : MemoSound env v)
    (h : v'.cachedVerifiedSignature = v.cachedVerifiedSignature) : MemoSound env v' := by
  unfold MemoSound
  rw [h]
  exact hv

lemma memoSound_transactionHash (hv : MemoSound env v) : MemoSound env (v.transactionHash env).2 :=
  memoSound_of_memo_eq hv rfl

lemma valid_of_verifySignature (hv : MemoSound env v)
    (h : (v.verifySignature env).1 = .ok true) : SignatureValid env v :=
  valid_of_verifySignatureForHash (v := (v.transactionHash env).2) (memoSound_transactionHash hv) h

lemma valid_of_verifiedTransactionHash (hv : MemoSound env v) {txHash : Bytes}
    (h : (v.verifiedTransactionHash env).1 = .ok txHash) :
    SignatureValid env v ∧ txHash = env.hash v.transaction := by
  unfold verifiedTransactionHash at h
  split_ifs at h with hempty hmemo
  · cases h
    exact ⟨valid_of_memoMatches hv hmemo, rfl⟩
  · split at h
    · cases h
    · cases h
    · cases h
      exact ⟨by assumption, rfl⟩

lemma valid_of_intoVerified (hv : MemoSound env v) {w : VerifiedSignedTransaction}
    (h : v.intoVerified env = .ok w) : SignatureValid env v ∧ w.txHash = env.hash v.transaction := by
  unfold intoVerified at h
  split at h
  · rename_i txHash v' hverified
    cases h
    exact valid_of_verifiedTransactionHash hv (congrArg Prod.fst hverified)
  · cases h

lemma setOnce_eq_some {α : Type} {cell : Option α} {a b : α} (h : setOnce cell a = some b) :
    cell = some b ∨ (cell = none ∧ a = b) := by
  cases cell with
  | none => exact .inr ⟨rfl, Option.some.inj h⟩
  | some c => exact .inl h

lemma memoSound_remember (hideal : IdealScheme env belongs) (hv : MemoSound env v)
    (hvalid : SignatureValid env v) : MemoSound env (v.remember env) := by
  intro memo hmemo tx hhash
  rcases setOnce_eq_some hmemo with hold | ⟨_, rfl⟩
  · exact hv memo hold tx hhash
  · rw [hideal.sender hhash]
    exact hvalid

lemma memoSound_verifySignatureForHash (hideal : IdealScheme env belongs) (hv : MemoSound env v)
    (txHash : Bytes) : MemoSound env (v.verifySignatureForHash env txHash).2 := by
  unfold verifySignatureForHash
  split_ifs with hempty hother hmemo
  · exact hv
  · exact hv
  · exact hv
  · rw [not_not] at hother
    subst hother
    split
    · exact hv
    · exact hv
    · exact memoSound_remember hideal hv (by assumption)

lemma memoSound_verifiedTransactionHash (hideal : IdealScheme env belongs) (hv : MemoSound env v) :
    MemoSound env (v.verifiedTransactionHash env).2 := by
  unfold verifiedTransactionHash
  split_ifs
  · exact hv
  · exact hv
  · split
    · exact hv
    · exact hv
    · exact memoSound_remember hideal hv (by assumption)

/-- Signing keeps the memo sound where a first signature is made with the sender's own key. -/
lemma memoSound_sign (hideal : IdealScheme env belongs) (hv : MemoSound env v) {privateKey : String}
    {curveType : CurveType} (randomness : Nat)
    (hown : v.cachedVerifiedSignature = none → ∀ tx : Transaction,
      env.hash tx = (v.transactionHash env).1 → belongs privateKey curveType tx.header.sender) :
    MemoSound env (v.sign env privateKey curveType randomness).2 := by
  unfold sign
  dsimp only
  split
  · exact memoSound_transactionHash hv
  · rename_i signature hsigned
    intro memo hmemo tx hhash
    rcases setOnce_eq_some hmemo with hold | ⟨hnone, rfl⟩
    · exact hv memo hold tx hhash
    · exact hideal.signed hsigned (hown hnone tx hhash)

lemma forall_mem_modify {α : Type} {p : α → Prop} {l : List α} {i : Nat} {f : α → α}
    (h : ∀ a ∈ l, p a) (hf : ∀ a, l[i]? = some a → p (f a)) : ∀ a ∈ l.modify i f, p a := by
  intro a ha
  obtain ⟨j, hj⟩ := List.mem_iff_getElem?.mp ha
  rw [List.getElem?_modify] at hj
  obtain ⟨b, hb, rfl⟩ := Option.map_eq_some_iff.mp hj
  split_ifs with heq
  · subst heq
    exact hf b hb
  · exact h b (List.mem_of_getElem? hb)

lemma memoSound_run (hideal : IdealScheme env belongs) {pool : List MemoizedTransaction} {use : Use}
    (hpool : ∀ v ∈ pool, MemoSound env v) (hown : SignsWithOwnKey env belongs pool use) :
    ∀ v ∈ use.run env pool, MemoSound env v := by
  have hat : ∀ {i v}, pool[i]? = some v → MemoSound env v :=
    fun hi => hpool _ (List.mem_of_getElem? hi)
  have hfresh : ∀ v : MemoizedTransaction, v.cachedVerifiedSignature = none → MemoSound env v :=
    fun v hnone memo hmemo => nomatch hnone.symm.trans hmemo
  cases use with
  | new transaction =>
    refine List.forall_mem_append.mpr ⟨hpool, List.forall_mem_singleton.mpr (hfresh _ rfl)⟩
  | decode tx =>
    refine List.forall_mem_append.mpr ⟨hpool, List.forall_mem_singleton.mpr (hfresh _ rfl)⟩
  | clone i =>
    refine List.forall_mem_append.mpr ⟨hpool, fun v hv => hat (i := i) ?_⟩
    simpa using hv
  | setTransaction i transaction =>
    exact forall_mem_modify hpool fun v hv => memoSound_of_memo_eq (hat hv) rfl
  | setSignature i signature =>
    exact forall_mem_modify hpool fun v hv => memoSound_of_memo_eq (hat hv) rfl
  | transactionHash i =>
    exact forall_mem_modify hpool fun v hv => memoSound_transactionHash (hat hv)
  | sign i privateKey curveType randomness =>
    exact forall_mem_modify hpool fun v hv => memoSound_sign hideal (hat hv) randomness (hown v hv)
  | verifySignature i =>
    exact forall_mem_modify hpool fun v hv =>
      memoSound_verifySignatureForHash hideal (memoSound_transactionHash (hat hv)) _
  | verifySignatureForHash i txHash =>
    exact forall_mem_modify hpool fun v hv => memoSound_verifySignatureForHash hideal (hat hv) txHash
  | verifiedTransactionHash i =>
    exact forall_mem_modify hpool fun v hv => memoSound_verifiedTransactionHash hideal (hat hv)
  | intoVerified i =>
    exact forall_mem_modify hpool fun v hv => memoSound_verifiedTransactionHash hideal (hat hv)

lemma HoldsValues.memoSound (hideal : IdealScheme env belongs) {uses : List Use}
    {pool : List MemoizedTransaction} (hrun : HoldsValues env belongs uses pool) :
    ∀ v ∈ pool, MemoSound env v := by
  induction hrun with
  | start => exact fun v hv => absurd hv List.not_mem_nil
  | step _ hstep ih =>
    obtain ⟨hown, rfl⟩ := hstep
    exact memoSound_run hideal ih hown

/-- A program that makes first signatures with matching keys: whatever else it does with its signed
transactions, each of the verifying functions succeeds only on a valid signature. -/
theorem signature_memo_sound (hideal : IdealScheme env belongs) {uses : List Use}
    {pool : List MemoizedTransaction} (hrun : HoldsValues env belongs uses pool) :
    ∀ v ∈ pool,
      ((v.verifySignature env).1 = .ok true → SignatureValid env v) ∧
      (∀ txHash, (v.verifySignatureForHash env txHash).1 = .ok true → SignatureValid env v) ∧
      (∀ txHash, (v.verifiedTransactionHash env).1 = .ok txHash →
        SignatureValid env v ∧ txHash = env.hash v.transaction) ∧
      (∀ w, v.intoVerified env = .ok w →
        SignatureValid env v ∧ w.txHash = env.hash v.transaction) := by
  intro v hv
  have hsound := hrun.memoSound hideal v hv
  exact ⟨valid_of_verifySignature hsound, fun _ => valid_of_verifySignatureForHash hsound,
    fun _ => valid_of_verifiedTransactionHash hsound, fun _ => valid_of_intoVerified hsound⟩

/-! An ideal scheme in which a key is named like its owner. -/

def namedKeys : SignatureEnv where
  hash tx := ZkLogin.asBytes tx.header.sender
  signMessage privateKey message _ _ := .ok (ZkLogin.asBytes privateKey ++ message)
  verifySignature sender message signature :=
    .ok (signature == ZkLogin.asBytes sender ++ message)

lemma namedKeys_ideal : IdealScheme namedKeys fun key _ sender => key = sender where
  signed := by
    rintro key message curve randomness signature sender hsigned rfl
    cases hsigned
    simp [namedKeys]
  sender := fun h => ZkLogin.asBytes_injective h

def aliceTx : Transaction :=
  ⟨⟨"alice", none, 0, 0, 0⟩, .publishModule ⟨"m", []⟩⟩

def signedBy (key : String) : List MemoizedTransaction :=
  Use.run namedKeys [MemoizedTransaction.new aliceTx] (.sign 0 key .ed25519 0)

theorem signature_memo_sound_own_key :
    ∃ v ∈ signedBy "alice", (v.verifySignature namedKeys).1 = .ok true ∧
      SignatureValid namedKeys v := by
  have hrun : HoldsValues namedKeys (fun key _ sender => key = sender)
      [.new aliceTx, .sign 0 "alice" .ed25519 0] (signedBy "alice") := by
    have hnew : HoldsValues namedKeys (fun key _ sender => key = sender) [.new aliceTx]
        [MemoizedTransaction.new aliceTx] := Run.step Run.start ⟨trivial, rfl⟩
    refine Run.step hnew ⟨?_, rfl⟩
    rintro v hv _ tx hhash
    obtain rfl : MemoizedTransaction.new aliceTx = v := Option.some.inj hv
    exact (ZkLogin.asBytes_injective hhash).symm
  refine ⟨_, List.mem_singleton_self _, by decide +kernel, ?_⟩
  exact (signature_memo_sound namedKeys_ideal hrun _ (List.mem_singleton_self _)).1
    (by decide +kernel)

/-- Signed with somebody else's key, the transaction counts as verified. -/
theorem signature_memo_foreign_key :
    ∃ v ∈ signedBy "mallory", (v.verifySignature namedKeys).1 = .ok true ∧
      ¬SignatureValid namedKeys v := by
  refine ⟨_, List.mem_singleton_self _, by decide +kernel, ?_⟩
  unfold SignatureValid
  decide +kernel

/-- The functions that admission uses. -/
def ofAdmission (env : AdmissionEnv)
    (signMessage : String → Bytes → CurveType → Nat → Except String Bytes) : SignatureEnv :=
  ⟨env.txHash, signMessage, env.verifySignature⟩

/-- Where first signatures are made with matching keys, admission finds what it would find without
memos, and fails with the same message. -/
theorem memoised_admission {env : AdmissionEnv}
    {signMessage : String → Bytes → CurveType → Nat → Except String Bytes}
    (hideal : IdealScheme (ofAdmission env signMessage) belongs) {uses : List Use}
    {pool : List MemoizedTransaction} (hrun : HoldsValues (ofAdmission env signMessage) belongs uses pool) :
    ∀ v ∈ pool, (v.verifiedTransactionHash (ofAdmission env signMessage)).1 =
      env.verifiedTransactionHash ⟨v.transaction, v.signature⟩ := by
  intro v hv
  have hmemo : v.memoMatches (ofAdmission env signMessage) = true →
      env.verifySignature v.transaction.header.sender (env.txHash v.transaction) v.signature = .ok true :=
    valid_of_memoMatches (hrun.memoSound hideal v hv)
  unfold MemoizedTransaction.verifiedTransactionHash AdmissionEnv.verifiedTransactionHash
    HashEnv.transactionHash
  split_ifs with hempty hmatches
  · rw [hempty]
    rfl
  · rw [hmemo hmatches, eq_false_of_ne_true hempty]
    rfl
  · dsimp only [ofAdmission]
    rw [eq_false_of_ne_true hempty]
    rcases env.verifySignature v.transaction.header.sender (env.txHash v.transaction) v.signature with e | _ | _ <;>
      rfl

/-! An admission in which a key is named like its owner. -/

def namedAdmission : AdmissionEnv :=
  { plainEnv with
    txHash := fun tx => ZkLogin.asBytes tx.header.sender
    verifyWithCurve := fun tag address message signature =>
      .ok (signature == ZkLogin.asBytes (String.ofList (tag ++ ':' :: address)) ++ message) }

def namedScheme : SignatureEnv :=
  ofAdmission namedAdmission fun privateKey message _ _ =>
    let signature := ZkLogin.asBytes privateKey ++ message
    if namedAdmission.verifySignature privateKey message signature = .ok true then .ok signature
    else .error "unusable key"

lemma namedScheme_ideal : IdealScheme namedScheme fun key _ sender => key = sender where
  signed := by
    rintro key message curve randomness signature sender hsigned rfl
    simp only [namedScheme, ofAdmission] at hsigned
    split_ifs at hsigned with hverified
    cases hsigned
    exact hverified
  sender := fun h => ZkLogin.asBytes_injective h

def taggedTx : Transaction := { aliceTx with header.sender := "K256:alice" }

/-- The verification right after signing is the one with a memo. -/
theorem memoised_admission_signed :
    ∃ v, HoldsValues namedScheme (fun key _ sender => key = sender)
        [.new taggedTx, .sign 0 "K256:alice" .k256 0] [v] ∧
      v.memoMatches namedScheme = true ∧
      (v.verifiedTransactionHash namedScheme).1 = namedAdmission.verifiedTransactionHash ⟨v.transaction, v.signature⟩ := by
  have hnew : HoldsValues namedScheme (fun key _ sender => key = sender) [.new taggedTx]
      [MemoizedTransaction.new taggedTx] := Run.step Run.start ⟨trivial, rfl⟩
  have hrun : HoldsValues namedScheme (fun key _ sender => key = sender)
      [.new taggedTx, .sign 0 "K256:alice" .k256 0]
      [((MemoizedTransaction.new taggedTx).sign namedScheme "K256:alice" .k256 0).2] := by
    refine Run.step hnew ⟨?_, rfl⟩
    rintro v hv _ tx hhash
    obtain rfl : MemoizedTransaction.new taggedTx = v := Option.some.inj hv
    exact (ZkLogin.asBytes_injective hhash).symm
  exact ⟨_, hrun, by decide +kernel, memoised_admission namedScheme_ideal hrun _ (List.mem_singleton_self _)⟩

end Kanari.Proofs

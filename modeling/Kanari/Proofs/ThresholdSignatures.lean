import Kanari.SignatureMultisig
import Mathlib.Data.Finset.Card
import Mathlib.Data.Finset.Range

/-!
# Threshold signatures

Each threshold check succeeds exactly when the key list is a committee with distinct keys, the
threshold is in range and enough positions carry a valid signature.
-/

namespace Kanari.Proofs

open Lib Move Move.SignatureMultisig

variable {i rounds : Nat}

lemma assertKeyFresh_eq_ok {keys : List Bytes} {j : Nat} (hi : i < keys.length)
    (hj : j + rounds = keys.length) :
    assertKeyFresh keys i rounds j = .ok () ↔ ∀ key ∈ keys.drop j, keys[i] ≠ key := by
  induction rounds generalizing j with
  | zero => simp [assertKeyFresh, List.drop_of_length_le (show keys.length ≤ j by omega)]
  | succ rounds ih =>
    have hlt : j < keys.length := by omega
    rw [assertKeyFresh, borrow_of_lt hi, ok_bind, borrow_of_lt hlt, ok_bind]
    rw [check_bind_eq_ok, ensure_eq_ok, bne_iff_ne, ih (by omega), List.drop_eq_getElem_cons hlt, List.forall_mem_cons]

lemma assertKeysFresh_eq_ok {keys : List Bytes} (h : i + rounds = keys.length) :
    assertKeysFresh keys rounds i = .ok () ↔ (keys.drop i).Nodup := by
  induction rounds generalizing i with
  | zero => simp [assertKeysFresh, List.drop_of_length_le (show keys.length ≤ i by omega)]
  | succ rounds ih =>
    have hlt : i < keys.length := by omega
    rw [assertKeysFresh, check_bind_eq_ok, assertKeyFresh_eq_ok hlt (by omega), ih (by omega),
      List.drop_eq_getElem_cons hlt, List.nodup_cons]
    exact and_congr_left' List.forall_mem_ne

lemma assertNoDuplicateKeys_eq_ok {keys : List Bytes} :
    assertNoDuplicateKeys keys = .ok () ↔ keys.Nodup :=
  assertKeysFresh_eq_ok (Nat.zero_add _)

lemma countLoop_eq_ok {check : Nat → Except Abort Bool} {count total : Nat} :
    countLoop check rounds i count = .ok total ↔
      (∀ j, i ≤ j → j < i + rounds → ∃ ok, check j = .ok ok) ∧
        total = count + ((List.range' i rounds).countP fun j => check j = .ok true) := by
  induction rounds generalizing i count with
  | zero =>
    simp only [countLoop, Except.ok.injEq, List.range'_zero, List.countP_nil, Nat.add_zero]
    constructor
    · rintro rfl
      exact ⟨fun j _ _ => by omega, rfl⟩
    · rintro ⟨-, rfl⟩
      rfl
  | succ rounds ih =>
    simp only [countLoop, bind_eq_ok, ih, List.range'_succ, List.countP_cons]
    constructor
    · rintro ⟨ok, hok, hrest, rfl⟩
      refine ⟨fun j hle hlt => ?_, ?_⟩
      · rcases hle.eq_or_lt with rfl | hlt'
        · exact ⟨ok, hok⟩
        · exact hrest j hlt' (by omega)
      · cases ok
        · simp [hok]
        · simp only [hok, if_true, decide_true]
          omega
    · rintro ⟨hall, rfl⟩
      obtain ⟨ok, hok⟩ := hall i le_rfl (by omega)
      refine ⟨ok, hok, fun j hle hlt => hall j (by omega) (by omega), ?_⟩
      cases ok
      · simp [hok]
      · simp only [hok, if_true, decide_true]
        omega

lemma card_filter_range (p : Nat → Bool) (n : Nat) :
    ((Finset.range n).filter fun i => p i = true).card = (List.range' 0 n).countP p := by
  rw [← List.range_eq_range', List.countP_eq_length_filter, Finset.card_def, Finset.filter_val,
    Finset.range_val, Multiset.range, Multiset.filter_coe, Multiset.coe_card]
  simp

lemma le_countP_iff {p : Nat → Bool} {n threshold : Nat} :
    threshold ≤ (List.range' 0 n).countP p ↔
      ∃ positions : Finset Nat, threshold ≤ positions.card ∧ ∀ i ∈ positions, i < n ∧ p i = true := by
  rw [← card_filter_range]
  constructor
  · intro h
    refine ⟨_, h, fun i hi => ?_⟩
    simpa using hi
  · rintro ⟨positions, hcard, hpositions⟩
    refine hcard.trans (Finset.card_le_card fun i hi => ?_)
    simpa using hpositions i hi

def ValidAt (verify : Bytes → Bytes → Bool) (keys signatures : List Bytes) (i : Nat) : Prop :=
  ∃ signature key, signatures[i]? = some signature ∧ keys[i]? = some key ∧
    verify signature key = true

/-- A committee with distinct keys, of which at least `threshold` positions are valid. -/
structure ThresholdMet (keys signatures : List Bytes) (threshold : Nat) (valid : Nat → Prop) :
    Prop where
  length_eq : keys.length = signatures.length
  nodup : keys.Nodup
  pos : 1 ≤ threshold
  le : threshold ≤ keys.length
  met : ∃ positions : Finset Nat, threshold ≤ positions.card ∧
    ∀ i ∈ positions, i < keys.length ∧ valid i

inductive Scheme
  | ed25519
  | ecdsaK1
  | ecdsaR1

def Scheme.selector : Scheme → UInt8
  | .ed25519 => SCHEME_ED25519
  | .ecdsaK1 => SCHEME_ECDSA_K1
  | .ecdsaR1 => SCHEME_ECDSA_R1

def Scheme.verify (V : Verifiers) (msg : Bytes) (hash : UInt8) : Scheme → Bytes → Bytes → Bool
  | .ed25519 => fun signature key => V.ed25519 signature key msg
  | .ecdsaK1 => fun signature key => V.ecdsaK1 signature key msg hash
  | .ecdsaR1 => fun signature key => V.ecdsaR1 signature key msg

def verifyThresholdOf (V : Verifiers) (scheme : Scheme) (keys signatures : List Bytes)
    (msg : Bytes) (hash : UInt8) (threshold : Nat) : Except Abort Unit :=
  match scheme with
  | .ed25519 => verifyThresholdEd25519 V keys signatures msg threshold
  | .ecdsaK1 => verifyThresholdEcdsaK1 V keys signatures msg hash threshold
  | .ecdsaR1 => verifyThresholdEcdsaR1 V keys signatures msg threshold

lemma verifyThresholdOf_eq (V : Verifiers) (scheme : Scheme) (keys signatures : List Bytes)
    (msg : Bytes) (hash : UInt8) (threshold : Nat) :
    verifyThresholdOf V scheme keys signatures msg hash threshold =
      verifyThreshold (countValid (scheme.verify V msg hash) keys signatures) keys threshold := by
  cases scheme <;> rfl

section Checks

variable {V : Verifiers} {keys signatures : List Bytes} {msg : Bytes} {hash : UInt8}
  {threshold : Nat}

lemma checkAt_ok_of_lt {verify : Bytes → Bytes → Bool} (hlen : keys.length = signatures.length)
    (hi : i < keys.length) : ∃ ok, checkAt verify keys signatures i = .ok ok := by
  rw [checkAt, borrow_of_lt (hlen ▸ hi), ok_bind, borrow_of_lt hi]
  exact ⟨_, rfl⟩

lemma checkAt_true_iff {verify : Bytes → Bytes → Bool} :
    checkAt verify keys signatures i = .ok true ↔ ValidAt verify keys signatures i := by
  simp only [checkAt, bind_eq_ok, borrow_eq_ok, Except.ok.injEq, ValidAt]
  exact exists_congr fun signature => ⟨fun ⟨hs, key, hk, hv⟩ => ⟨key, hs, hk, hv⟩,
    fun ⟨key, hs, hk, hv⟩ => ⟨hs, key, hk, hv⟩⟩

lemma assertValidThreshold_eq_ok {n : Nat} :
    assertValidThreshold threshold n = .ok () ↔ 1 ≤ threshold ∧ threshold ≤ n := by
  simp [assertValidThreshold, Nat.succ_le_iff]

lemma le_valid_iff (check : Nat → Except Abort Bool) (valid : Nat → Prop) (n threshold : Nat)
    (h : ∀ i, i < n → (check i = .ok true ↔ valid i)) :
    threshold ≤ (List.range' 0 n).countP (fun j => check j = .ok true) ↔
      ∃ positions : Finset Nat, threshold ≤ positions.card ∧
        ∀ i ∈ positions, i < n ∧ valid i := by
  rw [le_countP_iff]
  refine exists_congr fun positions => and_congr_right fun _ => forall₂_congr fun i _ => ?_
  exact and_congr_right fun hi => by rw [decide_eq_true_eq, h i hi]

lemma verifyThreshold_countValid {verify : Bytes → Bytes → Bool} :
    verifyThreshold (countValid verify keys signatures) keys threshold = .ok () ↔
      ThresholdMet keys signatures threshold (ValidAt verify keys signatures) := by
  have hmet := le_valid_iff (checkAt verify keys signatures) (ValidAt verify keys signatures)
    keys.length threshold fun _ _ => checkAt_true_iff
  rw [verifyThreshold, check_bind_eq_ok, assertValidThreshold_eq_ok, bind_eq_ok]
  simp only [countValid, check_bind_eq_ok, ensure_eq_ok, beq_iff_eq, assertNoDuplicateKeys_eq_ok,
    countLoop_eq_ok, decide_eq_true_eq]
  constructor
  · rintro ⟨⟨hpos, hle⟩, total, ⟨hlen, hnodup, -, rfl⟩, hcount⟩
    exact ⟨hlen, hnodup, hpos, hle, hmet.1 (by simpa using hcount)⟩
  · intro h
    refine ⟨⟨h.pos, h.le⟩, _, ⟨h.length_eq, h.nodup, fun j _ hj => ?_, rfl⟩, ?_⟩
    · exact checkAt_ok_of_lt h.length_eq (by omega)
    · simpa using hmet.2 h.met

lemma selector_cases (s : UInt8) :
    (∃ scheme : Scheme, s = scheme.selector) ∨
      (s ≠ SCHEME_ED25519 ∧ s ≠ SCHEME_ECDSA_K1 ∧ s ≠ SCHEME_ECDSA_R1) := by
  by_cases h₀ : s = SCHEME_ED25519
  · exact .inl ⟨.ed25519, h₀⟩
  · by_cases h₁ : s = SCHEME_ECDSA_K1
    · exact .inl ⟨.ecdsaK1, h₁⟩
    · by_cases h₂ : s = SCHEME_ECDSA_R1
      · exact .inl ⟨.ecdsaR1, h₂⟩
      · exact .inr ⟨h₀, h₁, h₂⟩

lemma selector_injective {s t : Scheme} (h : s.selector = t.selector) : s = t := by
  cases s <;> cases t <;> first | rfl | exact absurd h (by decide)

variable {schemes : List UInt8}

lemma checkMixedAt_of_selector {scheme : Scheme} (h : schemes[i]? = some scheme.selector) :
    checkMixedAt V schemes keys signatures msg hash i =
      checkAt (scheme.verify V msg hash) keys signatures i := by
  rw [checkMixedAt, borrow_eq_ok.2 h, ok_bind]
  cases scheme <;> rfl

lemma checkMixedAt_known {ok : Bool}
    (h : checkMixedAt V schemes keys signatures msg hash i = .ok ok) :
    ∃ scheme : Scheme, schemes[i]? = some scheme.selector := by
  simp only [checkMixedAt, bind_eq_ok, borrow_eq_ok] at h
  obtain ⟨s, hs, h⟩ := h
  rcases selector_cases s with ⟨scheme, rfl⟩ | ⟨h₀, h₁, h₂⟩
  · exact ⟨scheme, hs⟩
  · rw [if_neg h₀, if_neg h₁, if_neg h₂] at h
    cases h

def MixedValidAt (V : Verifiers) (schemes : List UInt8) (keys signatures : List Bytes) (msg : Bytes)
    (hash : UInt8) (i : Nat) : Prop :=
  ∃ scheme : Scheme, schemes[i]? = some scheme.selector ∧
    ValidAt (scheme.verify V msg hash) keys signatures i

lemma checkMixedAt_true_iff :
    checkMixedAt V schemes keys signatures msg hash i = .ok true ↔
      MixedValidAt V schemes keys signatures msg hash i := by
  constructor
  · intro h
    obtain ⟨scheme, hs⟩ := checkMixedAt_known h
    exact ⟨scheme, hs, checkAt_true_iff.1 (checkMixedAt_of_selector hs ▸ h)⟩
  · rintro ⟨scheme, hs, hvalid⟩
    rw [checkMixedAt_of_selector hs]
    exact checkAt_true_iff.2 hvalid

lemma verifyThresholdMixed_eq_ok :
    verifyThresholdMixed V schemes keys signatures msg hash threshold = .ok () ↔
      schemes.length = keys.length ∧ (∀ s ∈ schemes, ∃ scheme : Scheme, s = scheme.selector) ∧
        ThresholdMet keys signatures threshold
          (MixedValidAt V schemes keys signatures msg hash) := by
  have hmet := le_valid_iff (checkMixedAt V schemes keys signatures msg hash)
    (MixedValidAt V schemes keys signatures msg hash) keys.length threshold
    fun _ _ => checkMixedAt_true_iff
  simp only [verifyThresholdMixed, check_bind_eq_ok, ensure_eq_ok, beq_iff_eq,
    assertNoDuplicateKeys_eq_ok, assertValidThreshold_eq_ok]
  simp only [bind_eq_ok, countLoop_eq_ok, ensure_eq_ok, decide_eq_true_eq]
  constructor
  · rintro ⟨hlen, hschemes, hnodup, ⟨hpos, hle⟩, total, ⟨hall, rfl⟩, hcount⟩
    refine ⟨hschemes.symm, fun s hs => ?_, ⟨hlen, hnodup, hpos, hle, hmet.1 (by simpa using hcount)⟩⟩
    obtain ⟨i, hi, rfl⟩ := List.mem_iff_getElem.1 hs
    obtain ⟨ok, hok⟩ := hall i (Nat.zero_le i) (by omega)
    obtain ⟨scheme, hscheme⟩ := checkMixedAt_known hok
    rw [List.getElem?_eq_getElem hi, Option.some.injEq] at hscheme
    exact ⟨scheme, hscheme⟩
  · rintro ⟨hschemes, hknown, h⟩
    refine ⟨h.length_eq, hschemes.symm, h.nodup, ⟨h.pos, h.le⟩, _, ⟨fun j _ hj => ?_, rfl⟩, ?_⟩
    · have hj' : j < schemes.length := by omega
      obtain ⟨scheme, hscheme⟩ := hknown _ (List.getElem_mem hj')
      rw [checkMixedAt_of_selector ((List.getElem?_eq_getElem hj').trans (congrArg some hscheme))]
      exact checkAt_ok_of_lt h.length_eq (by omega)
    · simpa using hmet.2 h.met

lemma ThresholdMet.congr {valid valid' : Nat → Prop} (h : ∀ i, i < keys.length → (valid i ↔ valid' i)) :
    ThresholdMet keys signatures threshold valid ↔ ThresholdMet keys signatures threshold valid' := by
  constructor
  · intro m
    obtain ⟨positions, hcard, hvalid⟩ := m.met
    exact { m with met := ⟨positions, hcard, fun i hi =>
      ⟨(hvalid i hi).1, (h i (hvalid i hi).1).1 (hvalid i hi).2⟩⟩ }
  · intro m
    obtain ⟨positions, hcard, hvalid⟩ := m.met
    exact { m with met := ⟨positions, hcard, fun i hi =>
      ⟨(hvalid i hi).1, (h i (hvalid i hi).1).2 (hvalid i hi).2⟩⟩ }

/-- With one scheme at every position the mixed check is the check for that scheme. -/
lemma verifyThresholdMixed_replicate (scheme : Scheme) (n : Nat) :
    verifyThresholdMixed V (List.replicate n scheme.selector) keys signatures msg hash threshold =
        .ok () ↔
      n = keys.length ∧
        verifyThresholdOf V scheme keys signatures msg hash threshold = .ok () := by
  rw [verifyThresholdOf_eq, verifyThreshold_countValid, verifyThresholdMixed_eq_ok,
    List.length_replicate]
  refine and_congr_right fun hn => ?_
  have hknown : ∀ s ∈ List.replicate n scheme.selector, ∃ scheme : Scheme, s = scheme.selector :=
    fun s hs => ⟨scheme, List.eq_of_mem_replicate hs⟩
  rw [and_iff_right hknown]
  refine ThresholdMet.congr fun i hi => ?_
  have hget : (List.replicate n scheme.selector)[i]? = some scheme.selector := by
    rw [List.getElem?_replicate, if_pos (hn ▸ hi)]
  constructor
  · rintro ⟨scheme', hscheme, hvalid⟩
    rw [hget, Option.some.injEq] at hscheme
    rwa [selector_injective hscheme]
  · exact fun hvalid => ⟨scheme, hget, hvalid⟩

end Checks

/-- Every threshold check succeeds exactly on a committee with distinct keys and enough valid
signatures, and the mixed check with one scheme throughout is the check for that scheme. -/
theorem threshold_checks_exact (V : Verifiers) (keys signatures : List Bytes) (msg : Bytes)
    (hash : UInt8) (threshold : Nat) :
    (verifyThresholdEd25519 V keys signatures msg threshold = .ok () ↔
      ThresholdMet keys signatures threshold
        (ValidAt (fun signature key => V.ed25519 signature key msg) keys signatures)) ∧
    (verifyThresholdEcdsaK1 V keys signatures msg hash threshold = .ok () ↔
      ThresholdMet keys signatures threshold
        (ValidAt (fun signature key => V.ecdsaK1 signature key msg hash) keys signatures)) ∧
    (verifyThresholdEcdsaR1 V keys signatures msg threshold = .ok () ↔
      ThresholdMet keys signatures threshold
        (ValidAt (fun signature key => V.ecdsaR1 signature key msg) keys signatures)) ∧
    (∀ schemes, verifyThresholdMixed V schemes keys signatures msg hash threshold = .ok () ↔
      schemes.length = keys.length ∧ (∀ s ∈ schemes, ∃ scheme : Scheme, s = scheme.selector) ∧
        ThresholdMet keys signatures threshold
          (MixedValidAt V schemes keys signatures msg hash)) ∧
    ∀ (scheme : Scheme) (n : Nat),
      verifyThresholdMixed V (List.replicate n scheme.selector) keys signatures msg hash threshold =
          .ok () ↔
        n = keys.length ∧
          verifyThresholdOf V scheme keys signatures msg hash threshold = .ok () :=
  ⟨verifyThreshold_countValid, verifyThreshold_countValid, verifyThreshold_countValid,
    fun _ => verifyThresholdMixed_eq_ok, verifyThresholdMixed_replicate⟩

end Kanari.Proofs

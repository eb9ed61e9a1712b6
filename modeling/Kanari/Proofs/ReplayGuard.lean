import Kanari.Proofs.ZkLoginAnchor
import Mathlib.Data.List.Induction

/-!
# The replay guard of zkLogin admission

The guard records a transaction before it is verified, so what it refuses is what was submitted.
-/

namespace Kanari.Proofs

open Lib ZkLogin

structure AdmitCall where
  expectedSender : String
  txHash : Bytes
  bundleBytes : Bytes
  opts : AdmitOptions
  now : UInt64
  currentEpoch : UInt64

variable {K V G : Type} (P : Primitives K V G)

def AdmitCall.run (c : AdmitCall) (cache : ReplayCache) :
    Except SignatureError VerifiedZkLogin × ReplayCache :=
  admitZkloginTx P c.expectedSender c.txHash c.bundleBytes c.opts cache c.now c.currentEpoch

/-- The identity under which the cache knows a transaction. -/
def AdmitCall.digest (c : AdmitCall) : Bytes := P.sha256 c.txHash

def ReachesGuard (c : AdmitCall) : Prop :=
  ∃ bundle, readBundle P c.bundleBytes = .ok bundle ∧
    checkMaxEpoch bundle.auth.maxEpoch c.currentEpoch = .ok ()

def RejectedAsReplay (cache : ReplayCache) (c : AdmitCall) : Prop :=
  ReachesGuard P c ∧ (cache.checkAndInsert P c.txHash c.now).1 = false

def Verifies (c : AdmitCall) : Prop :=
  ∃ bundle verified, readBundle P c.bundleBytes = .ok bundle ∧
    admitVerified P c.opts c.expectedSender c.txHash bundle.auth c.now = .ok verified

def Admitted (cache : ReplayCache) (c : AdmitCall) : Prop :=
  ∃ verified, (c.run P cache).1 = .ok verified

def cacheAfter (ttl : UInt64) (calls : List AdmitCall) : ReplayCache :=
  calls.foldl (fun cache c => (c.run P cache).2) { ttlSecs := ttl }

variable {P} {c e : AdmitCall} {cache : ReplayCache} {ttl : UInt64} {calls pre post : List AdmitCall}

lemma rejectedAsReplay_iff : RejectedAsReplay P cache c ↔
    ReachesGuard P c ∧ ∃ exp, (c.digest P, exp) ∈ cache.seen ∧ c.now < exp := by
  unfold RejectedAsReplay
  refine and_congr_right fun _ => ?_
  have hany : (cache.checkAndInsert P c.txHash c.now).1 = false ↔
      ((cache.sweep c.now).seen.any (·.1 == c.digest P)) = true := by
    unfold ReplayCache.checkAndInsert AdmitCall.digest
    dsimp only
    split <;> simp_all
  rw [hany]
  constructor
  · intro h
    obtain ⟨⟨d, exp⟩, hmem, heq⟩ := List.any_eq_true.mp h
    obtain ⟨hseen, hlive⟩ := List.mem_filter.mp hmem
    obtain rfl : d = c.digest P := by simpa using heq
    exact ⟨exp, hseen, of_decide_eq_true hlive⟩
  · rintro ⟨exp, hseen, hlive⟩
    exact List.any_eq_true.mpr ⟨(c.digest P, exp),
      List.mem_filter.mpr ⟨hseen, decide_eq_true hlive⟩, by simp⟩

lemma run_of_unread (cache : ReplayCache) (h : ¬ReachesGuard P c) : ∃ e, c.run P cache = (.error e, cache) := by
  unfold AdmitCall.run admitZkloginTx
  cases hread : readBundle P c.bundleBytes with
  | error e => exact ⟨e, rfl⟩
  | ok bundle =>
    dsimp only
    cases hepoch : checkMaxEpoch bundle.auth.maxEpoch c.currentEpoch with
    | error e => exact ⟨e, rfl⟩
    | ok u => exact absurd ⟨bundle, hread, hepoch⟩ h

lemma run_of_reaches {bundle : ZkLoginTxSignature} (hread : readBundle P c.bundleBytes = .ok bundle)
    (hepoch : checkMaxEpoch bundle.auth.maxEpoch c.currentEpoch = .ok ()) :
    c.run P cache = if (cache.checkAndInsert P c.txHash c.now).1 = false then
      (.error .verificationFailed, cache.sweep c.now)
    else (admitVerified P c.opts c.expectedSender c.txHash bundle.auth c.now,
      { cache.sweep c.now with
        seen := (c.digest P, ZkLogin.saturatingAdd c.now cache.ttlSecs) :: (cache.sweep c.now).seen }) := by
  unfold AdmitCall.run admitZkloginTx
  rw [hread]
  dsimp only
  rw [hepoch]
  dsimp only
  unfold ReplayCache.checkAndInsert AdmitCall.digest
  dsimp only
  by_cases hseen : ((cache.sweep c.now).seen.any (·.1 == P.sha256 c.txHash)) = true
  · simp [hseen]
  · simp [hseen]

lemma admitted_iff : Admitted P cache c ↔
    ReachesGuard P c ∧ ¬RejectedAsReplay P cache c ∧ Verifies P c := by
  by_cases hreach : ReachesGuard P c
  · obtain ⟨bundle, hread, hepoch⟩ := hreach
    have hverifies : Verifies P c ↔ ∃ verified,
        admitVerified P c.opts c.expectedSender c.txHash bundle.auth c.now = .ok verified := by
      simp [Verifies, hread]
    unfold Admitted
    rw [run_of_reaches hread hepoch, hverifies]
    unfold RejectedAsReplay
    have hreach : ReachesGuard P c := ⟨bundle, hread, hepoch⟩
    split_ifs with hseen
    · simp [hreach, hseen]
    · simp [hreach, hseen]
  · obtain ⟨e, hrun⟩ := run_of_unread cache hreach
    simp [Admitted, hrun, hreach]

variable {d : Bytes} {exp : UInt64}

lemma mem_run (h : (d, exp) ∈ (c.run P cache).2.seen) :
    (d, exp) ∈ cache.seen ∨ (ReachesGuard P c ∧ ¬RejectedAsReplay P cache c ∧
      d = c.digest P ∧ exp = ZkLogin.saturatingAdd c.now cache.ttlSecs) := by
  by_cases hreach : ReachesGuard P c
  · obtain ⟨bundle, hread, hepoch⟩ := id hreach
    rw [run_of_reaches hread hepoch] at h
    split_ifs at h with hseen
    · exact .inl (List.mem_filter.mp h).1
    · rcases List.mem_cons.mp h with heq | hold
      · obtain ⟨rfl, rfl⟩ := Prod.mk.inj heq
        exact .inr ⟨hreach, fun hrej => hseen hrej.2, rfl, rfl⟩
      · exact .inl (List.mem_filter.mp hold).1
  · obtain ⟨e, hrun⟩ := run_of_unread cache hreach
    rw [hrun] at h
    exact .inl h

lemma mem_run_of_mem (h : (d, exp) ∈ cache.seen) (hlive : c.now < exp) :
    (d, exp) ∈ (c.run P cache).2.seen := by
  have hswept : (d, exp) ∈ (cache.sweep c.now).seen :=
    List.mem_filter.mpr ⟨h, decide_eq_true hlive⟩
  by_cases hreach : ReachesGuard P c
  · obtain ⟨bundle, hread, hepoch⟩ := hreach
    rw [run_of_reaches hread hepoch]
    split_ifs
    · exact hswept
    · exact List.mem_cons_of_mem _ hswept
  · obtain ⟨e, hrun⟩ := run_of_unread cache hreach
    rw [hrun]
    exact h

lemma mem_run_self (hreach : ReachesGuard P c) (hnew : ¬RejectedAsReplay P cache c) :
    (c.digest P, ZkLogin.saturatingAdd c.now cache.ttlSecs) ∈ (c.run P cache).2.seen := by
  obtain ⟨bundle, hread, hepoch⟩ := id hreach
  rw [run_of_reaches hread hepoch, if_neg fun hseen => hnew ⟨hreach, hseen⟩]
  exact List.mem_cons_self

lemma run_ttlSecs : (c.run P cache).2.ttlSecs = cache.ttlSecs := by
  by_cases hreach : ReachesGuard P c
  · obtain ⟨bundle, hread, hepoch⟩ := hreach
    rw [run_of_reaches hread hepoch]
    split_ifs <;> rfl
  · obtain ⟨e, hrun⟩ := run_of_unread cache hreach
    rw [hrun]

lemma cacheAfter_concat : cacheAfter P ttl (calls ++ [c]) = (c.run P (cacheAfter P ttl calls)).2 := by
  simp [cacheAfter]

lemma cacheAfter_ttlSecs : (cacheAfter P ttl calls).ttlSecs = ttl := by
  induction calls using List.reverseRecOn with
  | nil => rfl
  | append_singleton calls c ih => rw [cacheAfter_concat, run_ttlSecs, ih]

lemma mem_cacheAfter (h : (d, exp) ∈ (cacheAfter P ttl calls).seen) :
    ∃ pre e post, calls = pre ++ e :: post ∧ ReachesGuard P e ∧
      ¬RejectedAsReplay P (cacheAfter P ttl pre) e ∧ d = e.digest P ∧
      exp = ZkLogin.saturatingAdd e.now ttl := by
  induction calls using List.reverseRecOn with
  | nil => cases h
  | append_singleton calls c ih =>
    rw [cacheAfter_concat] at h
    rcases mem_run h with hold | ⟨hreach, hnew, hd, hexp⟩
    · obtain ⟨pre, e, post, rfl, he⟩ := ih hold
      exact ⟨pre, e, post ++ [c], by simp, he⟩
    · rw [cacheAfter_ttlSecs] at hexp
      exact ⟨calls, c, [], rfl, hreach, hnew, hd, hexp⟩

lemma mem_cacheAfter_of_recorded (hreach : ReachesGuard P e)
    (hnew : ¬RejectedAsReplay P (cacheAfter P ttl pre) e)
    (hlive : ∀ c ∈ post, c.now < ZkLogin.saturatingAdd e.now ttl) :
    (e.digest P, ZkLogin.saturatingAdd e.now ttl) ∈ (cacheAfter P ttl (pre ++ e :: post)).seen := by
  induction post using List.reverseRecOn with
  | nil =>
    have hself := mem_run_self hreach hnew
    rw [cacheAfter_ttlSecs] at hself
    rw [cacheAfter_concat]
    exact hself
  | append_singleton post c ih =>
    have hbefore := ih fun c' hc' => hlive c' (List.mem_append_left _ hc')
    rw [← List.cons_append, ← List.append_assoc, cacheAfter_concat]
    exact mem_run_of_mem hbefore (hlive c (by simp))

lemma lt_saturatingAdd_iff {t a b : UInt64} (ht : t.toNat < 2 ^ 64 - 1) :
    t < ZkLogin.saturatingAdd a b ↔ t.toNat < a.toNat + b.toNat := by
  unfold ZkLogin.saturatingAdd
  rw [UInt64.lt_iff_toNat_lt]
  split_ifs with hsum
  · rw [UInt64.toNat_add, Nat.mod_eq_of_lt hsum]
  · have hmax : (UInt64.ofNat (2 ^ 64 - 1)).toNat = 2 ^ 64 - 1 := by decide
    rw [hmax]
    omega

/-- Of two calls for the same transaction that both reach the guard, the second within the time to
live of the first, the first verifies. -/
def EarlierVerifies (P : Primitives K V G) (ttl : UInt64) (early late : AdmitCall) : Prop :=
  early.digest P = late.digest P → ReachesGuard P early → ReachesGuard P late →
    late.now.toNat < early.now.toNat + ttl.toNat → Verifies P early

/-- Some call of `pre` for the transaction of `c` was admitted within the time to live. -/
def AdmittedBefore (P : Primitives K V G) (ttl : UInt64) (pre : List AdmitCall) (c : AdmitCall) :
    Prop :=
  ∃ pre₁ e post₁, pre = pre₁ ++ e :: post₁ ∧ e.digest P = c.digest P ∧
    Admitted P (cacheAfter P ttl pre₁) e ∧ c.now.toNat < e.now.toNat + ttl.toNat

lemma AdmittedBefore.rejected {ttl : UInt64} {pre : List AdmitCall} {c : AdmitCall}
    (h : AdmittedBefore P ttl pre c) (htimes : ∀ e ∈ pre, e.now ≤ c.now)
    (hc : c.now.toNat < 2 ^ 64 - 1) (hreach : ReachesGuard P c) :
    RejectedAsReplay P (cacheAfter P ttl pre) c := by
  obtain ⟨pre₁, e, post₁, rfl, hd, hadmitted, hwithin⟩ := h
  obtain ⟨hreache, hnew, _⟩ := admitted_iff.mp hadmitted
  have hlive := (lt_saturatingAdd_iff hc).mpr hwithin
  have hpost : ∀ c' ∈ post₁, c'.now < ZkLogin.saturatingAdd e.now ttl := by
    intro c' hc'
    have hle := htimes c' (List.mem_append_right _ (List.mem_cons_of_mem _ hc'))
    exact UInt64.lt_of_le_of_lt hle hlive
  have hrecord := mem_cacheAfter_of_recorded hreache hnew hpost
  rw [hd] at hrecord
  exact rejectedAsReplay_iff.mpr ⟨hreach, _, hrecord, hlive⟩

/-- Calls at non-decreasing times before the last second of the clock: none is admitted twice within
the time to live. If the earlier ones verify, then a call that reaches the guard is refused as a
replay if and only if its transaction was admitted within the time to live. -/
theorem zklogin_replay_exact (P : Primitives K V G) (ttl : UInt64) (calls : List AdmitCall)
    (htimes : calls.Pairwise (·.now ≤ ·.now)) (hclock : ∀ c ∈ calls, c.now.toNat < 2 ^ 64 - 1) :
    ∀ pre c post, calls = pre ++ c :: post →
      (calls.Pairwise (EarlierVerifies P ttl) → (RejectedAsReplay P (cacheAfter P ttl pre) c ↔
        ReachesGuard P c ∧ AdmittedBefore P ttl pre c)) ∧
      (Admitted P (cacheAfter P ttl pre) c → ¬AdmittedBefore P ttl pre c) := by
  rintro pre c post rfl
  have hc : c.now.toNat < 2 ^ 64 - 1 := hclock c (by simp)
  have hbefore : ∀ e ∈ pre, e.now ≤ c.now := fun e he =>
    (List.pairwise_append.mp htimes).2.2 e he c (by simp)
  constructor
  · intro hverify
    refine ⟨fun hrejected => ?_, fun h => h.2.rejected hbefore hc h.1⟩
    obtain ⟨hreach, exp, hseen, hlive⟩ := rejectedAsReplay_iff.mp hrejected
    obtain ⟨pre₁, e, post₁, rfl, hreache, hnew, hd, rfl⟩ := mem_cacheAfter hseen
    have hwithin := (lt_saturatingAdd_iff hc).mp hlive
    have hpair : EarlierVerifies P ttl e c :=
      (List.pairwise_append.mp hverify).2.2 e (by simp) c (by simp)
    exact ⟨hreach, pre₁, e, post₁, rfl, hd.symm,
      admitted_iff.mpr ⟨hreache, hnew, hpair hd.symm hreache hreach hwithin⟩, hwithin⟩
  · intro hadmitted hadmittedBefore
    obtain ⟨hreach, hnew, _⟩ := admitted_iff.mp hadmitted
    exact hnew (hadmittedBefore.rejected hbefore hc hreach)

/-! Submissions of the transaction `[9]` with the provider's token for `sampleAddress`. -/

def sampleCall (sender : String) (now : UInt64) : AdmitCall := ⟨sender, [9], [0], ⟨none⟩, now, 10⟩

lemma sampleCall_reachesGuard (sender : String) (now : UInt64) :
    ReachesGuard samplePrimitives (sampleCall sender now) :=
  ⟨sampleAuth (sampleToken "provider" "0"), rfl, rfl⟩

lemma sampleCall_verifies : Verifies samplePrimitives (sampleCall sampleAddress 1000) :=
  ⟨sampleAuth (sampleToken "provider" "0"), ⟨sampleAddress, 1000⟩, rfl, by decide +kernel⟩

/-- The same submission ten seconds later is a replay. -/
theorem zklogin_replay_exact_resubmitted :
    Admitted samplePrimitives (cacheAfter samplePrimitives 600 []) (sampleCall sampleAddress 1000) ∧
      RejectedAsReplay samplePrimitives
        (cacheAfter samplePrimitives 600 [sampleCall sampleAddress 1000])
        (sampleCall sampleAddress 1010) := by
  have hadmitted : Admitted samplePrimitives (cacheAfter samplePrimitives 600 [])
      (sampleCall sampleAddress 1000) := by
    refine admitted_iff.mpr ⟨sampleCall_reachesGuard _ _, ?_, sampleCall_verifies⟩
    rw [rejectedAsReplay_iff]
    rintro ⟨_, exp, hseen, _⟩
    exact absurd hseen List.not_mem_nil
  refine ⟨hadmitted, ?_⟩
  have hexact := zklogin_replay_exact samplePrimitives 600
    [sampleCall sampleAddress 1000, sampleCall sampleAddress 1010] (by simp [sampleCall])
    (by simp [sampleCall]) [sampleCall sampleAddress 1000] (sampleCall sampleAddress 1010) [] rfl
  exact (hexact.1 (List.pairwise_pair.mpr fun _ _ _ _ => sampleCall_verifies)).mpr
    ⟨sampleCall_reachesGuard _ _, [], _, [], rfl, rfl, hadmitted, by decide⟩

/-- Somebody submits the transaction for another sender, which does not verify; after that the
valid submission, which alone would be admitted, is refused as a replay. -/
theorem zklogin_replay_after_failure :
    ¬Admitted samplePrimitives (cacheAfter samplePrimitives 600 []) (sampleCall "0x0" 990) ∧
      Admitted samplePrimitives (cacheAfter samplePrimitives 600 [])
        (sampleCall sampleAddress 1000) ∧
      RejectedAsReplay samplePrimitives (cacheAfter samplePrimitives 600 [sampleCall "0x0" 990])
        (sampleCall sampleAddress 1000) := by
  have hempty : ∀ sender now, ¬RejectedAsReplay samplePrimitives
      (cacheAfter samplePrimitives 600 []) (sampleCall sender now) := by
    intro sender now hrej
    obtain ⟨_, exp, hseen, _⟩ := rejectedAsReplay_iff.mp hrej
    exact absurd hseen List.not_mem_nil
  refine ⟨?_, ?_, ?_⟩
  · intro hadmitted
    obtain ⟨_, _, bundle, verified, hread, hok⟩ := admitted_iff.mp hadmitted
    obtain rfl : sampleAuth (sampleToken "provider" "0") = bundle := Except.ok.inj hread
    have hfails : admitVerified samplePrimitives ⟨none⟩ "0x0" [9]
        (sampleAuth (sampleToken "provider" "0")).auth 990 = .error .verificationFailed := by
      decide +kernel
    exact nomatch hfails.symm.trans hok
  · exact admitted_iff.mpr ⟨sampleCall_reachesGuard _ _, hempty _ _, sampleCall_verifies⟩
  · refine rejectedAsReplay_iff.mpr ⟨sampleCall_reachesGuard _ _, ZkLogin.saturatingAdd 990 600, ?_, by decide⟩
    exact mem_run_self (sampleCall_reachesGuard _ _) (hempty _ _)

end Kanari.Proofs

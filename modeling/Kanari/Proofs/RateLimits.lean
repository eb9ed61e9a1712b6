import Kanari.RateLimiters
import Mathlib.Data.List.Count
import Mathlib.Tactic.Ring

/-!
# Requests granted to one address

A bucket that is dropped was due to be filled up, so an address is served as by one bucket that is
never dropped.
-/

namespace Kanari.Proofs

open RateLimitConfig

variable {cfg : RateLimitConfig} {b : TokenBucket} {o o' : Option TokenBucket} {t now : Nat} {times : List Nat}

def span (cfg : RateLimitConfig) : Nat := fromSecs cfg.intervalSecs.toNat

/-- A bucket of the limiter, as it is at some time. -/
structure BucketOf (cfg : RateLimitConfig) (t : Nat) (b : TokenBucket) : Prop where
  maxTokens : b.maxTokens = cfg.maxRequests.toNat
  interval : b.refillInterval = span cfg
  tokens : b.tokens ≤ cfg.maxRequests.toNat
  refilled : b.lastRefill ≤ b.lastActivity
  active : b.lastActivity ≤ t

def RefillDue (cfg : RateLimitConfig) (t : Nat) (b : TokenBucket) : Prop := span cfg ≤ t - b.lastRefill

lemma bucketOf_new (cfg : RateLimitConfig) (t : Nat) : BucketOf cfg t (.new cfg t) :=
  ⟨rfl, rfl, le_rfl, le_rfl, le_rfl⟩

lemma BucketOf.mono (hb : BucketOf cfg t b) (h : t ≤ now) : BucketOf cfg now b :=
  { hb with active := hb.active.trans h }

lemma takeToken_eq (b : TokenBucket) :
    (if 0 < b.tokens then (true, { b with tokens := b.tokens - 1 }) else (false, b)) =
      (decide (0 < b.tokens), { b with tokens := b.tokens - 1 }) := by
  obtain ⟨maxTokens, tokens, lastRefill, lastActivity, refillInterval⟩ := b
  cases tokens <;> simp

lemma allowRequest_new (cfg : RateLimitConfig) (now : Nat) :
    (TokenBucket.new cfg now).allowRequest now = (decide (0 < cfg.maxRequests.toNat),
      ⟨cfg.maxRequests.toNat, cfg.maxRequests.toNat - 1, now, now, span cfg⟩) := by
  have hnew : { TokenBucket.new cfg now with lastActivity := now }.refill now = .new cfg now := by
    unfold TokenBucket.refill
    split_ifs <;> rfl
  rw [TokenBucket.allowRequest, hnew, takeToken_eq]
  simp only [TokenBucket.new, span]
  rfl

lemma allowRequest_due (hb : BucketOf cfg t b) (hdue : RefillDue cfg now b) :
    b.allowRequest now = (TokenBucket.new cfg now).allowRequest now := by
  have hfilled : { b with lastActivity := now }.refill now = .new cfg now := by
    rw [TokenBucket.refill, if_pos (hb.interval ▸ hdue)]
    simp [TokenBucket.new, hb.maxTokens, hb.interval, span]
  rw [allowRequest_new, TokenBucket.allowRequest, hfilled, takeToken_eq]
  simp only [TokenBucket.new, span]
  rfl

lemma allowRequest_not_due (hb : BucketOf cfg t b) (hdue : ¬RefillDue cfg now b) :
    b.allowRequest now = (decide (0 < b.tokens), { b with tokens := b.tokens - 1, lastActivity := now }) := by
  have hkept : { b with lastActivity := now }.refill now = { b with lastActivity := now } :=
    if_neg (hb.interval ▸ hdue)
  rw [TokenBucket.allowRequest, hkept]
  exact takeToken_eq _

lemma BucketOf.allowRequest (hb : BucketOf cfg t b) (h : t ≤ now) : BucketOf cfg now (b.allowRequest now).2 := by
  by_cases hdue : RefillDue cfg now b
  · rw [allowRequest_due hb hdue, allowRequest_new]
    exact ⟨rfl, rfl, Nat.sub_le _ _, le_rfl, le_rfl⟩
  · rw [allowRequest_not_due hb hdue]
    exact ⟨hb.maxTokens, hb.interval, (Nat.sub_le _ _).trans hb.tokens, hb.refilled.trans (hb.active.trans h), le_rfl⟩

lemma BucketOf.due_of_stale (hb : BucketOf cfg t b) (h : ¬now - b.lastActivity < cfg.staleAfter) :
    RefillDue cfg now b := by
  have hsecs : cfg.intervalSecs.toNat ≤ min (cfg.intervalSecs.toNat * 2) (2 ^ 64 - 1) := by
    have := cfg.intervalSecs.toNat_lt
    omega
  have hspan : span cfg ≤ cfg.staleAfter := Nat.mul_le_mul_right _ hsecs
  have := hb.refilled
  unfold RefillDue
  omega

def serve (cfg : RateLimitConfig) (o : Option TokenBucket) (now : Nat) : Bool × TokenBucket :=
  (o.getD (.new cfg now)).allowRequest now

def served (cfg : RateLimitConfig) : Option TokenBucket → List Nat → List (Nat × Bool)
  | _, [] => []
  | o, now :: rest => (now, (serve cfg o now).1) :: served cfg (some (serve cfg o now).2) rest

/-- The same bucket, or two that no request can tell from a new one. -/
structure Agree (cfg : RateLimitConfig) (t : Nat) (o o' : Option TokenBucket) : Prop where
  left : ∀ b ∈ o, BucketOf cfg t b
  right : ∀ b ∈ o', BucketOf cfg t b
  same : o = o' ∨ (∀ b ∈ o, RefillDue cfg t b) ∧ ∀ b ∈ o', RefillDue cfg t b

lemma RefillDue.mono (h : RefillDue cfg t b) (hle : t ≤ now) : RefillDue cfg now b := by
  unfold RefillDue at *
  omega

lemma Agree.mono (h : Agree cfg t o o') (hle : t ≤ now) : Agree cfg now o o' where
  left b hb := (h.left b hb).mono hle
  right b hb := (h.right b hb).mono hle
  same := h.same.imp id fun hdue => ⟨fun b hb => (hdue.1 b hb).mono hle, fun b hb => (hdue.2 b hb).mono hle⟩

lemma serve_due (hb : ∀ b ∈ o, BucketOf cfg t b) (hdue : ∀ b ∈ o, RefillDue cfg now b) :
    serve cfg o now = serve cfg none now := by
  cases o with
  | none => rfl
  | some b => exact allowRequest_due (hb b rfl) (hdue b rfl)

lemma Agree.serve (h : Agree cfg now o o') : serve cfg o now = serve cfg o' now := by
  obtain rfl | ⟨hdue, hdue'⟩ := h.same
  · rfl
  · rw [serve_due h.left hdue, serve_due h.right hdue']

lemma Agree.evict (h : Agree cfg now o o') :
    Agree cfg now (o.filter fun b => now - b.lastActivity < cfg.staleAfter) o' := by
  cases o with
  | none => exact h
  | some b =>
    by_cases hlive : now - b.lastActivity < cfg.staleAfter
    · rw [Option.filter_some_pos (by simpa using hlive)]
      exact h
    · rw [Option.filter_some_neg (by simpa using hlive)]
      have hdue := (h.left b rfl).due_of_stale hlive
      refine ⟨by simp, h.right, .inr ⟨by simp, ?_⟩⟩
      obtain rfl | hdue' := h.same
      · rintro b' ⟨⟩
        exact hdue
      · exact hdue'.2

lemma bucketOf_serve (h : ∀ b ∈ o, BucketOf cfg t b) (hle : t ≤ now) : BucketOf cfg now (serve cfg o now).2 := by
  cases o with
  | none => exact (bucketOf_new cfg now).allowRequest le_rfl
  | some b => exact (h b rfl).allowRequest hle

section Addresses

variable {Ip : Type} [DecidableEq Ip] {ip : Ip} {calls : List (Ip × Nat)}

lemma mem_of_mem_answersFrom {buckets : Ip → Option TokenBucket} {a : (Ip × Nat) × Bool}
    (h : a ∈ cfg.answersFrom buckets calls) : a.1 ∈ calls := by
  induction calls generalizing buckets with
  | nil => cases h
  | cons call calls ih =>
    obtain rfl | h := List.mem_cons.mp h
    · exact List.mem_cons_self
    · exact List.mem_cons_of_mem _ (ih h)

/-- An address is served as if it were alone and its bucket were never dropped. -/
lemma answersFrom_filter (ip : Ip) (buckets : Ip → Option TokenBucket) (hsorted : calls.Pairwise (·.2 ≤ ·.2))
    (hafter : ∀ call ∈ calls, t ≤ call.2) (hagree : Agree cfg t (buckets ip) o) :
    (cfg.answersFrom buckets calls).filter (·.1.1 = ip) =
      (served cfg o ((calls.filter (·.1 = ip)).map (·.2))).map fun r => ((ip, r.1), r.2) := by
  induction calls generalizing buckets o t with
  | nil => rfl
  | cons call calls ih =>
    obtain ⟨caller, now⟩ := call
    obtain ⟨hfirst, hsorted⟩ := List.pairwise_cons.mp hsorted
    have hkept := (hagree.mono (hafter _ List.mem_cons_self)).evict
    have htail (buckets' : Ip → Option TokenBucket) {o'} (h : Agree cfg now (buckets' ip) o') :=
      ih buckets' hsorted (fun call hcall => hfirst call hcall) h
    rw [answersFrom]
    by_cases hcaller : caller = ip
    · subst hcaller
      have hself : Agree cfg now (some (serve cfg o now).2) (some (serve cfg o now).2) :=
        ⟨by rintro b ⟨⟩; exact bucketOf_serve hkept.right le_rfl,
          by rintro b ⟨⟩; exact bucketOf_serve hkept.right le_rfl, .inl rfl⟩
      have hserve := hkept.serve
      unfold serve at hserve
      simp only [checkRateLimit, hserve, List.filter_cons, decide_true, if_true, List.map_cons, served]
      rw [htail _ (by rw [Function.update_self]; exact hself)]
      unfold serve
      cases ((o.getD (.new cfg now)).allowRequest now).1 <;> rfl
    · simp only [checkRateLimit, List.filter_cons, hcaller, decide_false, Bool.false_eq_true, if_false]
      refine htail _ ?_
      rw [Function.update_of_ne (Ne.symm hcaller)]
      exact hkept

end Addresses

lemma mem_of_mem_served {r : Nat × Bool} (h : r ∈ served cfg o times) : r.1 ∈ times := by
  induction times generalizing o with
  | nil => cases h
  | cons now times ih =>
    obtain rfl | h := List.mem_cons.mp h
    · exact List.mem_cons_self
    · exact List.mem_cons_of_mem _ (ih h)

lemma served_until {T j : Nat} (hb : BucketOf cfg t b) (hafter : ∀ now ∈ times, t ≤ now)
    (hsorted : times.Pairwise (· ≤ ·)) (hT : T ≤ b.lastRefill + (j + 1) * span cfg) :
    (served cfg (some b) times).countP (fun r => r.2 && decide (r.1 < T)) ≤ b.tokens + j * cfg.maxRequests.toNat := by
  induction times generalizing b t j with
  | nil => exact Nat.zero_le _
  | cons now times ih =>
    obtain ⟨hfirst, hsorted⟩ := List.pairwise_cons.mp hsorted
    have hle := hafter now List.mem_cons_self
    have hpast : b.lastRefill ≤ now := hb.refilled.trans (hb.active.trans hle)
    have htail {i : Nat} := ih (j := i) (hb.allowRequest hle) hfirst hsorted
    rw [served, List.countP_cons]
    change (served cfg (some (b.allowRequest now).2) times).countP _ +
      (if ((b.allowRequest now).1 && decide (now < T)) = true then 1 else 0) ≤ _
    by_cases hlate : T ≤ now
    · -- nothing is counted any more
      rw [List.countP_eq_zero.mpr ?_, if_neg (by simp [hlate])]
      · exact Nat.zero_le _
      · intro r hr
        have := hfirst r.1 (mem_of_mem_served hr)
        simp only [Bool.and_eq_true, decide_eq_true_eq]
        omega
    by_cases hdue : RefillDue cfg now b
    · rw [allowRequest_due hb hdue, allowRequest_new] at htail ⊢
      have hmul (i : Nat) : (i + 1) * span cfg = i * span cfg + span cfg := Nat.succ_mul _ _
      unfold RefillDue at hdue
      obtain _ | i := j
      · have := hmul 0
        omega
      have hcount := htail (i := i) (by have := hmul (i + 1); change T ≤ now + _; omega)
      have hrequests : (i + 1) * cfg.maxRequests.toNat = i * cfg.maxRequests.toNat + cfg.maxRequests.toNat :=
        Nat.succ_mul _ _
      simp only [Bool.and_eq_true, decide_eq_true_eq] at hcount ⊢
      split_ifs <;> omega
    · rw [allowRequest_not_due hb hdue] at htail ⊢
      have hcount := htail hT
      simp only [Bool.and_eq_true, decide_eq_true_eq] at hcount ⊢
      split_ifs <;> omega

lemma served_window {start k : Nat} (hk : 1 ≤ k) (ho : ∀ b ∈ o, BucketOf cfg t b)
    (hafter : ∀ now ∈ times, t ≤ now) (hsorted : times.Pairwise (· ≤ ·)) :
    (served cfg o times).countP (fun r => r.2 && decide (start ≤ r.1 ∧ r.1 < start + k * span cfg)) ≤
      (k + 1) * cfg.maxRequests.toNat := by
  induction times generalizing o t with
  | nil => exact Nat.zero_le _
  | cons now times ih =>
    obtain ⟨hfirst, hrest⟩ := List.pairwise_cons.mp hsorted
    have hle := hafter now List.mem_cons_self
    by_cases hearly : now < start
    · rw [served, List.countP_cons_of_neg (by simp; omega)]
      refine ih ?_ hfirst hrest
      rintro b ⟨⟩
      exact bucketOf_serve ho hle
    have hcover : ∀ r ∈ served cfg o (now :: times), (r.2 && decide (start ≤ r.1 ∧ r.1 < start + k * span cfg)) = true →
        (r.2 && decide (r.1 < start + k * span cfg)) = true := by
      intro r _ hr
      simp only [Bool.and_eq_true, decide_eq_true_eq] at hr ⊢
      exact ⟨hr.1, hr.2.2⟩
    refine (List.countP_mono_left hcover).trans ?_
    have hmul : (k + 1) * cfg.maxRequests.toNat = k * cfg.maxRequests.toNat + cfg.maxRequests.toNat :=
      Nat.succ_mul _ _
    by_cases hdue : ∀ b ∈ o, RefillDue cfg now b
    · -- as with a new bucket
      have hnew : served cfg o (now :: times) = served cfg (some (.new cfg now)) (now :: times) := by
        rw [served, served, serve_due (fun b hb => (ho b hb).mono hle) hdue]
        rfl
      obtain ⟨i, rfl⟩ := Nat.exists_eq_add_of_le' hk
      rw [hnew]
      refine (served_until (j := i) (bucketOf_new cfg now) (by simpa using hfirst) hsorted ?_).trans ?_
      · change start + (i + 1) * span cfg ≤ now + (i + 1) * span cfg
        omega
      · change cfg.maxRequests.toNat + i * cfg.maxRequests.toNat ≤ _
        have : (i + 1) * cfg.maxRequests.toNat = i * cfg.maxRequests.toNat + cfg.maxRequests.toNat :=
          Nat.succ_mul _ _
        omega
    · push Not at hdue
      obtain ⟨b, hb, hnot⟩ := hdue
      obtain rfl := Option.mem_def.mp hb
      have hwell := ho b rfl
      refine (served_until (j := k) hwell hafter hsorted ?_).trans ?_
      · unfold RefillDue at hnot
        have : (k + 1) * span cfg = k * span cfg + span cfg := Nat.succ_mul _ _
        omega
      · have := hwell.tokens
        omega

/-- An address is granted at most `(k + 1) * m` requests in any `k` intervals, and its answers are
those it would get with no other address around. -/
theorem rate_limit_per_address {Ip : Type} [DecidableEq Ip] (cfg : RateLimitConfig)
    {calls : List (Ip × Nat)} (hsorted : calls.Pairwise (·.2 ≤ ·.2)) (ip : Ip) :
    (∀ k start, 1 ≤ k → (cfg.answers calls).countP (fun a => decide (a.1.1 = ip) && a.2 &&
        decide (start ≤ a.1.2 ∧ a.1.2 < start + k * fromSecs cfg.intervalSecs.toNat)) ≤
      (k + 1) * cfg.maxRequests.toNat) ∧
    (cfg.answers calls).filter (·.1.1 = ip) = cfg.answers (calls.filter (·.1 = ip)) := by
  have hnone : Agree cfg 0 none none := ⟨by simp, by simp, .inl rfl⟩
  have hserved (calls : List (Ip × Nat)) (hsorted : calls.Pairwise (·.2 ≤ ·.2)) :=
    answersFrom_filter ip (fun _ => none) hsorted (fun _ _ => Nat.zero_le _) hnone
  constructor
  · intro k start hk
    have hfilter : (cfg.answers calls).countP (fun a => decide (a.1.1 = ip) && a.2 &&
        decide (start ≤ a.1.2 ∧ a.1.2 < start + k * fromSecs cfg.intervalSecs.toNat)) =
        ((cfg.answers calls).filter (·.1.1 = ip)).countP (fun a => a.2 &&
          decide (start ≤ a.1.2 ∧ a.1.2 < start + k * fromSecs cfg.intervalSecs.toNat)) := by
      rw [List.countP_filter]
      congr 1
      funext a
      simp only [Bool.and_assoc, Bool.and_comm (decide (a.1.1 = ip))]
    rw [hfilter, answers, hserved calls hsorted, List.countP_map]
    exact served_window hk (by simp) (fun _ _ => Nat.zero_le _)
      (List.pairwise_map.mpr (hsorted.filter _))
  · have halone : (cfg.answers (calls.filter (·.1 = ip))).filter (·.1.1 = ip) = cfg.answers (calls.filter (·.1 = ip)) := by
      refine List.filter_eq_self.mpr fun a ha => ?_
      have hmem : a.1 ∈ calls.filter (·.1 = ip) := mem_of_mem_answersFrom ha
      exact (List.mem_filter.mp hmem).2
    rw [← halone, answers, answers, hserved calls hsorted, hserved _ (hsorted.filter _), List.filter_filter]
    simp

theorem rate_limit_per_address_two :
    ([(0, 0), (1, 5), (0, 10)] : List (Nat × Nat)).Pairwise (·.2 ≤ ·.2) ∧
      ((⟨1, 60⟩ : RateLimitConfig).answers [(0, 0), (1, 5), (0, 10)]).filter (·.1.1 = 0) =
        (⟨1, 60⟩ : RateLimitConfig).answers [(0, 0), (0, 10)] :=
  ⟨by decide, (rate_limit_per_address ⟨1, 60⟩ (by decide) 0).2⟩

end Kanari.Proofs

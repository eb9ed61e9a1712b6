import Kanari.SyncBuffer

/-!
# The sync buffer

Along a whole loop every queue loses candidates from its front only, which bounds the iterations and
orders the attempts.
-/

namespace Kanari.Proofs

open Lib CheckpointBuffer

/-! ## Queues and their number -/

lemma queue_setQueue (b : CheckpointBuffer) (s s' : Nat) (q : List BufferedCheckpointCandidate)
    (hq : ∀ c ∈ q, c.sequence = s) :
    (b.setQueue s q hq).queue s' = if s' = s then q else b.queue s' := by
  unfold queue setQueue
  cases q with
  | nil =>
    simp only [List.isEmpty_nil, if_true, OrdMap.find?_erase]
    split_ifs <;> rfl
  | cons c q =>
    simp only [List.isEmpty_cons, Bool.false_eq_true, if_false, OrdMap.find?_insert]
    split_ifs <;> rfl

lemma valueAt_length (b : CheckpointBuffer) (s : Nat) :
    b.queues.valueAt (fun _ q => q.length) s = (b.queue s).length := by
  unfold OrdMap.valueAt queue
  cases b.queues.find? s <;> rfl

lemma candidateCount_setQueue (b : CheckpointBuffer) (s : Nat) (q : List BufferedCheckpointCandidate)
    (hq : ∀ c ∈ q, c.sequence = s) :
    (b.setQueue s q hq).candidateCount + (b.queue s).length = b.candidateCount + q.length := by
  rw [← valueAt_length]
  unfold candidateCount setQueue
  cases q with
  | nil => exact OrdMap.sumOn_erase _ _ _
  | cons c q => exact OrdMap.sumOn_insert _ _ _ _

variable {b : CheckpointBuffer} {c : BufferedCheckpointCandidate}

lemma candidateCount_mono {b' : CheckpointBuffer}
    (h : ∀ s, (b'.queue s).length ≤ (b.queue s).length) : b'.candidateCount ≤ b.candidateCount := by
  apply OrdMap.sumOn_mono
  intro s
  rw [valueAt_length, valueAt_length]
  exact h s

lemma queue_retainAbove (b : CheckpointBuffer) (height s : Nat) :
    (b.retainAbove height).queue s = if height < s then b.queue s else [] := by
  unfold queue retainAbove
  rw [OrdMap.find?_filterKeys]
  by_cases h : height < s <;> simp [h]

/-! ## The loop -/

section Loop

variable {Ω : Type} (sync : Ω → CheckpointSyncData → Except String Unit × Ω)

def triedFor (s : Nat) (attempts : List SyncAttempt) : List BufferedCheckpointCandidate :=
  (attempts.map (·.candidate)).filter fun c => c.sequence == s

/-- The attempts in order: each answer is the engine's, and each success raises the height by one. -/
def Attempts : Ω → Nat → List SyncAttempt → Ω → Nat → Prop
  | engine, height, [], engine', height' => engine' = engine ∧ height' = height
  | engine, height, a :: rest, engine', height' =>
    a.height = height ∧ (sync engine a.candidate.checkpoint).1 = a.answer ∧
      Attempts (sync engine a.candidate.checkpoint).2 (height + a.synced.toNat) rest engine' height'

variable {sync} in
lemma Attempts.heights {engine engine' : Ω} {height height' : Nat} {attempts : List SyncAttempt}
    (h : Attempts sync engine height attempts engine' height') :
    height' = height + attempts.countP (·.synced) ∧
      (height :: attempts.map (·.height) ++ [height']).Pairwise (· ≤ ·) := by
  induction attempts generalizing engine height with
  | nil => simp [h.2]
  | cons a rest ih =>
    obtain ⟨hheight, -, hrest⟩ := h
    obtain ⟨hcount, hpairwise⟩ := ih hrest
    have hle : height ≤ height + a.synced.toNat := Nat.le_add_right _ _
    obtain ⟨hfirst, hothers⟩ := List.pairwise_cons.mp hpairwise
    constructor
    · rw [hcount, List.countP_cons, Nat.add_assoc, Nat.add_comm (Bool.toNat _)]
      cases a.synced <;> rfl
    · simp only [List.map_cons, List.cons_append, List.pairwise_cons, List.mem_cons, hheight]
      refine ⟨?_, fun x hx => hle.trans (hfirst x hx), hothers⟩
      rintro x (rfl | hx)
      · exact Nat.le_refl _
      · exact hle.trans (hfirst x hx)

/-- What a loop that began with `b` at `height` may have done: a candidate that was tried and does
not wait is gone from the front of its queue. -/
structure LoopRun (engine : Ω) (height : Nat) (b : CheckpointBuffer) (r : SyncLoop Ω) : Prop where
  attempts : Attempts sync engine height r.tried r.engine r.height
  next : ∀ a ∈ r.tried, a.candidate.sequence = a.height + 1
  once : ∀ s, triedFor s r.tried <+: b.queue s
  taken : ∀ s, triedFor s (r.tried.filter fun a => !a.waits) ++ r.buffer.queue s = b.queue s
  waits : r.stop = .waiting ↔ ∃ a ∈ r.tried, a.waits = true
  settled : r.stop ≠ .waiting → r.buffer.queue (r.height + 1) = []

lemma queue_cons {s : Nat} (h : (b.queue s).head? = some c) :
    let rest := (b.popNextBufferCandidate s).2
    b.queue s = c :: rest.queue s ∧ (∀ s', s' ≠ s → rest.queue s' = b.queue s') ∧
      rest.candidateCount + 1 = b.candidateCount ∧ c.sequence = s := by
  obtain ⟨tail, hq⟩ := List.head?_eq_some_iff.mp h
  have hcount := candidateCount_setQueue b s (b.queue s).tail fun _ hc =>
    mem_queue_sequence (List.mem_of_mem_tail hc)
  refine ⟨?_, ?_, ?_, mem_queue_sequence (List.mem_of_mem_head? (Option.mem_def.mpr h))⟩
  · simp only [popNextBufferCandidate, queue_setQueue, if_true, hq, List.tail_cons]
  · intro s' hs'
    simp only [popNextBufferCandidate, queue_setQueue, if_neg hs']
  · simp only [popNextBufferCandidate, hq, List.tail_cons, List.length_cons] at hcount ⊢
    omega

variable {sync}

lemma LoopRun.after {engine : Ω} {height : Nat} {answer : Except String Unit}
    (hhead : (b.queue (height + 1)).head? = some c) (hanswer : (sync engine c.checkpoint).1 = answer)
    (hwaits : SyncAttempt.waits ⟨height, c, answer⟩ = false) {r : SyncLoop Ω}
    (h : LoopRun sync (sync engine c.checkpoint).2 (height + answer.toBool.toNat)
      (b.popNextBufferCandidate (height + 1)).2 r) :
    LoopRun sync engine height b (r.after ⟨height, c, answer⟩) := by
  obtain ⟨hqueue, hothers, -, hseq⟩ := queue_cons hhead
  refine ⟨⟨rfl, hanswer, h.attempts⟩, ?_, fun s => ?_, fun s => ?_, h.waits.trans ?_, h.settled⟩
  · exact List.forall_mem_cons.mpr ⟨hseq, h.next⟩
  · have honce := h.once s
    simp only [triedFor, SyncLoop.after, List.map_cons, List.filter_cons, hseq] at honce ⊢
    split_ifs with hs
    · rw [← eq_of_beq hs] at honce ⊢
      rw [hqueue]
      exact (List.prefix_cons_inj c).mpr honce
    · exact hothers s (fun h => hs (by simp [h])) ▸ honce
  · have htaken := h.taken s
    simp only [triedFor, SyncLoop.after, List.filter_cons, hwaits, Bool.not_false, if_true, List.map_cons,
      hseq] at htaken ⊢
    split_ifs with hs
    · rw [← eq_of_beq hs] at htaken ⊢
      rw [hqueue, List.cons_append, htaken]
    · exact hothers s (fun h => hs (by simp [h])) ▸ htaken
  · simp [SyncLoop.after, hwaits]

lemma LoopRun.ended {engine : Ω} {height : Nat} {stop : SyncStop} {b' : CheckpointBuffer}
    (hstop : stop ≠ .waiting) (hsame : ∀ s, b'.queue s = b.queue s) (hempty : b'.queue (height + 1) = []) :
    LoopRun sync engine height b ⟨stop, [], engine, height, b'⟩ :=
  ⟨⟨rfl, rfl⟩, by simp, fun _ => List.nil_prefix, hsame, by simp [hstop], fun _ => hempty⟩

lemma LoopRun.waiting {engine : Ω} {height : Nat} {e : String}
    (hhead : (b.queue (height + 1)).head? = some c) (hanswer : (sync engine c.checkpoint).1 = .error e)
    (hwaits : checkpointWaitsForDagEvidence e = true) {b' : CheckpointBuffer}
    (hsame : ∀ s, b'.queue s = b.queue s) :
    LoopRun sync engine height b
      ⟨.waiting, [⟨height, c, .error e⟩], (sync engine c.checkpoint).2, height, b'⟩ := by
  obtain ⟨hqueue, -, -, hseq⟩ := queue_cons hhead
  refine ⟨⟨rfl, hanswer, rfl, rfl⟩, by simp [hseq], fun s => ?_, fun s => ?_, ?_, fun h => absurd rfl h⟩
  · simp only [triedFor, List.map_cons, List.map_nil, List.filter_cons, List.filter_nil, hseq]
    split_ifs with hs
    · rw [← eq_of_beq hs, hqueue]
      exact (List.prefix_cons_inj c).mpr List.nil_prefix
    · exact List.nil_prefix
  · simp [triedFor, SyncAttempt.waits, hwaits, hsame]
  · simp [SyncAttempt.waits, hwaits]

variable (sync) in
/-- One unit of fuel more than there are candidates is enough. -/
lemma applyBuffered_runs {fuel : Nat} (engine : Ω) (height : Nat) (hfuel : b.candidateCount < fuel) :
    ∃ r, applyBuffered sync fuel engine height b = some r ∧ LoopRun sync engine height b r := by
  induction fuel generalizing engine height b with
  | zero => exact absurd hfuel (Nat.not_lt_zero _)
  | succ fuel ih =>
    have hpop : b.popNextBufferCandidate (height + 1) =
      ((b.queue (height + 1)).head?, (b.popNextBufferCandidate (height + 1)).2) := rfl
    rw [applyBuffered, hpop]
    cases hhead : (b.queue (height + 1)).head? with
    | none =>
      have hempty : b.queue (height + 1) = [] := List.head?_eq_none_iff.mp hhead
      have hsame : ∀ s, (b.popNextBufferCandidate (height + 1)).2.queue s = b.queue s := by
        intro s
        simp only [popNextBufferCandidate, queue_setQueue]
        split_ifs with hs
        · rw [hs, hempty, List.tail_nil]
        · rfl
      exact ⟨_, rfl, .ended (by simp) hsame (by rw [hsame, hempty])⟩
    | some c =>
      obtain ⟨hqueue, hothers, hcount, hseq⟩ := queue_cons hhead
      have hmore : ∀ engine' height', ∃ r,
          applyBuffered sync fuel engine' height' (b.popNextBufferCandidate (height + 1)).2 = some r ∧
            LoopRun sync engine' height' (b.popNextBufferCandidate (height + 1)).2 r :=
        fun engine' height' => ih engine' height' (by omega)
      dsimp only
      cases hsync : sync engine c.checkpoint with
      | mk answer engine' =>
        have hanswer : (sync engine c.checkpoint).1 = answer := by rw [hsync]
        obtain rfl : (sync engine c.checkpoint).2 = engine' := by rw [hsync]
        cases answer with
        | ok =>
          obtain ⟨r, hr, hrun⟩ := hmore (sync engine c.checkpoint).2 (height + 1)
          exact ⟨_, by dsimp only; rw [hr]; rfl, LoopRun.after hhead hanswer rfl hrun⟩
        | error e =>
          dsimp only
          split_ifs with hwaits hlast
          · -- the candidate goes back to the front, so its queue is as before
            refine ⟨_, rfl, .waiting hhead hanswer hwaits fun s => ?_⟩
            simp only [requeueCheckpointCandidateFront, queue_setQueue]
            split_ifs with hs
            · rw [hs, hseq, hqueue]
            · exact hothers s (hseq ▸ hs)
          · rw [hseq, List.isEmpty_iff] at hlast
            exact ⟨_, rfl, .after hhead hanswer (by simpa [SyncAttempt.waits] using hwaits)
              (.ended (by simp) (fun _ => rfl) hlast)⟩
          · obtain ⟨r, hr, hrun⟩ := hmore (sync engine c.checkpoint).2 height
            exact ⟨_, by rw [hr]; rfl, .after hhead hanswer (by simpa [SyncAttempt.waits] using hwaits) hrun⟩

variable (sync)

/-- From any buffer and for any behaviour of the engine, the loop ends within one iteration more
than there are candidates. At each height only candidates for the next sequence are tried, in the order
of their queues and each at most once; those that failed are gone, and nothing else is lost above the
height. The loop waits exactly when an answer did. -/
theorem buffered_sync_loop (engine : Ω) (height : Nat) (b : CheckpointBuffer) :
    ∃ r, tryApplyBufferedCheckpoints sync (b.candidateCount + 1) engine height b = some r ∧
      Attempts sync engine height r.tried r.engine r.height ∧
      r.height = height + r.tried.countP (·.synced) ∧
      (∀ a ∈ r.tried, a.candidate.sequence = a.height + 1) ∧
      (∀ s, triedFor s r.tried <+: b.queue s) ∧
      (height :: r.tried.map (·.height) ++ [r.height]).Pairwise (· ≤ ·) ∧
      (∀ s, r.height < s → triedFor s (r.tried.filter fun a => !a.waits) ++ r.buffer.queue s = b.queue s) ∧
      (∀ s q, r.buffer.queues.find? s = some q → r.height < s) ∧
      (r.stop = .waiting ↔ ∃ a ∈ r.tried, a.waits = true) ∧
      (r.stop ≠ .waiting → r.buffer.queue (r.height + 1) = []) := by
  obtain ⟨r, hr, hrun⟩ := applyBuffered_runs sync engine height (Nat.lt_succ_self b.candidateCount)
  obtain ⟨hheight, hheights⟩ := hrun.attempts.heights
  refine ⟨{ r with buffer := r.buffer.retainAbove r.height }, ?_, hrun.attempts, hheight, hrun.next, hrun.once,
    hheights, fun s hs => ?_, ?_, hrun.waits, ?_⟩
  · rw [tryApplyBufferedCheckpoints, hr]
    rfl
  · show _ ++ (r.buffer.retainAbove r.height).queue s = _
    rw [queue_retainAbove, if_pos hs]
    exact hrun.taken s
  · intro s q hfind
    have hkept : ((r.buffer.queues.filterKeys fun s => decide (r.height < s)).find? s) = some q := hfind
    rw [OrdMap.find?_filterKeys] at hkept
    split_ifs at hkept with hs
    exact of_decide_eq_true hs
  · intro hstop
    show (r.buffer.retainAbove r.height).queue (r.height + 1) = []
    rw [queue_retainAbove, if_pos (Nat.lt_succ_self _)]
    exact hrun.settled hstop

def farCheckpoint (i : Nat) : CheckpointSyncData :=
  ⟨⟨UInt64.ofNat (i + 2), [], [], [], [], [], [], 0, [], 2⟩, []⟩

def scripted : List (Except String Unit) → CheckpointSyncData → Except String Unit × List (Except String Unit)
  | [], _ => (.error "no answer", [])
  | answer :: rest, _ => (answer, rest)

def sampleBuffer : CheckpointBuffer :=
  (empty.setQueue 2 [⟨farCheckpoint 0, some "a"⟩, ⟨farCheckpoint 0, some "b"⟩] (by simp; decide)).setQueue 3
    [⟨farCheckpoint 1, none⟩] (by simp; decide)

def sampleAnswers : List (Except String Unit) :=
  [.error "bad root", .ok (), .error "3 has not been committed by the local Mysticeti DAG"]

/-- The first candidate fails, the second is applied, and the third waits. -/
theorem buffered_sync_loop_waits :
    ∃ r, tryApplyBufferedCheckpoints scripted (sampleBuffer.candidateCount + 1) sampleAnswers 1 sampleBuffer =
        some r ∧
      r.height = 2 ∧ (∃ a ∈ r.tried, a.waits = true) ∧ r.buffer.queue 3 = [⟨farCheckpoint 1, none⟩] := by
  obtain ⟨r, hr, -, hheight, -, -, -, -, -, hwaits, -⟩ :=
    buffered_sync_loop scripted sampleAnswers 1 sampleBuffer
  have hresult : (tryApplyBufferedCheckpoints scripted (sampleBuffer.candidateCount + 1) sampleAnswers 1
      sampleBuffer).map (fun r => (r.tried.countP (·.synced), r.stop, r.buffer.queue 3)) =
        some (1, .waiting, [⟨farCheckpoint 1, none⟩]) := by decide +kernel
  rw [hr, Option.map_some, Option.some.injEq, Prod.mk.injEq, Prod.mk.injEq] at hresult
  obtain ⟨hcount, hstop, hqueue⟩ := hresult
  exact ⟨r, hr, by rw [hheight, hcount], hwaits.mp hstop, hqueue⟩

end Loop

/-! ## Offers -/

section Offers

variable (H : HashEnv) (maxBufferSize : Nat)

def candidateHash (c : BufferedCheckpointCandidate) : Option Bytes :=
  (H.hash c.checkpoint.checkpoint).toOption

/-- A checkpoint offered by a peer, or a loop over the buffer at some height of the engine. -/
inductive SyncEvent (Ω : Type) where
  | offer (checkpoint : CheckpointSyncData) (sourcePeerId : Option String)
  | apply (sync : Ω → CheckpointSyncData → Except String Unit × Ω) (engine : Ω) (height : Nat)

def afterSyncEvent {Ω : Type} (b : CheckpointBuffer) : SyncEvent Ω → CheckpointBuffer
  | .offer checkpoint sourcePeerId => (b.bufferCheckpoint H maxBufferSize checkpoint sourcePeerId).2
  | .apply sync engine height =>
    ((tryApplyBufferedCheckpoints sync (b.candidateCount + 1) engine height b).map (·.buffer)).getD b

def syncBufferAfter {Ω : Type} (events : List (SyncEvent Ω)) : CheckpointBuffer :=
  events.foldl (afterSyncEvent H maxBufferSize) .empty

structure BufferSound (b : CheckpointBuffer) : Prop where
  bounded : b.candidateCount ≤ maxBufferSize
  distinct : ∀ s, ((b.queue s).map (candidateHash H)).Nodup

lemma bufferCheckpoint_cases (b : CheckpointBuffer) (checkpoint : CheckpointSyncData)
    (sourcePeerId : Option String) :
    let c : BufferedCheckpointCandidate := ⟨checkpoint, sourcePeerId⟩
    let r := b.bufferCheckpoint H maxBufferSize checkpoint sourcePeerId
    maxBufferSize ≤ b.candidateCount ∧ r = (none, b) ∨
      candidateHash H c ∈ (b.queue c.sequence).map (candidateHash H) ∧ r = (some b.candidateCount, b) ∨
      b.candidateCount < maxBufferSize ∧ candidateHash H c ∉ (b.queue c.sequence).map (candidateHash H) ∧
        r.1 = some (b.candidateCount + 1) ∧ r.2.candidateCount = b.candidateCount + 1 ∧
        ∀ s, r.2.queue s = if s = c.sequence then b.queue s ++ [c] else b.queue s := by
  intro c r
  have hany : ((b.queue c.sequence).any fun d =>
      (H.hash d.checkpoint.checkpoint).toOption == (H.hash checkpoint.checkpoint).toOption) = true ↔
        candidateHash H c ∈ (b.queue c.sequence).map (candidateHash H) := by
    simp [candidateHash, c]
  simp only [r, bufferCheckpoint]
  split_ifs with hfull hsame
  · exact .inl ⟨hfull, rfl⟩
  · exact .inr (.inl ⟨hany.mp hsame, rfl⟩)
  · refine .inr (.inr ⟨Nat.lt_of_not_le hfull, fun hmem => hsame (hany.mpr hmem), rfl, ?_, fun s => ?_⟩)
    · apply Nat.add_right_cancel
      rw [candidateCount_setQueue, List.length_append, List.length_singleton]
      omega
    · rw [queue_setQueue]
      split_ifs with hs
      · rw [hs]
      · rfl

variable {H maxBufferSize}

lemma BufferSound.offer (h : BufferSound H maxBufferSize b) (checkpoint : CheckpointSyncData)
    (sourcePeerId : Option String) :
    BufferSound H maxBufferSize (b.bufferCheckpoint H maxBufferSize checkpoint sourcePeerId).2 := by
  obtain ⟨-, heq⟩ | ⟨-, heq⟩ | ⟨hroom, hfresh, -, hcount, hqueue⟩ :=
    bufferCheckpoint_cases H maxBufferSize b checkpoint sourcePeerId
  · rw [heq]
    exact h
  · rw [heq]
    exact h
  · refine ⟨by omega, fun s => ?_⟩
    rw [hqueue]
    split_ifs with hs
    · rw [List.map_append]
      refine (h.distinct s).append (List.nodup_singleton _) ?_
      rw [hs]
      simpa using hfresh
    · exact h.distinct s

lemma BufferSound.apply {Ω : Type} (h : BufferSound H maxBufferSize b)
    (sync : Ω → CheckpointSyncData → Except String Unit × Ω) (engine : Ω) (height : Nat) :
    BufferSound H maxBufferSize (afterSyncEvent H maxBufferSize b (.apply sync engine height)) := by
  obtain ⟨r, hr, hrun⟩ := applyBuffered_runs sync engine height (Nat.lt_succ_self b.candidateCount)
  have hkept : ∀ s, (r.buffer.retainAbove r.height).queue s <:+ b.queue s := by
    intro s
    rw [queue_retainAbove]
    split_ifs
    · exact (⟨_, hrun.taken s⟩ : _ <:+ _)
    · exact List.nil_suffix
  have hafter : afterSyncEvent H maxBufferSize b (.apply sync engine height) =
      r.buffer.retainAbove r.height := by
    unfold afterSyncEvent tryApplyBufferedCheckpoints
    dsimp only
    rw [hr]
    rfl
  rw [hafter]
  refine ⟨(candidateCount_mono fun s => (hkept s).length_le).trans h.bounded, fun s => ?_⟩
  exact (h.distinct s).sublist ((hkept s).sublist.map _)

lemma bufferSound_after {Ω : Type} (events : List (SyncEvent Ω)) :
    BufferSound H maxBufferSize (syncBufferAfter H maxBufferSize events) := by
  unfold syncBufferAfter
  induction events using List.reverseRecOn with
  | nil => exact ⟨Nat.zero_le _, fun s => List.nodup_nil⟩
  | append_singleton events e ih =>
    rw [List.foldl_concat]
    cases e with
    | offer checkpoint sourcePeerId => exact ih.offer checkpoint sourcePeerId
    | apply sync engine height => exact ih.apply sync engine height

/-- Whatever is offered and applied, the buffer stays bounded and its hashes distinct; a checkpoint
for the next height that is not buffered yet is accepted exactly if there is room. -/
theorem next_checkpoint_accepted_iff {Ω : Type} (H : HashEnv) (maxBufferSize : Nat)
    (events : List (SyncEvent Ω)) :
    let b := syncBufferAfter H maxBufferSize events
    b.candidateCount ≤ maxBufferSize ∧ (∀ s, ((b.queue s).map (candidateHash H)).Nodup) ∧
      ∀ (height : Nat) (c : BufferedCheckpointCandidate), c.sequence = height + 1 →
        candidateHash H c ∉ (b.queue (height + 1)).map (candidateHash H) →
        (c ∈ (b.bufferCheckpoint H maxBufferSize c.checkpoint c.sourcePeerId).2.queue (height + 1) ↔
          b.candidateCount < maxBufferSize) := by
  intro b
  have hsound : BufferSound H maxBufferSize b := bufferSound_after events
  refine ⟨hsound.bounded, hsound.distinct, fun height c hseq hfresh => ?_⟩
  have hnew : c ∉ b.queue (height + 1) := fun hmem => hfresh (List.mem_map_of_mem hmem)
  rw [← hseq] at hfresh hnew ⊢
  obtain ⟨hfull, heq⟩ | ⟨hmem, -⟩ | ⟨hroom, -, -, -, hqueue⟩ :=
    bufferCheckpoint_cases H maxBufferSize b c.checkpoint c.sourcePeerId
  · rw [heq]
    exact ⟨fun hmem => absurd hmem hnew, fun hroom => absurd hfull (Nat.not_le_of_lt hroom)⟩
  · exact absurd hmem hfresh
  · refine ⟨fun _ => hroom, fun _ => ?_⟩
    rw [hqueue]
    simp

/-! ## A buffer full of far checkpoints -/

lemma farCheckpoint_sequence {i : Nat} (hi : i < 1000) (peer : Option String) :
    BufferedCheckpointCandidate.sequence ⟨farCheckpoint i, peer⟩ = i + 2 :=
  UInt64.toNat_ofNat_of_lt' (show i + 2 < 2 ^ 64 by omega)

def farOffers (n : Nat) : List (SyncEvent Unit) := (List.range n).map fun i => .offer (farCheckpoint i) none

lemma far_offers_fill (H : HashEnv) {n : Nat} (hn : n ≤ 1000) :
    let b := syncBufferAfter H 1000 (farOffers n)
    b.candidateCount = n ∧ ∀ s, s < 2 ∨ n + 2 ≤ s → b.queue s = [] := by
  induction n with
  | zero => exact ⟨rfl, fun s _ => rfl⟩
  | succ n ih =>
    obtain ⟨hcount, hempty⟩ := ih (by omega)
    rw [syncBufferAfter, farOffers, List.range_succ, List.map_append, ← farOffers, List.foldl_append,
      ← syncBufferAfter]
    generalize syncBufferAfter H 1000 (farOffers n) = b at hcount hempty ⊢
    have hseq := farCheckpoint_sequence (i := n) (by omega) none
    obtain ⟨hfull, -⟩ | ⟨hmem, -⟩ | ⟨-, -, -, hadded, hqueue⟩ :=
      bufferCheckpoint_cases H 1000 b (farCheckpoint n) none
    · omega
    · rw [hseq, hempty _ (.inr (Nat.le_refl _))] at hmem
      cases hmem
    · rw [hcount] at hadded
      refine ⟨hadded, fun s hs => ?_⟩
      refine (hqueue s).trans ?_
      rw [hseq, if_neg (by omega)]
      exact hempty s (by omega)

/-- A thousand checkpoints for later sequences, and the one for sequence 1 is dropped. -/
theorem next_checkpoint_starved :
    let H : HashEnv := ⟨fun _ => [], fun _ => .ok [], []⟩
    let b := syncBufferAfter H MAX_BUFFER_SIZE (farOffers 1000)
    let next : CheckpointSyncData := ⟨⟨1, [], [], [], [], [], [], 0, [], 2⟩, []⟩
    b.queue 1 = [] ∧ b.bufferCheckpoint H MAX_BUFFER_SIZE next none = (none, b) := by
  intro H b next
  obtain ⟨hcount, hempty⟩ := far_offers_fill H (Nat.le_refl 1000)
  refine ⟨hempty 1 (by omega), ?_⟩
  unfold bufferCheckpoint
  exact if_pos hcount.ge

end Offers

end Kanari.Proofs

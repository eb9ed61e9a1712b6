import Kanari.Blockchain
import Mathlib.Data.List.Infix

/-!
# Checkpoints received ahead of the chain

The engine's `sync_checkpoint_from_data` is a parameter with a state of its own; heights are
unbounded.
-/

namespace Kanari

open Lib

/-- The vertices enter as their encodings. -/
structure CheckpointSyncData where
  checkpoint : Checkpoint
  dagVertices : List Bytes := []
  deriving DecidableEq

structure BufferedCheckpointCandidate where
  checkpoint : CheckpointSyncData
  sourcePeerId : Option String := none
  deriving DecidableEq

def BufferedCheckpointCandidate.sequence (c : BufferedCheckpointCandidate) : Nat :=
  c.checkpoint.checkpoint.sequence.toNat

/-- Every candidate stands under its own sequence number. -/
structure CheckpointBuffer where
  queues : OrdMap Nat (List BufferedCheckpointCandidate)
  keyed : ∀ s q, queues.find? s = some q → ∀ c ∈ q, c.sequence = s

namespace CheckpointBuffer

def MAX_BUFFER_SIZE : Nat := 1000

def empty : CheckpointBuffer := ⟨.empty, fun _ _ h => by cases h⟩

def queue (b : CheckpointBuffer) (s : Nat) : List BufferedCheckpointCandidate := (b.queues.find? s).getD []

def candidateCount (b : CheckpointBuffer) : Nat := b.queues.sumOn fun _ q => q.length

lemma mem_queue_sequence {b : CheckpointBuffer} {s : Nat} {c : BufferedCheckpointCandidate}
    (h : c ∈ b.queue s) : c.sequence = s := by
  unfold queue at h
  cases hfind : b.queues.find? s with
  | none =>
    rw [hfind] at h
    cases h
  | some q =>
    rw [hfind] at h
    exact b.keyed s q hfind c h

def setQueue (b : CheckpointBuffer) (s : Nat) (q : List BufferedCheckpointCandidate)
    (hq : ∀ c ∈ q, c.sequence = s) : CheckpointBuffer where
  queues := if q.isEmpty then b.queues.erase s else b.queues.insert s q
  keyed := by
    intro s' q' h
    split_ifs at h
    · rw [OrdMap.find?_erase] at h
      split_ifs at h
      exact b.keyed s' q' h
    · rw [OrdMap.find?_insert] at h
      split_ifs at h with hs
      · rw [hs, ← Option.some.inj h]
        exact hq
      · exact b.keyed s' q' h

def bufferCheckpoint (H : HashEnv) (maxBufferSize : Nat) (b : CheckpointBuffer)
    (checkpoint : CheckpointSyncData) (sourcePeerId : Option String) : Option Nat × CheckpointBuffer :=
  let candidate : BufferedCheckpointCandidate := ⟨checkpoint, sourcePeerId⟩
  let s := candidate.sequence
  if maxBufferSize ≤ b.candidateCount then (none, b)
  else if (b.queue s).any fun c =>
      (H.hash c.checkpoint.checkpoint).toOption == (H.hash checkpoint.checkpoint).toOption then
    (some b.candidateCount, b)
  else
    (some (b.candidateCount + 1), b.setQueue s (b.queue s ++ [candidate]) fun _ hc =>
      (List.mem_append.mp hc).elim mem_queue_sequence fun hc => congrArg _ (List.mem_singleton.mp hc))

def popNextBufferCandidate (b : CheckpointBuffer) (nextSequence : Nat) :
    Option BufferedCheckpointCandidate × CheckpointBuffer :=
  ((b.queue nextSequence).head?, b.setQueue nextSequence (b.queue nextSequence).tail fun _ hc =>
    mem_queue_sequence (List.mem_of_mem_tail hc))

def requeueCheckpointCandidateFront (b : CheckpointBuffer) (c : BufferedCheckpointCandidate) :
    CheckpointBuffer :=
  b.setQueue c.sequence (c :: b.queue c.sequence) fun _ hd =>
    (List.mem_cons.mp hd).elim (congrArg _) mem_queue_sequence

def retainAbove (b : CheckpointBuffer) (height : Nat) : CheckpointBuffer where
  queues := b.queues.filterKeys fun s => decide (height < s)
  keyed := by
    intro s q h
    rw [OrdMap.find?_filterKeys] at h
    split_ifs at h
    exact b.keyed s q h

end CheckpointBuffer

def checkpointWaitsForDagEvidence (error : String) : Bool :=
  decide ("has not been committed by the local Mysticeti DAG".toList <:+: error.toList)

/-- Why the loop over the buffer ended. -/
inductive SyncStop where
  | waiting
  | failed
  | drained
  deriving DecidableEq

/-- A candidate that was tried, the height at which it was, and the engine's answer. -/
structure SyncAttempt where
  height : Nat
  candidate : BufferedCheckpointCandidate
  answer : Except String Unit

namespace SyncAttempt

def synced (a : SyncAttempt) : Bool := a.answer.toBool

def waits (a : SyncAttempt) : Bool :=
  match a.answer with
  | .ok _ => false
  | .error e => checkpointWaitsForDagEvidence e

end SyncAttempt

/-- What the loop leaves, and the attempts it made. -/
structure SyncLoop (Ω : Type) where
  stop : SyncStop
  tried : List SyncAttempt
  engine : Ω
  height : Nat
  buffer : CheckpointBuffer

def SyncLoop.after {Ω : Type} (a : SyncAttempt) (r : SyncLoop Ω) : SyncLoop Ω := { r with tried := a :: r.tried }

section Apply

open CheckpointBuffer

variable {Ω : Type} (sync : Ω → CheckpointSyncData → Except String Unit × Ω)

/-- The loop, one unit of fuel per iteration. -/
def applyBuffered : Nat → Ω → Nat → CheckpointBuffer → Option (SyncLoop Ω)
  | 0, _, _, _ => none
  | fuel + 1, engine, height, b =>
    match b.popNextBufferCandidate (height + 1) with
    | (none, b) => some ⟨.drained, [], engine, height, b⟩
    | (some c, b) =>
      match sync engine c.checkpoint with
      | (.ok _, engine) => (applyBuffered fuel engine (height + 1) b).map (·.after ⟨height, c, .ok ()⟩)
      | (.error e, engine) =>
        if checkpointWaitsForDagEvidence e then
          some ⟨.waiting, [⟨height, c, .error e⟩], engine, height, b.requeueCheckpointCandidateFront c⟩
        else if (b.queue c.sequence).isEmpty then
          some ⟨.failed, [⟨height, c, .error e⟩], engine, height, b⟩
        else (applyBuffered fuel engine height b).map (·.after ⟨height, c, .error e⟩)

def tryApplyBufferedCheckpoints (fuel : Nat) (engine : Ω) (height : Nat) (b : CheckpointBuffer) :
    Option (SyncLoop Ω) :=
  (applyBuffered sync fuel engine height b).map fun r => { r with buffer := r.buffer.retainAbove r.height }

end Apply

end Kanari

import Mathlib.Data.List.Basic

/-!
# Durable writes and crashes

A process that stops leaves what a prefix of its atomic writes has made.
-/

namespace Kanari.Lib

variable {σ : Type}

def writeAll (ws : List (σ → σ)) (s : σ) : σ := ws.foldl (fun s w => w s) s

@[simp] lemma writeAll_nil (s : σ) : writeAll [] s = s := rfl

@[simp] lemma writeAll_cons (w : σ → σ) (ws : List (σ → σ)) (s : σ) :
    writeAll (w :: ws) s = writeAll ws (w s) := rfl

lemma writeAll_append (ws vs : List (σ → σ)) (s : σ) :
    writeAll (ws ++ vs) s = writeAll vs (writeAll ws s) := List.foldl_append

/-- The store that is left when the process stops before, between or after the writes. -/
def Crash (ws : List (σ → σ)) (s s' : σ) : Prop := ∃ k, s' = writeAll (ws.take k) s

variable {s s' : σ} {ws : List (σ → σ)} {P : σ → Prop}

lemma crash_nil : Crash [] s s' ↔ s' = s := by
  simp [Crash]

lemma crash_cons {w : σ → σ} : Crash (w :: ws) s s' ↔ s' = s ∨ Crash ws (w s) s' := by
  constructor
  · rintro ⟨k, rfl⟩
    cases k with
    | zero => exact .inl rfl
    | succ k => exact .inr ⟨k, rfl⟩
  · rintro (rfl | ⟨k, rfl⟩)
    · exact ⟨0, rfl⟩
    · exact ⟨k + 1, rfl⟩

lemma crash_append {vs : List (σ → σ)} :
    Crash (ws ++ vs) s s' ↔ Crash ws s s' ∨ Crash vs (writeAll ws s) s' := by
  induction ws generalizing s with
  | nil =>
    rw [List.nil_append, crash_nil]
    exact ⟨.inr, fun h => h.elim (fun h => h ▸ ⟨0, rfl⟩) id⟩
  | cons w ws ih => rw [List.cons_append, crash_cons, crash_cons, ih, or_assoc, writeAll_cons]

lemma Crash.invariant (hstep : ∀ w ∈ ws, ∀ s, P s → P (w s)) (h : Crash ws s s') (hs : P s) :
    P s' := by
  induction ws generalizing s with
  | nil => exact crash_nil.mp h ▸ hs
  | cons w ws ih =>
    rcases crash_cons.mp h with rfl | h
    · exact hs
    · exact ih (fun v hv => hstep v (List.mem_cons_of_mem _ hv)) h (hstep w List.mem_cons_self s hs)

lemma crash_all (ws : List (σ → σ)) (s : σ) : Crash ws s (writeAll ws s) :=
  ⟨ws.length, by rw [List.take_length]⟩

lemma writeAll_invariant (hstep : ∀ w ∈ ws, ∀ s, P s → P (w s)) (hs : P s) : P (writeAll ws s) :=
  (crash_all ws s).invariant hstep hs

lemma writeAll_establishes {Q : σ → Prop} (hkeepP : ∀ w ∈ ws, ∀ s, P s → P (w s))
    (hkeepQ : ∀ w ∈ ws, ∀ s, Q s → Q (w s)) {w : σ → σ} (hw : w ∈ ws) (hbrings : ∀ s, P s → Q (w s))
    (hs : P s) : Q (writeAll ws s) := by
  obtain ⟨before, after, rfl⟩ := List.append_of_mem hw
  rw [writeAll_append, writeAll_cons]
  refine writeAll_invariant (fun v hv => hkeepQ v (by simp [hv])) (hbrings _ ?_)
  exact writeAll_invariant (fun v hv => hkeepP v (by simp [hv])) hs

end Kanari.Lib

import Kanari.Lib.Checked

/-!
# Readers of a byte stream

`Reads` says that a reader finds a value where its encoding stands, whatever comes after. How a
stream keeps its bytes is a parameter.
-/

namespace Kanari.Lib

variable {σ ε α β : Type}

abbrev Reader (σ ε α : Type) := σ → Except ε (α × σ)

def Reads (stream : List UInt8 → σ) (read : Reader σ ε α) (code : List UInt8) (a : α) : Prop :=
  ∀ rest, read (stream (code ++ rest)) = .ok (a, stream rest)

def repeatRead (read : Reader σ ε α) : Nat → List α → Reader σ ε (List α)
  | 0, done, s => .ok (done, s)
  | n + 1, done, s => do
    let (a, s) ← read s
    repeatRead read n (done ++ [a]) s

variable {stream : List UInt8 → σ} {read : Reader σ ε α}

lemma Reads.bind {code code' : List UInt8} {a : α} {b : β} (h : Reads stream read code a)
    (next : α → Reader σ ε β) (h' : Reads stream (next a) code' b) :
    Reads stream (fun s => read s >>= fun p => next p.1 p.2) (code ++ code') b := by
  intro rest
  simp only [List.append_assoc, h (code' ++ rest), ok_bind, h' rest]

lemma reads_repeatRead (code : α → List UInt8) {as : List α}
    (h : ∀ a ∈ as, Reads stream read (code a) a) (done : List α) :
    Reads stream (repeatRead read as.length done) (as.flatMap code) (done ++ as) := by
  induction as generalizing done with
  | nil =>
    intro rest
    simp [repeatRead]
  | cons a as ih =>
    intro rest
    obtain ⟨ha, has⟩ := List.forall_mem_cons.1 h
    rw [List.length_cons, repeatRead, List.flatMap_cons, List.append_assoc, ha _, ok_bind]
    simp only [ih has (done ++ [a]) rest, List.append_assoc, List.singleton_append]

end Kanari.Lib

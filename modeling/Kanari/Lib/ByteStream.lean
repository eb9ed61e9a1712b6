import Kanari.Lib.Text
import Mathlib.Data.List.TakeDrop

/-!
# Byte streams

A source `Serves` a list if every read returns a beginning of what is left, and something unless
the buffer or the rest is empty. A source that `Guards` may fail instead.
-/

namespace Kanari.Lib

namespace Text

def beBytes (width n : Nat) : List UInt8 := (leBytes width n).reverse

def beNat (bytes : List UInt8) : Nat := leNat bytes.reverse

@[simp] lemma length_beBytes (width n : Nat) : (beBytes width n).length = width := by
  simp [beBytes]

lemma beNat_beBytes {width n : Nat} (hn : n < 256 ^ width) : beNat (beBytes width n) = n := by
  rw [beNat, beBytes, List.reverse_reverse, leNat_leBytes width n hn]

lemma beBytes_beNat (bytes : List UInt8) : beBytes bytes.length (beNat bytes) = bytes := by
  have hlt : leNat bytes.reverse < 256 ^ bytes.length := by
    rw [← List.length_reverse]
    exact leNat_lt bytes.reverse
  have hrev : leBytes bytes.length (beNat bytes) = bytes.reverse :=
    leNat_injective (by simp) (leNat_leBytes _ _ hlt)
  rw [beBytes, hrev, List.reverse_reverse]

end Text

variable {α ε σ : Type}

def readExact (n : Nat) (source : List α) : Option (List α) × List α :=
  if n ≤ source.length then (some (source.take n), source.drop n) else (none, [])

@[simp] lemma readExact_append {n : Nat} {l : List α} (h : l.length = n) (rest : List α) :
    readExact n (l ++ rest) = (some l, rest) := by
  subst h
  simp [readExact]

lemma readExact_some {n : Nat} {source l rest : List α} (h : readExact n source = (some l, rest)) :
    source = l ++ rest ∧ l.length = n := by
  unfold readExact at h
  split_ifs at h with hle
  · cases h
    exact ⟨(List.take_append_drop n source).symm, List.length_take_of_le hle⟩
  · cases h

/-- The first `count` pieces of `n` elements each, the last of them maybe shorter. -/
def pieces (n count : Nat) (l : List α) : List (List α) :=
  (List.range count).map fun i => (l.drop (i * n)).take n

def fullPieces (n : Nat) (l : List α) : List (List α) := pieces n (l.length / n) l

def lastPiece (n : Nat) (l : List α) : List α := l.drop (l.length / n * n)

def chunks (n : Nat) (l : List α) : List (List α) := pieces n ((l.length + n - 1) / n) l

@[simp] lemma length_pieces (n count : Nat) (l : List α) : (pieces n count l).length = count := by
  simp [pieces]

lemma flatten_pieces (n count : Nat) (l : List α) :
    (pieces n count l).flatten = l.take (count * n) := by
  induction count with
  | zero => simp [pieces]
  | succ count ih =>
    have hnext : pieces n (count + 1) l = pieces n count l ++ [(l.drop (count * n)).take n] := by
      simp [pieces, List.range_succ]
    rw [hnext, List.flatten_append, ih, List.flatten_singleton, Nat.succ_mul, List.take_add]

lemma length_le_of_mem_pieces {n count : Nat} {l piece : List α} (h : piece ∈ pieces n count l) :
    piece.length ≤ n := by
  obtain ⟨i, -, rfl⟩ := List.mem_map.mp h
  exact List.length_take_le _ _

lemma flatten_chunks {n : Nat} (hn : 0 < n) (l : List α) : (chunks n l).flatten = l := by
  have hcover : l.length ≤ (l.length + n - 1) / n * n := by
    have hmod := Nat.div_add_mod (l.length + n - 1) n
    have hlt := Nat.mod_lt (l.length + n - 1) hn
    rw [Nat.mul_comm] at hmod
    omega
  rw [chunks, flatten_pieces, List.take_of_length_le hcover]

lemma pieces_append {n : Nat} (hn : 0 < n) {piece : List α} (hpiece : piece.length = n)
    (l : List α) :
    fullPieces n (piece ++ l) = piece :: fullPieces n l ∧
      lastPiece n (piece ++ l) = lastPiece n l := by
  have hcount : (piece ++ l).length / n = l.length / n + 1 := by
    rw [List.length_append, hpiece, Nat.add_comm, Nat.add_div_right _ hn]
  have hdrop : ∀ k, (piece ++ l).drop ((k + 1) * n) = l.drop (k * n) := by
    intro k
    rw [Nat.succ_mul, Nat.add_comm, ← List.drop_drop, ← hpiece, List.drop_left]
  constructor
  · rw [fullPieces, pieces, hcount, List.range_succ_eq_map, List.map_cons, List.map_map]
    congr 1
    · rw [Nat.zero_mul, List.drop_zero, ← hpiece, List.take_left]
    · refine List.map_congr_left fun k _ => ?_
      rw [Function.comp_apply, hdrop]
  · rw [lastPiece, hcount, hdrop, lastPiece]

/-- There is only one way to cut a list into pieces of `n` elements and a shorter one. -/
lemma pieces_unique {n : Nat} {full : List (List α)} {rest : List α}
    (hfull : ∀ piece ∈ full, piece.length = n) (hrest : rest.length < n) :
    fullPieces n (full.flatten ++ rest) = full ∧ lastPiece n (full.flatten ++ rest) = rest := by
  induction full with
  | nil =>
    have hzero : rest.length / n = 0 := Nat.div_eq_of_lt hrest
    simp [fullPieces, pieces, lastPiece, hzero]
  | cons piece full ih =>
    obtain ⟨hpieces, hlast⟩ := ih fun p hp => hfull p (List.mem_cons_of_mem _ hp)
    obtain ⟨hcons, hsame⟩ := pieces_append (by omega) (hfull piece List.mem_cons_self)
      (full.flatten ++ rest)
    rw [List.flatten_cons, List.append_assoc, hcons, hsame, hpieces, hlast]
    exact ⟨rfl, rfl⟩

section

variable (read : σ → Nat → Except ε (List α) × σ)

def readEach : σ → List Nat → List (Except ε (List α)) × σ
  | s, [] => ([], s)
  | s, n :: ns =>
    let (result, s) := read s n
    let (results, s) := readEach s ns
    (result :: results, s)

/-- Reads until nothing comes, the `i`-th time into a buffer of `sizes i + 1`; nothing if `fuel`
reads are not enough. -/
def copyLoop (sizes : Nat → Nat) : Nat → Nat → σ → List α → Option (Except ε (List α))
  | 0, _, _, _ => none
  | fuel + 1, i, s, written =>
    match read s (sizes i + 1) with
    | (.error e, _) => some (.error e)
    | (.ok [], _) => some (.ok written)
    | (.ok (a :: out), s) => copyLoop sizes fuel (i + 1) s (written ++ a :: out)

/-- `Left s rest`: in the state `s` the source has `rest` left. -/
def Serves (Left : σ → List α → Prop) : Prop :=
  ∀ s rest n, Left s rest → ∃ k s', read s n = (.ok (rest.take k), s') ∧ Left s' (rest.drop k) ∧
    k ≤ n ∧ (0 < n → rest ≠ [] → 0 < k)

/-- Every read succeeds, the results are a beginning of the list, and a read with room returns
nothing exactly at its end, which as many reads with room as there are elements reach. -/
def Delivers (s : σ) (l : List α) : Prop :=
  ∀ sizes, ∃ (outs : List (List α)) (s' : σ), readEach read s sizes = (outs.map .ok, s') ∧ outs.flatten <+: l ∧
    (∀ n, 0 < n → ((read s' n).1 = .ok [] ↔ outs.flatten = l)) ∧
    (l.length ≤ (sizes.filter (0 < ·)).length → outs.flatten = l)

def delivered : List (Except ε (List α)) → List α
  | .ok out :: results => out ++ delivered results
  | _ => []

/-- `At s out`: the source has returned `out` and is now in the state `s`. A read fails or goes on
from there, and it returns nothing into a buffer with room only once `Done` holds. -/
def Guards (At : σ → List α → Prop) (Done : List α → Prop) : Prop :=
  ∀ s out n, At s out → (∃ e s', read s n = (.error e, s')) ∨
    ∃ piece s', read s n = (.ok piece, s') ∧ At s' (out ++ piece) ∧
      (0 < n → piece = [] → Done out)

variable {read} {Left : σ → List α → Prop}

section

variable {At : σ → List α → Prop} {Done : List α → Prop} (h : Guards read At Done)

include h

theorem Guards.delivered {s : σ} {out : List α} (hs : At s out) (sizes : List Nat) :
    ∃ s', At s' (out ++ Lib.delivered (readEach read s sizes).1) := by
  induction sizes generalizing s out with
  | nil => exact ⟨s, by simpa [readEach, Lib.delivered] using hs⟩
  | cons n ns ih =>
    obtain ⟨e, s₁, hread⟩ | ⟨piece, s₁, hread, hs₁, -⟩ := h s out n hs
    · exact ⟨s, by simpa [readEach, hread, Lib.delivered] using hs⟩
    · obtain ⟨s', hs'⟩ := ih hs₁
      exact ⟨s', by simpa [readEach, hread, Lib.delivered] using hs'⟩

/-- If nothing longer than `bound` is ever returned, the copy comes to an end. -/
theorem Guards.copyLoop {bound : Nat} (hbound : ∀ s out, At s out → out.length ≤ bound)
    (sizes : Nat → Nat) {fuel : Nat} (i : Nat) {s : σ} {written : List α} (hs : At s written)
    (hfuel : bound < fuel + written.length) :
    (∃ e, Lib.copyLoop read sizes fuel i s written = some (.error e)) ∨
      ∃ out, Lib.copyLoop read sizes fuel i s written = some (.ok out) ∧ Done out := by
  induction fuel generalizing i s written with
  | zero =>
    have := hbound s written hs
    omega
  | succ fuel ih =>
    unfold Lib.copyLoop
    obtain ⟨e, s₁, hread⟩ | ⟨piece, s₁, hread, hs₁, hdone⟩ := h s written (sizes i + 1) hs
    · rw [hread]
      exact .inl ⟨e, rfl⟩
    · rw [hread]
      cases piece with
      | nil => exact .inr ⟨written, rfl, hdone (Nat.succ_pos _) rfl⟩
      | cons a piece =>
        refine ih (i + 1) hs₁ ?_
        rw [List.length_append, List.length_cons]
        omega

end

lemma Serves.readEach (h : Serves read Left) {s : σ} {rest : List α} (hs : Left s rest)
    (sizes : List Nat) :
    ∃ (outs : List (List α)) (s' : σ), Lib.readEach read s sizes = (outs.map .ok, s') ∧
      ∃ k, outs.flatten = rest.take k ∧ Left s' (rest.drop k) ∧
        min rest.length (sizes.filter (0 < ·)).length ≤ k := by
  induction sizes generalizing s rest with
  | nil => exact ⟨[], s, rfl, 0, rfl, hs, by simp⟩
  | cons n ns ih =>
    obtain ⟨j, s₁, hread, hs₁, -, hprogress⟩ := h s rest n hs
    obtain ⟨outs, s', heach, k, hflatten, hleft, hk⟩ := ih hs₁
    refine ⟨rest.take j :: outs, s', ?_, j + k, ?_, ?_, ?_⟩
    · simp [Lib.readEach, hread, heach]
    · rw [List.flatten_cons, hflatten, List.take_add]
    · rwa [List.drop_drop] at hleft
    · rw [List.length_drop] at hk
      -- a read with room takes an element, unless nothing is left
      by_cases hn : 0 < n
      · rw [List.filter_cons_of_pos (by simpa using hn), List.length_cons]
        by_cases hrest : rest = []
        · simp [hrest]
        · have := hprogress hn hrest
          omega
      · rw [List.filter_cons_of_neg (by simpa using hn)]
        omega

theorem Serves.delivers (h : Serves read Left) {s : σ} {l : List α} (hs : Left s l) :
    Delivers read s l := by
  intro sizes
  obtain ⟨outs, s', heach, k, hflatten, hleft, hk⟩ := h.readEach hs sizes
  refine ⟨outs, s', heach, ?_, ?_, ?_⟩
  · rw [hflatten]
    exact List.take_prefix k l
  · intro n hn
    obtain ⟨j, s'', hread, -, -, hprogress⟩ := h s' (l.drop k) n hleft
    rw [hread, hflatten, List.take_eq_self_iff]
    constructor
    · intro hnil
      by_contra hlt
      have hrest : l.drop k ≠ [] := by
        rw [Ne, List.drop_eq_nil_iff]
        exact hlt
      have hpos := hprogress hn hrest
      have htake : (l.drop k).take j = [] := Except.ok.inj hnil
      rw [List.take_eq_nil_iff] at htake
      obtain hj | hnil := htake
      · omega
      · exact hrest hnil
    · intro hle
      rw [List.drop_eq_nil_of_le hle, List.take_nil]
  · intro hsizes
    rw [hflatten]
    exact List.take_of_length_le (by omega)

theorem Serves.copyLoop (h : Serves read Left) (sizes : Nat → Nat) {fuel : Nat} (i : Nat) {s : σ}
    {rest : List α} (written : List α) (hs : Left s rest) (hfuel : rest.length < fuel) :
    Lib.copyLoop read sizes fuel i s written = some (.ok (written ++ rest)) := by
  induction fuel generalizing i s rest written with
  | zero => omega
  | succ fuel ih =>
    obtain ⟨k, s', hread, hs', -, hprogress⟩ := h s rest (sizes i + 1) hs
    unfold Lib.copyLoop
    rw [hread]
    cases hout : rest.take k with
    | nil =>
      obtain hk | hrest := List.take_eq_nil_iff.mp hout
      · by_cases hrest : rest = []
        · simp [hrest]
        · have := hprogress (by omega) hrest
          omega
      · simp [hrest]
    | cons a out =>
      have hshort : (rest.drop k).length < fuel := by
        have hlen := congrArg List.length hout
        simp only [List.length_take, List.length_cons] at hlen
        rw [List.length_drop]
        omega
      have hcopy := ih (i + 1) (written ++ a :: out) hs' hshort
      rw [← hout, List.append_assoc, List.take_append_drop, hout] at hcopy
      exact hcopy

end

end Kanari.Lib

import Kanari.Lib.OrdMap

/-!
# Pending writes over a map

An overlay maps a key to its pending value, or to `none` for a pending removal.
-/

namespace Kanari.Lib

variable {K V : Type} [LinearOrder K]

abbrev Overlay (K V : Type) [LinearOrder K] := OrdMap K (Option V)

namespace Overlay

def read (overlay : Overlay K V) (m : OrdMap K V) (k : K) : Option V :=
  match overlay.find? k with
  | some value => value
  | none => m.find? k

def writeEntry (m : OrdMap K V) (e : K × Option V) : OrdMap K V :=
  match e.2 with
  | some value => m.insert e.1 value
  | none => m.erase e.1

def flush (overlay : Overlay K V) (m : OrdMap K V) : OrdMap K V := overlay.entries.foldl writeEntry m

lemma find?_writeEntry (m : OrdMap K V) (e : K × Option V) (k : K) :
    (writeEntry m e).find? k = if k = e.1 then e.2 else m.find? k := by
  unfold writeEntry
  cases he : e.2 with
  | none => exact OrdMap.find?_erase m e.1 k
  | some value => exact OrdMap.find?_insert m e.1 k value

lemma find?_foldl_writeEntry {l : List (K × Option V)} (hl : l.Pairwise (·.1 < ·.1)) (m : OrdMap K V)
    (k : K) : (l.foldl writeEntry m).find? k =
      match OrdMap.lookup k l with
      | some value => value
      | none => m.find? k := by
  induction l generalizing m with
  | nil => rfl
  | cons e l ih =>
    obtain ⟨hfirst, hl⟩ := List.pairwise_cons.mp hl
    rw [List.foldl_cons, ih hl, OrdMap.lookup]
    split_ifs with hk
    · subst hk
      rw [OrdMap.lookup_eq_none_of_lt hfirst]
      exact (find?_writeEntry m e e.1).trans (if_pos rfl)
    · rw [find?_writeEntry, if_neg hk]

lemma find?_flush (overlay : Overlay K V) (m : OrdMap K V) (k : K) :
    (overlay.flush m).find? k = overlay.read m k :=
  find?_foldl_writeEntry overlay.sorted m k

lemma read_of_absent {overlay : Overlay K V} {k : K} (h : overlay.find? k = none) (m : OrdMap K V) :
    overlay.read m k = m.find? k := by
  unfold read
  rw [h]

lemma read_of_present {overlay : Overlay K V} {k : K} {value : Option V}
    (h : overlay.find? k = some value) (m : OrdMap K V) : overlay.read m k = value := by
  unfold read
  rw [h]

end Overlay

end Kanari.Lib

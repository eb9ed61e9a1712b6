import Kanari.MoveCoin

/-!
# Vectors of Move

The operations of `std::vector` that can abort, on lists.
-/

namespace Kanari.Move

open Lib

variable {α : Type}

def borrow (xs : List α) (i : Nat) : Except Abort α := orError xs[i]? .noSuchValue

def popBack (xs : List α) : Except Abort (α × List α) :=
  match xs.getLast? with
  | some x => .ok (x, xs.dropLast)
  | none => .error .noSuchValue

def destroyEmpty (xs : List α) : Except Abort Unit := ensure xs.isEmpty .noSuchValue

lemma borrow_eq_ok {xs : List α} {i : Nat} {x : α} : borrow xs i = .ok x ↔ xs[i]? = some x :=
  orError_eq_ok

lemma borrow_of_lt {xs : List α} {i : Nat} (h : i < xs.length) : borrow xs i = .ok xs[i] :=
  borrow_eq_ok.2 (List.getElem?_eq_getElem h)

lemma popBack_concat (xs : List α) (x : α) : popBack (xs ++ [x]) = .ok (x, xs) := by
  simp [popBack]

end Kanari.Move

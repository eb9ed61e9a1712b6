import Mathlib.Data.List.Basic

/-!
# Fallible computations

A chain of binds is taken apart with `bind_eq_ok`, a loop of checks with `forOk_eq_ok`.
-/

namespace Kanari.Lib

variable {ε α β σ : Type}

def ensure (c : Bool) (e : ε) : Except ε Unit := if c then .ok () else .error e

variable {x : Except ε α} {f : α → Except ε β} {a : α} {s t : σ} {l : List α}

@[simp] lemma ensure_eq_ok {c : Bool} {e : ε} {u : Unit} : ensure c e = .ok u ↔ c = true := by
  cases c <;> simp [ensure]

@[simp] lemma ensure_true (e : ε) : ensure true e = .ok () := rfl

lemma bind_eq_ok {b : β} : (x >>= f) = .ok b ↔ ∃ a, x = .ok a ∧ f a = .ok b := by
  cases x with
  | error e => simp [Bind.bind, Except.bind]
  | ok a => simp [Bind.bind, Except.bind]

lemma check_bind_eq_ok {x : Except ε Unit} {y : Except ε β} {b : β} :
    (x >>= fun _ => y) = .ok b ↔ x = .ok () ∧ y = .ok b := by
  rw [bind_eq_ok]
  exact ⟨fun ⟨_, hx, hy⟩ => ⟨hx, hy⟩, fun ⟨hx, hy⟩ => ⟨(), hx, hy⟩⟩

@[simp] lemma ok_bind (a : α) (f : α → Except ε β) : ((.ok a : Except ε α) >>= f) = f a := rfl

@[simp] lemma pure_eq_ok (a : α) : (pure a : Except ε α) = .ok a := rfl

def orError (o : Option α) (e : ε) : Except ε α :=
  match o with
  | some a => .ok a
  | none => .error e

@[simp] lemma orError_eq_ok {o : Option α} {e : ε} : orError o e = .ok a ↔ o = some a := by
  cases o <;> simp [orError]

def mapError {ε' : Type} (f : ε → ε') : Except ε α → Except ε' α
  | .ok a => .ok a
  | .error e => .error (f e)

@[simp] lemma mapError_eq_ok {ε' : Type} {f : ε → ε'} : mapError f x = .ok a ↔ x = .ok a := by
  cases x <;> simp [mapError]

def foldOk (f : σ → α → Except ε σ) : σ → List α → Except ε σ
  | s, [] => .ok s
  | s, a :: as => f s a >>= fun s' => foldOk f s' as

@[simp] lemma foldOk_nil (f : σ → α → Except ε σ) (s : σ) : foldOk f s [] = .ok s := rfl

lemma foldOk_cons_eq_ok {f : σ → α → Except ε σ} {as : List α} :
    foldOk f s (a :: as) = .ok t ↔ ∃ s', f s a = .ok s' ∧ foldOk f s' as = .ok t := by
  simp only [foldOk, bind_eq_ok]

lemma foldOk_append_eq_ok {f : σ → α → Except ε σ} {as bs : List α} :
    foldOk f s (as ++ bs) = .ok t ↔ ∃ s', foldOk f s as = .ok s' ∧ foldOk f s' bs = .ok t := by
  induction as generalizing s with
  | nil => simp
  | cons a as ih =>
    simp only [List.cons_append, foldOk_cons_eq_ok, ih]
    constructor
    · rintro ⟨s₁, h₁, s₂, h₂, h⟩
      exact ⟨s₂, ⟨s₁, h₁, h₂⟩, h⟩
    · rintro ⟨s₂, ⟨s₁, h₁, h₂⟩, h⟩
      exact ⟨s₁, h₁, s₂, h₂, h⟩

lemma foldOk_invariant {f : σ → α → Except ε σ} (P : σ → Prop)
    (hstep : ∀ s a s', a ∈ l → P s → f s a = .ok s' → P s') (hs : P s) (h : foldOk f s l = .ok t) :
    P t := by
  induction l generalizing s with
  | nil => cases h; exact hs
  | cons a as ih =>
    obtain ⟨s', hs', hrest⟩ := foldOk_cons_eq_ok.mp h
    exact ih (fun s a s' ha => hstep s a s' (List.mem_cons_of_mem _ ha))
      (hstep s a s' List.mem_cons_self hs hs') hrest

lemma foldl_invariant {f : σ → α → σ} (P : σ → Prop) (hstep : ∀ s a, P s → P (f s a)) (l : List α)
    (hs : P s) : P (l.foldl f s) := by
  induction l generalizing s with
  | nil => exact hs
  | cons a as ih => exact ih (hstep s a hs)

def forOk (f : α → Except ε Unit) : List α → Except ε Unit
  | [] => .ok ()
  | a :: as => f a >>= fun _ => forOk f as

lemma forOk_eq_ok {f : α → Except ε Unit} {u : Unit} :
    forOk f l = .ok u ↔ ∀ a ∈ l, f a = .ok () := by
  induction l with
  | nil => simp [forOk]
  | cons a as ih =>
    simp only [forOk, bind_eq_ok, ih, List.forall_mem_cons]
    exact ⟨fun ⟨_, ha, has⟩ => ⟨ha, has⟩, fun ⟨ha, has⟩ => ⟨(), ha, has⟩⟩

lemma mem_of_mapM_ok {r : List β} (h : l.mapM f = .ok r) : ∀ b ∈ r, ∃ a ∈ l, f a = .ok b := by
  induction l generalizing r with
  | nil =>
    cases h
    exact fun _ hb => absurd hb List.not_mem_nil
  | cons a l ih =>
    simp only [List.mapM_cons, bind_eq_ok, pure_eq_ok, Except.ok.injEq] at h
    obtain ⟨b, hb, bs, hbs, rfl⟩ := h
    intro c hc
    rcases List.mem_cons.mp hc with rfl | hc
    · exact ⟨a, List.mem_cons_self, hb⟩
    · obtain ⟨a', ha', hfa'⟩ := ih hbs c hc
      exact ⟨a', List.mem_cons_of_mem _ ha', hfa'⟩

lemma exists_of_mapM_ok {r : List β} (h : l.mapM f = .ok r) : ∀ a ∈ l, ∃ b ∈ r, f a = .ok b := by
  induction l generalizing r with
  | nil => exact fun _ ha => absurd ha List.not_mem_nil
  | cons a l ih =>
    simp only [List.mapM_cons, bind_eq_ok, pure_eq_ok, Except.ok.injEq] at h
    obtain ⟨b, hb, bs, hbs, rfl⟩ := h
    intro c hc
    rcases List.mem_cons.mp hc with rfl | hc
    · exact ⟨b, List.mem_cons_self, hb⟩
    · obtain ⟨b', hb', hfc⟩ := ih hbs c hc
      exact ⟨b', List.mem_cons_of_mem _ hb', hfc⟩

lemma length_of_mapM_ok {r : List β} (h : l.mapM f = .ok r) : r.length = l.length := by
  induction l generalizing r with
  | nil =>
    cases h
    rfl
  | cons a l ih =>
    simp only [List.mapM_cons, bind_eq_ok, pure_eq_ok, Except.ok.injEq] at h
    obtain ⟨b, -, rest, hrest, rfl⟩ := h
    rw [List.length_cons, ih hrest, List.length_cons]

def okAnd (x : Except ε α) (p : α → Bool) : Bool :=
  match x with
  | .ok a => p a
  | .error _ => false

lemma exists_of_okAnd {p : α → Bool} (h : okAnd x p = true) : ∃ a, x = .ok a ∧ p a = true := by
  cases x with
  | error e => cases h
  | ok a => exact ⟨a, rfl, h⟩

end Kanari.Lib

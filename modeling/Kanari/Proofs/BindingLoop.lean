import Kanari.Binding

/-!
# Frame of the binding loop

One iteration of the loop touches the argument of its own parameter and nothing else.
-/

namespace Kanari.Proofs

open Lib

/-- `st'` differs from `st` at most in argument `i`. -/
structure ChangesOnly (i : Nat) (st st' : BindState) : Prop where
  length_eq : st'.finalArgs.length = st.finalArgs.length
  others : ∀ j, j ≠ i → st'.finalArgs[j]? = st.finalArgs[j]?

lemma ChangesOnly.refl (i : Nat) (st : BindState) : ChangesOnly i st st := ⟨rfl, fun _ _ => rfl⟩

variable {i : Nat} {st st' : BindState} {ty : RuntimeType} {ctx : EntryContext} {args : List Bytes}

lemma ChangesOnly.trans {st'' : BindState} (h : ChangesOnly i st st') (h' : ChangesOnly i st' st'') :
    ChangesOnly i st st'' :=
  ⟨h'.length_eq.trans h.length_eq, fun j hj => (h'.others j hj).trans (h.others j hj)⟩

lemma changesOnly_set {b : Bytes} (h : st'.finalArgs = st.finalArgs.set i b) :
    ChangesOnly i st st' := by
  refine ⟨by simp [h], fun j hj => ?_⟩
  rw [h, List.getElem?_set_ne (Ne.symm hj)]

lemma synthesizeOtw_changesOnly (ctx : EntryContext) (i : Nat) (ty : RuntimeType)
    (st : BindState) : ChangesOnly i st (synthesizeOtw ctx i ty st) := by
  unfold synthesizeOtw
  split
  · split
    · exact changesOnly_set rfl
    · exact ChangesOnly.refl i st
  · exact ChangesOnly.refl i st

lemma takeExplicitInput_changesOnly {p : BindState × Bool} (h : takeExplicitInput i ty st = .ok p) :
    ChangesOnly i st p.1 := by
  unfold takeExplicitInput at h
  split at h
  · split at h
    · cases h; exact ChangesOnly.refl i st
    · split at h
      · cases h
      · cases h; exact changesOnly_set rfl
  · cases h; exact ChangesOnly.refl i st

lemma loadStoredObject_changesOnly {b : Bool} (h : loadStoredObject ctx i ty b st = .ok st') :
    ChangesOnly i st st' := by
  unfold loadStoredObject at h
  split at h
  · split at h
    · cases h; exact ChangesOnly.refl i _
    · simp only at h
      split at h
      · cases h; exact ChangesOnly.refl i _
      · split at h
        · cases h; exact ChangesOnly.refl i _
        · split at h
          · cases h; exact changesOnly_set rfl
          · cases h
  · cases h; exact ChangesOnly.refl i _

lemma bindParam_changesOnly (h : bindParam ctx i ty st = .ok st') : ChangesOnly i st st' := by
  obtain ⟨p, hp, hload⟩ := bind_eq_ok.mp h
  exact (synthesizeOtw_changesOnly ctx i ty st).trans
    ((takeExplicitInput_changesOnly hp).trans (loadStoredObject_changesOnly hload))

lemma bindParams_cons {rest : List RuntimeType} (h : bindParams ctx i (ty :: rest) st = .ok st') :
    (ensureSlot ctx i ty st.finalArgs = none ∧ st' = st) ∨
    ∃ args mid, ensureSlot ctx i ty st.finalArgs = some args ∧
      bindParam ctx i ty { st with finalArgs := args } = .ok mid ∧
      bindParams ctx (i + 1) rest mid = .ok st' := by
  rw [bindParams] at h
  cases hs : ensureSlot ctx i ty st.finalArgs with
  | none =>
    rw [hs] at h
    cases h
    exact .inl ⟨rfl, rfl⟩
  | some args =>
    rw [hs] at h
    obtain ⟨mid, hmid, hrest⟩ := bind_eq_ok.mp h
    exact .inr ⟨args, mid, rfl, hmid, hrest⟩

lemma ensureSlot_of_lt (h : i < args.length) : ensureSlot ctx i ty args = some args := by
  simp [ensureSlot, Nat.not_le.mpr h]

lemma ensureSlot_spec {args' : List Bytes} (h : ensureSlot ctx i ty args = some args') :
    (∀ j, j < args.length → args'[j]? = args[j]?) ∧ i < args'.length ∧
      args.length ≤ args'.length ∧ (args.length ≤ i → args'.length = i + 1) := by
  unfold ensureSlot at h
  split at h
  · split at h
    · cases h
      refine ⟨fun j hj => List.getElem?_append_left hj, ?_, ?_, fun _ => ?_⟩ <;>
        simp only [List.length_append, List.length_replicate] <;> omega
    · cases h
  · cases h
    refine ⟨fun _ _ => rfl, ?_, le_rfl, ?_⟩ <;> omega

/-- Arguments before the loop's index are final, and the list never shrinks. -/
lemma bindParams_frame {tys : List RuntimeType} (h : bindParams ctx i tys st = .ok st') :
    (∀ j, j < i → j < st.finalArgs.length → st'.finalArgs[j]? = st.finalArgs[j]?) ∧
      st.finalArgs.length ≤ st'.finalArgs.length := by
  induction tys generalizing i st with
  | nil => cases h; exact ⟨fun _ _ _ => rfl, le_rfl⟩
  | cons ty rest ih =>
    obtain ⟨-, rfl⟩ | ⟨args, mid, hslot, hmid, hrest⟩ := bindParams_cons h
    · exact ⟨fun _ _ _ => rfl, le_rfl⟩
    · obtain ⟨hkeep, -, hgrow, -⟩ := ensureSlot_spec hslot
      have hmidOnly := bindParam_changesOnly hmid
      have hmidLen : mid.finalArgs.length = args.length := hmidOnly.length_eq
      obtain ⟨hfinal, hlen⟩ := ih hrest
      refine ⟨fun j hji hj => ?_, by omega⟩
      rw [hfinal j (by omega) (by omega), hmidOnly.others j (by omega)]
      exact hkeep j hj

lemma bindEntryArgs_eq_ok {bytes : Bytes} (h : bindEntryArgs ctx args bytes = .ok st) :
    ∃ looped, bindParams ctx 0 ctx.parameters
        { finalArgs := preprocessEntryArgs args, explicitObjectBindings := ctx.objectInputs } =
          .ok looped ∧ st = appendTxContext ctx bytes looped := by
  obtain ⟨-, -, h⟩ := bind_eq_ok.mp h
  obtain ⟨looped, hloop, hst⟩ := bind_eq_ok.mp h
  cases hst
  exact ⟨looped, hloop, rfl⟩

lemma appendTxContext_getElem {bytes : Bytes} (hi : i < st.finalArgs.length) :
    (appendTxContext ctx bytes st).finalArgs[i]? = st.finalArgs[i]? := by
  unfold appendTxContext
  split
  · exact List.getElem?_append_left hi
  · rfl

end Kanari.Proofs

import Kanari.Proofs.BindingLoop

/-!
# Where each argument comes from

The binding loop in closed form: `bindParams_routes`.
-/

namespace Kanari.Proofs

open Lib

section Routing

variable (ctx : EntryContext) (args : List Bytes)

def inputsTakenBefore (i : Nat) : Nat := ((ctx.parameters.take i).filter takesExplicitInput).length

def slotBytes (i : Nat) (ty : RuntimeType) : Bytes :=
  let raw := (preprocessEntryArgs args).getD i []
  if raw.isEmpty then (otwBytes ctx ty).getD [] else raw

def explicitInputFor (i : Nat) (ty : RuntimeType) : Option ObjectInput :=
  if takesExplicitInput ty then ctx.objectInputs[inputsTakenBefore ctx i]? else none

/-- Argument `i` once an explicit input, if there is one, has replaced it by its address. -/
def candidateBytes (i : Nat) (ty : RuntimeType) : Bytes :=
  match explicitInputFor ctx i ty with
  | some input => ((AccountAddress.fromHexLiteral input.objectRef.objectId).map (·.bytes)).getD []
  | none => slotBytes ctx args i ty

def namedAddress (i : Nat) (ty : RuntimeType) : Option AccountAddress :=
  if isObjectParam ty && !isTxContextParam ty then
    (AccountAddress.ofBytes (candidateBytes ctx args i ty)).filter fun a =>
      ctx.explicitObjectIds.isEmpty || ctx.explicitObjectIds.contains a.toHexLiteral
  else none

/-- The stored object that parameter `i` is filled from. -/
def namedObject (i : Nat) (ty : RuntimeType) : Option StoredObject :=
  (namedAddress ctx args i ty).bind fun a => ctx.view.getObjectForExecution a.toHexLiteral

def routedBytes (i : Nat) (ty : RuntimeType) : Bytes :=
  match namedObject ctx args i ty with
  | some obj => obj.data
  | none => candidateBytes ctx args i ty

end Routing

variable {ctx : EntryContext} {args : List Bytes}

variable {i : Nat} {ty : RuntimeType} {st st' : BindState}

lemma inputsTakenBefore_succ (hty : ctx.parameters[i]? = some ty) :
    inputsTakenBefore ctx (i + 1) =
      inputsTakenBefore ctx i + if takesExplicitInput ty then 1 else 0 := by
  unfold inputsTakenBefore
  rw [List.take_add_one, hty, List.filter_append, List.length_append]
  by_cases h : takesExplicitInput ty <;> simp [h]

/-- What one iteration does, given what the slot holds and which inputs are left. -/
structure Routed (ctx : EntryContext) (args : List Bytes) (i : Nat) (ty : RuntimeType)
    (st st' : BindState) : Prop where
  bytes : st'.finalArgs[i]? = some (routedBytes ctx args i ty)
  inputs : st'.explicitObjectBindings = ctx.objectInputs.drop (inputsTakenBefore ctx (i + 1))
  bound : st'.bound = st.bound ++ ((namedObject ctx args i ty).map (i, ·)).toList

lemma synthesizeOtw_slot (ty : RuntimeType) (hi : i < st.finalArgs.length)
    (hslot : st.finalArgs.getD i [] = (preprocessEntryArgs args).getD i []) :
    (synthesizeOtw ctx i ty st).finalArgs[i]? = some (slotBytes ctx args i ty) ∧
      (synthesizeOtw ctx i ty st).explicitObjectBindings = st.explicitObjectBindings ∧
      (synthesizeOtw ctx i ty st).bound = st.bound := by
  have hget : st.finalArgs[i]? = some (st.finalArgs.getD i []) := by
    simp [List.getD_eq_getElem?_getD, List.getElem?_eq_getElem hi]
  unfold synthesizeOtw slotBytes
  rw [← hslot]
  by_cases hempty : (st.finalArgs.getD i []).isEmpty = true
  · rw [if_pos hempty, if_pos hempty]
    cases hotw : otwBytes ctx ty with
    | some bytes => simp [hi]
    | none => exact ⟨by rw [hget]; simpa using hempty, rfl, rfl⟩
  · rw [if_neg hempty, if_neg hempty]
    exact ⟨hget, rfl, rfl⟩

lemma takeExplicitInput_candidate {p : BindState × Bool} (hty : ctx.parameters[i]? = some ty)
    (hi : i < st.finalArgs.length) (hslot : st.finalArgs[i]? = some (slotBytes ctx args i ty))
    (hinputs : st.explicitObjectBindings = ctx.objectInputs.drop (inputsTakenBefore ctx i))
    (h : takeExplicitInput i ty st = .ok p) :
    p.1.finalArgs[i]? = some (candidateBytes ctx args i ty) ∧
      p.1.explicitObjectBindings = ctx.objectInputs.drop (inputsTakenBefore ctx (i + 1)) ∧
      p.1.bound = st.bound := by
  rw [inputsTakenBefore_succ hty]
  unfold takeExplicitInput at h
  unfold candidateBytes explicitInputFor
  by_cases htakes : takesExplicitInput ty = true
  · simp only [if_pos htakes] at h ⊢
    have hhead : ctx.objectInputs[inputsTakenBefore ctx i]? = st.explicitObjectBindings.head? := by
      rw [hinputs, List.head?_drop]
    rw [hhead]
    cases hb : st.explicitObjectBindings with
    | nil =>
      simp only [hb] at h
      cases h
      refine ⟨hslot, ?_, rfl⟩
      rw [← List.drop_drop, ← hinputs, hb]
      rfl
    | cons input rest =>
      simp only [hb] at h
      cases hparse : AccountAddress.fromHexLiteral input.objectRef.objectId with
      | none => simp [hparse] at h
      | some addr =>
        simp only [hparse] at h
        cases h
        refine ⟨?_, ?_, rfl⟩
        · simp [hi, hparse]
        · rw [← List.drop_drop, ← hinputs, hb]
          rfl
  · simp only [if_neg htakes] at h ⊢
    cases h
    exact ⟨hslot, by simpa using hinputs, rfl⟩

lemma loadStoredObject_routed {b : Bool} (hi : i < st.finalArgs.length)
    (hcand : st.finalArgs[i]? = some (candidateBytes ctx args i ty))
    (h : loadStoredObject ctx i ty b st = .ok st') :
    st'.finalArgs[i]? = some (routedBytes ctx args i ty) ∧
      st'.explicitObjectBindings = st.explicitObjectBindings ∧
      st'.bound = st.bound ++ ((namedObject ctx args i ty).map (i, ·)).toList := by
  have hgetD : st.finalArgs.getD i [] = candidateBytes ctx args i ty := by
    simp [List.getD_eq_getElem?_getD, hcand]
  -- In every branch that binds nothing the argument stays the candidate.
  have hkeep : namedObject ctx args i ty = none → st' = st →
      st'.finalArgs[i]? = some (routedBytes ctx args i ty) ∧
      st'.explicitObjectBindings = st.explicitObjectBindings ∧
      st'.bound = st.bound ++ ((namedObject ctx args i ty).map (i, ·)).toList := by
    rintro hnone rfl
    exact ⟨by rw [routedBytes, hnone]; exact hcand, rfl, by simp [hnone]⟩
  unfold loadStoredObject at h
  split at h
  · rename_i hparam
    rw [hgetD] at h
    split at h
    · rename_i haddr
      cases h
      exact hkeep (by simp [namedObject, namedAddress, hparam, haddr]) rfl
    · rename_i addr haddr
      simp only at h
      split at h
      · rename_i hids
        cases h
        refine hkeep ?_ rfl
        simp only [Bool.and_eq_true, Bool.not_eq_true'] at hids
        have hnot : addr.toHexLiteral ∉ ctx.explicitObjectIds := by simpa using hids.2
        simp [namedObject, namedAddress, hparam, haddr, Option.filter, hids.1, hnot]
      · rename_i hids
        have hnamed : namedAddress ctx args i ty = some addr := by
          simp only [Bool.and_eq_true, Bool.not_eq_true', not_and, Bool.not_eq_false] at hids
          rw [namedAddress, if_pos hparam, haddr]
          simp only [Option.filter]
          cases hemp : ctx.explicitObjectIds.isEmpty with
          | true => simp
          | false => simp only [hids hemp, Bool.or_true, if_true]
        split at h
        · rename_i hview
          cases h
          exact hkeep (by simp [namedObject, hnamed, hview]) rfl
        · rename_i obj hview
          have hobj : namedObject ctx args i ty = some obj := by simp [namedObject, hnamed, hview]
          split at h
          · cases h
            refine ⟨?_, rfl, by simp [fillFrom, hobj]⟩
            simp [fillFrom, routedBytes, hobj, hi]
          · cases h
  · rename_i hparam
    cases h
    exact hkeep (by simp [namedObject, namedAddress, hparam]) rfl

lemma bindParam_routed (hty : ctx.parameters[i]? = some ty) (hi : i < st.finalArgs.length)
    (hslot : st.finalArgs.getD i [] = (preprocessEntryArgs args).getD i [])
    (hinputs : st.explicitObjectBindings = ctx.objectInputs.drop (inputsTakenBefore ctx i))
    (h : bindParam ctx i ty st = .ok st') : Routed ctx args i ty st st' := by
  obtain ⟨p, hp, hload⟩ := bind_eq_ok.mp h
  have hotwLen := (synthesizeOtw_changesOnly ctx i ty st).length_eq
  have htakeLen := (takeExplicitInput_changesOnly hp).length_eq
  obtain ⟨hs, hsi, hsb⟩ := synthesizeOtw_slot ty hi hslot
  obtain ⟨hc, hci, hcb⟩ := takeExplicitInput_candidate hty (by omega) hs (hsi.trans hinputs) hp
  obtain ⟨hr, hri, hrb⟩ := loadStoredObject_routed (by omega) hc hload
  exact ⟨hr, hri.trans hci, by rw [hrb, hcb, hsb]⟩

/-- The loop's invariant at index `i`: arguments before `i` are routed, later ones are still
the user's, and the record of bindings is exact. -/
structure RoutedUpTo (ctx : EntryContext) (args : List Bytes) (i : Nat) (st : BindState) : Prop where
  inputs : st.explicitObjectBindings = ctx.objectInputs.drop (inputsTakenBefore ctx i)
  pending : ∀ j, i ≤ j → st.finalArgs.getD j [] = (preprocessEntryArgs args).getD j []
  done : ∀ j ty, j < i → ctx.parameters[j]? = some ty →
    st.finalArgs[j]? = some (routedBytes ctx args j ty)
  bound : ∀ j obj, (j, obj) ∈ st.bound ↔
    j < i ∧ ∃ ty, ctx.parameters[j]? = some ty ∧ namedObject ctx args j ty = some obj

lemma routedUpTo_zero (ctx : EntryContext) (args : List Bytes) :
    RoutedUpTo ctx args 0
      { finalArgs := preprocessEntryArgs args, explicitObjectBindings := ctx.objectInputs } where
  inputs := by simp [inputsTakenBefore]
  pending := fun _ _ => rfl
  done := fun j _ hj => absurd hj (Nat.not_lt_zero j)
  bound := by simp

lemma RoutedUpTo.ensureSlot {slots : List Bytes} (hinv : RoutedUpTo ctx args i st)
    (hslot : ensureSlot ctx i ty st.finalArgs = some slots) :
    RoutedUpTo ctx args i { st with finalArgs := slots } := by
  refine ⟨hinv.inputs, fun j hj => ?_, fun j ty hj hty => ?_, hinv.bound⟩
  · rw [← hinv.pending j hj]
    unfold Kanari.ensureSlot at hslot
    split at hslot
    · split at hslot
      · cases hslot
        by_cases hjl : j < st.finalArgs.length
        · simp [List.getD_eq_getElem?_getD, List.getElem?_append_left hjl]
        · have hnone : st.finalArgs[j]? = none := List.getElem?_eq_none (by omega)
          rw [List.getD_eq_getElem?_getD, List.getD_eq_getElem?_getD, hnone,
            List.getElem?_append_right (by omega), List.getElem?_replicate]
          split <;> rfl
      · cases hslot
    · cases hslot; rfl
  · have hdone := hinv.done j ty hj hty
    have hjl : j < st.finalArgs.length := (List.getElem?_eq_some_iff.mp hdone).1
    exact ((ensureSlot_spec hslot).1 j hjl).trans hdone

lemma RoutedUpTo.step (hinv : RoutedUpTo ctx args i st) (hty : ctx.parameters[i]? = some ty)
    (hi : i < st.finalArgs.length) (h : bindParam ctx i ty st = .ok st') :
    RoutedUpTo ctx args (i + 1) st' := by
  have hrouted := bindParam_routed hty hi (hinv.pending i le_rfl) hinv.inputs h
  have honly := bindParam_changesOnly h
  refine ⟨hrouted.inputs, fun j hj => ?_, fun j ty' hj hty' => ?_, fun j obj => ?_⟩
  · rw [List.getD_eq_getElem?_getD, honly.others j (by omega), ← List.getD_eq_getElem?_getD]
    exact hinv.pending j (by omega)
  · rcases Nat.lt_succ_iff_lt_or_eq.mp hj with hlt | rfl
    · rw [honly.others j (by omega)]
      exact hinv.done j ty' hlt hty'
    · obtain rfl : ty = ty' := Option.some.inj (hty.symm.trans hty')
      exact hrouted.bytes
  · rw [hrouted.bound, List.mem_append, hinv.bound]
    constructor
    · rintro (⟨hlt, hex⟩ | hnew)
      · exact ⟨by omega, hex⟩
      · rw [Option.mem_toList, Option.map_eq_some_iff] at hnew
        obtain ⟨obj', hobj', heq⟩ := hnew
        cases heq
        exact ⟨by omega, ty, hty, hobj'⟩
    · rintro ⟨hlt, ty', hty', hobj⟩
      rcases Nat.lt_succ_iff_lt_or_eq.mp hlt with hlt | rfl
      · exact .inl ⟨hlt, ty', hty', hobj⟩
      · obtain rfl : ty = ty' := Option.some.inj (hty.symm.trans hty')
        right
        simp [hobj]

/-- The loop runs to the end or stops at a parameter that has no argument. -/
lemma bindParams_routes (hinv : RoutedUpTo ctx args i st)
    (h : bindParams ctx i (ctx.parameters.drop i) st = .ok st') :
    ∃ k, RoutedUpTo ctx args k st' ∧ (ctx.parameters.length ≤ k ∨ st'.finalArgs.length ≤ k) := by
  generalize hrest : ctx.parameters.drop i = rest at h
  induction rest generalizing i st with
  | nil =>
    cases h
    exact ⟨i, hinv, .inl (List.drop_eq_nil_iff.mp hrest)⟩
  | cons ty rest ih =>
    have hty : ctx.parameters[i]? = some ty := by
      have := congrArg List.head? hrest
      rwa [List.head?_drop] at this
    have hnext : ctx.parameters.drop (i + 1) = rest := by
      rw [← List.drop_drop, hrest]; rfl
    obtain ⟨hstop, rfl⟩ | ⟨slots, mid, hslot, hmid, htail⟩ := bindParams_cons h
    · refine ⟨i, hinv, .inr ?_⟩
      by_contra hlt
      rw [ensureSlot_of_lt (by omega)] at hstop
      cases hstop
    · exact ih ((hinv.ensureSlot hslot).step hty (ensureSlot_spec hslot).2.1 hmid) hnext htail

lemma namedObject_txContext (h : isTxContextParam ty = true) :
    namedObject ctx args i ty = none := by
  simp [namedObject, namedAddress, h]

/-- In a call that the virtual machine accepts, the record of bindings is `namedObject` and
every argument but an appended context is the routed one. -/
theorem accepted_call_routes {bytes : Bytes} (h : bindEntryArgs ctx args bytes = .ok st)
    (hvm : vmAcceptsArgs ctx st = true) :
    (∀ j obj, (j, obj) ∈ st.bound ↔
      ∃ ty, ctx.parameters[j]? = some ty ∧ namedObject ctx args j ty = some obj) ∧
    (∀ (j : Nat) (ty : RuntimeType), ctx.parameters[j]? = some ty →
      (isTxContextParam ty = true → j < args.length) →
      st.finalArgs[j]? = some (routedBytes ctx args j ty)) := by
  obtain ⟨looped, hloop, rfl⟩ := bindEntryArgs_eq_ok h
  obtain ⟨k, hinv, hend⟩ := bindParams_routes (routedUpTo_zero ctx args) (by simpa using hloop)
  -- Beyond the point where the loop stopped there is at most the appended context.
  have hbeyond : ∀ (j : Nat) (ty : RuntimeType), ctx.parameters[j]? = some ty → k ≤ j →
      isTxContextParam ty = true := by
    intro j ty hty hkj
    have hj : j < ctx.parameters.length := (List.getElem?_eq_some_iff.mp hty).1
    have hlen : looped.finalArgs.length ≤ k := by
      rcases hend with hend | hend
      · omega
      · exact hend
    simp only [vmAcceptsArgs, beq_iff_eq] at hvm
    unfold appendTxContext at hvm
    split at hvm
    · rename_i happend
      have hlast : ctx.parameters.getLast? = some ty := by
        rw [List.getLast?_eq_getElem?, ← hty]
        congr 1
        omega
      simpa [lastIsTxContext, hlast] using happend.2
    · omega
  have hbound : (appendTxContext ctx bytes looped).bound = looped.bound := by
    unfold appendTxContext
    split <;> rfl
  refine ⟨fun j obj => ?_, fun j ty hty hctx => ?_⟩
  · rw [hbound, hinv.bound]
    refine ⟨fun hx => hx.2, fun hx => ⟨?_, hx⟩⟩
    obtain ⟨ty, hty, hobj⟩ := hx
    by_contra hkj
    rw [namedObject_txContext (hbeyond j ty hty (by omega))] at hobj
    cases hobj
  · have hjk : j < k := by
      by_contra hkj
      have hargs := hctx (hbeyond j ty hty (by omega))
      have hlen := (bindParams_frame hloop).2
      have hj : j < ctx.parameters.length := (List.getElem?_eq_some_iff.mp hty).1
      simp only [preprocessEntryArgs, List.length_map] at hlen
      omega
    have hdone := hinv.done j ty hjk hty
    rw [appendTxContext_getElem (List.getElem?_eq_some_iff.mp hdone).1]
    exact hdone

end Kanari.Proofs

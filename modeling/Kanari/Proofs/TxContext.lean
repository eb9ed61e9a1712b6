import Kanari.Proofs.BindingLoop
import Kanari.Framework

/-!
# Authenticity of the transaction context

The binding loop never looks at the slot of a context parameter, and the real context is appended
only where the caller left the last slot empty.
-/

namespace Kanari.Proofs

open Lib

/-- The framework publishes `struct TxContext has drop`, without type parameters. -/
def TxContextAsPublished (parameters : List RuntimeType) : Prop :=
  ∀ ty ∈ parameters, isTxContextParam ty = true → ∃ d : StructType, d.abilities.key = false ∧
    (ty = .struct d ∨ ty = .reference (.struct d) ∨ ty = .mutableReference (.struct d))

/-- Every context parameter of the call is given the bytes `txContextBytes`. -/
def TxContextAuthentic (ctx : EntryContext) (txContextBytes : Bytes) (st : BindState) : Prop :=
  ∀ (i : Nat) (ty : RuntimeType), ctx.parameters[i]? = some ty → isTxContextParam ty = true →
    st.finalArgs[i]? = some txContextBytes

variable {ty : RuntimeType} {ctx : EntryContext} {i : Nat} {st : BindState}

lemma isObjectParam_of_plain_struct {d : StructType} (hkey : d.abilities.key = false)
    (hty : ty = .struct d ∨ ty = .reference (.struct d) ∨ ty = .mutableReference (.struct d)) :
    isObjectParam ty = false := by
  rcases hty with rfl | rfl | rfl <;>
    simp [isObjectParam, objectParamMutability, isKeyStructParam, isRuntimeStructLike,
      isStructInstantiation, hasKey, abilities, hkey]

lemma otwBytes_txContext (h : isTxContextParam ty = true) : otwBytes ctx ty = none := by
  unfold isTxContextParam at h
  unfold otwBytes
  split
  · rename_i addr module name tags htag
    simp only [htag, isTxContextStruct, Bool.and_eq_true, beq_iff_eq] at h
    obtain ⟨⟨-, rfl⟩, rfl⟩ := h
    rw [if_neg]
    simp only [Bool.and_eq_true, beq_iff_eq, not_and]
    rintro ⟨-, hmod⟩ hname
    rw [← hmod] at hname
    exact absurd hname (by decide)
  · rfl

lemma bindParam_txContext (hctx : isTxContextParam ty = true) (hobj : isObjectParam ty = false) :
    bindParam ctx i ty st = .ok st := by
  have hotw : synthesizeOtw ctx i ty st = st := by
    simp [synthesizeOtw, otwBytes_txContext hctx]
  simp [bindParam, hotw, takeExplicitInput, takesExplicitInput, loadStoredObject, hobj]

lemma ensureSlot_txContext {args args' : List Bytes} (hctx : isTxContextParam ty = true)
    (h : ensureSlot ctx i ty args = some args') : i < args.length ∧ args' = args := by
  by_cases hi : i < args.length
  · rw [ensureSlot_of_lt hi] at h
    cases h
    exact ⟨hi, rfl⟩
  · simp [ensureSlot, Nat.not_lt.mp hi, hctx] at h

/-- The loop keeps a context argument that was supplied, and never makes room for one. -/
lemma bindParams_txContext {tys : List RuntimeType} {k : Nat} {st' : BindState}
    (hty : tys[k]? = some ty) (hctx : isTxContextParam ty = true) (h : bindParams ctx i tys st = .ok st') :
    (isObjectParam ty = false → i + k < st.finalArgs.length →
      st'.finalArgs[i + k]? = st.finalArgs[i + k]?) ∧
      (st.finalArgs.length ≤ i + k → st'.finalArgs.length ≤ i + k) := by
  induction tys generalizing i k st with
  | nil => simp at hty
  | cons ty₀ rest ih =>
    obtain ⟨hstop, rfl⟩ | ⟨args, mid, hslot, hmid, hrest⟩ := bindParams_cons h
    · exact ⟨fun _ _ => rfl, id⟩
    · cases k with
      | zero =>
        obtain rfl : ty₀ = ty := by simpa using hty
        obtain ⟨hi, rfl⟩ := ensureSlot_txContext hctx hslot
        refine ⟨fun hobj _ => ?_, fun hle => by omega⟩
        rw [bindParam_txContext hctx hobj] at hmid
        cases hmid
        exact (bindParams_frame hrest).1 i (by omega) hi
      | succ k =>
        obtain ⟨hkeep, -, hgrow, hpad⟩ := ensureSlot_spec hslot
        have hmidOnly := bindParam_changesOnly hmid
        have hmidLen : mid.finalArgs.length = args.length := hmidOnly.length_eq
        obtain ⟨hsome, hnone⟩ := ih (i := i + 1) (by simpa using hty) hrest
        have hidx : i + 1 + k = i + (k + 1) := by omega
        rw [hidx] at hsome hnone
        refine ⟨fun hobj hlt => ?_, fun hle => hnone ?_⟩
        · rw [hsome hobj (by omega), hmidOnly.others _ (by omega)]
          exact hkeep _ hlt
        · rw [hmidLen]
          by_cases hi : st.finalArgs.length ≤ i
          · have := hpad hi; omega
          · rw [ensureSlot_of_lt (by omega)] at hslot
            cases hslot
            exact hle

/-- A context slot that the caller left open is either filled with the real context or the
call has too few arguments. -/
lemma appendTxContext_open_slot {bytes : Bytes} (hparam : i < ctx.parameters.length)
    (hopen : st.finalArgs.length ≤ i)
    (hvm : vmAcceptsArgs ctx (appendTxContext ctx bytes st) = true) :
    (appendTxContext ctx bytes st).finalArgs[i]? = some bytes := by
  simp only [vmAcceptsArgs, beq_iff_eq] at hvm
  unfold appendTxContext at hvm ⊢
  split at hvm
  · rename_i happend
    rw [if_pos happend]
    simp only [List.length_append, List.length_singleton] at hvm
    have hi : i = st.finalArgs.length := by omega
    rw [hi]
    simp
  · omega

/-- The context that the called function sees is the transaction's own exactly when no user
argument stands in the place of a context parameter, or the one that does spells out the
very same bytes. -/
theorem txContext_authentic_iff (blake3 : Bytes → Bytes) (ctx : EntryContext) (args : List Bytes)
    (timestamp : Option Nat) (txHash : Option Bytes) (st : BindState)
    (hpub : TxContextAsPublished ctx.parameters)
    (hbind : bindEntryArgs ctx args (buildTxContextBytes blake3 ctx.sender timestamp txHash) = .ok st)
    (hvm : vmAcceptsArgs ctx st = true) :
    TxContextAuthentic ctx (buildTxContextBytes blake3 ctx.sender timestamp txHash) st ↔
      ∀ (i : Nat) (ty : RuntimeType) (arg : Bytes), ctx.parameters[i]? = some ty →
        isTxContextParam ty = true → args[i]? = some arg →
        preprocessEntryArg arg = buildTxContextBytes blake3 ctx.sender timestamp txHash := by
  obtain ⟨looped, hloop, rfl⟩ := bindEntryArgs_eq_ok hbind
  have hlen : (preprocessEntryArgs args).length = args.length := by simp [preprocessEntryArgs]
  -- A supplied context argument comes out of the loop as the preprocessor left it.
  have hsupplied : ∀ (i : Nat) (ty : RuntimeType) (arg : Bytes), ctx.parameters[i]? = some ty →
      isTxContextParam ty = true → args[i]? = some arg →
      (appendTxContext ctx (buildTxContextBytes blake3 ctx.sender timestamp txHash) looped).finalArgs[i]? =
        some (preprocessEntryArg arg) := by
    intro i ty arg hty hctx harg
    obtain ⟨d, hkey, hplain⟩ := hpub ty (List.mem_of_getElem? hty) hctx
    have hi : i < args.length := (List.getElem?_eq_some_iff.mp harg).1
    have hkept := (bindParams_txContext hty hctx hloop).1 (isObjectParam_of_plain_struct hkey hplain)
      (by simpa [hlen] using hi)
    have hgrow := (bindParams_frame hloop).2
    simp only [Nat.zero_add, hlen] at hkept hgrow
    rw [appendTxContext_getElem (by omega), hkept]
    simp [preprocessEntryArgs, harg]
  constructor
  · intro hauth i ty arg hty hctx harg
    have := hauth i ty hty hctx
    rw [hsupplied i ty arg hty hctx harg] at this
    exact Option.some.inj this
  · intro hcond i ty hty hctx
    cases harg : args[i]? with
    | some arg => rw [hsupplied i ty arg hty hctx harg, hcond i ty arg hty hctx harg]
    | none =>
      obtain ⟨d, hkey, hplain⟩ := hpub ty (List.mem_of_getElem? hty) hctx
      have hopen := (bindParams_txContext hty hctx hloop).2
        (by simpa [hlen] using List.getElem?_eq_none_iff.mp harg)
      simp only [Nat.zero_add] at hopen
      exact appendTxContext_open_slot (List.getElem?_eq_some_iff.mp hty).1 hopen hvm

/-! ## `multisig::approve_entry`

The function admits an approval when the context's sender owns the wallet. -/

def approveCall (sender : AccountAddress) : EntryContext where
  moduleId := ⟨kanariSystemAccountAddress, "multisig"⟩
  parameters := Framework.approveEntryParameters
  typeToTypeLayout := fun _ => none
  view := Framework.viewOf []
  objectInputs := []
  sender := some sender
  bypassEntryCheck := false

def approveTxHash : Bytes := List.replicate 32 7

def approveContext (sender : AccountAddress) : Bytes :=
  buildTxContextBytes (fun _ => []) (some sender) (some 1000) (some approveTxHash)

lemma approve_txContext_asPublished (sender : AccountAddress) :
    TxContextAsPublished (approveCall sender).parameters := by
  intro ty hty hctx
  simp only [approveCall, Framework.approveEntryParameters, List.mem_cons, List.not_mem_nil,
    or_false] at hty
  rcases hty with rfl | rfl | rfl
  · cases hctx
  · cases hctx
  · exact ⟨Framework.txContextStruct, rfl, .inr (.inr rfl)⟩

/-- With two arguments the context is the sender's own. -/
theorem txContext_authentic_approve :
    ∃ st, bindEntryArgs (approveCall (.ofByte 0xa)) [(AccountAddress.ofByte 0x51).bytes,
        (AccountAddress.ofByte 0x52).bytes] (approveContext (.ofByte 0xa)) = .ok st ∧
      TxContextAuthentic (approveCall (.ofByte 0xa)) (approveContext (.ofByte 0xa)) st := by
  obtain ⟨st, hst, hvm⟩ := exists_of_okAnd (p := fun st => vmAcceptsArgs (approveCall (.ofByte 0xa)) st)
    (x := bindEntryArgs (approveCall (.ofByte 0xa)) [(AccountAddress.ofByte 0x51).bytes,
      (AccountAddress.ofByte 0x52).bytes] (approveContext (.ofByte 0xa))) (by decide +kernel)
  refine ⟨st, hst, (txContext_authentic_iff (fun _ => []) _ _ (some 1000) (some approveTxHash) st
    (approve_txContext_asPublished _) hst hvm).mpr ?_⟩
  intro i ty arg hty hctx harg
  match i with
  | 0 => cases hty; cases hctx
  | 1 => cases hty; cases hctx
  | i + 2 => simp at harg

/-- Account `0xa` calls with a third argument, a context that names the wallet owner `0xb`,
and that is the context `approve_entry` sees. -/
theorem txContext_forged_approve :
    ∃ st, bindEntryArgs (approveCall (.ofByte 0xa)) [(AccountAddress.ofByte 0x51).bytes,
        (AccountAddress.ofByte 0x52).bytes, approveContext (.ofByte 0xb)]
        (approveContext (.ofByte 0xa)) = .ok st ∧
      vmAcceptsArgs (approveCall (.ofByte 0xa)) st = true ∧
      st.finalArgs[2]? = some (approveContext (.ofByte 0xb)) ∧
      ¬ TxContextAuthentic (approveCall (.ofByte 0xa)) (approveContext (.ofByte 0xa)) st := by
  obtain ⟨st, hst, hp⟩ := exists_of_okAnd
    (p := fun st => vmAcceptsArgs (approveCall (.ofByte 0xa)) st &&
      st.finalArgs[2]? == some (approveContext (.ofByte 0xb)))
    (x := bindEntryArgs (approveCall (.ofByte 0xa)) [(AccountAddress.ofByte 0x51).bytes,
      (AccountAddress.ofByte 0x52).bytes, approveContext (.ofByte 0xb)]
      (approveContext (.ofByte 0xa))) (by decide +kernel)
  simp only [Bool.and_eq_true, beq_iff_eq] at hp
  refine ⟨st, hst, hp.1, hp.2, fun hauth => ?_⟩
  have hreal := hauth 2 _ rfl (by decide +kernel)
  rw [hp.2] at hreal
  exact absurd (Option.some.inj hreal) (by decide +kernel)

end Kanari.Proofs

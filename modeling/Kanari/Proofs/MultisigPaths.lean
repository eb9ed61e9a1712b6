import Kanari.Proofs.MultisigRuns

/-!
# The two ways to execute a proposal

One form consumes the proposal, the other one leaves it behind, marked as executed.
-/

namespace Kanari.Proofs

open Lib Move Move.Multisig

lemma isOk_eq_false {α : Type} {p : TransactionProposal} {x : Except Abort α}
    (hp : p.executed = true) (h : ∀ r, x = .ok r → p.executed = false) : x.isOk = false := by
  cases hx : x with
  | error e => rfl
  | ok r =>
    have hlive := h r hx
    rw [hp] at hlive
    cases hlive

/-- Nothing can be done to the proposal with this wallet, by this caller at this time. -/
structure Rejected (w : MultisigWallet) (p : TransactionProposal) (ctx : TxContext) : Prop where
  approve : (approveTransaction w p ctx).isOk = false
  execute : (executeTransaction w p ctx).isOk = false
  executeChecked : ∀ deny, (executeTransferChecked w p deny ctx).isOk = false
  executeBorrowed : (executeBorrowed w p ctx).isOk = false
  cancel : (cancelProposal w p ctx).isOk = false
  cancelBorrowed : (cancelBorrowed w p ctx).isOk = false

lemma rejected_of_executed {p : TransactionProposal} (hp : p.executed = true) (w : MultisigWallet)
    (ctx : TxContext) : Rejected w p ctx where
  approve := isOk_eq_false hp fun _ h => (approveTransaction_ok h).2.2.1
  execute := isOk_eq_false hp fun _ h => (executeTransaction_ok h).live
  executeChecked _ := isOk_eq_false hp fun _ h => (executeTransferChecked_ok h).live
  executeBorrowed := isOk_eq_false hp fun _ h => (executeBorrowed_ok h).1.live
  cancel := isOk_eq_false hp fun _ h => checkCancel_ok h
  cancelBorrowed := isOk_eq_false hp fun _ h => by
    obtain ⟨_, hcheck, _⟩ := bind_eq_ok.mp h
    exact checkCancel_ok hcheck

def actedProposal : Occurrence → Option AccountAddress
  | .approved p _ => some p
  | .cancelled p => some p
  | .executed x => some x.proposal.id
  | _ => none

section

variable {Tok : Type} {s s' : System Tok} {ctx : TxContext} {o : Occurrence} {id : AccountAddress}

lemma Effect.acted_live (h : Effect s ctx s' o) (ho : actedProposal o = some id) :
    ∃ p, s.proposals.find? id = some p ∧ p.id = id ∧ p.executed = false := by
  cases h with
  | approved _ hp _ _ hlive _ =>
    cases ho
    exact ⟨_, hp, rfl, hlive⟩
  | cancelled hp hlive =>
    cases ho
    exact ⟨_, hp, rfl, hlive⟩
  | cancelledEntry hp hlive =>
    cases ho
    exact ⟨_, hp, rfl, hlive⟩
  | executed _ hp hexec =>
    cases ho
    exact ⟨_, hp, rfl, hexec.live⟩
  | executedEntry _ hp hexec =>
    cases ho
    exact ⟨_, hp, rfl, hexec.live⟩
  | created => cases ho
  | deposited => cases ho
  | proposed => cases ho
  | deleted => cases ho

variable [DecidableEq Tok] {h h₁ h₂ : List Occurrence}

lemma Reachable.closed_untouched (hrun : Reachable (fun h _ ctx _ => FreshId h ctx) h s)
    (heq : h = h₁ ++ o :: h₂) (hclosed : closedProposal o = some id) :
    ∀ o' ∈ h₂, actedProposal o' ≠ some id := by
  intro o' ho' hacted
  obtain ⟨between, after, rfl⟩ := List.append_of_mem ho'
  have hsplit : h = (h₁ ++ o :: between) ++ o' :: after := by
    rw [heq]
    simp
  obtain ⟨s₁, s₂, hrun₁, ctx, op, _, hcall⟩ := Run.split hrun hsplit
  obtain ⟨p, hp, hid, hlive⟩ := (call_effect (Reachable.keyed hrun₁) hcall).acted_live hacted
  have hrecord := Reachable.proposals (fun _ _ _ _ hfresh => hfresh) hrun₁ hp
  exact hrecord.live hlive o (by simp) (hid.symm ▸ hclosed)

end

/-- Both forms of execution agree, the borrowed one marks the proposal, no function accepts a
marked proposal, and after a proposal has been executed, cancelled or deleted no later call of a
history approves, executes or cancels it. -/
theorem multisig_paths_agree (Tok : Type) [DecidableEq Tok] :
    (∀ w p ctx, executeBorrowed w p ctx =
      (executeTransaction w p ctx).map fun r => (r.1, { p with executed := true }, r.2)) ∧
    (∀ (p : TransactionProposal) (w : MultisigWallet) (ctx : TxContext),
      p.executed = true → Rejected w p ctx) ∧
    ∀ (h : List Occurrence) (s : System Tok), Reachable (fun h _ ctx _ => FreshId h ctx) h s →
      ∀ h₁ o h₂ id, h = h₁ ++ o :: h₂ → closedProposal o = some id →
        ∀ o' ∈ h₂, actedProposal o' ≠ some id :=
  ⟨executeBorrowed_eq, fun _ w ctx hp => rejected_of_executed hp w ctx,
    fun _ _ hrun _ _ _ _ heq hclosed => Reachable.closed_untouched hrun heq hclosed⟩

end Kanari.Proofs

import Kanari.Lib.Runs
import Kanari.Proofs.MultisigSteps

/-!
# Histories of multisig calls

Any number of wallets and proposals, and calls in any order. The approvals of an owner outlive the
owner.
-/

namespace Kanari.Proofs

open Lib Move Move.Multisig

def newObject : Occurrence → Option AccountAddress
  | .created w => some w.id
  | .proposed p => some p.id
  | _ => none

/-- `object::new` never gives an identifier twice. -/
def FreshId (h : List Occurrence) (ctx : TxContext) : Prop :=
  ∀ o ∈ h, newObject o ≠ some ctx.newId

section

variable {Tok : Type} [DecidableEq Tok]

def MultisigStep (cond : List Occurrence → System Tok → TxContext → Occurrence → Prop)
    (h : List Occurrence) (s : System Tok) (o : Occurrence) (s' : System Tok) : Prop :=
  ∃ ctx op, cond h s ctx o ∧ s.call ctx op = .ok (s', o)

/-- Histories of successful calls under a condition on each. -/
def Reachable (cond : List Occurrence → System Tok → TxContext → Occurrence → Prop) :
    List Occurrence → System Tok → Prop :=
  Run (MultisigStep cond) {}

def replay (check : List Occurrence → System Tok → TxContext → Occurrence → Bool)
    (start : List Occurrence × System Tok) (calls : List (TxContext × Operation Tok)) :
    Except Abort (List Occurrence × System Tok) :=
  foldOk (fun r c => do
    let (s', o) ← r.2.call c.1 c.2
    ensure (check r.1 r.2 c.1 o) .noSuchValue
    return (r.1 ++ [o], s')) start calls

lemma replay_reachable {cond : List Occurrence → System Tok → TxContext → Occurrence → Prop}
    {check : List Occurrence → System Tok → TxContext → Occurrence → Bool}
    (hcheck : ∀ h s ctx o, check h s ctx o = true → cond h s ctx o)
    {calls : List (TxContext × Operation Tok)} {r : List Occurrence × System Tok}
    (h : replay check ([], {}) calls = .ok r) : Reachable cond r.1 r.2 := by
  have hstart : Reachable cond ([] : List Occurrence) {} := Run.start
  refine foldOk_invariant (fun r : List Occurrence × System Tok => Reachable cond r.1 r.2) ?_ hstart h
  rintro ⟨h, s⟩ ⟨ctx, op⟩ r' _ hrun hstep
  obtain ⟨⟨s', o⟩, hcall, hstep⟩ := bind_eq_ok.mp hstep
  obtain ⟨_, hok, hstep⟩ := bind_eq_ok.mp hstep
  cases hstep
  exact Run.step hrun ⟨ctx, op, hcheck _ _ _ _ (ensure_eq_ok.mp hok), hcall⟩

end

/-! ## Owners and threshold -/

variable {w w' : MultisigWallet} {p : TransactionProposal} {ctx : TxContext} {o : Occurrence}
  {id : AccountAddress}

lemma WalletChange.wellFormed {payment : Option Payment} (h : WalletChange w p w' payment)
    (hw : WellFormed w) : WellFormed w' := by
  cases h with
  | transfer _ _ _ => exact ⟨hw.nonempty, hw.nodup, hw.positive, hw.reachable⟩
  | addOwner _ hnew =>
    refine ⟨by simp, ?_, hw.positive, ?_⟩
    · exact List.nodup_append.mpr ⟨hw.nodup, List.nodup_singleton _, by
        rintro a ha b hb rfl
        exact hnew (List.mem_singleton.mp hb ▸ ha)⟩
    · have := hw.reachable
      simp only [List.length_append, List.length_singleton]
      omega
  | removeOwner _ hremoved hsome hreach =>
    have hnodup := hremoved.nodup_iff.mpr hw.nodup
    exact ⟨hsome, (List.nodup_cons.mp hnodup).2, hw.positive, hreach⟩
  | changeThreshold _ hpos hreach => exact ⟨hw.nonempty, hw.nodup, hpos, hreach⟩

section

variable {Tok : Type} {s s' : System Tok}

lemma Keyed.saveWallet (hs : Keyed s) (token : Tok) (w : MultisigWallet) :
    Keyed (s.saveWallet token w) := by
  refine ⟨fun hw => ?_, fun hp => hs.proposal hp⟩
  rcases find?_saveWallet hw with ⟨rfl, _, rfl⟩ | ⟨_, hkept⟩
  · rfl
  · exact hs.wallet hkept

lemma Keyed.saveProposal (hs : Keyed s) (p : TransactionProposal) : Keyed (s.saveProposal p) := by
  refine ⟨fun hw => hs.wallet hw, fun hp => ?_⟩
  rcases find?_saveProposal hp with ⟨rfl, rfl⟩ | ⟨_, hkept⟩
  · rfl
  · exact hs.proposal hkept

lemma Keyed.deleteProposal (hs : Keyed s) (p : TransactionProposal) : Keyed (s.deleteProposal p) :=
  ⟨fun hw => hs.wallet hw, fun hp => hs.proposal (find?_deleteProposal hp).2⟩

lemma Effect.keyed (h : Effect s ctx s' o) (hs : Keyed s) : Keyed s' := by
  cases h with
  | created _ _ _ => exact hs.saveWallet _ _
  | deposited _ _ => exact hs.saveWallet _ _
  | proposed _ _ => exact hs.saveProposal _
  | approved _ _ _ _ _ _ => exact hs.saveProposal _
  | cancelled _ _ => exact hs.deleteProposal _
  | cancelledEntry _ _ => exact hs.saveProposal _
  | deleted _ => exact hs.deleteProposal _
  | executed _ _ _ => exact (hs.saveWallet _ _).deleteProposal _
  | executedEntry _ _ _ => exact (hs.saveWallet _ _).saveProposal _

variable [DecidableEq Tok]
  {cond : List Occurrence → System Tok → TxContext → Occurrence → Prop} {h : List Occurrence}

omit [DecidableEq Tok] in
lemma keyed_empty : Keyed ({} : System Tok) :=
  ⟨(fun hw => nomatch hw), (fun hp => nomatch hp)⟩

lemma Reachable.keyed (hrun : Reachable cond h s) : Keyed s := by
  induction hrun with
  | start => exact keyed_empty
  | step _ hstep ih =>
    obtain ⟨ctx, op, _, hcall⟩ := hstep
    exact (call_effect ih hcall).keyed ih

lemma Reachable.wellFormed (hrun : Reachable cond h s) :
    ∀ {k token w}, s.wallets.find? k = some (token, w) → WellFormed w := by
  induction hrun with
  | start => exact fun hw => nomatch hw
  | step hrun hstep ih =>
    obtain ⟨ctx, op, _, hcall⟩ := hstep
    intro k token w' hw'
    cases call_wallet (Reachable.keyed hrun) hcall hw' with
    | kept hw _ => exact ih hw
    | created _ _ hwf => exact hwf
    | deposited hw _ heq _ =>
      have hwf := ih hw
      rw [heq]
      exact ⟨hwf.nonempty, hwf.nodup, hwf.positive, hwf.reachable⟩
    | executed hw _ hchange => exact hchange.wellFormed (ih hw)

/-- Every stored wallet has owners, without repetition, and a threshold that they can reach. -/
theorem multisig_owners_threshold
    (hrun : Reachable (fun _ _ _ _ => True) h s) :
    ∀ k token w, s.wallets.find? k = some (token, w) →
      w.owners ≠ [] ∧ w.owners.Nodup ∧ 1 ≤ w.threshold ∧ w.threshold ≤ w.owners.length := by
  intro k token w hw
  have hwf := hrun.wellFormed hw
  exact ⟨hwf.nonempty, hwf.nodup, hwf.positive, hwf.reachable⟩

/-! A wallet of three, of whom two have to agree. -/

def callBy (sender : UInt8) (id : UInt8) : TxContext :=
  ⟨AccountAddress.ofByte sender, 1000, AccountAddress.ofByte id⟩

/-- Wallet 160 with 500 coins, and a proposal 161 by the first owner to remove the third, which
the second owner approves and executes. -/
def removalCalls : List (TxContext × Operation Unit) :=
  [(callBy 1 160, .createWallet () [.ofByte 1, .ofByte 2, .ofByte 3] 2 ⟨⟨500⟩⟩),
   (callBy 1 161, .proposeRemoveOwner () (.ofByte 160) (.ofByte 3) "" 0),
   (callBy 2 162, .approve () (.ofByte 160) (.ofByte 161)),
   (callBy 2 162, .executeEntry () (.ofByte 160) (.ofByte 161))]

theorem multisig_owners_threshold_removal :
    ∃ (h : List Occurrence) (s : System Unit) (w : MultisigWallet),
      Reachable (fun _ _ _ _ => True) h s ∧
      s.wallets.find? (.ofByte 160) = some ((), w) ∧ w.owners.length = 2 ∧
      w.owners ≠ [] ∧ w.owners.Nodup ∧ 1 ≤ w.threshold ∧ w.threshold ≤ w.owners.length := by
  have hcalls : okAnd (replay (fun _ _ _ _ => true) ([], {}) removalCalls) (fun r =>
      (r.2.wallets.find? (.ofByte 160)).any fun e => decide (e.2.owners.length = 2)) = true := by
    decide +kernel
  obtain ⟨⟨h, s⟩, hrun, hfound⟩ := exists_of_okAnd hcalls
  have hreach : Reachable (fun _ _ _ _ => True) h s := replay_reachable (fun _ _ _ _ _ => trivial) hrun
  cases hw : s.wallets.find? (.ofByte 160) with
  | none => simp [hw] at hfound
  | some e =>
    have htwo : e.2.owners.length = 2 := by simpa [hw] using hfound
    exact ⟨h, s, e.2, hreach, hw, htwo, multisig_owners_threshold hreach _ () e.2 hw⟩

/-! ## Identifiers -/

/-- The identifiers that a history knows: all that its calls have written are its own objects. -/
structure Recorded (h : List Occurrence) (s : System Tok) : Prop where
  keyed : Keyed s
  wallet : ∀ {k e}, s.wallets.find? k = some e → ∃ o ∈ h, newObject o = some k
  proposal : ∀ {k p}, s.proposals.find? k = some p → ∃ o ∈ h, newObject o = some k
  written : ∀ o ∈ h, ∀ k, writtenWallet o = some k ∨ writtenProposal o = some k →
    ∃ o' ∈ h, newObject o' = some k

omit [DecidableEq Tok] in
lemma Effect.written (h : Effect s ctx s' o) {k : AccountAddress}
    (hk : writtenWallet o = some k ∨ writtenProposal o = some k) :
    newObject o = some k ∨ (∃ e, s.wallets.find? k = some e) ∨ ∃ p, s.proposals.find? k = some p := by
  cases h with
  | created _ _ _ => simpa [writtenWallet, writtenProposal, newObject] using Or.inl hk
  | deposited hw _ =>
    obtain rfl := by simpa [writtenWallet, writtenProposal] using hk
    exact .inr (.inl ⟨_, hw⟩)
  | proposed _ _ =>
    left
    simpa [writtenWallet, writtenProposal, newObject] using hk
  | approved _ hp _ _ _ _ =>
    obtain rfl := by simpa [writtenWallet, writtenProposal] using hk
    exact .inr (.inr ⟨_, hp⟩)
  | cancelled hp _ =>
    obtain rfl := by simpa [writtenWallet, writtenProposal] using hk
    exact .inr (.inr ⟨_, hp⟩)
  | cancelledEntry hp _ =>
    obtain rfl := by simpa [writtenWallet, writtenProposal] using hk
    exact .inr (.inr ⟨_, hp⟩)
  | deleted hp =>
    obtain rfl := by simpa [writtenWallet, writtenProposal] using hk
    exact .inr (.inr ⟨_, hp⟩)
  | executed hw hp _ =>
    rcases hk with hk | hk
    · obtain rfl : _ = k := Option.some.inj hk
      exact .inr (.inl ⟨_, hw⟩)
    · obtain rfl : _ = k := Option.some.inj hk
      exact .inr (.inr ⟨_, hp⟩)
  | executedEntry hw hp _ =>
    rcases hk with hk | hk
    · obtain rfl : _ = k := Option.some.inj hk
      exact .inr (.inl ⟨_, hw⟩)
    · obtain rfl : _ = k := Option.some.inj hk
      exact .inr (.inr ⟨_, hp⟩)

lemma Reachable.recorded (hrun : Reachable cond h s) : Recorded h s := by
  induction hrun with
  | start =>
    exact ⟨keyed_empty, (fun hw => nomatch hw), (fun hp => nomatch hp), (fun _ ho => nomatch ho)⟩
  | @step h s s' o hrun hstep ih =>
    obtain ⟨ctx, op, _, hcall⟩ := hstep
    have heffect := call_effect ih.keyed hcall
    have holder : ∀ {k}, (∃ o' ∈ h, newObject o' = some k) → ∃ o' ∈ h ++ [o], newObject o' = some k :=
      fun ⟨o', ho', hk⟩ => ⟨o', List.mem_append_left _ ho', hk⟩
    have hlast : ∀ {k}, newObject o = some k → ∃ o' ∈ h ++ [o], newObject o' = some k :=
      fun hk => ⟨o, by simp, hk⟩
    refine ⟨heffect.keyed ih.keyed, ?_, ?_, ?_⟩
    · rintro k ⟨token, w'⟩ hw'
      obtain rfl := (heffect.keyed ih.keyed).wallet hw'
      cases call_wallet ih.keyed hcall hw' with
      | kept hw _ => exact holder (ih.wallet hw)
      | created ho _ _ => exact hlast (by rw [ho]; rfl)
      | deposited hw _ _ _ => exact holder (ih.wallet hw)
      | executed hw _ _ => exact holder (ih.wallet hw)
    · intro k p' hp'
      obtain rfl := (heffect.keyed ih.keyed).proposal hp'
      cases call_proposal ih.keyed hcall hp' with
      | kept hp _ => exact holder (ih.proposal hp)
      | proposed ho _ _ => exact hlast (by rw [ho]; rfl)
      | approved hp _ _ _ _ _ _ => exact holder (ih.proposal hp)
      | closed hp _ _ => exact holder (ih.proposal hp)
    · intro o' ho' k hk
      rcases List.mem_append.mp ho' with ho' | ho'
      · exact holder (ih.written o' ho' k hk)
      · obtain rfl := List.mem_singleton.mp ho'
        rcases heffect.written hk with hnew | ⟨e, hw⟩ | ⟨p, hp⟩
        · exact hlast hnew
        · exact holder (ih.wallet hw)
        · exact holder (ih.proposal hp)

omit [DecidableEq Tok] in
lemma Recorded.unwritten (hrec : Recorded h s) (hfresh : FreshId h ctx) :
    ∀ o ∈ h, writtenWallet o ≠ some ctx.newId ∧ writtenProposal o ≠ some ctx.newId := by
  intro o ho
  constructor
  · intro hk
    obtain ⟨o', ho', hnew⟩ := hrec.written o ho _ (.inl hk)
    exact hfresh o' ho' hnew
  · intro hk
    obtain ⟨o', ho', hnew⟩ := hrec.written o ho _ (.inr hk)
    exact hfresh o' ho' hnew

/-! ## Funds -/

def initialFunds (id : AccountAddress) : Occurrence → Nat
  | .created w => if w.id = id then w.funds.value else 0
  | _ => 0

def depositedFunds (id : AccountAddress) : Occurrence → Nat
  | .deposited w amount => if w = id then amount else 0
  | _ => 0

def transferredFunds (id : AccountAddress) : Occurrence → Nat
  | .executed x =>
    if x.wallet.id = id ∧ x.proposal.txType = TX_TYPE_TRANSFER then x.proposal.amount else 0
  | _ => 0

lemma funds_of_unwritten (ho : writtenWallet o ≠ some id) :
    initialFunds id o = 0 ∧ depositedFunds id o = 0 ∧ transferredFunds id o = 0 := by
  cases o with
  | created w =>
    have hne : ¬w.id = id := fun heq => ho (congrArg some heq)
    exact ⟨if_neg hne, rfl, rfl⟩
  | deposited w amount =>
    have hne : ¬w = id := fun heq => ho (congrArg some heq)
    exact ⟨rfl, if_neg hne, rfl⟩
  | executed x =>
    have hne : ¬x.wallet.id = id := fun heq => ho (congrArg some heq)
    exact ⟨rfl, rfl, if_neg fun hboth => hne hboth.1⟩
  | _ => exact ⟨rfl, rfl, rfl⟩

lemma total_eq_zero {α : Type} {f : α → Nat} {l : List α} (h : ∀ a ∈ l, f a = 0) : total f l = 0 :=
  List.sum_eq_zero fun n hn => by
    obtain ⟨a, ha, rfl⟩ := List.mem_map.mp hn
    exact h a ha

lemma WalletChange.funds {payment : Option Payment} (h : WalletChange w p w' payment) :
    w'.funds.value + (if p.txType = TX_TYPE_TRANSFER then p.amount else 0) = w.funds.value := by
  cases h with
  | transfer htype _ hrest => simpa [htype] using hrest
  | addOwner htype _ => simp [htype, TX_TYPE_ADD_OWNER, TX_TYPE_TRANSFER]
  | removeOwner htype _ _ _ => simp [htype, TX_TYPE_REMOVE_OWNER, TX_TYPE_TRANSFER]
  | changeThreshold htype _ _ => simp [htype, TX_TYPE_CHANGE_THRESHOLD, TX_TYPE_TRANSFER]

lemma Reachable.funds (hcond : ∀ h s ctx o, cond h s ctx o → FreshId h ctx)
    (hrun : Reachable cond h s) :
    ∀ {k token w}, s.wallets.find? k = some (token, w) →
      w.funds.value + total (transferredFunds k) h =
        total (initialFunds k) h + total (depositedFunds k) h := by
  induction hrun with
  | start => exact fun hw => nomatch hw
  | @step h s s' o hrun hstep ih =>
    have hrec := Reachable.recorded hrun
    obtain ⟨ctx, op, hc, hcall⟩ := hstep
    intro k token w' hw'
    obtain rfl := ((call_effect hrec.keyed hcall).keyed hrec.keyed).wallet hw'
    simp only [total_append, total_singleton]
    cases call_wallet hrec.keyed hcall hw' with
    | kept hw hother =>
      obtain ⟨hi, hd, ht⟩ := funds_of_unwritten hother
      have := ih hw
      omega
    | created ho hid _ =>
      have hnone : ∀ o ∈ h, writtenWallet o ≠ some w'.id := by
        intro o ho
        rw [hid]
        exact (hrec.unwritten (hcond _ _ _ _ hc) o ho).1
      rw [total_eq_zero fun o ho => (funds_of_unwritten (hnone o ho)).1,
        total_eq_zero fun o ho => (funds_of_unwritten (hnone o ho)).2.1,
        total_eq_zero fun o ho => (funds_of_unwritten (hnone o ho)).2.2, ho]
      simp [initialFunds, depositedFunds, transferredFunds]
    | @deposited w funds amount hw ho heq hfunds =>
      have hbefore := ih hw
      have hvalue : w'.funds.value = w.funds.value + amount := by rw [heq, hfunds]
      have hi : initialFunds w'.id o = 0 := by rw [ho]; rfl
      have ht : transferredFunds w'.id o = 0 := by rw [ho]; rfl
      have hd : depositedFunds w'.id o = amount := by rw [ho]; exact if_pos rfl
      omega
    | @executed x hw ho hchange =>
      have hbefore := ih hw
      have hpaid := hchange.funds
      have ht : transferredFunds w'.id o =
          if x.proposal.txType = TX_TYPE_TRANSFER then x.proposal.amount else 0 := by
        rw [ho, hchange.id_eq]
        simp [transferredFunds]
      have hi : initialFunds w'.id o = 0 := by rw [ho]; rfl
      have hd : depositedFunds w'.id o = 0 := by rw [ho]; rfl
      omega

/-! ## Proposals -/

/-- Who has approved a proposal: who made it, then everyone who approved it later. -/
def approvals (id : AccountAddress) (h : List Occurrence) : List AccountAddress :=
  h.filterMap fun
    | .proposed p => if p.id = id then some p.proposer else none
    | .approved p a => if p = id then some a else none
    | _ => none

def closedProposal : Occurrence → Option AccountAddress
  | .cancelled p => some p
  | .deleted p => some p
  | .executed x => some x.proposal.id
  | _ => none

/-- A stored proposal and its history. -/
structure ProposalRecord (h : List Occurrence) (s : System Tok) (p : TransactionProposal) :
    Prop where
  approvers : p.approvers = approvals p.id h
  nodup : p.approvers.Nodup
  live : p.executed = false → ∀ o ∈ h, closedProposal o ≠ some p.id
  origin : ∃ p₀, .proposed p₀ ∈ h ∧ p₀ = { p with approvers := [p.proposer], executed := false }
  wallet : ∃ e, s.wallets.find? p.walletId = some e

lemma approvals_append_of_unwritten (h : List Occurrence) (ho : writtenProposal o ≠ some id) :
    approvals id (h ++ [o]) = approvals id h := by
  unfold approvals
  rw [List.filterMap_append]
  cases o with
  | proposed p =>
    have hne : ¬p.id = id := fun heq => ho (congrArg some heq)
    simp [hne]
  | approved p a =>
    have hne : ¬p = id := fun heq => ho (congrArg some heq)
    simp [hne]
  | _ => simp

lemma approvals_of_unwritten {h : List Occurrence} (hnone : ∀ o ∈ h, writtenProposal o ≠ some id) :
    approvals id h = [] := by
  induction h using List.reverseRecOn with
  | nil => rfl
  | append_singleton h o ih =>
    rw [approvals_append_of_unwritten h (hnone o (by simp))]
    exact ih fun o' ho' => hnone o' (List.mem_append_left _ ho')

lemma closedProposal_written (ho : closedProposal o = some id) : writtenProposal o = some id := by
  cases o with
  | cancelled p => exact ho
  | deleted p => exact ho
  | executed x => exact ho
  | _ => cases ho

omit [DecidableEq Tok] in
lemma Effect.wallet_stays (h : Effect s ctx s' o) {k : AccountAddress}
    (hw : ∃ e, s.wallets.find? k = some e) : ∃ e, s'.wallets.find? k = some e := by
  have hsave : ∀ (token : Tok) (w : MultisigWallet),
      ∃ e, (s.saveWallet token w).wallets.find? k = some e := by
    intro token w
    rw [System.saveWallet, OrdMap.find?_insert]
    split
    · exact ⟨_, rfl⟩
    · exact hw
  cases h with
  | created _ _ _ => exact hsave _ _
  | deposited _ _ => exact hsave _ _
  | executed _ _ _ => exact hsave _ _
  | executedEntry _ _ _ => exact hsave _ _
  | _ => exact hw

omit [DecidableEq Tok] in
lemma ProposalRecord.kept (hrec : ProposalRecord h s p) (hother : writtenProposal o ≠ some p.id)
    (hwallets : ∀ {k}, (∃ e, s.wallets.find? k = some e) → ∃ e, s'.wallets.find? k = some e) :
    ProposalRecord (h ++ [o]) s' p := by
  obtain ⟨p₀, hp₀, heq⟩ := hrec.origin
  refine ⟨?_, hrec.nodup, ?_, ⟨p₀, List.mem_append_left _ hp₀, heq⟩, hwallets hrec.wallet⟩
  · rw [approvals_append_of_unwritten h hother, hrec.approvers]
  · intro hlive o' ho'
    rcases List.mem_append.mp ho' with ho' | ho'
    · exact hrec.live hlive o' ho'
    · obtain rfl := List.mem_singleton.mp ho'
      exact fun hclosed => hother (closedProposal_written hclosed)

lemma Reachable.proposals (hcond : ∀ h s ctx o, cond h s ctx o → FreshId h ctx)
    (hrun : Reachable cond h s) :
    ∀ {k p}, s.proposals.find? k = some p → ProposalRecord h s p := by
  induction hrun with
  | start => exact fun hp => nomatch hp
  | @step h s s' o hrun hstep ih =>
    have hrec := Reachable.recorded hrun
    obtain ⟨ctx, op, hc, hcall⟩ := hstep
    have hwallets : ∀ {k}, (∃ e, s.wallets.find? k = some e) → ∃ e, s'.wallets.find? k = some e :=
      fun hw => (call_effect hrec.keyed hcall).wallet_stays hw
    intro k p' hp'
    cases call_proposal hrec.keyed hcall hp' with
    | kept hp hother => exact (ih hp).kept hother hwallets
    | proposed ho hw hnew =>
      have hnone : ∀ o ∈ h, writtenProposal o ≠ some p'.id := by
        intro o ho
        rw [hnew.id]
        exact (hrec.unwritten (hcond _ _ _ _ hc) o ho).2
      subst ho
      refine ⟨?_, ?_, ?_, ⟨p', by simp, ?_⟩, hwallets ⟨_, hnew.walletId ▸ hw⟩⟩
      · have hbefore : approvals p'.id h = [] := approvals_of_unwritten hnone
        unfold approvals at hbefore ⊢
        rw [List.filterMap_append, hbefore, hnew.approvers]
        simp
      · rw [hnew.approvers]
        exact List.nodup_singleton _
      · intro _ o' ho'
        rcases List.mem_append.mp ho' with ho' | ho'
        · exact fun hclosed => hnone o' ho' (closedProposal_written hclosed)
        · obtain rfl := List.mem_singleton.mp ho'
          exact fun hclosed => nomatch hclosed
      · rw [← hnew.approvers, ← hnew.executed]
    | @approved token w p a hp ho hw howner hlive hnew heq =>
      have hbefore := ih hp
      subst ho heq
      obtain ⟨p₀, hp₀, horigin⟩ := hbefore.origin
      refine ⟨?_, ?_, ?_, ⟨p₀, List.mem_append_left _ hp₀, horigin⟩, hwallets hbefore.wallet⟩
      · have happrovers := hbefore.approvers
        unfold approvals at happrovers ⊢
        rw [List.filterMap_append, ← happrovers]
        simp
      · refine List.nodup_append.mpr ⟨hbefore.nodup, List.nodup_singleton _, ?_⟩
        rintro b hb c hc' rfl
        exact hnew (List.mem_singleton.mp hc' ▸ hb)
      · intro hlive' o' ho'
        rcases List.mem_append.mp ho' with ho' | ho'
        · exact hbefore.live hlive' o' ho'
        · obtain rfl := List.mem_singleton.mp ho'
          exact fun hclosed => nomatch hclosed
    | @closed p hp ho heq =>
      have hbefore := ih hp
      subst heq
      obtain ⟨p₀, hp₀, horigin⟩ := hbefore.origin
      refine ⟨?_, hbefore.nodup, (fun hlive => nomatch hlive),
        ⟨p₀, List.mem_append_left _ hp₀, horigin⟩, hwallets hbefore.wallet⟩
      have happrovers := hbefore.approvers
      unfold approvals at happrovers ⊢
      rw [List.filterMap_append, ← happrovers]
      rcases ho with rfl | ⟨x, _, rfl⟩
      · simp
      · simp

/-- Every execution of a history was made by a call on the wallet and the proposal as they were
stored. -/
lemma Reachable.executed (hrun : Reachable cond h s) {h₁ h₂ : List Occurrence} {x : Execution}
    (heq : h = h₁ ++ .executed x :: h₂) :
    ∃ s₁ ctx, Reachable cond h₁ s₁ ∧
      (∃ token, s₁.wallets.find? x.wallet.id = some (token, x.wallet)) ∧
      s₁.proposals.find? x.proposal.id = some x.proposal ∧ x.now = ctx.epochTimestampMs ∧
      ∃ w', Executed x.wallet x.proposal ctx w' x.payment := by
  obtain ⟨s₁, s₂, hrun₁, ctx, op, _, hcall⟩ := Run.split hrun heq
  exact ⟨s₁, ctx, hrun₁, call_executed (Reachable.keyed hrun₁) hcall⟩

lemma WalletChange.payment {payment : Option Payment} (h : WalletChange w p w' payment) :
    if p.txType = TX_TYPE_TRANSFER then
      ∃ out : Coin, payment = some ⟨p.targetAddress, out⟩ ∧ out.value = p.amount
    else payment = none := by
  cases h with
  | transfer htype hout _ =>
    rw [if_pos htype]
    exact ⟨_, rfl, hout⟩
  | addOwner htype _ => simp [htype, TX_TYPE_ADD_OWNER, TX_TYPE_TRANSFER]
  | removeOwner htype _ _ _ => simp [htype, TX_TYPE_REMOVE_OWNER, TX_TYPE_TRANSFER]
  | changeThreshold htype _ _ => simp [htype, TX_TYPE_CHANGE_THRESHOLD, TX_TYPE_TRANSFER]

/-- A wallet holds its initial funds and its deposits less the transfers executed for it. An execution
is the first of its proposal, comes before the expiry and pays what the proposal says. -/
theorem multisig_funds_safe (hrun : Reachable (fun h _ ctx _ => FreshId h ctx) h s) :
    (∀ k token w, s.wallets.find? k = some (token, w) →
      w.funds.value + total (transferredFunds k) h =
        total (initialFunds k) h + total (depositedFunds k) h) ∧
    ∀ h₁ x h₂, h = h₁ ++ .executed x :: h₂ →
      (∀ y, .executed y ∈ h₁ → y.proposal.id ≠ x.proposal.id) ∧
      (∃ p₀, .proposed p₀ ∈ h₁ ∧ p₀.walletId = x.wallet.id ∧
        p₀ = { x.proposal with approvers := [p₀.proposer] }) ∧
      (x.proposal.expiresAtMs = NO_EXPIRY ∨ x.now < x.proposal.expiresAtMs) ∧
      .cancelled x.proposal.id ∉ h₁ ∧ .deleted x.proposal.id ∉ h₁ ∧
      if x.proposal.txType = TX_TYPE_TRANSFER then
        ∃ out : Coin, x.payment = some ⟨x.proposal.targetAddress, out⟩ ∧ out.value = x.proposal.amount
      else x.payment = none := by
  refine ⟨fun k token w hw => hrun.funds (fun _ _ _ _ hfresh => hfresh) hw, ?_⟩
  intro h₁ x h₂ heq
  obtain ⟨s₁, ctx, hrun₁, _, hp, hnow, w', hexec⟩ := hrun.executed heq
  have hrec := hrun₁.proposals (fun _ _ _ _ hfresh => hfresh) hp
  have hopen : ∀ o ∈ h₁, closedProposal o ≠ some x.proposal.id := hrec.live hexec.live
  obtain ⟨p₀, hp₀, horigin⟩ := hrec.origin
  refine ⟨fun y hy hsame => hopen _ hy (congrArg some hsame), ⟨p₀, hp₀, ?_, ?_⟩, ?_,
    fun hc => hopen _ hc rfl, fun hd => hopen _ hd rfl, hexec.change.payment⟩
  · rw [horigin]
    exact hexec.bound
  · have hproposer : p₀.proposer = x.proposal.proposer := by rw [horigin]
    rw [hproposer, ← hexec.live] at *
    exact horigin
  · have hunexpired := hexec.unexpired
    rw [hnow]
    simp only [isExpired, Bool.and_eq_false_iff, bne_eq_false_iff_eq, decide_eq_false_iff_not,
      not_le] at hunexpired
    exact hunexpired

def isFreshId (h : List Occurrence) (ctx : TxContext) : Bool :=
  h.all fun o => decide (newObject o ≠ some ctx.newId)

lemma freshId_of_isFreshId (hfresh : isFreshId h ctx = true) : FreshId h ctx := by
  intro o ho
  exact of_decide_eq_true (List.all_eq_true.mp hfresh o ho)

def transferCalls : List (TxContext × Operation Unit) :=
  [(callBy 1 160, .createWallet () [.ofByte 1, .ofByte 2, .ofByte 3] 2 ⟨⟨500⟩⟩),
   (callBy 9 161, .deposit () (.ofByte 160) ⟨⟨50⟩⟩),
   (callBy 1 161, .proposeTransfer () (.ofByte 160) (.ofByte 7) 120 "" 5000),
   (callBy 2 162, .approve () (.ofByte 160) (.ofByte 161)),
   (callBy 2 162, .executeTransaction () (.ofByte 160) (.ofByte 161))]

theorem multisig_funds_safe_transfer :
    ∃ (h : List Occurrence) (s : System Unit) (w : MultisigWallet),
      Reachable (fun h _ ctx _ => FreshId h ctx) h s ∧
      s.wallets.find? (.ofByte 160) = some ((), w) ∧ w.funds.value = 430 ∧
      w.funds.value + total (transferredFunds (.ofByte 160)) h =
        total (initialFunds (.ofByte 160)) h + total (depositedFunds (.ofByte 160)) h := by
  have hcalls : okAnd (replay (fun h _ ctx _ => isFreshId h ctx) ([], {}) transferCalls) (fun r =>
      (r.2.wallets.find? (.ofByte 160)).any fun e => decide (e.2.funds.value = 430)) = true := by
    decide +kernel
  obtain ⟨⟨h, s⟩, hrun, hfound⟩ := exists_of_okAnd hcalls
  have hreach : Reachable (fun h _ ctx _ => FreshId h ctx) h s :=
    replay_reachable (fun _ _ _ _ hfresh => freshId_of_isFreshId hfresh) hrun
  cases hw : s.wallets.find? (.ofByte 160) with
  | none => simp [hw] at hfound
  | some e =>
    have hleft : e.2.funds.value = 430 := by simpa [hw] using hfound
    exact ⟨h, s, e.2, hreach, hw, hleft, (multisig_funds_safe hreach).1 _ () e.2 hw⟩

/-! ## Approvals by current owners -/

/-- An owner is removed only when none of the other open proposals of the wallet counts this
owner's approval. -/
def KeepsApprovals (s : System Tok) (o : Occurrence) : Prop :=
  ∀ x, o = .executed x → x.proposal.txType = TX_TYPE_REMOVE_OWNER →
    ∀ k q, s.proposals.find? k = some q → k ≠ x.proposal.id → q.walletId = x.wallet.id →
      q.executed = false → x.proposal.targetAddress ∉ q.approvers

lemma WalletChange.owner_stays {payment : Option Payment} (h : WalletChange w p w' payment)
    {a : AccountAddress} (ha : a ∈ w.owners)
    (hne : p.txType = TX_TYPE_REMOVE_OWNER → a ≠ p.targetAddress) : a ∈ w'.owners := by
  cases h with
  | transfer _ _ _ => exact ha
  | addOwner _ _ => exact List.mem_append_left _ ha
  | removeOwner htype hremoved _ _ =>
    rcases List.mem_cons.mp (hremoved.mem_iff.mpr ha) with heq | hmem
    · exact absurd heq (hne htype)
    · exact hmem
  | changeThreshold _ _ _ => exact ha

/-- Along histories that keep approvals, every approval of an open proposal is by an owner. -/
lemma Reachable.approvers_owners
    (hcond : ∀ h s ctx o, cond h s ctx o → FreshId h ctx ∧ KeepsApprovals s o)
    (hrun : Reachable cond h s) :
    ∀ {k p token w}, s.proposals.find? k = some p → p.executed = false →
      s.wallets.find? p.walletId = some (token, w) → ∀ a ∈ p.approvers, a ∈ w.owners := by
  induction hrun with
  | start => exact fun hp => nomatch hp
  | @step h s s' o hrun hstep ih =>
    have hrec := Reachable.recorded hrun
    have hproposals : ∀ {k p}, s.proposals.find? k = some p → ProposalRecord h s p :=
      Reachable.proposals (fun _ _ _ _ hc => (hcond _ _ _ _ hc).1) hrun
    obtain ⟨ctx, op, hc, hcall⟩ := hstep
    obtain ⟨hfresh, hkeeps⟩ := hcond _ _ _ _ hc
    intro k p' token w' hp' hlive hw'
    have hid : w'.id = p'.walletId := ((call_effect hrec.keyed hcall).keyed hrec.keyed).wallet hw'
    -- The wallet first: what the call did to it says which kind of call it was.
    cases call_wallet hrec.keyed hcall hw' with
    | kept hw hother =>
      rw [hid] at hw
      cases call_proposal hrec.keyed hcall hp' with
      | kept hp _ => exact ih hp hlive hw
      | proposed _ hw₀ hnew =>
        intro a ha
        rw [hnew.walletId] at hw
        obtain ⟨rfl, rfl⟩ : _ ∧ _ := by simpa using hw₀.symm.trans hw
        rw [hnew.approvers, List.mem_singleton] at ha
        exact ha ▸ hnew.proposer
      | approved hp _ hw₀ howner hlive₀ _ heq =>
        intro a ha
        obtain ⟨rfl, rfl⟩ : _ ∧ _ := by simpa using hw₀.symm.trans hw
        rw [heq] at ha hw
        rcases List.mem_append.mp ha with ha | ha
        · exact ih hp hlive₀ hw a ha
        · exact List.mem_singleton.mp ha ▸ howner
      | closed _ _ heq => simp [heq] at hlive
    | created ho hnew _ =>
      cases call_proposal hrec.keyed hcall hp' with
      | kept hp _ =>
        obtain ⟨e, he⟩ := (hproposals hp).wallet
        obtain ⟨o', ho', hknown⟩ := hrec.wallet he
        rw [← hid, hnew] at hknown
        exact absurd hknown (hfresh o' ho')
      | proposed ho' _ _ => exact nomatch ho.symm.trans ho'
      | approved _ ho' _ _ _ _ _ => exact nomatch ho.symm.trans ho'
      | closed _ _ heq => simp [heq] at hlive
    | deposited hw ho heq _ =>
      rw [hid] at hw
      cases call_proposal hrec.keyed hcall hp' with
      | kept hp _ =>
        have hbefore := ih hp hlive hw
        rw [heq]
        exact hbefore
      | proposed ho' _ _ => exact nomatch ho.symm.trans ho'
      | approved _ ho' _ _ _ _ _ => exact nomatch ho.symm.trans ho'
      | closed _ _ heq' => simp [heq'] at hlive
    | @executed x hw ho hchange =>
      rw [hid] at hw
      cases call_proposal hrec.keyed hcall hp' with
      | kept hp hother =>
        intro a ha
        refine hchange.owner_stays (ih hp hlive hw a ha) fun hremove htarget => ?_
        have hne : p'.id ≠ x.proposal.id := fun heq => hother (by rw [ho, heq]; rfl)
        have hbound : p'.walletId = x.wallet.id := (hrec.keyed.wallet hw).symm
        exact hkeeps x ho hremove _ _ hp hne hbound hlive (htarget ▸ ha)
      | proposed ho' _ _ => exact nomatch ho.symm.trans ho'
      | approved _ ho' _ _ _ _ _ => exact nomatch ho.symm.trans ho'
      | closed _ _ heq => simp [heq] at hlive

/-- Where removals keep approvals, an execution has the approval of as many distinct owners of the
moment as the threshold of the moment asks for. -/
theorem multisig_quorum_of_current_owners
    (hrun : Reachable (fun h s ctx o => FreshId h ctx ∧ KeepsApprovals s o) h s) :
    ∀ h₁ x h₂, h = h₁ ++ .executed x :: h₂ →
      x.wallet.threshold ≤
        (x.wallet.owners.toFinset ∩ (approvals x.proposal.id h₁).toFinset).card := by
  intro h₁ x h₂ heq
  obtain ⟨s₁, ctx, hrun₁, ⟨token, hw⟩, hp, _, w', hexec⟩ := hrun.executed heq
  have hrec := hrun₁.proposals (fun _ _ _ _ hc => hc.1) hp
  rw [← hexec.bound] at hw
  have howners : ∀ a ∈ x.proposal.approvers, a ∈ x.wallet.owners :=
    hrun₁.approvers_owners (fun _ _ _ _ hc => hc) hp hexec.live hw
  have hsubset : (approvals x.proposal.id h₁).toFinset ⊆ x.wallet.owners.toFinset := by
    intro a ha
    rw [List.mem_toFinset, ← hrec.approvers] at ha
    exact List.mem_toFinset.mpr (howners a ha)
  rw [Finset.inter_eq_right.mpr hsubset, ← hrec.approvers, List.toFinset_card_of_nodup hrec.nodup]
  exact hexec.enough

def checkKeepsApprovals (s : System Tok) : Occurrence → Bool
  | .executed x => x.proposal.txType != TX_TYPE_REMOVE_OWNER || s.proposals.entries.all fun e =>
      e.1 == x.proposal.id || e.2.walletId != x.wallet.id || e.2.executed ||
        !e.2.approvers.contains x.proposal.targetAddress
  | _ => true

omit [DecidableEq Tok] in
lemma keepsApprovals_of_check (h : checkKeepsApprovals s o = true) : KeepsApprovals s o := by
  rintro x rfl hremove k q hq hne hwallet hlive hmem
  have hall : ∀ e ∈ s.proposals.entries, (e.1 == x.proposal.id || e.2.walletId != x.wallet.id ||
      e.2.executed || !e.2.approvers.contains x.proposal.targetAddress) = true := by
    simpa [checkKeepsApprovals, hremove] using h
  have hthis := hall (k, q) (OrdMap.mem_entries.mpr hq)
  simp [hne, hwallet, hlive, hmem] at hthis

/-- The two owners that a removal leaves then agree on a transfer. -/
def transferAfterRemovalCalls : List (TxContext × Operation Unit) :=
  removalCalls ++
  [(callBy 1 162, .proposeTransfer () (.ofByte 160) (.ofByte 7) 120 "" 5000),
   (callBy 2 163, .approve () (.ofByte 160) (.ofByte 162)),
   (callBy 1 163, .executeEntry () (.ofByte 160) (.ofByte 162))]

def endsExecuting (p : List Occurrence → Execution → Bool) (h : List Occurrence) : Bool :=
  match h.getLast? with
  | some (.executed x) => p h.dropLast x
  | _ => false

lemma exists_of_endsExecuting {p : List Occurrence → Execution → Bool}
    (h' : endsExecuting p h = true) : ∃ h₁ x, h = h₁ ++ [.executed x] ∧ p h₁ x = true := by
  rcases List.eq_nil_or_concat h with rfl | ⟨h₁, o, rfl⟩
  · cases h'
  · rw [List.concat_eq_append] at h' ⊢
    cases o with
    | executed x => exact ⟨h₁, x, rfl, by simpa [endsExecuting] using h'⟩
    | _ => simp [endsExecuting] at h'

theorem multisig_quorum_of_current_owners_transfer :
    ∃ (h₁ : List Occurrence) (x : Execution) (s : System Unit),
      Reachable (fun h s ctx o => FreshId h ctx ∧ KeepsApprovals s o) (h₁ ++ [.executed x]) s ∧
      x.wallet.owners.length = 2 ∧ x.wallet.threshold ≤
        (x.wallet.owners.toFinset ∩ (approvals x.proposal.id h₁).toFinset).card := by
  have hcalls : okAnd (replay (fun h s ctx o => isFreshId h ctx && checkKeepsApprovals s o) ([], {})
      transferAfterRemovalCalls) (fun r =>
        endsExecuting (fun _ x => decide (x.wallet.owners.length = 2)) r.1) = true := by
    decide +kernel
  obtain ⟨⟨h, s⟩, hrun, hlast⟩ := exists_of_okAnd hcalls
  obtain ⟨h₁, x, rfl, htwo⟩ := exists_of_endsExecuting hlast
  have hreach : Reachable (fun h s ctx o => FreshId h ctx ∧ KeepsApprovals s o)
      (h₁ ++ [.executed x]) s := by
    refine replay_reachable (fun h s ctx o hcheck => ?_) hrun
    obtain ⟨hfresh, hkeeps⟩ := Bool.and_eq_true_iff.mp hcheck
    exact ⟨freshId_of_isFreshId hfresh, keepsApprovals_of_check hkeeps⟩
  exact ⟨h₁, x, s, hreach, of_decide_eq_true htwo,
    multisig_quorum_of_current_owners hreach h₁ x [] rfl⟩

/-- The third owner proposes a transfer and is then removed; one approval of the two owners that
are left executes it. -/
def staleApprovalCalls : List (TxContext × Operation Unit) :=
  [(callBy 1 160, .createWallet () [.ofByte 1, .ofByte 2, .ofByte 3] 2 ⟨⟨500⟩⟩),
   (callBy 3 161, .proposeTransfer () (.ofByte 160) (.ofByte 7) 120 "" 0),
   (callBy 1 162, .proposeRemoveOwner () (.ofByte 160) (.ofByte 3) "" 0),
   (callBy 2 163, .approve () (.ofByte 160) (.ofByte 162)),
   (callBy 2 163, .executeTransaction () (.ofByte 160) (.ofByte 162)),
   (callBy 1 163, .approve () (.ofByte 160) (.ofByte 161)),
   (callBy 1 163, .executeTransaction () (.ofByte 160) (.ofByte 161))]

theorem multisig_quorum_counts_removed_owner :
    ∃ (h₁ : List Occurrence) (x : Execution) (s : System Unit),
      Reachable (fun h _ ctx _ => FreshId h ctx) (h₁ ++ [.executed x]) s ∧
      (x.wallet.owners.toFinset ∩ (approvals x.proposal.id h₁).toFinset).card
        < x.wallet.threshold := by
  have hcalls : okAnd (replay (fun h _ ctx _ => isFreshId h ctx) ([], {}) staleApprovalCalls)
      (fun r => endsExecuting (fun h₁ x => decide (
        (x.wallet.owners.toFinset ∩ (approvals x.proposal.id h₁).toFinset).card
          < x.wallet.threshold)) r.1) = true := by
    decide +kernel
  obtain ⟨⟨h, s⟩, hrun, hlast⟩ := exists_of_okAnd hcalls
  obtain ⟨h₁, x, rfl, hfew⟩ := exists_of_endsExecuting hlast
  exact ⟨h₁, x, s, replay_reachable (fun _ _ _ _ hfresh => freshId_of_isFreshId hfresh) hrun,
    of_decide_eq_true hfew⟩

end

end Kanari.Proofs

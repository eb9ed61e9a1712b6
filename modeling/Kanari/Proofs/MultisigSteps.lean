import Kanari.Multisig
import Kanari.Proofs.CoinSupply

/-!
# What one multisig call does

`WalletStep` says where a wallet that is stored after a call comes from, `ProposalStep` the same
for a proposal.
-/

namespace Kanari.Proofs

open Lib Move Move.Multisig

/-- The owners of a wallet, and the number of them that has to agree. -/
structure WellFormed (w : MultisigWallet) : Prop where
  nonempty : w.owners ≠ []
  nodup : w.owners.Nodup
  positive : 1 ≤ w.threshold
  reachable : w.threshold ≤ w.owners.length

/-- The four effects of an execution. -/
inductive WalletChange (w : MultisigWallet) (p : TransactionProposal) :
    MultisigWallet → Option Payment → Prop
  | transfer {rest out : Coin} (htype : p.txType = TX_TYPE_TRANSFER) (hout : out.value = p.amount)
      (hrest : rest.value + p.amount = w.funds.value) :
      WalletChange w p { w with funds := rest, transactionCount := w.transactionCount + 1 }
        (some ⟨p.targetAddress, out⟩)
  | addOwner (htype : p.txType = TX_TYPE_ADD_OWNER) (hnew : p.targetAddress ∉ w.owners) :
      WalletChange w p { w with
        owners := w.owners ++ [p.targetAddress], transactionCount := w.transactionCount + 1 } none
  | removeOwner {owners : List AccountAddress} (htype : p.txType = TX_TYPE_REMOVE_OWNER)
      (hremoved : (p.targetAddress :: owners).Perm w.owners) (hsome : owners ≠ [])
      (hreach : w.threshold ≤ owners.length) :
      WalletChange w p { w with owners := owners, transactionCount := w.transactionCount + 1 } none
  | changeThreshold {threshold : Nat} (htype : p.txType = TX_TYPE_CHANGE_THRESHOLD)
      (hpos : 1 ≤ threshold) (hreach : threshold ≤ w.owners.length) :
      WalletChange w p
        { w with threshold := threshold, transactionCount := w.transactionCount + 1 } none

/-! ## The functions of the module -/

variable {owners : List AccountAddress} {w : MultisigWallet} {p : TransactionProposal}
  {id : AccountAddress}

lemma checkDuplicateOwners_ok {u : Unit} (h : checkDuplicateOwners owners = .ok u) :
    owners.Nodup := by
  induction owners with
  | nil => exact List.nodup_nil
  | cons a rest ih =>
    obtain ⟨_, hfirst, hrest⟩ := bind_eq_ok.mp h
    have hne : a ∉ rest := by
      intro hmem
      have := forOk_eq_ok.mp hfirst a hmem
      simp at this
    exact List.nodup_cons.mpr ⟨hne, ih hrest⟩

lemma createWallet_ok {threshold : Nat} {funds : Coin} {ctx : TxContext}
    (h : createWallet owners threshold funds ctx = .ok w) : w.id = ctx.newId ∧ WellFormed w := by
  obtain ⟨_, hlen, h⟩ := bind_eq_ok.mp h
  obtain ⟨_, hpos, h⟩ := bind_eq_ok.mp h
  obtain ⟨_, hreach, h⟩ := bind_eq_ok.mp h
  obtain ⟨_, hdup, h⟩ := bind_eq_ok.mp h
  obtain ⟨_, _, h⟩ := bind_eq_ok.mp h
  cases h
  simp only [ensure_eq_ok, decide_eq_true_eq] at hlen hpos hreach
  exact ⟨rfl, List.length_pos_iff.mp hlen, checkDuplicateOwners_ok hdup, hpos, hreach⟩

variable {w' : MultisigWallet} {p' : TransactionProposal} {payment : Option Payment}
  {k : AccountAddress}

lemma deposit_ok {funds : Coin} (h : deposit w funds = .ok w') :
    w' = { w with funds := w'.funds } ∧ w'.funds.value = w.funds.value + funds.value := by
  obtain ⟨joined, hjoin, h⟩ := bind_eq_ok.mp h
  cases h
  exact ⟨rfl, join_value hjoin⟩

/-- A proposal as its constructor leaves it: for the wallet, approved by its proposer. -/
structure Proposed (w : MultisigWallet) (ctx : TxContext) (p : TransactionProposal) : Prop where
  id : p.id = ctx.newId
  walletId : p.walletId = w.id
  proposer : p.proposer ∈ w.owners
  approvers : p.approvers = [p.proposer]
  executed : p.executed = false

lemma newProposal_ok {body : ProposalBody} {description : String} {ttlMs : Nat} {ctx : TxContext}
    (h : newProposal w body description ttlMs ctx = .ok p) : Proposed w ctx p := by
  obtain ⟨_, howner, h⟩ := bind_eq_ok.mp h
  cases h
  exact ⟨rfl, rfl, of_decide_eq_true (ensure_eq_ok.mp howner), rfl, rfl⟩

lemma approveTransaction_ok {ctx : TxContext} (h : approveTransaction w p ctx = .ok p') :
    p.walletId = w.id ∧ ctx.sender ∈ w.owners ∧ p.executed = false ∧ ctx.sender ∉ p.approvers ∧
      p' = { p with approvers := p.approvers ++ [ctx.sender] } := by
  obtain ⟨_, hbound, h⟩ := bind_eq_ok.mp h
  obtain ⟨_, howner, h⟩ := bind_eq_ok.mp h
  obtain ⟨_, hlive, h⟩ := bind_eq_ok.mp h
  obtain ⟨_, _, h⟩ := bind_eq_ok.mp h
  obtain ⟨_, hnew, h⟩ := bind_eq_ok.mp h
  cases h
  simp only [assertBound, ensure_eq_ok, beq_iff_eq, Multisig.isOwner, decide_eq_true_eq,
    Bool.not_eq_true', hasApproved, decide_eq_false_iff_not] at hbound howner hlive hnew
  exact ⟨hbound, howner, hlive, hnew, rfl⟩

lemma checkCancel_ok {ctx : TxContext} {u : Unit} (h : checkCancel w p ctx = .ok u) :
    p.executed = false := by
  obtain ⟨_, _, h⟩ := bind_eq_ok.mp h
  obtain ⟨_, _, h⟩ := bind_eq_ok.mp h
  simpa using h

lemma coinSplit_part {coin : Coin} {amount : Nat} {r : Coin × Coin}
    (h : coin.split amount = .ok r) : r.2.value = amount := by
  obtain ⟨_, _, h⟩ := bind_eq_ok.mp h
  obtain ⟨_, _, h⟩ := bind_eq_ok.mp h
  obtain ⟨s, hs, h⟩ := bind_eq_ok.mp h
  obtain ⟨_, _, hs⟩ := bind_eq_ok.mp hs
  cases hs
  cases h
  rfl

lemma removeOwnerAddr_ok {owners' : List AccountAddress} {doomed : AccountAddress}
    (h : removeOwnerAddr owners doomed = .ok owners') : (doomed :: owners').Perm owners := by
  unfold removeOwnerAddr at h
  cases hi : owners.findIdx? (· == doomed) with
  | none =>
    rw [hi] at h
    cases h
  | some i =>
    rw [hi] at h
    cases h
    obtain ⟨hlt, hat, _⟩ := List.findIdx?_eq_some_iff_getElem.mp hi
    obtain rfl : owners[i] = doomed := by simpa using hat
    exact swapRemove_perm (List.getElem?_eq_getElem hlt)

lemma executeEffects_ok (h : executeEffects w p = .ok (w', payment)) :
    w'.transactionCount = w.transactionCount ∧
      WalletChange w p { w' with transactionCount := w.transactionCount + 1 } payment := by
  unfold executeEffects at h
  split_ifs at h with htransfer hadd hremove hthreshold
  · obtain ⟨_, _, h⟩ := bind_eq_ok.mp h
    obtain ⟨_, _, h⟩ := bind_eq_ok.mp h
    obtain ⟨⟨rest, out⟩, hsplit, h⟩ := bind_eq_ok.mp h
    cases h
    have hout : out.value = p.amount := coinSplit_part hsplit
    have hrest : rest.value + out.value = w.funds.value := coinSplit_value hsplit
    exact ⟨rfl, .transfer htransfer hout (hout ▸ hrest)⟩
  · obtain ⟨_, hnew, h⟩ := bind_eq_ok.mp h
    cases h
    simp only [ensure_eq_ok, Multisig.isOwner, Bool.not_eq_true', decide_eq_false_iff_not] at hnew
    exact ⟨rfl, .addOwner hadd hnew⟩
  · obtain ⟨_, _, h⟩ := bind_eq_ok.mp h
    obtain ⟨_, hmany, h⟩ := bind_eq_ok.mp h
    obtain ⟨owners, howners, h⟩ := bind_eq_ok.mp h
    obtain ⟨_, hreach, h⟩ := bind_eq_ok.mp h
    cases h
    simp only [ensure_eq_ok, decide_eq_true_eq] at hmany hreach
    have hperm := removeOwnerAddr_ok howners
    have hlen : owners.length + 1 = w.owners.length := hperm.length_eq
    have hsome : owners ≠ [] := List.length_pos_iff.mp (by omega)
    exact ⟨rfl, .removeOwner hremove hperm hsome hreach⟩
  · obtain ⟨threshold, _, h⟩ := bind_eq_ok.mp h
    obtain ⟨_, hpos, h⟩ := bind_eq_ok.mp h
    obtain ⟨_, hreach, h⟩ := bind_eq_ok.mp h
    cases h
    simp only [ensure_eq_ok, decide_eq_true_eq] at hpos hreach
    exact ⟨rfl, .changeThreshold hthreshold hpos hreach⟩

/-- What a successful execution has checked, and its effect. -/
structure Executed (w : MultisigWallet) (p : TransactionProposal) (ctx : TxContext)
    (w' : MultisigWallet) (payment : Option Payment) : Prop where
  bound : p.walletId = w.id
  live : p.executed = false
  unexpired : isExpired p ctx = false
  enough : w.threshold ≤ p.approvers.length
  change : WalletChange w p w' payment

lemma executeTransaction_ok {ctx : TxContext} (h : executeTransaction w p ctx = .ok (w', payment)) :
    Executed w p ctx w' payment := by
  obtain ⟨_, hbound, h⟩ := bind_eq_ok.mp h
  obtain ⟨_, _, h⟩ := bind_eq_ok.mp h
  obtain ⟨_, hlive, h⟩ := bind_eq_ok.mp h
  obtain ⟨_, hexp, h⟩ := bind_eq_ok.mp h
  obtain ⟨_, henough, h⟩ := bind_eq_ok.mp h
  obtain ⟨⟨w₁, paid⟩, heffects, h⟩ := bind_eq_ok.mp h
  obtain ⟨_, _, h⟩ := bind_eq_ok.mp h
  cases h
  obtain ⟨hcount, hchange⟩ := executeEffects_ok heffects
  simp only [assertBound, ensure_eq_ok, beq_iff_eq, Bool.not_eq_true', hasEnoughApprovals,
    decide_eq_true_eq] at hbound hlive hexp henough
  rw [← hcount] at hchange
  exact ⟨hbound, hlive, hexp, henough, hchange⟩

lemma executeTransferChecked_ok {deny : DenyList} {ctx : TxContext}
    (h : executeTransferChecked w p deny ctx = .ok (w', payment)) :
    Executed w p ctx w' payment := by
  unfold executeTransferChecked at h
  split at h
  · obtain ⟨_, _, h⟩ := bind_eq_ok.mp h
    exact executeTransaction_ok h
  · exact executeTransaction_ok h

lemma executeBorrowed_eq (w : MultisigWallet) (p : TransactionProposal) (ctx : TxContext) :
    executeBorrowed w p ctx =
      (executeTransaction w p ctx).map fun r => (r.1, { p with executed := true }, r.2) := by
  have hmap : ∀ {α β γ : Type} (x : Except Abort α) (f : α → Except Abort β) (g : β → γ),
      (x >>= f).map g = x >>= fun a => (f a).map g := by
    rintro α β γ (e | a) f g <;> rfl
  unfold executeBorrowed executeTransaction executeEffects
  simp only [hmap]
  rfl

lemma executeBorrowed_ok {ctx : TxContext} (h : executeBorrowed w p ctx = .ok (w', p', payment)) :
    Executed w p ctx w' payment ∧ p' = { p with executed := true } := by
  rw [executeBorrowed_eq] at h
  cases hexec : executeTransaction w p ctx with
  | error e =>
    rw [hexec] at h
    cases h
  | ok r =>
    rw [hexec] at h
    cases h
    exact ⟨executeTransaction_ok hexec, rfl⟩

lemma WalletChange.id_eq (h : WalletChange w p w' payment) : w'.id = w.id := by
  cases h <;> rfl

/-! ## The system -/

section

variable {Tok : Type} {s s' : System Tok} {ctx : TxContext} {op : Operation Tok} {o : Occurrence}

/-- Wallets and proposals are stored under their own identifiers. -/
structure Keyed (s : System Tok) : Prop where
  wallet : ∀ {k token w}, s.wallets.find? k = some (token, w) → w.id = k
  proposal : ∀ {k p}, s.proposals.find? k = some p → p.id = k

/-- What a call does, with the values that it reads. -/
inductive Effect (s : System Tok) (ctx : TxContext) : System Tok → Occurrence → Prop
  | created (token : Tok) {w : MultisigWallet} (hid : w.id = ctx.newId) (hwf : WellFormed w) :
      Effect s ctx (s.saveWallet token w) (.created w)
  | deposited {token : Tok} {w : MultisigWallet} {funds : Coin} {amount : Nat}
      (hw : s.wallets.find? w.id = some (token, w)) (hfunds : funds.value = w.funds.value + amount) :
      Effect s ctx (s.saveWallet token { w with funds := funds }) (.deposited w.id amount)
  | proposed {token : Tok} {w : MultisigWallet} {p : TransactionProposal}
      (hw : s.wallets.find? w.id = some (token, w)) (hp : Proposed w ctx p) :
      Effect s ctx (s.saveProposal p) (.proposed p)
  | approved {token : Tok} {w : MultisigWallet} {p : TransactionProposal} {a : AccountAddress}
      (hw : s.wallets.find? w.id = some (token, w)) (hp : s.proposals.find? p.id = some p)
      (hbound : p.walletId = w.id) (howner : a ∈ w.owners) (hlive : p.executed = false)
      (hnew : a ∉ p.approvers) :
      Effect s ctx (s.saveProposal { p with approvers := p.approvers ++ [a] }) (.approved p.id a)
  | cancelled {p : TransactionProposal} (hp : s.proposals.find? p.id = some p)
      (hlive : p.executed = false) :
      Effect s ctx (s.deleteProposal p) (.cancelled p.id)
  | cancelledEntry {p : TransactionProposal} (hp : s.proposals.find? p.id = some p)
      (hlive : p.executed = false) :
      Effect s ctx (s.saveProposal { p with executed := true }) (.cancelled p.id)
  | deleted {p : TransactionProposal} (hp : s.proposals.find? p.id = some p) :
      Effect s ctx (s.deleteProposal p) (.deleted p.id)
  | executed {token : Tok} {w w' : MultisigWallet} {p : TransactionProposal}
      {payment : Option Payment} (hw : s.wallets.find? w.id = some (token, w))
      (hp : s.proposals.find? p.id = some p) (hexec : Executed w p ctx w' payment) :
      Effect s ctx ((s.saveWallet token w').deleteProposal p)
        (.executed ⟨w, p, ctx.epochTimestampMs, payment⟩)
  | executedEntry {token : Tok} {w w' : MultisigWallet} {p : TransactionProposal}
      {payment : Option Payment} (hw : s.wallets.find? w.id = some (token, w))
      (hp : s.proposals.find? p.id = some p) (hexec : Executed w p ctx w' payment) :
      Effect s ctx ((s.saveWallet token w').saveProposal { p with executed := true })
        (.executed ⟨w, p, ctx.epochTimestampMs, payment⟩)

/-! ## One wallet, one proposal -/

def writtenWallet : Occurrence → Option AccountAddress
  | .created w => some w.id
  | .deposited w _ => some w
  | .executed x => some x.wallet.id
  | _ => none

def writtenProposal : Occurrence → Option AccountAddress
  | .proposed p => some p.id
  | .approved p _ => some p
  | .cancelled p => some p
  | .deleted p => some p
  | .executed x => some x.proposal.id
  | _ => none

/-- Where the wallet `w'` that is stored after a call comes from. -/
inductive WalletStep (s : System Tok) (ctx : TxContext) (o : Occurrence) (token : Tok)
    (w' : MultisigWallet) : Prop
  | kept (hw : s.wallets.find? w'.id = some (token, w')) (hother : writtenWallet o ≠ some w'.id)
  | created (ho : o = .created w') (hid : w'.id = ctx.newId) (hwf : WellFormed w')
  | deposited {w : MultisigWallet} {funds : Coin} {amount : Nat}
      (hw : s.wallets.find? w'.id = some (token, w)) (ho : o = .deposited w'.id amount)
      (heq : w' = { w with funds := funds }) (hfunds : funds.value = w.funds.value + amount)
  | executed {x : Execution} (hw : s.wallets.find? w'.id = some (token, x.wallet))
      (ho : o = .executed x) (hchange : WalletChange x.wallet x.proposal w' x.payment)

/-- Where the proposal `p'` that is stored after a call comes from. -/
inductive ProposalStep (s : System Tok) (ctx : TxContext) (o : Occurrence)
    (p' : TransactionProposal) : Prop
  | kept (hp : s.proposals.find? p'.id = some p') (hother : writtenProposal o ≠ some p'.id)
  | proposed {token : Tok} {w : MultisigWallet} (ho : o = .proposed p')
      (hw : s.wallets.find? w.id = some (token, w)) (hp : Proposed w ctx p')
  | approved {token : Tok} {w : MultisigWallet} {p : TransactionProposal} {a : AccountAddress}
      (hp : s.proposals.find? p'.id = some p) (ho : o = .approved p'.id a)
      (hw : s.wallets.find? p'.walletId = some (token, w)) (howner : a ∈ w.owners)
      (hlive : p.executed = false) (hnew : a ∉ p.approvers)
      (heq : p' = { p with approvers := p.approvers ++ [a] })
  | closed {p : TransactionProposal} (hp : s.proposals.find? p'.id = some p)
      (ho : o = .cancelled p'.id ∨ ∃ x : Execution, x.proposal = p ∧ o = .executed x)
      (heq : p' = { p with executed := true })

lemma walletStep_of_kept (hs : Keyed s) {token : Tok} (hw' : s.wallets.find? k = some (token, w'))
    (hother : writtenWallet o = none) : WalletStep s ctx o token w' := by
  obtain rfl : w'.id = k := hs.wallet hw'
  exact .kept hw' (by simp [hother])

lemma find?_saveWallet {token token' : Tok}
    (h : (s.saveWallet token w).wallets.find? k = some (token', w')) :
    (k = w.id ∧ token' = token ∧ w' = w) ∨ (k ≠ w.id ∧ s.wallets.find? k = some (token', w')) := by
  rw [System.saveWallet, OrdMap.find?_insert] at h
  split at h
  · cases h
    exact .inl ⟨‹_›, rfl, rfl⟩
  · exact .inr ⟨‹_›, h⟩

lemma find?_saveProposal (h : (s.saveProposal p).proposals.find? k = some p') :
    (k = p.id ∧ p' = p) ∨ (k ≠ p.id ∧ s.proposals.find? k = some p') := by
  rw [System.saveProposal, OrdMap.find?_insert] at h
  split at h
  · cases h
    exact .inl ⟨‹_›, rfl⟩
  · exact .inr ⟨‹_›, h⟩

lemma find?_deleteProposal (h : (s.deleteProposal p).proposals.find? k = some p') :
    k ≠ p.id ∧ s.proposals.find? k = some p' := by
  rw [System.deleteProposal, OrdMap.find?_erase] at h
  split at h
  · cases h
  · exact ⟨‹_›, h⟩

lemma proposalStep_of_kept (hs : Keyed s) (hp' : s.proposals.find? k = some p')
    (hother : writtenProposal o ≠ some k) : ProposalStep s ctx o p' := by
  obtain rfl : p'.id = k := hs.proposal hp'
  exact .kept hp' hother

lemma walletStep_of_executed (hs : Keyed s) {token token' : Tok} {w₁ : MultisigWallet} {now : Nat}
    (hw : s.wallets.find? w.id = some (token, w)) (hexec : Executed w p ctx w₁ payment)
    (hw' : (s.saveWallet token w₁).wallets.find? k = some (token', w')) :
    WalletStep s ctx (.executed ⟨w, p, now, payment⟩) token' w' := by
  have hid : w₁.id = w.id := hexec.change.id_eq
  rcases find?_saveWallet hw' with ⟨rfl, rfl, rfl⟩ | ⟨hne, hkept⟩
  · refine .executed ?_ rfl hexec.change
    rw [hid]
    exact hw
  · obtain rfl : w'.id = k := hs.wallet hkept
    rw [hid] at hne
    exact .kept hkept (by simpa [writtenWallet] using Ne.symm hne)

/-! ## Calls -/

lemma proposal_ok (hs : Keyed s) (h : s.proposal id = .ok p) : s.proposals.find? p.id = some p := by
  have hfind : s.proposals.find? id = some p := orError_eq_ok.mp h
  rw [hs.proposal hfind, hfind]

variable [DecidableEq Tok]

lemma wallet_ok (hs : Keyed s) {token : Tok} (h : s.wallet token id = .ok w) :
    s.wallets.find? w.id = some (token, w) := by
  obtain ⟨⟨t, v⟩, hfind, h⟩ := bind_eq_ok.mp h
  obtain ⟨_, htoken, h⟩ := bind_eq_ok.mp h
  cases h
  simp only [orError_eq_ok, ensure_eq_ok, decide_eq_true_eq] at hfind htoken
  rw [hs.wallet hfind, hfind, htoken]

lemma propose_effect (hs : Keyed s) {token : Tok}
    {build : MultisigWallet → Except Abort TransactionProposal}
    (hbuild : ∀ w p, build w = .ok p → Proposed w ctx p)
    (h : s.propose token id build = .ok (s', o)) : Effect s ctx s' o := by
  obtain ⟨w, hw, h⟩ := bind_eq_ok.mp h
  obtain ⟨p, hp, h⟩ := bind_eq_ok.mp h
  cases h
  exact .proposed (wallet_ok hs hw) (hbuild w p hp)

lemma execute_effect (hs : Keyed s) {token : Tok} {wallet proposal : AccountAddress}
    {body : MultisigWallet → TransactionProposal → Except Abort (MultisigWallet × Option Payment)}
    (hbody : ∀ w p w' payment, body w p = .ok (w', payment) → Executed w p ctx w' payment)
    (h : s.execute token wallet proposal ctx body = .ok (s', o)) : Effect s ctx s' o := by
  obtain ⟨w, hw, h⟩ := bind_eq_ok.mp h
  obtain ⟨p, hp, h⟩ := bind_eq_ok.mp h
  obtain ⟨⟨w', payment⟩, hexec, h⟩ := bind_eq_ok.mp h
  cases h
  exact .executed (wallet_ok hs hw) (proposal_ok hs hp) (hbody w p w' payment hexec)

lemma call_effect (hs : Keyed s) (h : s.call ctx op = .ok (s', o)) : Effect s ctx s' o := by
  cases op with
  | createWallet token owners threshold initialFunds =>
    obtain ⟨w, hw, h⟩ := bind_eq_ok.mp h
    cases h
    obtain ⟨hid, hwf⟩ := createWallet_ok hw
    exact .created token hid hwf
  | deposit token wallet funds =>
    obtain ⟨w, hw, h⟩ := bind_eq_ok.mp h
    obtain ⟨w', hdeposit, h⟩ := bind_eq_ok.mp h
    cases h
    obtain ⟨hsame, hfunds⟩ := deposit_ok hdeposit
    rw [hsame]
    exact .deposited (wallet_ok hs hw) hfunds
  | proposeTransfer =>
    refine propose_effect hs (fun w p hp => ?_) h
    obtain ⟨_, _, hp⟩ := bind_eq_ok.mp hp
    exact newProposal_ok hp
  | proposeAddOwner | proposeRemoveOwner | proposeChangeThreshold =>
    refine propose_effect hs (fun w p hp => ?_) h
    obtain ⟨_, _, hp⟩ := bind_eq_ok.mp hp
    obtain ⟨_, _, hp⟩ := bind_eq_ok.mp hp
    exact newProposal_ok hp
  | approve token wallet proposal =>
    obtain ⟨w, hw, h⟩ := bind_eq_ok.mp h
    obtain ⟨p, hp, h⟩ := bind_eq_ok.mp h
    obtain ⟨p', hp', h⟩ := bind_eq_ok.mp h
    obtain ⟨hbound, howner, hlive, hnew, rfl⟩ := approveTransaction_ok hp'
    cases h
    exact .approved (wallet_ok hs hw) (proposal_ok hs hp) hbound howner hlive hnew
  | cancelProposal token wallet proposal =>
    obtain ⟨w, _, h⟩ := bind_eq_ok.mp h
    obtain ⟨p, hp, h⟩ := bind_eq_ok.mp h
    obtain ⟨_, hcancel, h⟩ := bind_eq_ok.mp h
    cases h
    exact .cancelled (proposal_ok hs hp) (checkCancel_ok hcancel)
  | cancelEntry token wallet proposal =>
    obtain ⟨w, _, h⟩ := bind_eq_ok.mp h
    obtain ⟨p, hp, h⟩ := bind_eq_ok.mp h
    obtain ⟨p', hcancel, h⟩ := bind_eq_ok.mp h
    obtain ⟨_, hcheck, hcancel⟩ := bind_eq_ok.mp hcancel
    cases hcancel
    cases h
    exact .cancelledEntry (proposal_ok hs hp) (checkCancel_ok hcheck)
  | deleteExpiredProposal proposal =>
    obtain ⟨p, hp, h⟩ := bind_eq_ok.mp h
    obtain ⟨_, _, h⟩ := bind_eq_ok.mp h
    cases h
    exact .deleted (proposal_ok hs hp)
  | executeTransaction => exact execute_effect hs (fun _ _ _ _ hexec => executeTransaction_ok hexec) h
  | executeTransferChecked =>
    exact execute_effect hs (fun _ _ _ _ hexec => executeTransferChecked_ok hexec) h
  | executeEntry token wallet proposal =>
    obtain ⟨_, _, h⟩ := bind_eq_ok.mp h
    obtain ⟨w, hw, h⟩ := bind_eq_ok.mp h
    obtain ⟨p, hp, h⟩ := bind_eq_ok.mp h
    obtain ⟨⟨w', p', payment⟩, hborrowed, h⟩ := bind_eq_ok.mp h
    obtain ⟨hexec, rfl⟩ := executeBorrowed_ok hborrowed
    cases h
    exact .executedEntry (wallet_ok hs hw) (proposal_ok hs hp) hexec

lemma call_wallet (hs : Keyed s) (h : s.call ctx op = .ok (s', o)) {token' : Tok}
    (hw' : s'.wallets.find? k = some (token', w')) : WalletStep s ctx o token' w' := by
  cases call_effect hs h with
  | created token hid hwf =>
    rcases find?_saveWallet hw' with ⟨rfl, rfl, rfl⟩ | ⟨hne, hkept⟩
    · exact .created rfl hid hwf
    · obtain rfl : w'.id = k := hs.wallet hkept
      exact .kept hkept (by simpa [writtenWallet] using Ne.symm hne)
  | deposited hw hfunds =>
    rcases find?_saveWallet hw' with ⟨rfl, rfl, rfl⟩ | ⟨hne, hkept⟩
    · exact .deposited hw rfl rfl hfunds
    · obtain rfl : w'.id = k := hs.wallet hkept
      exact .kept hkept (by simpa [writtenWallet] using Ne.symm hne)
  | proposed _ _ => exact walletStep_of_kept hs hw' rfl
  | approved _ _ _ _ _ _ => exact walletStep_of_kept hs hw' rfl
  | cancelled _ _ => exact walletStep_of_kept hs hw' rfl
  | cancelledEntry _ _ => exact walletStep_of_kept hs hw' rfl
  | deleted _ => exact walletStep_of_kept hs hw' rfl
  | executed hw _ hexec => exact walletStep_of_executed hs hw hexec hw'
  | executedEntry hw _ hexec => exact walletStep_of_executed hs hw hexec hw'

lemma call_proposal (hs : Keyed s) (h : s.call ctx op = .ok (s', o))
    (hp' : s'.proposals.find? k = some p') : ProposalStep s ctx o p' := by
  cases call_effect hs h with
  | created _ _ _ => exact proposalStep_of_kept hs hp' (by simp [writtenProposal])
  | deposited _ _ => exact proposalStep_of_kept hs hp' (by simp [writtenProposal])
  | proposed hw hnew =>
    rcases find?_saveProposal hp' with ⟨rfl, rfl⟩ | ⟨hne, hkept⟩
    · exact .proposed rfl hw hnew
    · exact proposalStep_of_kept hs hkept (by simpa [writtenProposal] using Ne.symm hne)
  | approved hw hp hbound howner hlive hnew =>
    rcases find?_saveProposal hp' with ⟨rfl, rfl⟩ | ⟨hne, hkept⟩
    · exact .approved hp rfl (hbound ▸ hw) howner hlive hnew rfl
    · exact proposalStep_of_kept hs hkept (by simpa [writtenProposal] using Ne.symm hne)
  | cancelled _ _ =>
    obtain ⟨hne, hkept⟩ := find?_deleteProposal hp'
    exact proposalStep_of_kept hs hkept (by simpa [writtenProposal] using Ne.symm hne)
  | cancelledEntry hp _ =>
    rcases find?_saveProposal hp' with ⟨rfl, rfl⟩ | ⟨hne, hkept⟩
    · exact .closed hp (.inl rfl) rfl
    · exact proposalStep_of_kept hs hkept (by simpa [writtenProposal] using Ne.symm hne)
  | deleted _ =>
    obtain ⟨hne, hkept⟩ := find?_deleteProposal hp'
    exact proposalStep_of_kept hs hkept (by simpa [writtenProposal] using Ne.symm hne)
  | executed _ _ _ =>
    obtain ⟨hne, hkept⟩ := find?_deleteProposal hp'
    exact proposalStep_of_kept hs hkept (by simpa [writtenProposal] using Ne.symm hne)
  | executedEntry _ hp _ =>
    rcases find?_saveProposal hp' with ⟨rfl, rfl⟩ | ⟨hne, hkept⟩
    · exact .closed hp (.inr ⟨_, rfl, rfl⟩) rfl
    · exact proposalStep_of_kept hs hkept (by simpa [writtenProposal] using Ne.symm hne)

lemma call_executed (hs : Keyed s) {x : Execution} (h : s.call ctx op = .ok (s', .executed x)) :
    (∃ token, s.wallets.find? x.wallet.id = some (token, x.wallet)) ∧
      s.proposals.find? x.proposal.id = some x.proposal ∧ x.now = ctx.epochTimestampMs ∧
      ∃ w', Executed x.wallet x.proposal ctx w' x.payment := by
  cases call_effect hs h with
  | executed hw hp hexec => exact ⟨⟨_, hw⟩, hp, rfl, _, hexec⟩
  | executedEntry hw hp hexec => exact ⟨⟨_, hw⟩, hp, rfl, _, hexec⟩

end

end Kanari.Proofs

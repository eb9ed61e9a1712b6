import Kanari.Proofs.CheckpointAtomicity
import Kanari.Proofs.NodeRuns
import Kanari.Proofs.PendingSelection

/-!
# Nonces are not used twice

While no nonce of a sender reaches the bound from which marks are dropped, the mark only grows, and
admission refuses every nonce up to it.
-/

namespace Kanari.Proofs

open Lib Node PersistentStore MempoolState

variable {σ : Type} {cfg : NodeConfig} {env : AdmissionEnv} {E : StateEnv σ} {s : PersistentStore σ}
  {account : String} {n : Nat}

def NonceInRange (env : AdmissionEnv) (account : String) (tx : SignedTransaction) : Prop :=
  env.normalizeAddr tx.transaction.header.sender = account → tx.transaction.header.nonce < MAX_WATERMARK

/-! ## The mark of one account -/

lemma countOf_capped (watermark : OrdMap String Nat) (account : String) :
    countOf (watermark.mapValues cappedWatermark) account = cappedWatermark (countOf watermark account) := by
  unfold countOf
  rw [OrdMap.find?_mapValues]
  cases watermark.find? account with
  | none => rfl
  | some v => rfl

lemma cappedWatermark_lt (v : Nat) : cappedWatermark v < MAX_WATERMARK := by
  unfold cappedWatermark
  split_ifs with h
  · decide
  · exact not_le.mp h

def noncesOf (env : AdmissionEnv) (account : String) (txs : List SignedTransaction) : List Nat :=
  (txs.filter fun tx => env.normalizeAddr tx.transaction.header.sender == account).map
    (·.transaction.header.nonce)

lemma mem_noncesOf {txs : List SignedTransaction} {k : Nat} : k ∈ noncesOf env account txs ↔
    ∃ tx ∈ txs, env.normalizeAddr tx.transaction.header.sender = account ∧
      tx.transaction.header.nonce = k := by
  simp [noncesOf, and_assoc]

lemma foldl_max_le {l : List Nat} {a b : Nat} : l.foldl max a ≤ b ↔ a ≤ b ∧ ∀ x ∈ l, x ≤ b := by
  induction l generalizing a with
  | nil => simp
  | cons x l ih => simp [ih, and_assoc]

lemma countOf_raise (env : AdmissionEnv) (account : String) (txs : List SignedTransaction)
    (watermark : OrdMap String Nat) :
    countOf (txs.foldl (fun watermark tx =>
      let sender := env.normalizeAddr tx.transaction.header.sender
      let nonce := tx.transaction.header.nonce
      if (watermark.find? sender).getD 0 < nonce then watermark.insert sender nonce else watermark) watermark)
        account = (noncesOf env account txs).foldl max (countOf watermark account) := by
  induction txs generalizing watermark with
  | nil => rfl
  | cons tx txs ih =>
    rw [List.foldl_cons, ih]
    unfold noncesOf
    rw [List.filter_cons]
    by_cases hsame : env.normalizeAddr tx.transaction.header.sender = account
    · rw [if_pos (beq_iff_eq.mpr hsame), List.map_cons, List.foldl_cons, ← hsame]
      congr 1
      dsimp only
      split_ifs with hlt
      · rw [countOf, OrdMap.find?_insert_self]
        exact (max_eq_right hlt.le).symm
      · exact (max_eq_left (not_lt.mp hlt)).symm
    · rw [beq_false_of_ne hsame, if_neg Bool.false_ne_true]
      congr 1
      dsimp only
      split_ifs
      · rw [countOf, OrdMap.find?_insert, if_neg (Ne.symm hsame)]
        rfl
      · rfl

lemma countOf_raiseWatermark (env : AdmissionEnv) (account : String) (c : Checkpoint)
    (watermark : OrdMap String Nat) :
    countOf (raiseWatermark env c watermark) account =
      (noncesOf env account c.transactions).foldl max (cappedWatermark (countOf watermark account)) := by
  rw [raiseWatermark, countOf_raise, countOf_capped]

variable {c : Checkpoint} {tx : SignedTransaction} {chain : Blockchain} {node node' : Node σ}

lemma raiseWatermark_mark (hc : Carries (NonceInRange env account) c)
    (watermark : OrdMap String Nat) :
    countOf (raiseWatermark env c watermark) account < MAX_WATERMARK ∧
      cappedWatermark (countOf watermark account) ≤ countOf (raiseWatermark env c watermark) account ∧
      ∀ tx ∈ c.transactions, env.normalizeAddr tx.transaction.header.sender = account →
        tx.transaction.header.nonce ≤ countOf (raiseWatermark env c watermark) account := by
  rw [countOf_raiseWatermark]
  obtain ⟨hgrow, hcover⟩ := foldl_max_le.mp (le_refl
    ((noncesOf env account c.transactions).foldl max (cappedWatermark (countOf watermark account))))
  refine ⟨Nat.lt_of_le_pred (by decide) (foldl_max_le.mpr ⟨?_, ?_⟩), hgrow, ?_⟩
  · exact Nat.le_pred_of_lt (cappedWatermark_lt _)
  · intro k hk
    obtain ⟨tx, htx, hsender, rfl⟩ := mem_noncesOf.mp hk
    exact Nat.le_pred_of_lt (hc tx htx hsender)
  · intro tx htx hsender
    exact hcover _ (mem_noncesOf.mpr ⟨tx, htx, hsender, rfl⟩)

/-! ## Kept by every write -/

/-- The mark of the account is at least `n` and in range, and stays so whatever the records of the
store are used for. -/
structure Guarded (env : AdmissionEnv) (account : String) (n : Nat) (s : PersistentStore σ) : Prop where
  carries : StoreCarries (NonceInRange env account) s
  low : n ≤ countOf s.senderNonceWatermark account
  high : countOf s.senderNonceWatermark account < MAX_WATERMARK

lemma guarded_empty (env : AdmissionEnv) (account : String) : Guarded env account 0 ({} : PersistentStore σ) :=
  ⟨storeCarries_empty _, Nat.zero_le _, Nat.two_pow_pos 53⟩

lemma Guarded.congr {t : PersistentStore σ} (h : Guarded env account n s)
    (hcarries : StoreCarries (NonceInRange env account) t)
    (hmark : t.senderNonceWatermark = s.senderNonceWatermark) : Guarded env account n t :=
  ⟨hcarries, hmark ▸ h.low, hmark ▸ h.high⟩

lemma Guarded.persist (h : Guarded env account n s) (hc : Carries (NonceInRange env account) c)
    (mark : Bool) : Guarded env account n (persistCheckpoint cfg env mark c s) := by
  have hcarries : StoreCarries (NonceInRange env account) (persistCheckpoint cfg env mark c s) :=
    h.carries.persist hc mark
  obtain ⟨hhigh, hgrow, -⟩ := raiseWatermark_mark hc s.senderNonceWatermark
  rw [cappedWatermark, if_neg (not_le.mpr h.high)] at hgrow
  refine ⟨hcarries, ?_, ?_⟩ <;> rw [persistCheckpoint_watermark] <;> split_ifs
  · exact h.low
  · exact h.low.trans hgrow
  · exact h.high
  · exact hhigh

lemma Guarded.raise (h : Guarded env account n s) (hc : Carries (NonceInRange env account) c)
    (hseq : c.sequence ≠ 0) (htx : tx ∈ c.transactions)
    (hsender : env.normalizeAddr tx.transaction.header.sender = account) (mark : Bool) :
    Guarded env account tx.transaction.header.nonce (persistCheckpoint cfg env mark c s) := by
  have hwritten : (c.transactions.isEmpty || c.sequence == 0) = false := by
    rw [Bool.or_eq_false_iff]
    exact ⟨List.isEmpty_eq_false_iff.mpr (List.ne_nil_of_mem htx), beq_false_of_ne hseq⟩
  have hpersist : Guarded env account n (persistCheckpoint cfg env mark c s) := h.persist hc mark
  refine ⟨hpersist.carries, ?_, hpersist.high⟩
  rw [persistCheckpoint_watermark, hwritten]
  exact (raiseWatermark_mark hc s.senderNonceWatermark).2.2 tx htx hsender

lemma Guarded.snapshot_write (hchain : ChainCarries (NonceInRange env account) chain)
    {u : PersistentStore σ} {w : PersistentStore σ → PersistentStore σ}
    (hw : w ∈ persistBlockchainSnapshot cfg env chain s) (h : Guarded env account n u) :
    Guarded env account n (w u) := by
  have hcarries := h.carries.snapshot_write hchain hw
  rcases snapshot_write_cases hw with ⟨d, hd, rfl⟩ | (rfl | rfl) | ⟨k, rfl⟩ | ⟨k, rfl⟩
  · exact h.persist (hchain d (mem_unpersisted.mp hd).1) false
  all_goals exact h.congr hcarries rfl

lemma Guarded.mark (h : Guarded env account n s) (state : Option σ) {marker : Option Checkpoint}
    (hmarker : ∀ c, marker = some c → Carries (NonceInRange env account) c) :
    Guarded env account n { s with state := state, pendingCheckpointCommit := marker } :=
  h.congr (h.carries.mark state hmarker) rfl

lemma Guarded.commitBatch (h : Guarded env account n s) (hc : Carries (NonceInRange env account) c)
    (state : σ) : Guarded env account n (commitBatch cfg env c state s) := by
  have hmarker : ∀ d, some c = some d → Carries (NonceInRange env account) d := fun d hd => Option.some.inj hd ▸ hc
  unfold Node.commitBatch
  dsimp only
  split_ifs
  · exact (h.persist hc true).mark (some state) hmarker
  · exact h.mark (some state) hmarker

lemma Guarded.closing_write (hchain : ChainCarries (NonceInRange env account) chain)
    {u : PersistentStore σ} {w : PersistentStore σ → PersistentStore σ}
    (hw : w ∈ closingWrites cfg env chain s) (h : Guarded env account n u) :
    Guarded env account n (w u) := by
  rcases List.mem_append.mp hw with hw | hw
  · unfold metadataWrites at hw
    split_ifs at hw
    · cases hw
    · exact h.snapshot_write hchain hw
  · obtain rfl := List.mem_singleton.mp hw
    exact h.mark u.state fun c hc => by cases hc

/-! ## Kept by every step -/

def NodeGuarded (env : AdmissionEnv) (account : String) (n : Nat) (node : Node σ) : Prop :=
  ChainCarries (NonceInRange env account) node.chain ∧
    ∃ s, node.store = some s ∧ Guarded env account n s

lemma NodeGuarded.finalize (h : NodeGuarded env account n node) (fault : Option Nat)
    (hc : Carries (NonceInRange env account) c) (state : σ) (validateSupply : Bool) :
    NodeGuarded env account n (finalizeCheckpoint cfg env E fault c state validateSupply node).2 := by
  obtain ⟨hchain, s, hs, hguarded⟩ := h
  have hbatch : Guarded env account n (Node.commitBatch cfg env c state s) := hguarded.commitBatch hc state
  rcases finalizeCheckpoint_cases cfg env E fault c state validateSupply node with
    ⟨e, heq⟩ | ⟨e, -, -, heq⟩ | ⟨-, -, happended⟩
  · rw [heq]
    exact ⟨hchain, s, hs, hguarded⟩
  · rw [heq]
    exact ⟨hchain, _, by simp only [commitState, hs, Option.map_some], hbatch⟩
  · obtain ⟨s', hs', hcrash⟩ := happended.store s hs
    have hchain' := hchain.append hc env.toHashEnv
    refine ⟨happended.chain ▸ hchain', s', hs', ?_⟩
    exact hcrash.invariant (fun w hw u hu => hu.closing_write hchain' hw) hbatch

lemma Guarded.openChain (h : Guarded env account n s) {require : Bool} {s' : PersistentStore σ}
    (hopen : Node.openChain cfg env E require s = .ok (chain, s')) :
    ChainCarries (NonceInRange env account) chain ∧ Guarded env account n s' := by
  obtain ⟨⟨loaded, writes⟩, hload, hopen⟩ := bind_eq_ok.mp hopen
  obtain ⟨hloaded, hwrites⟩ := h.carries.load hload
  have hguarded : Guarded env account n (writeAll writes s) :=
    writeAll_invariant (fun w hw u hu => hu.snapshot_write hloaded (hwrites w hw)) h
  dsimp only at hopen
  cases hmarker : (writeAll writes s).pendingCheckpointCommit with
  | none =>
    rw [hmarker] at hopen
    have hpair := Prod.mk.inj (Except.ok.inj hopen)
    exact ⟨hpair.1 ▸ hloaded, hpair.2 ▸ hguarded⟩
  | some c =>
    rw [hmarker] at hopen
    obtain ⟨recovered, hrecover, hopen⟩ := bind_eq_ok.mp hopen
    have hpair := Prod.mk.inj (Except.ok.inj hopen)
    have hrecovered : ChainCarries (NonceInRange env account) recovered := by
      rcases recoverMarker_cases hrecover with ⟨-, rfl⟩ | rfl
      · exact hloaded.append (hguarded.carries.marker c hmarker) env.toHashEnv
      · exact hloaded
    refine ⟨hpair.1 ▸ hrecovered, hpair.2 ▸ ?_⟩
    refine Guarded.mark (writeAll_invariant (fun w hw u hu => hu.snapshot_write hrecovered hw) hguarded) _ ?_
    exact fun d hd => by cases hd

lemma Guarded.init (h : Guarded env account n s) {require : Bool}
    (hinit : Node.init cfg env E require (some s) = .ok node) : NodeGuarded env account n node := by
  obtain ⟨⟨chain, s'⟩, hopen, hinit⟩ := bind_eq_ok.mp hinit
  obtain ⟨state, -, hinit⟩ := bind_eq_ok.mp hinit
  obtain ⟨hchain, hguarded⟩ := h.openChain hopen
  rw [← Except.ok.inj hinit]
  exact ⟨hchain, _, rfl, hguarded.mark (some state) hguarded.carries.marker⟩

lemma NodeGuarded.step (h : NodeGuarded env account n node)
    (hstep : NodeStep env E (Carries (NonceInRange env account)) node node') :
    NodeGuarded env account n node' := by
  cases hstep with
  | finalize cfg fault hc state validateSupply => exact h.finalize fault hc state validateSupply
  | restart hinit =>
    obtain ⟨-, s, hs, hguarded⟩ := h
    rw [hs] at hinit
    exact hguarded.init hinit
  | submit mempool => exact h

lemma NodeGuarded.run (h : NodeGuarded env account n node)
    (hrun : Relation.ReflTransGen (NodeStep env E (Carries (NonceInRange env account))) node node') :
    NodeGuarded env account n node' := by
  induction hrun with
  | refl => exact h
  | tail _ hstep ih => exact ih.step hstep

lemma NodeGuarded.commit (h : NodeGuarded env account n node) {state : σ} {validateSupply : Bool}
    (hc : Carries (NonceInRange env account) c) (hseq : c.sequence ≠ 0)
    (hcommit : finalizeCheckpoint cfg env E none c state validateSupply node = (.ok (), node'))
    (hprogress : cfg.inlineCheckpointMetadata = true ∨ ∀ s through, node.store = some s →
      s.historyPersistedThrough = some through → through < c.sequence.toNat)
    (htx : tx ∈ c.transactions) (hsender : env.normalizeAddr tx.transaction.header.sender = account) :
    NodeGuarded env account tx.transaction.header.nonce node' := by
  obtain ⟨hchain, s, hs, hguarded⟩ := h
  obtain ⟨-, -, rfl⟩ := finalizeCheckpoint_eq_ok hcommit
  have hchain' := hchain.append hc env.toHashEnv
  refine ⟨hchain', _, by rw [finalized, hs, Option.map_some], ?_⟩
  rw [finalizeWrites, writeAll_cons]
  cases hinline : cfg.inlineCheckpointMetadata with
  | true =>
    refine writeAll_invariant (fun w hw u hu => hu.closing_write hchain' hw) ?_
    rw [Node.commitBatch, if_pos hinline]
    exact (hguarded.raise hc hseq htx hsender true).mark (some state) fun d hd => Option.some.inj hd ▸ hc
  | false =>
    have hbelow := hprogress.resolve_left (by rw [hinline]; decide)
    have hwrite : persistCheckpoint cfg env false c ∈ closingWrites cfg env (node.chain.append env.toHashEnv c)
        (Node.commitBatch cfg env c state s) :=
      persist_mem_closingWrites hinline (fun through => hbelow s through hs) node.chain state
    exact writeAll_establishes (fun w hw u hu => hu.closing_write hchain' hw)
      (fun w hw u hu => hu.closing_write hchain' hw) hwrite
      (fun u hu => hu.raise hc hseq htx hsender false) (hguarded.commitBatch hc state)

/-! ## Admission -/

lemma mem_of_splitOnce {sep : Char} {cs : List Char} {parts : List Char × List Char}
    (h : splitOnce sep cs = some parts) : sep ∈ cs := by
  induction cs generalizing parts with
  | nil => cases h
  | cons c cs ih =>
    rw [splitOnce] at h
    split_ifs at h with hc
    · exact (eq_of_beq hc) ▸ List.mem_cons_self
    · obtain ⟨rest, hrest, -⟩ := Option.map_eq_some_iff.mp h
      exact List.mem_cons_of_mem _ (ih hrest)

/-- The marks are kept under the address that a signed sender denotes, however it is written. -/
lemma normalizeAddr_of_parse {digest : Bytes}
    (hsigned : env.verifiedTransactionHash tx = .ok digest) {a : AccountAddress}
    (hparse : parseToAccountAddress env.hashPublicKey tx.transaction.header.sender = some a) :
    env.normalizeAddr tx.transaction.header.sender = String.ofList (Hex.encode a.bytes) := by
  obtain ⟨-, -, tag, address, hsplit⟩ := verifiedTransactionHash_ok hsigned
  have htagged : tx.transaction.header.sender.toList.contains ':' = true :=
    List.contains_iff_mem.mpr (mem_of_splitOnce hsplit)
  have hliteral : kanariFromHexLiteral env.hashPublicKey (tx.transaction.header.sender.toList.length + 1)
      tx.transaction.header.sender.toList = some a := by
    rw [← hparse, parseToAccountAddress, if_pos (.inr htagged)]
  rw [AdmissionEnv.normalizeAddr, AdmissionEnv.addressFromStr, hliteral]
  rfl

lemma verifyForMempool_ok {metadata : PendingTransactionMetadata} {signed : SignedTransaction}
    {tx : AdmissionEnv.VerifiedTx} (h : env.verifyForMempool metadata signed = .ok tx) :
    env.verifiedTransactionHash signed = .ok tx.txHash ∧
      (parseToAccountAddress env.hashPublicKey signed.transaction.header.sender).isSome = true ∧
      tx.normalizedSender = env.normalizeAddr signed.transaction.header.sender ∧
      tx.nonce = signed.transaction.header.nonce := by
  unfold AdmissionEnv.verifyForMempool at h
  obtain ⟨txHash, hhash, h⟩ := bind_eq_ok.mp h
  obtain ⟨⟨⟩, hshape, h⟩ := bind_eq_ok.mp h
  obtain ⟨size, -, h⟩ := bind_eq_ok.mp h
  unfold AdmissionEnv.validateTransactionAdmissionShape at hshape
  simp only [bind_eq_ok, ensure_eq_ok] at hshape
  obtain ⟨-, -, -, -, -, -, -, -, -, -, -, hparse, -⟩ := hshape
  cases h
  exact ⟨hhash, hparse, rfl, rfl⟩

lemma checkNonce_stale {watermark : OrdMap String Nat} {tx : AdmissionEnv.VerifiedTx} (hpositive : 0 < n)
    (hmark : n ≤ countOf watermark tx.normalizedSender) (hstale : tx.nonce ≤ n) :
    checkNonce watermark tx ≠ .ok () := by
  intro h
  unfold checkNonce at h
  unfold countOf at hmark
  cases hfind : watermark.find? tx.normalizedSender with
  | none =>
    rw [hfind, Option.getD_none] at hmark
    omega
  | some maxCommitted =>
    rw [hfind, Option.getD_some] at hmark
    rw [hfind] at h
    simp only [ensure_eq_ok, Bool.not_eq_true', decide_eq_false_iff_not] at h
    omega

/-- A batch with a stale nonce is refused as a whole. -/
lemma NodeGuarded.refuses (h : NodeGuarded env account n node) (hpositive : 0 < n)
    {batch : List SignedTransaction} {replay : SignedTransaction} (hreplay : replay ∈ batch)
    (hsender : ∀ digest, env.verifiedTransactionHash replay = .ok digest →
      (parseToAccountAddress env.hashPublicKey replay.transaction.header.sender).isSome = true →
      env.normalizeAddr replay.transaction.header.sender = account)
    (hstale : replay.transaction.header.nonce ≤ n) (metadata : PendingTransactionMetadata) :
    ∃ e, node.mempool.submitTransactionsBatch env node.admissionView batch metadata = (.error e, node.mempool) := by
  obtain ⟨-, s, hs, hguarded⟩ := h
  rcases submit_cases node.mempool env node.admissionView batch metadata with
    ⟨r, heq, hempty | ⟨e, rfl⟩⟩ | ⟨admitted, bytes, executed, acc, hprepared, hchecked, -⟩
  · exact absurd hempty (List.ne_nil_of_mem hreplay)
  · exact ⟨e, heq⟩
  exfalso
  obtain ⟨verified, hverified, hperm, -⟩ := prepareBatch_ok hprepared
  obtain ⟨tx, htx, hok⟩ := exists_of_mapM_ok hverified replay hreplay
  obtain ⟨hhash, hparse, hnormal, hnonce⟩ := verifyForMempool_ok hok
  have hview : node.admissionView.senderNonceWatermark = .ok s.senderNonceWatermark := by
    simp only [admissionView, hs, Option.map_some, Option.getD_some]
  unfold checkBatch at hchecked
  obtain ⟨⟨⟩, -, hchecked⟩ := bind_eq_ok.mp hchecked
  obtain ⟨⟨⟩, -, hchecked⟩ := bind_eq_ok.mp hchecked
  obtain ⟨watermark, hwatermark, hchecked⟩ := bind_eq_ok.mp hchecked
  obtain rfl := Except.ok.inj (hview.symm.trans hwatermark)
  obtain ⟨before, after, rfl⟩ := List.append_of_mem (hperm.mem_iff.mpr htx)
  obtain ⟨reserved, -, hrest⟩ := foldOk_append_eq_ok.mp hchecked
  obtain ⟨next, hreserve, -⟩ := foldOk_cons_eq_ok.mp hrest
  obtain ⟨-, -, -, hfresh, -⟩ := reserve_eq_ok hreserve
  refine checkNonce_stale hpositive ?_ (hnonce ▸ hstale) hfresh
  rw [hnormal, hsender _ hhash hparse, countOf_capped, cappedWatermark, if_neg (not_le.mpr hguarded.high)]
  exact hguarded.low

/-- Once a signed transaction with a nonce of at least one has been committed, no batch with a
transaction of the same address and a nonce up to that one is admitted, whatever happens later,
while the nonces of the sender stay below the bound. -/
theorem nonce_replay_refused {cfg₀ : NodeConfig} {require : Bool} {started node node' later : Node σ}
    {c : Checkpoint} {state : σ} {validateSupply : Bool} {tx replay : SignedTransaction} {digest : Bytes}
    {batch : List SignedTransaction}
    (hstart : Node.init cfg₀ env E require (some {}) = .ok started)
    (hbefore : Relation.ReflTransGen (NodeStep env E
      (Carries (NonceInRange env (env.normalizeAddr tx.transaction.header.sender)))) started node)
    (hcommit : finalizeCheckpoint cfg env E none c state validateSupply node = (.ok (), node'))
    (hrange : Carries (NonceInRange env (env.normalizeAddr tx.transaction.header.sender)) c)
    (hsequence : c.sequence ≠ 0)
    (hprogress : cfg.inlineCheckpointMetadata = true ∨ ∀ s through, node.store = some s →
      s.historyPersistedThrough = some through → through < c.sequence.toNat)
    (htx : tx ∈ c.transactions) (hsigned : env.verifiedTransactionHash tx = .ok digest)
    (hnonce : 0 < tx.transaction.header.nonce)
    (hafter : Relation.ReflTransGen (NodeStep env E
      (Carries (NonceInRange env (env.normalizeAddr tx.transaction.header.sender)))) node' later)
    (hreplay : replay ∈ batch)
    (hsame : parseToAccountAddress env.hashPublicKey replay.transaction.header.sender =
      parseToAccountAddress env.hashPublicKey tx.transaction.header.sender)
    (hstale : replay.transaction.header.nonce ≤ tx.transaction.header.nonce)
    (metadata : PendingTransactionMetadata) :
    ∃ e, later.mempool.submitTransactionsBatch env later.admissionView batch metadata =
      (.error e, later.mempool) := by
  have hstarted : NodeGuarded env (env.normalizeAddr tx.transaction.header.sender) 0 started :=
    (guarded_empty env _).init hstart
  have hcommitted := (hstarted.run hbefore).commit hrange hsequence hcommit hprogress htx rfl
  refine (hcommitted.run hafter).refuses hnonce hreplay (fun replayDigest hverified hparses => ?_) hstale metadata
  obtain ⟨a, ha⟩ := Option.isSome_iff_exists.mp hparses
  rw [normalizeAddr_of_parse hverified ha, normalizeAddr_of_parse hsigned (hsame ▸ ha)]

def publicationCheckpoint (nonce : Nat) : Checkpoint where
  sequence := 1
  vertices := []
  transactions := [sampleTx nonce]
  stateRoot := List.replicate 32 0
  timestamp := 1
  prevCheckpointHash := Text.leBytes 8 0

def respelled (nonce : Nat) : SignedTransaction where
  transaction := ⟨⟨"K256:0x0A", none, 100, 1, nonce⟩, .publishPackage []⟩
  signature := [1]

theorem nonce_replay_refused_respelled :
    ∃ node', finalizeCheckpoint {} plainEnv stillState none (publicationCheckpoint 7) () true startedNode =
        (.ok (), node') ∧
      ∃ e, node'.mempool.submitTransactionsBatch plainEnv node'.admissionView [respelled 7] {} =
        (.error e, node'.mempool) := by
  have hcommit : finalizeCheckpoint {} plainEnv stillState none (publicationCheckpoint 7) () true startedNode =
      (.ok (), finalized {} plainEnv (publicationCheckpoint 7) () startedNode) :=
    finalizeCheckpoint_accepts rfl (validateNext_eq_ok.mp (by decide +kernel))
  have hstart : Node.init {} plainEnv stillState true (some {}) = .ok startedNode := rfl
  have hrange : Carries (NonceInRange plainEnv (plainEnv.normalizeAddr "Ed25519:0xa")) (publicationCheckpoint 7) := by
    intro tx htx _
    obtain rfl := List.mem_singleton.mp htx
    decide
  have hsigned : plainEnv.verifiedTransactionHash (sampleTx 7) = .ok (Text.leBytes 8 7) := by decide +kernel
  have hsame : parseToAccountAddress plainEnv.hashPublicKey (respelled 7).transaction.header.sender =
      parseToAccountAddress plainEnv.hashPublicKey (sampleTx 7).transaction.header.sender := by decide +kernel
  exact ⟨_, hcommit, nonce_replay_refused hstart .refl hcommit hrange (by decide) (.inl rfl) List.mem_cons_self hsigned
    (by decide) .refl List.mem_cons_self hsame (by decide) {}⟩

/-- A committed nonce of 2^53 leaves a mark that counts as zero. -/
theorem huge_nonce_admits_replay :
    ∃ node' hashes pool,
      finalizeCheckpoint {} plainEnv stillState none (publicationCheckpoint (2 ^ 53)) () true startedNode =
        (.ok (), node') ∧
      node'.mempool.submitTransactionsBatch plainEnv node'.admissionView [sampleTx 5] {} = (.ok hashes, pool) := by
  have hcommit : finalizeCheckpoint {} plainEnv stillState none (publicationCheckpoint (2 ^ 53)) () true startedNode =
      (.ok (), finalized {} plainEnv (publicationCheckpoint (2 ^ 53)) () startedNode) :=
    finalizeCheckpoint_accepts rfl (validateNext_eq_ok.mp (by decide +kernel))
  obtain ⟨hashes, hsubmit, -⟩ := exists_of_okAnd
    (x := ((finalized {} plainEnv (publicationCheckpoint (2 ^ 53)) () startedNode).mempool.submitTransactionsBatch plainEnv
      (finalized {} plainEnv (publicationCheckpoint (2 ^ 53)) () startedNode).admissionView [sampleTx 5] {}).1)
    (p := fun _ => true) (by decide +kernel)
  exact ⟨_, hashes, _, hcommit, Prod.ext hsubmit rfl⟩

end Kanari.Proofs

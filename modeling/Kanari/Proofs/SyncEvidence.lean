import Kanari.DagSync

/-!
# The vertices sent with a checkpoint

The collected vertices are reachable from the listed ones, which come first, and what a collected
vertex links to is collected or waiting.
-/

namespace Kanari.Proofs

open Lib BlockReader

variable {R : BlockReader} {env : SyncEnv}

/-! ## Reachable vertices -/

def Link (R : BlockReader) (v w : DagVertex) : Prop :=
  ∃ p ∈ v.parents, p.2.1 ≠ 0 ∧ w ∈ R.getBlocksByRound p.2.1 ∧ w.id = p.2.2

/-- The vertices after genesis that are listed or reached through links. -/
inductive Reach (R : BlockReader) (ids : List Bytes) : DagVertex → Prop where
  | root {v : DagVertex} : v ∈ R.getBlocksByRound v.round → v.round ≠ 0 → v.id ∈ ids → Reach R ids v
  | link {v w : DagVertex} : Reach R ids v → Link R v w → Reach R ids w

variable {w : DagVertex} {next : List DagVertex}

lemma Link.stored {v : DagVertex} (h : Link R v w) : w ∈ R.getBlocksByRound w.round := by
  obtain ⟨p, -, -, hw, -⟩ := h
  rw [R.round_eq _ w hw]
  exact hw

lemma Reach.stored {ids : List Bytes} {v : DagVertex} (h : Reach R ids v) : v ∈ R.getBlocksByRound v.round := by
  cases h with
  | root hv => exact hv
  | link _ hlink => exact hlink.stored

lemma Reach.eq_of_id {ids : List Bytes} {v : DagVertex} (hv : Reach R ids v) (hw : Reach R ids w)
    (h : v.id = w.id) : v = w := R.id_inj v hv.stored w hw.stored h

lemma mem_allBlocks {v : DagVertex} (h : v ∈ R.getBlocksByRound v.round) : v ∈ R.allBlocks :=
  List.mem_flatMap.mpr ⟨v.round, List.mem_range.mpr (Nat.lt_succ_of_le (R.round_le _ v h)), h⟩

/-! ## Resolving vertices -/

lemma blockToVertex_ok {block v : DagVertex} (h : blockToVertex env block = .ok v) : v = block := by
  unfold blockToVertex at h
  cases hread : env.readBlock block with
  | error e =>
    rw [hread] at h
    cases h
  | ok u =>
    rw [hread] at h
    exact (Except.ok.inj h).symm

lemma recentVertices_ok {recent : List DagVertex} (h : R.recentVertices env = .ok recent) {v : DagVertex}
    (hv : v ∈ recent) : v ∈ R.getBlocksByRound v.round ∧ v.round ≠ 0 := by
  obtain ⟨block, hblock, hread⟩ := mem_of_mapM_ok h v hv
  obtain rfl := blockToVertex_ok hread
  obtain ⟨r, hr, hmem⟩ := List.mem_flatMap.mp hblock
  have hround := R.round_eq r v hmem
  rw [List.mem_range'_1] at hr
  rw [hround]
  exact ⟨hmem, by omega⟩

lemma resolveRoot_ok {recent : List DagVertex} {id : Bytes} {v : DagVertex}
    (h : R.resolveRoot recent id = .ok v) : v ∈ recent ∧ v.id = id := by
  unfold resolveRoot at h
  cases hfind : recent.find? fun v => v.id == id with
  | none =>
    rw [hfind] at h
    cases h
  | some w =>
    rw [hfind] at h
    cases h
    exact ⟨List.mem_of_find?_eq_some hfind, by simpa using List.find?_some hfind⟩

lemma resolveParent_ok {v : DagVertex} {p : String × Nat × Bytes}
    (h : R.resolveParent env v p = .ok w) : w ∈ R.getBlocksByRound p.2.1 ∧ w.id = p.2.2 := by
  unfold resolveParent at h
  cases hfind : (R.getBlocksByRound p.2.1).find? fun block => block.id == p.2.2 with
  | none =>
    rw [hfind] at h
    cases h
  | some block =>
    rw [hfind] at h
    obtain ⟨parent, hparent, h⟩ := bind_eq_ok.mp h
    obtain ⟨⟨⟩, -, h⟩ := bind_eq_ok.mp h
    cases h
    obtain rfl := blockToVertex_ok hparent
    exact ⟨List.mem_of_find?_eq_some hfind, by simpa using List.find?_some hfind⟩

lemma nextParents_ok {closure : List DagVertex} {v : DagVertex}
    (h : R.nextParents env closure v = .ok next) :
    next.length ≤ v.parents.length ∧ (∀ w ∈ next, Link R v w) ∧
      ∀ w, Link R v w → w.id ∉ closure.map (·.id) → w ∈ next := by
  refine ⟨(length_of_mapM_ok h).trans_le (List.length_filter_le _ _), fun w hw => ?_, fun w hlink hnew => ?_⟩
  · obtain ⟨p, hp, hresolve⟩ := mem_of_mapM_ok h w hw
    obtain ⟨hmem, hid⟩ := resolveParent_ok hresolve
    obtain ⟨hparent, hround⟩ := List.mem_filter.mp hp
    rw [Bool.and_eq_true, bne_iff_ne] at hround
    exact ⟨p, hparent, hround.1, hmem, hid⟩
  · obtain ⟨p, hp, hround, hmem, hid⟩ := hlink
    rw [hid] at hnew
    have hkept : p ∈ v.parents.filter fun p => p.2.1 != 0 && !(closure.map (·.id)).contains p.2.2 := by
      refine List.mem_filter.mpr ⟨hp, ?_⟩
      rw [Bool.and_eq_true, bne_iff_ne, Bool.not_eq_true', List.contains_eq_mem, decide_eq_false_iff_not]
      exact ⟨hround, hnew⟩
    obtain ⟨w', hw', hresolve⟩ := exists_of_mapM_ok h p hkept
    obtain ⟨hmem', hid'⟩ := resolveParent_ok hresolve
    rw [R.id_inj w (R.round_eq _ w hmem ▸ hmem) w' (R.round_eq _ w' hmem' ▸ hmem') (hid.trans hid'.symm)]
    exact hw'

def jsonSize (env : SyncEnv) (v : DagVertex) : Nat :=
  match env.jsonBytes v with
  | .ok n => n
  | .error _ => 0

section Visit

variable {ids : List Bytes} {limit encoded : Nat} {closure : List DagVertex} {v : DagVertex}

lemma visit_some {encoded' : Nat}
    (h : R.visit env ids limit encoded closure v = .ok (some (encoded', next))) :
    closure.length < limit ∧ encoded' ≤ encoded + jsonSize env v ∧ R.nextParents env closure v = .ok next := by
  unfold visit at h
  split_ifs at h with hfull
  · cases h
  obtain ⟨size, hsize, h⟩ := bind_eq_ok.mp h
  split_ifs at h
  · cases h
  cases hnext : R.nextParents env closure v with
  | error e =>
    rw [hnext] at h
    cases h
  | ok parents =>
    rw [hnext] at h
    cases h
    refine ⟨not_le.mp hfull, ?_, rfl⟩
    rw [jsonSize, hsize]
    exact Nat.min_le_left _ _

lemma visit_none (h : R.visit env ids limit encoded closure v = .ok none) :
    limit ≤ closure.length ∨ v.id ∉ ids ∧ MAX_SYNC_VERTEX_JSON_BYTES < encoded + jsonSize env v := by
  unfold visit at h
  split_ifs at h with hfull
  · exact .inl hfull
  obtain ⟨size, hsize, h⟩ := bind_eq_ok.mp h
  split_ifs at h with hbytes
  · rw [Bool.and_eq_true, Bool.not_eq_true', List.contains_eq_mem, decide_eq_false_iff_not,
      decide_eq_true_eq] at hbytes
    refine .inr ⟨hbytes.1, hbytes.2.trans_le ?_⟩
    rw [jsonSize, hsize]
    exact Nat.min_le_left _ _
  · cases hnext : R.nextParents env closure v with
    | error e =>
      rw [hnext] at h
      cases h
    | ok parents =>
      rw [hnext] at h
      cases h

end Visit

/-! ## The invariant -/

/-- What holds whenever a vertex is taken from the waiting ones. -/
structure SyncInv (R : BlockReader) (env : SyncEnv) (ids : List Bytes) (roots : List DagVertex) (limit : Nat)
    (encoded : Nat) (done pending : List DagVertex) : Prop where
  nodup : (done.map (·.id)).Nodup
  bounded : done.length ≤ limit
  reached : ∀ v ∈ done ++ pending, Reach R ids v
  encoded_le : encoded ≤ (done.map (jsonSize env)).sum
  closed : ∀ v ∈ done, ∀ w, Link R v w → w ∈ done ++ pending
  /-- The listed vertices are collected or in front; before all are taken nothing else is collected. -/
  rootsFirst : ∃ front back, pending = front ++ back ∧ (∀ r ∈ roots, r ∈ done ++ front) ∧
    (∀ v ∈ front, v.id ∈ ids) ∧ (front = [] ∨ ∀ v ∈ done, v.id ∈ ids)

variable {ids : List Bytes} {roots : List DagVertex} {limit encoded : Nat} {done pending : List DagVertex}
  {v : DagVertex}

lemma SyncInv.mem_of_id (h : SyncInv R env ids roots limit encoded done (v :: pending))
    (hw : Reach R ids w) (hid : w.id ∈ done.map (·.id)) : w ∈ done := by
  obtain ⟨u, hu, heq⟩ := List.mem_map.mp hid
  rw [hw.eq_of_id (h.reached u (List.mem_append_left _ hu)) heq.symm]
  exact hu

lemma SyncInv.skip (h : SyncInv R env ids roots limit encoded done (v :: pending))
    (hseen : v.id ∈ done.map (·.id)) : SyncInv R env ids roots limit encoded done pending := by
  have hv : v ∈ done := h.mem_of_id (h.reached v (by simp)) hseen
  have hdrop : ∀ w, w ∈ done ++ v :: pending → w ∈ done ++ pending := by
    intro w hw
    simp only [List.mem_append, List.mem_cons] at hw ⊢
    rcases hw with hw | rfl | hw
    · exact .inl hw
    · exact .inl hv
    · exact .inr hw
  refine ⟨h.nodup, h.bounded, fun w hw => h.reached w ?_, h.encoded_le, fun d hd w hlink =>
    hdrop w (h.closed d hd w hlink), ?_⟩
  · simp only [List.mem_append, List.mem_cons] at hw ⊢
    tauto
  · obtain ⟨front, back, hsplit, hroots, hfront, honly⟩ := h.rootsFirst
    cases front with
    | nil =>
      refine ⟨[], pending, rfl, fun r hr => ?_, by simp, .inl rfl⟩
      exact hroots r hr
    | cons u front =>
      obtain ⟨rfl, rfl⟩ := List.cons.inj hsplit
      refine ⟨front, back, rfl, fun r hr => ?_, fun w hw => hfront w (List.mem_cons_of_mem _ hw), ?_⟩
      · have hmem := hroots r hr
        simp only [List.mem_append, List.mem_cons] at hmem ⊢
        rcases hmem with hmem | rfl | hmem
        · exact .inl hmem
        · exact .inl hv
        · exact .inr hmem
      · exact .inr (honly.resolve_left (List.cons_ne_nil _ _))

lemma SyncInv.take (h : SyncInv R env ids roots limit encoded done (v :: pending))
    (hnew : v.id ∉ done.map (·.id)) {encoded' : Nat}
    (hvisit : R.visit env ids limit encoded done v = .ok (some (encoded', next))) :
    SyncInv R env ids roots limit encoded' (done ++ [v]) (pending ++ next) := by
  obtain ⟨hroom, hencoded, hnext⟩ := visit_some hvisit
  obtain ⟨-, hlinks, hall⟩ := nextParents_ok hnext
  have hv := h.reached v (by simp)
  refine ⟨?_, ?_, ?_, ?_, ?_, ?_⟩
  · rw [List.map_append]
    exact h.nodup.append (List.nodup_singleton _) (by simpa using hnew)
  · rw [List.length_append]
    exact hroom
  · intro w hw
    simp only [List.mem_append, List.mem_singleton] at hw
    rcases hw with (hw | rfl) | hw | hw
    · exact h.reached w (by simp [hw])
    · exact hv
    · exact h.reached w (by simp [hw])
    · exact hv.link (hlinks w hw)
  · have hsum := h.encoded_le
    rw [List.map_append, List.sum_append, List.map_singleton, List.sum_singleton]
    omega
  · intro d hd w hlink
    simp only [List.mem_append, List.mem_singleton] at hd ⊢
    rcases hd with hd | rfl
    · have hw := h.closed d hd w hlink
      simp only [List.mem_append, List.mem_cons] at hw
      tauto
    · by_cases hid : w.id ∈ done.map (·.id)
      · exact .inl (.inl (h.mem_of_id (hv.link hlink) hid))
      · exact .inr (.inr (hall w hlink hid))
  · obtain ⟨front, back, hsplit, hroots, hfront, honly⟩ := h.rootsFirst
    cases front with
    | nil =>
      refine ⟨[], pending ++ next, rfl, fun r hr => ?_, by simp, .inl rfl⟩
      have hmem := hroots r hr
      simp only [List.mem_append, List.not_mem_nil, or_false] at hmem ⊢
      exact .inl hmem
    | cons u front =>
      obtain ⟨rfl, rfl⟩ := List.cons.inj hsplit
      refine ⟨front, back ++ next, List.append_assoc _ _ _, fun r hr => ?_,
        fun w hw => hfront w (List.mem_cons_of_mem _ hw), .inr fun w hw => ?_⟩
      · have hmem := hroots r hr
        simp only [List.mem_append, List.mem_cons] at hmem ⊢
        tauto
      · rcases List.mem_append.mp hw with hw | hw
        · exact honly.resolve_left (List.cons_ne_nil _ _) w hw
        · rw [List.mem_singleton.mp hw]
          exact hfront v List.mem_cons_self

lemma syncInv_start (hids : ∀ r ∈ roots, r.id ∈ ids)
    (hroots : ∀ r ∈ roots, r ∈ R.getBlocksByRound r.round ∧ r.round ≠ 0) :
    SyncInv R env ids roots limit 0 [] roots where
  nodup := List.nodup_nil
  bounded := Nat.zero_le _
  reached := fun r hr => .root (hroots r hr).1 (hroots r hr).2 (hids r hr)
  encoded_le := Nat.zero_le _
  closed := fun _ hv => absurd hv List.not_mem_nil
  rootsFirst := ⟨roots, [], (List.append_nil _).symm, fun _ hr => hr, hids,
    .inr fun _ hv => absurd hv List.not_mem_nil⟩

/-! ## Where the traversal ends -/

/-- The state at the end: nothing is waiting, or the next vertex exceeds a limit. -/
structure SyncEnd (R : BlockReader) (env : SyncEnv) (ids : List Bytes) (roots : List DagVertex) (limit : Nat)
    (done : List DagVertex) : Prop where
  state : ∃ encoded pending, SyncInv R env ids roots limit encoded done pending ∧ (pending = [] ∨
    ∃ v rest, pending = v :: rest ∧ v.id ∉ done.map (·.id) ∧ R.visit env ids limit encoded done v = .ok none)

lemma SyncEnd.rootsCollected (h : SyncEnd R env ids roots limit done) (hlimit : ids.toFinset.card ≤ limit) :
    ∀ r ∈ roots, r ∈ done := by
  obtain ⟨encoded, pending, hinv, hend⟩ := h.state
  obtain ⟨front, back, hsplit, hroots, hfront, honly⟩ := hinv.rootsFirst
  have hnil : front = [] := by
    rcases hend with rfl | ⟨v, rest, rfl, hnew, hvisit⟩
    · exact (List.append_eq_nil_iff.mp hsplit.symm).1
    · by_contra hne
      obtain ⟨u, front', rfl⟩ := List.exists_cons_of_ne_nil hne
      obtain ⟨rfl, -⟩ := List.cons.inj hsplit
      have hv := hfront v List.mem_cons_self
      rcases visit_none hvisit with hfull | ⟨hother, -⟩
      · -- the collected ids and `v` are distinct listed ids
        have hsub : insert v.id (done.map (·.id)).toFinset ⊆ ids.toFinset := by
          intro id hid
          rw [Finset.mem_insert, List.mem_toFinset, List.mem_map] at hid
          rw [List.mem_toFinset]
          rcases hid with rfl | ⟨w, hw, rfl⟩
          · exact hv
          · exact honly.resolve_left hne w hw
        have hcard := Finset.card_le_card hsub
        rw [Finset.card_insert_of_notMem (by rw [List.mem_toFinset]; exact hnew),
          List.toFinset_card_of_nodup hinv.nodup, List.length_map] at hcard
        omega
      · exact hother hv
  intro r hr
  have hmem := hroots r hr
  rwa [hnil, List.append_nil] at hmem

/-- Within the limits nothing that is reachable is left out. -/
lemma SyncEnd.complete (h : SyncEnd R env ids roots limit done)
    (hroots : ∀ v, v ∈ R.getBlocksByRound v.round → v.id ∈ ids → v ∈ roots) {S : Finset DagVertex}
    (hS : ∀ v, v ∈ S ↔ Reach R ids v) (hcard : S.card ≤ limit)
    (hbytes : ∑ v ∈ S, jsonSize env v ≤ MAX_SYNC_VERTEX_JSON_BYTES) :
    ∀ v, Reach R ids v → v ∈ done := by
  obtain ⟨encoded, pending, hinv, hend⟩ := h.state
  have hdone : done.Nodup := hinv.nodup.of_map _
  have hnil : pending = [] := by
    rcases hend with rfl | ⟨v, rest, rfl, hnew, hvisit⟩
    · rfl
    · exfalso
      have hfresh : v ∉ done.toFinset := fun hmem => hnew (List.mem_map_of_mem (List.mem_toFinset.mp hmem))
      have hsub : insert v done.toFinset ⊆ S := by
        intro w hw
        rw [Finset.mem_insert, List.mem_toFinset] at hw
        rw [hS]
        rcases hw with rfl | hw
        · exact hinv.reached w (by simp)
        · exact hinv.reached w (by simp [hw])
      rcases visit_none hvisit with hfull | ⟨-, hlarge⟩
      · have hle := Finset.card_le_card hsub
        rw [Finset.card_insert_of_notMem hfresh, List.toFinset_card_of_nodup hdone] at hle
        omega
      · have hle := Finset.sum_le_sum_of_subset (f := jsonSize env) hsub
        rw [Finset.sum_insert hfresh, List.sum_toFinset _ hdone] at hle
        have hencoded : encoded ≤ (done.map fun v => jsonSize env v).sum := hinv.encoded_le
        omega
  subst hnil
  obtain ⟨front, back, hsplit, hfirst, -, -⟩ := hinv.rootsFirst
  obtain ⟨rfl, -⟩ := List.append_eq_nil_iff.mp hsplit.symm
  intro v hv
  induction hv with
  | root hstored _ hid =>
    have hmem := hfirst _ (hroots _ hstored hid)
    rwa [List.append_nil] at hmem
  | link _ hlink ih =>
    have hmem := hinv.closed _ ih _ hlink
    rwa [List.append_nil] at hmem

/-! ## The result -/

lemma sortVertices_parents_first {vertices : List DagVertex}
    (hstored : ∀ v ∈ vertices, v ∈ R.getBlocksByRound v.round) :
    (sortVertices vertices).Pairwise fun a b => ¬Link R a b := by
  have hsorted : (sortVertices vertices).Pairwise fun a b => decide (vertexKey a ≤ vertexKey b) = true := by
    apply List.pairwise_mergeSort
    · intro a b c hab hbc
      rw [decide_eq_true_eq] at *
      exact hab.trans hbc
    · intro a b
      rw [Bool.or_eq_true, decide_eq_true_eq, decide_eq_true_eq]
      exact le_total _ _
  refine hsorted.imp_of_mem fun {a b} ha _ hle hlink => ?_
  obtain ⟨p, hp, -, hb, -⟩ := hlink
  have hbelow := R.parents_below a (hstored a (List.mem_mergeSort.mp ha)) p hp
  rw [decide_eq_true_eq, vertexKey, vertexKey, Prod.Lex.toLex_le_toLex] at hle
  rw [R.round_eq _ b hb] at hle
  rcases hle with hlt | ⟨heq, -⟩
  · exact absurd hlt (by simpa using hbelow.le)
  · exact absurd heq (by simpa using hbelow.ne')

/-- What the call promises of the vertices it returns. -/
structure SyncResult (R : BlockReader) (env : SyncEnv) (ids : List Bytes) (limit : Nat)
    (vertices : List DagVertex) : Prop where
  bounded : vertices.length ≤ limit
  distinct : (vertices.map (·.id)).Nodup
  reached : ∀ v ∈ vertices, Reach R ids v
  parentsFirst : vertices.Pairwise fun a b => ¬Link R a b
  roots : ids.toFinset.card ≤ limit → ∀ id ∈ ids, ∃ v ∈ vertices, v.id = id
  complete : ∀ S : Finset DagVertex, (∀ v, v ∈ S ↔ Reach R ids v) → S.card ≤ limit →
    ∑ v ∈ S, jsonSize env v ≤ MAX_SYNC_VERTEX_JSON_BYTES → ∀ v, Reach R ids v → v ∈ vertices

lemma SyncEnd.result (h : SyncEnd R env ids roots limit done) (hids : ∀ id ∈ ids, ∃ r ∈ roots, r.id = id)
    (hroots : ∀ r ∈ roots, r ∈ R.getBlocksByRound r.round) :
    SyncResult R env ids limit (sortVertices done) := by
  obtain ⟨encoded, pending, hinv, -⟩ := h.state
  have hperm : (sortVertices done).Perm done := List.mergeSort_perm _ _
  have hreached : ∀ v ∈ done, Reach R ids v := fun v hv => hinv.reached v (List.mem_append_left _ hv)
  refine ⟨hperm.length_eq.trans_le hinv.bounded, (hperm.map _).nodup_iff.mpr hinv.nodup,
    fun v hv => hreached v (hperm.mem_iff.mp hv), sortVertices_parents_first fun v hv => (hreached v hv).stored,
    fun hlimit id hid => ?_, fun S hS hcard hbytes v hv => ?_⟩
  · obtain ⟨r, hr, rfl⟩ := hids id hid
    exact ⟨r, hperm.mem_iff.mpr (h.rootsCollected hlimit r hr), rfl⟩
  · refine hperm.mem_iff.mpr (h.complete (fun w hw hid => ?_) hS hcard hbytes v hv)
    obtain ⟨r, hr, heq⟩ := hids w.id hid
    rw [R.id_inj w hw r (hroots r hr) heq.symm]
    exact hr

lemma syncFuel_enough (env : SyncEnv) (ids : List Bytes) (limit : Nat)
    (hstored : ∀ r ∈ roots, r ∈ R.getBlocksByRound r.round) :
    ∃ r, worklist (·.id) (R.visit env ids limit) (R.syncFuel roots) 0 [] roots = some r := by
  apply worklist_terminates (K := (R.allBlocks.map (·.id)).toFinset) (U := fun v => v ∈ R.getBlocksByRound v.round)
    (m := (R.allBlocks.map (·.parents.length)).sum)
  · intro v hv
    exact List.mem_toFinset.mpr (List.mem_map_of_mem (mem_allBlocks hv))
  · intro s closure v s' next hv hvisit
    obtain ⟨-, -, hnext⟩ := visit_some hvisit
    obtain ⟨hlength, hlinks, -⟩ := nextParents_ok hnext
    refine ⟨hlength.trans ?_, fun w hw => (hlinks w hw).stored⟩
    exact List.single_le_sum (fun _ _ => Nat.zero_le _) _ (List.mem_map_of_mem (mem_allBlocks hv))
  · exact hstored
  · have hcard : (((R.allBlocks.map (·.id)).toFinset) \ (([] : List DagVertex).map (·.id)).toFinset).card ≤
        R.allBlocks.length := by
      refine (Finset.card_le_card Finset.sdiff_subset).trans ((List.toFinset_card_le _).trans ?_)
      rw [List.length_map]
    have hmul := Nat.mul_le_mul_left (R.allBlocks.map (·.parents.length)).sum hcard
    unfold syncFuel
    omega

/-- The call ends for every store, list of ids and limit. What it returns is within the limit,
distinct, reachable, sorted parents first, and complete as far as the limits admit it. -/
theorem sync_evidence (R : BlockReader) (env : SyncEnv) (ids : List Bytes) (limit : Nat) :
    ∃ r, R.checkpointVerticesForSync env ids limit = some r ∧
      ∀ vertices, r = .ok vertices → SyncResult R env ids limit vertices := by
  unfold checkpointVerticesForSync
  split_ifs with hempty hzero
  · refine ⟨_, rfl, fun vertices h => ?_⟩
    cases h
    have hnone : ∀ v, ¬Reach R ids v := by
      intro v hv
      induction hv with
      | root _ _ hid =>
        rw [List.isEmpty_iff.mp hempty] at hid
        cases hid
      | link _ _ ih => exact ih
    refine ⟨Nat.zero_le _, List.nodup_nil, by simp, List.Pairwise.nil, fun _ id hid => ?_,
      fun _ _ _ _ v hv => absurd hv (hnone v)⟩
    rw [List.isEmpty_iff.mp hempty] at hid
    cases hid
  · exact ⟨_, rfl, fun vertices h => by cases h⟩
  · cases hresolved : (do
        let recent ← R.recentVertices env
        ids.mapM (R.resolveRoot recent)) with
    | error e => exact ⟨_, rfl, fun vertices h => by cases h⟩
    | ok roots =>
      obtain ⟨recent, hrecent, hmap⟩ := bind_eq_ok.mp hresolved
      have hroots : ∀ r ∈ roots, r ∈ R.getBlocksByRound r.round ∧ r.round ≠ 0 := by
        intro r hr
        obtain ⟨id, -, hid⟩ := mem_of_mapM_ok hmap r hr
        exact recentVertices_ok hrecent (resolveRoot_ok hid).1
      have hlisted : ∀ r ∈ roots, r.id ∈ ids := by
        intro r hr
        obtain ⟨id, hmem, hid⟩ := mem_of_mapM_ok hmap r hr
        rw [(resolveRoot_ok hid).2]
        exact hmem
      have hfound : ∀ id ∈ ids, ∃ r ∈ roots, r.id = id := by
        intro id hid
        obtain ⟨r, hr, hresolve⟩ := exists_of_mapM_ok hmap id hid
        exact ⟨r, hr, (resolveRoot_ok hresolve).2⟩
      obtain ⟨r, hr⟩ := syncFuel_enough env ids limit fun r hr => (hroots r hr).1
      dsimp only
      rw [hr]
      refine ⟨_, rfl, fun vertices h => ?_⟩
      cases r with
      | error e => cases h
      | ok done =>
        cases h
        have hend : SyncEnd R env ids roots limit done :=
          ⟨worklist_rule (I := SyncInv R env ids roots limit)
            (fun s done v pending hinv hseen => hinv.skip hseen)
            (fun s done v pending s' next hinv hnew hvisit => hinv.take hnew hvisit)
            (syncInv_start hlisted hroots) hr⟩
        exact hend.result hfound fun r hr => (hroots r hr).1

def diamond : BlockReader :=
  .ofBlocks [⟨[1], 1, "a", [], []⟩, ⟨[2], 2, "a", [("a", 1, [1])], []⟩, ⟨[3], 2, "b", [("a", 1, [1])], []⟩,
    ⟨[4], 3, "a", [("a", 2, [2]), ("b", 2, [3])], []⟩] (by decide) (by decide)

def sampleSyncEnv : SyncEnv := ⟨fun _ => .ok (), fun _ => .ok 100⟩

theorem sync_evidence_diamond :
    ∃ vertices, diamond.checkpointVerticesForSync sampleSyncEnv [[4]] 4 = some (.ok vertices) ∧
      SyncResult diamond sampleSyncEnv [[4]] 4 vertices ∧ vertices.length = 4 := by
  obtain ⟨r, hr, hresult⟩ := sync_evidence diamond sampleSyncEnv [[4]] 4
  obtain ⟨closure, hclosure, hlength⟩ : ∃ closure : List DagVertex,
      diamond.checkpointVerticesForSync sampleSyncEnv [[4]] 4 = some (.ok (sortVertices closure)) ∧
        closure.length = 4 := ⟨_, rfl, rfl⟩
  obtain rfl := Option.some.inj (hr.symm.trans hclosure)
  exact ⟨_, hclosure, hresult _ rfl, (List.length_mergeSort _).trans hlength⟩

end Kanari.Proofs

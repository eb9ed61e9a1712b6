import Kanari.Proofs.SparseReference

/-!
# Staging in buckets

Exactly the nodes above a changed leaf are staged, on any cache. Only the nodes next to the leaves
depend on the order of the changes, and the buckets keep that order.
-/

namespace Kanari.Proofs

open Lib BitTree HashFunctions

variable {H : Type} (hf : HashFunctions H)

/-! ## The overlay that changes determine -/

def changesBelow (l : List (KeyHash × Option Bytes)) (p : List Bool) :
    List (KeyHash × Option Bytes) := l.filter fun c => p.isPrefixOf c.1.bits

def cachedNode (cache : NodeCache H) (p : List Bool) : H := (cache p).getD (hf.defaultHash p.length)

/-- A node that is `n` levels above the last branch nodes. A last branch node is that of the last
change below it, next to the other leaf as the cache shows it. -/
def settle (cache : NodeCache H) (l : List (KeyHash × Option Bytes)) : Nat → List Bool → H
  | 0, p =>
    match (changesBelow l p).getLast? with
    | none => cachedNode hf cache p
    | some c => join hf.hashNode (c.1.bit 256) (hf.leafHash c.1 c.2)
        (cachedNode hf cache (siblingKey c.1 255))
  | n + 1, p =>
    if changesBelow l p = [] then cachedNode hf cache p
    else hf.hashNode (settle cache l n (p ++ [false])) (settle cache l n (p ++ [true]))

def settledNode (cache : NodeCache H) (l : List (KeyHash × Option Bytes)) (p : List Bool) : H :=
  settle hf cache l (255 - p.length) p

lemma changesBelow_append (l l' : List (KeyHash × Option Bytes)) (p : List Bool) :
    changesBelow (l ++ l') p = changesBelow l p ++ changesBelow l' p := List.filter_append _ _

variable {l l' : List (KeyHash × Option Bytes)} {p : List Bool} {c : KeyHash × Option Bytes}

lemma changesBelow_eq_nil (h : ∀ c ∈ l, ¬p <+: c.1.bits) : changesBelow l p = [] := by
  refine List.filter_eq_nil_iff.mpr fun c hc => ?_
  rw [List.isPrefixOf_iff_prefix]
  exact h c hc

lemma changesBelow_ne_nil (hc : c ∈ l) (h : p <+: c.1.bits) : changesBelow l p ≠ [] :=
  List.ne_nil_of_mem (List.mem_filter.mpr ⟨hc, List.isPrefixOf_iff_prefix.mpr h⟩)

lemma changesBelow_single_of_not (h : ¬p <+: c.1.bits) : changesBelow [c] p = [] :=
  changesBelow_eq_nil fun c' hc' => by rwa [List.mem_singleton.mp hc']

lemma settledNode_of_unchanged {cache : NodeCache H} (h : changesBelow l p = []) :
    settledNode hf cache l p = cachedNode hf cache p := by
  unfold settledNode
  cases 255 - p.length with
  | zero => simp [settle, h]
  | succ n => simp [settle, h]

lemma settle_congr {cache : NodeCache H} {n : Nat}
    (h : ∀ q, p <+: q → changesBelow l q = changesBelow l' q) :
    settle hf cache l n p = settle hf cache l' n p := by
  induction n generalizing p with
  | zero => simp only [settle, h p List.prefix_rfl]
  | succ n ih =>
    have hchild : ∀ b, settle hf cache l n (p ++ [b]) = settle hf cache l' n (p ++ [b]) := fun b =>
      ih fun q hq => h q ((List.prefix_append p [b]).trans hq)
    simp only [settle, h p List.prefix_rfl, hchild]

lemma changesBelow_mono {q : List Bool} (hq : p <+: q) (h : changesBelow l p = []) :
    changesBelow l q = [] := by
  refine changesBelow_eq_nil fun c hc hpre => ?_
  exact changesBelow_ne_nil hc (hq.trans hpre) h

lemma settledNode_append_left {cache : NodeCache H} (h : changesBelow l' p = []) :
    settledNode hf cache (l ++ l') p = settledNode hf cache l p :=
  settle_congr hf fun q hq => by
    rw [changesBelow_append, changesBelow_mono hq h, List.append_nil]

lemma settledNode_append_right {cache : NodeCache H} (h : changesBelow l p = []) :
    settledNode hf cache (l ++ l') p = settledNode hf cache l' p :=
  settle_congr hf fun q hq => by
    rw [changesBelow_append, changesBelow_mono hq h, List.nil_append]

lemma settledNode_join {cache : NodeCache H} {k : KeyHash} {d : Nat} (hd : d < 255)
    (h : changesBelow l (k.bits.take d) ≠ []) :
    settledNode hf cache l (k.bits.take d) = join hf.hashNode (k.bit (d + 1))
      (settledNode hf cache l (k.bits.take (d + 1))) (settledNode hf cache l (siblingKey k d)) := by
  have hheight : 255 - d = 255 - (d + 1) + 1 := by omega
  unfold settledNode
  rw [length_take_bits k (by omega), length_take_bits k (by omega), length_siblingKey k (by omega),
    hheight, settle, if_neg h, take_bits_succ k (by omega), siblingKey]
  cases k.bit (d + 1) <;> rfl

variable [DecidableEq H]

def settledOverlay (cache : NodeCache H) (l : List (KeyHash × Option Bytes)) : NodeOverlay H :=
  fun p => if changesBelow l p ≠ [] ∧ p.length < 256 then
    some (stagedHash hf p.length (settledNode hf cache l p)) else none

lemma settledOverlay_nil (cache : NodeCache H) : settledOverlay hf cache [] = fun _ => none := by
  funext p
  simp [settledOverlay, changesBelow]

lemma nodeValue_settledOverlay (cache : NodeCache H) (l : List (KeyHash × Option Bytes))
    (hp : p.length < 256) :
    nodeValue hf cache (settledOverlay hf cache l) p = settledNode hf cache l p := by
  by_cases h : changesBelow l p = []
  · have hnone : settledOverlay hf cache l p = none := if_neg fun hc => hc.1 h
    rw [settledNode_of_unchanged hf h, nodeValue, hnone]
    rfl
  · exact nodeValue_of_staged hf cache (if_pos ⟨h, hp⟩)

/-! ## One change after another -/

/-- The overlay after one more change, if it was settled below the node at which the path stops. -/
lemma stagePath_settled {cache : NodeCache H} {overlay : NodeOverlay H} {stop : Nat}
    (hstop : stop < 256)
    (h : ∀ p, c.1.bits.take stop <+: p → overlay p = settledOverlay hf cache l p) :
    hf.stagePath cache c.1 stop (256 - stop) overlay (hf.leafHash c.1 c.2) =
      (fun p => if p <+: c.1.bits ∧ stop ≤ p.length ∧ p.length < 256 then
        some (stagedHash hf p.length (settledNode hf cache (l ++ [c]) p)) else overlay p,
      settledNode hf cache (l ++ [c]) (c.1.bits.take stop)) := by
  set k := c.1 with hk
  have htotal : stop + (256 - stop) = 256 := by omega
  have hfull : k.bits.take 256 = k.bits := List.take_of_length_le (by rw [k.length_bits])
  have hbelow : ∀ d, changesBelow (l ++ [c]) (k.bits.take d) ≠ [] := fun d =>
    changesBelow_ne_nil (List.mem_append_right _ List.mem_cons_self) (List.take_prefix d k.bits)
  -- the leaves next to the path are the changed one and its neighbour from the cache
  have hnode : ∃ node : List Bool → H, node k.bits = hf.leafHash k c.2 ∧
      node (siblingKey k 255) = cachedNode hf cache (siblingKey k 255) ∧
      ∀ p, p.length < 256 → node p = settledNode hf cache (l ++ [c]) p := by
    refine ⟨fun p => if p.length < 256 then settledNode hf cache (l ++ [c]) p
      else if p = k.bits then hf.leafHash k c.2 else cachedNode hf cache p, ?_, ?_, ?_⟩
    · simp [k.length_bits]
    · have hne : siblingKey k 255 ≠ k.bits := by
        rw [← hfull]
        exact siblingKey_ne_take k (by omega) 256
      simp [length_siblingKey k (show 255 < 256 by omega), hne]
    · intro p hp
      exact if_pos hp
  obtain ⟨node, hleaf, hneighbour, hbranch⟩ := hnode
  have hjoin : ∀ d, stop ≤ d → d < stop + (256 - stop) → node (k.bits.take d) =
      join hf.hashNode (k.bit (d + 1)) (node (k.bits.take (d + 1))) (node (siblingKey k d)) := by
    intro d _ hd
    rw [hbranch _ (by rw [length_take_bits k (by omega)]; omega)]
    by_cases hlast : d = 255
    · subst hlast
      have hlastChange : (changesBelow (l ++ [c]) (k.bits.take 255)).getLast? = some c := by
        rw [changesBelow_append]
        simp [changesBelow, ← hk, List.take_prefix]
      rw [hfull, hleaf, hneighbour, settledNode, length_take_bits k (by omega), Nat.sub_self, settle,
        hlastChange]
    · rw [settledNode_join hf (by omega) (hbelow d),
        hbranch _ (by rw [length_take_bits k (by omega)]; omega),
        hbranch _ (by rw [length_siblingKey k (by omega)]; omega)]
  have hsibling : ∀ d, stop ≤ d → d < stop + (256 - stop) →
      nodeValue hf cache overlay (siblingKey k d) = node (siblingKey k d) := by
    intro d hd₁ hd₂
    have hunder : k.bits.take stop <+: siblingKey k d := by
      refine List.IsPrefix.trans ?_ (List.prefix_append _ _)
      rw [List.prefix_take_iff]
      exact ⟨List.take_prefix _ _, by rw [length_take_bits k hstop.le]; exact hd₁⟩
    rw [nodeValue_congr hf cache (h _ hunder)]
    by_cases hlast : d = 255
    · subst hlast
      have hnone : settledOverlay hf cache l (siblingKey k 255) = none := by
        refine if_neg fun hc => ?_
        have := hc.2
        rw [length_siblingKey k (by omega)] at this
        omega
      rw [hneighbour, nodeValue, hnone]
      rfl
    · have hlen : (siblingKey k d).length < 256 := by rw [length_siblingKey k (by omega)]; omega
      rw [nodeValue_settledOverlay hf cache l hlen, hbranch _ hlen, settledNode_append_left hf]
      exact changesBelow_single_of_not (siblingKey_not_ancestor k (by omega))
  rw [stagePath_eq hf (by omega) (by rw [htotal, hfull, hleaf]) hjoin hsibling, htotal]
  refine Prod.ext ?_ (hbranch _ (by rw [length_take_bits k hstop.le]; omega))
  funext p
  by_cases hp : p <+: k.bits ∧ stop ≤ p.length ∧ p.length < 256
  · simp only [if_pos hp, hbranch p hp.2.2]
  · simp only [if_neg hp]

lemma settledOverlay_append {cache : NodeCache H} :
    settledOverlay hf cache (l ++ [c]) p = if p <+: c.1.bits ∧ p.length < 256 then
      some (stagedHash hf p.length (settledNode hf cache (l ++ [c]) p))
      else settledOverlay hf cache l p := by
  by_cases hp : p <+: c.1.bits
  · have hne := changesBelow_ne_nil (l := l ++ [c]) (List.mem_append_right _ List.mem_cons_self) hp
    by_cases hlen : p.length < 256
    · rw [if_pos ⟨hp, hlen⟩]
      exact if_pos ⟨hne, hlen⟩
    · rw [if_neg (fun hc => hlen hc.2), settledOverlay, settledOverlay, if_neg (fun hc => hlen hc.2),
        if_neg (fun hc => hlen hc.2)]
  · have hsame : changesBelow (l ++ [c]) p = changesBelow l p := by
      rw [changesBelow_append, changesBelow_single_of_not hp, List.append_nil]
    rw [if_neg (fun hc => hp hc.1), settledOverlay, settledOverlay, hsame,
      settledNode_append_left hf (changesBelow_single_of_not hp)]

lemma stageLeafNodeUpdate_eq (cache : NodeCache H) (overlay : NodeOverlay H) (k : KeyHash)
    (hash : H) :
    hf.stageLeafNodeUpdate cache overlay k hash = (hf.stagePath cache k 0 256 overlay hash).1 := by
  unfold stageLeafNodeUpdate stageNodeUpdateFromDepth
  rw [if_neg (by norm_num)]

lemma stageChanges_settled (cache : NodeCache H) (l : List (KeyHash × Option Bytes)) :
    hf.stageChanges cache l = settledOverlay hf cache l := by
  induction l using List.reverseRecOn with
  | nil => exact (settledOverlay_nil hf cache).symm
  | append_singleton l c ih =>
    have hsettled : ∀ p, c.1.bits.take 0 <+: p →
        hf.stageChanges cache l p = settledOverlay hf cache l p := fun p _ => by rw [ih]
    rw [stageChanges, List.foldl_append, ← stageChanges, List.foldl_cons, List.foldl_nil,
      stageLeafNodeUpdate_eq, stagePath_settled hf (by norm_num) hsettled]
    funext p
    simp only [Nat.zero_le, true_and, ih, settledOverlay_append]

/-! ## Buckets -/

def settledWithin (cache : NodeCache H) (l : List (KeyHash × Option Bytes)) (top : List Bool) :
    NodeOverlay H := fun p => if top <+: p then settledOverlay hf cache l p else none

lemma stageLeafNodeUpdateToDepth_eq (cache : NodeCache H) (overlay : NodeOverlay H) (k : KeyHash)
    (hash : H) : hf.stageLeafNodeUpdateToDepth cache overlay k hash parallelBucketDepth =
      hf.stagePath cache k parallelBucketDepth (256 - parallelBucketDepth) overlay hash := by
  unfold stageLeafNodeUpdateToDepth
  rw [if_neg (by decide)]

lemma stageBucket_loop_settled (cache : NodeCache H) {top : List Bool} (hne : l ≠ [])
    (hl : ∀ c ∈ l, c.1.bits.take parallelBucketDepth = top) :
    l.foldl (fun acc e => hf.stageLeafNodeUpdateToDepth cache acc.1 e.1 (hf.leafHash e.1 e.2)
      parallelBucketDepth) (fun _ => none, hf.defaultHash parallelBucketDepth) =
      (settledWithin hf cache l top, settledNode hf cache l top) := by
  have hdepth : parallelBucketDepth < 256 := by decide
  induction l using List.reverseRecOn with
  | nil => exact absurd rfl hne
  | append_singleton l c ih =>
    have htop := hl c (List.mem_append_right _ List.mem_cons_self)
    have hlen : top.length = parallelBucketDepth := by rw [← htop, length_take_bits _ hdepth.le]
    -- the changes before this one, also if there are none
    have hbefore : (l.foldl (fun acc e => hf.stageLeafNodeUpdateToDepth cache acc.1 e.1
        (hf.leafHash e.1 e.2) parallelBucketDepth)
        (fun _ => none, hf.defaultHash parallelBucketDepth)).1 = settledWithin hf cache l top := by
      by_cases hnil : l = []
      · subst hnil
        funext p
        simp [settledWithin, settledOverlay_nil]
      · rw [ih hnil fun c' hc' => hl c' (List.mem_append_left _ hc')]
    have hsettled : ∀ p, c.1.bits.take parallelBucketDepth <+: p →
        settledWithin hf cache l top p = settledOverlay hf cache l p := by
      intro p hp
      rw [htop] at hp
      exact if_pos hp
    rw [List.foldl_append, List.foldl_cons, List.foldl_nil, hbefore, stageLeafNodeUpdateToDepth_eq,
      stagePath_settled hf hdepth hsettled, htop]
    congr 1
    funext p
    by_cases hunder : top <+: p
    · have hge : parallelBucketDepth ≤ p.length := hlen ▸ hunder.length_le
      simp only [settledWithin, if_pos hunder, settledOverlay_append, hge, true_and]
    · have hnot : ¬(p <+: c.1.bits ∧ parallelBucketDepth ≤ p.length ∧ p.length < 256) := by
        rintro ⟨hpre, hge, -⟩
        refine hunder (List.prefix_of_prefix_length_le ?_ hpre (by omega))
        rw [← htop]
        exact List.take_prefix _ _
      simp only [settledWithin, if_neg hunder, if_neg hnot]

lemma stageNode_of_staged {overlay : NodeOverlay H} {k : KeyHash} {d : Nat} {hash : H}
    (h : overlay (k.bits.take d) = some (stagedHash hf d hash)) :
    hf.stageNode overlay k d hash = overlay := by
  funext p
  by_cases hp : p = k.bits.take d
  · rw [hp, h]
    exact Function.update_self _ _ _
  · exact stageNode_of_ne hf overlay k hash hp

lemma stageBucket_settled (cache : NodeCache H) {b : Nat × List (KeyHash × Option Bytes)}
    (hne : b.2 ≠ []) (hl : ∀ c ∈ b.2, c.1.topBits parallelBucketDepth = b.1) :
    hf.stageBucket cache b = (KeyHash.prefixFromTopBits b.1 parallelBucketDepth,
      settledNode hf cache b.2 (bitsOfNat parallelBucketDepth b.1),
      settledWithin hf cache b.2 (bitsOfNat parallelBucketDepth b.1)) := by
  have hdepth : parallelBucketDepth ≤ 256 := by decide
  have htops : ∀ c ∈ b.2, c.1.bits.take parallelBucketDepth = bitsOfNat parallelBucketDepth b.1 :=
    fun c hc => take_bits_of_topBits (hl c hc)
  obtain ⟨c, hc⟩ := List.exists_mem_of_ne_nil _ hne
  have hbelow := changesBelow_ne_nil hc (htops c hc ▸ List.take_prefix _ _)
  have hstaged : settledWithin hf cache b.2 (bitsOfNat parallelBucketDepth b.1)
      ((KeyHash.prefixFromTopBits b.1 parallelBucketDepth).bits.take parallelBucketDepth) =
        some (stagedHash hf parallelBucketDepth
          (settledNode hf cache b.2 (bitsOfNat parallelBucketDepth b.1))) := by
    rw [take_prefixFromTopBits b.1 hdepth, settledWithin, if_pos List.prefix_rfl, settledOverlay,
      length_bitsOfNat, if_pos ⟨hbelow, by decide⟩]
  unfold stageBucket
  rw [stageBucket_loop_settled hf cache hne htops]
  dsimp only
  rw [stageNode_of_staged hf hstaged]

lemma mergeBucket_settled (cache : NodeCache H) {done : List (KeyHash × Option Bytes)}
    {b : Nat × List (KeyHash × Option Bytes)} (hne : b.2 ≠ [])
    (hl : ∀ c ∈ b.2, c.1.topBits parallelBucketDepth = b.1)
    (hdone : ∀ c ∈ done, ¬bitsOfNat parallelBucketDepth b.1 <+: c.1.bits) :
    hf.stageNodeUpdateFromDepth cache
      (extendOverlay (settledOverlay hf cache done) (hf.stageBucket cache b).2.2)
      (hf.stageBucket cache b).1 parallelBucketDepth (hf.stageBucket cache b).2.1 =
      settledOverlay hf cache (done ++ b.2) := by
  have hdepth : parallelBucketDepth < 256 := by decide
  rw [stageBucket_settled hf cache hne hl]
  set top := bitsOfNat parallelBucketDepth b.1 with htop
  set k := KeyHash.prefixFromTopBits b.1 parallelBucketDepth with hk
  have htake : k.bits.take parallelBucketDepth = top := take_prefixFromTopBits b.1 hdepth.le
  have hlen : top.length = parallelBucketDepth := length_bitsOfNat _ _
  have hunder : ∀ c ∈ b.2, top <+: c.1.bits := by
    intro c hc
    rw [htop, ← take_bits_of_topBits (hl c hc)]
    exact List.take_prefix _ _
  have hdoneBelow : ∀ p, top <+: p → changesBelow done p = [] := fun p hp =>
    changesBelow_mono hp (changesBelow_eq_nil hdone)
  have hbesideBelow : ∀ p, ¬top <+: p → ¬p <+: top → changesBelow b.2 p = [] := by
    intro p h₁ h₂
    refine changesBelow_eq_nil fun c hc hp => ?_
    obtain h | h := List.prefix_or_prefix_of_prefix (hunder c hc) hp
    · exact h₁ h
    · exact h₂ h
  have hpathBelow : ∀ p, p <+: top → changesBelow (done ++ b.2) p ≠ [] := by
    intro p hp
    obtain ⟨c, hc⟩ := List.exists_mem_of_ne_nil _ hne
    exact changesBelow_ne_nil (List.mem_append_right _ hc) (hp.trans (hunder c hc))
  have hjoin : ∀ d, 0 ≤ d → d < 0 + parallelBucketDepth →
      settledNode hf cache (done ++ b.2) (k.bits.take d) = join hf.hashNode (k.bit (d + 1))
        (settledNode hf cache (done ++ b.2) (k.bits.take (d + 1)))
        (settledNode hf cache (done ++ b.2) (siblingKey k d)) := by
    intro d _ hd
    refine settledNode_join hf (by unfold parallelBucketDepth at hd; omega) (hpathBelow _ ?_)
    rw [← htake, List.prefix_take_iff]
    exact ⟨List.take_prefix _ _, by rw [length_take_bits k (by omega)]; omega⟩
  have hsibling : ∀ d, 0 ≤ d → d < 0 + parallelBucketDepth → nodeValue hf cache
      (extendOverlay (settledOverlay hf cache done) (settledWithin hf cache b.2 top))
      (siblingKey k d) = settledNode hf cache (done ++ b.2) (siblingKey k d) := by
    intro d _ hd
    obtain ⟨h₁, h₂⟩ := siblingKey_beside k (show d < parallelBucketDepth by omega) hdepth.le
    rw [htake] at h₁ h₂
    have hsame : extendOverlay (settledOverlay hf cache done) (settledWithin hf cache b.2 top)
        (siblingKey k d) = settledOverlay hf cache done (siblingKey k d) := by
      rw [extendOverlay, settledWithin, if_neg h₁, Option.none_or]
    rw [nodeValue_congr hf cache hsame, nodeValue_settledOverlay hf cache done
      (by rw [length_siblingKey k (by omega)]; omega),
      settledNode_append_left hf (hbesideBelow _ h₁ h₂)]
  have hcurrent : settledNode hf cache b.2 top =
      settledNode hf cache (done ++ b.2) (k.bits.take (0 + parallelBucketDepth)) := by
    rw [Nat.zero_add, htake, settledNode_append_right hf (hdoneBelow top List.prefix_rfl)]
  unfold stageNodeUpdateFromDepth
  rw [if_neg (by decide), stagePath_eq hf (by omega) hcurrent hjoin hsibling]
  funext p
  simp only [Nat.zero_le, true_and, Nat.zero_add]
  by_cases hup : p <+: k.bits ∧ p.length < parallelBucketDepth
  · have hpre : p <+: top := by
      rw [← htake, List.prefix_take_iff]
      exact ⟨hup.1, hup.2.le⟩
    rw [if_pos hup, settledOverlay, if_pos ⟨hpathBelow p hpre, hup.2.trans hdepth⟩]
  · rw [if_neg hup]
    by_cases hin : top <+: p
    · have hold : settledOverlay hf cache done p = none := if_neg fun hc => hc.1 (hdoneBelow p hin)
      have hsame : changesBelow (done ++ b.2) p = changesBelow b.2 p := by
        rw [changesBelow_append, hdoneBelow p hin, List.nil_append]
      rw [extendOverlay, settledWithin, if_pos hin, hold, Option.or_none, settledOverlay,
        settledOverlay, hsame, settledNode_append_right hf (hdoneBelow p hin)]
    · have hnot : ¬p <+: top := by
        intro hpre
        refine hup ⟨hpre.trans (htake ▸ List.take_prefix _ _), ?_⟩
        refine lt_of_le_of_ne (hlen ▸ hpre.length_le) fun heq => ?_
        exact hin (hpre.eq_of_length (heq.trans hlen.symm) ▸ List.prefix_rfl)
      have hsame : changesBelow (done ++ b.2) p = changesBelow done p := by
        rw [changesBelow_append, hbesideBelow p hin hnot, List.append_nil]
      rw [extendOverlay, settledWithin, if_neg hin, Option.none_or, settledOverlay, settledOverlay,
        hsame, settledNode_append_left hf (hbesideBelow p hin hnot)]

lemma mergeBuckets_settled (cache : NodeCache H) {done : List (KeyHash × Option Bytes)}
    {buckets : List (Nat × List (KeyHash × Option Bytes))}
    (hindex : buckets.Pairwise fun a b => a.1 ≠ b.1)
    (hbuckets : ∀ b ∈ buckets, b.1 < 2 ^ parallelBucketDepth ∧ b.2 ≠ [] ∧
      ∀ c ∈ b.2, c.1.topBits parallelBucketDepth = b.1)
    (hdone : ∀ b ∈ buckets, ∀ c ∈ done, ¬bitsOfNat parallelBucketDepth b.1 <+: c.1.bits) :
    (buckets.map (hf.stageBucket cache)).foldl
      (fun overlay (r : KeyHash × H × NodeOverlay H) => hf.stageNodeUpdateFromDepth cache
        (extendOverlay overlay r.2.2) r.1 parallelBucketDepth r.2.1)
      (settledOverlay hf cache done) =
      settledOverlay hf cache (done ++ buckets.flatMap (·.2)) := by
  induction buckets generalizing done with
  | nil => simp
  | cons b rest ih =>
    obtain ⟨hb, hrest⟩ := List.pairwise_cons.mp hindex
    obtain ⟨hlt, hne, hentries⟩ := hbuckets b List.mem_cons_self
    rw [List.map_cons, List.foldl_cons, mergeBucket_settled hf cache hne hentries
      (hdone b List.mem_cons_self), ih hrest
      (fun b' hb' => hbuckets b' (List.mem_cons_of_mem _ hb')), List.flatMap_cons, List.append_assoc]
    intro b' hb' c hc hpre
    obtain hc | hc := List.mem_append.mp hc
    · exact hdone b' (List.mem_cons_of_mem _ hb') c hc hpre
    · have hkey := topBits_of_prefix (hbuckets b' (List.mem_cons_of_mem _ hb')).1 hpre
      exact hb b' hb' ((hentries c hc).symm.trans hkey)

/-! ## Buckets of sorted changes -/

lemma topBits_mono {a b : KeyHash} (h : a ≤ b) :
    a.topBits parallelBucketDepth ≤ b.topBits parallelBucketDepth := by
  have hsplit : ∀ k : KeyHash, natOfBits k.bits = k.topBits parallelBucketDepth *
      2 ^ (k.bits.drop parallelBucketDepth).length + natOfBits (k.bits.drop parallelBucketDepth) := by
    intro k
    rw [topBits_eq, ← natOfBits_append, List.take_append_drop]
  have hab : natOfBits a.bits ≤ natOfBits b.bits := h
  have hlen : ∀ k : KeyHash, (k.bits.drop parallelBucketDepth).length = 256 - parallelBucketDepth :=
    fun k => by rw [List.length_drop, k.length_bits]
  have hrest := natOfBits_lt (b.bits.drop parallelBucketDepth)
  rw [hsplit a, hsplit b, hlen, hlen] at hab
  rw [hlen] at hrest
  by_contra hlt
  have hmul := Nat.mul_le_mul_right (2 ^ (256 - parallelBucketDepth)) (Nat.succ_le_of_lt (not_le.mp hlt))
  rw [Nat.succ_mul] at hmul
  omega

/-- Changes in the order of their digests are the buckets one after another. -/
lemma flatMap_bucketsOf (hsorted : l.Pairwise (·.1 < ·.1)) : (bucketsOf l).flatMap (·.2) = l := by
  have hbuckets : ((bucketsOf l).flatMap (·.2)).Pairwise (·.1 < ·.1) := by
    refine List.pairwise_flatMap.mpr ⟨?_, ?_⟩
    · intro b hb
      obtain ⟨i, -, rfl⟩ := List.mem_map.mp (List.mem_filter.mp hb).1
      exact hsorted.filter _
    · refine List.Pairwise.filter _ (List.pairwise_map.mpr ?_)
      refine List.pairwise_lt_range.imp fun {i j} hij c hc c' hc' => ?_
      have hc := of_decide_eq_true (List.mem_filter.mp hc).2
      have hc' := of_decide_eq_true (List.mem_filter.mp hc').2
      by_contra hle
      have := topBits_mono (not_lt.mp hle)
      omega
  have hnodup : ∀ {l : List (KeyHash × Option Bytes)}, l.Pairwise (·.1 < ·.1) → l.Nodup :=
    fun h => h.imp fun hlt heq => absurd (congrArg Prod.fst heq) hlt.ne
  have hperm : ((bucketsOf l).flatMap (·.2)).Perm l :=
    (List.perm_ext_iff_of_nodup (hnodup hbuckets) (hnodup hsorted)).mpr fun c => mem_bucketsOf l c
  exact hperm.eq_of_pairwise (fun a b _ _ hab hba => absurd hba hab.asymm) hbuckets hsorted

/-- For every cache and every list of changes in the order of their digests, the parallel
computation returns the root and the overlay of staging one change after another. -/
theorem parallel_staging_eq_sequential (cache : NodeCache H) {changes : List (KeyHash × Option Bytes)}
    (hsorted : changes.Pairwise (·.1 < ·.1)) :
    hf.rootHashWithSortedChangesParallel cache changes =
      (hf.nodeHashFromOverlay cache (hf.stageChanges cache changes) KeyHash.zero 0,
        hf.stageChanges cache changes) := by
  have hoverlay : (hf.rootHashWithSortedChangesParallel cache changes).2 =
      hf.stageChanges cache changes := by
    have hfresh : ∀ b ∈ bucketsOf changes, ∀ c ∈ ([] : List (KeyHash × Option Bytes)),
        ¬bitsOfNat parallelBucketDepth b.1 <+: c.1.bits := fun _ _ c hc => absurd hc List.not_mem_nil
    have hmerged := mergeBuckets_settled hf cache ?_ ?_ hfresh
    · rw [settledOverlay_nil, List.nil_append, flatMap_bucketsOf hsorted] at hmerged
      unfold rootHashWithSortedChangesParallel
      rw [stageChanges_settled, ← hmerged]
    · refine List.Pairwise.filter _ (List.pairwise_map.mpr ?_)
      exact List.nodup_range.imp fun hne => hne
    · intro b hb
      obtain ⟨hmap, hne⟩ := List.mem_filter.mp hb
      obtain ⟨i, hi, rfl⟩ := List.mem_map.mp hmap
      refine ⟨List.mem_range.mp hi, by simpa using hne, fun c hc => ?_⟩
      exact of_decide_eq_true (List.mem_filter.mp hc).2
  exact Prod.ext (by rw [parallel_root, hoverlay]) hoverlay

/-- Two changes in one bucket, on a cache with a node beside them. -/
theorem parallel_staging_eq_sequential_two :
    let cache : NodeCache Bool := fun p => if p = [true] then some true else none
    let changes := [(orHashes.digest [], some [7]), (orHashes.digest [2], none)]
    orHashes.rootHashWithSortedChangesParallel cache changes =
      (orHashes.nodeHashFromOverlay cache (orHashes.stageChanges cache changes) KeyHash.zero 0,
        orHashes.stageChanges cache changes) :=
  parallel_staging_eq_sequential orHashes _ (by decide +kernel)

end Kanari.Proofs

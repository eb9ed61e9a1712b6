import Kanari.SparseMerkle

/-!
# Staged nodes are the nodes of the tree

The cache with an overlay is right below a node when every branch node there has its value in the
complete tree; the leaves themselves are never cached.
-/

namespace Kanari.Proofs

open Lib BitTree HashFunctions

variable {H : Type} (hf : HashFunctions H)

/-! ## Bits of a digest -/

variable {d n stop : Nat} {p top : List Bool} {k : KeyHash} {M m : OrdMap KeyHash Bytes}
  {S : Set KeyHash} {c : KeyHash × Option Bytes} {l : List (KeyHash × Option Bytes)}

lemma length_take_bits (k : KeyHash) (hd : d ≤ 256) : (k.bits.take d).length = d := by
  rw [List.length_take, k.length_bits, min_eq_left hd]

lemma take_bits_succ (k : KeyHash) (hd : d < 256) :
    k.bits.take (d + 1) = k.bits.take d ++ [k.bit (d + 1)] := by
  have hlen : d < k.bits.length := by rw [k.length_bits]; exact hd
  rw [List.take_succ_eq_append_getElem hlen]
  simp [KeyHash.bit, List.getElem?_eq_getElem hlen]

/-- The other child of the node at depth `d` on the path to `k`. -/
def siblingKey (k : KeyHash) (d : Nat) : List Bool := k.bits.take d ++ [!k.bit (d + 1)]

lemma length_siblingKey (k : KeyHash) (hd : d < 256) : (siblingKey k d).length = d + 1 := by
  rw [siblingKey, List.length_append, length_take_bits k hd.le, List.length_singleton]

lemma nodeKey_flipBit (k : KeyHash) (hd : d < 256) :
    nodeKey (k.flipBit (d + 1)) (d + 1) = siblingKey k d := by
  have hlen : d < k.bits.length := by rw [k.length_bits]; exact hd
  have hlen' : d < (k.bits.modify d (!·)).length := by rw [List.length_modify]; exact hlen
  have hbit : (k.bits.modify d (!·))[d] = !k.bit (d + 1) := by
    rw [List.getElem_modify_eq]
    simp [KeyHash.bit, List.getElem?_eq_getElem hlen]
  have htake : (k.bits.modify d (!·)).take d = k.bits.take d := by
    apply List.ext_getElem?
    intro i
    rw [List.getElem?_take, List.getElem?_take]
    by_cases hi : i < d
    · have hne : d ≠ i := by omega
      simp [hi, hne]
    · rw [if_neg hi, if_neg hi]
  show (k.bits.modify d (!·)).take (d + 1) = _
  rw [List.take_succ_eq_append_getElem hlen', hbit, htake, siblingKey]

lemma siblingKey_not_ancestor (k : KeyHash) (hd : d < 256) : ¬siblingKey k d <+: k.bits := by
  intro h
  have heq := List.prefix_iff_eq_take.mp h
  rw [length_siblingKey k hd, take_bits_succ k hd, siblingKey] at heq
  have := List.append_cancel_left heq
  simp at this

lemma siblingKey_ne_take (k : KeyHash) (hd : d < 256) (e : Nat) :
    siblingKey k d ≠ k.bits.take e := by
  intro h
  exact siblingKey_not_ancestor k hd (h ▸ List.take_prefix e k.bits)

/-! ## Nodes by key -/

def treeNode (leaf : List Bool → H) (p : List Bool) : H :=
  subtree hf.hashNode leaf (256 - p.length) p

def nodeValue (cache : NodeCache H) (overlay : NodeOverlay H) (p : List Bool) : H :=
  match overlay p with
  | some value => value.getD (hf.defaultHash p.length)
  | none => (cache p).getD (hf.defaultHash p.length)

lemma treeNode_leaf (leaf : List Bool → H) (hp : p.length = 256) : treeNode hf leaf p = leaf p := by
  rw [treeNode, hp, Nat.sub_self, subtree]

lemma treeNode_join (leaf : List Bool → H) (k : KeyHash) (hd : d < 256) :
    treeNode hf leaf (k.bits.take d) = join hf.hashNode (k.bit (d + 1))
      (treeNode hf leaf (k.bits.take (d + 1))) (treeNode hf leaf (siblingKey k d)) := by
  unfold treeNode
  rw [length_take_bits k hd.le, length_take_bits k hd, length_siblingKey k hd,
    show 256 - d = 256 - (d + 1) + 1 by omega, subtree_succ hf.hashNode leaf _ _ (k.bit (d + 1)),
    take_bits_succ k hd, siblingKey]

lemma treeNode_update {leaf : List Bool → H} {v : H} (h : ¬p <+: k.bits) :
    treeNode hf (Function.update leaf k.bits v) p = treeNode hf leaf p :=
  subtree_update hf.hashNode h

lemma treeNode_congr {leaf leaf' : List Bool → H} (hp : p.length ≤ 256)
    (h : ∀ k : KeyHash, p <+: k.bits → leaf k.bits = leaf' k.bits) :
    treeNode hf leaf p = treeNode hf leaf' p := by
  apply subtree_congr
  intro q hq hlen
  exact h ⟨q, by omega⟩ hq

lemma treeNode_empty {leaf : List Bool → H} (hp : p.length ≤ 256)
    (h : ∀ k : KeyHash, p <+: k.bits → leaf k.bits = hf.defaultLeaf) :
    treeNode hf leaf p = hf.defaultHash p.length := by
  apply subtree_empty
  intro q hq hlen
  exact h ⟨q, by omega⟩ hq

lemma defaultHash_leaf : hf.defaultHash 256 = hf.defaultLeaf := rfl

lemma nodeHashFromOverlay_eq (cache : NodeCache H) (overlay : NodeOverlay H) (k : KeyHash)
    (hd : d ≤ 256) :
    hf.nodeHashFromOverlay cache overlay k d = nodeValue hf cache overlay (nodeKey k d) := by
  have hlen : (nodeKey k d).length = d := length_take_bits k hd
  unfold nodeHashFromOverlay nodeValue nodeHashFromCache
  cases overlay (nodeKey k d) with
  | none => simp only [hlen]
  | some value => simp only [hlen]

lemma nodeValue_congr (cache : NodeCache H) {overlay overlay' : NodeOverlay H}
    (h : overlay p = overlay' p) :
    nodeValue hf cache overlay p = nodeValue hf cache overlay' p := by
  unfold nodeValue
  rw [h]

/-! ## Leaves of a map -/

def writeLeaf (m : OrdMap KeyHash Bytes) (c : KeyHash × Option Bytes) : OrdMap KeyHash Bytes :=
  match c.2 with
  | some v => m.insert c.1 v
  | none => m.erase c.1

def writeLeaves (m : OrdMap KeyHash Bytes) (l : List (KeyHash × Option Bytes)) :
    OrdMap KeyHash Bytes := l.foldl writeLeaf m

lemma find?_writeLeaf (m : OrdMap KeyHash Bytes) (c : KeyHash × Option Bytes) (k : KeyHash) :
    (writeLeaf m c).find? k = if k = c.1 then c.2 else m.find? k := by
  obtain ⟨k', v⟩ := c
  cases v with
  | none => exact OrdMap.find?_erase m k' k
  | some v => exact OrdMap.find?_insert m k' k v

def leaves (m : OrdMap KeyHash Bytes) : List Bool → H := fun p =>
  if h : p.length = 256 then hf.leafHash ⟨p, h⟩ (m.find? ⟨p, h⟩) else hf.defaultLeaf

lemma leaves_bits (m : OrdMap KeyHash Bytes) (k : KeyHash) :
    leaves hf m k.bits = hf.leafHash k (m.find? k) := by
  rw [leaves, dif_pos k.length_bits]

lemma leaves_writeLeaf (m : OrdMap KeyHash Bytes) (c : KeyHash × Option Bytes) :
    leaves hf (writeLeaf m c) =
      Function.update (leaves hf m) c.1.bits (hf.leafHash c.1 c.2) := by
  funext p
  by_cases hp : p.length = 256
  · obtain ⟨k, rfl⟩ : ∃ k : KeyHash, k.bits = p := ⟨⟨p, hp⟩, rfl⟩
    rw [leaves_bits, find?_writeLeaf]
    by_cases hk : k = c.1
    · rw [if_pos hk, hk, Function.update_self]
    · rw [if_neg hk, Function.update_of_ne fun h => hk (KeyHash.ext h), leaves_bits]
  · have hne : p ≠ c.1.bits := by
      rintro rfl
      exact hp c.1.length_bits
    rw [Function.update_of_ne hne, leaves, leaves, dif_neg hp, dif_neg hp]

/-- No two of these digests agree on their first 255 bits. -/
def Separated (S : Set KeyHash) : Prop :=
  ∀ a ∈ S, ∀ b ∈ S, nodeKey a 255 = nodeKey b 255 → a = b

def KeysIn (m : OrdMap KeyHash Bytes) (S : Set KeyHash) : Prop :=
  ∀ k v, m.find? k = some v → k ∈ S

lemma KeysIn.writeLeaf (h : KeysIn m S) (hc : c.1 ∈ S) : KeysIn (writeLeaf m c) S := by
  intro k v hk
  rw [find?_writeLeaf] at hk
  by_cases heq : k = c.1
  · rw [heq]
    exact hc
  · rw [if_neg heq] at hk
    exact h k v hk

lemma KeysIn.writeLeaves (h : KeysIn m S) (hl : ∀ c ∈ l, c.1 ∈ S) : KeysIn (writeLeaves m l) S := by
  induction l generalizing m with
  | nil => exact h
  | cons c l ih =>
    exact ih (h.writeLeaf (hl c List.mem_cons_self)) fun c' hc' => hl c' (List.mem_cons_of_mem _ hc')

lemma leaves_sibling (hS : Separated S) (hm : KeysIn m S) (hk : k ∈ S) :
    leaves hf m (siblingKey k 255) = hf.defaultLeaf := by
  have hlen : (siblingKey k 255).length = 256 := length_siblingKey k (by norm_num)
  obtain ⟨s, hs⟩ : ∃ s : KeyHash, s.bits = siblingKey k 255 := ⟨⟨_, hlen⟩, rfl⟩
  have hnode : nodeKey s 255 = nodeKey k 255 := by
    unfold nodeKey
    rw [hs, siblingKey, List.take_append_of_le_length (by rw [length_take_bits k (by norm_num)]),
      List.take_take, min_self]
  have habsent : m.find? s = none := by
    by_contra hne
    obtain ⟨v, hv⟩ := Option.ne_none_iff_exists'.mp hne
    have hsk : s = k := hS s (hm s v hv) k hk hnode
    have htake : siblingKey k 255 = k.bits.take 256 := by
      rw [← hs, hsk, List.take_of_length_le (by rw [k.length_bits])]
    exact siblingKey_ne_take k (by norm_num) 256 htake
  rw [← hs, leaves_bits, habsent]
  rfl

lemma find?_writeLeaves_of_not_mem (h : ∀ c ∈ l, c.1 ≠ k) (m : OrdMap KeyHash Bytes) :
    (writeLeaves m l).find? k = m.find? k := by
  induction l generalizing m with
  | nil => rfl
  | cons c l ih =>
    have hne : k ≠ c.1 := (h c List.mem_cons_self).symm
    show (writeLeaves (writeLeaf m c) l).find? k = _
    rw [ih fun c' hc' => h c' (List.mem_cons_of_mem _ hc'), find?_writeLeaf, if_neg hne]

lemma find?_writeLeaves_congr (l : List (KeyHash × Option Bytes)) {m' : OrdMap KeyHash Bytes}
    (h : m.find? k = m'.find? k) : (writeLeaves m l).find? k = (writeLeaves m' l).find? k := by
  induction l generalizing m m' with
  | nil => exact h
  | cons c l ih =>
    apply ih
    rw [find?_writeLeaf, find?_writeLeaf, h]

def OneEach (l : List (KeyHash × Option Bytes)) : Prop :=
  ∀ k v v', (k, v) ∈ l → (k, v') ∈ l → v = v'

lemma find?_writeLeaves (hl : OneEach l) {v : Option Bytes} (h : (k, v) ∈ l)
    (m : OrdMap KeyHash Bytes) : (writeLeaves m l).find? k = v := by
  induction l generalizing m with
  | nil => cases h
  | cons c l ih =>
    have htail : OneEach l := fun k v v' h h' =>
      hl k v v' (List.mem_cons_of_mem _ h) (List.mem_cons_of_mem _ h')
    by_cases hin : ∃ v', (k, v') ∈ l
    · obtain ⟨v', hv'⟩ := hin
      have hvv : v = v' := hl k v v' h (List.mem_cons_of_mem _ hv')
      exact ih htail (hvv ▸ hv') _
    · have hfree : ∀ c' ∈ l, c'.1 ≠ k := by
        rintro ⟨k', v'⟩ hc' rfl
        exact hin ⟨v', hc'⟩
      have hc : c = (k, v) := by
        rcases List.mem_cons.mp h with heq | hmem
        · exact heq.symm
        · exact absurd ⟨v, hmem⟩ hin
      show (writeLeaves (writeLeaf m c) l).find? k = v
      rw [find?_writeLeaves_of_not_mem hfree, find?_writeLeaf, hc, if_pos rfl]

lemma writeLeaves_congr {l' : List (KeyHash × Option Bytes)} (hl : OneEach l)
    (hmem : ∀ c, c ∈ l ↔ c ∈ l') (m : OrdMap KeyHash Bytes) :
    writeLeaves m l = writeLeaves m l' := by
  have hl' : OneEach l' := fun k v v' h h' => hl k v v' ((hmem _).mpr h) ((hmem _).mpr h')
  apply OrdMap.ext
  intro k
  by_cases hin : ∃ v, (k, v) ∈ l
  · obtain ⟨v, hv⟩ := hin
    rw [find?_writeLeaves hl hv, find?_writeLeaves hl' ((hmem _).mp hv)]
  · have hfree : ∀ c ∈ l, c.1 ≠ k := by
      rintro ⟨k', v⟩ hc rfl
      exact hin ⟨v, hc⟩
    rw [find?_writeLeaves_of_not_mem hfree,
      find?_writeLeaves_of_not_mem fun c hc => hfree c ((hmem c).mpr hc)]

/-! ## The cache against the tree -/

/-- The cache and the overlay show the tree over `m` below `top`. Leaves are not shown. -/
structure RightBelow (cache : NodeCache H) (overlay : NodeOverlay H) (m : OrdMap KeyHash Bytes)
    (top : List Bool) : Prop where
  branch : ∀ p, top <+: p → p.length < 256 →
    nodeValue hf cache overlay p = treeNode hf (leaves hf m) p
  leafLevel : ∀ p, p.length = 256 → nodeValue hf cache overlay p = hf.defaultLeaf

lemma RightBelow.root {cache : NodeCache H} {overlay : NodeOverlay H}
    (h : RightBelow hf cache overlay m []) :
    hf.nodeHashFromOverlay cache overlay KeyHash.zero 0 = treeNode hf (leaves hf m) [] := by
  rw [nodeHashFromOverlay_eq hf cache overlay KeyHash.zero (Nat.zero_le _)]
  exact h.branch [] List.prefix_rfl (by simp)

lemma RightBelow.commit {cache : NodeCache H} {overlay : NodeOverlay H}
    (h : RightBelow hf cache overlay m []) :
    RightBelow hf (applyNodeOverlayToCache cache overlay) (fun _ => none) m [] := by
  have hsame : ∀ p, nodeValue hf (applyNodeOverlayToCache cache overlay) (fun _ => none) p =
      nodeValue hf cache overlay p := by
    intro p
    unfold nodeValue applyNodeOverlayToCache
    cases overlay p with
    | none => rfl
    | some v => rfl
  exact ⟨fun p hp hlt => (hsame p).trans (h.branch p hp hlt),
    fun p hp => (hsame p).trans (h.leafLevel p hp)⟩

lemma rightBelow_empty : RightBelow hf (fun _ => none) (fun _ => none) OrdMap.empty [] := by
  refine ⟨?_, ?_⟩
  · intro p _ hp
    rw [treeNode_empty hf hp.le]
    · rfl
    · intro k _
      rw [leaves_bits]
      rfl
  · intro p hp
    unfold nodeValue
    rw [hp]
    rfl

lemma treeNode_writeLeaves_below (l : List (KeyHash × Option Bytes)) (hp : p.length ≤ 256)
    (hagree : ∀ k : KeyHash, p <+: k.bits → M.find? k = m.find? k) :
    treeNode hf (leaves hf (writeLeaves M l)) p = treeNode hf (leaves hf (writeLeaves m l)) p := by
  apply treeNode_congr hf hp
  intro k hk
  rw [leaves_bits, leaves_bits, find?_writeLeaves_congr l (hagree k hk)]

lemma treeNode_writeLeaves_beside (hl : ∀ c ∈ l, top <+: c.1.bits) (htop : ¬top <+: p)
    (hp : ¬p <+: top) (hlen : p.length ≤ 256) :
    treeNode hf (leaves hf (writeLeaves M l)) p = treeNode hf (leaves hf M) p := by
  apply treeNode_congr hf hlen
  intro k hk
  rw [leaves_bits, leaves_bits, find?_writeLeaves_of_not_mem]
  rintro c hc rfl
  rcases List.prefix_or_prefix_of_prefix (hl c hc) hk with h | h
  · exact htop h
  · exact hp h

/-- An overlay extended by a bucket's overlay is right below the bucket and beside it. Between
the bucket and the root it still shows the old nodes. -/
lemma extendOverlay_right {cache : NodeCache H} {overlay bucket : NodeOverlay H}
    (hbase : RightBelow hf cache (fun _ => none) m []) (h : RightBelow hf cache overlay M [])
    (hagree : ∀ k : KeyHash, top <+: k.bits → M.find? k = m.find? k)
    (hl : ∀ c ∈ l, top <+: c.1.bits) (hright : RightBelow hf cache bucket (writeLeaves m l) top)
    (hnone : ∀ p, ¬top <+: p → bucket p = none) :
    RightBelow hf cache (extendOverlay overlay bucket) (writeLeaves M l) top ∧
      ∀ p, ¬top <+: p → ¬p <+: top → p.length < 256 →
        nodeValue hf cache (extendOverlay overlay bucket) p =
          treeNode hf (leaves hf (writeLeaves M l)) p := by
  have huntouched : ∀ p, bucket p = none → extendOverlay overlay bucket p = overlay p := by
    intro p hp
    rw [extendOverlay, hp, Option.none_or]
  have htouched : ∀ p x, bucket p = some x → extendOverlay overlay bucket p = bucket p := by
    intro p x hp
    rw [extendOverlay, hp, Option.some_or]
  refine ⟨⟨?_, ?_⟩, ?_⟩
  · intro p hp hlt
    have hbelow : ∀ k : KeyHash, p <+: k.bits → M.find? k = m.find? k :=
      fun k hk => hagree k (hp.trans hk)
    rw [treeNode_writeLeaves_below hf l hlt.le hbelow, ← hright.branch p hp hlt]
    cases hcase : bucket p with
    | some x => exact nodeValue_congr hf cache (htouched p x hcase)
    | none =>
      -- untouched by the bucket: the node is the one of the tree before all changes
      have hbefore : treeNode hf (leaves hf M) p = treeNode hf (leaves hf m) p :=
        treeNode_writeLeaves_below hf [] hlt.le hbelow
      have hsame : nodeValue hf cache bucket p = nodeValue hf cache (fun _ => none) p :=
        nodeValue_congr hf cache hcase
      rw [nodeValue_congr hf cache (huntouched p hcase), h.branch p List.nil_prefix hlt, hbefore,
        hsame, hbase.branch p List.nil_prefix hlt]
  · intro p hp
    cases hcase : bucket p with
    | some x => rw [nodeValue_congr hf cache (htouched p x hcase), hright.leafLevel p hp]
    | none => rw [nodeValue_congr hf cache (huntouched p hcase), h.leafLevel p hp]
  · intro p htop hp hlt
    rw [nodeValue_congr hf cache (huntouched p (hnone p htop)), h.branch p List.nil_prefix hlt,
      treeNode_writeLeaves_beside hf hl htop hp hlt.le]

/-! ## One path -/

variable [DecidableEq H]

lemma stageNode_self (overlay : NodeOverlay H) (cache : NodeCache H) (k : KeyHash) (hd : d ≤ 256)
    (hash : H) : nodeValue hf cache (hf.stageNode overlay k d hash) (k.bits.take d) = hash := by
  unfold nodeValue stageNode nodeKey
  rw [Function.update_self, length_take_bits k hd]
  by_cases h : hash = hf.defaultHash d
  · simp [h]
  · simp [h]

lemma stageNode_of_ne (overlay : NodeOverlay H) (k : KeyHash) (hash : H) (hp : p ≠ k.bits.take d) :
    hf.stageNode overlay k d hash p = overlay p :=
  Function.update_of_ne hp _ _

/-- What is staged for a node: nothing but a mark if it went back to its default. -/
def stagedHash (depth : Nat) (hash : H) : Option H :=
  if hash = hf.defaultHash depth then none else some hash

lemma nodeValue_of_staged (cache : NodeCache H) {overlay : NodeOverlay H} {hash : H}
    (h : overlay p = some (stagedHash hf p.length hash)) : nodeValue hf cache overlay p = hash := by
  unfold nodeValue stagedHash at *
  rw [h]
  by_cases hdefault : hash = hf.defaultHash p.length
  · simp [hdefault]
  · simp [hdefault]

/-- A staged path, for any values of nodes that join along it: the nodes on the path get their
values, the value returned is that of the last one, and no other node is touched. -/
lemma stagePath_eq {cache : NodeCache H} {node : List Bool → H} {overlay : NodeOverlay H}
    {current : H} (hn : stop + n ≤ 256) (hcurrent : current = node (k.bits.take (stop + n)))
    (hjoin : ∀ d, stop ≤ d → d < stop + n → node (k.bits.take d) =
      join hf.hashNode (k.bit (d + 1)) (node (k.bits.take (d + 1))) (node (siblingKey k d)))
    (hsibling : ∀ d, stop ≤ d → d < stop + n →
      nodeValue hf cache overlay (siblingKey k d) = node (siblingKey k d)) :
    hf.stagePath cache k stop n overlay current =
      (fun p => if p <+: k.bits ∧ stop ≤ p.length ∧ p.length < stop + n then
        some (stagedHash hf p.length (node p)) else overlay p, node (k.bits.take stop)) := by
  induction n generalizing overlay current with
  | zero =>
    have hnone : ∀ p : List Bool, ¬(p <+: k.bits ∧ stop ≤ p.length ∧ p.length < stop + 0) := by
      rintro p ⟨-, h₁, h₂⟩
      omega
    simp only [hnone, if_false, hcurrent]
    rfl
  | succ n ih =>
    have hd : stop + n < 256 := by omega
    rw [← Nat.add_assoc] at hcurrent
    have hparent : join hf.hashNode (k.bit (stop + n + 1)) current
        (hf.nodeHashFromOverlay cache overlay (k.flipBit (stop + n + 1)) (stop + n + 1)) =
          node (k.bits.take (stop + n)) := by
      rw [nodeHashFromOverlay_eq hf cache overlay _ hd, nodeKey_flipBit k hd,
        hsibling (stop + n) (by omega) (by omega), hcurrent, ← hjoin (stop + n) (by omega) (by omega)]
    have hstep : hf.stagePath cache k stop (n + 1) overlay current =
        hf.stagePath cache k stop n (hf.stageNode overlay k (stop + n) (node (k.bits.take (stop + n))))
          (node (k.bits.take (stop + n))) := by
      rw [← hparent]
      rfl
    have hsibling' : ∀ d, stop ≤ d → d < stop + n →
        nodeValue hf cache (hf.stageNode overlay k (stop + n) (node (k.bits.take (stop + n))))
          (siblingKey k d) = node (siblingKey k d) := by
      intro d h₁ h₂
      rw [nodeValue_congr hf cache (stageNode_of_ne hf overlay k _
        (siblingKey_ne_take k (by omega) (stop + n)))]
      exact hsibling d h₁ (by omega)
    rw [hstep, ih (by omega) rfl (fun d h₁ h₂ => hjoin d h₁ (by omega)) hsibling']
    congr 1
    funext p
    by_cases hon : p = k.bits.take (stop + n)
    · -- the node that was staged first is not touched again
      have hlen : p.length = stop + n := by rw [hon, length_take_bits k hd.le]
      rw [if_neg (by omega), if_pos ⟨hon ▸ List.take_prefix _ _, by omega, by omega⟩, hlen, hon]
      exact Function.update_self _ _ _
    · rw [stageNode_of_ne hf overlay k _ hon]
      refine if_congr ?_ rfl rfl
      constructor
      · rintro ⟨hpre, h₁, h₂⟩
        exact ⟨hpre, h₁, by omega⟩
      · rintro ⟨hpre, h₁, h₂⟩
        have hne : p.length ≠ stop + n := fun hlen =>
          hon (hlen ▸ List.prefix_iff_eq_take.mp hpre)
        exact ⟨hpre, h₁, by omega⟩

/-- What a staged path does, for the tree over `leaf`: the nodes on the path get their values,
the value returned is that of the last one, and no other node is touched. -/
structure PathStaged (cache : NodeCache H) (leaf : List Bool → H) (k : KeyHash) (stop n : Nat)
    (overlay : NodeOverlay H) (r : NodeOverlay H × H) : Prop where
  last : r.2 = treeNode hf leaf (k.bits.take stop)
  staged : ∀ d, stop ≤ d → d < stop + n →
    nodeValue hf cache r.1 (k.bits.take d) = treeNode hf leaf (k.bits.take d)
  others : ∀ p, (∀ d, stop ≤ d → d < stop + n → p ≠ k.bits.take d) → r.1 p = overlay p

lemma stagePath_staged {cache : NodeCache H} {leaf : List Bool → H} {overlay : NodeOverlay H}
    {current : H} (hn : stop + n ≤ 256)
    (hcurrent : current = treeNode hf leaf (k.bits.take (stop + n)))
    (hsibling : ∀ d, stop ≤ d → d < stop + n →
      nodeValue hf cache overlay (siblingKey k d) = treeNode hf leaf (siblingKey k d)) :
    PathStaged hf cache leaf k stop n overlay
      (hf.stagePath cache k stop n overlay current) := by
  rw [stagePath_eq hf hn hcurrent (fun d _ hd => treeNode_join hf leaf k (by omega)) hsibling]
  refine ⟨rfl, ?_, ?_⟩
  · intro d h₁ h₂
    have hlen := length_take_bits k (show d ≤ 256 by omega)
    exact nodeValue_of_staged hf cache (if_pos ⟨List.take_prefix _ _, by omega, by omega⟩)
  · intro p hp
    refine if_neg ?_
    rintro ⟨hpre, h₁, h₂⟩
    exact hp p.length h₁ h₂ (List.prefix_iff_eq_take.mp hpre)

/-! ## One change -/

lemma stagePath_change {cache : NodeCache H} {overlay : NodeOverlay H} (hS : Separated S)
    (hm : KeysIn m S) (hc : c.1 ∈ S) (hstop : stop < 256)
    (h : RightBelow hf cache overlay m (c.1.bits.take stop)) :
    let r := hf.stagePath cache c.1 stop (256 - stop) overlay (hf.leafHash c.1 c.2)
    RightBelow hf cache r.1 (writeLeaf m c) (c.1.bits.take stop) ∧
      r.2 = treeNode hf (leaves hf (writeLeaf m c)) (c.1.bits.take stop) ∧
      ∀ p, ¬c.1.bits.take stop <+: p → r.1 p = overlay p := by
  intro r
  set k := c.1 with hk
  have hfull : k.bits.take (stop + (256 - stop)) = k.bits :=
    List.take_of_length_le (by rw [k.length_bits]; omega)
  have hbelow : ∀ d, stop ≤ d → k.bits.take stop <+: k.bits.take d := by
    intro d hd
    rw [List.prefix_take_iff]
    exact ⟨List.take_prefix stop k.bits, by rw [length_take_bits k hstop.le]; exact hd⟩
  have hpath : PathStaged hf cache (leaves hf (writeLeaf m c)) k stop (256 - stop) overlay r := by
    apply stagePath_staged hf (by omega)
    · rw [hfull, treeNode_leaf hf _ k.length_bits, leaves_writeLeaf, ← hk, Function.update_self]
    · intro d h₁ h₂
      have hd : d < 256 := by omega
      rw [leaves_writeLeaf, ← hk, treeNode_update hf (siblingKey_not_ancestor k hd)]
      by_cases hleaf : d = 255
      · subst hleaf
        have hlen : (siblingKey k 255).length = 256 := length_siblingKey k hd
        rw [h.leafLevel _ hlen, treeNode_leaf hf _ hlen, leaves_sibling hf hS hm hc]
      · apply h.branch
        · exact (hbelow d h₁).trans (List.prefix_append _ _)
        · rw [length_siblingKey k hd]
          omega
  refine ⟨⟨?_, ?_⟩, hpath.last, ?_⟩
  · intro p htop hp
    by_cases hon : p <+: k.bits
    · have heq : p = k.bits.take p.length := List.prefix_iff_eq_take.mp hon
      have hge : stop ≤ p.length := by
        have := htop.length_le
        rwa [length_take_bits k hstop.le] at this
      rw [heq]
      exact hpath.staged p.length hge (by omega)
    · have hother : r.1 p = overlay p := by
        apply hpath.others
        rintro d _ _ rfl
        exact hon (List.take_prefix d k.bits)
      rw [nodeValue_congr hf cache hother, h.branch p htop hp, leaves_writeLeaf, ← hk,
        treeNode_update hf hon]
  · intro p hp
    rw [nodeValue_congr hf cache (hpath.others p _), h.leafLevel p hp]
    rintro d _ hd rfl
    rw [length_take_bits k (by omega)] at hp
    omega
  · intro p hp
    apply hpath.others
    rintro d hd _ rfl
    exact hp (hbelow d hd)

lemma stageLeafNodeUpdate_right {cache : NodeCache H} {overlay : NodeOverlay H} (hS : Separated S)
    (hm : KeysIn m S) (hc : c.1 ∈ S) (h : RightBelow hf cache overlay m []) :
    RightBelow hf cache (hf.stageLeafNodeUpdate cache overlay c.1 (hf.leafHash c.1 c.2))
      (writeLeaf m c) [] :=
  (stagePath_change hf hS hm hc (by norm_num : 0 < 256) h).1

lemma stageChanges_right {cache : NodeCache H} (hS : Separated S) (hm : KeysIn m S)
    (hl : ∀ c ∈ l, c.1 ∈ S) (h : RightBelow hf cache (fun _ => none) m []) :
    RightBelow hf cache (hf.stageChanges cache l) (writeLeaves m l) [] := by
  unfold stageChanges
  generalize (fun _ => none : NodeOverlay H) = overlay at h ⊢
  induction l generalizing m overlay with
  | nil => exact h
  | cons c l ih =>
    have hc := hl c List.mem_cons_self
    exact ih (hm.writeLeaf hc) (fun c' hc' => hl c' (List.mem_cons_of_mem _ hc')) _
      (stageLeafNodeUpdate_right hf hS hm hc h)

/-! ## Changes in buckets -/

lemma topBits_eq (k : KeyHash) :
    k.topBits parallelBucketDepth = natOfBits (k.bits.take parallelBucketDepth) := by
  have hsplit : k.bits.take 16 = k.bits.take 12 ++ (k.bits.drop 12).take 4 :=
    List.take_add (i := 12) (j := 4)
  have hlength : ((k.bits.drop 12).take 4).length = 4 := by simp [k.length_bits]
  have hlow := natOfBits_lt ((k.bits.drop 12).take 4)
  show natOfBits (k.bits.take 16) >>> 4 = natOfBits (k.bits.take 12)
  rw [hlength] at hlow
  rw [hsplit, natOfBits_append, hlength, Nat.shiftRight_eq_div_pow]
  omega

lemma take_bits_of_topBits {i : Nat} (h : k.topBits parallelBucketDepth = i) :
    k.bits.take parallelBucketDepth = bitsOfNat parallelBucketDepth i := by
  have := bitsOfNat_natOfBits (k.bits.take parallelBucketDepth)
  rw [length_take_bits k (by decide)] at this
  rw [← this, ← h, topBits_eq]

lemma topBits_of_prefix {i : Nat} (hi : i < 2 ^ parallelBucketDepth)
    (h : bitsOfNat parallelBucketDepth i <+: k.bits) : k.topBits parallelBucketDepth = i := by
  have heq := List.prefix_iff_eq_take.mp h
  rw [length_bitsOfNat] at heq
  rw [topBits_eq, ← heq, natOfBits_bitsOfNat hi]

lemma topBits_lt (k : KeyHash) : k.topBits parallelBucketDepth < 2 ^ parallelBucketDepth := by
  have := natOfBits_lt (k.bits.take parallelBucketDepth)
  rwa [length_take_bits k (by decide), ← topBits_eq] at this

lemma take_prefixFromTopBits (i : Nat) (hd : d ≤ 256) :
    (KeyHash.prefixFromTopBits i d).bits.take d = bitsOfNat d i := by
  unfold KeyHash.prefixFromTopBits
  rw [List.take_take, min_eq_left hd,
    List.take_append_of_le_length (by rw [length_bitsOfNat]),
    List.take_of_length_le (by rw [length_bitsOfNat])]

lemma stageLeafNodeUpdateToDepth_right {cache : NodeCache H} {overlay : NodeOverlay H}
    (hS : Separated S) (hm : KeysIn m S) (hc : c.1 ∈ S)
    (htop : c.1.bits.take parallelBucketDepth = top) (h : RightBelow hf cache overlay m top) :
    let r := hf.stageLeafNodeUpdateToDepth cache overlay c.1 (hf.leafHash c.1 c.2)
      parallelBucketDepth
    RightBelow hf cache r.1 (writeLeaf m c) top ∧
      r.2 = treeNode hf (leaves hf (writeLeaf m c)) top ∧ ∀ p, ¬top <+: p → r.1 p = overlay p := by
  subst htop
  unfold stageLeafNodeUpdateToDepth
  rw [if_neg (by decide)]
  exact stagePath_change hf hS hm hc (by decide) h

lemma stageBucket_loop {cache : NodeCache H} (hS : Separated S) (hm : KeysIn m S)
    (hl : ∀ c ∈ l, c.1 ∈ S ∧ c.1.bits.take parallelBucketDepth = top) {acc : NodeOverlay H × H}
    (h : RightBelow hf cache acc.1 m top) (hnone : ∀ p, ¬top <+: p → acc.1 p = none) :
    let r := l.foldl (fun acc e => hf.stageLeafNodeUpdateToDepth cache acc.1 e.1
      (hf.leafHash e.1 e.2) parallelBucketDepth) acc
    RightBelow hf cache r.1 (writeLeaves m l) top ∧ (∀ p, ¬top <+: p → r.1 p = none) ∧
      (l ≠ [] → r.2 = treeNode hf (leaves hf (writeLeaves m l)) top) := by
  induction l generalizing m acc with
  | nil => exact ⟨h, hnone, fun hne => absurd rfl hne⟩
  | cons c l ih =>
    obtain ⟨hc, htop⟩ := hl c List.mem_cons_self
    obtain ⟨hright, hroot, hothers⟩ := stageLeafNodeUpdateToDepth_right hf hS hm hc htop h
    rw [List.foldl_cons]
    generalize hf.stageLeafNodeUpdateToDepth cache acc.1 c.1 (hf.leafHash c.1 c.2)
      parallelBucketDepth = next at hright hroot hothers ⊢
    have hnone' : ∀ p, ¬top <+: p → next.1 p = none := by
      intro p hp
      rw [hothers p hp, hnone p hp]
    obtain ⟨hright', hnone'', hroot'⟩ := ih (hm.writeLeaf hc)
      (fun c' hc' => hl c' (List.mem_cons_of_mem _ hc')) hright hnone'
    refine ⟨hright', hnone'', ?_⟩
    intro _
    by_cases hl' : l = []
    · subst hl'
      exact hroot
    · exact hroot' hl'

lemma stageBucket_right {cache : NodeCache H} (hS : Separated S) (hm : KeysIn m S)
    {b : Nat × List (KeyHash × Option Bytes)} (hne : b.2 ≠ [])
    (hl : ∀ c ∈ b.2, c.1 ∈ S ∧ c.1.topBits parallelBucketDepth = b.1)
    (h : RightBelow hf cache (fun _ => none) m []) :
    let top := bitsOfNat parallelBucketDepth b.1
    let r := hf.stageBucket cache b
    r.1 = KeyHash.prefixFromTopBits b.1 parallelBucketDepth ∧
      r.2.1 = treeNode hf (leaves hf (writeLeaves m b.2)) top ∧
      RightBelow hf cache r.2.2 (writeLeaves m b.2) top ∧ ∀ p, ¬top <+: p → r.2.2 p = none := by
  intro top r
  have hdepth : parallelBucketDepth ≤ 256 := by decide
  have htake := take_prefixFromTopBits b.1 hdepth
  have htops : ∀ c ∈ b.2, c.1 ∈ S ∧ c.1.bits.take parallelBucketDepth = top :=
    fun c hc => ⟨(hl c hc).1, take_bits_of_topBits (hl c hc).2⟩
  have hstart : RightBelow hf cache
      ((fun _ => none, hf.defaultHash parallelBucketDepth) : NodeOverlay H × H).1 m top :=
    ⟨fun p _ hp => h.branch p List.nil_prefix hp, h.leafLevel⟩
  obtain ⟨hright, hnone, hroot⟩ := stageBucket_loop hf hS hm htops hstart fun _ _ => rfl
  set done := b.2.foldl (fun acc e => hf.stageLeafNodeUpdateToDepth cache acc.1 e.1
    (hf.leafHash e.1 e.2) parallelBucketDepth)
    (fun _ => none, hf.defaultHash parallelBucketDepth) with hdone
  have hr : r = (KeyHash.prefixFromTopBits b.1 parallelBucketDepth, done.2,
      hf.stageNode done.1 (KeyHash.prefixFromTopBits b.1 parallelBucketDepth)
        parallelBucketDepth done.2) := rfl
  have hother : ∀ p, p ≠ top → r.2.2 p = done.1 p := by
    intro p hp
    rw [hr]
    exact stageNode_of_ne hf done.1 _ done.2 (by rw [htake]; exact hp)
  have hself : nodeValue hf cache r.2.2 top = done.2 := by
    rw [hr]
    have := stageNode_self hf done.1 cache (KeyHash.prefixFromTopBits b.1 parallelBucketDepth)
      hdepth done.2
    rwa [htake] at this
  have hlen : top.length = parallelBucketDepth := length_bitsOfNat _ _
  refine ⟨rfl, hroot hne, ⟨?_, ?_⟩, ?_⟩
  · intro p htop hp
    by_cases heq : p = top
    · rw [heq, hself, hroot hne]
    · rw [nodeValue_congr hf cache (hother p heq)]
      exact hright.branch p htop hp
  · intro p hp
    have heq : p ≠ top := by
      rintro rfl
      rw [hlen] at hp
      exact absurd hp (by decide)
    rw [nodeValue_congr hf cache (hother p heq)]
    exact hright.leafLevel p hp
  · intro p hp
    have heq : p ≠ top := by
      rintro rfl
      exact hp List.prefix_rfl
    rw [hother p heq]
    exact hnone p hp

lemma siblingKey_beside (k : KeyHash) (hd : d < n) (hn : n ≤ 256) :
    ¬k.bits.take n <+: siblingKey k d ∧ ¬siblingKey k d <+: k.bits.take n := by
  have hnot : ¬siblingKey k d <+: k.bits.take n := fun h =>
    siblingKey_not_ancestor k (by omega) (h.trans (List.take_prefix _ _))
  refine ⟨?_, hnot⟩
  intro h
  have hle := h.length_le
  rw [length_take_bits k hn, length_siblingKey k (by omega)] at hle
  have heq := h.eq_of_length (by rw [length_take_bits k hn, length_siblingKey k (by omega)]; omega)
  exact hnot (heq ▸ List.prefix_rfl)

/-- A bucket's result merged into the overlay of the buckets before it: the path from the
bucket to the root completes the extended overlay. -/
lemma mergeBucket_right {cache : NodeCache H} {overlay : NodeOverlay H}
    {r : KeyHash × H × NodeOverlay H} (hbase : RightBelow hf cache (fun _ => none) m [])
    (h : RightBelow hf cache overlay M [])
    (hagree : ∀ k : KeyHash, r.1.bits.take parallelBucketDepth <+: k.bits → M.find? k = m.find? k)
    (hl : ∀ c ∈ l, r.1.bits.take parallelBucketDepth <+: c.1.bits)
    (hroot : r.2.1 = treeNode hf (leaves hf (writeLeaves m l)) (r.1.bits.take parallelBucketDepth))
    (hright : RightBelow hf cache r.2.2 (writeLeaves m l) (r.1.bits.take parallelBucketDepth))
    (hnone : ∀ p, ¬r.1.bits.take parallelBucketDepth <+: p → r.2.2 p = none) :
    RightBelow hf cache (hf.stageNodeUpdateFromDepth cache (extendOverlay overlay r.2.2) r.1
      parallelBucketDepth r.2.1) (writeLeaves M l) [] := by
  have hdepth : parallelBucketDepth < 256 := by decide
  have hlen : (r.1.bits.take parallelBucketDepth).length = parallelBucketDepth :=
    length_take_bits r.1 hdepth.le
  obtain ⟨hinside, hbeside⟩ := extendOverlay_right hf hbase h hagree hl hright hnone
  generalize extendOverlay overlay r.2.2 = extended at hinside hbeside ⊢
  have hpath : PathStaged hf cache (leaves hf (writeLeaves M l)) r.1 0 parallelBucketDepth extended
      (hf.stagePath cache r.1 0 parallelBucketDepth extended r.2.1) := by
    apply stagePath_staged hf (by decide)
    · rw [Nat.zero_add, hroot, treeNode_writeLeaves_below hf l (by omega) hagree]
    · intro d _ hd
      obtain ⟨h₁, h₂⟩ := siblingKey_beside r.1 (show d < parallelBucketDepth by omega) hdepth.le
      apply hbeside _ h₁ h₂
      rw [length_siblingKey r.1 (by omega)]
      omega
  have hstage : hf.stageNodeUpdateFromDepth cache extended r.1 parallelBucketDepth r.2.1 =
      (hf.stagePath cache r.1 0 parallelBucketDepth extended r.2.1).1 := by
    unfold stageNodeUpdateFromDepth
    rw [if_neg (by decide)]
  rw [hstage]
  refine ⟨?_, ?_⟩
  · intro p _ hlt
    by_cases hon : p <+: r.1.bits ∧ p.length < parallelBucketDepth
    · have hstaged := hpath.staged p.length (Nat.zero_le _) (by omega)
      rwa [← List.prefix_iff_eq_take.mp hon.1] at hstaged
    · have hother : (hf.stagePath cache r.1 0 parallelBucketDepth extended r.2.1).1 p = extended p := by
        apply hpath.others
        rintro d _ hd rfl
        exact hon ⟨List.take_prefix _ _, by rw [length_take_bits r.1 (by omega)]; omega⟩
      rw [nodeValue_congr hf cache hother]
      by_cases hin : r.1.bits.take parallelBucketDepth <+: p
      · exact hinside.branch p hin hlt
      · apply hbeside p hin _ hlt
        intro hup
        have hle := hup.length_le
        rw [hlen] at hle
        rcases Nat.lt_or_ge p.length parallelBucketDepth with hlt' | hge
        · exact hon ⟨hup.trans (List.take_prefix _ _), hlt'⟩
        · have heq := hup.eq_of_length (by rw [hlen]; omega)
          exact hin (heq ▸ List.prefix_rfl)
  · intro p hp
    rw [nodeValue_congr hf cache (hpath.others p _), hinside.leafLevel p hp]
    rintro d _ hd rfl
    rw [length_take_bits r.1 (by omega)] at hp
    omega

lemma mergeBuckets_right {cache : NodeCache H} (hS : Separated S) (hm : KeysIn m S)
    (hbase : RightBelow hf cache (fun _ => none) m [])
    {buckets : List (Nat × List (KeyHash × Option Bytes))}
    (hindex : buckets.Pairwise fun a b => a.1 ≠ b.1)
    (hbuckets : ∀ b ∈ buckets, b.1 < 2 ^ parallelBucketDepth ∧ b.2 ≠ [] ∧
      ∀ c ∈ b.2, c.1 ∈ S ∧ c.1.topBits parallelBucketDepth = b.1)
    (hagree : ∀ b ∈ buckets, ∀ k : KeyHash,
      bitsOfNat parallelBucketDepth b.1 <+: k.bits → M.find? k = m.find? k)
    {overlay : NodeOverlay H} (h : RightBelow hf cache overlay M []) :
    RightBelow hf cache ((buckets.map (hf.stageBucket cache)).foldl
      (fun overlay (r : KeyHash × H × NodeOverlay H) => hf.stageNodeUpdateFromDepth cache
        (extendOverlay overlay r.2.2) r.1 parallelBucketDepth r.2.1) overlay)
      (writeLeaves M (buckets.flatMap (·.2))) [] := by
  induction buckets generalizing M overlay with
  | nil => exact h
  | cons b rest ih =>
    obtain ⟨hb, hrest⟩ := List.pairwise_cons.mp hindex
    obtain ⟨hlt, hne, hentries⟩ := hbuckets b List.mem_cons_self
    have htops : ∀ c ∈ b.2, bitsOfNat parallelBucketDepth b.1 <+: c.1.bits := fun c hc =>
      take_bits_of_topBits (hentries c hc).2 ▸ List.take_prefix _ _
    obtain ⟨hpre, hroot, hright, hnone⟩ := stageBucket_right hf hS hm hne hentries hbase
    have htake : (hf.stageBucket cache b).1.bits.take parallelBucketDepth =
        bitsOfNat parallelBucketDepth b.1 := by
      rw [hpre, take_prefixFromTopBits b.1 (by decide)]
    have hmerged := mergeBucket_right hf hbase h (htake ▸ hagree b List.mem_cons_self)
      (htake ▸ htops) (htake ▸ hroot) (htake ▸ hright) (htake ▸ hnone)
    rw [List.flatMap_cons, writeLeaves, List.foldl_append]
    apply ih hrest (fun b' hb' => hbuckets b' (List.mem_cons_of_mem _ hb')) _ hmerged
    intro b' hb' k hk
    have hkey : k.topBits parallelBucketDepth = b'.1 :=
      topBits_of_prefix (hbuckets b' (List.mem_cons_of_mem _ hb')).1 hk
    have hfree : ∀ c ∈ b.2, c.1 ≠ k := by
      rintro c hc rfl
      exact hb b' hb' ((hentries c hc).2.symm.trans hkey)
    show (writeLeaves M b.2).find? k = m.find? k
    rw [find?_writeLeaves_of_not_mem hfree, hagree b' (List.mem_cons_of_mem _ hb') k hk]

lemma mem_bucketsOf (l : List (KeyHash × Option Bytes)) (c : KeyHash × Option Bytes) :
    c ∈ (bucketsOf l).flatMap (·.2) ↔ c ∈ l := by
  simp only [bucketsOf, List.mem_flatMap, List.mem_filter, List.mem_map, List.mem_range]
  constructor
  · rintro ⟨b, ⟨⟨i, _, rfl⟩, _⟩, hc⟩
    exact (List.mem_filter.mp hc).1
  · intro hc
    have hmem : c ∈ l.filter fun e =>
        decide (e.1.topBits parallelBucketDepth = c.1.topBits parallelBucketDepth) :=
      List.mem_filter.mpr ⟨hc, by simp⟩
    refine ⟨_, ⟨⟨c.1.topBits parallelBucketDepth, topBits_lt c.1, rfl⟩, ?_⟩, hmem⟩
    simpa using List.ne_nil_of_mem hmem

lemma parallel_root (cache : NodeCache H) (l : List (KeyHash × Option Bytes)) :
    (hf.rootHashWithSortedChangesParallel cache l).1 = hf.nodeHashFromOverlay cache
      (hf.rootHashWithSortedChangesParallel cache l).2 KeyHash.zero 0 := by
  unfold rootHashWithSortedChangesParallel
  dsimp only

/-- The parallel computation stages the same tree as the sequential one. -/
lemma parallel_right {cache : NodeCache H} (hS : Separated S) (hm : KeysIn m S) (hone : OneEach l)
    (hl : ∀ c ∈ l, c.1 ∈ S) (h : RightBelow hf cache (fun _ => none) m []) :
    RightBelow hf cache (hf.rootHashWithSortedChangesParallel cache l).2 (writeLeaves m l) [] := by
  rw [writeLeaves_congr hone (fun c => (mem_bucketsOf l c).symm) m]
  apply mergeBuckets_right hf hS hm h _ _ (fun _ _ _ _ => rfl) h
  · apply List.Pairwise.filter
    apply List.pairwise_map.mpr
    exact List.nodup_range.imp fun hne => hne
  · intro b hb
    obtain ⟨hmap, hne⟩ := List.mem_filter.mp hb
    obtain ⟨i, hi, rfl⟩ := List.mem_map.mp hmap
    refine ⟨List.mem_range.mp hi, by simpa using hne, ?_⟩
    intro c hc
    obtain ⟨hc, htop⟩ := List.mem_filter.mp hc
    exact ⟨hl c hc, by simpa using htop⟩

end Kanari.Proofs

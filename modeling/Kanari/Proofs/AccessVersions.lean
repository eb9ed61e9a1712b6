import Kanari.AccessVersions

/-!
# Snapshots of access versions

A version counts the calls that wrote the key, so a snapshot is current exactly when none of the
calls since wrote a key of its access set.
-/

namespace Kanari.Proofs

open Lib AccessVersions

inductive AccessOp where
  | capture (access : StateAccessSet)
  | advance (access : StateAccessSet)
  | commit

def AccessOp.next (persist : Bool) (c : AccessVersions) : AccessOp → AccessVersions
  | .capture _ => c
  | .advance access => (advanceAccessVersions persist c access).1
  | .commit => c.commit

def accessRun (persist : Bool) (c : AccessVersions) (ops : List AccessOp) : AccessVersions :=
  ops.foldl (AccessOp.next persist) c

/-- The keys before the first whose counter is full. -/
def roomyKeys (c : AccessVersions) (keys : List String) : List String :=
  keys.takeWhile fun key => versionOf c.versions key + 1 < u64Bound

/-- The keys an advance from this state writes: all of the set's, up to the first whose counter is
full, or none when the epoch is. -/
def writtenKeys (c : AccessVersions) (access : StateAccessSet) : List String :=
  if c.epoch + 1 < u64Bound then roomyKeys c (OrdSet.elems access.writes) else []

/-- One call of the advance, with the keys it wrote. -/
structure AdvanceCall where
  access : StateAccessSet
  written : List String
  result : Except String Unit

def advancesOf (persist : Bool) (c : AccessVersions) : List AccessOp → List AdvanceCall
  | [] => []
  | .capture _ :: ops => advancesOf persist c ops
  | .advance access :: ops =>
    ⟨access, writtenKeys c access, (advanceAccessVersions persist c access).2⟩ ::
      advancesOf persist (advanceAccessVersions persist c access).1 ops
  | .commit :: ops => advancesOf persist c.commit ops

lemma versionOf_insert (m : OrdMap String Nat) (key k : String) (n : Nat) :
    versionOf (m.insert key n) k = if k = key then n else versionOf m k := by
  unfold versionOf
  rw [OrdMap.find?_insert]
  split_ifs <;> rfl

variable {persist : Bool} {c : AccessVersions} {keys : List String}

lemma roomyKeys_saveVersion {key : String} {n : Nat} (hkey : key ∉ keys) :
    roomyKeys (saveVersion persist c key n) keys = roomyKeys c keys := by
  induction keys with
  | nil => rfl
  | cons k keys ih =>
    obtain ⟨hk, hrest⟩ := not_or.mp (mt List.mem_cons.mpr hkey)
    have hsame : versionOf (saveVersion persist c key n).versions k = versionOf c.versions k := by
      rw [saveVersion, versionOf_insert, if_neg (Ne.symm hk)]
    unfold roomyKeys at ih ⊢
    rw [List.takeWhile_cons, List.takeWhile_cons, hsame, ih hrest]

lemma bumpKeys_versions (persist : Bool) (hkeys : keys.Nodup) (c : AccessVersions) (k : String) :
    versionOf (bumpKeys persist c keys).1.versions k =
      versionOf c.versions k + if k ∈ roomyKeys c keys then 1 else 0 := by
  induction keys generalizing c with
  | nil => rfl
  | cons key keys ih =>
    obtain ⟨hkey, hkeys⟩ := List.nodup_cons.mp hkeys
    rw [bumpKeys, checkedAdd]
    by_cases hroom : versionOf c.versions key + 1 < u64Bound
    · rw [if_pos hroom]
      dsimp only
      rw [ih hkeys, roomyKeys_saveVersion hkey, saveVersion, versionOf_insert]
      have hhead : roomyKeys c (key :: keys) = key :: roomyKeys c keys := by
        simp [roomyKeys, hroom]
      rw [hhead]
      have hnot : key ∉ roomyKeys c keys := fun h => hkey ((List.takeWhile_subset _ h))
      by_cases hk : k = key
      · subst hk
        simp [hnot]
      · simp [hk]
    · rw [if_neg hroom]
      simp [roomyKeys, hroom]

lemma bumpKeys_ok_iff (persist : Bool) (hkeys : keys.Nodup) (c : AccessVersions) :
    (bumpKeys persist c keys).2 = .ok () ↔ roomyKeys c keys = keys := by
  induction keys generalizing c with
  | nil => simp [bumpKeys, roomyKeys]
  | cons key keys ih =>
    obtain ⟨hkey, hkeys⟩ := List.nodup_cons.mp hkeys
    rw [bumpKeys, checkedAdd]
    by_cases hroom : versionOf c.versions key + 1 < u64Bound
    · rw [if_pos hroom]
      dsimp only
      rw [ih hkeys, roomyKeys_saveVersion hkey]
      simp [roomyKeys, hroom]
    · rw [if_neg hroom]
      simp [roomyKeys, hroom]

lemma elems_of_entries_empty {s : OrdSet String} (h : s.entries.isEmpty = true) :
    OrdSet.elems s = [] := by
  simp [OrdSet.elems, OrdMap.keys, List.isEmpty_iff.mp h]

lemma advance_versions (persist : Bool) (c : AccessVersions) (access : StateAccessSet) (k : String) :
    versionOf (advanceAccessVersions persist c access).1.versions k =
      versionOf c.versions k + if k ∈ writtenKeys c access then 1 else 0 := by
  unfold advanceAccessVersions writtenKeys
  by_cases hempty : access.writes.entries.isEmpty = true
  · simp [hempty, elems_of_entries_empty hempty, roomyKeys]
  · rw [if_neg hempty, checkedAdd]
    by_cases hepoch : c.epoch + 1 < u64Bound
    · rw [if_pos hepoch, if_pos hepoch]
      exact bumpKeys_versions persist (OrdSet.nodup_elems _) { c with epoch := c.epoch + 1 } k
    · rw [if_neg hepoch, if_neg hepoch]
      rfl

variable {access : StateAccessSet}

lemma writtenKeys_of_ok (h : (advanceAccessVersions persist c access).2 = .ok ()) :
    writtenKeys c access = OrdSet.elems access.writes := by
  unfold advanceAccessVersions at h
  unfold writtenKeys
  by_cases hempty : access.writes.entries.isEmpty = true
  · simp [elems_of_entries_empty hempty, roomyKeys]
  · rw [if_neg hempty, checkedAdd] at h
    split_ifs at h ⊢ with hepoch
    exact (bumpKeys_ok_iff persist (OrdSet.nodup_elems _) { c with epoch := c.epoch + 1 }).mp h

lemma accessRun_versions (persist : Bool) (ops : List AccessOp) (c : AccessVersions) (k : String) :
    versionOf (accessRun persist c ops).versions k =
      versionOf c.versions k + (advancesOf persist c ops).countP (fun call => k ∈ call.written) := by
  induction ops generalizing c with
  | nil => rfl
  | cons op ops ih =>
    cases op with
    | capture access => exact ih c
    | commit => exact ih c.commit
    | advance access =>
      have hstep := ih (advanceAccessVersions persist c access).1
      rw [advance_versions] at hstep
      rw [advancesOf, List.countP_cons]
      simp only [decide_eq_true_eq]
      rw [show accessRun persist c (.advance access :: ops) =
        accessRun persist (advanceAccessVersions persist c access).1 ops from rfl, hstep]
      omega

lemma advancesOf_ok {ops : List AccessOp} {call : AdvanceCall}
    (hcall : call ∈ advancesOf persist c ops) (hok : call.result = .ok ()) :
    call.written = OrdSet.elems call.access.writes := by
  induction ops generalizing c with
  | nil => simp [advancesOf] at hcall
  | cons op ops ih =>
    cases op with
    | capture access => exact ih hcall
    | commit => exact ih hcall
    | advance access =>
      rcases List.mem_cons.mp hcall with rfl | hrest
      · exact writtenKeys_of_ok hok
      · exact ih hrest

lemma versionOf_capture {k : String} (hk : k ∈ accessedKeys access) :
    versionOf (captureAccessVersions c access) k = versionOf c.versions k := by
  unfold captureAccessVersions OrdMap.ofList
  rcases OrdMap.find?_foldl_insert OrdMap.empty
    ((accessedKeys access).map fun key => (key, versionOf c.versions key)) k with
    ⟨-, hfree⟩ | ⟨v, hv, hfind⟩
  · exact absurd rfl (hfree _ (List.mem_map_of_mem hk))
  · obtain ⟨key, -, heq⟩ := List.mem_map.mp hv
    rw [Prod.mk.injEq] at heq
    rw [versionOf, hfind, Option.getD_some, ← heq.2, heq.1]

lemma mem_accessedKeys {k : String} :
    k ∈ accessedKeys access ↔ access.reads.contains k = true ∨ access.writes.contains k = true := by
  rw [accessedKeys, List.mem_append, OrdSet.mem_elems, OrdSet.mem_elems]

/-- A snapshot is current exactly when no advance since it was taken wrote a key of its access set,
and a successful advance writes all the keys its own set writes. -/
theorem access_snapshot_current_iff (persist : Bool) (c : AccessVersions)
    (before after : List AccessOp) (access : StateAccessSet) :
    let captured := accessRun persist c before
    let now := accessRun persist c (before ++ .capture access :: after)
    (now.validateAccessSnapshot (captured.captureAccessVersions access) access = true ↔
      ∀ call ∈ advancesOf persist captured after, ∀ k ∈ call.written,
        ¬(access.reads.contains k = true ∨ access.writes.contains k = true)) ∧
    (∀ call ∈ advancesOf persist captured after, call.result = .ok () →
      call.written = OrdSet.elems call.access.writes) ∧
    ∀ k, versionOf captured.versions k ≤ versionOf now.versions k := by
  intro captured now
  have hnow : now = accessRun persist captured after := by
    simp [now, captured, accessRun, AccessOp.next]
  refine ⟨?_, fun call hcall hok => advancesOf_ok hcall hok, fun k => ?_⟩
  · have hkeys : now.validateAccessSnapshot (captured.captureAccessVersions access) access = true ↔
        ∀ k ∈ accessedKeys access,
          (advancesOf persist captured after).countP (fun call => k ∈ call.written) = 0 := by
      unfold validateAccessSnapshot
      rw [List.all_eq_true]
      refine forall₂_congr fun k hk => ?_
      rw [beq_iff_eq, versionOf_capture hk, hnow, accessRun_versions persist after]
      omega
    rw [hkeys]
    constructor
    · intro hnone call hcall k hk haccess
      have hzero := List.countP_eq_zero.mp (hnone k (mem_accessedKeys.mpr haccess)) call hcall
      simp [hk] at hzero
    · intro hfree k hk
      apply List.countP_eq_zero.mpr
      intro call hcall hwrote
      exact hfree call hcall k (of_decide_eq_true hwrote) (mem_accessedKeys.mp hk)
  · rw [hnow, accessRun_versions persist after]
    exact Nat.le_add_right _ _

/-- The versions are the records of the overlay, over those of the store, over the older one. -/
def Tracked (older : OrdMap String Nat) (c : AccessVersions) : Prop :=
  ∀ k, c.versions.find? k = ((c.overlay.find? k).or (c.stored.find? k)).or (older.find? k)

variable {older : OrdMap String Nat}

lemma find?_insertAll (m records : OrdMap String Nat) (k : String) :
    (insertAll m records).find? k = (records.find? k).or (m.find? k) := by
  rcases OrdMap.find?_foldl_insert m records.entries k with ⟨hfind, hfree⟩ | ⟨v, hv, hfind⟩
  · have hnone : records.find? k = none :=
      Option.eq_none_iff_forall_not_mem.mpr fun v hv => hfree _ (OrdMap.mem_entries.mpr hv) rfl
    rw [insertAll, hfind, hnone, Option.none_or]
  · rw [insertAll, hfind, OrdMap.mem_entries.mp hv, Option.some_or]

lemma tracked_load (older stored : OrdMap String Nat) : Tracked older (loadAccessVersions older stored) := by
  intro k
  rw [loadAccessVersions, find?_insertAll]
  rfl

lemma Tracked.commit (h : Tracked older c) : Tracked older c.commit := by
  intro k
  simp only [AccessVersions.commit, find?_insertAll]
  exact h k

lemma bumpKeys_stored (h : Tracked older c) :
    Tracked older (bumpKeys true c keys).1 ∧ (bumpKeys true c keys).1.stored = c.stored := by
  induction keys generalizing c with
  | nil => exact ⟨h, rfl⟩
  | cons key keys ih =>
    unfold bumpKeys
    split
    · exact ⟨h, rfl⟩
    · refine ih fun k => ?_
      simp only [saveVersion, if_true, OrdMap.find?_insert]
      split_ifs
      · rfl
      · exact h k

lemma advance_stored (h : Tracked older c) (access : StateAccessSet) :
    Tracked older (advanceAccessVersions true c access).1 ∧
      (advanceAccessVersions true c access).1.stored = c.stored := by
  unfold advanceAccessVersions
  split_ifs
  · exact ⟨h, rfl⟩
  · split
    · exact ⟨h, rfl⟩
    · exact bumpKeys_stored (c := { c with epoch := _ }) h

lemma tracked_run (h : Tracked older c) (ops : List AccessOp) : Tracked older (accessRun true c ops) := by
  induction ops generalizing c with
  | nil => exact h
  | cons op ops ih =>
    cases op with
    | capture => exact ih h
    | advance access => exact ih (advance_stored h access).1
    | commit => exact ih h.commit

lemma run_stored (h : Tracked older c) {ops : List AccessOp} (hops : .commit ∉ ops) :
    (accessRun true c ops).stored = c.stored := by
  induction ops generalizing c with
  | nil => rfl
  | cons op ops ih =>
    obtain ⟨hop, hrest⟩ := not_or.mp (mt List.mem_cons.mpr hops)
    cases op with
    | capture => exact ih h hrest
    | advance access => exact (ih (advance_stored h access).1 hrest).trans (advance_stored h access).2
    | commit => exact absurd rfl hop

/-- A restart finds every version as it was at the last commit, whatever was advanced since. -/
theorem restart_keeps_committed (older stored : OrdMap String Nat) (before after : List AccessOp)
    (hafter : .commit ∉ after) (k : String) :
    let committed := accessRun true (loadAccessVersions older stored) (before ++ [.commit])
    let now := accessRun true committed after
    versionOf (loadAccessVersions older now.stored).versions k = versionOf committed.versions k := by
  intro committed now
  have htracked : Tracked older committed := tracked_run (tracked_load older stored) _
  have hnow : now.stored = committed.stored := run_stored htracked hafter
  have hoverlay : committed.overlay = .empty := by
    simp only [committed, accessRun, List.foldl_concat]
    rfl
  have hversions := htracked k
  rw [hoverlay] at hversions
  unfold versionOf
  rw [hnow, hversions, tracked_load older committed.stored k]
  rfl

def writesOf (key : String) : StateAccessSet := { writes := OrdSet.add .empty key }

/-- The second advance was not committed, and the restart does not see it. -/
theorem restart_forgets_uncommitted :
    let committed := accessRun true {} [.advance (writesOf "a"), .commit]
    let now := accessRun true committed [.advance (writesOf "a")]
    versionOf now.versions "a" = 2 ∧
      versionOf (loadAccessVersions .empty now.stored).versions "a" = 1 := by
  refine ⟨rfl, ?_⟩
  exact restart_keeps_committed .empty .empty [.advance (writesOf "a")] [.advance (writesOf "a")] (by simp) "a"

end Kanari.Proofs

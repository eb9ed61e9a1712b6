import Kanari.DenyList
import Mathlib.Data.List.Nodup

/-!
# Who can change a deny list

`deny_list_add` and `deny_list_remove` take any list together with a capability for any token.
-/

namespace Kanari.Proofs

open Lib Move

variable {Tok : Type}

def listsAfter (lists : List DenyList) (calls : List (DenyListCall Tok)) : List DenyList :=
  calls.foldl (fun ls c => (c.run ls).toOption.getD ls) lists

/-- The calls of code that holds no capability for `T`. -/
def WithoutCap (T : Tok) (calls : List (DenyListCall Tok)) : Prop :=
  ∀ c ∈ calls, ∀ cap, c.cap? = some cap → cap.token ≠ T

/-- The call adds only who is a member of the list `t`, and removes only who is none. -/
def KeepsMembers (t : Nat) (d : DenyList) : DenyListCall Tok → Prop
  | .add list _ addr => list = t → addr ∈ d.addresses
  | .remove list _ addr => list = t → addr ∉ d.addresses
  | _ => True

variable {d : DenyList} {lists : List DenyList} {t : Nat} {c : DenyListCall Tok}

lemma denyListAdd_nodup (hd : d.addresses.Nodup) (cap : DenyCap Tok) (addr : AccountAddress) :
    (d.denyListAdd cap addr).addresses.Nodup := by
  unfold DenyList.denyListAdd
  split
  · exact hd
  · rename_i hnew
    refine List.nodup_append.mpr ⟨hd, List.nodup_singleton _, ?_⟩
    rintro a ha b hb rfl
    exact hnew (List.mem_singleton.mp hb ▸ ha)

lemma mem_denyListAdd {cap : DenyCap Tok} {addr a : AccountAddress} :
    a ∈ (d.denyListAdd cap addr).addresses ↔ a ∈ d.addresses ∨ a = addr := by
  unfold DenyList.denyListAdd
  split
  · rename_i hold
    constructor
    · exact .inl
    · rintro (ha | rfl)
      · exact ha
      · exact hold
  · simp

lemma mem_denyListRemove (hd : d.addresses.Nodup) {cap : DenyCap Tok} {addr a : AccountAddress} :
    a ∈ (d.denyListRemove cap addr).addresses ↔ a ≠ addr ∧ a ∈ d.addresses :=
  hd.mem_erase_iff

def writeList (t : Nat) (d : DenyList) : DenyListCall Tok → DenyList
  | .add list cap addr => if list = t then d.denyListAdd cap addr else d
  | .remove list cap addr => if list = t then d.denyListRemove cap addr else d
  | _ => d

lemma getElem?_set_of_some {i : Nat} {e : DenyList} (f : DenyList → DenyList)
    (ht : lists[t]? = some d) (hi : lists[i]? = some e) :
    (lists.set i (f e))[t]? = some (if i = t then f d else d) := by
  by_cases heq : i = t
  · subst heq
    obtain rfl : e = d := Option.some.inj (hi.symm.trans ht)
    obtain ⟨hlt, _⟩ := List.getElem?_eq_some_iff.mp ht
    rw [List.getElem?_set_self hlt, if_pos rfl]
  · rw [List.getElem?_set_ne heq, if_neg heq, ht]

lemma run_ok {lists' : List DenyList} (ht : lists[t]? = some d) (h : c.run lists = .ok lists') :
    lists'[t]? = some (writeList t d c) := by
  cases c with
  | newDenylist =>
    cases h
    obtain ⟨hlt, _⟩ := List.getElem?_eq_some_iff.mp ht
    rw [List.getElem?_append_left hlt, ht]
    rfl
  | add list cap addr =>
    obtain ⟨e, he, h⟩ := bind_eq_ok.mp h
    cases h
    exact getElem?_set_of_some (·.denyListAdd cap addr) ht (orError_eq_ok.mp he)
  | remove list cap addr =>
    obtain ⟨e, he, h⟩ := bind_eq_ok.mp h
    cases h
    exact getElem?_set_of_some (·.denyListRemove cap addr) ht (orError_eq_ok.mp he)
  | contains list addr =>
    obtain ⟨_, _, h⟩ := bind_eq_ok.mp h
    cases h
    exact ht
  | length list =>
    obtain ⟨_, _, h⟩ := bind_eq_ok.mp h
    cases h
    exact ht
  | splitAndTransferChecked token list c amount recipient sender =>
    obtain ⟨_, _, h⟩ := bind_eq_ok.mp h
    obtain ⟨_, _, h⟩ := bind_eq_ok.mp h
    cases h
    exact ht

lemma run_new {lists' : List DenyList} (hnone : lists[t]? = none) (hsome : lists'[t]? = some d)
    (h : c.run lists = .ok lists') : d = DenyList.newDenylist := by
  have hlt : lists.length ≤ t := List.getElem?_eq_none_iff.mp hnone
  obtain ⟨hlt', hd⟩ := List.getElem?_eq_some_iff.mp hsome
  cases c with
  | newDenylist =>
    cases h
    have heq : t = lists.length := by
      simp only [List.length_append, List.length_singleton] at hlt'
      omega
    subst heq
    simpa using hd.symm
  | add list cap addr =>
    obtain ⟨e, _, h⟩ := bind_eq_ok.mp h
    cases h
    simp only [List.length_set] at hlt'
    omega
  | remove list cap addr =>
    obtain ⟨e, _, h⟩ := bind_eq_ok.mp h
    cases h
    simp only [List.length_set] at hlt'
    omega
  | contains list addr =>
    obtain ⟨_, _, h⟩ := bind_eq_ok.mp h
    cases h
    omega
  | length list =>
    obtain ⟨_, _, h⟩ := bind_eq_ok.mp h
    cases h
    omega
  | splitAndTransferChecked token list c amount recipient sender =>
    obtain ⟨_, _, h⟩ := bind_eq_ok.mp h
    obtain ⟨_, _, h⟩ := bind_eq_ok.mp h
    cases h
    omega

lemma run_error {e : Abort} (ht : lists[t]? = some d) (h : c.run lists = .error e) :
    writeList t d c = d := by
  cases c with
  | add list cap addr =>
    refine if_neg ?_
    rintro rfl
    rw [DenyListCall.run, ht] at h
    cases h
  | remove list cap addr =>
    refine if_neg ?_
    rintro rfl
    rw [DenyListCall.run, ht] at h
    cases h
  | _ => rfl

lemma writeList_nodup (hd : d.addresses.Nodup) (c : DenyListCall Tok) :
    (writeList t d c).addresses.Nodup := by
  cases c with
  | add list cap addr =>
    unfold writeList
    dsimp only
    split
    · exact denyListAdd_nodup hd cap addr
    · exact hd
  | remove list cap addr =>
    unfold writeList
    dsimp only
    split
    · exact hd.erase addr
    · exact hd
  | _ => exact hd

lemma writeList_members_iff (hd : d.addresses.Nodup) (c : DenyListCall Tok) :
    (∀ a, a ∈ (writeList t d c).addresses ↔ a ∈ d.addresses) ↔ KeepsMembers t d c := by
  cases c with
  | add list cap addr =>
    unfold writeList KeepsMembers
    dsimp only
    by_cases heq : list = t
    · simp only [if_pos heq, mem_denyListAdd]
      constructor
      · exact fun hsame _ => (hsame addr).mp (.inr rfl)
      · intro hold a
        constructor
        · rintro (ha | rfl)
          · exact ha
          · exact hold heq
        · exact .inl
    · simp [heq]
  | remove list cap addr =>
    unfold writeList KeepsMembers
    dsimp only
    by_cases heq : list = t
    · simp only [if_pos heq, mem_denyListRemove hd]
      constructor
      · exact fun hsame _ hmem => ((hsame addr).mpr hmem).1 rfl
      · intro hnone a
        refine ⟨And.right, fun ha => ⟨?_, ha⟩⟩
        rintro rfl
        exact hnone heq ha
    · simp [heq]
  | _ => simp [writeList, KeepsMembers]

lemma listsAfter_cons (ht : lists[t]? = some d) (c : DenyListCall Tok) :
    ∃ lists', lists'[t]? = some (writeList t d c) ∧
      ∀ calls, listsAfter lists (c :: calls) = listsAfter lists' calls := by
  cases h : c.run lists with
  | ok lists' =>
    refine ⟨lists', run_ok ht h, fun calls => ?_⟩
    simp [listsAfter, h, Except.toOption]
  | error e =>
    refine ⟨lists, by rw [run_error ht h, ht], fun calls => ?_⟩
    simp [listsAfter, h, Except.toOption]

def IsMember (lists : List DenyList) (t : Nat) (a : AccountAddress) : Prop :=
  ∃ d, lists[t]? = some d ∧ a ∈ d.addresses

lemma isMember_iff (ht : lists[t]? = some d) (a : AccountAddress) :
    IsMember lists t a ↔ a ∈ d.addresses := by
  simp [IsMember, ht]

lemma keepsMembers_congr {d' : DenyList} (h : ∀ a, a ∈ d'.addresses ↔ a ∈ d.addresses)
    (c : DenyListCall Tok) : KeepsMembers t d' c ↔ KeepsMembers t d c := by
  cases c <;> simp [KeepsMembers, h]

/-- All prefixes of a sequence of calls keep the members of a list if and only if every call
keeps them. -/
lemma members_kept_iff (ht : lists[t]? = some d) (hd : d.addresses.Nodup)
    (calls : List (DenyListCall Tok)) :
    (∀ pre, pre <+: calls → ∀ a, IsMember (listsAfter lists pre) t a ↔ a ∈ d.addresses) ↔
      ∀ c ∈ calls, KeepsMembers t d c := by
  induction calls generalizing lists d with
  | nil =>
    constructor
    · exact fun _ c hc => nomatch hc
    · intro _ pre hpre a
      rw [List.prefix_nil.mp hpre]
      exact isMember_iff ht a
  | cons c calls ih =>
    obtain ⟨lists', ht', hafter⟩ := listsAfter_cons ht c
    have hrest := ih ht' (writeList_nodup hd c)
    -- Once the first call keeps the members, the rest is about the same set of addresses.
    have hsplit : (∀ a, a ∈ (writeList t d c).addresses ↔ a ∈ d.addresses) →
        ((∀ pre, pre <+: calls → ∀ a, IsMember (listsAfter lists' pre) t a ↔ a ∈ d.addresses) ↔
          ∀ c' ∈ calls, KeepsMembers t d c') := by
      intro hsame
      simp only [hsame, keepsMembers_congr hsame] at hrest
      exact hrest
    constructor
    · intro hkept
      have hsame : ∀ a, a ∈ (writeList t d c).addresses ↔ a ∈ d.addresses := by
        intro a
        have hone := hkept [c] (by simp) a
        rw [hafter []] at hone
        exact (isMember_iff ht' a).symm.trans hone
      have hcalls : ∀ c' ∈ calls, KeepsMembers t d c' := by
        refine (hsplit hsame).mp fun pre hpre a => ?_
        rw [← hafter pre]
        exact hkept (c :: pre) (List.cons_prefix_cons.mpr ⟨rfl, hpre⟩) a
      exact List.forall_mem_cons.mpr ⟨(writeList_members_iff hd c).mp hsame, hcalls⟩
    · intro hkeep
      obtain ⟨hc, hcalls⟩ := List.forall_mem_cons.mp hkeep
      have hsame := (writeList_members_iff hd c).mpr hc
      intro pre hpre a
      cases pre with
      | nil => exact isMember_iff ht a
      | cons c' pre =>
        obtain ⟨rfl, htail⟩ := List.cons_prefix_cons.mp hpre
        rw [hafter pre]
        exact (hsplit hsame).mpr hcalls pre htail a

lemma listsAfter_nodup (calls : List (DenyListCall Tok)) (h : ∀ d ∈ lists, d.addresses.Nodup) :
    ∀ d ∈ listsAfter lists calls, d.addresses.Nodup := by
  refine foldl_invariant (fun ls : List DenyList => ∀ d ∈ ls, d.addresses.Nodup) ?_ calls h
  intro ls c hls d hd
  cases hrun : c.run ls with
  | error e =>
    simp only [hrun, Except.toOption, Option.getD_none] at hd
    exact hls d hd
  | ok ls' =>
    simp only [hrun, Except.toOption, Option.getD_some] at hd
    obtain ⟨t, ht⟩ := List.mem_iff_getElem?.mp hd
    cases hold : ls[t]? with
    | some d₀ =>
      obtain rfl : writeList t d₀ c = d := Option.some.inj ((run_ok hold hrun).symm.trans ht)
      exact writeList_nodup (hls d₀ (List.mem_of_getElem? hold)) c
    | none =>
      rw [run_new hold ht hrun]
      exact List.nodup_nil

/-- Code without a capability for `T` never changes the members of the list that `T` is regulated by,
if and only if its additions to the list name members and its removals none. -/
theorem denyList_members_kept_iff {T : Tok} (setup calls : List (DenyListCall Tok)) (t : Nat)
    (ht : t < (listsAfter [] setup).length) (_hcaps : WithoutCap T calls) :
    (∀ pre, pre <+: calls → ∀ a,
      IsMember (listsAfter (listsAfter [] setup) pre) t a ↔ IsMember (listsAfter [] setup) t a) ↔
    ∀ c ∈ calls, KeepsMembers t (listsAfter [] setup)[t] c := by
  have hget : (listsAfter [] setup)[t]? = some (listsAfter [] setup)[t] :=
    List.getElem?_eq_getElem ht
  have hnodup : (listsAfter [] setup)[t].addresses.Nodup :=
    listsAfter_nodup setup (fun _ hd => absurd hd List.not_mem_nil) _ (List.getElem_mem ht)
  simp only [isMember_iff hget]
  exact members_kept_iff hget hnodup calls

/-! The owner of token `true` puts address 7 on its list; the holder of a capability for token
`false` has the list at hand. -/

def regulatedSetup : List (DenyListCall Bool) :=
  [.newDenylist, .add 0 ⟨true⟩ (.ofByte 7)]

theorem denyList_members_kept_iff_member :
    (∀ pre, pre <+: [DenyListCall.add 0 ⟨false⟩ (.ofByte 7)] → ∀ a,
      IsMember (listsAfter (listsAfter [] regulatedSetup) pre) 0 a ↔
        IsMember (listsAfter [] regulatedSetup) 0 a) ∧
    ∀ cap, (DenyListCall.add 0 (⟨false⟩ : DenyCap Bool) (.ofByte 7)).cap? = some cap →
      cap.token ≠ true := by
  have hcaps : WithoutCap true [DenyListCall.add 0 ⟨false⟩ (.ofByte 7)] := by
    rintro c hc cap hcap
    obtain rfl := List.mem_singleton.mp hc
    cases hcap
    decide
  refine ⟨(denyList_members_kept_iff regulatedSetup _ 0 (by decide) hcaps).mpr ?_,
    hcaps _ (List.mem_singleton_self _)⟩
  intro c hc
  obtain rfl := List.mem_singleton.mp hc
  intro _
  decide +kernel

/-- With its capability for another token the holder takes address 7 off the list, and the
regulated transfer of token `true` to it goes through. -/
theorem denyList_changed_without_cap :
    WithoutCap true [DenyListCall.remove 0 ⟨false⟩ (.ofByte 7)] ∧
    IsMember (listsAfter [] regulatedSetup) 0 (.ofByte 7) ∧
    ¬IsMember (listsAfter (listsAfter [] regulatedSetup)
      [DenyListCall.remove 0 ⟨false⟩ (.ofByte 7)]) 0 (.ofByte 7) ∧
    DenyListCall.run (listsAfter [] regulatedSetup)
      (.splitAndTransferChecked true 0 ⟨⟨100⟩⟩ 40 (.ofByte 7) (.ofByte 1)) =
        .error Pay.EDENIED ∧
    DenyListCall.run (listsAfter (listsAfter [] regulatedSetup)
      [DenyListCall.remove 0 ⟨false⟩ (.ofByte 7)])
      (.splitAndTransferChecked true 0 ⟨⟨100⟩⟩ 40 (.ofByte 7) (.ofByte 1)) =
        .ok [DenyList.newDenylist] := by
  refine ⟨?_, ⟨⟨[.ofByte 7]⟩, by decide +kernel, by decide⟩, ?_, by decide +kernel, by decide +kernel⟩
  · rintro c hc cap hcap
    obtain rfl := List.mem_singleton.mp hc
    cases hcap
    decide
  · have hempty : (listsAfter (listsAfter [] regulatedSetup)
        [DenyListCall.remove 0 ⟨false⟩ (.ofByte 7)])[0]? = some ⟨[]⟩ := by decide +kernel
    rw [isMember_iff hempty]
    exact List.not_mem_nil

end Kanari.Proofs

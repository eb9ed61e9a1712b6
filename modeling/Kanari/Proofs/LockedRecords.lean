import Kanari.Apply

/-!
# The records of locked coins

`lockedWhere` adds up the records whose holder and token satisfy a condition.
-/

namespace Kanari.Proofs

open Lib StateManager

def lockedWhere (p : String → String → Bool) (records : List ObjectLockedCoinRecord) : Nat :=
  ((records.filter fun r => p r.holderObjectId r.tokenType).map (·.amount)).sum

def lockedAmount (tokenType : String) (records : List ObjectLockedCoinRecord) : Nat :=
  ((records.filter fun r => r.tokenType == tokenType).map (·.amount)).sum

def UniqueRecords (records : List ObjectLockedCoinRecord) : Prop :=
  (records.map fun r => (r.holderObjectId, r.tokenType)).Nodup

section Sums

variable {p q : String → String → Bool} (records : List ObjectLockedCoinRecord) (n : Nat)

lemma lockedWhere_cons (r : ObjectLockedCoinRecord) :
    lockedWhere p (r :: records) =
      (if p r.holderObjectId r.tokenType then r.amount else 0) + lockedWhere p records := by
  unfold lockedWhere
  cases h : p r.holderObjectId r.tokenType <;> simp [h]

lemma lockedAmount_eq (t : String) :
    lockedAmount t records = lockedWhere (fun _ t' => t' == t) records := rfl

lemma lockedWhere_positive :
    lockedWhere p (records.filter fun r => decide (0 < r.amount)) = lockedWhere p records := by
  induction records with
  | nil => rfl
  | cons r records ih =>
    rw [List.filter_cons, lockedWhere_cons]
    split_ifs with hpos
    · rw [lockedWhere_cons, ih, if_pos ‹_›]
    · rw [lockedWhere_cons, ih, if_neg ‹_›]
    all_goals
      have hzero : r.amount = 0 := by simpa using hpos
      omega

lemma lockedWhere_split :
    lockedWhere p records =
      lockedWhere (fun h t => p h t && q h t) records +
        lockedWhere (fun h t => p h t && !q h t) records := by
  induction records with
  | nil => rfl
  | cons r records ih =>
    simp only [lockedWhere_cons, ih]
    cases p r.holderObjectId r.tokenType <;> cases q r.holderObjectId r.tokenType <;> simp <;> omega

lemma releaseFrom_takes :
    (releaseFrom (fun r => q r.holderObjectId r.tokenType) n records).1 =
        n - lockedWhere q records ∧
      lockedWhere q (releaseFrom (fun r => q r.holderObjectId r.tokenType) n records).2 =
        lockedWhere q records - n := by
  induction records generalizing n with
  | nil => exact ⟨rfl, (Nat.zero_sub n).symm⟩
  | cons r records ih =>
    unfold releaseFrom
    rw [lockedWhere_cons]
    cases hq : q r.holderObjectId r.tokenType with
    | true =>
      obtain ⟨hleft, hsum⟩ := ih (n - min r.amount n)
      simp only [if_true, lockedWhere_cons, hq]
      omega
    | false =>
      obtain ⟨hleft, hsum⟩ := ih n
      simp only [Bool.false_eq_true, if_false, lockedWhere_cons, hq]
      omega

lemma lockedWhere_releaseFrom_le (eligible : ObjectLockedCoinRecord → Bool) :
    lockedWhere p (releaseFrom eligible n records).2 ≤ lockedWhere p records := by
  induction records generalizing n with
  | nil => exact Nat.le_refl _
  | cons r records ih =>
    unfold releaseFrom
    cases eligible r with
    | true =>
      have hrest := ih (n - min r.amount n)
      simp only [if_true, lockedWhere_cons]
      split_ifs <;> omega
    | false =>
      have hrest := ih n
      simp only [Bool.false_eq_true, if_false, lockedWhere_cons]
      omega

lemma lockedWhere_releaseFrom_apart (hapart : ∀ h t, q h t = true → p h t = false) :
    lockedWhere p (releaseFrom (fun r => q r.holderObjectId r.tokenType) n records).2 =
      lockedWhere p records := by
  induction records generalizing n with
  | nil => rfl
  | cons r records ih =>
    unfold releaseFrom
    rw [lockedWhere_cons]
    cases hq : q r.holderObjectId r.tokenType with
    | true => simp only [if_true, lockedWhere_cons, ih, hapart _ _ hq, Bool.false_eq_true, if_false]
    | false => simp only [Bool.false_eq_true, if_false, lockedWhere_cons, ih]

lemma releaseFrom_zero (eligible : ObjectLockedCoinRecord → Bool) :
    releaseFrom eligible 0 records = (0, records) := by
  induction records with
  | nil => rfl
  | cons r records ih =>
    unfold releaseFrom
    cases eligible r <;> simp [ih]

lemma releaseFrom_keys (eligible : ObjectLockedCoinRecord → Bool) :
    (releaseFrom eligible n records).2.map (fun r => (r.holderObjectId, r.tokenType)) =
      records.map fun r => (r.holderObjectId, r.tokenType) := by
  induction records generalizing n with
  | nil => rfl
  | cons r records ih =>
    unfold releaseFrom
    cases eligible r <;> simp [ih]

end Sums

section Release

variable (holderIds : List String) (token : String) (amount : Nat)
  (records : List ObjectLockedCoinRecord)

/-- The records of the preferred holders, and those of the others. -/
def preferred (h t : String) : Bool := t == token && holderIds.contains h

def others (h t : String) : Bool := t == token && !holderIds.contains h

lemma lockedAmount_split : lockedAmount token records =
    lockedWhere (preferred holderIds token) records + lockedWhere (others holderIds token) records :=
  lockedWhere_split (p := fun _ t => t == token) (q := fun h _ => holderIds.contains h) records

lemma lockedWhere_release (p : String → String → Bool) :
    lockedWhere p (releaseLockedCoinRecords holderIds token amount records) =
      let first := releaseFrom (fun r => preferred holderIds token r.holderObjectId r.tokenType)
        amount records
      lockedWhere p (releaseFrom (fun r => r.tokenType == token) first.1 first.2).2 :=
  lockedWhere_positive _

/-- The second pass finds nothing to take from the preferred holders: either nothing remains to be
released, or they have nothing left. -/
lemma release_preferred_then_others :
    lockedWhere (preferred holderIds token) (releaseLockedCoinRecords holderIds token amount records) =
        lockedWhere (preferred holderIds token) records - amount ∧
      lockedWhere (others holderIds token) (releaseLockedCoinRecords holderIds token amount records) =
        lockedWhere (others holderIds token) records -
          (amount - lockedWhere (preferred holderIds token) records) := by
  obtain ⟨hleft, hfirst⟩ := releaseFrom_takes (q := preferred holderIds token) records amount
  have hothers : lockedWhere (others holderIds token)
      (releaseFrom (fun r => preferred holderIds token r.holderObjectId r.tokenType) amount records).2 =
        lockedWhere (others holderIds token) records := by
    apply lockedWhere_releaseFrom_apart
    intro h t hpreferred
    cases hmem : holderIds.contains h <;> simp_all [preferred, others]
  rw [lockedWhere_release, lockedWhere_release]
  generalize releaseFrom (fun r => preferred holderIds token r.holderObjectId r.tokenType)
    amount records = pass at hleft hfirst hothers ⊢
  dsimp only
  obtain hnone | hsome := Nat.eq_zero_or_pos pass.1
  · rw [hnone, releaseFrom_zero]
    dsimp only
    omega
  · have hsecond := (releaseFrom_takes (q := fun _ t => t == token) pass.2 pass.1).2
    have hkept := lockedWhere_releaseFrom_le (p := preferred holderIds token) pass.2 pass.1
      (fun r => r.tokenType == token)
    rw [← lockedAmount_eq, ← lockedAmount_eq, lockedAmount_split holderIds,
      lockedAmount_split holderIds token pass.2] at hsecond
    omega

lemma release_apart {p : String → String → Bool} (hapart : ∀ h t, t = token → p h t = false) :
    lockedWhere p (releaseLockedCoinRecords holderIds token amount records) = lockedWhere p records := by
  rw [lockedWhere_release]
  dsimp only
  rw [lockedWhere_releaseFrom_apart (q := fun _ t => t == token),
    lockedWhere_releaseFrom_apart (q := preferred holderIds token)]
  · intro h t hpreferred
    exact hapart h t (by simp_all [preferred])
  · intro h t ht
    exact hapart h t (beq_iff_eq.mp ht)

lemma lockedAmount_release (t : String) :
    lockedAmount t (releaseLockedCoinRecords holderIds token amount records) =
      lockedAmount t records - if t = token then min amount (lockedAmount token records) else 0 := by
  split_ifs with ht
  · subst ht
    obtain ⟨hpreferred, hothers⟩ := release_preferred_then_others holderIds t amount records
    rw [lockedAmount_split holderIds, hpreferred, hothers, lockedAmount_split holderIds t records]
    omega
  · rw [lockedAmount_eq, release_apart, Nat.sub_zero]
    · rfl
    · rintro h _ rfl
      exact beq_false_of_ne (Ne.symm ht)

lemma UniqueRecords.release (hunique : UniqueRecords records) :
    UniqueRecords (releaseLockedCoinRecords holderIds token amount records) := by
  unfold UniqueRecords releaseLockedCoinRecords
  apply List.Nodup.sublist (List.filter_sublist.map _)
  rw [releaseFrom_keys, releaseFrom_keys]
  exact hunique

lemma release_positive {r : ObjectLockedCoinRecord}
    (hr : r ∈ releaseLockedCoinRecords holderIds token amount records) : r.amount ≠ 0 :=
  Nat.pos_iff_ne_zero.mp (of_decide_eq_true (List.mem_filter.mp hr).2)

end Release

section Add

variable {holder : String × CreatedObject} {token : String} {amount : Nat}
  {records records' : List ObjectLockedCoinRecord}

lemma raiseLockedCoinRecord_ok (h : raiseLockedCoinRecord holder token amount records = .ok records') :
    (∀ p, lockedWhere p records' = lockedWhere p records + if p holder.1 token then amount else 0) ∧
      (records'.map (fun r => (r.holderObjectId, r.tokenType)) =
          records.map (fun r => (r.holderObjectId, r.tokenType)) ∨
        (holder.1, token) ∉ records.map (fun r => (r.holderObjectId, r.tokenType)) ∧
          records'.map (fun r => (r.holderObjectId, r.tokenType)) =
            records.map (fun r => (r.holderObjectId, r.tokenType)) ++ [(holder.1, token)]) := by
  induction records generalizing records' with
  | nil =>
    cases h
    exact ⟨fun p => by rw [lockedWhere_cons, Nat.add_comm], .inr ⟨List.not_mem_nil, rfl⟩⟩
  | cons r records ih =>
    unfold raiseLockedCoinRecord at h
    split_ifs at h with hsame
    · obtain ⟨total, htotal, h⟩ := bind_eq_ok.mp h
      cases h
      rw [checkedAdd_eq_ok] at htotal
      refine ⟨fun p => ?_, .inl rfl⟩
      rw [lockedWhere_cons, lockedWhere_cons, ← hsame.1, ← hsame.2]
      dsimp only
      split_ifs <;> omega
    · cases hrest : raiseLockedCoinRecord holder token amount records with
      | error e =>
        rw [hrest] at h
        cases h
      | ok rest =>
        rw [hrest] at h
        cases h
        obtain ⟨hsum, hkeys⟩ := ih hrest
        refine ⟨fun p => by rw [lockedWhere_cons, lockedWhere_cons, hsum, Nat.add_assoc], ?_⟩
        obtain hkeys | ⟨hnew, hkeys⟩ := hkeys
        · left
          rw [List.map_cons, hkeys, List.map_cons]
        · right
          rw [List.map_cons, List.map_cons, hkeys, List.mem_cons, not_or]
          exact ⟨⟨fun heq => hsame (by simpa [eq_comm] using heq), hnew⟩, rfl⟩

lemma addLockedCoinRecord_where (h : addLockedCoinRecord holder token amount records = .ok records')
    (p : String → String → Bool) :
    lockedWhere p records' = lockedWhere p records + if p holder.1 token then amount else 0 := by
  unfold addLockedCoinRecord at h
  split_ifs at h with hzero
  · cases h
    rw [hzero, ite_self, Nat.add_zero]
  · exact (raiseLockedCoinRecord_ok h).1 p

lemma addLockedCoinRecord_amount (h : addLockedCoinRecord holder token amount records = .ok records')
    (t : String) :
    lockedAmount t records' = lockedAmount t records + if token = t then amount else 0 := by
  rw [lockedAmount_eq, addLockedCoinRecord_where h]
  simp [lockedAmount_eq]

lemma UniqueRecords.add (hunique : UniqueRecords records)
    (h : addLockedCoinRecord holder token amount records = .ok records') : UniqueRecords records' := by
  unfold addLockedCoinRecord at h
  split_ifs at h
  · cases h
    exact hunique
  · unfold UniqueRecords at hunique ⊢
    obtain hkeys | ⟨hnew, hkeys⟩ := (raiseLockedCoinRecord_ok h).2
    · rw [hkeys]
      exact hunique
    · rw [hkeys]
      exact hunique.append (List.nodup_singleton _) (by simpa using hnew)

lemma add_release_others (h : addLockedCoinRecord holder token amount records = .ok records')
    {other : String} (hother : other ≠ holder.1) (t : String) :
    lockedWhere (fun h' t' => h' == other && t' == t)
        (releaseLockedCoinRecords [holder.1] token amount records') =
      lockedWhere (fun h' t' => h' == other && t' == t) records := by
  have hleft := (releaseFrom_takes (q := preferred [holder.1] token) records' amount).1
  rw [addLockedCoinRecord_where h, if_pos (by simp [preferred]), Nat.sub_eq_zero_of_le (by omega)] at hleft
  rw [lockedWhere_release]
  dsimp only
  rw [hleft, releaseFrom_zero]
  dsimp only
  rw [lockedWhere_releaseFrom_apart (q := preferred [holder.1] token), addLockedCoinRecord_where h]
  · simp [Ne.symm hother]
  · intro h' t' hpreferred
    have hh' : h' = holder.1 := by simp_all [preferred]
    simp [hh', Ne.symm hother]

end Add

/-- Adding and releasing move exactly the given amount of the given token, the preferred holders
being drained before any other. -/
theorem locked_records_conserve (records : List ObjectLockedCoinRecord) (hunique : UniqueRecords records)
    (holder : String × CreatedObject) (holderIds : List String) (token : String) (amount : Nat) :
    (∀ records', addLockedCoinRecord holder token amount records = .ok records' →
      UniqueRecords records' ∧
        (∀ t, lockedAmount t records' = lockedAmount t records + if token = t then amount else 0) ∧
        ∀ other, other ≠ holder.1 → ∀ t,
          lockedWhere (fun h' t' => h' == other && t' == t)
              (releaseLockedCoinRecords [holder.1] token amount records') =
            lockedWhere (fun h' t' => h' == other && t' == t) records) ∧
      let released := releaseLockedCoinRecords holderIds token amount records
      UniqueRecords released ∧
        (∀ t, lockedAmount t released =
          lockedAmount t records - if t = token then min amount (lockedAmount token records) else 0) ∧
        lockedWhere (preferred holderIds token) released =
          lockedWhere (preferred holderIds token) records - amount ∧
        lockedWhere (others holderIds token) released =
          lockedWhere (others holderIds token) records -
            (amount - lockedWhere (preferred holderIds token) records) ∧
        ∀ r ∈ released, r.amount ≠ 0 := by
  refine ⟨fun records' h => ⟨hunique.add h, addLockedCoinRecord_amount h, fun other hother t =>
    add_release_others h hother t⟩, hunique.release holderIds token amount records,
    lockedAmount_release holderIds token amount records, ?_, ?_, fun r => release_positive _ _ _ _⟩
  · exact (release_preferred_then_others holderIds token amount records).1
  · exact (release_preferred_then_others holderIds token amount records).2

/-- Seven released with `b` preferred: all five of `b` go, then two of the four of `a`. -/
theorem locked_records_conserve_two :
    releaseLockedCoinRecords ["b"] "T" 7
        [⟨"a", "H", .zero, "T", 4⟩, ⟨"b", "H", .zero, "T", 5⟩, ⟨"b", "H", .zero, "U", 9⟩] =
      [⟨"a", "H", .zero, "T", 2⟩, ⟨"b", "H", .zero, "U", 9⟩] ∧
    lockedAmount "T" (releaseLockedCoinRecords ["b"] "T" 7
        [⟨"a", "H", .zero, "T", 4⟩, ⟨"b", "H", .zero, "T", 5⟩, ⟨"b", "H", .zero, "U", 9⟩]) = 9 - 7 := by
  refine ⟨by decide, ?_⟩
  refine ((locked_records_conserve _ ?_ ("a", ⟨.zero, .shared, "H", [], 0⟩) ["b"] "T" 7).2.2.1 "T").trans ?_
  · unfold UniqueRecords
    decide
  · decide

end Kanari.Proofs

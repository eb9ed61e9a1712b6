import Kanari.MoveCoin

/-!
# Circulating value and recorded supply

Every public function moves both sides alike, except for the three that create value or retire
supply without the other side.
-/

namespace Kanari.Proofs

open Lib Move

def circulating (h : Holdings) : Nat := total Coin.value h.coins + total Balance.value h.balances

def recorded (h : Holdings) : Nat :=
  total TreasuryCap.totalSupply h.caps + total Supply.total h.supplies

def SupplySound (h : Holdings) : Prop := circulating h ≤ recorded h

/-- The recorded supply leaves room for what the call creates or retires on its own. -/
def Backed (h : Holdings) : Call → Prop
  | .create value => circulating h + value ≤ recorded h
  | .increase _ amount => circulating h + amount ≤ recorded h
  | .decreaseSupply _ amount => circulating h + amount ≤ recorded h
  | _ => True

variable {b : Balance} {amount : Nat} {coin : Coin} {h h' : Holdings}

lemma increase_value {b' : Balance} (h : b.increase amount = .ok b') :
    b'.value = b.value + amount := by
  obtain ⟨_, _, h⟩ := bind_eq_ok.mp h
  obtain ⟨_, _, h⟩ := bind_eq_ok.mp h
  obtain ⟨_, _, h⟩ := bind_eq_ok.mp h
  cases h
  rfl

lemma decrease_value {b' : Balance} (h : b.decrease amount = .ok b') :
    b'.value + amount = b.value := by
  obtain ⟨_, _, h⟩ := bind_eq_ok.mp h
  obtain ⟨_, hle, h⟩ := bind_eq_ok.mp h
  cases h
  have : amount ≤ b.value := by simpa using hle
  show b.value - amount + amount = b.value
  omega

lemma transfer_value {a : Balance} {r : Balance × Balance} (h : a.transfer b amount = .ok r) :
    r.1.value + r.2.value = a.value + b.value := by
  obtain ⟨_, _, h⟩ := bind_eq_ok.mp h
  obtain ⟨a', ha, h⟩ := bind_eq_ok.mp h
  obtain ⟨b', hb, h⟩ := bind_eq_ok.mp h
  cases h
  have := decrease_value ha
  have := increase_value hb
  dsimp only
  omega

lemma merge_value {target source : Balance} (h : target.merge source = .ok b) :
    b.value = target.value + source.value := by
  unfold Balance.merge at h
  split at h
  · exact increase_value h
  · rename_i hzero
    cases h
    have : source.value = 0 := by
      unfold Balance.destroy at hzero
      omega
    omega

lemma balanceSplit_value {r : Balance × Balance} (h : b.split amount = .ok r) :
    r.1.value + r.2.value = b.value := by
  obtain ⟨b', hb, h⟩ := bind_eq_ok.mp h
  cases h
  exact decrease_value hb

lemma increaseSupply_total {s : Supply} {r : Supply × Balance}
    (h : Balance.increaseSupply s amount = .ok r) :
    r.1.total = s.total + amount ∧ r.2.value = amount := by
  obtain ⟨_, _, h⟩ := bind_eq_ok.mp h
  obtain ⟨_, _, h⟩ := bind_eq_ok.mp h
  obtain ⟨_, _, h⟩ := bind_eq_ok.mp h
  cases h
  exact ⟨rfl, rfl⟩

lemma decreaseSupply_total {s s' : Supply} (h : Balance.decreaseSupply s amount = .ok s') :
    s'.total + amount = s.total := by
  obtain ⟨_, _, h⟩ := bind_eq_ok.mp h
  obtain ⟨_, hle, h⟩ := bind_eq_ok.mp h
  cases h
  have : amount ≤ s.total := by simpa using hle
  show s.total - amount + amount = s.total
  omega

lemma mint_supply {cap : TreasuryCap} {r : TreasuryCap × Coin} (h : Coin.mint cap amount = .ok r) :
    r.1.totalSupply = cap.totalSupply + amount ∧ r.2.value = amount := by
  obtain ⟨_, _, h⟩ := bind_eq_ok.mp h
  obtain ⟨_, _, h⟩ := bind_eq_ok.mp h
  obtain ⟨_, _, h⟩ := bind_eq_ok.mp h
  cases h
  exact ⟨rfl, rfl⟩

lemma burn_supply {cap : TreasuryCap} {r : TreasuryCap × Nat} (h : Coin.burn cap coin = .ok r) :
    r.1.totalSupply + coin.value = cap.totalSupply := by
  obtain ⟨_, _, h⟩ := bind_eq_ok.mp h
  obtain ⟨_, hle, h⟩ := bind_eq_ok.mp h
  cases h
  have : coin.value ≤ cap.totalSupply := of_decide_eq_true (ensure_eq_ok.mp hle)
  show cap.totalSupply - coin.value + coin.value = cap.totalSupply
  omega

lemma coinSplit_value {r : Coin × Coin} (h : coin.split amount = .ok r) :
    r.1.value + r.2.value = coin.value := by
  obtain ⟨_, _, h⟩ := bind_eq_ok.mp h
  obtain ⟨_, _, h⟩ := bind_eq_ok.mp h
  obtain ⟨s, hs, h⟩ := bind_eq_ok.mp h
  cases h
  exact balanceSplit_value hs

lemma join_value {other joined : Coin} (h : coin.join other = .ok joined) :
    joined.value = coin.value + other.value := by
  obtain ⟨b, hb, h⟩ := bind_eq_ok.mp h
  cases h
  exact merge_value hb

lemma divideLoop_value {part n : Nat} {parts : List Coin} {r : Coin × List Coin}
    (h : Coin.divideLoop part n coin parts = .ok r) :
    r.1.value + total Coin.value r.2 = coin.value + total Coin.value parts := by
  induction n generalizing coin parts with
  | zero =>
    cases h
    rfl
  | succ n ih =>
    obtain ⟨⟨rest, new⟩, hs, h⟩ := bind_eq_ok.mp h
    have hrest := ih h
    have hsplit := coinSplit_value hs
    rw [total_append, total_singleton] at hrest
    dsimp only at hsplit
    omega

lemma divideIntoN_value {n : Nat} {r : Coin × List Coin} (h : coin.divideIntoN n = .ok r) :
    r.1.value + total Coin.value r.2 = coin.value := by
  obtain ⟨_, _, h⟩ := bind_eq_ok.mp h
  obtain ⟨_, _, h⟩ := bind_eq_ok.mp h
  obtain ⟨_, _, h⟩ := bind_eq_ok.mp h
  exact divideLoop_value h

lemma total_inPlace {α : Type} (f : α → Nat) {l l' : List α} {i : Nat} {g : α → Except Abort α}
    (h : Holdings.inPlace l i g = .ok l') :
    ∃ a a', g a = .ok a' ∧ total f l' + f a = total f l + f a' := by
  obtain ⟨⟨l'', u⟩, hu, h⟩ := bind_eq_ok.mp h
  cases h
  obtain ⟨a, a', hg, htotal⟩ := total_updateAt f hu
  obtain ⟨a'', hg', heq⟩ := bind_eq_ok.mp hg
  cases heq
  exact ⟨a, a', hg', htotal⟩

/-- Both sides after a call, relative to what they were. -/
structure Moves (h h' : Holdings) (brought taken issued retired : Nat) : Prop where
  circulating_eq : circulating h' + taken = circulating h + brought
  recorded_eq : recorded h' + retired = recorded h + issued

lemma mint_moves {cap : Nat} (hm : h.mint cap amount = .ok h') : Moves h h' amount 0 amount 0 := by
  obtain ⟨⟨caps, coin⟩, hu, heq⟩ := bind_eq_ok.mp hm
  cases heq
  obtain ⟨c, c', hmint, htotal⟩ := total_updateAt TreasuryCap.totalSupply hu
  obtain ⟨hsupply, hvalue⟩ := mint_supply hmint
  dsimp only at hsupply hvalue
  constructor
  · simp only [circulating, Holdings.addCoin, total_append, total_singleton]
    omega
  · simp only [recorded, Holdings.addCoin]
    omega

lemma join_moves {other coin : Nat} (hj : h.join other coin = .ok h') : Moves h h' 0 0 0 0 := by
  obtain ⟨⟨taken, coins⟩, ht, hj⟩ := bind_eq_ok.mp hj
  obtain ⟨coins', hp, heq⟩ := bind_eq_ok.mp hj
  cases heq
  have htaken := total_takeAt Coin.value ht
  obtain ⟨c, c', hjoin, htotal⟩ := total_inPlace Coin.value hp
  have hvalue := join_value hjoin
  constructor
  · simp only [circulating]
    omega
  · rfl

lemma transfer_moves {source target : Nat} (ht : h.transfer source target amount = .ok h') :
    Moves h h' 0 0 0 0 := by
  unfold Holdings.transfer at ht
  cases ha : h.balances[source]? with
  | none =>
    rw [ha] at ht
    cases ht
  | some a =>
    cases hb : h.balances[target]? with
    | none =>
      rw [ha, hb] at ht
      cases ht
    | some b =>
      rw [ha, hb] at ht
      obtain ⟨_, hne, ht⟩ := bind_eq_ok.mp ht
      obtain ⟨⟨a', b'⟩, hvalue, heq⟩ := bind_eq_ok.mp ht
      cases heq
      have hne' : source ≠ target := by simpa using hne
      have hb' : (h.balances.set source a')[target]? = some b := by
        rw [List.getElem?_set_ne hne', hb]
      have h₁ := total_set Balance.value ha a'
      have h₂ := total_set Balance.value hb' b'
      have h₃ := transfer_value hvalue
      dsimp only at h₃
      constructor
      · simp only [circulating]
        omega
      · rfl

lemma Moves.sound {brought taken issued retired : Nat}
    (hm : Moves h h' brought taken issued retired) (hs : SupplySound h) (hb : brought ≤ issued)
    (hr : retired ≤ taken) : SupplySound h' := by
  obtain ⟨h₁, h₂⟩ := hm
  unfold SupplySound at hs ⊢
  omega

lemma backed_call_moves {c : Call} (hc : c.apply h = .ok h') (hcreate : ∀ v, c ≠ .create v)
    (hincrease : ∀ i a, c ≠ .increase i a) (hdecrease : ∀ i a, c ≠ .decreaseSupply i a) :
    ∃ brought taken issued retired, Moves h h' brought taken issued retired ∧
      brought ≤ issued ∧ retired ≤ taken := by
  cases c with
  | create v => exact absurd rfl (hcreate v)
  | increase i a => exact absurd rfl (hincrease i a)
  | decreaseSupply i a => exact absurd rfl (hdecrease i a)
  | createCurrency metadata =>
    obtain ⟨⟨cap, m⟩, hm, heq⟩ := bind_eq_ok.mp hc
    cases heq
    refine ⟨0, 0, cap.totalSupply, 0, ⟨rfl, ?_⟩, Nat.zero_le _, le_rfl⟩
    simp only [recorded, total_append, total_singleton]
    omega
  | mint cap amount => exact ⟨amount, 0, amount, 0, mint_moves hc, le_rfl, le_rfl⟩
  | mintAndTransfer cap amount _ => exact ⟨amount, 0, amount, 0, mint_moves hc, le_rfl, le_rfl⟩
  | burn cap coin =>
    obtain ⟨⟨taken, coins⟩, ht, hc⟩ := bind_eq_ok.mp hc
    obtain ⟨⟨caps, burned⟩, hu, heq⟩ := bind_eq_ok.mp hc
    cases heq
    have htaken := total_takeAt Coin.value ht
    obtain ⟨c, c', hburn, htotal⟩ := total_updateAt TreasuryCap.totalSupply hu
    have hsupply := burn_supply hburn
    dsimp only at hsupply
    refine ⟨0, taken.value, 0, taken.value, ⟨?_, ?_⟩, le_rfl, le_rfl⟩
    · simp only [circulating]
      omega
    · simp only [recorded]
      omega
  | intoBalance coin =>
    obtain ⟨⟨taken, coins⟩, ht, heq⟩ := bind_eq_ok.mp hc
    cases heq
    have htaken := total_takeAt Coin.value ht
    refine ⟨0, 0, 0, 0, ⟨?_, rfl⟩, le_rfl, le_rfl⟩
    simp only [circulating, Holdings.addBalance, total_append, total_singleton, Coin.intoBalance]
    rw [← htaken, Coin.value]
    omega
  | fromBalance balance =>
    obtain ⟨⟨taken, balances⟩, ht, heq⟩ := bind_eq_ok.mp hc
    cases heq
    have htaken := total_takeAt Balance.value ht
    refine ⟨0, 0, 0, 0, ⟨?_, rfl⟩, le_rfl, le_rfl⟩
    simp only [circulating, Holdings.addCoin, total_append, total_singleton, Coin.fromBalance,
      Coin.value]
    omega
  | coinZero =>
    cases hc
    refine ⟨0, 0, 0, 0, ⟨?_, rfl⟩, le_rfl, le_rfl⟩
    simp [circulating, Holdings.addCoin, Coin.zero, Coin.value, Balance.create]
  | coinSplit coin amount =>
    obtain ⟨⟨coins, part⟩, hu, heq⟩ := bind_eq_ok.mp hc
    cases heq
    obtain ⟨c, c', hsplit, htotal⟩ := total_updateAt Coin.value hu
    have hvalue := coinSplit_value hsplit
    dsimp only at hvalue
    refine ⟨0, 0, 0, 0, ⟨?_, rfl⟩, le_rfl, le_rfl⟩
    simp only [circulating, Holdings.addCoin, total_append, total_singleton]
    omega
  | join other coin => exact ⟨0, 0, 0, 0, join_moves hc, le_rfl, le_rfl⟩
  | joinEntry other coin => exact ⟨0, 0, 0, 0, join_moves hc, le_rfl, le_rfl⟩
  | destroyZero coin =>
    obtain ⟨⟨taken, coins⟩, ht, hc⟩ := bind_eq_ok.mp hc
    obtain ⟨_, _, heq⟩ := bind_eq_ok.mp hc
    cases heq
    have htaken := total_takeAt Coin.value ht
    refine ⟨0, taken.value, 0, 0, ⟨?_, rfl⟩, le_rfl, Nat.zero_le _⟩
    simp only [circulating]
    omega
  | divideIntoN coin n =>
    obtain ⟨⟨coins, parts⟩, hu, heq⟩ := bind_eq_ok.mp hc
    cases heq
    obtain ⟨c, c', hdivide, htotal⟩ := total_updateAt Coin.value hu
    have hvalue := divideIntoN_value hdivide
    dsimp only at hvalue
    refine ⟨0, 0, 0, 0, ⟨?_, rfl⟩, le_rfl, le_rfl⟩
    simp only [circulating, total_append]
    omega
  | updateMetadata cap i update =>
    obtain ⟨_, _, hc⟩ := bind_eq_ok.mp hc
    obtain ⟨m, _, heq⟩ := bind_eq_ok.mp hc
    cases heq
    exact ⟨0, 0, 0, 0, ⟨rfl, rfl⟩, le_rfl, le_rfl⟩
  | balanceZero =>
    cases hc
    refine ⟨0, 0, 0, 0, ⟨?_, rfl⟩, le_rfl, le_rfl⟩
    simp [circulating, Holdings.addBalance, Balance.zero]
  | decrease balance amount =>
    obtain ⟨balances, hp, heq⟩ := bind_eq_ok.mp hc
    cases heq
    obtain ⟨b, b', hdec, htotal⟩ := total_inPlace Balance.value hp
    have hvalue := decrease_value hdec
    refine ⟨0, amount, 0, 0, ⟨?_, rfl⟩, le_rfl, Nat.zero_le _⟩
    simp only [circulating]
    omega
  | transfer source target amount => exact ⟨0, 0, 0, 0, transfer_moves hc, le_rfl, le_rfl⟩
  | destroy balance =>
    obtain ⟨⟨taken, balances⟩, ht, heq⟩ := bind_eq_ok.mp hc
    cases heq
    have htaken := total_takeAt Balance.value ht
    refine ⟨0, taken.value, 0, 0, ⟨?_, rfl⟩, le_rfl, Nat.zero_le _⟩
    simp only [circulating]
    omega
  | newSupply =>
    cases hc
    refine ⟨0, 0, 0, 0, ⟨rfl, ?_⟩, le_rfl, le_rfl⟩
    simp [recorded, Balance.newSupply]
  | increaseSupply supply amount =>
    obtain ⟨⟨supplies, balance⟩, hu, heq⟩ := bind_eq_ok.mp hc
    cases heq
    obtain ⟨s, s', hinc, htotal⟩ := total_updateAt Supply.total hu
    obtain ⟨hsupply, hvalue⟩ := increaseSupply_total hinc
    dsimp only at hsupply hvalue
    refine ⟨amount, 0, amount, 0, ⟨?_, ?_⟩, le_rfl, le_rfl⟩
    · simp only [circulating, Holdings.addBalance, total_append, total_singleton]
      omega
    · simp only [recorded, Holdings.addBalance]
      omega
  | merge source target =>
    obtain ⟨⟨taken, balances⟩, ht, hc⟩ := bind_eq_ok.mp hc
    obtain ⟨balances', hp, heq⟩ := bind_eq_ok.mp hc
    cases heq
    have htaken := total_takeAt Balance.value ht
    obtain ⟨b, b', hmerge, htotal⟩ := total_inPlace Balance.value hp
    have hvalue := merge_value hmerge
    refine ⟨0, 0, 0, 0, ⟨?_, rfl⟩, le_rfl, le_rfl⟩
    simp only [circulating]
    omega
  | balanceSplit balance amount =>
    obtain ⟨⟨balances, part⟩, hu, heq⟩ := bind_eq_ok.mp hc
    cases heq
    obtain ⟨b, b', hsplit, htotal⟩ := total_updateAt Balance.value hu
    have hvalue := balanceSplit_value hsplit
    dsimp only at hvalue
    refine ⟨0, 0, 0, 0, ⟨?_, rfl⟩, le_rfl, le_rfl⟩
    simp only [circulating, Holdings.addBalance, total_append, total_singleton]
    omega
  | inspect =>
    cases hc
    exact ⟨0, 0, 0, 0, ⟨rfl, rfl⟩, le_rfl, le_rfl⟩

lemma sound_step_iff {c : Call} (hs : SupplySound h) (hc : c.apply h = .ok h') :
    SupplySound h' ↔ Backed h c := by
  cases c with
  | create v =>
    cases hc
    have hvalue : circulating (h.addBalance (Balance.create v)) = circulating h + v := by
      simp only [circulating, Holdings.addBalance, total_append, total_singleton, Balance.create]
      omega
    unfold SupplySound
    rw [hvalue]
    rfl
  | increase i a =>
    obtain ⟨balances, hp, heq⟩ := bind_eq_ok.mp hc
    cases heq
    obtain ⟨b, b', hinc, htotal⟩ := total_inPlace Balance.value hp
    have hvalue := increase_value hinc
    simp only [SupplySound, Backed, circulating, recorded]
    constructor <;> intro _ <;> omega
  | decreaseSupply i a =>
    obtain ⟨supplies, hp, heq⟩ := bind_eq_ok.mp hc
    cases heq
    obtain ⟨s, s', hdec, htotal⟩ := total_inPlace Supply.total hp
    have hvalue := decreaseSupply_total hdec
    simp only [SupplySound, Backed, circulating, recorded]
    constructor <;> intro _ <;> omega
  | _ =>
    obtain ⟨b, t, i, r, hm, hb, hr⟩ := backed_call_moves hc (by simp) (by simp) (by simp)
    exact iff_of_true (hm.sound hs hb hr) trivial

/-- Along every sequence of backed calls, for any token types in any order, each token's value
stays within its recorded supply; and backing is needed at every single call. -/
theorem coin_supply_sound_iff_backed {T : Type} [DecidableEq T] (start w : T → Holdings) (h h' : Holdings)
    (c : Call) :
    ((∀ t, SupplySound (start t)) → Reached Backed start w → ∀ t, SupplySound (w t)) ∧
      (SupplySound h → c.apply h = .ok h' → (SupplySound h' ↔ Backed h c)) := by
  refine ⟨?_, fun hs hc => sound_step_iff hs hc⟩
  intro hstart hreached
  induction hreached with
  | start => exact hstart
  | @call w t c h _ hbacked hc ih =>
    intro t'
    by_cases heq : t' = t
    · subst heq
      rw [Function.update_self]
      exact (sound_step_iff (ih t') hc).mpr hbacked
    · rw [Function.update_of_ne heq]
      exact ih t'

/-- Under a capability with 5 coins on record, a balance of 3 is created and 10 coins are minted; a
balance of 8 would be too much. -/
theorem coin_supply_sound_run :
    (∃ w : Bool → Holdings, Reached Backed (fun _ => { caps := [⟨5⟩] }) w ∧
      w true = { caps := [⟨15⟩], coins := [⟨⟨10⟩⟩], balances := [⟨3⟩] } ∧ ∀ t, SupplySound (w t)) ∧
      ¬SupplySound { caps := [⟨5⟩], balances := [⟨8⟩] } := by
  have hstart : SupplySound { caps := [⟨5⟩] } := Nat.zero_le _
  have hcreate : Reached Backed (fun _ : Bool => ({ caps := [⟨5⟩] } : Holdings)) _ :=
    Reached.call (t := true) (c := .create 3) Reached.start (by unfold Backed; decide) rfl
  have hmint := Reached.call (t := true) (c := .mint 0 10) hcreate trivial rfl
  have hcalls := fun w => coin_supply_sound_iff_backed (fun _ : Bool => { caps := [⟨5⟩] }) w
    { caps := [⟨5⟩] } { caps := [⟨5⟩], balances := [⟨8⟩] } (.create 8)
  refine ⟨⟨_, hmint, rfl, (hcalls _).1 (fun _ => hstart) hmint⟩, mt ((hcalls fun _ => {}).2 hstart rfl).mp ?_⟩
  unfold Backed
  decide

/-- Any module makes a balance out of nothing and wraps it into a coin. -/
theorem coin_supply_forged_balance :
    ∃ w : Unit → Holdings, Reached (fun _ _ => True) (fun _ => {}) w ∧
      (w ()).coins = [⟨⟨1000⟩⟩] ∧ ¬SupplySound (w ()) := by
  have hcreate : Reached (fun _ _ => True) (fun _ : Unit => ({} : Holdings))
      (Function.update (fun _ => {}) () { balances := [⟨1000⟩] }) :=
    Reached.call (c := .create 1000) Reached.start trivial rfl
  refine ⟨_, Reached.call (c := .fromBalance 0) (t := ()) hcreate trivial rfl, ?_, ?_⟩
  · rfl
  · unfold SupplySound
    decide

end Kanari.Proofs

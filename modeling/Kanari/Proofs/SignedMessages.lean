import Kanari.SignatureMultisig
import Kanari.Lib.LengthFrame

/-!
# The message of `signature_multisig`

The domain is written without its length, so the bytes that a longer domain adds can be read as
the length of an action.
-/

namespace Kanari.Proofs

open Lib Lib.Text Move Move.SignatureMultisig

lemma buildMessage_eq (domain actionId : Bytes) (nonce : Word 64) :
    buildMessage domain actionId nonce = (domain ++ framed 8 actionId) ++ leBytes 8 nonce.val := by
  simp only [buildMessage, framed, List.append_assoc]

lemma buildMessage_eq_iff {d d' a a' : Bytes} {n n' : Word 64} :
    buildMessage d a n = buildMessage d' a' n' ↔
      d ++ framed 8 a = d' ++ framed 8 a' ∧ n = n' := by
  rw [buildMessage_eq, buildMessage_eq]
  constructor
  · intro h
    obtain ⟨hframes, hnonce⟩ := List.append_inj' h (by simp)
    have hval := congrArg leNat hnonce
    rw [leNat_leBytes 8 _ n.isLt, leNat_leBytes 8 _ n'.isLt] at hval
    exact ⟨hframes, Fin.ext hval⟩
  · rintro ⟨hframes, rfl⟩
    rw [hframes]

/-- The longer domain adds bytes that can be read as the beginning of a framed action: fewer than
a length field, or a length field that covers them. -/
def ExtendsDomain (d d' : Bytes) : Prop :=
  ∃ e, e ≠ [] ∧ d' = d ++ e ∧ (e.length < 8 ∨ e.length ≤ leNat (e.take 8))

lemma extendsDomain_iff {d d' : Bytes} :
    ExtendsDomain d d' ↔ d ≠ d' ∧ ∃ a a' : Bytes, a.length < 2 ^ 64 ∧ a'.length < 2 ^ 64 ∧
      (∃ e, d' = d ++ e) ∧ d ++ framed 8 a = d' ++ framed 8 a' := by
  constructor
  · rintro ⟨e, he, rfl, hcover⟩
    obtain ⟨a, a', ha, ha', h⟩ := (framed_shift_iff (by decide) he).2 hcover
    exact ⟨by simpa using he, a, a', ha, ha', ⟨e, rfl⟩, by rw [h, List.append_assoc]⟩
  · rintro ⟨hne, a, a', ha, ha', ⟨e, rfl⟩, h⟩
    have he : e ≠ [] := by simpa using hne
    rw [List.append_assoc, List.append_cancel_left_eq] at h
    exact ⟨e, he, rfl, (framed_shift_iff (by decide) he).1 ⟨a, a', ha, ha', h⟩⟩

/-- Messages for two domains determine domain, action and nonce exactly when neither domain
extends the other in this way. -/
theorem build_message_injective_iff (d d' : Bytes) :
    (∀ (a a' : Bytes) (n n' : Word 64), a.length < 2 ^ 64 → a'.length < 2 ^ 64 →
      buildMessage d a n = buildMessage d' a' n' → d = d' ∧ a = a' ∧ n = n') ↔
      ¬ExtendsDomain d d' ∧ ¬ExtendsDomain d' d := by
  constructor
  · intro h
    constructor
    · rintro hcont
      obtain ⟨hne, a, a', ha, ha', -, heq⟩ := extendsDomain_iff.1 hcont
      exact hne (h a a' 0 0 ha ha' (buildMessage_eq_iff.2 ⟨heq, rfl⟩)).1
    · rintro hcont
      obtain ⟨hne, a, a', ha, ha', -, heq⟩ := extendsDomain_iff.1 hcont
      exact hne (h a' a 0 0 ha' ha (buildMessage_eq_iff.2 ⟨heq.symm, rfl⟩)).1.symm
  · rintro ⟨hforth, hback⟩ a a' n n' ha ha' hmsg
    obtain ⟨heq, rfl⟩ := buildMessage_eq_iff.1 hmsg
    -- one domain is the beginning of the other
    have hdomain : d = d' := by
      by_contra hne
      rcases List.append_eq_append_iff.1 heq with ⟨e, hd, -⟩ | ⟨e, hd, -⟩
      · exact hforth (extendsDomain_iff.2 ⟨hne, a, a', ha, ha', ⟨e, hd⟩, heq⟩)
      · exact hback (extendsDomain_iff.2 ⟨Ne.symm hne, a', a, ha', ha, ⟨e, hd⟩, heq.symm⟩)
    subst hdomain
    exact ⟨rfl, framed_injective (List.append_cancel_left heq), rfl⟩

/-- One byte moves from the length of an action to the domain. -/
theorem build_message_collides :
    buildMessage [] [0] 7 = buildMessage [1] [] 7 ∧ ([] : Bytes) ≠ [1] := by
  decide

end Kanari.Proofs

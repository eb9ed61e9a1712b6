import Kanari.Proofs.ZkLoginAnchor
import Mathlib.Data.List.DropRight

/-!
# What a zkLogin address is derived from

Issuer, audience and subject are padded with zero bytes to fixed widths, and a text may itself end
in zero bytes.
-/

namespace Kanari.Proofs

open Lib ZkLogin

def unpadded (data : Bytes) : Bytes := data.rdropWhile (· == 0)

lemma unpadded_append_zeros (data : Bytes) (n : Nat) :
    unpadded (data ++ List.replicate n 0) = unpadded data := by
  induction n with
  | zero => simp
  | succ n ih =>
    rw [List.replicate_succ', ← List.append_assoc]
    exact (List.rdropWhile_concat_pos _ _ _ rfl).trans ih

lemma exists_unpadded_append (data : Bytes) :
    ∃ n, data = unpadded data ++ List.replicate n 0 := by
  have hzeros : data.rtakeWhile (· == 0) = List.replicate (data.rtakeWhile (· == 0)).length 0 :=
    List.eq_replicate_of_mem fun b hb => by simpa using List.mem_rtakeWhile_imp hb
  refine ⟨(data.rtakeWhile (· == 0)).length, ?_⟩
  rw [← hzeros]
  exact List.rdropWhile_append_rtakeWhile.symm

lemma unpadded_padZero (data : Bytes) (width : Nat) :
    unpadded (padZero data width) = unpadded data :=
  unpadded_append_zeros data _

variable {width : Nat}

lemma length_padZero {data : Bytes} (h : data.length ≤ width) :
    (padZero data width).length = width := by
  rw [padZero, List.length_append, List.length_replicate]
  omega

lemma padZero_unpadded {data : Bytes} (h : data.length ≤ width) :
    padZero (unpadded data) width = padZero data width := by
  obtain ⟨n, hn⟩ := exists_unpadded_append data
  generalize unpadded data = core at hn
  subst hn
  rw [List.length_append, List.length_replicate] at h
  simp only [padZero, List.append_assoc, List.replicate_append_replicate, List.length_append,
    List.length_replicate]
  congr 2
  omega

lemma padZero_eq_iff {a b : Bytes} (ha : a.length ≤ width) (hb : b.length ≤ width) :
    padZero a width = padZero b width ↔ unpadded a = unpadded b := by
  constructor
  · intro h
    rw [← unpadded_padZero a width, h, unpadded_padZero]
  · intro h
    rw [← padZero_unpadded ha, h, padZero_unpadded hb]

variable {K V G : Type} {P : Primitives K V G}

/-- The inputs of a derivation that was accepted, with the address. -/
structure AcceptedIdentity (P : Primitives K V G) where
  iss : String
  aud : String
  sub : String
  salt : Bytes
  address : String
  derived : deriveZkloginAddressV2 P iss aud sub salt = .ok address

namespace AcceptedIdentity

variable (x y : AcceptedIdentity P)

def preimage : Bytes := addressPreimage (asBytes x.iss) (asBytes x.aud) (asBytes x.sub) x.salt

def SameInputs : Prop := x.iss = y.iss ∧ x.aud = y.aud ∧ x.sub = y.sub ∧ x.salt = y.salt

/-- The inputs differ, but only in zero bytes at the end of issuer, audience or subject. -/
structure DifferInPadding : Prop where
  iss : unpadded (asBytes x.iss) = unpadded (asBytes y.iss)
  aud : unpadded (asBytes x.aud) = unpadded (asBytes y.aud)
  sub : unpadded (asBytes x.sub) = unpadded (asBytes y.sub)
  salt : x.salt = y.salt
  different : ¬x.SameInputs y

end AcceptedIdentity

/-- The widths that the checks of the derivation enforce. -/
lemma derive_eq_ok {iss aud sub : String} {salt : Bytes} {address : String}
    (h : deriveZkloginAddressV2 P iss aud sub salt = .ok address) :
    (asBytes iss).length ≤ maxIssBytes ∧ (asBytes aud).length ≤ maxAudBytes ∧
      (asBytes sub).length ≤ maxSubBytes ∧
      address = hexLiteral (P.sha256 (addressPreimage (asBytes iss) (asBytes aud) (asBytes sub) salt)) := by
  simp only [deriveZkloginAddressV2, check_bind_eq_ok, ensure_eq_ok, Bool.and_eq_true,
    decide_eq_true_eq, pure_eq_ok, Except.ok.injEq] at h
  exact ⟨h.2.1.1.1, h.2.1.1.2, h.2.1.2, h.2.2.2.symm⟩

lemma preimage_eq_iff (x y : AcceptedIdentity P) :
    x.preimage = y.preimage ↔
      unpadded (asBytes x.iss) = unpadded (asBytes y.iss) ∧
      unpadded (asBytes x.aud) = unpadded (asBytes y.aud) ∧
      unpadded (asBytes x.sub) = unpadded (asBytes y.sub) ∧ x.salt = y.salt := by
  obtain ⟨hiss, haud, hsub, -⟩ := derive_eq_ok x.derived
  obtain ⟨hiss', haud', hsub', -⟩ := derive_eq_ok y.derived
  rw [← padZero_eq_iff hiss hiss', ← padZero_eq_iff haud haud', ← padZero_eq_iff hsub hsub']
  simp only [AcceptedIdentity.preimage, addressPreimage, List.append_assoc,
    List.append_cancel_left_eq]
  constructor
  · intro h
    obtain ⟨h₁, h⟩ := List.append_inj h (by rw [length_padZero hiss, length_padZero hiss'])
    obtain ⟨h₂, h⟩ := List.append_inj h (by rw [length_padZero haud, length_padZero haud'])
    obtain ⟨h₃, h₄⟩ := List.append_inj h (by rw [length_padZero hsub, length_padZero hsub'])
    exact ⟨h₁, h₂, h₃, h₄⟩
  · rintro ⟨h₁, h₂, h₃, h₄⟩
    rw [h₁, h₂, h₃, h₄]

lemma hexLiteral_injective {a b : Bytes} (h : hexLiteral a = hexLiteral b) : a = b := by
  have hchars : '0' :: 'x' :: Hex.encode a = '0' :: 'x' :: Hex.encode b := by
    simpa [hexLiteral] using congrArg String.toList h
  have hencoded : Hex.encode a = Hex.encode b := by simpa using hchars
  exact Option.some.inj (by rw [← Hex.decode_encode a, hencoded, Hex.decode_encode])

lemma address_eq_iff (hhash : Function.Injective P.sha256) (x y : AcceptedIdentity P) :
    x.address = y.address ↔ x.preimage = y.preimage := by
  rw [(derive_eq_ok x.derived).2.2.2, (derive_eq_ok y.derived).2.2.2]
  constructor
  · intro h
    exact hhash (hexLiteral_injective h)
  · intro h
    exact congrArg (fun bytes => hexLiteral (P.sha256 bytes)) h

lemma preimage_determines_iff (x y : AcceptedIdentity P) :
    (x.preimage = y.preimage → x.SameInputs y) ↔ ¬x.DifferInPadding y := by
  rw [preimage_eq_iff]
  constructor
  · intro h hpad
    exact hpad.different (h ⟨hpad.iss, hpad.aud, hpad.sub, hpad.salt⟩)
  · rintro h ⟨hiss, haud, hsub, hsalt⟩
    by_contra hne
    exact h ⟨hiss, haud, hsub, hsalt, hne⟩

/-- The preimage, and under a collision-free hash the address, determines the inputs exactly when
they do not differ in padding alone. -/
theorem zklogin_address_determines_iff (P : Primitives K V G) (x y : AcceptedIdentity P) :
    ((x.preimage = y.preimage → x.SameInputs y) ↔ ¬x.DifferInPadding y) ∧
      (Function.Injective P.sha256 →
        ((x.address = y.address → x.SameInputs y) ↔ ¬x.DifferInPadding y)) := by
  refine ⟨preimage_determines_iff x y, fun hhash => ?_⟩
  rw [address_eq_iff hhash]
  exact preimage_determines_iff x y

def unhashed : Primitives Nat Nat Nat := { samplePrimitives with sha256 := id }

def sampleIdentity : AcceptedIdentity unhashed where
  iss := "a"
  aud := "b"
  sub := "c"
  salt := List.replicate 32 7
  address := hexLiteral (addressPreimage (asBytes "a") (asBytes "b") (asBytes "c") (List.replicate 32 7))
  derived := by decide +kernel

def paddedIdentity : AcceptedIdentity unhashed :=
  { sampleIdentity with iss := "a\x00", derived := by decide +kernel }

lemma sample_differInPadding : sampleIdentity.DifferInPadding paddedIdentity where
  iss := by decide +kernel
  aud := rfl
  sub := rfl
  salt := rfl
  different h := absurd h.1 (by decide)

theorem zklogin_address_determines_padded :
    ¬(sampleIdentity.preimage = paddedIdentity.preimage → sampleIdentity.SameInputs paddedIdentity) ∧
      ¬(sampleIdentity.address = paddedIdentity.address → sampleIdentity.SameInputs paddedIdentity) := by
  obtain ⟨hpreimage, haddress⟩ := zklogin_address_determines_iff unhashed sampleIdentity paddedIdentity
  exact ⟨mt hpreimage.mp (not_not_intro sample_differInPadding),
    mt (haddress Function.injective_id).mp (not_not_intro sample_differInPadding)⟩

/-- Two issuers, one of them with a zero byte more. -/
theorem zklogin_address_shared :
    sampleIdentity.address = paddedIdentity.address ∧ sampleIdentity.preimage = paddedIdentity.preimage ∧
      ¬sampleIdentity.SameInputs paddedIdentity :=
  ⟨rfl, by decide +kernel, sample_differInPadding.different⟩

end Kanari.Proofs

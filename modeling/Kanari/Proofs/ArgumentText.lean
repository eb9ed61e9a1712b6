import Kanari.Binding

/-!
# Arguments that are taken for text

The preprocessor goes by the bytes: whatever is the text of an address or of a signed number is
replaced, and a serialised value can be such a text.
-/

namespace Kanari.Proofs

open Lib

inductive UIntWidth where
  | u8 | u16 | u32 | u64 | u128 | u256

def UIntWidth.byteCount : UIntWidth → Nat
  | .u8 => 1
  | .u16 => 2
  | .u32 => 4
  | .u64 => 8
  | .u128 => 16
  | .u256 => 32

inductive MoveValue where
  | bool (b : Bool)
  | uint (width : UIntWidth) (n : Fin (256 ^ width.byteCount))
  | address (a : AccountAddress)
  /-- A `vector<u8>`. -/
  | bytes (b : Bytes)
  | string (s : String)
  | vector (elements : List MoveValue)

mutual

def MoveValue.bcs : MoveValue → Bytes
  | .bool b => [if b then 1 else 0]
  | .uint width n => Text.leBytes width.byteCount n
  | .address a => a.bytes
  | .bytes b => bcsBytes b
  | .string s => bcsBytes s.toUTF8.data.toList
  | .vector elements => uleb128 5 elements.length ++ bcsAll elements

def bcsAll : List MoveValue → Bytes
  | [] => []
  | v :: vs => v.bcs ++ bcsAll vs

end

def AddressText (text : List Char) : Prop :=
  ∃ digits : List Char, (text = digits ∨ text = '0' :: 'x' :: digits) ∧ digits.length = 64 ∧
    digits.all Hex.isHexDigit = true

def SignedNumberText (text : List Char) : Prop :=
  ∃ digits n, text = '+' :: digits ∧ Text.parseDecimal digits = some n ∧ n < 2 ^ 64

/-- The argument is not as long as a small number and reads, trimmed, as one of the two. -/
def ReadAsText (arg : Bytes) : Prop :=
  ¬(arg.length = 1 ∨ arg.length = 8 ∨ arg.length = 16) ∧
    ∃ s, Text.utf8Decode arg = some s ∧ (AddressText (Text.trim s) ∨ SignedNumberText (Text.trim s))

lemma utf8Decode_length_le {b : Bytes} {s : List Char} (h : Text.utf8Decode b = some s) :
    s.length ≤ b.length := by
  -- Every character takes at least the byte it starts with.
  have hcons : ∀ {rest : Bytes} {c : Char} {t : List Char}, (Text.utf8Decode rest).map (c :: ·) = some t →
      (∀ {t'}, Text.utf8Decode rest = some t' → t'.length ≤ rest.length) → t.length ≤ rest.length + 1 := by
    intro rest c t ht ih
    obtain ⟨t', ht', rfl⟩ := Option.map_eq_some_iff.mp ht
    exact Nat.succ_le_succ (ih ht')
  fun_induction Text.utf8Decode b generalizing s with
  | case1 =>
    cases h
    exact le_rfl
  | case2 | case4 | case7 | case10 =>
    rename_i ih
    have := hcons h ih
    simp only [List.length_cons]
    omega
  | _ => cases h

lemma trim_length_le (s : List Char) : (Text.trim s).length ≤ s.length := by
  unfold Text.trim
  rw [List.length_reverse]
  refine (List.dropWhile_suffix _).length_le.trans ?_
  rw [List.length_reverse]
  exact (List.dropWhile_suffix _).length_le

lemma decode_length_iff {digits : List Char} {n : Nat} :
    (∃ bytes, Hex.decode digits = some bytes ∧ bytes.length = n) ↔
      digits.length = 2 * n ∧ digits.all Hex.isHexDigit = true := by
  induction digits using Hex.decode.induct generalizing n with
  | case1 => simp [Hex.decode, eq_comm]
  | case2 c =>
    simp only [Hex.decode, reduceCtorEq, false_and, exists_false, List.length_singleton, false_iff]
    omega
  | case3 hi lo rest ih =>
    cases n with
    | zero => simp [Hex.decode, Option.bind_eq_some_iff]
    | succ n =>
      have hrest := @ih n
      simp only [Hex.decode, Option.bind_eq_bind, Option.bind_eq_some_iff, Hex.isHexDigit,
        List.all_cons, Bool.and_eq_true, Option.isSome_iff_exists, List.length_cons] at hrest ⊢
      constructor
      · rintro ⟨bytes, ⟨h, hh, l, hl, bs, hbs, heq⟩, hlen⟩
        cases heq
        obtain ⟨hl', hall⟩ := hrest.mp ⟨bs, hbs, by simpa using hlen⟩
        exact ⟨by omega, ⟨h, hh⟩, ⟨l, hl⟩, hall⟩
      · rintro ⟨hlen, ⟨h, hh⟩, ⟨l, hl⟩, hall⟩
        obtain ⟨bs, hbs, hn⟩ := hrest.mpr ⟨by omega, hall⟩
        exact ⟨_, ⟨h, hh, l, hl, bs, hbs, rfl⟩, by simp [hn]⟩

def hexPart (text : List Char) : List Char :=
  match text with
  | '0' :: 'x' :: rest => rest
  | other => other

def LooksHex (text : List Char) : Prop := text.take 2 = ['0', 'x'] ∨ text.all Hex.isHexDigit = true

lemma hexPart_of_not_literal {text : List Char} (h : text.take 2 ≠ ['0', 'x']) : hexPart text = text := by
  unfold hexPart
  split
  · exact absurd rfl h
  · rfl

lemma hexPart_length_le (text : List Char) : (hexPart text).length ≤ text.length := by
  unfold hexPart
  split
  · simp only [List.length_cons]
    omega
  · exact le_rfl

lemma addressText_iff (text : List Char) :
    AddressText text ↔
      LooksHex text ∧ ∃ bytes, Hex.decode (hexPart text) = some bytes ∧ bytes.length = 32 := by
  rw [decode_length_iff]
  constructor
  · rintro ⟨digits, rfl | rfl, hlen, hall⟩
    · have hplain : text.take 2 ≠ ['0', 'x'] := by
        intro htake
        have hmem : 'x' ∈ text.take 2 := by simp [htake]
        exact absurd (List.all_eq_true.mp hall 'x' (List.mem_of_mem_take hmem)) (by decide)
      exact ⟨.inr hall, by rwa [hexPart_of_not_literal hplain], by rwa [hexPart_of_not_literal hplain]⟩
    · exact ⟨.inl rfl, hlen, hall⟩
  · rintro ⟨hlooks, hlen, hall⟩
    by_cases htake : text.take 2 = ['0', 'x']
    · obtain ⟨rest, rfl⟩ : ∃ rest, text = '0' :: 'x' :: rest :=
        ⟨text.drop 2, by rw [← List.take_append_drop 2 text, htake]; rfl⟩
      exact ⟨rest, .inr rfl, hlen, hall⟩
    · rw [hexPart_of_not_literal htake] at hlen hall
      exact ⟨text, .inl rfl, hlen, hall⟩

lemma isHexDigit_of_isDigit {c : Char} (h : c.isDigit = true) : Hex.isHexDigit c = true := by
  have hrange : '0' ≤ c ∧ c ≤ '9' := by simpa [Char.isDigit, Char.le_def] using h
  simp [Hex.isHexDigit, Hex.hexValue, hrange]

/-- Without a sign the digits would be hex digits, so only signed numbers get to the second branch. -/
lemma signedNumberText_iff (text : List Char) :
    SignedNumberText text ↔ ¬LooksHex text ∧ ∃ n, Text.parseUnsigned 64 text = some n := by
  constructor
  · rintro ⟨digits, n, rfl, hdigits, hn⟩
    refine ⟨?_, n, ?_⟩
    · rintro (htake | hall)
      · cases htake
      · simp [Hex.isHexDigit, Hex.hexValue] at hall
    · simpa [Text.parseUnsigned, hdigits] using hn
  · rintro ⟨hlooks, n, hn⟩
    unfold Text.parseUnsigned at hn
    dsimp only at hn
    split at hn
    · next digits =>
      obtain ⟨m, hm, hlt⟩ := Option.bind_eq_some_iff.mp hn
      split_ifs at hlt with hbound
      exact ⟨digits, m, rfl, hm, hbound⟩
    · obtain ⟨m, hm, -⟩ := Option.bind_eq_some_iff.mp hn
      unfold Text.parseDecimal at hm
      split_ifs at hm with hdigits
      refine absurd (.inr (List.all_eq_true.mpr fun c hc => isHexDigit_of_isDigit ?_)) hlooks
      simp only [Bool.or_eq_true, not_or, Bool.not_eq_true', Bool.not_eq_false] at hdigits
      exact List.all_eq_true.mp hdigits.2 c hc

lemma preprocessEntryArg_eq_self_iff (arg : Bytes) : preprocessEntryArg arg = arg ↔ ¬ReadAsText arg := by
  unfold preprocessEntryArg ReadAsText
  by_cases hsize : arg.length = 1 ∨ arg.length = 8 ∨ arg.length = 16
  · simp [hsize]
  rw [if_neg hsize]
  cases hs : Text.utf8Decode arg with
  | none => simp
  | some s =>
    simp only [hsize, not_false_eq_true, true_and, Option.some.injEq, exists_eq_left', not_or]
    rw [addressText_iff, signedNumberText_iff]
    have hlong : (Text.trim s).length ≤ arg.length :=
      (trim_length_le s).trans (utf8Decode_length_le hs)
    by_cases hlooks : LooksHex (Text.trim s)
    · rw [if_pos (show _ ∨ _ from hlooks)]
      -- The address is shorter than its digits, so it cannot be the argument itself.
      have hshort : ∀ bytes, Hex.decode (hexPart (Text.trim s)) = some bytes → bytes.length = 32 →
          bytes ≠ arg := by
        rintro bytes hdecode hbytes rfl
        have hdigits := (decode_length_iff.mp ⟨bytes, hdecode, hbytes⟩).1
        have hpart := hexPart_length_le (Text.trim s)
        omega
      split
      · next bytes hdecode =>
        change Hex.decode (hexPart (Text.trim s)) = some bytes at hdecode
        by_cases hbytes : bytes.length = 32
        · simp [hlooks, hdecode, hbytes, hshort bytes hdecode hbytes]
        · simp [hlooks, hdecode, hbytes]
      · next hdecode =>
        change Hex.decode (hexPart (Text.trim s)) = none at hdecode
        simp [hlooks, hdecode]
    · rw [if_neg (show ¬(_ ∨ _) from hlooks)]
      cases hn : Text.parseUnsigned 64 (Text.trim s) with
      | none => simp [hlooks]
      | some n =>
        have hne : Text.leBytes 8 n ≠ arg := by
          rintro rfl
          simp at hsize
        simp [hlooks, hne]

/-- The arguments reach the binding as they were serialised exactly when none of them reads as
the text of an address or of a signed number. -/
theorem entry_args_unaltered_iff (values : List MoveValue) :
    preprocessEntryArgs (values.map MoveValue.bcs) = values.map MoveValue.bcs ↔
      ∀ v ∈ values, ¬ReadAsText v.bcs := by
  rw [preprocessEntryArgs, List.map_map]
  rw [List.map_inj_left]
  exact forall₂_congr fun v _ => preprocessEntryArg_eq_self_iff v.bcs

/-- The `u16` 13611 is the text of `+5` and becomes the `u64` 5, and the string `+12345678` loses
its length, which is a tab. -/
theorem entry_args_altered :
    preprocessEntryArgs ([.uint .u16 13611, .string "+12345678"].map MoveValue.bcs) =
        [MoveValue.uint .u64 5, .uint .u64 12345678].map MoveValue.bcs ∧
      preprocessEntryArgs ([.uint .u16 13611, .string "+12345678"].map MoveValue.bcs) ≠
        [MoveValue.uint .u16 13611, .string "+12345678"].map MoveValue.bcs := by
  decide +kernel

end Kanari.Proofs

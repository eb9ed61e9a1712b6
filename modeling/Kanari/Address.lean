import Kanari.Lib.Hex
import Kanari.Lib.Text

/-!
# Account addresses and object identifiers

Object identifiers travel as text and have many spellings; `toHexLiteral` is the canonical one.
-/

namespace Kanari

abbrev Bytes := List UInt8

instance : LawfulBEq Bytes := List.instLawfulBEq

structure AccountAddress where
  bytes : Bytes
  length_eq : bytes.length = 32
  deriving DecidableEq

namespace AccountAddress

def ofBytes (b : Bytes) : Option AccountAddress :=
  if h : b.length = 32 then some ⟨b, h⟩ else none

def ofByte (b : UInt8) : AccountAddress := ⟨List.replicate 31 0 ++ [b], by simp⟩

def zero : AccountAddress := ofByte 0

def fromHex (hex : List Char) : Option AccountAddress := (Lib.Hex.decode hex).bind ofBytes

/-- Short literals are padded with zeros on the left; the `0x` is compulsory. -/
def fromHexLiteral (literal : String) : Option AccountAddress :=
  match literal.toList with
  | '0' :: 'x' :: hex => fromHex (List.replicate (64 - hex.length) '0' ++ hex)
  | _ => none

def shortStrLossless (a : AccountAddress) : List Char :=
  let hex := (Lib.Hex.encode a.bytes).dropWhile (· == '0')
  if hex.isEmpty then ['0'] else hex

def toHexLiteral (a : AccountAddress) : String := String.ofList ('0' :: 'x' :: shortStrLossless a)

@[simp] lemma ofBytes_bytes (a : AccountAddress) : ofBytes a.bytes = some a := by
  simp [ofBytes, a.length_eq]

lemma ext_bytes {a b : AccountAddress} (h : a.bytes = b.bytes) : a = b := by
  cases a; cases b; simp_all

lemma fromHex_encode (a : AccountAddress) : fromHex (Lib.Hex.encode a.bytes) = some a := by
  simp [fromHex, Lib.Hex.decode_encode]

/-- Stripping leading zeros and padding back to the old length is the identity. -/
lemma pad_dropWhile (l : List Char) :
    List.replicate (l.length - (l.dropWhile (· == '0')).length) '0' ++ l.dropWhile (· == '0') = l := by
  induction l with
  | nil => rfl
  | cons c l ih =>
    by_cases hc : c = '0'
    · subst hc
      have hle : (l.dropWhile (· == '0')).length ≤ l.length :=
        (List.dropWhile_suffix _).length_le
      simp only [List.dropWhile_cons, beq_self_eq_true, if_true, List.length_cons]
      rw [Nat.succ_sub hle, List.replicate_succ, List.cons_append, ih]
    · simp [hc]

theorem fromHexLiteral_toHexLiteral (a : AccountAddress) :
    fromHexLiteral (toHexLiteral a) = some a := by
  have hlen : (Lib.Hex.encode a.bytes).length = 64 := by simp [a.length_eq]
  have hpad := pad_dropWhile (Lib.Hex.encode a.bytes)
  rw [hlen] at hpad
  unfold fromHexLiteral toHexLiteral shortStrLossless
  simp only [String.toList_ofList]
  split
  · rename_i hempty
    have hnil : (Lib.Hex.encode a.bytes).dropWhile (· == '0') = [] := by simpa using hempty
    rw [hnil] at hpad
    have hzeros : List.replicate (64 - ['0'].length) '0' ++ ['0'] = Lib.Hex.encode a.bytes := by
      rw [← hpad]; rfl
    rw [hzeros, fromHex_encode]
  · rw [hpad, fromHex_encode]

def toNat (a : AccountAddress) : Nat := Lib.Text.leNat a.bytes.reverse

lemma toNat_injective : Function.Injective toNat := by
  intro a b h
  have := Lib.Text.leNat_injective (by simp [a.length_eq, b.length_eq]) h
  exact ext_bytes (List.reverse_injective this)

/-- Byte by byte, as the derived order of the source. -/
instance : LinearOrder AccountAddress where
  __ := PartialOrder.lift toNat toNat_injective
  le_total a b := Nat.le_total a.toNat b.toNat
  toDecidableLE a b := inferInstanceAs (Decidable (a.toNat ≤ b.toNat))
  toDecidableLT a b := inferInstanceAs (Decidable (a.toNat < b.toNat))
  toDecidableEq := inferInstance

end AccountAddress

open AccountAddress

def stdAccountAddress : AccountAddress := ofByte 1
def kanariSystemAccountAddress : AccountAddress := ofByte 2

/-- Collector of every gas fee. -/
def daoAccountAddress : AccountAddress :=
  ⟨[0x7e, 0x66, 0x9c, 0xf3, 0x09, 0xe9, 0x76, 0x1b, 0xeb, 0x20, 0x83, 0xd1, 0x25, 0x64, 0x89, 0x5c,
    0xce, 0xa1, 0x38, 0x9f, 0x28, 0x51, 0xa4, 0x79, 0xed, 0xcc, 0x0d, 0x1a, 0xd1, 0x9e, 0x43, 0x50],
    rfl⟩

example : fromHexLiteral "0x7e669cf309e9761beb2083d12564895ccea1389f2851a479edcc0d1ad19e4350" =
    some daoAccountAddress := by decide +kernel

def canonicalObjectId (id : String) : Option String :=
  let trimmed := Lib.Text.trim id.toList
  let wellFormed :=
    match trimmed with
    | '0' :: 'x' :: hex => !hex.isEmpty && hex.all Lib.Hex.isHexDigit
    | '0' :: 'X' :: hex => !hex.isEmpty && hex.all Lib.Hex.isHexDigit
    | other => other.all Lib.Hex.isHexDigit
  if wellFormed then (fromHexLiteral (String.ofList trimmed)).map toHexLiteral else none

lemma isHexDigit_of_mem_short {a : AccountAddress} {c : Char} (h : c ∈ shortStrLossless a) :
    Lib.Hex.isHexDigit c = true := by
  unfold shortStrLossless at h
  dsimp only at h
  split_ifs at h
  · simp only [List.mem_singleton] at h
    subst h
    decide
  · exact Lib.Hex.isHexDigit_of_mem_encode ((List.dropWhile_suffix _).subset h)

lemma short_ne_nil (a : AccountAddress) : shortStrLossless a ≠ [] := by
  unfold shortStrLossless
  dsimp only
  split_ifs with h
  · simp
  · simpa using h

lemma not_whitespace_of_isHexDigit {c : Char} (h : Lib.Hex.isHexDigit c = true) :
    Lib.Text.isWhitespace c = false := by
  have hrange : 48 ≤ c.toNat ∧ c.toNat ≤ 102 := by
    unfold Lib.Hex.isHexDigit Lib.Hex.hexValue at h
    split_ifs at h with h₁ h₂ h₃
    · exact ⟨h₁.1, le_trans (show c.toNat ≤ '9'.toNat from h₁.2) (by decide)⟩
    · exact ⟨le_trans (by decide) (show 'a'.toNat ≤ c.toNat from h₂.1), h₂.2⟩
    · exact ⟨le_trans (by decide) (show 'A'.toNat ≤ c.toNat from h₃.1),
        le_trans (show c.toNat ≤ 'F'.toNat from h₃.2) (by decide)⟩
    · cases h
  unfold Lib.Text.isWhitespace
  simp only [Bool.or_eq_false_iff, Bool.and_eq_false_iff, decide_eq_false_iff_not, beq_eq_false_iff_ne]
  omega

/-- The canonical spelling of an address is its own canonical identifier. -/
theorem canonicalObjectId_toHexLiteral (a : AccountAddress) :
    canonicalObjectId a.toHexLiteral = some a.toHexLiteral := by
  have hplain : ∀ c ∈ '0' :: 'x' :: shortStrLossless a, Lib.Text.isWhitespace c = false := by
    intro c hc
    rcases List.mem_cons.mp hc with rfl | hc
    · decide
    rcases List.mem_cons.mp hc with rfl | hc
    · decide
    · exact not_whitespace_of_isHexDigit (isHexDigit_of_mem_short hc)
  have htrim : Lib.Text.trim a.toHexLiteral.toList = '0' :: 'x' :: shortStrLossless a := by
    unfold toHexLiteral
    rw [String.toList_ofList, Lib.Text.trim_of_no_whitespace hplain]
  have hdigits : (shortStrLossless a).all Lib.Hex.isHexDigit = true :=
    List.all_eq_true.mpr fun c hc => isHexDigit_of_mem_short hc
  have hne : (shortStrLossless a).isEmpty = false := by simpa using short_ne_nil a
  unfold canonicalObjectId
  simp only [htrim, hdigits, hne, Bool.not_false, Bool.and_self, if_true]
  rw [show String.ofList ('0' :: 'x' :: shortStrLossless a) = a.toHexLiteral from rfl,
    fromHexLiteral_toHexLiteral]
  rfl

lemma canonicalObjectId_idem {id canonicalId : String} (h : canonicalObjectId id = some canonicalId) :
    canonicalObjectId canonicalId = some canonicalId := by
  unfold canonicalObjectId at h
  dsimp only at h
  split_ifs at h
  obtain ⟨a, -, rfl⟩ := Option.map_eq_some_iff.mp h
  exact canonicalObjectId_toHexLiteral a

/-! ## Addresses as users write them

`hashPublicKey tag key` is the address of a tagged public key, a SHA3 digest. -/

def splitOnce (sep : Char) : List Char → Option (List Char × List Char)
  | [] => none
  | c :: cs =>
    if c == sep then some ([], cs)
    else (splitOnce sep cs).map fun p => (c :: p.1, p.2)

/-- Unlike `AccountAddress.fromHexLiteral`, rejects the zero address and the bare `0x`. -/
def kanariFromHex (hex : List Char) : Option AccountAddress :=
  if hex.isEmpty then none
  else (fromHex (List.replicate (64 - hex.length) '0' ++ hex)).filter (· != .zero)

/-- `fuel` bounds the number of `tag:` markers that are peeled off. -/
def kanariFromHexLiteral (hashPublicKey : List Char → List Char → Option AccountAddress) :
    Nat → List Char → Option AccountAddress
  | 0, _ => none
  | fuel + 1, literal =>
    match splitOnce ':' literal with
    | some (tag, addrOrPub) =>
      if addrOrPub.take 2 = ['0', 'x'] then kanariFromHexLiteral hashPublicKey fuel addrOrPub
      else hashPublicKey tag addrOrPub
    | none =>
      match literal with
      | '0' :: 'x' :: hex => kanariFromHex hex
      | _ => none

def parseToAccountAddress (hashPublicKey : List Char → List Char → Option AccountAddress)
    (s : String) : Option AccountAddress :=
  let cs := s.toList
  if cs.take 2 = ['0', 'x'] ∨ cs.contains ':' then
    kanariFromHexLiteral hashPublicKey (cs.length + 1) cs
  else
    let hex := Lib.Text.trim cs
    if hex.length = 64 then kanariFromHex hex
    else kanariFromHexLiteral hashPublicKey (cs.length + 3) ('0' :: 'x' :: hex)

end Kanari

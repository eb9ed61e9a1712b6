import Kanari.MoveTypes

/-!
# Reading type names

`TypeTag::from_str` and `StructTag::from_str`. Literals of the shared tokenizer never belong to a
type, so here they are errors of the tokenizer already.
-/

namespace Kanari

structure StructTag where
  address : AccountAddress
  module : String
  name : String
  typeParams : List TypeTag

def StructTag.display (st : StructTag) : String :=
  (TypeTag.struct st.address st.module st.name st.typeParams).display

namespace TypeParser

inductive Token where
  | address (hex : List Char)
  | name (s : List Char)
  | colonColon | lt | gt | comma
  deriving DecidableEq

def isAsciiWhitespace (c : Char) : Bool :=
  c == ' ' || c == '\t' || c == '\n' || c == '\r' || c.toNat == 12

def isIdentifierChar (c : Char) : Bool := c == '_' || c.isAlpha || c.isDigit

/-- `fuel` bounds the number of characters. -/
def tokenize : Nat → List Char → Option (List Token)
  | 0, _ => none
  | fuel + 1, cs =>
    match cs with
    | [] => some []
    | '<' :: rest => (tokenize fuel rest).map (.lt :: ·)
    | '>' :: rest => (tokenize fuel rest).map (.gt :: ·)
    | ',' :: rest => (tokenize fuel rest).map (.comma :: ·)
    | ':' :: ':' :: rest => (tokenize fuel rest).map (.colonColon :: ·)
    | c :: rest =>
      if c == '0' && (rest.head? == some 'x' || rest.head? == some 'X') then
        let hex := rest.tail.takeWhile Lib.Hex.isHexDigit
        if hex.isEmpty then none
        else (tokenize fuel (rest.tail.dropWhile Lib.Hex.isHexDigit)).map (.address hex :: ·)
      else if isAsciiWhitespace c then tokenize fuel rest
      else if c.isAlpha then
        (tokenize fuel (rest.dropWhile isIdentifierChar)).map
          (.name (c :: rest.takeWhile isIdentifierChar) :: ·)
      else none

def primitive : List Char → Option TypeTag
  | ['u', '8'] => some .u8
  | ['u', '1', '6'] => some .u16
  | ['u', '3', '2'] => some .u32
  | ['u', '6', '4'] => some .u64
  | ['u', '1', '2', '8'] => some .u128
  | ['u', '2', '5', '6'] => some .u256
  | ['b', 'o', 'o', 'l'] => some .bool
  | ['a', 'd', 'd', 'r', 'e', 's', 's'] => some .address
  | ['s', 'i', 'g', 'n', 'e', 'r'] => some .signer
  | _ => none

mutual

/-- `fuel` bounds the nesting of types and the length of argument lists. -/
def parseTypeTag : Nat → List Token → Option (TypeTag × List Token)
  | 0, _ => none
  | fuel + 1, .name ['v', 'e', 'c', 't', 'o', 'r'] :: .lt :: rest =>
    match parseTypeTag fuel rest with
    | some (elem, .gt :: rest) => some (.vector elem, rest)
    | _ => none
  | _ + 1, .name s :: rest => (primitive s).map (·, rest)
  | fuel + 1, .address hex :: .colonColon :: .name module :: .colonColon :: .name name :: rest =>
    let struct (tyArgs : List TypeTag) (rest : List Token) : Option (TypeTag × List Token) :=
      (AccountAddress.fromHexLiteral (String.ofList ('0' :: 'x' :: hex))).map fun addr =>
        (.struct addr (String.ofList module) (String.ofList name) tyArgs, rest)
    match rest with
    | .lt :: .gt :: rest => struct [] rest
    | .lt :: rest => (parseTypeArgs fuel rest).bind fun p => struct p.1 p.2
    | rest => struct [] rest
  | _ + 1, _ => none

/-- A non-empty comma list up to and including `>`; a trailing comma is allowed. -/
def parseTypeArgs : Nat → List Token → Option (List TypeTag × List Token)
  | 0, _ => none
  | fuel + 1, tokens =>
    match parseTypeTag fuel tokens with
    | some (t, .gt :: rest) => some ([t], rest)
    | some (t, .comma :: .gt :: rest) => some ([t], rest)
    | some (t, .comma :: rest) => (parseTypeArgs fuel rest).map fun p => (t :: p.1, p.2)
    | _ => none

end

end TypeParser

def typeTagFromStr (s : String) : Option TypeTag :=
  let cs := s.toList
  (TypeParser.tokenize (cs.length + 1) cs).bind fun tokens =>
    match TypeParser.parseTypeTag (tokens.length + 1) tokens with
    | some (t, []) => some t
    | _ => none

def structTagFromStr (s : String) : Option StructTag :=
  match typeTagFromStr s with
  | some (.struct address module name typeParams) => some ⟨address, module, name, typeParams⟩
  | _ => none

/-- The canonical text of a token type; text that is no struct type is kept. -/
def normalizeTokenType (tokenType : String) : String :=
  match structTagFromStr tokenType with
  | some st => st.display
  | none => tokenType

example : normalizeTokenType "0x00002::kanari::KANARI" = "0x2::kanari::KANARI" := by decide +kernel

example : (structTagFromStr "0x2::coin::Coin<0x2::kanari::KANARI>").map StructTag.display =
    some "0x2::coin::Coin<0x2::kanari::KANARI>" := by decide +kernel

end Kanari

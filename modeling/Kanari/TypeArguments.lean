import Kanari.TypeParser

/-!
# Type arguments of a call

`parse_type_tag` of the engine, a second reader of type names beside `TypeTag::from_str`.
-/

namespace Kanari

open Lib

def splitColons : List Char → List (List Char)
  | [] => [[]]
  | ':' :: ':' :: rest => [] :: splitColons rest
  | c :: rest =>
    match splitColons rest with
    | [] => [[c]]
    | part :: parts => (c :: part) :: parts

/-- `<SELF>` is what a compiled script calls itself. -/
def isIdentifier : List Char → Bool
  | ['<', 'S', 'E', 'L', 'F', '>'] => true
  | [] => false
  | c :: rest => (c.isAlpha || (c == '_' && !rest.isEmpty)) && rest.all TypeParser.isIdentifierChar

namespace TypeArgument

/-- `depth` counts the open brackets, `part` is what was read since the last comma. -/
def splitFrom (depth : Nat) (part : List Char) : List Char → List (List Char)
  | [] => [Text.trim part]
  | ch :: rest =>
    if ch = '<' then splitFrom (depth + 1) (part ++ [ch]) rest
    else if ch = '>' then splitFrom (depth - 1) (part ++ [ch]) rest
    else if ch = ',' ∧ depth = 0 then Text.trim part :: splitFrom 0 [] rest
    else splitFrom depth (part ++ [ch]) rest

def splitTopLevelCommas (s : List Char) : List (List Char) := splitFrom 0 [] s

def primitive : List Char → Option TypeTag
  | ['b', 'o', 'o', 'l'] => some .bool
  | ['u', '8'] => some .u8
  | ['u', '6', '4'] => some .u64
  | ['u', '1', '2', '8'] => some .u128
  | ['a', 'd', 'd', 'r', 'e', 's', 's'] => some .address
  | _ => none

def vectorInner : List Char → Option (List Char)
  | 'v' :: 'e' :: 'c' :: 't' :: 'o' :: 'r' :: '<' :: rest =>
    if rest.getLast? = some '>' then some rest.dropLast else none
  | _ => none

/-- The name of a struct, and what stands between its brackets if it has any. -/
def splitGenerics (nameAndGenerics : List Char) : Option (List Char × Option (List Char)) :=
  if '<' ∈ nameAndGenerics then
    let name := nameAndGenerics.takeWhile (· ≠ '<')
    if nameAndGenerics.getLast? ≠ some '>' ∨ nameAndGenerics.length ≤ name.length + 1 then none
    else some (Text.trim name, some (nameAndGenerics.drop (name.length + 1)).dropLast)
  else some (nameAndGenerics, none)

def identifier (s : List Char) : Option String :=
  if isIdentifier s then some (String.ofList s) else none

section

variable (hashPublicKey : List Char → List Char → Option AccountAddress)

/-- `fuel` bounds the depth of the nesting. -/
def parse : Nat → List Char → Option TypeTag
  | 0, _ => none
  | fuel + 1, text =>
    let s := Text.trim text
    (primitive s).or <|
      match vectorInner s with
      | some inner => (parse fuel inner).map .vector
      | none =>
        match splitColons s with
        | addr :: module :: part :: parts => do
          let (name, generics) ← splitGenerics (Text.trim ([':', ':'].intercalate (part :: parts)))
          let address ← parseToAccountAddress hashPublicKey (String.ofList (Text.trim addr))
          let moduleId ← identifier (Text.trim module)
          let nameId ← identifier name
          let typeParams ← match generics with
            | some inner => ((splitTopLevelCommas inner).filter (! ·.isEmpty)).mapM (parse fuel)
            | none => some []
          return .struct address moduleId nameId typeParams
        | _ => none

end

end TypeArgument

def parseTypeTag (hashPublicKey : List Char → List Char → Option AccountAddress) (s : String) : Option TypeTag :=
  TypeArgument.parse hashPublicKey (s.length + 1) s.toList

end Kanari

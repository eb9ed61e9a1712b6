import Kanari.Objects

/-!
# Binding the arguments of an entry function

The argument side of `execute_entry_function_internal`. What is left in `finalArgs` is what the
virtual machine deserialises, purely by layout.
-/

namespace Kanari

open Lib

structure ModuleId where
  address : AccountAddress
  name : String
  deriving DecidableEq

/-- Hex addresses become 32 bytes, signed decimal text becomes a `u64`; the rest is kept.
Lengths 1, 8 and 16 are taken for serialised numbers. -/
def preprocessEntryArg (arg : Bytes) : Bytes :=
  if arg.length = 1 ∨ arg.length = 8 ∨ arg.length = 16 then arg
  else
    match Text.utf8Decode arg with
    | none => arg
    | some s =>
      let sTrim := Text.trim s
      -- Plain decimal digits are hex digits too, so they never reach the `u64` branch.
      if sTrim.take 2 = ['0', 'x'] ∨ sTrim.all Hex.isHexDigit then
        let cleanHex := match sTrim with
          | '0' :: 'x' :: rest => rest
          | other => other
        match Hex.decode cleanHex with
        | some bytes => if bytes.length = 32 then bytes else arg
        | none => arg
      else
        match Text.parseUnsigned 64 sTrim with
        | some n => Text.leBytes 8 n
        | none => arg

def preprocessEntryArgs (args : List Bytes) : List Bytes := args.map preprocessEntryArg

def asciiBytes (s : String) : Bytes := s.toList.map fun c => UInt8.ofNat c.toNat

/-- ULEB128, at most five groups of seven bits: the length of a BCS sequence. -/
def uleb128 : Nat → Nat → Bytes
  | 0, _ => []
  | groups + 1, n =>
    if n < 128 then [UInt8.ofNat n] else UInt8.ofNat (n % 128 + 128) :: uleb128 groups (n / 128)

def bcsBytes (b : Bytes) : Bytes := uleb128 5 b.length ++ b

def buildTxContextBytes (blake3 : Bytes → Bytes) (sender : Option AccountAddress)
    (timestamp : Option Nat) (txHash : Option Bytes) : Bytes :=
  let senderAddr := sender.getD .zero
  let epochTimestampMs := timestamp.getD 0
  let hash := match txHash with
    | some raw => if raw.length = 32 then raw else blake3 raw
    | none => blake3 (asciiBytes "kanari-txctx-v1" ++ senderAddr.bytes ++
        Text.leBytes 8 epochTimestampMs)
  senderAddr.bytes ++ bcsBytes hash ++ Text.leBytes 8 0 ++ Text.leBytes 8 epochTimestampMs ++
    Text.leBytes 8 0

def isTxContextStruct : TypeTag → Bool
  | .struct addr module name _ =>
    addr == kanariSystemAccountAddress && module == "tx_context" && name == "TxContext"
  | _ => false

def typeTagForParam (paramType : RuntimeType) : Option TypeTag :=
  match typeToTypeTag paramType, paramType with
  | some tag, _ => some tag
  | none, .reference inner | none, .mutableReference inner => typeToTypeTag inner
  | none, _ => none

def isTxContextParam (paramType : RuntimeType) : Bool :=
  match typeTagForParam paramType with
  | some tag => isTxContextStruct tag
  | none => false

def isStructTag : Option TypeTag → Bool
  | some (.struct ..) => true
  | _ => false

def isRuntimeStructLike : RuntimeType → Bool
  | .struct _ | .structInstantiation .. => true
  | _ => false

def isStructInstantiation : RuntimeType → Bool
  | .structInstantiation .. => true
  | _ => false

def isKeyStructParam (paramType : RuntimeType) : Bool :=
  isRuntimeStructLike paramType && hasKey paramType

/-- `some mutable` for a parameter that takes an object. A reference to any generic struct
counts, whatever its abilities; a generic struct by value does not, because the abilities of
an uninstantiated type are unknown. -/
def objectParamMutability : RuntimeType → Option Bool
  | .reference inner =>
    if isKeyStructParam inner || isStructInstantiation inner then some false else none
  | .mutableReference inner =>
    if isKeyStructParam inner || isStructInstantiation inner then some true else none
  | .struct d => if isKeyStructParam (.struct d) then some true else none
  | .structInstantiation d args =>
    if isKeyStructParam (.structInstantiation d args) then some true else none
  | _ => none

def isObjectParam (paramType : RuntimeType) : Bool := (objectParamMutability paramType).isSome

structure ObjectParamBindingRequirement where
  paramIndex : Nat
  mutable : Bool
  deriving DecidableEq

def bindingRequirementsFrom : Nat → List RuntimeType → List ObjectParamBindingRequirement
  | _, [] => []
  | i, ty :: rest =>
    match objectParamMutability ty with
    | some mutable =>
      if isTxContextParam ty then bindingRequirementsFrom (i + 1) rest
      else ⟨i, mutable⟩ :: bindingRequirementsFrom (i + 1) rest
    | none => bindingRequirementsFrom (i + 1) rest

def validateInputBinding (input : ObjectInput) (requirement : ObjectParamBindingRequirement) :
    Except String Unit := do
  ensure (!requirement.mutable || input.mutable)
    s!"Object input {input.objectRef.objectId} mutability does not match function parameter {requirement.paramIndex}"
  ensure input.owner.isSome
    (s!"Object input {input.objectRef.objectId} must declare owner semantics " ++
      s!"for function parameter {requirement.paramIndex}")
  ensure (!requirement.mutable || input.owner != some .immutable)
    (s!"Immutable object input {input.objectRef.objectId} cannot bind " ++
      s!"to mutable function parameter {requirement.paramIndex}")

/-- Inputs are matched with requirements by position; nothing compares two inputs. -/
def validateObjectInputBindings (objectInputs : List ObjectInput)
    (requirements : List ObjectParamBindingRequirement) (allowExtraDependencyInputs : Bool) :
    Except String Unit := do
  ensure (!(objectInputs.length < requirements.length ||
      (!allowExtraDependencyInputs && objectInputs.length != requirements.length)))
    (s!"Declared object_inputs count mismatch: function expects {requirements.length} object params, " ++
      s!"got {objectInputs.length}")
  forOk (fun p => validateInputBinding p.1 p.2) (objectInputs.zip requirements)

structure EntryContext where
  moduleId : ModuleId
  parameters : List RuntimeType
  typeToTypeLayout : RuntimeType → Option MoveTypeLayout
  view : ExecutionView
  objectInputs : List ObjectInput
  sender : Option AccountAddress
  bypassEntryCheck : Bool

structure LoadedMutableObject where
  paramIndex : Nat
  id : String
  owner : AccountAddress
  ownerKind : ObjectOwnerKind
  typeName : String
  version : Nat
  deriving DecidableEq

/-- `bound` is a record of the model only: the object that each parameter was filled from. -/
structure BindState where
  finalArgs : List Bytes
  explicitObjectBindings : List ObjectInput
  loadedMutableObjects : List LoadedMutableObject := []
  bound : List (Nat × StoredObject) := []

def EntryContext.explicitObjectIds (ctx : EntryContext) : List String :=
  ctx.objectInputs.map (·.objectRef.objectId)

def synthesizeOtwBytesFromLayout : MoveTypeLayout → Option Bytes
  | .struct [] => some []
  | .struct [.bool] => some [1]
  | _ => none

/-- `none` leaves the loop: the argument is missing and no object can stand for it. -/
def ensureSlot (ctx : EntryContext) (i : Nat) (paramType : RuntimeType) (finalArgs : List Bytes) :
    Option (List Bytes) :=
  if finalArgs.length ≤ i then
    if !ctx.bypassEntryCheck && isObjectParam paramType && !isTxContextParam paramType then
      some (finalArgs ++ List.replicate (i + 1 - finalArgs.length) [])
    else none
  else some finalArgs

/-- Bytes of a one-time witness: the struct named like the module, in upper case. -/
def otwBytes (ctx : EntryContext) (paramType : RuntimeType) : Option Bytes :=
  match typeTagForParam paramType with
  | some (.struct addr module name _) =>
    if addr == ctx.moduleId.address && module == ctx.moduleId.name &&
        name.toList == ctx.moduleId.name.toList.map Char.toUpper then
      (ctx.typeToTypeLayout paramType).bind synthesizeOtwBytesFromLayout
    else none
  | _ => none

def synthesizeOtw (ctx : EntryContext) (i : Nat) (paramType : RuntimeType) (st : BindState) :
    BindState :=
  if (st.finalArgs.getD i []).isEmpty then
    match otwBytes ctx paramType with
    | some bytes => { st with finalArgs := st.finalArgs.set i bytes }
    | none => st
  else st

def takesExplicitInput (paramType : RuntimeType) : Bool :=
  isObjectParam paramType && isStructTag (typeTagForParam paramType)

def takeExplicitInput (i : Nat) (paramType : RuntimeType) (st : BindState) :
    Except String (BindState × Bool) :=
  if takesExplicitInput paramType then
    match st.explicitObjectBindings with
    | [] => .ok (st, false)
    | input :: rest =>
      match AccountAddress.fromHexLiteral input.objectRef.objectId with
      | none =>
        .error s!"Invalid explicit object input {input.objectRef.objectId} for parameter {i}"
      | some addr =>
        .ok ({ st with
          finalArgs := st.finalArgs.set i addr.bytes
          explicitObjectBindings := rest }, true)
  else .ok (st, false)

def rawAccessAllowed (sender : Option AccountAddress) (owner : AccountAddress) : Bool :=
  match sender with
  | none => true
  | some s => owner == s || owner == .zero || owner == kanariSystemAccountAddress ||
      owner == stdAccountAddress

def isWrittenBack : RuntimeType → Bool
  | .mutableReference _ | .struct _ | .structInstantiation .. => true
  | _ => false

def fillFrom (i : Nat) (paramType : RuntimeType) (st : BindState) (obj : StoredObject) : BindState :=
  { st with
    finalArgs := st.finalArgs.set i obj.data
    loadedMutableObjects :=
      if isWrittenBack paramType then
        st.loadedMutableObjects ++
          [⟨i, obj.id, obj.owner, obj.ownerKind, obj.typeName, obj.version⟩]
      else st.loadedMutableObjects
    bound := st.bound ++ [(i, obj)] }

def loadStoredObject (ctx : EntryContext) (i : Nat) (paramType : RuntimeType)
    (boundFromExplicitInput : Bool) (st : BindState) : Except String BindState :=
  if isObjectParam paramType && !isTxContextParam paramType then
    match AccountAddress.ofBytes (st.finalArgs.getD i []) with
    | none => .ok st
    | some objectAddr =>
      let objectId := objectAddr.toHexLiteral
      -- Declared identifiers are compared as text: a spelling other than the canonical one
      -- is not found here, and the 32 bytes go on as they are.
      if !ctx.explicitObjectIds.isEmpty && !ctx.explicitObjectIds.contains objectId then .ok st
      else
        match ctx.view.getObjectForExecution objectId with
        | none => .ok st
        | some obj =>
          if boundFromExplicitInput || ctx.explicitObjectIds.contains objectId ||
              rawAccessAllowed ctx.sender obj.owner then
            .ok (fillFrom i paramType st obj)
          else .error "Ownership verification failed"
  else .ok st

def bindParam (ctx : EntryContext) (i : Nat) (paramType : RuntimeType) (st : BindState) :
    Except String BindState := do
  let (st', boundFromExplicitInput) ← takeExplicitInput i paramType (synthesizeOtw ctx i paramType st)
  loadStoredObject ctx i paramType boundFromExplicitInput st'

def bindParams (ctx : EntryContext) : Nat → List RuntimeType → BindState → Except String BindState
  | _, [], st => .ok st
  | i, paramType :: rest, st =>
    match ensureSlot ctx i paramType st.finalArgs with
    | none => .ok st
    | some finalArgs => do
      let st' ← bindParam ctx i paramType { st with finalArgs := finalArgs }
      bindParams ctx (i + 1) rest st'

def lastIsTxContext (parameters : List RuntimeType) : Bool :=
  match parameters.getLast? with
  | some ty => isTxContextParam ty
  | none => false

/-- The context is only ever appended; a slot that the caller filled is left alone. -/
def appendTxContext (ctx : EntryContext) (txContextBytes : Bytes) (st : BindState) : BindState :=
  if ctx.parameters.length = st.finalArgs.length + 1 ∧ lastIsTxContext ctx.parameters then
    { st with finalArgs := st.finalArgs ++ [txContextBytes] }
  else st

/-- System functions bind by identifier only, so the declared inputs are not counted there. -/
def validateDeclaredInputs (ctx : EntryContext) : Except String Unit :=
  if ctx.bypassEntryCheck then .ok ()
  else validateObjectInputBindings ctx.objectInputs (bindingRequirementsFrom 0 ctx.parameters) true

def bindEntryArgs (ctx : EntryContext) (args : List Bytes) (txContextBytes : Bytes) :
    Except String BindState := do
  validateDeclaredInputs ctx
  let st ← bindParams ctx 0 ctx.parameters
    { finalArgs := preprocessEntryArgs args, explicitObjectBindings := ctx.objectInputs }
  return appendTxContext ctx txContextBytes st

/-- The virtual machine deserialises one argument per parameter or rejects the call. -/
def vmAcceptsArgs (ctx : EntryContext) (st : BindState) : Bool :=
  ctx.parameters.length == st.finalArgs.length

end Kanari

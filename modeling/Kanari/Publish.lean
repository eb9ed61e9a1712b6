import Kanari.Engine

/-!
# Publishing modules

The runtime looks a module up in the store as it was committed before the checkpoint. The bytecode
format and the virtual machine are fields of `PublishEnv`.
-/

namespace Kanari

open Lib

namespace ModuleId

def key (id : ModuleId) : String := "module:" ++ id.address.toHexLiteral ++ ":" ++ id.name

def text (id : ModuleId) : String := String.ofList (Hex.encode id.address.bytes) ++ "::" ++ id.name

end ModuleId

inductive ModulePublishIntent where
  | bootstrap
  | publish
  | upgrade
  deriving DecidableEq

/-- The modules of the committed store, by key. -/
abbrev CommittedModules := OrdMap String Bytes

/-- Bytecode and the virtual machine. A session that publishes modules writes these modules and no
others; a session that calls a function writes none. -/
structure PublishEnv (Code : Type) where
  deserialize : Bytes → Except String Code
  selfId : Code → ModuleId
  verifyModuleUnmetered : Code → Except String Unit
  verifyModule : Code → Except String Unit
  checkCompatibility : (old new : Code) → Except String Unit
  session : CommittedModules → (sender : AccountAddress) → List Bytes → (gasLimit : Nat) →
    Except String (List Event × Nat)
  storageGas : (gasLimit gasPrice moduleSize written : Nat) → Except String Nat
  callFunction : StateManager → Transaction → Except String MoveOutput
  blake3 : Bytes → Bytes
  txHash : Transaction → Bytes
  hashPublicKey : List Char → List Char → Option AccountAddress
  callFunction_modules : ∀ {σ tx output}, callFunction σ tx = .ok output →
    ∀ key ∈ output.moveWrites.keys, "module:".toList.isPrefixOf key.toList = false

namespace PublishEnv

variable {Code : Type} (P : PublishEnv Code) (committed : CommittedModules)

def verifyModulePublishIntent (id : ModuleId) (intent : ModulePublishIntent) :
    Except String (Option Bytes) :=
  match intent, committed.find? id.key with
  | .bootstrap, oldBytes => .ok oldBytes
  | .publish, some _ =>
    .error s!"Module publish rejected: module {id.text} already exists. Use upgrade for compatibility-checked replacement."
  | .publish, none => .ok none
  | .upgrade, none =>
    .error s!"Module upgrade rejected: module {id.text} does not exist. Publish the package before upgrading it."
  | .upgrade, some oldBytes => .ok (some oldBytes)

def verifyModuleUpgradeCompatibility (id : ModuleId) (compiled : Code) (moduleBytes oldBytes : Bytes) :
    Except String Unit :=
  if oldBytes = moduleBytes then .ok ()
  else do
    let oldCompiled ← P.deserialize oldBytes
    mapError (fun e => s!"Incompatible module upgrade for {id.text} rejected: {e}. Existing resources/objects " ++
        "must remain layout-compatible; publish a compatible module or run an explicit migration path first.")
      (P.checkCompatibility oldCompiled compiled)

def verifyOldVersion (id : ModuleId) (compiled : Code) (moduleBytes : Bytes) :
    Option Bytes → Except String Unit
  | some oldBytes => P.verifyModuleUpgradeCompatibility id compiled moduleBytes oldBytes
  | none => .ok ()

def verifyModulePublishSafety (sender : AccountAddress) (id : ModuleId) (compiled : Code)
    (moduleBytes : Bytes) (intent : ModulePublishIntent) : Except String Unit := do
  ensure (id.address == sender)
    (s!"Module publish rejected: sender {String.ofList (Hex.encode sender.bytes)} cannot publish " ++
      s!"module {id.text}. Module address must match the transaction sender.")
  let oldBytes ← verifyModulePublishIntent committed id intent
  P.verifyModuleUnmetered compiled
  P.verifyModule compiled
  P.verifyOldVersion id compiled moduleBytes oldBytes

/-- A module that passed the checks: its identifier and its bytes. -/
abbrev CheckedModule := ModuleId × Bytes

def finishPublish (sender : AccountAddress) (gasLimit gasPrice : Nat) (modules : List CheckedModule) :
    Except String MoveOutput := do
  let (events, vmGasUsed) ← P.session committed sender (modules.map (·.2)) gasLimit
  let moveWrites : OrdMap String (Option Bytes) :=
    modules.foldl (fun m e => m.insert e.1.key (some e.2)) .empty
  let written := (moveWrites.entries.map fun e => (e.2.map List.length).getD 0).sum
  let gasUsed ← P.storageGas gasLimit gasPrice (modules.map (·.2.length)).sum written
  return {
    publishedModules := modules.map fun e => (sender, e.1.name)
    events := events
    moveWrites := moveWrites
    gasUsed := max gasUsed vmGasUsed }

def checkModule (sender : AccountAddress) (intent : ModulePublishIntent) (moduleBytes : Bytes) :
    Except String CheckedModule := do
  let compiled ← P.deserialize moduleBytes
  let id := P.selfId compiled
  P.verifyModulePublishSafety committed sender id compiled moduleBytes intent
  return (id, moduleBytes)

/-- The declared name must be that of the bytecode. -/
def checkPackageModule (sender : AccountAddress) (intent : ModulePublishIntent)
    (checked : List CheckedModule) (m : PublishedModule) : Except String (List CheckedModule) := do
  let compiled ← P.deserialize m.moduleBytes
  let id := P.selfId compiled
  ensure (id.name == m.moduleName)
    s!"Module publish rejected: declared module name {m.moduleName} does not match bytecode self id {id.name}"
  P.verifyModulePublishSafety committed sender id compiled m.moduleBytes intent
  return checked ++ [(id, m.moduleBytes)]

def publishModuleWithIntent (moduleBytes : Bytes) (sender : AccountAddress) (gasLimit gasPrice : Nat)
    (intent : ModulePublishIntent) : Except String MoveOutput := do
  let checked ← P.checkModule committed sender intent moduleBytes
  P.finishPublish committed sender gasLimit gasPrice [checked]

def publishPackageWithIntent (modules : List PublishedModule) (sender : AccountAddress)
    (gasLimit gasPrice : Nat) (intent : ModulePublishIntent) : Except String MoveOutput := do
  let checked ← foldOk (P.checkPackageModule committed sender intent) [] modules
  P.finishPublish committed sender gasLimit gasPrice checked

def parseSender (tx : Transaction) : Except String AccountAddress :=
  match parseToAccountAddress P.hashPublicKey tx.header.sender with
  | some a => .ok a
  | none => .error s!"Invalid address {tx.header.sender}"

/-- One session of the runtime. Only a call of a function sees the state of the checkpoint. -/
def runMove (σ : StateManager) (tx : Transaction) : Except String MoveOutput := do
  let sender ← P.parseSender tx
  let limit := tx.header.gasLimit
  let price := effectiveGasPrice tx.header.gasPrice
  match tx.kind with
  | .publishModule m => P.publishModuleWithIntent committed m.moduleBytes sender limit price .publish
  | .upgradeModule m => P.publishModuleWithIntent committed m.moduleBytes sender limit price .upgrade
  | .publishPackage ms => P.publishPackageWithIntent committed ms sender limit price .publish
  | .upgradePackage ms => P.publishPackageWithIntent committed ms sender limit price .upgrade
  | .executeFunction _ => P.callFunction σ tx

def engine : EngineEnv where
  blake3 := P.blake3
  txHash := P.txHash
  hashPublicKey := P.hashPublicKey
  runMove := P.runMove committed

end PublishEnv

/-- A transaction, what it was turned into, and the states before and after. -/
structure SerialStep where
  tx : Transaction
  before : StateManager
  changeset : ChangeSet
  after : StateManager

namespace EngineEnv

variable (env : EngineEnv)

def executeNext (σ : StateManager) (tx : Transaction) : Except String SerialStep :=
  match env.executeTransaction σ tx with
  | .ok cs => do
    let σ' ← mapError (fun e => s!"Failed to apply serial transaction changeset: {e}")
      (σ.applyChangeset cs)
    return ⟨tx, σ, cs, σ'⟩
  | .error e => do
    let failed ← env.failedChangesetForError σ tx e
    let σ' ← mapError (fun e => s!"Failed to apply deterministic failure gas changeset: {e}")
      (σ.applyChangeset failed)
    return ⟨tx, σ, failed, σ'⟩

def executeSerial (σ : StateManager) : List Transaction → Except String (List SerialStep)
  | [] => .ok []
  | tx :: txs => do
    let step ← env.executeNext σ tx
    let steps ← executeSerial step.after txs
    return step :: steps

end EngineEnv

namespace PublishEnv

variable {Code : Type} (P : PublishEnv Code)

def executeCheckpoint (σ : StateManager) (txs : List Transaction) : Except String (List SerialStep) :=
  (P.engine σ.moveStore).executeSerial σ txs

end PublishEnv

end Kanari

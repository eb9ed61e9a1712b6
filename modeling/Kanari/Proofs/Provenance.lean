import Kanari.Proofs.ArgumentRouting
import Kanari.Proofs.TxContext

/-!
# Provenance of object arguments

The loop fills a parameter from the store only where the transaction names an object for it, and
never compares the stored type with the parameter's.
-/

namespace Kanari.Proofs

open Lib

def valueType : RuntimeType → RuntimeType
  | .reference inner => inner
  | .mutableReference inner => inner
  | ty => ty

/-- A value of a `key` struct type, with its bytes, anywhere in what is read from `bytes` at a type,
and not inside another such value. `parts` is the virtual machine's layout-driven reading of the
elements of a vector and of the fields of a struct. -/
inductive KeyValueIn (parts : RuntimeType → Bytes → List (RuntimeType × Bytes)) :
    RuntimeType → Bytes → RuntimeType × Bytes → Prop
  | here {ty : RuntimeType} {bytes : Bytes} (h : isKeyStructParam ty = true) :
      KeyValueIn parts ty bytes (ty, bytes)
  | inside {ty : RuntimeType} {bytes : Bytes} {p v : RuntimeType × Bytes} (h : isKeyStructParam ty = false)
      (hp : p ∈ parts ty bytes) (hv : KeyValueIn parts p.1 p.2 v) : KeyValueIn parts ty bytes v

def typeName (ty : RuntimeType) : Option String := (typeToTypeTag ty).map TypeTag.display

/-- Every `key` struct value that the virtual machine receives is the data of a live object of
its type, put there by the binding loop. -/
def ObjectArgumentsSound (parts : RuntimeType → Bytes → List (RuntimeType × Bytes)) (ctx : EntryContext)
    (tyArgs : List RuntimeType) (st : BindState) : Prop :=
  ∀ (j : Nat) (ty inst : RuntimeType) (bytes : Bytes), ctx.parameters[j]? = some ty →
    subst tyArgs ty = some inst → st.finalArgs[j]? = some bytes →
    ∀ v, KeyValueIn parts (valueType inst) bytes v → ∃ obj id, (j, obj) ∈ st.bound ∧
      ctx.view.getObjectForExecution id = some obj ∧ obj.data = v.2 ∧
      typeName v.1 = some obj.typeName

/-- The argument a parameter gets: the context where the caller left the slot of one open. -/
def givenBytes (ctx : EntryContext) (args : List Bytes) (txContextBytes : Bytes) (j : Nat) (ty : RuntimeType) :
    Bytes :=
  if isTxContextParam ty = true ∧ args.length ≤ j then txContextBytes else routedBytes ctx args j ty

/-- The transaction names a live object of type `inst` for a parameter of a `key` struct type. For any
other parameter it passes no `key` struct, be it in a vector or in a field, that is not the object
named there. -/
def NamesObjectOfType (parts : RuntimeType → Bytes → List (RuntimeType × Bytes)) (ctx : EntryContext)
    (args : List Bytes) (txContextBytes : Bytes) (j : Nat) (ty inst : RuntimeType) : Prop :=
  if isKeyStructParam (valueType inst) then
    ∃ obj, namedObject ctx args j ty = some obj ∧ typeName (valueType inst) = some obj.typeName
  else ∀ v, KeyValueIn parts (valueType inst) (givenBytes ctx args txContextBytes j ty) v →
    ∃ obj, namedObject ctx args j ty = some obj ∧ obj.data = v.2 ∧ typeName v.1 = some obj.typeName

variable {ctx : EntryContext} {args : List Bytes} {j : Nat} {ty : RuntimeType}

lemma isObjectParam_of_named {obj : StoredObject} (h : namedObject ctx args j ty = some obj) :
    isObjectParam ty = true ∧ isTxContextParam ty = false := by
  by_contra hno
  have : (isObjectParam ty && !isTxContextParam ty) = false := by
    rw [← Bool.not_eq_true]
    simpa using hno
  simp [namedObject, namedAddress, this] at h

lemma live_of_named {obj : StoredObject} (h : namedObject ctx args j ty = some obj) :
    ∃ id, ctx.view.getObjectForExecution id = some obj := by
  obtain ⟨a, -, hobj⟩ := Option.bind_eq_some_iff.mp h
  exact ⟨_, hobj⟩

lemma accepted_call_given {txContextBytes : Bytes} {st : BindState}
    (hbind : bindEntryArgs ctx args txContextBytes = .ok st) (hvm : vmAcceptsArgs ctx st = true)
    (hty : ctx.parameters[j]? = some ty) :
    st.finalArgs[j]? = some (givenBytes ctx args txContextBytes j ty) := by
  unfold givenBytes
  split_ifs with hopen
  · obtain ⟨looped, hloop, rfl⟩ := bindEntryArgs_eq_ok hbind
    have hshort := (bindParams_txContext hty hopen.1 hloop).2
    simp only [Nat.zero_add, preprocessEntryArgs, List.length_map] at hshort
    exact appendTxContext_open_slot (List.getElem?_eq_some_iff.mp hty).1 (hshort hopen.2) hvm
  · exact (accepted_call_routes hbind hvm).2 j ty hty fun hctx => Nat.lt_of_not_le fun hle => hopen ⟨hctx, hle⟩

/-- Provenance and type soundness of object arguments, for every accepted call. -/
theorem objectArguments_sound_iff (parts : RuntimeType → Bytes → List (RuntimeType × Bytes))
    (ctx : EntryContext) (tyArgs : List RuntimeType) (args : List Bytes) (txContextBytes : Bytes)
    (st : BindState) (hbind : bindEntryArgs ctx args txContextBytes = .ok st)
    (hvm : vmAcceptsArgs ctx st = true) :
    ObjectArgumentsSound parts ctx tyArgs st ↔
      ∀ (j : Nat) (ty inst : RuntimeType), ctx.parameters[j]? = some ty →
        subst tyArgs ty = some inst → NamesObjectOfType parts ctx args txContextBytes j ty inst := by
  have hbound := (accepted_call_routes hbind hvm).1
  constructor
  · intro hsound j ty inst hty hinst
    have hvalue : ∀ v, KeyValueIn parts (valueType inst) (givenBytes ctx args txContextBytes j ty) v →
        ∃ obj, namedObject ctx args j ty = some obj ∧ obj.data = v.2 ∧ typeName v.1 = some obj.typeName := by
      intro v hv
      obtain ⟨obj, -, hmem, -, hdata, hname⟩ :=
        hsound j ty inst _ hty hinst (accepted_call_given hbind hvm hty) v hv
      obtain ⟨ty', hty', hobj⟩ := (hbound j obj).mp hmem
      obtain rfl : ty = ty' := Option.some.inj (hty.symm.trans hty')
      exact ⟨obj, hobj, hdata, hname⟩
    unfold NamesObjectOfType
    split_ifs with hkey
    · obtain ⟨obj, hobj, -, hname⟩ := hvalue _ (.here hkey)
      exact ⟨obj, hobj, hname⟩
    · exact hvalue
  · intro hcond j ty inst bytes hty hinst hbytes v hv
    obtain rfl := Option.some.inj (hbytes.symm.trans (accepted_call_given hbind hvm hty))
    obtain ⟨obj, hobj, hdata, hname⟩ : ∃ obj, namedObject ctx args j ty = some obj ∧ obj.data = v.2 ∧
        typeName v.1 = some obj.typeName := by
      have hc := hcond j ty inst hty hinst
      unfold NamesObjectOfType at hc
      split_ifs at hc with hkey
      · obtain ⟨obj, hobj, hname⟩ := hc
        cases hv with
        | here =>
          refine ⟨obj, hobj, ?_, hname⟩
          simp only [givenBytes, (isObjectParam_of_named hobj).2, Bool.false_eq_true, false_and, if_false,
            routedBytes, hobj]
        | inside h => exact absurd hkey (by simp [h])
      · exact hc v hv
    obtain ⟨id, hlive⟩ := live_of_named hobj
    exact ⟨obj, id, (hbound j obj).mpr ⟨ty, hty, hobj⟩, hlive, hdata, hname⟩

/-! ## `kanari::transfer` and `coin::join_entry`

`transfer` takes `&mut Coin<KANARI>`, which an explicit input fills. `join_entry<T>` takes its
second coin by value, which nothing fills. -/

def senderCoin : StoredObject := Framework.coinObject (.ofByte 0xc) (.ofByte 0xa) GAS_COIN 100

def senderAccess : AccessEnv := Framework.accessEnvOf [senderCoin]

def senderCoinInput : ObjectInput := Framework.inputFor senderAccess.digest senderCoin true

def callOn (function : List RuntimeType) : EntryContext where
  moduleId := ⟨kanariSystemAccountAddress, "coin"⟩
  parameters := function
  typeToTypeLayout := fun _ => none
  view := Framework.viewOf [senderCoin]
  objectInputs := [senderCoinInput]
  sender := some (.ofByte 0xa)
  bypassEntryCheck := false

/-- A reading by which a struct has an address and a number as fields, and a vector single bytes. -/
def sampleParts : RuntimeType → Bytes → List (RuntimeType × Bytes)
  | .struct _, bytes => [(.address, bytes.take 32), (.u64, bytes.drop 32)]
  | .vector elem, bytes => bytes.map fun b => (elem, [b])
  | _, _ => []

theorem objectArguments_sound_transfer :
    ∃ st, bindEntryArgs (callOn Framework.transferParameters)
        [[], Text.leBytes 8 40, (AccountAddress.ofByte 0xb).bytes] [] = .ok st ∧
      ObjectArgumentsSound sampleParts (callOn Framework.transferParameters) [] st := by
  obtain ⟨st, hst, hvm⟩ := exists_of_okAnd
    (p := fun st => vmAcceptsArgs (callOn Framework.transferParameters) st)
    (x := bindEntryArgs (callOn Framework.transferParameters)
      [[], Text.leBytes 8 40, (AccountAddress.ofByte 0xb).bytes] []) (by decide +kernel)
  refine ⟨st, hst, (objectArguments_sound_iff _ _ [] _ _ st hst hvm).mpr ?_⟩
  have hflat : ∀ {ty bytes v}, isKeyStructParam ty = false → sampleParts ty bytes = [] →
      ¬KeyValueIn sampleParts ty bytes v := by
    intro ty bytes v hkey hparts hv
    cases hv with
    | here h => rw [hkey] at h; cases h
    | inside _ hp => rw [hparts] at hp; cases hp
  intro j ty inst hty hinst
  unfold NamesObjectOfType
  match j with
  | 0 =>
    cases hty; cases hinst
    rw [if_pos (by decide +kernel)]
    exact ⟨senderCoin, by decide +kernel, by decide +kernel⟩
  | 1 | 2 =>
    cases hty; cases hinst
    rw [if_neg (by decide +kernel)]
    exact fun v hv => absurd hv (hflat rfl rfl)
  | 3 =>
    cases hty; cases hinst
    rw [if_neg (by decide +kernel)]
    rintro v (h | ⟨-, hp, hv⟩)
    · cases h
    · simp only [valueType, sampleParts, List.mem_cons, List.not_mem_nil, or_false] at hp
      rcases hp with rfl | rfl
      · exact absurd hv (hflat rfl rfl)
      · exact absurd hv (hflat rfl rfl)
  | j + 4 => simp [callOn, Framework.transferParameters] at hty

def forgedCoin : Bytes := Framework.coinData (.ofByte 0xd) 1000000

/-- A transaction that declares its own coin and hands `join_entry<KANARI>` a second one made
of raw bytes passes validation, and the forged value reaches the virtual machine. -/
theorem objectArguments_forged_join :
    validateTransactionObjectAccess senderAccess [senderCoinInput] none (.ofByte 0xa) = .ok () ∧
    ∃ st, bindEntryArgs (callOn Framework.joinParameters)
        [(AccountAddress.ofByte 0xc).bytes, forgedCoin] [] = .ok st ∧
      vmAcceptsArgs (callOn Framework.joinParameters) st = true ∧
      st.finalArgs[1]? = some forgedCoin ∧
      ¬ ObjectArgumentsSound sampleParts (callOn Framework.joinParameters)
        [.struct Framework.kanariStruct] st := by
  refine ⟨by decide +kernel, ?_⟩
  obtain ⟨st, hst, hp⟩ := exists_of_okAnd
    (p := fun st => vmAcceptsArgs (callOn Framework.joinParameters) st &&
      st.finalArgs[1]? == some forgedCoin && st.bound.all (·.1 != 1))
    (x := bindEntryArgs (callOn Framework.joinParameters)
      [(AccountAddress.ofByte 0xc).bytes, forgedCoin] []) (by decide +kernel)
  simp only [Bool.and_eq_true, beq_iff_eq] at hp
  obtain ⟨⟨hvm, hforged⟩, hunbound⟩ := hp
  refine ⟨st, hst, hvm, hforged, fun hsound => ?_⟩
  obtain ⟨obj, -, hmem, -⟩ := hsound 1 (Framework.coinOf (.tyParam 0)) Framework.kanariCoin forgedCoin
    rfl (by rfl) hforged (Framework.kanariCoin, forgedCoin)
    (.here (by decide +kernel))
  have := List.all_eq_true.mp hunbound _ hmem
  simp at this

end Kanari.Proofs

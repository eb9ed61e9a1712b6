import Kanari.DynamicField

/-!
# The journal of dynamic fields

What a sequence of successful calls sees is a plain map from locations to bytes. A field of the
state that was removed, added again and removed once more leaves no operation behind.
-/

namespace Kanari.Proofs

open Lib DynamicFieldsExt

variable {Ty Val : Type}

/-! ## Locations and keys -/

lemma split_at_last_colon {a a' h h' : List Char} (hh : ':' ∉ h) (hh' : ':' ∉ h')
    (heq : a ++ ':' :: h = a' ++ ':' :: h') : a = a' ∧ h = h' := by
  rcases List.append_eq_append_iff.mp heq with ⟨c, rfl, hc⟩ | ⟨c, rfl, hc⟩
  · cases c with
    | nil => simpa using hc
    | cons x c =>
      obtain ⟨rfl, rfl⟩ := List.cons_eq_cons.mp hc
      exact absurd (List.mem_append_right c List.mem_cons_self) hh
  · cases c with
    | nil => simpa [eq_comm] using hc
    | cons x c =>
      obtain ⟨rfl, rfl⟩ := List.cons_eq_cons.mp hc
      exact absurd (List.mem_append_right c List.mem_cons_self) hh'

lemma colon_not_mem_encode (b : Bytes) : ':' ∉ Hex.encode b :=
  fun h => absurd (Hex.isHexDigit_of_mem_encode h) (by decide)

lemma encode_injective : Function.Injective Hex.encode := fun b b' h => by
  simpa [Hex.decode_encode] using congrArg Hex.decode h

lemma fieldKey_injective : Function.Injective fieldKey := by
  rintro ⟨id, name⟩ ⟨id', name'⟩ h
  have hlist := congrArg String.toList h
  simp only [fieldKey, String.toList_append, String.toList_ofList, List.append_assoc] at hlist
  obtain ⟨hid, hname⟩ := split_at_last_colon (colon_not_mem_encode name) (colon_not_mem_encode name') hlist
  rw [String.toList_injective hid, encode_injective hname]

lemma dynamicFieldKey_eq (location : FieldLocation) :
    StateManager.dynamicFieldKey location.objectId location.nameBytes = "df:" ++ fieldKey location := by
  simp [StateManager.dynamicFieldKey, fieldKey, String.append_assoc]

lemma storeKey_injective (location location' : FieldLocation)
    (h : StateManager.dynamicFieldKey location.objectId location.nameBytes =
      StateManager.dynamicFieldKey location'.objectId location'.nameBytes) : location = location' := by
  rw [dynamicFieldKey_eq, dynamicFieldKey_eq] at h
  have hlist := congrArg String.toList h
  simp only [String.toList_append] at hlist
  exact fieldKey_injective (String.toList_injective (List.append_cancel_left hlist))

/-! ## Calls -/

/-- A call of a native. For `borrowMut` the value last written through the reference, if any. -/
inductive FieldCall (Ty Val : Type) where
  | add (nameTy valueTy : Ty) (uid : AccountAddress) (name value : Val)
  | borrow (nameTy valueTy : Ty) (uid : AccountAddress) (name : Val)
  | borrowMut (nameTy valueTy : Ty) (uid : AccountAddress) (name : Val) (written : Option Val)
  | remove (nameTy valueTy : Ty) (uid : AccountAddress) (name : Val)
  | exists_ (nameTy : Ty) (uid : AccountAddress) (name : Val)

inductive FieldResult (Val : Type) where
  | unit
  | value (v : Val)
  | present (b : Bool)

def FieldCall.location (codec : FieldCodec Ty Val) : FieldCall Ty Val → Except FieldError FieldLocation
  | .add nameTy _ uid name _ | .borrow nameTy _ uid name | .borrowMut nameTy _ uid name _
  | .remove nameTy _ uid name | .exists_ nameTy uid name => parseFieldLocation codec nameTy uid name

def writeThrough (codec : FieldCodec Ty Val) (ext : DynamicFieldsExt Ty Val) (valueTy : Ty)
    (location : FieldLocation) : Option Val → Except FieldError (DynamicFieldsExt Ty Val)
  | none => .ok ext
  | some v =>
    if (codec.serialize valueTy v).isSome then .ok (writeField ext location v)
    else .error .valueSerializationError

def runCall (codec : FieldCodec Ty Val) (fields : OrdMap String Bytes) (ext : DynamicFieldsExt Ty Val) :
    FieldCall Ty Val → Except FieldError (FieldResult Val × DynamicFieldsExt Ty Val)
  | .add nameTy valueTy uid name value => do
    return (.unit, ← nativeAdd codec fields ext nameTy valueTy uid name value)
  | .borrow nameTy valueTy uid name => do
    let hit ← nativeBorrow codec fields ext nameTy valueTy uid name
    return (.value hit.1, hit.2)
  | .borrowMut nameTy valueTy uid name written => do
    let hit ← nativeBorrowMut codec fields ext nameTy valueTy uid name
    let location ← parseFieldLocation codec nameTy uid name
    return (.value hit.1, ← writeThrough codec hit.2 valueTy location written)
  | .remove nameTy valueTy uid name => do
    let hit ← nativeRemove codec fields ext nameTy valueTy uid name
    return (.value hit.1, hit.2)
  | .exists_ nameTy uid name => do
    return (.present (← nativeExists codec fields ext nameTy uid name), ext)

def runFieldCalls (codec : FieldCodec Ty Val) (fields : OrdMap String Bytes) (ext : DynamicFieldsExt Ty Val) :
    List (FieldCall Ty Val) → Except FieldError (List (FieldResult Val) × DynamicFieldsExt Ty Val)
  | [] => .ok ([], ext)
  | call :: calls => do
    let first ← runCall codec fields ext call
    let rest ← runFieldCalls codec fields first.2 calls
    return (first.1 :: rest.1, rest.2)

/-! ## The plain map -/

abbrev FieldMap := FieldLocation → Option Bytes

def plainAccess (codec : FieldCodec Ty Val) (m : FieldMap) (valueTy : Ty) (location : FieldLocation) :
    Except FieldError Val :=
  match (m location).bind (codec.deserialize valueTy) with
  | some v => .ok v
  | none => .error (.abort E_FIELD_DOES_NOT_EXIST)

def plainCall (codec : FieldCodec Ty Val) (m : FieldMap) (call : FieldCall Ty Val) :
    Except FieldError (FieldResult Val × FieldMap) := do
  let location ← call.location codec
  match call with
  | .add _ valueTy _ _ value =>
    match codec.serialize valueTy value with
    | none => .error .valueSerializationError
    | some bytes =>
      if (m location).isSome then .error (.abort E_FIELD_ALREADY_EXISTS)
      else .ok (.unit, Function.update m location (some bytes))
  | .borrow _ valueTy _ _ => do
    return (.value (← plainAccess codec m valueTy location), m)
  | .borrowMut _ valueTy _ _ written => do
    let v ← plainAccess codec m valueTy location
    match written with
    | none => .ok (.value v, m)
    | some w =>
      match codec.serialize valueTy w with
      | none => .error .valueSerializationError
      | some bytes => .ok (.value v, Function.update m location (some bytes))
  | .remove _ valueTy _ _ => do
    return (.value (← plainAccess codec m valueTy location), Function.update m location none)
  | .exists_ _ _ _ => .ok (.present (m location).isSome, m)

def plainCalls (codec : FieldCodec Ty Val) (m : FieldMap) :
    List (FieldCall Ty Val) → Except FieldError (List (FieldResult Val) × FieldMap)
  | [] => .ok ([], m)
  | call :: calls => do
    let first ← plainCall codec m call
    let rest ← plainCalls codec first.2 calls
    return (first.1 :: rest.1, rest.2)

/-! ## What an entry stands for -/

/-- An entry against the field that the state has, the field that the plain map has, and whether
the sequence has added it. -/
structure EntryFor (codec : FieldCodec Ty Val) (entry : CachedDynamicField Ty Val)
    (stored now : Option Bytes) (added : Prop) : Prop where
  existed : entry.existedBeforeTx = true ↔ ¬added
  stored_of_existed : entry.existedBeforeTx = true → stored.isSome = true
  gone : entry.state = .deleted → now = none
  live : entry.state ≠ .deleted →
    now.isSome = true ∧ codec.serialize entry.valueSpec entry.value = now
  clean : entry.state = .clean → now = stored

/-- The journal shows the plain map over the fields of the state. -/
structure Journaled (codec : FieldCodec Ty Val) (fields : OrdMap String Bytes)
    (ext : DynamicFieldsExt Ty Val) (m : FieldMap) (added : FieldLocation → Prop) : Prop where
  keyed : ∀ key entry, ext.find? key = some entry → key = fieldKey entry.location
  untouched : ∀ location, ext.find? (fieldKey location) = none →
    m location = loadFromResolver fields location ∧ ¬added location
  cached : ∀ location entry, ext.find? (fieldKey location) = some entry →
    EntryFor codec entry (loadFromResolver fields location) (m location) (added location)

variable {codec : FieldCodec Ty Val} {fields : OrdMap String Bytes} {ext : DynamicFieldsExt Ty Val}
  {m : FieldMap} {added : FieldLocation → Prop} {location : FieldLocation}

lemma journaled_empty : Journaled codec fields .empty (loadFromResolver fields) fun _ => False where
  keyed := fun _ _ h => by cases h
  untouched := fun _ _ => ⟨rfl, not_false⟩
  cached := fun _ _ h => by cases h

variable {now stored : Option Bytes} {p : Prop} {valueTy : Ty} {v : Val}
  {ext' : DynamicFieldsExt Ty Val} {bytes : Bytes}

variable {entry : CachedDynamicField Ty Val}

lemma EntryFor.congr_added {q : Prop} (h : EntryFor codec entry stored now p) (hpq : p ↔ q) :
    EntryFor codec entry stored now q :=
  { h with existed := by rw [h.existed, hpq] }

lemma Journaled.insert (h : Journaled codec fields ext m added) (now : Option Bytes)
    (added' : FieldLocation → Prop) (hlocation : entry.location = location)
    (hentry : EntryFor codec entry (loadFromResolver fields location) now (added' location))
    (hadded : ∀ other, other ≠ location → (added' other ↔ added other)) :
    Journaled codec fields (OrdMap.insert ext (fieldKey location) entry)
      (Function.update m location now) added' := by
  constructor
  · intro key other hfind
    rw [OrdMap.find?_insert] at hfind
    split_ifs at hfind with hkey
    · cases hfind
      rw [hkey, hlocation]
    · exact h.keyed key other hfind
  · intro other hfind
    rw [OrdMap.find?_insert] at hfind
    split_ifs at hfind with hkey
    have hother : other ≠ location := fun heq => hkey (congrArg fieldKey heq)
    rw [Function.update_of_ne hother, hadded other hother]
    exact h.untouched other hfind
  · intro other found hfind
    rw [OrdMap.find?_insert] at hfind
    split_ifs at hfind with hkey
    · cases hfind
      obtain rfl := fieldKey_injective hkey
      rwa [Function.update_self]
    · have hother : other ≠ location := fun heq => hkey (congrArg fieldKey heq)
      rw [Function.update_of_ne hother]
      exact (h.cached other found hfind).congr_added (hadded other hother).symm

lemma Journaled.fieldExists_eq (h : Journaled codec fields ext m added) :
    fieldExists fields ext location = (m location).isSome := by
  unfold fieldExists cachedExists
  cases hfind : ext.find? (fieldKey location) with
  | none => simp [(h.untouched _ hfind).1]
  | some entry =>
    have hentry := h.cached _ _ hfind
    by_cases hstate : entry.state = .deleted
    · simp [hstate, hentry.gone hstate]
    · simp [hstate, (hentry.live hstate).1]

lemma Journaled.loaded (h : Journaled codec fields ext m added) (location : FieldLocation) (valueTy : Ty) :
    Journaled codec fields (ensureFieldLoaded codec fields ext location valueTy).2 m added := by
  unfold ensureFieldLoaded cachedExists
  cases hfind : ext.find? (fieldKey location) with
  | some entry => exact h
  | none =>
    obtain ⟨hm, hadded⟩ := h.untouched _ hfind
    cases hload : loadFromResolver fields location with
    | none => exact h
    | some bytes =>
      cases hvalue : codec.deserialize valueTy bytes with
      | none => simpa [hload, hvalue] using h
      | some v =>
        have hserialize := (codec.deserialize_iff valueTy bytes v).mp hvalue
        have hnow : m location = some bytes := hm.trans hload
        have hentry : EntryFor codec ⟨location, valueTy, v, bytes, true, .clean⟩
            (loadFromResolver fields location) (m location) (added location) :=
          { existed := by simp [hadded]
            stored_of_existed := fun _ => by simp [hload]
            gone := fun hstate => by cases hstate
            live := fun _ => by simp [hnow, hserialize]
            clean := fun _ => hm }
        have hinsert := h.insert (m location) added rfl hentry fun _ _ => Iff.rfl
        rw [Function.update_eq_self] at hinsert
        simpa [hload, hvalue, DynamicFieldsExt.insert] using hinsert

lemma Journaled.hit (h : Journaled codec fields ext m added)
    {onHit : CachedDynamicField Ty Val → CachedDynamicField Ty Val}
    (hhit : withLiveField codec fields ext location valueTy onHit = some (v, ext')) :
    ∃ loaded entry, Journaled codec fields loaded m added ∧ entry.location = location ∧
      EntryFor codec entry (loadFromResolver fields location) (m location) (added location) ∧
      entry.state ≠ .deleted ∧ entry.valueSpec = valueTy ∧ entry.value = v ∧
      ext' = OrdMap.insert loaded (fieldKey location) (onHit entry) := by
  unfold withLiveField at hhit
  dsimp only at hhit
  split_ifs at hhit with hloaded
  have hjournal := h.loaded location valueTy
  cases hfind : (ensureFieldLoaded codec fields ext location valueTy).2.find? (fieldKey location) with
  | none => simp [hfind] at hhit
  | some entry =>
    simp only [hfind] at hhit
    split_ifs at hhit with hlive
    simp only [Bool.and_eq_true, bne_iff_ne, ne_eq, beq_iff_eq] at hlive
    have hentry := hjournal.cached _ _ hfind
    have hlocation := fieldKey_injective (hjournal.keyed _ _ hfind)
    simp only [Option.some.injEq, Prod.mk.injEq] at hhit
    exact ⟨_, entry, hjournal, hlocation.symm, hentry, hlive.1, codec.typeName_injective hlive.2, hhit.1,
      hhit.2.symm⟩

/-! ## One call -/

def AddsAt (codec : FieldCodec Ty Val) (location : FieldLocation) : FieldCall Ty Val → Prop
  | .add nameTy _ uid name _ => parseFieldLocation codec nameTy uid name = .ok location
  | _ => False

lemma EntryFor.plainAccess (h : EntryFor codec entry stored (m location) p)
    (hlive : entry.state ≠ .deleted) :
    plainAccess codec m entry.valueSpec location = .ok entry.value := by
  obtain ⟨hsome, hserialize⟩ := h.live hlive
  obtain ⟨bytes, hbytes⟩ := Option.isSome_iff_exists.mp hsome
  rw [hbytes] at hserialize
  have hvalue := (codec.deserialize_iff _ _ _).mpr hserialize
  simp [Proofs.plainAccess, hbytes, hvalue]

lemma nativeAccess_eq_ok {onHit : CachedDynamicField Ty Val → CachedDynamicField Ty Val}
    {nameTy : Ty} {uid : AccountAddress} {name : Val}
    (h : nativeAccess codec fields onHit ext nameTy valueTy uid name = .ok (v, ext')) :
    ∃ location, parseFieldLocation codec nameTy uid name = .ok location ∧
      withLiveField codec fields ext location valueTy onHit = some (v, ext') := by
  obtain ⟨location, hlocation, hrest⟩ := bind_eq_ok.mp h
  refine ⟨location, hlocation, ?_⟩
  cases hhit : withLiveField codec fields ext location valueTy onHit with
  | none => simp [hhit] at hrest
  | some hit =>
    simp only [hhit, Except.ok.injEq] at hrest
    rw [hrest]

lemma nativeAdd_eq_ok {nameTy : Ty} {uid : AccountAddress} {name value : Val}
    (h : nativeAdd codec fields ext nameTy valueTy uid name value = .ok ext') :
    ∃ location bytes, parseFieldLocation codec nameTy uid name = .ok location ∧
      codec.serialize valueTy value = some bytes ∧ fieldExists fields ext location = false ∧
      ext' = OrdMap.insert ext (fieldKey location) ⟨location, valueTy, value, bytes, false, .dirty⟩ := by
  obtain ⟨location, hlocation, hrest⟩ := bind_eq_ok.mp h
  cases hbytes : codec.serialize valueTy value with
  | none => simp [hbytes] at hrest
  | some bytes =>
    simp only [hbytes] at hrest
    split_ifs at hrest with hexists
    cases hrest
    exact ⟨location, bytes, hlocation, rfl, by simpa using hexists, rfl⟩

lemma Journaled.same_added {call : FieldCall Ty Val} (h : Journaled codec fields ext m added)
    (hnot : ∀ l, ¬AddsAt codec l call) :
    Journaled codec fields ext m fun l => added l ∨ AddsAt codec l call := by
  simp only [hnot, or_false]
  exact h

lemma EntryFor.dirty (h : EntryFor codec entry stored now p)
    (hbytes : codec.serialize entry.valueSpec v = some bytes) :
    EntryFor codec { entry with state := .dirty, value := v } stored (some bytes) p where
  existed := h.existed
  stored_of_existed := h.stored_of_existed
  gone := fun hstate => by cases hstate
  live := fun _ => ⟨rfl, hbytes⟩
  clean := fun hstate => by cases hstate

lemma EntryFor.deleted (h : EntryFor codec entry stored now p) :
    EntryFor codec { entry with state := .deleted } stored none p where
  existed := h.existed
  stored_of_existed := h.stored_of_existed
  gone := fun _ => rfl
  live := fun hstate => absurd rfl hstate
  clean := fun hstate => by cases hstate

lemma Journaled.add (h : Journaled codec fields ext m added) {value : Val}
    {added' : FieldLocation → Prop} (hbytes : codec.serialize valueTy value = some bytes)
    (hadded : ∀ l, added' l ↔ added l ∨ l = location) :
    Journaled codec fields
      (OrdMap.insert ext (fieldKey location) ⟨location, valueTy, value, bytes, false, .dirty⟩)
      (Function.update m location (some bytes)) added' := by
  refine h.insert (some bytes) added' rfl ?_ fun other hother => by simp [hadded, hother]
  exact
    { existed := by simp [hadded]
      stored_of_existed := fun hexisted => by cases hexisted
      gone := fun hstate => by cases hstate
      live := fun _ => ⟨rfl, hbytes⟩
      clean := fun hstate => by cases hstate }

/-- A successful call gives the result of the plain map and keeps the journal in step with it. -/
lemma Journaled.call (h : Journaled codec fields ext m added) {call : FieldCall Ty Val}
    {result : FieldResult Val} (hcall : runCall codec fields ext call = .ok (result, ext')) :
    ∃ m', plainCall codec m call = .ok (result, m') ∧
      Journaled codec fields ext' m' fun l => added l ∨ AddsAt codec l call := by
  cases call with
  | add nameTy valueTy uid name value =>
    obtain ⟨_, hadd, heq⟩ := bind_eq_ok.mp hcall
    cases heq
    obtain ⟨location, bytes, hlocation, hbytes, hexists, rfl⟩ := nativeAdd_eq_ok hadd
    rw [h.fieldExists_eq] at hexists
    refine ⟨Function.update m location (some bytes), ?_, h.add hbytes fun l => ?_⟩
    · simp [plainCall, FieldCall.location, hlocation, hbytes, hexists]
    · simp [AddsAt, hlocation, eq_comm]
  | borrow nameTy valueTy uid name =>
    obtain ⟨⟨v, _⟩, hborrow, heq⟩ := bind_eq_ok.mp hcall
    cases heq
    obtain ⟨location, hlocation, hhit⟩ := nativeAccess_eq_ok hborrow
    obtain ⟨loaded, entry, hloaded, rfl, hentry, hlive, rfl, rfl, rfl⟩ := h.hit hhit
    refine ⟨m, ?_, .same_added ?_ fun _ => not_false⟩
    · simp [plainCall, FieldCall.location, hlocation, hentry.plainAccess hlive]
    · have hinsert := hloaded.insert _ added rfl hentry fun _ _ => Iff.rfl
      rwa [Function.update_eq_self] at hinsert
  | borrowMut nameTy valueTy uid name written =>
    obtain ⟨⟨v, _⟩, hborrow, hrest⟩ := bind_eq_ok.mp hcall
    obtain ⟨location, hlocation, hhit⟩ := nativeAccess_eq_ok hborrow
    obtain ⟨loaded, entry, hloaded, rfl, hentry, hlive, rfl, rfl, rfl⟩ := h.hit hhit
    have haccess := hentry.plainAccess hlive
    simp only [hlocation, ok_bind] at hrest
    obtain ⟨ext'', hwrite, heq⟩ := bind_eq_ok.mp hrest
    cases heq
    cases written with
    | none =>
      cases hwrite
      obtain ⟨hsome, hserialize⟩ := hentry.live hlive
      obtain ⟨bytes, hbytes⟩ := Option.isSome_iff_exists.mp hsome
      refine ⟨m, ?_, .same_added ?_ fun _ => not_false⟩
      · simp [plainCall, FieldCall.location, hlocation, haccess]
      · have hinsert := hloaded.insert _ added rfl (hentry.dirty (hserialize.trans hbytes)) fun _ _ => Iff.rfl
        rwa [← hbytes, Function.update_eq_self] at hinsert
    | some w =>
      simp only [writeThrough] at hwrite
      split_ifs at hwrite with hw
      cases hwrite
      obtain ⟨bytes, hbytes⟩ := Option.isSome_iff_exists.mp hw
      refine ⟨Function.update m entry.location (some bytes), ?_, .same_added ?_ fun _ => not_false⟩
      · simp [plainCall, FieldCall.location, hlocation, haccess, hbytes]
      · have hwritten := hloaded.insert _ added rfl (hentry.dirty hbytes) fun _ _ => Iff.rfl
        simpa [writeField, OrdMap.insert_insert] using hwritten
  | remove nameTy valueTy uid name =>
    obtain ⟨⟨v, _⟩, hremove, heq⟩ := bind_eq_ok.mp hcall
    cases heq
    obtain ⟨location, hlocation, hhit⟩ := nativeAccess_eq_ok hremove
    obtain ⟨loaded, entry, hloaded, rfl, hentry, hlive, rfl, rfl, rfl⟩ := h.hit hhit
    refine ⟨Function.update m entry.location none, ?_, .same_added ?_ fun _ => not_false⟩
    · simp [plainCall, FieldCall.location, hlocation, hentry.plainAccess hlive]
    · exact hloaded.insert none added rfl hentry.deleted fun _ _ => Iff.rfl
  | exists_ nameTy uid name =>
    obtain ⟨present, hexists, heq⟩ := bind_eq_ok.mp hcall
    cases heq
    obtain ⟨location, hlocation, heq⟩ := bind_eq_ok.mp hexists
    cases heq
    refine ⟨m, ?_, h.same_added fun _ => not_false⟩
    simp [plainCall, FieldCall.location, hlocation, h.fieldExists_eq]

/-! ## Sequences of calls -/

lemma Journaled.congr_added {added' : FieldLocation → Prop} (h : Journaled codec fields ext m added)
    (heq : ∀ l, added l ↔ added' l) : Journaled codec fields ext m added' := by
  have : added = added' := funext fun l => propext (heq l)
  exact this ▸ h

lemma Journaled.calls {calls : List (FieldCall Ty Val)} {results : List (FieldResult Val)}
    (h : Journaled codec fields ext m added)
    (hcalls : runFieldCalls codec fields ext calls = .ok (results, ext')) :
    ∃ m', plainCalls codec m calls = .ok (results, m') ∧
      Journaled codec fields ext' m' fun l => added l ∨ ∃ call ∈ calls, AddsAt codec l call := by
  induction calls generalizing ext m added results with
  | nil =>
    cases hcalls
    exact ⟨m, rfl, h.congr_added fun l => by simp⟩
  | cons call calls ih =>
    obtain ⟨⟨result, mid⟩, hcall, hrest⟩ := bind_eq_ok.mp hcalls
    obtain ⟨⟨rest, _⟩, htail, heq⟩ := bind_eq_ok.mp hrest
    cases heq
    obtain ⟨m₁, hplain, hmid⟩ := h.call hcall
    obtain ⟨m', hplains, hlast⟩ := ih hmid htail
    refine ⟨m', ?_, hlast.congr_added fun l => ?_⟩
    · simp [plainCalls, hplain, hplains]
    · simp [or_assoc]

/-! ## The operations that are left -/

lemma foldl_dynamicFields {α : Type} (g : OrdMap String Bytes → α → OrdMap String Bytes) (l : List α)
    (σ : StateManager) :
    (l.foldl (fun σ a => { σ with dynamicFields := g σ.dynamicFields a }) σ).dynamicFields =
      l.foldl g σ.dynamicFields := by
  induction l generalizing σ with
  | nil => rfl
  | cons a l ih => exact ih _

def opAdds : List DynamicFieldOp → List (String × Bytes) := List.filterMap fun
  | .add objectId nameBytes valueBytes => some (StateManager.dynamicFieldKey objectId nameBytes, valueBytes)
  | .remove _ _ => none

def opRemoves : List DynamicFieldOp → List String := List.filterMap fun
  | .add _ _ _ => none
  | .remove objectId nameBytes => some (StateManager.dynamicFieldKey objectId nameBytes)

lemma applyFieldOps_eq (ops : List DynamicFieldOp) (fields : OrdMap String Bytes) :
    applyFieldOps ops fields =
      (opRemoves ops).foldl OrdMap.erase ((opAdds ops).foldl (fun m e => m.insert e.1 e.2) fields) := by
  have hadds : opAdds ops = (fieldChanges ops).addedDynamicFields.map fun f =>
      (StateManager.dynamicFieldKey f.1 f.2.1, f.2.2) := by
    unfold opAdds fieldChanges
    rw [List.map_filterMap]
    refine congrArg (List.filterMap · ops) (funext fun op => ?_)
    cases op <;> rfl
  have hremoves : opRemoves ops = (fieldChanges ops).removedDynamicFields.map fun f =>
      StateManager.dynamicFieldKey f.1 f.2 := by
    unfold opRemoves fieldChanges
    rw [List.map_filterMap]
    refine congrArg (List.filterMap · ops) (funext fun op => ?_)
    cases op <;> rfl
  rw [hadds, hremoves, List.foldl_map, List.foldl_map]
  unfold applyFieldOps StateManager.applyStorage
  dsimp only
  rw [foldl_dynamicFields (fun fields (f : String × Bytes) => fields.erase (StateManager.dynamicFieldKey f.1 f.2)),
    foldl_dynamicFields (fun fields (f : String × Bytes × Bytes) =>
      fields.insert (StateManager.dynamicFieldKey f.1 f.2.1) f.2.2)]
  rfl

lemma mem_opRemoves {ops : List DynamicFieldOp} :
    StateManager.dynamicFieldKey location.objectId location.nameBytes ∈ opRemoves ops ↔
      .remove location.objectId location.nameBytes ∈ ops := by
  unfold opRemoves
  rw [List.mem_filterMap]
  constructor
  · rintro ⟨op, hop, heq⟩
    cases op with
    | add => cases heq
    | remove objectId nameBytes =>
      obtain rfl := storeKey_injective ⟨objectId, nameBytes⟩ location (Option.some.inj heq)
      exact hop
  · exact fun h => ⟨_, h, rfl⟩

lemma mem_opAdds {ops : List DynamicFieldOp} :
    (StateManager.dynamicFieldKey location.objectId location.nameBytes, bytes) ∈ opAdds ops ↔
      .add location.objectId location.nameBytes bytes ∈ ops := by
  unfold opAdds
  rw [List.mem_filterMap]
  constructor
  · rintro ⟨op, hop, heq⟩
    cases op with
    | remove => cases heq
    | add objectId nameBytes valueBytes =>
      obtain ⟨hkey, rfl⟩ := Prod.mk.inj (Option.some.inj heq)
      obtain rfl := storeKey_injective ⟨objectId, nameBytes⟩ location hkey
      exact hop
  · exact fun h => ⟨_, h, rfl⟩

/-- A location ends removed if some operation removes it, else as the last addition says, else as
it was. -/
lemma load_applyFieldOps (ops : List DynamicFieldOp) (fields : OrdMap String Bytes)
    (location : FieldLocation) :
    (DynamicFieldOp.remove location.objectId location.nameBytes ∈ ops ∧
      loadFromResolver (applyFieldOps ops fields) location = none) ∨
    (∃ bytes, DynamicFieldOp.add location.objectId location.nameBytes bytes ∈ ops ∧
      loadFromResolver (applyFieldOps ops fields) location = some bytes) ∨
    (DynamicFieldOp.remove location.objectId location.nameBytes ∉ ops ∧
      (∀ bytes, DynamicFieldOp.add location.objectId location.nameBytes bytes ∉ ops) ∧
      loadFromResolver (applyFieldOps ops fields) location = loadFromResolver fields location) := by
  unfold loadFromResolver
  rw [applyFieldOps_eq, OrdMap.find?_foldl_erase]
  by_cases hremove : DynamicFieldOp.remove location.objectId location.nameBytes ∈ ops
  · exact .inl ⟨hremove, if_pos (mem_opRemoves.mpr hremove)⟩
  right
  rw [if_neg (mt mem_opRemoves.mp hremove)]
  rcases OrdMap.find?_foldl_insert fields (opAdds ops)
    (StateManager.dynamicFieldKey location.objectId location.nameBytes) with ⟨hfind, hfree⟩ | ⟨bytes, hadd, hfind⟩
  · exact .inr ⟨hremove, fun bytes hadd => hfree _ (mem_opAdds.mpr hadd) rfl, hfind⟩
  · exact .inl ⟨bytes, mem_opAdds.mp hadd, hfind⟩

lemma mem_takeAll {op : DynamicFieldOp} :
    op ∈ takeAll codec ext ↔ ∃ key entry, ext.find? key = some entry ∧ entryOp codec entry = some op := by
  unfold takeAll
  rw [List.mem_filterMap]
  constructor
  · rintro ⟨⟨key, entry⟩, hmem, hop⟩
    exact ⟨key, entry, OrdMap.mem_entries.mp hmem, hop⟩
  · rintro ⟨key, entry, hfind, hop⟩
    exact ⟨(key, entry), OrdMap.mem_entries.mpr hfind, hop⟩

/-- The operations at a location are those of its own entry. -/
lemma Journaled.op_of_entry (h : Journaled codec fields ext m added) {op : DynamicFieldOp}
    (hop : op ∈ takeAll codec ext) :
    ∃ entry, ext.find? (fieldKey entry.location) = some entry ∧ entryOp codec entry = some op := by
  obtain ⟨key, entry, hfind, hentry⟩ := mem_takeAll.mp hop
  obtain rfl := h.keyed key entry hfind
  exact ⟨entry, hfind, hentry⟩

lemma Journaled.remove_mem (h : Journaled codec fields ext m added) :
    .remove location.objectId location.nameBytes ∈ takeAll codec ext ↔
      ∃ entry, ext.find? (fieldKey location) = some entry ∧ entry.state = .deleted ∧
        entry.existedBeforeTx = true := by
  constructor
  · intro hop
    obtain ⟨entry, hfind, hentry⟩ := h.op_of_entry hop
    unfold entryOp at hentry
    cases hstate : entry.state with
    | clean => simp [hstate] at hentry
    | dirty => simp [hstate] at hentry
    | deleted =>
      simp only [hstate, Option.ite_none_right_eq_some, Option.some.injEq, DynamicFieldOp.remove.injEq] at hentry
      obtain ⟨hexisted, hobject, hname⟩ := hentry
      obtain rfl := FieldLocation.ext hobject hname
      exact ⟨entry, hfind, hstate, hexisted⟩
  · rintro ⟨entry, hfind, hstate, hexisted⟩
    obtain rfl := fieldKey_injective (h.keyed _ _ hfind)
    exact mem_takeAll.mpr ⟨_, entry, hfind, by simp [entryOp, hstate, hexisted]⟩

lemma EntryFor.current (h : EntryFor codec entry stored (m location) p)
    (hlive : entry.state ≠ .deleted) : m location = some (serializeCurrentValue codec entry) := by
  obtain ⟨hsome, hserialize⟩ := h.live hlive
  obtain ⟨bytes, hbytes⟩ := Option.isSome_iff_exists.mp hsome
  rw [serializeCurrentValue, hserialize, hbytes]
  rfl

lemma Journaled.add_mem (h : Journaled codec fields ext m added) :
    .add location.objectId location.nameBytes bytes ∈ takeAll codec ext ↔
      ∃ entry, ext.find? (fieldKey location) = some entry ∧ entry.state = .dirty ∧ m location = some bytes := by
  constructor
  · intro hop
    obtain ⟨entry, hfind, hentry⟩ := h.op_of_entry hop
    unfold entryOp at hentry
    cases hstate : entry.state with
    | clean => simp [hstate] at hentry
    | deleted => simp [hstate] at hentry
    | dirty =>
      simp only [hstate, Option.some.injEq, DynamicFieldOp.add.injEq] at hentry
      obtain ⟨hobject, hname, rfl⟩ := hentry
      obtain rfl := FieldLocation.ext hobject hname
      exact ⟨entry, hfind, hstate, (h.cached _ _ hfind).current (by simp [hstate])⟩
  · rintro ⟨entry, hfind, hstate, hbytes⟩
    obtain rfl := fieldKey_injective (h.keyed _ _ hfind)
    have hcurrent := (h.cached _ _ hfind).current (by simp [hstate])
    rw [hbytes, Option.some.injEq] at hcurrent
    exact mem_takeAll.mpr ⟨_, entry, hfind, by simp [entryOp, hstate, hcurrent]⟩

lemma Journaled.applied (h : Journaled codec fields ext m added) (location : FieldLocation) :
    loadFromResolver (applyFieldOps (takeAll codec ext) fields) location = m location ↔
      ((loadFromResolver fields location).isSome = true → added location → (m location).isSome = true) := by
  rcases load_applyFieldOps (takeAll codec ext) fields location with
    ⟨hremove, hload⟩ | ⟨bytes, hadd, hload⟩ | ⟨hkept, hnone, hload⟩
  · obtain ⟨entry, hfind, hstate, hexisted⟩ := h.remove_mem.mp hremove
    have hentry := h.cached _ _ hfind
    simp [hload, hentry.gone hstate, hentry.existed.mp hexisted]
  · obtain ⟨entry, hfind, hstate, hbytes⟩ := h.add_mem.mp hadd
    simp [hload, hbytes]
  · rw [hload]
    cases hfind : ext.find? (fieldKey location) with
    | none =>
      obtain ⟨hm, hadded⟩ := h.untouched _ hfind
      simp [hm, hadded]
    | some entry =>
      have hentry := h.cached _ _ hfind
      cases hstate : entry.state with
      | clean =>
        have hlive := (hentry.live (by simp [hstate])).1
        exact ⟨fun _ _ _ => hlive, fun _ => (hentry.clean hstate).symm⟩
      | dirty =>
        have hcurrent := hentry.current (by simp [hstate])
        exact absurd (h.add_mem.mpr ⟨entry, hfind, hstate, hcurrent⟩) (hnone _)
      | deleted =>
        -- No operation removes the field, so the entry has forgotten that the state has it.
        have hadded : added location := by
          by_contra hnot
          exact hkept (h.remove_mem.mpr ⟨entry, hfind, hstate, hentry.existed.mpr hnot⟩)
        simp [hentry.gone hstate, hadded]

/-! ## A codec for samples -/

inductive SampleTy where
  | u8
  | bool
  | u64
  /-- `struct Gold has store { amount: u64 }`. -/
  | gold
  deriving DecidableEq

def SampleTy.fits : SampleTy → Bytes → Bool
  | .u8, b => b.length == 1
  | .bool, b => b == [0] || b == [1]
  | .u64, b | .gold, b => b.length == 8

def sampleCodec : FieldCodec SampleTy Bytes where
  typeName
    | .u8 => "u8"
    | .bool => "bool"
    | .u64 => "u64"
    | .gold => "0x5::gold::Gold"
  typeName_injective := by
    intro a b h
    cases a <;> cases b <;> first | rfl | exact absurd h (by decide)
  serialize ty v := if ty.fits v then some v else none
  deserialize ty b := if ty.fits b then some b else none
  deserialize_iff := by
    intro ty b v
    simp only [Option.ite_none_right_eq_some, Option.some.injEq]
    constructor
    · rintro ⟨hfits, rfl⟩
      exact ⟨hfits, rfl⟩
    · rintro ⟨hfits, rfl⟩
      exact ⟨hfits, rfl⟩

def sampleUid : AccountAddress := .ofByte 0x2a

def sampleFields : OrdMap String Bytes :=
  OrdMap.insert .empty (StateManager.dynamicFieldKey (objectIdFromUid sampleUid) [1]) (Text.leBytes 8 7)

def fieldAfter (codec : FieldCodec Ty Val) (fields : OrdMap String Bytes) (calls : List (FieldCall Ty Val))
    (location : FieldLocation) : Option (Option Bytes × Option Bytes) :=
  match runFieldCalls codec fields .empty calls, plainCalls codec (loadFromResolver fields) calls with
  | .ok (_, ext), .ok (_, m) =>
    some (loadFromResolver (applyFieldOps (takeAll codec ext) fields) location, m location)
  | _, _ => none

/-- Successful calls see the plain map. What they leave behind makes it of the fields of the state
exactly when no field that the state had and the calls added is absent at the end. -/
theorem field_journal_exact_iff (codec : FieldCodec Ty Val) (fields : OrdMap String Bytes)
    (calls : List (FieldCall Ty Val)) (results : List (FieldResult Val)) (ext : DynamicFieldsExt Ty Val)
    (hcalls : runFieldCalls codec fields .empty calls = .ok (results, ext)) :
    ∃ m, plainCalls codec (loadFromResolver fields) calls = .ok (results, m) ∧
      (loadFromResolver (applyFieldOps (takeAll codec ext) fields) = m ↔
        ∀ location, (loadFromResolver fields location).isSome = true →
          (∃ call ∈ calls, AddsAt codec location call) → (m location).isSome = true) := by
  obtain ⟨m, hplain, hjournal⟩ := journaled_empty.calls hcalls
  refine ⟨m, hplain, ?_⟩
  rw [funext_iff]
  refine forall_congr' fun location => ?_
  rw [hjournal.applied, false_or]

def sampleWrites : List (FieldCall SampleTy Bytes) :=
  [.borrow .u8 .u64 sampleUid [1], .borrowMut .u8 .u64 sampleUid [1] (some (Text.leBytes 8 9))]

theorem field_journal_exact_sample :
    ∃ results ext, runFieldCalls sampleCodec sampleFields .empty sampleWrites = .ok (results, ext) ∧
      ∃ m, plainCalls sampleCodec (loadFromResolver sampleFields) sampleWrites = .ok (results, m) ∧
        (loadFromResolver (applyFieldOps (takeAll sampleCodec ext) sampleFields) = m ↔
          ∀ location, (loadFromResolver sampleFields location).isSome = true →
            (∃ call ∈ sampleWrites, AddsAt sampleCodec location call) → (m location).isSome = true) := by
  have hok : (runFieldCalls sampleCodec sampleFields .empty sampleWrites).isOk = true := by decide +kernel
  cases hcalls : runFieldCalls sampleCodec sampleFields .empty sampleWrites with
  | error e =>
    rw [hcalls] at hok
    cases hok
  | ok out =>
    exact ⟨out.1, out.2, rfl, field_journal_exact_iff sampleCodec sampleFields sampleWrites _ _ hcalls⟩

/-- Removed, added again and removed: the field is still in the state. -/
theorem field_journal_keeps_removed :
    fieldAfter sampleCodec sampleFields
      [.remove .u8 .u64 sampleUid [1], .add .u8 .u64 sampleUid [1] (Text.leBytes 8 9),
        .remove .u8 .u64 sampleUid [1]] ⟨objectIdFromUid sampleUid, [1]⟩ =
      some (some (Text.leBytes 8 7), none) := by
  decide +kernel

end Kanari.Proofs

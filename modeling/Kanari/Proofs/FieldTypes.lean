import Kanari.Proofs.DynamicFields

/-!
# The types of dynamic fields

The name of the value type is compared only while a field is in the journal. In the state, a field
is its bytes under the bytes of its name, and is handed out under every type that these fit.
-/

namespace Kanari.Proofs

open Lib DynamicFieldsExt

variable {Ty Val : Type}

/-! ## Runs of several transactions -/

/-- The fields of the state and the journal of the running transaction, with the name and value
type under which the field at a location was added: in the state, and as the transaction sees it. -/
structure FieldSystem (Ty Val : Type) where
  fields : OrdMap String Bytes
  journal : DynamicFieldsExt Ty Val := .empty
  storedAs : FieldLocation → Option (Ty × Ty)
  seenAs : FieldLocation → Option (Ty × Ty)

inductive FieldEvent (Ty Val : Type) where
  | call (c : FieldCall Ty Val)
  | commit
  | rollback

namespace FieldSystem

def empty : FieldSystem Ty Val := ⟨.empty, .empty, fun _ => none, fun _ => none⟩

def rollback (s : FieldSystem Ty Val) : FieldSystem Ty Val :=
  { s with journal := .empty, seenAs := s.storedAs }

/-- A field keeps the types of the addition that its bytes come from. -/
def commit (codec : FieldCodec Ty Val) (s : FieldSystem Ty Val) : FieldSystem Ty Val :=
  let ops := takeAll codec s.journal
  let storedAs := fun location =>
    if ops.any fun
      | .add objectId nameBytes _ => ⟨objectId, nameBytes⟩ == location
      | .remove _ _ => false
    then s.seenAs location else s.storedAs location
  { fields := applyFieldOps ops s.fields, storedAs, seenAs := storedAs }

def call (codec : FieldCodec Ty Val) (s : FieldSystem Ty Val) (c : FieldCall Ty Val) :
    FieldSystem Ty Val :=
  match runCall codec s.fields s.journal c with
  | .error _ => s.rollback
  | .ok (_, journal) =>
    match c, c.location codec with
    | .add nameTy valueTy _ _ _, .ok location =>
      { s with
        journal
        seenAs := fun l => if l = location then some (nameTy, valueTy) else s.seenAs l }
    | _, _ => { s with journal }

def next (codec : FieldCodec Ty Val) (s : FieldSystem Ty Val) : FieldEvent Ty Val → FieldSystem Ty Val
  | .call c => s.call codec c
  | .commit => s.commit codec
  | .rollback => s.rollback

def callsOf (codec : FieldCodec Ty Val) (s : FieldSystem Ty Val) :
    List (FieldEvent Ty Val) → List (FieldSystem Ty Val × FieldCall Ty Val)
  | [] => []
  | .call c :: events => (s, c) :: callsOf codec (s.call codec c) events
  | event :: events => callsOf codec (s.next codec event) events

end FieldSystem

/-! ## Which field a call meets -/

def FieldCall.nameTy : FieldCall Ty Val → Ty
  | .add nameTy _ _ _ _ | .borrow nameTy _ _ _ | .borrowMut nameTy _ _ _ _ | .remove nameTy _ _ _
  | .exists_ nameTy _ _ => nameTy

def FieldCall.valueTy : FieldCall Ty Val → Option Ty
  | .add _ valueTy _ _ _ | .borrow _ valueTy _ _ | .borrowMut _ valueTy _ _ _ | .remove _ valueTy _ _ =>
    some valueTy
  | .exists_ _ _ _ => none

def FieldCall.takesAs : FieldCall Ty Val → Option Ty
  | .borrow _ valueTy _ _ | .borrowMut _ valueTy _ _ _ | .remove _ valueTy _ _ => some valueTy
  | .add _ _ _ _ _ | .exists_ _ _ _ => none

/-- What an addition adds is a value of its type. -/
def FieldCall.Serializes (codec : FieldCodec Ty Val) : FieldCall Ty Val → Prop
  | .add _ valueTy _ _ value => (codec.serialize valueTy value).isSome = true
  | _ => True

/-- The call is given a field, is told that there is one, or is rejected because of one. -/
def Meets (codec : FieldCodec Ty Val) (s : FieldSystem Ty Val) : FieldCall Ty Val → Prop
  | .add nameTy valueTy uid name value =>
    nativeAdd codec s.fields s.journal nameTy valueTy uid name value = .error (.abort E_FIELD_ALREADY_EXISTS)
  | .borrow nameTy valueTy uid name =>
    ∃ hit, nativeBorrow codec s.fields s.journal nameTy valueTy uid name = .ok hit
  | .borrowMut nameTy valueTy uid name _ =>
    ∃ hit, nativeBorrowMut codec s.fields s.journal nameTy valueTy uid name = .ok hit
  | .remove nameTy valueTy uid name =>
    ∃ hit, nativeRemove codec s.fields s.journal nameTy valueTy uid name = .ok hit
  | .exists_ nameTy uid name => nativeExists codec s.fields s.journal nameTy uid name = .ok true

def AddedFor (s : FieldSystem Ty Val) (location : FieldLocation) (c : FieldCall Ty Val) : Prop :=
  ∃ valueTy, s.seenAs location = some (c.nameTy, valueTy) ∧ ∀ ty, c.takesAs = some ty → ty = valueTy

def Typed (codec : FieldCodec Ty Val) (s : FieldSystem Ty Val) (c : FieldCall Ty Val) : Prop :=
  ∀ location, c.location codec = .ok location → Meets codec s c → AddedFor s location c

def FitsAs (codec : FieldCodec Ty Val) (fields : OrdMap String Bytes) (journal : DynamicFieldsExt Ty Val)
    (location : FieldLocation) (ty : Ty) : Prop :=
  match journal.find? (fieldKey location) with
  | some entry => entry.valueSpec = ty
  | none => ∃ bytes, loadFromResolver fields location = some bytes ∧ (codec.deserialize ty bytes).isSome = true

/-- The call keeps to the name type and the value type of the field it names. -/
def UsesTypes (codec : FieldCodec Ty Val) (types : FieldLocation → Ty × Ty) (c : FieldCall Ty Val) : Prop :=
  ∀ location, c.location codec = .ok location →
    c.nameTy = (types location).1 ∧ ∀ ty, c.valueTy = some ty → ty = (types location).2

variable {codec : FieldCodec Ty Val} {s : FieldSystem Ty Val} {location : FieldLocation}

lemma withLiveField_isSome {fields : OrdMap String Bytes} {ext : DynamicFieldsExt Ty Val} {ty : Ty}
    (onHit : CachedDynamicField Ty Val → CachedDynamicField Ty Val) :
    (∃ hit, withLiveField codec fields ext location ty onHit = some hit) ↔
      fieldExists fields ext location = true ∧ FitsAs codec fields ext location ty := by
  unfold withLiveField ensureFieldLoaded fieldExists FitsAs cachedExists
  cases hfind : ext.find? (fieldKey location) with
  | some entry =>
    by_cases hstate : entry.state = .deleted
    · simp [hstate]
    · simp [hstate, hfind, codec.typeName_injective.eq_iff]
  | none =>
    cases hload : loadFromResolver fields location with
    | none => simp
    | some bytes =>
      cases hvalue : codec.deserialize ty bytes with
      | none => simp [hvalue]
      | some v => simp [hvalue, DynamicFieldsExt.insert]

lemma nativeAccess_isOk {onHit : CachedDynamicField Ty Val → CachedDynamicField Ty Val}
    {nameTy valueTy : Ty} {uid : AccountAddress} {name : Val}
    (hlocation : parseFieldLocation codec nameTy uid name = .ok location) :
    (∃ hit, nativeAccess codec s.fields onHit s.journal nameTy valueTy uid name = .ok hit) ↔
      fieldExists s.fields s.journal location = true ∧ FitsAs codec s.fields s.journal location valueTy := by
  rw [← withLiveField_isSome onHit]
  unfold nativeAccess
  rw [hlocation, ok_bind]
  cases withLiveField codec s.fields s.journal location valueTy onHit with
  | none => simp
  | some hit => simp

lemma meets_iff {c : FieldCall Ty Val} (hlocation : c.location codec = .ok location) :
    Meets codec s c ↔
      fieldExists s.fields s.journal location = true ∧
      (∀ ty, c.takesAs = some ty → FitsAs codec s.fields s.journal location ty) ∧
      c.Serializes codec := by
  cases c with
  | add nameTy valueTy uid name value =>
    have hparse : parseFieldLocation codec nameTy uid name = .ok location := hlocation
    simp only [Meets, nativeAdd, hparse, ok_bind]
    cases hbytes : codec.serialize valueTy value with
    | none => simp [hbytes, FieldCall.Serializes]
    | some bytes => simp [hbytes, FieldCall.takesAs, FieldCall.Serializes]
  | borrow nameTy valueTy uid name =>
    exact (nativeAccess_isOk hlocation).trans (by simp [FieldCall.takesAs, FieldCall.Serializes])
  | borrowMut nameTy valueTy uid name written =>
    exact (nativeAccess_isOk hlocation).trans (by simp [FieldCall.takesAs, FieldCall.Serializes])
  | remove nameTy valueTy uid name =>
    exact (nativeAccess_isOk hlocation).trans (by simp [FieldCall.takesAs, FieldCall.Serializes])
  | exists_ nameTy uid name =>
    have hparse : parseFieldLocation codec nameTy uid name = .ok location := hlocation
    simp [Meets, nativeExists, hparse, FieldCall.takesAs, FieldCall.Serializes]

/-! ## Typed states -/

def HasSpecs (types : FieldLocation → Ty × Ty) (ext : DynamicFieldsExt Ty Val) : Prop :=
  ∀ location entry, ext.find? (fieldKey location) = some entry → entry.valueSpec = (types location).2

/-- Every field is there under the types of its name: in the journal, and by its bytes in the state. -/
structure WellTyped (codec : FieldCodec Ty Val) (types : FieldLocation → Ty × Ty) (s : FieldSystem Ty Val) :
    Prop where
  seen : ∃ m added, Journaled codec s.fields s.journal m added ∧
    ∀ location, (m location).isSome = true → s.seenAs location = some (types location)
  specs : HasSpecs types s.journal
  stored : ∀ location bytes, loadFromResolver s.fields location = some bytes →
    s.storedAs location = some (types location) ∧ (codec.deserialize (types location).2 bytes).isSome = true

variable {types : FieldLocation → Ty × Ty} {c : FieldCall Ty Val}

/-- A typed call gets the field that there is, and it is one of its own types. -/
lemma WellTyped.meets (h : WellTyped codec types s) (hc : UsesTypes codec types c)
    (hlocation : c.location codec = .ok location) :
    (Meets codec s c → AddedFor s location c) ∧
      (c.Serializes codec → (Meets codec s c ↔ fieldExists s.fields s.journal location = true)) := by
  obtain ⟨m, added, hjournal, hseen⟩ := h.seen
  obtain ⟨hname, hvalue⟩ := hc location hlocation
  have htakes : ∀ ty, c.takesAs = some ty → ty = (types location).2 := fun ty hty =>
    hvalue ty (by cases c <;> first | exact hty | cases hty)
  rw [meets_iff hlocation]
  constructor
  · rintro ⟨hexists, -⟩
    rw [hjournal.fieldExists_eq] at hexists
    exact ⟨(types location).2, by rw [hseen location hexists, hname], htakes⟩
  · intro hserializes
    refine ⟨And.left, fun hexists => ⟨hexists, fun ty hty => ?_, hserializes⟩⟩
    unfold FitsAs
    rw [htakes ty hty]
    cases hfind : s.journal.find? (fieldKey location) with
    | some entry => exact h.specs location entry hfind
    | none =>
      rw [hjournal.fieldExists_eq, (hjournal.untouched location hfind).1] at hexists
      obtain ⟨bytes, hbytes⟩ := Option.isSome_iff_exists.mp hexists
      exact ⟨bytes, hbytes, (h.stored location bytes hbytes).2⟩

lemma wellTyped_of_stored (hstored : ∀ location bytes, loadFromResolver s.fields location = some bytes →
      s.storedAs location = some (types location) ∧ (codec.deserialize (types location).2 bytes).isSome = true) :
    WellTyped codec types s.rollback where
  seen := by
    refine ⟨_, _, journaled_empty, fun location hsome => ?_⟩
    obtain ⟨bytes, hbytes⟩ := Option.isSome_iff_exists.mp hsome
    exact (hstored location bytes hbytes).1
  specs := fun _ _ hfind => by cases hfind
  stored := hstored

lemma plainAccess_isSome {m : FieldMap} {ty : Ty} {v : Val} (h : plainAccess codec m ty location = .ok v) :
    (m location).isSome = true := by
  unfold plainAccess at h
  cases hm : m location with
  | none => simp [hm] at h
  | some bytes => rfl

lemma isSome_of_update {m : FieldMap} {new : Option Bytes} {l : FieldLocation}
    (hl : (Function.update m location new l).isSome = true) (h : (m location).isSome = true) :
    (m l).isSome = true := by
  by_cases heq : l = location
  · exact heq ▸ h
  · rwa [Function.update_of_ne heq] at hl

lemma plainCall_isSome {m m' : FieldMap} {result : FieldResult Val}
    (h : plainCall codec m c = .ok (result, m')) {l : FieldLocation} (hl : (m' l).isSome = true) :
    (m l).isSome = true ∨ AddsAt codec l c := by
  obtain ⟨location, hlocation, h⟩ := bind_eq_ok.mp h
  cases c with
  | add nameTy valueTy uid name value =>
    dsimp only at h
    cases hbytes : codec.serialize valueTy value with
    | none => simp [hbytes] at h
    | some bytes =>
      simp only [hbytes] at h
      split_ifs at h
      cases h
      by_cases heq : l = location
      · exact .inr (heq ▸ hlocation)
      · exact .inl (by rwa [Function.update_of_ne heq] at hl)
  | borrow nameTy valueTy uid name =>
    obtain ⟨v, -, h⟩ := bind_eq_ok.mp h
    cases h
    exact .inl hl
  | borrowMut nameTy valueTy uid name written =>
    obtain ⟨v, hv, h⟩ := bind_eq_ok.mp h
    cases written with
    | none =>
      cases h
      exact .inl hl
    | some w =>
      dsimp only at h
      cases hbytes : codec.serialize valueTy w with
      | none => simp [hbytes] at h
      | some bytes =>
        simp only [hbytes] at h
        cases h
        exact .inl (isSome_of_update hl (plainAccess_isSome hv))
  | remove nameTy valueTy uid name =>
    obtain ⟨v, hv, h⟩ := bind_eq_ok.mp h
    cases h
    exact .inl (isSome_of_update hl (plainAccess_isSome hv))
  | exists_ nameTy uid name =>
    cases h
    exact .inl hl

lemma withLiveField_entries {fields : OrdMap String Bytes} {ext ext' : DynamicFieldsExt Ty Val} {ty : Ty} {v : Val}
    {onHit : CachedDynamicField Ty Val → CachedDynamicField Ty Val}
    (honHit : ∀ entry, (onHit entry).valueSpec = entry.valueSpec)
    (h : withLiveField codec fields ext location ty onHit = some (v, ext')) :
    ∃ entry, entry.valueSpec = ty ∧
      ∀ key, ext'.find? key = if key = fieldKey location then some entry else ext.find? key := by
  unfold withLiveField at h
  dsimp only at h
  split_ifs at h
  have hothers : ∀ key, key ≠ fieldKey location →
      (ensureFieldLoaded codec fields ext location ty).2.find? key = ext.find? key := by
    intro key hkey
    unfold ensureFieldLoaded
    repeat' split
    all_goals simp [DynamicFieldsExt.insert, OrdMap.find?_insert, hkey]
  split at h
  · cases h
  · rename_i entry hfind
    split_ifs at h with hlive
    simp only [Option.some.injEq, Prod.mk.injEq] at h
    obtain ⟨-, rfl⟩ := h
    simp only [Bool.and_eq_true, beq_iff_eq] at hlive
    refine ⟨onHit entry, (honHit entry).trans (codec.typeName_injective hlive.2), fun key => ?_⟩
    rw [OrdMap.find?_insert]
    split_ifs with hkey
    · rfl
    · exact hothers key hkey

lemma HasSpecs.replace {ext ext' : DynamicFieldsExt Ty Val} (h : HasSpecs types ext)
    {entry : CachedDynamicField Ty Val}
    (hfind : ∀ key, ext'.find? key = if key = fieldKey location then some entry else ext.find? key)
    (hentry : entry.valueSpec = (types location).2) :
    HasSpecs types ext' := by
  intro l entry' hl
  rw [hfind] at hl
  split_ifs at hl with hkey
  · obtain rfl := Option.some.inj hl
    rwa [fieldKey_injective hkey]
  · exact h l entry' hl

lemma HasSpecs.call {fields : OrdMap String Bytes} {ext ext' : DynamicFieldsExt Ty Val} {result : FieldResult Val}
    (h : HasSpecs types ext) (hc : UsesTypes codec types c)
    (hcall : runCall codec fields ext c = .ok (result, ext')) : HasSpecs types ext' := by
  have haccess : ∀ {onHit : CachedDynamicField Ty Val → CachedDynamicField Ty Val} {nameTy valueTy uid name v mid},
      nativeAccess codec fields onHit ext nameTy valueTy uid name = .ok (v, mid) →
      (∀ entry, (onHit entry).valueSpec = entry.valueSpec) →
      (∀ l, parseFieldLocation codec nameTy uid name = .ok l → valueTy = (types l).2) → HasSpecs types mid := by
    intro onHit nameTy valueTy uid name v mid hhit honHit hvalue
    obtain ⟨location, hlocation, hhit⟩ := nativeAccess_eq_ok hhit
    obtain ⟨entry, hentry, hfind⟩ := withLiveField_entries honHit hhit
    exact h.replace hfind (hentry.trans (hvalue location hlocation))
  cases c with
  | add nameTy valueTy uid name value =>
    obtain ⟨_, hadd, heq⟩ := bind_eq_ok.mp hcall
    cases heq
    obtain ⟨location, bytes, hlocation, -, -, rfl⟩ := nativeAdd_eq_ok hadd
    exact h.replace (fun key => OrdMap.find?_insert ..) ((hc location hlocation).2 valueTy rfl)
  | borrow nameTy valueTy uid name | remove nameTy valueTy uid name =>
    obtain ⟨_, hhit, heq⟩ := bind_eq_ok.mp hcall
    cases heq
    exact haccess hhit (fun _ => rfl) fun l hl => (hc l hl).2 valueTy rfl
  | borrowMut nameTy valueTy uid name written =>
    obtain ⟨_, hhit, hrest⟩ := bind_eq_ok.mp hcall
    have hspecs := haccess hhit (fun _ => rfl) fun l hl => (hc l hl).2 valueTy rfl
    obtain ⟨location, hlocation, hrest⟩ := bind_eq_ok.mp hrest
    obtain ⟨ext'', hwrite, heq⟩ := bind_eq_ok.mp hrest
    cases heq
    cases written with
    | none =>
      cases hwrite
      exact hspecs
    | some w =>
      simp only [writeThrough] at hwrite
      split_ifs at hwrite
      cases hwrite
      unfold writeField
      split
      · exact hspecs
      · rename_i entry hfind
        exact hspecs.replace (fun key => OrdMap.find?_insert ..) (hspecs location entry hfind)
  | exists_ nameTy uid name =>
    obtain ⟨_, -, heq⟩ := bind_eq_ok.mp hcall
    cases heq
    exact h

lemma WellTyped.call (h : WellTyped codec types s) (hc : UsesTypes codec types c) :
    WellTyped codec types (s.call codec c) := by
  unfold FieldSystem.call
  cases hcall : runCall codec s.fields s.journal c with
  | error e => exact wellTyped_of_stored h.stored
  | ok out =>
    obtain ⟨result, journal⟩ := out
    obtain ⟨m, added, hjournal, hseen⟩ := h.seen
    obtain ⟨m', hplain, hjournal'⟩ := hjournal.call hcall
    have hspecs := h.specs.call hc hcall
    -- outside additions, what is seen afterwards was seen before
    have hkept : (∀ l, ¬AddsAt codec l c) → WellTyped codec types { s with journal := journal } := fun hnot =>
      ⟨⟨m', _, hjournal', fun l hl => hseen l ((plainCall_isSome hplain hl).resolve_right (hnot l))⟩, hspecs, h.stored⟩
    cases c with
    | add nameTy valueTy uid name value =>
      obtain ⟨_, hadd, -⟩ := bind_eq_ok.mp hcall
      obtain ⟨location, bytes, hlocation, -⟩ := nativeAdd_eq_ok hadd
      obtain ⟨hname, hvalue⟩ := hc location hlocation
      simp only [FieldCall.location, hlocation]
      refine ⟨⟨m', _, hjournal', fun l hl => ?_⟩, hspecs, h.stored⟩
      dsimp only
      split_ifs with hl'
      · rw [hl']
        exact congrArg some (Prod.ext hname (hvalue valueTy rfl))
      · refine hseen l ((plainCall_isSome hplain hl).resolve_right fun hadds => hl' ?_)
        exact Except.ok.inj (Eq.trans (Eq.symm hadds) hlocation)
    | borrow | borrowMut | remove | exists_ => exact hkept fun _ => not_false

lemma WellTyped.commit (h : WellTyped codec types s) : WellTyped codec types (s.commit codec) := by
  obtain ⟨m, added, hjournal, hseen⟩ := h.seen
  refine wellTyped_of_stored (s := s.commit codec) ?_
  intro location bytes hbytes
  simp only [FieldSystem.commit] at hbytes ⊢
  rcases load_applyFieldOps (takeAll codec s.journal) s.fields location with
    ⟨-, hload⟩ | ⟨bytes', hadd, hload⟩ | ⟨-, hnone, hload⟩
  · rw [hload] at hbytes
    cases hbytes
  · obtain rfl : bytes' = bytes := Option.some.inj (hload.symm.trans hbytes)
    obtain ⟨entry, hfind, hstate, hm⟩ := hjournal.add_mem.mp hadd
    rw [if_pos (List.any_eq_true.mpr ⟨_, hadd, by simp⟩)]
    refine ⟨hseen location (by rw [hm]; rfl), ?_⟩
    have hvalue := ((hjournal.cached location entry hfind).live (by simp [hstate])).2
    rw [← h.specs location entry hfind, (codec.deserialize_iff _ _ _).mpr (hvalue.trans hm)]
    rfl
  · rw [hload] at hbytes
    rw [if_neg]
    · exact h.stored location bytes hbytes
    · rintro hany
      obtain ⟨op, hop, hat⟩ := List.any_eq_true.mp hany
      cases op with
      | add objectId nameBytes valueBytes =>
        obtain rfl : (⟨objectId, nameBytes⟩ : FieldLocation) = location := beq_iff_eq.mp hat
        exact hnone _ hop
      | remove => cases hat

/-- In a run whose calls keep to one name type and one value type for each object and serialised
name, every call meets only fields of its own types, and gets the field whenever there is one. -/
theorem dynamic_fields_typed (codec : FieldCodec Ty Val) (types : FieldLocation → Ty × Ty)
    (events : List (FieldEvent Ty Val)) (hcalls : ∀ c, .call c ∈ events → UsesTypes codec types c) :
    ∀ p ∈ FieldSystem.empty.callsOf codec events, Typed codec p.1 p.2 ∧
      ∀ location, p.2.location codec = .ok location → p.2.Serializes codec →
        (Meets codec p.1 p.2 ↔ fieldExists p.1.fields p.1.journal location = true) := by
  have hrun : ∀ s : FieldSystem Ty Val, WellTyped codec types s → ∀ p ∈ s.callsOf codec events,
      WellTyped codec types p.1 ∧ UsesTypes codec types p.2 := by
    intro s hs
    induction events generalizing s with
    | nil => exact fun p hp => by cases hp
    | cons event events ih =>
      obtain ⟨hfirst, hrest⟩ := List.forall_mem_cons.mp
        (show ∀ e ∈ event :: events, ∀ c, e = .call c → UsesTypes codec types c from
          fun e he c hc => hcalls c (hc ▸ he))
      have ih := ih fun c hc => hrest _ hc c rfl
      cases event with
      | call c =>
        have hc := hfirst c rfl
        exact List.forall_mem_cons.mpr ⟨⟨hs, hc⟩, ih _ (hs.call hc)⟩
      | commit => exact ih _ hs.commit
      | rollback => exact ih _ (wellTyped_of_stored hs.stored)
  intro p hp
  obtain ⟨hs, hc⟩ := hrun .empty (wellTyped_of_stored (s := .empty) fun _ _ h => by cases h) p hp
  exact ⟨fun location hlocation => (hs.meets hc hlocation).1, fun location hlocation => (hs.meets hc hlocation).2⟩

def addedNumber : FieldCall SampleTy Bytes := .add .u8 .u64 sampleUid [1] (Text.leBytes 8 7)

def lentNumber : FieldCall SampleTy Bytes := .borrow .u8 .u64 sampleUid [1]

/-- The number is lent out again in the next transaction. -/
theorem dynamic_fields_typed_number :
    let s := (FieldSystem.empty.call sampleCodec addedNumber).commit sampleCodec
    Typed sampleCodec s lentNumber ∧ Meets sampleCodec s lentNumber := by
  intro s
  have hcalls : ∀ c, FieldEvent.call c ∈ [.call addedNumber, .commit, .call lentNumber] →
      UsesTypes sampleCodec (fun _ => (.u8, .u64)) c := by
    intro c hc
    simp only [List.mem_cons, FieldEvent.call.injEq, List.not_mem_nil, or_false, reduceCtorEq, false_or] at hc
    rcases hc with rfl | rfl <;> exact fun _ _ => ⟨rfl, fun ty hty => (Option.some.inj hty).symm⟩
  obtain ⟨htyped, hmeets⟩ := dynamic_fields_typed sampleCodec (fun _ => (.u8, .u64))
    [.call addedNumber, .commit, .call lentNumber] hcalls (s, lentNumber)
    (by simp [FieldSystem.callsOf, FieldSystem.next, s])
  exact ⟨htyped, (hmeets ⟨objectIdFromUid sampleUid, [1]⟩ rfl trivial).mpr (by decide +kernel)⟩

def lentGold : FieldCall SampleTy Bytes := .borrow .bool .gold sampleUid [1]

/-- A `u64` under the `u8` 1 is lent out in the next transaction as a `Gold` under the name `true`. -/
theorem dynamic_field_retyped :
    ∃ p ∈ FieldSystem.empty.callsOf sampleCodec [.call addedNumber, .commit, .call lentGold],
      ¬Typed sampleCodec p.1 p.2 := by
  refine ⟨((FieldSystem.empty.call sampleCodec addedNumber).commit sampleCodec, lentGold), ?_, fun htyped => ?_⟩
  · simp [FieldSystem.callsOf, FieldSystem.next]
  · have hlent : (nativeBorrow sampleCodec ((FieldSystem.empty.call sampleCodec addedNumber).commit sampleCodec).fields
        ((FieldSystem.empty.call sampleCodec addedNumber).commit sampleCodec).journal .bool .gold sampleUid [1]).isOk =
        true := by decide +kernel
    have hseen : ((FieldSystem.empty.call sampleCodec addedNumber).commit sampleCodec).seenAs
        ⟨objectIdFromUid sampleUid, [1]⟩ = some (.u8, .u64) := by decide +kernel
    have hmeets : Meets sampleCodec ((FieldSystem.empty.call sampleCodec addedNumber).commit sampleCodec) lentGold := by
      unfold lentGold Meets
      cases hborrow : nativeBorrow sampleCodec ((FieldSystem.empty.call sampleCodec addedNumber).commit sampleCodec).fields
        ((FieldSystem.empty.call sampleCodec addedNumber).commit sampleCodec).journal .bool .gold sampleUid [1] with
      | error e =>
        rw [hborrow] at hlent
        cases hlent
      | ok hit => exact ⟨hit, hborrow⟩
    obtain ⟨valueTy, hown, -⟩ := htyped ⟨objectIdFromUid sampleUid, [1]⟩ rfl hmeets
    rw [hseen] at hown
    cases hown

end Kanari.Proofs

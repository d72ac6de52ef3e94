import ServerEngine.Contribution.Cache
import ServerEngine.Frontend.Validation

/-! # Capturing the facts of one source

Both `replace` operations copy the facts into flat arenas, moving every range to the place where the
source's payload begins. What they copy, before it is moved, is the content of the facts.
-/
namespace ServerEngine
open Slice ErrorFold

/-! ## Checked 32-bit placement -/

def addU32 (base relative : Nat) : Except StatusCode Nat :=
  if base + relative > u32Max then .error .notAvailable else .ok (base + relative)

def absoluteU32 (base localBegin : Nat) : Except StatusCode Nat :=
  if localBegin > sizeMax - base then .error .notAvailable
  else if base + localBegin > u32Max then .error .notAvailable
  else .ok (base + localBegin)

theorem addU32_ok {base relative v : Nat} :
    addU32 base relative = .ok v ↔ base + relative ≤ u32Max ∧ v = base + relative := by
  unfold addU32
  split
  · simp only [reduceCtorEq, false_iff]
    omega
  · simp only [Except.ok.injEq]
    omega

theorem absoluteU32_ok {base localBegin v : Nat} :
    absoluteU32 base localBegin = .ok v ↔ base + localBegin ≤ u32Max ∧ v = base + localBegin := by
  have hmax : u32Max ≤ sizeMax := by decide
  unfold absoluteU32
  split
  · simp only [reduceCtorEq, false_iff]
    omega
  · split
    · simp only [reduceCtorEq, false_iff]
      omega
    · simp only [Except.ok.injEq]
      omega

/-- A placement moves a relative begin by `base`, inside 32 bits. -/
def Places (place : Nat → Except StatusCode Nat) (base : Nat) : Prop :=
  ∀ r v, place r = .ok v ↔ base + r ≤ u32Max ∧ v = base + r

theorem places_addU32 (base : Nat) : Places (addU32 base) base := fun _ _ => addU32_ok

theorem places_absolute (base localBegin : Nat) :
    Places (fun r => do addU32 (← absoluteU32 base localBegin) r) (base + localBegin) := by
  intro r v
  rw [bind_ok]
  constructor
  · rintro ⟨g, hg, hv⟩
    rw [absoluteU32_ok] at hg
    rw [addU32_ok] at hv
    omega
  · rintro ⟨hr, rfl⟩
    exact ⟨base + localBegin, absoluteU32_ok.mpr ⟨by omega, rfl⟩, addU32_ok.mpr ⟨hr, rfl⟩⟩

/-! ## The copying loops -/

def captureTypeRef (place : Nat → Except StatusCode Nat) (item : SourceTypeRef) :
    Except StatusCode SourceContributionTypeRef := do
  let first ← place item.modifiers.begin
  return ⟨item.identity, ⟨first, item.modifiers.count⟩, item.intrinsic⟩

def captureMember (place : Nat → Except StatusCode Nat) (item : SourceMemberFact) :
    Except StatusCode SourceContributionMember := do
  let type ← captureTypeRef place item.type
  return ⟨type, item.name, item.access, item.construction⟩

def captureEnumValue (item : SourceEnumValueFact) : SourceContributionEnumValue :=
  ⟨item.name, item.value⟩

def captureObject (place : Nat → Except StatusCode Nat) (item : SourceObjectFact) :
    Except StatusCode SourceContributionObject := do
  let type ← captureTypeRef place item.type
  return ⟨item.identity, type, item.constructionFlags⟩

def captureLink (item : SourceLinkFact) : SourceContributionLink := ⟨item.source, item.target⟩

/-- `append_record`, for the record itself. -/
def captureRecord (place : Nat → Except StatusCode Nat) (item : SourceRecordFact) :
    Except StatusCode SourceContributionType := do
  let first ← place item.members.begin
  return { identity := item.identity
           kind := .record
           recordKind := item.recordKind
           definition := item.declarationKind == .definition
           definitionItems := ⟨first, item.members.count⟩ }

/-- `append_enum`, for the enumeration itself. -/
def captureEnum (place : Nat → Except StatusCode Nat) (item : SourceEnumFact) :
    Except StatusCode SourceContributionType := do
  let first ← place item.enumerators.begin
  return { identity := item.identity
           kind := .enumeration
           explicitUnderlying := item.explicitUnderlying
           definition := item.declarationKind == .definition
           enumScoped := item.isScoped
           definitionItems := ⟨first, item.enumerators.count⟩ }

/-- `result = index < size ? ok : invalid_argument`. -/
def checkIndex {α : Type} (values : List α) (index : Nat) : Except StatusCode α :=
  match values[index]? with
  | some value => .ok value
  | none => .error .invalidArgument

/-- One step of the loop over the declarations: the type it appends, if any. -/
def captureDeclaration (placeMember placeEnum : Nat → Except StatusCode Nat) (facts : SourceFacts)
    (item : SourceDeclarationRef) : Except StatusCode (List SourceContributionType) :=
  match item.kind with
  | .namespaceScope => .ok []
  | .recordType => do
    let type ← captureRecord placeMember (← checkIndex facts.records item.index)
    return [type]
  | .enumType => do
    let type ← captureEnum placeEnum (← checkIndex facts.enums item.index)
    return [type]
  | .object => do
    let _ ← checkIndex facts.objects item.index
    return []
  | .link => do
    let _ ← checkIndex facts.links item.index
    return []
  | .typeAlias => .ok []

def captureTypes (placeMember placeEnum : Nat → Except StatusCode Nat) (facts : SourceFacts) :
    Except StatusCode (List SourceContributionType) :=
  if facts.declarations.isEmpty then do
    let records ← facts.records.mapM (captureRecord placeMember)
    let enums ← facts.enums.mapM (captureEnum placeEnum)
    return records ++ enums
  else do
    let types ← facts.declarations.mapM (captureDeclaration placeMember placeEnum facts)
    return types.flatten

/-- The inheritance gate: `record.bases.count != 0` for some record. -/
def hasBases (facts : SourceFacts) : Bool := facts.records.any (·.bases.count != 0)

def SourceContributionTypeRef.shift (base : Nat) (t : SourceContributionTypeRef) :
    SourceContributionTypeRef := { t with modifiers := ⟨base + t.modifiers.begin, t.modifiers.count⟩ }

def SourceContributionMember.shift (base : Nat) (m : SourceContributionMember) :
    SourceContributionMember := { m with type := m.type.shift base }

def SourceContributionObject.shift (base : Nat) (o : SourceContributionObject) :
    SourceContributionObject := { o with type := o.type.shift base }

def SourceContributionType.shift (members enumValues : Nat) (t : SourceContributionType) :
    SourceContributionType :=
  { t with definitionItems :=
      ⟨(match t.kind with | .record => members | .enumeration => enumValues) +
        t.definitionItems.begin, t.definitionItems.count⟩ }

def Arenas.shift (base : ArenaSizes) (a : Arenas) : Arenas :=
  { a with
    types := a.types.map (·.shift base.members base.enumValues)
    members := a.members.map (·.shift base.modifiers)
    objects := a.objects.map (·.shift base.modifiers) }

def typeRefContent (item : SourceTypeRef) : SourceContributionTypeRef :=
  ⟨item.identity, item.modifiers, item.intrinsic⟩

def memberContent (item : SourceMemberFact) : SourceContributionMember :=
  ⟨typeRefContent item.type, item.name, item.access, item.construction⟩

def objectContent (item : SourceObjectFact) : SourceContributionObject :=
  ⟨item.identity, typeRefContent item.type, item.constructionFlags⟩

def recordContent (item : SourceRecordFact) : SourceContributionType :=
  { identity := item.identity
    kind := .record
    recordKind := item.recordKind
    definition := item.declarationKind == .definition
    definitionItems := item.members }

def enumContent (item : SourceEnumFact) : SourceContributionType :=
  { identity := item.identity
    kind := .enumeration
    explicitUnderlying := item.explicitUnderlying
    definition := item.declarationKind == .definition
    enumScoped := item.isScoped
    definitionItems := item.enumerators }

def declarationContent (facts : SourceFacts) (item : SourceDeclarationRef) :
    List SourceContributionType :=
  match item.kind with
  | .recordType => facts.records[item.index]?.toList.map recordContent
  | .enumType => facts.enums[item.index]?.toList.map enumContent
  | _ => []

def typesContent (facts : SourceFacts) : List SourceContributionType :=
  if facts.declarations.isEmpty then facts.records.map recordContent ++ facts.enums.map enumContent
  else facts.declarations.flatMap (declarationContent facts)

def SourceFacts.content (facts : SourceFacts) : Arenas where
  types := typesContent facts
  members := facts.members.map memberContent
  modifiers := facts.modifiers
  enumValues := facts.enumValues.map captureEnumValue
  objects := facts.objects.map objectContent
  links := facts.links.map captureLink

/-! ## What the loops copy is the moved content -/

variable {place placeMember placeEnum : Nat → Except StatusCode Nat} {base members enumValues : Nat}

theorem captureTypeRef_ok (hp : Places place base) {item : SourceTypeRef}
    {t : SourceContributionTypeRef} : captureTypeRef place item = .ok t ↔
      base + item.modifiers.begin ≤ u32Max ∧ t = (typeRefContent item).shift base := by
  rw [captureTypeRef, bind_ok]
  constructor
  · rintro ⟨v, hv, ht⟩
    obtain ⟨hfit, rfl⟩ := (hp _ _).mp hv
    cases ht
    exact ⟨hfit, rfl⟩
  · rintro ⟨hfit, rfl⟩
    exact ⟨_, (hp _ _).mpr ⟨hfit, rfl⟩, rfl⟩

theorem captureMember_ok (hp : Places place base) (item : SourceMemberFact)
    (m : SourceContributionMember) : captureMember place item = .ok m ↔
      base + item.type.modifiers.begin ≤ u32Max ∧ m = (memberContent item).shift base := by
  rw [captureMember, bind_ok]
  constructor
  · rintro ⟨t, ht, hm⟩
    obtain ⟨hfit, rfl⟩ := (captureTypeRef_ok hp).mp ht
    cases hm
    exact ⟨hfit, rfl⟩
  · rintro ⟨hfit, rfl⟩
    exact ⟨_, (captureTypeRef_ok hp).mpr ⟨hfit, rfl⟩, rfl⟩

theorem captureObject_ok (hp : Places place base) (item : SourceObjectFact)
    (o : SourceContributionObject) : captureObject place item = .ok o ↔
      base + item.type.modifiers.begin ≤ u32Max ∧ o = (objectContent item).shift base := by
  rw [captureObject, bind_ok]
  constructor
  · rintro ⟨t, ht, ho⟩
    obtain ⟨hfit, rfl⟩ := (captureTypeRef_ok hp).mp ht
    cases ho
    exact ⟨hfit, rfl⟩
  · rintro ⟨hfit, rfl⟩
    exact ⟨_, (captureTypeRef_ok hp).mpr ⟨hfit, rfl⟩, rfl⟩

theorem captureRecord_ok (hp : Places place members) (enumValues : Nat) (item : SourceRecordFact)
    (t : SourceContributionType) : captureRecord place item = .ok t ↔
      members + item.members.begin ≤ u32Max ∧
        t = (recordContent item).shift members enumValues := by
  rw [captureRecord, bind_ok]
  constructor
  · rintro ⟨v, hv, ht⟩
    obtain ⟨hfit, rfl⟩ := (hp _ _).mp hv
    cases ht
    exact ⟨hfit, rfl⟩
  · rintro ⟨hfit, rfl⟩
    exact ⟨_, (hp _ _).mpr ⟨hfit, rfl⟩, rfl⟩

theorem captureEnum_ok (hp : Places place enumValues) (members : Nat) (item : SourceEnumFact)
    (t : SourceContributionType) : captureEnum place item = .ok t ↔
      enumValues + item.enumerators.begin ≤ u32Max ∧
        t = (enumContent item).shift members enumValues := by
  rw [captureEnum, bind_ok]
  constructor
  · rintro ⟨v, hv, ht⟩
    obtain ⟨hfit, rfl⟩ := (hp _ _).mp hv
    cases ht
    exact ⟨hfit, rfl⟩
  · rintro ⟨hfit, rfl⟩
    exact ⟨_, (hp _ _).mpr ⟨hfit, rfl⟩, rfl⟩

theorem checkIndex_ok {α : Type} {values : List α} {index : Nat} {value : α} :
    checkIndex values index = .ok value ↔ values[index]? = some value := by
  unfold checkIndex
  cases values[index]? <;> simp

/-- The declaration names a fact, and that fact's items fit at the given begins. -/
def DeclarationFits (facts : SourceFacts) (members enumValues : Nat) (item : SourceDeclarationRef) :
    Prop :=
  match item.kind with
  | .recordType => ∃ r, facts.records[item.index]? = some r ∧ members + r.members.begin ≤ u32Max
  | .enumType => ∃ e, facts.enums[item.index]? = some e ∧ enumValues + e.enumerators.begin ≤ u32Max
  | .object => item.index < facts.objects.length
  | .link => item.index < facts.links.length
  | _ => True

theorem captureDeclaration_ok (hm : Places placeMember members) (he : Places placeEnum enumValues)
    (facts : SourceFacts) (item : SourceDeclarationRef) (ts : List SourceContributionType) :
    captureDeclaration placeMember placeEnum facts item = .ok ts ↔
      DeclarationFits facts members enumValues item ∧
        ts = (declarationContent facts item).map (·.shift members enumValues) := by
  unfold captureDeclaration DeclarationFits declarationContent
  cases item.kind with
  | namespaceScope => simp [eq_comm]
  | typeAlias => simp [eq_comm]
  | recordType =>
    simp only [bind_ok, checkIndex_ok]
    constructor
    · rintro ⟨r, hr, t, ht, hts⟩
      obtain ⟨hfit, rfl⟩ := (captureRecord_ok hm enumValues r t).mp ht
      cases hts
      exact ⟨⟨r, hr, hfit⟩, by simp [hr]⟩
    · rintro ⟨⟨r, hr, hfit⟩, rfl⟩
      exact ⟨r, hr, _, (captureRecord_ok hm enumValues r _).mpr ⟨hfit, rfl⟩, by
        simp [hr, pure, Except.pure]⟩
  | enumType =>
    simp only [bind_ok, checkIndex_ok]
    constructor
    · rintro ⟨e, hr, t, ht, hts⟩
      obtain ⟨hfit, rfl⟩ := (captureEnum_ok he members e t).mp ht
      cases hts
      exact ⟨⟨e, hr, hfit⟩, by simp [hr]⟩
    · rintro ⟨⟨e, hr, hfit⟩, rfl⟩
      exact ⟨e, hr, _, (captureEnum_ok he members e _).mpr ⟨hfit, rfl⟩, by
        simp [hr, pure, Except.pure]⟩
  | object =>
    simp only [bind_ok, checkIndex_ok, pure, Except.pure, Except.ok.injEq, List.getElem?_eq_some_iff]
    constructor
    · rintro ⟨_, ⟨hlt, _⟩, rfl⟩
      exact ⟨hlt, rfl⟩
    · rintro ⟨hlt, rfl⟩
      exact ⟨_, ⟨hlt, rfl⟩, rfl⟩
  | link =>
    simp only [bind_ok, checkIndex_ok, pure, Except.pure, Except.ok.injEq, List.getElem?_eq_some_iff]
    constructor
    · rintro ⟨_, ⟨hlt, _⟩, rfl⟩
      exact ⟨hlt, rfl⟩
    · rintro ⟨hlt, rfl⟩
      exact ⟨_, ⟨hlt, rfl⟩, rfl⟩

def TypesFit (facts : SourceFacts) (members enumValues : Nat) : Prop :=
  if facts.declarations.isEmpty then
    (∀ r ∈ facts.records, members + r.members.begin ≤ u32Max) ∧
      ∀ e ∈ facts.enums, enumValues + e.enumerators.begin ≤ u32Max
  else ∀ d ∈ facts.declarations, DeclarationFits facts members enumValues d

theorem captureTypes_ok (hm : Places placeMember members) (he : Places placeEnum enumValues)
    (facts : SourceFacts) (ts : List SourceContributionType) :
    captureTypes placeMember placeEnum facts = .ok ts ↔
      TypesFit facts members enumValues ∧
        ts = (typesContent facts).map (·.shift members enumValues) := by
  unfold captureTypes TypesFit typesContent
  split
  · simp only [bind_ok, pure, Except.pure, Except.ok.injEq,
      mapM_ok_iff (captureRecord_ok hm enumValues), mapM_ok_iff (captureEnum_ok he members)]
    constructor
    · rintro ⟨rs, ⟨hrs, rfl⟩, es, ⟨hes, rfl⟩, rfl⟩
      exact ⟨⟨hrs, hes⟩, by simp [Function.comp_def]⟩
    · rintro ⟨⟨hrs, hes⟩, rfl⟩
      exact ⟨_, ⟨hrs, rfl⟩, _, ⟨hes, rfl⟩, by simp [Function.comp_def]⟩
  · simp only [bind_ok, pure, Except.pure, Except.ok.injEq,
      mapM_ok_iff (captureDeclaration_ok hm he facts)]
    constructor
    · rintro ⟨tss, ⟨hds, rfl⟩, rfl⟩
      exact ⟨hds, by rw [← List.flatMap_def, List.map_flatMap]⟩
    · rintro ⟨hds, rfl⟩
      exact ⟨_, ⟨hds, rfl⟩, by rw [← List.flatMap_def, List.map_flatMap]⟩

end ServerEngine

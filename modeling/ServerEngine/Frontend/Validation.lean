import ServerEngine.Frontend.SourceFacts
import ServerEngine.Library.ErrorFold
import ServerEngine.Library.Slice

/-! # Validation of source facts

`validate_source_facts`: one fold for each loop of the source, in its order. The checks that an
enumerator is in range hold of every value of the inductive types and have no step here.
-/
namespace ServerEngine
open Slice

/-! ## Errors -/

inductive SourceFactsErrorCode
  | invalidSource
  | sourceTooLarge
  | namespaceIdentityMissing
  | namespaceIdentityKind
  | namespaceRange
  | namespaceOrder
  | recordIdentityMissing
  | recordIdentityKind
  | recordRange
  | recordOrder
  | recordMemberRange
  | declarationHasMembers
  | memberPartition
  | memberNameEmpty
  | memberRange
  | memberInitializerRange
  | memberOrder
  | typeSpellingRange
  | typeSpellingOutsideMember
  | unresolvedTypeBase
  | ambiguousTypeBase
  | semanticTypeIdentityKind
  | intrinsicTypeCode
  | modifierPartition
  | modifierValue
  | enumIdentityMissing
  | enumIdentityKind
  | enumRange
  | enumOrder
  | enumEnumeratorRange
  | enumDeclarationHasValues
  | enumValuePartition
  | enumUnderlyingType
  | enumValueNameRange
  | enumValueExpressionRange
  | enumValueType
  | objectIdentityMissing
  | objectIdentityKind
  | objectRange
  | objectInitializerRange
  | objectType
  | linkEndpoint
  | linkRange
  | declarationSequenceIndex
  | declarationSequenceOrder
  | declarationSequenceRange
  | recordBaseRange
  | declarationHasBases
  | declarationHasMethods
  | basePartition
  | baseIdentityMissing
  | baseIdentityKind
  | baseRange
  | methodNameEmpty
  | methodRange
  | methodOrder
  | methodPartition
  | methodModifierPartition
  | aliasIdentityMissing
  | aliasIdentityKind
  | aliasRange
  | aliasOrder
  | aliasModifierPartition
  | constructionValueInvalid
  deriving DecidableEq

inductive SourceFactCategory
  | packet
  | namespaceFact
  | recordFact
  | memberFact
  | modifierFact
  | enumFact
  | enumValueFact
  | objectFact
  | linkFact
  | baseFact
  | aliasFact
  | methodFact
  | declarationRef
  deriving DecidableEq

structure SourceFactsValidationError where
  code : SourceFactsErrorCode
  category : SourceFactCategory
  index : Nat
  location : SourceSpan
  deriving DecidableEq

/-- `fail`: every validation error is reported as `invalid_argument`, with this record beside it. -/
def failWith (code : SourceFactsErrorCode) (category : SourceFactCategory) (index : Nat)
    (location : SourceSpan) : SourceFactsValidationError :=
  ⟨code, category, min index u32Max, location⟩

abbrev Checked := Except SourceFactsValidationError

def failIf (bad : Bool) (code : SourceFactsErrorCode) (category : SourceFactCategory) (index : Nat)
    (location : SourceSpan := {}) : Checked Unit :=
  if bad then .error (failWith code category index location) else .ok ()

@[simp] theorem failIf_ok {bad : Bool} {code : SourceFactsErrorCode} {category : SourceFactCategory}
    {index : Nat} {location : SourceSpan} {u : Unit} :
    failIf bad code category index location = .ok u ↔ bad = false := by
  cases bad <;> simp [failIf]

def validSpan (range : SourceSpan) (sourceSize : Nat) : Bool :=
  range.offset ≤ sourceSize && range.length ≤ sourceSize - range.offset

def containsSpan (outer inner : SourceSpan) : Bool :=
  inner.offset ≥ outer.offset && inner.offset + inner.length ≤ outer.offset + outer.length

def validRange (range : SourceFactRange) (size : Nat) : Bool :=
  range.begin ≤ size && range.count ≤ size - range.begin

def validIntrinsic (t : IntrinsicType) : Bool := t.code > IntrinsicType.none.code

/-- Below `float_type`: the intrinsic types an enumeration may have as underlying type. -/
def integralIntrinsic (t : IntrinsicType) : Bool :=
  validIntrinsic t && t.code < IntrinsicType.floatType.code

def badDeclaration (range : SourceSpan) (sourceSize : Nat) : Bool :=
  range.length == 0 || !validSpan range sourceSize

/-! ## The loops -/

def validateNamespaces (facts : SourceFacts) : Checked Nat :=
  facts.namespaces.zipIdx.foldlM (fun previous (item, index) => do
    failIf (item.identity == .null) .namespaceIdentityMissing .namespaceFact index item.declaration
    failIf (item.identity.kind != .namespaceScope) .namespaceIdentityKind .namespaceFact index
      item.declaration
    failIf (badDeclaration item.declaration facts.sourceTextSize) .namespaceRange .namespaceFact
      index item.declaration
    failIf (index != 0 && item.declaration.offset < previous) .namespaceOrder .namespaceFact index
      item.declaration
    return item.declaration.offset) 0

/-- The members of one record definition: construction values, containment and order. -/
def validateRecordMembers (facts : SourceFacts) (item : SourceRecordFact) : Checked Nat :=
  ((slice facts.members item.members.begin item.members.count).zipIdx
      item.members.begin).foldlM (fun previous (member, index) => do
    failIf (!validConstruction member.construction ||
        (member.construction.kind == .memberBinding &&
          member.construction.operand > item.members.count))
      .constructionValueInvalid .memberFact index member.declaration
    failIf (!containsSpan item.declaration member.declaration) .memberRange .memberFact index
      member.declaration
    failIf (index != item.members.begin && member.declaration.offset < previous) .memberOrder
      .memberFact index member.declaration
    return member.declaration.offset) 0

def validateRecordMethods (facts : SourceFacts) (item : SourceRecordFact) : Checked Unit :=
  ((slice facts.methods item.methods.begin item.methods.count).zipIdx
      item.methods.begin).foldlM (fun _ (method, index) =>
    failIf (!containsSpan item.declaration method.declaration) .methodRange .methodFact index
      method.declaration) ()

/-- What the loop over the records carries: where the next members, bases and methods must begin,
and the previous declaration's offset. -/
structure RecordCursor where
  member : Nat := 0
  base : Nat := 0
  method : Nat := 0
  previous : Nat := 0

def validateRecord (facts : SourceFacts) (cursor : RecordCursor) (item : SourceRecordFact)
    (index : Nat) : Checked RecordCursor := do
  failIf (item.identity == .null) .recordIdentityMissing .recordFact index item.declaration
  failIf (item.identity.kind != .type) .recordIdentityKind .recordFact index item.declaration
  failIf (badDeclaration item.declaration facts.sourceTextSize) .recordRange .recordFact index
    item.declaration
  failIf (index != 0 && item.declaration.offset < cursor.previous) .recordOrder .recordFact index
    item.declaration
  failIf (!validRange item.members facts.members.length) .recordMemberRange .recordFact index
    item.declaration
  failIf (item.members.begin != cursor.member) .memberPartition .recordFact index item.declaration
  failIf (!validRange item.bases facts.bases.length) .recordBaseRange .recordFact index
    item.declaration
  failIf (item.bases.begin != cursor.base) .basePartition .recordFact index item.declaration
  failIf (!validRange item.methods facts.methods.length) .methodRange .recordFact index
    item.declaration
  failIf (item.methods.begin != cursor.method) .methodPartition .recordFact index item.declaration
  match item.declarationKind with
  | .declaration => do
    failIf (item.members.count != 0) .declarationHasMembers .recordFact index item.declaration
    failIf (item.bases.count != 0) .declarationHasBases .recordFact index item.declaration
    failIf (item.methods.count != 0) .declarationHasMethods .recordFact index item.declaration
    return { cursor with previous := item.declaration.offset }
  | .definition => do
    let _ ← validateRecordMembers facts item
    validateRecordMethods facts item
    return {
      member := cursor.member + item.members.count
      base := cursor.base + item.bases.count
      method := cursor.method + item.methods.count
      previous := item.declaration.offset }

def validateRecords (facts : SourceFacts) : Checked Unit := do
  let cursor ← facts.records.zipIdx.foldlM
    (fun cursor (item, index) => validateRecord facts cursor item index) {}
  failIf (cursor.member != facts.members.length) .memberPartition .packet cursor.member
  failIf (cursor.base != facts.bases.length) .basePartition .packet cursor.base
  failIf (cursor.method != facts.methods.length) .methodPartition .packet cursor.method

/-- The base of a type reference that must be present: an identity of kind type or an intrinsic
type, not both. -/
def validateTypeBase (type : SourceTypeRef) (category : SourceFactCategory) (index : Nat)
    (location : SourceSpan) : Checked Unit := do
  failIf (type.identity == .null && type.intrinsic == .none) .unresolvedTypeBase category index
    location
  failIf (type.identity != .null && type.intrinsic != .none) .ambiguousTypeBase category index
    location
  failIf (type.identity != .null && type.identity.kind != .type) .semanticTypeIdentityKind category
    index location
  failIf (type.intrinsic != .none && !validIntrinsic type.intrinsic) .intrinsicTypeCode category
    index location

/-- The loop over the methods. Its base check differs from `validateTypeBase`: a constructor or a
destructor may have no return type. -/
def validateMethods (facts : SourceFacts) : Checked Unit := do
  let (expected, _) ← facts.methods.zipIdx.foldlM (fun (expected, previous) (item, index) => do
    failIf (item.name == 0) .methodNameEmpty .methodFact index item.declaration
    failIf (badDeclaration item.declaration facts.sourceTextSize) .methodRange .methodFact index
      item.declaration
    failIf (index != 0 && item.declaration.offset < previous) .methodOrder .methodFact index
      item.declaration
    failIf (item.returnType.identity == .null && item.returnType.intrinsic == .none &&
        !item.isConstructor && !item.isDestructor)
      .unresolvedTypeBase .methodFact index item.declaration
    failIf (item.returnType.identity != .null && item.returnType.intrinsic != .none)
      .ambiguousTypeBase .methodFact index item.declaration
    failIf (item.returnType.identity != .null && item.returnType.identity.kind != .type)
      .semanticTypeIdentityKind .methodFact index item.declaration
    failIf (item.returnType.intrinsic != .none && !validIntrinsic item.returnType.intrinsic)
      .intrinsicTypeCode .methodFact index item.declaration
    failIf (!validRange item.returnType.modifiers facts.methodModifiers.length ||
        item.returnType.modifiers.begin != expected)
      .methodModifierPartition .methodFact index item.declaration
    return (expected + item.returnType.modifiers.count, item.declaration.offset)) (0, 0)
  failIf (expected != facts.methodModifiers.length) .methodModifierPartition .packet expected

def validateBases (facts : SourceFacts) : Checked Unit :=
  facts.bases.zipIdx.foldlM (fun _ (item, index) => do
    failIf (item.base == .null) .baseIdentityMissing .baseFact index item.declaration
    failIf (item.base.kind != .type) .baseIdentityKind .baseFact index item.declaration
    failIf (badDeclaration item.declaration facts.sourceTextSize) .baseRange .baseFact index
      item.declaration) ()

def validateMember (facts : SourceFacts) (item : SourceMemberFact) (index : Nat) :
    Checked Unit := do
  failIf (item.name == 0) .memberNameEmpty .memberFact index item.declaration
  failIf (badDeclaration item.declaration facts.sourceTextSize) .memberRange .memberFact index
    item.declaration
  failIf (item.initializer.length != 0 && (!validSpan item.initializer facts.sourceTextSize ||
      !containsSpan item.declaration item.initializer))
    .memberInitializerRange .memberFact index item.initializer
  failIf (badDeclaration item.type.spelling facts.sourceTextSize) .typeSpellingRange .memberFact
    index item.type.spelling
  failIf (!containsSpan item.declaration item.type.spelling) .typeSpellingOutsideMember .memberFact
    index item.type.spelling
  validateTypeBase item.type .memberFact index item.type.spelling
  failIf (!validRange item.type.modifiers facts.modifiers.length) .modifierPartition .memberFact
    index item.type.spelling

def validateMembers (facts : SourceFacts) : Checked Unit :=
  facts.members.zipIdx.foldlM (fun _ (item, index) => validateMember facts item index) ()

def validateModifiers (facts : SourceFacts) : Checked Unit :=
  facts.modifiers.zipIdx.foldlM (fun _ (item, index) =>
    failIf ((item.kind == .boundedArray && item.value == 0) ||
        (item.kind != .boundedArray && item.value != 0))
      .modifierValue .modifierFact index) ()

def validateEnumValues (facts : SourceFacts) (item : SourceEnumFact) : Checked Unit :=
  ((slice facts.enumValues item.enumerators.begin item.enumerators.count).zipIdx
      item.enumerators.begin).foldlM (fun _ (value, index) => do
    failIf (value.name == 0) .enumValueNameRange .enumValueFact index item.declaration
    failIf (value.expression.length != 0 && (!validSpan value.expression facts.sourceTextSize ||
        !containsSpan item.declaration value.expression))
      .enumValueExpressionRange .enumValueFact index value.expression
    failIf (!integralIntrinsic value.value.intrinsic) .enumValueType .enumValueFact index
      value.expression) ()

def validateEnum (facts : SourceFacts) (cursor : Nat × Nat) (item : SourceEnumFact)
    (index : Nat) : Checked (Nat × Nat) := do
  failIf (item.identity == .null) .enumIdentityMissing .enumFact index item.declaration
  failIf (item.identity.kind != .type) .enumIdentityKind .enumFact index item.declaration
  failIf (badDeclaration item.declaration facts.sourceTextSize) .enumRange .enumFact index
    item.declaration
  failIf (index != 0 && item.declaration.offset < cursor.2) .enumOrder .enumFact index
    item.declaration
  failIf (!validRange item.enumerators facts.enumValues.length) .enumEnumeratorRange .enumFact index
    item.declaration
  failIf (item.enumerators.begin != cursor.1) .enumValuePartition .enumFact index item.declaration
  failIf (item.explicitUnderlying != .none && !integralIntrinsic item.explicitUnderlying)
    .enumUnderlyingType .enumFact index item.underlyingSpelling
  match item.declarationKind with
  | .declaration => do
    failIf (item.enumerators.count != 0) .enumDeclarationHasValues .enumFact index item.declaration
    return (cursor.1, item.declaration.offset)
  | .definition => do
    validateEnumValues facts item
    return (cursor.1 + item.enumerators.count, item.declaration.offset)

def validateEnums (facts : SourceFacts) : Checked Unit := do
  let cursor ← facts.enums.zipIdx.foldlM
    (fun cursor (item, index) => validateEnum facts cursor item index) (0, 0)
  failIf (cursor.1 != facts.enumValues.length) .enumValuePartition .packet cursor.1

def validateObject (facts : SourceFacts) (previous : Nat) (item : SourceObjectFact)
    (index : Nat) : Checked Nat := do
  failIf (item.constructionFlags > 1) .constructionValueInvalid .objectFact index item.declaration
  failIf (item.identity == .null) .objectIdentityMissing .objectFact index item.declaration
  failIf (item.identity.kind != .object) .objectIdentityKind .objectFact index item.declaration
  failIf (badDeclaration item.declaration facts.sourceTextSize) .objectRange .objectFact index
    item.declaration
  failIf (item.initializer.length != 0 && (!validSpan item.initializer facts.sourceTextSize ||
      !containsSpan item.declaration item.initializer))
    .objectInitializerRange .objectFact index item.initializer
  failIf (index != 0 && item.declaration.offset < previous) .declarationSequenceOrder .objectFact
    index item.declaration
  -- either an identity of kind type without an intrinsic type, or an intrinsic type alone
  failIf (!(item.type.identity != .null && item.type.identity.kind == .type &&
      item.type.intrinsic == .none) &&
      !(item.type.identity == .null && item.type.intrinsic != .none))
    .objectType .objectFact index item.declaration
  failIf (!validRange item.type.modifiers facts.modifiers.length) .objectType .objectFact index
    item.declaration
  return item.declaration.offset

def validateObjects (facts : SourceFacts) : Checked Nat :=
  facts.objects.zipIdx.foldlM (fun previous (item, index) =>
    validateObject facts previous item index) 0

/-- The merged walk over members and objects: their modifier ranges partition one array in
declaration order, a tie of offsets being resolved for the member. One unit of fuel per fact. -/
def validateModifierPartition : Nat → List (SourceMemberFact × Nat) →
    List (SourceObjectFact × Nat) → Nat → Checked Nat
  | 0, _, _, expected => .ok expected
  | _ + 1, [], [], expected => .ok expected
  | fuel + 1, (member, index) :: members, [], expected => do
    failIf (member.type.modifiers.begin != expected) .modifierPartition .memberFact index
      member.declaration
    validateModifierPartition fuel members [] (expected + member.type.modifiers.count)
  | fuel + 1, [], (object, index) :: objects, expected => do
    failIf (object.type.modifiers.begin != expected) .modifierPartition .objectFact index
      object.declaration
    validateModifierPartition fuel [] objects (expected + object.type.modifiers.count)
  | fuel + 1, (member, i) :: members, (object, j) :: objects, expected =>
    if member.declaration.offset ≤ object.declaration.offset then do
      failIf (member.type.modifiers.begin != expected) .modifierPartition .memberFact i
        member.declaration
      validateModifierPartition fuel members ((object, j) :: objects)
        (expected + member.type.modifiers.count)
    else do
      failIf (object.type.modifiers.begin != expected) .modifierPartition .objectFact j
        object.declaration
      validateModifierPartition fuel ((member, i) :: members) objects
        (expected + object.type.modifiers.count)

def validateLink (facts : SourceFacts) (previous : Nat) (item : SourceLinkFact) (index : Nat) :
    Checked Nat := do
  failIf (badDeclaration item.declaration facts.sourceTextSize) .linkRange .linkFact index
    item.declaration
  failIf (index != 0 && item.declaration.offset < previous) .declarationSequenceOrder .linkFact
    index item.declaration
  failIf (item.source.object == .null || item.source.object.kind != .object ||
      item.source.member == invalidMember || item.target.object == .null ||
      item.target.object.kind != .object || item.target.member == invalidMember)
    .linkEndpoint .linkFact index item.declaration
  return item.declaration.offset

def validateLinks (facts : SourceFacts) : Checked Nat :=
  facts.links.zipIdx.foldlM (fun previous (item, index) =>
    validateLink facts previous item index) 0

def validateAliases (facts : SourceFacts) : Checked Unit := do
  let (expected, _) ← facts.aliases.zipIdx.foldlM (fun (expected, previous) (item, index) => do
    failIf (item.identity == .null) .aliasIdentityMissing .aliasFact index item.declaration
    failIf (item.identity.kind != .type) .aliasIdentityKind .aliasFact index item.declaration
    failIf (badDeclaration item.declaration facts.sourceTextSize) .aliasRange .aliasFact index
      item.declaration
    failIf (index != 0 && item.declaration.offset < previous) .aliasOrder .aliasFact index
      item.declaration
    validateTypeBase item.target .aliasFact index item.declaration
    failIf (!validRange item.target.modifiers facts.aliasModifiers.length ||
        item.target.modifiers.begin != expected)
      .aliasModifierPartition .aliasFact index item.declaration
    return (expected + item.target.modifiers.count, item.declaration.offset)) (0, 0)
  failIf (expected != facts.aliasModifiers.length) .aliasModifierPartition .packet expected

/-- How many facts of each kind the declaration sequence has named so far. -/
structure DeclarationCursor where
  namespaces : Nat := 0
  records : Nat := 0
  enums : Nat := 0
  objects : Nat := 0
  links : Nat := 0
  aliases : Nat := 0
  previous : Nat := 0

/-- `item.index != next || next >= size`, then the span of the referenced fact. -/
def declarationSpan (item : SourceDeclarationRef) (index next : Nat) (spans : List SourceSpan) :
    Checked SourceSpan :=
  match spans[next]? with
  | some span => do
    failIf (item.index != next) .declarationSequenceIndex .declarationRef index item.declaration
    return span
  | none => .error (failWith .declarationSequenceIndex .declarationRef index item.declaration)

/-- The `switch` over the kind: the fact's span and the cursor past it. -/
def nextDeclaration (facts : SourceFacts) (cursor : DeclarationCursor) (item : SourceDeclarationRef)
    (index : Nat) : Checked (SourceSpan × DeclarationCursor) :=
  match item.kind with
  | .namespaceScope => do
    let span ← declarationSpan item index cursor.namespaces (facts.namespaces.map (·.declaration))
    return (span, { cursor with namespaces := cursor.namespaces + 1 })
  | .recordType => do
    let span ← declarationSpan item index cursor.records (facts.records.map (·.declaration))
    return (span, { cursor with records := cursor.records + 1 })
  | .enumType => do
    let span ← declarationSpan item index cursor.enums (facts.enums.map (·.declaration))
    return (span, { cursor with enums := cursor.enums + 1 })
  | .object => do
    let span ← declarationSpan item index cursor.objects (facts.objects.map (·.declaration))
    return (span, { cursor with objects := cursor.objects + 1 })
  | .link => do
    let span ← declarationSpan item index cursor.links (facts.links.map (·.declaration))
    return (span, { cursor with links := cursor.links + 1 })
  | .typeAlias => do
    let span ← declarationSpan item index cursor.aliases (facts.aliases.map (·.declaration))
    return (span, { cursor with aliases := cursor.aliases + 1 })

def validateDeclaration (facts : SourceFacts) (cursor : DeclarationCursor)
    (item : SourceDeclarationRef) (index : Nat) : Checked DeclarationCursor := do
  failIf (index != 0 && item.declaration.offset < cursor.previous) .declarationSequenceOrder
    .declarationRef index item.declaration
  let (expected, next) ← nextDeclaration facts { cursor with previous := item.declaration.offset }
    item index
  failIf (expected != item.declaration) .declarationSequenceRange .declarationRef index
    item.declaration
  return next

def validateDeclarations (facts : SourceFacts) : Checked Unit :=
  if facts.declarations.isEmpty then .ok ()
  else do
    let cursor ← facts.declarations.zipIdx.foldlM
      (fun cursor (item, index) => validateDeclaration facts cursor item index) {}
    failIf (cursor.namespaces != facts.namespaces.length || cursor.records != facts.records.length ||
        cursor.enums != facts.enums.length || cursor.objects != facts.objects.length ||
        cursor.links != facts.links.length || cursor.aliases != facts.aliases.length)
      .declarationSequenceIndex .packet facts.declarations.length

def validateSourceFacts (facts : SourceFacts) : Checked Unit := do
  failIf (facts.source == 0) .invalidSource .packet 0
  failIf (facts.sourceTextSize > u32Max) .sourceTooLarge .packet 0
  let _ ← validateNamespaces facts
  validateRecords facts
  validateMethods facts
  validateBases facts
  validateMembers facts
  validateModifiers facts
  validateEnums facts
  let _ ← validateObjects facts
  let expected ← validateModifierPartition (facts.members.length + facts.objects.length)
    facts.members.zipIdx facts.objects.zipIdx 0
  failIf (expected != facts.modifiers.length) .modifierPartition .packet expected
  let _ ← validateLinks facts
  validateAliases facts
  validateDeclarations facts

/-! ## Acceptance -/

/-- Every check of `validate_source_facts` has passed. -/
structure Validated (facts : SourceFacts) : Prop where
  source : facts.source ≠ 0
  textSize : facts.sourceTextSize ≤ u32Max
  namespaces : ∃ n, validateNamespaces facts = .ok n
  records : validateRecords facts = .ok ()
  methods : validateMethods facts = .ok ()
  bases : validateBases facts = .ok ()
  members : validateMembers facts = .ok ()
  modifiers : validateModifiers facts = .ok ()
  enums : validateEnums facts = .ok ()
  objects : ∃ n, validateObjects facts = .ok n
  partition : validateModifierPartition (facts.members.length + facts.objects.length)
    facts.members.zipIdx facts.objects.zipIdx 0 = .ok facts.modifiers.length
  links : ∃ n, validateLinks facts = .ok n
  aliases : validateAliases facts = .ok ()
  declarations : validateDeclarations facts = .ok ()

open ErrorFold in
theorem validated_of_ok {facts : SourceFacts} (h : validateSourceFacts facts = .ok ()) :
    Validated facts := by
  rw [validateSourceFacts] at h
  obtain ⟨_, hsource, h⟩ := bind_ok.mp h
  obtain ⟨_, htext, h⟩ := bind_ok.mp h
  obtain ⟨namespaces, hnamespaces, h⟩ := bind_ok.mp h
  obtain ⟨_, hrecords, h⟩ := bind_ok.mp h
  obtain ⟨_, hmethods, h⟩ := bind_ok.mp h
  obtain ⟨_, hbases, h⟩ := bind_ok.mp h
  obtain ⟨_, hmembers, h⟩ := bind_ok.mp h
  obtain ⟨_, hmodifiers, h⟩ := bind_ok.mp h
  obtain ⟨_, henums, h⟩ := bind_ok.mp h
  obtain ⟨objects, hobjects, h⟩ := bind_ok.mp h
  obtain ⟨expected, hpartition, h⟩ := bind_ok.mp h
  obtain ⟨_, hexpected, h⟩ := bind_ok.mp h
  obtain ⟨links, hlinks, h⟩ := bind_ok.mp h
  obtain ⟨_, haliases, hdeclarations⟩ := bind_ok.mp h
  rw [failIf_ok] at hsource htext hexpected
  have hlen : expected = facts.modifiers.length := by simpa using hexpected
  rw [hlen] at hpartition
  exact
    { source := by simpa using hsource
      textSize := by simpa using htext
      namespaces := ⟨namespaces, hnamespaces⟩
      records := hrecords
      methods := hmethods
      bases := hbases
      members := hmembers
      modifiers := hmodifiers
      enums := henums
      objects := ⟨objects, hobjects⟩
      partition := hpartition
      links := ⟨links, hlinks⟩
      aliases := haliases
      declarations := hdeclarations }

open ErrorFold in
theorem declarationSpan_ok {α : Type} {item : SourceDeclarationRef} {index next : Nat}
    {values : List α} {f : α → SourceSpan} {span : SourceSpan}
    (h : declarationSpan item index next (values.map f) = .ok span) :
    ∃ value, values[item.index]? = some value := by
  unfold declarationSpan at h
  split at h
  · rename_i hget
    obtain ⟨_, hindex, -⟩ := bind_ok.mp h
    have hnext : item.index = next := by simpa using hindex
    rw [List.getElem?_map, Option.map_eq_some_iff] at hget
    obtain ⟨value, hvalue, -⟩ := hget
    exact ⟨value, hnext ▸ hvalue⟩
  · cases h

def DeclarationNames (facts : SourceFacts) (d : SourceDeclarationRef) : Prop :=
  match d.kind with
  | .namespaceScope => ∃ n, facts.namespaces[d.index]? = some n
  | .recordType => ∃ r, facts.records[d.index]? = some r
  | .enumType => ∃ e, facts.enums[d.index]? = some e
  | .object => ∃ o, facts.objects[d.index]? = some o
  | .link => ∃ l, facts.links[d.index]? = some l
  | .typeAlias => ∃ a, facts.aliases[d.index]? = some a

open ErrorFold in
theorem Validated.declaration {facts : SourceFacts} (h : Validated facts)
    {d : SourceDeclarationRef} (hd : d ∈ facts.declarations) : DeclarationNames facts d := by
  have hdecl := h.declarations
  unfold validateDeclarations at hdecl
  rw [if_neg (by cases hds : facts.declarations <;> simp_all)] at hdecl
  obtain ⟨cursor, hfold, -⟩ := bind_ok.mp hdecl
  obtain ⟨n, hn⟩ := List.mem_iff_getElem?.mp hd
  have hmem : (d, n) ∈ facts.declarations.zipIdx := by
    rw [List.mem_zipIdx_iff_getElem?]
    exact hn
  obtain ⟨before, after, hstep⟩ := foldlM_ok_mem hfold hmem
  obtain ⟨_, -, hstep⟩ := bind_ok.mp hstep
  obtain ⟨next, hnext, -⟩ := bind_ok.mp hstep
  unfold nextDeclaration at hnext
  unfold DeclarationNames
  cases hk : d.kind <;> simp only [hk] at hnext ⊢
  all_goals
    obtain ⟨span, hspan, -⟩ := bind_ok.mp hnext
    exact declarationSpan_ok hspan

theorem validateModifierPartition_nil (fuel expected : Nat) :
    validateModifierPartition fuel [] [] expected = .ok expected := by
  cases fuel <;> rfl

theorem Validated.modifiers_nil {facts : SourceFacts} (h : Validated facts)
    (hm : facts.members = []) (ho : facts.objects = []) : facts.modifiers = [] := by
  have hp := h.partition
  rw [hm, ho] at hp
  simp only [List.zipIdx_nil, validateModifierPartition_nil, Except.ok.injEq] at hp
  exact List.length_eq_zero_iff.mp hp.symm

end ServerEngine

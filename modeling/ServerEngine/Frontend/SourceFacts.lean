import ServerEngine.Core.Status

/-! # Source facts

The records the parser hands to the generation builder. A `source_id`, `string_id` or other `u32`
is its number; `source_span` and `source_fact_range` keep their two words. Flag words are one field
per bit that the source reads.
-/
namespace ServerEngine

/-! ## Identities -/

inductive IdentityKind
  | root
  | namespaceScope
  | type
  | object
  deriving DecidableEq

/-- `identity_ref`: the top two bits of the word carry the kind, the other thirty the slot. -/
structure IdentityRef where
  value : Nat
  deriving DecidableEq

namespace IdentityRef

def null : IdentityRef := ⟨0⟩

def slot (i : IdentityRef) : Nat := i.value % 2 ^ 30

def kind (i : IdentityRef) : IdentityKind :=
  match i.value / 2 ^ 30 % 4 with
  | 0 => .root
  | 1 => .namespaceScope
  | 2 => .type
  | _ => .object

/-- `operator bool`: the slot is not zero. -/
def valid (i : IdentityRef) : Bool := i.slot != 0

end IdentityRef

/-! ## Spans, ranges and scalar kinds -/

structure SourceSpan where
  offset : Nat := 0
  length : Nat := 0
  deriving DecidableEq

structure SourceFactRange where
  begin : Nat := 0
  count : Nat := 0
  deriving DecidableEq

/-- `intrinsic_type`, in the order of its codes. -/
inductive IntrinsicType
  | none
  | voidType
  | boolType
  | charType
  | signedChar
  | unsignedChar
  | wcharType
  | char8Type
  | char16Type
  | char32Type
  | signedShort
  | unsignedShort
  | signedInt
  | unsignedInt
  | signedLong
  | unsignedLong
  | signedLongLong
  | unsignedLongLong
  | floatType
  | doubleType
  | longDoubleType
  | nullptrType
  deriving DecidableEq

/-- The code of an intrinsic type, `static_cast<std::size_t>`. -/
def IntrinsicType.code (t : IntrinsicType) : Nat := t.ctorIdx

inductive SourceTypeModifierKind
  | constQualified
  | volatileQualified
  | pointer
  | lvalueReference
  | rvalueReference
  | boundedArray
  | unboundedArray
  deriving DecidableEq

structure SourceTypeModifier where
  value : Nat := 0
  kind : SourceTypeModifierKind := .pointer
  deriving DecidableEq

structure SourceTypeRef where
  identity : IdentityRef := .null
  intrinsic : IntrinsicType := .none
  modifiers : SourceFactRange := {}
  spelling : SourceSpan := {}

inductive ConstructionKind
  | zero
  | signedInteger
  | unsignedInteger
  | real
  | memberBinding
  | unsupported
  | aggregate
  deriving DecidableEq

structure ConstructionValue where
  low : Nat := 0
  high : Nat := 0
  operand : Nat := 0
  kind : ConstructionKind := .zero
  deriving DecidableEq

def ConstructionValue.bits (v : ConstructionValue) : Nat := v.low + v.high * 2 ^ 32

def validConstruction (v : ConstructionValue) : Bool :=
  match v.kind with
  | .zero | .unsupported => v.bits == 0 && v.operand == 0
  | .memberBinding => v.bits == 0 && v.operand != 0
  | .aggregate => v.bits == 0 && v.operand != 0
  | .signedInteger | .unsignedInteger | .real => v.operand == 0

/-! ## Facts -/

structure SourceNamespaceFact where
  identity : IdentityRef := .null
  declaration : SourceSpan := {}

/-- `source_record_declaration_kind` and `source_enum_declaration_kind`. -/
inductive DeclarationKind
  | declaration
  | definition
  deriving DecidableEq

inductive SourceRecordKind
  | structType
  | classType
  | unionType
  deriving DecidableEq

structure SourceRecordFact where
  identity : IdentityRef := .null
  members : SourceFactRange := {}
  bases : SourceFactRange := {}
  methods : SourceFactRange := {}
  declaration : SourceSpan := {}
  declarationKind : DeclarationKind := .declaration
  recordKind : SourceRecordKind := .structType

inductive SourceMemberAccess
  | publicAccess
  | protectedAccess
  | privateAccess
  deriving DecidableEq

structure SourceMemberFact where
  type : SourceTypeRef := {}
  name : Nat := 0
  declaration : SourceSpan := {}
  access : SourceMemberAccess := .publicAccess
  initializer : SourceSpan := {}
  construction : ConstructionValue := {}

structure SourceBaseFact where
  base : IdentityRef := .null
  declaration : SourceSpan := {}

structure SourceMethodFact where
  name : Nat := 0
  returnType : SourceTypeRef := {}
  declaration : SourceSpan := {}
  isConstructor : Bool := false
  isDestructor : Bool := false

structure SourceAliasFact where
  identity : IdentityRef := .null
  target : SourceTypeRef := {}
  declaration : SourceSpan := {}

structure SourceIntegralConstant where
  intrinsic : IntrinsicType := .signedInt
  bits : Nat := 0
  deriving DecidableEq

structure SourceEnumValueFact where
  name : Nat := 0
  value : SourceIntegralConstant := {}
  expression : SourceSpan := {}

structure SourceEnumFact where
  identity : IdentityRef := .null
  enumerators : SourceFactRange := {}
  declaration : SourceSpan := {}
  underlyingSpelling : SourceSpan := {}
  explicitUnderlying : IntrinsicType := .none
  declarationKind : DeclarationKind := .declaration
  isScoped : Bool := false

structure SourceObjectFact where
  identity : IdentityRef := .null
  type : SourceTypeRef := {}
  declaration : SourceSpan := {}
  initializer : SourceSpan := {}
  constructionFlags : Nat := 0

/-- The value `member_index` holds when it names no member. -/
def invalidMember : Nat := u32Max

structure SourceObjectEndpointFact where
  object : IdentityRef := .null
  member : Nat := invalidMember
  deriving DecidableEq

structure SourceLinkFact where
  source : SourceObjectEndpointFact := {}
  target : SourceObjectEndpointFact := {}
  declaration : SourceSpan := {}

inductive SourceDeclarationKind
  | namespaceScope
  | recordType
  | enumType
  | object
  | link
  | typeAlias

structure SourceDeclarationRef where
  index : Nat := 0
  kind : SourceDeclarationKind := .recordType
  declaration : SourceSpan := {}

/-- `source_facts`. Of the source text only its size is read by the modelled functions. -/
structure SourceFacts where
  source : Nat := 0
  sourceTextSize : Nat := 0
  namespaces : List SourceNamespaceFact := []
  records : List SourceRecordFact := []
  members : List SourceMemberFact := []
  modifiers : List SourceTypeModifier := []
  enums : List SourceEnumFact := []
  enumValues : List SourceEnumValueFact := []
  declarations : List SourceDeclarationRef := []
  objects : List SourceObjectFact := []
  links : List SourceLinkFact := []
  bases : List SourceBaseFact := []
  aliases : List SourceAliasFact := []
  aliasModifiers : List SourceTypeModifier := []
  methods : List SourceMethodFact := []
  methodModifiers : List SourceTypeModifier := []

end ServerEngine

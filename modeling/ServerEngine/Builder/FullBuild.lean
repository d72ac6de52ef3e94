import ServerEngine.Builder.Candidate

/-! # The full build

`prepare_graph`: one detached Graph from all the contributions of a rebuild. A local index by identity
has a fixed number of slots, which only limits how many identities it takes.
-/
namespace ServerEngine
open Slice

/-! ## Capacities -/

/-- Capacities of the vectors of a Graph that a sparse publication appends to. -/
structure GraphCapacity where
  memberRecords : Nat := 0
  enumValueRecords : Nat := 0
  canonicalTypes : Nat := 0
  types : Nat := 0
  identities : Nat := 0
  objectEntries : Nat := 0
  objectIdentities : Nat := 0
  linkRecords : Nat := 0
  namedRefs : Nat := 0
  dependencyVersions : Nat := 0
  reverseDependencyHeads : Nat := 0
  dependencyEdges : Nat := 0

/-- `graph::publish_prepared(prepared_graph_generation&)` with the capacities of the vectors. -/
structure DetachedGraph where
  graph : Graph
  capacity : GraphCapacity

namespace FullBuild

/-! ## Declarations -/

def liveSources (storage : Storage) : List SourceContributionState :=
  (storage.sources.drop 1).filter (·.source ≠ 0)

structure Declarations where
  construction : List SourceConstructionState := []
  types : List TypeEntry := []
  identities : List IdentityRef := []
  declarationHandles : List TypeHandle := []

/-- `insert_or_find`: the handle, and whether it is the proposed one. -/
def insertOrFind (capacity : Nat) (identities : List IdentityRef) (identity : IdentityRef) :
    BuildM (Nat × Bool) :=
  if identity = .null || capacity = 0 then BuildM.fail .invalidArgument
  else match identities.idxOf? identity with
  | some position => .ok (position + 1, false)
  | none =>
    if identities.length ≥ capacity then BuildM.fail .notAvailable
    else .ok (identities.length + 1, true)

def firstEntry (contribution : SourceContributionType) : TypeEntry :=
  match contribution.kind with
  | .record => { live := true, kind := .record, recordKind := contribution.recordKind }
  | .enumeration =>
    { live := true
      kind := .enumeration
      enumUnderlying :=
        if contribution.explicitUnderlying = .none then .signedInt
        else contribution.explicitUnderlying
      enumScoped := contribution.enumScoped
      enumFixedUnderlying := contribution.explicitUnderlying ≠ .none }

def redeclare (entry : TypeEntry) (contribution : SourceContributionType) : BuildM TypeEntry :=
  if (entry.kind == .record) != (contribution.kind == .record) then BuildM.fail .semanticConflict
  else match entry.kind with
  | .record =>
    if !compatibleRecordKind entry.recordKind contribution.recordKind then
      BuildM.fail .semanticConflict
    else .ok (if contribution.definition then { entry with recordKind := contribution.recordKind }
      else entry)
  | .enumeration =>
    if entry.enumScoped != contribution.enumScoped then BuildM.fail .semanticConflict
    else if contribution.explicitUnderlying = .none then .ok entry
    else if entry.enumFixedUnderlying && entry.enumUnderlying != contribution.explicitUnderlying then
      BuildM.fail .semanticConflict
    else .ok { entry with
      enumUnderlying := contribution.explicitUnderlying, enumFixedUnderlying := true }

/-- One declaration; `index` is its place in the arena of types. -/
def declare (capacity : Nat) (d : Declarations) (item : SourceContributionType × Nat) :
    BuildM Declarations := do
  let (handle, inserted) ← insertOrFind capacity d.identities item.1.identity
  let state ← BuildM.lift
    ((d.construction.getD handle {}).addConstruction item.1 (item.2 + 1))
  let d := { d with
    construction := d.construction.set handle state
    declarationHandles := d.declarationHandles.set item.2 handle }
  if inserted then
    .ok { d with
      types := d.types ++ [firstEntry item.1]
      identities := d.identities ++ [item.1.identity] }
  else do
    let entry ← redeclare (d.types.getD (handle - 1) default) item.1
    .ok { d with types := d.types.set (handle - 1) entry }

def declareSource (storage : Storage) (capacity : Nat) (d : Declarations)
    (state : SourceContributionState) : BuildM Declarations :=
  if state.types.begin > storage.arenas.types.length ||
      state.types.count > storage.arenas.types.length - state.types.begin then
    BuildM.fail .invalidArgument
  else ((slice storage.arenas.types state.types.begin state.types.count).zipIdx
    state.types.begin).foldlM (declare capacity) d

def baseHandle (identities : List IdentityRef) (type : SourceContributionTypeRef) : BuildM Nat :=
  if type.identity = .null then .ok 0
  else match identities.idxOf? type.identity with
  | some position => .ok (position + 1)
  | none => BuildM.fail .semanticConflict

/-- The object loop: identities in order, none twice, with the handles of the bases. -/
def declareObject (capacity : Nat) (typeIdentities : List IdentityRef)
    (state : List IdentityRef × List Nat) (object : SourceContributionObject) :
    BuildM (List IdentityRef × List Nat) := do
  let (_, inserted) ← insertOrFind capacity state.1 object.identity
  if !inserted then BuildM.fail .semanticConflict
  else do
    let base ← baseHandle typeIdentities object.type
    .ok (state.1 ++ [object.identity], state.2 ++ [base])

structure TypeTable where
  canonicalTypes : List CanonicalTypeRecord
  intrinsicRefs : List TypeRef
  namedRefs : List TypeRef
  derivedIndex : List IndexSlot
  derivedCount : Nat := 0

namespace TypeTable

variable (t : TypeTable)

def appendCanonical (record : CanonicalTypeRecord) : BuildM (TypeTable × TypeRef) :=
  if t.canonicalTypes.length ≥ u32Max then BuildM.fail .notAvailable
  else .ok ({ t with canonicalTypes := t.canonicalTypes ++ [record] }, t.canonicalTypes.length)

def getIntrinsic (value : IntrinsicType) : BuildM (TypeTable × TypeRef) :=
  if value = .none || value.code ≥ t.intrinsicRefs.length then BuildM.fail .invalidArgument
  else if t.intrinsicRefs.getD value.code 0 ≠ 0 then .ok (t, t.intrinsicRefs.getD value.code 0)
  else do
    let (t, ref) ← t.appendCanonical { kind := .intrinsic, detail := value.code }
    .ok ({ t with intrinsicRefs := t.intrinsicRefs.set value.code ref }, ref)

def getNamed (handle : TypeHandle) : BuildM (TypeTable × TypeRef) :=
  if handle = 0 || handle ≥ t.namedRefs.length then BuildM.fail .invalidArgument
  else if t.namedRefs.getD handle 0 ≠ 0 then .ok (t, t.namedRefs.getD handle 0)
  else do
    let (t, ref) ← t.appendCanonical { kind := .named, childOrHandle := handle }
    .ok ({ t with namedRefs := t.namedRefs.set handle ref }, ref)

def getDerived (modifier : SourceTypeModifier) (child : TypeRef) : BuildM (TypeTable × TypeRef) :=
  if child = 0 || t.derivedIndex.isEmpty then BuildM.fail .invalidArgument
  else
    let record := derivedRecord modifier child
    match IndexSlots.probe t.derivedIndex record.derivedHash
      (fun ref => t.canonicalTypes[ref]? == some record) with
    | none => BuildM.fail .notAvailable
    | some pos =>
      if (IndexSlots.slotAt t.derivedIndex pos).handle ≠ 0 then
        .ok (t, (IndexSlots.slotAt t.derivedIndex pos).handle)
      else do
        let (t, ref) ← t.appendCanonical record
        .ok ({ t with
          derivedIndex := t.derivedIndex.set pos ⟨fold32 record.derivedHash, ref⟩
          derivedCount := t.derivedCount + 1 }, ref)

/-- The type expression of one member or object, its base handle already found. -/
def materializeType (storage : Storage) (type : SourceContributionTypeRef) (base : Nat) :
    BuildM (TypeTable × TypeRef) := do
  let start ← if type.identity ≠ .null then t.getNamed base else t.getIntrinsic type.intrinsic
  if type.modifiers.begin > storage.arenas.modifiers.length ||
      type.modifiers.count > storage.arenas.modifiers.length - type.modifiers.begin then
    BuildM.fail .invalidArgument
  else
    (slice storage.arenas.modifiers type.modifiers.begin type.modifiers.count).foldlM
      (fun (t, current) modifier => t.getDerived modifier current) start

end TypeTable

def materializeNext (storage : Storage) (state : TypeTable × List TypeRef)
    (item : SourceContributionTypeRef × Nat) : BuildM (TypeTable × List TypeRef) := do
  let (t, ref) ← state.1.materializeType storage item.1 item.2
  .ok (t, state.2 ++ [ref])

/-! ## Definitions -/

structure Definitions where
  types : List TypeEntry
  definitionSeen : List Bool
  members : List MemberRecord := []
  enumValues : List EnumValueRecord := []
  dependencyEdges : List DependencyEdge := []
  reverseDependencyHeads : List Nat

/-- One member of a definition, with the edge to its named base. -/
def defineMember (owner : TypeHandle) (d : Definitions)
    (item : SourceContributionMember × TypeRef × Nat) : Definitions :=
  let (member, type, base) := item
  let d := { d with
    members := d.members ++ [⟨member.name, type, member.access, member.construction⟩] }
  if member.type.identity ≠ .null then
    let edge := ⟨owner, d.reverseDependencyHeads.getD (base - 1) 0, 1⟩
    { d with
      dependencyEdges := d.dependencyEdges ++ [edge]
      reverseDependencyHeads :=
        d.reverseDependencyHeads.set (base - 1) (d.dependencyEdges.length + 1) }
  else d

def defineRecord (storage : Storage) (memberTypes : List TypeRef) (memberBases : List Nat)
    (handle : TypeHandle) (items : SourceFactRange) (d : Definitions) : BuildM Definitions :=
  if items.begin > storage.arenas.members.length ||
      items.count > storage.arenas.members.length - items.begin ||
      d.members.length ≥ u32Max || items.count > u32Max then BuildM.fail .notAvailable
  else
    let entry := d.types.getD (handle - 1) default
    let entry := { entry with definition := ⟨d.members.length + 1, items.count⟩ }
    .ok ((slice (storage.arenas.members.zip (memberTypes.zip memberBases)) items.begin
      items.count).foldl (defineMember handle) { d with types := d.types.set (handle - 1) entry })

/-- The entry of an enumeration with its underlying type settled. -/
def settleUnderlying (abi : AbiConfiguration) (contribution : SourceContributionType)
    (values : List SourceContributionEnumValue) (entry : TypeEntry) : BuildM TypeEntry :=
  if entry.enumFixedUnderlying then .ok entry
  else if contribution.explicitUnderlying ≠ .none then
    .ok { entry with
      enumUnderlying := contribution.explicitUnderlying, enumFixedUnderlying := true }
  else if contribution.enumScoped then .ok { entry with enumUnderlying := .signedInt }
  else do
    let enumUnderlying ← BuildM.lift (selectEnumUnderlying values abi)
    .ok { entry with enumUnderlying }

def defineEnum (abi : AbiConfiguration) (storage : Storage) (contribution : SourceContributionType)
    (handle : TypeHandle) (d : Definitions) : BuildM Definitions :=
  let items := contribution.definitionItems
  if items.begin > storage.arenas.enumValues.length ||
      items.count > storage.arenas.enumValues.length - items.begin ||
      d.enumValues.length ≥ u32Max || items.count > u32Max then BuildM.fail .notAvailable
  else do
    let values := slice storage.arenas.enumValues items.begin items.count
    let entry ← settleUnderlying abi contribution values (d.types.getD (handle - 1) default)
    let entry := { entry with definition := ⟨d.enumValues.length + 1, items.count⟩ }
    .ok { d with
      types := d.types.set (handle - 1) entry
      enumValues := d.enumValues ++
        values.map fun value => ⟨value.value.bits, value.name, value.value.intrinsic⟩ }

def define (abi : AbiConfiguration) (storage : Storage) (handles : List TypeHandle)
    (memberTypes : List TypeRef) (memberBases : List Nat) (d : Definitions)
    (item : SourceContributionType × Nat) : BuildM Definitions :=
  if !item.1.definition then .ok d
  else
    let handle := handles.getD item.2 0
    if d.definitionSeen.getD (handle - 1) false then BuildM.fail .semanticConflict
    else
      let d := { d with definitionSeen := d.definitionSeen.set (handle - 1) true }
      match item.1.kind with
      | .record => defineRecord storage memberTypes memberBases handle item.1.definitionItems d
      | .enumeration => defineEnum abi storage item.1 handle d

def defineSource (abi : AbiConfiguration) (storage : Storage) (handles : List TypeHandle)
    (memberTypes : List TypeRef) (memberBases : List Nat) (d : Definitions)
    (state : SourceContributionState) : BuildM Definitions :=
  ((slice storage.arenas.types state.types.begin state.types.count).zipIdx
    state.types.begin).foldlM (define abi storage handles memberTypes memberBases) d

def buildIdentityIndex (capacity : Nat) (identities : List IdentityRef) : BuildM (List IndexSlot) :=
  identities.zipIdx.foldlM (fun slots item => BuildM.ends
    (IndexSlots.insert slots (identityHash item.1) (item.2 + 1) fun handle =>
      identities[handle - 1]? == some item.1)) (List.replicate capacity {})

def validEndpoint (objects : List ObjectEntry) (canonicalTypes : List CanonicalTypeRecord)
    (types : List TypeEntry) (endpoint : ObjectEndpoint) : Bool :=
  if endpoint.object = 0 || endpoint.member = invalidMember then false
  else match objects[endpoint.object - 1]? with
  | none => false
  | some object =>
    if !object.live || object.type = 0 then false
    else match canonicalTypes[object.type]? with
    | none => false
    | some record =>
      if record.kind ≠ .named || record.childOrHandle = 0 then false
      else match types[record.childOrHandle - 1]? with
      | none => false
      | some type =>
        type.live && type.kind == .record && type.defined &&
          decide (endpoint.member < type.definition.count)

def objectHandle (objectIdentities : List IdentityRef) (identity : IdentityRef) : BuildM Nat :=
  if identity = .null then BuildM.fail .semanticConflict
  else match objectIdentities.idxOf? identity with
  | some position => .ok (position + 1)
  | none => BuildM.fail .semanticConflict

/-- One link; `insert_link_slot` fails on a second link to the same target. -/
def addLink (objectIdentities : List IdentityRef) (valid : ObjectEndpoint → Bool)
    (state : List LinkRecord × List IndexSlot) (link : SourceContributionLink) :
    BuildM (List LinkRecord × List IndexSlot) := do
  let source ← objectHandle objectIdentities link.source.object
  let target ← objectHandle objectIdentities link.target.object
  let value : LinkRecord := ⟨⟨source, link.source.member⟩, ⟨target, link.target.member⟩⟩
  if !valid value.source || !valid value.target then BuildM.fail .semanticConflict
  else
    let links := state.1 ++ [value]
    match IndexSlots.probe state.2 (endpointHash value.target) (fun handle =>
      (links[handle - 1]?.map (·.target)) == some value.target) with
    | none => BuildM.fail .semanticConflict
    | some pos =>
      if (IndexSlots.slotAt state.2 pos).handle ≠ 0 then BuildM.fail .semanticConflict
      else .ok (links, state.2.set pos ⟨fold32 (endpointHash value.target), links.length⟩)

def addSourceLinks (storage : Storage) (objectIdentities : List IdentityRef)
    (valid : ObjectEndpoint → Bool) (state : List LinkRecord × List IndexSlot)
    (source : SourceContributionState) : BuildM (List LinkRecord × List IndexSlot) :=
  if source.links.begin > storage.arenas.links.length ||
      source.links.count > storage.arenas.links.length - source.links.begin then
    BuildM.fail .invalidArgument
  else (slice storage.arenas.links source.links.begin source.links.count).foldlM
    (addLink objectIdentities valid) state

def rangeOk (g : Graph) (entry : TypeEntry) : Bool :=
  let size := match entry.kind with
    | .record => g.memberRecords.length
    | .enumeration => g.enumValueRecords.length
  !entry.defined || (entry.definition.begin - 1 ≤ size &&
    entry.definition.count ≤ size - (entry.definition.begin - 1))

def canonicalOk (g : Graph) (record : CanonicalTypeRecord) : Bool :=
  match record.kind with
  | .intrinsic => true
  | .named => record.childOrHandle != 0 && record.childOrHandle ≤ g.types.length
  | .derived => record.childOrHandle != 0 && record.childOrHandle < g.canonicalTypes.length

def validateDetached (g : Graph) : Bool :=
  g.types.length == g.identities.length && g.identities.all (· != .null) &&
    g.types.all (rangeOk g) && g.objectEntries.length == g.objectIdentities.length &&
    g.objectIdentities.all (· != .null) &&
    g.objectEntries.all (fun object =>
      object.live && object.type != 0 && object.type < g.canonicalTypes.length) &&
    g.linkRecords.all (·.live) && (g.canonicalTypes.drop 1).all (canonicalOk g)

/-! ## The whole preparation -/

def capacityOf (storage : Storage) (g : Graph) : GraphCapacity where
  memberRecords := max storage.arenas.members.length (headroom g.memberRecords.length)
  enumValueRecords := max storage.arenas.enumValues.length (headroom g.enumValueRecords.length)
  canonicalTypes :=
    max (1 + storage.arenas.members.length + storage.arenas.objects.length +
      storage.arenas.modifiers.length) (headroom g.canonicalTypes.length)
  types := max storage.arenas.types.length (headroom g.types.length)
  identities := max storage.arenas.types.length (headroom g.identities.length)
  objectEntries := max storage.arenas.objects.length (headroom g.objectEntries.length)
  objectIdentities := max storage.arenas.objects.length (headroom g.objectIdentities.length)
  linkRecords := max storage.arenas.links.length (headroom g.linkRecords.length)
  namedRefs := headroom g.namedRefs.length
  dependencyVersions := headroom g.dependencyVersions.length
  reverseDependencyHeads := headroom g.reverseDependencyHeads.length
  dependencyEdges := max storage.arenas.members.length (headroom g.dependencyEdges.length)

def graphIntrinsicTypeCount : Nat := 22

def materializeTypes (storage : Storage) (typeCount : Nat) (memberBases objectBases : List Nat) :
    BuildM (TypeTable × List TypeRef × List TypeRef) := do
  let capacity ← if storage.arenas.modifiers.isEmpty then .ok 8
    else indexCapacity storage.arenas.modifiers.length
  let table : TypeTable := {
    canonicalTypes := [{}]
    intrinsicRefs := List.replicate graphIntrinsicTypeCount 0
    namedRefs := List.replicate (typeCount + 1) 0
    derivedIndex := List.replicate capacity {} }
  let (table, memberTypes) ← ((storage.arenas.members.map (·.type)).zip memberBases).foldlM
    (materializeNext storage) (table, [])
  let (table, objectTypes) ← ((storage.arenas.objects.map (·.type)).zip objectBases).foldlM
    (materializeNext storage) (table, [])
  return (table, memberTypes, objectTypes)

def indexSlots (count : Nat) : BuildM Nat := do
  let capacity ← indexCapacity count
  return if capacity = 0 then 8 else capacity

/-- `prepare_graph`: the construction states and the detached Graph of a rebuilt storage. -/
def prepareGraph (abi : AbiConfiguration) (storage : Storage) :
    BuildM (List SourceConstructionState × DetachedGraph) :=
  if storage.arenas.types.length ≥ u32Max || storage.arenas.objects.length ≥ u32Max ||
      storage.arenas.links.length ≥ u32Max then BuildM.fail .notAvailable
  else do
    let capacity ← indexCapacity storage.arenas.types.length
    let objectCapacity ← indexCapacity storage.arenas.objects.length
    let d ← (liveSources storage).foldlM (declareSource storage capacity) {
      construction := growTo storage.construction (storage.arenas.types.length + 1) {}
      declarationHandles := List.replicate storage.arenas.types.length 0 }
    let identityIndex ← buildIdentityIndex (← indexCapacity d.types.length) d.identities
    let memberBases ← (storage.arenas.members.map (·.type)).mapM (baseHandle d.identities)
    let (objectIdentities, objectBases) ←
      storage.arenas.objects.foldlM (declareObject objectCapacity d.identities) ([], [])
    let (table, memberTypes, objectTypes) ←
      materializeTypes storage d.types.length memberBases objectBases
    let objectEntries := (storage.arenas.objects.zip objectTypes).map fun item =>
      ({ type := item.2, constructionFlags := item.1.constructionFlags, live := true } : ObjectEntry)
    let definitions ← (liveSources storage).foldlM
      (defineSource abi storage d.declarationHandles memberTypes memberBases) {
        types := d.types
        definitionSeen := List.replicate d.types.length false
        reverseDependencyHeads := List.replicate d.types.length 0 }
    let objectIdentityIndex ←
      buildIdentityIndex (← indexSlots objectEntries.length) objectIdentities
    let (linkRecords, linkIndex) ← (liveSources storage).foldlM
      (addSourceLinks storage objectIdentities
        (validEndpoint objectEntries table.canonicalTypes definitions.types))
      ([], List.replicate (← indexSlots storage.arenas.links.length) {})
    let graph : Graph := {
      baselineBacked := false
      types := definitions.types
      identities := d.identities
      memberRecords := definitions.members
      enumValueRecords := definitions.enumValues
      objectEntries, objectIdentities, linkRecords
      canonicalTypes := table.canonicalTypes
      identityIndex, objectIdentityIndex, linkIndex
      intrinsicRefs := table.intrinsicRefs
      namedRefs := table.namedRefs
      derivedIndex := table.derivedIndex
      derivedIndexEntries := table.derivedCount
      dependencyVersions := List.replicate d.types.length 1
      reverseDependencyHeads := definitions.reverseDependencyHeads
      dependencyEdges := definitions.dependencyEdges
      liveTypeCount := definitions.types.length
      liveObjectCount := objectEntries.length
      liveLinkCount := linkRecords.length }
    if validateDetached graph then
      return (d.construction.take (d.types.length + 1), ⟨graph, capacityOf storage graph⟩)
    else BuildM.fail .invalidArgument

end FullBuild

end ServerEngine

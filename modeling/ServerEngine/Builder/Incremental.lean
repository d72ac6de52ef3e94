import ServerEngine.Builder.Candidate
import ServerEngine.Library.Traversal

/-! # The incremental build

`prepare_incremental_graph`: the declarations of the changed sources are subtracted and added, every
touched type is materialized anew, objects and links are retired and added, and the members of
touched types and their dependents are validated.
-/
namespace ServerEngine
open Slice

namespace Candidate

/-! ## Declarations -/

section Declarations
variable (g : Graph)

def subtractType (oldState : Option SourceContributionState) (c : Candidate)
    (item : SourceContributionType × Nat) : BuildM Candidate :=
  match g.findIdentity item.1.identity, oldState with
  | some handle, some state =>
    match c.contributions.construction handle with
    | none => BuildM.fail .invalidArgument
    | some current => do
      let next ← BuildM.lift (current.removeConstruction item.1 (state.types.begin + item.2 + 1))
      let contributions ← BuildM.lift (c.contributions.setConstruction handle next)
      { c with contributions }.touch handle
  | _, _ => BuildM.fail .invalidArgument

def addType (newState : Option SourceContributionState) (c : Candidate)
    (item : SourceContributionType × Nat) : BuildM Candidate := do
  let (c, handle) ← c.findOrCreateHandle g item.1.identity
  match newState with
  | none => BuildM.fail .invalidArgument
  | some state =>
    let current := (c.contributions.construction handle).getD {}
    let next ← BuildM.lift (current.addConstruction item.1 (state.types.begin + item.2 + 1))
    let contributions ← BuildM.lift (c.contributions.setConstruction handle next)
    { c with contributions }.touch handle

def changeSource (c : Candidate) (source : Nat) : BuildM Candidate := do
  let u := c.contributions
  let c ← (u.previousTypes source).zipIdx.foldlM (subtractType g (u.previousState source)) c
  (u.replacementTypes source).zipIdx.foldlM (addType g (u.replacementState source)) c

end Declarations

/-! ## Touched types -/

/-- The definition that a construction state names; without one the index wraps to the largest, which
no arena reaches. -/
def definitionOf (c : Candidate) (construction : SourceConstructionState) :
    Option SourceContributionType :=
  if construction.definitionType = 0 then none
  else c.contributions.typeAt (construction.definitionType - 1)

/-- The members and modifiers of one touched definition, counted for the reservations. -/
def definitionItems (c : Candidate) (handle : TypeHandle) : BuildM (Nat × Nat) :=
  match c.contributions.construction handle with
  | none => .ok (0, 0)
  | some construction =>
    if construction.definitions = 0 then .ok (0, 0)
    else match c.definitionOf construction with
      | none => BuildM.fail .invalidArgument
      | some definition =>
        if definition.kind ≠ .record then .ok (0, 0)
        else
          let members := c.contributions.members definition.definitionItems
          .ok (members.length, (members.map (·.type.modifiers.count)).sum)

def reserveDerived (c : Candidate) : BuildM Candidate := do
  let items ← c.touchedHandles.mapM c.definitionItems
  let objects := c.contributions.changedSources.flatMap c.contributions.replacementObjects
  let _ ← checkedSum (items.map (·.1))
  let modifiers ← checkedSum (items.map (·.2) ++ objects.map (·.type.modifiers.count))
  let capacity ← indexCapacity modifiers
  return { c with localDerivedIndex := List.replicate capacity {} }

section Types
variable (g : Graph) (abi : AbiConfiguration)

def declaredEntry (handle : TypeHandle) (construction : SourceConstructionState) : TypeEntry :=
  let old := (g.types[handle - 1]?.getD {})
  match construction.kind with
  | .record =>
    { live := true
      kind := .record
      recordKind :=
        if construction.recordUnion ≠ 0 then .unionType
        else if old.live && old.kind == .record && old.recordKind != .unionType then old.recordKind
        else if construction.recordClass ≠ 0 && construction.recordStruct = 0 then .classType
        else .structType }
  | .enumeration =>
    { live := true
      kind := .enumeration
      enumScoped := construction.enumScoped ≠ 0
      enumFixedUnderlying := construction.enumFixed ≠ 0
      enumUnderlying :=
        if construction.enumFixed ≠ 0 then construction.fixedUnderlying
        else if construction.enumScoped ≠ 0 then .signedInt
        else .none }

/-- One member of a definition, with the pending edge to its named base. -/
def materializeMember (owner : TypeHandle) (c : Candidate) (member : SourceContributionMember) :
    BuildM Candidate := do
  let (c, type) ← c.materializeType g member.type
  let c := { c with update := { c.update with
    members := c.update.members ++ [⟨member.name, type, member.access, member.construction⟩] } }
  if member.type.identity ≠ .null then do
    let (c, target) ← c.findOrCreateHandle g member.type.identity
    .ok { c with update := { c.update with
      dependencyEdges := c.update.dependencyEdges ++ [⟨target, owner, 0⟩] } }
  else .ok c

/-- The definition of a record. The entry written afterwards was taken before the loop: it dangles
when the loop has outgrown what the new types were reserved for. -/
def materializeRecord (handle : TypeHandle) (entry : TypeEntry) (items : SourceFactRange)
    (c : Candidate) : BuildM (Candidate × TypeEntry) :=
  let members := c.contributions.members items
  let begin := g.memberRecords.length + c.update.members.length
  if begin ≥ u32Max || members.length > u32Max then BuildM.fail .notAvailable
  else do
    let next ← members.foldlM (materializeMember g handle) c
    if handle > g.types.length && next.update.newTypes.length > c.update.newTypes.length &&
        next.update.newTypes.length > c.touchedUpper then .error .undefined
    else .ok (next, { entry with definition := ⟨begin + 1, members.length⟩ })

def materializeEnum (entry : TypeEntry) (items : SourceFactRange) (c : Candidate) :
    BuildM (Candidate × TypeEntry) :=
  let values := c.contributions.enumValues items
  let begin := g.enumValueRecords.length + c.update.enumValues.length
  if begin ≥ u32Max || values.length > u32Max then BuildM.fail .notAvailable
  else do
    let enumUnderlying ←
      if !entry.enumFixedUnderlying && !entry.enumScoped then
        BuildM.lift (selectEnumUnderlying values abi)
      else .ok entry.enumUnderlying
    .ok ({ c with update := { c.update with
        enumValues := c.update.enumValues ++
          values.map fun value => ⟨value.value.bits, value.name, value.value.intrinsic⟩ } },
      { entry with enumUnderlying, definition := ⟨begin + 1, values.length⟩ })

def identityOf (c : Candidate) (handle : TypeHandle) : Option IdentityRef :=
  (g.identities ++ c.update.newIdentities)[handle - 1]?

def materializeLive (handle : TypeHandle) (construction : SourceConstructionState) (c : Candidate) :
    BuildM (Candidate × TypeEntry) :=
  let entry := declaredEntry g handle construction
  if construction.definitions = 0 then .ok (c, entry)
  else match c.definitionOf construction with
    | none => BuildM.fail .invalidArgument
    | some definition =>
      if c.identityOf g handle ≠ some definition.identity then BuildM.fail .invalidArgument
      else match definition.kind with
        | .record => materializeRecord g handle entry definition.definitionItems c
        | .enumeration => materializeEnum g abi entry definition.definitionItems c

/-- `live_type_count` follows the entry's liveness. -/
def countLive (count : Nat) (oldLive newLive : Bool) : Nat :=
  if oldLive && !newLive then count - 1 else if !oldLive && newLive then count + 1 else count

def nextVersion (handle : TypeHandle) : BuildM Nat :=
  match g.dependencyVersions[handle - 1]? with
  | some version => if version = u32Max then BuildM.fail .notAvailable else .ok (version + 1)
  | none => .ok 1

def stampVersion (handle : TypeHandle) (version : Nat) (c : Candidate) : Candidate :=
  { c with update := { c.update with
    dependencyVersionPatches := c.update.dependencyVersionPatches ++ [⟨handle, version⟩]
    dependencyEdges := c.update.dependencyEdges.map fun edge =>
      if edge.ownerHandle = handle && edge.ownerVersion = 0 then { edge with ownerVersion := version }
      else edge } }

def materializeTouched (c : Candidate) (handle : TypeHandle) : BuildM Candidate :=
  match c.contributions.construction handle with
  | none => BuildM.fail .invalidArgument
  | some construction =>
    match c.entry g handle with
    | none => BuildM.fail .initializationFailed
    | some _ => do
      let oldLive := (g.types[handle - 1]?.getD {}).live
      let newLive : Bool := construction.declarations ≠ 0
      let (c, entry) ← if newLive then materializeLive g abi handle construction c else .ok (c, {})
      let c := { c with update := { c.update with
        liveTypeCount := countLive c.update.liveTypeCount oldLive newLive } }
      let version ← nextVersion g handle
      .ok ((c.setEntry g handle entry).stampVersion handle version)

end Types

/-! ## Objects and links -/

section Objects
variable (g : Graph)

def retireObject (c : Candidate) (object : SourceContributionObject) : BuildM Candidate :=
  match g.findObjectIdentity object.identity with
  | none => BuildM.fail .invalidArgument
  | some handle =>
    match c.object g handle with
    | none => BuildM.fail .initializationFailed
    | some entry =>
      let next := if entry.live then {} else entry
      let c := c.setObject g handle next
      .ok { c with
        update := { c.update with
          liveObjectCount := countLive c.update.liveObjectCount entry.live next.live }
        retiredObjects := handle :: c.retiredObjects }

def retireLink (c : Candidate) (link : SourceContributionLink) : BuildM Candidate :=
  match g.findObjectIdentity link.source.object, g.findObjectIdentity link.target.object with
  | some _, some target =>
    match g.findLinkRaw ⟨target, link.target.member⟩ with
    | none => BuildM.fail .invalidArgument
    | some handle =>
      match c.link g handle with
      | none => BuildM.fail .initializationFailed
      | some record =>
        let next := if record.live then { record with source := {} } else record
        let c := c.setLink handle next
        .ok { c with
          update := { c.update with
            liveLinkCount := countLive c.update.liveLinkCount record.live next.live }
          retiredLinks := handle :: c.retiredLinks }
  | _, _ => BuildM.fail .invalidArgument

def retireSource (c : Candidate) (source : Nat) : BuildM Candidate := do
  let c ← (c.contributions.previousObjects source).foldlM (retireObject g) c
  (c.contributions.previousLinks source).foldlM (retireLink g) c

def addObject (c : Candidate) (object : SourceContributionObject) : BuildM Candidate := do
  let (c, handle) ← c.findOrCreateObjectHandle g object.identity
  if handle ∈ c.claimedObjects then BuildM.fail .semanticConflict
  else
    let c := { c with claimedObjects := handle :: c.claimedObjects }
    match c.object g handle with
    | none => BuildM.fail .initializationFailed
    | some entry =>
      let historicalLive := (g.objectEntries[handle - 1]?.getD {}).live
      if entry.live && (!historicalLive || handle ∉ c.retiredObjects) then
        BuildM.fail .semanticConflict
      else do
        let (c, type) ← c.materializeType g object.type
        let c := c.setObject g handle ⟨type, object.constructionFlags, true⟩
        .ok { c with update := { c.update with
          liveObjectCount := countLive c.update.liveObjectCount entry.live true } }

def validObjectEndpoint (c : Candidate) (endpoint : ObjectEndpoint) : Bool :=
  match c.object g endpoint.object with
  | none => false
  | some object =>
    if !object.live || endpoint.member = invalidMember || object.type = 0 then false
    else match c.canonicalRecord g object.type with
      | none => false
      | some record =>
        record.kind == .named &&
          match c.entry g record.childOrHandle with
          | none => false
          | some type =>
            type.live && type.kind == .record && type.defined &&
              decide (endpoint.member < type.definition.count)

def reuseLink (c : Candidate) (handle : LinkHandle) (value : LinkRecord) : BuildM Candidate :=
  let historicalLive := (g.linkRecords[handle - 1]?.getD {}).live
  if historicalLive && handle ∉ c.retiredLinks then BuildM.fail .semanticConflict
  else if handle ∈ c.claimedLinks then BuildM.fail .semanticConflict
  else
    let c := { c with claimedLinks := handle :: c.claimedLinks }
    match c.link g handle with
    | none => BuildM.fail .initializationFailed
    | some record =>
      let c := c.setLink handle value
      .ok { c with update := { c.update with
        liveLinkCount := countLive c.update.liveLinkCount record.live true } }

def appendLink (c : Candidate) (value : LinkRecord) : BuildM Candidate :=
  if g.linkRecords.length + c.update.newLinks.length ≥ u32Max then BuildM.fail .notAvailable
  else .ok { c with update := { c.update with
    newLinks := c.update.newLinks ++ [value]
    liveLinkCount := c.update.liveLinkCount + 1 } }

def addLink (c : Candidate) (link : SourceContributionLink) : BuildM Candidate := do
  let (c, sourceObject) ← c.findOrCreateObjectHandle g link.source.object
  let (c, targetObject) ← c.findOrCreateObjectHandle g link.target.object
  let value : LinkRecord := ⟨⟨sourceObject, link.source.member⟩, ⟨targetObject, link.target.member⟩⟩
  if !c.validObjectEndpoint g value.source || !c.validObjectEndpoint g value.target then
    BuildM.fail .semanticConflict
  else if value.target ∈ c.claimedLinkTargets then BuildM.fail .semanticConflict
  else
    let c := { c with claimedLinkTargets := value.target :: c.claimedLinkTargets }
    match g.findLinkRaw value.target with
    | some handle => reuseLink g c handle value
    | none => appendLink g c value

end Objects

/-! ## Validation -/

section Validation
variable (g : Graph)

/-- The owners whose current definition the edges from `edgeIndex` on belong to. -/
def chainOwners : Nat → Nat → BuildM (List TypeHandle)
  | 0, _ => .error .diverges
  | fuel + 1, edgeIndex =>
    if edgeIndex = 0 then .ok []
    else match g.dependencyEdges[edgeIndex - 1]? with
      | none => BuildM.fail .invalidArgument
      | some edge =>
        if edge.ownerHandle = 0 then BuildM.fail .invalidArgument
        else match g.dependencyVersions[edge.ownerHandle - 1]? with
          | none => BuildM.fail .invalidArgument
          | some version => do
            let rest ← chainOwners fuel edge.nextForTarget
            .ok (if edge.ownerVersion = version then edge.ownerHandle :: rest else rest)

def dependentOwners (handle : TypeHandle) : BuildM (List TypeHandle) :=
  match g.reverseDependencyHeads[handle - 1]? with
  | none => .ok []
  | some head => chainOwners g (g.dependencyEdges.length + 1) head

/-- The closure of the touched types under dependents, worked off from the front. -/
def closureLoop : Nat → List TypeHandle → List TypeHandle → BuildM (List TypeHandle)
  | _, _, [] => .ok []
  | 0, _, _ :: _ => .error .diverges
  | fuel + 1, visited, handle :: queue => do
    let owners ← dependentOwners g handle
    let (visited, fresh) := Traversal.insertNew visited owners
    let rest ← closureLoop fuel visited (queue ++ fresh)
    .ok (handle :: rest)

def closure (c : Candidate) : BuildM (List TypeHandle) :=
  closureLoop g (g.dependencyVersions.length + c.touchedHandles.length + 1) c.touchedHandles
    c.touchedHandles

/-- Follow a type expression to its base, which must be intrinsic or a live type. -/
def validateTypeRef (c : Candidate) : Nat → TypeRef → BuildM Unit
  | 0, _ => .error .diverges
  | fuel + 1, current =>
    match c.canonicalRecord g current with
    | none => BuildM.fail .invalidArgument
    | some record =>
      match record.kind with
      | .intrinsic => .ok ()
      | .named =>
        match c.entry g record.childOrHandle with
        | some named => if named.live then .ok () else BuildM.fail .semanticConflict
        | none => BuildM.fail .semanticConflict
      | .derived =>
        if record.childOrHandle = 0 then BuildM.fail .invalidArgument
        else validateTypeRef c fuel record.childOrHandle

def memberAt (c : Candidate) (index : Nat) : Option MemberRecord :=
  (g.memberRecords ++ c.update.members)[index]?

def validateMember (c : Candidate) (index : Nat) : BuildM Unit :=
  match c.memberAt g index with
  | none => BuildM.fail .invalidArgument
  | some member => validateTypeRef g c ((c.canonicalTypes g).length + 1) member.type

def validateType (c : Candidate) (handle : TypeHandle) : BuildM Unit :=
  match c.entry g handle with
  | none => .ok ()
  | some entry =>
    if !entry.live || entry.kind ≠ .record || !entry.defined then .ok ()
    else (List.range entry.definition.count).forM fun index =>
      validateMember g c (entry.definition.begin - 1 + index)

def overloaded (slots : List IndexSlot) (count : Nat) : Bool :=
  slots.isEmpty || count > slots.length - slots.length / 4

/-- The checks after the validation: every touched type has an entry, and no index is overloaded. -/
def checkLoad (c : Candidate) : BuildM Candidate :=
  if c.touchedHandles.any fun handle => (c.entry g handle).isNone then
    BuildM.fail .invalidArgument
  else if !c.update.newIdentities.isEmpty &&
      overloaded g.identityIndex (g.identities.length + c.update.newIdentities.length) then
    BuildM.fail .rebuildRequired
  else if !c.update.newObjectIdentities.isEmpty &&
      overloaded g.objectIdentityIndex
        (g.objectIdentities.length + c.update.newObjectIdentities.length) then
    BuildM.fail .rebuildRequired
  else if !c.update.newLinks.isEmpty &&
      overloaded g.linkIndex (g.linkRecords.length + c.update.newLinks.length) then
    BuildM.fail .rebuildRequired
  else if c.newDerivedCount ≠ 0 &&
      overloaded g.derivedIndex (g.derivedIndexEntries + c.newDerivedCount) then
    BuildM.fail .rebuildRequired
  else .ok { c with update := { c.update with
    derivedIndexEntries := g.derivedIndexEntries + c.newDerivedCount } }

end Validation

end Candidate

def Graph.lineageOk (g : Graph) : Bool :=
  g.types.length == g.identities.length && g.types.length + 1 == g.namedRefs.length &&
    g.types.length == g.dependencyVersions.length &&
    g.types.length == g.reverseDependencyHeads.length

def Candidate.initial (g : Graph) (u : SparseUpdate) : BuildM Candidate := do
  let types ← checkedSum (u.changedSources.flatMap fun source =>
    [(u.previousTypes source).length, (u.replacementTypes source).length])
  let objects ← checkedSum (u.changedSources.flatMap fun source =>
    [(u.previousObjects source).length, (u.replacementObjects source).length])
  let _ ← checkedSum (u.changedSources.flatMap fun source =>
    [(u.previousLinks source).length, (u.replacementLinks source).length])
  let identityCapacity ← indexCapacity (types + objects + 1)
  let objectIdentityCapacity ← indexCapacity (objects + 1)
  return {
    contributions := u
    touchedUpper := types
    identityCapacity
    objectIdentityCapacity
    update := {
      liveTypeCount := g.liveTypeCount
      liveObjectCount := g.liveObjectCount
      liveLinkCount := g.liveLinkCount
      intrinsicRefs := g.intrinsicRefs } }

/-- `prepare_incremental_graph`, up to `prepare_sparse_publication`. -/
def prepareIncrementalGraph (g : Graph) (abi : AbiConfiguration) (u : SparseUpdate) :
    BuildM Candidate :=
  if !g.lineageOk then BuildM.fail .invalidArgument
  else do
    let c ← Candidate.initial g u
    let c ← u.changedSources.foldlM (Candidate.changeSource g) c
    let c ← c.reserveDerived
    let c ← c.touchedHandles.foldlM (Candidate.materializeTouched g abi) c
    let c ← u.changedSources.foldlM (Candidate.retireSource g) c
    let c ← (u.changedSources.flatMap u.replacementObjects).foldlM (Candidate.addObject g) c
    let c ← (u.changedSources.flatMap u.replacementLinks).foldlM (Candidate.addLink g) c
    let closure ← c.closure g
    closure.forM (c.validateType g)
    c.checkLoad g

end ServerEngine

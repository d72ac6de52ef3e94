import ServerEngine.Graph.Records
import ServerEngine.Library.ErrorFold

/-! # Sparse publication over a mapped baseline

`prepare_sparse_publication` reserves the local growth and touches the baseline slots it expects the
publication to write; `publish_prepared` then appends, patches and inserts index entries.
-/
namespace ServerEngine
open Probing ErrorFold

abbrev MappedGraph := GraphOf MappedVector

variable {β : Type}

/-! ## Preparation -/

/-- The probe loop of `touch_identity_slot` and its siblings: the empty slot to touch, or none when
the key is already there. -/
def touchLoop (compares : Bool) (readError : StatusCode) (e : IndexEntry β) (mask : Nat)
    (slots : MappedVector IndexSlot) (values : MappedVector β) :
    Nat → Nat → Except StatusCode (Option Nat)
  | 0, _ => .error .rebuildRequired
  | fuel + 1, pos =>
    match slots.read pos with
    | .error _ => .error readError
    | .ok slot =>
      if slot.handle = 0 then .ok (some pos)
      else if e.compared compares values.size slot &&
          (match values.read (slot.handle - 1) with
            | .ok value => e.same value
            | .error _ => false) then .ok none
      else touchLoop compares readError e mask slots values fuel (next mask pos)

def touchSlot (compares : Bool) (readError : StatusCode) (slots : MappedVector IndexSlot)
    (values : MappedVector β) (e : IndexEntry β) : Except StatusCode (Option Nat) :=
  touchLoop compares readError e (slots.size - 1) slots values slots.size (e.home slots.size)

def touchIndex (compares : Bool) (readError : StatusCode) (values : MappedVector β)
    (slots : MappedVector IndexSlot) (e : IndexEntry β) :
    Except StatusCode (MappedVector IndexSlot) := do
  match ← touchSlot compares readError slots values e with
  | some pos => return slots.materialize pos
  | none => return slots

/-- `touch_identity_slot` and `touch_object_slot`: a null identity has no slot. -/
def touchIdentity (values : MappedVector IdentityRef) (slots : MappedVector IndexSlot)
    (identity : IdentityRef) : Except StatusCode (MappedVector IndexSlot) :=
  if !identity.valid then .error .rebuildRequired
  else touchIndex true .rebuildRequired values slots (identityEntry identity 0)

def touchAll {ε : Type} (replaced : Bool)
    (touch : MappedVector IndexSlot → ε → Except StatusCode (MappedVector IndexSlot))
    (slots : MappedVector IndexSlot) (entries : List ε) : Except StatusCode (MappedVector IndexSlot) :=
  if replaced then .ok slots else entries.foldlM touch slots

def touchHead (heads : MappedVector Nat) (pending : PendingDependencyEdge) :
    Except StatusCode (MappedVector Nat) :=
  if pending.targetHandle = 0 || pending.targetHandle > heads.size then .error .invalidArgument
  else .ok (heads.materialize (pending.targetHandle - 1))

namespace MappedGraph

def fitsCapacity (g : MappedGraph) (p : PreparedGraphUpdate) : Bool :=
  g.memberRecords.size + p.members.length ≤ g.memberRecords.capacity &&
    g.enumValueRecords.size + p.enumValues.length ≤ g.enumValueRecords.capacity &&
    g.canonicalTypes.size + p.canonicalTypes.length ≤ g.canonicalTypes.capacity &&
    g.types.size + p.newTypes.length ≤ g.types.capacity &&
    g.identities.size + p.newIdentities.length ≤ g.identities.capacity &&
    g.objectEntries.size + p.newObjects.length ≤ g.objectEntries.capacity &&
    g.objectIdentities.size + p.newObjectIdentities.length ≤ g.objectIdentities.capacity &&
    g.linkRecords.size + p.newLinks.length ≤ g.linkRecords.capacity &&
    g.namedRefs.size + p.newTypes.length ≤ g.namedRefs.capacity &&
    g.dependencyVersions.size + p.newTypes.length ≤ g.dependencyVersions.capacity &&
    g.reverseDependencyHeads.size + p.newTypes.length ≤ g.reverseDependencyHeads.capacity &&
    g.dependencyEdges.size + p.dependencyEdges.length ≤ g.dependencyEdges.capacity

def reserveGrowth (g : MappedGraph) (p : PreparedGraphUpdate) : MappedGraph :=
  { g with
    memberRecords := g.memberRecords.reserve (g.memberRecords.size + p.members.length)
    enumValueRecords := g.enumValueRecords.reserve (g.enumValueRecords.size + p.enumValues.length)
    canonicalTypes := g.canonicalTypes.reserve (g.canonicalTypes.size + p.canonicalTypes.length)
    types := g.types.reserve (g.types.size + p.newTypes.length)
    identities := g.identities.reserve (g.identities.size + p.newIdentities.length)
    objectEntries := g.objectEntries.reserve (g.objectEntries.size + p.newObjects.length)
    objectIdentities :=
      g.objectIdentities.reserve (g.objectIdentities.size + p.newObjectIdentities.length)
    linkRecords := g.linkRecords.reserve (g.linkRecords.size + p.newLinks.length)
    namedRefs := g.namedRefs.reserve (g.namedRefs.size + p.newTypes.length)
    dependencyVersions := g.dependencyVersions.reserve (g.dependencyVersions.size + p.newTypes.length)
    reverseDependencyHeads :=
      g.reverseDependencyHeads.reserve (g.reverseDependencyHeads.size + p.newTypes.length)
    dependencyEdges := g.dependencyEdges.reserve (g.dependencyEdges.size + p.dependencyEdges.length) }

def readStatusOk (g : MappedGraph) : Bool :=
  g.types.readFailure.isNone && g.identities.readFailure.isNone &&
    g.memberRecords.readFailure.isNone && g.enumValueRecords.readFailure.isNone &&
    g.objectEntries.readFailure.isNone && g.objectIdentities.readFailure.isNone &&
    g.linkRecords.readFailure.isNone && g.canonicalTypes.readFailure.isNone &&
    g.identityIndex.readFailure.isNone && g.objectIdentityIndex.readFailure.isNone &&
    g.linkIndex.readFailure.isNone && g.namedRefs.readFailure.isNone &&
    g.derivedIndex.readFailure.isNone && g.dependencyVersions.readFailure.isNone &&
    g.reverseDependencyHeads.readFailure.isNone && g.dependencyEdges.readFailure.isNone

def prepareSparsePublication (g : MappedGraph) (p : PreparedGraphUpdate) :
    Except StatusCode MappedGraph :=
  if !g.baselineBacked then if fitsCapacity g p then .ok g else .error .rebuildRequired
  else do
    let g := reserveGrowth g p
    let identityIndex ← touchAll p.replaceIdentityIndex (touchIdentity g.identities)
      g.identityIndex p.newIdentities
    let objectIdentityIndex ← touchAll p.replaceObjectIdentityIndex (touchIdentity g.objectIdentities)
      g.objectIdentityIndex p.newObjectIdentities
    let linkIndex ← touchAll p.replaceLinkIndex (touchIndex false .artifactCorrupt g.linkRecords)
      g.linkIndex (p.linkEntries g.linkRecords.size)
    let derivedIndex ← touchAll p.replaceDerivedIndex
      (touchIndex false .artifactCorrupt g.canonicalTypes) g.derivedIndex
      (p.derivedEntries g.canonicalTypes.size)
    let reverseDependencyHeads ← p.dependencyEdges.foldlM touchHead g.reverseDependencyHeads
    let g := { g with
      identityIndex, objectIdentityIndex, linkIndex, derivedIndex, reverseDependencyHeads }
    if readStatusOk g then return g else .error .artifactCorrupt

end MappedGraph

def handlePatches {α : Type} (patches : List (Patch α)) : List (Nat × α) :=
  patches.map fun patch => (patch.handle - 1, patch.value)

def publishIndex [Inhabited β] (compares replaced : Bool) (rebuilt : List IndexSlot)
    (slots : MappedVector IndexSlot) (values : MappedVector β) (entries : List (IndexEntry β)) :
    Option (MappedVector IndexSlot × MappedVector β) :=
  if replaced then some (slots.swapLocal rebuilt, values) else insertAll compares slots values entries

def publishEdge (state : MappedVector DependencyEdge × MappedVector Nat)
    (pending : PendingDependencyEdge) : MappedVector DependencyEdge × MappedVector Nat :=
  let (edges, heads) := state
  let target := pending.targetHandle - 1
  let heads := heads.materialize target
  let edges := edges.pushBack ⟨pending.ownerHandle, heads.value target, pending.ownerVersion⟩
  (edges, heads.set target edges.size)

namespace MappedGraph

/-- `publish_prepared(prepared_graph_update&)`; no result when an index insertion never ends. -/
def publishPrepared (g : MappedGraph) (p : PreparedGraphUpdate) : Option MappedGraph := do
  let types := (g.types.append p.newTypes).patchAll (handlePatches p.typePatches)
  let objectEntries := (g.objectEntries.append p.newObjects).patchAll (handlePatches p.objectPatches)
  let linkRecords := (g.linkRecords.append p.newLinks).patchAll (handlePatches p.linkPatches)
  let canonicalTypes := g.canonicalTypes.append p.canonicalTypes
  let namedRefs := (g.namedRefs.append (p.newTypes.map fun _ => 0)).patchAll
    (p.namedRefPatches.map fun patch => (patch.handle, patch.value))
  let (identityIndex, identities) ← publishIndex true p.replaceIdentityIndex
    p.rebuiltIdentityIndex g.identityIndex (g.identities.append p.newIdentities)
    (p.identityEntries g.types.size)
  let (objectIdentityIndex, objectIdentities) ← publishIndex true p.replaceObjectIdentityIndex
    p.rebuiltObjectIdentityIndex g.objectIdentityIndex
    (g.objectIdentities.append p.newObjectIdentities) (p.objectIdentityEntries g.objectEntries.size)
  let (linkIndex, linkRecords) ← publishIndex true p.replaceLinkIndex p.rebuiltLinkIndex g.linkIndex
    linkRecords (p.linkEntries g.linkRecords.size)
  let (derivedIndex, canonicalTypes) ← publishIndex false p.replaceDerivedIndex
    p.rebuiltDerivedIndex g.derivedIndex canonicalTypes (p.derivedEntries g.canonicalTypes.size)
  let dependencyVersions := (g.dependencyVersions.append (p.newTypes.map fun _ => 1)).patchAll
    (handlePatches p.dependencyVersionPatches)
  let (dependencyEdges, reverseDependencyHeads) := p.dependencyEdges.foldl publishEdge
    (g.dependencyEdges, g.reverseDependencyHeads.append (p.newTypes.map fun _ => 0))
  return { g with
    types, identities, objectEntries, objectIdentities, linkRecords, canonicalTypes, identityIndex
    objectIdentityIndex, linkIndex, namedRefs, derivedIndex, dependencyVersions
    reverseDependencyHeads, dependencyEdges
    memberRecords := g.memberRecords.append p.members
    enumValueRecords := g.enumValueRecords.append p.enumValues
    intrinsicRefs := p.intrinsicRefs
    derivedIndexEntries := p.derivedIndexEntries
    liveTypeCount := p.liveTypeCount
    liveObjectCount := p.liveObjectCount
    liveLinkCount := p.liveLinkCount }

def reads (g : MappedGraph) : Nat :=
  g.types.reads + g.identities.reads + g.memberRecords.reads + g.enumValueRecords.reads +
    g.objectEntries.reads + g.objectIdentities.reads + g.linkRecords.reads + g.canonicalTypes.reads +
    g.identityIndex.reads + g.objectIdentityIndex.reads + g.linkIndex.reads + g.namedRefs.reads +
    g.derivedIndex.reads + g.dependencyVersions.reads + g.reverseDependencyHeads.reads +
    g.dependencyEdges.reads

end MappedGraph

end ServerEngine

import ServerEngine.Builder.FullBuild
import ServerEngine.Builder.Incremental
import ServerEngine.Contribution.Tracking

/-! # Generations

A build prepares a cache and a Graph and publishes both. The Graph here is built in memory, so it has
no saved baseline; a build that fails leaves the committed generation as it was.
-/
namespace ServerEngine

/-! ## Publication of a sparse update -/

namespace Graph

def fitsCapacity (g : Graph) (capacity : GraphCapacity) (p : PreparedGraphUpdate) : Bool :=
  g.memberRecords.length + p.members.length ≤ capacity.memberRecords &&
    g.enumValueRecords.length + p.enumValues.length ≤ capacity.enumValueRecords &&
    g.canonicalTypes.length + p.canonicalTypes.length ≤ capacity.canonicalTypes &&
    g.types.length + p.newTypes.length ≤ capacity.types &&
    g.identities.length + p.newIdentities.length ≤ capacity.identities &&
    g.objectEntries.length + p.newObjects.length ≤ capacity.objectEntries &&
    g.objectIdentities.length + p.newObjectIdentities.length ≤ capacity.objectIdentities &&
    g.linkRecords.length + p.newLinks.length ≤ capacity.linkRecords &&
    g.namedRefs.length + p.newTypes.length ≤ capacity.namedRefs &&
    g.dependencyVersions.length + p.newTypes.length ≤ capacity.dependencyVersions &&
    g.reverseDependencyHeads.length + p.newTypes.length ≤ capacity.reverseDependencyHeads &&
    g.dependencyEdges.length + p.dependencyEdges.length ≤ capacity.dependencyEdges

/-- `prepare_sparse_publication` of a Graph without a baseline. -/
def prepareSparsePublication (g : Graph) (capacity : GraphCapacity) (p : PreparedGraphUpdate) :
    BuildM Unit :=
  if g.fitsCapacity capacity p then .ok () else BuildM.fail .rebuildRequired

def applyPatches {α : Type} (values : List α) (patches : List (Patch α)) : List α :=
  patches.foldl (fun values patch => values.set (patch.handle - 1) patch.value) values

def insertAll {β : Type} (hash : β → Nat) (same : β → Nat → Bool) (start : Nat)
    (slots : List IndexSlot) (entries : List β) : BuildM (List IndexSlot) :=
  (entries.zipIdx start).foldlM (fun slots item =>
    BuildM.ends (IndexSlots.insert slots (hash item.1) item.2 (same item.1))) slots

def publishIdentities (slots : List IndexSlot) (identities added : List IdentityRef) (start : Nat) :
    BuildM (List IndexSlot) :=
  insertAll identityHash (fun identity handle => identities[handle - 1]? == some identity)
    (start + 1) slots added

def publishLinks (slots : List IndexSlot) (links added : List LinkRecord) (start : Nat) :
    BuildM (List IndexSlot) :=
  insertAll (fun link => endpointHash link.target)
    (fun link handle => (links[handle - 1]?.map (·.target)) == some link.target) (start + 1) slots
    added

def publishDerived (slots : List IndexSlot) (added : List CanonicalTypeRecord) (start : Nat) :
    BuildM (List IndexSlot) :=
  ((added.zipIdx start).filter (·.1.kind == .derived)).foldlM (fun slots item =>
    BuildM.ends (IndexSlots.insert slots item.1.derivedHash item.2 fun _ => false)) slots

def publishEdge (state : List DependencyEdge × List Nat) (pending : PendingDependencyEdge) :
    List DependencyEdge × List Nat :=
  let target := pending.targetHandle - 1
  (state.1 ++ [⟨pending.ownerHandle, state.2.getD target 0, pending.ownerVersion⟩],
    state.2.set target (state.1.length + 1))

/-- `publish_prepared(prepared_graph_update&)`; the builder never asks to replace an index. -/
def publishPrepared (g : Graph) (p : PreparedGraphUpdate) : BuildM Graph := do
  let identities := g.identities ++ p.newIdentities
  let objectIdentities := g.objectIdentities ++ p.newObjectIdentities
  let linkRecords := applyPatches (g.linkRecords ++ p.newLinks) p.linkPatches
  let identityIndex ← publishIdentities g.identityIndex identities p.newIdentities g.types.length
  let objectIdentityIndex ← publishIdentities g.objectIdentityIndex objectIdentities
    p.newObjectIdentities g.objectEntries.length
  let linkIndex ← publishLinks g.linkIndex linkRecords p.newLinks g.linkRecords.length
  let derivedIndex ← publishDerived g.derivedIndex p.canonicalTypes g.canonicalTypes.length
  let (dependencyEdges, reverseDependencyHeads) := p.dependencyEdges.foldl publishEdge
    (g.dependencyEdges, g.reverseDependencyHeads ++ p.newTypes.map fun _ => 0)
  return { g with
    types := applyPatches (g.types ++ p.newTypes) p.typePatches
    identities
    memberRecords := g.memberRecords ++ p.members
    enumValueRecords := g.enumValueRecords ++ p.enumValues
    objectEntries := applyPatches (g.objectEntries ++ p.newObjects) p.objectPatches
    objectIdentities, linkRecords
    canonicalTypes := g.canonicalTypes ++ p.canonicalTypes
    identityIndex, objectIdentityIndex, linkIndex
    intrinsicRefs := p.intrinsicRefs
    namedRefs := p.namedRefPatches.foldl (fun refs patch => refs.set patch.handle patch.value)
      (g.namedRefs ++ p.newTypes.map fun _ => 0)
    derivedIndex
    derivedIndexEntries := p.derivedIndexEntries
    dependencyVersions :=
      applyPatches (g.dependencyVersions ++ p.newTypes.map fun _ => 1) p.dependencyVersionPatches
    reverseDependencyHeads, dependencyEdges
    liveTypeCount := p.liveTypeCount
    liveObjectCount := p.liveObjectCount
    liveLinkCount := p.liveLinkCount }

end Graph

/-! ## Builds -/

/-- The committed contribution cache and Graph, with the Graph's capacities. -/
structure Generation where
  cache : SourceContributionCache := {}
  graph : Graph := .empty
  capacity : GraphCapacity := {}

/-- The calls of a fresh `generation_builder`, each followed by its publication. -/
inductive Build
  | full (abi : AbiConfiguration) (sources : List SourceFacts)
  | incremental (abi : AbiConfiguration) (replacements : List SourceFacts) (removals : List Nat)

namespace Generation

def typeCount (facts : SourceFacts) : Nat := facts.records.length + facts.enums.length

def totals (sources : List SourceFacts) : BuildM ArenaSizes := do
  let types ← checkedSum (sources.map typeCount)
  let members ← checkedSum (sources.map (·.members.length))
  let modifiers ← checkedSum (sources.map (·.modifiers.length))
  let enumValues ← checkedSum (sources.map (·.enumValues.length))
  let objects ← checkedSum (sources.map (·.objects.length))
  let links ← checkedSum (sources.map (·.links.length))
  return ⟨types, members, modifiers, enumValues, objects, links⟩

def prepareG0 (abi : AbiConfiguration) (sources : List SourceFacts) :
    BuildM (CacheUpdate × DetachedGraph) :=
  if !abi.supported then BuildM.fail .invalidArgument
  else do
    let n ← totals sources
    let u ← BuildM.lift
      (CacheUpdate.reserveRebuild {} ((sources.map (·.source)).foldl max 0) n)
    let u ← BuildM.lift (sources.foldlM CacheUpdate.replace u)
    let (construction, detached) ← FullBuild.prepareGraph abi u.candidate
    return (u.setConstruction construction, detached)

def publishG0 (s : Generation) (prepared : CacheUpdate × DetachedGraph) : Generation where
  cache := prepared.1.publish s.cache
  graph := { prepared.2.graph with baselineBacked := s.graph.baselineBacked }
  capacity := prepared.2.capacity

def previousTypeCount (cache : SourceContributionCache) (source : Nat) : Nat :=
  match cache.committed.state source with
  | some state => state.types.count
  | none => 0

def prepareIncremental (s : Generation) (abi : AbiConfiguration) (replacements : List SourceFacts)
    (removals : List Nat) : BuildM (SparseUpdate × Candidate) :=
  if !abi.supported || !s.cache.provenanceComplete then BuildM.fail .invalidArgument
  else if replacements.any (·.source == 0) || removals.any (· == 0) then
    BuildM.fail .invalidArgument
  else do
    let n ← totals replacements
    let touchedUpper ← checkedSum
      (replacements.map (fun facts => previousTypeCount s.cache facts.source + typeCount facts) ++
        removals.map (previousTypeCount s.cache))
    let u ← BuildM.lift ((SparseUpdate.beginIncremental s.cache).reserveIncremental
      (replacements.length + removals.length) touchedUpper n)
    let u ← BuildM.lift (replacements.foldlM SparseUpdate.replace u)
    let u ← BuildM.lift (removals.foldlM SparseUpdate.remove u)
    let c ← prepareIncrementalGraph s.graph abi u
    s.graph.prepareSparsePublication s.capacity c.update
    let u ← BuildM.lift c.contributions.preparePublish
    return (u, c)

def publishIncremental (s : Generation) (prepared : SparseUpdate × Candidate) :
    BuildM Generation := do
  let graph ← s.graph.publishPrepared prepared.2.update
  return { cache := prepared.1.publishPrepared, graph, capacity := s.capacity }

def build (s : Generation) : Build → BuildM Generation
  | .full abi sources => do return s.publishG0 (← prepareG0 abi sources)
  | .incremental abi replacements removals => do
    s.publishIncremental (← s.prepareIncremental abi replacements removals)

end Generation

namespace Force

def none : Force := fun _ => Option.none

def replace (force : Force) (facts : SourceFacts) : Force := force.set facts.source (some facts)

def remove (force : Force) (source : Nat) : Force := force.set source Option.none

def build (force : Force) : Build → Force
  | .full _ sources => sources.foldl replace none
  | .incremental _ replacements removals => removals.foldl remove (replacements.foldl replace force)

end Force

/-- The generations that published builds lead to, with the facts in force; every build meets the
condition. -/
inductive Generation.Run (allowed : Force → Build → Prop) : Generation → Force → Prop
  | initial : Run allowed {} Force.none
  | publish {s s' : Generation} {force : Force} {b : Build} :
    Run allowed s force → allowed force b → s.build b = .ok s' → Run allowed s' (force.build b)

end ServerEngine

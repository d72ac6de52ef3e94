import ServerEngine.Core.Hash
import ServerEngine.Contribution.Capture

/-! # Updates of the contribution cache

A rebuild fills a detached storage that publication swaps in. A sparse update keeps new payload in
candidate arenas whose ranges already name the committed arenas they will be appended to. A failed
operation ends an update: operations are partial functions on updates.
-/
namespace ServerEngine
open Slice ErrorFold

def ArenaSizes.fitU32 (n : ArenaSizes) : Bool :=
  n.types ≤ u32Max && n.members ≤ u32Max && n.modifiers ≤ u32Max && n.enumValues ≤ u32Max &&
    n.objects ≤ u32Max && n.links ≤ u32Max

def ArenaSizes.add (a b : ArenaSizes) : ArenaSizes :=
  ⟨a.types + b.types, a.members + b.members, a.modifiers + b.modifiers, a.enumValues + b.enumValues,
    a.objects + b.objects, a.links + b.links⟩

def ArenaSizes.max (a b : ArenaSizes) : ArenaSizes :=
  ⟨Nat.max a.types b.types, Nat.max a.members b.members, Nat.max a.modifiers b.modifiers,
    Nat.max a.enumValues b.enumValues, Nat.max a.objects b.objects, Nat.max a.links b.links⟩

/-- Componentwise `≤`, as one test. -/
def ArenaSizes.le (a b : ArenaSizes) : Bool :=
  a.types ≤ b.types && a.members ≤ b.members && a.modifiers ≤ b.modifiers &&
    a.enumValues ≤ b.enumValues && a.objects ≤ b.objects && a.links ≤ b.links

/-- The guards both `replace` operations share. -/
def acceptFacts (facts : SourceFacts) : Except StatusCode Unit :=
  if facts.source = 0 then .error .invalidArgument
  else match validateSourceFacts facts with
    | .error _ => .error .invalidArgument
    | .ok _ => if hasBases facts then .error .notAvailable else .ok ()

theorem acceptFacts_ok {facts : SourceFacts} {u : Unit} : acceptFacts facts = .ok u ↔
    facts.source ≠ 0 ∧ validateSourceFacts facts = .ok () ∧ hasBases facts = false := by
  unfold acceptFacts
  split
  · simp_all
  · cases hv : validateSourceFacts facts with
    | error e => simp
    | ok v => cases hb : hasBases facts <;> simp_all

/-! ## Full reconstruction -/

structure CacheUpdate where
  candidate : Storage := {}
  replaced : List Bool := []
  deriving DecidableEq

/-- `reserve_headroom_size`, below the overflow of `std::size_t`. -/
def headroom (size : Nat) : Nat := size + (size / 16 + 64)

namespace CacheUpdate

def reserveRebuild (u : CacheUpdate) (maxSource : Nat) (n : ArenaSizes) :
    Except StatusCode CacheUpdate :=
  if !u.candidate.sources.isEmpty || !u.replaced.isEmpty then .error .invalidArgument
  else if maxSource ≥ u32Max || n.types ≥ u32Max || n.members ≥ u32Max || n.modifiers ≥ u32Max ||
      n.enumValues ≥ u32Max || n.objects ≥ u32Max || n.links ≥ u32Max then .error .notAvailable
  else .ok
    { candidate := { u.candidate with
        sources := growTo u.candidate.sources (maxSource + 1) {}
        capacity :=
          { arenas := ⟨headroom n.types, headroom n.members, headroom n.modifiers,
              headroom n.enumValues, headroom n.objects, headroom n.links⟩
            sources := headroom (maxSource + 1)
            construction := headroom (n.types + 1) } }
      replaced := growTo u.replaced (maxSource + 1) false }

def capture (candidate : Arenas) (facts : SourceFacts) : Except StatusCode Arenas := do
  let members ← facts.members.mapM (captureMember (addU32 candidate.modifiers.length))
  let objects ← facts.objects.mapM (captureObject (addU32 candidate.modifiers.length))
  let types ← captureTypes (addU32 candidate.members.length) (addU32 candidate.enumValues.length)
    facts
  return ⟨types, members, facts.modifiers, facts.enumValues.map captureEnumValue, objects,
    facts.links.map captureLink⟩

def replace (u : CacheUpdate) (facts : SourceFacts) : Except StatusCode CacheUpdate := do
  acceptFacts facts
  let sources := growTo u.candidate.sources (facts.source + 1) {}
  let replaced := growTo u.replaced (facts.source + 1) false
  if replaced[facts.source]? = some true then .error .invalidArgument
  else if !u.candidate.arenas.sizes.fitU32 then .error .notAvailable
  else do
    let payload ← capture u.candidate.arenas facts
    if !payload.sizes.fitU32 then .error .notAvailable
    else
      let arenas := u.candidate.arenas.append payload
      .ok
        { candidate := { u.candidate with
            arenas
            sources := sources.set facts.source
              (.place facts.source u.candidate.arenas.sizes payload.sizes)
            statistics :=
              ⟨u.candidate.statistics.sources + 1, arenas.types.length, arenas.members.length,
                arenas.modifiers.length, arenas.enumValues.length, arenas.objects.length,
                arenas.links.length⟩ }
          replaced := replaced.set facts.source true }

def setConstruction (u : CacheUpdate) (construction : List SourceConstructionState) : CacheUpdate :=
  { u with candidate := { u.candidate with construction } }

/-- `publish_prepared`; `prepare_publish` only checks that nothing has failed. -/
def publish (u : CacheUpdate) (owner : SourceContributionCache) : SourceContributionCache :=
  { owner with
    committed := u.candidate
    statistics := u.candidate.statistics
    provenanceComplete := true }

end CacheUpdate

/-! ## Sparse update -/

structure SourcePatch where
  source : Nat := 0
  state : SourceContributionState := {}
  present : Bool := false
  deriving DecidableEq

structure ConstructionPatch where
  handle : Nat := 0
  state : SourceConstructionState := {}
  deriving DecidableEq

/-- `source_contribution_sparse_update`. The two patch indexes only add entries, so finding one is
finding the entry of that key, and adding one fails once every slot is taken. -/
structure SparseUpdate where
  owner : SourceContributionCache
  base : ArenaSizes
  candidate : Arenas := {}
  sourcePatches : List SourcePatch := []
  constructionPatches : List ConstructionPatch := []
  sourceCapacity : Nat := 0
  constructionCapacity : Nat := 0
  prepared : Bool := false
  preparedStatistics : SourceContributionStatistics := {}
  preparedSourceSize : Nat := 0
  preparedConstructionSize : Nat := 0
  deriving DecidableEq

def patchCapacity (count : Nat) : Nat :=
  if count = 0 then 0
  else if count > sizeMax / 2 then 0
  else bitCeil (if count * 2 < 8 then 8 else count * 2)

/-- `size_t` subtraction from `u32Max`, which wraps when an arena has outgrown 32 bits. -/
def u32Room (base : Nat) : Nat := (u32Max + (sizeMax + 1) - base) % (sizeMax + 1)

namespace SparseUpdate

def beginIncremental (c : SourceContributionCache) : SparseUpdate :=
  { owner := c, base := c.committed.arenas.sizes }

def reserveIncremental (u : SparseUpdate) (sourceChanges touchedTypes : Nat) (n : ArenaSizes) :
    Except StatusCode SparseUpdate :=
  if u.prepared || !u.sourcePatches.isEmpty || !u.constructionPatches.isEmpty ||
      !u.candidate.types.isEmpty then .error .invalidArgument
  else if n.types > u32Room u.base.types || n.members > u32Room u.base.members ||
      n.modifiers > u32Room u.base.modifiers || n.enumValues > u32Room u.base.enumValues ||
      n.objects > u32Room u.base.objects || n.links > u32Room u.base.links then
    .error .notAvailable
  else if (sourceChanges ≠ 0 && patchCapacity sourceChanges = 0) ||
      (touchedTypes ≠ 0 && patchCapacity touchedTypes = 0) then .error .notAvailable
  else .ok { u with
    sourceCapacity := patchCapacity sourceChanges
    constructionCapacity := patchCapacity touchedTypes }

def findSourcePatch (u : SparseUpdate) (source : Nat) : Option SourcePatch :=
  if source = 0 then none else u.sourcePatches.find? (·.source == source)

def findConstructionPatch (u : SparseUpdate) (handle : Nat) : Option ConstructionPatch :=
  if handle = 0 then none else u.constructionPatches.find? (·.handle == handle)

/-- `add_source_patch`, the patch being written at once. -/
def addSourcePatch (u : SparseUpdate) (patch : SourcePatch) : Except StatusCode SparseUpdate :=
  if patch.source = 0 || u.sourceCapacity = 0 then .error .invalidArgument
  else if (u.findSourcePatch patch.source).isSome then .error .invalidArgument
  else if u.sourcePatches.length < u.sourceCapacity then
    .ok { u with sourcePatches := u.sourcePatches ++ [patch] }
  else .error .notAvailable

/-- The arenas of the facts, with ranges placed behind the committed arenas and the candidate's. -/
def capture (base : ArenaSizes) (candidate : Arenas) (facts : SourceFacts) :
    Except StatusCode Arenas := do
  let placeModifier := fun r => do addU32 (← absoluteU32 base.modifiers candidate.modifiers.length) r
  let members ← facts.members.mapM (captureMember placeModifier)
  let objects ← facts.objects.mapM (captureObject placeModifier)
  let memberBase ← absoluteU32 base.members candidate.members.length
  let enumBase ← absoluteU32 base.enumValues candidate.enumValues.length
  let _ ← absoluteU32 base.objects candidate.objects.length
  let _ ← absoluteU32 base.links candidate.links.length
  let types ← captureTypes (addU32 memberBase) (addU32 enumBase) facts
  return ⟨types, members, facts.modifiers, facts.enumValues.map captureEnumValue, objects,
    facts.links.map captureLink⟩

def nextBase (base : ArenaSizes) (candidate : Arenas) : ArenaSizes :=
  let n := base.add candidate.sizes
  { n with modifiers := n.modifiers % (u32Max + 1) }

def replace (u : SparseUpdate) (facts : SourceFacts) : Except StatusCode SparseUpdate :=
  if u.prepared then .error .invalidArgument
  else do
    acceptFacts facts
    let _ ← u.addSourcePatch { source := facts.source }
    let payload ← capture u.base u.candidate facts
    if !payload.sizes.fitU32 then .error .notAvailable
    else do
      let _ ← absoluteU32 u.base.types u.candidate.types.length
      let u ← u.addSourcePatch
        ⟨facts.source, .place facts.source (nextBase u.base u.candidate) payload.sizes, true⟩
      return { u with candidate := u.candidate.append payload }

def remove (u : SparseUpdate) (source : Nat) : Except StatusCode SparseUpdate :=
  if u.prepared || source = 0 then .error .invalidArgument
  else u.addSourcePatch { source }

/-! ### Queries -/

def previousState (u : SparseUpdate) (source : Nat) : Option SourceContributionState :=
  u.owner.committed.state source

def replacementState (u : SparseUpdate) (source : Nat) : Option SourceContributionState :=
  match u.findSourcePatch source with
  | some patch => if patch.present then some patch.state else none
  | none => none

def combined (u : SparseUpdate) : Arenas := u.owner.committed.arenas.append u.candidate

def construction (u : SparseUpdate) (handle : Nat) : Option SourceConstructionState :=
  match u.findConstructionPatch handle with
  | some patch => some patch.state
  | none => u.owner.committed.constructionAt handle

def setConstruction (u : SparseUpdate) (handle : Nat) (value : SourceConstructionState) :
    Except StatusCode SparseUpdate :=
  if u.prepared || handle = 0 || u.constructionCapacity = 0 then .error .invalidArgument
  else if (u.findConstructionPatch handle).isSome then
    .ok { u with constructionPatches := u.constructionPatches.map fun patch =>
      if patch.handle = handle then { patch with state := value } else patch }
  else if u.constructionPatches.length < u.constructionCapacity then
    .ok { u with constructionPatches := u.constructionPatches ++ [⟨handle, value⟩] }
  else .error .notAvailable

/-! ### Publication -/

def subtractCount (value decrement : Nat) : Except StatusCode Nat :=
  if decrement > value then .error .invalidArgument else .ok (value - decrement)

def subtractState (n : SourceContributionStatistics) (old : SourceContributionState) :
    Except StatusCode SourceContributionStatistics := do
  let sources ← subtractCount n.sources 1
  let typeDeclarations ← subtractCount n.typeDeclarations old.types.count
  let members ← subtractCount n.members old.members.count
  let modifiers ← subtractCount n.modifiers old.modifiers.count
  let enumValues ← subtractCount n.enumValues old.enumValues.count
  let objects ← subtractCount n.objects old.objects.count
  let links ← subtractCount n.links old.links.count
  return ⟨sources, typeDeclarations, members, modifiers, enumValues, objects, links⟩

def addState (n : SourceContributionStatistics) (s : SourceContributionState) :
    SourceContributionStatistics :=
  ⟨n.sources + 1, n.typeDeclarations + s.types.count, n.members + s.members.count,
    n.modifiers + s.modifiers.count, n.enumValues + s.enumValues.count, n.objects + s.objects.count,
    n.links + s.links.count⟩

def patchStatistics (c : Storage) (n : SourceContributionStatistics) (patch : SourcePatch) :
    Except StatusCode SourceContributionStatistics := do
  let n ← match c.state patch.source with
    | some old => subtractState n old
    | none => pure n
  return if patch.present then addState n patch.state else n

/-- Over a persisted baseline the needed room is reserved; otherwise the capacity of the last rebuild
must do. -/
def publishCapacity (owner : SourceContributionCache) (needed : ArenaSizes)
    (sources construction : Nat) : StorageCapacity :=
  let c := owner.committed
  if owner.baselineBacked then
    ⟨c.capacity.arenas.max needed, Nat.max c.capacity.sources sources,
      Nat.max c.capacity.construction construction⟩
  else
    ⟨c.capacity.arenas.max c.arenas.sizes, Nat.max c.capacity.sources c.sources.length,
      Nat.max c.capacity.construction c.construction.length⟩

def preparePublish (u : SparseUpdate) : Except StatusCode SparseUpdate :=
  if u.prepared || !u.owner.provenanceComplete then .error .invalidArgument
  else do
    let statistics ← u.sourcePatches.foldlM (patchStatistics u.owner.committed) u.owner.statistics
    let c := u.owner.committed
    let maxSource := (u.sourcePatches.map (·.source)).foldl Nat.max (c.sources.length - 1)
    let maxHandle := (u.constructionPatches.map (·.handle)).foldl Nat.max (c.construction.length - 1)
    if maxSource ≥ u32Max || maxHandle ≥ u32Max then .error .notAvailable
    else
      let needed := u.base.add u.candidate.sizes
      let capacity := publishCapacity u.owner needed (maxSource + 1) (maxHandle + 1)
      if maxSource + 1 > capacity.sources || maxHandle + 1 > capacity.construction ||
          !needed.le capacity.arenas then .error .rebuildRequired
      else .ok { u with
        owner := { u.owner with committed := { c with capacity } }
        prepared := true
        preparedStatistics := statistics
        preparedSourceSize := maxSource + 1
        preparedConstructionSize := maxHandle + 1 }

def applySourcePatch (sources : List SourceContributionState) (patch : SourcePatch) :
    List SourceContributionState :=
  sources.set patch.source (if patch.present then patch.state else {})

def applyConstructionPatch (construction : List SourceConstructionState)
    (patch : ConstructionPatch) : List SourceConstructionState :=
  construction.set patch.handle patch.state

def publishPrepared (u : SparseUpdate) : SourceContributionCache :=
  let c := u.owner.committed
  { u.owner with
    committed := { c with
      arenas := u.combined
      sources := u.sourcePatches.foldl applySourcePatch (growTo c.sources u.preparedSourceSize {})
      construction := u.constructionPatches.foldl applyConstructionPatch
        (growTo c.construction u.preparedConstructionSize {})
      statistics := u.preparedStatistics }
    statistics := u.preparedStatistics
    provenanceComplete := true }

end SparseUpdate

end ServerEngine

import ServerEngine.Builder.Construction

/-! # The candidate of an incremental build

What `prepare_incremental_graph` carries from step to step, and its local operations. The maps by
handle are read off the lists they index; the maps by identity have a fixed number of slots.
-/
namespace ServerEngine
open Slice

/-! ## Queries of the committed Graph -/

namespace Graph

def findIdentity (g : Graph) (identity : IdentityRef) : Option TypeHandle :=
  if !identity.valid then none
  else IndexSlots.find g.identityIndex (identityHash identity) fun handle =>
    g.identities[handle - 1]? == some identity

def findObjectIdentity (g : Graph) (identity : IdentityRef) : Option ObjectHandle :=
  if !identity.valid then none
  else IndexSlots.find g.objectIdentityIndex (identityHash identity) fun handle =>
    g.objectIdentities[handle - 1]? == some identity

def findLinkRaw (g : Graph) (target : ObjectEndpoint) : Option LinkHandle :=
  if target.object = 0 || target.member = invalidMember then none
  else IndexSlots.find g.linkIndex (endpointHash target) fun handle =>
    (g.linkRecords[handle - 1]?.map (·.target)) == some target

end Graph

section Spans
variable {α : Type}

def combinedSpan (committed appended : List α) (base : Nat) (range : SourceFactRange) : List α :=
  if range.count = 0 then []
  else if range.begin < base then
    if range.begin > committed.length || range.count > committed.length - range.begin ||
      range.begin + range.count > base then []
    else slice committed range.begin range.count
  else if range.begin - base > appended.length ||
    range.count > appended.length - (range.begin - base) then []
  else slice appended (range.begin - base) range.count

end Spans

namespace SparseUpdate

def changedSources (u : SparseUpdate) : List Nat := u.sourcePatches.map (·.source)

def previousTypes (u : SparseUpdate) (source : Nat) : List SourceContributionType :=
  match u.previousState source with
  | some state => checkedSpan u.owner.committed.arenas.types state.types
  | none => []

def previousObjects (u : SparseUpdate) (source : Nat) : List SourceContributionObject :=
  match u.previousState source with
  | some state => checkedSpan u.owner.committed.arenas.objects state.objects
  | none => []

def previousLinks (u : SparseUpdate) (source : Nat) : List SourceContributionLink :=
  match u.previousState source with
  | some state => checkedSpan u.owner.committed.arenas.links state.links
  | none => []

def replacementTypes (u : SparseUpdate) (source : Nat) : List SourceContributionType :=
  match u.replacementState source with
  | some state =>
    combinedSpan u.owner.committed.arenas.types u.candidate.types u.base.types state.types
  | none => []

def replacementObjects (u : SparseUpdate) (source : Nat) : List SourceContributionObject :=
  match u.replacementState source with
  | some state =>
    combinedSpan u.owner.committed.arenas.objects u.candidate.objects u.base.objects state.objects
  | none => []

def replacementLinks (u : SparseUpdate) (source : Nat) : List SourceContributionLink :=
  match u.replacementState source with
  | some state =>
    combinedSpan u.owner.committed.arenas.links u.candidate.links u.base.links state.links
  | none => []

def typeAt (u : SparseUpdate) (index : Nat) : Option SourceContributionType :=
  if index < u.base.types then u.owner.committed.arenas.types[index]?
  else u.candidate.types[index - u.base.types]?

def members (u : SparseUpdate) (range : SourceFactRange) : List SourceContributionMember :=
  combinedSpan u.owner.committed.arenas.members u.candidate.members u.base.members range

def modifiers (u : SparseUpdate) (range : SourceFactRange) : List SourceTypeModifier :=
  combinedSpan u.owner.committed.arenas.modifiers u.candidate.modifiers u.base.modifiers range

def enumValues (u : SparseUpdate) (range : SourceFactRange) : List SourceContributionEnumValue :=
  combinedSpan u.owner.committed.arenas.enumValues u.candidate.enumValues u.base.enumValues range

end SparseUpdate

/-! ## The candidate -/

/-- The locals of `prepare_incremental_graph`. `touchedUpper` is what `new_types` is reserved for,
the two capacities are the slots of the maps by identity. -/
structure Candidate where
  contributions : SparseUpdate
  update : PreparedGraphUpdate := {}
  touchedUpper : Nat := 0
  identityCapacity : Nat := 0
  objectIdentityCapacity : Nat := 0
  touchedHandles : List TypeHandle := []
  localDerivedIndex : List IndexSlot := []
  newDerivedCount : Nat := 0
  retiredObjects : List ObjectHandle := []
  claimedObjects : List ObjectHandle := []
  retiredLinks : List LinkHandle := []
  claimedLinks : List LinkHandle := []
  claimedLinkTargets : List ObjectEndpoint := []

def findPatch {α : Type} (patches : List (Patch α)) (handle : Nat) : Option α :=
  (patches.find? (·.handle == handle)).map (·.value)

def setPatch {α : Type} (patches : List (Patch α)) (handle : Nat) (value : α) : List (Patch α) :=
  if (findPatch patches handle).isSome then
    patches.map fun patch => if patch.handle = handle then { patch with value } else patch
  else patches ++ [⟨handle, value⟩]

namespace Candidate

variable (g : Graph) (c : Candidate)

/-! ### Slots by handle -/

def entry (handle : TypeHandle) : Option TypeEntry :=
  if handle = 0 then none
  else if handle > g.types.length then c.update.newTypes[handle - g.types.length - 1]?
  else match findPatch c.update.typePatches handle with
    | some value => some value
    | none => g.types[handle - 1]?

def setEntry (handle : TypeHandle) (value : TypeEntry) : Candidate :=
  if handle > g.types.length then
    { c with update := { c.update with
        newTypes := c.update.newTypes.set (handle - g.types.length - 1) value } }
  else { c with update := { c.update with
    typePatches := setPatch c.update.typePatches handle value } }

def object (handle : ObjectHandle) : Option ObjectEntry :=
  if handle = 0 then none
  else if handle > g.objectEntries.length then
    c.update.newObjects[handle - g.objectEntries.length - 1]?
  else match findPatch c.update.objectPatches handle with
    | some value => some value
    | none => g.objectEntries[handle - 1]?

def setObject (handle : ObjectHandle) (value : ObjectEntry) : Candidate :=
  if handle > g.objectEntries.length then
    { c with update := { c.update with
        newObjects := c.update.newObjects.set (handle - g.objectEntries.length - 1) value } }
  else { c with update := { c.update with
    objectPatches := setPatch c.update.objectPatches handle value } }

def link (handle : LinkHandle) : Option LinkRecord :=
  if handle = 0 then none
  else match findPatch c.update.linkPatches handle with
    | some value => some value
    | none => g.linkRecords[handle - 1]?

def setLink (handle : LinkHandle) (value : LinkRecord) : Candidate :=
  { c with update := { c.update with linkPatches := setPatch c.update.linkPatches handle value } }

/-! ### Handles by identity -/

def touch (handle : TypeHandle) : BuildM Candidate :=
  if handle = 0 then BuildM.fail .invalidArgument
  else if handle ∈ c.touchedHandles then .ok c
  else .ok { c with touchedHandles := c.touchedHandles ++ [handle] }

def findOrCreateHandle (identity : IdentityRef) : BuildM (Candidate × TypeHandle) :=
  if identity = .null then BuildM.fail .invalidArgument
  else match g.findIdentity identity with
  | some handle => .ok (c, handle)
  | none =>
    match c.update.newIdentities.idxOf? identity with
    | some position => .ok (c, g.types.length + position + 1)
    | none =>
      if g.types.length + c.update.newTypes.length ≥ u32Max then BuildM.fail .notAvailable
      else if c.update.newIdentities.length ≥ c.identityCapacity then BuildM.fail .notAvailable
      else .ok ({ c with update := { c.update with
          newTypes := c.update.newTypes ++ [{}]
          newIdentities := c.update.newIdentities ++ [identity] } },
        g.types.length + c.update.newTypes.length + 1)

def findOrCreateObjectHandle (identity : IdentityRef) : BuildM (Candidate × ObjectHandle) :=
  if !identity.valid || identity.kind ≠ .object then BuildM.fail .invalidArgument
  else match g.findObjectIdentity identity with
  | some handle => .ok (c, handle)
  | none =>
    match c.update.newObjectIdentities.idxOf? identity with
    | some position => .ok (c, g.objectEntries.length + position + 1)
    | none =>
      if g.objectEntries.length + c.update.newObjects.length ≥ u32Max then
        BuildM.fail .notAvailable
      else if c.update.newObjectIdentities.length ≥ c.objectIdentityCapacity then
        BuildM.fail .notAvailable
      else .ok ({ c with update := { c.update with
          newObjects := c.update.newObjects ++ [{}]
          newObjectIdentities := c.update.newObjectIdentities ++ [identity] } },
        g.objectEntries.length + c.update.newObjects.length + 1)

/-! ### Canonical types -/

def canonicalTypes : List CanonicalTypeRecord := g.canonicalTypes ++ c.update.canonicalTypes

def canonicalRecord (ref : TypeRef) : Option CanonicalTypeRecord :=
  if ref = 0 then none else (c.canonicalTypes g)[ref]?

def appendCanonical (record : CanonicalTypeRecord) : BuildM (Candidate × TypeRef) :=
  if (c.canonicalTypes g).length ≥ u32Max then BuildM.fail .notAvailable
  else .ok ({ c with update := { c.update with
    canonicalTypes := c.update.canonicalTypes ++ [record] } }, (c.canonicalTypes g).length)

def getIntrinsic (value : IntrinsicType) : BuildM (Candidate × TypeRef) :=
  if value = .none || value.code ≥ c.update.intrinsicRefs.length then BuildM.fail .invalidArgument
  else if c.update.intrinsicRefs.getD value.code 0 ≠ 0 then
    .ok (c, c.update.intrinsicRefs.getD value.code 0)
  else do
    let (c, ref) ← c.appendCanonical g { kind := .intrinsic, detail := value.code }
    .ok ({ c with update := { c.update with
      intrinsicRefs := c.update.intrinsicRefs.set value.code ref } }, ref)

def getNamed (handle : TypeHandle) : BuildM (Candidate × TypeRef) :=
  if handle = 0 || handle > g.types.length + c.update.newTypes.length then
    BuildM.fail .invalidArgument
  else if handle < g.namedRefs.length && g.namedRefs.getD handle 0 ≠ 0 then
    .ok (c, g.namedRefs.getD handle 0)
  else match findPatch c.update.namedRefPatches handle with
  | some ref => .ok (c, ref)
  | none => do
    let (c, ref) ← c.appendCanonical g { kind := .named, childOrHandle := handle }
    if ref = 0 then BuildM.fail .invalidArgument
    else .ok ({ c with update := { c.update with
      namedRefPatches := c.update.namedRefPatches ++ [⟨handle, ref⟩] } }, ref)

/-- `get_derived`: the committed index first, then the index of the candidate's own records. -/
def getDerived (modifier : SourceTypeModifier) (child : TypeRef) : BuildM (Candidate × TypeRef) :=
  if child = 0 then BuildM.fail .invalidArgument
  else
    let record := derivedRecord modifier child
    let same := fun ref => c.canonicalRecord g ref == some record
    match IndexSlots.find g.derivedIndex record.derivedHash same with
    | some ref => .ok (c, ref)
    | none =>
      match IndexSlots.probe c.localDerivedIndex record.derivedHash same with
      | none => BuildM.fail .notAvailable
      | some pos =>
        if (IndexSlots.slotAt c.localDerivedIndex pos).handle ≠ 0 then
          .ok (c, (IndexSlots.slotAt c.localDerivedIndex pos).handle)
        else do
          let (c, ref) ← c.appendCanonical g record
          .ok ({ c with
            localDerivedIndex :=
              c.localDerivedIndex.set pos ⟨fold32 record.derivedHash, ref⟩
            newDerivedCount := c.newDerivedCount + 1 }, ref)

def materializeBase (type : SourceContributionTypeRef) : BuildM (Candidate × TypeRef) :=
  if type.identity ≠ .null then do
    let (c, handle) ← c.findOrCreateHandle g type.identity
    c.getNamed g handle
  else c.getIntrinsic g type.intrinsic

/-- `materialize_object_type`, and the same steps for a member. -/
def materializeType (type : SourceContributionTypeRef) : BuildM (Candidate × TypeRef) := do
  let base ← c.materializeBase g type
  (c.contributions.modifiers type.modifiers).foldlM
    (fun (c, current) modifier => c.getDerived g modifier current) base

end Candidate

end ServerEngine

import ServerEngine.Library.Programs
import ServerEngine.Persistence.StoreVolume

/-! # Commit and the collection of garbage

`baseline_store::commit` and `collect_garbage` as programs over the operations of the store. The
artifacts of a sparse generation are written at the same time, and so are the sections of each.
-/
namespace ServerEngine
open Programs

/-! ## Programs -/

abbrev StoreProg : Type → Type 1 := Prog StoreOp StoreAnswer (Except StatusCode Unit)

def ask (op : StoreOp) : StoreProg (StoreAnswer op) := Prog.perform op

abbrev StoreM := ExceptT StatusCode StoreProg

namespace StoreM
variable {α : Type}

/-- Memory, or `not_available`. -/
def allocate (point : AllocationPoint) : StoreM Unit := do
  let spare : Bool ← ask (.allocate point)
  if spare then pure () else throw .notAvailable

def createRoot : StoreM Unit := ExceptT.mk (ask .createRoot)

def createDirectory (path : StorePath) : StoreM Bool :=
  ExceptT.mk (ask (.createDirectory path))

def present (path : StorePath) : StoreM Bool := ExceptT.mk (ask (.present path))

def readFile (path : StorePath) (maximum : Nat) : StoreM Bytes :=
  ExceptT.mk (ask (.readFile path maximum))

def compare (path : StorePath) (bytes : Bytes) : StoreM Bool :=
  ExceptT.mk (ask (.compare path bytes))

def write (path : StorePath) (bytes : Bytes) : StoreM Unit :=
  ExceptT.mk (ask (.write path bytes))

def flush (path : StorePath) : StoreM Unit := ExceptT.mk (ask (.flush path))

def replace (source target : StorePath) : StoreM Unit :=
  ExceptT.mk (ask (.replace source target))

/-- After an error the tree is removed, and the error becomes another one. -/
def cleaning (top : StorePath) (code : StatusCode → StatusCode) (p : StoreM α) : StoreM α :=
  ExceptT.mk do
    let result ← p.run
    match result with
    | .ok value => pure (.ok value)
    | .error error => do
      let _ : Bool ← ask (.removeTree top)
      pure (.error (code error))

def mapError (code : StatusCode → StatusCode) (p : StoreM α) : StoreM α :=
  ExceptT.mk do
    let result ← p.run
    match result with
    | .ok value => pure (.ok value)
    | .error error => pure (.error (code error))

end StoreM

/-- A mapped baseline, as `validate_section_borrow` sees it. -/
structure BaselineOwner where
  transaction : Bytes
  sectioned : SectionedArtifact → Bool
  sections : SectionedArtifact → Nat → Span

/-- `baseline_section_provenance` that is valid. -/
structure SectionProvenance where
  owner : BaselineOwner
  artifact : SectionedArtifact
  sectionIndex : Nat
  bytes : Span

def sectionCount : SectionedArtifact → Nat
  | .sourceManager => sourceManagerFormat.directoryCount
  | .buildCache => buildCacheFormat.directoryCount

def SectionProvenance.validates (proof : SectionProvenance) : Bool :=
  proof.owner.sectioned proof.artifact &&
    decide (proof.sectionIndex < sectionCount proof.artifact) &&
    decide (proof.owner.sections proof.artifact proof.sectionIndex = proof.bytes)

/-- `frozen_baseline_section_provenance` of a valid proof. -/
structure FrozenProvenance where
  baseline : SectionProvenance
  frozen : Span

/-- `valid_for`; an empty span has no data. -/
def FrozenProvenance.validFor (proof : FrozenProvenance) (current : Span) : Bool :=
  decide (proof.frozen.size ≠ 0 ∧ proof.baseline.bytes.size = proof.frozen.size ∧
    current = proof.frozen)

structure CommitProvenance where
  sourceManager : Nat → Option SectionProvenance
  buildCache : Nat → Option FrozenProvenance

/-! ## The sections of an image -/

structure SectionWriter where
  artifact : SectionedArtifact
  format : SectionFormat
  /-- The transaction whose section file is linked without a comparison. -/
  borrow : Nat → StorageSection → Segment → Option Bytes
  /-- Whether a section is compared after a link that has to be rewritten. -/
  rewriteCompares : Bool

def borrowSourceManager (proofs : Nat → Option SectionProvenance) (index : Nat)
    (value : StorageSection) (segment : Segment) : Option Bytes :=
  match proofs index with
  | none => none
  | some proof =>
    if proof.artifact = .sourceManager ∧ proof.sectionIndex = index ∧ proof.validates = true ∧
        segment.extents = [proof.bytes] ∧ proof.bytes.size = value.byteCount then
      some proof.owner.transaction
    else none

def borrowBuildCache (proofs : Nat → Option FrozenProvenance) (index : Nat)
    (value : StorageSection) (segment : Segment) : Option Bytes :=
  match proofs index with
  | none => none
  | some proof =>
    if (segment.isContiguous && proof.validFor segment.contiguous) = true ∧
        proof.baseline.artifact = .buildCache ∧ proof.baseline.sectionIndex = index ∧
        proof.baseline.validates = true ∧ proof.baseline.bytes.size = value.byteCount then
      some proof.baseline.owner.transaction
    else none

def sourceManagerWriter (provenance : CommitProvenance) : SectionWriter :=
  ⟨.sourceManager, sourceManagerFormat, borrowSourceManager provenance.sourceManager, true⟩

def buildCacheWriter (provenance : CommitProvenance) : SectionWriter :=
  ⟨.buildCache, buildCacheFormat, borrowBuildCache provenance.buildCache, false⟩

section Writers
variable (memory : Memory) (writer : SectionWriter) (transaction : Bytes)
  (previous : Option Bytes)

def linkSection (source : Bytes) (index : Nat) : StoreM Bool := do
  let outcome : LinkOutcome ← ask (.link (.sectionFile source writer.artifact index)
    (.sectionFile transaction writer.artifact index))
  match outcome with
  | .linked => pure true
  | .rewrite => pure false
  | .fail => throw .ioFailed

/-- A section with the previous one's record size, count, size and checksum is compared with the
file and linked. -/
def compareSection (sections : List StorageSection) (index : Nat) (value : StorageSection)
    (segment : Segment) (source : Bytes) : StoreM Bool :=
  match sections[index]? with
  | none => pure false
  | some old =>
    if old.recordSize = value.recordSize ∧ old.count = value.count ∧
        old.byteCount = value.byteCount ∧ old.crc64 = value.crc64 then do
      let same ← StoreM.mapError (fun code => if code = .notFound then .artifactCorrupt else code)
        (StoreM.compare (.sectionFile source writer.artifact index) (segment.bytes memory))
      if same then linkSection writer transaction source index else pure false
    else pure false

def reuseSection (previousSections : Option (List StorageSection)) (index : Nat)
    (value : StorageSection) (segment : Segment) : StoreM Bool := do
  match writer.borrow index value segment with
  | some owner =>
    let reused ← linkSection writer transaction owner index
    if reused ∨ writer.rewriteCompares = false then pure reused
    else
      match previous, previousSections with
      | some source, some sections =>
        compareSection memory writer transaction sections index value segment source
      | _, _ => pure false
  | none =>
    match previous, previousSections with
    | some source, some sections =>
      compareSection memory writer transaction sections index value segment source
    | _, _ => pure false

def pendingSections (image : Segment) (previousSections : Option (List StorageSection)) :
    List StorageSection → Nat → StoreM (List (Nat × Segment))
  | [], _ => pure []
  | value :: rest, index =>
    match sliceGenerationSegment image value.offset value.byteCount with
    | none => throw .notAvailable
    | some segment => do
      let reused ← reuseSection memory writer transaction previous previousSections index value
        segment
      let later ← pendingSections image previousSections rest (index + 1)
      pure (if reused then later else (index, segment) :: later)

def readPreviousPrefix : StoreM (Option (List StorageSection)) :=
  match previous with
  | none => pure none
  | some source => do
    let bytes ← StoreM.mapError (fun code => if code = .notFound then .artifactCorrupt else code)
      (StoreM.readFile (.sectionPrefix source writer.artifact) writer.format.prefixSize)
    match parsePrefix writer.format bytes (readU64 bytes 40) with
    | none => throw .artifactCorrupt
    | some sections => pure (some sections)

def firstError {n : Nat} (results : Fin n → Except StatusCode Unit) : Except StatusCode Unit :=
  (List.ofFn results).foldlM (fun _ result => result) ()

def writePending (prefixBytes : Bytes) (pending : List (Nat × Segment)) : StoreM Unit :=
  ExceptT.mk do
    let results ← Prog.together fun task : Fin (pending.length + 1) =>
      Fin.cases
        (StoreM.write (.sectionPrefix transaction writer.artifact) prefixBytes).run
        (fun k => (StoreM.write (.sectionFile transaction writer.artifact (pending.get k).1)
          ((pending.get k).2.bytes memory)).run) task
    pure (firstError results)

def writeSections (image : Segment) (prefixBytes : Bytes) (sections : List StorageSection) :
    StoreM Unit := do
  let previousSections ← readPreviousPrefix writer previous
  let pending ← pendingSections memory writer transaction previous image previousSections sections 0
  writePending memory writer transaction prefixBytes pending
  StoreM.flush (.directory transaction writer.artifact)

/-- `durable_write_sectioned_source_manager` and `durable_write_sectioned_build_cache`. -/
def durableWriteSectioned (image : Segment) : StoreM Unit :=
  if image.size < writer.format.prefixSize then throw .notAvailable
  else
    match copySegmentPrefix memory image writer.format.prefixSize with
    | none => throw .notAvailable
    | some prefixBytes =>
      match parsePrefix writer.format prefixBytes image.size with
      | none => throw .notAvailable
      | some sections => do
        let created ← StoreM.createDirectory (.directory transaction writer.artifact)
        if created then
          StoreM.cleaning (.directory transaction writer.artifact) id
            (writeSections memory writer transaction previous image prefixBytes sections)
        else throw .persistenceFailed

/-- Where the sectioned form is structurally inapplicable the artifact is written whole. -/
def writeArtifact (image : Segment) : StoreM Unit :=
  ExceptT.mk do
    let result ← (durableWriteSectioned memory writer transaction previous image).run
    match result with
    | .error .notAvailable => do
      let _ : Bool ← ask (.removeTree (.directory transaction writer.artifact))
      (StoreM.write (.file transaction writer.artifact.file) (image.bytes memory)).run
    | result => pure result

end Writers

/-! ## commit -/

structure GenerationSegments where
  compiled : Segment
  sources : Segment
  change : Segment
  build : Segment

structure CommitInput where
  fingerprint : BaselineFingerprint
  configuration : StoredConfiguration
  generation : GenerationSegments
  provenance : CommitProvenance

/-- The transactions before, where their artifacts are sectioned. -/
structure PreviousSections where
  sourceManager : Option Bytes
  buildCache : Option Bytes

section Commit
variable (memory : Memory) (input : CommitInput)

def readCurrentTransaction : StoreM Bytes := do
  let bytes ← StoreM.readFile .current currentSelectorMaximumSize
  match readCurrentSelector bytes with
  | .ok selection => pure selection.transaction
  | .error code => throw code

/-- Which artifacts of the selected transaction are sectioned; an unreadable CURRENT has none. -/
def previousSections : StoreM PreviousSections :=
  ExceptT.mk do
    let result ← readCurrentTransaction.run
    match result with
    | .error _ => pure (.ok ⟨none, none⟩)
    | .ok previous => ExceptT.run (m := StoreProg) do
      StoreM.allocate .paths
      let sources ← StoreM.present (.sectionPrefix previous .sourceManager)
      let build ← StoreM.present (.sectionPrefix previous .buildCache)
      pure ⟨if sources then some previous else none, if build then some previous else none⟩

def createTransaction : Nat → StoreM Bytes
  | 0 => throw .persistenceFailed
  | attempts + 1 => do
    StoreM.allocate .transaction
    let name : Bytes ← ask .candidate
    let created ← StoreM.createDirectory (.transaction name)
    if created then pure name else createTransaction attempts

def artifactTask (transaction : Bytes) (manifest : Bytes) (previous : PreviousSections) :
    ArtifactFile → StoreM Unit
  | .compiled =>
    StoreM.write (.file transaction .compiled) (input.generation.compiled.bytes memory)
  | .sourceManager =>
    if input.generation.sources.isContiguous then
      StoreM.write (.file transaction .sourceManager) (input.generation.sources.bytes memory)
    else
      writeArtifact memory (sourceManagerWriter input.provenance) transaction
        previous.sourceManager input.generation.sources
  | .buildCache =>
    writeArtifact memory (buildCacheWriter input.provenance) transaction previous.buildCache
      input.generation.build
  | .changeState =>
    StoreM.write (.file transaction .changeState) (input.generation.change.bytes memory)
  | .manifest => StoreM.write (.file transaction .manifest) manifest

def artifactOfTask : Fin 5 → ArtifactFile
  | 0 => .compiled
  | 1 => .sourceManager
  | 2 => .buildCache
  | 3 => .changeState
  | 4 => .manifest

def writeParallel (transaction : Bytes) (manifest : Bytes) (previous : PreviousSections) :
    StoreM Unit :=
  StoreM.cleaning (.transaction transaction) (fun _ => .persistenceFailed) <| ExceptT.mk do
    let results ← Prog.together fun task : Fin 5 =>
      (artifactTask memory input transaction manifest previous (artifactOfTask task)).run
    pure (firstError results)

def writeWhole (transaction : Bytes) (artifact : ArtifactFile) (bytes : Bytes) : StoreM Unit := do
  StoreM.allocate .artifacts
  StoreM.cleaning (.transaction transaction) (fun _ => .persistenceFailed)
    (StoreM.write (.file transaction artifact) bytes)

def writeSequential (transaction : Bytes) (manifest : Bytes) : StoreM Unit := do
  writeWhole transaction .compiled (input.generation.compiled.bytes memory)
  writeWhole transaction .sourceManager (input.generation.sources.bytes memory)
  if input.generation.change.size ≠ 0 then
    writeWhole transaction .changeState (input.generation.change.bytes memory)
  else pure ()
  writeWhole transaction .buildCache (input.generation.build.bytes memory)
  writeWhole transaction .manifest manifest

def parallelBuildState : Bool :=
  decide (input.generation.change.size ≠ 0) && decide (input.generation.sources.size ≠ 0) &&
    decide (input.generation.build.size ≠ 0)

def writeArtifacts (transaction : Bytes) (manifest : Bytes) (previous : PreviousSections) :
    StoreM Unit :=
  if parallelBuildState input then writeParallel memory input transaction manifest previous
  else writeSequential memory input transaction manifest

def commitManifest (transaction : Bytes) : Except StatusCode Bytes :=
  createManifest input.fingerprint input.configuration transaction input.generation.compiled.size
    input.generation.sources.size input.generation.build.size

/-- CURRENT is written beside the old one and takes its place. -/
def publishSelector (transaction selector : Bytes) : StoreM Unit := do
  StoreM.allocate .selectorPath
  let number : Nat ← ask .selectorNumber
  StoreM.cleaning (.transaction transaction) (fun _ => .persistenceFailed) do
    StoreM.write (.selectorTemp number) selector
    ExceptT.mk do
      let result ← (StoreM.replace (.selectorTemp number) .current).run
      match result with
      | .ok _ => pure (.ok ())
      | .error code => do
        let _ : Unit ← ask (.removeFile (.selectorTemp number))
        pure (.error code)

/-- The steps of `commit` in the directory of the transaction. -/
def commitTransaction (previous : PreviousSections) (transaction : Bytes) : StoreM Bytes := do
  let manifest ← StoreM.cleaning (.transaction transaction) id
    (ExceptT.mk (pure (commitManifest input transaction)))
  writeArtifacts memory input transaction manifest previous
  StoreM.cleaning (.transaction transaction) (fun _ => .persistenceFailed) do
    StoreM.flush (.transaction transaction)
    StoreM.flush .root
  let selector ← StoreM.cleaning (.transaction transaction) id do
    StoreM.allocate .selector
    ExceptT.mk (pure (createCurrentSelector transaction manifest
      (input.generation.change.bytes memory)))
  publishSelector transaction selector
  -- The replacement is the commit point; the flush after it is no reason to fail.
  let _ : (Except StatusCode Unit) ← ask (.flush .root)
  StoreM.allocate .result
  pure transaction

/-- `baseline_store::commit`, with the name of the transaction. -/
def commit : StoreM Bytes :=
  if input.generation.change.size ≠ 0 ∧ input.generation.change.isContiguous = false then
    throw .invalidArgument
  else do
    StoreM.allocate .paths
    StoreM.createRoot
    let previous ← previousSections
    let transaction ← createTransaction 1024
    commitTransaction memory input previous transaction

end Commit

/-- A directory of the root is removed unless it is selected or pinned. -/
def collectOne (current pinned name : Bytes) : StoreM Unit := do
  StoreM.allocate .paths
  if validTransactionName name = false ∨ name = current ∨ name = pinned then pure ()
  else do
    let directory ← (ExceptT.mk (ask (.isDirectory (.transaction name))) : StoreM Bool)
    if directory then do
      let removed : Bool ← ask (.removeTree (.transaction name))
      if removed then pure () else throw .ioFailed
    else pure ()

def collectAll (current pinned : Bytes) : List Bytes → StoreM Unit
  | [] => pure ()
  | name :: rest => do
    collectOne current pinned name
    collectAll current pinned rest

def currentOrNone : StoreM Bytes :=
  ExceptT.mk do
    let result ← readCurrentTransaction.run
    match result with
    | .error .notFound => pure (.ok [])
    | result => pure result

def collectGarbage (pinned : Bytes) : StoreM Unit :=
  if pinned ≠ [] ∧ validTransactionName pinned = false then throw .invalidArgument
  else do
    StoreM.allocate .paths
    let there ← StoreM.present .root
    if there then do
      let current ← currentOrNone
      let names ← (ExceptT.mk (ask .list) : StoreM (List Bytes))
      collectAll current pinned names
    else pure ()

end ServerEngine

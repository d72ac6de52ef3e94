import ServerEngine.Persistence.Segments

/-! # The files of a store

What lies under the root of a store, with hard links, and what the operations on it may come to.
A file is flushed when its write has succeeded; a crash loses what is not.
-/
namespace ServerEngine

/-! ## Paths -/

inductive SectionedArtifact
  | sourceManager
  | buildCache
  deriving DecidableEq

inductive ArtifactFile
  | compiled
  | sourceManager
  | buildCache
  | changeState
  | manifest
  deriving DecidableEq

def SectionedArtifact.file : SectionedArtifact → ArtifactFile
  | .sourceManager => .sourceManager
  | .buildCache => .buildCache

inductive StorePath
  | root
  /-- `CURRENT`. -/
  | current
  /-- `CURRENT.tmp-`, the process and a counter. -/
  | selectorTemp (number : Nat)
  | transaction (name : Bytes)
  | file (transaction : Bytes) (artifact : ArtifactFile)
  | directory (transaction : Bytes) (artifact : SectionedArtifact)
  /-- `prefix.bin`. -/
  | sectionPrefix (transaction : Bytes) (artifact : SectionedArtifact)
  /-- `section-` and its number. -/
  | sectionFile (transaction : Bytes) (artifact : SectionedArtifact) (index : Nat)
  deriving DecidableEq

namespace StorePath

def lineage : StorePath → List StorePath
  | .root => [.root]
  | .current => [.current, .root]
  | .selectorTemp number => [.selectorTemp number, .root]
  | .transaction name => [.transaction name, .root]
  | .file name artifact => [.file name artifact, .transaction name, .root]
  | .directory name artifact => [.directory name artifact, .transaction name, .root]
  | .sectionPrefix name artifact =>
    [.sectionPrefix name artifact, .directory name artifact, .transaction name, .root]
  | .sectionFile name artifact index =>
    [.sectionFile name artifact index, .directory name artifact, .transaction name, .root]

def parent (path : StorePath) : Option StorePath := path.lineage[1]?

def inside : StorePath → Option Bytes
  | .transaction name => some name
  | .file name _ => some name
  | .directory name _ => some name
  | .sectionPrefix name _ => some name
  | .sectionFile name _ _ => some name
  | _ => none

def artifact : StorePath → Option (Bytes × ArtifactFile)
  | .file name artifact => some (name, artifact)
  | .directory name artifact => some (name, artifact.file)
  | .sectionPrefix name artifact => some (name, artifact.file)
  | .sectionFile name artifact _ => some (name, artifact.file)
  | _ => none

def isTemp : StorePath → Bool
  | .selectorTemp _ => true
  | _ => false

end StorePath

structure FileNode where
  content : Bytes
  flushed : Bool

inductive StoreEntry
  | directory
  | file (id : Nat)
  deriving DecidableEq

/-- The entries of the directories; hard links are entries of one file. -/
structure StoreVolume where
  entries : StorePath → Option StoreEntry
  nodes : Nat → FileNode
  next : Nat

namespace StoreVolume

def read (v : StoreVolume) (path : StorePath) : Option FileNode :=
  match v.entries path with
  | some (.file id) => some (v.nodes id)
  | _ => none

def enter (v : StoreVolume) (path : StorePath) (entry : Option StoreEntry) : StoreVolume :=
  { v with entries := Function.update v.entries path entry }

def store (v : StoreVolume) (path : StorePath) (node : FileNode) : StoreVolume :=
  match v.entries path with
  | some (.file id) => { v with nodes := Function.update v.nodes id node }
  | _ =>
    { entries := Function.update v.entries path (some (.file v.next))
      nodes := Function.update v.nodes v.next node
      next := v.next + 1 }

def HasParent (v : StoreVolume) (path : StorePath) : Prop :=
  ∀ parent, path.parent = some parent → v.entries parent = some .directory

def removeTree (v : StoreVolume) (top : StorePath) : StoreVolume :=
  { v with entries := fun path => if top ∈ path.lineage then none else v.entries path }

structure PartlyRemoved (v : StoreVolume) (top : StorePath) (v' : StoreVolume) : Prop where
  nodes : v'.nodes = v.nodes
  next : v'.next = v.next
  entries : ∀ path, v'.entries path = v.entries path ∨
    (top ∈ path.lineage ∧ v'.entries path = none)
  parents : ∀ path, v'.entries path ≠ none → v'.HasParent path

/-- What a crash leaves: every flushed file and every completed rename. -/
structure Crashed (v v' : StoreVolume) : Prop where
  next : v'.next = v.next
  nodes : ∀ id, v'.nodes id = v.nodes id ∨
    ((v.nodes id).flushed = false ∧ (v'.nodes id).flushed = false)
  entries : ∀ path, v'.entries path = v.entries path ∨
    (v'.entries path = none ∧ ∀ node, v.read path = some node → node.flushed = false)
  parents : ∀ path, v'.entries path ≠ none → v'.HasParent path

def blank : StoreVolume := ⟨fun _ => none, fun _ => ⟨[], false⟩, 0⟩

end StoreVolume

/-! ## Operations -/

/-- Where a commit or a collection may run out of memory and report it. -/
inductive AllocationPoint
  | paths
  | transaction
  | artifacts
  | selector
  | selectorPath
  /-- The name of the committed transaction in the result. -/
  | result

inductive LinkOutcome
  | linked
  /-- `hard_link_failure_action::rewrite`. -/
  | rewrite
  /-- `hard_link_failure_action::fail`. -/
  | fail
  deriving DecidableEq

inductive StoreOp
  | allocate (point : AllocationPoint)
  /-- `create_directories` of the root. -/
  | createRoot
  /-- `transaction_name_candidate`. -/
  | candidate
  /-- The number in the name of a temporary selector. -/
  | selectorNumber
  /-- `create_directory`: whether it is new. -/
  | createDirectory (path : StorePath)
  | present (path : StorePath)
  /-- `read_small_file`. -/
  | readFile (path : StorePath) (maximum : Nat)
  /-- `exact_file_equals_segment`. -/
  | compare (path : StorePath) (bytes : Bytes)
  | link (source target : StorePath)
  /-- `durable_write_file`. -/
  | write (path : StorePath) (bytes : Bytes)
  /-- `flush_directory`. -/
  | flush (path : StorePath)
  | removeTree (path : StorePath)
  | removeFile (path : StorePath)
  /-- `atomic_replace`. -/
  | replace (source target : StorePath)
  /-- The names in the root that are directories of transactions. -/
  | list
  | isDirectory (path : StorePath)

def StoreAnswer : StoreOp → Type
  | .allocate _ => Bool
  | .createRoot => Except StatusCode Unit
  | .candidate => Bytes
  | .selectorNumber => Nat
  | .createDirectory _ => Except StatusCode Bool
  | .present _ => Except StatusCode Bool
  | .readFile _ _ => Except StatusCode Bytes
  | .compare _ _ => Except StatusCode Bool
  | .link _ _ => LinkOutcome
  | .write _ _ => Except StatusCode Unit
  | .flush _ => Except StatusCode Unit
  | .removeTree _ => Bool
  | .removeFile _ => Unit
  | .replace _ _ => Except StatusCode Unit
  | .list => Except StatusCode (List Bytes)
  | .isDirectory _ => Except StatusCode Bool

/-- What an operation may come to. Each may fail; a failed write leaves anything at its path, and a
failed removal a part of the tree. -/
inductive StoreExec : StoreVolume → (op : StoreOp) → StoreAnswer op → StoreVolume → Prop
  | allocate (v : StoreVolume) (point : AllocationPoint) (answer : Bool) :
    StoreExec v (.allocate point) answer v
  | rootMade {v : StoreVolume} (h : v.entries .root = none) :
    StoreExec v .createRoot (.ok ()) (v.enter .root (some .directory))
  | rootThere {v : StoreVolume} (h : v.entries .root = some .directory) :
    StoreExec v .createRoot (.ok ()) v
  | rootFailed (v : StoreVolume) : StoreExec v .createRoot (.error .persistenceFailed) v
  | candidate (v : StoreVolume) {name : Bytes} (h : validTransactionName name = true) :
    StoreExec v .candidate name v
  | selectorNumber (v : StoreVolume) (number : Nat) : StoreExec v .selectorNumber number v
  | directoryMade {v : StoreVolume} {path : StorePath} (h : v.entries path = none)
    (hparent : v.HasParent path) :
    StoreExec v (.createDirectory path) (.ok true) (v.enter path (some .directory))
  | directoryThere {v : StoreVolume} {path : StorePath}
    (h : v.entries path = some .directory) : StoreExec v (.createDirectory path) (.ok false) v
  | directoryFailed (v : StoreVolume) (path : StorePath) :
    StoreExec v (.createDirectory path) (.error .persistenceFailed) v
  | present (v : StoreVolume) (path : StorePath) :
    StoreExec v (.present path) (.ok (v.entries path).isSome) v
  | presentFailed (v : StoreVolume) (path : StorePath) :
    StoreExec v (.present path) (.error .ioFailed) v
  | fileRead {v : StoreVolume} {path : StorePath} {maximum : Nat} {node : FileNode}
    (h : v.read path = some node) (hsize : node.content.length ≤ maximum) :
    StoreExec v (.readFile path maximum) (.ok node.content) v
  | fileLarge {v : StoreVolume} {path : StorePath} {maximum : Nat} {node : FileNode}
    (h : v.read path = some node) (hsize : maximum < node.content.length) :
    StoreExec v (.readFile path maximum) (.error .artifactCorrupt) v
  | fileMissing {v : StoreVolume} {path : StorePath} {maximum : Nat}
    (h : v.entries path = none) : StoreExec v (.readFile path maximum) (.error .notFound) v
  | readFailed (v : StoreVolume) (path : StorePath) (maximum : Nat) {code : StatusCode}
    (h : code = .ioFailed ∨ code = .notAvailable) :
    StoreExec v (.readFile path maximum) (.error code) v
  | compared {v : StoreVolume} {path : StorePath} {bytes : Bytes} {node : FileNode}
    (h : v.read path = some node) :
    StoreExec v (.compare path bytes) (.ok (node.content == bytes)) v
  | compareMissing {v : StoreVolume} {path : StorePath} {bytes : Bytes}
    (h : v.entries path = none) : StoreExec v (.compare path bytes) (.error .notFound) v
  | compareFailed (v : StoreVolume) (path : StorePath) (bytes : Bytes) :
    StoreExec v (.compare path bytes) (.error .ioFailed) v
  | linked {v : StoreVolume} {source target : StorePath} {id : Nat}
    (h : v.entries source = some (.file id)) (htarget : v.entries target = none)
    (hparent : v.HasParent target) :
    StoreExec v (.link source target) .linked (v.enter target (some (.file id)))
  | notLinked (v : StoreVolume) (source target : StorePath) {outcome : LinkOutcome}
    (h : outcome ≠ .linked) : StoreExec v (.link source target) outcome v
  | written {v : StoreVolume} {path : StorePath} {bytes : Bytes}
    (h : v.entries path ≠ some .directory) (hparent : v.HasParent path) :
    StoreExec v (.write path bytes) (.ok ()) (v.store path ⟨bytes, true⟩)
  | partlyWritten {v : StoreVolume} {path : StorePath} {bytes : Bytes} (content : Bytes)
    (h : v.entries path ≠ some .directory) (hparent : v.HasParent path) :
    StoreExec v (.write path bytes) (.error .ioFailed) (v.store path ⟨content, false⟩)
  | notWritten (v : StoreVolume) (path : StorePath) (bytes : Bytes) :
    StoreExec v (.write path bytes) (.error .ioFailed) v
  | flushed (v : StoreVolume) (path : StorePath) : StoreExec v (.flush path) (.ok ()) v
  | notFlushed (v : StoreVolume) (path : StorePath) :
    StoreExec v (.flush path) (.error .ioFailed) v
  | removed (v : StoreVolume) (path : StorePath) :
    StoreExec v (.removeTree path) true (v.removeTree path)
  | partlyRemoved {v v' : StoreVolume} {path : StorePath} (h : v.PartlyRemoved path v') :
    StoreExec v (.removeTree path) false v'
  | fileRemoved {v : StoreVolume} {path : StorePath} {id : Nat}
    (h : v.entries path = some (.file id)) :
    StoreExec v (.removeFile path) () (v.enter path none)
  | fileKept (v : StoreVolume) (path : StorePath) : StoreExec v (.removeFile path) () v
  | replaced {v : StoreVolume} {source target : StorePath} {id : Nat}
    (h : v.entries source = some (.file id)) (htarget : v.entries target ≠ some .directory)
    (hparent : v.HasParent target) :
    StoreExec v (.replace source target) (.ok ())
      ((v.enter source none).enter target (some (.file id)))
  | notReplaced (v : StoreVolume) (source target : StorePath) :
    StoreExec v (.replace source target) (.error .ioFailed) v
  | listed {v : StoreVolume} {names : List Bytes}
    (h : ∀ name, name ∈ names ↔ v.entries (.transaction name) ≠ none) :
    StoreExec v .list (.ok names) v
  | listFailed (v : StoreVolume) : StoreExec v .list (.error .ioFailed) v
  | isDirectory (v : StoreVolume) (path : StorePath) :
    StoreExec v (.isDirectory path) (.ok (v.entries path == some .directory)) v
  | isDirectoryFailed (v : StoreVolume) (path : StorePath) :
    StoreExec v (.isDirectory path) (.error .ioFailed) v

end ServerEngine

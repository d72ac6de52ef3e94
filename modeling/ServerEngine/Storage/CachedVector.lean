import ServerEngine.Core.Hash
import ServerEngine.Core.Status
import ServerEngine.Library.ProbedTable

/-! # Vectors with their caches

`mapped_vector` with all it holds: the reader of the baseline, the caches of decoded records and
ranges, and the local tail. `none` is a call that does not return: a probe without an end, or an
exception.
-/
namespace ServerEngine
open ProbedTable Slice

/-! ## State -/

/-- `index_slot`: a baseline index plus one, and a position in the element cache plus one. -/
structure ElementSlot where
  key : Nat := 0
  position : Nat := 0

def elementFormat : Format ElementSlot Nat where
  empty := {}
  free slot := slot.key == 0
  key slot := slot.key
  hash := mix64

structure RangeBlock (α : Type) where
  begin : Nat
  count : Nat
  values : List α

/-- `mapped_vector<T>`; `reader` is the function with its context. -/
structure CachedVector (α : Type) where
  baselineCount : Nat := 0
  reader : Option (Nat → Except StatusCode α) := none
  readFailure : Option StatusCode := none
  elementCache : List (Nat × α) := []
  elementIndex : List ElementSlot := []
  rangeCache : List (RangeBlock α) := []
  localValues : List α := []

/-- What `operator[]` refers to; `failure` is `failure_value`. -/
inductive ElementRef
  | localElement (index : Nat)
  | cached (position : Nat)
  | failure

namespace CachedVector

variable {α : Type}

/-! ## The element cache -/

def bindBaseline (count : Nat) (reader : Nat → Except StatusCode α) : CachedVector α :=
  { baselineCount := count, reader := some reader }

def baselineBacked (v : CachedVector α) : Bool := v.baselineCount ≠ 0 || v.reader.isSome

def size (v : CachedVector α) : Nat := v.baselineCount + v.localValues.length

def readBaseline (v : CachedVector α) (index : Nat) : Except StatusCode α :=
  match v.reader with
  | some reader => reader index
  | none => .error .invalidState

/-- The position in the cache that `find_element` finds. -/
def findPosition (v : CachedVector α) (index : Nat) : Option Nat :=
  if v.elementIndex.isEmpty then none
  else match find elementFormat v.elementIndex (index + 1) with
    | none => none
    | some slot => if slot.position - 1 < v.elementCache.length then some (slot.position - 1) else none

def findElement (v : CachedVector α) (index : Nat) : Option α :=
  match v.findPosition index with
  | none => none
  | some position => v.elementCache[position]?.map (·.2)

def elementSlots (indices : List Nat) : List ElementSlot :=
  indices.zipIdx.map fun (index, position) => ⟨index + 1, position + 1⟩

def ensureElementIndex (v : CachedVector α) : Option (CachedVector α) :=
  if !v.elementIndex.isEmpty && (v.elementCache.length + 1) * 2 < v.elementIndex.length then some v
  else
    let required := v.elementCache.length + 1
    let capacity := bitCeil (if required * 2 < 8 then 8 else required * 2)
    ((elementSlots (v.elementCache.map (·.1))).foldlM (insertFree elementFormat)
      (List.replicate capacity elementFormat.empty)).map fun slots => { v with elementIndex := slots }

def noteFailure (v : CachedVector α) (code : StatusCode) : CachedVector α :=
  { v with readFailure := v.readFailure.or (some code) }

def materializeElement (v : CachedVector α) (index : Nat) : Option (CachedVector α × ElementRef) :=
  match v.findPosition index with
  | some position => some (v, .cached position)
  | none =>
    match v.ensureElementIndex with
    | none => none
    | some v =>
      match v.readBaseline index with
      | .error code => some (v.noteFailure code, .failure)
      | .ok value =>
        let position := v.elementCache.length
        (insertFree elementFormat v.elementIndex ⟨index + 1, position + 1⟩).map fun slots =>
          ({ v with elementCache := v.elementCache ++ [(index, value)], elementIndex := slots },
            .cached position)

def deref [Inhabited α] (v : CachedVector α) : ElementRef → α
  | .localElement index => v.localValues.getD index default
  | .cached position => (v.elementCache[position]?.map (·.2)).getD default
  | .failure => default

def store (v : CachedVector α) (value : α) : ElementRef → CachedVector α
  | .localElement index => { v with localValues := v.localValues.set index value }
  | .cached position =>
    { v with elementCache := v.elementCache.modify position fun e => (e.1, value) }
  | .failure => v

/-- `operator[] const`. -/
def subscript (v : CachedVector α) (index : Nat) : Option (CachedVector α × ElementRef) :=
  if v.baselineCount ≤ index then some (v, .localElement (index - v.baselineCount))
  else v.materializeElement index

def invalidateRangesContaining (v : CachedVector α) (index : Nat) : CachedVector α :=
  { v with rangeCache := v.rangeCache.filter fun range =>
      !(decide (range.begin ≤ index) && decide (index - range.begin < range.count)) }

/-- `operator[]`, and an assignment through the reference. -/
def assign (v : CachedVector α) (index : Nat) (value : α) : Option (CachedVector α) :=
  if v.baselineCount ≤ index then some (v.store value (.localElement (index - v.baselineCount)))
  else ((v.invalidateRangesContaining index).materializeElement index).map fun (v, ref) =>
    v.store value ref

def decodeElement (v : CachedVector α) (index : Nat) : Except StatusCode α :=
  match v.findElement index with
  | some value => .ok value
  | none => v.readBaseline index

def read [Inhabited α] (v : CachedVector α) (index : Nat) : Except StatusCode α :=
  if v.size ≤ index then .error .notFound
  else if v.baselineCount ≤ index then .ok (v.localValues.getD (index - v.baselineCount) default)
  else v.decodeElement index

def materialized (v : CachedVector α) (index : Nat) : Option α :=
  if v.size ≤ index then none
  else if v.baselineCount ≤ index then v.localValues[index - v.baselineCount]?
  else v.findElement index

def readRange (v : CachedVector α) (begin count : Nat) : Except StatusCode (List α) :=
  (List.range count).mapM fun offset => v.decodeElement (begin + offset)

def span (v : CachedVector α) (begin count : Nat) : CachedVector α × List α :=
  if count = 0 then (v, [])
  else if v.size < begin || v.size - begin < count then (v, [])
  else if v.baselineCount ≤ begin then (v, slice v.localValues (begin - v.baselineCount) count)
  else if v.baselineCount < begin + count then (v, [])
  else match v.rangeCache.find? fun range => range.begin == begin && range.count == count with
    | some range => (v, range.values)
    | none => match v.readRange begin count with
      | .error code => (v.noteFailure code, [])
      | .ok values => ({ v with rangeCache := v.rangeCache ++ [⟨begin, count, values⟩] }, values)

/-- One round of the loop of `copy_all`. -/
def copyElement [Inhabited α] (state : CachedVector α × List α) (index : Nat) :
    Option (CachedVector α × List α) :=
  (state.1.materializeElement index).map fun (v, ref) => (v, state.2 ++ [v.deref ref])

/-- `copy_all`: the status, where `none` is success, and the values. -/
def copyAll [Inhabited α] (v : CachedVector α) :
    Option (CachedVector α × Option StatusCode × List α) :=
  ((List.range v.baselineCount).foldlM copyElement (v, [])).map fun (v, output) =>
    (v, v.readFailure, output ++ v.localValues)

def pushBack (v : CachedVector α) (value : α) : CachedVector α :=
  { v with localValues := v.localValues ++ [value] }

def resized [Inhabited α] (values : List α) (count : Nat) : List α :=
  values.take count ++ List.replicate (count - values.length) default

/-- `resize`; a size below the baseline is an exception. -/
def resize [Inhabited α] (v : CachedVector α) (requested : Nat) : Option (CachedVector α) :=
  if !v.baselineBacked then some { v with localValues := resized v.localValues requested }
  else if requested < v.baselineCount then none
  else some { v with localValues := resized v.localValues (requested - v.baselineCount) }

/-- `swap` with a plain vector: the container, which leaves its baseline, and the plain vector. -/
def swapLocal (v : CachedVector α) (values : List α) : CachedVector α × List α :=
  ({ localValues := values }, v.localValues)

end CachedVector

/-- The calls on a family of vectors, each after the vectors they are made on. -/
inductive VectorCall (α : Type)
  | bindBaseline (name count : Nat) (reader : Nat → Except StatusCode α)
  | pushBack (name : Nat) (value : α)
  | assign (name index : Nat) (value : α)
  | subscript (name index : Nat)
  | read (name index : Nat)
  | materialized (name index : Nat)
  | span (name begin count : Nat)
  | copyAll (name : Nat)
  | resize (name requested : Nat)
  | swap (name other : Nat)
  | swapLocal (name : Nat) (values : List α)

inductive VectorResult (α : Type)
  | unit
  | value (value : α)
  | read (result : Except StatusCode α)
  | materialized (value : Option α)
  | span (values : List α)
  | copied (failure : Option StatusCode) (values : List α)
  | swapped (values : List α)

abbrev Vectors (α : Type) := Nat → CachedVector α

namespace Vectors

variable {α : Type} [Inhabited α]

def put (vectors : Vectors α) (name : Nat) (v : CachedVector α) : Vectors α :=
  fun other => if other = name then v else vectors other

def call (vectors : Vectors α) : VectorCall α → Option (Vectors α × VectorResult α)
  | .bindBaseline name count reader =>
    some (vectors.put name (.bindBaseline count reader), .unit)
  | .pushBack name value => some (vectors.put name ((vectors name).pushBack value), .unit)
  | .assign name index value =>
    ((vectors name).assign index value).map fun v => (vectors.put name v, .unit)
  | .subscript name index =>
    ((vectors name).subscript index).map fun (v, ref) => (vectors.put name v, .value (v.deref ref))
  | .read name index => some (vectors, .read ((vectors name).read index))
  | .materialized name index => some (vectors, .materialized ((vectors name).materialized index))
  | .span name begin count =>
    let (v, values) := (vectors name).span begin count
    some (vectors.put name v, .span values)
  | .copyAll name => (vectors name).copyAll.map fun (v, failure, values) =>
      (vectors.put name v, .copied failure values)
  | .resize name requested =>
    ((vectors name).resize requested).map fun v => (vectors.put name v, .unit)
  | .swap name other =>
    some ((vectors.put name (vectors other)).put other (vectors name), .unit)
  | .swapLocal name values =>
    let (v, values) := (vectors name).swapLocal values
    some (vectors.put name v, .swapped values)

def run (vectors : Vectors α) (calls : List (VectorCall α)) : Option (Vectors α) :=
  calls.foldlM (fun vectors c => (vectors.call c).map (·.1)) vectors

end Vectors

end ServerEngine

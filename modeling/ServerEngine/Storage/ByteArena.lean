import ServerEngine.Core.Status
import ServerEngine.Library.Interleaving

/-! # The byte arena

`byte_arena`: a call reserves its bytes by one addition to the page's counter, whether they fit or
not; when they do not, it brings a new page and tries to publish it. Calls advance by their atomic
steps in any order.
-/
namespace ServerEngine
open Interleaving

namespace ByteArena

/-! ## Arithmetic -/

def sizeCount : Nat := 18446744073709551616

def defaultPageSize : Nat := 64 * 1024

/-- `(value + alignment - 1) & ~(alignment - 1)`. -/
def alignUp (value alignment : Nat) : Nat :=
  ((value + alignment - 1) % sizeCount) &&& (sizeMax - (alignment - 1))

def validAlignment (alignment : Nat) : Bool := alignment ≠ 0 && alignment &&& (alignment - 1) = 0

/-- `byte_arena::page`; `data` is the address of its bytes. -/
structure Page where
  data : Nat
  used : Nat := 0
  capacity : Nat
  nextOwned : Option Nat := none
  deriving DecidableEq

structure Arena where
  currentPage : Option Nat := none
  ownedPages : Option Nat := none
  reservedBytes : Nat := 0
  reservedPages : Nat := 0
  heap : Nat → Option Page := fun _ => none

/-- A block that was given out: its page, its offset there, its address and size. -/
structure Block where
  page : Nat
  offset : Nat
  address : Nat
  size : Nat
  deriving DecidableEq

/-- Where a call stands, before the atomic step it takes next. -/
inductive Point
  /-- `current_page.load()`. -/
  | loadCurrent
  /-- `make_page` without a current page. -/
  | makeFirst
  /-- The exchange of no page for the candidate. -/
  | publishFirst (candidate : Nat)
  /-- `own_page`: `owned_pages.load()`. -/
  | loadHead (candidate : Nat) (first : Bool)
  /-- `own_page`: the link, then the exchange of the head for the candidate. -/
  | pushHead (candidate : Nat) (head : Option Nat) (first : Bool)
  /-- `own_page`: `reserved_bytes.fetch_add`. -/
  | addBytes (candidate : Nat) (first : Bool)
  /-- `own_page`: `reserved_pages.fetch_add`. -/
  | addPage (candidate : Nat) (first : Bool)
  /-- `page_value->used.fetch_add`. -/
  | reserve (page : Nat)
  /-- `make_page` behind an exhausted page. -/
  | makeNext (page : Nat)
  /-- The exchange of the exhausted page for the candidate. -/
  | publishNext (page candidate : Nat)
  | returned (failure : Option StatusCode) (output : Option Block)
  deriving DecidableEq

structure Call where
  size : Nat
  alignment : Nat
  point : Point
  deriving DecidableEq

namespace Call

def reservation (call : Call) : Nat := call.size + call.alignment - 1

/-- `(std::max)(default_page_size, minimum_capacity)`. -/
def pageCapacity (call : Call) : Nat := max defaultPageSize call.reservation

def goto (call : Call) (point : Point) : Call := { call with point := point }

def fail (call : Call) (code : StatusCode) : Call := call.goto (.returned (some code) none)

def start (size alignment : Nat) : Call :=
  if size = 0 || !validAlignment alignment then
    ⟨size, alignment, .returned (some .invalidArgument) none⟩
  else if size > sizeMax - (alignment - 1) then
    ⟨size, alignment, .returned (some .notAvailable) none⟩
  else ⟨size, alignment, .loadCurrent⟩

end Call

/-! ## Steps -/

/-- What the surroundings decide: whether `make_page` gets its memory and where, and whether a weak
exchange fails without a reason. -/
structure Answer where
  page : Option (Nat × Nat) := none
  spurious : Bool := false

namespace Arena

def setPage (m : Arena) (address : Nat) (page : Option Page) : Arena :=
  { m with heap := Function.update m.heap address page }

def bump (m : Arena) (address : Nat) (page : Page) (reservation : Nat) : Arena :=
  m.setPage address (some { page with used := (page.used + reservation) % sizeCount })

end Arena

def carve (call : Call) (address : Nat) (page : Page) : Option Block :=
  if page.used ≤ page.capacity then
    let aligned := alignUp page.used call.alignment
    if aligned ≤ page.capacity ∧ call.size ≤ page.capacity - aligned then
      some ⟨address, aligned, page.data + aligned, call.size⟩
    else none
  else none

/-- One atomic step of a call, with the thread's own work up to the next one. A page that is not
there is never asked for. -/
def next (m : Arena) (call : Call) (answer : Answer) : Arena × Call :=
  match call.point with
  | .loadCurrent =>
    match m.currentPage with
    | none => (m, call.goto .makeFirst)
    | some page => (m, call.goto (.reserve page))
  | .makeFirst =>
    match answer.page with
    | none => (m, call.fail .initializationFailed)
    | some (address, data) =>
      (m.setPage address (some { data := data, capacity := call.pageCapacity }),
        call.goto (.publishFirst address))
  | .publishFirst candidate =>
    if m.currentPage = none then
      ({ m with currentPage := some candidate }, call.goto (.loadHead candidate true))
    else (m.setPage candidate none, call.goto .loadCurrent)
  | .loadHead candidate first => (m, call.goto (.pushHead candidate m.ownedPages first))
  | .pushHead candidate head first =>
    match m.heap candidate with
    | none => (m, call)
    | some page =>
      let linked := m.setPage candidate (some { page with nextOwned := head })
      if m.ownedPages = head ∧ answer.spurious = false then
        ({ linked with ownedPages := some candidate }, call.goto (.addBytes candidate first))
      else (linked, call.goto (.pushHead candidate m.ownedPages first))
  | .addBytes candidate first =>
    match m.heap candidate with
    | none => (m, call)
    | some page =>
      ({ m with reservedBytes := (m.reservedBytes + page.capacity) % sizeCount },
        call.goto (.addPage candidate first))
  | .addPage candidate first =>
    ({ m with reservedPages := (m.reservedPages + 1) % sizeCount },
      call.goto (if first then .reserve candidate else .loadCurrent))
  | .reserve address =>
    match m.heap address with
    | none => (m, call)
    | some page =>
      (m.bump address page call.reservation,
        match carve call address page with
        | some block => call.goto (.returned none (some block))
        | none => call.goto (.makeNext address))
  | .makeNext page =>
    match answer.page with
    | none => (m, call.fail .initializationFailed)
    | some (address, data) =>
      (m.setPage address (some { data := data, capacity := call.pageCapacity }),
        call.goto (.publishNext page address))
  | .publishNext page candidate =>
    if m.currentPage = some page then
      ({ m with currentPage := some candidate }, call.goto (.loadHead candidate false))
    else (m.setPage candidate none, call.goto .loadCurrent)
  | .returned _ _ => (m, call)

/-- Memory that an allocator can give for a new page: at a free address, aligned as page storage is,
inside the address space and apart from every page there. -/
def Granted (exponent : Nat) (m : Arena) (capacity address data : Nat) : Prop :=
  m.heap address = none ∧ 0 < data ∧ data + capacity ≤ sizeCount ∧ 2 ^ exponent ∣ data ∧
    ∀ p page, m.heap p = some page →
      data + capacity ≤ page.data ∨ page.data + page.capacity ≤ data

def Honest (exponent : Nat) (m : Arena) (call : Call) (answer : Answer) : Prop :=
  ∀ address data, answer.page = some (address, data) →
    Granted exponent m call.pageCapacity address data

/-- Any call whose alignment is not above that of page storage. -/
def Opens (exponent : Nat) (call : Call) : Prop :=
  ∃ size alignment, size ≤ sizeMax ∧ alignment ≤ 2 ^ exponent ∧ call = .start size alignment

def Advance (exponent : Nat) (m : Arena) (call : Call) (m' : Arena) (call' : Call) : Prop :=
  ∃ answer, Honest exponent m call answer ∧ next m call answer = (m', call')

def Wraps (m : Arena) (call : Call) : Prop :=
  ∃ address page, call.point = .reserve address ∧ m.heap address = some page ∧
    sizeCount ≤ page.used + call.reservation

/-- Two calls one after the other: the second block begins where the first ends. -/
example : (carve ⟨16, 8, .reserve 1⟩ 1 { data := 4096, used := 16, capacity := 65536 }) =
    some ⟨1, 16, 4112, 16⟩ := by decide

end ByteArena
end ServerEngine

import ServerEngine.Library.Pages
import ServerEngine.Parser.Interface

/-! # The frontend block store

`source_frontend_block_store`: one immutable block of interface data a source, its four parts on
typed pages. A store only grows, and work that was never published is cut off again at a mark.
-/
namespace ServerEngine
open Pages Slice

structure InterfaceData where
  localTypes : List IdentityRef := []
  typeSlots : List InterfaceTypeSlot := []
  objectSlots : List InterfaceObjectSlot := []
  memberSlots : List InterfaceMemberSlot := []

structure BlockRange where
  page : Nat := 0
  begin : Nat := 0
  logicalBegin : Nat := 0
  count : Nat := 0

/-- Which allocations of an append fail: that of a page's header, that of its items. -/
structure PageFaults where
  page : Bool := false
  items : Bool := false

structure TypedPageStore (T : Type) where
  initialPageCapacity : Nat := 1
  maximumPageCapacity : Nat := 1
  nextPageCapacity : Nat := 1
  logicalSize : Nat := 0
  pages : List (Page T) := []

structure PageCheckpoint where
  pageCount : Nat := 0
  lastSize : Nat := 0
  logicalSize : Nat := 0
  nextPageCapacity : Nat := 1

namespace TypedPageStore
variable {T : Type}

def maximumChunkBytes : Nat := 4 * 1024 * 1024

def ofPageBytes (pageBytes itemBytes : Nat) : TypedPageStore T :=
  let initial := max 1 (pageBytes / itemBytes)
  { initialPageCapacity := initial
    maximumPageCapacity := max initial (max 1 (maximumChunkBytes / itemBytes))
    nextPageCapacity := initial }

def lastSize (store : TypedPageStore T) : Nat := (store.pages.getLast?.map (·.items.length)).getD 0

def mark (store : TypedPageStore T) : PageCheckpoint :=
  ⟨store.pages.length, store.lastSize, store.logicalSize, store.nextPageCapacity⟩

def restore (store : TypedPageStore T) (state : PageCheckpoint) : TypedPageStore T :=
  if state.pageCount = 0 then { store with pages := [], logicalSize := state.logicalSize }
  else { store with
    pages := truncate store.pages state.pageCount state.lastSize
    logicalSize := state.logicalSize
    nextPageCapacity := state.nextPageCapacity }

def advancePageCapacity (store : TypedPageStore T) (reserved : Nat) : Nat :=
  let growthBase := min store.maximumPageCapacity (max store.nextPageCapacity reserved)
  if growthBase ≥ store.maximumPageCapacity then store.maximumPageCapacity
  else if growthBase > store.maximumPageCapacity / 2 then store.maximumPageCapacity
  else growthBase * 2

def needsPage (store : TypedPageStore T) (count : Nat) : Bool :=
  match store.pages.getLast? with
  | none => true
  | some page => page.capacity - page.items.length < count

/-- The values behind the last page's items, which has the room reserved. -/
def insertLast (store : TypedPageStore T) (values : List T) :
    TypedPageStore T × Except StatusCode BlockRange :=
  if store.pages.length > u32Max || store.lastSize > u32Max ||
      values.length > u32Max - store.lastSize then (store, .error .notAvailable)
  else
    ({ store with
        pages := extendLast store.pages values
        logicalSize := store.logicalSize + values.length },
      .ok ⟨store.pages.length, store.lastSize, store.logicalSize, values.length⟩)

/-- A failing append may leave a page behind; its caller cuts it off. -/
def append (faults : PageFaults) (store : TypedPageStore T) (values : List T) :
    TypedPageStore T × Except StatusCode BlockRange :=
  if store.logicalSize > u32Max then (store, .error .notAvailable)
  else if values.isEmpty then (store, .ok { logicalBegin := store.logicalSize })
  else if values.length > u32Max || values.length > u32Max - store.logicalSize then
    (store, .error .notAvailable)
  else if store.needsPage values.length then
    if faults.page then (store, .error .notAvailable)
    else if faults.items then
      ({ store with pages := store.pages ++ [{}] }, .error .notAvailable)
    else
      let capacity := max store.nextPageCapacity values.length
      insertLast { store with
        pages := store.pages ++ [{ capacity := capacity }]
        nextPageCapacity := store.advancePageCapacity capacity } values
  else store.insertLast values

def view (store : TypedPageStore T) (range : BlockRange) : BlockRange :=
  if range.count = 0 || range.page = 0 then {}
  else match store.pages[range.page - 1]? with
    | none => {}
    | some page =>
      if range.begin > page.items.length || range.count > page.items.length - range.begin then {}
      else range

def read (store : TypedPageStore T) (view : BlockRange) : List T :=
  match store.pages[view.page - 1]? with
  | none => []
  | some page => slice page.items view.begin view.count

def clear (store : TypedPageStore T) : TypedPageStore T :=
  { store with pages := [], logicalSize := 0, nextPageCapacity := store.initialPageCapacity }

end TypedPageStore

structure BlockRecord where
  source : Nat := 0
  localTypes : BlockRange := {}
  typeSlots : BlockRange := {}
  objectSlots : BlockRange := {}
  memberSlots : BlockRange := {}

structure BlockView where
  localTypes : BlockRange := {}
  typeSlots : BlockRange := {}
  objectSlots : BlockRange := {}
  memberSlots : BlockRange := {}

structure BlockFaults where
  localTypes : PageFaults := {}
  typeSlots : PageFaults := {}
  objectSlots : PageFaults := {}
  memberSlots : PageFaults := {}
  records : Bool := false

structure BlockCheckpoint where
  records : Nat := 0
  localTypes : PageCheckpoint := {}
  typeSlots : PageCheckpoint := {}
  objectSlots : PageCheckpoint := {}
  memberSlots : PageCheckpoint := {}

/-- A store whose allocation failed is not `valid` and takes nothing. -/
structure BlockStore where
  valid : Bool := true
  records : List BlockRecord := []
  localTypes : TypedPageStore IdentityRef := {}
  typeSlots : TypedPageStore InterfaceTypeSlot := {}
  objectSlots : TypedPageStore InterfaceObjectSlot := {}
  memberSlots : TypedPageStore InterfaceMemberSlot := {}

namespace BlockStore

def ofPageBytes (pageBytes : Nat) : BlockStore where
  localTypes := .ofPageBytes (max 1 pageBytes) 4
  typeSlots := .ofPageBytes (max 1 pageBytes) 12
  objectSlots := .ofPageBytes (max 1 pageBytes) 16
  memberSlots := .ofPageBytes (max 1 pageBytes) 12

def initial : BlockStore := ofPageBytes (64 * 1024)

def mark (store : BlockStore) : BlockCheckpoint where
  records := store.records.length
  localTypes := store.localTypes.mark
  typeSlots := store.typeSlots.mark
  objectSlots := store.objectSlots.mark
  memberSlots := store.memberSlots.mark

def restore (store : BlockStore) (state : BlockCheckpoint) : BlockStore where
  valid := store.valid
  records := store.records.take state.records
  localTypes := store.localTypes.restore state.localTypes
  typeSlots := store.typeSlots.restore state.typeSlots
  objectSlots := store.objectSlots.restore state.objectSlots
  memberSlots := store.memberSlots.restore state.memberSlots

/-- The four parts one after the other; a part is not tried once one before it has failed. -/
def appendParts (faults : BlockFaults) (store : BlockStore) (data : InterfaceData) :
    BlockStore × Except StatusCode BlockView :=
  let (localTypes, result) := store.localTypes.append faults.localTypes data.localTypes
  let store := { store with localTypes := localTypes }
  match result with
  | .error code => (store, .error code)
  | .ok localRange =>
    let (typeSlots, result) := store.typeSlots.append faults.typeSlots data.typeSlots
    let store := { store with typeSlots := typeSlots }
    match result with
    | .error code => (store, .error code)
    | .ok typeRange =>
      let (objectSlots, result) := store.objectSlots.append faults.objectSlots data.objectSlots
      let store := { store with objectSlots := objectSlots }
      match result with
      | .error code => (store, .error code)
      | .ok objectRange =>
        let (memberSlots, result) := store.memberSlots.append faults.memberSlots data.memberSlots
        let store := { store with memberSlots := memberSlots }
        match result with
        | .error code => (store, .error code)
        | .ok memberRange => (store, .ok ⟨localRange, typeRange, objectRange, memberRange⟩)

def restorePages (store : BlockStore) (state : BlockCheckpoint) : BlockStore :=
  { store.restore state with records := store.records }

/-- `append`; a block is named by its number, from one on. -/
def append (faults : BlockFaults) (store : BlockStore) (source : Nat) (data : InterfaceData) :
    BlockStore × Except StatusCode Nat :=
  if !store.valid then (store, .error .notAvailable)
  else if source = 0 then (store, .error .invalidArgument)
  else if store.records.length ≥ u32Max then (store, .error .notAvailable)
  else
    let (grown, result) := store.appendParts faults data
    match result with
    | .error code => (grown.restorePages store.mark, .error code)
    | .ok parts =>
      if faults.records then (grown.restorePages store.mark, .error .notAvailable)
      else
        let record : BlockRecord :=
          ⟨source, parts.localTypes, parts.typeSlots, parts.objectSlots, parts.memberSlots⟩
        ({ grown with records := grown.records ++ [record] }, .ok (grown.records.length + 1))

def partMissing (record view : BlockRange) : Bool := record.count ≠ 0 && view.count ≠ record.count

def view (store : BlockStore) (block : Nat) : Except StatusCode BlockView :=
  if !store.valid then .error .notAvailable
  else if block = 0 || block > store.records.length then .error .notFound
  else
    let record := store.records.getD (block - 1) {}
    let localTypes := store.localTypes.view record.localTypes
    let typeSlots := store.typeSlots.view record.typeSlots
    let objectSlots := store.objectSlots.view record.objectSlots
    let memberSlots := store.memberSlots.view record.memberSlots
    if partMissing record.localTypes localTypes || partMissing record.typeSlots typeSlots ||
        partMissing record.objectSlots objectSlots || partMissing record.memberSlots memberSlots then
      .error .invalidState
    else .ok ⟨localTypes, typeSlots, objectSlots, memberSlots⟩

def read (store : BlockStore) (view : BlockView) : InterfaceData where
  localTypes := store.localTypes.read view.localTypes
  typeSlots := store.typeSlots.read view.typeSlots
  objectSlots := store.objectSlots.read view.objectSlots
  memberSlots := store.memberSlots.read view.memberSlots

def clear (store : BlockStore) : BlockStore where
  valid := store.valid
  localTypes := store.localTypes.clear
  typeSlots := store.typeSlots.clear
  objectSlots := store.objectSlots.clear
  memberSlots := store.memberSlots.clear

end BlockStore

/-! ## Typed pages -/

namespace TypedPageStore
variable {T : Type} {store store' : TypedPageStore T} {values : List T} {range : BlockRange}

def Shows (store : TypedPageStore T) (view : BlockRange) (values : List T) : Prop :=
  view.count = values.length ∧
    (values ≠ [] → view.page ≠ 0 ∧ Reads store.pages (view.page - 1) view.begin values)

def Grown (store store' : TypedPageStore T) : Prop := Grows store.pages store'.pages

theorem Shows.grow (h : store.Shows range values) (hgrown : store.Grown store') :
    store'.Shows range values :=
  ⟨h.1, fun hsome => ⟨(h.2 hsome).1, (h.2 hsome).2.grow hgrown⟩⟩

theorem Shows.read_eq (h : store.Shows range values) : store.read range = values := by
  obtain ⟨hcount, hreads⟩ := h
  by_cases hnil : values = []
  · rw [hnil] at hcount ⊢
    unfold read
    rw [hcount, List.length_nil]
    split <;> simp
  · obtain ⟨page, hpage, -, hslice⟩ := (hreads hnil).2.length_le
    unfold read
    rw [hpage, hcount]
    exact hslice

theorem shows_empty (store : TypedPageStore T) : store.Shows {} [] :=
  ⟨rfl, fun hsome => absurd rfl hsome⟩

theorem Shows.view (h : store.Shows range values) :
    store.Shows (store.view range) values ∧ (store.view range).count = values.length := by
  obtain ⟨hcount, hreads⟩ := h
  unfold TypedPageStore.view
  by_cases hnil : values = []
  · subst hnil
    have hzero : range.count = 0 := hcount
    rw [hzero]
    exact ⟨store.shows_empty, rfl⟩
  · obtain ⟨hpage, hread⟩ := hreads hnil
    obtain ⟨page, hget, hlength, -⟩ := hread.length_le
    have hlen : values.length ≠ 0 := by simpa using hnil
    have hfirst : ¬(range.count = 0 || range.page = 0) = true := by
      simp only [Bool.or_eq_true, decide_eq_true_eq, not_or]
      exact ⟨by omega, hpage⟩
    have hsecond : ¬(range.begin > page.items.length ||
        range.count > page.items.length - range.begin) = true := by
      simp only [Bool.or_eq_true, decide_eq_true_eq, not_or]
      omega
    rw [if_neg hfirst, hget]
    dsimp only
    rw [if_neg hsecond]
    exact ⟨⟨hcount, hreads⟩, hcount⟩

theorem grown_refl (store : TypedPageStore T) : store.Grown store := grows_refl _

theorem Grown.trans {store'' : TypedPageStore T} (h : store.Grown store')
    (hnext : store'.Grown store'') : store.Grown store'' := Grows.trans h hnext

theorem restore_mark (h : store.Grown store') :
    (store'.restore store.mark).pages = store.pages := by
  unfold restore mark
  by_cases hnil : store.pages = []
  · simp [hnil]
  · have hlen : store.pages.length ≠ 0 := by simpa using hnil
    rw [if_neg hlen]
    have hsize : store.lastSize = (store.pages.getLast hnil).items.length := by
      unfold lastSize
      rw [List.getLast?_eq_some_getLast hnil]
      rfl
    rw [hsize, Grows.truncate_eq h hnil]

theorem insertLast_spec (hsome : store.pages ≠ []) :
    store.Grown (store.insertLast values).1 ∧ ∀ range, (store.insertLast values).2 = .ok range →
      (store.insertLast values).1.Shows range values := by
  unfold insertLast
  split
  · exact ⟨store.grown_refl, fun range h => by cases h⟩
  · refine ⟨grows_extendLast _ _, fun range h => ?_⟩
    cases h
    refine ⟨rfl, fun _ => ⟨by simpa using hsome, ?_⟩⟩
    obtain ⟨page, hlast⟩ : ∃ page, store.pages.getLast? = some page :=
      ⟨_, List.getLast?_eq_some_getLast hsome⟩
    have hsize : store.lastSize = page.items.length := by
      unfold lastSize
      rw [hlast]
      rfl
    rw [hsize]
    exact reads_extendLast hlast

theorem append_spec (faults : PageFaults) (store : TypedPageStore T) (values : List T) :
    store.Grown (store.append faults values).1 ∧
      ∀ range, (store.append faults values).2 = .ok range →
        (store.append faults values).1.Shows range values := by
  unfold append
  split
  · exact ⟨store.grown_refl, fun range h => by cases h⟩
  split
  · rename_i hempty
    refine ⟨store.grown_refl, fun range h => ?_⟩
    cases h
    rw [List.isEmpty_iff.mp hempty]
    exact ⟨rfl, fun hsome => absurd rfl hsome⟩
  split
  · exact ⟨store.grown_refl, fun range h => by cases h⟩
  split
  · split
    · exact ⟨store.grown_refl, fun range h => by cases h⟩
    split
    · exact ⟨grows_append _ _, fun range h => by cases h⟩
    · obtain ⟨hgrown, hshows⟩ := @insertLast_spec T { store with
        pages := store.pages ++ [{ capacity := max store.nextPageCapacity values.length }]
        nextPageCapacity := store.advancePageCapacity
          (max store.nextPageCapacity values.length) } values (by simp)
      exact ⟨Grows.trans (grows_append _ _) hgrown, hshows⟩
  · rename_i hroom
    apply insertLast_spec
    intro hnil
    unfold needsPage at hroom
    rw [hnil] at hroom
    simp at hroom

end TypedPageStore

/-! ## Blocks -/

namespace BlockStore
variable {store store' : BlockStore} {view : BlockView} {data : InterfaceData}

structure Shows (store : BlockStore) (view : BlockView) (data : InterfaceData) : Prop where
  localTypes : store.localTypes.Shows view.localTypes data.localTypes
  typeSlots : store.typeSlots.Shows view.typeSlots data.typeSlots
  objectSlots : store.objectSlots.Shows view.objectSlots data.objectSlots
  memberSlots : store.memberSlots.Shows view.memberSlots data.memberSlots

structure Grown (store store' : BlockStore) : Prop where
  valid : store'.valid = store.valid
  records : store.records <+: store'.records
  localTypes : store.localTypes.Grown store'.localTypes
  typeSlots : store.typeSlots.Grown store'.typeSlots
  objectSlots : store.objectSlots.Grown store'.objectSlots
  memberSlots : store.memberSlots.Grown store'.memberSlots

structure SamePages (store store' : BlockStore) : Prop where
  localTypes : store'.localTypes.pages = store.localTypes.pages
  typeSlots : store'.typeSlots.pages = store.typeSlots.pages
  objectSlots : store'.objectSlots.pages = store.objectSlots.pages
  memberSlots : store'.memberSlots.pages = store.memberSlots.pages

theorem grown_refl (store : BlockStore) : store.Grown store :=
  ⟨rfl, List.prefix_refl _, grows_refl _, grows_refl _, grows_refl _, grows_refl _⟩

theorem Grown.trans {store'' : BlockStore} (h : store.Grown store') (hnext : store'.Grown store'') :
    store.Grown store'' :=
  ⟨hnext.valid.trans h.valid, h.records.trans hnext.records, Grows.trans h.localTypes hnext.localTypes,
    Grows.trans h.typeSlots hnext.typeSlots, Grows.trans h.objectSlots hnext.objectSlots,
    Grows.trans h.memberSlots hnext.memberSlots⟩

theorem Shows.grow (h : store.Shows view data) (hgrown : store.Grown store') :
    store'.Shows view data :=
  ⟨h.localTypes.grow hgrown.localTypes, h.typeSlots.grow hgrown.typeSlots,
    h.objectSlots.grow hgrown.objectSlots, h.memberSlots.grow hgrown.memberSlots⟩

theorem Shows.read_eq (h : store.Shows view data) : store.read view = data := by
  unfold read
  rw [h.localTypes.read_eq, h.typeSlots.read_eq, h.objectSlots.read_eq, h.memberSlots.read_eq]

theorem SamePages.shows (h : SamePages store store') (hshows : store.Shows view data) :
    store'.Shows view data := by
  have hpages : ∀ {T : Type} {s s' : TypedPageStore T} {range : BlockRange} {values : List T},
      s'.pages = s.pages → s.Shows range values → s'.Shows range values := by
    intro T s s' range values heq hs
    refine ⟨hs.1, fun hsome => ?_⟩
    rw [heq]
    exact hs.2 hsome
  exact ⟨hpages h.localTypes hshows.localTypes, hpages h.typeSlots hshows.typeSlots,
    hpages h.objectSlots hshows.objectSlots, hpages h.memberSlots hshows.memberSlots⟩

theorem restore_samePages (h : store.Grown store') :
    SamePages store (store'.restore store.mark) :=
  ⟨TypedPageStore.restore_mark h.localTypes, TypedPageStore.restore_mark h.typeSlots,
    TypedPageStore.restore_mark h.objectSlots, TypedPageStore.restore_mark h.memberSlots⟩

theorem restore_records (h : store.Grown store') :
    (store'.restore store.mark).records = store.records := by
  obtain ⟨more, hmore⟩ := h.records
  show store'.records.take store.records.length = store.records
  rw [← hmore, List.take_left]

theorem appendParts_spec (faults : BlockFaults) (store : BlockStore) (data : InterfaceData) :
    store.Grown (store.appendParts faults data).1 ∧
      (store.appendParts faults data).1.records = store.records ∧
      ∀ parts, (store.appendParts faults data).2 = .ok parts →
        (store.appendParts faults data).1.Shows parts data := by
  have hlocal := store.localTypes.append_spec faults.localTypes data.localTypes
  have htype := store.typeSlots.append_spec faults.typeSlots data.typeSlots
  have hobject := store.objectSlots.append_spec faults.objectSlots data.objectSlots
  have hmember := store.memberSlots.append_spec faults.memberSlots data.memberSlots
  have hrefl := store.grown_refl
  unfold appendParts
  rcases hlocalAppend : store.localTypes.append faults.localTypes data.localTypes with ⟨localTypes, result⟩
  rw [hlocalAppend] at hlocal
  dsimp only
  cases result with
  | error code =>
    exact ⟨⟨rfl, hrefl.records, hlocal.1, hrefl.typeSlots, hrefl.objectSlots, hrefl.memberSlots⟩, rfl,
      fun parts h => by cases h⟩
  | ok localRange =>
  rcases htypeAppend : store.typeSlots.append faults.typeSlots data.typeSlots with ⟨typeSlots, result⟩
  rw [htypeAppend] at htype
  cases result with
  | error code =>
    exact ⟨⟨rfl, hrefl.records, hlocal.1, htype.1, hrefl.objectSlots, hrefl.memberSlots⟩, rfl,
      fun parts h => by cases h⟩
  | ok typeRange =>
  rcases hobjectAppend : store.objectSlots.append faults.objectSlots data.objectSlots with ⟨objectSlots, result⟩
  rw [hobjectAppend] at hobject
  dsimp only
  cases result with
  | error code =>
    exact ⟨⟨rfl, hrefl.records, hlocal.1, htype.1, hobject.1, hrefl.memberSlots⟩, rfl,
      fun parts h => by cases h⟩
  | ok objectRange =>
  rcases hmemberAppend : store.memberSlots.append faults.memberSlots data.memberSlots with ⟨memberSlots, result⟩
  rw [hmemberAppend] at hmember
  cases result with
  | error code =>
    exact ⟨⟨rfl, hrefl.records, hlocal.1, htype.1, hobject.1, hmember.1⟩, rfl, fun parts h => by cases h⟩
  | ok memberRange =>
    refine ⟨⟨rfl, hrefl.records, hlocal.1, htype.1, hobject.1, hmember.1⟩, rfl, fun parts h => ?_⟩
    cases h
    exact ⟨hlocal.2 _ rfl, htype.2 _ rfl, hobject.2 _ rfl, hmember.2 _ rfl⟩

theorem SamePages.grown (h : SamePages store store') (hvalid : store'.valid = store.valid)
    (hrecords : store'.records = store.records) : store.Grown store' := by
  have hpages : ∀ {T : Type} {s s' : TypedPageStore T}, s'.pages = s.pages → s.Grown s' := by
    intro T s s' heq
    show Grows s.pages s'.pages
    rw [heq]
    exact grows_refl _
  have hfront : store.records <+: store'.records := ⟨[], by rw [List.append_nil, hrecords]⟩
  exact ⟨hvalid, hfront, hpages h.localTypes, hpages h.typeSlots, hpages h.objectSlots,
    hpages h.memberSlots⟩

/-- An append only grows the store; a successful one leaves a view of its data. -/
theorem append_spec (faults : BlockFaults) (store : BlockStore) (source : Nat)
    (data : InterfaceData) :
    store.Grown (store.append faults source data).1 ∧
    ∀ block, (store.append faults source data).2 = .ok block →
      ∃ view, (store.append faults source data).1.view block = .ok view ∧
        (store.append faults source data).1.Shows view data := by
  obtain ⟨hgrown, hrecords, hshows⟩ := appendParts_spec faults store data
  have hrefl := store.grown_refl
  unfold append
  split
  · exact ⟨hrefl, fun block h => by cases h⟩
  rename_i hvalid
  split
  · exact ⟨hrefl, fun block h => by cases h⟩
  split
  · exact ⟨hrefl, fun block h => by cases h⟩
  rcases hparts : store.appendParts faults data with ⟨grown, result⟩
  rw [hparts] at hgrown hrecords hshows
  have hpages : SamePages store (grown.restorePages store.mark) :=
    ⟨TypedPageStore.restore_mark hgrown.localTypes, TypedPageStore.restore_mark hgrown.typeSlots,
      TypedPageStore.restore_mark hgrown.objectSlots, TypedPageStore.restore_mark hgrown.memberSlots⟩
  have hrestored : store.Grown (grown.restorePages store.mark) :=
    hpages.grown hgrown.valid hrecords
  cases result with
  | error code => exact ⟨hrestored, fun block h => by cases h⟩
  | ok parts =>
  dsimp only
  split
  · exact ⟨hrestored, fun block h => by cases h⟩
  · have hdata := hshows parts rfl
    refine ⟨⟨hgrown.valid, hgrown.records.trans (List.prefix_append _ _), hgrown.localTypes,
      hgrown.typeSlots, hgrown.objectSlots, hgrown.memberSlots⟩, fun block h => ?_⟩
    cases h
    refine ⟨⟨grown.localTypes.view parts.localTypes, grown.typeSlots.view parts.typeSlots,
        grown.objectSlots.view parts.objectSlots, grown.memberSlots.view parts.memberSlots⟩, ?_,
      ⟨hdata.localTypes.view.1, hdata.typeSlots.view.1, hdata.objectSlots.view.1,
        hdata.memberSlots.view.1⟩⟩
    have hin : ¬(grown.records.length + 1 = 0 ||
        grown.records.length + 1 > (grown.records ++ [({
          source := source, localTypes := parts.localTypes, typeSlots := parts.typeSlots,
          objectSlots := parts.objectSlots, memberSlots := parts.memberSlots } :
            BlockRecord)]).length) = true := by
      simp
    have hpart : ∀ {T : Type} {s : TypedPageStore T} {range : BlockRange} {values : List T},
        s.Shows range values → partMissing range (s.view range) = false := by
      intro T s range values hs
      unfold partMissing
      rw [hs.view.2, hs.1]
      simp
    have hgrownValid : ¬(!grown.valid) = true := by
      rw [hgrown.valid]
      exact hvalid
    unfold view
    rw [if_neg hgrownValid, if_neg hin]
    simp [hpart hdata.localTypes, hpart hdata.typeSlots, hpart hdata.objectSlots,
      hpart hdata.memberSlots]

end BlockStore
end ServerEngine

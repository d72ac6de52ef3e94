import ServerEngine.Frontend.BlockMemory
import ServerEngine.Library.Checkpoints

/-! # The block store is a stack of blocks

Whatever a client does and whichever allocations fail, the store shows the blocks that were not rolled
back: what was appended, where it was put first, the arenas cut into the blocks' ranges in order.
-/
namespace ServerEngine
open Pages Slice

/-! ## One arena -/

namespace TypedPageStore
variable {T : Type} {store store' : TypedPageStore T} {values : List T} {buffers buffers' : List Nat}

def Fits (store : TypedPageStore T) : Prop := ∀ page ∈ store.pages, page.items.length ≤ page.capacity

/-- What an append can do to the pages and their addresses: it is refused, leaves an empty page,
takes no values, extends the last page or fills a new one. No branch moves a page. -/
inductive Appended (store : TypedPageStore T) (values : List T) (buffers : List Nat) :
    TypedPageStore T → Except StatusCode BlockRange → List Nat → Prop
  | refused : Appended store values buffers store (.error .notAvailable) buffers
  | opened (page : Page T) (next address : Nat) :
      Appended store values buffers
        { store with pages := store.pages ++ [page], nextPageCapacity := next }
        (.error .notAvailable) (buffers ++ [address])
  | empty (hempty : values = []) :
      Appended store values buffers store (.ok { logicalBegin := store.logicalSize }) buffers
  | extended (front : List (Page T)) (page : Page T) (number begin : Nat)
      (hpages : store.pages = front ++ [page])
      (hroom : page.items.length + values.length ≤ page.capacity) :
      Appended store values buffers
        { store with
          pages := front ++ [page.extend values]
          logicalSize := store.logicalSize + values.length }
        (.ok ⟨number, begin, store.logicalSize, values.length⟩) buffers
  | placed (page : Page T) (next address number begin : Nat) (hitems : page.items = [])
      (hroom : values.length ≤ page.capacity) :
      Appended store values buffers
        { store with
          pages := store.pages ++ [page.extend values]
          logicalSize := store.logicalSize + values.length
          nextPageCapacity := next }
        (.ok ⟨number, begin, store.logicalSize, values.length⟩) (buffers ++ [address])

theorem insertBuffers_same {grant : PageGrant} {front : List (Page T)} {page : Page T}
    (hpages : store.pages = front ++ [page])
    (hroom : page.items.length + values.length ≤ page.capacity) :
    insertBuffers grant store values buffers = buffers := by
  unfold insertBuffers
  rw [hpages, List.getLast?_concat]
  dsimp only
  rw [if_neg (by omega)]

theorem insertLast_cases (values : List T) {front : List (Page T)} {page : Page T}
    (hpages : store.pages = front ++ [page]) :
    store.insertLast values = (store, .error .notAvailable) ∨
      store.insertLast values =
        ({ store with
            pages := front ++ [page.extend values]
            logicalSize := store.logicalSize + values.length },
          .ok ⟨store.pages.length, store.lastSize, store.logicalSize, values.length⟩) := by
  unfold insertLast
  split
  · exact .inl rfl
  · refine .inr ?_
    rw [hpages, extendLast_concat]

theorem append_appended (faults : PageFaults) (grant : PageGrant) (hfits : store.Fits)
    (values : List T) (buffers : List Nat) :
    Appended store values buffers (store.append faults values).1 (store.append faults values).2
      (store.appendBuffers faults grant values buffers) := by
  unfold append appendBuffers
  split
  · exact .refused
  split
  · rename_i hempty
    exact .empty (List.isEmpty_iff.mp hempty)
  split
  · exact .refused
  split
  · split
    · exact .refused
    split
    · exact .opened {} store.nextPageCapacity 0
    · have hroom : ({ capacity := max store.nextPageCapacity values.length } : Page T).items.length +
          values.length ≤ max store.nextPageCapacity values.length := by
        rw [List.length_nil, Nat.zero_add]
        exact Nat.le_max_right _ _
      rw [insertBuffers_same rfl hroom]
      obtain h | h := @insertLast_cases T { store with
        pages := store.pages ++ [{ capacity := max store.nextPageCapacity values.length }]
        nextPageCapacity := store.advancePageCapacity
          (max store.nextPageCapacity values.length) } values store.pages _ rfl
      · rw [h]
        exact .opened _ _ _
      · rw [h]
        exact .placed _ _ _ _ _ rfl (Nat.le_max_right _ _)
  · rename_i hneeds
    unfold needsPage at hneeds
    cases hlast : store.pages.getLast? with
    | none =>
      rw [hlast] at hneeds
      exact absurd rfl hneeds
    | some page =>
      rw [hlast] at hneeds
      obtain ⟨front, hpages⟩ := List.getLast?_eq_some_iff.mp hlast
      have hpage := hfits page (by rw [hpages]; simp)
      have hroom : page.items.length + values.length ≤ page.capacity := by
        have hcount : ¬page.capacity - page.items.length < values.length := by
          simpa using hneeds
        omega
      rw [insertBuffers_same hpages hroom]
      obtain h | h := insertLast_cases values hpages
      · rw [h]
        exact .refused
      · rw [h]
        exact .extended front page _ _ hpages hroom

variable {result : Except StatusCode BlockRange}

theorem Appended.front (h : Appended store values buffers store' result buffers') :
    buffers <+: buffers' := by
  cases h with
  | refused => exact List.prefix_refl _
  | opened => exact List.prefix_append _ _
  | empty => exact List.prefix_refl _
  | extended => exact List.prefix_refl _
  | placed => exact List.prefix_append _ _

theorem Appended.buffers_length (h : Appended store values buffers store' result buffers')
    (hlength : buffers.length = store.pages.length) : buffers'.length = store'.pages.length := by
  cases h with
  | refused => exact hlength
  | opened => simp [hlength]
  | empty => exact hlength
  | extended front page number begin hpages => simp [hlength, hpages]
  | placed => simp [hlength]

variable {range : BlockRange}

theorem Appended.fits (h : Appended store values buffers store' (.ok range) buffers')
    (hfits : store.Fits) : store'.Fits := by
  cases h with
  | empty => exact hfits
  | extended front page number begin hpages hroom =>
    intro other hother
    cases List.mem_append.mp hother with
    | inl hfront => exact hfits other (by rw [hpages]; exact List.mem_append_left _ hfront)
    | inr hlast =>
      rw [List.mem_singleton.mp hlast, Page.extend, List.length_append]
      exact hroom
  | placed page next address number begin hitems hroom =>
    intro other hother
    cases List.mem_append.mp hother with
    | inl hold => exact hfits other hold
    | inr hlast =>
      rw [List.mem_singleton.mp hlast, Page.extend, List.length_append, hitems, List.length_nil,
        Nat.zero_add]
      exact hroom

theorem Appended.items (h : Appended store values buffers store' (.ok range) buffers') :
    store'.pages.flatMap (·.items) = store.pages.flatMap (·.items) ++ values ∧
      store'.logicalSize = store.logicalSize + values.length ∧
      range.logicalBegin = store.logicalSize := by
  cases h with
  | empty hempty => simp [hempty]
  | extended front page number begin hpages hroom => simp [hpages, Page.extend]
  | placed page next address number begin hitems hroom => simp [Page.extend, hitems]

/-- The arena holds these parts one after the other, at their ranges. -/
structure Holds (store : TypedPageStore T) (buffers : List Nat) (ranges : List BlockRange)
    (parts : List (List T)) : Prop where
  items : store.pages.flatMap (·.items) = parts.flatten
  size : store.logicalSize = parts.flatten.length
  addresses : buffers.length = store.pages.length
  fits : store.Fits
  length : ranges.length = parts.length
  shown : ∀ i range part, ranges[i]? = some range → parts[i]? = some part →
    store.Shows range part ∧ range.logicalBegin = (parts.take i).flatten.length

variable {ranges : List BlockRange} {parts : List (List T)}

theorem Shows.of_pages (h : store.Shows range values) (hpages : store'.pages = store.pages) :
    store'.Shows range values := by
  refine ⟨h.1, fun hsome => ?_⟩
  rw [hpages]
  exact h.2 hsome

theorem Holds.of_pages (h : store.Holds buffers ranges parts) (hpages : store'.pages = store.pages)
    (hsize : store'.logicalSize = store.logicalSize) : store'.Holds buffers ranges parts where
  items := by rw [hpages, h.items]
  size := by rw [hsize, h.size]
  addresses := by rw [hpages, h.addresses]
  fits := by
    unfold Fits
    rw [hpages]
    exact h.fits
  length := h.length
  shown i range part hrange hpart :=
    ⟨(h.shown i range part hrange hpart).1.of_pages hpages, (h.shown i range part hrange hpart).2⟩

theorem Holds.append (h : store.Holds buffers ranges parts) (faults : PageFaults)
    (grant : PageGrant) (hok : (store.append faults values).2 = .ok range) :
    (store.append faults values).1.Holds (store.appendBuffers faults grant values buffers)
      (ranges ++ [range]) (parts ++ [values]) := by
  have happended := append_appended faults grant h.fits values buffers
  obtain ⟨hgrown, hshows⟩ := append_spec faults store values
  have hnew := hshows range hok
  rw [hok] at happended
  obtain ⟨hitems, hsize, hbegin⟩ := happended.items
  exact {
    items := by rw [hitems, h.items, List.flatten_concat]
    size := by rw [hsize, h.size, List.flatten_concat, List.length_append]
    addresses := happended.buffers_length h.addresses
    fits := happended.fits h.fits
    length := by rw [List.length_append, List.length_append, h.length]; rfl
    shown := by
      intro i found part hfound hpart
      have hlt : i < (parts ++ [values]).length := (List.getElem?_eq_some_iff.mp hpart).1
      rw [List.length_append, List.length_singleton] at hlt
      by_cases hold : i < parts.length
      · rw [List.getElem?_append_left (by rw [h.length]; exact hold)] at hfound
        rw [List.getElem?_append_left hold] at hpart
        rw [List.take_append_of_le_length (Nat.le_of_lt hold)]
        have hshown := h.shown i found part hfound hpart
        exact ⟨hshown.1.grow hgrown, hshown.2⟩
      · obtain rfl : i = parts.length := by omega
        rw [List.getElem?_concat_length] at hpart
        rw [← h.length, List.getElem?_concat_length] at hfound
        cases hpart
        cases hfound
        rw [List.take_left]
        exact ⟨hnew, hbegin.trans h.size⟩ }

theorem Holds.at_record {R B : Type} {records : List R} {blocks : List B} {range : R → BlockRange}
    {part : B → List T} (h : store.Holds buffers (records.map range) (blocks.map part)) {i : Nat}
    {record : R} {block : B} (hrecord : records[i]? = some record) (hblock : blocks[i]? = some block) :
    store.Shows (range record) (part block) ∧
      (range record).logicalBegin = ((blocks.take i).flatMap part).length := by
  have hrange : (records.map range)[i]? = some (range record) := by
    rw [List.getElem?_map, hrecord, Option.map_some]
  have hpart : (blocks.map part)[i]? = some (part block) := by
    rw [List.getElem?_map, hblock, Option.map_some]
  have hshown := h.shown i _ _ hrange hpart
  rw [← List.map_take, ← List.flatMap_def] at hshown
  exact hshown

theorem restore_size (store store' : TypedPageStore T) :
    (store'.restore store.mark).logicalSize = store.logicalSize := by
  unfold restore
  split <;> rfl

theorem locate_grow (hshows : store.Shows range values)
    (haddresses : buffers.length = store.pages.length) (hfront : buffers <+: buffers') :
    locate buffers' range = locate buffers range := by
  unfold locate
  by_cases hzero : range.count = 0
  · rw [if_pos hzero, if_pos hzero]
  · have hsome : values ≠ [] := by
      intro hnil
      rw [hshows.1, hnil] at hzero
      exact hzero rfl
    obtain ⟨page, hpage, -, -⟩ := (hshows.2 hsome).2.length_le
    have hlt : range.page - 1 < buffers.length := by
      rw [haddresses]
      exact (List.getElem?_eq_some_iff.mp hpage).1
    obtain ⟨more, hmore⟩ := hfront
    rw [if_neg hzero, if_neg hzero, ← hmore, List.getElem?_append_left hlt]

theorem locate_view (hshows : store.Shows range values) :
    locate buffers (store.view range) = locate buffers range := by
  obtain hview | hview : store.view range = range ∨ store.view range = {} := by
    unfold view
    split
    · exact .inr rfl
    split
    · exact .inr rfl
    split
    · exact .inr rfl
    · exact .inl rfl
  · rw [hview]
  · have hcount := hshows.view.2
    rw [hview, ← hshows.1] at hcount
    unfold locate
    rw [hview, if_pos rfl, if_pos hcount.symm]

end TypedPageStore

/-- Nothing that a client can ask for differs: the records, the pages, the counts, the addresses. -/
structure StackState.SameContents (s s' : StackState) : Prop where
  valid : s'.store.valid = s.store.valid
  records : s'.store.records = s.store.records
  pages : s.store.SamePages s'.store
  localTypes : s'.store.localTypes.logicalSize = s.store.localTypes.logicalSize
  typeSlots : s'.store.typeSlots.logicalSize = s.store.typeSlots.logicalSize
  objectSlots : s'.store.objectSlots.logicalSize = s.store.objectSlots.logicalSize
  memberSlots : s'.store.memberSlots.logicalSize = s.store.memberSlots.logicalSize
  memory : s'.memory = s.memory

namespace StackState
variable {s s' : StackState}

def recordLocation (memory : BlockMemory) (record : BlockRecord) : DataLocation where
  localTypes := ServerEngine.locate memory.localTypes record.localTypes
  typeSlots := ServerEngine.locate memory.typeSlots record.typeSlots
  objectSlots := ServerEngine.locate memory.objectSlots record.objectSlots
  memberSlots := ServerEngine.locate memory.memberSlots record.memberSlots

/-- The store holds the blocks: each arena their parts, each record its source and its place. -/
structure Holds (s : StackState) : Prop where
  localTypes : s.store.localTypes.Holds s.memory.localTypes
    (s.store.records.map (·.localTypes)) (s.blocks.map (·.data.localTypes))
  typeSlots : s.store.typeSlots.Holds s.memory.typeSlots
    (s.store.records.map (·.typeSlots)) (s.blocks.map (·.data.typeSlots))
  objectSlots : s.store.objectSlots.Holds s.memory.objectSlots
    (s.store.records.map (·.objectSlots)) (s.blocks.map (·.data.objectSlots))
  memberSlots : s.store.memberSlots.Holds s.memory.memberSlots
    (s.store.records.map (·.memberSlots)) (s.blocks.map (·.data.memberSlots))
  sources : s.store.records.map (·.source) = s.blocks.map (·.source)
  located : ∀ (i : Nat) (record : BlockRecord) (block : PlacedBlock), s.store.records[i]? = some record →
    s.blocks[i]? = some block → recordLocation s.memory record = block.location
  valid : s.store.valid = false → s.blocks = []

theorem Holds.records_length (h : s.Holds) : s.store.records.length = s.blocks.length := by
  have hlengths := congrArg List.length h.sources
  rwa [List.length_map, List.length_map] at hlengths

theorem Holds.shows (h : s.Holds) {i : Nat} {record : BlockRecord} {block : PlacedBlock}
    (hrecord : s.store.records[i]? = some record) (hblock : s.blocks[i]? = some block) :
    s.store.localTypes.Shows record.localTypes block.data.localTypes ∧
      s.store.typeSlots.Shows record.typeSlots block.data.typeSlots ∧
      s.store.objectSlots.Shows record.objectSlots block.data.objectSlots ∧
      s.store.memberSlots.Shows record.memberSlots block.data.memberSlots := by
  exact ⟨(h.localTypes.at_record hrecord hblock).1, (h.typeSlots.at_record hrecord hblock).1,
    (h.objectSlots.at_record hrecord hblock).1, (h.memberSlots.at_record hrecord hblock).1⟩

theorem Holds.of_contents (h : s.Holds) (hsame : s.SameContents s') (hblocks : s'.blocks = s.blocks) :
    s'.Holds where
  localTypes := by
    rw [hsame.memory, hsame.records, hblocks]
    exact h.localTypes.of_pages hsame.pages.localTypes hsame.localTypes
  typeSlots := by
    rw [hsame.memory, hsame.records, hblocks]
    exact h.typeSlots.of_pages hsame.pages.typeSlots hsame.typeSlots
  objectSlots := by
    rw [hsame.memory, hsame.records, hblocks]
    exact h.objectSlots.of_pages hsame.pages.objectSlots hsame.objectSlots
  memberSlots := by
    rw [hsame.memory, hsame.records, hblocks]
    exact h.memberSlots.of_pages hsame.pages.memberSlots hsame.memberSlots
  sources := by rw [hsame.records, hblocks, h.sources]
  located := by
    rw [hsame.records, hsame.memory, hblocks]
    exact h.located
  valid := by
    rw [hsame.valid, hblocks]
    exact h.valid

theorem sameContents_refl (s : StackState) : s.SameContents s :=
  ⟨rfl, rfl, ⟨rfl, rfl, rfl, rfl⟩, rfl, rfl, rfl, rfl, rfl⟩

/-- Grown from an earlier state: pages, addresses and records only added. -/
structure Later (s s' : StackState) : Prop where
  grown : s.store.Grown s'.store
  localTypes : s.memory.localTypes <+: s'.memory.localTypes
  typeSlots : s.memory.typeSlots <+: s'.memory.typeSlots
  objectSlots : s.memory.objectSlots <+: s'.memory.objectSlots
  memberSlots : s.memory.memberSlots <+: s'.memory.memberSlots
  blocks : s.blocks <+: s'.blocks

theorem later_refl (s : StackState) : s.Later s :=
  ⟨s.store.grown_refl, List.prefix_refl _, List.prefix_refl _, List.prefix_refl _,
    List.prefix_refl _, List.prefix_refl _⟩

theorem Later.trans {s'' : StackState} (h : s.Later s') (hnext : s'.Later s'') : s.Later s'' :=
  ⟨h.grown.trans hnext.grown, h.localTypes.trans hnext.localTypes,
    h.typeSlots.trans hnext.typeSlots, h.objectSlots.trans hnext.objectSlots,
    h.memberSlots.trans hnext.memberSlots, h.blocks.trans hnext.blocks⟩

theorem SameContents.later (h : s.SameContents s') (hblocks : s'.blocks = s.blocks) : s.Later s' := by
  have hgrown := h.pages.grown h.valid h.records
  refine ⟨hgrown, ?_, ?_, ?_, ?_, [], by rw [List.append_nil, hblocks]⟩
  all_goals
    refine ⟨[], ?_⟩
    rw [List.append_nil, h.memory]

theorem restore_buffers {T : Type} {store : TypedPageStore T} {buffers buffers' : List Nat}
    (hfront : buffers <+: buffers') (hlength : buffers.length = store.pages.length) :
    buffers'.take store.mark.pageCount = buffers := by
  obtain ⟨more, hmore⟩ := hfront
  rw [← hmore]
  exact List.take_left' hlength

theorem restore_memory {memory : BlockMemory} (h : s.Holds)
    (hlocal : s.memory.localTypes <+: memory.localTypes)
    (htypes : s.memory.typeSlots <+: memory.typeSlots)
    (hobjects : s.memory.objectSlots <+: memory.objectSlots)
    (hmembers : s.memory.memberSlots <+: memory.memberSlots) :
    memory.restore s.store.mark = s.memory := by
  unfold BlockMemory.restore BlockStore.mark
  rw [restore_buffers hlocal h.localTypes.addresses, restore_buffers htypes h.typeSlots.addresses,
    restore_buffers hobjects h.objectSlots.addresses,
    restore_buffers hmembers h.memberSlots.addresses]

theorem Later.restore {marked : StackState} (h : marked.Later s) (hmarked : marked.Holds) :
    marked.SameContents (s.restore marked) where
  valid := h.grown.valid
  records := BlockStore.restore_records h.grown
  pages := BlockStore.restore_samePages h.grown
  localTypes := TypedPageStore.restore_size _ _
  typeSlots := TypedPageStore.restore_size _ _
  objectSlots := TypedPageStore.restore_size _ _
  memberSlots := TypedPageStore.restore_size _ _
  memory := restore_memory hmarked h.localTypes h.typeSlots h.objectSlots h.memberSlots

end StackState

/-! ## Appends -/

namespace BlockStore
variable {store grown : BlockStore} {data : InterfaceData} {parts : BlockView} {faults : BlockFaults}

theorem appendParts_ok (h : store.appendParts faults data = (grown, .ok parts)) :
    store.localTypes.append faults.localTypes data.localTypes =
        (grown.localTypes, .ok parts.localTypes) ∧
      store.typeSlots.append faults.typeSlots data.typeSlots =
        (grown.typeSlots, .ok parts.typeSlots) ∧
      store.objectSlots.append faults.objectSlots data.objectSlots =
        (grown.objectSlots, .ok parts.objectSlots) ∧
      store.memberSlots.append faults.memberSlots data.memberSlots =
        (grown.memberSlots, .ok parts.memberSlots) ∧
      grown.records = store.records ∧ grown.valid = store.valid := by
  unfold appendParts at h
  cases hlocal : store.localTypes.append faults.localTypes data.localTypes with
  | mk localTypes result =>
  rw [hlocal] at h
  cases result with
  | error => cases h
  | ok localRange =>
  cases htypes : store.typeSlots.append faults.typeSlots data.typeSlots with
  | mk typeSlots result =>
  dsimp only at h
  rw [htypes] at h
  cases result with
  | error => cases h
  | ok typeRange =>
  cases hobjects : store.objectSlots.append faults.objectSlots data.objectSlots with
  | mk objectSlots result =>
  rw [hobjects] at h
  cases result with
  | error => cases h
  | ok objectRange =>
  cases hmembers : store.memberSlots.append faults.memberSlots data.memberSlots with
  | mk memberSlots result =>
  dsimp only at h
  rw [hmembers] at h
  cases result with
  | error => cases h
  | ok memberRange =>
  cases h
  exact ⟨rfl, rfl, rfl, rfl, rfl, rfl⟩

def recordOf (source : Nat) (parts : BlockView) : BlockRecord :=
  ⟨source, parts.localTypes, parts.typeSlots, parts.objectSlots, parts.memberSlots⟩

theorem append_cases (faults : BlockFaults) (store : BlockStore) (source : Nat)
    (data : InterfaceData) :
    (∃ grown parts, store.valid = true ∧ source ≠ 0 ∧ store.records.length < u32Max ∧
      store.appendParts faults data = (grown, .ok parts) ∧
      store.append faults source data =
        ({ grown with records := grown.records ++ [recordOf source parts] },
          .ok (grown.records.length + 1))) ∨
      ∃ code, store.append faults source data = (store, .error code) ∨
        store.append faults source data =
          ((store.appendParts faults data).1.restorePages store.mark, .error code) := by
  unfold append
  split
  · exact .inr ⟨_, .inl rfl⟩
  rename_i hvalid
  split
  · exact .inr ⟨_, .inl rfl⟩
  rename_i hsource
  split
  · exact .inr ⟨_, .inl rfl⟩
  rename_i hroom
  cases hparts : store.appendParts faults data with
  | mk grown result =>
  cases result with
  | error code => exact .inr ⟨code, .inr rfl⟩
  | ok parts =>
    dsimp only
    split
    · exact .inr ⟨_, .inr rfl⟩
    · exact .inl ⟨grown, parts, by simpa using hvalid, hsource, Nat.lt_of_not_le hroom, rfl, rfl⟩

end BlockStore

namespace StackState
variable {s s' : StackState}

theorem appendBuffers_front {T : Type} {store : TypedPageStore T} {buffers : List Nat}
    (hfits : store.Fits) (faults : PageFaults) (grant : PageGrant) (values : List T) :
    buffers <+: store.appendBuffers faults grant values buffers :=
  (TypedPageStore.append_appended faults grant hfits values buffers).front

theorem appendParts_front (h : s.Holds) (faults : BlockFaults) (grants : BlockGrants)
    (data : InterfaceData) :
    s.memory.localTypes <+: (s.memory.appendParts faults grants s.store data).localTypes ∧
      s.memory.typeSlots <+: (s.memory.appendParts faults grants s.store data).typeSlots ∧
      s.memory.objectSlots <+: (s.memory.appendParts faults grants s.store data).objectSlots ∧
      s.memory.memberSlots <+: (s.memory.appendParts faults grants s.store data).memberSlots := by
  unfold BlockMemory.appendParts
  dsimp only
  refine ⟨appendBuffers_front h.localTypes.fits _ _ _, ?_, ?_, ?_⟩
  · split
    · exact appendBuffers_front h.typeSlots.fits _ _ _
    · exact List.prefix_refl _
  · split
    · exact appendBuffers_front h.objectSlots.fits _ _ _
    · exact List.prefix_refl _
  · split
    · exact appendBuffers_front h.memberSlots.fits _ _ _
    · exact List.prefix_refl _

variable {source : Nat} {code : StatusCode}

theorem append_memory_failed (h : s.Holds) {faults : BlockFaults} {data : InterfaceData}
    (hfailed : (s.store.append faults source data).2 = .error code) (grants : BlockGrants) :
    s.memory.append faults grants s.store source data = s.memory := by
  obtain ⟨hlocal, htypes, hobjects, hmembers⟩ := appendParts_front h faults grants data
  unfold BlockMemory.append
  split
  · rfl
  split
  · rfl
  split
  · rfl
  · rw [hfailed]
    exact restore_memory h hlocal htypes hobjects hmembers

theorem append_failed (h : s.Holds) {faults : BlockFaults} {data : InterfaceData}
    (hfailed : (s.store.append faults source data).2 = .error code) (grants : BlockGrants) :
    s.SameContents (s.append faults grants source data) ∧
      (s.append faults grants source data).blocks = s.blocks := by
  have hmemory := append_memory_failed h hfailed grants
  obtain ⟨grown, parts, -, -, -, -, happend⟩ | ⟨code', happend⟩ :=
    BlockStore.append_cases faults s.store source data
  · rw [happend] at hfailed
    cases hfailed
  obtain happend | happend := happend
  · unfold append
    rw [hmemory, happend]
    exact ⟨s.sameContents_refl, rfl⟩
  · obtain ⟨hgrown, hrecords, -⟩ := BlockStore.appendParts_spec faults s.store data
    unfold append
    rw [hmemory, happend]
    refine ⟨⟨hgrown.valid, hrecords, ?_, ?_, ?_, ?_, ?_, rfl⟩, rfl⟩
    · exact ⟨TypedPageStore.restore_mark hgrown.localTypes,
        TypedPageStore.restore_mark hgrown.typeSlots,
        TypedPageStore.restore_mark hgrown.objectSlots,
        TypedPageStore.restore_mark hgrown.memberSlots⟩
    all_goals exact TypedPageStore.restore_size _ _

variable {i : Nat} {record : BlockRecord}

theorem view_ok (store : BlockStore) (hvalid : store.valid = true)
    (hrecord : store.records[i]? = some record) {data : InterfaceData}
    (hlocal : store.localTypes.Shows record.localTypes data.localTypes)
    (htypes : store.typeSlots.Shows record.typeSlots data.typeSlots)
    (hobjects : store.objectSlots.Shows record.objectSlots data.objectSlots)
    (hmembers : store.memberSlots.Shows record.memberSlots data.memberSlots) :
    store.view (i + 1) = .ok ⟨store.localTypes.view record.localTypes,
      store.typeSlots.view record.typeSlots, store.objectSlots.view record.objectSlots,
      store.memberSlots.view record.memberSlots⟩ := by
  have hlt := (List.getElem?_eq_some_iff.mp hrecord).1
  have hin : ¬(i + 1 = 0 || i + 1 > store.records.length) = true := by
    simp only [Bool.or_eq_true, decide_eq_true_eq, not_or]
    omega
  have hget : store.records.getD (i + 1 - 1) {} = record := by
    rw [List.getD_eq_getElem?_getD, Nat.add_sub_cancel, hrecord, Option.getD_some]
  have hpart : ∀ {T : Type} {s : TypedPageStore T} {range : BlockRange} {values : List T},
      s.Shows range values → BlockStore.partMissing range (s.view range) = false := by
    intro T s range values hs
    unfold BlockStore.partMissing
    rw [hs.view.2, hs.1]
    simp
  unfold BlockStore.view
  rw [hvalid, if_neg (by decide), if_neg hin, hget]
  dsimp only
  rw [hpart hlocal, hpart htypes, hpart hobjects, hpart hmembers, if_neg (by decide)]

variable {memory : BlockMemory} {block : Nat}

theorem append_memory_ok {store grown : BlockStore} {faults : BlockFaults} {data : InterfaceData}
    {parts : BlockView} (hvalid : store.valid = true) (hsource : source ≠ 0)
    (hroom : store.records.length < u32Max)
    (hparts : store.appendParts faults data = (grown, .ok parts))
    (hok : (store.append faults source data).2 = .ok block) (grants : BlockGrants) :
    memory.append faults grants store source data =
      ⟨store.localTypes.appendBuffers faults.localTypes grants.localTypes data.localTypes
          memory.localTypes,
        store.typeSlots.appendBuffers faults.typeSlots grants.typeSlots data.typeSlots
          memory.typeSlots,
        store.objectSlots.appendBuffers faults.objectSlots grants.objectSlots data.objectSlots
          memory.objectSlots,
        store.memberSlots.appendBuffers faults.memberSlots grants.memberSlots data.memberSlots
          memory.memberSlots⟩ := by
  obtain ⟨hlocal, htypes, hobjects, -, -, -⟩ := BlockStore.appendParts_ok hparts
  unfold BlockMemory.append
  rw [hvalid, if_neg (by decide), if_neg hsource, if_neg (Nat.not_le.mpr hroom), hok]
  have hdone : (Except.ok block : Except StatusCode Nat).isOk = true := rfl
  unfold BlockMemory.appendParts
  rw [hlocal, htypes, hobjects]
  rfl

theorem recordLocation_grow {block : PlacedBlock} (h : s.Holds)
    (hrecord : s.store.records[i]? = some record) (hblock : s.blocks[i]? = some block)
    (hlocal : s.memory.localTypes <+: memory.localTypes)
    (htypes : s.memory.typeSlots <+: memory.typeSlots)
    (hobjects : s.memory.objectSlots <+: memory.objectSlots)
    (hmembers : s.memory.memberSlots <+: memory.memberSlots) :
    recordLocation memory record = recordLocation s.memory record := by
  have hshown := h.shows hrecord hblock
  unfold recordLocation
  rw [TypedPageStore.locate_grow hshown.1 h.localTypes.addresses hlocal,
    TypedPageStore.locate_grow hshown.2.1 h.typeSlots.addresses htypes,
    TypedPageStore.locate_grow hshown.2.2.1 h.objectSlots.addresses hobjects,
    TypedPageStore.locate_grow hshown.2.2.2 h.memberSlots.addresses hmembers]

theorem locate_views {store : BlockStore} {data : InterfaceData}
    (hlocal : store.localTypes.Shows record.localTypes data.localTypes)
    (htypes : store.typeSlots.Shows record.typeSlots data.typeSlots)
    (hobjects : store.objectSlots.Shows record.objectSlots data.objectSlots)
    (hmembers : store.memberSlots.Shows record.memberSlots data.memberSlots) :
    memory.locate ⟨store.localTypes.view record.localTypes, store.typeSlots.view record.typeSlots,
      store.objectSlots.view record.objectSlots, store.memberSlots.view record.memberSlots⟩ =
        recordLocation memory record := by
  unfold BlockMemory.locate recordLocation
  rw [TypedPageStore.locate_view hlocal, TypedPageStore.locate_view htypes,
    TypedPageStore.locate_view hobjects, TypedPageStore.locate_view hmembers]

theorem append_ok {faults : BlockFaults} {data : InterfaceData}
    (hok : (s.store.append faults source data).2 = .ok block) (grants : BlockGrants) :
    ∃ grown parts, s.store.valid = true ∧ s.store.appendParts faults data = (grown, .ok parts) ∧
      s.append faults grants source data =
        { store := { grown with records := grown.records ++ [BlockStore.recordOf source parts] }
          memory := s.memory.append faults grants s.store source data
          blocks := s.blocks ++ [⟨source, data, location
            { grown with records := grown.records ++ [BlockStore.recordOf source parts] }
            (s.memory.append faults grants s.store source data) (grown.records.length + 1)⟩] } ∧
      s.memory.append faults grants s.store source data =
        ⟨s.store.localTypes.appendBuffers faults.localTypes grants.localTypes data.localTypes
            s.memory.localTypes,
          s.store.typeSlots.appendBuffers faults.typeSlots grants.typeSlots data.typeSlots
            s.memory.typeSlots,
          s.store.objectSlots.appendBuffers faults.objectSlots grants.objectSlots data.objectSlots
            s.memory.objectSlots,
          s.store.memberSlots.appendBuffers faults.memberSlots grants.memberSlots data.memberSlots
            s.memory.memberSlots⟩ := by
  obtain ⟨grown, parts, hvalid, hsource, hroom, hparts, happend⟩ | ⟨code, happend⟩ :=
    BlockStore.append_cases faults s.store source data
  · refine ⟨grown, parts, hvalid, hparts, ?_,
      append_memory_ok hvalid hsource hroom hparts hok grants⟩
    unfold append
    rw [happend]
  · obtain happend | happend := happend <;> rw [happend] at hok <;> cases hok

theorem append_later (h : s.Holds) {faults : BlockFaults} {data : InterfaceData}
    (hok : (s.store.append faults source data).2 = .ok block) (grants : BlockGrants) :
    s.Later (s.append faults grants source data) := by
  obtain ⟨hgrown, -⟩ := BlockStore.append_spec faults s.store source data
  have hstore : (s.append faults grants source data).store = (s.store.append faults source data).1 := by
    unfold append
    split
    rename_i happend
    rw [happend]
    split <;> rfl
  obtain ⟨grown, parts, -, -, happend, hmemory⟩ := append_ok hok grants
  rw [← hstore] at hgrown
  rw [hmemory] at happend
  rw [happend] at hgrown ⊢
  exact ⟨hgrown, appendBuffers_front h.localTypes.fits _ _ _,
    appendBuffers_front h.typeSlots.fits _ _ _, appendBuffers_front h.objectSlots.fits _ _ _,
    appendBuffers_front h.memberSlots.fits _ _ _, List.prefix_append _ _⟩

theorem append_holds (h : s.Holds) {faults : BlockFaults} {data : InterfaceData}
    (hok : (s.store.append faults source data).2 = .ok block) (grants : BlockGrants) :
    (s.append faults grants source data).Holds := by
  have hlater := append_later h hok grants
  obtain ⟨grown, parts, hvalid, hparts, happend, hmemory⟩ := append_ok hok grants
  obtain ⟨hlocal, htypes, hobjects, hmembers, hrecords, hgrownValid⟩ :=
    BlockStore.appendParts_ok hparts
  have hlocalHolds :=
    h.localTypes.append faults.localTypes grants.localTypes (congrArg Prod.snd hlocal)
  have htypesHolds :=
    h.typeSlots.append faults.typeSlots grants.typeSlots (congrArg Prod.snd htypes)
  have hobjectsHolds :=
    h.objectSlots.append faults.objectSlots grants.objectSlots (congrArg Prod.snd hobjects)
  have hmembersHolds :=
    h.memberSlots.append faults.memberSlots grants.memberSlots (congrArg Prod.snd hmembers)
  obtain ⟨-, -, hshows⟩ := BlockStore.appendParts_spec faults s.store data
  rw [hlocal] at hlocalHolds
  rw [htypes] at htypesHolds
  rw [hobjects] at hobjectsHolds
  rw [hmembers] at hmembersHolds
  rw [hparts] at hshows
  have hnew := hshows parts rfl
  have hmaps {R : Type} (f : BlockRecord → R) :
      (grown.records ++ [BlockStore.recordOf source parts]).map f =
        s.store.records.map f ++ [f (BlockStore.recordOf source parts)] := by
    rw [hrecords, List.map_append, List.map_singleton]
  rw [happend] at hlater ⊢
  refine ⟨?_, ?_, ?_, ?_, ?_, ?_, ?_⟩
  · rw [hmemory, hmaps, List.map_append]
    exact hlocalHolds
  · rw [hmemory, hmaps, List.map_append]
    exact htypesHolds
  · rw [hmemory, hmaps, List.map_append]
    exact hobjectsHolds
  · rw [hmemory, hmaps, List.map_append]
    exact hmembersHolds
  · rw [hmaps, List.map_append, h.sources]
    rfl
  · intro i record block hrecord hblock
    have hlength : s.store.records.length = s.blocks.length := h.records_length
    rw [hrecords] at hrecord
    by_cases hold : i < s.blocks.length
    · rw [List.getElem?_append_left (by rw [hlength]; exact hold)] at hrecord
      rw [List.getElem?_append_left hold] at hblock
      rw [recordLocation_grow h hrecord hblock hlater.localTypes hlater.typeSlots hlater.objectSlots
        hlater.memberSlots]
      exact h.located i record block hrecord hblock
    · have hlt := (List.getElem?_eq_some_iff.mp hblock).1
      rw [List.length_append, List.length_singleton] at hlt
      obtain rfl : i = s.blocks.length := by omega
      rw [List.getElem?_concat_length] at hblock
      rw [← hlength, List.getElem?_concat_length] at hrecord
      cases hblock
      cases hrecord
      have hview := view_ok
        { grown with records := grown.records ++ [BlockStore.recordOf source parts] }
        (hgrownValid.trans hvalid) (List.getElem?_concat_length) hnew.localTypes hnew.typeSlots
        hnew.objectSlots hnew.memberSlots
      unfold location
      rw [hview]
      exact (locate_views hnew.localTypes hnew.typeSlots hnew.objectSlots hnew.memberSlots).symm
  · intro hinvalid
    rw [hgrownValid.trans hvalid] at hinvalid
    cases hinvalid

/-! ## What a client sees -/

def layoutAfter (before : List PlacedBlock) (block : PlacedBlock) : BlockLayout where
  source := block.source
  localTypes := ⟨(before.flatMap (·.data.localTypes)).length, block.data.localTypes.length⟩
  typeSlots := ⟨(before.flatMap (·.data.typeSlots)).length, block.data.typeSlots.length⟩
  objectSlots := ⟨(before.flatMap (·.data.objectSlots)).length, block.data.objectSlots.length⟩
  memberSlots := ⟨(before.flatMap (·.data.memberSlots)).length, block.data.memberSlots.length⟩

/-- The block of this number is shown as it was appended and where it was put. -/
structure Presents (s : StackState) (i : Nat) (block : PlacedBlock) : Prop where
  view : ∃ view, s.store.view (i + 1) = .ok view ∧ s.store.read view = block.data ∧
    s.memory.locate view = block.location
  source : s.store.source (i + 1) = block.source
  layout : s.store.layout (i + 1) = .ok (layoutAfter (s.blocks.take i) block)

/-- The pages of an arena, one after the other, hold the parts of the blocks in order. -/
def Concatenates {T : Type} (store : TypedPageStore T) (blocks : List PlacedBlock)
    (part : InterfaceData → List T) : Prop :=
  store.pages.flatMap (·.items) = blocks.flatMap (part ·.data) ∧
    store.logicalSize = (blocks.flatMap (part ·.data)).length

structure Faithful (s : StackState) : Prop where
  count : s.store.records.length = s.blocks.length
  presents : ∀ (i : Nat) (block : PlacedBlock), s.blocks[i]? = some block → s.Presents i block
  localTypes : Concatenates s.store.localTypes s.blocks (·.localTypes)
  typeSlots : Concatenates s.store.typeSlots s.blocks (·.typeSlots)
  objectSlots : Concatenates s.store.objectSlots s.blocks (·.objectSlots)
  memberSlots : Concatenates s.store.memberSlots s.blocks (·.memberSlots)

theorem Holds.presents (h : s.Holds) {block : PlacedBlock} (hblock : s.blocks[i]? = some block) :
    s.Presents i block := by
  have hlt := (List.getElem?_eq_some_iff.mp hblock).1
  have hvalid : s.store.valid = true := by
    cases hvalid : s.store.valid with
    | true => rfl
    | false =>
      rw [h.valid hvalid] at hblock
      cases hblock
  obtain ⟨record, hrecord⟩ : ∃ record, s.store.records[i]? = some record :=
    ⟨_, List.getElem?_eq_getElem (by rw [h.records_length]; exact hlt)⟩
  obtain ⟨hlocal, htypes, hobjects, hmembers⟩ := h.shows hrecord hblock
  have hin : ¬(i + 1 = 0 || i + 1 > s.store.records.length) = true := by
    simp only [Bool.or_eq_true, decide_eq_true_eq, not_or]
    rw [h.records_length]
    omega
  have hget : s.store.records.getD (i + 1 - 1) {} = record := by
    rw [List.getD_eq_getElem?_getD, Nat.add_sub_cancel, hrecord, Option.getD_some]
  have hsource : record.source = block.source := by
    have hat := congrArg (·[i]?) h.sources
    simp only [List.getElem?_map, hrecord, hblock, Option.map_some] at hat
    exact Option.some.inj hat
  refine ⟨⟨_, view_ok s.store hvalid hrecord hlocal htypes hobjects hmembers, ?_, ?_⟩, ?_, ?_⟩
  · exact BlockStore.Shows.read_eq
      ⟨hlocal.view.1, htypes.view.1, hobjects.view.1, hmembers.view.1⟩
  · rw [locate_views hlocal htypes hobjects hmembers]
    exact h.located i record block hrecord hblock
  · unfold BlockStore.source
    rw [hvalid, if_neg (by decide), if_neg hin, hget, hsource]
  · unfold BlockStore.layout layoutAfter
    rw [hvalid, if_neg (by decide), if_neg hin, hget]
    dsimp only
    rw [hsource, (h.localTypes.at_record hrecord hblock).2, hlocal.1,
      (h.typeSlots.at_record hrecord hblock).2, htypes.1,
      (h.objectSlots.at_record hrecord hblock).2, hobjects.1,
      (h.memberSlots.at_record hrecord hblock).2, hmembers.1]

theorem Holds.concatenates {T : Type} {store : TypedPageStore T} {buffers : List Nat}
    {ranges : List BlockRange} {blocks : List PlacedBlock} {part : InterfaceData → List T}
    (h : store.Holds buffers ranges (blocks.map (part ·.data))) : Concatenates store blocks part := by
  unfold Concatenates
  exact ⟨h.items, h.size⟩

theorem Holds.faithful (h : s.Holds) : s.Faithful where
  count := h.records_length
  presents _ _ hblock := h.presents hblock
  localTypes := Holds.concatenates h.localTypes
  typeSlots := Holds.concatenates h.typeSlots
  objectSlots := Holds.concatenates h.objectSlots
  memberSlots := Holds.concatenates h.memberSlots

end StackState

/-! ## Runs -/

namespace StackRun

structure Sound (r : StackRun) : Prop where
  now : r.now.Holds
  marks : ∀ marked ∈ r.marks, marked.Holds
  chained : Checkpoints.Chained StackState.Later r.now r.marks

theorem start_sound (pageBytes : Nat) (valid : Bool) : (start pageBytes valid).Sound where
  now := by
    have hempty {T : Type} (store : TypedPageStore T) (hpages : store.pages = [])
        (hsize : store.logicalSize = 0) : store.Holds [] [] [] := by
      refine ⟨by rw [hpages]; rfl, hsize, by rw [hpages]; rfl, ?_, rfl, fun i range part h => by cases h⟩
      intro page hpage
      rw [hpages] at hpage
      cases hpage
    exact ⟨hempty _ rfl rfl, hempty _ rfl rfl, hempty _ rfl rfl, hempty _ rfl rfl, rfl,
      fun i record block h => (by cases h), fun _ => rfl⟩
  marks marked h := by cases h
  chained := Checkpoints.chained_start _

variable {r : StackRun} {marked : StackState}

theorem restore_marked (h : r.Sound) (hmarked : marked ∈ r.marks) :
    marked.SameContents (r.now.restore marked) :=
  (h.chained.earlier hmarked).restore (h.marks marked hmarked)

variable {depth : Nat}

theorem step_restore (h : r.marks[depth]? = some marked) :
    r.step (.restore depth) = { now := r.now.restore marked, marks := r.marks.drop depth } := by
  simp only [step, h]

theorem step_restore_none (h : r.marks[depth]? = none) : r.step (.restore depth) = r := by
  simp only [step, h]

theorem step_sound (h : r.Sound) (op : StackOp) : (r.step op).Sound := by
  cases op with
  | append faults grants source data =>
    cases hresult : (r.now.store.append faults source data).2 with
    | error code =>
      obtain ⟨hsame, hblocks⟩ := StackState.append_failed h.now hresult grants
      exact ⟨h.now.of_contents hsame hblocks, h.marks,
        h.chained.advance StackState.Later.trans (hsame.later hblocks)⟩
    | ok block =>
      exact ⟨StackState.append_holds h.now hresult grants, h.marks,
        h.chained.advance StackState.Later.trans (StackState.append_later h.now hresult grants)⟩
  | mark =>
    refine ⟨h.now, fun marked hmarked => ?_, h.chained.mark StackState.later_refl⟩
    cases hmarked with
    | head => exact h.now
    | tail _ hmarked => exact h.marks marked hmarked
  | restore depth =>
    cases hmarked : r.marks[depth]? with
    | none =>
      rw [step_restore_none hmarked]
      exact h
    | some marked =>
      rw [step_restore hmarked]
      have hmem := List.mem_of_getElem? hmarked
      have hsame := restore_marked h hmem
      refine ⟨(h.marks marked hmem).of_contents hsame rfl, fun other hother => ?_, ?_⟩
      · exact h.marks other (List.mem_of_mem_drop hother)
      · have hlater : marked.Later (r.now.restore marked) := hsame.later rfl
        exact Checkpoints.Chained.restore (fun h h' => h.trans h') h.chained hmarked hlater

theorem run_sound (h : r.Sound) (ops : List StackOp) : (run r ops).Sound := by
  induction ops generalizing r with
  | nil => exact h
  | cons op ops ih => exact ih (step_sound h op)

def reached (pageBytes : Nat) (valid : Bool) (ops : List StackOp) : StackRun :=
  run (start pageBytes valid) ops

/-- After any operations of a client, with any allocations failing, the store is the stack of the
blocks that were not rolled back; a failed append changes nothing; a restore brings back what was
there at its mark, whose blocks are the first of those there now. -/
theorem block_store_stack (pageBytes : Nat) (valid : Bool) (ops : List StackOp) :
    (reached pageBytes valid ops).now.Faithful ∧
    (∀ faults grants source data code,
      ((reached pageBytes valid ops).now.store.append faults source data).2 = .error code →
        (reached pageBytes valid ops).now.SameContents
          ((reached pageBytes valid ops).step (.append faults grants source data)).now ∧
        ((reached pageBytes valid ops).step (.append faults grants source data)).now.blocks =
          (reached pageBytes valid ops).now.blocks) ∧
    ∀ depth marked, (reached pageBytes valid ops).marks[depth]? = some marked →
      marked.SameContents ((reached pageBytes valid ops).step (.restore depth)).now ∧
      ((reached pageBytes valid ops).step (.restore depth)).now.blocks = marked.blocks ∧
      marked.blocks <+: (reached pageBytes valid ops).now.blocks := by
  have hsound : (reached pageBytes valid ops).Sound := run_sound (start_sound pageBytes valid) ops
  refine ⟨hsound.now.faithful, ?_, ?_⟩
  · intro faults grants source data code hfailed
    exact StackState.append_failed hsound.now hfailed grants
  · intro depth marked hmarked
    have hmem := List.mem_of_getElem? hmarked
    rw [step_restore hmarked]
    exact ⟨restore_marked hsound hmem, rfl, (hsound.chained.earlier hmem).blocks⟩

end StackRun
end ServerEngine

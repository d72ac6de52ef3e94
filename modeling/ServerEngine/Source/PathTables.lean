import ServerEngine.Library.ProbedTable
import ServerEngine.Source.PathIndex

/-! # Tables of paths

The tables of the path index hold sources under their paths, at most half full. So the insertion
loops end, lookups are exact, and insertions at reserved positions fill the table that inserting one
after the other would.
-/
namespace ServerEngine
open ProbedTable

/-! ## Capacities -/

namespace SourceManagerUpdate

theorem nextCapacityLoop_spec {fuel required capacity k : Nat} (hc : capacity = 2 ^ k)
    (h : nextCapacityLoop fuel required capacity ≠ 0) :
    ∃ n, nextCapacityLoop fuel required capacity = 2 ^ n ∧ required ≤ 2 ^ n := by
  induction fuel generalizing capacity k with
  | zero => exact absurd rfl h
  | succ fuel ih =>
    rw [nextCapacityLoop] at h ⊢
    by_cases hlt : capacity < required
    · rw [if_pos hlt] at h ⊢
      by_cases hover : sizeMax / 2 < capacity
      · rw [if_pos hover] at h
        exact absurd rfl h
      · rw [if_neg hover] at h ⊢
        have hdouble : capacity * 2 = 2 ^ (k + 1) := by rw [hc, Nat.pow_succ]
        exact ih hdouble h
    · rw [if_neg hlt]
      exact ⟨k, hc, by omega⟩

theorem nextCapacity_spec {required : Nat} (h : nextCapacity required ≠ 0) :
    ∃ n, nextCapacity required = 2 ^ n ∧ required ≤ 2 ^ n :=
  @nextCapacityLoop_spec 64 required 16 4 rfl h

end SourceManagerUpdate

def pathFormat (path : Nat → Bytes) : Format PathSlot Bytes where
  empty := {}
  free slot := slot.source == 0
  key slot := path slot.source
  hash := hashPath

def localPath (items : List NewSource) (index : Nat) : Bytes :=
  ((items[index - 1]?).map (·.normalizedPath)).getD []

def localFormat (items : List NewSource) : Format LocalPathSlot Bytes where
  empty := {}
  free slot := slot.newSourceIndex == 0
  key slot := localPath items slot.newSourceIndex
  hash := hashPath

variable {p : Bytes}

theorem placePath_eq {path : Nat → Bytes} {source : Nat} (h : path source = p)
    (slots : List PathSlot) : placePath slots p source =
      (insertFree (pathFormat path) slots (pathSlot p source)).elim (.error .endless) .ok := by
  have htaken : (fun position => !decide ((slots.getD position {}).source ≠ 0)) =
      fun position => (pathFormat path).free (slotAt (pathFormat path) slots position) := by
    funext position
    show (!decide ((slots.getD position {}).source ≠ 0)) = ((slots.getD position {}).source == 0)
    rw [Bool.eq_iff_iff]
    simp
  have hkey : (pathFormat path).key (pathSlot p source) = p := h
  unfold placePath freePosition insertFree
  rw [htaken, hkey]
  show _ = ((Probing.stopAt _ (slots.length - 1) slots.length
    (hashPath p &&& (slots.length - 1))).map _).elim _ _
  cases Probing.stopAt _ (slots.length - 1) slots.length (hashPath p &&& (slots.length - 1)) <;> rfl

variable {items : List NewSource} {index : Nat}

theorem placeLocalPath_eq (h : localPath items index = p) (slots : List LocalPathSlot) :
    placeLocalPath slots p index =
      (insertFree (localFormat items) slots (localPathSlot p index)).elim (.error .endless) .ok := by
  have htaken : (fun position => !decide ((slots.getD position {}).newSourceIndex ≠ 0)) =
      fun position => (localFormat items).free (slotAt (localFormat items) slots position) := by
    funext position
    show (!decide ((slots.getD position {}).newSourceIndex ≠ 0)) =
      ((slots.getD position {}).newSourceIndex == 0)
    rw [Bool.eq_iff_iff]
    simp
  have hkey : (localFormat items).key (localPathSlot p index) = p := h
  unfold placeLocalPath freePosition insertFree
  rw [htaken, hkey]
  show _ = ((Probing.stopAt _ (slots.length - 1) slots.length
    (hashPath p &&& (slots.length - 1))).map _).elim _ _
  cases Probing.stopAt _ (slots.length - 1) slots.length (hashPath p &&& (slots.length - 1)) <;> rfl

theorem foldlM_place {S ι : Type} {f : Format S Bytes} {value : ι → S} {items : List ι}
    {place : List S → ι → Except PathFailure (List S)}
    (h : ∀ slots, ∀ x ∈ items, place slots x =
      (insertFree f slots (value x)).elim (.error .endless) .ok)
    {slots result : List S} (hrun : (items.map value).foldlM (insertFree f) slots = some result) :
    items.foldlM place slots = .ok result := by
  induction items generalizing slots with
  | nil =>
    cases hrun
    rfl
  | cons x items ih =>
    rw [List.map_cons, List.foldlM_cons] at hrun
    obtain ⟨next, hnext, hrest⟩ := Option.bind_eq_some_iff.mp hrun
    rw [List.foldlM_cons, h slots x (by simp), hnext]
    exact ih (fun slots y hy => h slots y (by simp [hy])) hrest

/-! ## The index of the manager -/

structure IndexOf (path : Nat → Bytes) (slots : List PathSlot) (sources : List Nat) : Prop where
  table : Table (pathFormat path) slots (sources.map fun source => pathSlot (path source) source)
  half : 2 * sources.length ≤ slots.length
  valid : ∀ source ∈ sources, source ≠ 0

theorem IndexOf.congr {path path' : Nat → Bytes} {slots : List PathSlot} {sources : List Nat}
    (h : IndexOf path slots sources) (hpath : ∀ source ∈ sources, path' source = path source) :
    IndexOf path' slots sources := by
  refine ⟨?_, h.half, h.valid⟩
  have hslots : (sources.map fun source => pathSlot (path' source) source) =
      sources.map fun source => pathSlot (path source) source := by
    apply List.map_congr_left
    intro source hs
    rw [hpath source hs]
  rw [hslots]
  refine h.table.congr (g := pathFormat path') rfl rfl rfl fun e he => ?_
  obtain ⟨source, hs, rfl⟩ := List.mem_map.mp he
  exact hpath source hs

theorem IndexOf.place {path : Nat → Bytes} {slots : List PathSlot} {sources more : List Nat}
    (h : IndexOf path slots sources) (hhalf : 2 * (sources.length + more.length) ≤ slots.length)
    (hpaths : ((sources ++ more).map path).Nodup) (hvalid : ∀ source ∈ more, source ≠ 0) :
    ∃ slots', (more.map fun source => pathSlot (path source) source).foldlM
        (insertFree (pathFormat path)) slots = some slots' ∧
      slots'.length = slots.length ∧ IndexOf path slots' (sources ++ more) := by
  have hkeys : (((sources.map fun source => pathSlot (path source) source) ++
      more.map fun source => pathSlot (path source) source).map (pathFormat path).key).Nodup := by
    rw [← List.map_append, List.map_map]
    exact hpaths
  obtain ⟨slots', hrun, hlen, htable⟩ := h.table.insertAll
    (by rw [List.length_map, List.length_map]; omega) hkeys (by
      intro e he
      obtain ⟨source, hs, rfl⟩ := List.mem_map.mp he
      exact beq_eq_false_iff_ne.mpr (hvalid source hs))
  refine ⟨slots', hrun, hlen, ⟨?_, ?_, fun source hs => ?_⟩⟩
  · rw [List.map_append]
    exact htable
  · rw [List.length_append, hlen]
    exact hhalf
  · cases List.mem_append.mp hs with
    | inl hs => exact h.valid source hs
    | inr hs => exact hvalid source hs

theorem indexOf_replicate (path : Nat → Bytes) (n : Nat) :
    IndexOf path (List.replicate (2 ^ n) {}) [] :=
  ⟨table_replicate (f := pathFormat path) rfl n, Nat.zero_le _, by simp⟩

namespace SourceManager

variable {m : SourceManager} {index : List PathSlot}

theorem findLoop_eq
    (hmark : ∀ position, (index.getD position {}).source ≠ 0 → (index.getD position {}).fingerprint = pathFingerprint (hashPath (m.path (index.getD position {}).source)))
    (p : Bytes) (fuel position : Nat) : m.findLoop p index fuel position =
      match Probing.stopAt (stops (pathFormat m.path) index p) (index.length - 1) fuel position with
      | none => none
      | some position => if (index.getD position {}).source = 0 then none
        else some (index.getD position {}).source := by
  induction fuel generalizing position with
  | zero => rfl
  | succ fuel ih =>
    rw [findLoop, Probing.stopAt]
    have hstops : stops (pathFormat m.path) index p position =
        (decide ((index.getD position {}).source = 0) ||
          decide (m.path (index.getD position {}).source = p)) := rfl
    by_cases hfree : (index.getD position {}).source = 0
    · rw [if_pos hfree, hstops, decide_eq_true hfree, Bool.true_or, if_pos rfl]
      dsimp only
      rw [if_pos hfree]
    · by_cases hpath : m.path (index.getD position {}).source = p
      · have hmarked := hmark position hfree
        rw [hpath] at hmarked
        rw [if_neg hfree, if_pos (Bool.and_eq_true_iff.mpr
          ⟨decide_eq_true hmarked, decide_eq_true hpath⟩), hstops, decide_eq_true hpath,
          Bool.or_true, if_pos rfl]
        dsimp only
        rw [if_neg hfree]
      · rw [if_neg hfree, if_neg fun hboth => hpath
          (of_decide_eq_true (Bool.and_eq_true_iff.mp hboth).2), hstops, decide_eq_false hfree,
          decide_eq_false hpath, Bool.or_false, if_neg Bool.false_ne_true, ih]
        rfl

theorem findInIndex_iff {sources : List Nat} (h : IndexOf m.path index sources) {p : Bytes}
    (hp : p ≠ []) {source : Nat} :
    m.findInIndex p index = some source ↔ source ∈ sources ∧ m.path source = p := by
  have hmark : ∀ position, (index.getD position {}).source ≠ 0 →
      (index.getD position {}).fingerprint =
        pathFingerprint (hashPath (m.path (index.getD position {}).source)) := by
    intro position hne
    have hstored := h.table.stored position (beq_eq_false_iff_ne.mpr hne)
    obtain ⟨s, -, hs⟩ := List.mem_map.mp hstored
    have hslot : index.getD position {} = pathSlot (m.path s) s := hs.symm
    rw [hslot]
    rfl
  have hne : index ≠ [] := by
    rintro rfl
    have := h.table.length_pos
    cases this
  have hfind : m.findInIndex p index =
      (ProbedTable.find (pathFormat m.path) index p).map (·.source) := by
    have hhash : (pathFormat m.path).hash p = hashPath p := rfl
    unfold findInIndex
    rw [if_neg (by simp [hp, hne]), findLoop_eq hmark, ProbedTable.find, probe, hhash]
    cases Probing.stopAt _ (index.length - 1) index.length (hashPath p &&& (index.length - 1)) with
    | none => rfl
    | some position =>
      dsimp only
      have hslot : slotAt (pathFormat m.path) index position = index.getD position {} := rfl
      have hfree : (pathFormat m.path).free (index.getD position {}) =
          ((index.getD position {}).source == 0) := rfl
      rw [hslot, hfree]
      by_cases hz : (index.getD position {}).source = 0
      · rw [if_pos hz, if_pos (beq_iff_eq.mpr hz)]
        rfl
      · rw [if_neg hz, if_neg fun h => hz (beq_iff_eq.mp h)]
        rfl
  rw [hfind, Option.map_eq_some_iff]
  constructor
  · rintro ⟨e, he, rfl⟩
    obtain ⟨hmem, hkey⟩ := h.table.find_eq.mp he
    obtain ⟨s, hs, rfl⟩ := List.mem_map.mp hmem
    exact ⟨hs, hkey⟩
  · rintro ⟨hs, hpath⟩
    refine ⟨pathSlot (m.path source) source, h.table.find_eq.mpr ⟨?_, hpath⟩, rfl⟩
    exact List.mem_map.mpr ⟨source, hs, rfl⟩

theorem findInIndex_nil (m : SourceManager) (p : Bytes) : m.findInIndex p [] = none := by
  unfold findInIndex
  rw [if_pos (by simp)]

end SourceManager

/-- Reserving positions against the untouched table fills it as inserting one after the other
would: `filled` is the table with the positions reserved so far taken. -/
theorem reserveInsertions_ok {path : Nat → Bytes} {index filled result : List PathSlot}
    {items : List NewSource} {reserved : List Nat} (hlength : filled.length = index.length)
    (hfree : ∀ position, (filled.getD position {}).source = 0 ↔
      (index.getD position {}).source = 0 ∧ position ∉ reserved)
    (hpath : ∀ item ∈ items, path item.source = item.normalizedPath ∧ item.source ≠ 0)
    (hrun : (items.map fun item => pathSlot item.normalizedPath item.source).foldlM
      (insertFree (pathFormat path)) filled = some result) :
    ∃ insertions, IndexedUpdate.reserveInsertions index items reserved = .ok insertions ∧
      insertions.foldl (fun slots insertion => slots.set insertion.position insertion.slot) filled =
        result := by
  induction items generalizing filled reserved with
  | nil =>
    cases hrun
    exact ⟨[], rfl, rfl⟩
  | cons item items ih =>
    obtain ⟨hname, hvalid⟩ := hpath item (by simp)
    rw [List.map_cons, List.foldlM_cons] at hrun
    obtain ⟨next, hnext, hrest⟩ := Option.bind_eq_some_iff.mp hrun
    unfold insertFree at hnext
    obtain ⟨position, hstop, rfl⟩ := Option.map_eq_some_iff.mp hnext
    have htaken : (fun position => !(decide ((index.getD position {}).source ≠ 0) ||
        reserved.contains position)) =
        fun position => (pathFormat path).free (slotAt (pathFormat path) filled position) := by
      funext q
      show (!(decide ((index.getD q {}).source ≠ 0) || reserved.contains q)) =
        decide ((filled.getD q {}).source = 0)
      rw [Bool.eq_iff_iff, decide_eq_true_iff, hfree]
      simp
    have hkey : (pathFormat path).hash ((pathFormat path).key
        (pathSlot item.normalizedPath item.source)) = hashPath item.normalizedPath :=
      congrArg hashPath hname
    rw [hkey, ← htaken, hlength] at hstop
    have hlt : position < filled.length := by
      obtain ⟨i, hi, hvisit, -⟩ := Probing.stopAt_eq_some.mp hstop
      have hle := @Probing.visit_le (index.length - 1)
        (hashPath item.normalizedPath &&& (index.length - 1)) Nat.and_le_right i
      omega
    obtain ⟨insertions, hinsertions, hresult⟩ := @ih
      (filled.set position (pathSlot item.normalizedPath item.source)) (position :: reserved)
      (by rw [List.length_set, hlength]) (by
        intro q
        rw [Slice.getD_set]
        by_cases hq : position = q
        · rw [if_pos ⟨hq, hq ▸ hlt⟩]
          have hne : (pathSlot item.normalizedPath item.source).source ≠ 0 := hvalid
          simp [hq, hne]
        · rw [if_neg fun hand => hq hand.1, hfree, List.mem_cons, not_or]
          have hne : q ≠ position := fun h => hq h.symm
          simp [hne])
      (fun x hx => hpath x (by simp [hx])) hrest
    refine ⟨⟨position, pathSlot item.normalizedPath item.source⟩ :: insertions, ?_, hresult⟩
    unfold IndexedUpdate.reserveInsertions freePosition
    rw [hstop]
    dsimp only
    rw [hinsertions]

/-! ## The index of an update -/

def localSlots (items : List NewSource) : List LocalPathSlot :=
  items.mapIdx fun index item => localPathSlot item.normalizedPath (index + 1)

structure LocalIndexOf (items : List NewSource) (slots : List LocalPathSlot) : Prop where
  table : Table (localFormat items) slots (localSlots items)
  half : 2 * items.length ≤ slots.length

theorem mem_localSlots {slot : LocalPathSlot} :
    slot ∈ localSlots items ↔ ∃ index item, items[index]? = some item ∧
      slot = localPathSlot item.normalizedPath (index + 1) := by
  rw [localSlots, List.mem_mapIdx]
  constructor
  · rintro ⟨i, hi, rfl⟩
    exact ⟨i, items[i], List.getElem?_eq_getElem hi, rfl⟩
  · rintro ⟨i, item, hitem, rfl⟩
    obtain ⟨hi, rfl⟩ := List.getElem?_eq_some_iff.mp hitem
    exact ⟨i, hi, rfl⟩

theorem localPath_of_get {item : NewSource} (h : items[index]? = some item) :
    localPath items (index + 1) = item.normalizedPath := by
  rw [localPath, Nat.add_sub_cancel, h]
  rfl

theorem localSlots_keys (items : List NewSource) :
    (localSlots items).map (localFormat items).key = items.map (·.normalizedPath) := by
  apply List.ext_getElem
  · simp [localSlots]
  · intro i h1 h2
    have hi : i < items.length := by simpa using h2
    rw [List.getElem_map, List.getElem_map]
    unfold localSlots
    rw [List.getElem_mapIdx]
    exact localPath_of_get (List.getElem?_eq_getElem hi)

theorem localSlots_append (items : List NewSource) (item : NewSource) :
    localSlots (items ++ [item]) =
      localSlots items ++ [localPathSlot item.normalizedPath (items.length + 1)] := by
  unfold localSlots
  rw [List.mapIdx_append]
  simp

theorem LocalIndexOf.widen {slots : List LocalPathSlot} (h : LocalIndexOf items slots)
    (item : NewSource) : Table (localFormat (items ++ [item])) slots (localSlots items) := by
  refine h.table.congr (g := localFormat (items ++ [item])) rfl rfl rfl fun e he => ?_
  obtain ⟨i, x, hx, rfl⟩ := mem_localSlots.mp he
  have hi := (List.getElem?_eq_some_iff.mp hx).choose
  have hwide : (items ++ [item])[i]? = some x := by
    rw [List.getElem?_append_left hi, hx]
  exact (localPath_of_get hwide).trans (localPath_of_get hx).symm

namespace IndexedUpdate

variable {i : IndexedUpdate} {p : Bytes}

theorem findLocalLoop_eq (hp : p ≠ [])
    (hmark : ∀ position, (i.localPathIndex.getD position {}).newSourceIndex ≠ 0 → (i.localPathIndex.getD position {}).fingerprint = pathFingerprint (hashPath (localPath i.update.newSources (i.localPathIndex.getD position {}).newSourceIndex)))
    (fuel position : Nat) : i.findLocalLoop p fuel position =
      match Probing.stopAt (stops (localFormat i.update.newSources) i.localPathIndex p)
        (i.localPathIndex.length - 1) fuel position with
      | none => none
      | some position => if (i.localPathIndex.getD position {}).newSourceIndex = 0 then none
        else (i.update.newSources[(i.localPathIndex.getD position {}).newSourceIndex - 1]?).map
          (·.source) := by
  induction fuel generalizing position with
  | zero => rfl
  | succ fuel ih =>
    rw [findLocalLoop, Probing.stopAt]
    have hstops : stops (localFormat i.update.newSources) i.localPathIndex p position =
        (decide ((i.localPathIndex.getD position {}).newSourceIndex = 0) ||
          decide (localPath i.update.newSources
            (i.localPathIndex.getD position {}).newSourceIndex = p)) := rfl
    by_cases hfree : (i.localPathIndex.getD position {}).newSourceIndex = 0
    · rw [if_pos hfree, hstops, decide_eq_true hfree, Bool.true_or, if_pos rfl]
      dsimp only
      rw [if_pos hfree]
    · have hmarked := hmark position hfree
      rw [if_neg hfree, hstops, decide_eq_false hfree, Bool.false_or]
      cases hget : i.update.newSources[(i.localPathIndex.getD position {}).newSourceIndex - 1]? with
      | none =>
        have hpath : localPath i.update.newSources
            (i.localPathIndex.getD position {}).newSourceIndex ≠ p := by
          rw [localPath, hget]
          exact fun h => hp h.symm
        rw [decide_eq_false hpath, if_neg Bool.false_ne_true, ih]
        dsimp only
        rw [ite_self]
        rfl
      | some item =>
        have hname : localPath i.update.newSources
            (i.localPathIndex.getD position {}).newSourceIndex = item.normalizedPath := by
          rw [localPath, hget]
          rfl
        dsimp only
        by_cases hpath : item.normalizedPath = p
        · rw [hname, hpath] at hmarked
          rw [if_pos hmarked, if_pos hpath, hname, decide_eq_true hpath, if_pos rfl]
          dsimp only
          rw [if_neg hfree, hget]
          rfl
        · rw [if_neg hpath, ite_self, hname, decide_eq_false hpath, if_neg Bool.false_ne_true, ih]
          rfl

/-- A lookup among the new sources finds exactly the one with the path. -/
theorem findLocalPath_iff (h : LocalIndexOf i.update.newSources i.localPathIndex) (hp : p ≠ [])
    {source : Nat} : i.findLocalPath p = some source ↔
      ∃ item ∈ i.update.newSources, item.normalizedPath = p ∧ item.source = source := by
  have hmark : ∀ position, (i.localPathIndex.getD position {}).newSourceIndex ≠ 0 →
      (i.localPathIndex.getD position {}).fingerprint = pathFingerprint (hashPath
        (localPath i.update.newSources (i.localPathIndex.getD position {}).newSourceIndex)) := by
    intro position hne
    have hstored := h.table.stored position (beq_eq_false_iff_ne.mpr hne)
    obtain ⟨k, item, hitem, hs⟩ := mem_localSlots.mp hstored
    have hslot : i.localPathIndex.getD position {} =
        localPathSlot item.normalizedPath (k + 1) := hs
    rw [hslot]
    exact congrArg (fun path => pathFingerprint (hashPath path)) (localPath_of_get hitem).symm
  have hne : i.localPathIndex ≠ [] := by
    intro hnil
    have hpos := h.table.length_pos
    rw [hnil] at hpos
    cases hpos
  have hfind : i.findLocalPath p =
      (ProbedTable.find (localFormat i.update.newSources) i.localPathIndex p).bind fun slot =>
        (i.update.newSources[slot.newSourceIndex - 1]?).map (·.source) := by
    have hhash : (localFormat i.update.newSources).hash p = hashPath p := rfl
    unfold findLocalPath
    rw [if_neg hne, findLocalLoop_eq hp hmark, ProbedTable.find, probe, hhash]
    cases Probing.stopAt _ (i.localPathIndex.length - 1) i.localPathIndex.length
        (hashPath p &&& (i.localPathIndex.length - 1)) with
    | none => rfl
    | some position =>
      dsimp only
      have hslot : slotAt (localFormat i.update.newSources) i.localPathIndex position =
          i.localPathIndex.getD position {} := rfl
      have hfree : (localFormat i.update.newSources).free (i.localPathIndex.getD position {}) =
          ((i.localPathIndex.getD position {}).newSourceIndex == 0) := rfl
      rw [hslot, hfree]
      by_cases hz : (i.localPathIndex.getD position {}).newSourceIndex = 0
      · rw [if_pos hz, if_pos (beq_iff_eq.mpr hz)]
        rfl
      · rw [if_neg hz, if_neg fun h => hz (beq_iff_eq.mp h)]
        rfl
  rw [hfind, Option.bind_eq_some_iff]
  constructor
  · rintro ⟨slot, hslot, hsource⟩
    obtain ⟨hmem, hkey⟩ := h.table.find_eq.mp hslot
    obtain ⟨k, item, hitem, rfl⟩ := mem_localSlots.mp hmem
    have hget : i.update.newSources[(localPathSlot item.normalizedPath (k + 1)).newSourceIndex - 1]? =
        some item := hitem
    rw [hget] at hsource
    exact ⟨item, List.mem_of_getElem? hitem, (localPath_of_get hitem).symm.trans hkey,
      Option.some.inj hsource⟩
  · rintro ⟨item, hmem, hpath, rfl⟩
    obtain ⟨k, hitem⟩ := List.mem_iff_getElem?.mp hmem
    refine ⟨localPathSlot item.normalizedPath (k + 1), h.table.find_eq.mpr
      ⟨mem_localSlots.mpr ⟨k, item, hitem, rfl⟩, (localPath_of_get hitem).trans hpath⟩, ?_⟩
    have hget : i.update.newSources[(localPathSlot item.normalizedPath (k + 1)).newSourceIndex - 1]? =
        some item := hitem
    rw [hget]
    rfl

end IndexedUpdate

end ServerEngine

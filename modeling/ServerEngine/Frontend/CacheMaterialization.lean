import Mathlib.Order.RelClasses
import ServerEngine.Frontend.CacheOverlay

/-! # Restoring interfaces from the baseline

A look-up of an untouched source restores it and every source it includes, each behind a sentinel of
its own. Where nothing fails, all sentinels are resolved and no entry that was there before has
changed.
-/
namespace ServerEngine
open SourceIndex SourceInterface

/-! ## What is shown -/

/-- What an interface object shows: where it is, the tables the parser reads, the interfaces it
imports and its persistence data. -/
structure Shown where
  address : Nat
  runtime : InterfaceData
  imports : List Nat
  data : InterfaceData

def CachedInterface.shown (blocks : BlockStore) (item : CachedInterface) : Shown :=
  ⟨item.address, item.runtimeDataView blocks, item.tables.imports, item.persistenceDataView blocks⟩

/-- The account of all publications: how many sources there are, what was last published for each of
them (nothing yet, over a baseline, for an untouched one), what each of them includes, and where the
interfaces were that a publication has replaced. -/
structure Account where
  count : Nat := 0
  entries : Nat → Option (Option Shown) := fun _ => some none
  includes : Nat → List Nat := fun _ => []
  retired : List Nat := []

/-- The source is read back, and so is everything it includes. -/
inductive Restorable (baseline : FrontendBaseline) : Nat → Prop
  | intro (source : Nat) (data : InterfaceData) (hle : source ≤ baseline.sourceCount)
      (hread : Readable baseline.cache source data)
      (hincludes : ∀ i ∈ baseline.includes source, Restorable baseline i) :
      Restorable baseline source

def FrontendBaseline.Below (baseline : FrontendBaseline) (included source : Nat) : Prop :=
  included ∈ baseline.includes source

theorem Restorable.acc {baseline : FrontendBaseline} {source : Nat}
    (h : Restorable baseline source) : Acc baseline.Below source := by
  induction h with
  | intro source data hle hread hincludes ih => exact ⟨_, fun i hi => ih i hi⟩

theorem Restorable.not_above_self {baseline : FrontendBaseline} {source : Nat}
    (h : Restorable baseline source) : ¬Relation.TransGen baseline.Below source source := by
  have hirrefl : ∀ {a : Nat}, Acc (Relation.TransGen baseline.Below) a →
      ¬Relation.TransGen baseline.Below a a := by
    intro a ha
    induction ha with
    | intro a _ ih => exact fun haa => ih a haa haa
  exact hirrefl h.acc.transGen

/-! ## Entries of the overlay -/

namespace FrontendCache
variable {baseline : FrontendBaseline} {account : Account} {pending : List Nat}
  {cache cache' : FrontendCache} {source : Nat}

/-- The overlay has a resolved interface at this address for the source. -/
def Resolves (overlay : List OverlayEntry) (source address : Nat) : Prop :=
  ∃ e ∈ overlay, e.source = source ∧ e.resolved = true ∧
    e.interface.map (·.address) = some address

/-- The interface that the build cache has for the source, importing the interfaces of its includes. -/
structure Restored (baseline : FrontendBaseline) (overlay : List OverlayEntry) (source : Nat)
    (item : CachedInterface) : Prop where
  tables : ∃ data, Readable baseline.cache source data ∧ Holds item.tables data
  external : item.external = none
  imports : List.Forall₂ (Resolves overlay) (baseline.includes source) item.tables.imports

/-- A sentinel of a pending source, an interface that was published, or a restored one. -/
inductive EntrySound (baseline : FrontendBaseline) (account : Account) (blocks : BlockStore)
    (pending : List Nat) (overlay : List OverlayEntry) (e : OverlayEntry) : Prop
  | sentinel (hpending : e.source ∈ pending) (hresolved : e.resolved = false)
      (hinterface : e.interface = none)
  | published (value : Option Shown) (hresolved : e.resolved = true)
      (hentry : account.entries e.source = some value)
      (hvalue : e.interface.map (·.shown blocks) = value)
      (howned : ∀ item, e.interface = some item →
        item.external = none ∧ item.ownedData.counts = item.persistenceCounts)
  | restored (item : CachedInterface) (hresolved : e.resolved = true)
      (hentry : account.entries e.source = none) (hinterface : e.interface = some item)
      (hrestored : Restored baseline overlay e.source item)

structure OverlaySound (baseline : FrontendBaseline) (account : Account) (pending : List Nat)
    (cache : FrontendCache) : Prop where
  indexed : cache.Indexed
  bound : ∀ e ∈ cache.overlay, e.source ≤ u32Max
  sound : ∀ e ∈ cache.overlay,
    EntrySound baseline account cache.frontendBlocks pending cache.overlay e
  pending_absent : ∀ s ∈ pending, ∀ e ∈ cache.overlay, e.source = s → e.resolved = false
  address : ∀ e ∈ cache.overlay, ∀ item, e.interface = some item →
    item.address < cache.nextAddress ∧ item.address ∉ account.retired
  distinct : ∀ e ∈ cache.overlay, ∀ e' ∈ cache.overlay, ∀ item item', e.interface = some item →
    e'.interface = some item' → item.address = item'.address → e.source = e'.source
  retired : ∀ a ∈ account.retired, a < cache.nextAddress

/-- What a look-up does to the cache: entries of untouched sources come behind the others. -/
structure LookedUp (account : Account) (cache cache' : FrontendCache) : Prop where
  rest : cache'.rest = cache.rest
  overlay : cache.overlay <+: cache'.overlay
  added : ∀ e ∈ cache'.overlay, e ∈ cache.overlay ∨ (account.entries e.source = none ∧
    ∀ item, e.interface = some item → cache.nextAddress ≤ item.address ∧ item.external = none)
  nextAddress : cache.nextAddress ≤ cache'.nextAddress
  reserved : cache.overlayReserved ≤ cache'.overlayReserved
  index : cache.overlayIndex.length ≤ cache'.overlayIndex.length
  half : cache'.overlay.length = cache.overlay.length ∨
    cache'.overlay.length * 2 ≤ cache'.overlayIndex.length

theorem lookedUp_refl (account : Account) (cache : FrontendCache) : LookedUp account cache cache :=
  ⟨rfl, List.prefix_refl _, fun _ he => .inl he, Nat.le_refl _, Nat.le_refl _, Nat.le_refl _,
    .inl rfl⟩

theorem LookedUp.trans {cache'' : FrontendCache} (h : LookedUp account cache cache')
    (hnext : LookedUp account cache' cache'') : LookedUp account cache cache'' := by
  refine ⟨hnext.rest.trans h.rest, h.overlay.trans hnext.overlay, fun e he => ?_,
    Nat.le_trans h.nextAddress hnext.nextAddress, Nat.le_trans h.reserved hnext.reserved,
    Nat.le_trans h.index hnext.index, ?_⟩
  · cases hnext.added e he with
    | inl hold => exact h.added e hold
    | inr hnew =>
      refine .inr ⟨hnew.1, fun item hitem => ?_⟩
      obtain ⟨haddress, hexternal⟩ := hnew.2 item hitem
      exact ⟨Nat.le_trans h.nextAddress haddress, hexternal⟩
  · have hindex := hnext.index
    rcases hnext.half with hsame | hhalf
    · rcases h.half with hsame' | hhalf'
      · exact .inl (hsame.trans hsame')
      · right
        omega
    · exact .inr hhalf

theorem LookedUp.sources (h : LookedUp account cache cache') {s : Nat} (hs : s ∈ cache.sources) :
    s ∈ cache'.sources := by
  obtain ⟨e, he, hsource⟩ := List.mem_map.mp hs
  exact List.mem_map.mpr ⟨e, h.overlay.subset he, hsource⟩

def entered (baseline : FrontendBaseline) (cache : FrontendCache) : Nat :=
  (cache.sources.filter (· ≤ baseline.sourceCount)).length

theorem LookedUp.entered_le (h : LookedUp account cache cache') :
    cache.entered baseline ≤ cache'.entered baseline := by
  obtain ⟨more, hmore⟩ := h.overlay
  unfold entered FrontendCache.sources
  rw [← hmore, List.map_append, List.filter_append, List.length_append]
  omega

theorem entered_le (h : cache.Indexed) : cache.entered baseline ≤ baseline.sourceCount := by
  apply length_le_of_nodup (h.index.nodup.filter _)
  intro value hvalue
  obtain ⟨hmem, hbound⟩ := List.mem_filter.mp hvalue
  exact ⟨h.index.ne_zero value hmem, by simpa using hbound⟩

theorem OverlaySound.length_le (h : OverlaySound baseline account pending cache) :
    cache.overlay.length ≤ u32Max := by
  rw [← cache.sources_length]
  apply length_le_of_nodup h.indexed.index.nodup
  intro value hvalue
  refine ⟨h.indexed.index.ne_zero value hvalue, ?_⟩
  obtain ⟨e, he, rfl⟩ := List.mem_map.mp hvalue
  exact h.bound e he

variable {overlay overlay' : List OverlayEntry}

theorem Restored.mono {item : CachedInterface} (h : Restored baseline overlay source item)
    (hkeep : ∀ e ∈ overlay, e.resolved = true → e ∈ overlay') :
    Restored baseline overlay' source item := by
  refine ⟨h.tables, h.external, h.imports.imp ?_⟩
  rintro i a ⟨e, he, hsource, hresolved, haddress⟩
  exact ⟨e, hkeep e he hresolved, hsource, hresolved, haddress⟩

theorem EntrySound.mono {blocks : BlockStore} {pending' : List Nat} {e : OverlayEntry}
    (h : EntrySound baseline account blocks pending overlay e)
    (hkeep : ∀ e ∈ overlay, e.resolved = true → e ∈ overlay')
    (hpending : e.source ∈ pending → e.source ∈ pending') :
    EntrySound baseline account blocks pending' overlay' e := by
  cases h with
  | sentinel hmem hresolved hinterface => exact .sentinel (hpending hmem) hresolved hinterface
  | published value hresolved hentry hvalue howned =>
    exact .published value hresolved hentry hvalue howned
  | restored item hresolved hentry hinterface hrestored =>
    exact .restored item hresolved hentry hinterface (hrestored.mono hkeep)

theorem RoomMade.overlaySound (h : RoomMade cache cache')
    (hsound : OverlaySound baseline account pending cache) :
    OverlaySound baseline account pending cache' := by
  have hblocks := blocks_of_rest h.rest
  refine ⟨h.indexed, ?_, ?_, ?_, ?_, ?_, ?_⟩
  · rw [h.overlay]
    exact hsound.bound
  · rw [h.overlay, hblocks]
    exact hsound.sound
  · rw [h.overlay]
    exact hsound.pending_absent
  · rw [h.overlay, h.nextAddress]
    exact hsound.address
  · rw [h.overlay]
    exact hsound.distinct
  · rw [h.nextAddress]
    exact hsound.retired

theorem RoomMade.lookedUp (h : RoomMade cache cache') : LookedUp account cache cache' := by
  refine ⟨h.rest, ⟨[], ?_⟩, ?_, Nat.le_of_eq h.nextAddress.symm, h.reserved, h.index,
    .inl (by rw [h.overlay])⟩
  · rw [List.append_nil, h.overlay]
  · intro e he
    rw [h.overlay] at he
    exact .inl he

/-! ## Materialization -/

def NoFault (faults : Nat → LookupFaults) (baseline : FrontendBaseline) (cache : FrontendCache)
    (source : Nat) : Prop :=
  ∀ i, Relation.ReflTransGen baseline.Below i source → i ∉ cache.sources → faults i = {}

variable {faults : Nat → LookupFaults}

theorem NoFault.lookedUp (h : NoFault faults baseline cache source)
    (hlooked : LookedUp account cache cache') : NoFault faults baseline cache' source :=
  fun i hi hmem => h i hi fun hs => hmem (hlooked.sources hs)

theorem NoFault.below (h : NoFault faults baseline cache source) {i : Nat}
    (hi : i ∈ baseline.includes source) : NoFault faults baseline cache i :=
  fun j hj hmem => h j (hj.tail hi) hmem

def Materializes (baseline : FrontendBaseline) (account : Account) (pending : List Nat)
    (cache : FrontendCache) (source : Nat) (result : FrontendCache × Option CachedInterface) :
    Prop :=
  ∃ cache' item, result = (cache', some item) ∧ LookedUp account cache cache' ∧
    OverlaySound baseline account pending cache' ∧
    ∃ e ∈ cache'.overlay, e.source = source ∧ e.resolved = true ∧ e.interface = some item

theorem importAll_ok {materialize : FrontendCache → Nat → FrontendCache × Option CachedInterface}
    {items : List Nat} {P : FrontendCache → Prop}
    (hstep : ∀ cache, P cache → ∀ i ∈ items,
      Materializes baseline account pending cache i (materialize cache i))
    (hkeep : ∀ cache cache', P cache → LookedUp account cache cache' →
      OverlaySound baseline account pending cache' → P cache')
    (hstart : P cache) (hsound : OverlaySound baseline account pending cache) :
    ∃ cache' addresses, importAll materialize cache items = (cache', some addresses) ∧
      LookedUp account cache cache' ∧ OverlaySound baseline account pending cache' ∧
      List.Forall₂ (Resolves cache'.overlay) items addresses := by
  induction items generalizing cache with
  | nil => exact ⟨cache, [], rfl, lookedUp_refl account cache, hsound, .nil⟩
  | cons i rest ih =>
    obtain ⟨next, item, hresult, hlooked, hnext, e, he, hsource, hresolved, hinterface⟩ :=
      hstep cache hstart i (by simp)
    obtain ⟨cache', addresses, hrest, hlookedRest, hsoundRest, hall⟩ :=
      ih (fun c hc j hj => hstep c hc j (List.mem_cons_of_mem _ hj))
        (hkeep cache next hstart hlooked hnext) hnext
    refine ⟨cache', item.address :: addresses, ?_, hlooked.trans hlookedRest, hsoundRest,
      .cons ?_ hall⟩
    · rw [importAll, hresult]
      dsimp only
      rw [hrest]
    · exact ⟨e, hlookedRest.overlay.subset he, hsource, hresolved, by rw [hinterface]; rfl⟩

theorem publishOverlay_sentinel (h : OverlaySound baseline account pending cache)
    (hnew : source ∉ cache.sources) (hne : source ≠ 0) (hle : source ≤ u32Max)
    (huntouched : account.entries source = none)
    (hroom : cache.overlay.length < cache.overlayReserved)
    (hindex : (cache.overlay.length + 1) * 2 ≤ cache.overlayIndex.length) :
    ∃ cache', cache.publishOverlay source none false = (cache', some cache.overlay.length) ∧
      LookedUp account cache cache' ∧ cache'.overlay = cache.overlay ++ [newEntry source none false] ∧
      OverlaySound baseline account (source :: pending) cache' := by
  obtain ⟨cache', hpublish, hrest, hnext, hreserved, hoverlay, hindexed, hlength⟩ :=
    publishOverlay_new h.indexed hnew hne hroom (by omega) none false
  have hblocks := blocks_of_rest hrest
  have hcases : ∀ e ∈ cache'.overlay, e ∈ cache.overlay ∨ e = newEntry source none false := by
    intro e he
    rw [hoverlay] at he
    simpa using he
  refine ⟨cache', hpublish, ⟨hrest, ?_, ?_, by omega, by omega, by omega, ?_⟩, hoverlay, hindexed,
    ?_, ?_, ?_, ?_, ?_, ?_⟩
  · rw [hoverlay]
    exact List.prefix_append _ _
  · intro e he
    cases hcases e he with
    | inl hold => exact .inl hold
    | inr hlast =>
      rw [hlast]
      exact .inr ⟨huntouched, fun item hitem => by cases hitem⟩
  · rw [hoverlay, List.length_append, List.length_singleton, hlength]
    exact .inr hindex
  · intro e he
    cases hcases e he with
    | inl hold => exact h.bound e hold
    | inr hlast =>
      rw [hlast]
      exact hle
  · intro e he
    rw [hblocks]
    cases hcases e he with
    | inl hold =>
      refine (h.sound e hold).mono (fun e' he' _ => ?_) (fun hmem => List.mem_cons_of_mem _ hmem)
      rw [hoverlay]
      exact List.mem_append_left _ he'
    | inr hlast =>
      rw [hlast]
      exact .sentinel (by simp [newEntry]) rfl rfl
  · intro s hs e he hsource
    cases hcases e he with
    | inl hold =>
      rcases List.mem_cons.mp hs with rfl | hs
      · exact absurd (List.mem_map.mpr ⟨e, hold, hsource⟩) hnew
      · exact h.pending_absent s hs e hold hsource
    | inr hlast =>
      rw [hlast]
      rfl
  · intro e he item hitem
    rw [hnext]
    cases hcases e he with
    | inl hold => exact h.address e hold item hitem
    | inr hlast =>
      rw [hlast] at hitem
      cases hitem
  · intro e he e' he' item item' hitem hitem' heq
    cases hcases e he with
    | inr hlast =>
      rw [hlast] at hitem
      cases hitem
    | inl hold =>
      cases hcases e' he' with
      | inr hlast =>
        rw [hlast] at hitem'
        cases hitem'
      | inl hold' => exact h.distinct e hold e' hold' item item' hitem hitem' heq
  · intro a ha
    rw [hnext]
    exact h.retired a ha

theorem resolveOverlay_ok {old : List OverlayEntry} {tables : SourceInterface}
    (hsound : OverlaySound baseline account (source :: pending) cache)
    (hold : old ++ [newEntry source none false] <+: cache.overlay)
    (huntouched : account.entries source = none) (hnotPending : source ∉ pending)
    (hrestored : Restored baseline cache.overlay source ⟨cache.nextAddress, tables, none⟩) :
    ∃ cache', { cache with nextAddress := cache.nextAddress + 1 }.resolveOverlay source
        ⟨cache.nextAddress, tables, none⟩ = (cache', some ⟨cache.nextAddress, tables, none⟩) ∧
      cache'.rest = cache.rest ∧ old <+: cache'.overlay ∧
      (∀ e ∈ cache'.overlay, e ∈ cache.overlay ∨ (e.source = source ∧
        e.interface = some ⟨cache.nextAddress, tables, none⟩)) ∧
      cache'.nextAddress = cache.nextAddress + 1 ∧ cache'.overlayReserved = cache.overlayReserved ∧
      cache'.overlayIndex = cache.overlayIndex ∧ cache'.overlay.length = cache.overlay.length ∧
      OverlaySound baseline account pending cache' ∧
      ∃ e ∈ cache'.overlay, e.source = source ∧ e.resolved = true ∧
        e.interface = some ⟨cache.nextAddress, tables, none⟩ := by
  obtain ⟨more, hmore⟩ := hold
  have hat : cache.overlay[old.length]? = some (newEntry source none false) := by
    rw [← hmore]
    simp
  have hposition : cache.overlayPosition source = some old.length :=
    (overlayPosition_eq hsound.indexed).mpr ⟨_, hat, rfl⟩
  let item : CachedInterface := ⟨cache.nextAddress, tables, none⟩
  let resolve : OverlayEntry → OverlayEntry := fun entry =>
    { entry with interface := some item, resolved := true }
  have hresolve : resolve (newEntry source none false) = newEntry source (some item) true := rfl
  have hmem : ∀ e, e ∈ cache.overlay.modify old.length resolve ↔
      e = newEntry source (some item) true ∨ (e ∈ cache.overlay ∧ e.source ≠ source) :=
    fun e => mem_modify hsound.indexed hat resolve
  have hindexed := indexed_modify hsound.indexed old.length resolve fun _ => rfl
  have hafter : old <+: cache.overlay.modify old.length resolve := by
    rw [← hmore, List.append_assoc, List.modify_eq_take_drop]
    simp
  refine ⟨{ cache with
    nextAddress := cache.nextAddress + 1
    overlay := cache.overlay.modify old.length resolve },
    ?_, rfl, hafter, ?_, rfl, rfl, rfl, List.length_modify _ _ _,
    ⟨⟨hindexed.index, hindexed.reserved⟩, ?_, ?_, ?_, ?_, ?_, ?_⟩, ?_⟩
  · unfold resolveOverlay
    have hsame : overlayPosition { cache with nextAddress := cache.nextAddress + 1 } source =
        some old.length := hposition
    rw [hsame]
    dsimp only
    rw [hat]
    rfl
  · intro e he
    cases (hmem e).mp he with
    | inl hnew => exact .inr (by rw [hnew]; exact ⟨rfl, rfl⟩)
    | inr hkept => exact .inl hkept.1
  · intro e he
    cases (hmem e).mp he with
    | inl hnew =>
      rw [hnew]
      exact hsound.bound (newEntry source none false) (List.mem_of_getElem? hat)
    | inr hkept => exact hsound.bound e hkept.1
  · have hkeep : ∀ e ∈ cache.overlay, e.resolved = true →
        e ∈ cache.overlay.modify old.length resolve := by
      intro e he hresolved
      refine (hmem e).mpr (.inr ⟨he, fun hsource => ?_⟩)
      have := hsound.pending_absent source (by simp) e he hsource
      rw [hresolved] at this
      cases this
    intro e he
    cases (hmem e).mp he with
    | inl hnew =>
      rw [hnew]
      exact .restored _ rfl huntouched rfl (hrestored.mono hkeep)
    | inr hkept =>
      refine (hsound.sound e hkept.1).mono hkeep fun hpending => ?_
      exact (List.mem_cons.mp hpending).resolve_left hkept.2
  · intro s hs e he hsource
    cases (hmem e).mp he with
    | inl hnew =>
      rw [hnew] at hsource
      have : source = s := hsource
      exact absurd (this ▸ hs) hnotPending
    | inr hkept => exact hsound.pending_absent s (List.mem_cons_of_mem _ hs) e hkept.1 hsource
  · intro e he item hitem
    cases (hmem e).mp he with
    | inl hnew =>
      rw [hnew] at hitem
      cases hitem
      exact ⟨Nat.lt_succ_self _, fun hretired => Nat.lt_irrefl _ (hsound.retired _ hretired)⟩
    | inr hkept =>
      obtain ⟨hlt, hfresh⟩ := hsound.address e hkept.1 item hitem
      exact ⟨Nat.lt_succ_of_lt hlt, hfresh⟩
  · intro e he e' he' item item' hitem hitem' heq
    cases (hmem e).mp he with
    | inl hnew =>
      rw [hnew] at hitem ⊢
      cases hitem
      cases (hmem e').mp he' with
      | inl hnew' => rw [hnew']
      | inr hkept' =>
        have hlt := (hsound.address e' hkept'.1 item' hitem').1
        rw [← heq] at hlt
        exact absurd hlt (Nat.lt_irrefl _)
    | inr hkept =>
      cases (hmem e').mp he' with
      | inl hnew' =>
        rw [hnew'] at hitem'
        cases hitem'
        have hlt := (hsound.address e hkept.1 item hitem).1
        rw [heq] at hlt
        exact absurd hlt (Nat.lt_irrefl _)
      | inr hkept' => exact hsound.distinct e hkept.1 e' hkept'.1 item item' hitem hitem' heq
  · intro a ha
    exact Nat.lt_succ_of_lt (hsound.retired a ha)
  · exact ⟨_, (hmem _).mpr (.inl rfl), rfl, rfl, rfl⟩

/-- The look-up of a source that can be restored. The induction is on what it includes; the sources
whose sentinels are still unresolved all include the source, so none of them is met again. -/
theorem materializeBaseline_ok (hcount : baseline.sourceCount ≤ u32Max)
    (h : Restorable baseline source)
    (hclosed : ∀ s data, Readable baseline.cache s data → account.entries s = none → ∀ i ∈ baseline.includes s, account.entries i = none)
    (huntouched : account.entries source = none) :
    ∀ fuel cache pending, OverlaySound baseline account pending cache →
      baseline.sourceCount + 1 ≤ fuel + cache.entered baseline →
      NoFault faults baseline cache source →
      (∀ p ∈ pending, Relation.TransGen baseline.Below source p) →
      Materializes baseline account pending cache source
        (materializeBaseline faults baseline fuel cache source) := by
  induction h with
  | intro source data hle hread hincludes ih =>
  intro fuel cache pending hsound hfuel hfaults habove
  have hself := (Restorable.intro source data hle hread hincludes).not_above_self
  have hnotPending : source ∉ pending := fun hmem => hself (habove source hmem)
  obtain ⟨fuel, rfl⟩ : ∃ fuel', fuel = fuel' + 1 := by
    have := @entered_le baseline cache hsound.indexed
    exact ⟨fuel - 1, by omega⟩
  have hin : ¬(source = 0 || source > baseline.sourceCount) = true := by
    simp [hread.source_ne]
    omega
  unfold materializeBaseline
  rw [if_neg hin]
  cases hfind : cache.findOverlay source with
  | some e =>
    obtain ⟨he, hsource⟩ := (findOverlay_eq hsound.indexed).mp hfind
    cases hsound.sound e he with
    | sentinel hpending =>
      rw [hsource] at hpending
      exact absurd hpending hnotPending
    | published value hresolved hentry =>
      rw [hsource, huntouched] at hentry
      cases hentry
    | restored item hresolved hentry hinterface hrestored =>
      refine ⟨cache, item, ?_, lookedUp_refl account cache, hsound, e, he, hsource, hresolved,
        hinterface⟩
      dsimp only
      rw [hresolved, hinterface]
      rfl
  | none =>
  have hnew := (findOverlay_none hsound.indexed).mp hfind
  have hfault := hfaults source .refl hnew
  dsimp only
  rw [hread.record]
  dsimp only
  rw [hfault, if_neg (by simp)]
  -- Room for the sentinel, and the sentinel.
  have hroom := prepareOverlayCapacity_room hsound.indexed false false 1
  have hok := prepareOverlayCapacity_succeeds hsound.length_le
  obtain ⟨hreserved, hindex⟩ := prepareOverlayCapacity_ok hsound.indexed (by omega) hok
  rcases hprepare : cache.prepareOverlayCapacity false false 1 with ⟨roomy, result⟩
  rw [hprepare] at hroom hok hreserved hindex
  cases hok
  have hroomySound := hroom.overlaySound hsound
  have hroomyLooked : LookedUp account cache roomy := hroom.lookedUp
  have hroomyNew : source ∉ roomy.sources := by
    unfold FrontendCache.sources
    rw [hroom.overlay]
    exact hnew
  obtain ⟨entered, hpublish, hlooked, hoverlay, henteredSound⟩ := publishOverlay_sentinel
    hroomySound hroomyNew hread.source_ne (by omega) huntouched
    (by rw [hroom.overlay]; exact hreserved) (by rw [hroom.overlay]; exact hindex)
  dsimp only
  rw [hpublish]
  dsimp only
  rw [if_neg (by simp)]
  have hlookedStart := hroomyLooked.trans hlooked
  -- The includes, one level deeper and with one more sentinel.
  have henteredCount : cache.entered baseline + 1 ≤ entered.entered baseline := by
    unfold FrontendCache.entered FrontendCache.sources
    rw [hoverlay, hroom.overlay, List.map_append, List.filter_append, List.length_append]
    simp [newEntry, hle]
  obtain ⟨imported, addresses, himport, himportLooked, himportSound, hall⟩ :=
    @importAll_ok baseline account (source :: pending) entered
      (materializeBaseline faults baseline fuel) (baseline.includes source)
      (fun c => OverlaySound baseline account (source :: pending) c ∧
        baseline.sourceCount + 1 ≤ fuel + c.entered baseline ∧ NoFault faults baseline c source)
      (fun c hc i hi => ih i hi (hclosed source data hread huntouched i hi) fuel c (source :: pending) hc.1
        hc.2.1 (hc.2.2.below hi) (by
          intro p hp
          rcases List.mem_cons.mp hp with rfl | hp
          · exact .single hi
          · exact (Relation.TransGen.single hi).trans (habove p hp)))
      (fun c c' hc hl hs => by
        have := @LookedUp.entered_le baseline account c c' hl
        exact ⟨hs, by omega, hc.2.2.lookedUp hl⟩)
      ⟨henteredSound, by omega, hfaults.lookedUp hlookedStart⟩ henteredSound
  rw [himport]
  dsimp only
  rw [if_neg (by simp)]
  obtain ⟨tables, hinitialize, hholds, himports⟩ := initializePersisted_ok hread addresses
  have htables : initializePersisted baseline.cache source (addresses.map some)
      (!({} : LookupFaults).tables) = .ok tables := hinitialize
  rw [htables]
  dsimp only
  -- The sentinel becomes the interface.
  have hold : cache.overlay ++ [newEntry source none false] <+: imported.overlay := by
    have := himportLooked.overlay
    rwa [hoverlay, hroom.overlay] at this
  obtain ⟨cache', hresolve, hrest, hfront, hadded, hnext, hreservedEq, hindexEq, hlengthEq, hfinal,
      e, he⟩ :=
    resolveOverlay_ok himportSound hold huntouched hnotPending
      ⟨⟨data, hread, hholds⟩, rfl, by rw [himports]; exact hall⟩
  have himported := hlookedStart.trans himportLooked
  refine ⟨cache', _, hresolve, ⟨hrest.trans himported.rest, hfront, ?_, ?_, ?_, ?_, ?_⟩, hfinal, e,
    he⟩
  · intro e he
    cases hadded e he with
    | inl hmem => exact himported.added e hmem
    | inr hlast =>
      refine .inr ⟨by rw [hlast.1]; exact huntouched, fun item hitem => ?_⟩
      rw [hlast.2] at hitem
      cases hitem
      exact ⟨himported.nextAddress, rfl⟩
  · have := himported.nextAddress
    omega
  · have := himported.reserved
    omega
  · rw [hindexEq]
    exact himported.index
  · rw [hindexEq, hlengthEq]
    exact himported.half

end FrontendCache
end ServerEngine

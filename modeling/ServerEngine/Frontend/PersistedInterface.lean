import Mathlib.Data.List.Induction
import ServerEngine.Frontend.BlockStore
import ServerEngine.Parser.InterfaceTables

/-! # Cached and persisted interfaces

A source interface as the frontend cache holds it: an object with an address, whose persistence data
are its own vectors or a view of the block store; and how an interface is restored from the build
cache image.
-/
namespace ServerEngine
open ProbedTable

/-! ## Interfaces in the cache -/

structure PersistenceCounts where
  localTypes : Nat := 0
  typeSlots : Nat := 0
  objectSlots : Nat := 0
  memberSlots : Nat := 0
  deriving DecidableEq

def InterfaceData.counts (data : InterfaceData) : PersistenceCounts :=
  ⟨data.localTypes.length, data.typeSlots.length, data.objectSlots.length,
    data.memberSlots.length⟩

def BlockView.counts (view : BlockView) : PersistenceCounts :=
  ⟨view.localTypes.count, view.typeSlots.count, view.objectSlots.count, view.memberSlots.count⟩

/-- An interface object. It is `external` once its persistence data are bound to a store. -/
structure CachedInterface where
  address : Nat
  tables : SourceInterface
  external : Option BlockView := none

namespace CachedInterface

/-- `local_type_values`; the full build keeps its local types in the runtime store instead. -/
def localTypeValues (item : CachedInterface) : List IdentityRef :=
  if item.tables.runtimeExternalizedState then [] else item.tables.localTypes

def persistenceCounts (item : CachedInterface) : PersistenceCounts :=
  ⟨item.tables.persistenceLocalTypeCount, item.tables.persistenceTypeSlotCount,
    item.tables.persistenceObjectSlotCount, item.tables.persistenceMemberSlotCount⟩

def compactPersistenceAvailable (item : CachedInterface) : Bool :=
  item.external.isSome || item.tables.persistenceCompactState

/-- The vectors `release_persistence_data` gives away. -/
def ownedData (item : CachedInterface) : InterfaceData :=
  ⟨item.localTypeValues, item.tables.persistenceTypeSlots, item.tables.persistenceObjectSlots,
    item.tables.persistenceMemberSlots⟩

def persistenceDataView (blocks : BlockStore) (item : CachedInterface) : InterfaceData :=
  match item.external with
  | some view => blocks.read view
  | none => item.ownedData

def localTypes (blocks : BlockStore) (item : CachedInterface) : List IdentityRef :=
  if item.tables.runtimeExternalizedState then item.tables.localTypes
  else match item.external with
    | some view => (blocks.read view).localTypes
    | none => item.tables.localTypes

def runtimeDataView (blocks : BlockStore) (item : CachedInterface) : InterfaceData :=
  ⟨item.localTypes blocks, item.tables.typeSlots, item.tables.objectSlots, item.tables.memberSlots⟩

/-- `release_persistence_data`: what is given away, and what is left. -/
def releasePersistenceData (item : CachedInterface) : InterfaceData × CachedInterface :=
  if item.external.isSome then ({}, item)
  else (item.ownedData, { item with tables := { item.tables with
    localTypes := if item.tables.runtimeExternalizedState then item.tables.localTypes else []
    persistenceTypeSlots := []
    persistenceObjectSlots := []
    persistenceMemberSlots := [] } })

def bindPersistenceData (item : CachedInterface) (view : BlockView) : CachedInterface :=
  { item with external := some view }

end CachedInterface

/-! ## The build cache image -/

/-- `build_cache_source_record`, of its ranges the counts. -/
structure BuildCacheSourceRecord where
  frontendPresent : Bool
  counts : PersistenceCounts

/-- `build_cache_image_view` as the frontend cache reads it. -/
structure BuildCacheImage where
  sourceCount : Nat
  frontendComplete : Bool
  frontendCount : Nat
  frontendCounts : PersistenceCounts
  source : Nat → Except StatusCode BuildCacheSourceRecord
  frontendLocalType : Nat → Nat → Except StatusCode IdentityRef
  frontendTypeSlot : Nat → Nat → Except StatusCode InterfaceTypeSlot
  frontendObjectSlot : Nat → Nat → Except StatusCode InterfaceObjectSlot
  frontendMemberSlot : Nat → Nat → Except StatusCode InterfaceMemberSlot

namespace SourceInterface

def persistedTypeSlot (slot : InterfaceTypeSlot) : Bool :=
  slot.parent.valid && slot.name ≠ 0 && slot.identity.valid

def persistedObjectSlot (slot : InterfaceObjectSlot) : Bool :=
  slot.parent.valid && slot.name ≠ 0 && slot.identity.valid

def persistedMemberSlot (slot : InterfaceMemberSlot) : Bool :=
  slot.type.valid && slot.name ≠ 0 && slot.index ≠ invalidMember

/-- One round of a loop over the persisted slots: read, check, place behind the occupied slots of
the path; a key that is there already is corrupt. -/
def insertPersisted {S κ : Type} [DecidableEq κ] (f : Format S κ) (valid : S → Bool)
    (read : Nat → Except StatusCode S) (table : BindingTable S) (index : Nat) :
    Except InterfaceStop (BindingTable S) :=
  match read index with
  | .error _ => .error (.failed .artifactCorrupt)
  | .ok value =>
    if !valid value then .error (.failed .artifactCorrupt)
    else match probe f table.slots (f.key value) with
      | none => .error .endless
      | some pos =>
        if f.free (slotAt f table.slots pos) then
          .ok ⟨table.slots.set pos value, table.inserted ++ [value]⟩
        else .error (.failed .artifactCorrupt)

def readLocalType (read : Nat → Except StatusCode IdentityRef) (index : Nat) :
    Except InterfaceStop IdentityRef :=
  match read index with
  | .error _ => .error (.failed .artifactCorrupt)
  | .ok value => if !value.valid then .error (.failed .artifactCorrupt) else .ok value

/-- The tables of `initialize_persisted`, its allocations done. -/
def restoreTables (cache : BuildCacheImage) (source : Nat) (counts : PersistenceCounts)
    (imports : List (Option Nat)) : Except InterfaceStop SourceInterface := do
  let localTypes ← (List.range counts.localTypes).mapM
    (readLocalType (cache.frontendLocalType source))
  let types ← (List.range counts.typeSlots).foldlM
    (insertPersisted typeFormat persistedTypeSlot (cache.frontendTypeSlot source))
    ⟨List.replicate (capacityFor counts.typeSlots) typeFormat.empty, []⟩
  let objects ← (List.range counts.objectSlots).foldlM
    (insertPersisted objectFormat persistedObjectSlot (cache.frontendObjectSlot source))
    ⟨List.replicate (capacityFor counts.objectSlots) objectFormat.empty, []⟩
  let members ← (List.range counts.memberSlots).foldlM
    (insertPersisted memberFormat persistedMemberSlot (cache.frontendMemberSlot source))
    ⟨List.replicate (capacityFor counts.memberSlots) memberFormat.empty, []⟩
  let imported ← collectImports imports
  return {
    localTypes := localTypes
    typeSlots := types.slots
    objectSlots := objects.slots
    memberSlots := members.slots
    persistenceTypeSlots := types.inserted
    persistenceObjectSlots := objects.inserted
    persistenceMemberSlots := members.inserted
    persistenceLocalTypeCount := localTypes.length
    persistenceTypeSlotCount := types.inserted.length
    persistenceObjectSlotCount := objects.inserted.length
    persistenceMemberSlotCount := members.inserted.length
    persistenceCompactState := true
    imports := imported }

/-- `initialize_persisted`; every allocation comes before the first read of an entry. -/
def initializePersisted (cache : BuildCacheImage) (source : Nat) (imports : List (Option Nat))
    (allocated : Bool) : Except InterfaceStop SourceInterface :=
  if source = 0 then .error (.failed .invalidArgument)
  else match cache.source source with
    | .error code => .error (.failed code)
    | .ok persisted =>
      if !persisted.frontendPresent then .error (.failed .notFound)
      else if capacityFor persisted.counts.typeSlots = 0 ||
          capacityFor persisted.counts.objectSlots = 0 ||
          capacityFor persisted.counts.memberSlots = 0 then .error (.failed .notAvailable)
      else if !allocated then .error (.failed .notAvailable)
      else restoreTables cache source persisted.counts imports

/-! ## Reading an interface back -/

def ReadsAll {α : Type} (read : Nat → Except StatusCode α) (values : List α) : Prop :=
  ∀ i (h : i < values.length), read i = .ok values[i]

/-- The image holds an interface for the source: every entry reads back, none of them is empty, and
no key comes twice. -/
structure Readable (cache : BuildCacheImage) (source : Nat) (data : InterfaceData) : Prop where
  source_ne : source ≠ 0
  record : cache.source source = .ok ⟨true, data.counts⟩
  typeCount : data.typeSlots.length ≤ u32Max
  objectCount : data.objectSlots.length ≤ u32Max
  memberCount : data.memberSlots.length ≤ u32Max
  localTypes : ReadsAll (cache.frontendLocalType source) data.localTypes
  typeSlots : ReadsAll (cache.frontendTypeSlot source) data.typeSlots
  objectSlots : ReadsAll (cache.frontendObjectSlot source) data.objectSlots
  memberSlots : ReadsAll (cache.frontendMemberSlot source) data.memberSlots
  localTypeValid : ∀ identity ∈ data.localTypes, identity.valid = true
  typeSlotValid : ∀ slot ∈ data.typeSlots, persistedTypeSlot slot = true
  objectSlotValid : ∀ slot ∈ data.objectSlots, persistedObjectSlot slot = true
  memberSlotValid : ∀ slot ∈ data.memberSlots, persistedMemberSlot slot = true
  typeKeys : (data.typeSlots.map typeFormat.key).Nodup
  objectKeys : (data.objectSlots.map objectFormat.key).Nodup
  memberKeys : (data.memberSlots.map memberFormat.key).Nodup

structure Holds (tables : SourceInterface) (data : InterfaceData) : Prop where
  localTypes : tables.localTypes = data.localTypes
  typeSlots : Table typeFormat tables.typeSlots data.typeSlots
  objectSlots : Table objectFormat tables.objectSlots data.objectSlots
  memberSlots : Table memberFormat tables.memberSlots data.memberSlots
  persistenceTypeSlots : tables.persistenceTypeSlots = data.typeSlots
  persistenceObjectSlots : tables.persistenceObjectSlots = data.objectSlots
  persistenceMemberSlots : tables.persistenceMemberSlots = data.memberSlots
  counts : CachedInterface.persistenceCounts ⟨0, tables, none⟩ = data.counts
  own : tables.runtimeExternalizedState = false
  compact : tables.persistenceCompactState = true

theorem capacityLoop_ne_zero (fuel target k : Nat) (hfuel : 63 ≤ fuel + k) (hk : k ≤ 62)
    (htarget : target ≤ 2 ^ 62) : capacityLoop fuel target (2 ^ k) ≠ 0 := by
  induction fuel generalizing k with
  | zero => omega
  | succ fuel ih =>
    have hpos : 0 < 2 ^ k := Nat.two_pow_pos k
    rw [capacityLoop]
    split
    · rename_i hlt
      have hk : k < 62 := by
        by_contra hge
        have := Nat.pow_le_pow_right (show 0 < 2 by omega) (show 62 ≤ k by omega)
        omega
      have hpow : 2 ^ k ≤ 2 ^ 62 := Nat.pow_le_pow_right (by omega) (by omega)
      have hmax : sizeMax / 2 = 9223372036854775807 := rfl
      rw [if_neg (by omega)]
      have hnext := ih (k + 1) (by omega) (by omega)
      rwa [Nat.pow_succ] at hnext
    · omega

theorem capacityFor_ne_zero {count : Nat} (h : count ≤ u32Max) : capacityFor count ≠ 0 := by
  have hmax : sizeMax / 2 = 9223372036854775807 := rfl
  have h32 : u32Max = 4294967295 := rfl
  unfold capacityFor
  rw [if_neg (by omega)]
  exact capacityLoop_ne_zero 62 (count * 2 + 1) 4 (by omega) (by omega) (by omega)

section Loops
variable {S κ : Type} [DecidableEq κ] {f : Format S κ} {valid : S → Bool}
  {read : Nat → Except StatusCode S}

theorem insertPersisted_ok {table : BindingTable S} {index : Nat} {value : S}
    (t : Table f table.slots table.inserted) (hroom : table.inserted.length < table.slots.length)
    (hread : read index = .ok value) (hvalid : valid value = true)
    (hfree : f.free value = false) (hnew : ∀ e ∈ table.inserted, f.key e ≠ f.key value) :
    ∃ slots, insertPersisted f valid read table index =
        .ok ⟨slots, table.inserted ++ [value]⟩ ∧
      Table f slots (table.inserted ++ [value]) ∧ slots.length = table.slots.length := by
  obtain ⟨pos, hprobe⟩ := t.probe_isSome hroom (f.key value)
  have hslot : f.free (slotAt f table.slots pos) = true := by
    cases hoccupied : f.free (slotAt f table.slots pos) with
    | true => rfl
    | false =>
      obtain ⟨hmem, hkey⟩ := t.entry_of_occupied hprobe hoccupied
      exact absurd hkey (hnew _ hmem)
  refine ⟨table.slots.set pos value, ?_, t.place hprobe hslot hfree, List.length_set⟩
  unfold insertPersisted
  rw [hread]
  dsimp only
  rw [hvalid, hprobe]
  dsimp only
  rw [hslot]
  rfl

theorem foldlM_insertPersisted {values : List S} {slots : List S} (t : Table f slots [])
    (hroom : values.length < slots.length) (hread : ReadsAll read values)
    (hvalid : ∀ value ∈ values, valid value = true)
    (hfree : ∀ value, valid value = true → f.free value = false)
    (hkeys : (values.map f.key).Nodup) :
    ∃ filled, (List.range values.length).foldlM (insertPersisted f valid read) ⟨slots, []⟩ =
        .ok ⟨filled, values⟩ ∧ Table f filled values ∧ filled.length = slots.length := by
  induction values using List.reverseRecOn with
  | nil => exact ⟨slots, rfl, t, rfl⟩
  | append_singleton values value ih =>
    rw [List.length_append, List.length_singleton] at hroom ⊢
    have hreadInit : ReadsAll read values := by
      intro i hi
      rw [hread i (by rw [List.length_append, List.length_singleton]; omega),
        List.getElem_append_left hi]
    have hlast : read values.length = .ok value := by
      rw [hread values.length (by simp)]
      simp
    rw [List.map_append, List.nodup_append] at hkeys
    obtain ⟨filled, hrun, htable, hlength⟩ := ih (by omega) hreadInit
      (fun v hv => hvalid v (List.mem_append_left _ hv)) hkeys.1
    obtain ⟨next, hstep, hnext, hnextLength⟩ := @insertPersisted_ok S κ _ f valid read
      ⟨filled, values⟩ values.length value htable (by
        show values.length < filled.length
        omega) hlast
      (hvalid value (by simp)) (hfree value (hvalid value (by simp)))
      (fun e he => hkeys.2.2 _ (List.mem_map_of_mem he) _ (by simp))
    refine ⟨next, ?_, hnext, hnextLength.trans hlength⟩
    rw [List.range_succ, List.foldlM_append, hrun]
    show List.foldlM (insertPersisted f valid read) ⟨filled, values⟩ [values.length] = _
    rw [List.foldlM_cons, hstep]
    rfl

theorem mapM_readLocalType {read : Nat → Except StatusCode IdentityRef} {values : List IdentityRef}
    (hread : ReadsAll read values) (hvalid : ∀ identity ∈ values, identity.valid = true) :
    (List.range values.length).mapM (readLocalType read) = .ok values := by
  induction values using List.reverseRecOn with
  | nil => rfl
  | append_singleton values value ih =>
    have hreadInit : ReadsAll read values := by
      intro i hi
      rw [hread i (by rw [List.length_append, List.length_singleton]; omega),
        List.getElem_append_left hi]
    have hlast : readLocalType read values.length = .ok value := by
      unfold readLocalType
      rw [hread values.length (by simp)]
      simp [hvalid value (by simp)]
    rw [List.length_append, List.length_singleton, List.range_succ, List.mapM_append,
      ih hreadInit fun v hv => hvalid v (List.mem_append_left _ hv)]
    rw [List.mapM_cons, hlast]
    rfl

end Loops

theorem emptyTable {S κ : Type} [DecidableEq κ] {f : Format S κ} (hfree : f.free f.empty = true)
    {count : Nat} (h : count ≤ u32Max) :
    Table f (List.replicate (capacityFor count) f.empty) [] ∧
      count < (List.replicate (capacityFor count) f.empty).length := by
  obtain ⟨n, hcapacity, hroom⟩ := capacityFor_spec (capacityFor_ne_zero h)
  rw [List.length_replicate, hcapacity]
  exact ⟨table_replicate hfree n, hroom⟩

/-- An interface that can be read is restored, with its data and the imports it is given. -/
theorem initializePersisted_ok {cache : BuildCacheImage} {source : Nat} {data : InterfaceData}
    (h : Readable cache source data) (addresses : List Nat) :
    ∃ tables, initializePersisted cache source (addresses.map some) true = .ok tables ∧
      Holds tables data ∧ tables.imports = addresses := by
  obtain ⟨htypeTable, htypeRoom⟩ := @emptyTable _ _ _ typeFormat rfl _ h.typeCount
  obtain ⟨hobjectTable, hobjectRoom⟩ := @emptyTable _ _ _ objectFormat rfl _ h.objectCount
  obtain ⟨hmemberTable, hmemberRoom⟩ := @emptyTable _ _ _ memberFormat rfl _ h.memberCount
  obtain ⟨types, htypes, htypesHold, -⟩ := foldlM_insertPersisted htypeTable htypeRoom h.typeSlots
    h.typeSlotValid (fun value hvalue => by
      unfold persistedTypeSlot at hvalue
      simp only [Bool.and_eq_true] at hvalue
      simp [typeFormat, hvalue.2]) h.typeKeys
  obtain ⟨objects, hobjects, hobjectsHold, -⟩ := foldlM_insertPersisted hobjectTable hobjectRoom
    h.objectSlots h.objectSlotValid (fun value hvalue => by
      unfold persistedObjectSlot at hvalue
      simp only [Bool.and_eq_true] at hvalue
      simp [objectFormat, hvalue.2]) h.objectKeys
  obtain ⟨members, hmembers, hmembersHold, -⟩ := foldlM_insertPersisted hmemberTable hmemberRoom
    h.memberSlots h.memberSlotValid (fun value hvalue => by
      unfold persistedMemberSlot at hvalue
      simp only [Bool.and_eq_true] at hvalue
      simp [memberFormat, hvalue.1.1]) h.memberKeys
  have hlocal := mapM_readLocalType h.localTypes h.localTypeValid
  have hcapacities : ¬(capacityFor data.typeSlots.length = 0 ||
      capacityFor data.objectSlots.length = 0 || capacityFor data.memberSlots.length = 0) = true := by
    simp [capacityFor_ne_zero h.typeCount, capacityFor_ne_zero h.objectCount,
      capacityFor_ne_zero h.memberCount]
  refine ⟨{
    localTypes := data.localTypes
    typeSlots := types
    objectSlots := objects
    memberSlots := members
    persistenceTypeSlots := data.typeSlots
    persistenceObjectSlots := data.objectSlots
    persistenceMemberSlots := data.memberSlots
    persistenceLocalTypeCount := data.localTypes.length
    persistenceTypeSlotCount := data.typeSlots.length
    persistenceObjectSlotCount := data.objectSlots.length
    persistenceMemberSlotCount := data.memberSlots.length
    persistenceCompactState := true
    imports := addresses }, ?_,
    ⟨rfl, htypesHold, hobjectsHold, hmembersHold, rfl, rfl, rfl, rfl, rfl, rfl⟩, rfl⟩
  unfold initializePersisted
  rw [if_neg h.source_ne, h.record]
  show (if (capacityFor data.typeSlots.length = 0 || capacityFor data.objectSlots.length = 0 ||
    capacityFor data.memberSlots.length = 0) = true then .error (.failed .notAvailable)
    else restoreTables cache source data.counts (addresses.map some)) = _
  rw [if_neg hcapacities]
  unfold restoreTables InterfaceData.counts
  dsimp only
  rw [hlocal, htypes, hobjects, hmembers, collectImports_some]
  rfl

end SourceInterface

namespace CachedInterface
variable {blocks blocks' : BlockStore} {item : CachedInterface}

theorem ownedData_holds {address : Nat} {tables : SourceInterface} {data : InterfaceData}
    (h : SourceInterface.Holds tables data) : ownedData ⟨address, tables, none⟩ = data := by
  unfold ownedData localTypeValues
  rw [h.own, h.localTypes, h.persistenceTypeSlots, h.persistenceObjectSlots,
    h.persistenceMemberSlots]
  rfl

end CachedInterface
end ServerEngine

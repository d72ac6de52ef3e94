import ServerEngine.Runtime.NestedRecords
import ServerEngine.Runtime.ValueLinks

/-! # Nested objects

The objects are laid out one behind the other. Each keeps the nesting of its record, and every field
stands below one direct member of one object.
-/
namespace ServerEngine
open ErrorFold ConstructM Relation

/-! ## One object -/

/-- An object's direct members, and the record of the Graph they are declared in. -/
structure ObjectNested (fuel : Nat) (graph : ManagedGraphReader) (abi : AbiConfiguration)
    (fields : List ManagedFieldLayout) (object : ManagedObjectLayout) : Prop where
  aligned : object.alignment ∣ object.offset
  room : object.firstField + object.fieldCount ≤ fields.length
  slots : Slots abi.pack fields object.firstField object.fieldCount object.offset object.size
    object.alignment
  root : ∀ {i c}, object.firstField ≤ c → c < object.firstField + object.fieldCount →
    ¬ ChildOf fields i c
  record : ∃ entry type members, graph.findObject object.object = some entry ∧
    graph.named entry.type = some type ∧
      MembersAt fuel graph abi.target fields type object.firstField object.fieldCount members

section Behind

variable {fuel : Nat} {graph : ManagedGraphReader} {abi : AbiConfiguration}
  {xs fresh : List ManagedFieldLayout}

theorem ObjectNested.behind {object : ManagedObjectLayout}
    (h : ObjectNested fuel graph abi xs object) (hx : Nested abi.pack xs 0)
    (hy : Nested abi.pack (xs ++ fresh) xs.length) (d : Nat) :
    ObjectNested fuel graph abi (xs ++ fresh.map (shift d)) object := by
  have hroom := h.room
  refine ⟨h.aligned, ?_, ⟨?_, ?_⟩, ?_, ?_⟩
  · rw [List.length_append]
    omega
  · intro j hlow hhigh
    rw [getD_before (by omega)]
    exact h.slots.sits hlow hhigh
  · intro j k hlow hhigh hlow' hhigh' hne
    rw [getD_before (by omega), getD_before (by omega)]
    exact h.slots.apart hlow hhigh hlow' hhigh' hne
  · intro i c hlow hhigh hc
    cases childOf_join hx hy (Nat.zero_le i) (childOf_shift.mp hc) with
    | inl hin => exact h.root hlow hhigh hin.2.2
    | inr hout => omega
  · obtain ⟨entry, type, members, hfind, hnamed, hat⟩ := h.record
    refine ⟨entry, type, members, hfind, hnamed, hat.of_each fun c m hlow hhigh hlaid => ?_⟩
    rw [getD_before (by omega)]
    exact hlaid

end Behind

/-! ## The loop over the objects -/

def Precedes (a b : ManagedObjectLayout) : Prop :=
  a.firstField + a.fieldCount ≤ b.firstField ∧ a.offset + a.size ≤ b.offset

structure ObjectsNested (fuel : Nat) (graph : ManagedGraphReader) (abi : AbiConfiguration)
    (c : ObjectCursor) : Prop where
  nested : Nested abi.pack c.fieldLayouts 0
  declared : Declared fuel graph abi.target c.fieldLayouts 0
  object : ∀ object ∈ c.objectLayouts, ObjectNested fuel graph abi c.fieldLayouts object
  source : ∀ object ∈ c.objectLayouts,
    ∃ index < graph.objectSlotCount, graph.objectAt index = object.object
  below : ∀ object ∈ c.objectLayouts, object.offset + object.size ≤ c.total
  ordered : c.objectLayouts.Pairwise Precedes
  held : ∀ {j}, j < c.fieldLayouts.length → (∀ i, ¬ ChildOf c.fieldLayouts i j) →
    ∃ object ∈ c.objectLayouts, object.firstField ≤ j ∧ j < object.firstField + object.fieldCount
  slots : ∀ {handle slot : Nat}, c.objectSlots[handle]? = some (some slot) →
    ∃ object, c.objectLayouts[slot]? = some object ∧ object.object = handle

section Place

variable {fuel : Nat} {graph : ManagedGraphReader} {abi : AbiConfiguration} {c c' : ObjectCursor}
  {handle : ObjectHandle} {entry : ObjectEntry} {type : TypeHandle} {layout : RecordLayout}
  {fields : List ManagedFieldLayout}

theorem placeObject_spec (hpos : 0 < layout.alignment)
    (h : placeObject handle layout fields c = .ok c') :
    ∃ size offset, layout.size ≤ size ∧ c.total ≤ offset ∧ layout.alignment ∣ offset ∧
      c' = ⟨c.objectLayouts ++
          [⟨handle, offset, size, layout.alignment, layout.first, layout.membersCount⟩],
        shiftFrom fields layout.first offset,
        c.objectSlots.set handle (some c.objectLayouts.length), offset + size⟩ := by
  rw [placeObject] at h
  split at h
  · rename_i size offset hsize hoffset
    split at h
    · cases h
    · cases h
      exact ⟨size, offset, alignUp_ok hpos hsize, alignUp_ok hpos hoffset, alignUp_dvd hoffset, rfl⟩
  · cases h

theorem placeObject_nested (hc : ObjectsNested fuel graph abi c)
    (hsource : ∃ index < graph.objectSlotCount, graph.objectAt index = handle)
    (hfind : graph.findObject handle = some entry) (hnamed : graph.named entry.type = some type)
    (hl : RecordNested fuel graph abi type c.fieldLayouts layout fields)
    (h : placeObject handle layout fields c = .ok c') : ObjectsNested fuel graph abi c' := by
  obtain ⟨size, offset, hsize, htotal, haligned, rfl⟩ :=
    placeObject_spec (Nat.pos_of_isPowerOfTwo hl.alignment.1) h
  obtain ⟨fresh, rfl⟩ := hl.fresh
  obtain ⟨members, hmembers⟩ := hl.members
  have hroom := hl.covered.room
  have hlen : (c.fieldLayouts ++ fresh.map (shift offset)).length =
      (c.fieldLayouts ++ fresh).length := by simp
  rw [hl.first, shiftFrom_append]
  refine ⟨hc.nested.behind hl.nested offset,
    hc.declared.behind hc.nested hl.nested hl.declared offset, ?_, ?_, ?_, ?_, ?_, ?_⟩
  · intro object hobject
    cases List.mem_append.mp hobject with
    | inl hobject => exact (hc.object object hobject).behind hc.nested hl.nested offset
    | inr hobject =>
      obtain rfl := List.mem_singleton.mp hobject
      have hslots := hl.slots.shift (d := offset) (Nat.le_refl _) hroom
      refine ⟨haligned, ?_, ⟨?_, hslots.apart⟩, ?_, entry, type, members, hfind, hnamed, ?_⟩
      · dsimp only
        rw [hlen]
        exact hroom
      · intro j hlow hhigh
        exact (hslots.sits hlow hhigh).mono hsize (Nat.dvd_refl _)
      · dsimp only
        intro i j hlow hhigh hchild
        have hchild := childOf_shift.mp hchild
        cases childOf_join hc.nested hl.nested (Nat.zero_le i) hchild with
        | inl hin => omega
        | inr hout =>
          have hinner := hl.covered.inner hout.1 hchild
          omega
      · apply hmembers.of_each
        intro j m hlow hhigh hlaid
        rw [getD_behind hlow (by omega)]
        exact hlaid.shift offset
  · intro object hobject
    cases List.mem_append.mp hobject with
    | inl hobject => exact hc.source object hobject
    | inr hobject =>
      obtain rfl := List.mem_singleton.mp hobject
      exact hsource
  · intro object hobject
    cases List.mem_append.mp hobject with
    | inl hobject =>
      have hbelow := hc.below object hobject
      dsimp only
      omega
    | inr hobject =>
      obtain rfl := List.mem_singleton.mp hobject
      exact Nat.le_refl _
  · rw [List.pairwise_append]
    refine ⟨hc.ordered, List.pairwise_singleton _ _, ?_⟩
    intro a ha b hb
    obtain rfl := List.mem_singleton.mp hb
    exact ⟨(hc.object a ha).room, Nat.le_trans (hc.below a ha) htotal⟩
  · intro j hj horphan
    dsimp only at hj horphan
    by_cases hold : j < c.fieldLayouts.length
    · have horphan' : ∀ i, ¬ ChildOf c.fieldLayouts i j := by
        intro i hchild
        exact horphan i (childOf_shift.mpr ((childOf_before hchild.lt).mpr hchild))
      obtain ⟨object, hobject, hrange⟩ := hc.held hold horphan'
      exact ⟨object, List.mem_append_left _ hobject, hrange⟩
    · refine ⟨_, List.mem_append_right _ (List.mem_singleton.mpr rfl), Nat.le_of_not_lt hold, ?_⟩
      apply Nat.lt_of_not_le
      intro hle
      obtain ⟨i, -, hchild⟩ := hl.covered.held hle (by rwa [hlen] at hj)
      exact horphan i (childOf_shift.mpr hchild)
  · intro handle' slot hslot
    dsimp only at hslot ⊢
    by_cases heq : handle = handle'
    · subst heq
      have hin : handle < c.objectSlots.length := by
        apply Nat.lt_of_not_le
        intro hle
        rw [List.getElem?_eq_none (by simpa using hle)] at hslot
        cases hslot
      rw [List.getElem?_set_self hin] at hslot
      cases hslot
      exact ⟨_, List.getElem?_concat_length, rfl⟩
    · rw [List.getElem?_set_ne heq] at hslot
      obtain ⟨object, hobject, hhandle⟩ := hc.slots hslot
      have hlt := (List.getElem?_eq_some_iff.mp hobject).1
      exact ⟨object, by rw [List.getElem?_append_left hlt]; exact hobject, hhandle⟩

end Place

/-- A round keeps the invariant; a slot once filled stays so, and that of a live object is filled. -/
theorem layoutObject_nested {fuel : Nat} {graph : ManagedGraphReader} {abi : AbiConfiguration}
    {c c' : ObjectCursor} {index : Nat} (hpack : PackValue abi.pack)
    (hc : ObjectsNested fuel graph abi c) (hindex : index < graph.objectSlotCount)
    (h : layoutObject fuel graph abi c index = .ok c') :
    ObjectsNested fuel graph abi c' ∧ c'.objectSlots.length = c.objectSlots.length ∧
      (∀ handle : Nat, (c.objectSlots[handle]?.join).isSome = true →
        (c'.objectSlots[handle]?.join).isSome = true) ∧
      ((graph.findObject (graph.objectAt index)).isSome = true →
        graph.objectAt index < c.objectSlots.length →
          (c'.objectSlots[graph.objectAt index]?.join).isSome = true) ∧
      (∀ object ∈ c.objectLayouts, object ∈ c'.objectLayouts) ∧
      ((graph.findObject (graph.objectAt index)).isSome = true →
        ∃ object ∈ c'.objectLayouts, object.object = graph.objectAt index) := by
  rw [layoutObject] at h
  dsimp only at h
  split at h
  · rename_i hfind
    cases h
    refine ⟨hc, rfl, fun _ hsome => hsome, ?_, fun _ hmem => hmem, ?_⟩
    · simp [hfind]
    · simp [hfind]
  · rename_i entry hfind
    split at h
    · cases h
    · split at h
      · cases h
      · rename_i type hnamed
        obtain ⟨⟨layout, fields⟩, hlayout, h⟩ := bind_ok.mp h
        have hl := layoutRecord_nests hpack 64 [] _ _ _ _ _ _ hlayout
        refine ⟨placeObject_nested hc ⟨index, hindex, rfl⟩ hfind hnamed hl h, ?_⟩
        obtain ⟨size, offset, -, -, -, rfl⟩ :=
          placeObject_spec (Nat.pos_of_isPowerOfTwo hl.alignment.1) h
        dsimp only
        refine ⟨List.length_set, ?_, ?_, fun _ => List.mem_append_left _, ?_⟩
        · intro handle hsome
          by_cases heq : graph.objectAt index = handle
          · by_cases hin : handle < c.objectSlots.length
            · rw [heq, List.getElem?_set_self hin]
              rfl
            · have hout : c.objectSlots.length ≤ graph.objectAt index := by
                rw [heq]
                exact Nat.le_of_not_lt hin
              rw [List.set_eq_of_length_le hout]
              exact hsome
          · rw [List.getElem?_set_ne heq]
            exact hsome
        · intro _ hin
          rw [List.getElem?_set_self hin]
          rfl
        · exact fun _ => ⟨_, List.mem_append_right _ (List.mem_singleton.mpr rfl), rfl⟩

/-- After the loop every object is laid out, and has its slot if its handle is in the table. -/
structure ObjectTable (graph : ManagedGraphReader) (c : ObjectCursor) : Prop where
  length : c.objectSlots.length = graph.objectSlotCount + 1
  filled : ∀ index < graph.objectSlotCount,
    (graph.findObject (graph.objectAt index)).isSome = true →
      graph.objectAt index ≤ graph.objectSlotCount →
        (c.objectSlots[graph.objectAt index]?.join).isSome = true
  laid : ∀ index < graph.objectSlotCount,
    (graph.findObject (graph.objectAt index)).isSome = true →
      ∃ object ∈ c.objectLayouts, object.object = graph.objectAt index

theorem layoutObjects_nested {fuel : Nat} {graph : ManagedGraphReader} {abi : AbiConfiguration}
    {c : ObjectCursor} (hpack : PackValue abi.pack) (h : layoutObjects fuel graph abi = .ok c) :
    ObjectsNested fuel graph abi c ∧ ObjectTable graph c := by
  have hrun := foldlM_ok_rec
    (fun (pre : List Nat) (c : ObjectCursor) => ObjectsNested fuel graph abi c ∧
      c.objectSlots.length = graph.objectSlotCount + 1 ∧
      ∀ index ∈ pre, (graph.findObject (graph.objectAt index)).isSome = true →
        (graph.objectAt index ≤ graph.objectSlotCount →
          (c.objectSlots[graph.objectAt index]?.join).isSome = true) ∧
        ∃ object ∈ c.objectLayouts, object.object = graph.objectAt index) h ?_ ?_
  · refine ⟨hrun.1, hrun.2.1, fun index hindex hlive => ?_, fun index hindex hlive => ?_⟩
    · exact (hrun.2.2 index (List.mem_range.mpr hindex) hlive).1
    · exact (hrun.2.2 index (List.mem_range.mpr hindex) hlive).2
  · have hnone : ∀ {i j : Nat}, ¬ ChildOf [] i j :=
      fun hc => Nat.not_lt_zero _ hc.lt
    refine ⟨⟨⟨?_, ?_, ?_, ?_⟩, ?_, ?_, ?_, ?_, List.Pairwise.nil, ?_, ?_⟩, ?_, ?_⟩
    · exact fun _ hc => absurd hc hnone
    · exact fun _ hc => absurd hc hnone
    · exact fun _ hc => absurd hc hnone
    · exact fun _ _ hc => absurd hc hnone
    · exact fun i _ haggr => absurd (lt_of_aggregate haggr) (Nat.not_lt_zero i)
    · exact fun _ hobject => absurd hobject List.not_mem_nil
    · exact fun _ hobject => absurd hobject List.not_mem_nil
    · exact fun _ hobject => absurd hobject List.not_mem_nil
    · exact fun hj => absurd hj (Nat.not_lt_zero _)
    · intro handle slot hslot
      have hmem := List.mem_of_getElem? hslot
      cases (List.mem_replicate.mp hmem).2
    · exact List.length_replicate
    · exact fun _ hindex => absurd hindex List.not_mem_nil
  · rintro pre index u v hindex ⟨hu, hlen, hfilled⟩ hv
    obtain ⟨hnested, hlen', hkept, hnew, hstay, hadded⟩ :=
      layoutObject_nested hpack hu (List.mem_range.mp hindex) hv
    refine ⟨hnested, hlen'.trans hlen, fun i hi hlive => ?_⟩
    cases List.mem_append.mp hi with
    | inl hi =>
      obtain ⟨hslot, object, hobject, hhandle⟩ := hfilled i hi hlive
      exact ⟨fun hle => hkept _ (hslot hle), object, hstay object hobject, hhandle⟩
    | inr hi =>
      obtain rfl := List.mem_singleton.mp hi
      refine ⟨fun hle => ?_, hadded hlive⟩
      apply hnew hlive
      rw [hlen]
      exact Nat.lt_succ_of_le hle

end ServerEngine

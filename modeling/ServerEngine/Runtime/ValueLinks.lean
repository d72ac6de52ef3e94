import ServerEngine.Runtime.Binding

/-! # Value links hold

Propagation runs the value links as an ordered copy plan over disjoint fields, so it establishes
every link from whatever bytes it finds. A write stores inside one field and propagates; a rejected
write changes nothing.
-/
namespace ServerEngine
open Slice ErrorFold ConstructM

/-! ## Cells of the storage -/

structure Cell (fields : List ManagedFieldLayout) (i : Nat) : Prop where
  lt : i < fields.length
  scalar : (fields.getD i {}).aggregate = false
  own : (fields.getD i {}).reference = false

def readField (fields : List ManagedFieldLayout) (storage : Bytes) (i : Nat) : Bytes :=
  slice storage (fields.getD i {}).offset (fields.getD i {}).size

variable {fields : List ManagedFieldLayout} {limit i : Nat}

theorem Packed.fits (h : Packed fields limit) (ha : (fields.getD i {}).aggregate = false) :
    (fields.getD i {}).offset + (fields.getD i {}).size ≤ limit := by
  by_cases hi : i < fields.length
  · have hwithin := h.within _ (getD_mem hi) ha
    have hsize := (h.shaped _ (getD_mem hi)).size_le_bytes ha
    omega
  · rw [List.getD_eq_getElem?_getD, List.getElem?_eq_none (by omega)]
    exact Nat.zero_le limit

theorem Packed.apart_of_ne {j : Nat} (h : Packed fields limit) (hi : Cell fields i)
    (hj : Cell fields j) (hne : i ≠ j) :
    (fields.getD i {}).offset + (fields.getD i {}).size ≤ (fields.getD j {}).offset ∨
      (fields.getD j {}).offset + (fields.getD j {}).size ≤ (fields.getD i {}).offset := by
  have key : ∀ {a b : Nat}, Cell fields a → Cell fields b → a < b →
      Apart (fields.getD a {}) (fields.getD b {}) := by
    intro a b ha hb hab
    have hget := List.pairwise_iff_getElem.mp h.apart a b ha.lt hb.lt hab
    rwa [List.getD_eq_getElem?_getD, List.getD_eq_getElem?_getD, List.getElem?_eq_getElem ha.lt,
      List.getElem?_eq_getElem hb.lt]
  have hbytes : ∀ {a : Nat}, Cell fields a →
      (fields.getD a {}).bytes = (fields.getD a {}).size := by
    intro a ha
    rw [ManagedFieldLayout.bytes, ha.own]
    rfl
  have hap : Apart (fields.getD i {}) (fields.getD j {}) := by
    rcases Nat.lt_or_gt_of_ne hne with hlt | hgt
    · exact key hi hj hlt
    · exact (key hj hi hgt).symm
  have hranges := hap hi.scalar hj.scalar
  rwa [hbytes hi, hbytes hj] at hranges

structure Copies (fields : List ManagedFieldLayout) (c : ManagedBinding) : Prop where
  target : Cell fields c.target
  source : Cell fields c.source
  size : (fields.getD c.target {}).size = (fields.getD c.source {}).size
  ne : c.source ≠ c.target

theorem copyField_laws (h : Packed fields limit) {plan : List ManagedBinding}
    (hplan : ∀ c ∈ plan, Copies fields c) :
    CopyPlan.Laws (readField fields) (copyField fields) (fun s => s.length = limit) (Cell fields)
      plan := by
  have hlen : ∀ c ∈ plan, ∀ s : Bytes, s.length = limit →
      (slice s (fields.getD c.source {}).offset (fields.getD c.target {}).size).length =
        (fields.getD c.target {}).size := by
    intro c hc s hs
    apply slice_length
    rw [(hplan c hc).size, hs]
    exact h.fits (hplan c hc).source.scalar
  have hfit : ∀ c ∈ plan, ∀ s : Bytes, s.length = limit →
      (fields.getD c.target {}).offset +
        (slice s (fields.getD c.source {}).offset (fields.getD c.target {}).size).length ≤
          s.length := by
    intro c hc s hs
    rw [hlen c hc s hs, hs]
    exact h.fits (hplan c hc).target.scalar
  refine ⟨fun c hc s hs => ?_, fun c hc s hs => ?_, fun c hc s hs i hi hne => ?_, fun c hc => ?_,
    fun c hc => (hplan c hc).ne⟩
  · rw [copyField, overwrite_length (hfit c hc s hs), hs]
  · have hself := slice_overwrite_self (hfit c hc s hs)
    rw [hlen c hc s hs] at hself
    rw [readField, copyField, readField, ← (hplan c hc).size]
    exact hself
  · have hap := h.apart_of_ne hi (hplan c hc).target hne
    rw [readField, copyField, readField]
    apply slice_overwrite_of_apart (hfit c hc s hs)
    rw [hlen c hc s hs]
    exact hap
  · exact ⟨(hplan c hc).target, (hplan c hc).source⟩

theorem littleEndian_length (bits count : Nat) : (littleEndian bits count).length = count := by
  rw [littleEndian, List.length_map, List.length_range]

variable {f : ManagedFieldLayout} {bytes : Bytes}

theorem initializeReal_length {number : Nat} (hs : f.size = 4 ∨ f.size = 8)
    (h : initializeReal f number = some bytes) : bytes.length = f.size := by
  rw [initializeReal] at h
  split at h
  · cases h
  · split at h
    · rename_i hfour
      dsimp only at h
      split at h
      · obtain rfl := Option.some.inj h
        rw [littleEndian_length, hfour]
      · cases h
    · rename_i hfour
      obtain rfl := Option.some.inj h
      rw [littleEndian_length]
      exact (hs.resolve_left hfour).symm

theorem initializeStorage_length (hs : f.floating = true → f.size = 4 ∨ f.size = 8)
    (h : initializeStorage f = some bytes) :
    bytes = [] ∨ (f.aggregate = false ∧ bytes.length = f.size) := by
  rw [initializeStorage] at h
  split at h
  · cases h
  · split at h
    · split at h
      · exact .inl (Option.some.inj h).symm
      · cases h
    · rename_i haggr
      have ha : f.aggregate = false := by simpa using haggr
      split at h
      · split at h
        · exact .inl (Option.some.inj h).symm
        · cases h
      · split at h
        · cases h
        · split at h
          · rename_i hfloat
            exact .inr ⟨ha, initializeReal_length (hs hfloat) h⟩
          · split at h
            · cases h
            · obtain rfl := Option.some.inj h
              exact .inr ⟨ha, littleEndian_length _ _⟩

theorem overwrite_field_length {storage : Bytes}
    (hfit : f.aggregate = false → f.offset + f.size ≤ storage.length)
    (hb : bytes = [] ∨ (f.aggregate = false ∧ bytes.length = f.size)) :
    (overwrite storage f.offset bytes).length = storage.length := by
  rcases hb with rfl | ⟨ha, hlen⟩
  · rw [overwrite_nil]
  · apply overwrite_length
    rw [hlen]
    exact hfit ha

namespace ManagedRuntime

/-- Every live value link of the Graph holds: its target field has the bytes of the field its source
resolves to. -/
def ValueLinksHold (r : ManagedRuntime) (graph : ManagedGraphReader) : Prop :=
  ∃ links, graph.links = some links ∧ ∀ link ∈ links, link.live = true →
    ∃ target source resolved, r.field link.target [] = some target ∧
      r.field link.source [] = some source ∧ r.resolved.getD source none = some resolved ∧
        ((r.fieldLayouts.getD target {}).reference = false →
          r.bytesAt target = r.bytesAt resolved)

structure Planned (r : ManagedRuntime) (graph : ManagedGraphReader) : Prop where
  packed : Packed r.fieldLayouts r.storage.length
  copies : ∀ c ∈ r.copies, Copies r.fieldLayouts c
  ordered : CopyPlan.Ordered r.copies
  links : ∃ links, graph.links = some links ∧ ∀ link ∈ links, link.live = true →
    ∃ target source resolved, r.field link.target [] = some target ∧
      r.field link.source [] = some source ∧ r.resolved.getD source none = some resolved ∧
        ((r.fieldLayouts.getD target {}).reference = false →
          resolved = target ∨ ⟨target, resolved⟩ ∈ r.copies)

/-- Every copy has been made and nothing it reads or writes has changed since. -/
def Propagated (r : ManagedRuntime) : Prop :=
  ∀ c ∈ r.copies, r.bytesAt c.target = r.bytesAt c.source

variable {r : ManagedRuntime} {graph : ManagedGraphReader} {storage : Bytes}

theorem Planned.withStorage (h : r.Planned graph) (hlen : storage.length = r.storage.length) :
    { r with storage := storage }.Planned graph := by
  refine ⟨?_, h.copies, h.ordered, h.links⟩
  show Packed r.fieldLayouts storage.length
  rw [hlen]
  exact h.packed

theorem Planned.propagate (h : r.Planned graph) :
    r.propagate.Planned graph ∧ r.propagate.Propagated ∧
      r.propagate.storage.length = r.storage.length := by
  have hlaws := copyField_laws h.packed h.copies
  have hkeeps := CopyPlan.run_keeps hlaws (s := r.storage) rfl
  refine ⟨h.withStorage hkeeps, fun c hc => ?_, hkeeps⟩
  exact CopyPlan.run_agrees hlaws h.ordered rfl hc

theorem valueLinksHold_of_propagated (h : r.Planned graph) (hp : r.Propagated) :
    r.ValueLinksHold graph := by
  obtain ⟨links, hlinks, hall⟩ := h.links
  refine ⟨links, hlinks, fun link hlink hlive => ?_⟩
  obtain ⟨target, source, resolved, ht, hs, hr, hcopy⟩ := hall link hlink hlive
  refine ⟨target, source, resolved, ht, hs, hr, fun hown => ?_⟩
  rcases hcopy hown with rfl | hmem
  · rfl
  · exact hp _ hmem

/-! ## Construction -/

variable {i : Nat}

theorem endpointField_lt {c : ObjectCursor} (h : ObjectsPlaced c) {endpoint : ObjectEndpoint}
    (hi : endpointField c.objectSlots c.objectLayouts endpoint = some i) :
    i < c.fieldLayouts.length := by
  rw [endpointField] at hi
  split at hi
  · cases hi
  · split at hi
    · cases hi
    · rename_i slot hslot
      dsimp only at hi
      split at hi
      · rename_i hmember
        obtain rfl := Option.some.inj hi
        have hmem : some slot ∈ c.objectSlots :=
          List.mem_of_getElem? (Option.join_eq_some_iff.mp hslot)
        have hlt := h.slots slot hmem
        have hobject := h.objects (c.objectLayouts.getD slot {}) (by
          rw [List.getD_eq_getElem?_getD, List.getElem?_eq_getElem hlt]
          exact List.getElem_mem hlt)
        omega
      · cases hi

variable {fields : List ManagedFieldLayout}

theorem storeInitial_length {total : Nat} (h : Packed fields total)
    (hs : fields.foldlM storeInitial (List.replicate total 0) = .ok storage) :
    storage.length = total := by
  refine foldlM_ok_invariant (fun (s : Bytes) => s.length = total) hs List.length_replicate ?_
  intro f u v hf hu hv
  rw [storeInitial] at hv
  split at hv
  · cases hv
  · rename_i bytes hbytes
    cases hv
    have hshape := h.shaped f hf
    rw [overwrite_field_length (fun ha => ?_) (initializeStorage_length hshape.floating hbytes), hu]
    have hwithin := h.within f hf ha
    have hsize := hshape.size_le_bytes ha
    omega

theorem sourceFor_some {incoming resolved : List (Option Nat)} {s : Nat} :
    sourceFor fields incoming resolved i = some s ↔
      (fields.getD i {}).reference = false ∧ s ≠ i ∧
        ∃ from', incoming.getD i none = some from' ∧ resolved.getD from' none = some s := by
  rw [sourceFor]
  cases hin : incoming.getD i none with
  | none => simp
  | some source =>
    by_cases href : (fields.getD i {}).reference = true
    · simp only [href, if_true, Bool.true_eq_false, false_and, reduceCtorEq]
    · have hself : (fields.getD i {}).reference = false := by simpa using href
      simp only [hself, Bool.false_eq_true, if_false, Option.some.injEq, true_and, exists_eq_left']
      by_cases hi : resolved.getD source none = some i
      · rw [if_pos hi, hi]
        simp only [reduceCtorEq, Option.some.injEq, false_iff, not_and]
        exact fun hne heq => hne heq.symm
      · rw [if_neg hi]
        exact ⟨fun h => ⟨fun heq => hi (heq ▸ h), h⟩, fun h => h.2⟩

theorem getD_map_range {β : Type} (f : Nat → Option β) (n i : Nat) (x : β) :
    ((List.range n).map f).getD i none = some x ↔ i < n ∧ f i = some x := by
  rw [List.getD_eq_getElem?_getD, List.getElem?_map]
  by_cases hi : i < n
  · simp [hi]
  · simp [hi]

theorem construct_planned {fuel : Nat} {abi : AbiConfiguration}
    (h : construct fuel graph abi = .ok r) : r.Planned graph ∧ r.Propagated := by
  rw [construct] at h
  split at h
  · cases h
  · rename_i habi
    have hpack := AbiConfiguration.supported_pack (by simpa using habi)
    obtain ⟨layout, hlayout, h⟩ := bind_ok.mp h
    obtain ⟨fields, hfields, h⟩ := bind_ok.mp h
    obtain ⟨b, hb, h⟩ := bind_ok.mp h
    obtain ⟨resolved, hresolved, h⟩ := bind_ok.mp h
    obtain ⟨copies, hcopies, h⟩ := bind_ok.mp h
    obtain ⟨storage, hstorage, h⟩ := bind_ok.mp h
    obtain rfl := Except.ok.inj h
    have hplaced := layoutObjects_placed hpack hlayout
    have hpacked := initializeFields_packed hplaced.packed hfields
    have hcount : fields.length = layout.fieldLayouts.length := by
      have := congrArg List.length (initializeFields_plain hfields)
      simpa using this
    obtain ⟨hbound, links, hlinks, hall⟩ := bindAll_spec hb
    obtain ⟨hres, htotal⟩ := resolveReferences_ok hpacked hbound hresolved
    have hlen := storeInitial_length hpacked hstorage
    have hsources : ∀ v s, ((List.range fields.length).map
        (sourceFor fields b.incoming resolved)).getD v none = some s → Copies fields ⟨v, s⟩ := by
      intro v s hvs
      obtain ⟨hv, hsource⟩ := (getD_map_range _ _ _ _).mp hvs
      obtain ⟨href, hne, source, hin, hs⟩ := sourceFor_some.mp hsource
      have halike := hbound.incoming v source hin
      obtain ⟨hlt, hown, hlike⟩ := hres.target source s hs
      have hvs' : Alike fields v s := by
        rcases hlike with rfl | hlike
        · exact halike
        · exact halike.trans hlike
      exact ⟨⟨hv, hvs'.left, href⟩, ⟨hlt, hvs'.right, hown⟩, hvs'.size, hne⟩
    have hlength : ((List.range fields.length).map
        (sourceFor fields b.incoming resolved)).length = fields.length := by simp
    obtain ⟨hordered, hmem⟩ := orderLinks_ok
      (fun v s hvs => by rw [hlength]; exact (hsources v s hvs).source.lt) hcopies
    have hplanned : Planned
        ⟨layout.objectLayouts, fields, layout.objectSlots, resolved, copies, storage⟩ graph := by
      refine ⟨?_, fun c hc => hsources c.target c.source ((hmem c).mp hc), hordered, links, hlinks,
        fun link hlink hlive => ?_⟩
      · show Packed fields storage.length
        rw [hlen]
        exact hpacked
      · obtain ⟨target, source, hl⟩ := hall link hlink hlive
        have htlt := endpointField_lt hplaced hl.targetField
        have hslt := endpointField_lt hplaced hl.sourceField
        rw [← hcount] at htlt hslt
        obtain ⟨t, ht⟩ := htotal source hslt
        refine ⟨target, source, t, hl.targetField, hl.sourceField, ht, fun hown => ?_⟩
        by_cases heq : t = target
        · exact .inl heq
        · have hfrom : sourceFor fields b.incoming resolved target = some t :=
            sourceFor_some.mpr ⟨hown, heq, source, hl.incoming htlt, ht⟩
          exact .inr ((hmem ⟨target, t⟩).mpr ((getD_map_range _ _ _ _).mpr ⟨htlt, hfrom⟩))
    exact ⟨hplanned.propagate.1, hplanned.propagate.2.1⟩

/-! ## Writes -/

theorem Planned.store (h : r.Planned graph) {f : ManagedFieldLayout} {bytes : Bytes}
    (hf : f = r.fieldLayouts.getD i {})
    (hb : bytes = [] ∨ (f.aggregate = false ∧ bytes.length = f.size)) :
    (r.store f bytes).Planned graph ∧ (r.store f bytes).Propagated := by
  have hlen := overwrite_field_length (fun ha => hf ▸ h.packed.fits (hf ▸ ha)) hb
  have hstored := (h.withStorage hlen).propagate
  exact ⟨hstored.1, hstored.2.1⟩

theorem write_cases {limit : Nat} (h : Packed r.fieldLayouts limit) (call : Write) :
    (∃ code, r.write call = (.error code, r)) ∨
      ∃ i bytes, (bytes = [] ∨ ((r.fieldLayouts.getD i {}).aggregate = false ∧
        bytes.length = (r.fieldLayouts.getD i {}).size)) ∧
          r.write call = (.ok (), r.store (r.fieldLayouts.getD i {}) bytes) := by
  cases call with
  | integer endpoint path value =>
    rw [write, writeInteger]
    split
    · exact .inl ⟨_, rfl⟩
    · rename_i index _
      dsimp only
      split
      · exact .inl ⟨_, rfl⟩
      · rename_i hok
        simp only [Bool.or_eq_true, not_or, Bool.not_eq_true] at hok
        exact .inr ⟨r.target index, _, .inr ⟨hok.1.1.1.1.1, littleEndian_length _ _⟩, rfl⟩
  | real endpoint path value =>
    rw [write, writeReal]
    split
    · exact .inl ⟨_, rfl⟩
    · rename_i index _
      dsimp only
      split
      · exact .inl ⟨_, rfl⟩
      · split
        · exact .inl ⟨_, rfl⟩
        · rename_i bytes hbytes
          have hshape : (r.resolvedField index).floating = true →
              (r.resolvedField index).size = 4 ∨ (r.resolvedField index).size = 8 := by
            intro hfloat
            have hin : r.target index < r.fieldLayouts.length := by
              by_contra hge
              rw [resolvedField, List.getD_eq_getElem?_getD, List.getElem?_eq_none (by omega)]
                at hfloat
              cases hfloat
            exact (h.shaped _ (getD_mem hin)).floating hfloat
          have hfill := initializeStorage_length (by exact hshape) hbytes
          exact .inr ⟨r.target index, bytes, hfill, rfl⟩

theorem write_planned (h : r.Planned graph) (hp : r.Propagated) (call : Write) :
    (r.write call).2.Planned graph ∧ (r.write call).2.Propagated := by
  rcases write_cases h.packed call with ⟨code, heq⟩ | ⟨i, bytes, hbytes, heq⟩
  · rw [heq]
    exact ⟨h, hp⟩
  · rw [heq]
    exact h.store rfl hbytes

theorem writes_planned (h : r.Planned graph) (hp : r.Propagated) (calls : List Write) :
    (r.writes calls).Planned graph ∧ (r.writes calls).Propagated := by
  induction calls generalizing r with
  | nil => exact ⟨h, hp⟩
  | cons call calls ih =>
    obtain ⟨h1, h2⟩ := write_planned h hp call
    exact ih h1 h2

/-- Value links hold after construction and after every call of any sequence of writes. -/
theorem valueLinks_hold {fuel : Nat} {abi : AbiConfiguration} (h : construct fuel graph abi = .ok r)
    (calls : List Write) : (r.writes calls).ValueLinksHold graph := by
  obtain ⟨hplanned, hpropagated⟩ := construct_planned h
  obtain ⟨h1, h2⟩ := writes_planned hplanned hpropagated calls
  exact valueLinksHold_of_propagated h1 h2

/-- `struct Device { int& IN = OUT; int OUT = 5; };` with two devices and a tap: the second device's
input is bound to the first one's output, and the tap copies through that input. -/
def chainedDevices : ManagedGraphReader :=
  .ofGraph
    { Graph.empty with
      types := [{ definition := ⟨1, 2⟩, live := true }, { definition := ⟨3, 1⟩, live := true }]
      memberRecords :=
        [{ type := 2, construction := { operand := 2, kind := .memberBinding } },
          { type := 1, construction := .constant .unsignedInteger 5 }, { type := 1 }]
      objectEntries :=
        [{ type := 3, live := true }, { type := 3, live := true }, { type := 4, live := true }]
      linkRecords :=
        [{ source := ⟨1, 1⟩, target := ⟨2, 0⟩ }, { source := ⟨2, 0⟩, target := ⟨3, 0⟩ }]
      canonicalTypes :=
        [{}, { kind := .intrinsic, detail := IntrinsicType.signedInt.code },
          { kind := .derived, childOrHandle := 1, detail := 3 }, { kind := .named, childOrHandle := 1 },
          { kind := .named, childOrHandle := 2 }] }
    fun _ => []

example : (construct 4 chainedDevices {}).map (fun r =>
    (r.writes [.integer ⟨2, 0⟩ [] 17]).readInteger ⟨3, 0⟩ []) = .ok (.ok 17) := by decide +kernel

theorem valueLinks_hold_chain : ∃ r, construct 4 chainedDevices {} = .ok r ∧
    (r.writes [.integer ⟨2, 0⟩ [] 17, .integer ⟨3, 0⟩ [] 4]).ValueLinksHold chainedDevices := by
  have hok : (construct 4 chainedDevices {}).isOk = true := by decide +kernel
  cases hr : construct 4 chainedDevices {} with
  | error failure =>
    rw [hr] at hok
    cases hok
  | ok r => exact ⟨r, rfl, valueLinks_hold hr _⟩

end ManagedRuntime

end ServerEngine

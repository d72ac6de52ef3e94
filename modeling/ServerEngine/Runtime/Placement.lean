import ServerEngine.Library.ErrorFold
import ServerEngine.Runtime.Layout

/-! # Placement of the managed fields

The scalar fields of a layout take pairwise disjoint byte ranges inside the storage. A record is laid
out from zero, so what one level of nesting adds is a shift behind the fields placed before it.
-/
namespace ServerEngine
open ErrorFold ConstructM

/-! ## Disjoint fields -/

def Apart (a b : ManagedFieldLayout) : Prop :=
  a.aggregate = false → b.aggregate = false →
    a.offset + a.bytes ≤ b.offset ∨ b.offset + b.bytes ≤ a.offset

theorem Apart.symm {a b : ManagedFieldLayout} (h : Apart a b) : Apart b a :=
  fun hb ha => (h ha hb).symm

structure Shaped (f : ManagedFieldLayout) : Prop where
  scalar : f.aggregate = false → 0 < f.size ∧ f.size ≤ 8
  record : f.aggregate = true → f.reference = false
  floating : f.floating = true → f.size = 4 ∨ f.size = 8

/-- Fields laid out below `limit`. -/
structure Packed (fields : List ManagedFieldLayout) (limit : Nat) : Prop where
  apart : fields.Pairwise Apart
  within : ∀ f ∈ fields, f.aggregate = false → f.offset + f.bytes ≤ limit
  shaped : ∀ f ∈ fields, Shaped f

theorem packed_nil (limit : Nat) : Packed [] limit :=
  ⟨List.Pairwise.nil, fun _ hf => absurd hf List.not_mem_nil,
    fun _ hf => absurd hf List.not_mem_nil⟩

variable {xs ys : List ManagedFieldLayout} {limit : Nat}

theorem Packed.perm (h : Packed xs limit) (hp : xs.Perm ys) : Packed ys limit :=
  ⟨(hp.pairwise_iff fun hab => Apart.symm hab).mp h.apart, fun f hf => h.within f (hp.mem_iff.mpr hf),
    fun f hf => h.shaped f (hp.mem_iff.mpr hf)⟩

variable {f : ManagedFieldLayout}

theorem Shaped.size_le_bytes (h : Shaped f) (ha : f.aggregate = false) : f.size ≤ f.bytes := by
  have := (h.scalar ha).2
  rw [ManagedFieldLayout.bytes]
  split <;> omega

theorem Packed.mono {limit' : Nat} (h : Packed xs limit) (hle : limit ≤ limit') :
    Packed xs limit' :=
  ⟨h.apart, fun f hf ha => Nat.le_trans (h.within f hf ha) hle, h.shaped⟩

theorem Packed.behind {size d : Nat} (hx : Packed xs limit) (hy : Packed ys size) (hd : limit ≤ d) :
    Packed (xs ++ ys.map (shift d)) (d + size) := by
  refine ⟨List.pairwise_append.mpr ⟨hx.apart, ?_, ?_⟩, ?_, ?_⟩
  · rw [List.pairwise_map]
    refine hy.apart.imp fun {a b} hab ha hb => ?_
    have h := hab ha hb
    show a.offset + d + a.bytes ≤ b.offset + d ∨ b.offset + d + b.bytes ≤ a.offset + d
    omega
  · intro a ha b hb haggr _
    obtain ⟨c, -, rfl⟩ := List.mem_map.mp hb
    have h := hx.within a ha haggr
    refine .inl ?_
    show a.offset + a.bytes ≤ c.offset + d
    omega
  · intro f hf ha
    rcases List.mem_append.mp hf with hf | hf
    · have h := hx.within f hf ha
      omega
    · obtain ⟨c, hc, rfl⟩ := List.mem_map.mp hf
      have h := hy.within c hc ha
      show c.offset + d + c.bytes ≤ d + size
      omega
  · intro f hf
    rcases List.mem_append.mp hf with hf | hf
    · exact hx.shaped f hf
    · obtain ⟨c, hc, rfl⟩ := List.mem_map.mp hf
      obtain ⟨h1, h2, h3⟩ := hy.shaped c hc
      exact ⟨h1, h2, h3⟩

theorem alignUp_ok {offset alignment result : Nat} (ha : 0 < alignment)
    (h : alignUp offset alignment = some result) : offset ≤ result := by
  rw [alignUp] at h
  split at h
  · cases h
  · obtain rfl := Option.some.inj h
    have hdiv := Nat.div_add_mod (offset + alignment - 1) alignment
    have hmod := Nat.mod_lt (offset + alignment - 1) ha
    rw [Nat.mul_comm]
    omega

variable {graph : ManagedGraphReader} {fuel : Nat} {type : TypeRef} {field out : ManagedFieldLayout}

theorem scalarModifiers_ok {indirect : Bool}
    (h : scalarModifiers graph fuel type indirect field = .ok (some out)) :
    out.aggregate = field.aggregate ∧ out.floating = field.floating := by
  induction fuel generalizing type indirect field with
  | zero => cases h
  | succ fuel ih =>
    rw [scalarModifiers] at h
    cases hd : graph.derived type with
    | none =>
      rw [hd] at h
      cases h
      exact ⟨rfl, rfl⟩
    | some derived =>
      rw [hd] at h
      cases hk : derived.kind <;> simp only [hk] at h
      case constQualified =>
        have hout := ih h
        exact hout
      case pointer =>
        split at h
        · cases h
        · have hout := ih h
          exact hout
      case lvalueReference =>
        split at h
        · cases h
        · have hout := ih h
          exact hout
      all_goals cases h

variable {target : AbiTarget}

theorem scalarStorage_some {intrinsic : IntrinsicType} (hf : field.floating = false)
    (h : scalarStorage target field intrinsic = some out) :
    out.aggregate = field.aggregate ∧ (0 < out.size ∧ out.size ≤ 8) ∧
      (out.floating = true → out.size = 4 ∨ out.size = 8) := by
  cases intrinsic <;> cases h <;> cases target <;> simp [hf]

theorem scalarLayout_ok (ha : field.aggregate = false) (hf : field.floating = false)
    (h : scalarLayout fuel graph type target field = .ok (some out)) :
    out.aggregate = false ∧ 0 < out.alignment ∧ Shaped out := by
  obtain ⟨peeled, hpeeled, h⟩ := bind_ok.mp h
  cases peeled with
  | none => cases h
  | some f =>
    obtain ⟨haggr, hfloat⟩ := scalarModifiers_ok hpeeled
    rw [ha] at haggr
    rw [hf] at hfloat
    simp only at h
    cases hi : graph.intrinsic f.valueType with
    | none =>
      rw [hi] at h
      cases h
    | some intrinsic =>
      simp only [hi] at h
      split at h
      · cases h
        exact ⟨haggr, by simp, by simp, by simp [haggr], by simp [hfloat]⟩
      · obtain ⟨g, hg, rfl⟩ := Option.map_eq_some_iff.mp (Except.ok.inj h)
        obtain ⟨h1, h2, h3⟩ := scalarStorage_some hfloat hg
        rw [haggr] at h1
        exact ⟨h1, h2.1, fun _ => h2, by simp [h1], h3⟩

/-! ## Records -/

/-- What the layout of a record adds to the fields: disjoint fields below its size. -/
structure Laid (fields : List ManagedFieldLayout) (layout : RecordLayout)
    (after : List ManagedFieldLayout) : Prop where
  fresh : ∃ fresh, after = fields ++ fresh ∧ Packed fresh layout.size ∧
    layout.membersCount ≤ fresh.length
  first : layout.first = fields.length
  alignment : 0 < layout.alignment ∧ layout.alignment ≤ 16

def LaysOut (self : LayoutRecord) : Prop :=
  ∀ type root readOnly fields layout after,
    self type root readOnly fields = .ok (layout, after) → Laid fields layout after

/-- A member's field and the fields nested in it, before it is placed. -/
structure MemberLaid (fields : List ManagedFieldLayout) (f : ManagedFieldLayout)
    (after : List ManagedFieldLayout) : Prop where
  fresh : ∃ fresh, after = fields ++ fresh ∧ Packed fresh f.bytes ∧
    (f.aggregate = false → fresh = [])
  alignment : 0 < f.alignment
  shaped : Shaped f

variable {self : LayoutRecord} {readOnly : Bool} {start : ManagedFieldLayout}
variable {fields after : List ManagedFieldLayout}

theorem nestedField_ok (hself : LaysOut self) (hr : start.reference = false)
    (hf : start.floating = false)
    (h : nestedField fuel graph self readOnly type start fields = .ok (f, after)) :
    MemberLaid fields f after := by
  obtain ⟨⟨base, qualified⟩, -, h⟩ := bind_ok.mp h
  simp only at h
  split at h
  · cases h
  · obtain ⟨⟨layout, out⟩, hout, h⟩ := bind_ok.mp h
    simp only at h
    split at h
    · cases h
    · cases h
      obtain ⟨⟨fresh, rfl, hpacked, -⟩, -, hpos, hle⟩ := hself _ _ _ _ _ _ hout
      refine ⟨⟨fresh, rfl, ?_, by simp⟩, ?_, ?_⟩
      · simpa [ManagedFieldLayout.bytes, hr] using hpacked
      · show 0 < layout.alignment % 2 ^ 32
        rw [Nat.mod_eq_of_lt (by omega)]
        exact hpos
      · exact ⟨by simp, fun _ => hr, by simp [hf]⟩

theorem memberField_ok (hself : LaysOut self) (ha : start.aggregate = false)
    (hr : start.reference = false) (hf : start.floating = false)
    (h : memberField fuel graph target self readOnly type start fields = .ok (f, after)) :
    MemberLaid fields f after := by
  obtain ⟨scalar, hscalar, h⟩ := bind_ok.mp h
  cases scalar with
  | none => exact nestedField_ok hself hr hf h
  | some g =>
    obtain ⟨haggr, halign, hshape⟩ := scalarLayout_ok ha hf hscalar
    simp only at h
    split at h
    · cases h
      exact ⟨⟨[], by simp, packed_nil _, fun _ => rfl⟩, halign, hshape⟩
    · cases h
      exact ⟨⟨[], by simp, packed_nil _, fun _ => rfl⟩, halign, hshape.scalar, hshape.record,
        hshape.floating⟩

variable {c c' : MemberCursor}

theorem placeField_ok {pack index begin : Nat} (hpack : 0 < pack ∧ pack ≤ 16)
    (hf : 0 < f.alignment) (hc : 0 < c.alignment ∧ c.alignment ≤ 16)
    (h : placeField pack index begin f c = .ok c') : ∃ offset, c.size ≤ offset ∧
      c'.fields = (shiftFrom c.fields begin offset).set index { f with offset := offset } ∧
        c'.size = offset + f.bytes ∧ 0 < c'.alignment ∧ c'.alignment ≤ 16 := by
  rw [placeField] at h
  have hpos : 0 < min (if f.reference then 8 else f.alignment) pack := by
    split <;> omega
  cases ha : alignUp c.size (min (if f.reference then 8 else f.alignment) pack) with
  | none =>
    rw [ha] at h
    cases h
  | some offset =>
    simp only [ha] at h
    split at h
    · cases h
    · cases h
      refine ⟨offset, alignUp_ok hpos ha, rfl, rfl, ?_, ?_⟩
      · show 0 < max c.alignment _
        omega
      · show max c.alignment (min _ pack) ≤ 16
        omega

theorem shiftFrom_append (base fresh : List ManagedFieldLayout) (d : Nat) :
    shiftFrom (base ++ fresh) base.length d = base ++ fresh.map (shift d) := by
  rw [shiftFrom, List.take_left, List.drop_left]

theorem set_reserved (fields done desc fresh : List ManagedFieldLayout) (k : Nat)
    (f : ManagedFieldLayout) :
    (fields ++ done ++ List.replicate (k + 1) reserved ++ desc ++ fresh).set
        (fields.length + done.length) f =
      fields ++ (done ++ [f]) ++ List.replicate k reserved ++ (desc ++ fresh) := by
  rw [List.append_assoc, List.append_assoc, ← List.length_append, List.set_append_right _ _ (by simp)]
  simp [List.replicate_succ, List.append_assoc]

def Placing (fields : List ManagedFieldLayout) (count placed : Nat) (c : MemberCursor) : Prop :=
  ∃ done desc, c.fields = fields ++ done ++ List.replicate (count - placed) reserved ++ desc ∧
    done.length = placed ∧ Packed (done ++ desc) c.size ∧ 0 < c.alignment ∧ c.alignment ≤ 16

variable {abi : AbiConfiguration} {count : Nat}

theorem layoutMember_placing {root : ObjectEndpoint} {placed : Nat} {member : MemberRecord}
    (hself : LaysOut self) (hpack : 0 < abi.pack ∧ abi.pack ≤ 16) (hlt : placed < count)
    (hp : Placing fields count placed c)
    (h : layoutMember fuel graph abi self root readOnly fields.length count c (member, placed) = .ok c') :
    Placing fields count (placed + 1) c' := by
  obtain ⟨done, desc, hfields, hlen, hpacked, halign⟩ := hp
  obtain ⟨⟨f, after⟩, hmember, h⟩ := bind_ok.mp h
  obtain ⟨⟨fresh, rfl, hfresh, hleaf⟩, hf, hshape⟩ :=
    memberField_ok hself (by rfl) (by rfl) (by rfl) hmember
  dsimp only at h
  obtain ⟨offset, hoff, hset, hsize, halign'⟩ := placeField_ok hpack hf (by exact halign) h
  have hreserve : count - placed = (count - (placed + 1)) + 1 := by omega
  refine ⟨done ++ [{ f with offset := offset }], desc ++ fresh.map (shift offset), ?_, by simp [hlen],
    ?_, halign'⟩
  · rw [hset, shiftFrom_append, hfields, hreserve, ← hlen, set_reserved]
  · -- the member and what is nested in it, laid out from zero
    have hone : Packed ({ f with offset := 0 } :: fresh) f.bytes := by
      refine ⟨List.pairwise_cons.mpr ⟨fun g hg ha _ => ?_, hfresh.apart⟩, ?_, ?_⟩
      · rw [hleaf ha] at hg
        cases hg
      · intro g hg ha
        rcases List.mem_cons.mp hg with rfl | hg
        · exact Nat.le_of_eq (Nat.zero_add _)
        · exact hfresh.within g hg ha
      · intro g hg
        rcases List.mem_cons.mp hg with rfl | hg
        · exact ⟨hshape.scalar, hshape.record, hshape.floating⟩
        · exact hfresh.shaped g hg
    have hall := hpacked.behind hone hoff
    rw [hsize]
    apply hall.perm
    have hshift : shift offset { f with offset := 0 } = { f with offset := offset } := by
      simp [shift]
    rw [List.map_cons, hshift]
    simp only [List.append_assoc, List.singleton_append]
    exact (List.perm_middle).append_left done

variable {layout : RecordLayout}

theorem closeRecord_ok {first : Nat} (hf : first = fields.length)
    (hp : Placing fields count count c) (h : closeRecord first count c = .ok (layout, after)) :
    Laid fields layout after := by
  obtain ⟨done, desc, hfields, hlen, hpacked, halign⟩ := hp
  rw [closeRecord] at h
  split at h
  · cases h
  · rename_i size hsize
    cases h
    have hle := alignUp_ok halign.1 hsize
    have hmono : c.size ≤ size := by
      split at hle <;> omega
    refine ⟨⟨done ++ desc, ?_, hpacked.mono hmono, ?_⟩, hf, halign⟩
    · rw [hfields, Nat.sub_self]
      simp
    · rw [List.length_append, hlen]
      exact Nat.le_add_right _ _

theorem AbiConfiguration.supported_pack (h : abi.supported = true) :
    0 < abi.pack ∧ abi.pack ≤ 16 := by
  simp only [AbiConfiguration.supported, Bool.or_eq_true, beq_iff_eq] at h
  omega

theorem layoutRecord_laysOut (hpack : 0 < abi.pack ∧ abi.pack ≤ 16) (depth : Nat)
    (active : List TypeHandle) : LaysOut (layoutRecord fuel graph abi depth active) := by
  induction depth generalizing active with
  | zero =>
    intro type root readOnly fields layout after h
    cases h
  | succ depth ih =>
    intro type root readOnly fields layout after h
    rw [layoutRecord] at h
    split at h
    · cases h
    · split at h
      · cases h
      · split at h
        · cases h
        · obtain ⟨members, -, h⟩ := bind_ok.mp h
          obtain ⟨cursor, hcursor, h⟩ := bind_ok.mp h
          apply closeRecord_ok rfl ?_ h
          have hrun := foldlM_ok_split
            (fun (pre : List (MemberRecord × Nat)) c => Placing fields members.length pre.length c)
            hcursor ?_ ?_
          · simpa using hrun
          · exact ⟨[], [], by simp, rfl, packed_nil _, Nat.one_pos, by show 1 ≤ 16; omega⟩
          · rintro pre ⟨member, position⟩ post u v hxs hu hv
            have hget : members.zipIdx[pre.length]? = some (member, position) := by
              rw [hxs, List.getElem?_append_right (Nat.le_refl _), Nat.sub_self]
              rfl
            have hlt : pre.length < members.length := by
              have := congrArg List.length hxs
              simp only [List.length_zipIdx, List.length_append, List.length_cons] at this
              omega
            obtain rfl : pre.length = position := by
              simp only [List.getElem?_zipIdx, Nat.zero_add, Option.map_eq_some_iff,
                Prod.mk.injEq] at hget
              obtain ⟨_, -, -, heq⟩ := hget
              exact heq
            rw [List.length_append]
            exact layoutMember_placing (ih (active ++ [type])) hpack hlt hu hv

structure ObjectsPlaced (c : ObjectCursor) : Prop where
  packed : Packed c.fieldLayouts c.total
  objects : ∀ o ∈ c.objectLayouts, o.firstField + o.fieldCount ≤ c.fieldLayouts.length
  slots : ∀ slot, some slot ∈ c.objectSlots → slot < c.objectLayouts.length

theorem placeObject_placed {object : ObjectHandle} {c c' : ObjectCursor} (hc : ObjectsPlaced c)
    (hl : Laid c.fieldLayouts layout fields) (h : placeObject object layout fields c = .ok c') :
    ObjectsPlaced c' := by
  obtain ⟨⟨fresh, rfl, hfresh, hcount⟩, hfirst, halign, -⟩ := hl
  rw [placeObject] at h
  split at h
  · rename_i size offset hsize hoffset
    split at h
    · cases h
    · cases h
      have h1 := alignUp_ok halign hsize
      have h2 := alignUp_ok halign hoffset
      have hall := (hc.packed.behind hfresh h2).mono (Nat.add_le_add_left h1 offset)
      rw [hfirst]
      refine ⟨?_, ?_, ?_⟩
      · rw [shiftFrom_append]
        exact hall
      · intro o ho
        rw [shiftFrom_append, List.length_append, List.length_map]
        rcases List.mem_append.mp ho with ho | ho
        · have := hc.objects o ho
          omega
        · obtain rfl := List.mem_singleton.mp ho
          exact Nat.add_le_add_left hcount _
      · intro slot hslot
        rw [List.length_append, List.length_singleton]
        rcases List.mem_or_eq_of_mem_set hslot with hmem | heq
        · have := hc.slots slot hmem
          omega
        · have := Option.some.inj heq
          omega
  · cases h

theorem layoutObjects_placed {c : ObjectCursor} (hpack : 0 < abi.pack ∧ abi.pack ≤ 16)
    (h : layoutObjects fuel graph abi = .ok c) : ObjectsPlaced c := by
  refine foldlM_ok_invariant ObjectsPlaced h ?_ ?_
  · refine ⟨packed_nil 0, fun o ho => absurd ho List.not_mem_nil, fun slot hslot => ?_⟩
    have := (List.mem_replicate.mp hslot).2
    cases this
  · intro index u v _ hu hv
    rw [layoutObject] at hv
    dsimp only at hv
    split at hv
    · cases hv
      exact hu
    · split at hv
      · cases hv
      · split at hv
        · cases hv
        · obtain ⟨⟨layout, fields⟩, hlayout, hv⟩ := bind_ok.mp hv
          exact placeObject_placed hu
            (layoutRecord_laysOut hpack 64 [] _ _ _ _ _ _ hlayout) hv

end ServerEngine

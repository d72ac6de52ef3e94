import ServerEngine.Runtime.NestedObjects

/-! # Member paths

The fields of a constructed runtime lie inside their records and objects, apart unless one encloses
the other, aligned, and in declaration order. A path reaches a field exactly when it names a member
in the Graph, and then that member's field.
-/
namespace ServerEngine
open ErrorFold ConstructM Relation

/-! ## Names in the Graph -/

def heldRecord (fuel : Nat) (graph : ManagedGraphReader) (target : AbiTarget)
    (member : MemberRecord) : Option TypeHandle :=
  match scalarLayout fuel graph member.type target {},
    constModifiers graph fuel member.type false with
  | .ok none, .ok (base, _) => graph.named base
  | _, _ => none

def directMember (graph : ManagedGraphReader) (type : TypeHandle) (position : Nat) :
    Option MemberRecord :=
  if position = invalidMember then none
  else (graph.members type).bind fun members => members[position]?

/-- The member that `position` and then `path` name in a record. -/
def memberNamed (fuel : Nat) (graph : ManagedGraphReader) (target : AbiTarget) :
    TypeHandle → Nat → List Nat → Option MemberRecord
  | type, position, [] => directMember graph type position
  | type, position, next :: rest =>
    (directMember graph type position).bind fun member =>
      (heldRecord fuel graph target member).bind fun inner =>
        memberNamed fuel graph target inner next rest

def memberAt (fuel : Nat) (graph : ManagedGraphReader) (target : AbiTarget)
    (endpoint : ObjectEndpoint) (path : List Nat) : Option MemberRecord :=
  (graph.findObject endpoint.object).bind fun entry =>
    (graph.named entry.type).bind fun type =>
      memberNamed fuel graph target type endpoint.member path

/-- Field `i` belongs to an object: one of its direct members encloses it. -/
def Belongs (fields : List ManagedFieldLayout) (object : ManagedObjectLayout) (i : Nat) : Prop :=
  ∃ j, object.firstField ≤ j ∧ j < object.firstField + object.fieldCount ∧
    ReflTransGen (ChildOf fields) j i

/-- The well-formedness of a layout in `limit` bytes of storage. -/
structure LaidOut (fuel : Nat) (graph : ManagedGraphReader) (abi : AbiConfiguration)
    (fields : List ManagedFieldLayout) (objects : List ManagedObjectLayout) (limit : Nat) : Prop where
  member : ∀ {i c}, ChildOf fields i c → i < c ∧ c < fields.length ∧
    (fields.getD i {}).offset ≤ (fields.getD c {}).offset ∧
      (fields.getD c {}).offset + (fields.getD c {}).bytes ≤
        (fields.getD i {}).offset + (fields.getD i {}).size
  apart : ∀ {i j}, i < fields.length → j < fields.length →
    RangeForest.Unrelated (ChildOf fields) i j →
      RangesApart (fields.getD i {}) (fields.getD j {})
  owned : ∀ {i}, i < fields.length → ∃ object ∈ objects, Belongs fields object i
  inside : ∀ object ∈ objects, ∀ {i}, Belongs fields object i →
    SitsIn abi.pack object.offset object.size object.alignment (fields.getD i {})
  stored : ∀ object ∈ objects,
    object.alignment ∣ object.offset ∧ object.offset + object.size ≤ limit
  declared : ∀ {i}, (fields.getD i {}).aggregate = true → ∃ type members,
    graph.named (fields.getD i {}).valueType = some type ∧ graph.members type = some members ∧
      (fields.getD i {}).childCount = members.length ∧ ∀ k m, members[k]? = some m →
        Declares fuel graph abi.target m (fields.getD ((fields.getD i {}).firstChild + k) {})

def Tabled (graph : ManagedGraphReader) (handle : ObjectHandle) : Prop :=
  handle ≠ 0 ∧ handle ≤ graph.objectSlotCount ∧
    ∃ index < graph.objectSlotCount, graph.objectAt index = handle

structure Addressed (fuel : Nat) (graph : ManagedGraphReader) (abi : AbiConfiguration)
    (r : ManagedRuntime) : Prop where
  named : ∀ {endpoint path i}, r.field endpoint path = some i → i < r.fieldLayouts.length ∧
    ∃ member, memberAt fuel graph abi.target endpoint path = some member ∧
      Declares fuel graph abi.target member (r.fieldLayouts.getD i {})
  reached : ∀ {endpoint path member}, Tabled graph endpoint.object →
    memberAt fuel graph abi.target endpoint path = some member →
      ∃ i, r.field endpoint path = some i
  injective : ∀ {endpoint endpoint' path path' i}, r.field endpoint path = some i →
    r.field endpoint' path' = some i → endpoint = endpoint' ∧ path = path'

section Plain

variable {fields fields' : List ManagedFieldLayout} {pack b i c : Nat}

theorem getD_plain (h : fields'.map plain = fields.map plain) (i : Nat) :
    ∃ value, fields'.getD i {} = { fields.getD i {} with initial := value } := by
  have hmap : ∀ xs : List ManagedFieldLayout,
      plain (xs.getD i {}) = (xs.map plain).getD i (plain {}) :=
    fun xs => (List.getD_map xs {} plain).symm
  have hat : plain (fields'.getD i {}) = plain (fields.getD i {}) := by rw [hmap, hmap, h]
  refine ⟨(fields'.getD i {}).initial, ?_⟩
  show fields'.getD i {} = { plain (fields.getD i {}) with
    initial := (fields'.getD i {}).initial }
  rw [← hat]
  rfl

theorem childOf_plain (h : fields'.map plain = fields.map plain) :
    ChildOf fields' i c ↔ ChildOf fields i c := by
  obtain ⟨value, hat⟩ := getD_plain h i
  unfold ChildOf
  rw [hat]

variable {base size unit : Nat} {f : ManagedFieldLayout}

theorem SitsIn.initial (h : SitsIn pack base size unit f) (value : ConstructionValue) :
    SitsIn pack base size unit { f with initial := value } :=
  ⟨h.low, h.high, h.aligned, h.divides⟩

theorem SitsIn.trans {g : ManagedFieldLayout} (h : SitsIn pack base size unit f)
    (hg : SitsIn pack f.offset f.bytes (f.unit pack) g) : SitsIn pack base size unit g := by
  have h1 := h.low
  have h2 := h.high
  have h3 := hg.low
  have h4 := hg.high
  refine ⟨Nat.le_trans h1 h3, by omega, ?_, Nat.dvd_trans hg.divides h.divides⟩
  have hsum : g.offset - base = (g.offset - f.offset) + (f.offset - base) := by omega
  rw [hsum]
  exact Nat.dvd_add hg.aligned (Nat.dvd_trans hg.divides h.aligned)

end Plain

/-! ## The forest of fields -/

section Forest

variable {fuel : Nat} {graph : ManagedGraphReader} {abi : AbiConfiguration} {c : ObjectCursor}
  {object : ManagedObjectLayout}

theorem ObjectsNested.precedes (hc : ObjectsNested fuel graph abi c) {s t : Nat}
    {a b : ManagedObjectLayout} (ha : c.objectLayouts[s]? = some a)
    (hb : c.objectLayouts[t]? = some b) (hlt : s < t) : Precedes a b := by
  obtain ⟨hs, rfl⟩ := List.getElem?_eq_some_iff.mp ha
  obtain ⟨ht, rfl⟩ := List.getElem?_eq_some_iff.mp hb
  exact List.pairwise_iff_getElem.mp hc.ordered s t hs ht hlt

theorem ObjectsNested.sitsIn (hc : ObjectsNested fuel graph abi c)
    (hobject : object ∈ c.objectLayouts) {i : Nat} (hi : Belongs c.fieldLayouts object i) :
    SitsIn abi.pack object.offset object.size object.alignment (c.fieldLayouts.getD i {}) := by
  obtain ⟨j, hlow, hhigh, hchain⟩ := hi
  induction hchain with
  | refl => exact (hc.object object hobject).slots.sits hlow hhigh
  | tail _ hstep ih => exact ih.trans (hc.nested.sits (Nat.zero_le _) hstep)

theorem ObjectsNested.roots_apart (hc : ObjectsNested fuel graph abi c) {i j : Nat}
    (hi : i < c.fieldLayouts.length) (hj : j < c.fieldLayouts.length)
    (hri : ∀ p, ¬ ChildOf c.fieldLayouts p i) (hrj : ∀ p, ¬ ChildOf c.fieldLayouts p j)
    (hne : i ≠ j) : RangesApart (c.fieldLayouts.getD i {}) (c.fieldLayouts.getD j {}) := by
  obtain ⟨a, ha, hia, hia'⟩ := hc.held hi hri
  obtain ⟨b, hb, hjb, hjb'⟩ := hc.held hj hrj
  have hsa := (hc.object a ha).slots.sits hia hia'
  have hsb := (hc.object b hb).slots.sits hjb hjb'
  obtain ⟨s, hs⟩ := List.getElem?_of_mem ha
  obtain ⟨t, ht⟩ := List.getElem?_of_mem hb
  obtain hlt | heq | hlt := Nat.lt_trichotomy s t
  · have hbytes := (hc.precedes hs ht hlt).2
    exact .inl (Nat.le_trans hsa.high (Nat.le_trans hbytes hsb.low))
  · subst heq
    rw [hs] at ht
    cases ht
    exact (hc.object a ha).slots.apart hia hia' hjb hjb' hne
  · have hbytes := (hc.precedes ht hs hlt).2
    exact .inr (Nat.le_trans hsb.high (Nat.le_trans hbytes hsa.low))

theorem ObjectsNested.forest (hc : ObjectsNested fuel graph abi c) :
    RangeForest.Forest c.fieldLayouts.length (ChildOf c.fieldLayouts)
      (fun i => (c.fieldLayouts.getD i {}).offset)
      (fun i => (c.fieldLayouts.getD i {}).offset + (c.fieldLayouts.getD i {}).bytes) := by
  refine ⟨?_, ?_, ?_, ?_, ?_, ?_⟩
  · exact fun hchild => (hc.nested.later (Nat.zero_le _) hchild).1
  · exact fun hchild => (hc.nested.later (Nat.zero_le _) hchild).2
  · exact fun hi hj => hc.nested.parent (Nat.zero_le _) (Nat.zero_le _) hi hj
  · intro i j hchild
    have hsits := hc.nested.sits (Nat.zero_le i) hchild
    exact ⟨hsits.low, hsits.high⟩
  · exact fun hj hk hne => hc.nested.apart (Nat.zero_le _) hj hk hne
  · exact fun hi hj hri hrj hne => hc.roots_apart hi hj hri hrj hne

theorem ObjectsNested.owned (hc : ObjectsNested fuel graph abi c) {i : Nat}
    (hi : i < c.fieldLayouts.length) :
    ∃ object ∈ c.objectLayouts, Belongs c.fieldLayouts object i := by
  obtain ⟨root, hroot, horphan, hchain⟩ := hc.forest.root i hi
  obtain ⟨object, hobject, hlow, hhigh⟩ := hc.held hroot horphan
  exact ⟨object, hobject, root, hlow, hhigh, hchain⟩

end Forest

theorem ObjectsNested.laidOut {fuel : Nat} {graph : ManagedGraphReader} {abi : AbiConfiguration}
    {c : ObjectCursor} {fields : List ManagedFieldLayout} (hc : ObjectsNested fuel graph abi c)
    (hpacked : Packed fields c.total) (hplain : fields.map plain = c.fieldLayouts.map plain) :
    LaidOut fuel graph abi fields c.objectLayouts c.total := by
  have hlen : fields.length = c.fieldLayouts.length := by
    have h := congrArg List.length hplain
    simpa using h
  have hchild : ChildOf fields = ChildOf c.fieldLayouts := by
    funext i j
    exact propext (childOf_plain hplain)
  have hbelongs : Belongs fields = Belongs c.fieldLayouts := by
    unfold Belongs
    rw [hchild]
  refine ⟨?_, ?_, ?_, ?_, ?_, ?_⟩
  · intro i j hij
    have hrecord : (fields.getD i {}).reference = false :=
      (hpacked.shaped _ (getD_mem hij.lt)).record hij.1
    have hbytes : (fields.getD i {}).bytes = (fields.getD i {}).size := by
      rw [ManagedFieldLayout.bytes, hrecord]
      rfl
    rw [← hbytes]
    rw [hchild] at hij
    obtain ⟨hlt, hin⟩ := hc.nested.later (Nat.zero_le i) hij
    have hsits := hc.nested.sits (Nat.zero_le i) hij
    obtain ⟨value, hi⟩ := getD_plain hplain i
    obtain ⟨value', hj⟩ := getD_plain hplain j
    rw [hi, hj, hlen]
    exact ⟨hlt, hin, hsits.low, hsits.high⟩
  · intro i j hi hj hunrelated
    rw [hchild] at hunrelated
    rw [hlen] at hi hj
    obtain ⟨value, hati⟩ := getD_plain hplain i
    obtain ⟨value', hatj⟩ := getD_plain hplain j
    rw [hati, hatj]
    exact hc.forest.apart hi hj hunrelated
  · intro i hi
    rw [hbelongs]
    rw [hlen] at hi
    exact hc.owned hi
  · intro object hobject i hi
    rw [hbelongs] at hi
    obtain ⟨value, hat⟩ := getD_plain hplain i
    rw [hat]
    exact (hc.sitsIn hobject hi).initial value
  · exact fun object hobject => ⟨(hc.object object hobject).aligned, hc.below object hobject⟩
  · intro i haggr
    obtain ⟨value, hat⟩ := getD_plain hplain i
    rw [hat] at haggr ⊢
    obtain ⟨type, members, hnamed, hmembers⟩ := hc.declared i (Nat.zero_le i) haggr
    refine ⟨type, members, hnamed, hmembers.read, hmembers.count.symm, fun k m hm => ?_⟩
    obtain ⟨value', hat'⟩ :=
      getD_plain hplain ((c.fieldLayouts.getD i {}).firstChild + k)
    rw [hat']
    exact (hmembers.each k m hm).1.moved rfl

/-! ## Walking a path -/

section Walk

variable {fuel : Nat} {graph : ManagedGraphReader} {abi : AbiConfiguration} {target : AbiTarget}

theorem memberNamed_concat (type : TypeHandle) (position : Nat) (path : List Nat) (last : Nat) :
    memberNamed fuel graph target type position (path ++ [last]) =
      (memberNamed fuel graph target type position path).bind fun member =>
        (heldRecord fuel graph target member).bind fun inner =>
          memberNamed fuel graph target inner last [] := by
  induction path generalizing type position with
  | nil => rfl
  | cons next rest ih =>
    rw [List.cons_append, memberNamed, memberNamed]
    cases directMember graph type position with
    | none => rfl
    | some member =>
      simp only [Option.bind_some]
      cases heldRecord fuel graph target member with
      | none => rfl
      | some inner => exact ih inner next

theorem memberAt_concat (endpoint : ObjectEndpoint) (path : List Nat) (last : Nat) :
    memberAt fuel graph target endpoint (path ++ [last]) =
      (memberAt fuel graph target endpoint path).bind fun member =>
        (heldRecord fuel graph target member).bind fun inner =>
          memberNamed fuel graph target inner last [] := by
  unfold memberAt
  cases graph.findObject endpoint.object with
  | none => rfl
  | some entry =>
    simp only [Option.bind_some]
    cases graph.named entry.type with
    | none => rfl
    | some type => exact memberNamed_concat type endpoint.member path last

variable {member : MemberRecord}

theorem directMember_eq_some {type : TypeHandle} {position : Nat} {members : List MemberRecord}
    (hread : graph.members type = some members) : directMember graph type position = some member ↔
      position ≠ invalidMember ∧ members[position]? = some member := by
  rw [directMember, hread, Option.bind_some]
  by_cases hvalid : position = invalidMember
  · simp [hvalid]
  · simp [hvalid]

theorem Declares.heldRecord_eq {f : ManagedFieldLayout} (h : Declares fuel graph target member f) :
    heldRecord fuel graph target member = if f.aggregate then graph.named f.valueType else none := by
  unfold Declares at h
  unfold heldRecord
  cases hs : scalarLayout fuel graph member.type target {} with
  | error e =>
    rw [hs] at h
    exact h.elim
  | ok scalar =>
    rw [hs] at h
    cases scalar with
    | some like =>
      have haggr : f.aggregate = false := by
        have hplaced : f = placedAs like f := h
        rw [hplaced]
        exact (scalarLayout_ok rfl rfl hs).1
      rw [haggr]
      rfl
    | none =>
      obtain ⟨haggr, -, qualified, hbase⟩ := h
      rw [haggr, hbase]
      rfl

theorem field_concat (r : ManagedRuntime) (endpoint : ObjectEndpoint) (path : List Nat)
    (last : Nat) : r.field endpoint (path ++ [last]) =
      (r.field endpoint path).bind fun i =>
        if last = invalidMember || !(r.fieldLayouts.getD i {}).aggregate ||
            (r.fieldLayouts.getD i {}).childCount ≤ last then none
        else some ((r.fieldLayouts.getD i {}).firstChild + last) := by
  unfold ManagedRuntime.field
  rw [List.foldl_append]
  simp only [List.foldl_cons, List.foldl_nil]
  split
  · rename_i hnone
    rw [hnone]
    rfl
  · rename_i i hsome
    rw [hsome]
    rfl

variable {endpoint : ObjectEndpoint} {path : List Nat} {last : Nat}

theorem childOf_of_concat {r : ManagedRuntime} {j : Nat}
    (h : r.field endpoint (path ++ [last]) = some j) :
    ∃ i, r.field endpoint path = some i ∧ ChildOf r.fieldLayouts i j ∧ last ≠ invalidMember ∧
      j = (r.fieldLayouts.getD i {}).firstChild + last := by
  rw [field_concat] at h
  obtain ⟨i, hi, h⟩ := Option.bind_eq_some_iff.mp h
  split at h
  · cases h
  · rename_i hstep
    cases h
    simp only [Bool.or_eq_true, decide_eq_true_eq, Bool.not_eq_true', not_or] at hstep
    obtain ⟨⟨hvalid, haggr⟩, hcount⟩ := hstep
    refine ⟨i, hi, ⟨?_, Nat.le_add_right _ _, ?_⟩, hvalid, rfl⟩
    · simpa using haggr
    · omega

theorem concat_of_childOf {r : ManagedRuntime} {i : Nat} (hi : r.field endpoint path = some i)
    (hvalid : last ≠ invalidMember)
    (hchild : ChildOf r.fieldLayouts i ((r.fieldLayouts.getD i {}).firstChild + last)) :
    r.field endpoint (path ++ [last]) = some ((r.fieldLayouts.getD i {}).firstChild + last) := by
  obtain ⟨haggr, -, hcount⟩ := hchild
  have hlt : last < (r.fieldLayouts.getD i {}).childCount := by omega
  rw [field_concat, hi, Option.bind_some, haggr]
  simpa [hvalid] using hlt

theorem ObjectsNested.endpointField_iff {c : ObjectCursor} (hc : ObjectsNested fuel graph abi c)
    {i : Nat} : endpointField c.objectSlots c.objectLayouts endpoint = some i ↔
      endpoint.object ≠ 0 ∧ endpoint.member ≠ invalidMember ∧ ∃ slot object,
        c.objectSlots[endpoint.object]? = some (some slot) ∧ c.objectLayouts[slot]? = some object ∧
          endpoint.member < object.fieldCount ∧ i = object.firstField + endpoint.member := by
  rw [endpointField]
  split
  · rename_i hinvalid
    simp only [Bool.or_eq_true, decide_eq_true_eq] at hinvalid
    refine iff_of_false (by simp) ?_
    rintro ⟨hobject, hmember, -⟩
    exact hinvalid.elim hobject hmember
  · rename_i hvalid
    simp only [Bool.or_eq_true, decide_eq_true_eq, not_or] at hvalid
    split
    · rename_i hslot
      refine iff_of_false (by simp) ?_
      rintro ⟨-, -, slot, object, hfilled, -⟩
      rw [hfilled] at hslot
      cases hslot
    · rename_i slot hslot
      have hfilled := Option.join_eq_some_iff.mp hslot
      obtain ⟨object, hobject, -⟩ := hc.slots hfilled
      have hgetD : c.objectLayouts.getD slot {} = object := by
        rw [List.getD_eq_getElem?_getD, hobject]
        rfl
      dsimp only
      rw [hgetD]
      constructor
      · intro h
        split at h
        · rename_i hlt
          cases h
          exact ⟨hvalid.1, hvalid.2, slot, object, hfilled, hobject, hlt, rfl⟩
        · cases h
      · rintro ⟨-, -, slot', object', hfilled', hobject', hlt, rfl⟩
        rw [hfilled] at hfilled'
        cases hfilled'
        rw [hobject] at hobject'
        cases hobject'
        rw [if_pos hlt]

structure FilledFrom (graph : ManagedGraphReader) (r : ManagedRuntime) (c : ObjectCursor) : Prop where
  objects : r.objectLayouts = c.objectLayouts
  slots : r.objectSlots = c.objectSlots
  initialized : initializeFields graph c.fieldLayouts = .ok r.fieldLayouts
  fields : r.fieldLayouts.map plain = c.fieldLayouts.map plain
  packed : Packed r.fieldLayouts c.total
  storage : r.storage.length = c.total

variable {r : ManagedRuntime} {c : ObjectCursor}

theorem FilledFrom.field_nil (h : FilledFrom graph r c) (endpoint : ObjectEndpoint) :
    r.field endpoint [] = endpointField c.objectSlots c.objectLayouts endpoint := by
  show endpointField r.objectSlots r.objectLayouts endpoint = _
  rw [h.objects, h.slots]

theorem FilledFrom.root (h : FilledFrom graph r c) (hc : ObjectsNested fuel graph abi c) {i : Nat}
    (hi : r.field endpoint [] = some i) :
    i < c.fieldLayouts.length ∧ (∀ p, ¬ ChildOf c.fieldLayouts p i) ∧
      ∃ member, memberAt fuel graph abi.target endpoint [] = some member ∧
        LaidFor fuel graph abi.target member (c.fieldLayouts.getD i {}) := by
  rw [h.field_nil, hc.endpointField_iff] at hi
  obtain ⟨-, hvalid, slot, object, hfilled, hobject, hlt, rfl⟩ := hi
  have hnested := hc.object object (List.mem_of_getElem? hobject)
  obtain ⟨entry, type, members, hfind, hnamed, hat⟩ := hnested.record
  obtain ⟨object', hobject', hhandle⟩ := hc.slots hfilled
  obtain rfl : object = object' := by
    rw [hobject] at hobject'
    exact Option.some.inj hobject'
  have hroom := hnested.room
  have hcount := hat.count
  obtain ⟨member, hmember⟩ : ∃ member, members[endpoint.member]? = some member :=
    ⟨_, List.getElem?_eq_getElem (by omega)⟩
  refine ⟨by omega, ?_, member, ?_, hat.each _ _ hmember⟩
  · exact fun p => hnested.root (Nat.le_add_right _ _) (Nat.add_lt_add_left hlt _)
  · unfold memberAt
    rw [← hhandle, hfind, Option.bind_some, hnamed, Option.bind_some]
    exact (directMember_eq_some hat.read).mpr ⟨hvalid, hmember⟩

theorem FilledFrom.named (h : FilledFrom graph r c) (hc : ObjectsNested fuel graph abi c)
    {endpoint : ObjectEndpoint} {path : List Nat} {i : Nat} (hi : r.field endpoint path = some i) :
    i < r.fieldLayouts.length ∧
      ∃ member, memberAt fuel graph abi.target endpoint path = some member ∧
        Declares fuel graph abi.target member (r.fieldLayouts.getD i {}) := by
  have hlaid := hc.laidOut h.packed h.fields
  have hlen : r.fieldLayouts.length = c.fieldLayouts.length := by
    have hmap := congrArg List.length h.fields
    simpa using hmap
  induction path using List.reverseRecOn generalizing i with
  | nil =>
    obtain ⟨hlt, -, member, hmember, hlaidFor⟩ := h.root hc hi
    obtain ⟨value, hgetD⟩ := getD_plain h.fields i
    rw [hlen, hgetD]
    exact ⟨hlt, member, hmember, hlaidFor.1.moved rfl⟩
  | append_singleton path last ih =>
    obtain ⟨p, hp, hchild, hvalid, rfl⟩ := childOf_of_concat hi
    obtain ⟨hlt, member, hmember, hdeclares⟩ := ih hp
    obtain ⟨type, members, hnamed, hread, hcount, heach⟩ := hlaid.declared hchild.1
    have hheld := hdeclares.heldRecord_eq
    rw [if_pos hchild.1, hnamed] at hheld
    have hlast : last < members.length := by
      have := hchild.2.2
      omega
    obtain ⟨inner, hinner⟩ : ∃ inner, members[last]? = some inner :=
      ⟨_, List.getElem?_eq_getElem hlast⟩
    refine ⟨(hlaid.member hchild).2.1, inner, ?_, heach last inner hinner⟩
    rw [memberAt_concat, hmember, Option.bind_some, hheld, Option.bind_some]
    exact (directMember_eq_some hread).mpr ⟨hvalid, hinner⟩

theorem FilledFrom.reached (h : FilledFrom graph r c) (hc : ObjectsNested fuel graph abi c)
    (ht : ObjectTable graph c) (hobject : Tabled graph endpoint.object)
    (hmember : memberAt fuel graph abi.target endpoint path = some member) :
    ∃ i, r.field endpoint path = some i := by
  have hlaid := hc.laidOut h.packed h.fields
  induction path using List.reverseRecOn generalizing member with
  | nil =>
    obtain ⟨hne, hle, index, hindex, hat⟩ := hobject
    obtain ⟨entry, hfind, hmember⟩ := Option.bind_eq_some_iff.mp hmember
    obtain ⟨type, hnamed, hmember⟩ := Option.bind_eq_some_iff.mp hmember
    have hsome := ht.filled index hindex (by rw [hat, hfind]; rfl) (by rw [hat]; exact hle)
    rw [hat] at hsome
    obtain ⟨slot, hslot⟩ := Option.isSome_iff_exists.mp hsome
    have hfilled := Option.join_eq_some_iff.mp hslot
    obtain ⟨object, hlayout, hhandle⟩ := hc.slots hfilled
    obtain ⟨entry', type', members, hfind', hnamed', hmembers⟩ :=
      (hc.object object (List.mem_of_getElem? hlayout)).record
    rw [hhandle, hfind] at hfind'
    cases hfind'
    rw [hnamed] at hnamed'
    cases hnamed'
    obtain ⟨hvalid, hget⟩ := (directMember_eq_some hmembers.read).mp hmember
    have hlt := (List.getElem?_eq_some_iff.mp hget).1
    refine ⟨object.firstField + endpoint.member, ?_⟩
    rw [h.field_nil, hc.endpointField_iff]
    refine ⟨hne, hvalid, slot, object, hfilled, hlayout, ?_, rfl⟩
    rw [← hmembers.count]
    exact hlt
  | append_singleton path last ih =>
    rw [memberAt_concat] at hmember
    obtain ⟨outer, houter, hmember⟩ := Option.bind_eq_some_iff.mp hmember
    obtain ⟨type, hheld, hmember⟩ := Option.bind_eq_some_iff.mp hmember
    obtain ⟨i, hi⟩ := ih houter
    obtain ⟨-, outer', houter', hdeclares⟩ := h.named hc hi
    rw [houter] at houter'
    cases houter'
    have hrecord := hdeclares.heldRecord_eq
    rw [hheld] at hrecord
    cases haggr : (r.fieldLayouts.getD i {}).aggregate with
    | false =>
      rw [haggr] at hrecord
      cases hrecord
    | true =>
      rw [if_pos haggr] at hrecord
      obtain ⟨type', members, hnamed, hread, hcount, -⟩ := hlaid.declared haggr
      rw [hnamed] at hrecord
      cases hrecord
      obtain ⟨hvalid, hget⟩ := (directMember_eq_some hread).mp hmember
      have hlt := (List.getElem?_eq_some_iff.mp hget).1
      refine ⟨_, concat_of_childOf hi hvalid ⟨haggr, Nat.le_add_right _ _, ?_⟩⟩
      omega

theorem FilledFrom.injective (h : FilledFrom graph r c) (hc : ObjectsNested fuel graph abi c)
    {endpoint' : ObjectEndpoint} {path' : List Nat} {i : Nat}
    (hi : r.field endpoint path = some i) (hi' : r.field endpoint' path' = some i) :
    endpoint = endpoint' ∧ path = path' := by
  have hroot : ∀ {e : ObjectEndpoint} {j : Nat}, r.field e [] = some j →
      ∀ p, ¬ ChildOf r.fieldLayouts p j := by
    intro e j hj p hchild
    exact (h.root hc hj).2.1 p ((childOf_plain h.fields).mp hchild)
  induction path using List.reverseRecOn generalizing path' i with
  | nil =>
    cases path' using List.reverseRecOn with
    | nil =>
      rw [h.field_nil, hc.endpointField_iff] at hi hi'
      obtain ⟨-, -, slot, object, hslot, hobject, hlt, rfl⟩ := hi
      obtain ⟨-, -, slot', object', hslot', hobject', hlt', heq⟩ := hi'
      obtain rfl : slot = slot' := by
        obtain hless | hsame | hless := Nat.lt_trichotomy slot slot'
        · have hranges := (hc.precedes hobject hobject' hless).1
          omega
        · exact hsame
        · have hranges := (hc.precedes hobject' hobject hless).1
          omega
      rw [hobject] at hobject'
      cases hobject'
      obtain ⟨first, hfirst, hhandle⟩ := hc.slots hslot
      obtain ⟨second, hsecond, hhandle'⟩ := hc.slots hslot'
      rw [hfirst] at hsecond
      cases hsecond
      refine ⟨?_, rfl⟩
      cases endpoint
      cases endpoint'
      rw [ObjectEndpoint.mk.injEq]
      exact ⟨hhandle.symm.trans hhandle', Nat.add_left_cancel heq⟩
    | append_singleton path' last' =>
      obtain ⟨p, -, hchild, -⟩ := childOf_of_concat hi'
      exact absurd hchild (hroot hi p)
  | append_singleton path last ih =>
    obtain ⟨p, hp, hchild, -, hlast⟩ := childOf_of_concat hi
    cases path' using List.reverseRecOn with
    | nil => exact absurd hchild (hroot hi' p)
    | append_singleton path' last' =>
      obtain ⟨p', hp', hchild', -, hlast'⟩ := childOf_of_concat hi'
      obtain rfl : p = p' := by
        rw [childOf_plain h.fields] at hchild hchild'
        exact hc.nested.parent (Nat.zero_le _) (Nat.zero_le _) hchild hchild'
      obtain ⟨rfl, rfl⟩ := ih hp hp'
      refine ⟨rfl, ?_⟩
      rw [hlast] at hlast'
      rw [Nat.add_left_cancel hlast']

end Walk

theorem construct_filledFrom {fuel : Nat} {graph : ManagedGraphReader} {abi : AbiConfiguration}
    {r : ManagedRuntime} (h : ManagedRuntime.construct fuel graph abi = .ok r) :
    ∃ c, FilledFrom graph r c ∧ ObjectsNested fuel graph abi c ∧ ObjectTable graph c := by
  have hcopies := (ManagedRuntime.construct_planned h).1.copies
  rw [ManagedRuntime.construct] at h
  split at h
  · cases h
  · rename_i habi
    have hsupported : abi.supported = true := by simpa using habi
    obtain ⟨layout, hlayout, h⟩ := bind_ok.mp h
    obtain ⟨fields, hfields, h⟩ := bind_ok.mp h
    obtain ⟨b, -, h⟩ := bind_ok.mp h
    obtain ⟨resolved, -, h⟩ := bind_ok.mp h
    obtain ⟨copies, -, h⟩ := bind_ok.mp h
    obtain ⟨storage, hstorage, h⟩ := bind_ok.mp h
    obtain rfl := Except.ok.inj h
    have hplaced := layoutObjects_placed (AbiConfiguration.supported_pack hsupported) hlayout
    have hpacked := initializeFields_packed hplaced.packed hfields
    obtain ⟨hnested, htable⟩ :=
      layoutObjects_nested (AbiConfiguration.supported_packValue hsupported) hlayout
    refine ⟨layout, ⟨rfl, rfl, hfields, initializeFields_plain hfields, hpacked, ?_⟩, hnested, htable⟩
    have hlen := ManagedRuntime.storeInitial_length hpacked hstorage
    rw [← hlen] at hpacked
    have hlaws := copyField_laws hpacked hcopies
    exact (CopyPlan.run_keeps hlaws (s := storage) rfl).trans hlen

theorem construct_laidOut {fuel : Nat} {graph : ManagedGraphReader} {abi : AbiConfiguration}
    {r : ManagedRuntime} (h : ManagedRuntime.construct fuel graph abi = .ok r) :
    LaidOut fuel graph abi r.fieldLayouts r.objectLayouts r.storage.length ∧
      Addressed fuel graph abi r := by
  obtain ⟨c, hfilled, hnested, htable⟩ := construct_filledFrom h
  refine ⟨?_, ?_⟩
  · rw [hfilled.objects, hfilled.storage]
    exact hnested.laidOut hfilled.packed hfilled.fields
  · exact ⟨fun hi => hfilled.named hnested hi, hfilled.reached hnested htable,
      hfilled.injective hnested⟩

/-- `struct Point { char tag; long long x; }; struct Shape { bool on; const Point origin; short n; };`
with an object of each. -/
def nestedShapes : ManagedGraphReader :=
  .ofGraph
    { Graph.empty with
      types := [{ definition := ⟨1, 2⟩, live := true }, { definition := ⟨3, 3⟩, live := true }]
      memberRecords := [{ type := 1 }, { type := 2 }, { type := 3 }, { type := 6 }, { type := 4 }]
      objectEntries := [{ type := 7, live := true }, { type := 5, live := true }]
      canonicalTypes :=
        [{}, { kind := .intrinsic, detail := IntrinsicType.charType.code },
          { kind := .intrinsic, detail := IntrinsicType.signedLongLong.code },
          { kind := .intrinsic, detail := IntrinsicType.boolType.code },
          { kind := .intrinsic, detail := IntrinsicType.signedShort.code },
          { kind := .named, childOrHandle := 1 },
          { kind := .derived, childOrHandle := 5, detail := 0 },
          { kind := .named, childOrHandle := 2 }] }
    fun _ => []

example : (ManagedRuntime.construct 4 nestedShapes { pack := 4 }).map (fun r =>
    (r.field ⟨1, 1⟩ [1]).map fun i => (i, (r.fieldLayouts.getD i {}).offset)) =
      .ok (some (4, 8)) := by decide +kernel

theorem construct_laidOut_shapes :
    ∃ r, ManagedRuntime.construct 4 nestedShapes { pack := 4 } = .ok r ∧
      LaidOut 4 nestedShapes { pack := 4 } r.fieldLayouts r.objectLayouts r.storage.length ∧
        Addressed 4 nestedShapes { pack := 4 } r := by
  have hok : (ManagedRuntime.construct 4 nestedShapes { pack := 4 }).isOk = true := by
    decide +kernel
  cases hr : ManagedRuntime.construct 4 nestedShapes { pack := 4 } with
  | error failure =>
    rw [hr] at hok
    cases hok
  | ok r => exact ⟨r, rfl, construct_laidOut hr⟩

end ServerEngine

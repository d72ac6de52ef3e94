import ServerEngine.Runtime.Nesting

/-! # Nested records

What `layoutRecord` adds to the fields: the slots of the members, inside the size it returns, and
behind them the fields nested in these. The recursion is on the nesting depth.
-/
namespace ServerEngine
open ErrorFold ConstructM

/-! ## Units -/

variable {m n : Nat}

theorem isPowerOfTwo_dvd (hm : m.isPowerOfTwo) (hn : n.isPowerOfTwo) (h : m ≤ n) : m ∣ n := by
  obtain ⟨j, rfl⟩ := hm
  obtain ⟨k, rfl⟩ := hn
  exact Nat.pow_dvd_pow 2 ((Nat.pow_le_pow_iff_right (by omega)).mp h)

theorem isPowerOfTwo_min (hm : m.isPowerOfTwo) (hn : n.isPowerOfTwo) : (min m n).isPowerOfTwo := by
  cases Nat.le_total m n with
  | inl h => rwa [Nat.min_eq_left h]
  | inr h => rwa [Nat.min_eq_right h]

theorem isPowerOfTwo_max (hm : m.isPowerOfTwo) (hn : n.isPowerOfTwo) : (max m n).isPowerOfTwo := by
  cases Nat.le_total m n with
  | inl h => rwa [Nat.max_eq_right h]
  | inr h => rwa [Nat.max_eq_left h]

def PackValue (pack : Nat) : Prop := pack.isPowerOfTwo ∧ pack ≤ 16

theorem AbiConfiguration.supported_packValue {abi : AbiConfiguration} (h : abi.supported = true) :
    PackValue abi.pack := by
  simp only [AbiConfiguration.supported, Bool.or_eq_true, beq_iff_eq] at h
  constructor
  · obtain ((((h | h) | h) | h) | h) := h <;> rw [h]
    · exact ⟨0, rfl⟩
    · exact ⟨1, rfl⟩
    · exact ⟨2, rfl⟩
    · exact ⟨3, rfl⟩
    · exact ⟨4, rfl⟩
  · omega

def ManagedFieldLayout.natural (f : ManagedFieldLayout) : Nat :=
  if f.reference then 8 else f.alignment

theorem isPowerOfTwo_unit {pack : Nat} {f : ManagedFieldLayout} (hpack : PackValue pack)
    (hf : f.natural.isPowerOfTwo) : (f.unit pack).isPowerOfTwo :=
  isPowerOfTwo_min hf hpack.1

theorem alignUp_dvd {offset alignment result : Nat} (h : alignUp offset alignment = some result) :
    alignment ∣ result := by
  rw [alignUp] at h
  split at h
  · cases h
  · cases h
    exact Nat.dvd_mul_left _ _

/-! ## The member a field declares -/

/-- `field` with the place and the initial value of `start`. -/
def startAs (start field : ManagedFieldLayout) : ManagedFieldLayout :=
  { field with
    endpoint := start.endpoint, initial := start.initial,
    siblingFirst := start.siblingFirst, siblingCount := start.siblingCount }

theorem scalarModifiers_start {graph : ManagedGraphReader} (start : ManagedFieldLayout) (fuel : Nat)
    (type : TypeRef) (indirect : Bool) (field : ManagedFieldLayout) :
    scalarModifiers graph fuel type indirect (startAs start field) =
      (scalarModifiers graph fuel type indirect field).map (Option.map (startAs start)) := by
  induction fuel generalizing type indirect field with
  | zero => rfl
  | succ fuel ih =>
    rw [scalarModifiers, scalarModifiers]
    cases hd : graph.derived type with
    | none => rfl
    | some derived =>
      cases hk : derived.kind <;> simp only [hk]
      case constQualified => exact ih derived.child indirect { field with readOnly := true }
      case pointer =>
        split
        · rfl
        · exact ih derived.child true { field with pointer := true }
      case lvalueReference =>
        split
        · rfl
        · exact ih derived.child true { field with reference := true }
      all_goals rfl

variable {type : TypeRef}

theorem scalarLayout_start {graph : ManagedGraphReader} {fuel : Nat} {target : AbiTarget}
    (start field : ManagedFieldLayout) : scalarLayout fuel graph type target (startAs start field) =
      (scalarLayout fuel graph type target field).map (Option.map (startAs start)) := by
  unfold scalarLayout
  rw [scalarModifiers_start]
  cases scalarModifiers graph fuel type false field with
  | error e => rfl
  | ok out =>
    cases out with
    | none => rfl
    | some f =>
      have hsame : (startAs start f).valueType = f.valueType := rfl
      cases hi : graph.intrinsic f.valueType with
      | none => simp [hsame, hi, bind, Except.bind, Except.map]
      | some intrinsic =>
        simp only [Except.map, Option.map, bind, Except.bind, hsame, hi]
        cases hp : f.pointer with
        | true => simp [startAs, hp]
        | false =>
          cases intrinsic <;> simp [startAs, hp, scalarStorage]

/-- `like` at the place and with the initial value of `field`. -/
def placedAs (like field : ManagedFieldLayout) : ManagedFieldLayout :=
  { like with
    endpoint := field.endpoint, offset := field.offset, initial := field.initial,
    readOnly := field.readOnly, siblingFirst := field.siblingFirst,
    siblingCount := field.siblingCount }

/-- The kind of `field` is that of the member: the scalar of its type, or the record it holds. -/
def Declares (fuel : Nat) (graph : ManagedGraphReader) (target : AbiTarget) (member : MemberRecord)
    (field : ManagedFieldLayout) : Prop :=
  match scalarLayout fuel graph member.type target {} with
  | .ok (some scalar) => field = placedAs scalar field
  | .ok none => field.aggregate = true ∧ field.reference = false ∧
      ∃ qualified, constModifiers graph fuel member.type false = .ok (field.valueType, qualified)
  | .error _ => False

variable {member : MemberRecord}

theorem Declares.moved {fuel : Nat} {graph : ManagedGraphReader} {target : AbiTarget}
    {f g : ManagedFieldLayout} (h : Declares fuel graph target member f) (hg : g = placedAs f g) :
    Declares fuel graph target member g := by
  unfold Declares at h ⊢
  cases hs : scalarLayout fuel graph member.type target {} with
  | error e =>
    rw [hs] at h
    exact h
  | ok scalar =>
    simp only [hs] at h ⊢
    cases scalar with
    | some like =>
      have hf : f = placedAs like f := h
      rw [hf] at hg
      exact hg
    | none =>
      obtain ⟨haggr, href, qualified, hbase⟩ := h
      rw [hg]
      exact ⟨haggr, href, qualified, hbase⟩

def LaidFor (fuel : Nat) (graph : ManagedGraphReader) (target : AbiTarget) (member : MemberRecord)
    (field : ManagedFieldLayout) : Prop :=
  Declares fuel graph target member field ∧ field.initial = member.construction

theorem LaidFor.shift {fuel : Nat} {graph : ManagedGraphReader} {target : AbiTarget}
    {f : ManagedFieldLayout} (h : LaidFor fuel graph target member f) (d : Nat) :
    LaidFor fuel graph target member (shift d f) :=
  ⟨h.1.moved rfl, h.2⟩

/-- The fields from `first` on are those of the members of `type`. -/
structure MembersAt (fuel : Nat) (graph : ManagedGraphReader) (target : AbiTarget)
    (fields : List ManagedFieldLayout) (type : TypeHandle) (first count : Nat)
    (members : List MemberRecord) : Prop where
  read : graph.members type = some members
  count : members.length = count
  each : ∀ k m, members[k]? = some m → LaidFor fuel graph target m (fields.getD (first + k) {})

/-- Every record from `b` on stands for a record of the Graph. -/
def Declared (fuel : Nat) (graph : ManagedGraphReader) (target : AbiTarget)
    (fields : List ManagedFieldLayout) (b : Nat) : Prop :=
  ∀ i, b ≤ i → (fields.getD i {}).aggregate = true → ∃ type members,
    graph.named (fields.getD i {}).valueType = some type ∧
      MembersAt fuel graph target fields type (fields.getD i {}).firstChild
        (fields.getD i {}).childCount members

section Declared

variable {fuel : Nat} {graph : ManagedGraphReader} {target : AbiTarget} {pack b : Nat}
  {xs fresh : List ManagedFieldLayout}

theorem MembersAt.of_each {ys : List ManagedFieldLayout} {type : TypeHandle} {first count : Nat}
    {members : List MemberRecord} (h : MembersAt fuel graph target xs type first count members)
    (hsame : ∀ c m, first ≤ c → c < first + count → LaidFor fuel graph target m (xs.getD c {}) →
      LaidFor fuel graph target m (ys.getD c {})) :
    MembersAt fuel graph target ys type first count members := by
  refine ⟨h.read, h.count, fun k m hm => ?_⟩
  have hk : k < members.length := (List.getElem?_eq_some_iff.mp hm).1
  have hcount := h.count
  apply hsame _ m (Nat.le_add_right first k) (by omega)
  exact h.each k m hm

theorem Declared.behind (hx : Nested pack xs b) (hy : Nested pack (xs ++ fresh) xs.length)
    (hdx : Declared fuel graph target xs b) (hdy : Declared fuel graph target (xs ++ fresh) xs.length)
    (d : Nat) : Declared fuel graph target (xs ++ fresh.map (shift d)) b := by
  intro i hb haggr
  by_cases hi : i < xs.length
  · rw [getD_before hi] at haggr ⊢
    obtain ⟨type, members, hnamed, hat⟩ := hdx i hb haggr
    refine ⟨type, members, hnamed, hat.of_each fun c m hlow hhigh hlaid => ?_⟩
    rw [getD_before (hx.later hb ⟨haggr, hlow, hhigh⟩).2]
    exact hlaid
  · have hle := Nat.le_of_not_lt hi
    have hlt : i < (xs ++ fresh).length := by simpa using lt_of_aggregate haggr
    rw [getD_behind hle hlt] at haggr ⊢
    obtain ⟨type, members, hnamed, hat⟩ := hdy i hle haggr
    refine ⟨type, members, hnamed, hat.of_each fun c m hlow hhigh hlaid => ?_⟩
    have hlater := hy.later hle ⟨haggr, hlow, hhigh⟩
    rw [getD_behind (Nat.le_trans hle (Nat.le_of_lt hlater.1)) hlater.2]
    exact hlaid.shift d

theorem Declared.fill {j : Nat} {f : ManagedFieldLayout} (hj : j < xs.length)
    (hdx : Declared fuel graph target xs b) (hfree : ∀ i, b ≤ i → ¬ ChildOf xs i j)
    (hblock : f.aggregate = true → j < f.firstChild ∧ ∃ type members,
      graph.named f.valueType = some type ∧
        MembersAt fuel graph target xs type f.firstChild f.childCount members) :
    Declared fuel graph target (xs.set j f) b := by
  intro i hb haggr
  by_cases hi : i = j
  · subst hi
    rw [getD_set_self hj] at haggr ⊢
    obtain ⟨hfirst, type, members, hnamed, hat⟩ := hblock haggr
    refine ⟨type, members, hnamed, hat.of_each fun c m hlow hhigh hlaid => ?_⟩
    rw [getD_set_ne (by omega)]
    exact hlaid
  · rw [getD_set_ne hi] at haggr ⊢
    obtain ⟨type', members', hnamed, hat⟩ := hdx i hb haggr
    refine ⟨type', members', hnamed, hat.of_each fun c m hlow hhigh hlaid => ?_⟩
    have hne : c ≠ j := by
      rintro rfl
      exact hfree i hb ⟨haggr, hlow, hhigh⟩
    rw [getD_set_ne hne]
    exact hlaid

end Declared

/-- The slots from `first` on hold members of a record of `size` bytes, laid out from `base`. -/
structure Slots (pack : Nat) (fields : List ManagedFieldLayout) (first count base size unit : Nat) :
    Prop where
  sits : ∀ {j}, first ≤ j → j < first + count → SitsIn pack base size unit (fields.getD j {})
  apart : ∀ {j k}, first ≤ j → j < first + count → first ≤ k → k < first + count → j ≠ k →
    RangesApart (fields.getD j {}) (fields.getD k {})

/-- Behind the `count` slots from `b` on stand the fields nested in them, each in one record. -/
structure Enclosed (fields : List ManagedFieldLayout) (b count : Nat) : Prop where
  room : b + count ≤ fields.length
  inner : ∀ {i c}, b ≤ i → ChildOf fields i c → b + count ≤ c
  held : ∀ {c}, b + count ≤ c → c < fields.length → ∃ i, b ≤ i ∧ ChildOf fields i c

structure RecordNested (fuel : Nat) (graph : ManagedGraphReader) (abi : AbiConfiguration)
    (type : TypeHandle) (fields : List ManagedFieldLayout) (layout : RecordLayout)
    (after : List ManagedFieldLayout) : Prop where
  fresh : ∃ fresh, after = fields ++ fresh
  first : layout.first = fields.length
  alignment : layout.alignment.isPowerOfTwo ∧ layout.alignment ≤ abi.pack
  nested : Nested abi.pack after fields.length
  covered : Enclosed after fields.length layout.membersCount
  slots : Slots abi.pack after fields.length layout.membersCount 0 layout.size layout.alignment
  declared : Declared fuel graph abi.target after fields.length
  members : ∃ members,
    MembersAt fuel graph abi.target after type fields.length layout.membersCount members

def NestsRecords (fuel : Nat) (graph : ManagedGraphReader) (abi : AbiConfiguration)
    (self : LayoutRecord) : Prop :=
  ∀ type root readOnly fields layout after,
    self type root readOnly fields = .ok (layout, after) →
      RecordNested fuel graph abi type fields layout after

variable {first count : Nat}

theorem Slots.shift {pack size unit d : Nat} {xs fresh : List ManagedFieldLayout}
    (h : Slots pack (xs ++ fresh) first count 0 size unit) (hle : xs.length ≤ first)
    (hroom : first + count ≤ (xs ++ fresh).length) :
    Slots pack (xs ++ fresh.map (shift d)) first count d size unit := by
  have hat : ∀ {j}, first ≤ j → j < first + count →
      (xs ++ fresh.map (ServerEngine.shift d)).getD j {} =
        ServerEngine.shift d ((xs ++ fresh).getD j {}) :=
    fun hlow hhigh => getD_behind (Nat.le_trans hle hlow) (Nat.lt_of_lt_of_le hhigh hroom)
  refine ⟨?_, ?_⟩
  · intro j hlow hhigh
    rw [hat hlow hhigh]
    have hsits := (h.sits hlow hhigh).shift d
    rwa [Nat.zero_add] at hsits
  · intro j k hj hj' hk hk' hne
    rw [hat hj hj', hat hk hk']
    exact (h.apart hj hj' hk hk' hne).shift d

/-! ## One member -/

/-- A member's field before it is placed, with the fields nested in it. -/
structure MemberNested (fuel : Nat) (graph : ManagedGraphReader) (abi : AbiConfiguration)
    (member : MemberRecord) (xs : List ManagedFieldLayout) (f : ManagedFieldLayout)
    (after : List ManagedFieldLayout) : Prop where
  laid : LaidFor fuel graph abi.target member f
  natural : f.natural.isPowerOfTwo
  scalar : f.aggregate = false → after = xs
  record : f.aggregate = true → f.unit abi.pack = f.alignment ∧ ∃ type,
    graph.named f.valueType = some type ∧
      RecordNested fuel graph abi type xs ⟨f.bytes, f.alignment, f.firstChild, f.childCount⟩ after

variable {self : LayoutRecord} {readOnly : Bool} {after : List ManagedFieldLayout}

theorem nestedField_nested {fuel : Nat} {graph : ManagedGraphReader} {abi : AbiConfiguration}
    {start f : ManagedFieldLayout} {fields : List ManagedFieldLayout} (hpack : PackValue abi.pack)
    (hself : NestsRecords fuel graph abi self) (hr : start.reference = false)
    (hi : start.initial = member.construction)
    (hscalar : scalarLayout fuel graph member.type abi.target {} = .ok none)
    (h : nestedField fuel graph self readOnly member.type start fields = .ok (f, after)) :
    MemberNested fuel graph abi member fields f after := by
  obtain ⟨⟨base, qualified⟩, hbase, h⟩ := bind_ok.mp h
  simp only at h
  split at h
  · cases h
  · rename_i nested hnamed
    obtain ⟨⟨layout, out⟩, hout, h⟩ := bind_ok.mp h
    split at h
    · cases h
    · cases h
      have hrec := hself _ _ _ _ _ _ hout
      obtain ⟨hpow, hle⟩ := hrec.alignment
      have hmod : layout.alignment % 2 ^ 32 = layout.alignment := by
        have := hpack.2
        exact Nat.mod_eq_of_lt (by omega)
      refine ⟨⟨?_, hi⟩, ?_, by simp, fun _ => ⟨?_, nested, hnamed, ?_⟩⟩
      · unfold Declares
        rw [hscalar]
        exact ⟨rfl, hr, qualified, hbase⟩
      · simp only [ManagedFieldLayout.natural, hr, hmod]
        exact hpow
      · simp only [ManagedFieldLayout.unit, hr, hmod]
        exact Nat.min_eq_left hle
      · simp only [ManagedFieldLayout.bytes, hr, hmod]
        exact hrec

theorem scalarLayout_natural {fuel : Nat} {graph : ManagedGraphReader} {target : AbiTarget}
    {field out : ManagedFieldLayout}
    (h : scalarLayout fuel graph type target field = .ok (some out)) :
    out.natural.isPowerOfTwo := by
  obtain ⟨peeled, -, h⟩ := bind_ok.mp h
  cases peeled with
  | none => cases h
  | some f =>
    simp only at h
    unfold ManagedFieldLayout.natural
    split
    · exact ⟨3, rfl⟩
    · cases hi : graph.intrinsic f.valueType with
      | none =>
        rw [hi] at h
        cases h
      | some intrinsic =>
        simp only [hi] at h
        split at h
        · cases h
          exact ⟨3, rfl⟩
        · obtain ⟨g, hg, rfl⟩ := Option.map_eq_some_iff.mp (Except.ok.inj h)
          have hsize : g.size = 1 ∨ g.size = 2 ∨ g.size = 4 ∨ g.size = 8 := by
            cases intrinsic <;> cases hg <;> cases target <;> simp
          show g.size.isPowerOfTwo
          obtain h | h | h | h := hsize <;> rw [h]
          · exact ⟨0, rfl⟩
          · exact ⟨1, rfl⟩
          · exact ⟨2, rfl⟩
          · exact ⟨3, rfl⟩

variable {root : ObjectEndpoint}

theorem memberField_nested {fuel : Nat} {graph : ManagedGraphReader} {abi : AbiConfiguration}
    {position : Nat} {f : ManagedFieldLayout} {fields : List ManagedFieldLayout}
    (hpack : PackValue abi.pack) (hself : NestsRecords fuel graph abi self)
    (h : memberField fuel graph abi.target self readOnly member.type (memberStart root first count position member) fields = .ok (f, after)) :
    MemberNested fuel graph abi member fields f after := by
  obtain ⟨scalar, hscalar, h⟩ := bind_ok.mp h
  have hstart : memberStart root first count position member =
      startAs (memberStart root first count position member) {} := rfl
  have hmap := hscalar
  rw [hstart, scalarLayout_start] at hmap
  cases hplain : scalarLayout fuel graph member.type abi.target {} with
  | error e =>
    rw [hplain] at hmap
    cases hmap
  | ok like =>
    rw [hplain] at hmap
    cases like with
    | none =>
      cases hmap
      exact nestedField_nested hpack hself rfl rfl hplain h
    | some like =>
      cases hmap
      have hnatural := scalarLayout_natural hscalar
      have haggr := (scalarLayout_ok rfl rfl hscalar).1
      have hlaid : ∀ readOnly, LaidFor fuel graph abi.target member
          { startAs (memberStart root first count position member) like with
            readOnly := readOnly } := by
        intro readOnly
        refine ⟨?_, rfl⟩
        unfold Declares
        rw [hplain]
        rfl
      dsimp only [Option.map] at h
      split at h
      · cases h
        refine ⟨hlaid _, hnatural, fun _ => rfl, fun hrec => ?_⟩
        rw [haggr] at hrec
        cases hrec
      · cases h
        refine ⟨hlaid _, hnatural, fun _ => rfl, fun hrec => ?_⟩
        have hfalse : like.aggregate = true := hrec
        have hthis : like.aggregate = false := haggr
        rw [hthis] at hfalse
        cases hfalse

/-- The fields behind `xs` are those nested in `f`. -/
structure BlockOf (fuel : Nat) (graph : ManagedGraphReader) (abi : AbiConfiguration)
    (xs fresh : List ManagedFieldLayout) (f : ManagedFieldLayout) : Prop where
  nested : Nested abi.pack (xs ++ fresh) xs.length
  declared : Declared fuel graph abi.target (xs ++ fresh) xs.length
  scalar : f.aggregate = false → fresh = []
  first : f.aggregate = true → f.firstChild = xs.length
  enclosed : f.aggregate = true → Enclosed (xs ++ fresh) xs.length f.childCount
  slots : f.aggregate = true →
    Slots abi.pack (xs ++ fresh) xs.length f.childCount 0 f.bytes (f.unit abi.pack)
  members : f.aggregate = true → ∃ type members, graph.named f.valueType = some type ∧
    MembersAt fuel graph abi.target (xs ++ fresh) type xs.length f.childCount members

theorem MemberNested.blockOf {fuel : Nat} {graph : ManagedGraphReader} {abi : AbiConfiguration}
    {xs : List ManagedFieldLayout} {f : ManagedFieldLayout}
    (h : MemberNested fuel graph abi member xs f after) :
    ∃ fresh, after = xs ++ fresh ∧ BlockOf fuel graph abi xs fresh f := by
  cases haggr : f.aggregate with
  | false =>
    have hnone : ∀ {i c : Nat}, xs.length ≤ i → ¬ ChildOf (xs ++ []) i c :=
      fun hle => not_childOf_default (by simpa using hle)
    refine ⟨[], by rw [List.append_nil, h.scalar haggr], ⟨?_, ?_, ?_, ?_⟩, ?_, fun _ => rfl, ?_, ?_, ?_, ?_⟩
    · exact fun hle hc => absurd hc (hnone hle)
    · exact fun hle hc => absurd hc (hnone hle)
    · exact fun hle hc => absurd hc (hnone hle)
    · exact fun hle _ hc => absurd hc (hnone hle)
    · intro i hle hrec
      have hlt := lt_of_aggregate hrec
      rw [List.append_nil] at hlt
      exact absurd hlt (Nat.not_lt.mpr hle)
    all_goals simp [haggr]
  | true =>
    obtain ⟨hunit, type, hnamed, hrec⟩ := h.record haggr
    obtain ⟨fresh, rfl⟩ := hrec.fresh
    obtain ⟨members, hmembers⟩ := hrec.members
    refine ⟨fresh, rfl, hrec.nested, hrec.declared, by simp [haggr], fun _ => hrec.first,
      fun _ => hrec.covered, fun _ => ?_, fun _ => ⟨type, members, hnamed, hmembers⟩⟩
    rw [hunit]
    exact hrec.slots

variable {c' : MemberCursor}

theorem placeField_spec {pack index begin : Nat} {f : ManagedFieldLayout} {c : MemberCursor}
    (hpos : 0 < f.unit pack) (h : placeField pack index begin f c = .ok c') :
    ∃ offset, c.size ≤ offset ∧ f.unit pack ∣ offset ∧
      c' = ⟨(shiftFrom c.fields begin offset).set index { f with offset := offset },
        offset + f.bytes, max c.alignment (f.unit pack)⟩ := by
  rw [placeField] at h
  cases ha : alignUp c.size (min (if f.reference then 8 else f.alignment) pack) with
  | none =>
    rw [ha] at h
    cases h
  | some offset =>
    simp only [ha] at h
    split at h
    · cases h
    · cases h
      exact ⟨offset, alignUp_ok hpos ha, alignUp_dvd ha, rfl⟩

/-! ## The loop over the members -/

/-- The invariant of the loop: the slots of the members to come are reserved. -/
structure MembersPlaced (fuel : Nat) (graph : ManagedGraphReader) (abi : AbiConfiguration)
    (fields : List ManagedFieldLayout) (members : List MemberRecord) (placed : Nat)
    (c : MemberCursor) : Prop where
  fresh : ∃ fresh, c.fields = fields ++ fresh
  alignment : c.alignment.isPowerOfTwo ∧ c.alignment ≤ abi.pack
  nested : Nested abi.pack c.fields fields.length
  enclosed : Enclosed c.fields fields.length members.length
  reserved : ∀ {j}, fields.length + placed ≤ j → j < fields.length + members.length →
    c.fields.getD j {} = reserved
  slots : Slots abi.pack c.fields fields.length placed 0 c.size c.alignment
  declared : Declared fuel graph abi.target c.fields fields.length
  laid : ∀ k m, k < placed → members[k]? = some m →
    LaidFor fuel graph abi.target m (c.fields.getD (fields.length + k) {})

section Member

variable {fuel : Nat} {graph : ManagedGraphReader} {abi : AbiConfiguration}
  {fields xs fresh : List ManagedFieldLayout} {members : List MemberRecord} {placed d : Nat}
  {c : MemberCursor} {f : ManagedFieldLayout} {i : Nat}

theorem MembersPlaced.free (h : MembersPlaced fuel graph abi fields members placed c)
    (hblock : BlockOf fuel graph abi c.fields fresh f) (hlt : placed < members.length)
    (hi : fields.length ≤ i) :
    ¬ ChildOf (c.fields ++ fresh.map (shift d)) i (fields.length + placed) := by
  intro hc
  have hroom := h.enclosed.room
  cases childOf_join h.nested hblock.nested hi (childOf_shift.mp hc) with
  | inl hx =>
    have hinner := h.enclosed.inner hi hx.2.2
    omega
  | inr hy => omega

variable {j : Nat}

theorem MembersPlaced.orphans (h : MembersPlaced fuel graph abi fields members placed c)
    (hblock : BlockOf fuel graph abi c.fields fresh f) (haggr : f.aggregate = true)
    (hi : fields.length ≤ i) (hlow : f.firstChild ≤ j) (hhigh : j < f.firstChild + f.childCount) :
    ¬ ChildOf (c.fields ++ fresh.map (shift d)) i j := by
  intro hc
  rw [hblock.first haggr] at hlow hhigh
  have hc := childOf_shift.mp hc
  cases childOf_join h.nested hblock.nested hi hc with
  | inl hx => omega
  | inr hy =>
    have hinner := (hblock.enclosed haggr).inner hy.1 hc
    omega

theorem BlockOf.holdsBlock (hblock : BlockOf fuel graph abi xs fresh f)
    (haggr : f.aggregate = true) (hj : j < xs.length) :
    HoldsBlock abi.pack (xs ++ fresh.map (shift d)) j { f with offset := d } := by
  have hroom := (hblock.enclosed haggr).room
  have hslots := (hblock.slots haggr).shift (d := d) (Nat.le_refl _) hroom
  have hfirst := hblock.first haggr
  have hlen : (xs ++ fresh.map (shift d)).length = (xs ++ fresh).length := by simp
  refine ⟨?_, ?_, ?_⟩
  · intro c hlow hhigh
    dsimp only at hlow hhigh
    omega
  · intro c hlow hhigh
    rw [hfirst] at hlow hhigh
    exact hslots.sits hlow hhigh
  · intro c c' hlow hhigh hlow' hhigh' hne
    rw [hfirst] at hlow hhigh hlow' hhigh'
    exact hslots.apart hlow hhigh hlow' hhigh' hne

theorem MembersPlaced.nested_next (h : MembersPlaced fuel graph abi fields members placed c)
    (hblock : BlockOf fuel graph abi c.fields fresh f) (hlt : placed < members.length) :
    Nested abi.pack ((c.fields ++ fresh.map (shift d)).set (fields.length + placed)
      { f with offset := d }) fields.length := by
  have hroom := h.enclosed.room
  apply (h.nested.behind hblock.nested d).fill
  · rw [List.length_append]
    omega
  · exact fun i hi => h.free hblock hlt hi
  · exact fun haggr => hblock.holdsBlock haggr (by omega)
  · exact fun haggr j hlow hhigh i hi _ => h.orphans hblock haggr hi hlow hhigh

theorem MembersPlaced.declared_next (h : MembersPlaced fuel graph abi fields members placed c)
    (hblock : BlockOf fuel graph abi c.fields fresh f) (hlt : placed < members.length) :
    Declared fuel graph abi.target ((c.fields ++ fresh.map (shift d)).set (fields.length + placed)
      { f with offset := d }) fields.length := by
  have hroom := h.enclosed.room
  have hbehind := h.declared.behind h.nested hblock.nested hblock.declared d
  have hj : fields.length + placed < (c.fields ++ fresh.map (shift d)).length := by
    rw [List.length_append]
    omega
  cases Bool.eq_false_or_eq_true f.aggregate with
  | inr haggr =>
    apply hbehind.fill hj (fun i hi => h.free hblock hlt hi)
    intro hrec
    rw [show f.aggregate = true from hrec] at haggr
    cases haggr
  | inl haggr =>
    obtain ⟨type, inner, hnamed, hat⟩ := hblock.members haggr
    have hfirst := hblock.first haggr
    have hinner := (hblock.enclosed haggr).room
    refine hbehind.fill hj (fun i hi => h.free hblock hlt hi) fun _ =>
      ⟨?_, type, inner, hnamed, ?_⟩
    · show fields.length + placed < f.firstChild
      omega
    · show MembersAt fuel graph abi.target _ type f.firstChild f.childCount inner
      rw [hfirst]
      apply hat.of_each
      intro k m hlow hhigh hlaid
      rw [getD_behind hlow (by omega)]
      exact hlaid.shift d

theorem MembersPlaced.enclosed_next (h : MembersPlaced fuel graph abi fields members placed c)
    (hblock : BlockOf fuel graph abi c.fields fresh f) (hlt : placed < members.length) :
    Enclosed ((c.fields ++ fresh.map (shift d)).set (fields.length + placed)
      { f with offset := d }) fields.length members.length := by
  have hroom := h.enclosed.room
  have hj : fields.length + placed < (c.fields ++ fresh.map (shift d)).length := by
    rw [List.length_append]
    omega
  refine ⟨?_, ?_, ?_⟩
  · rw [List.length_set, List.length_append]
    omega
  · intro i k hi hc
    by_cases hij : i = fields.length + placed
    · subst hij
      unfold ChildOf at hc
      rw [getD_set_self hj] at hc
      have hfirst := hblock.first hc.1
      have hlow : f.firstChild ≤ k := hc.2.1
      omega
    · have hc := childOf_shift.mp ((childOf_set_ne hij).mp hc)
      cases childOf_join h.nested hblock.nested hi hc with
      | inl hx => exact h.enclosed.inner hi hx.2.2
      | inr hy => omega
  · intro k hlow hhigh
    by_cases hk : k < c.fields.length
    · obtain ⟨i, hi, hc⟩ := h.enclosed.held hlow hk
      have hij : i ≠ fields.length + placed := by
        rintro rfl
        have haggr := hc.1
        rw [h.reserved (Nat.le_refl _) (by omega)] at haggr
        cases haggr
      exact ⟨i, hi, (childOf_set_ne hij).mpr (childOf_shift.mpr ((childOf_before hc.lt).mpr hc))⟩
    · have hle := Nat.le_of_not_lt hk
      cases Bool.eq_false_or_eq_true f.aggregate with
      | inr haggr =>
        rw [hblock.scalar haggr] at hhigh
        simp at hhigh
        omega
      | inl haggr =>
        have hfirst := hblock.first haggr
        by_cases hdirect : k < c.fields.length + f.childCount
        · refine ⟨fields.length + placed, by omega, ?_⟩
          unfold ChildOf
          rw [getD_set_self hj]
          exact ⟨haggr, by show f.firstChild ≤ k; omega,
            by show k < f.firstChild + f.childCount; omega⟩
        · obtain ⟨i, hi, hc⟩ :=
            (hblock.enclosed haggr).held (Nat.le_of_not_lt hdirect) (by simpa using hhigh)
          have hij : i ≠ fields.length + placed := by omega
          exact ⟨i, by omega, (childOf_set_ne hij).mpr (childOf_shift.mpr hc)⟩

theorem MembersPlaced.slots_next (h : MembersPlaced fuel graph abi fields members placed c)
    (hpack : PackValue abi.pack) (hnatural : f.natural.isPowerOfTwo) (hsize : c.size ≤ d)
    (hunit : f.unit abi.pack ∣ d) (hlt : placed < members.length) :
    Slots abi.pack ((c.fields ++ fresh.map (shift d)).set (fields.length + placed)
      { f with offset := d }) fields.length (placed + 1) 0 (d + f.bytes)
      (max c.alignment (f.unit abi.pack)) := by
  have hroom := h.enclosed.room
  have hj : fields.length + placed < (c.fields ++ fresh.map (shift d)).length := by
    rw [List.length_append]
    omega
  have hpow := isPowerOfTwo_unit hpack hnatural
  have hmax := isPowerOfTwo_max h.alignment.1 hpow
  have hbefore : ∀ {k}, fields.length ≤ k → k < fields.length + placed →
      ((c.fields ++ fresh.map (shift d)).set (fields.length + placed)
        { f with offset := d }).getD k {} = c.fields.getD k {} := by
    intro k _ hhigh
    rw [getD_set_ne (by omega), getD_before (by omega)]
  refine ⟨?_, ?_⟩
  · intro k hlow hhigh
    by_cases hk : k = fields.length + placed
    · subst hk
      rw [getD_set_self hj]
      refine ⟨Nat.zero_le _, ?_, ?_, ?_⟩
      · show d + f.bytes ≤ 0 + (d + f.bytes)
        omega
      · exact hunit
      · exact isPowerOfTwo_dvd hpow hmax (Nat.le_max_right _ _)
    · have hlt' : k < fields.length + placed := by omega
      rw [hbefore hlow hlt']
      apply (h.slots.sits hlow hlt').mono
      · omega
      · exact isPowerOfTwo_dvd h.alignment.1 hmax (Nat.le_max_left _ _)
  · -- the new member lies behind all others
    have hbehind : ∀ {k}, fields.length ≤ k → k < fields.length + placed →
        RangesApart (c.fields.getD k {}) { f with offset := d } := by
      intro k hlow hhigh
      have hhigh' := (h.slots.sits hlow hhigh).high
      left
      show (c.fields.getD k {}).offset + (c.fields.getD k {}).bytes ≤ d
      omega
    intro k l hk hk' hl hl' hne
    by_cases hkj : k = fields.length + placed
    · have hlt' : l < fields.length + placed := by omega
      rw [hkj, getD_set_self hj, hbefore hl hlt']
      exact (hbehind hl hlt').symm
    · have hlt' : k < fields.length + placed := by omega
      rw [hbefore hk hlt']
      by_cases hlj : l = fields.length + placed
      · rw [hlj, getD_set_self hj]
        exact hbehind hk hlt'
      · have hlt'' : l < fields.length + placed := by omega
        rw [hbefore hl hlt'']
        exact h.slots.apart hk hlt' hl hlt'' hne

theorem MembersPlaced.next {member : MemberRecord}
    (h : MembersPlaced fuel graph abi fields members placed c) (hpack : PackValue abi.pack)
    (hblock : BlockOf fuel graph abi c.fields fresh f)
    (hlaid : LaidFor fuel graph abi.target member f) (hnatural : f.natural.isPowerOfTwo)
    (hsize : c.size ≤ d) (hunit : f.unit abi.pack ∣ d) (hmember : members[placed]? = some member) :
    MembersPlaced fuel graph abi fields members (placed + 1)
      ⟨(c.fields ++ fresh.map (shift d)).set (fields.length + placed) { f with offset := d },
        d + f.bytes, max c.alignment (f.unit abi.pack)⟩ := by
  have hlt : placed < members.length := (List.getElem?_eq_some_iff.mp hmember).1
  have hroom := h.enclosed.room
  have hj : fields.length + placed < (c.fields ++ fresh.map (shift d)).length := by
    rw [List.length_append]
    omega
  refine ⟨?_, ⟨?_, ?_⟩, h.nested_next hblock hlt, h.enclosed_next hblock hlt, ?_,
    h.slots_next hpack hnatural hsize hunit hlt, h.declared_next hblock hlt, ?_⟩
  · obtain ⟨rest, hrest⟩ := h.fresh
    refine ⟨(rest ++ fresh.map (shift d)).set placed { f with offset := d }, ?_⟩
    rw [hrest, List.append_assoc, List.set_append_right _ _ (Nat.le_add_right _ _),
      Nat.add_sub_cancel_left]
  · exact isPowerOfTwo_max h.alignment.1 (isPowerOfTwo_unit hpack hnatural)
  · exact Nat.max_le.mpr ⟨h.alignment.2, Nat.min_le_right _ _⟩
  · intro k hlow hhigh
    dsimp only
    rw [getD_set_ne (by omega), getD_before (by omega)]
    exact h.reserved (by omega) hhigh
  · intro k m hk hm
    by_cases hkp : k = placed
    · subst hkp
      rw [getD_set_self hj]
      obtain rfl : member = m := by
        rw [hmember] at hm
        exact Option.some.inj hm
      exact ⟨hlaid.1.moved rfl, hlaid.2⟩
    · rw [getD_set_ne (by omega), getD_before (by omega)]
      exact h.laid k m (by omega) hm

end Member

theorem layoutMember_placed {fuel : Nat} {graph : ManagedGraphReader} {abi : AbiConfiguration}
    {fields : List ManagedFieldLayout} {members : List MemberRecord} {placed : Nat}
    {c : MemberCursor} (hpack : PackValue abi.pack) (hself : NestsRecords fuel graph abi self)
    (hmember : members[placed]? = some member)
    (hc : MembersPlaced fuel graph abi fields members placed c)
    (h : layoutMember fuel graph abi self root readOnly fields.length members.length c (member, placed) = .ok c') :
    MembersPlaced fuel graph abi fields members (placed + 1) c' := by
  obtain ⟨⟨f, after⟩, hfield, h⟩ := bind_ok.mp h
  have hone := memberField_nested hpack hself hfield
  obtain ⟨fresh, rfl, hblock⟩ := hone.blockOf
  have hpos := Nat.pos_of_isPowerOfTwo (isPowerOfTwo_unit hpack hone.natural)
  obtain ⟨offset, hsize, hunit, rfl⟩ := placeField_spec hpos h
  rw [shiftFrom_append]
  exact hc.next hpack hblock hone.laid hone.natural hsize hunit hmember

theorem closeRecord_nested {fuel : Nat} {graph : ManagedGraphReader} {abi : AbiConfiguration}
    {fields : List ManagedFieldLayout} {members : List MemberRecord} {type : TypeHandle}
    {c : MemberCursor} {layout : RecordLayout} (hread : graph.members type = some members)
    (hc : MembersPlaced fuel graph abi fields members members.length c)
    (h : closeRecord fields.length members.length c = .ok (layout, after)) :
    RecordNested fuel graph abi type fields layout after := by
  rw [closeRecord] at h
  split at h
  · cases h
  · rename_i size hsize
    cases h
    have hle := alignUp_ok (Nat.pos_of_isPowerOfTwo hc.alignment.1) hsize
    have hmono : c.size ≤ size := by
      split at hle <;> omega
    refine ⟨hc.fresh, rfl, hc.alignment, hc.nested, hc.enclosed, ⟨?_, hc.slots.apart⟩, hc.declared,
      members, hread, rfl, ?_⟩
    · intro j hlow hhigh
      exact (hc.slots.sits hlow hhigh).mono hmono (Nat.dvd_refl _)
    · intro k m hm
      exact hc.laid k m (List.getElem?_eq_some_iff.mp hm).1 hm

theorem membersPlaced_start {fuel : Nat} {graph : ManagedGraphReader} {abi : AbiConfiguration}
    (hpack : PackValue abi.pack) (fields : List ManagedFieldLayout) (members : List MemberRecord) :
    MembersPlaced fuel graph abi fields members 0
      { fields := fields ++ List.replicate members.length reserved } := by
  have hslot : ∀ {i}, fields.length ≤ i →
      (fields ++ List.replicate members.length reserved).getD i {} = reserved := by
    intro i hle
    rw [List.getD_append_right _ _ _ _ hle]
    by_cases hi : i - fields.length < (List.replicate members.length reserved).length
    · rw [List.getD_eq_getElem _ _ hi, List.getElem_replicate]
    · rw [List.getD_eq_default _ _ (Nat.le_of_not_lt hi)]
      rfl
  have hnone : ∀ {i c}, fields.length ≤ i →
      ¬ ChildOf (fields ++ List.replicate members.length reserved) i c := by
    intro i c hle hc
    have haggr := hc.1
    rw [hslot hle] at haggr
    cases haggr
  refine ⟨⟨_, rfl⟩, ⟨Nat.isPowerOfTwo_one, Nat.pos_of_isPowerOfTwo hpack.1⟩, ⟨?_, ?_, ?_, ?_⟩,
    ⟨?_, ?_, ?_⟩, fun hlow _ => hslot (by omega), ⟨?_, ?_⟩, ?_, ?_⟩
  · exact fun hle hc => absurd hc (hnone hle)
  · exact fun hle hc => absurd hc (hnone hle)
  · exact fun hle hc => absurd hc (hnone hle)
  · exact fun hle _ hc => absurd hc (hnone hle)
  · simp
  · exact fun hle hc => absurd hc (hnone hle)
  · intro c hlow hhigh
    simp at hhigh
    omega
  · intro j hlow hhigh
    omega
  · intro j k hlow hhigh
    omega
  · intro i hle haggr
    rw [hslot hle] at haggr
    cases haggr
  · intro k m hk
    omega

theorem layoutRecord_nests {fuel : Nat} {graph : ManagedGraphReader} {abi : AbiConfiguration}
    (hpack : PackValue abi.pack) (depth : Nat) (active : List TypeHandle) :
    NestsRecords fuel graph abi (layoutRecord fuel graph abi depth active) := by
  induction depth generalizing active with
  | zero =>
    intro type root readOnly fields layout after h
    cases h
  | succ depth ih =>
    intro type root readOnly fields layout after h
    rw [layoutRecord] at h
    split at h
    · cases h
    · split at h
      · cases h
      · split at h
        · cases h
        · obtain ⟨members, hmembers, h⟩ := bind_ok.mp h
          obtain ⟨cursor, hcursor, h⟩ := bind_ok.mp h
          have hread : graph.members type = some members := by
            cases hm : graph.members type with
            | none =>
              rw [hm] at hmembers
              cases hmembers
            | some out =>
              rw [hm] at hmembers
              cases hmembers
              rfl
          apply closeRecord_nested hread ?_ h
          have hrun := foldlM_ok_split
            (fun (pre : List (MemberRecord × Nat)) c =>
              MembersPlaced fuel graph abi fields members pre.length c)
            hcursor (membersPlaced_start hpack fields members) ?_
          · simpa using hrun
          · rintro pre ⟨member, position⟩ post u v hxs hu hv
            have hget : members.zipIdx[pre.length]? = some (member, position) := by
              rw [hxs, List.getElem?_append_right (Nat.le_refl _), Nat.sub_self]
              rfl
            simp only [List.getElem?_zipIdx, Nat.zero_add, Option.map_eq_some_iff,
              Prod.mk.injEq] at hget
            obtain ⟨_, hmember, rfl, rfl⟩ := hget
            rw [List.length_append]
            exact layoutMember_placed hpack (ih (active ++ [type])) hmember hu hv

end ServerEngine

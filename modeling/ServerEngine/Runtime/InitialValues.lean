import ServerEngine.Runtime.InitializerOverlay

/-! # Initial values

The loop over the initializers runs from the last field to the first, so a record is reached when all
that stands below it has its values. It ends early at an initializer that does not fit its member, and
at nothing else.
-/
namespace ServerEngine
open ErrorFold ConstructM Relation

variable {graph : ManagedGraphReader} {fields : List ManagedFieldLayout}

/-! ## One round -/

/-- What the initializer of a member has to be: one in braces fits the member, and a record has no
other. -/
def AcceptsInitializer (fuel : Nat) (graph : ManagedGraphReader) (target : AbiTarget)
    (member : MemberRecord) : Prop :=
  if member.construction.kind = .aggregate then
    ∃ init, parseAggregateInitializer (graph.string member.construction.operand) = some init ∧
      FitsMember fuel graph target member init
  else (heldRecord fuel graph target member).isSome = true → member.construction.kind = .zero

def ShapeFailure (failure : ConstructFailure) : Prop :=
  failure = .failed .notAvailable
      "Invalid aggregate initializer shape, too many elements or unsupported reference initializer" ∨
    failure = .failed .notAvailable "Nested record initialization requires braces"

/-- The fields from `k` on have been visited. -/
structure OverlaidFrom (graph : ManagedGraphReader) (fields now : List ManagedFieldLayout) (k : Nat) :
    Prop where
  plain : now.map plain = fields.map plain
  before : ∀ i < k, now.getD i {} = fields.getD i {}
  overlaid : ∀ i, k ≤ i → i < fields.length → (∀ p, k ≤ p → ¬ ChildOf fields p i) →
    Overlaid graph fields now i (bracesAt graph fields i)

theorem OverlaidFrom.bare {pack k : Nat} {now : List ManagedFieldLayout}
    (hn : Nested pack fields 0) (h : OverlaidFrom graph fields now (k + 1)) :
    Overlaid graph fields now k [] := by
  cases haggr : (fields.getD k {}).aggregate with
  | true =>
    rw [overlaid_record haggr]
    intro position hlt
    have hchild : ChildOf fields k ((fields.getD k {}).firstChild + position) :=
      ⟨haggr, Nat.le_add_right _ _, Nat.add_lt_add_left hlt _⟩
    obtain ⟨hlater, hin⟩ := hn.later (Nat.zero_le k) hchild
    apply h.overlaid _ hlater hin
    intro p hp hc
    have hpk := hn.parent (Nat.zero_le p) (Nat.zero_le k) hc hchild
    omega
  | false =>
    rw [overlaid_leaf haggr, h.before k (Nat.lt_succ_self k)]
    rfl

theorem OverlaidFrom.next {pack k : Nat} {now after : List ManagedFieldLayout}
    (hn : Nested pack fields 0) (h : OverlaidFrom graph fields now (k + 1))
    (hplain : after.map ServerEngine.plain = fields.map ServerEngine.plain)
    (hkeeps : KeepsOutside fields now after (· = k))
    (hover : Overlaid graph fields after k (bracesAt graph fields k)) :
    OverlaidFrom graph fields after k := by
  have hlater : ∀ i c, ChildOf fields i c → i < c := fun i c hc => (hn.later (Nat.zero_le i) hc).1
  refine ⟨hplain, ?_, ?_⟩
  · intro i hi
    rw [hkeeps i]
    · exact h.before i (by omega)
    · rintro j rfl hbelow
      have hle := RangeForest.le_of_encloses hlater hbelow
      omega
  · intro i hi hin horphan
    by_cases hik : i = k
    · rw [hik]
      exact hover
    · apply (h.overlaid i (by omega) hin fun p hp => horphan p (by omega)).congr
      intro j hj
      apply hkeeps
      rintro p rfl hbelow
      -- with a common descendant one of the two would enclose the other
      cases hn.comparable hj hbelow with
      | inl hik' =>
        have hle := RangeForest.le_of_encloses hlater hik'
        omega
      | inr hki =>
        cases reflTransGen_iff_eq_or_transGen.mp hki with
        | inl heq => exact hik heq
        | inr htrans =>
          obtain ⟨p', hp', hchild⟩ := TransGen.tail'_iff.mp htrans
          exact horphan p' (RangeForest.le_of_encloses hlater hp') hchild

section Round

variable {fuel : Nat} {target : AbiTarget} {pack k : Nat} {now : List ManagedFieldLayout}
  {member : MemberRecord}

theorem initializeField_outcome (hn : Nested pack fields 0) (hd : Declared fuel graph target fields 0)
    (h : OverlaidFrom graph fields now (k + 1)) (hk : k < fields.length)
    (hm : LaidFor fuel graph target member (fields.getD k {})) :
    (AcceptsInitializer fuel graph target member ∧ ∃ after,
        initializeField graph now k = .ok after ∧ OverlaidFrom graph fields after k) ∨
      (¬ AcceptsInitializer fuel graph target member ∧ ∃ failure,
        initializeField graph now k = .error failure ∧ ShapeFailure failure) := by
  have hbare := h.bare hn
  obtain ⟨hdeclares, hinitial⟩ := hm
  have hkeep : KeepsOutside fields now now (· = k) := fun _ _ => rfl
  rw [initializeField, h.before k (Nat.lt_succ_self k)]
  unfold AcceptsInitializer
  rw [← hinitial, hdeclares.heldRecord_eq]
  by_cases hkind : (fields.getD k {}).initial.kind = .aggregate
  · rw [if_pos hkind, if_pos hkind]
    have hbraces : bracesAt graph fields k = (parseAggregateInitializer
        (graph.string (fields.getD k {}).initial.operand)).toList := by
      rw [bracesAt, bracesOf, if_pos hkind]
    cases hparse : parseAggregateInitializer
        (graph.string (fields.getD k {}).initial.operand) with
    | none =>
      right
      exact ⟨by simp, _, rfl, .inl rfl⟩
    | some init =>
      rw [hparse] at hbraces
      have hfits := applyInitializer_fits hd init h.plain hdeclares
      simp only [Option.bind_some, Option.some.injEq, exists_eq_left']
      cases happly : applyInitializer now k init with
      | none =>
        rw [happly] at hfits
        right
        exact ⟨fun hf => by simpa using hfits.mpr hf, _, rfl, .inl rfl⟩
      | some after =>
        left
        obtain ⟨hover, hkeeps⟩ := applyInitializer_overlaid hn init h.plain hk hbare happly
        refine ⟨hfits.mp ⟨after, happly⟩, after, rfl,
          h.next hn ((applyInitializer_plain init happly).trans h.plain) hkeeps ?_⟩
        rw [hbraces]
        exact hover
  · rw [if_neg hkind, if_neg hkind]
    have hbraces : bracesAt graph fields k = [] := by
      rw [bracesAt, bracesOf, if_neg hkind]
    have hnext : OverlaidFrom graph fields now k := by
      apply h.next hn h.plain hkeep
      rw [hbraces]
      exact hbare
    cases haggr : (fields.getD k {}).aggregate with
    | false =>
      left
      exact ⟨by simp, now, by simp, hnext⟩
    | true =>
      obtain ⟨type, members, hnamed, -⟩ := hd k (Nat.zero_le k) haggr
      by_cases hzero : (fields.getD k {}).initial.kind = .zero
      · left
        refine ⟨fun _ => hzero, now, ?_, hnext⟩
        rw [hzero]
        rfl
      · right
        refine ⟨fun hz => hzero (hz ?_), _, ?_, .inr rfl⟩
        · rw [if_pos rfl, hnamed]
          rfl
        · rw [Bool.true_and, if_pos (decide_eq_true hzero)]
          rfl

end Round

section Loop

variable {fuel : Nat} {target : AbiTarget} {pack : Nat}

theorem initializeField_ok_iff {k : Nat} {now : List ManagedFieldLayout} {member : MemberRecord}
    (hn : Nested pack fields 0) (hd : Declared fuel graph target fields 0)
    (h : OverlaidFrom graph fields now (k + 1)) (hk : k < fields.length)
    (hm : LaidFor fuel graph target member (fields.getD k {})) :
    AcceptsInitializer fuel graph target member ↔
      ∃ after, initializeField graph now k = .ok after := by
  cases initializeField_outcome hn hd h hk hm with
  | inl hok => exact iff_of_true hok.1 ⟨_, hok.2.choose_spec.1⟩
  | inr hbad =>
    obtain ⟨hreject, failure, hfailure, -⟩ := hbad
    refine iff_of_false hreject ?_
    rintro ⟨after, hafter⟩
    rw [hfailure] at hafter
    cases hafter

theorem initializeFrom_outcome (hn : Nested pack fields 0) (hd : Declared fuel graph target fields 0)
    (hall : ∀ i < fields.length, ∃ member, LaidFor fuel graph target member (fields.getD i {}))
    (k : Nat) (now : List ManagedFieldLayout) (hk : k ≤ fields.length)
    (h : OverlaidFrom graph fields now k) :
    ((∀ i < k, ∀ member, LaidFor fuel graph target member (fields.getD i {}) →
        AcceptsInitializer fuel graph target member) ∧
      ∃ after, (List.range k).reverse.foldlM (initializeField graph) now = .ok after ∧
        OverlaidFrom graph fields after 0) ∨
    ((∃ i < k, ∃ member, LaidFor fuel graph target member (fields.getD i {}) ∧
        ¬ AcceptsInitializer fuel graph target member) ∧
      ∃ failure, (List.range k).reverse.foldlM (initializeField graph) now = .error failure ∧
        ShapeFailure failure) := by
  induction k generalizing now with
  | zero => exact .inl ⟨fun i hi => absurd hi (Nat.not_lt_zero i), now, rfl, h⟩
  | succ k ih =>
    obtain ⟨member, hm⟩ := hall k hk
    rw [List.range_succ, List.reverse_append, List.reverse_singleton, List.singleton_append,
      List.foldlM_cons]
    cases initializeField_outcome hn hd h hk hm with
    | inl hok =>
      obtain ⟨-, mid, hmid, hnext⟩ := hok
      rw [hmid]
      have haccepts : ∀ member, LaidFor fuel graph target member (fields.getD k {}) →
          AcceptsInitializer fuel graph target member :=
        fun member hm => (initializeField_ok_iff hn hd h hk hm).mpr ⟨mid, hmid⟩
      cases ih mid (Nat.le_of_succ_le hk) hnext with
      | inl hrest =>
        refine .inl ⟨fun i hi member hm => ?_, hrest.2⟩
        by_cases hik : i = k
        · rw [hik] at hm
          exact haccepts member hm
        · exact hrest.1 i (by omega) member hm
      | inr hrest =>
        obtain ⟨⟨i, hi, hreject⟩, hfailure⟩ := hrest
        exact .inr ⟨⟨i, Nat.lt_succ_of_lt hi, hreject⟩, hfailure⟩
    | inr hbad =>
      obtain ⟨hreject, failure, hfailure, hshape⟩ := hbad
      rw [hfailure]
      exact .inr ⟨⟨k, Nat.lt_succ_self k, member, hm, hreject⟩, failure, rfl, hshape⟩

theorem overlaidFrom_start : OverlaidFrom graph fields fields fields.length := by
  refine ⟨rfl, fun _ _ => rfl, fun i hi hin => ?_⟩
  omega

end Loop

/-! ## Members of the Graph and fields -/

inductive Occurs (fuel : Nat) (graph : ManagedGraphReader) (target : AbiTarget) :
    MemberRecord → Prop
  | object {index : Nat} {entry : ObjectEntry} {type : TypeHandle} {members : List MemberRecord}
      {member : MemberRecord} : index < graph.objectSlotCount →
      graph.findObject (graph.objectAt index) = some entry → graph.named entry.type = some type →
      graph.members type = some members → member ∈ members → Occurs fuel graph target member
  | nested {outer member : MemberRecord} {type : TypeHandle} {members : List MemberRecord} :
      Occurs fuel graph target outer → heldRecord fuel graph target outer = some type →
      graph.members type = some members → member ∈ members → Occurs fuel graph target member

section Fields

variable {fuel : Nat} {abi : AbiConfiguration} {c : ObjectCursor}

theorem MembersAt.member {target : AbiTarget} {type : TypeHandle} {first count i : Nat}
    {members : List MemberRecord} (h : MembersAt fuel graph target fields type first count members)
    (hlow : first ≤ i) (hhigh : i < first + count) :
    ∃ member ∈ members, LaidFor fuel graph target member (fields.getD i {}) := by
  have hcount := h.count
  have hlt : i - first < members.length := by omega
  refine ⟨members[i - first], List.getElem_mem hlt, ?_⟩
  have hlaid := h.each (i - first) _ (List.getElem?_eq_getElem hlt)
  rwa [show first + (i - first) = i by omega] at hlaid

theorem ObjectsNested.occurs (hc : ObjectsNested fuel graph abi c) {i : Nat}
    (hi : i < c.fieldLayouts.length) : ∃ member, Occurs fuel graph abi.target member ∧
      LaidFor fuel graph abi.target member (c.fieldLayouts.getD i {}) := by
  obtain ⟨object, hobject, j, hlow, hhigh, hchain⟩ := hc.owned hi
  clear hi
  induction hchain with
  | refl =>
    obtain ⟨entry, type, members, hfind, hnamed, hat⟩ := (hc.object object hobject).record
    obtain ⟨index, hindex, hhandle⟩ := hc.source object hobject
    obtain ⟨member, hmember, hlaid⟩ := hat.member hlow hhigh
    rw [← hhandle] at hfind
    exact ⟨member, .object hindex hfind hnamed hat.read hmember, hlaid⟩
  | tail _ hstep ih =>
    obtain ⟨outer, houter, hlaid⟩ := ih
    obtain ⟨type, members, hnamed, hat⟩ := hc.declared _ (Nat.zero_le _) hstep.1
    obtain ⟨member, hmember, hinner⟩ := hat.member hstep.2.1 hstep.2.2
    have hheld := hlaid.1.heldRecord_eq
    rw [if_pos hstep.1, hnamed] at hheld
    exact ⟨member, .nested houter hheld hat.read hmember, hinner⟩

theorem ObjectsNested.field_of_occurs (hc : ObjectsNested fuel graph abi c)
    (ht : ObjectTable graph c) {member : MemberRecord}
    (h : Occurs fuel graph abi.target member) : ∃ i < c.fieldLayouts.length,
      LaidFor fuel graph abi.target member (c.fieldLayouts.getD i {}) := by
  induction h with
  | object hindex hfind hnamed hread hmember =>
    obtain ⟨object, hobject, hhandle⟩ := ht.laid _ hindex (by rw [hfind]; rfl)
    have hnested := hc.object object hobject
    obtain ⟨entry', type', members', hfind', hnamed', hat⟩ := hnested.record
    rw [hhandle, hfind] at hfind'
    cases hfind'
    rw [hnamed] at hnamed'
    cases hnamed'
    have hsame := hat.read
    rw [hread] at hsame
    cases hsame
    obtain ⟨k, hk⟩ := List.getElem?_of_mem hmember
    have hlt := (List.getElem?_eq_some_iff.mp hk).1
    have hroom := hnested.room
    have hcount := hat.count
    exact ⟨object.firstField + k, by omega, hat.each k _ hk⟩
  | nested _ hheld hread hmember ih =>
    obtain ⟨i, hi, hlaid⟩ := ih
    rw [hlaid.1.heldRecord_eq] at hheld
    split at hheld
    · rename_i haggr
      obtain ⟨type', members', hnamed', hat⟩ := hc.declared i (Nat.zero_le i) haggr
      rw [hheld] at hnamed'
      cases hnamed'
      have hsame := hat.read
      rw [hread] at hsame
      cases hsame
      obtain ⟨k, hk⟩ := List.getElem?_of_mem hmember
      have hlt := (List.getElem?_eq_some_iff.mp hk).1
      have hcount := hat.count
      have hchild : ChildOf c.fieldLayouts i ((c.fieldLayouts.getD i {}).firstChild + k) :=
        ⟨haggr, Nat.le_add_right _ _, by omega⟩
      exact ⟨_, (hc.nested.later (Nat.zero_le i) hchild).2, hat.each k _ hk⟩
    · cases hheld

theorem Leads.concat {i j last : Nat} {path : List Nat} (h : Leads fields i path j)
    (haggr : (fields.getD j {}).aggregate = true) (hlast : last < (fields.getD j {}).childCount) :
    Leads fields i (path ++ [last]) ((fields.getD j {}).firstChild + last) := by
  induction path generalizing i with
  | nil =>
    obtain rfl : i = j := h
    exact ⟨haggr, hlast, rfl⟩
  | cons position path ih => exact ⟨h.1, h.2.1, ih h.2.2⟩

theorem leads_of_field {r : ManagedRuntime} (h : FilledFrom graph r c) {endpoint : ObjectEndpoint}
    {path : List Nat} {j : Nat} (hj : r.field endpoint path = some j) :
    ∃ i, r.field endpoint [] = some i ∧ Leads c.fieldLayouts i path j ∧
      ∀ position ∈ path, position ≠ invalidMember := by
  induction path using List.reverseRecOn generalizing j with
  | nil => exact ⟨j, hj, rfl, fun _ hmem => absurd hmem List.not_mem_nil⟩
  | append_singleton path last ih =>
    obtain ⟨p, hp, hchild, hvalid, rfl⟩ := childOf_of_concat hj
    obtain ⟨i, hi, hleads, hall⟩ := ih hp
    obtain ⟨value, hat⟩ := getD_plain h.fields p
    obtain ⟨haggr, -, hcount⟩ := (childOf_plain h.fields).mp hchild
    rw [hat] at hcount ⊢
    refine ⟨i, hi, hleads.concat haggr (Nat.lt_of_add_lt_add_left hcount), ?_⟩
    intro position hmem
    cases List.mem_append.mp hmem with
    | inl hmem => exact hall position hmem
    | inr hmem =>
      rw [List.mem_singleton.mp hmem]
      exact hvalid

theorem initialOf_eq_overlay {target : AbiTarget} (hd : Declared fuel graph target fields 0)
    {member : MemberRecord} {i j : Nat} {inits : List AggregateInitializer} {path : List Nat}
    (hm : LaidFor fuel graph target member (fields.getD i {})) (h : Leads fields i path j)
    (hvalid : ∀ position ∈ path, position ≠ invalidMember) :
    initialOf fuel graph target member inits path = some (overlay graph fields i inits path) := by
  induction path generalizing i member inits with
  | nil => rw [initialOf, overlay, hm.2]
  | cons position path ih =>
    obtain ⟨haggr, hlt, hrest⟩ := h
    obtain ⟨type, members, hnamed, hat⟩ := hd i (Nat.zero_le i) haggr
    have hheld := hm.1.heldRecord_eq
    rw [if_pos haggr, hnamed] at hheld
    have hcount := hat.count
    have hget : members[position]? = some members[position] := List.getElem?_eq_getElem (by omega)
    have hdirect : directMember graph type position = some members[position] :=
      (directMember_eq_some hat.read).mpr ⟨hvalid position List.mem_cons_self, hget⟩
    have hinner := hat.each position _ hget
    rw [initialOf, hheld, Option.bind_some, hdirect, Option.bind_some, overlay, bracesAt, hinner.2]
    exact ih hinner hrest fun p hp => hvalid p (List.mem_cons_of_mem _ hp)

end Fields

/-! ## Construction -/

def initialAt (fuel : Nat) (graph : ManagedGraphReader) (target : AbiTarget)
    (endpoint : ObjectEndpoint) (path : List Nat) : Option ConstructionValue :=
  (memberAt fuel graph target endpoint []).bind fun member =>
    initialOf fuel graph target member (bracesOf graph member.construction) path

theorem acceptsInitializer_congr {fuel : Nat} {target : AbiTarget} {i : Nat} {m m' : MemberRecord}
    (hd : Declared fuel graph target fields 0) (hm : LaidFor fuel graph target m (fields.getD i {}))
    (hm' : LaidFor fuel graph target m' (fields.getD i {})) :
    AcceptsInitializer fuel graph target m ↔ AcceptsInitializer fuel graph target m' := by
  have hfits : ∀ init, FitsMember fuel graph target m init ↔ FitsMember fuel graph target m' init :=
    fun init => (applyInitializer_fits hd init rfl hm.1).symm.trans
      (applyInitializer_fits hd init rfl hm'.1)
  unfold AcceptsInitializer
  rw [← hm.2, ← hm'.2, hm.1.heldRecord_eq, hm'.1.heldRecord_eq]
  simp only [hfits]

theorem initializeFields_outcome {fuel : Nat} {abi : AbiConfiguration} {layout : ObjectCursor}
    (hc : ObjectsNested fuel graph abi layout) (ht : ObjectTable graph layout) :
    ((∀ member, Occurs fuel graph abi.target member →
        AcceptsInitializer fuel graph abi.target member) ∧
      ∃ after, initializeFields graph layout.fieldLayouts = .ok after ∧
        OverlaidFrom graph layout.fieldLayouts after 0) ∨
    ((∃ member, Occurs fuel graph abi.target member ∧
        ¬ AcceptsInitializer fuel graph abi.target member) ∧
      ∃ failure, initializeFields graph layout.fieldLayouts = .error failure ∧
        ShapeFailure failure) := by
  have hall : ∀ i < layout.fieldLayouts.length, ∃ member,
      LaidFor fuel graph abi.target member (layout.fieldLayouts.getD i {}) := by
    intro i hi
    obtain ⟨member, -, hlaid⟩ := hc.occurs hi
    exact ⟨member, hlaid⟩
  cases initializeFrom_outcome hc.nested hc.declared hall layout.fieldLayouts.length
      layout.fieldLayouts (Nat.le_refl _) overlaidFrom_start with
  | inl hok =>
    refine .inl ⟨fun member hmember => ?_, hok.2⟩
    obtain ⟨i, hi, hlaid⟩ := hc.field_of_occurs ht hmember
    exact hok.1 i hi member hlaid
  | inr hbad =>
    obtain ⟨⟨i, hi, member, hlaid, hreject⟩, hfailure⟩ := hbad
    obtain ⟨member', hoccurs, hlaid'⟩ := hc.occurs hi
    refine .inr ⟨⟨member', hoccurs, ?_⟩, hfailure⟩
    rwa [acceptsInitializer_congr hc.declared hlaid' hlaid]

/-- The leaves have the values that their initializers mean, and the initializers are rejected exactly
when one of them does not fit its member. -/
theorem construct_initial_values (fuel : Nat) (graph : ManagedGraphReader) (abi : AbiConfiguration) :
    (∀ r, ManagedRuntime.construct fuel graph abi = .ok r → ∀ endpoint path i,
      r.field endpoint path = some i → (r.fieldLayouts.getD i {}).aggregate = false →
        initialAt fuel graph abi.target endpoint path = some (r.fieldLayouts.getD i {}).initial) ∧
    (∀ layout, abi.supported = true → layoutObjects fuel graph abi = .ok layout →
      ((∀ member, Occurs fuel graph abi.target member →
          AcceptsInitializer fuel graph abi.target member) ↔
        ∃ fields, initializeFields graph layout.fieldLayouts = .ok fields) ∧
      ∀ failure, initializeFields graph layout.fieldLayouts = .error failure →
        ShapeFailure failure ∧ ManagedRuntime.construct fuel graph abi = .error failure) := by
  constructor
  · intro r h endpoint path j hj hleaf
    obtain ⟨c, hfilled, hnested, htable⟩ := construct_filledFrom h
    cases initializeFields_outcome hnested htable with
    | inr hbad =>
      obtain ⟨-, failure, hfailure, -⟩ := hbad
      rw [hfilled.initialized] at hfailure
      cases hfailure
    | inl hok =>
      obtain ⟨-, after, hafter, hover⟩ := hok
      rw [hfilled.initialized] at hafter
      obtain rfl := Except.ok.inj hafter
      obtain ⟨i, hi, hleads, hvalid⟩ := leads_of_field hfilled hj
      obtain ⟨hlt, hroot, member, hmember, hlaid⟩ := hfilled.root hnested hi
      obtain ⟨value, hat⟩ := getD_plain hfilled.fields j
      have hleaf' : (c.fieldLayouts.getD j {}).aggregate = false := by
        rw [hat] at hleaf
        exact hleaf
      have hvalue := hover.overlaid i (Nat.zero_le i) hlt (fun p _ => hroot p) path j hleads hleaf'
      rw [initialAt, hmember, Option.bind_some, hvalue,
        initialOf_eq_overlay hnested.declared hlaid hleads hvalid, bracesAt, hlaid.2]
  · intro layout habi hlayout
    obtain ⟨hnested, htable⟩ :=
      layoutObjects_nested (AbiConfiguration.supported_packValue habi) hlayout
    have hconstruct : ∀ failure, initializeFields graph layout.fieldLayouts = .error failure →
        ManagedRuntime.construct fuel graph abi = .error failure := by
      intro failure hfailure
      simp [ManagedRuntime.construct, habi, hlayout, hfailure, bind, Except.bind]
    cases initializeFields_outcome hnested htable with
    | inl hok =>
      obtain ⟨haccepts, after, hafter, -⟩ := hok
      refine ⟨iff_of_true haccepts ⟨after, hafter⟩, fun failure hfailure => ?_⟩
      rw [hafter] at hfailure
      cases hfailure
    | inr hbad =>
      obtain ⟨⟨member, hmember, hreject⟩, failure, hfailure, hshape⟩ := hbad
      refine ⟨iff_of_false (fun hall => hreject (hall member hmember)) ?_, fun failure' h => ?_⟩
      · rintro ⟨fields, hfields⟩
        rw [hfailure] at hfields
        cases hfields
      · refine ⟨?_, hconstruct failure' h⟩
        rw [hfailure] at h
        cases h
        exact hshape

/-- `struct Inner { int a = 1; int b = 2; int c{3}; }; struct Outer { Inner inner{5, {}}; };` with one
object. -/
def overriddenDefaults : ManagedGraphReader :=
  .ofGraph
    { Graph.empty with
      types := [{ definition := ⟨1, 3⟩, live := true }, { definition := ⟨4, 1⟩, live := true }]
      memberRecords :=
        [{ type := 1, construction := .constant .unsignedInteger 1 },
          { type := 1, construction := .constant .unsignedInteger 2 },
          { type := 1, construction := { operand := 1, kind := .aggregate } },
          { type := 2, construction := { operand := 2, kind := .aggregate } }]
      objectEntries := [{ type := 3, live := true }]
      canonicalTypes :=
        [{}, { kind := .intrinsic, detail := IntrinsicType.signedInt.code },
          { kind := .named, childOrHandle := 1 }, { kind := .named, childOrHandle := 2 }] }
    fun id => asciiBytes (if id = 1 then "{3}" else "{5, {}}")

example : (ManagedRuntime.construct 2 overriddenDefaults {}).map (fun r =>
    [0, 1, 2].map fun i => r.readInteger ⟨1, 0⟩ [i]) = .ok [.ok 5, .ok 0, .ok 3] := by decide +kernel

end ServerEngine

import ServerEngine.Runtime.InitializerBytes
import ServerEngine.Runtime.MemberPaths

/-! # The overlay of initializers

What the loop over the initializers computes. Read from the outside in, the first initializer that
says anything about a leaf decides its value; the loop runs from the inside out and lets each list
overwrite what it supplies.
-/
namespace ServerEngine
open ErrorFold ConstructM Relation

/-! ## The meaning, from the outside in -/

def element (position : Nat) : AggregateInitializer → Option AggregateInitializer
  | .scalar _ => none
  | .list children => children[position]?

def decided (inits : List AggregateInitializer) (default : ConstructionValue) : ConstructionValue :=
  match inits with
  | [] => default
  | init :: _ => braced init

def bracesOf (graph : ManagedGraphReader) (value : ConstructionValue) : List AggregateInitializer :=
  if value.kind = .aggregate then (parseAggregateInitializer (graph.string value.operand)).toList
  else []

/-- The initial value of the leaf that `path` names in `member`, under the initializers of the member
and of the records around it, outermost first. -/
def initialOf (fuel : Nat) (graph : ManagedGraphReader) (target : AbiTarget) :
    MemberRecord → List AggregateInitializer → List Nat → Option ConstructionValue
  | member, inits, [] => some (decided inits member.construction)
  | member, inits, position :: path =>
    (heldRecord fuel graph target member).bind fun type =>
      (directMember graph type position).bind fun inner =>
        initialOf fuel graph target inner
          (inits.filterMap (element position) ++ bracesOf graph inner.construction) path

variable {graph : ManagedGraphReader} {fields : List ManagedFieldLayout}

/-- `path` leads from field `i` to field `j`. -/
def Leads (fields : List ManagedFieldLayout) : Nat → List Nat → Nat → Prop
  | i, [], j => i = j
  | i, position :: path, j => (fields.getD i {}).aggregate = true ∧
      position < (fields.getD i {}).childCount ∧
        Leads fields ((fields.getD i {}).firstChild + position) path j

def bracesAt (graph : ManagedGraphReader) (fields : List ManagedFieldLayout) (i : Nat) :
    List AggregateInitializer :=
  bracesOf graph (fields.getD i {}).initial

/-- `initialOf` for the fields as they are laid out. -/
def overlay (graph : ManagedGraphReader) (fields : List ManagedFieldLayout) :
    Nat → List AggregateInitializer → List Nat → ConstructionValue
  | i, inits, [] => decided inits (fields.getD i {}).initial
  | i, inits, position :: path =>
    let c := (fields.getD i {}).firstChild + position
    overlay graph fields c (inits.filterMap (element position) ++ bracesAt graph fields c) path

/-- The leaves below field `i` have the values that the initializers give them. -/
def Overlaid (graph : ManagedGraphReader) (fields now : List ManagedFieldLayout) (i : Nat)
    (inits : List AggregateInitializer) : Prop :=
  ∀ path j, Leads fields i path j → (fields.getD j {}).aggregate = false →
    (now.getD j {}).initial = overlay graph fields i inits path

variable {i j : Nat}

theorem Leads.below {path : List Nat} (h : Leads fields i path j) :
    ReflTransGen (ChildOf fields) i j := by
  induction path generalizing i with
  | nil => rw [show i = j from h]
  | cons position path ih =>
    obtain ⟨haggr, hlt, h⟩ := h
    refine (ih h).head ⟨haggr, Nat.le_add_right _ _, Nat.add_lt_add_left hlt _⟩

variable {now : List ManagedFieldLayout} {inits : List AggregateInitializer}

theorem overlaid_record (haggr : (fields.getD i {}).aggregate = true) :
    Overlaid graph fields now i inits ↔ ∀ position < (fields.getD i {}).childCount,
      Overlaid graph fields now ((fields.getD i {}).firstChild + position)
        (inits.filterMap (element position) ++
          bracesAt graph fields ((fields.getD i {}).firstChild + position)) := by
  constructor
  · intro h position hlt path j hj hleaf
    exact h (position :: path) j ⟨haggr, hlt, hj⟩ hleaf
  · intro h path j hj hleaf
    cases path with
    | nil =>
      rw [show i = j from hj, hleaf] at haggr
      cases haggr
    | cons position path => exact h position hj.2.1 path j hj.2.2 hleaf

theorem overlaid_leaf (haggr : (fields.getD i {}).aggregate = false) :
    Overlaid graph fields now i inits ↔
      (now.getD i {}).initial = decided inits (fields.getD i {}).initial := by
  constructor
  · exact fun h => h [] i rfl haggr
  · intro h path j hj hleaf
    cases path with
    | nil =>
      obtain rfl : i = j := hj
      exact h
    | cons position path =>
      have hrecord : (fields.getD i {}).aggregate = true := hj.1
      rw [haggr] at hrecord
      cases hrecord

theorem Overlaid.congr {now after : List ManagedFieldLayout} {i : Nat}
    {inits : List AggregateInitializer} (h : Overlaid graph fields now i inits)
    (hsame : ∀ j, ReflTransGen (ChildOf fields) i j → after.getD j {} = now.getD j {}) :
    Overlaid graph fields after i inits := by
  intro path j hj hleaf
  rw [hsame j hj.below]
  exact h path j hj hleaf

/-! ## One initializer -/

def KeepsOutside (fields now after : List ManagedFieldLayout) (inside : Nat → Prop) : Prop :=
  ∀ j, (∀ i, inside i → ¬ ReflTransGen (ChildOf fields) i j) → after.getD j {} = now.getD j {}

theorem length_of_plain (h : now.map plain = fields.map plain) : now.length = fields.length := by
  have hlen := congrArg List.length h
  simpa using hlen

theorem setInitial_overlaid {init : AggregateInitializer} {value : ConstructionValue}
    (hlen : now.length = fields.length) (hi : i < fields.length)
    (haggr : (fields.getD i {}).aggregate = false) (hvalue : braced init = value) :
    Overlaid graph fields (setInitial now i value) i (init :: inits) ∧
      KeepsOutside fields now (setInitial now i value) (· = i) := by
  constructor
  · rw [overlaid_leaf haggr, getD_setInitial, if_pos ⟨rfl, by omega⟩]
    exact hvalue.symm
  · intro j hj
    rw [getD_setInitial, if_neg]
    rintro ⟨rfl, -⟩
    exact hj i rfl .refl

variable {pack x : Nat}

theorem Nested.siblings_disjoint (hn : Nested pack fields 0) {c d : Nat} (hc : ChildOf fields i c)
    (hd : ChildOf fields i d) (hne : c ≠ d) (hx : ReflTransGen (ChildOf fields) c x) :
    ¬ ReflTransGen (ChildOf fields) d x :=
  RangeForest.siblings_disjoint (fun _ _ _ ha hb => hn.parent (Nat.zero_le _) (Nat.zero_le _) ha hb)
    (fun _ _ ha => (hn.later (Nat.zero_le _) ha).1) hc hd hne hx

theorem Nested.comparable (hn : Nested pack fields 0) (hi : ReflTransGen (ChildOf fields) i x)
    (hj : ReflTransGen (ChildOf fields) j x) :
    ReflTransGen (ChildOf fields) i j ∨ ReflTransGen (ChildOf fields) j i :=
  RangeForest.comparable (fun _ _ _ ha hb => hn.parent (Nat.zero_le _) (Nat.zero_le _) ha hb) hi hj

variable {children : List AggregateInitializer}

theorem overlaid_list (hn : Nested pack fields 0) {out : List ManagedFieldLayout}
    (haggr : (fields.getD i {}).aggregate = true)
    (hcount : children.length ≤ (fields.getD i {}).childCount)
    (hbefore : Overlaid graph fields now i inits)
    (hafter : ∀ k init, children[k]? = some init → Overlaid graph fields out ((fields.getD i {}).firstChild + k) (init :: (inits.filterMap (element k) ++ bracesAt graph fields ((fields.getD i {}).firstChild + k))))
    (hkeeps : KeepsOutside fields now out fun j => (fields.getD i {}).firstChild ≤ j ∧ j < (fields.getD i {}).firstChild + children.length) :
    Overlaid graph fields (setInitial out i {}) i (.list children :: inits) ∧
      KeepsOutside fields now (setInitial out i {}) (· = i) := by
  have hchild : ∀ k, k < (fields.getD i {}).childCount →
      ChildOf fields i ((fields.getD i {}).firstChild + k) :=
    fun k hk => ⟨haggr, Nat.le_add_right _ _, Nat.add_lt_add_left hk _⟩
  have hset : ∀ j, j ≠ i → (setInitial out i {}).getD j {} = out.getD j {} := by
    intro j hj
    rw [getD_setInitial, if_neg fun h => hj h.1.symm]
  constructor
  · rw [overlaid_record haggr] at hbefore ⊢
    intro k hk
    -- the record's own slot is not below its member
    have hself : ∀ j, ReflTransGen (ChildOf fields) ((fields.getD i {}).firstChild + k) j →
        (setInitial out i {}).getD j {} = out.getD j {} := by
      intro j hj
      apply hset
      rintro rfl
      have hle := RangeForest.le_of_encloses (fun _ _ hc => (hn.later (Nat.zero_le _) hc).1) hj
      have hlt := (hn.later (Nat.zero_le _) (hchild k hk)).1
      omega
    by_cases hsupplied : k < children.length
    · have hget : element k (.list children) = some children[k] :=
        List.getElem?_eq_getElem hsupplied
      have hthis := (hafter k _ hget).congr hself
      rw [List.filterMap_cons_some hget]
      exact hthis
    · have hget : element k (.list children) = none :=
        List.getElem?_eq_none (Nat.le_of_not_lt hsupplied)
      rw [List.filterMap_cons_none hget]
      apply (hbefore k hk).congr
      intro j hj
      rw [hself j hj]
      apply hkeeps
      rintro c ⟨hlow, hhigh⟩
      apply hn.siblings_disjoint (hchild k hk) ⟨haggr, hlow, by omega⟩ (by omega) hj
  · intro j hj
    have hne : j ≠ i := by
      rintro rfl
      exact hj j rfl .refl
    rw [hset j hne]
    apply hkeeps
    rintro c ⟨hlow, hhigh⟩ hbelow
    exact hj i rfl (hbelow.head ⟨haggr, hlow, by omega⟩)

mutual

theorem applyInitializer_overlaid {pack : Nat} (hn : Nested pack fields 0)
    {now after : List ManagedFieldLayout} {i : Nat} {inits : List AggregateInitializer} :
    ∀ init, now.map plain = fields.map plain → i < fields.length →
      Overlaid graph fields now i inits → applyInitializer now i init = some after →
        Overlaid graph fields after i (init :: inits) ∧ KeepsOutside fields now after (· = i)
  | .scalar value, hplain, hi, _, h => by
    obtain ⟨old, hat⟩ := getD_plain hplain i
    rw [applyInitializer, hat] at h
    dsimp only at h
    split at h
    · cases h
    · rename_i hscalar
      cases h
      simp only [Bool.or_eq_true, not_or] at hscalar
      exact setInitial_overlaid (length_of_plain hplain) hi (by simpa using hscalar.1) rfl
  | .list children, hplain, hi, hbefore, h => by
    obtain ⟨old, hat⟩ := getD_plain hplain i
    cases haggr : (fields.getD i {}).aggregate with
    | true =>
      rw [applyInitializer_list, hat, if_pos haggr] at h
      split at h
      · cases h
      · rename_i hlong
        have hcount : children.length ≤ (fields.getD i {}).childCount := Nat.le_of_not_lt hlong
        obtain ⟨out, hout, rfl⟩ := Option.map_eq_some_iff.mp h
        have hchild : ∀ k, k < children.length →
            ChildOf fields i ((fields.getD i {}).firstChild + k) :=
          fun k hk => ⟨haggr, Nat.le_add_right _ _, Nat.add_lt_add_left (by omega) _⟩
        have heach := (overlaid_record haggr).mp hbefore
        have happly := applyChildren_overlaid hn children hplain
          (fun k hk => (hn.later (Nat.zero_le i) (hchild k hk)).2)
          (fun k l x hk hl hne hx =>
            hn.siblings_disjoint (hchild k hk) (hchild l hl) (by omega) hx)
          (fun k hk => heach k (by omega)) hout
        exact overlaid_list hn haggr hcount hbefore happly.1 happly.2
    | false =>
      have hleaf : (now.getD i {}).aggregate = false := by
        rw [hat]
        exact haggr
      obtain rfl := applyInitializer_leaf hleaf (.list children) h
      exact setInitial_overlaid (length_of_plain hplain) hi haggr rfl

theorem applyChildren_overlaid {pack : Nat} (hn : Nested pack fields 0)
    {now after : List ManagedFieldLayout} {index : Nat}
    {inits : Nat → List AggregateInitializer} :
    ∀ children, now.map plain = fields.map plain →
      (∀ k < children.length, index + k < fields.length) →
      (∀ k l x, k < children.length → l < children.length → k ≠ l →
        ReflTransGen (ChildOf fields) (index + k) x →
          ¬ ReflTransGen (ChildOf fields) (index + l) x) →
      (∀ k < children.length, Overlaid graph fields now (index + k) (inits k)) →
        applyChildren now index children = some after →
      (∀ k init, children[k]? = some init →
          Overlaid graph fields after (index + k) (init :: inits k)) ∧
        KeepsOutside fields now after (fun i => index ≤ i ∧ i < index + children.length)
  | [], _, _, _, _, h => by
    cases h
    exact ⟨fun k init hk => by simp at hk, fun j _ => rfl⟩
  | child :: rest, hplain, hin, hapart, hbefore, h => by
    rw [applyChildren] at h
    split at h
    · cases h
    · rename_i mid hmid
      have hzero : 0 < (child :: rest).length := Nat.succ_pos _
      obtain ⟨hfirst, hkeeps⟩ :=
        applyInitializer_overlaid hn child hplain (hin 0 hzero) (hbefore 0 hzero) hmid
      have hmidPlain := (applyInitializer_plain child hmid).trans hplain
      have hshift : ∀ k, index + 1 + k = index + (k + 1) := fun k => by omega
      have happly : (∀ k init, rest[k]? = some init →
          Overlaid graph fields after (index + 1 + k) (init :: inits (k + 1))) ∧
          KeepsOutside fields mid after
            (fun i => index + 1 ≤ i ∧ i < index + 1 + rest.length) :=
        applyChildren_overlaid hn rest hmidPlain
        (fun k hk => by
          rw [hshift]
          exact hin (k + 1) (Nat.succ_lt_succ hk))
        (fun k l x hk hl hne => by
          rw [hshift, hshift]
          exact hapart (k + 1) (l + 1) x (Nat.succ_lt_succ hk) (Nat.succ_lt_succ hl) (by omega))
        (fun k hk => by
          rw [hshift]
          apply (hbefore (k + 1) (Nat.succ_lt_succ hk)).congr
          intro j hj
          apply hkeeps
          rintro i rfl
          exact hapart (k + 1) 0 j (Nat.succ_lt_succ hk) hzero (by omega) hj)
        h
      obtain ⟨hrest, hkeeps'⟩ := happly
      constructor
      · intro k init hk
        cases k with
        | zero =>
          cases hk
          apply hfirst.congr
          intro j hj
          apply hkeeps'
          rintro i ⟨hlow, hhigh⟩
          have hthis := hapart 0 (i - index) j hzero
            (by rw [List.length_cons]; omega) (by omega) hj
          rwa [show index + (i - index) = i by omega] at hthis
        | succ k =>
          have hthis := hrest k init hk
          rwa [hshift] at hthis
      · intro j hj
        rw [List.length_cons] at hj
        rw [hkeeps' j fun i hi => hj i (by omega)]
        exact hkeeps j fun i hi => hj i (by omega)

end

/-! ## Initializers that fit -/

mutual

/-- The shape of an initializer is that of the member: a list with at most one element for each
member of its record, or for a scalar a value in any number of braces, and nothing explicit for a
reference. -/
def FitsMember (fuel : Nat) (graph : ManagedGraphReader) (target : AbiTarget)
    (member : MemberRecord) : AggregateInitializer → Prop
  | .scalar _ => ∃ scalar, scalarLayout fuel graph member.type target {} = .ok (some scalar) ∧
      scalar.reference = false
  | .list children =>
    match heldRecord fuel graph target member with
    | some type => ∃ members, graph.members type = some members ∧
        FitsMembers fuel graph target members children
    | none => match children with
      | [] => True
      | [child] => FitsMember fuel graph target member child
      | _ => False

def FitsMembers (fuel : Nat) (graph : ManagedGraphReader) (target : AbiTarget)
    (members : List MemberRecord) : List AggregateInitializer → Prop
  | [] => True
  | child :: rest =>
    match members with
    | [] => False
    | member :: members =>
      FitsMember fuel graph target member child ∧ FitsMembers fuel graph target members rest

end

variable {fuel : Nat} {target : AbiTarget} {member : MemberRecord}

theorem fitsMember_list : FitsMember fuel graph target member (.list children) ↔
      match heldRecord fuel graph target member with
      | some type => ∃ members, graph.members type = some members ∧
          FitsMembers fuel graph target members children
      | none => match children with
        | [] => True
        | [child] => FitsMember fuel graph target member child
        | _ => False := by
  rw [FitsMember.eq_def]

theorem FitsMembers.length_le {members : List MemberRecord}
    (h : FitsMembers fuel graph target members children) : children.length ≤ members.length := by
  induction children generalizing members with
  | nil => exact Nat.zero_le _
  | cons child rest ih =>
    cases members with
    | nil =>
      rw [FitsMembers] at h
      exact h.elim
    | cons member members =>
      rw [FitsMembers] at h
      exact Nat.succ_le_succ (ih h.2)

theorem Declares.scalar_iff {f : ManagedFieldLayout} (h : Declares fuel graph target member f) :
    (f.aggregate = false ∧ f.reference = false) ↔
      ∃ scalar, scalarLayout fuel graph member.type target {} = .ok (some scalar) ∧
        scalar.reference = false := by
  unfold Declares at h
  cases hs : scalarLayout fuel graph member.type target {} with
  | error e =>
    rw [hs] at h
    exact h.elim
  | ok scalar =>
    rw [hs] at h
    cases scalar with
    | some like =>
      have hplaced : f = placedAs like f := h
      have haggr := (scalarLayout_ok rfl rfl hs).1
      rw [hplaced]
      show like.aggregate = false ∧ like.reference = false ↔ _
      simp [haggr]
    | none => simp [h.1]

mutual

theorem applyInitializer_fits {fuel : Nat} {target : AbiTarget}
    (hd : Declared fuel graph target fields 0) {now : List ManagedFieldLayout} {i : Nat} {member : MemberRecord} :
    ∀ init, now.map plain = fields.map plain →
      Declares fuel graph target member (fields.getD i {}) →
        ((∃ after, applyInitializer now i init = some after) ↔
          FitsMember fuel graph target member init)
  | .scalar value, hplain, hmember => by
    obtain ⟨old, hat⟩ := getD_plain hplain i
    rw [applyInitializer, hat, FitsMember, ← hmember.scalar_iff]
    cases haggr : (fields.getD i {}).aggregate <;> cases href : (fields.getD i {}).reference <;> simp
  | .list children, hplain, hmember => by
    obtain ⟨old, hat⟩ := getD_plain hplain i
    have hheld := hmember.heldRecord_eq
    rw [applyInitializer_list, hat, fitsMember_list, hheld]
    cases haggr : (fields.getD i {}).aggregate with
    | true =>
      obtain ⟨type, members, hnamed, hat⟩ := hd i (Nat.zero_le i) haggr
      have hread := hat.read
      have hcount := hat.count
      have happly := applyChildren_fits hd children hplain
        (fun k m hm => (hat.each k m hm).1)
      simp only [if_true, hnamed, hread, Option.some.injEq, exists_eq_left']
      by_cases hlong : (fields.getD i {}).childCount < children.length
      · rw [if_pos hlong]
        refine iff_of_false (by simp) fun hfits => ?_
        have hle := hfits.length_le
        omega
      · rw [if_neg hlong, ← happly (by omega)]
        simp
    | false =>
      simp only [Bool.false_eq_true, if_false]
      match children with
      | [] => simp
      | [child] => exact applyInitializer_fits hd child hplain hmember
      | first :: second :: rest => simp

theorem applyChildren_fits {fuel : Nat} {target : AbiTarget}
    (hd : Declared fuel graph target fields 0) {now : List ManagedFieldLayout} {index : Nat} {members : List MemberRecord} :
    ∀ children, now.map plain = fields.map plain →
      (∀ (k : Nat) m, members[k]? = some m →
        Declares fuel graph target m (fields.getD (index + k) {})) →
      children.length ≤ members.length →
        ((∃ after, applyChildren now index children = some after) ↔
          FitsMembers fuel graph target members children)
  | [], _, _, _ => by
    rw [FitsMembers]
    exact iff_of_true ⟨now, rfl⟩ trivial
  | child :: rest, hplain, heach, hle => by
    cases members with
    | nil => simp at hle
    | cons member members =>
      have hfirst := applyInitializer_fits hd child hplain (heach 0 member rfl)
      rw [applyChildren, FitsMembers]
      cases hmid : applyInitializer now index child with
      | none =>
        refine iff_of_false (by simp) fun hfits => ?_
        obtain ⟨mid, hsome⟩ := hfirst.mpr hfits.1
        rw [Nat.add_zero, hmid] at hsome
        cases hsome
      | some mid =>
        have hfits := hfirst.mp ⟨mid, hmid⟩
        have hrest := applyChildren_fits hd rest
          ((applyInitializer_plain child hmid).trans hplain)
          (fun k m hm => by
            have hthis := heach (k + 1) m hm
            rwa [show index + (k + 1) = index + 1 + k by omega] at hthis)
          (Nat.le_of_succ_le_succ hle)
        rw [hrest]
        simp [hfits]

end

end ServerEngine

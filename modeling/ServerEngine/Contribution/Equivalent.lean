import ServerEngine.Contribution.Tracking

/-! # The semantic-delta filter

`equivalent` decides whether a changed source needs a replacement at all: on every reachable cache
it decides whether the committed slots already hold the content of the facts. `replace` may still
refuse those facts.
-/
namespace ServerEngine
open Slice ErrorFold

/-! ## Caches and updates that the operations produce -/

inductive Rebuilding : CacheUpdate → Prop
  | begin : Rebuilding {}
  | reserve {u u' : CacheUpdate} {maxSource : Nat} {n : ArenaSizes} :
      Rebuilding u → u.reserveRebuild maxSource n = .ok u' → Rebuilding u'
  | replace {u u' : CacheUpdate} {facts : SourceFacts} :
      Rebuilding u → u.replace facts = .ok u' → Rebuilding u'
  | construction {u : CacheUpdate} (construction : List SourceConstructionState) :
      Rebuilding u → Rebuilding (u.setConstruction construction)

inductive Updating (c : SourceContributionCache) : SparseUpdate → Prop
  | begin : Updating c (.beginIncremental c)
  | reserve {u u' : SparseUpdate} {sourceChanges touchedTypes : Nat} {n : ArenaSizes} :
      Updating c u → u.reserveIncremental sourceChanges touchedTypes n = .ok u' → Updating c u'
  | replace {u u' : SparseUpdate} {facts : SourceFacts} :
      Updating c u → u.replace facts = .ok u' → Updating c u'
  | remove {u u' : SparseUpdate} {source : Nat} :
      Updating c u → u.remove source = .ok u' → Updating c u'
  | construction {u u' : SparseUpdate} {handle : Nat} {value : SourceConstructionState} :
      Updating c u → u.setConstruction handle value = .ok u' → Updating c u'

/-- The caches that published updates lead to. `reload` is the cache read back from the image a save
wrote; `invalidate` only drops the provenance flag. -/
inductive CommittedCache : SourceContributionCache → Prop
  | initial : CommittedCache {}
  | rebuild {c : SourceContributionCache} {u : CacheUpdate} :
      CommittedCache c → Rebuilding u → CommittedCache (u.publish c)
  | sparse {c : SourceContributionCache} {u u' : SparseUpdate} :
      CommittedCache c → Updating c u → u.preparePublish = .ok u' →
        CommittedCache u'.publishPrepared
  | invalidate {c : SourceContributionCache} :
      CommittedCache c → CommittedCache { c with provenanceComplete := false }
  | reload {c : SourceContributionCache} :
      CommittedCache c → CommittedCache { c with baselineBacked := true }

theorem empty_tracks : ({} : Storage).Tracks fun _ => none := by
  intro source
  have hnone : ({} : Storage).state source = none := by
    simp [Storage.state, slotOf]
  rw [hnone]
  exact .none

theorem Rebuilding.tracks {u : CacheUpdate} (h : Rebuilding u) :
    ∃ force, u.candidate.Tracks force := by
  induction h with
  | begin => exact ⟨_, empty_tracks⟩
  | reserve _ hr ih =>
    obtain ⟨force, ht⟩ := ih
    exact ⟨force, CacheUpdate.reserveRebuild_tracks hr ht⟩
  | replace _ hr ih =>
    obtain ⟨force, ht⟩ := ih
    exact ⟨_, CacheUpdate.replace_tracks hr ht⟩
  | construction _ _ ih => exact ih

variable {c : SourceContributionCache} {u : SparseUpdate} {force : Force}

theorem Updating.tracks (h : Updating c u) (hc : c.committed.Tracks force) :
    u.owner = c ∧ ∃ force, u.Tracks force := by
  induction h with
  | begin => exact ⟨rfl, force, SparseUpdate.beginIncremental_tracks hc⟩
  | reserve _ hr ih =>
    obtain rfl := SparseUpdate.reserveIncremental_ok hr
    obtain ⟨howner, force, ht⟩ := ih
    exact ⟨howner, force, ⟨ht.patches.base, ht.patches.nodup, ht.patches.slot⟩, ht.slots⟩
  | replace _ hr ih =>
    obtain ⟨howner, force, ht⟩ := ih
    refine ⟨?_, _, SparseUpdate.replace_tracks hr ht⟩
    rw [(SparseUpdate.replace_ok.mp hr).2]
    exact howner
  | remove _ hr ih =>
    obtain ⟨howner, force, ht⟩ := ih
    refine ⟨?_, _, SparseUpdate.remove_tracks hr ht⟩
    unfold SparseUpdate.remove at hr
    split at hr
    · cases hr
    rw [(SparseUpdate.addSourcePatch_ok.mp hr).2]
    exact howner
  | construction _ hr ih =>
    obtain ⟨patches, rfl⟩ := SparseUpdate.setConstruction_ok hr
    obtain ⟨howner, force, ht⟩ := ih
    exact ⟨howner, force, ⟨ht.patches.base, ht.patches.nodup, ht.patches.slot⟩, ht.slots⟩

theorem CommittedCache.tracks (h : CommittedCache c) : ∃ force, c.committed.Tracks force := by
  induction h with
  | initial => exact ⟨_, empty_tracks⟩
  | rebuild _ hu _ => exact hu.tracks
  | sparse _ hu hp ih =>
    obtain ⟨force, hc⟩ := ih
    obtain ⟨-, force', ht⟩ := hu.tracks hc
    exact ⟨force', SparseUpdate.publish_tracks hp ht⟩
  | invalidate _ ih => exact ih
  | reload _ ih => exact ih

/-! ## The filter -/

/-- `cached < base || cached - base != current`, negated. -/
def sameBegin (base cached current : Nat) : Bool := base ≤ cached && cached - base == current

def sameModifier (cached current : SourceTypeModifier) : Bool :=
  cached.kind == current.kind && cached.value == current.value

def sameMember (base : Nat) (cached : SourceContributionMember) (current : SourceMemberFact) :
    Bool :=
  cached.type.identity == current.type.identity && cached.type.intrinsic == current.type.intrinsic &&
    cached.type.modifiers.count == current.type.modifiers.count && cached.access == current.access &&
    cached.construction == current.construction && cached.name == current.name &&
    sameBegin base cached.type.modifiers.begin current.type.modifiers.begin

def sameEnumValue (cached : SourceContributionEnumValue) (current : SourceEnumValueFact) : Bool :=
  cached.value.intrinsic == current.value.intrinsic && cached.value.bits == current.value.bits &&
    cached.name == current.name

def sameObject (base : Nat) (cached : SourceContributionObject) (current : SourceObjectFact) :
    Bool :=
  cached.identity == current.identity && cached.type.identity == current.type.identity &&
    cached.constructionFlags == current.constructionFlags &&
    cached.type.intrinsic == current.type.intrinsic &&
    cached.type.modifiers.count == current.type.modifiers.count &&
    sameBegin base cached.type.modifiers.begin current.type.modifiers.begin

def sameLink (cached : SourceContributionLink) (current : SourceLinkFact) : Bool :=
  cached.source.object == current.source.object && cached.source.member == current.source.member &&
    cached.target.object == current.target.object && cached.target.member == current.target.member

/-- `compare_record`, for the cached type itself. -/
def sameRecord (members : Nat) (current : SourceRecordFact) (cached : SourceContributionType) :
    Bool :=
  cached.identity == current.identity && cached.kind == .record &&
    cached.recordKind == current.recordKind &&
    cached.definition == (current.declarationKind == .definition) &&
    cached.definitionItems.count == current.members.count &&
    sameBegin members cached.definitionItems.begin current.members.begin

/-- `compare_enum`, for the cached type itself. -/
def sameEnum (enumValues : Nat) (current : SourceEnumFact) (cached : SourceContributionType) :
    Bool :=
  cached.identity == current.identity && cached.kind == .enumeration &&
    cached.explicitUnderlying == current.explicitUnderlying &&
    cached.enumScoped == current.isScoped &&
    cached.definition == (current.declarationKind == .definition) &&
    cached.definitionItems.count == current.enumerators.count &&
    sameBegin enumValues cached.definitionItems.begin current.enumerators.begin

def compareNext (same : SourceContributionType → Bool) (cached : List SourceContributionType) :
    Option (List SourceContributionType) :=
  match cached with
  | [] => none
  | next :: rest => if same next then some rest else none

def compareDeclaration (facts : SourceFacts) (s : SourceContributionState)
    (cached : List SourceContributionType) (item : SourceDeclarationRef) :
    Option (List SourceContributionType) :=
  match item.kind with
  | .namespaceScope => some cached
  | .recordType => do
    let current ← facts.records[item.index]?
    compareNext (sameRecord s.members.begin current) cached
  | .enumType => do
    let current ← facts.enums[item.index]?
    compareNext (sameEnum s.enumValues.begin current) cached
  | .object => if item.index ≥ facts.objects.length then none else some cached
  | .link => if item.index ≥ facts.links.length then none else some cached
  | .typeAlias => some cached

def compareTypes (facts : SourceFacts) (s : SourceContributionState)
    (cached : List SourceContributionType) : Option (List SourceContributionType) :=
  if facts.declarations.isEmpty then do
    let cached ← facts.records.foldlM
      (fun cached current => compareNext (sameRecord s.members.begin current) cached) cached
    facts.enums.foldlM
      (fun cached current => compareNext (sameEnum s.enumValues.begin current) cached) cached
  else facts.declarations.foldlM (compareDeclaration facts s) cached

/-- `cached.size() == current.size()` and every pair compares equal. -/
def sameAll {α β : Type} (same : α → β → Bool) (cached : List α) (current : List β) : Bool :=
  cached.length == current.length && (cached.zip current).all fun p => same p.1 p.2

def SourceContributionCache.equivalent (c : SourceContributionCache) (facts : SourceFacts) : Bool :=
  match c.committed.state facts.source with
  | none => false
  | some s =>
    let a := c.committed.arenas
    sameAll sameModifier (checkedSpan a.modifiers s.modifiers) facts.modifiers &&
      sameAll (sameMember s.modifiers.begin) (checkedSpan a.members s.members) facts.members &&
      sameAll sameEnumValue (checkedSpan a.enumValues s.enumValues) facts.enumValues &&
      sameAll (sameObject s.modifiers.begin) (checkedSpan a.objects s.objects) facts.objects &&
      sameAll sameLink (checkedSpan a.links s.links) facts.links &&
      compareTypes facts s (checkedSpan a.types s.types) == some []

/-! ## What the comparisons decide -/

variable {base : Nat}

theorem sameBegin_iff {cached current : Nat} :
    sameBegin base cached current = true ↔ cached = base + current := by
  simp only [sameBegin, Bool.and_eq_true, decide_eq_true_eq, beq_iff_eq]
  omega

theorem sameModifier_iff (cached current : SourceTypeModifier) :
    sameModifier cached current = true ↔ cached = current := by
  cases cached
  cases current
  simp [sameModifier, and_comm]

theorem sameMember_iff (base : Nat) (cached : SourceContributionMember)
    (current : SourceMemberFact) :
    sameMember base cached current = true ↔ cached = (memberContent current).shift base := by
  obtain ⟨⟨identity, ⟨first, count⟩, intrinsic⟩, name, access, construction⟩ := cached
  simp only [sameMember, Bool.and_eq_true, beq_iff_eq, sameBegin_iff, memberContent,
    typeRefContent, SourceContributionMember.shift, SourceContributionTypeRef.shift,
    SourceContributionMember.mk.injEq, SourceContributionTypeRef.mk.injEq, SourceFactRange.mk.injEq]
  tauto

theorem sameEnumValue_iff (cached : SourceContributionEnumValue) (current : SourceEnumValueFact) :
    sameEnumValue cached current = true ↔ cached = captureEnumValue current := by
  obtain ⟨name, ⟨intrinsic, bits⟩⟩ := cached
  obtain ⟨currentName, ⟨currentIntrinsic, currentBits⟩, expression⟩ := current
  simp only [sameEnumValue, Bool.and_eq_true, beq_iff_eq, captureEnumValue,
    SourceContributionEnumValue.mk.injEq, SourceIntegralConstant.mk.injEq]
  tauto

theorem sameObject_iff (base : Nat) (cached : SourceContributionObject)
    (current : SourceObjectFact) :
    sameObject base cached current = true ↔ cached = (objectContent current).shift base := by
  obtain ⟨identity, ⟨typeIdentity, ⟨first, count⟩, intrinsic⟩, flags⟩ := cached
  simp only [sameObject, Bool.and_eq_true, beq_iff_eq, sameBegin_iff, objectContent,
    typeRefContent, SourceContributionObject.shift, SourceContributionTypeRef.shift,
    SourceContributionObject.mk.injEq, SourceContributionTypeRef.mk.injEq, SourceFactRange.mk.injEq]
  tauto

theorem sameLink_iff (cached : SourceContributionLink) (current : SourceLinkFact) :
    sameLink cached current = true ↔ cached = captureLink current := by
  obtain ⟨⟨source, sourceMember⟩, ⟨target, targetMember⟩⟩ := cached
  obtain ⟨⟨currentSource, currentSourceMember⟩, ⟨currentTarget, currentTargetMember⟩, span⟩ := current
  simp only [sameLink, Bool.and_eq_true, beq_iff_eq, captureLink, SourceContributionLink.mk.injEq,
    SourceObjectEndpointFact.mk.injEq]
  tauto

/-- The fields a capture leaves at their defaults, which the filter does not compare. -/
def Plain (t : SourceContributionType) : Prop :=
  match t.kind with
  | .record => t.explicitUnderlying = .none ∧ t.enumScoped = false
  | .enumeration => t.recordKind = .structType

variable {members : Nat}

theorem sameRecord_iff (enumValues : Nat) {cached : SourceContributionType} (h : Plain cached)
    (current : SourceRecordFact) : sameRecord members current cached = true ↔
      cached = (recordContent current).shift members enumValues := by
  obtain ⟨identity, ⟨first, count⟩, explicitUnderlying, recordKind, kind, definition, scope⟩ := cached
  simp only [sameRecord, Bool.and_eq_true, beq_iff_eq, sameBegin_iff, recordContent,
    SourceContributionType.shift, SourceContributionType.mk.injEq, SourceFactRange.mk.injEq]
  cases kind <;> simp only [Plain] at h <;> tauto

variable {enumValues : Nat}

theorem sameEnum_iff (members : Nat) {cached : SourceContributionType} (h : Plain cached)
    (current : SourceEnumFact) : sameEnum enumValues current cached = true ↔
      cached = (enumContent current).shift members enumValues := by
  obtain ⟨identity, ⟨first, count⟩, explicitUnderlying, recordKind, kind, definition, scope⟩ := cached
  simp only [sameEnum, Bool.and_eq_true, beq_iff_eq, sameBegin_iff, enumContent,
    SourceContributionType.shift, SourceContributionType.mk.injEq, SourceFactRange.mk.injEq]
  cases kind <;> simp only [Plain] at h <;> tauto

variable {β : Type}

theorem sameAll_iff {α : Type} {same : α → β → Bool} {g : β → α}
    (h : ∀ x y, same x y = true ↔ x = g y) (cached : List α) (current : List β) :
    sameAll same cached current = true ↔ cached = current.map g := by
  induction cached generalizing current with
  | nil => cases current <;> simp [sameAll]
  | cons x xs ih =>
    cases current with
    | nil => simp [sameAll]
    | cons y ys =>
      have hrest := ih ys
      simp only [sameAll, Bool.and_eq_true, beq_iff_eq] at hrest
      simp only [sameAll, List.length_cons, Nat.add_right_cancel_iff, List.zip_cons_cons,
        List.all_cons, Bool.and_eq_true, beq_iff_eq, List.map_cons, List.cons.injEq, h x y]
      tauto

variable {cached rest : List SourceContributionType} {t : SourceContributionType}

theorem compareNext_iff {same : SourceContributionType → Bool}
    (h : ∀ x ∈ cached, same x = true ↔ x = t) :
    compareNext same cached = some rest ↔ cached = t :: rest := by
  cases cached with
  | nil => simp [compareNext]
  | cons x xs =>
    have hx := h x (by simp)
    unfold compareNext
    by_cases hs : same x = true
    · obtain rfl := hx.mp hs
      simp [hs]
    · have hne : x ≠ t := fun he => hs (hx.mpr he)
      simp [hs, hne]

theorem foldlM_consumes
    {step : List SourceContributionType → β → Option (List SourceContributionType)}
    {g : β → List SourceContributionType} {all : List SourceContributionType} {xs : List β}
    (h : ∀ x ∈ xs, ∀ cached rest, cached ⊆ all → (step cached x = some rest ↔ cached = g x ++ rest))
    (hsub : cached ⊆ all) : xs.foldlM step cached = some rest ↔ cached = xs.flatMap g ++ rest := by
  induction xs generalizing cached with
  | nil => simp
  | cons x xs ih =>
    have hrest := fun {c : List SourceContributionType} (hc : c ⊆ all) =>
      ih (fun y hy => h y (by simp [hy])) hc
    rw [List.foldlM_cons, Option.bind_eq_bind, Option.bind_eq_some_iff]
    constructor
    · rintro ⟨mid, hmid, hfold⟩
      have hcached := (h x (by simp) cached mid hsub).mp hmid
      have hmidsub : mid ⊆ all := fun t ht => hsub (by simp [hcached, ht])
      have htail := (hrest hmidsub).mp hfold
      simp [hcached, htail]
    · intro hcached
      rw [List.flatMap_cons, List.append_assoc] at hcached
      have hmidsub : xs.flatMap g ++ rest ⊆ all := fun t ht =>
        hsub (by rw [hcached]; exact List.mem_append_right _ ht)
      exact ⟨_, (h x (by simp) cached _ hsub).mpr hcached, (hrest hmidsub).mpr rfl⟩

variable {facts : SourceFacts} {s : SourceContributionState}

theorem compareDeclaration_iff (hv : Validated facts) {d : SourceDeclarationRef}
    (hd : d ∈ facts.declarations) (hplain : ∀ t ∈ cached, Plain t) :
    compareDeclaration facts s cached d = some rest ↔
      cached = (declarationContent facts d).map (·.shift s.members.begin s.enumValues.begin) ++
        rest := by
  have hindex := hv.declaration hd
  unfold compareDeclaration declarationContent
  unfold DeclarationNames at hindex
  cases hk : d.kind <;> simp only [hk] at hindex ⊢
  case recordType =>
    obtain ⟨r, hr⟩ := hindex
    simp only [hr, Option.bind_eq_bind, Option.bind_some]
    rw [compareNext_iff fun x hx => sameRecord_iff s.enumValues.begin
      (hplain x hx) r]
    simp
  case enumType =>
    obtain ⟨e, he⟩ := hindex
    simp only [he, Option.bind_eq_bind, Option.bind_some]
    rw [compareNext_iff fun x hx => sameEnum_iff s.members.begin (hplain x hx) e]
    simp
  case object =>
    obtain ⟨o, ho⟩ := hindex
    have hlt := (List.getElem?_eq_some_iff.mp ho).1
    simp [hlt]
  case link =>
    obtain ⟨l, hl⟩ := hindex
    have hlt := (List.getElem?_eq_some_iff.mp hl).1
    simp [hlt]
  all_goals simp

/-- The walk over the types uses up exactly the content of the facts. -/
theorem compareTypes_iff (hv : Validated facts) (hplain : ∀ t ∈ cached, Plain t) :
    compareTypes facts s cached = some [] ↔
      cached = (typesContent facts).map (·.shift s.members.begin s.enumValues.begin) := by
  unfold compareTypes typesContent
  split
  · have hrecord : ∀ r ∈ facts.records, ∀ cs rest, cs ⊆ cached →
        (compareNext (sameRecord s.members.begin r) cs = some rest ↔
          cs = [(recordContent r).shift s.members.begin s.enumValues.begin] ++ rest) := by
      intro r _ cs rest hcs
      rw [compareNext_iff fun x hx => sameRecord_iff s.enumValues.begin
        (hplain x (hcs hx)) r]
      rfl
    have henum : ∀ e ∈ facts.enums, ∀ cs rest, cs ⊆ cached →
        (compareNext (sameEnum s.enumValues.begin e) cs = some rest ↔
          cs = [(enumContent e).shift s.members.begin s.enumValues.begin] ++ rest) := by
      intro e _ cs rest hcs
      rw [compareNext_iff fun x hx => sameEnum_iff s.members.begin
        (hplain x (hcs hx)) e]
      rfl
    rw [Option.bind_eq_bind, Option.bind_eq_some_iff]
    have hmap : ∀ {β : Type} (f : β → SourceContributionType) (xs : List β),
        xs.flatMap (fun x => [f x]) = xs.map f := by
      intro β f xs
      induction xs with
      | nil => rfl
      | cons x xs ih => rw [List.flatMap_cons, ih, List.map_cons, List.singleton_append]
    constructor
    · rintro ⟨mid, hmid, hfold⟩
      have hcached := (foldlM_consumes hrecord (List.Subset.refl _)).mp hmid
      have hsub : mid ⊆ cached := fun t ht => by
        rw [hcached]
        exact List.mem_append_right _ ht
      have htail := (foldlM_consumes henum hsub).mp hfold
      rw [hmap] at hcached htail
      rw [hcached, htail, List.append_nil, List.map_append, List.map_map, List.map_map]
      rfl
    · intro hcached
      rw [List.map_append, List.map_map, List.map_map] at hcached
      refine ⟨facts.enums.map fun e => (enumContent e).shift s.members.begin s.enumValues.begin,
        ?_, ?_⟩
      · rw [foldlM_consumes hrecord (List.Subset.refl _), hmap, hcached]
        rfl
      · rw [foldlM_consumes henum, hmap]
        · simp
        · intro t ht
          rw [hcached]
          exact List.mem_append_right _ (by simpa using ht)
  · have hdeclaration : ∀ d ∈ facts.declarations, ∀ cs rest, cs ⊆ cached →
        (compareDeclaration facts s cs d = some rest ↔ cs = (declarationContent facts d).map
          (·.shift s.members.begin s.enumValues.begin) ++ rest) :=
      fun d hd cs rest hcs => compareDeclaration_iff hv hd fun t ht => hplain t (hcs ht)
    rw [foldlM_consumes hdeclaration (List.Subset.refl _), List.append_nil, List.map_flatMap]

/-- The committed slots of the source hold the content of the facts. -/
def SourceContributionCache.CommittedAs (c : SourceContributionCache) (facts : SourceFacts) : Prop :=
  ∃ s, c.committed.state facts.source = some s ∧
    c.committed.arenas.payload s = facts.content.shift s.base

theorem plain_shift (h : Plain t) (members enumValues : Nat) :
    Plain (t.shift members enumValues) := h

theorem plain_content (facts : SourceFacts) : ∀ t ∈ facts.content.types, Plain t := by
  intro t ht
  simp only [SourceFacts.content, typesContent] at ht
  split at ht
  · rcases List.mem_append.mp ht with h | h
    · obtain ⟨r, -, rfl⟩ := List.mem_map.mp h
      exact ⟨rfl, rfl⟩
    · obtain ⟨e, -, rfl⟩ := List.mem_map.mp h
      rfl
  · obtain ⟨d, -, hd⟩ := List.mem_flatMap.mp ht
    unfold declarationContent at hd
    split at hd
    · obtain ⟨r, -, rfl⟩ := List.mem_map.mp hd
      exact ⟨rfl, rfl⟩
    · obtain ⟨e, -, rfl⟩ := List.mem_map.mp hd
      rfl
    · cases hd

theorem equivalent_iff (hc : c.committed.Tracks force) (hv : Validated facts) :
    c.equivalent facts = true ↔ c.CommittedAs facts := by
  have hslot := hc facts.source
  unfold SourceContributionCache.equivalent SourceContributionCache.CommittedAs
  cases hs : c.committed.state facts.source with
  | none => simp
  | some s =>
    rw [hs] at hslot
    generalize hf : force facts.source = stored at hslot
    cases hslot with
    | some hp =>
      have hw := hp.within
      have hplain : ∀ t ∈ slice c.committed.arenas.types s.types.begin s.types.count, Plain t := by
        intro t ht
        have htypes := congrArg Arenas.types hp.payload
        simp only [Arenas.payload, Arenas.shift] at htypes
        rw [htypes] at ht
        obtain ⟨t', ht', rfl⟩ := List.mem_map.mp ht
        exact plain_shift (plain_content _ t' ht') _ _
      simp only [Option.some.injEq, exists_eq_left', Bool.and_eq_true, beq_iff_eq,
        checkedSpan_eq hw.types, checkedSpan_eq hw.members, checkedSpan_eq hw.modifiers,
        checkedSpan_eq hw.enumValues, checkedSpan_eq hw.objects, checkedSpan_eq hw.links,
        sameAll_iff sameModifier_iff, sameAll_iff (sameMember_iff _), sameAll_iff sameEnumValue_iff,
        sameAll_iff (sameObject_iff _), sameAll_iff sameLink_iff, compareTypes_iff hv hplain]
      simp only [Arenas.payload, Arenas.shift, SourceFacts.content, Arenas.mk.injEq,
        SourceContributionState.base, List.map_map, Function.comp_def, List.map_id']
      tauto

/-! ## The filter against replacement -/

def ContentAt (a : Arenas) (s : SourceContributionState) (content : Arenas) : Prop :=
  a.payload s = content.shift s.base

def SparseUpdate.StoresCommitted (u : SparseUpdate) (source : Nat) : Prop :=
  ∃ old new content, u.previousState source = some old ∧ u.replacementState source = some new ∧
    ContentAt u.owner.committed.arenas old content ∧ ContentAt u.combined new content

/-- `equivalent` answers whether replacing is accepted and stores what is committed. -/
def FilterAgrees (c : SourceContributionCache) (u : SparseUpdate) (facts : SourceFacts) : Prop :=
  c.equivalent facts = true ↔ ∃ u', u.replace facts = .ok u' ∧ u'.StoresCommitted facts.source

theorem shift_type_injective {t' : SourceContributionType}
    (h : t.shift members enumValues = t'.shift members enumValues) : t = t' := by
  obtain ⟨identity, ⟨first, count⟩, underlying, record, kind, definition, scope⟩ := t
  obtain ⟨identity', ⟨first', count'⟩, underlying', record', kind', definition', scope'⟩ := t'
  simp only [SourceContributionType.shift, SourceContributionType.mk.injEq,
    SourceFactRange.mk.injEq] at h ⊢
  obtain ⟨h1, ⟨h2, h3⟩, h4, h5, rfl, h6, h7⟩ := h
  exact ⟨h1, ⟨Nat.add_left_cancel h2, h3⟩, h4, h5, rfl, h6, h7⟩

theorem shift_typeRef_injective {t t' : SourceContributionTypeRef}
    (h : t.shift base = t'.shift base) : t = t' := by
  obtain ⟨identity, ⟨first, count⟩, intrinsic⟩ := t
  obtain ⟨identity', ⟨first', count'⟩, intrinsic'⟩ := t'
  simp only [SourceContributionTypeRef.shift, SourceContributionTypeRef.mk.injEq,
    SourceFactRange.mk.injEq] at h ⊢
  exact ⟨h.1, ⟨Nat.add_left_cancel h.2.1.1, h.2.1.2⟩, h.2.2⟩

theorem shift_member_injective {m m' : SourceContributionMember}
    (h : m.shift base = m'.shift base) : m = m' := by
  obtain ⟨type, name, access, construction⟩ := m
  obtain ⟨type', name', access', construction'⟩ := m'
  simp only [SourceContributionMember.shift, SourceContributionMember.mk.injEq] at h ⊢
  exact ⟨shift_typeRef_injective h.1, h.2⟩

theorem shift_object_injective {o o' : SourceContributionObject}
    (h : o.shift base = o'.shift base) : o = o' := by
  obtain ⟨identity, type, flags⟩ := o
  obtain ⟨identity', type', flags'⟩ := o'
  simp only [SourceContributionObject.shift, SourceContributionObject.mk.injEq] at h ⊢
  exact ⟨h.1, shift_typeRef_injective h.2.1, h.2.2⟩

theorem shift_injective {base : ArenaSizes} {a b : Arenas} (h : a.shift base = b.shift base) :
    a = b := by
  obtain ⟨types, members, modifiers, enums, objects, links⟩ := a
  obtain ⟨types', members', modifiers', enums', objects', links'⟩ := b
  simp only [Arenas.shift, Arenas.mk.injEq] at h ⊢
  obtain ⟨htypes, hmembers, hmodifiers, henums, hobjects, hlinks⟩ := h
  exact ⟨List.map_injective_iff.mpr (fun _ _ h => shift_type_injective h) htypes,
    List.map_injective_iff.mpr (fun _ _ h => shift_member_injective h) hmembers, hmodifiers, henums,
    List.map_injective_iff.mpr (fun _ _ h => shift_object_injective h) hobjects, hlinks⟩

theorem replaced_state (hopen : u.Open facts.source) (hne : facts.source ≠ 0) :
    (u.replaced facts).replacementState facts.source = some (u.replacementPatch facts).state := by
  have hfind : u.sourcePatches.find? (·.source == facts.source) = none := by
    simpa [SparseUpdate.findSourcePatch, hne] using hopen.fresh
  simp [SparseUpdate.replacementState, SparseUpdate.findSourcePatch, SparseUpdate.replaced, hne,
    List.find?_append, hfind, SparseUpdate.replacementPatch]

theorem storesCommitted_iff (howner : u.owner = c) (ht : u.Tracks force)
    (hacc : acceptFacts facts = .ok ()) (hopen : u.Open facts.source) (hroom : u.Room facts) :
    (u.replaced facts).StoresCommitted facts.source ↔ c.CommittedAs facts := by
  have hnew := replaced_state hopen (acceptFacts_ok.mp hacc).1
  have hcombined : (u.replaced facts).combined =
      u.combined.append (facts.content.shift u.nextSizes) := by
    simp [SparseUpdate.combined, SparseUpdate.replaced, Arenas.append]
  have hplaced := SparseUpdate.replacement_placed ht.patches.base hacc hroom
  rw [← hcombined] at hplaced
  have hprevious : ∀ old, (u.replaced facts).previousState facts.source = some old ↔
      c.committed.state facts.source = some old := by
    intro old
    rw [← howner]
    rfl
  have hold : (u.replaced facts).owner.committed.arenas = c.committed.arenas := by
    rw [← howner]
    rfl
  constructor
  · rintro ⟨old, new, content, hs, hn, hoc, hnc⟩
    obtain rfl : (u.replacementPatch facts).state = new := by
      rw [hnew] at hn
      exact Option.some.inj hn
    obtain rfl : content = facts.content := by
      rw [ContentAt, hplaced.payload] at hnc
      exact (shift_injective hnc).symm
    refine ⟨old, (hprevious old).mp hs, ?_⟩
    rw [← hold]
    exact hoc
  · rintro ⟨old, hs, hpayload⟩
    refine ⟨old, _, facts.content, (hprevious old).mpr hs, hnew, ?_, hplaced.payload⟩
    rw [ContentAt, hold]
    exact hpayload

/-- The filter agrees with replacement unless the committed content is that of facts which the
replacement refuses: facts with base classes, or facts the arenas have no 32-bit room for. -/
theorem filterAgrees_iff {c : SourceContributionCache} {u : SparseUpdate} {facts : SourceFacts}
    (hc : CommittedCache c) (hu : Updating c u) (hopen : u.Open facts.source)
    (hv : validateSourceFacts facts = .ok ()) :
    FilterAgrees c u facts ↔ (hasBases facts = false ∧ u.Room facts) ∨ ¬c.CommittedAs facts := by
  obtain ⟨force, htracks⟩ := hc.tracks
  obtain ⟨howner, force', hut⟩ := hu.tracks htracks
  have hvalid := validated_of_ok hv
  rw [FilterAgrees, equivalent_iff htracks hvalid]
  constructor
  · intro h
    by_cases hcommitted : c.CommittedAs facts
    · obtain ⟨u', hreplace, -⟩ := h.mp hcommitted
      obtain ⟨⟨hacc, -, hroom⟩, -⟩ := SparseUpdate.replace_ok.mp hreplace
      exact .inl ⟨(acceptFacts_ok.mp hacc).2.2, hroom⟩
    · exact .inr hcommitted
  · rintro (⟨hbases, hroom⟩ | hcommitted)
    · have hacc : acceptFacts facts = .ok () :=
        acceptFacts_ok.mpr ⟨hvalid.source, hv, hbases⟩
      have hstores := storesCommitted_iff howner hut hacc hopen hroom
      constructor
      · intro h
        exact ⟨_, SparseUpdate.replace_ok.mpr ⟨⟨hacc, hopen, hroom⟩, rfl⟩, hstores.mpr h⟩
      · rintro ⟨u', hreplace, h⟩
        obtain ⟨-, rfl⟩ := SparseUpdate.replace_ok.mp hreplace
        exact hstores.mp h
    · constructor
      · intro h
        exact absurd h hcommitted
      · rintro ⟨u', hreplace, h⟩
        obtain ⟨⟨hacc, -, hroom⟩, rfl⟩ := SparseUpdate.replace_ok.mp hreplace
        exact (storesCommitted_iff howner hut hacc hopen hroom).mp h

/-! ### A record that gains a base class -/

/-- `struct S {};` in source 1. -/
def plainFacts : SourceFacts where
  source := 1
  sourceTextSize := 20
  records := [{ identity := ⟨2 ^ 31 + 1⟩, declaration := ⟨0, 12⟩, declarationKind := .definition }]
  declarations := [{ index := 0, kind := .recordType, declaration := ⟨0, 12⟩ }]

/-- `struct S : B {};` in source 1: the record has one base. -/
def derivedFacts : SourceFacts :=
  { plainFacts with
    records := [{ identity := ⟨2 ^ 31 + 1⟩, bases := ⟨0, 1⟩, declaration := ⟨0, 12⟩
                  declarationKind := .definition }]
    bases := [{ base := ⟨2 ^ 31 + 2⟩, declaration := ⟨9, 1⟩ }] }

def plainRebuild : CacheUpdate :=
  match CacheUpdate.replace {} plainFacts with
  | .ok u => u
  | .error _ => {}

def plainCache : SourceContributionCache := plainRebuild.publish {}

def plainUpdate : SparseUpdate :=
  { SparseUpdate.beginIncremental plainCache with sourceCapacity := 8 }

theorem plainCache_committed : CommittedCache plainCache :=
  .rebuild .initial (.replace .begin (show CacheUpdate.replace {} plainFacts = .ok plainRebuild by
    decide))

theorem plainUpdate_updating : Updating plainCache plainUpdate :=
  .reserve .begin (show (SparseUpdate.beginIncremental plainCache).reserveIncremental 1 0 {} =
    .ok plainUpdate by decide)

theorem plainUpdate_open : plainUpdate.Open 1 := ⟨rfl, rfl, by decide⟩

/-- `S` gains a base: the filter sees no change, the replacement is refused. -/
theorem filter_misses_bases : CommittedCache plainCache ∧ Updating plainCache plainUpdate ∧
    plainUpdate.Open derivedFacts.source ∧ validateSourceFacts derivedFacts = .ok () ∧
    ¬FilterAgrees plainCache plainUpdate derivedFacts := by
  refine ⟨plainCache_committed, plainUpdate_updating, plainUpdate_open, by decide, ?_⟩
  intro h
  obtain ⟨u', hreplace, -⟩ := h.mp (by decide)
  have hrefused : plainUpdate.replace derivedFacts = .error .notAvailable := by decide
  rw [hrefused] at hreplace
  cases hreplace

theorem filterAgrees_iff_derived :
    FilterAgrees plainCache plainUpdate derivedFacts ↔
      (hasBases derivedFacts = false ∧ plainUpdate.Room derivedFacts) ∨
        ¬plainCache.CommittedAs derivedFacts :=
  filterAgrees_iff plainCache_committed plainUpdate_updating plainUpdate_open (by decide)

end ServerEngine

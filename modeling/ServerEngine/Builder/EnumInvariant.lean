import ServerEngine.Builder.EnumUnderlying
import ServerEngine.Builder.Reachable

/-! # Enumerators of published Graphs

An enumeration whose underlying type was inferred keeps the type selected for its own values: both
builders select it where they write the definition, and no later build separates the two.
-/
namespace ServerEngine
open Slice ErrorFold

def SourceContributionEnumValue.record (v : SourceContributionEnumValue) : EnumValueRecord :=
  ⟨v.value.bits, v.name, v.value.intrinsic⟩

def Encoded (values : List SourceContributionEnumValue) : Prop := ∀ v ∈ values, ∃ z, v.value.Encodes z

/-- The inferred underlying type of a definition is the one selected for its records. -/
def EnumSettled (abi : AbiConfiguration) (records : List EnumValueRecord) (e : TypeEntry) : Prop :=
  e.kind = .enumeration → e.defined = true → e.enumScoped = false → e.enumFixedUnderlying = false →
    ∃ values, Encoded values ∧ selectEnumUnderlying values abi = .ok e.enumUnderlying ∧
      values.length = e.definition.count ∧ ∀ i v, values[i]? = some v →
        records[e.definition.begin - 1 + i]? = some v.record

section Settled
variable {abi : AbiConfiguration} {records : List EnumValueRecord} {e : TypeEntry}

theorem EnumSettled.append (h : EnumSettled abi records e) (more : List EnumValueRecord) :
    EnumSettled abi (records ++ more) e := by
  intro hkind hdefined hscoped hfixed
  obtain ⟨values, hencoded, hselect, hcount, hrecords⟩ := h hkind hdefined hscoped hfixed
  refine ⟨values, hencoded, hselect, hcount, ?_⟩
  intro i v hv
  have hget := hrecords i v hv
  rw [List.getElem?_append_left (List.getElem?_eq_some_iff.mp hget).1, hget]

theorem enumSettled_undefined (h : e.defined = false) : EnumSettled abi records e := by
  intro _ hdefined
  rw [h] at hdefined
  cases hdefined

theorem enumSettled_record (h : e.kind = .record) : EnumSettled abi records e := by
  intro hkind
  rw [h] at hkind
  cases hkind

theorem enumSettled_new {values : List SourceContributionEnumValue} (hencoded : Encoded values)
    (hselect : e.enumScoped = false → e.enumFixedUnderlying = false →
      selectEnumUnderlying values abi = .ok e.enumUnderlying)
    (hdefinition : e.definition = ⟨records.length + 1, values.length⟩) :
    EnumSettled abi (records ++ values.map (·.record)) e := by
  intro _ _ hscoped hfixed
  refine ⟨values, hencoded, hselect hscoped hfixed, by rw [hdefinition], ?_⟩
  intro i v hv
  rw [hdefinition]
  rw [Nat.add_sub_cancel, List.getElem?_append_right (by omega), Nat.add_sub_cancel_left,
    List.getElem?_map, hv]
  rfl

end Settled

/-! ## Full builds -/

namespace FullBuild

section Definitions
variable {abi : AbiConfiguration} {storage : Storage} {d d' : Definitions}

def EnumsSettled (abi : AbiConfiguration) (d : Definitions) : Prop :=
  ∀ e ∈ d.types, EnumSettled abi d.enumValues e

variable {contribution : SourceContributionType}

theorem settleUnderlying_selects {values : List SourceContributionEnumValue} {e e' : TypeEntry}
    (hscoped : e.enumScoped = contribution.enumScoped)
    (h : settleUnderlying abi contribution values e = .ok e') :
    e'.enumScoped = false → e'.enumFixedUnderlying = false →
      selectEnumUnderlying values abi = .ok e'.enumUnderlying := by
  unfold settleUnderlying at h
  split at h
  · rename_i hfixed
    cases h
    intro _ hfree
    rw [hfixed] at hfree
    cases hfree
  split at h
  · cases h
    intro _ hfree
    cases hfree
  split at h
  · rename_i hdefault
    cases h
    intro hunscoped
    rw [← hscoped] at hdefault
    have hcontra : e.enumScoped = false := hunscoped
    rw [hdefault] at hcontra
    cases hcontra
  · obtain ⟨underlying, hselect, h⟩ := bind_ok.mp h
    cases h
    exact fun _ _ => BuildM.lift_ok.mp hselect

theorem defineMembers_enums {owner : TypeHandle}
    (items : List (SourceContributionMember × TypeRef × Nat)) (d : Definitions) :
    (items.foldl (defineMember owner) d).types = d.types ∧
      (items.foldl (defineMember owner) d).enumValues = d.enumValues := by
  induction items generalizing d with
  | nil => exact ⟨rfl, rfl⟩
  | cons item rest ih =>
    obtain ⟨htypes, hvalues⟩ := ih (defineMember owner d item)
    rw [List.foldl_cons, htypes, hvalues]
    unfold defineMember
    dsimp only
    split <;> exact ⟨rfl, rfl⟩

variable {memberTypes : List TypeRef} {memberBases : List Nat} {handle : Nat}

theorem defineRecord_settled {e : TypeEntry} {items : SourceFactRange} (h : EnumsSettled abi d)
    (hget : d.types[handle - 1]? = some e) (hrecord : e.kind = .record)
    (hstep : defineRecord storage memberTypes memberBases handle items d = .ok d') :
    EnumsSettled abi d' := by
  unfold defineRecord at hstep
  split at hstep
  · cases hstep
  have hgetD : d.types.getD (handle - 1) default = e := by
    rw [List.getD_eq_getElem?_getD, hget]
    rfl
  rw [hgetD] at hstep
  cases hstep
  intro x hx
  rw [(defineMembers_enums _ _).1] at hx
  rw [(defineMembers_enums _ _).2]
  rcases List.mem_or_eq_of_mem_set hx with hx | rfl
  · exact h x hx
  · exact enumSettled_record hrecord

theorem defineEnum_settled {e : TypeEntry} (h : EnumsSettled abi d)
    (hencoded : Encoded storage.arenas.enumValues) (hget : d.types[handle - 1]? = some e)
    (hscoped : e.enumScoped = contribution.enumScoped)
    (hstep : defineEnum abi storage contribution handle d = .ok d') : EnumsSettled abi d' := by
  unfold defineEnum at hstep
  dsimp only at hstep
  split at hstep
  · cases hstep
  rename_i hguard
  simp only [Bool.or_eq_true, decide_eq_true_eq, not_or, Nat.not_lt, gt_iff_lt] at hguard
  have hgetD : d.types.getD (handle - 1) default = e := by
    rw [List.getD_eq_getElem?_getD, hget]
    rfl
  rw [hgetD] at hstep
  obtain ⟨entry, hsettle, hstep⟩ := bind_ok.mp hstep
  cases hstep
  intro x hx
  rcases List.mem_or_eq_of_mem_set hx with hx | rfl
  · exact (h x hx).append _
  · have hselects := settleUnderlying_selects hscoped hsettle
    refine enumSettled_new (fun v hv => hencoded v (mem_of_mem_slice hv)) hselects ?_
    rw [slice_length (by omega)]

theorem define_settled {declarations : Declarations} (h : EnumsSettled abi d)
    (hencoded : Encoded storage.arenas.enumValues) {item : SourceContributionType × Nat}
    {e : TypeEntry} (he : d.types[declarations.declarationHandles.getD item.2 0 - 1]? = some e)
    (hagrees : Agrees item.1 e)
    (hstep : define abi storage declarations.declarationHandles memberTypes memberBases d item = .ok d') :
    EnumsSettled abi d' := by
  unfold define at hstep
  split at hstep
  · cases hstep
    exact h
  dsimp only at hstep
  split at hstep
  · cases hstep
  generalize declarations.declarationHandles.getD item.2 0 = handle at he hstep
  have hseen : EnumsSettled abi
      { d with definitionSeen := d.definitionSeen.set (handle - 1) true } := h
  unfold Agrees at hagrees
  split at hstep
  · rename_i hkind
    rw [hkind] at hagrees
    exact defineRecord_settled hseen he hagrees hstep
  · rename_i hkind
    rw [hkind] at hagrees
    exact defineEnum_settled hseen hencoded he hagrees.2 hstep

theorem prepareGraph_settled (hrebuilt : Rebuilt storage)
    (hencoded : Encoded storage.arenas.enumValues) {construction : List SourceConstructionState}
    {detached : DetachedGraph} (h : prepareGraph abi storage = .ok (construction, detached)) :
    ∀ e ∈ detached.graph.types, EnumSettled abi detached.graph.enumValueRecords e := by
  unfold prepareGraph at h
  split at h
  · cases h
  obtain ⟨capacity, -, h⟩ := bind_ok.mp h
  obtain ⟨objectCapacity, -, h⟩ := bind_ok.mp h
  obtain ⟨d, hd, h⟩ := bind_ok.mp h
  obtain ⟨identityCapacity, -, h⟩ := bind_ok.mp h
  obtain ⟨identityIndex, -, h⟩ := bind_ok.mp h
  obtain ⟨memberBases, hmemberBases, h⟩ := bind_ok.mp h
  obtain ⟨⟨objectIdentities, objectBases⟩, -, h⟩ := bind_ok.mp h
  obtain ⟨⟨table, memberTypes, objectTypes⟩, htypes, h⟩ := bind_ok.mp h
  obtain ⟨definitions, hdefinitions, h⟩ := bind_ok.mp h
  obtain ⟨objectSlots, -, h⟩ := bind_ok.mp h
  obtain ⟨objectIdentityIndex, -, h⟩ := bind_ok.mp h
  obtain ⟨linkSlots, -, h⟩ := bind_ok.mp h
  obtain ⟨⟨linkRecords, linkIndex⟩, -, h⟩ := bind_ok.mp h
  dsimp only at h
  split at h
  swap
  · cases h
  cases h
  obtain ⟨hdeclared, hseen⟩ := declareSources_spec hrebuilt.genuine (declared_start hrebuilt) hd
  obtain ⟨hlength, hitems⟩ := member_items hmemberBases (materializeTypes_typed hrebuilt htypes).members
  have hall := foldlM_ok_invariant (fun definitions => Defined table.canonicalTypes d.types definitions ∧
    EnumsSettled abi definitions) hdefinitions
    ⟨defined_start hdeclared.entries d.types.length, ?_⟩ ?_
  · exact hall.2
  · intro e he
    refine enumSettled_undefined ?_
    rw [TypeEntry.defined, (hdeclared.entries e he).2]
    rfl
  · intro state d₁ d₂ hmem hd₁ hsource
    refine foldlM_ok_invariant (fun definitions => Defined table.canonicalTypes d.types definitions ∧
      EnumsSettled abi definitions) hsource hd₁ ?_
    intro item d₃ d₄ hitem hd₃ hone
    have hin : item ∈ declarationsOf storage state := hitem
    have hat := declarationsOf_get hin
    have hhandle := hseen state hmem item hin
    obtain ⟨e, he, hagrees⟩ := define_entry hdeclared hd₃.1 hat hhandle
    exact ⟨define_defined hdeclared hd₃.1 hat hhandle hitems hlength hone,
      define_settled hd₃.2 hencoded he hagrees hone⟩

end Definitions

end FullBuild

/-! ## Incremental builds -/

namespace Candidate

section Incremental
variable {g : Graph} {abi : AbiConfiguration} {c c' : Candidate} {owner : TypeHandle}

def EnumsSettled (g : Graph) (abi : AbiConfiguration) (c : Candidate) : Prop :=
  ∀ (handle : Nat) (e : TypeEntry), c.entry g handle = some e →
    EnumSettled abi (g.enumValueRecords ++ c.update.enumValues) e

variable {u : SparseUpdate}

theorem combinedSpan_encoded (hcommitted : Encoded u.owner.committed.arenas.enumValues)
    (hcandidate : Encoded u.candidate.enumValues) (range : SourceFactRange) :
    Encoded (u.enumValues range) := by
  intro v hv
  rcases mem_of_combinedSpan hv with hv | hv
  · exact hcommitted v hv
  · exact hcandidate v hv

theorem materializeMember_enumValues (hx : IdentityIndex g.identityIndex g.identities)
    (hlen : g.types.length = g.identities.length) (hg : g.Canonical) (hc : c.Types g)
    {member : SourceContributionMember} (hgenuine : member.type.identity.Genuine)
    (h : materializeMember g owner c member = .ok c') :
    c'.update.enumValues = c.update.enumValues := by
  obtain ⟨⟨c₁, type⟩, htype, h⟩ := bind_ok.mp h
  obtain ⟨hc₁, hgrow₁, -⟩ := materializeType_spec hx hlen hg hc hgenuine htype
  have hvalues₁ := congrArg (·.update.enumValues) hgrow₁.core
  have hc₂ := @Candidate.Types.congr _ _ { c₁ with update := { c₁.update with
      members := c₁.update.members ++
        [⟨member.name, type, member.access, member.construction⟩] } } hc₁ rfl rfl rfl rfl rfl rfl rfl
  dsimp only at h
  split at h
  · rename_i hne
    obtain ⟨⟨c₃, target⟩, hfind, h⟩ := bind_ok.mp h
    obtain ⟨-, hgrow₃, -⟩ := findOrCreateHandle_spec hx hlen hc₂ (hgenuine.resolve_left hne) hfind
    have hvalues₃ := congrArg (·.update.enumValues) hgrow₃.core
    cases h
    exact hvalues₃.trans hvalues₁
  · cases h
    exact hvalues₁

variable {entry next : TypeEntry} {items : SourceFactRange}

theorem materializeRecord_enumValues (hx : IdentityIndex g.identityIndex g.identities)
    (hlen : g.types.length = g.identities.length) (hg : g.Canonical) (hc : c.Types g)
    (hu : c.contributions.Genuine) (h : materializeRecord g owner entry items c = .ok (c', next)) :
    c'.update.enumValues = c.update.enumValues ∧ next.kind = entry.kind := by
  unfold materializeRecord at h
  dsimp only at h
  split at h
  · cases h
  obtain ⟨c₁, hfold, h⟩ := bind_ok.mp h
  split at h
  · cases h
  cases h
  refine ⟨?_, rfl⟩
  have hall := foldlM_ok_invariant (fun c' => c'.Types g ∧
    c'.update.enumValues = c.update.enumValues) hfold ⟨hc, rfl⟩ ?_
  · exact hall.2
  · intro member c₂ c₃ hmem hc₂ hstep
    have hgenuine := hu.member hmem
    exact ⟨(materializeMember_spec hx hlen hg hc₂.1 hgenuine hstep).1,
      (materializeMember_enumValues hx hlen hg hc₂.1 hgenuine hstep).trans hc₂.2⟩

theorem materializeEnum_settled (hencoded : Encoded (c.contributions.enumValues items))
    (h : materializeEnum g abi entry items c = .ok (c', next)) :
    (∃ added, c'.update.enumValues = c.update.enumValues ++ added) ∧
      EnumSettled abi (g.enumValueRecords ++ c'.update.enumValues) next := by
  unfold materializeEnum at h
  dsimp only at h
  split at h
  · cases h
  split at h
  · obtain ⟨underlying, hselect, h⟩ := bind_ok.mp h
    cases h
    refine ⟨⟨_, rfl⟩, ?_⟩
    rw [← List.append_assoc]
    refine enumSettled_new hencoded (fun _ _ => BuildM.lift_ok.mp hselect) ?_
    rw [List.length_append]
  · rename_i hfixed
    cases h
    refine ⟨⟨_, rfl⟩, ?_⟩
    intro _ _ hscoped hfree
    exact absurd (by rw [show entry.enumFixedUnderlying = false from hfree,
      show entry.enumScoped = false from hscoped]; rfl) hfixed

theorem materializeLive_settled (hx : IdentityIndex g.identityIndex g.identities)
    (hlen : g.types.length = g.identities.length) (hg : g.Canonical) (hc : c.Types g)
    (hu : c.contributions.Genuine)
    (hencoded : ∀ items, Encoded (c.contributions.enumValues items))
    {construction : SourceConstructionState}
    (hkind : ∀ d, c.definitionOf construction = some d → d.kind = construction.kind)
    (h : materializeLive g abi owner construction c = .ok (c', next)) :
    (∃ added, c'.update.enumValues = c.update.enumValues ++ added) ∧
      EnumSettled abi (g.enumValueRecords ++ c'.update.enumValues) next := by
  unfold materializeLive at h
  split at h
  · cases h
    exact ⟨⟨[], by simp⟩, enumSettled_undefined (declaredEntry_defined g owner construction)⟩
  · cases hd : c.definitionOf construction with
    | none =>
      rw [hd] at h
      cases h
    | some definition =>
      rw [hd] at h
      dsimp only at h
      split at h
      · cases h
      · cases hk : definition.kind with
        | record =>
          rw [hk] at h
          obtain ⟨hvalues, hnext⟩ := materializeRecord_enumValues hx hlen hg hc hu h
          refine ⟨⟨[], by simp [hvalues]⟩, enumSettled_record ?_⟩
          rw [hnext, declaredEntry_kind, ← hkind definition hd, hk]
        | enumeration =>
          rw [hk] at h
          exact materializeEnum_settled (hencoded _) h

variable {handle : Nat}

theorem entry_appended (hpatches : c'.update.typePatches = c.update.typePatches)
    (hnew : ∃ added : List IdentityRef, c'.update.newTypes = c.update.newTypes ++ added.map fun _ => ({} : TypeEntry))
    {e : TypeEntry} (h : c'.entry g handle = some e) : c.entry g handle = some e ∨ e = {} := by
  obtain ⟨added, hadded⟩ := hnew
  by_cases hle : handle ≤ g.types.length + c.update.newTypes.length
  · left
    rw [← entry_old hpatches ⟨_, hadded⟩ hle]
    exact h
  · right
    have hne : handle ≠ 0 := by omega
    have hbig : handle > g.types.length := by omega
    have hlast : c.update.newTypes.length ≤ handle - g.types.length - 1 := by omega
    unfold entry at h
    rw [if_neg hne, if_pos hbig, hadded, List.getElem?_append_right hlast] at h
    obtain ⟨_, -, rfl⟩ := List.mem_map.mp (List.mem_of_getElem? h)
    rfl

theorem EnumsSettled.appended (h : c.EnumsSettled g abi)
    (hpatches : c'.update.typePatches = c.update.typePatches)
    (hnew : ∃ added : List IdentityRef,
      c'.update.newTypes = c.update.newTypes ++ added.map fun _ => ({} : TypeEntry))
    (hvalues : ∃ added, c'.update.enumValues = c.update.enumValues ++ added) :
    c'.EnumsSettled g abi := by
  intro handle e he
  obtain ⟨added, hadded⟩ := hvalues
  rw [hadded, ← List.append_assoc]
  rcases entry_appended hpatches hnew he with he | rfl
  · exact (h handle e he).append added
  · exact enumSettled_undefined rfl

theorem settled_enumValues {version count : Nat} :
    (c.settled g handle entry version count).update.enumValues = c.update.enumValues := by
  obtain ⟨_, _, -, heq⟩ := @settled_rest g c handle entry count
  rw [settled, heq]
  rfl

theorem materializeTouched_settled (hx : IdentityIndex g.identityIndex g.identities)
    (hlen : g.types.length = g.identities.length) (hg : g.Canonical) (hc : c.Types g)
    (hu : c.contributions.Genuine)
    (hbase : c.contributions.base = c.contributions.owner.committed.arenas.sizes)
    (hstates : c.contributions.StatesNamed)
    (hencoded : ∀ items, Encoded (c.contributions.enumValues items)) (hne : handle ≠ 0)
    (hle : handle ≤ g.types.length + c.update.newTypes.length) (hs : c.EnumsSettled g abi)
    (h : materializeTouched g abi c handle = .ok c') : c'.EnumsSettled g abi := by
  obtain ⟨construction, c₁, entry, version, count, hstate, hlive, -, rfl⟩ :=
    materializeTouched_cases h
  obtain ⟨-, hadds, -⟩ := touched_adds hx hlen hg hc hu hbase hstates hstate hlive
  obtain ⟨hvalues, hentry⟩ : (∃ added, c₁.update.enumValues = c.update.enumValues ++ added) ∧
      EnumSettled abi (g.enumValueRecords ++ c₁.update.enumValues) entry := by
    rcases hlive with ⟨-, rfl, rfl⟩ | hlive
    · exact ⟨⟨[], by simp⟩, enumSettled_undefined rfl⟩
    · refine materializeLive_settled hx hlen hg hc hu hencoded ?_ hlive
      exact fun _ => definitionOf_kind hbase hstates hstate
  have hmono := hadds.newTypes_length
  obtain ⟨added, -, hadded⟩ := hadds.handles
  have hs₁ := hs.appended hadds.typePatches ⟨added, hadded⟩ hvalues
  intro other e he
  change (c₁.settled g handle entry version count).entry g other = some e at he
  change EnumSettled abi (g.enumValueRecords ++
    (c₁.settled g handle entry version count).update.enumValues) e
  rw [settled_enumValues]
  by_cases ho : other = handle
  · subst ho
    rw [settled_entry_self hne (by omega)] at he
    cases he
    exact hentry
  · rw [settled_entry_other ho] at he
    exact hs₁ other e he

/-- The preparation over a settled Graph leaves settled entries. -/
theorem prepareIncrementalGraph_settled (hg : g.Sound) (hu : u.Genuine)
    (hbase : u.base = u.owner.committed.arenas.sizes) (hstates : u.StatesNamed)
    (hcommitted : Encoded u.owner.committed.arenas.enumValues)
    (hcandidate : Encoded u.candidate.enumValues)
    (hs : ∀ e ∈ g.types, EnumSettled abi g.enumValueRecords e)
    (h : prepareIncrementalGraph g abi u = .ok c) : c.EnumsSettled g abi := by
  obtain ⟨c₂, c₃, c₆, closure, hopen, h₃, hlater, -, -, hlast⟩ :=
    prepareIncrementalGraph_stages hg hu hbase hstates h
  have howner := congrArg SparseUpdate.owner hopen.facts
  have happended := congrArg SparseUpdate.candidate hopen.facts
  change c₂.contributions.owner = u.owner at howner
  change c₂.contributions.candidate = u.candidate at happended
  have hencoded : ∀ items, Encoded (c₂.contributions.enumValues items) := by
    intro items
    refine combinedSpan_encoded ?_ ?_ items
    · rw [howner]
      exact hcommitted
    · rw [happended]
      exact hcandidate
  have hpatches := congrArg PreparedGraphUpdate.typePatches hopen.update
  have hvalues := congrArg PreparedGraphUpdate.enumValues hopen.update
  change c₂.update.typePatches = [] at hpatches
  change c₂.update.enumValues = [] at hvalues
  have hstart : c₂.EnumsSettled g abi := by
    intro handle e he
    rw [hvalues, List.append_nil]
    unfold entry at he
    split at he
    · cases he
    split at he
    · have hfresh := hopen.materialized.fresh _ e he (by simp)
      rw [hfresh]
      exact enumSettled_undefined rfl
    · rw [hpatches] at he
      exact hs e (List.mem_of_getElem? he)
  have hg' := hg.committed
  obtain ⟨-, -, hc₃⟩ := materializeAll_invariant (P := fun c => c.EnumsSettled g abi) hg'.typeIndex
    hg'.typeSlots hg'.canonical hopen.materialized hopen.genuine hopen.base hopen.states
    hopen.touchedNodup hopen.touched hstart
    (fun done handle c₄ c₅ hm hsame hne hle hc₄ hstep => materializeTouched_settled hg'.typeIndex
      hg'.typeSlots hg'.canonical hm.types (by rw [hsame]; exact hopen.genuine)
      (by rw [hsame]; exact hopen.base) (by rw [hsame]; exact hopen.states)
      (by rw [hsame]; exact hencoded) hne hle hc₄ hstep) h₃
  have hside := hlater.keeps.typeSide
  simp only [typeSide, Prod.mk.injEq] at hside
  obtain ⟨-, -, hsame, -, hsameValues, -⟩ := hside
  obtain ⟨added, -, hadded⟩ := hlater.keeps.handles
  have hc₆ := hc₃.appended hsame ⟨added, hadded⟩ ⟨[], by rw [hsameValues, List.append_nil]⟩
  obtain ⟨-, -, -, -, rfl⟩ := checkLoad_ok hlast
  exact hc₆

end Incremental

end Candidate

/-! ## Runs -/

def Build.Parsed (abi : AbiConfiguration) : Build → Prop
  | .full target sources =>
    target = abi ∧ ∀ facts ∈ sources, facts.Genuine ∧ facts.EnumeratorsParsed
  | .incremental target replacements _ =>
    target = abi ∧ ∀ facts ∈ replacements, facts.Genuine ∧ facts.EnumeratorsParsed

theorem Build.Parsed.genuine {abi : AbiConfiguration} {b : Build} (h : b.Parsed abi) : b.Genuine := by
  cases b with
  | full target sources => exact fun facts hfacts => (h.2 facts hfacts).1
  | incremental target replacements removals => exact fun facts hfacts => (h.2 facts hfacts).1

theorem content_encoded {facts : SourceFacts} (h : facts.EnumeratorsParsed) :
    Encoded facts.content.enumValues := by
  intro v hv
  obtain ⟨fact, hfact, rfl⟩ := List.mem_map.mp hv
  exact h.encodes fact hfact

theorem Encoded.append {a b : List SourceContributionEnumValue} (ha : Encoded a) (hb : Encoded b) :
    Encoded (a ++ b) := fun v hv => (List.mem_append.mp hv).elim (ha v) (hb v)

namespace Generation

structure EnumsSettled (abi : AbiConfiguration) (s : Generation) : Prop where
  encoded : Encoded s.cache.committed.arenas.enumValues
  settled : ∀ e ∈ s.graph.types, EnumSettled abi s.graph.enumValueRecords e

variable {s s' : Generation} {abi : AbiConfiguration} {sources : List SourceFacts}

theorem prepareG0_encoded {u₀ u : CacheUpdate} {n : ArenaSizes} {maxSource : Nat}
    (hparsed : ∀ facts ∈ sources, facts.EnumeratorsParsed)
    (h₀ : CacheUpdate.reserveRebuild {} maxSource n = .ok u₀)
    (h : sources.foldlM CacheUpdate.replace u₀ = .ok u) :
    Encoded u.candidate.arenas.enumValues := by
  refine foldlM_ok_invariant (fun u => Encoded u.candidate.arenas.enumValues) h ?_ ?_
  · unfold CacheUpdate.reserveRebuild at h₀
    split at h₀
    · cases h₀
    split at h₀
    · cases h₀
    cases h₀
    intro v hv
    cases hv
  · intro facts v v' hmem hv hstep
    obtain ⟨_, -, hstep⟩ := bind_ok.mp hstep
    dsimp only at hstep
    split at hstep
    · cases hstep
    split at hstep
    · cases hstep
    obtain ⟨payload, hcap, hstep⟩ := bind_ok.mp hstep
    split at hstep
    · cases hstep
    obtain rfl := Except.ok.inj hstep
    obtain rfl := CacheUpdate.capture_content hcap
    exact hv.append (content_encoded (hparsed facts hmem))

theorem publishG0_settled {prepared : CacheUpdate × DetachedGraph}
    (hfacts : ∀ facts ∈ sources, facts.Genuine ∧ facts.EnumeratorsParsed)
    (h : prepareG0 abi sources = .ok prepared) : (s.publishG0 prepared).EnumsSettled abi := by
  unfold prepareG0 at h
  split at h
  · cases h
  obtain ⟨n, -, h⟩ := bind_ok.mp h
  obtain ⟨u₀, h₀, h⟩ := bind_ok.mp h
  obtain ⟨u, hu, h⟩ := bind_ok.mp h
  obtain ⟨⟨construction, detached⟩, hgraph, h⟩ := bind_ok.mp h
  cases h
  have h₀ := BuildM.lift_ok.mp h₀
  have hu := BuildM.lift_ok.mp hu
  have hfresh := prepareG0_rebuilt (fun facts hmem => (hfacts facts hmem).1) h₀ hu
  have hencoded := prepareG0_encoded (fun facts hmem => (hfacts facts hmem).2) h₀ hu
  exact ⟨hencoded, FullBuild.prepareGraph_settled hfresh.rebuilt hencoded hgraph⟩

theorem publishIncremental_settled {replacements : List SourceFacts} {removals : List Nat}
    {prepared : SparseUpdate × Candidate} (hs : s.Sound) (hsettled : s.EnumsSettled abi)
    (hfacts : ∀ facts ∈ replacements, facts.Genuine ∧ facts.EnumeratorsParsed)
    (h : s.prepareIncremental abi replacements removals = .ok prepared)
    (hpublish : s.publishIncremental prepared = .ok s') : s'.EnumsSettled abi := by
  have hgenuine : ∀ facts ∈ replacements, facts.Genuine := fun facts hmem => (hfacts facts hmem).1
  obtain ⟨sources, touchedUpper, n, u₀, u₁, u, h₀, h₁, h₂, hgraph, hprepare⟩ :=
    prepareIncremental_stages h
  obtain ⟨hu, hcandidate⟩ := updating_of_stages (P := fun u => Encoded u.candidate.enumValues)
    hgenuine h₀ h₁ h₂ (fun v hv => by rw [hv]; intro x hx; cases hx)
    (fun facts hmem v v' hv heq => by
      rw [heq]
      exact hv.append (content_encoded (hfacts facts hmem).2))
    (fun v v' hv heq => by rw [heq]; exact hv)
  have hbase : u.base = u.owner.committed.arenas.sizes := by rw [hu.base, hu.owner]
  have hgen : u.Genuine := ⟨by rw [hu.owner]; exact hs.genuine, hu.candidate⟩
  obtain ⟨hcomplete, hsame, -⟩ := Candidate.prepareIncrementalGraph_complete hs.graph hgen hbase
    (updating_states hs hu) hgraph
  have hentries := Candidate.prepareIncrementalGraph_settled hs.graph hgen hbase
    (updating_states hs hu) (by rw [hu.owner]; exact hsettled.encoded) hcandidate hsettled.settled
    hgraph
  obtain ⟨g', hg', hpublish⟩ := bind_ok.mp hpublish
  cases hpublish
  have hp := Graph.published_of_ok hg'
  refine ⟨?_, ?_⟩
  · show Encoded prepared.1.combined.enumValues
    rw [(prepareIncremental_arenas hu hsame hprepare).2]
    exact hsettled.encoded.append hcandidate
  · intro e he
    obtain ⟨i, hi⟩ := List.mem_iff_getElem?.mp he
    have hi : g'.types[i + 1 - 1]? = some e := hi
    rw [Candidate.Complete.published_entry hcomplete hp (by omega)] at hi
    show EnumSettled abi g'.enumValueRecords e
    rw [hp.enumValueRecords]
    exact hentries (i + 1) e hi

theorem build_settled {b : Build} (hs : s = {} ∨ (s.Sound ∧ s.EnumsSettled abi)) (hb : b.Parsed abi)
    (h : s.build b = .ok s') : s'.EnumsSettled abi := by
  cases b with
  | full target sources =>
    obtain ⟨rfl, hfacts⟩ := hb
    obtain ⟨prepared, hprepared, h⟩ := bind_ok.mp h
    cases h
    exact publishG0_settled hfacts hprepared
  | incremental target replacements removals =>
    obtain ⟨rfl, hfacts⟩ := hb
    obtain ⟨prepared, hprepared, h⟩ := bind_ok.mp h
    rcases hs with rfl | ⟨hs, hsettled⟩
    · exact absurd hprepared prepareIncremental_empty
    · exact publishIncremental_settled hs hsettled hfacts hprepared h

/-- The generation is the result of published builds under one ABI over facts of the parser. -/
def PublishedOn (abi : AbiConfiguration) (s : Generation) : Prop :=
  ∃ s₀ force b, Run (fun _ b => b.Parsed abi) s₀ force ∧ b.Parsed abi ∧ s₀.build b = .ok s

theorem run_settled {force : Force} (h : Run (fun _ b => b.Parsed abi) s force) :
    s = {} ∨ (s.Sound ∧ s.EnumsSettled abi) := by
  induction h with
  | initial => exact .inl rfl
  | publish _ hb hbuild ih =>
    exact .inr ⟨build_sound (ih.imp_right And.left) hb.genuine hbuild, build_settled ih hb hbuild⟩

theorem PublishedOn.settled (h : s.PublishedOn abi) : s.EnumsSettled abi := by
  obtain ⟨s₀, force, b, hrun, hb, hbuild⟩ := h
  exact build_settled (run_settled hrun) hb hbuild

end Generation

/-! ## Enumerators fit -/

def EnumValueRecord.constant (r : EnumValueRecord) : SourceIntegralConstant := ⟨r.intrinsic, r.bits⟩

theorem enumValues_selected {g : Graph} {abi : AbiConfiguration} {handle : TypeHandle} {e : TypeEntry}
    (hsettled : EnumSettled abi g.enumValueRecords e) (he : g.findType handle = some e)
    (hkind : e.kind = .enumeration) (hdefined : e.defined = true) (hscoped : e.enumScoped = false)
    (hfixed : e.enumFixedUnderlying = false) :
    (g.enumValues handle).length = e.definition.count ∧
      (underlyingCandidates abi).find? (representsAll abi
        ((g.enumValues handle).map (·.constant))) = some e.enumUnderlying := by
  obtain ⟨values, hencoded, hselect, hcount, hrecords⟩ := hsettled hkind hdefined hscoped hfixed
  have hvalues : g.enumValues handle = values.map (·.record) := by
    unfold Graph.enumValues
    rw [he]
    dsimp only
    rw [if_neg (by simp [hkind, hdefined])]
    have hget : ∀ i < e.definition.count, g.enumValueRecords[e.definition.begin - 1 + i]? =
        (values.map (·.record))[i]? := by
      intro i hi
      have hv : values[i]? = some values[i] := List.getElem?_eq_getElem (by omega)
      rw [hrecords i _ hv, List.getElem?_map, hv]
      rfl
    by_cases hzero : e.definition.count = 0
    · have hnil : values = [] := List.length_eq_zero_iff.mp (by omega)
      rw [hzero, hnil]
      split <;> simp [slice]
    · have hlast := hget (e.definition.count - 1) (by omega)
      have hlen : (values.map (·.record)).length = e.definition.count := by simp [hcount]
      have hstored : e.definition.count - 1 < (values.map (·.record)).length := by omega
      rw [List.getElem?_eq_getElem hstored] at hlast
      have hbound := (List.getElem?_eq_some_iff.mp hlast).1
      rw [if_neg (by simp only [Bool.or_eq_true, decide_eq_true_eq, not_or, not_lt]; omega)]
      refine List.ext_getElem? fun i => ?_
      by_cases hi : i < e.definition.count
      · rw [slice_getElem? hi, hget i hi]
      · rw [List.getElem?_eq_none (by rw [slice_length (by omega)]; omega),
          List.getElem?_eq_none (by omega)]
  have hconstants : (g.enumValues handle).map (·.constant) = values.map (·.value) := by
    rw [hvalues, List.map_map]
    rfl
  refine ⟨by rw [hvalues, List.length_map, hcount], ?_⟩
  rw [hconstants]
  rw [selectEnumUnderlying_find hencoded] at hselect
  split at hselect
  · rename_i type hfind
    rw [hfind, Except.ok.inj hselect]
  · cases hselect

/-- `enum E : unsigned char { A = 300 }; enum F { B = -1, C = 5000000000 };` -/
def enumFacts : SourceFacts where
  source := 1
  sourceTextSize := 80
  enums := [{ identity := ⟨2 * 2 ^ 30 + 1⟩, enumerators := ⟨0, 1⟩, declaration := ⟨0, 35⟩
              underlyingSpelling := ⟨9, 13⟩, explicitUnderlying := .unsignedChar
              declarationKind := .definition },
            { identity := ⟨2 * 2 ^ 30 + 2⟩, enumerators := ⟨1, 2⟩, declaration := ⟨36, 35⟩
              declarationKind := .definition }]
  enumValues := [⟨5, ⟨.signedInt, 300⟩, ⟨25, 7⟩⟩, ⟨6, ⟨.signedInt, asBits (-1)⟩, ⟨45, 6⟩⟩,
    ⟨7, ⟨.signedLongLong, 5000000000⟩, ⟨53, 14⟩⟩]

def enumGeneration : Generation :=
  (({} : Generation).build (.full {} [enumFacts])).toOption.getD {}

theorem enumFacts_parsed : enumFacts.Genuine ∧ enumFacts.EnumeratorsParsed := by
  refine ⟨⟨?_, ?_, ?_, ?_⟩, [[some ⟨false, 300⟩], [some ⟨true, 1⟩, some ⟨false, 5000000000⟩]],
    [[⟨.signedInt, 300⟩], [⟨.signedInt, asBits (-1)⟩, ⟨.signedLongLong, 5000000000⟩]], ?_, rfl⟩
  · simp [enumFacts]
  · simp [enumFacts, IdentityRef.Genuine, IdentityRef.valid, IdentityRef.slot]
  · simp [enumFacts]
  · simp [enumFacts]
  · decide +kernel

theorem enumGeneration_published : enumGeneration.PublishedOn {} := by
  refine ⟨{}, Force.none, .full {} [enumFacts], .initial, ⟨rfl, ?_⟩, ?_⟩
  · intro facts hfacts
    rw [List.mem_singleton] at hfacts
    rw [hfacts]
    exact enumFacts_parsed
  · have hsome : (({} : Generation).build (.full {} [enumFacts])).toOption.isSome = true := by
      decide +kernel
    unfold enumGeneration
    cases hbuild : ({} : Generation).build (.full {} [enumFacts]) with
    | ok s => rfl
    | error e =>
      rw [hbuild] at hsome
      cases hsome

/-- In every published Graph the enumerators of a live defined enumeration without a fixed or default
underlying type are represented by its underlying type, which is the first candidate that represents
them. The selection fails exactly when no candidate does. Where the underlying type is fixed or the
enumeration scoped, both builders take it without looking at the values. -/
theorem Generation.enumerators_representable {abi : AbiConfiguration} {s : Generation}
    (h : s.PublishedOn abi) :
    (∀ handle e, s.graph.findType handle = some e → e.kind = .enumeration → e.defined = true →
      e.enumScoped = false → e.enumFixedUnderlying = false →
      (s.graph.enumValues handle).length = e.definition.count ∧
      (∀ r ∈ s.graph.enumValues handle,
        representable abi e.enumUnderlying (constantValue abi r.constant) = true) ∧
      (underlyingCandidates abi).find? (representsAll abi
        ((s.graph.enumValues handle).map (·.constant))) = some e.enumUnderlying) ∧
    (∀ values, Encoded values → selectEnumUnderlying values abi =
      match (underlyingCandidates abi).find? (representsAll abi (values.map (·.value))) with
      | some type => .ok type
      | none => .error .semanticConflict) ∧
    (∀ contribution values values' entry, (entry.enumFixedUnderlying = true ∨
        contribution.explicitUnderlying ≠ .none ∨ contribution.enumScoped = true) →
      FullBuild.settleUnderlying abi contribution values entry =
        FullBuild.settleUnderlying abi contribution values' entry) ∧
    ∀ items entry c next, (entry.enumFixedUnderlying = true ∨ entry.enumScoped = true) →
      Candidate.materializeEnum s.graph abi entry items c = .ok next →
      next.2.enumUnderlying = entry.enumUnderlying := by
  refine ⟨?_, fun values hencoded => selectEnumUnderlying_find hencoded, ?_, ?_⟩
  · intro handle e he hkind hdefined hscoped hfixed
    have hmem : e ∈ s.graph.types := by
      unfold Graph.findType at he
      split at he
      · cases he
      · exact List.mem_of_getElem? (Option.filter_eq_some_iff.mp he).1
    obtain ⟨hlength, hfind⟩ := enumValues_selected (h.settled.settled e hmem) he hkind hdefined
      hscoped hfixed
    refine ⟨hlength, ?_, hfind⟩
    have hall := List.find?_some hfind
    rw [representsAll, List.all_eq_true] at hall
    intro r hr
    exact hall r.constant (List.mem_map_of_mem hr)
  · intro contribution values values' entry hcases
    unfold FullBuild.settleUnderlying
    split
    · rfl
    · rename_i hfree
      split
      · rfl
      · rename_i hnone
        rw [if_pos (hcases.resolve_left hfree |>.resolve_left hnone),
          if_pos (hcases.resolve_left hfree |>.resolve_left hnone)]
  · intro items entry c next hcases hstep
    unfold Candidate.materializeEnum at hstep
    dsimp only at hstep
    split at hstep
    · cases hstep
    have hskip : (!entry.enumFixedUnderlying && !entry.enumScoped) = false := by
      rcases hcases with hcase | hcase <;> simp [hcase]
    rw [if_neg (by simp [hskip])] at hstep
    obtain ⟨underlying, hsame, hstep⟩ := bind_ok.mp hstep
    cases hsame
    cases hstep
    rfl

theorem enumerators_representable_inferred : (enumGeneration.graph.enumValues 2).length = 2 ∧
    (∀ r ∈ enumGeneration.graph.enumValues 2,
      representable {} .signedLongLong (constantValue {} r.constant) = true) ∧
    (underlyingCandidates {}).find? (representsAll {}
      ((enumGeneration.graph.enumValues 2).map (·.constant))) = some .signedLongLong :=
  (Generation.enumerators_representable enumGeneration_published).1 2
    { definition := ⟨2, 2⟩, live := true, kind := .enumeration, enumUnderlying := .signedLongLong }
    (by decide +kernel) rfl rfl rfl rfl

/-- A fixed underlying type is published with a value that it does not represent. -/
theorem fixed_underlying_unchecked : ¬ ∀ (abi : AbiConfiguration) (s : Generation),
    s.PublishedOn abi → ∀ handle e, s.graph.findType handle = some e → e.kind = .enumeration →
      e.defined = true → ∀ r ∈ s.graph.enumValues handle,
        representable abi e.enumUnderlying (constantValue abi r.constant) = true := by
  intro h
  have hfind : enumGeneration.graph.findType 1 = some
      { definition := ⟨1, 1⟩, live := true, kind := .enumeration, enumUnderlying := .unsignedChar
        enumFixedUnderlying := true } := by decide +kernel
  have hvalues : enumGeneration.graph.enumValues 1 = [⟨300, 5, .signedInt⟩] := by decide +kernel
  have hfits := h {} enumGeneration enumGeneration_published 1 _ hfind rfl rfl
    ⟨300, 5, .signedInt⟩ (by rw [hvalues]; exact List.mem_singleton_self _)
  exact absurd hfits (by decide)

end ServerEngine

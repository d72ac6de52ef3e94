import ServerEngine.Library.BoundedSearch
import ServerEngine.Parser.Declarations

/-! # Lookups through imports

A lookup asks an interface, then the interfaces it imports, the last one first. It finds a declaration
wherever there is one within 1024 imports; `source_environment` asks so the imports that are visible.
-/
namespace ServerEngine
open ProbedTable BoundedSearch

/-! ## The environment of a source -/

/-- `source_environment_import`; an interface is named by its address. -/
structure SourceEnvironmentImport where
  visibleFrom : Nat := 0
  interface : Option Nat := none

namespace SourceEnvironment
open SourceInterface

def findType (interfaces : Interfaces) (imports : List SourceEnvironmentImport)
    (scope : IdentityRef) (name sourceOffset : Nat) : IdentityRef :=
  (imports.reverse.findSome? fun imported =>
    if imported.visibleFrom > sourceOffset then none
    else match imported.interface with
      | none => none
      | some address =>
        let found := SourceInterface.findType interfaces (interfaces address) scope name
        if found.valid then some found else none).getD .null

def findObject (interfaces : Interfaces) (imports : List SourceEnvironmentImport)
    (scope : IdentityRef) (name sourceOffset : Nat) : IdentityRef × IdentityRef :=
  (imports.reverse.findSome? fun imported =>
    if imported.visibleFrom > sourceOffset then none
    else match imported.interface with
      | none => none
      | some address =>
        let found := SourceInterface.findObject interfaces (interfaces address) scope name
        if found.1.valid then some found else none).getD (.null, .null)

def findMember (interfaces : Interfaces) (imports : List SourceEnvironmentImport)
    (type : IdentityRef) (name sourceOffset : Nat) : Nat :=
  (imports.reverse.findSome? fun imported =>
    if imported.visibleFrom > sourceOffset then none
    else match imported.interface with
      | none => none
      | some address =>
        let found := SourceInterface.findMember interfaces (interfaces address) type name
        if found ≠ invalidMember then some found else none).getD invalidMember

end SourceEnvironment

structure InterfaceGraph where
  nodes : List Nat
  interfaces : SourceInterface.Interfaces
  origin : Nat → SourceInterface.Origin
  fits : ∀ a ∈ nodes, (origin a).FitsWords
  initialized : ∀ a ∈ nodes, ∃ imports allocated,
    (origin a).initializeTables imports allocated = .ok (interfaces a)
  closed : ∀ a ∈ nodes, ∀ b ∈ (interfaces a).imports, b ∈ nodes

namespace InterfaceGraph
open SourceInterface
variable (g : InterfaceGraph)

def next (a : Nat) : List Nat := (g.interfaces a).imports

def SeesType (a : Nat) (scope : IdentityRef) (name : Nat) (identity : IdentityRef) : Prop :=
  ∃ c, Within g.next 1024 a c ∧ (g.origin c).DeclaresType ⟨scope, name, identity⟩

/-- Some interface within 1024 imports declares the object with the type it names. -/
def SeesObject (a : Nat) (scope : IdentityRef) (name : Nat) (found : IdentityRef × IdentityRef) :
    Prop :=
  ∃ c, Within g.next 1024 a c ∧ (g.origin c).DeclaresObject ⟨scope, name, found.1, found.2⟩

def SeesMember (a : Nat) (type : IdentityRef) (name index : Nat) : Prop :=
  ∃ c, Within g.next 1024 a c ∧ (g.origin c).DeclaresMember ⟨type, name, index⟩

def AnyVisible {β : Type} (imports : List SourceEnvironmentImport) (sourceOffset : Nat)
    (sees : Nat → β → Prop) (found : β) : Prop :=
  ∃ imported ∈ imports, imported.visibleFrom ≤ sourceOffset ∧
    ∃ address, imported.interface = some address ∧ sees address found

variable {g} {a : Nat}

theorem declares (ha : a ∈ g.nodes) : Declares (g.origin a) (g.interfaces a) := by
  obtain ⟨imports, allocated, hok⟩ := g.initialized a ha
  exact initializeTables_declares (g.fits a ha) hok

theorem within_nodes {n c : Nat} (h : Within g.next n a c) (ha : a ∈ g.nodes) : c ∈ g.nodes := by
  induction h with
  | here => exact ha
  | step hmem _ ih => exact ih (g.closed _ ha _ hmem)

/-! ## Lookups in a graph -/

theorem finds_in_graph {S κ β : Type} [DecidableEq κ] {f : Format S κ} {checked : S → Bool}
    {table : SourceInterface → List S} {declared : Origin → S → Prop} {result : S → β}
    {valid : β → Bool} {null : β} {lookup : Nat → SourceInterface → β} {k : κ} {guard : Bool}
    {shown : Origin → β → Prop} (hnull : valid null = false)
    (hanswers : ∀ c ∈ g.nodes, Answers f checked (table (g.interfaces c)) (declared (g.origin c)))
    (hchecked : ∀ e, checked e = true → valid (result e) = true ∧ (f.key e = k → guard = false))
    (hshown : ∀ origin b, shown origin b ↔ ∃ e, (declared origin e ∧ f.key e = k) ∧ result e = b)
    (hzero : ∀ interface, lookup 0 interface = null)
    (hsucc : ∀ fuel interface, lookup (fuel + 1) interface = if guard then null else
      ((find f (table interface) k).map result).getD
        ((interface.imports.reverse.findSome? fun address =>
          if valid (lookup fuel (g.interfaces address)) then
            some (lookup fuel (g.interfaces address)) else none).getD null)) (ha : a ∈ g.nodes) :
    Finds valid null (fun b => ∃ c, Within g.next 1024 a c ∧ shown (g.origin c) b)
      (lookup searchDepth (g.interfaces a)) := by
  have hanswer : ∀ c ∈ g.nodes, ∀ b, (find f (table (g.interfaces c)) k).map result = some b ↔
      shown (g.origin c) b := by
    intro c hc b
    rw [Option.map_eq_some_iff, hshown]
    exact exists_congr fun e => and_congr_left' ((hanswers c hc).find k e)
  have hdeclared : ∀ c ∈ g.nodes, ∀ b, shown (g.origin c) b → valid b = true ∧ guard = false := by
    intro c hc b hb
    obtain ⟨e, ⟨he, hkey⟩, rfl⟩ := (hshown _ b).mp hb
    have hvalid := hchecked e ((hanswers c hc).checked e he)
    exact ⟨hvalid.1, hvalid.2 hkey⟩
  cases guard with
  | true =>
    unfold searchDepth
    rw [hsucc, if_pos rfl]
    apply finds_nothing hnull
    intro b hb
    obtain ⟨c, hwithin, hshows⟩ := hb
    cases (hdeclared c (within_nodes hwithin ha) b hshows).2
  | false =>
    have hfinds := @finds_within Nat β valid null g.next
      (fun c => (find f (table (g.interfaces c)) k).map result)
      (fun fuel c => lookup fuel (g.interfaces c)) (· ∈ g.nodes) hnull g.closed
      (fun c hc b hb => (hdeclared c hc b ((hanswer c hc b).mp hb)).1)
      (fun c => hzero _) (fun fuel c => (hsucc fuel _).trans (if_neg (by simp))) 1024 a ha
    apply hfinds.congr
    intro b
    exact exists_congr fun c => and_congr_right fun hwithin => hanswer c (within_nodes hwithin ha) b

section Lookups
variable {scope type : IdentityRef} {name : Nat}

theorem findType_finds (ha : a ∈ g.nodes) :
    Finds IdentityRef.valid .null (g.SeesType a scope name)
      (SourceInterface.findType g.interfaces (g.interfaces a) scope name) := by
  refine @finds_in_graph g a _ _ IdentityRef _ typeFormat persistedTypeSlot (·.typeSlots)
    Origin.DeclaresType (·.identity) IdentityRef.valid .null
    (findTypeRecursive g.interfaces scope name) (scope, name) (!scope.valid || decide (name = 0))
    (fun origin identity => origin.DeclaresType ⟨scope, name, identity⟩) rfl
    (fun c hc => (declares hc).types) ?_ ?_ (fun _ => rfl) ?_ ha
  · intro e he
    simp only [persistedTypeSlot, Bool.and_eq_true, decide_eq_true_eq] at he
    refine ⟨he.2, fun hkey => ?_⟩
    obtain ⟨rfl, rfl⟩ := Prod.mk.inj hkey
    simp [he.1.1, he.1.2]
  · intro origin b
    constructor
    · exact fun h => ⟨_, ⟨h, rfl⟩, rfl⟩
    · intro h
      obtain ⟨⟨parent, slotName, identity⟩, ⟨hdeclared, hkey⟩, rfl⟩ := h
      obtain ⟨rfl, rfl⟩ := Prod.mk.inj hkey
      exact hdeclared
  · intro fuel interface
    rw [findTypeRecursive]
    cases find typeFormat interface.typeSlots (scope, name) <;> rfl

theorem findObject_finds (ha : a ∈ g.nodes) :
    Finds (fun found => found.1.valid) (.null, .null) (g.SeesObject a scope name)
      (SourceInterface.findObject g.interfaces (g.interfaces a) scope name) := by
  refine @finds_in_graph g a _ _ (IdentityRef × IdentityRef) _ objectFormat persistedObjectSlot
    (·.objectSlots) Origin.DeclaresObject (fun slot => (slot.identity, slot.namedType))
    (fun found => found.1.valid) (.null, .null) (findObjectRecursive g.interfaces scope name)
    (scope, name) (!scope.valid || decide (name = 0))
    (fun origin found => origin.DeclaresObject ⟨scope, name, found.1, found.2⟩) rfl
    (fun c hc => (declares hc).objects) ?_ ?_ (fun _ => rfl) ?_ ha
  · intro e he
    simp only [persistedObjectSlot, Bool.and_eq_true, decide_eq_true_eq] at he
    refine ⟨he.2, fun hkey => ?_⟩
    obtain ⟨rfl, rfl⟩ := Prod.mk.inj hkey
    simp [he.1.1, he.1.2]
  · intro origin b
    constructor
    · exact fun h => ⟨_, ⟨h, rfl⟩, rfl⟩
    · intro h
      obtain ⟨⟨parent, slotName, identity, namedType⟩, ⟨hdeclared, hkey⟩, rfl⟩ := h
      obtain ⟨rfl, rfl⟩ := Prod.mk.inj hkey
      exact hdeclared
  · intro fuel interface
    rw [findObjectRecursive]
    cases find objectFormat interface.objectSlots (scope, name) <;> rfl

theorem findMember_finds (ha : a ∈ g.nodes) :
    Finds (fun index => index != invalidMember) invalidMember (g.SeesMember a type name)
      (SourceInterface.findMember g.interfaces (g.interfaces a) type name) := by
  refine @finds_in_graph g a _ _ Nat _ memberFormat persistedMemberSlot (·.memberSlots)
    Origin.DeclaresMember (·.index) (fun index => index != invalidMember) invalidMember
    (findMemberRecursive g.interfaces type name) (type, name) (!type.valid || decide (name = 0))
    (fun origin index => origin.DeclaresMember ⟨type, name, index⟩) (by simp)
    (fun c hc => (declares hc).members) ?_ ?_ (fun _ => rfl) ?_ ha
  · intro e he
    simp only [persistedMemberSlot, Bool.and_eq_true, decide_eq_true_eq] at he
    refine ⟨by simpa using he.2, fun hkey => ?_⟩
    obtain ⟨rfl, rfl⟩ := Prod.mk.inj hkey
    simp [he.1.1, he.1.2]
  · intro origin b
    constructor
    · exact fun h => ⟨_, ⟨h, rfl⟩, rfl⟩
    · intro h
      obtain ⟨⟨slotType, slotName, index⟩, ⟨hdeclared, hkey⟩, rfl⟩ := h
      obtain ⟨rfl, rfl⟩ := Prod.mk.inj hkey
      exact hdeclared
  · intro fuel interface
    rw [findMemberRecursive]
    cases find memberFormat interface.memberSlots (type, name) <;> simp

/-! ## Lookups from a source -/

/-- The loop over the imports of an environment, whatever is looked up. -/
theorem finds_visible {β : Type} {valid : β → Bool} {null : β} {sees : Nat → β → Prop}
    {result : Nat → β} {imports : List SourceEnvironmentImport} {sourceOffset : Nat}
    (hnull : valid null = false)
    (hresult : ∀ imported ∈ imports, ∀ address, imported.interface = some address →
      Finds valid null (sees address) (result address)) :
    Finds valid null (AnyVisible imports sourceOffset sees)
      ((imports.reverse.findSome? fun imported =>
        if imported.visibleFrom > sourceOffset then none
        else match imported.interface with
          | none => none
          | some address => if valid (result address) then some (result address) else none).getD
        null) := by
  -- an import that is skipped counts as one with the null result
  have hitem : (fun imported : SourceEnvironmentImport =>
      if imported.visibleFrom > sourceOffset then none
      else match imported.interface with
        | none => none
        | some address => if valid (result address) then some (result address) else none) =
      fun imported =>
        let found := if imported.visibleFrom > sourceOffset then null
          else (imported.interface.map result).getD null
        if valid found then some found else none := by
    funext imported
    by_cases hhidden : imported.visibleFrom > sourceOffset
    · simp [hhidden, hnull]
    · cases himported : imported.interface with
      | none => simp [hhidden, hnull]
      | some address => simp [hhidden]
  rw [hitem]
  refine (@finds_last β _ valid null imports _ (fun imported found =>
    imported.visibleFrom ≤ sourceOffset ∧
      ∃ address, imported.interface = some address ∧ sees address found) hnull ?_).congr
    fun _ => Iff.rfl
  intro imported hmem
  by_cases hhidden : imported.visibleFrom > sourceOffset
  · rw [if_pos hhidden]
    apply finds_nothing hnull
    intro b hb
    omega
  · rw [if_neg hhidden]
    cases himported : imported.interface with
    | none =>
      apply finds_nothing hnull
      intro b hb
      obtain ⟨-, address, hsome, -⟩ := hb
      cases hsome
    | some address =>
      apply (hresult imported hmem address himported).congr
      intro b
      constructor
      · intro hb
        exact ⟨by omega, address, rfl, hb⟩
      · intro hb
        obtain ⟨-, address', hsome, hb⟩ := hb
        cases hsome
        exact hb

/-- A lookup finds a declaration within 1024 imports wherever there is one, and only such; with one
declared type it is that type. From a source the visible imports count. -/
theorem lookups_within_imports :
    (∀ a ∈ g.nodes, ∀ scope name,
      Finds IdentityRef.valid .null (g.SeesType a scope name)
        (SourceInterface.findType g.interfaces (g.interfaces a) scope name) ∧
      (∀ identity, g.SeesType a scope name identity →
        (∀ other, g.SeesType a scope name other → other = identity) →
        SourceInterface.findType g.interfaces (g.interfaces a) scope name = identity) ∧
      Finds (fun found => found.1.valid) (.null, .null) (g.SeesObject a scope name)
        (SourceInterface.findObject g.interfaces (g.interfaces a) scope name) ∧
      Finds (fun index => index != invalidMember) invalidMember (g.SeesMember a scope name)
        (SourceInterface.findMember g.interfaces (g.interfaces a) scope name)) ∧
    (∀ imports : List SourceEnvironmentImport,
      (∀ imported ∈ imports, ∀ address, imported.interface = some address → address ∈ g.nodes) →
      ∀ scope name sourceOffset,
        Finds IdentityRef.valid .null
          (AnyVisible imports sourceOffset fun address => g.SeesType address scope name)
          (SourceEnvironment.findType g.interfaces imports scope name sourceOffset) ∧
        Finds (fun found => found.1.valid) (.null, .null)
          (AnyVisible imports sourceOffset fun address => g.SeesObject address scope name)
          (SourceEnvironment.findObject g.interfaces imports scope name sourceOffset) ∧
        Finds (fun index => index != invalidMember) invalidMember
          (AnyVisible imports sourceOffset fun address => g.SeesMember address scope name)
          (SourceEnvironment.findMember g.interfaces imports scope name sourceOffset)) := by
  constructor
  · intro a ha scope name
    exact ⟨findType_finds ha, fun identity hsees hone => (findType_finds ha).unique hsees hone,
      findObject_finds ha, findMember_finds ha⟩
  · intro imports himports scope name sourceOffset
    refine ⟨finds_visible rfl fun imported hmem address heq =>
        findType_finds (himports imported hmem address heq),
      finds_visible rfl fun imported hmem address heq =>
        findObject_finds (himports imported hmem address heq), ?_⟩
    have hmember := @finds_visible Nat (fun index => index != invalidMember) invalidMember
      (fun address => g.SeesMember address scope name)
      (fun address => SourceInterface.findMember g.interfaces (g.interfaces address) scope name)
      imports sourceOffset (by simp) fun imported hmem address heq =>
        findMember_finds (himports imported hmem address heq)
    unfold SourceEnvironment.findMember
    simpa only [bne_iff_ne, ne_eq] using hmember

end Lookups

/-! ## A chain of imports -/

def chainOrigin : Nat → Origin
  | 0 => .parsed forwardFacts rootView true
  | a + 1 => .parsed { source := a + 2, sourceTextSize := 24 } rootView true

def chainInterface : Nat → SourceInterface
  | 0 => {
    localTypes := [⟨2147483650⟩]
    typeSlots := (List.replicate 16 {}).set 15 ⟨⟨1⟩, 5, ⟨2147483650⟩⟩
    objectSlots := List.replicate 16 {}
    memberSlots := List.replicate 16 {}
    persistenceTypeSlots := [⟨⟨1⟩, 5, ⟨2147483650⟩⟩]
    persistenceLocalTypeCount := 1
    persistenceTypeSlotCount := 1 }
  | a + 1 => {
    typeSlots := List.replicate 16 {}
    objectSlots := List.replicate 16 {}
    memberSlots := List.replicate 16 {}
    imports := [a] }

def chain (length : Nat) : InterfaceGraph where
  nodes := List.range length
  interfaces := chainInterface
  origin := chainOrigin
  fits := by
    intro a _
    cases a with
    | zero => simp [chainOrigin, Origin.FitsWords, forwardFacts]
    | succ a => simp [chainOrigin, Origin.FitsWords]
  initialized := by
    intro a _
    cases a with
    | zero => exact ⟨[], true, by decide +kernel⟩
    | succ a => exact ⟨[some a], true, rfl⟩
  closed := by
    intro a ha b hb
    rw [List.mem_range] at ha ⊢
    cases a with
    | zero => cases hb
    | succ a =>
      rw [List.mem_singleton.mp hb]
      omega

variable {length : Nat}

theorem chain_mem (h : a < length) : a ∈ (chain length).nodes := List.mem_range.mpr h

theorem chain_within (n : Nat) : Within (chain length).next n n 0 := by
  induction n with
  | zero => exact .here 0 0
  | succ n ih => exact .step (List.mem_singleton.mpr rfl) ih

theorem chain_declares : ((chain length).origin 0).DeclaresType ⟨⟨1⟩, 5, ⟨2147483650⟩⟩ :=
  ⟨⟨2147483650⟩, by decide, rfl⟩

theorem chain_sees {identity : IdentityRef} (h : (chain length).SeesType a ⟨1⟩ 5 identity) :
    identity = ⟨2147483650⟩ := by
  obtain ⟨c, -, hdeclared⟩ := h
  cases c with
  | zero =>
    obtain ⟨i, hi, heq⟩ := hdeclared
    cases heq
    have hmem : ∀ i ∈ typeIdentities forwardFacts, i = ⟨2147483650⟩ := by decide
    exact hmem _ hi
  | succ c =>
    obtain ⟨i, hi, -⟩ := hdeclared
    cases hi

/-- Behind 1024 imports the type is found. -/
theorem lookups_within_imports_chain :
    SourceInterface.findType (chain 1026).interfaces ((chain 1026).interfaces 1024) ⟨1⟩ 5 =
      ⟨2147483650⟩ :=
  ((lookups_within_imports (g := chain 1026)).1 1024 (chain_mem (by omega)) ⟨1⟩ 5).2.1
    ⟨2147483650⟩ ⟨0, chain_within 1024, chain_declares⟩ fun _ hother => chain_sees hother

theorem chain_exhausted (fuel a : Nat) (h : fuel ≤ a) :
    findTypeRecursive (chain length).interfaces ⟨1⟩ 5 fuel ((chain length).interfaces a) = .null := by
  induction fuel generalizing a with
  | zero => rfl
  | succ fuel ih =>
    obtain ⟨b, rfl⟩ : ∃ b, a = b + 1 := ⟨a - 1, by omega⟩
    have hnone : find typeFormat ((chain length).interfaces (b + 1)).typeSlots (⟨1⟩, 5) = none :=
      find_replicate rfl 16 _
    rw [findTypeRecursive, if_neg (by decide), hnone]
    show ([b].reverse.findSome? fun address =>
      let found := findTypeRecursive (chain length).interfaces ⟨1⟩ 5 fuel ((chain length).interfaces address)
      if found.valid then some found else none).getD .null = _
    rw [List.reverse_singleton, List.findSome?_cons, ih b (by omega)]
    rfl

/-- Behind 1025 imports the type is not found, though the interface reaches its declaration. -/
theorem deep_import_missed :
    Relation.ReflTransGen (fun a b => b ∈ (chain 1026).next a) 1025 0 ∧
      ((chain 1026).origin 0).DeclaresType ⟨⟨1⟩, 5, ⟨2147483650⟩⟩ ∧
      SourceInterface.findType (chain 1026).interfaces ((chain 1026).interfaces 1025) ⟨1⟩ 5 = .null :=
  ⟨exists_within_iff.mp ⟨1025, chain_within 1025⟩, chain_declares,
    chain_exhausted searchDepth 1025 (Nat.le_refl _)⟩

end InterfaceGraph
end ServerEngine

import ServerEngine.Config.ProjectLoader
import ServerEngine.Config.SchemaKeys
import ServerEngine.Config.SchemaRuns
import ServerEngine.Json.Totality
import Mathlib.Data.Fintype.Basic

/-! # The project configuration's schema

Which JSON values are project configurations, and the configuration each one describes. The values
that fit the handler's tables are these.
-/
namespace ServerEngine

/-! ## The schema -/

def ProjectItemRole.text : ProjectItemRole → Bytes
  | .type => asciiBytes "type"
  | .source => asciiBytes "source"
  | .project => asciiBytes "project"

def AbiTarget.text : AbiTarget → Bytes
  | .windowsX64 => asciiBytes "windows-x64"
  | .posixX64 => asciiBytes "posix-x64"

def member (key : String) (value : JsonValue) : Bytes × JsonValue := (asciiBytes key, value)

inductive AbiSchema : JsonValue → AbiTarget → UInt32 → Prop
  | object {ms : List (Bytes × JsonValue)} {target : AbiTarget} {pack : UInt32}
      (hkeys : ms.Perm [member "target" (.string target.text),
        member "pack" (.integer pack.toNat)])
      (hpack : isSupportedAbiPack pack = true) : AbiSchema (.object ms) target pack

inductive ItemSchema (resolve : Bytes → Option Bytes) (isAbsolute : Bytes → Bool) :
    JsonValue → ProjectItemConfiguration → Prop
  | object {ms : List (Bytes × JsonValue)} {text : Bytes} {role : ProjectItemRole} {path : Bytes}
      (hkeys : ms.Perm [member "path" (.string text), member "role" (.string role.text)])
      (htext : text ≠ []) (hpath : resolve text = some path) :
      ItemSchema resolve isAbsolute (.object ms) ⟨path, role, isAbsolute path⟩

inductive ProjectSchema (resolve : Bytes → Option Bytes) (isAbsolute : Bytes → Bool) :
    JsonValue → ProjectConfiguration → Prop
  | object {ms configuration : List (Bytes × JsonValue)} {name : Bytes} {items : List JsonValue}
      {project : List ProjectItemConfiguration} {abiValue : JsonValue} {target : AbiTarget}
      {pack : UInt32}
      (hkeys : ms.Perm [member "version" (.integer currentProjectConfigurationVersion.toNat),
        member "name" (.string name), member "project" (.array items),
        member "configuration" (.object configuration)])
      (hname : name ≠ []) (hitems : List.Forall₂ (ItemSchema resolve isAbsolute) items project)
      (hconfiguration : configuration.Perm [member "abi" abiValue]) (habi : AbiSchema abiValue target pack) :
      ProjectSchema resolve isAbsolute (.object ms)
        { version := currentProjectConfigurationVersion, name, project, abiTarget := target
          abiPack := pack, materialized := true }

namespace ProjectLoader

/-! ## The tables -/

instance : Fintype Context :=
  ⟨{.root, .items, .item, .configuration, .abi, .invalid}, by intro c; cases c <;> decide⟩

instance : Fintype Field :=
  ⟨{.none, .version, .name, .project, .configuration, .path, .role, .abi, .target, .pack, .unknown},
    by intro f; cases f <;> decide⟩

def scope : Context → Field → List Context
  | .root, .project => [.item]
  | .root, .configuration => [.configuration, .abi]
  | .items, _ => [.item]
  | .configuration, .abi => [.abi]
  | _, _ => []

def level : Context → Nat
  | .items | .configuration => 1
  | .item | .abi => 2
  | _ => 0

def keyText : Field → Bytes
  | .none | .unknown => []
  | .version => asciiBytes "version"
  | .name => asciiBytes "name"
  | .project => asciiBytes "project"
  | .configuration => asciiBytes "configuration"
  | .path => asciiBytes "path"
  | .role => asciiBytes "role"
  | .abi => asciiBytes "abi"
  | .target => asciiBytes "target"
  | .pack => asciiBytes "pack"

theorem identify_cases (c : Context) (key : Bytes) : identify c key = .unknown ∨
    identify c key ∈ required c ∧ key = keyText (identify c key) := by
  unfold identify
  cases c with
  | root =>
    dsimp only
    split_ifs with h₁ h₂ h₃ h₄
    · exact .inr ⟨by decide, h₁⟩
    · exact .inr ⟨by decide, h₂⟩
    · exact .inr ⟨by decide, h₃⟩
    · exact .inr ⟨by decide, h₄⟩
    · exact .inl rfl
  | item =>
    dsimp only
    split_ifs with h₁ h₂
    · exact .inr ⟨by decide, h₁⟩
    · exact .inr ⟨by decide, h₂⟩
    · exact .inl rfl
  | configuration =>
    dsimp only
    split_ifs with h₁
    · exact .inr ⟨by decide, h₁⟩
    · exact .inl rfl
  | abi =>
    dsimp only
    split_ifs with h₁ h₂
    · exact .inr ⟨by decide, h₁⟩
    · exact .inr ⟨by decide, h₂⟩
    · exact .inl rfl
  | items => exact .inl rfl
  | invalid => exact .inl rfl

theorem identify_keyText : ∀ c f, f ∈ required c → identify c (keyText f) = f := by decide +kernel

variable (resolve : Bytes → Option Bytes) (isAbsolute : Bytes → Bool)

theorem handler_lawful : (handler resolve isAbsolute).Lawful scope level where
  object := by
    have h : ∀ c f, objectContext c f ≠ .invalid → objectContext c f ∈ scope c f ∧
        (objectContext c f == .items) = false ∧ level (objectContext c f) = level c + 1 ∧
        ∀ g, ∀ x ∈ scope (objectContext c f) g, x ∈ scope c f := by decide +kernel
    exact h
  array := by
    have h : ∀ c f, arrayContext c f ≠ .invalid → (arrayContext c f == .items) = true ∧
        level (arrayContext c f) = level c + 1 ∧
        ∀ g, ∀ x ∈ scope (arrayContext c f) g, x ∈ scope c f ∧ (x == .item) = true := by
      decide +kernel
    exact h
  apart := by
    have h : ∀ (c : Context) f g, (c == .items) = false → f ≠ g → ∀ x ∈ scope c f,
        x ∉ scope c g := by decide +kernel
    exact h
  outside := by decide +kernel
  root := ⟨rfl, rfl, rfl⟩
  bounded := by decide +kernel

theorem handler_keyed : (handler resolve isAbsolute).Keyed keyText where
  identify := by
    intro c key f hf
    constructor
    · intro h
      have hfield : identify c key = f := h
      rw [← hfield]
      exact (identify_cases c key).resolve_left fun heq => hf (hfield.symm.trans heq)
    · intro h
      obtain ⟨hmem, rfl⟩ := h
      exact identify_keyText c f hmem
  nodup := by
    have h : ∀ c, (required c).Nodup := by decide +kernel
    exact h
  known := by
    have h : ∀ c, Field.unknown ∉ required c := by decide +kernel
    exact h

theorem takes_object (c : Context) (f : Field) (h : objectContext c f ≠ .invalid) :
    (handler resolve isAbsolute).TakesObject c f := by
  cases c <;> cases f <;>
    first
    | exact absurd rfl h
    | exact ⟨h, rfl, fun _ _ _ h => (nomatch h), fun _ _ _ h => (nomatch h), fun _ _ _ h => (nomatch h)⟩

variable {resolve isAbsolute} {f : Field} {v : JsonValue} {d d' : Data}

/-! ## `configuration.abi` -/

def setTarget (target : AbiTarget) (d : Data) : Data :=
  { d with candidate := { d.candidate with abiTarget := target } }

def setPack (pack : UInt32) (d : Data) : Data :=
  { d with candidate := { d.candidate with abiPack := pack } }

def setAbi (target : AbiTarget) (pack : UInt32) (d : Data) : Data := setPack pack (setTarget target d)

inductive AbiUpdate : Field → JsonValue → (Data → Data) → Prop
  | target (target : AbiTarget) : AbiUpdate .target (.string target.text) (setTarget target)
  | pack {pack : UInt32} (hpack : isSupportedAbiPack pack = true) :
      AbiUpdate .pack (.integer pack.toNat) (setPack pack)

def abiCopy : Field → Data → Data → Data
  | .target, e, d => setTarget e.candidate.abiTarget d
  | .pack, e, d => setPack e.candidate.abiPack d
  | _, _, d => d

theorem abiCopy_copies : Components.Copies abiCopy where
  same f d := by cases f <;> rfl
  last f e e' d := by cases f <;> rfl
  comm f g e e' d hne := by
    cases f <;> cases g <;> first | rfl | exact absurd rfl hne

theorem fits_abi : Fits (handler resolve isAbsolute) .abi f (.value v) d d' ↔
    ∃ u, AbiUpdate f v u ∧ d' = u d := by
  constructor
  · intro h
    cases h with
    | string h =>
      have h : string .abi f _ d = .accept d' := h
      cases f <;> simp only [string, wrongFieldType, reduceCtorEq] at h
      split_ifs at h with h₁ h₂
      · rw [h₁]
        exact ⟨_, .target .windowsX64, (Reaction.accept.inj h).symm⟩
      · rw [h₂]
        exact ⟨_, .target .posixX64, (Reaction.accept.inj h).symm⟩
    | integer h =>
      rename_i value
      have h : integer .abi f value d = .accept d' := h
      cases f <;> simp only [integer, wrongFieldType, reduceCtorEq] at h
      split_ifs at h with hrange
      rw [← or_assoc, not_or] at hrange
      have hpack : isSupportedAbiPack value.toNat.toUInt32 = true := by simpa using hrange.2
      rw [toUInt32_eq hrange.1]
      exact ⟨_, .pack hpack, (Reaction.accept.inj h).symm⟩
    | boolean h => cases h
    | array hc _ => exact absurd rfl hc
    | object hc _ _ _ => exact absurd rfl hc
  · intro h
    obtain ⟨u, hu, rfl⟩ := h
    cases hu with
    | target target =>
      apply Fits.string
      cases target <;> rfl
    | pack hpack =>
      rename_i pack
      apply Fits.integer
      have hrange : ¬ ((pack.toNat : Int) < 0 ∨ 2 ^ 32 - 1 < (pack.toNat : Int) ∨
          (!isSupportedAbiPack (pack.toNat : Int).toNat.toUInt32) = true) := by
        rw [← or_assoc, toUInt32_toNat, hpack]
        have hin := toUInt32_range pack
        simpa using hin
      refine (if_neg hrange).trans ?_
      rw [toUInt32_toNat]
      rfl

theorem abi_local (f : Field) (v : JsonValue) :
    Components.LocalTo abiCopy f (Fits (handler resolve isAbsolute) .abi f (.value v)) := by
  apply Components.local_of_updates fits_abi
  · intro u hu d
    cases hu <;> rfl
  · intro u hu g e d hne
    cases hu <;> cases g <;> first | rfl | exact absurd rfl hne

theorem fits_abi_object : Fits (handler resolve isAbsolute) .configuration .abi (.value v) d d' ↔
    ∃ target pack, AbiSchema v target pack ∧ d' = setAbi target pack d := by
  refine (object_only (handler_keyed resolve isAbsolute) abiCopy_copies
    (takes_object resolve isAbsolute .configuration .abi nofun) abi_local).trans ?_
  constructor
  · intro h
    obtain ⟨ms, vs, d₁, rfl, hperm, hlength, hruns, hfinish⟩ := h
    obtain ⟨v₁, v₂, rfl⟩ := List.length_eq_two.mp hlength
    obtain ⟨e₁, h₁, hruns⟩ := Components.runs_cons.mp hruns
    obtain ⟨e₂, h₂, hruns⟩ := Components.runs_cons.mp hruns
    cases hruns
    obtain ⟨u₁, hu₁, rfl⟩ := fits_abi.mp h₁
    obtain ⟨u₂, hu₂, rfl⟩ := fits_abi.mp h₂
    cases hu₁ with
    | target target =>
      cases hu₂ with
      | pack hpack =>
        cases hfinish
        exact ⟨_, _, .object hperm hpack, rfl⟩
  · intro h
    obtain ⟨target, pack, habi, rfl⟩ := h
    cases habi with
    | object hkeys hpack =>
      rename_i ms
      refine ⟨ms, [.string target.text, .integer pack.toNat], _, rfl, hkeys, rfl, ?_, rfl⟩
      refine .cons (fits_abi.mpr ⟨_, .target target, rfl⟩) ?_
      exact .cons (fits_abi.mpr ⟨_, .pack hpack, rfl⟩) .nil

def configurationCopy : Field → Data → Data → Data
  | .abi, e, d => setAbi e.candidate.abiTarget e.candidate.abiPack d
  | _, _, d => d

theorem configurationCopy_copies : Components.Copies configurationCopy where
  same f d := by cases f <;> rfl
  last f e e' d := by cases f <;> rfl
  comm f g e e' d hne := by
    cases f <;> cases g <;> first | rfl | exact absurd rfl hne

theorem configuration_local (f : Field) (v : JsonValue) : Components.LocalTo configurationCopy f
    (Fits (handler resolve isAbsolute) .configuration f (.value v)) := by
  have hiff : ∀ {d d' : Data}, Fits (handler resolve isAbsolute) .configuration f (.value v) d d' ↔
      ∃ u, (∃ target pack, f = .abi ∧ AbiSchema v target pack ∧ u = setAbi target pack) ∧ d' = u d := by
    intro d d'
    constructor
    · intro h
      have hf : f = .abi := by
        cases h with
        | string h => cases f <;> cases h
        | integer h => cases f <;> cases h
        | boolean h => cases h
        | array hc _ => cases f <;> exact absurd rfl hc
        | object hc _ _ _ => cases f <;> first | rfl | exact absurd rfl hc
      rw [hf] at h
      obtain ⟨target, pack, habi, rfl⟩ := fits_abi_object.mp h
      exact ⟨_, ⟨target, pack, hf, habi, rfl⟩, rfl⟩
    · intro h
      obtain ⟨u, ⟨target, pack, rfl, habi, rfl⟩, rfl⟩ := h
      exact fits_abi_object.mpr ⟨target, pack, habi, rfl⟩
  apply Components.local_of_updates hiff
  · intro u hu d
    obtain ⟨target, pack, rfl, -, rfl⟩ := hu
    rfl
  · intro u hu g e d hne
    obtain ⟨target, pack, rfl, -, rfl⟩ := hu
    cases g <;> first | rfl | exact absurd rfl hne

theorem fits_configuration :
    Fits (handler resolve isAbsolute) .root .configuration (.value v) d d' ↔
      ∃ ms abiValue target pack, v = .object ms ∧ ms.Perm [member "abi" abiValue] ∧
        AbiSchema abiValue target pack ∧ d' = setAbi target pack d := by
  refine (object_only (handler_keyed resolve isAbsolute) configurationCopy_copies
    (takes_object resolve isAbsolute .root .configuration nofun) configuration_local).trans ?_
  constructor
  · intro h
    obtain ⟨ms, vs, d₁, rfl, hperm, hlength, hruns, hfinish⟩ := h
    obtain ⟨v₁, rfl⟩ := List.length_eq_one_iff.mp hlength
    obtain ⟨e₁, h₁, hruns⟩ := Components.runs_cons.mp hruns
    cases hruns
    obtain ⟨target, pack, habi, rfl⟩ := fits_abi_object.mp h₁
    cases hfinish
    exact ⟨ms, v₁, target, pack, rfl, hperm, habi, rfl⟩
  · intro h
    obtain ⟨ms, abiValue, target, pack, rfl, hperm, habi, rfl⟩ := h
    exact ⟨ms, [abiValue], _, rfl, hperm, rfl,
      .cons (fits_abi_object.mpr ⟨target, pack, habi, rfl⟩) .nil, rfl⟩

/-! ## `project[]` -/

def setItemPath (text : Bytes) (d : Data) : Data := { d with itemPath := text }

def setItemRole (role : ProjectItemRole) (d : Data) : Data :=
  { d with item := { d.item with role } }

inductive ItemUpdate : Field → JsonValue → (Data → Data) → Prop
  | path (text : Bytes) (htext : text ≠ []) : ItemUpdate .path (.string text) (setItemPath text)
  | role (role : ProjectItemRole) : ItemUpdate .role (.string role.text) (setItemRole role)

def itemCopy : Field → Data → Data → Data
  | .path, e, d => setItemPath e.itemPath d
  | .role, e, d => setItemRole e.item.role d
  | _, _, d => d

theorem itemCopy_copies : Components.Copies itemCopy where
  same f d := by cases f <;> rfl
  last f e e' d := by cases f <;> rfl
  comm f g e e' d hne := by
    cases f <;> cases g <;> first | rfl | exact absurd rfl hne

theorem fits_item : Fits (handler resolve isAbsolute) .item f (.value v) d d' ↔
    ∃ u, ItemUpdate f v u ∧ d' = u d := by
  constructor
  · intro h
    cases h with
    | string h =>
      have h : string .item f _ d = .accept d' := h
      cases f <;> simp only [string, wrongFieldType, reduceCtorEq] at h
      · split_ifs at h with htext
        exact ⟨_, .path _ htext, (Reaction.accept.inj h).symm⟩
      · split_ifs at h with h₁ h₂ h₃
        · rw [h₁]
          exact ⟨_, .role .type, (Reaction.accept.inj h).symm⟩
        · rw [h₂]
          exact ⟨_, .role .source, (Reaction.accept.inj h).symm⟩
        · rw [h₃]
          exact ⟨_, .role .project, (Reaction.accept.inj h).symm⟩
    | integer h => cases f <;> cases h
    | boolean h => cases h
    | array hc _ => exact absurd rfl hc
    | object hc _ _ _ => exact absurd rfl hc
  · intro h
    obtain ⟨u, hu, rfl⟩ := h
    cases hu with
    | path text htext => exact .string (if_neg htext)
    | role role =>
      apply Fits.string
      cases role <;> rfl

theorem item_local (f : Field) (v : JsonValue) :
    Components.LocalTo itemCopy f (Fits (handler resolve isAbsolute) .item f (.value v)) := by
  apply Components.local_of_updates fits_item
  · intro u hu d
    cases hu <;> rfl
  · intro u hu g e d hne
    cases hu <;> cases g <;> first | rfl | exact absurd rfl hne

def addItem (item : ProjectItemConfiguration) (text : Bytes) (d : Data) : Data where
  candidate := { d.candidate with project := d.candidate.project ++ [item] }
  item := item
  itemPath := text

theorem finishItem_eq {text : Bytes} {role : ProjectItemRole} {path : Bytes}
    (hpath : resolve text = some path) :
    finishItem resolve isAbsolute (setItemRole role (setItemPath text
      { d with item := emptyItem, itemPath := [] })) =
        .accept (addItem ⟨path, role, isAbsolute path⟩ text d) := by
  have hsome : resolve (setItemRole role (setItemPath text
      { d with item := emptyItem, itemPath := [] })).itemPath = some path := hpath
  unfold finishItem
  rw [hsome]
  rfl

theorem fits_item_object : Fits (handler resolve isAbsolute) .items .none (.value v) d d' ↔
    ∃ ms text role path, v = .object ms ∧
      ms.Perm [member "path" (.string text), member "role" (.string role.text)] ∧ text ≠ [] ∧
      resolve text = some path ∧ d' = addItem ⟨path, role, isAbsolute path⟩ text d := by
  refine (object_only (handler_keyed resolve isAbsolute) itemCopy_copies
    (takes_object resolve isAbsolute .items .none nofun) item_local).trans ?_
  constructor
  · intro h
    obtain ⟨ms, vs, d₁, rfl, hperm, hlength, hruns, hfinish⟩ := h
    obtain ⟨v₁, v₂, rfl⟩ := List.length_eq_two.mp hlength
    obtain ⟨e₁, h₁, hruns⟩ := Components.runs_cons.mp hruns
    obtain ⟨e₂, h₂, hruns⟩ := Components.runs_cons.mp hruns
    cases hruns
    obtain ⟨u₁, hu₁, rfl⟩ := fits_item.mp h₁
    obtain ⟨u₂, hu₂, rfl⟩ := fits_item.mp h₂
    cases hu₁ with
    | path text htext =>
      cases hu₂ with
      | role role =>
        have hfinish : finishItem resolve isAbsolute (setItemRole role (setItemPath text
            { d with item := emptyItem, itemPath := [] })) = .accept d' := hfinish
        cases hpath : resolve text with
        | none =>
          have hnone : resolve (setItemRole role (setItemPath text
            { d with item := emptyItem, itemPath := [] })).itemPath = none := hpath
          unfold finishItem at hfinish
          rw [hnone] at hfinish
          cases hfinish
        | some path =>
          rw [finishItem_eq hpath] at hfinish
          exact ⟨_, text, role, path, rfl, hperm, htext, hpath, (Reaction.accept.inj hfinish).symm⟩
  · intro h
    obtain ⟨ms, text, role, path, rfl, hperm, htext, hpath, rfl⟩ := h
    refine ⟨ms, [.string text, .string role.text], setItemRole role (setItemPath text
      { d with item := emptyItem, itemPath := [] }), rfl, hperm, rfl, ?_, ?_⟩
    · refine .cons (fits_item.mpr ⟨_, .path _ htext, rfl⟩) ?_
      exact .cons (fits_item.mpr ⟨_, .role role, rfl⟩) .nil
    · exact finishItem_eq hpath

/-! ## The root -/

def setVersion (version : UInt32) (d : Data) : Data :=
  { d with candidate := { d.candidate with version } }

def setName (name : Bytes) (d : Data) : Data :=
  { d with candidate := { d.candidate with name } }

def setProject (e d : Data) : Data where
  candidate := { d.candidate with project := e.candidate.project }
  item := e.item
  itemPath := e.itemPath

def rootCopy : Field → Data → Data → Data
  | .version, e, d => setVersion e.candidate.version d
  | .name, e, d => setName e.candidate.name d
  | .project, e, d => setProject e d
  | .configuration, e, d => setAbi e.candidate.abiTarget e.candidate.abiPack d
  | _, _, d => d

theorem rootCopy_copies : Components.Copies rootCopy where
  same f d := by cases f <;> rfl
  last f e e' d := by cases f <;> rfl
  comm f g e e' d hne := by
    cases f <;> cases g <;> first | rfl | exact absurd rfl hne

/-- What a value does in the context `root`, the items apart. -/
inductive RootUpdate : Field → JsonValue → (Data → Data) → Prop
  | version (version : UInt32) :
      RootUpdate .version (.integer version.toNat) (setVersion version)
  | name (name : Bytes) (hname : name ≠ []) : RootUpdate .name (.string name) (setName name)
  | configuration {ms : List (Bytes × JsonValue)} {abiValue : JsonValue} (target : AbiTarget)
      (pack : UInt32) (hperm : ms.Perm [member "abi" abiValue])
      (habi : AbiSchema abiValue target pack) :
      RootUpdate .configuration (.object ms) (setAbi target pack)

theorem fits_root (hf : f ≠ .project) :
    Fits (handler resolve isAbsolute) .root f (.value v) d d' ↔ ∃ u, RootUpdate f v u ∧ d' = u d := by
  constructor
  · intro h
    cases f with
    | configuration =>
      obtain ⟨ms, abiValue, target, pack, rfl, hperm, habi, rfl⟩ := fits_configuration.mp h
      exact ⟨_, .configuration target pack hperm habi, rfl⟩
    | project => exact absurd rfl hf
    | name =>
      cases h with
      | string h =>
        rename_i value
        have h : string .root .name value d = .accept d' := h
        simp only [string] at h
        split_ifs at h with hname
        exact ⟨_, .name value hname, (Reaction.accept.inj h).symm⟩
      | integer h => cases h
      | boolean h => cases h
      | array hc _ => exact absurd rfl hc
      | object hc _ _ _ => exact absurd rfl hc
    | version =>
      cases h with
      | string h => cases h
      | integer h =>
        rename_i value
        have h : integer .root .version value d = .accept d' := h
        simp only [integer, wrongFieldType] at h
        split_ifs at h with hrange
        rw [toUInt32_eq hrange]
        exact ⟨_, .version value.toNat.toUInt32, (Reaction.accept.inj h).symm⟩
      | boolean h => cases h
      | array hc _ => exact absurd rfl hc
      | object hc _ _ _ => exact absurd rfl hc
    | none | path | role | abi | target | pack | unknown =>
      cases h with
      | string h => cases h
      | integer h => cases h
      | boolean h => cases h
      | array hc _ => exact absurd rfl hc
      | object hc _ _ _ => exact absurd rfl hc
  · intro h
    obtain ⟨u, hu, rfl⟩ := h
    cases hu with
    | version version =>
      refine .integer ((if_neg (toUInt32_range version)).trans ?_)
      rw [toUInt32_toNat]
      rfl
    | name name hname => exact .string (if_neg hname)
    | configuration target pack hperm habi =>
      exact fits_configuration.mpr ⟨_, _, _, _, rfl, hperm, habi, rfl⟩

theorem items_local (v : JsonValue) : Components.LocalTo rootCopy .project
    (Fits (handler resolve isAbsolute) .items .none (.value v)) where
  frame := by
    intro d d' h
    obtain ⟨ms, text, role, path, -, -, -, -, rfl⟩ := fits_item_object.mp h
    rfl
  other := by
    intro d d' g e hne h
    obtain ⟨ms, text, role, path, hv, hperm, htext, hpath, rfl⟩ := fits_item_object.mp h
    refine fits_item_object.mpr ⟨ms, text, role, path, hv, hperm, htext, hpath, ?_⟩
    cases g <;> first | rfl | exact absurd rfl hne

theorem fits_project : Fits (handler resolve isAbsolute) .root .project (.value v) d d' ↔
    ∃ vs, v = .array vs ∧ Components.Runs
      (fun v => Fits (handler resolve isAbsolute) .items .none (.value v)) vs d d' := by
  constructor
  · intro h
    cases h with
    | string h => cases h
    | integer h => cases h
    | boolean h => cases h
    | array hc hvs => exact ⟨_, rfl, fits_elements.mp hvs⟩
    | object hc _ _ _ => exact absurd rfl hc
  · intro h
    obtain ⟨vs, rfl, hruns⟩ := h
    have hne : (handler resolve isAbsolute).arrayContext .root .project ≠ .invalid := by
      intro h
      cases h
    exact .array hne (fits_elements.mpr hruns)

theorem root_local (f : Field) (v : JsonValue) :
    Components.LocalTo rootCopy f (Fits (handler resolve isAbsolute) .root f (.value v)) := by
  by_cases hf : f = .project
  · rw [hf]
    constructor
    · intro d d' h
      obtain ⟨vs, -, hruns⟩ := fits_project.mp h
      exact (Components.local_runs rootCopy_copies items_local vs).frame hruns
    · intro d d' g e hne h
      obtain ⟨vs, hv, hruns⟩ := fits_project.mp h
      exact fits_project.mpr
        ⟨vs, hv, (Components.local_runs rootCopy_copies items_local vs).other e hne hruns⟩
  · apply Components.local_of_updates (fits_root hf)
    · intro u hu d
      cases hu <;> rfl
    · intro u hu g e d hne
      cases hu <;> cases g <;> first | rfl | exact absurd rfl hne

theorem items_sound {vs : List JsonValue} (h : Components.Runs
    (fun v => Fits (handler resolve isAbsolute) .items .none (.value v)) vs d d') :
    ∃ project, List.Forall₂ (ItemSchema resolve isAbsolute) vs project ∧
      d'.candidate = { d.candidate with project := d.candidate.project ++ project } := by
  induction h with
  | nil => exact ⟨[], .nil, by rw [List.append_nil]⟩
  | cons hv _ ih =>
    obtain ⟨project, hproject, hcandidate⟩ := ih
    obtain ⟨ms, text, role, path, rfl, hperm, htext, hpath, rfl⟩ := fits_item_object.mp hv
    refine ⟨_ :: project, .cons (.object hperm htext hpath) hproject, ?_⟩
    rw [hcandidate]
    simp [addItem]

theorem items_complete {vs : List JsonValue} {project : List ProjectItemConfiguration}
    (h : List.Forall₂ (ItemSchema resolve isAbsolute) vs project) (d : Data) :
    ∃ d', Components.Runs
        (fun v => Fits (handler resolve isAbsolute) .items .none (.value v)) vs d d' ∧
      d'.candidate = { d.candidate with project := d.candidate.project ++ project } := by
  induction h generalizing d with
  | nil => exact ⟨d, .nil, by rw [List.append_nil]⟩
  | cons hv _ ih =>
    cases hv with
    | object hperm htext hpath =>
      obtain ⟨d', hruns, hcandidate⟩ := ih (addItem _ _ d)
      refine ⟨d', .cons (fits_item_object.mpr ⟨_, _, _, _, rfl, hperm, htext, hpath, rfl⟩) hruns, ?_⟩
      rw [hcandidate]
      simp [addItem]

theorem root_sound (h : FitsRoot (handler resolve isAbsolute) v initialData d)
    (hversion : d.candidate.version = currentProjectConfigurationVersion) :
    ProjectSchema resolve isAbsolute v d.candidate := by
  obtain ⟨ms, vs, d₁, rfl, hperm, hlength, hruns, hfinish⟩ :=
    (root_perm (handler_keyed resolve isAbsolute) rootCopy_copies root_local).mp h
  match vs, hlength with
  | [v₁, v₂, v₃, v₄], _ =>
    obtain ⟨e₁, h₁, hruns⟩ := Components.runs_cons.mp hruns
    obtain ⟨e₂, h₂, hruns⟩ := Components.runs_cons.mp hruns
    obtain ⟨e₃, h₃, hruns⟩ := Components.runs_cons.mp hruns
    obtain ⟨e₄, h₄, hruns⟩ := Components.runs_cons.mp hruns
    cases hruns
    cases hfinish
    obtain ⟨u₁, hu₁, rfl⟩ := (fits_root (f := .version) (by decide)).mp h₁
    obtain ⟨u₂, hu₂, rfl⟩ := (fits_root (f := .name) (by decide)).mp h₂
    obtain ⟨items, rfl, hitems⟩ := fits_project.mp h₃
    obtain ⟨u₄, hu₄, rfl⟩ := (fits_root (f := .configuration) (by decide)).mp h₄
    obtain ⟨project, hproject, hcandidate⟩ := items_sound hitems
    cases hu₁ with
    | version version =>
      cases hu₂ with
      | name name hname =>
        cases hu₄ with
        | configuration target pack hconfiguration habi =>
          have hall : (setAbi target pack e₃).candidate =
              { version, name, project, abiTarget := target, abiPack := pack
                materialized := true } := by
            unfold setAbi setPack setTarget
            rw [hcandidate]
            rfl
          rw [hall] at hversion ⊢
          have heq : version = currentProjectConfigurationVersion := hversion
          rw [heq] at hperm ⊢
          exact .object hperm hname hproject hconfiguration habi

theorem root_complete {c : ProjectConfiguration} (h : ProjectSchema resolve isAbsolute v c) :
    ∃ d, FitsRoot (handler resolve isAbsolute) v initialData d ∧ d.candidate = c := by
  cases h with
  | object hkeys hname hitems hconfiguration habi =>
    rename_i ms configuration name items project abiValue target pack
    obtain ⟨d₃, hruns, hcandidate⟩ := items_complete hitems
      (setName name (setVersion currentProjectConfigurationVersion initialData))
    refine ⟨setAbi target pack d₃, ?_, ?_⟩
    · apply (root_perm (handler_keyed resolve isAbsolute) rootCopy_copies root_local).mpr
      refine ⟨ms, [.integer currentProjectConfigurationVersion.toNat, .string name, .array items,
        .object configuration], _, rfl, hkeys, rfl, ?_, rfl⟩
      refine .cons ((fits_root (f := .version) (by decide)).mpr ⟨_, .version _, rfl⟩) ?_
      refine .cons ((fits_root (f := .name) (by decide)).mpr ⟨_, .name name hname, rfl⟩) ?_
      refine .cons (fits_project.mpr ⟨items, rfl, hruns⟩) ?_
      exact .cons ((fits_root (f := .configuration) (by decide)).mpr
        ⟨_, .configuration target pack hconfiguration habi, rfl⟩) .nil
    · unfold setAbi setPack setTarget
      rw [hcandidate]
      rfl

end ProjectLoader

theorem ProjectSchema.version_eq {resolve : Bytes → Option Bytes} {isAbsolute : Bytes → Bool}
    {v : JsonValue} {c : ProjectConfiguration} (h : ProjectSchema resolve isAbsolute v c) :
    c.version = currentProjectConfigurationVersion := by
  cases h
  rfl

/-- A project configuration is loaded exactly if the text is a JSON value of the schema, and what is
loaded is what the value describes; a failure leaves the output as it was. -/
theorem loadProjectConfiguration_exact (resolve : Bytes → Option Bytes) (isAbsolute : Bytes → Bool)
    (text : Bytes) (diagnostics : List LoaderReport) (output : ProjectConfiguration) :
    (∀ c, (ProjectLoader.loadProjectConfiguration resolve isAbsolute text diagnostics output).status = none ∧
        (ProjectLoader.loadProjectConfiguration resolve isAbsolute text diagnostics output).output = c ↔
      ∃ v, JsonText text v ∧ ProjectSchema resolve isAbsolute v c) ∧
    ((ProjectLoader.loadProjectConfiguration resolve isAbsolute text diagnostics output).status ≠ none →
      (ProjectLoader.loadProjectConfiguration resolve isAbsolute text diagnostics output).output = output) := by
  unfold ProjectLoader.loadProjectConfiguration
  cases hparse : parseJson text with
  | error p =>
    refine ⟨fun c => ⟨fun h => (nomatch h.1), fun h => ?_⟩, fun _ => rfl⟩
    obtain ⟨v, hv, -⟩ := h
    obtain ⟨p', hparse', -⟩ := parseJson_complete hv
    rw [hparse] at hparse'
    cases hparse'
  | ok p =>
    obtain ⟨v, hs, hunique⟩ := parseJson_value hparse
    dsimp only
    have hends := runHandler_ends (ProjectLoader.handler_lawful resolve isAbsolute) hs
      ProjectLoader.initialData
    generalize runHandler (ProjectLoader.handler resolve isAbsolute) ProjectLoader.initialData
      p.events = handler at hends
    cases hends with
    | inr hends =>
      obtain ⟨hnone, hstop⟩ := hends
      have hrefused : ¬ ∃ c v, JsonText text v ∧ ProjectSchema resolve isAbsolute v c := by
        intro h
        obtain ⟨c, v', hv', hschema⟩ := h
        rw [(hunique v').mp hv'] at hschema
        obtain ⟨d, hfits, -⟩ := ProjectLoader.root_complete hschema
        exact hnone d hfits
      rw [SchemaHandler.stopped_invalid hstop]
      split
      · exact ⟨fun c => ⟨fun h => (nomatch h.1), fun h => absurd ⟨c, h⟩ hrefused⟩, fun _ => rfl⟩
      · exact ⟨fun c => ⟨fun h => (nomatch h.1), fun h => absurd ⟨c, h⟩ hrefused⟩, fun _ => rfl⟩
    | inl hends =>
      obtain ⟨d, hfits, hvalid, hrun, hdata⟩ := hends
      have hinternal : handler.internalFailure = false := (Bool.or_eq_false_iff.mp hrun).2
      rw [hinternal, hvalid, hdata, if_neg Bool.false_ne_true, if_neg (by simp)]
      by_cases hversion : d.candidate.version = currentProjectConfigurationVersion
      · rw [if_neg (not_not.mpr hversion)]
        refine ⟨fun c => ⟨fun h => ?_, fun h => ?_⟩, fun h => absurd rfl h⟩
        · obtain ⟨-, rfl⟩ := h
          exact ⟨v, (hunique v).mpr rfl, ProjectLoader.root_sound hfits hversion⟩
        · obtain ⟨v', hv', hschema⟩ := h
          rw [(hunique v').mp hv'] at hschema
          obtain ⟨d', hfits', rfl⟩ := ProjectLoader.root_complete hschema
          rw [fitsRoot_unique hfits hfits']
          exact ⟨rfl, rfl⟩
      · rw [if_pos hversion]
        refine ⟨fun c => ⟨fun h => (nomatch h.1), fun h => ?_⟩, fun _ => rfl⟩
        obtain ⟨v', hv', hschema⟩ := h
        rw [(hunique v').mp hv'] at hschema
        obtain ⟨d', hfits', rfl⟩ := ProjectLoader.root_complete hschema
        rw [← fitsRoot_unique hfits hfits'] at hschema
        exact absurd hschema.version_eq hversion

end ServerEngine

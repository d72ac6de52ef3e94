import ServerEngine.Core.Configuration
import ServerEngine.Library.PrefixCode

/-! # The baseline compatibility fingerprint

`make_project_baseline_fingerprint` hashes a byte string of the engine's versions and the
configuration. The string tells apart whatever it is made of.
-/
namespace ServerEngine
open PrefixCode

/-! ## Configurations -/

/-- The format versions and the build contract that an engine is compiled with. -/
structure EngineVersions where
  baseline : UInt32
  sourceManager : UInt32
  compiled : UInt32
  buildCache : UInt32
  buildContract : UInt32

def ProjectItemRole.code : ProjectItemRole → Nat
  | .type => 0
  | .source => 1
  | .project => 2

def AbiTarget.code : AbiTarget → Nat
  | .windowsX64 => 0
  | .posixX64 => 1

/-- What the paths of a process mean: the platform and its `std::filesystem`. -/
structure PathRules where
  windows : Bool
  /-- `std::filesystem::absolute` and `lexically_normal`. -/
  absolute : Bytes → Except StatusCode Bytes
  /-- `resolve_configuration_path`. -/
  resolve : Bytes → Bytes → Bytes
  isAbsolute : Bytes → Bool

def lowerDrive (windows : Bool) : Bytes → Bytes
  | first :: second :: rest =>
    if windows ∧ second = 58 ∧ 65 ≤ first ∧ first ≤ 90 then (first + 32) :: second :: rest
    else first :: second :: rest
  | text => text

def normalizeSourcePath (rules : PathRules) (input : Bytes) : Except StatusCode Bytes := do
  if input = [] then .error .invalidArgument
  else
    let normalized ← rules.absolute input
    let output := lowerDrive rules.windows normalized
    if output = [] then .error .invalidArgument else .ok output

def normalizedRoot (rules : PathRules) (item : ProjectItemConfiguration) :
    Except StatusCode Bytes :=
  if item.canonicalPath then .ok (lowerDrive rules.windows item.path)
  else normalizeSourcePath rules item.path

def normalizedRoots (rules : PathRules) :
    List ProjectItemConfiguration → Except StatusCode (List (ProjectItemRole × Bytes))
  | [] => .ok []
  | item :: rest => do
    let root ← normalizedRoot rules item
    let roots ← normalizedRoots rules rest
    .ok ((item.role, root) :: roots)

def appendU32 (value : Nat) : Bytes :=
  [UInt8.ofNat value, UInt8.ofNat (value / 2 ^ 8), UInt8.ofNat (value / 2 ^ 16),
    UInt8.ofNat (value / 2 ^ 24)]

def appendChecked (output value : Bytes) : Except StatusCode Bytes :=
  if value.length > u32Max then .error .notAvailable
  else .ok (output ++ (appendU32 value.length ++ value))

def fingerprintTag : Bytes := "SE-V3-PROJECT-BASELINE-COMPATIBILITY-V1".toUTF8.toList

def appendItems (rules : PathRules) :
    Bytes → List ProjectItemConfiguration → Except StatusCode Bytes
  | output, [] => .ok output
  | output, item :: rest => do
    let normalized ← normalizedRoot rules item
    let output ← appendChecked (output ++ appendU32 item.role.code) normalized
    appendItems rules output rest

def appendVersions (versions : EngineVersions) : Bytes :=
  appendU32 versions.baseline.toNat ++ appendU32 versions.sourceManager.toNat ++
    appendU32 versions.compiled.toNat ++ appendU32 versions.buildCache.toNat ++
    appendU32 versions.buildContract.toNat

def canonicalConfiguration (versions : EngineVersions) (rules : PathRules)
    (configuration : ProjectConfiguration) : Except StatusCode Bytes := do
  let canonical := fingerprintTag ++ appendVersions versions ++
    appendU32 configuration.version.toNat ++ appendU32 configuration.abiTarget.code ++
    appendU32 configuration.abiPack.toNat
  let canonical ← appendChecked canonical configuration.name
  if configuration.project.length > u32Max then .error .notAvailable
  else appendItems rules (canonical ++ appendU32 configuration.project.length) configuration.project

def makeProjectBaselineFingerprint {Digest : Type} (hash : Bytes → Digest)
    (versions : EngineVersions) (rules : PathRules) (configuration : ProjectConfiguration) :
    Except StatusCode Digest := do
  let canonical ← canonicalConfiguration versions rules configuration
  .ok (hash canonical)

/-! ## What it tells apart -/

/-- The engines have equal versions, and the configurations agree on what a baseline rests on. -/
structure Compatible (versions versions' : EngineVersions) (rules rules' : PathRules)
    (configuration configuration' : ProjectConfiguration) : Prop where
  versions : versions = versions'
  version : configuration.version = configuration'.version
  abiTarget : configuration.abiTarget = configuration'.abiTarget
  abiPack : configuration.abiPack = configuration'.abiPack
  name : configuration.name = configuration'.name
  roots : normalizedRoots rules configuration.project = normalizedRoots rules' configuration'.project

theorem appendU32_splits : Splits (· < 2 ^ 32) appendU32 := by
  refine splits_of_length (n := 4) (fun _ => rfl) ?_
  intro a b ha hb heq
  simp only [appendU32, List.cons.injEq, and_true] at heq
  obtain ⟨h0, h1, h2, h3⟩ := heq
  have byte : ∀ x y : Nat, UInt8.ofNat x = UInt8.ofNat y → x % 256 = y % 256 := by
    intro x y h
    simpa using congrArg UInt8.toNat h
  have e0 := byte _ _ h0
  have e1 := byte _ _ h1
  have e2 := byte _ _ h2
  have e3 := byte _ _ h3
  omega

def rootCode (root : ProjectItemRole × Bytes) : Bytes :=
  appendU32 root.1.code ++ (appendU32 root.2.length ++ root.2)

theorem rootCode_splits : Splits (fun root => root.2.length ≤ u32Max) rootCode := by
  have hrole : Splits (fun _ => True) fun role : ProjectItemRole => appendU32 role.code := by
    intro a b x y _ _ heq
    have hlt : ∀ role : ProjectItemRole, role.code < 2 ^ 32 := by
      intro role
      cases role <;> decide
    obtain ⟨hcode, hrest⟩ := appendU32_splits a.code b.code x y (hlt a) (hlt b) heq
    refine ⟨?_, hrest⟩
    cases a <;> cases b <;> first | rfl | cases hcode
  have htext := splits_sized appendU32_splits
  have hbound : ∀ n, n ≤ u32Max → n < 2 ^ 32 := fun n h => Nat.lt_succ_of_le h
  intro a b x y ha hb heq
  exact hrole.append htext a b x y ⟨trivial, hbound _ ha⟩ ⟨trivial, hbound _ hb⟩ heq

variable {output text : Bytes}

theorem appendChecked_ok {value : Bytes} (h : appendChecked output value = .ok text) :
    value.length ≤ u32Max ∧ text = output ++ (appendU32 value.length ++ value) := by
  unfold appendChecked at h
  split at h
  · cases h
  · rename_i hle
    cases h
    exact ⟨by omega, rfl⟩

variable {rules : PathRules}

theorem appendItems_ok {items : List ProjectItemConfiguration}
    (h : appendItems rules output items = .ok text) :
    ∃ roots, normalizedRoots rules items = .ok roots ∧ roots.length = items.length ∧
      text = output ++ roots.flatMap rootCode ∧ ∀ root ∈ roots, root.2.length ≤ u32Max := by
  induction items generalizing output with
  | nil =>
    cases h
    exact ⟨[], rfl, rfl, by simp, by simp⟩
  | cons item rest ih =>
    unfold appendItems at h
    cases hroot : normalizedRoot rules item with
    | error code =>
      rw [hroot] at h
      cases h
    | ok root =>
      rw [hroot] at h
      cases hchecked : appendChecked (output ++ appendU32 item.role.code) root with
      | error code =>
        simp only [bind, Except.bind, hchecked] at h
        cases h
      | ok output' =>
        simp only [bind, Except.bind, hchecked] at h
        obtain ⟨hle, houtput⟩ := appendChecked_ok hchecked
        obtain ⟨roots, hroots, hlength, htext, hbound⟩ := ih h
        refine ⟨(item.role, root) :: roots, ?_, by simp [hlength], ?_, ?_⟩
        · simp only [normalizedRoots, hroot, hroots, bind, Except.bind]
        · rw [htext, houtput, List.flatMap_cons]
          simp only [rootCode, List.append_assoc]
        · intro r hr
          rcases List.mem_cons.mp hr with rfl | hr
          · exact hle
          · exact hbound r hr

variable {versions : EngineVersions} {configuration : ProjectConfiguration}

theorem canonicalConfiguration_ok
    (h : canonicalConfiguration versions rules configuration = .ok text) :
    ∃ roots, normalizedRoots rules configuration.project = .ok roots ∧
      roots.length ≤ u32Max ∧ configuration.name.length ≤ u32Max ∧
      (∀ root ∈ roots, root.2.length ≤ u32Max) ∧
      text = fingerprintTag ++ appendVersions versions ++
        appendU32 configuration.version.toNat ++ appendU32 configuration.abiTarget.code ++
        appendU32 configuration.abiPack.toNat ++
        (appendU32 configuration.name.length ++ configuration.name) ++
        (appendU32 roots.length ++ roots.flatMap rootCode) := by
  unfold canonicalConfiguration at h
  dsimp only at h
  cases hname : appendChecked (fingerprintTag ++ appendVersions versions ++
      appendU32 configuration.version.toNat ++ appendU32 configuration.abiTarget.code ++
      appendU32 configuration.abiPack.toNat) configuration.name with
  | error code =>
    simp only [bind, Except.bind, hname] at h
    cases h
  | ok output =>
    simp only [bind, Except.bind, hname] at h
    split at h
    · cases h
    · rename_i hcount
      obtain ⟨hle, houtput⟩ := appendChecked_ok hname
      obtain ⟨roots, hroots, hlength, htext, hbound⟩ := appendItems_ok h
      refine ⟨roots, hroots, by omega, hle, hbound, ?_⟩
      rw [htext, houtput, hlength]
      simp only [List.append_assoc]

theorem appendVersions_splits : Splits (fun _ => True) appendVersions := by
  intro a b x y _ _ heq
  have hlt : ∀ value : UInt32, value.toNat < 2 ^ 32 := fun value => value.toNat_lt
  simp only [appendVersions, List.append_assoc] at heq
  obtain ⟨h1, heq⟩ := appendU32_splits _ _ _ _ (hlt _) (hlt _) heq
  obtain ⟨h2, heq⟩ := appendU32_splits _ _ _ _ (hlt _) (hlt _) heq
  obtain ⟨h3, heq⟩ := appendU32_splits _ _ _ _ (hlt _) (hlt _) heq
  obtain ⟨h4, heq⟩ := appendU32_splits _ _ _ _ (hlt _) (hlt _) heq
  obtain ⟨h5, heq⟩ := appendU32_splits _ _ _ _ (hlt _) (hlt _) heq
  refine ⟨?_, heq⟩
  obtain ⟨a1, a2, a3, a4, a5⟩ := a
  obtain ⟨b1, b2, b3, b4, b5⟩ := b
  simp only [EngineVersions.mk.injEq]
  exact ⟨UInt32.toNat.inj h1, UInt32.toNat.inj h2, UInt32.toNat.inj h3, UInt32.toNat.inj h4,
    UInt32.toNat.inj h5⟩

variable {versions' : EngineVersions} {rules' : PathRules} {configuration' : ProjectConfiguration}

theorem canonicalConfiguration_injective
    (h : canonicalConfiguration versions rules configuration = .ok text)
    (h' : canonicalConfiguration versions' rules' configuration' = .ok text) :
    Compatible versions versions' rules rules' configuration configuration' := by
  obtain ⟨roots, hroots, hcount, hname, hbound, htext⟩ := canonicalConfiguration_ok h
  obtain ⟨roots', hroots', hcount', hname', hbound', htext'⟩ := canonicalConfiguration_ok h'
  have hmax : u32Max = 2 ^ 32 - 1 := rfl
  have hlt : ∀ value : UInt32, value.toNat < 2 ^ 32 := fun value => value.toNat_lt
  have htarget : ∀ target : AbiTarget, target.code < 2 ^ 32 := by
    intro target
    cases target <;> decide
  have heq := htext.symm.trans htext'
  simp only [List.append_assoc] at heq
  have heq := List.append_cancel_left heq
  obtain ⟨hversions, heq⟩ := appendVersions_splits _ _ _ _ trivial trivial heq
  obtain ⟨hversion, heq⟩ := appendU32_splits _ _ _ _ (hlt _) (hlt _) heq
  obtain ⟨hcode, heq⟩ := appendU32_splits _ _ _ _ (htarget _) (htarget _) heq
  obtain ⟨hpack, heq⟩ := appendU32_splits _ _ _ _ (hlt _) (hlt _) heq
  rw [← List.append_assoc, ← List.append_assoc (appendU32 configuration'.name.length)] at heq
  obtain ⟨hnames, heq⟩ := splits_sized appendU32_splits _ _ _ _ (by dsimp only; omega)
    (by dsimp only; omega) heq
  have hcounted := splits_counted appendU32_splits rootCode_splits
  have hrootsEq := hcounted.injective ⟨by omega, hbound⟩ ⟨by omega, hbound'⟩ heq
  refine ⟨hversions, UInt32.toNat.inj hversion, ?_, UInt32.toNat.inj hpack, hnames, ?_⟩
  · revert hcode
    cases configuration.abiTarget <;> cases configuration'.abiTarget <;> simp [AbiTarget.code]
  · rw [hroots, hroots', hrootsEq]

theorem appendItems_of_roots {rules : PathRules} {items : List ProjectItemConfiguration}
    {roots : List (ProjectItemRole × Bytes)} {output : Bytes}
    (hroots : normalizedRoots rules items = .ok roots)
    (hbound : ∀ root ∈ roots, root.2.length ≤ u32Max) :
    appendItems rules output items = .ok (output ++ roots.flatMap rootCode) ∧
      roots.length = items.length := by
  induction items generalizing roots output with
  | nil =>
    cases hroots
    exact ⟨by simp [appendItems], rfl⟩
  | cons item rest ih =>
    unfold normalizedRoots at hroots
    cases hroot : normalizedRoot rules item with
    | error code =>
      simp only [bind, Except.bind, hroot] at hroots
      cases hroots
    | ok root =>
      cases hrest : normalizedRoots rules rest with
      | error code =>
        simp only [bind, Except.bind, hroot, hrest] at hroots
        cases hroots
      | ok roots' =>
        simp only [bind, Except.bind, hroot, hrest] at hroots
        cases hroots
        have hle : root.length ≤ u32Max := hbound (item.role, root) (by simp)
        have hchecked : appendChecked (output ++ appendU32 item.role.code) root =
            .ok (output ++ rootCode (item.role, root)) := by
          unfold appendChecked
          rw [if_neg (by omega)]
          simp only [rootCode, List.append_assoc]
        obtain ⟨happend, hlength⟩ := @ih roots' (output ++ rootCode (item.role, root)) hrest
          fun r hr => hbound r (by simp [hr])
        refine ⟨?_, by simp [hlength]⟩
        unfold appendItems
        simp only [bind, Except.bind, hroot, hchecked, happend, List.flatMap_cons,
          List.append_assoc]

theorem canonicalConfiguration_congr
    (hc : Compatible versions versions' rules rules' configuration configuration')
    (h : canonicalConfiguration versions rules configuration = .ok text) :
    canonicalConfiguration versions' rules' configuration' = .ok text := by
  obtain ⟨roots, hroots, hcount, hname, hbound, htext⟩ := canonicalConfiguration_ok h
  rw [hc.roots] at hroots
  rw [hc.versions, hc.version, hc.abiTarget, hc.abiPack, hc.name] at htext
  rw [hc.name] at hname
  unfold canonicalConfiguration appendChecked
  obtain ⟨happend, hlength⟩ := @appendItems_of_roots rules' configuration'.project roots
    (fingerprintTag ++ appendVersions versions' ++ appendU32 configuration'.version.toNat ++
      appendU32 configuration'.abiTarget.code ++ appendU32 configuration'.abiPack.toNat ++
      (appendU32 configuration'.name.length ++ configuration'.name) ++
      appendU32 configuration'.project.length) hroots hbound
  simp only [bind, Except.bind]
  rw [if_neg (by omega)]
  dsimp only
  rw [if_neg (by omega), happend, htext, hlength]
  simp only [List.append_assoc]

end ServerEngine

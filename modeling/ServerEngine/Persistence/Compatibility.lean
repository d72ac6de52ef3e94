import ServerEngine.Library.ErrorFold
import ServerEngine.Persistence.Histories

/-! # Only compatible baselines are activated

Off the fast paths the fingerprints are compared. On them the content of project.json is that of
the commit, and nothing is asked about the build contract or about where the file lies.
-/
namespace ServerEngine
open Relation ErrorFold

variable {Digest : Type} {platform : ProjectPlatform Digest}

/-! ## What the gates let pass -/

section Gates
variable {volume : ProjectVolume Digest} {engine : Engine} {path : Bytes} {faults : ManagerFaults}
  {snapshot : BaselineSnapshot Digest} {configuration : ProjectConfiguration}

structure Selected (volume : ProjectVolume Digest) (engine : Engine) (path : Bytes)
    (baseline : StoredBaseline Digest) : Prop where
  stored : volume.stores path = some baseline
  format : baseline.formatVersion = engine.versions.baseline

variable {baseline : StoredBaseline Digest}

theorem currentBaseline_ok (h : currentBaseline volume engine path = .ok baseline) :
    Selected volume engine path baseline := by
  unfold currentBaseline at h
  split at h
  · cases h
  · rename_i stored hstored
    split at h
    · cases h
    · rename_i hformat
      cases h
      exact ⟨hstored, by simpa using hformat⟩

theorem openCurrentReady_ok (h : openCurrentReady volume engine path faults = .ok snapshot) :
    Selected volume engine path snapshot.baseline ∧ snapshot.sourceManager = false := by
  obtain ⟨_, -, h⟩ := bind_ok.mp h
  obtain ⟨baseline, hcurrent, h⟩ := bind_ok.mp h
  cases h
  exact ⟨currentBaseline_ok hcurrent, rfl⟩

theorem openCurrentDecision_ok (h : openCurrentDecision volume engine path faults = .ok snapshot) :
    Selected volume engine path snapshot.baseline := by
  obtain ⟨_, -, h⟩ := bind_ok.mp h
  obtain ⟨baseline, hcurrent, h⟩ := bind_ok.mp h
  cases h
  exact currentBaseline_ok hcurrent

variable {snapshot' : BaselineSnapshot Digest}

theorem mapSourceManager_ok (h : mapSourceManager engine snapshot = .ok snapshot') :
    snapshot'.baseline = snapshot.baseline := by
  unfold mapSourceManager at h
  split at h
  · cases h
  · cases h
    rfl

theorem mapBuildCache_ok (h : mapBuildCache engine snapshot = .ok snapshot') :
    snapshot'.baseline = snapshot.baseline := by
  unfold mapBuildCache at h
  split at h
  · cases h
  · cases h
    rfl

variable {u : Unit}

theorem activateReady_ok (h : activateReady engine faults snapshot = .ok u) :
    snapshot.baseline.compiledVersion = engine.versions.compiled := by
  obtain ⟨_, -, h⟩ := bind_ok.mp h
  split at h
  · cases h
  · rename_i hcompiled
    simpa using hcompiled

theorem activateBuild_ok (h : activateBuild engine faults snapshot = .ok u) :
    snapshot.baseline.compiledVersion = engine.versions.compiled := by
  obtain ⟨_, hready, -⟩ := bind_ok.mp h
  exact activateReady_ok hready

/-- The fingerprint of what the file is read as has been compared with the baseline's. -/
def Compared (platform : ProjectPlatform Digest) (volume : ProjectVolume Digest) (engine : Engine)
    (path : Bytes) (baseline : StoredBaseline Digest) : Prop :=
  ∃ file configuration, volume.files path = some file ∧
    loadProjectConfiguration platform engine.rules path file.content = .ok configuration ∧
    makeProjectBaselineFingerprint platform.hash engine.versions engine.rules configuration =
      .ok baseline.fingerprint

theorem acquireConfiguration_ok {content : Bytes}
    (h : acquireConfiguration volume path faults = .ok content) :
    ∃ file, volume.files path = some file ∧ file.content = content := by
  obtain ⟨_, -, h⟩ := bind_ok.mp h
  split at h
  · cases h
  · rename_i file hfile
    cases h
    exact ⟨file, hfile, rfl⟩

variable {token : ChangeToken}

theorem proveFileUnchanged_ok
    (h : proveFileUnchanged platform volume path faults token = .ok true) :
    ∃ file, volume.files path = some file ∧ file.token = token := by
  unfold proveFileUnchanged at h
  split at h
  · obtain ⟨_, -, h⟩ := bind_ok.mp h
    split at h
    · cases h
    · rename_i file hfile
      exact ⟨file, hfile, by simpa using h⟩
  · cases h

theorem captureFileChangeToken_ok
    (h : captureFileChangeToken platform volume path faults = .ok token) :
    ∃ file, volume.files path = some file ∧ file.token = token := by
  unfold captureFileChangeToken at h
  split at h
  · obtain ⟨_, -, h⟩ := bind_ok.mp h
    split at h
    · cases h
    · rename_i file hfile
      exact ⟨file, hfile, by simpa using h⟩
  · cases h

theorem loadFast_ok {configuration : ProjectConfiguration}
    (h : loadFast platform volume path faults snapshot = .ok (some configuration)) :
    snapshot.baseline.configuration.fast = true ∧
      ∃ token, snapshot.baseline.configuration.changeToken = some token ∧
        proveFileUnchanged platform volume path faults token = .ok true := by
  unfold loadFast at h
  split at h
  · rename_i token hfast htoken
    obtain ⟨provisional, -, h⟩ := bind_ok.mp h
    split at h
    · rename_i hproof
      exact ⟨hfast, token, htoken, hproof⟩
    · cases h
    · cases h
    · cases h
  · cases h

theorem loadGate_ok {opened : BaselineSnapshot Digest}
    (h : loadGate platform volume path faults (openCurrentReady volume engine path faults) =
      .ok (some (opened, configuration))) :
    openCurrentReady volume engine path faults = .ok opened ∧
      opened.baseline.configuration.fast = true ∧
      ∃ token, opened.baseline.configuration.changeToken = some token ∧
        proveFileUnchanged platform volume path faults token = .ok true := by
  unfold loadGate at h
  split at h
  · cases h
  · rename_i snapshot hopened
    cases hload : loadFast platform volume path faults snapshot with
    | error code =>
      rw [hload] at h
      cases h
    | ok result =>
      rw [hload] at h
      cases result with
      | none => cases h
      | some saved =>
        cases h
        exact ⟨hopened, loadFast_ok hload⟩

theorem ensure_baseline {snapshot : BaselineSnapshot Digest}
    (h : (ensureSourceManager engine snapshot >>= ensureBuildCache engine) = .ok snapshot') :
    snapshot'.baseline = snapshot.baseline := by
  obtain ⟨mapped, hmapped, h⟩ := bind_ok.mp h
  have hfirst : mapped.baseline = snapshot.baseline := by
    unfold ensureSourceManager at hmapped
    split at hmapped
    · cases hmapped
      rfl
    · exact mapSourceManager_ok hmapped
  rw [← hfirst]
  unfold ensureBuildCache at h
  split at h
  · cases h
    rfl
  · exact mapBuildCache_ok h

theorem optionalToken_ok {file : ConfigurationFile}
    (h : optionalToken platform volume path faults = .ok (some token))
    (hfile : volume.files path = some file) : token = file.token := by
  unfold optionalToken at h
  split at h
  · rename_i captured hcaptured
    cases h
    obtain ⟨file', hfile', htoken⟩ := captureFileChangeToken_ok hcaptured
    rw [hfile] at hfile'
    cases hfile'
    exact htoken.symm
  · cases h
  · cases h

def BuildDecision.kept : BuildDecision Digest →
    Option (StoredBaseline Digest × Option (ConfigurationProof Digest))
  | .construct _ _ => none
  | .activate snapshot _ => some (snapshot.baseline, none)
  | .update snapshot _ proof => some (snapshot.baseline, proof)

variable {proof : Option (ConfigurationProof Digest)} {dirty : Bool}
variable {decision : BuildDecision Digest}

theorem finishBuild_ok
    (h : finishBuild engine faults snapshot configuration proof dirty = .ok decision) :
    snapshot.baseline.compiledVersion = engine.versions.compiled ∧
      ∃ proof', decision.kept = some (snapshot.baseline, proof') ∧
        (proof' = none ∨ proof' = proof) := by
  unfold finishBuild at h
  split at h
  · obtain ⟨first, hfirst, h⟩ := bind_ok.mp h
    obtain ⟨second, hsecond, h⟩ := bind_ok.mp h
    obtain ⟨_, hactivate, h⟩ := bind_ok.mp h
    cases h
    have hsame := ensure_baseline (bind_ok.mpr ⟨first, hfirst, hsecond⟩)
    have hcompiled := activateBuild_ok hactivate
    rw [hsame] at hcompiled
    exact ⟨hcompiled, proof, by rw [← hsame]; rfl, .inr rfl⟩
  · obtain ⟨_, hactivate, h⟩ := bind_ok.mp h
    cases h
    exact ⟨activateReady_ok hactivate, none, rfl, .inl rfl⟩

def ReadProof (platform : ProjectPlatform Digest) (volume : ProjectVolume Digest) (path : Bytes)
    (proof : ConfigurationProof Digest) : Prop :=
  ∃ file, volume.files path = some file ∧
    proof.contentHash = some (platform.hash file.content) ∧
    ∀ token, proof.changeToken = some token → token = file.token

theorem loadGenerationConfiguration_ok {proof : ConfigurationProof Digest}
    (h : loadGenerationConfiguration platform volume engine path faults =
      .ok (configuration, proof)) :
    ReadProof platform volume path proof ∧ ∃ file, volume.files path = some file ∧
      loadProjectConfiguration platform engine.rules path file.content = .ok configuration := by
  obtain ⟨token, htoken, h⟩ := bind_ok.mp h
  obtain ⟨content, hcontent, h⟩ := bind_ok.mp h
  obtain ⟨current, hcurrent, h⟩ := bind_ok.mp h
  cases h
  obtain ⟨file, hfile, rfl⟩ := acquireConfiguration_ok hcontent
  refine ⟨⟨file, hfile, rfl, ?_⟩, file, hfile, hcurrent⟩
  intro captured hsome
  obtain rfl : token = some captured := hsome
  exact optionalToken_ok htoken hfile

/-- What `build` keeps of the selected baseline. -/
structure BuildKept (platform : ProjectPlatform Digest) (volume : ProjectVolume Digest)
    (engine : Engine) (path : Bytes) (faults : ManagerFaults) (detection : DirtyDetection)
    (baseline : StoredBaseline Digest) (proof : Option (ConfigurationProof Digest)) : Prop where
  selected : Selected volume engine path baseline
  compiled : baseline.compiledVersion = engine.versions.compiled
  gate : (∃ snapshot, openCurrentDecision volume engine path faults = .ok snapshot ∧
      snapshot.baseline = baseline ∧ baseline.configuration.fast = true ∧
      (detection.proves = true ∨ ∃ file, volume.files path = some file ∧
        baseline.configuration.contentHash = some (platform.hash file.content))) ∨
    Compared platform volume engine path baseline
  proof : ∀ p, proof = some p →
    (detection.proves = true ∧ baseline.configuration.fast = true ∧
      p = ⟨baseline.configuration.contentHash, baseline.configuration.changeToken⟩) ∨
    ReadProof platform volume path p

variable [DecidableEq Digest]

theorem openSelected_ok {expected : Digest} {includeBuildCache : Bool}
    (h : openSelected volume engine path faults expected includeBuildCache = .ok snapshot) :
    Selected volume engine path snapshot.baseline ∧ snapshot.baseline.fingerprint = expected := by
  obtain ⟨_, -, h⟩ := bind_ok.mp h
  obtain ⟨baseline, hcurrent, h⟩ := bind_ok.mp h
  split at h
  · cases h
  · rename_i hfingerprint
    obtain ⟨mapped, hmapped, h⟩ := bind_ok.mp h
    have hsame := mapSourceManager_ok hmapped
    have hsnapshot : snapshot.baseline = baseline := by
      split at h
      · rw [mapBuildCache_ok h, hsame]
      · cases h
        exact hsame
    rw [hsnapshot]
    exact ⟨currentBaseline_ok hcurrent, by simpa using hfingerprint⟩

theorem loadCompared_ok {fingerprint : Digest}
    (h : loadCompared volume engine path faults (openCurrentReady volume engine path faults)
      fingerprint = .ok snapshot) :
    Selected volume engine path snapshot.baseline ∧
      snapshot.baseline.fingerprint = fingerprint := by
  unfold loadCompared at h
  split at h
  · rename_i opened hopened
    split at h
    · rename_i heq
      cases h
      exact ⟨(openCurrentReady_ok hopened).1, heq.symm⟩
    · cases h
  · exact openSelected_ok h

theorem load_ok (h : load platform volume engine path faults = .ok (snapshot, configuration)) :
    Selected volume engine path snapshot.baseline ∧
      snapshot.baseline.compiledVersion = engine.versions.compiled ∧
      ((∃ token, openCurrentReady volume engine path faults = .ok snapshot ∧
          snapshot.baseline.configuration.fast = true ∧
          snapshot.baseline.configuration.changeToken = some token ∧
          proveFileUnchanged platform volume path faults token = .ok true) ∨
        Compared platform volume engine path snapshot.baseline) := by
  obtain ⟨fast, hfast, h⟩ := bind_ok.mp h
  cases fast with
  | some accepted =>
    obtain ⟨accepted, provisional⟩ := accepted
    obtain ⟨_, hactivate, h⟩ := bind_ok.mp h
    cases h
    obtain ⟨hopened, hstate, token, htoken, hproof⟩ := loadGate_ok hfast
    exact ⟨(openCurrentReady_ok hopened).1, activateReady_ok hactivate,
      .inl ⟨token, hopened, hstate, htoken, hproof⟩⟩
  | none =>
    obtain ⟨content, hcontent, h⟩ := bind_ok.mp h
    obtain ⟨current, hcurrent, h⟩ := bind_ok.mp h
    obtain ⟨fingerprint, hfingerprint, h⟩ := bind_ok.mp h
    obtain ⟨chosen, hchosen, h⟩ := bind_ok.mp h
    obtain ⟨_, hactivate, h⟩ := bind_ok.mp h
    cases h
    obtain ⟨file, hfile, rfl⟩ := acquireConfiguration_ok hcontent
    obtain ⟨hselected, hsame⟩ := loadCompared_ok hchosen
    refine ⟨hselected, activateReady_ok hactivate, .inr ⟨file, configuration, hfile, hcurrent, ?_⟩⟩
    rw [hsame]
    exact hfingerprint

theorem checkConfiguration_ok
    (h : checkConfiguration platform volume engine path faults snapshot configuration dirty = .ok decision)
    (hkept : decision.kept = some (baseline, proof)) :
    baseline = snapshot.baseline ∧ baseline.compiledVersion = engine.versions.compiled ∧
      ((∃ file, volume.files path = some file ∧
          baseline.configuration.contentHash = some (platform.hash file.content)) ∨
        Compared platform volume engine path baseline) ∧
      ∀ p, proof = some p → ReadProof platform volume path p := by
  obtain ⟨token, htoken, h⟩ := bind_ok.mp h
  obtain ⟨content, hcontent, h⟩ := bind_ok.mp h
  obtain ⟨file, hfile, rfl⟩ := acquireConfiguration_ok hcontent
  have hread : ReadProof platform volume path ⟨some (platform.hash file.content), token⟩ := by
    refine ⟨file, hfile, rfl, ?_⟩
    intro captured hsome
    obtain rfl : token = some captured := hsome
    exact optionalToken_ok htoken hfile
  have hfinish : ∀ {current : ProjectConfiguration}, finishBuild engine faults snapshot current
      (some ⟨some (platform.hash file.content), token⟩) dirty = .ok decision →
      baseline = snapshot.baseline ∧ baseline.compiledVersion = engine.versions.compiled ∧
        ∀ p, proof = some p → ReadProof platform volume path p := by
    intro current hf
    obtain ⟨hcompiled, proof', hsame, hproof⟩ := finishBuild_ok hf
    rw [hkept] at hsame
    cases hsame
    refine ⟨rfl, hcompiled, ?_⟩
    intro p hp
    rcases hproof with hnone | hsome
    · rw [hp] at hnone
      cases hnone
    · rw [hp] at hsome
      cases hsome
      exact hread
  dsimp only at h
  split at h
  · obtain ⟨current, hcurrent, h⟩ := bind_ok.mp h
    obtain ⟨fingerprint, hfingerprint, h⟩ := bind_ok.mp h
    split at h
    · cases h
      cases hkept
    · rename_i hequal
      obtain ⟨hbaseline, hcompiled, hproof⟩ := hfinish h
      refine ⟨hbaseline, hcompiled, .inr ⟨file, current, hfile, hcurrent, ?_⟩, hproof⟩
      rw [hbaseline, hfingerprint]
      simpa using hequal
  · rename_i hhash
    obtain ⟨hbaseline, hcompiled, hproof⟩ := hfinish h
    refine ⟨hbaseline, hcompiled, .inl ⟨file, hfile, ?_⟩, hproof⟩
    rw [hbaseline]
    simpa using Eq.symm (not_not.mp hhash)

/-- A baseline that `build` keeps was trusted or compared. -/
theorem build_ok {detection : DirtyDetection}
    (h : build platform volume engine path faults detection = .ok decision)
    (hkept : decision.kept = some (baseline, proof)) :
    BuildKept platform volume engine path faults detection baseline proof := by
  obtain ⟨fast, hfast, h⟩ := bind_ok.mp h
  cases fast with
  | none =>
    obtain ⟨⟨current, read⟩, hread, h⟩ := bind_ok.mp h
    obtain ⟨fingerprint, hfingerprint, h⟩ := bind_ok.mp h
    split at h
    · cases h
      cases hkept
    · cases h
      cases hkept
    · cases h
    · rename_i snapshot hselected
      split at h
      · cases h
      · cases h
      · obtain ⟨hcompiled, proof', hsame, hproof⟩ := finishBuild_ok h
        rw [hkept] at hsame
        cases hsame
        obtain ⟨hstored, hfp⟩ := openSelected_ok hselected
        obtain ⟨hreadProof, file, hfile, hload⟩ := loadGenerationConfiguration_ok hread
        refine ⟨hstored, hcompiled, .inr ⟨file, current, hfile, hload, ?_⟩, ?_⟩
        · rw [hfp]
          exact hfingerprint
        · intro p hp
          rcases hproof with hnone | hsome
          · rw [hp] at hnone
            cases hnone
          · rw [hp] at hsome
            cases hsome
            exact .inr hreadProof
  | some accepted =>
    obtain ⟨opened, provisional⟩ := accepted
    have hopened : openCurrentDecision volume engine path faults = .ok opened ∧
        opened.baseline.configuration.fast = true := by
      unfold buildGate at hfast
      split at hfast
      · cases hfast
      · rename_i snapshot hdecision
        unfold buildFast at hfast
        split at hfast
        · rename_i hstate
          cases hprovisional : provisionalConfiguration snapshot.baseline.configuration with
          | error code =>
            rw [hprovisional] at hfast
            cases hfast
          | ok saved =>
            rw [hprovisional] at hfast
            cases hfast
            exact ⟨hdecision, hstate⟩
        · cases hfast
    have hscanned : ∃ scanned : BaselineSnapshot Digest, scanned.baseline = opened.baseline ∧
        (if detection.proves then finishBuild engine faults scanned provisional
            (some ⟨scanned.baseline.configuration.contentHash,
              scanned.baseline.configuration.changeToken⟩) detection.dirty
          else checkConfiguration platform volume engine path faults scanned provisional
            detection.dirty) = .ok decision := by
      dsimp only at h
      unfold buildProvisional at h
      split at h
      · obtain ⟨scanned, hmap, h⟩ := bind_ok.mp h
        refine ⟨scanned, ?_, h⟩
        unfold scannedSnapshot at hmap
        split at hmap
        · exact mapSourceManager_ok hmap
        · cases hmap
          rfl
      · obtain ⟨scanned, hmap, h⟩ := bind_ok.mp h
        refine ⟨scanned, ?_, h⟩
        unfold scannedSnapshot at hmap
        split at hmap
        · exact mapSourceManager_ok hmap
        · cases hmap
          rfl
      · cases h
      · cases h
      · cases h
    obtain ⟨scanned, hsame, h⟩ := hscanned
    have hselected := openCurrentDecision_ok hopened.1
    split at h
    · rename_i hproves
      obtain ⟨hcompiled, proof', hkept', hproof⟩ := finishBuild_ok h
      rw [hkept, hsame] at hkept'
      rw [hsame] at hcompiled hproof
      cases hkept'
      refine ⟨hselected, hcompiled, .inl ⟨opened, hopened.1, rfl, hopened.2, .inl hproves⟩, ?_⟩
      intro p hp
      rcases hproof with hnone | hsome
      · rw [hp] at hnone
        cases hnone
      · rw [hp] at hsome
        cases hsome
        exact .inl ⟨hproves, hopened.2, rfl⟩
    · obtain ⟨hbaseline, hcompiled, hgate, hproof⟩ := checkConfiguration_ok h hkept
      rw [hsame] at hbaseline
      subst hbaseline
      refine ⟨hselected, hcompiled, ?_, fun p hp => .inr (hproof p hp)⟩
      rcases hgate with hhash | hcompared
      · exact .inl ⟨opened, hopened.1, rfl, hopened.2, .inr hhash⟩
      · exact .inr hcompared

end Gates

end ServerEngine

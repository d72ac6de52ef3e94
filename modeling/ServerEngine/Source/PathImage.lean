import ServerEngine.Source.PathIdentity

/-! # The paths of an image

An image keeps the paths of its sources and an index over them. Its verification looks every path up,
so in a verified image a path finds the one source that has it.
-/
namespace ServerEngine
open Slice

structure ImagePaths where
  sourceCore : List SourceRecord
  pathBytes : Bytes
  pathIndex : List PathSlot

namespace ImagePaths

def path (image : ImagePaths) (source : Nat) : Bytes :=
  if source = 0 || image.sourceCore.length < source then []
  else
    let record := image.sourceCore.getD (source - 1) {}
    if image.pathBytes.length < record.pathOffset ||
        image.pathBytes.length - record.pathOffset < record.pathLength then []
    else slice image.pathBytes record.pathOffset record.pathLength

def findLoop (image : ImagePaths) (normalizedPath : Bytes) : Nat → Nat → Except StatusCode Nat
  | 0, _ => .error .notFound
  | probes + 1, position =>
    let slot := image.pathIndex.getD position {}
    if slot.source = 0 then .error .notFound
    else if slot.fingerprint = pathFingerprint (hashPath normalizedPath) &&
        image.path slot.source = normalizedPath then .ok slot.source
    else image.findLoop normalizedPath probes ((position + 1) &&& (image.pathIndex.length - 1))

def find (image : ImagePaths) (normalizedPath : Bytes) : Except StatusCode Nat :=
  if normalizedPath = [] || image.pathIndex = [] then .error .notFound
  else image.findLoop normalizedPath image.pathIndex.length
    (hashPath normalizedPath &&& (image.pathIndex.length - 1))

/-- The checks of `verify_contents` on the path of one source. -/
def verifyPath (image : ImagePaths) (source : Nat) : Except StatusCode Unit :=
  if image.path source = [] then .error .artifactCorrupt
  else match image.find (image.path source) with
  | .error _ => .error .artifactCorrupt
  | .ok found => if found ≠ source then .error .artifactCorrupt else .ok ()

/-- `verify_contents`, as far as the paths. -/
def verifyPaths (image : ImagePaths) : Except StatusCode Unit :=
  forM (List.range image.sourceCore.length) fun index => image.verifyPath (index + 1)

variable {image : ImagePaths}

theorem findLoop_found {p : Bytes} (hp : p ≠ []) {probes position source : Nat}
    (h : image.findLoop p probes position = .ok source) :
    source ≠ 0 ∧ source ≤ image.sourceCore.length ∧ image.path source = p := by
  induction probes generalizing position with
  | zero => cases h
  | succ probes ih =>
    rw [findLoop] at h
    split at h
    · cases h
    · split at h
      · rename_i hmatch
        have hpath : image.path (image.pathIndex.getD position {}).source = p :=
          of_decide_eq_true (Bool.and_eq_true_iff.mp hmatch).2
        rw [Except.ok.inj h] at hpath
        have hne : image.path source ≠ [] := by
          rw [hpath]
          exact hp
        unfold path at hne
        split at hne
        · exact absurd rfl hne
        · rename_i hvalid
          have hvalid : source ≠ 0 ∧ source ≤ image.sourceCore.length := by simpa using hvalid
          exact ⟨hvalid.1, hvalid.2, hpath⟩
      · exact ih h

theorem find_found {p : Bytes} {source : Nat} (h : image.find p = .ok source) :
    source ≠ 0 ∧ source ≤ image.sourceCore.length ∧ image.path source = p := by
  unfold find at h
  split at h
  · cases h
  · rename_i hne
    apply findLoop_found ?_ h
    intro hnil
    simp [hnil] at hne

theorem verifyPaths_named (h : image.verifyPaths = .ok ()) {source : Nat} (hs : source ≠ 0)
    (hle : source ≤ image.sourceCore.length) :
    image.path source ≠ [] ∧ image.find (image.path source) = .ok source := by
  have hone := ErrorFold.forM_ok_mem h (source - 1) (List.mem_range.mpr (by omega))
  have hsource : source - 1 + 1 = source := by omega
  rw [hsource] at hone
  unfold verifyPath at hone
  split at hone
  · cases hone
  · rename_i hne
    refine ⟨hne, ?_⟩
    cases hfind : image.find (image.path source) with
    | error code =>
      rw [hfind] at hone
      cases hone
    | ok found =>
      rw [hfind] at hone
      dsimp only at hone
      split at hone
      · cases hone
      · rename_i hsame
        rw [Decidable.not_not.mp hsame]

end ImagePaths

structure Baseline.Reads (b : Baseline) (image : ImagePaths) : Prop where
  sourceCount : b.sources.sourceCount = image.sourceCore.length
  path : b.sources.path = image.path
  find : b.sources.find = image.find

theorem Baseline.Reads.indexed {b : Baseline} {image : ImagePaths} (h : b.Reads image)
    (hverified : image.verifyPaths = .ok ()) : b.Indexed := by
  constructor
  · intro source hs hle
    rw [h.path, h.find]
    exact ImagePaths.verifyPaths_named hverified hs (h.sourceCount ▸ hle)
  · intro p source hfind
    rw [h.find] at hfind
    rw [h.path, h.sourceCount]
    exact ImagePaths.find_found hfind

end ServerEngine

import ServerEngine.Identities.Space
import ServerEngine.Library.Interleaving

/-! # Resolving declarations

What any interleaving of calls keeps: the chain of a bucket holds published records, each under a
parent and name of its own. A candidate's slot belongs to one call until its reference is exchanged
into a bucket.
-/
namespace ServerEngine
open Interleaving

namespace IdentityRef

theorem slot_make {slot : Nat} (kind : IdentityKind) (h : slot ≤ maximumSlot) :
    (make slot kind).slot = slot := by
  have hmax : maximumSlot = 1073741823 := rfl
  show (kind.code * 2 ^ 30 + slot) % 2 ^ 30 = slot
  omega

theorem kind_make {slot : Nat} (kind : IdentityKind) (h : slot ≤ maximumSlot) :
    (make slot kind).kind = kind := by
  have hmax : maximumSlot = 1073741823 := rfl
  have hdiv : (kind.code * 2 ^ 30 + slot) / 2 ^ 30 = kind.code := by omega
  unfold make IdentityRef.kind
  dsimp only
  rw [hdiv]
  cases kind <;> rfl

theorem ne_null_of_slot {i : IdentityRef} (h : i.slot ≠ 0) : i ≠ .null := by
  intro heq
  rw [heq] at h
  exact h rfl

end IdentityRef

def ResolveStage.slot : ResolveStage → Option Nat
  | .ensureDirectory slot | .installDirectory slot | .ensurePage slot | .installPage slot
  | .initialiseCandidate slot | .loadHead slot | .scan slot _ _ | .link slot _ | .exchange slot _
  | .discard slot _ => some slot
  | _ => none

namespace IdentitySpace

/-! ## Published records -/

structure Present (t : IdentitySpace) (slot : Nat) : Prop where
  lower : 2 ≤ slot
  upper : slot ≤ IdentityRef.maximumSlot
  directory : t.directories (directoryIndex slot) = true
  page : t.pages (pageNumber slot) = true

structure Published (t : IdentitySpace) (i : IdentityRef) : Prop where
  present : t.Present i.slot
  fingerprint : (t.records i.slot).fingerprint % 2 ^ 30 ≠ 0
  kind : IdentityRef.kind ⟨(t.records i.slot).fingerprint⟩ = i.kind
  name : (t.records i.slot).name ≠ 0

def key (t : IdentitySpace) (i : IdentityRef) : IdentityRef × Nat :=
  ((t.records i.slot).parent, (t.records i.slot).name)

section Records
variable {t t' : IdentitySpace} {i : IdentityRef}

theorem directoryIndex_lt {slot : Nat} (h : slot ≤ IdentityRef.maximumSlot) :
    directoryIndex slot < directoryCount := by
  have hmax : IdentityRef.maximumSlot = 1073741823 := rfl
  have hcount : directoryCount = 512 := rfl
  show slot / 4096 / 512 < directoryCount
  omega

theorem Present.slotRecord {slot : Nat} (h : t.Present slot) :
    t.slotRecord slot = some (t.records slot) := by
  have hlower := h.lower
  have hupper := h.upper
  have hdirectory := directoryIndex_lt h.upper
  have hpages : (t.directories (directoryIndex slot) && t.pages (pageNumber slot)) = true := by
    rw [h.directory, h.page]
    rfl
  unfold IdentitySpace.slotRecord
  rw [if_neg (by omega), if_neg (by simp; omega), if_neg (by omega), if_pos hpages]

theorem Published.record (h : t.Published i) : t.publishedRecord i = some (t.records i.slot) := by
  have hlower := h.present.lower
  have hvalid : i.valid = true := by
    unfold IdentityRef.valid
    simp
    omega
  unfold publishedRecord
  rw [hvalid, h.present.slotRecord]
  dsimp only
  rw [if_neg (by simp), if_neg (by omega), if_pos ⟨h.fingerprint, h.kind, h.name⟩]

theorem Published.stable (h : t.Published i) (hpresent : t'.Present i.slot)
    (hrecord : t'.records i.slot = t.records i.slot) : t'.Published i :=
  ⟨hpresent, by rw [hrecord]; exact h.fingerprint, by rw [hrecord]; exact h.kind,
    by rw [hrecord]; exact h.name⟩

theorem semanticFingerprint_pos (hash : Nat) : semanticFingerprint hash ≠ 0 := by
  unfold semanticFingerprint
  dsimp only
  split
  · simp
  · assumption

theorem semanticFingerprint_le (hash : Nat) :
    semanticFingerprint hash ≤ IdentityRef.maximumSlot := by
  have hmax : IdentityRef.maximumSlot = 1073741823 := rfl
  unfold semanticFingerprint
  dsimp only
  split
  · omega
  · have := Nat.mod_lt (hash ^^^ (hash >>> 32)) (show 2 ^ 30 > 0 by omega)
    omega

theorem packedFingerprint_mod (hash : Nat) (kind : IdentityKind) :
    packedFingerprint (semanticFingerprint hash) kind % 2 ^ 30 = semanticFingerprint hash :=
  IdentityRef.slot_make kind (semanticFingerprint_le hash)

theorem packedFingerprint_kind (hash : Nat) (kind : IdentityKind) :
    IdentityRef.kind ⟨packedFingerprint (semanticFingerprint hash) kind⟩ = kind :=
  IdentityRef.kind_make kind (semanticFingerprint_le hash)

end Records

/-- The references that following `next_bucket` from a head visits. -/
def Chain (t : IdentitySpace) : IdentityRef → List IdentityRef → Prop
  | head, [] => head = .null
  | head, i :: rest => head = i ∧ t.Published i ∧ t.Chain (t.records i.slot).nextBucket rest

def Member (t : IdentitySpace) (index : Nat) (i : IdentityRef) : Prop :=
  ∃ refs, t.Chain (t.buckets index) refs ∧ i ∈ refs

section Chains
variable {t t' : IdentitySpace}

theorem Published.ne_null {i : IdentityRef} (h : t.Published i) : i ≠ .null := by
  have hlower := h.present.lower
  exact IdentityRef.ne_null_of_slot (by omega)

variable {head : IdentityRef} {refs : List IdentityRef}

theorem Chain.unique {refs' : List IdentityRef} (h : t.Chain head refs) (h' : t.Chain head refs') :
    refs = refs' := by
  induction refs generalizing head refs' with
  | nil =>
    cases refs' with
    | nil => rfl
    | cons i rest =>
      obtain ⟨rfl, hpublished, -⟩ := h'
      exact absurd h hpublished.ne_null
  | cons i rest ih =>
    obtain ⟨rfl, hpublished, hrest⟩ := h
    cases refs' with
    | nil => exact absurd h' hpublished.ne_null
    | cons j rest' =>
      obtain ⟨rfl, -, hrest'⟩ := h'
      rw [ih hrest hrest']

theorem Chain.published {head : IdentityRef} {refs : List IdentityRef} (h : t.Chain head refs) :
    ∀ i ∈ refs, t.Published i := by
  induction refs generalizing head with
  | nil => simp
  | cons j rest ih =>
    obtain ⟨-, hpublished, hrest⟩ := h
    intro i hi
    rcases List.mem_cons.mp hi with heq | hmem
    · rw [heq]
      exact hpublished
    · exact ih hrest i hmem

theorem Chain.stable (h : t.Chain head refs) (hpresent : ∀ slot, t.Present slot → t'.Present slot)
    (hrecords : ∀ i ∈ refs, t'.records i.slot = t.records i.slot) : t'.Chain head refs := by
  induction refs generalizing head with
  | nil => exact h
  | cons i rest ih =>
    obtain ⟨rfl, hpublished, hrest⟩ := h
    have hrecord := hrecords head List.mem_cons_self
    refine ⟨rfl, hpublished.stable (hpresent _ hpublished.present) hrecord, ?_⟩
    rw [hrecord]
    exact ih hrest fun i hi => hrecords i (List.mem_cons_of_mem _ hi)

theorem Member.published {index : Nat} {i : IdentityRef} (h : t.Member index i) : t.Published i := by
  obtain ⟨refs, hchain, hmem⟩ := h
  exact hchain.published i hmem

theorem Chain.member {index : Nat} (h : t.Chain (t.buckets index) refs) {i : IdentityRef} :
    t.Member index i ↔ i ∈ refs := by
  constructor
  · intro hmember
    obtain ⟨refs', hchain, hmem⟩ := hmember
    rw [h.unique hchain]
    exact hmem
  · exact fun hmem => ⟨refs, h, hmem⟩

end Chains

/-! ## The invariant -/

def reservedSlots (b : Option IdentityBaseline) : Nat := b.elim 1 (·.slotCount)

def baselineFind (b : Option IdentityBaseline) (parent : IdentityRef) (localName : Nat)
    (kind : IdentityKind) : Option IdentityRef :=
  b.bind fun baseline => baseline.findIdentity parent localName kind

/-- Nothing hinders the step: the arguments are valid, memory is had, a slot is left. -/
def Unhindered (t : IdentitySpace) (call : ResolveCall) (succeeds : Bool) : Prop :=
  match call with
  | ⟨d, .start⟩ => d.parent.valid = true ∧ d.localName ≠ 0 ∧ d.kind ≠ .root ∧
      t.valid d.parent = true
  | ⟨_, .ensureBucket⟩ => (t.denseSemanticBucketMode = true → t.denseSemanticBuckets = true) ∧
      succeeds = true
  | ⟨_, .takeSlot slot⟩ => slot ≠ 0 ∧ slot ≤ IdentityRef.maximumSlot
  | ⟨_, .ensureDirectory _⟩ | ⟨_, .ensurePage _⟩ => succeeds = true
  | _ => True

def Hindered (allowed : IdentitySpace → ResolveCall → Bool → Prop) (d : IdentityDeclaration) : Prop :=
  ∃ t stage succeeds, allowed t ⟨d, stage⟩ succeeds ∧ ¬ t.Unhindered ⟨d, stage⟩ succeeds

section Invariant
variable (allowed : IdentitySpace → ResolveCall → Bool → Prop) (b : Option IdentityBaseline)
  (t : IdentitySpace)

structure Taken (slot : Nat) : Prop where
  lower : reservedSlots b < slot
  upper : slot < t.nextSlot

/-- A linked record stands where its parent and name belong, and is new to the image. -/
structure Linked (index : Nat) (i : IdentityRef) : Prop where
  taken : t.Taken b i.slot
  fingerprint : (t.records i.slot).fingerprint % 2 ^ 30 =
    semanticFingerprint (semanticHashValue (t.key i).1 (t.key i).2)
  bucket : bucketIndex (t.key i).1 (t.key i).2 = index
  absent : ∀ kind, baselineFind b (t.key i).1 (t.key i).2 kind = none

structure Bucket (index : Nat) (refs : List IdentityRef) : Prop where
  chain : t.Chain (t.buckets index) refs
  distinct : (refs.map t.key).Nodup
  linked : ∀ i ∈ refs, t.Linked b index i

structure Shared : Prop where
  baseline : t.baseline = b
  counter : t.nextSlot = 0 ∨ reservedSlots b < t.nextSlot
  limit : t.nextSlot ≤ IdentityRef.maximumSlot + 1
  buckets : ∀ index, ∃ refs, t.Bucket b index refs

structure Sought (d : IdentityDeclaration) : Prop where
  name : d.localName ≠ 0
  absent : ∀ kind, baselineFind b d.parent d.localName kind = none

structure Reserved (d : IdentityDeclaration) (slot : Nat) : Prop where
  sought : Sought b d
  taken : t.Taken b slot
  upper : slot ≤ IdentityRef.maximumSlot
  unlinked : ∀ index i, t.Member index i → i.slot ≠ slot

/-- The record that `make_candidate` writes, with a `next_bucket`. -/
def candidateRecord (d : IdentityDeclaration) (next : IdentityRef) : IdentityRecord :=
  ⟨d.parent, d.localName, packedFingerprint
    (semanticFingerprint (semanticHashValue d.parent d.localName)) d.kind, next⟩

structure Candidate (d : IdentityDeclaration) (slot : Nat) (next : IdentityRef) : Prop where
  reserved : t.Reserved b d slot
  present : t.Present slot
  record : t.records slot = candidateRecord d next

/-- A walk has passed records of other declarations, all of them in the bucket. -/
structure Walk (d : IdentityDeclaration) (head current : IdentityRef)
    (passed rest : List IdentityRef) : Prop where
  whole : t.Chain head (passed ++ rest)
  ahead : t.Chain current rest
  member : ∀ i ∈ passed ++ rest, t.Member (bucketIndex d.parent d.localName) i
  other : ∀ i ∈ passed, t.key i ≠ (d.parent, d.localName)

def Resolved (d : IdentityDeclaration) (i : IdentityRef) : Prop :=
  i.kind = d.kind ∧ (baselineFind b d.parent d.localName d.kind = some i ∨
    (t.Member (bucketIndex d.parent d.localName) i ∧ t.key i = (d.parent, d.localName)))

def Outcome (d : IdentityDeclaration) : Except StatusCode IdentityRef → Prop
  | .ok i => t.Resolved b d i
  | .error code => code = .semanticConflict ∨
      ((code = .notAvailable ∨ code = .invalidArgument) ∧ Hindered allowed d)

def Own : ResolveCall → Prop
  | ⟨_, .start⟩ => True
  | ⟨d, .findHead⟩ | ⟨d, .findBaseline⟩ => d.localName ≠ 0
  | ⟨d, .findRecord current⟩ => d.localName ≠ 0 ∧ ∃ rest, t.Walk d current current [] rest
  | ⟨d, .ensureBucket⟩ | ⟨d, .installBucket⟩ | ⟨d, .loadSlot⟩ | ⟨d, .takeSlot _⟩ => Sought b d
  | ⟨d, .ensureDirectory slot⟩ | ⟨d, .installDirectory slot⟩ => t.Reserved b d slot
  | ⟨d, .ensurePage slot⟩ | ⟨d, .installPage slot⟩ => t.Reserved b d slot ∧
      t.directories (directoryIndex slot) = true
  | ⟨d, .initialiseCandidate slot⟩ => t.Reserved b d slot ∧ t.Present slot
  | ⟨d, .loadHead slot⟩ => ∃ next, t.Candidate b d slot next
  | ⟨d, .scan slot head current⟩ => (∃ next, t.Candidate b d slot next) ∧
      ∃ passed rest, t.Walk d head current passed rest
  | ⟨d, .link slot head⟩ => (∃ next, t.Candidate b d slot next) ∧
      ∃ passed, t.Walk d head .null passed []
  | ⟨d, .exchange slot head⟩ => t.Candidate b d slot head ∧
      ∃ passed, t.Walk d head .null passed []
  | ⟨d, .count slot⟩ => t.Resolved b d (.make slot d.kind)
  | ⟨d, .discard slot result⟩ => t.Reserved b d slot ∧ t.Outcome allowed b d result
  | ⟨d, .returned result⟩ => t.Outcome allowed b d result

end Invariant

def Apart (a c : ResolveCall) : Prop := ∀ slot, a.stage.slot = some slot → c.stage.slot ≠ some slot

/-- What a step may do to the space: it writes the record of its own slot and links under it. -/
structure Guarantee (touched : Option Nat) (t t' : IdentitySpace) : Prop where
  baseline : t'.baseline = t.baseline
  directories : ∀ index, t.directories index = true → t'.directories index = true
  pages : ∀ number, t.pages number = true → t'.pages number = true
  counter : t.nextSlot ≤ t'.nextSlot
  records : ∀ slot, touched ≠ some slot → t'.records slot = t.records slot
  fresh : ∀ slot, touched = some slot → ∀ index i, t.Member index i → i.slot ≠ slot
  kept : ∀ index i, t.Member index i → t'.Member index i
  added : ∀ index i, t'.Member index i → t.Member index i ∨ touched = some i.slot

section Rely
variable {allowed : IdentitySpace → ResolveCall → Bool → Prop} {b : Option IdentityBaseline}
  {t t' : IdentitySpace} {touched : Option Nat} {d : IdentityDeclaration} {call : ResolveCall}
  {slot : Nat}

theorem Present.stable (h : t.Present slot) (hg : Guarantee touched t t') : t'.Present slot :=
  ⟨h.lower, h.upper, hg.directories _ h.directory, hg.pages _ h.page⟩

theorem Taken.stable (h : t.Taken b slot) (hg : Guarantee touched t t') : t'.Taken b slot :=
  ⟨h.lower, Nat.lt_of_lt_of_le h.upper hg.counter⟩

variable {index : Nat}

theorem Member.record {i : IdentityRef} (h : t.Member index i) (hg : Guarantee touched t t') :
    t'.records i.slot = t.records i.slot :=
  hg.records i.slot fun heq => hg.fresh i.slot heq index i h rfl

theorem Member.key_eq {i : IdentityRef} (h : t.Member index i) (hg : Guarantee touched t t') :
    t'.key i = t.key i := by
  unfold key
  rw [h.record hg]

variable {head : IdentityRef} {refs : List IdentityRef}

theorem Chain.guaranteed (h : t.Chain head refs) (hmember : ∀ i ∈ refs, t.Member index i)
    (hg : Guarantee touched t t') : t'.Chain head refs :=
  h.stable (fun _ hpresent => hpresent.stable hg) fun i hi => (hmember i hi).record hg

theorem Walk.stable {current : IdentityRef} {passed rest : List IdentityRef}
    (h : t.Walk d head current passed rest) (hg : Guarantee touched t t') :
    t'.Walk d head current passed rest := by
  refine ⟨h.whole.guaranteed h.member hg, ?_, fun i hi => hg.kept _ i (h.member i hi), ?_⟩
  · exact h.ahead.guaranteed (fun i hi => h.member i (List.mem_append_right _ hi)) hg
  · intro i hi
    rw [(h.member i (List.mem_append_left _ hi)).key_eq hg]
    exact h.other i hi

theorem Reserved.stable (h : t.Reserved b d slot) (hg : Guarantee touched t t')
    (hapart : touched ≠ some slot) : t'.Reserved b d slot := by
  refine ⟨h.sought, h.taken.stable hg, h.upper, ?_⟩
  intro index i hi
  rcases hg.added index i hi with hold | hnew
  · exact h.unlinked index i hold
  · intro heq
    exact hapart (by rw [hnew, heq])

theorem Candidate.stable {next : IdentityRef} (h : t.Candidate b d slot next)
    (hg : Guarantee touched t t') (hapart : touched ≠ some slot) : t'.Candidate b d slot next :=
  ⟨h.reserved.stable hg hapart, h.present.stable hg, by rw [hg.records slot hapart, h.record]⟩

theorem Resolved.stable {i : IdentityRef} (h : t.Resolved b d i) (hg : Guarantee touched t t') :
    t'.Resolved b d i := by
  obtain ⟨hkind, hsource⟩ := h
  refine ⟨hkind, ?_⟩
  rcases hsource with hfound | ⟨hmember, hkey⟩
  · exact .inl hfound
  · exact .inr ⟨hg.kept _ i hmember, by rw [hmember.key_eq hg, hkey]⟩

theorem Outcome.stable {result : Except StatusCode IdentityRef}
    (h : t.Outcome allowed b d result) (hg : Guarantee touched t t') :
    t'.Outcome allowed b d result := by
  cases result with
  | ok i => exact Resolved.stable h hg
  | error code => exact h

theorem Own.stable (h : t.Own allowed b call) (hg : Guarantee touched t t')
    (hapart : ∀ slot, call.stage.slot = some slot → touched ≠ some slot) : t'.Own allowed b call := by
  obtain ⟨d, stage⟩ := call
  cases stage with
  | start => trivial
  | findHead | findBaseline => exact h
  | findRecord current =>
    obtain ⟨hname, rest, hwalk⟩ := h
    exact ⟨hname, rest, hwalk.stable hg⟩
  | ensureBucket | installBucket | loadSlot | takeSlot _ => exact h
  | ensureDirectory slot | installDirectory slot => exact Reserved.stable h hg (hapart slot rfl)
  | ensurePage slot | installPage slot =>
    exact ⟨h.1.stable hg (hapart slot rfl), hg.directories _ h.2⟩
  | initialiseCandidate slot => exact ⟨h.1.stable hg (hapart slot rfl), h.2.stable hg⟩
  | loadHead slot =>
    obtain ⟨next, hcandidate⟩ := h
    exact ⟨next, hcandidate.stable hg (hapart slot rfl)⟩
  | scan slot head current =>
    obtain ⟨⟨next, hcandidate⟩, passed, rest, hwalk⟩ := h
    exact ⟨⟨next, hcandidate.stable hg (hapart slot rfl)⟩, passed, rest, hwalk.stable hg⟩
  | link slot head =>
    obtain ⟨⟨next, hcandidate⟩, passed, hwalk⟩ := h
    exact ⟨⟨next, hcandidate.stable hg (hapart slot rfl)⟩, passed, hwalk.stable hg⟩
  | exchange slot head =>
    obtain ⟨hcandidate, passed, hwalk⟩ := h
    exact ⟨hcandidate.stable hg (hapart slot rfl), passed, hwalk.stable hg⟩
  | count slot => exact Resolved.stable h hg
  | discard slot result => exact ⟨h.1.stable hg (hapart slot rfl), h.2.stable hg⟩
  | returned result => exact Outcome.stable h hg

theorem Linked.stable {i : IdentityRef} (h : t.Linked b index i) (hmember : t.Member index i)
    (hg : Guarantee touched t t') : t'.Linked b index i := by
  have hkey := hmember.key_eq hg
  refine ⟨h.taken.stable hg, ?_, ?_, ?_⟩
  · rw [hkey, hmember.record hg]
    exact h.fingerprint
  · rw [hkey]
    exact h.bucket
  · rw [hkey]
    exact h.absent

theorem Bucket.stable (h : t.Bucket b index refs) (hg : Guarantee touched t t')
    (hhead : t'.buckets index = t.buckets index) : t'.Bucket b index refs := by
  have hmember : ∀ i ∈ refs, t.Member index i := fun i hi => h.chain.member.mpr hi
  have hkeys : refs.map t'.key = refs.map t.key := by
    refine List.map_congr_left ?_
    intro i hi
    exact (hmember i hi).key_eq hg
  refine ⟨?_, ?_, fun i hi => (h.linked i hi).stable (hmember i hi) hg⟩
  · rw [hhead]
    exact h.chain.guaranteed hmember hg
  · rw [hkeys]
    exact h.distinct

theorem Shared.stable (h : t.Shared b) (hg : Guarantee touched t t')
    (hbuckets : t'.buckets = t.buckets) (hlimit : t'.nextSlot ≤ IdentityRef.maximumSlot + 1)
    (hzero : t.nextSlot = 0 → t'.nextSlot = 0) : t'.Shared b := by
  refine ⟨hg.baseline.trans h.baseline, ?_, hlimit, ?_⟩
  · rcases h.counter with hnone | hsome
    · exact .inl (hzero hnone)
    · exact .inr (Nat.lt_of_lt_of_le hsome hg.counter)
  · intro index
    obtain ⟨refs, hbucket⟩ := h.buckets index
    exact ⟨refs, hbucket.stable hg (by rw [hbuckets])⟩

end Rely

end IdentitySpace

end ServerEngine

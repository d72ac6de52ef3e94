import ServerEngine.Identities.Resolution

/-! # One step of a resolution

Every step keeps the invariant of the space and what is known of its call, leaves the other calls
theirs, and keeps the tally of the identities.
-/
namespace ServerEngine
open Interleaving

def ResolveStage.pending : ResolveStage → Nat
  | .count _ => 1
  | _ => 0

namespace IdentitySpace

def Listed (t : IdentitySpace) (i : IdentityRef) : Prop := ∃ index, t.Member index i

/-- The identities a step adds are the ones it counts, now or as pending. -/
structure Tally (added : List IdentityRef) (t t' : IdentitySpace) (stage stage' : ResolveStage) :
    Prop where
  listed : ∀ i, t'.Listed i ↔ i ∈ added ∨ t.Listed i
  nodup : added.Nodup
  fresh : ∀ i ∈ added, ¬ t.Listed i
  count : t'.identityCount + stage'.pending = t.identityCount + stage.pending + added.length

structure Effect (allowed : IdentitySpace → ResolveCall → Bool → Prop)
    (b : Option IdentityBaseline) (t : IdentitySpace) (call : ResolveCall) (t' : IdentitySpace)
    (stage : ResolveStage) : Prop where
  shared : t'.Shared b
  own : t'.Own allowed b ⟨call.declaration, stage⟩
  guarantee : ∃ touched, Guarantee touched t t' ∧
    ∀ slot, touched = some slot → call.stage.slot = some slot
  holds : ∀ slot, stage.slot = some slot → call.stage.slot = some slot ∨ slot = t.nextSlot
  tally : ∃ added, Tally added t t' call.stage stage

section Frames
variable {b : Option IdentityBaseline} {t t' : IdentitySpace} {touched : Option Nat}
  {d : IdentityDeclaration} {slot : Nat}

theorem member_iff (hs : t.Shared b) (hbuckets : t'.buckets = t.buckets)
    (hpresent : ∀ slot, t.Present slot → t'.Present slot)
    (hrecords : ∀ index i, t.Member index i → t'.records i.slot = t.records i.slot)
    (index : Nat) (i : IdentityRef) : t'.Member index i ↔ t.Member index i := by
  obtain ⟨refs, hbucket⟩ := hs.buckets index
  have hchain : t'.Chain (t'.buckets index) refs := by
    rw [hbuckets]
    exact hbucket.chain.stable hpresent fun j hj =>
      hrecords index j (hbucket.chain.member.mpr hj)
  rw [hchain.member, hbucket.chain.member]

theorem guarantee_of_frame (hs : t.Shared b) (hbaseline : t'.baseline = t.baseline)
    (hbuckets : t'.buckets = t.buckets)
    (hdirectories : ∀ index, t.directories index = true → t'.directories index = true)
    (hpages : ∀ number, t.pages number = true → t'.pages number = true)
    (hcounter : t.nextSlot ≤ t'.nextSlot)
    (hrecords : ∀ slot, touched ≠ some slot → t'.records slot = t.records slot)
    (hfresh : ∀ slot, touched = some slot → ∀ index i, t.Member index i → i.slot ≠ slot) :
    Guarantee touched t t' := by
  have hmember := member_iff hs hbuckets
    (fun slot h => ⟨h.lower, h.upper, hdirectories _ h.directory, hpages _ h.page⟩)
    fun index i h => hrecords i.slot fun heq => hfresh i.slot heq index i h rfl
  exact ⟨hbaseline, hdirectories, hpages, hcounter, hrecords, hfresh,
    fun index i => (hmember index i).mpr, fun index i h => .inl ((hmember index i).mp h)⟩

theorem tally_of_guarantee {stage stage' : ResolveStage} (hg : Guarantee touched t t')
    (hfresh : ∀ slot, touched = some slot → ∀ index i, t'.Member index i → i.slot ≠ slot)
    (hcount : t'.identityCount + stage'.pending = t.identityCount + stage.pending) :
    Tally [] t t' stage stage' := by
  refine ⟨?_, List.nodup_nil, by simp, hcount⟩
  intro i
  constructor
  · intro hlisted
    obtain ⟨index, hmember⟩ := hlisted
    rcases hg.added index i hmember with hold | hnew
    · exact .inr ⟨index, hold⟩
    · exact absurd rfl (hfresh i.slot hnew index i hmember)
  · intro hlisted
    obtain ⟨index, hmember⟩ := hlisted.resolve_left (by simp)
    exact ⟨index, hg.kept index i hmember⟩

theorem Guarantee.same (hs : t.Shared b) : Guarantee none t t :=
  guarantee_of_frame hs rfl rfl (fun _ h => h) (fun _ h => h) (Nat.le_refl _) (fun _ _ => rfl)
    (by simp)

variable {item : IdentityRecord}

theorem storeRecord_other {other : Nat} (h : some slot ≠ some other) :
    (t.storeRecord slot item).records other = t.records other := by
  show Function.update t.records slot item other = _
  exact Function.update_of_ne (fun heq => h (by rw [heq])) ..

theorem storeRecord_self : (t.storeRecord slot item).records slot = item :=
  Function.update_self ..

theorem storeRecord_guarantee (hs : t.Shared b) (hr : t.Reserved b d slot)
    (item : IdentityRecord) : Guarantee (some slot) t (t.storeRecord slot item) := by
  refine guarantee_of_frame hs rfl rfl (fun _ h => h) (fun _ h => h) (Nat.le_refl _)
    (fun other h => storeRecord_other h) ?_
  intro other hother index i hmember
  rw [← Option.some.inj hother]
  exact hr.unlinked index i hmember

theorem storeRecord_member (hs : t.Shared b) (hr : t.Reserved b d slot) (item : IdentityRecord)
    (index : Nat) (i : IdentityRef) :
    (t.storeRecord slot item).Member index i ↔ t.Member index i := by
  refine @member_iff b t (t.storeRecord slot item) hs rfl
    (fun slot h => ⟨h.lower, h.upper, h.directory, h.page⟩) ?_ index i
  intro index i hmember
  exact storeRecord_other fun heq => hr.unlinked index i hmember (Option.some.inj heq).symm

theorem storeRecord_reserved (hs : t.Shared b) (hr : t.Reserved b d slot)
    (item : IdentityRecord) : (t.storeRecord slot item).Reserved b d slot := by
  refine ⟨hr.sought, ⟨hr.taken.lower, hr.taken.upper⟩, hr.upper, ?_⟩
  intro index i hmember
  exact hr.unlinked index i ((storeRecord_member hs hr item index i).mp hmember)

theorem reservedSlots_pos : 1 ≤ reservedSlots b := by
  cases b with
  | none => exact Nat.le_refl 1
  | some baseline => exact (baseline.bounded .root baseline.rootValid).2

theorem walk_head (hs : t.Shared b) (d : IdentityDeclaration) :
    ∃ rest, t.Walk d (t.buckets (bucketIndex d.parent d.localName))
      (t.buckets (bucketIndex d.parent d.localName)) [] rest := by
  obtain ⟨refs, hbucket⟩ := hs.buckets (bucketIndex d.parent d.localName)
  exact ⟨refs, hbucket.chain, hbucket.chain, fun i hi => hbucket.chain.member.mpr hi, by simp⟩

variable {index : Nat} {i : IdentityRef}

theorem member_linked (hs : t.Shared b) (h : t.Member index i) : t.Linked b index i := by
  obtain ⟨refs, hbucket⟩ := hs.buckets index
  exact hbucket.linked i (hbucket.chain.member.mp h)

theorem isDeclaration_iff (hs : t.Shared b) (h : t.Member index i) (parent : IdentityRef)
    (localName : Nat) :
    isDeclaration parent localName (t.records i.slot) = true ↔ t.key i = (parent, localName) := by
  have hfingerprint := (member_linked hs h).fingerprint
  unfold isDeclaration key at *
  rw [Bool.and_eq_true, Bool.and_eq_true, beq_iff_eq, beq_iff_eq, beq_iff_eq, Prod.mk.injEq]
  constructor
  · exact fun hall => ⟨hall.1.2, hall.2⟩
  · intro hkey
    refine ⟨⟨?_, hkey.1⟩, hkey.2⟩
    rw [hfingerprint, hkey.1, hkey.2]

theorem Walk.step (hs : t.Shared b) {head current : IdentityRef} {passed rest : List IdentityRef}
    (h : t.Walk d head current passed rest) :
    (current = .null ∧ t.Walk d head .null passed []) ∨
    (current ≠ .null ∧ t.publishedRecord current = some (t.records current.slot) ∧
      t.Member (bucketIndex d.parent d.localName) current ∧
      (isDeclaration d.parent d.localName (t.records current.slot) = false →
        t.Walk d head (t.records current.slot).nextBucket (passed ++ [current]) rest.tail ∧
        t.Walk d (t.records current.slot).nextBucket (t.records current.slot).nextBucket []
          rest.tail)) := by
  cases rest with
  | nil => exact .inl ⟨h.ahead, h.whole, rfl, h.member, h.other⟩
  | cons i rest =>
    obtain ⟨rfl, hpublished, hahead⟩ := h.ahead
    have hmember := h.member current (by simp)
    refine .inr ⟨hpublished.ne_null, hpublished.record, hmember, ?_⟩
    intro hother
    have hkey : t.key current ≠ (d.parent, d.localName) := by
      intro heq
      rw [(isDeclaration_iff hs hmember _ _).mpr heq] at hother
      cases hother
    have hlist : passed ++ [current] ++ rest = passed ++ current :: rest := by simp
    refine ⟨⟨?_, hahead, ?_, ?_⟩, hahead, hahead, ?_, by simp⟩
    · rw [List.tail_cons, hlist]
      exact h.whole
    · rw [List.tail_cons, hlist]
      exact h.member
    · intro j hj
      rcases List.mem_append.mp hj with hj | hj
      · exact h.other j hj
      · rw [List.mem_singleton.mp hj]
        exact hkey
    · intro j hj
      exact h.member j (by simp at hj ⊢; exact .inr (.inr hj))

end Frames

/-! ## The stages -/

section Steps
variable {allowed : IdentitySpace → ResolveCall → Bool → Prop} {b : Option IdentityBaseline}
  {t : IdentitySpace} {d : IdentityDeclaration} {call : ResolveCall} {stage : ResolveStage}

theorem effect_read (hs : t.Shared b) (hown : t.Own allowed b ⟨call.declaration, stage⟩)
    (hslot : ∀ slot, stage.slot = some slot → call.stage.slot = some slot)
    (hpending : stage.pending = call.stage.pending) : t.Effect allowed b call t stage := by
  have hg := Guarantee.same hs
  exact ⟨hs, hown, ⟨none, hg, by simp⟩, fun slot h => .inl (hslot slot h),
    ⟨[], tally_of_guarantee hg (by simp) (by rw [hpending])⟩⟩

variable {succeeds : Bool}

theorem start_effect (hs : t.Shared b) (hallowed : allowed t ⟨d, .start⟩ succeeds) :
    t.Effect allowed b ⟨d, .start⟩
      (t.advance ⟨d, .start⟩ succeeds).1
      (t.advance ⟨d, .start⟩ succeeds).2 := by
  unfold advance
  dsimp only
  split
  · rename_i hinvalid
    refine effect_read hs (.inr ⟨.inr rfl, t, .start, succeeds, hallowed, ?_⟩) (fun _ h => h) rfl
    intro hopen
    obtain ⟨hparent, hname, hkind, hvalid⟩ := hopen
    simp [hparent, hname, hkind, hvalid] at hinvalid
  · rename_i hvalid
    refine effect_read hs ?_ (fun _ h => h) rfl
    show d.localName ≠ 0
    intro hzero
    simp [hzero] at hvalid

variable {i : IdentityRef}

theorem accept_outcome (hs : t.Shared b) (hmember : t.Member (bucketIndex d.parent d.localName) i)
    (hfound : isDeclaration d.parent d.localName (t.records i.slot) = true) :
    t.Outcome allowed b d (accept d.kind i) := by
  unfold accept
  split
  · exact .inl rfl
  · rename_i hkind
    exact ⟨not_not.mp hkind, .inr ⟨hmember, (isDeclaration_iff hs hmember _ _).mp hfound⟩⟩

variable {current : IdentityRef}

theorem findRecord_effect (succeeds : Bool) (hs : t.Shared b)
    (ho : t.Own allowed b ⟨d, .findRecord current⟩) : t.Effect allowed b ⟨d, .findRecord current⟩
      (t.advance ⟨d, .findRecord current⟩ succeeds).1
      (t.advance ⟨d, .findRecord current⟩ succeeds).2 := by
  obtain ⟨hname, rest, hwalk⟩ := ho
  unfold advance
  dsimp only
  rcases hwalk.step hs with ⟨hnull, -⟩ | ⟨hne, hrecord, hmember, hahead⟩
  · rw [if_pos hnull]
    exact effect_read hs hname (fun _ h => h) rfl
  · rw [if_neg hne, hrecord]
    dsimp only
    split
    · rename_i hfound
      exact effect_read hs (accept_outcome hs hmember hfound) (fun _ h => h) rfl
    · rename_i hother
      exact effect_read hs ⟨hname, _, (hahead (by simpa using hother)).2⟩ (fun _ h => h) rfl

theorem findBaseline_own (hs : t.Shared b) (hname : d.localName ≠ 0) :
    t.Own allowed b ⟨d, t.findBaseline d.parent d.localName d.kind⟩ := by
  unfold findBaseline
  rw [hs.baseline]
  cases b with
  | none => exact ⟨hname, fun _ => rfl⟩
  | some baseline =>
    dsimp only
    cases hfound : baseline.findIdentity d.parent d.localName d.kind with
    | some existing =>
      have hkind := ((baseline.exact d.parent d.localName d.kind existing).mp hfound).2.2.2.2.1
      exact ⟨hkind, .inl hfound⟩
    | none =>
      dsimp only
      split
      · exact .inl rfl
      · rename_i hothers
        refine ⟨hname, ?_⟩
        intro other
        show baseline.findIdentity d.parent d.localName other = none
        by_cases hsame : other = d.kind
        · rw [hsame]
          exact hfound
        cases hother : baseline.findIdentity d.parent d.localName other with
        | none => rfl
        | some existing =>
          have hroot := ((baseline.exact d.parent d.localName other existing).mp hother).2.2.1
          exfalso
          apply hothers
          refine List.any_eq_true.mpr ⟨other, ?_, by simp [hsame, hother]⟩
          cases other <;> simp_all

theorem findBaseline_slot : (t.findBaseline d.parent d.localName d.kind).slot = none ∧
    (t.findBaseline d.parent d.localName d.kind).pending = 0 := by
  unfold findBaseline
  split
  · exact ⟨rfl, rfl⟩
  split
  · exact ⟨rfl, rfl⟩
  split <;> exact ⟨rfl, rfl⟩

theorem takeSlot_effect {slot : Nat} (hs : t.Shared b) (ho : Sought b d)
    (hallowed : allowed t ⟨d, .takeSlot slot⟩ succeeds) : t.Effect allowed b ⟨d, .takeSlot slot⟩
      (t.advance ⟨d, .takeSlot slot⟩ succeeds).1
      (t.advance ⟨d, .takeSlot slot⟩ succeeds).2 := by
  unfold advance
  dsimp only
  split
  · rename_i hrange
    refine effect_read hs (.inr ⟨.inl rfl, t, .takeSlot slot, succeeds, hallowed, ?_⟩)
      (fun _ h => h) rfl
    intro hopen
    have hne : slot ≠ 0 := hopen.1
    have hle : slot ≤ IdentityRef.maximumSlot := hopen.2
    simp at hrange
    omega
  rename_i hrange
  have hle : slot ≤ IdentityRef.maximumSlot := by simp at hrange; omega
  split
  · rename_i hexchange
    rw [Bool.and_eq_true, beq_iff_eq] at hexchange
    have hlower : reservedSlots b < slot := by
      rcases hs.counter with hzero | hlower
      · simp at hrange
        omega
      · omega
    have hg : Guarantee none t { t with nextSlot := slot + 1 } :=
      guarantee_of_frame hs rfl rfl (fun _ h => h) (fun _ h => h) (by dsimp only; omega)
        (fun _ _ => rfl) (by simp)
    have hmember := @member_iff b t { t with nextSlot := slot + 1 } hs rfl
      (fun _ h => ⟨h.lower, h.upper, h.directory, h.page⟩) (fun _ _ _ => rfl)
    refine ⟨hs.stable hg rfl (by dsimp only; omega) (by simp at hrange; omega),
      ⟨ho, ⟨hlower, by dsimp only; omega⟩, hle, ?_⟩, ⟨none, hg, by simp⟩, ?_,
      ⟨[], tally_of_guarantee hg (by simp) rfl⟩⟩
    · intro index i hi
      have hupper := (member_linked hs ((hmember index i).mp hi)).taken.upper
      omega
    · intro other hother
      have hsame : slot = other := Option.some.inj hother
      exact .inr (by omega)
  · exact effect_read hs ho (fun _ h => h) rfl

theorem ensureBucket_effect (hs : t.Shared b) (ho : Sought b d)
    (hallowed : allowed t ⟨d, .ensureBucket⟩ succeeds) : t.Effect allowed b ⟨d, .ensureBucket⟩
      (t.advance ⟨d, .ensureBucket⟩ succeeds).1
      (t.advance ⟨d, .ensureBucket⟩ succeeds).2 := by
  have hfails : (¬ t.Unhindered ⟨d, .ensureBucket⟩ succeeds) →
      t.Effect allowed b ⟨d, .ensureBucket⟩ t
        (.returned (.error .notAvailable)) := fun hnot =>
    effect_read hs (.inr ⟨.inl rfl, t, .ensureBucket, succeeds, hallowed, hnot⟩) (fun _ h => h) rfl
  unfold advance
  dsimp only
  split
  · rename_i hdense
    split
    · exact effect_read hs ho (fun _ h => h) rfl
    · rename_i hbuckets
      exact hfails fun hopen => hbuckets (hopen.1 hdense)
  split
  · exact effect_read hs ho (fun _ h => h) rfl
  split
  · exact effect_read hs ho (fun _ h => h) rfl
  · rename_i hfail
    exact hfails fun hopen => hfail hopen.2

theorem ensureDirectory_effect {slot : Nat} (hs : t.Shared b) (ho : t.Reserved b d slot)
    (hallowed : allowed t ⟨d, .ensureDirectory slot⟩ succeeds) :
    t.Effect allowed b ⟨d, .ensureDirectory slot⟩
      (t.advance ⟨d, .ensureDirectory slot⟩ succeeds).1
      (t.advance ⟨d, .ensureDirectory slot⟩ succeeds).2 := by
  have hlower := ho.taken.lower
  have hpos := @reservedSlots_pos b
  have hupper := ho.upper
  have hdirectory := directoryIndex_lt ho.upper
  unfold advance
  dsimp only
  rw [if_neg (by simp; omega)]
  split
  · rename_i hpresent
    exact effect_read hs ⟨ho, hpresent⟩ (fun _ h => h) rfl
  split
  · exact effect_read hs ho (fun _ h => h) rfl
  · rename_i hfail
    exact effect_read hs (.inr ⟨.inl rfl, t, .ensureDirectory slot, succeeds, hallowed, hfail⟩)
      (fun _ h => by cases h) rfl

theorem ensurePage_effect {slot : Nat} (hs : t.Shared b)
    (ho : t.Own allowed b ⟨d, .ensurePage slot⟩)
    (hallowed : allowed t ⟨d, .ensurePage slot⟩ succeeds) : t.Effect allowed b ⟨d, .ensurePage slot⟩
      (t.advance ⟨d, .ensurePage slot⟩ succeeds).1
      (t.advance ⟨d, .ensurePage slot⟩ succeeds).2 := by
  obtain ⟨hr, hdirectory⟩ := ho
  have hlower := hr.taken.lower
  have hpos := @reservedSlots_pos b
  unfold advance
  dsimp only
  split
  · rename_i hpage
    exact effect_read hs ⟨hr, by omega, hr.upper, hdirectory, hpage⟩ (fun _ h => h) rfl
  split
  · exact effect_read hs ⟨hr, hdirectory⟩ (fun _ h => h) rfl
  · rename_i hfail
    exact effect_read hs (.inr ⟨.inl rfl, t, .ensurePage slot, succeeds, hallowed, hfail⟩)
      (fun _ h => by cases h) rfl

theorem effect_store {slot : Nat} {item : IdentityRecord} (hs : t.Shared b)
    (hr : t.Reserved b call.declaration slot)
    (hown : (t.storeRecord slot item).Own allowed b ⟨call.declaration, stage⟩)
    (hheld : call.stage.slot = some slot)
    (hslot : ∀ other, stage.slot = some other → call.stage.slot = some other)
    (hpending : stage.pending = call.stage.pending) :
    t.Effect allowed b call (t.storeRecord slot item) stage := by
  have hg := storeRecord_guarantee hs hr item
  have hreserved := storeRecord_reserved hs hr item
  refine ⟨hs.stable hg rfl hs.limit fun h => h, hown, ⟨some slot, hg, ?_⟩,
    fun other h => .inl (hslot other h), ⟨[], tally_of_guarantee hg ?_ (by rw [hpending]; rfl)⟩⟩
  · intro other hother
    rw [← hother]
    exact hheld
  · intro other hother index i hmember
    rw [← Option.some.inj hother]
    exact hreserved.unlinked index i hmember

variable {head : IdentityRef}

theorem scan_effect {slot : Nat} (succeeds : Bool) (hs : t.Shared b)
    (ho : t.Own allowed b ⟨d, .scan slot head current⟩) :
    t.Effect allowed b ⟨d, .scan slot head current⟩
      (t.advance ⟨d, .scan slot head current⟩ succeeds).1
      (t.advance ⟨d, .scan slot head current⟩ succeeds).2 := by
  obtain ⟨⟨next, hcandidate⟩, passed, rest, hwalk⟩ := ho
  unfold advance
  dsimp only
  rcases hwalk.step hs with ⟨hnull, hend⟩ | ⟨hne, hrecord, hmember, hahead⟩
  · rw [if_pos hnull]
    exact effect_read hs ⟨⟨next, hcandidate⟩, passed, hend⟩ (fun _ h => h) rfl
  · rw [if_neg hne, hrecord]
    dsimp only
    split
    · rename_i hfound
      exact effect_read hs ⟨hcandidate.reserved, accept_outcome hs hmember hfound⟩ (fun _ h => h) rfl
    · rename_i hother
      exact effect_read hs ⟨⟨next, hcandidate⟩, _, _, (hahead (by simpa using hother)).1⟩
        (fun _ h => h) rfl

/-! ## Linking a candidate -/

def linkCandidate (t : IdentitySpace) (index : Nat) (i : IdentityRef) : IdentitySpace :=
  { t with buckets := Function.update t.buckets index i }

variable {index : Nat} {refs : List IdentityRef}

theorem linkCandidate_chain (h : t.Chain head refs) : (t.linkCandidate index i).Chain head refs :=
  h.stable (fun _ hp => ⟨hp.lower, hp.upper, hp.directory, hp.page⟩) fun _ _ => rfl

variable {slot : Nat} {next : IdentityRef} {passed : List IdentityRef}

theorem candidate_published (hc : t.Candidate b d slot next) : t.Published (.make slot d.kind) := by
  have hslot := IdentityRef.slot_make d.kind hc.reserved.upper
  have hkind := IdentityRef.kind_make d.kind hc.reserved.upper
  refine ⟨by rw [hslot]; exact hc.present, ?_, ?_, ?_⟩
  · rw [hslot, hc.record]
    show packedFingerprint _ d.kind % 2 ^ 30 ≠ 0
    rw [packedFingerprint_mod]
    exact semanticFingerprint_pos _
  · rw [hslot, hc.record, hkind]
    exact packedFingerprint_kind _ d.kind
  · rw [hslot, hc.record]
    exact hc.reserved.sought.name

theorem candidate_key (hc : t.Candidate b d slot next) :
    t.key (.make slot d.kind) = (d.parent, d.localName) := by
  unfold key
  rw [IdentityRef.slot_make d.kind hc.reserved.upper, hc.record]
  rfl

/-- The bucket of the declaration with the candidate at its head. -/
theorem linkCandidate_bucket (hs : t.Shared b)
    (hc : t.Candidate b d slot (t.buckets (bucketIndex d.parent d.localName)))
    (hw : t.Walk d (t.buckets (bucketIndex d.parent d.localName)) .null passed []) :
    (t.linkCandidate (bucketIndex d.parent d.localName) (.make slot d.kind)).Bucket b
      (bucketIndex d.parent d.localName) (.make slot d.kind :: passed) := by
  obtain ⟨refs, hbucket⟩ := hs.buckets (bucketIndex d.parent d.localName)
  have hrefs : passed = refs := by
    have hwhole := hw.whole
    rw [List.append_nil] at hwhole
    exact hwhole.unique hbucket.chain
  have hslot := IdentityRef.slot_make d.kind hc.reserved.upper
  have hkey := candidate_key hc
  have hpublished := candidate_published hc
  rw [hrefs]
  refine ⟨⟨?_, ?_, ?_⟩, ?_, ?_⟩
  · exact Function.update_self ..
  · exact hpublished.stable ⟨hpublished.present.lower, hpublished.present.upper,
      hpublished.present.directory, hpublished.present.page⟩ rfl
  · have hnext : ((t.linkCandidate (bucketIndex d.parent d.localName)
        (.make slot d.kind)).records (IdentityRef.make slot d.kind).slot).nextBucket =
          t.buckets (bucketIndex d.parent d.localName) := by
      show (t.records (IdentityRef.make slot d.kind).slot).nextBucket = _
      rw [hslot, hc.record]
      rfl
    rw [hnext]
    exact linkCandidate_chain hbucket.chain
  · rw [List.map_cons, List.nodup_cons]
    refine ⟨?_, hbucket.distinct⟩
    intro hmem
    obtain ⟨i, hi, heq⟩ := List.mem_map.mp hmem
    have hsame : t.key i = t.key (.make slot d.kind) := heq
    rw [hkey] at hsame
    exact hw.other i (hrefs ▸ hi) hsame
  · intro i hi
    rcases List.mem_cons.mp hi with heq | hi
    · subst heq
      have hsame : (t.linkCandidate (bucketIndex d.parent d.localName) (.make slot d.kind)).key
          (.make slot d.kind) = (d.parent, d.localName) := hkey
      refine ⟨?_, ?_, ?_, ?_⟩
      · rw [hslot]
        exact ⟨hc.reserved.taken.lower, hc.reserved.taken.upper⟩
      · rw [hsame]
        show (t.records (IdentityRef.make slot d.kind).slot).fingerprint % 2 ^ 30 = _
        rw [hslot, hc.record]
        exact packedFingerprint_mod _ d.kind
      · rw [hsame]
      · rw [hsame]
        exact hc.reserved.sought.absent
    · have hl := hbucket.linked i hi
      exact ⟨⟨hl.taken.lower, hl.taken.upper⟩, hl.fingerprint, hl.bucket, hl.absent⟩

variable {other : Nat}

theorem linkCandidate_other (hne : other ≠ index) (h : t.Bucket b other refs) :
    (t.linkCandidate index i).Bucket b other refs := by
  refine ⟨?_, h.distinct, ?_⟩
  · have hhead : (t.linkCandidate index i).buckets other = t.buckets other :=
      Function.update_of_ne hne ..
    rw [hhead]
    exact linkCandidate_chain h.chain
  · intro j hj
    have hl := h.linked j hj
    exact ⟨⟨hl.taken.lower, hl.taken.upper⟩, hl.fingerprint, hl.bucket, hl.absent⟩

theorem linkCandidate_member (hs : t.Shared b)
    (hc : t.Candidate b d slot (t.buckets (bucketIndex d.parent d.localName)))
    (hw : t.Walk d (t.buckets (bucketIndex d.parent d.localName)) .null passed [])
    (index : Nat) (i : IdentityRef) :
    (t.linkCandidate (bucketIndex d.parent d.localName) (.make slot d.kind)).Member index i ↔
      t.Member index i ∨
        (index = bucketIndex d.parent d.localName ∧ i = .make slot d.kind) := by
  by_cases hindex : index = bucketIndex d.parent d.localName
  · have hbucket := linkCandidate_bucket hs hc hw
    have hwhole := hw.whole
    rw [List.append_nil] at hwhole
    rw [hindex, hbucket.chain.member, List.mem_cons, hwhole.member]
    constructor
    · rintro (heq | hmem)
      · exact .inr ⟨rfl, heq⟩
      · exact .inl hmem
    · rintro (hmem | ⟨-, heq⟩)
      · exact .inr hmem
      · exact .inl heq
  · obtain ⟨refs, hbucket⟩ := hs.buckets index
    have hafter : (t.linkCandidate (bucketIndex d.parent d.localName)
        (.make slot d.kind)).Bucket b index refs := linkCandidate_other hindex hbucket
    rw [hafter.chain.member, hbucket.chain.member]
    simp [hindex]

theorem exchange_effect (succeeds : Bool) (hs : t.Shared b)
    (ho : t.Own allowed b ⟨d, .exchange slot head⟩) :
    t.Effect allowed b ⟨d, .exchange slot head⟩ (t.advance ⟨d, .exchange slot head⟩ succeeds).1
      (t.advance ⟨d, .exchange slot head⟩ succeeds).2 := by
  obtain ⟨hc, passed, hw⟩ := ho
  unfold advance
  dsimp only
  split
  · rename_i hexchange
    rw [Bool.and_eq_true, beq_iff_eq] at hexchange
    have hhead : head = t.buckets (bucketIndex d.parent d.localName) := hexchange.2.symm
    rw [hhead] at hc hw ⊢
    have hslot := IdentityRef.slot_make d.kind hc.reserved.upper
    have hkey := candidate_key hc
    have hmember := linkCandidate_member hs hc hw
    have hbucket := linkCandidate_bucket hs hc hw
    have hg : Guarantee (some slot) t (t.linkCandidate (bucketIndex d.parent d.localName)
        (.make slot d.kind)) := by
      refine ⟨rfl, fun _ h => h, fun _ h => h, Nat.le_refl _, fun _ _ => rfl, ?_,
        fun index i h => (hmember index i).mpr (.inl h), ?_⟩
      · intro other hother index i hi
        rw [← Option.some.inj hother]
        exact hc.reserved.unlinked index i hi
      · intro index i hi
        rcases (hmember index i).mp hi with hold | ⟨-, heq⟩
        · exact .inl hold
        · exact .inr (by rw [heq, hslot])
    refine ⟨⟨hs.baseline, hs.counter, hs.limit, ?_⟩, ⟨?_, .inr ⟨?_, ?_⟩⟩, ⟨some slot, hg, ?_⟩, ?_,
      ⟨[.make slot d.kind], ?_, List.nodup_singleton _, ?_, rfl⟩⟩
    · intro index
      by_cases hindex : index = bucketIndex d.parent d.localName
      · rw [hindex]
        exact ⟨_, hbucket⟩
      · obtain ⟨refs, hold⟩ := hs.buckets index
        exact ⟨refs, linkCandidate_other hindex hold⟩
    · exact IdentityRef.kind_make d.kind hc.reserved.upper
    · exact hbucket.chain.member.mpr List.mem_cons_self
    · exact hkey
    · intro other hother
      exact hother
    · intro other hother
      cases hother
    · intro i
      rw [List.mem_singleton]
      constructor
      · intro hlisted
        obtain ⟨index, hi⟩ := hlisted
        rcases (hmember index i).mp hi with hold | ⟨-, heq⟩
        · exact .inr ⟨index, hold⟩
        · exact .inl heq
      · intro hor
        rcases hor with heq | ⟨index, hold⟩
        · exact ⟨_, (hmember _ i).mpr (.inr ⟨rfl, heq⟩)⟩
        · exact ⟨index, (hmember index i).mpr (.inl hold)⟩
    · intro i hi hlisted
      obtain ⟨index, hold⟩ := hlisted
      rw [List.mem_singleton] at hi
      exact hc.reserved.unlinked index i hold (by rw [hi, hslot])
  · obtain ⟨rest, hwalk⟩ := walk_head hs d
    exact effect_read hs ⟨⟨head, hc⟩, [], rest, hwalk⟩ (fun _ h => h) rfl

/-! ## All stages -/

theorem effect_pages {t' : IdentitySpace} (hs : t.Shared b) (hg : Guarantee none t t')
    (hbuckets : t'.buckets = t.buckets) (hcounter : t'.nextSlot = t.nextSlot)
    (hown : t'.Own allowed b ⟨call.declaration, stage⟩)
    (hslot : ∀ slot, stage.slot = some slot → call.stage.slot = some slot)
    (hcount : t'.identityCount + stage.pending = t.identityCount + call.stage.pending) :
    t.Effect allowed b call t' stage := by
  refine ⟨hs.stable hg hbuckets ?_ ?_, hown, ⟨none, hg, by simp⟩, fun slot h => .inl (hslot slot h),
    ⟨[], tally_of_guarantee hg (by simp) hcount⟩⟩
  · rw [hcounter]
    exact hs.limit
  · intro hzero
    rw [hcounter, hzero]

theorem update_present {present : Nat → Bool} (h : present other = true) :
    Function.update present index true other = true := by
  by_cases heq : other = index
  · rw [heq, Function.update_self]
  · rw [Function.update_of_ne heq]
    exact h

/-- Every step keeps the invariant of the space and what is known of its call. -/
theorem advance_effect (hs : t.Shared b) (ho : t.Own allowed b call)
    (hallowed : allowed t call succeeds) :
    t.Effect allowed b call (t.advance call succeeds).1 (t.advance call succeeds).2 := by
  obtain ⟨d, stage⟩ := call
  cases stage with
  | start => exact start_effect hs hallowed
  | findHead =>
    obtain ⟨rest, hwalk⟩ := walk_head hs d
    have hname : d.localName ≠ 0 := ho
    unfold advance
    dsimp only
    split
    · split
      · exact effect_read hs ⟨hname, rest, hwalk⟩ (fun _ h => h) rfl
      · exact effect_read hs hname (fun _ h => h) rfl
    split
    · exact effect_read hs ⟨hname, rest, hwalk⟩ (fun _ h => h) rfl
    · exact effect_read hs hname (fun _ h => h) rfl
  | findRecord current => exact findRecord_effect succeeds hs ho
  | findBaseline =>
    obtain ⟨hslot, hpending⟩ := @findBaseline_slot t d
    refine effect_read hs (findBaseline_own hs ho) ?_ hpending
    intro slot hheld
    have hnone := hslot.symm.trans hheld
    cases hnone
  | ensureBucket => exact ensureBucket_effect hs ho hallowed
  | installBucket =>
    have hg : Guarantee none t (t.advance ⟨d, .installBucket⟩ succeeds).1 :=
      guarantee_of_frame hs rfl rfl (fun _ h => h) (fun _ h => h) (Nat.le_refl _) (fun _ _ => rfl)
        (by simp)
    exact effect_pages hs hg rfl rfl ho (fun _ h => h) rfl
  | loadSlot => exact effect_read hs ho (fun _ h => h) rfl
  | takeSlot slot => exact takeSlot_effect hs ho hallowed
  | ensureDirectory slot => exact ensureDirectory_effect hs ho hallowed
  | installDirectory slot =>
    have hg : Guarantee none t (t.advance ⟨d, .installDirectory slot⟩ succeeds).1 :=
      guarantee_of_frame hs rfl rfl (fun _ h => update_present h) (fun _ h => h) (Nat.le_refl _)
        (fun _ _ => rfl) (by simp)
    exact effect_pages hs hg rfl rfl
      ⟨Reserved.stable ho hg (by simp), Function.update_self ..⟩ (fun _ h => h) rfl
  | ensurePage slot => exact ensurePage_effect hs ho hallowed
  | installPage slot =>
    obtain ⟨hr, hdirectory⟩ := ho
    have hlower := hr.taken.lower
    have hpos := @reservedSlots_pos b
    have hg : Guarantee none t (t.advance ⟨d, .installPage slot⟩ succeeds).1 :=
      guarantee_of_frame hs rfl rfl (fun _ h => h) (fun _ h => update_present h) (Nat.le_refl _)
        (fun _ _ => rfl) (by simp)
    exact effect_pages hs hg rfl rfl ⟨hr.stable hg (by simp),
      ⟨by omega, hr.upper, hdirectory, Function.update_self ..⟩⟩ (fun _ h => h) rfl
  | initialiseCandidate slot =>
    obtain ⟨hr, hpresent⟩ := ho
    refine effect_store hs hr ⟨.null, storeRecord_reserved hs hr _, ?_, storeRecord_self⟩ rfl
      (fun _ h => h) rfl
    exact ⟨hpresent.lower, hpresent.upper, hpresent.directory, hpresent.page⟩
  | loadHead slot =>
    obtain ⟨rest, hwalk⟩ := walk_head hs d
    exact effect_read hs ⟨ho, [], rest, hwalk⟩ (fun _ h => h) rfl
  | scan slot head current => exact scan_effect succeeds hs ho
  | link slot head =>
    obtain ⟨⟨next, hc⟩, passed, hw⟩ := ho
    have hr := hc.reserved
    have hg := storeRecord_guarantee hs hr { t.records slot with nextBucket := head }
    have hpresent := hc.present
    refine effect_store hs hr ⟨⟨storeRecord_reserved hs hr _, hpresent.stable hg, ?_⟩, passed,
      hw.stable hg⟩ rfl (fun _ h => h) rfl
    rw [storeRecord_self, hc.record]
    rfl
  | exchange slot head => exact exchange_effect succeeds hs ho
  | count slot =>
    have hg : Guarantee none t (t.advance ⟨d, .count slot⟩ succeeds).1 :=
      guarantee_of_frame hs rfl rfl (fun _ h => h) (fun _ h => h) (Nat.le_refl _) (fun _ _ => rfl)
        (by simp)
    exact effect_pages hs hg rfl rfl (Resolved.stable ho hg) (fun _ h => by cases h) rfl
  | discard slot result =>
    have hg := storeRecord_guarantee hs ho.1 {}
    exact effect_store hs ho.1 (ho.2.stable hg) rfl (fun _ h => by cases h) rfl
  | returned result => exact effect_read hs ho (fun _ h => h) rfl

end Steps

end IdentitySpace

end ServerEngine

import ServerEngine.Strings.Table
import ServerEngine.Library.Interleaving
import Mathlib.Data.List.Nodup

/-! # Interning

What any interleaving of interning calls keeps: a linked record stands in its bucket under a text of
its own, and its direct slot holds it. The 32-bit counter gives each call an id of its own until it
wraps.
-/
namespace ServerEngine
open Interleaving

def InternStage.id : InternStage → Option Nat
  | .ensurePage id | .installPage id | .publish id | .loadHead id | .link id _ => some id
  | _ => none

namespace StringTable

/-! ## What the writes do -/

def chain (t : StringTable) (index : Nat) : List StringRecord := (t.bucketHead index).getD []

def HasPage (t : StringTable) (id : Nat) : Prop :=
  id ≠ 0 ∧ pageIndex id < pageCount ∧ ∃ pages page, t.pages = some pages ∧
    pages (pageIndex id) = some page

section Writes
variable {t : StringTable} {index id : Nat}

theorem chain_installBucketPage (page other : Nat) :
    (t.installBucketPage page).chain other = t.chain other := by
  unfold installBucketPage
  split
  · rfl
  · rename_i hnone
    unfold chain bucketHead
    dsimp only
    split
    · rfl
    · by_cases hpage : other / bucketPageSize = page
      · rw [hpage, Function.update_self, hnone]
        rfl
      · rw [Function.update_of_ne hpage]

theorem bucketHead_installBucketPage (hsparse : t.denseBucketMode = false) :
    ((t.installBucketPage (index / bucketPageSize)).bucketHead index).isSome = true := by
  unfold installBucketPage
  split
  · rename_i page hpage
    simp [bucketHead, hsparse, hpage]
  · simp [bucketHead, hsparse]

theorem bucketHead_mono (page other : Nat) (h : (t.bucketHead other).isSome = true) :
    ((t.installBucketPage page).bucketHead other).isSome = true := by
  unfold installBucketPage
  split
  · exact h
  · rename_i hnone
    unfold bucketHead at h ⊢
    dsimp only
    split
    · rename_i hdense
      rw [if_pos hdense] at h
      exact h
    · rename_i hsparse
      rw [if_neg hsparse] at h
      by_cases hpage : other / bucketPageSize = page
      · rw [hpage, Function.update_self]
        rfl
      · rwa [Function.update_of_ne hpage]

theorem slot_installPage (page other : Nat) : (t.installPage page).slot other = t.slot other := by
  unfold installPage
  split
  · rfl
  · rename_i pages hpages
    split
    · rfl
    · rename_i hnone
      unfold slot
      rw [hpages]
      dsimp only
      split
      · rfl
      · by_cases hpage : pageIndex other = page
        · rw [hpage, Function.update_self, hnone]
        · rw [Function.update_of_ne hpage]

theorem hasPage_installPage {pages : Nat → Option (Nat → Option StringRecord)}
    (hpages : t.pages = some pages) (hne : id ≠ 0) (hlt : pageIndex id < pageCount) :
    (t.installPage (pageIndex id)).HasPage id := by
  refine ⟨hne, hlt, ?_⟩
  unfold installPage
  rw [hpages]
  dsimp only
  split
  · rename_i page hpage
    exact ⟨pages, page, hpages, hpage⟩
  · exact ⟨_, _, rfl, Function.update_self ..⟩

theorem HasPage.installPage {other : Nat} (h : t.HasPage other) (page : Nat) :
    (t.installPage page).HasPage other := by
  obtain ⟨hne, hlt, pages, old, hpages, hold⟩ := h
  refine ⟨hne, hlt, ?_⟩
  unfold StringTable.installPage
  rw [hpages]
  dsimp only
  split
  · exact ⟨pages, old, hpages, hold⟩
  · rename_i hnone
    refine ⟨_, old, rfl, ?_⟩
    rw [Function.update_of_ne, hold]
    intro hpage
    rw [hpage, hnone] at hold
    cases hold

theorem slot_storeSlot (h : t.HasPage id) (value : Option StringRecord) {other : Nat}
    (hother : other ≠ 0) :
    (t.storeSlot id value).slot other = if other = id then value else t.slot other := by
  obtain ⟨hne, hlt, pages, page, hpages, hpage⟩ := h
  unfold storeSlot slot
  rw [hpages]
  dsimp only
  rw [hpage]
  dsimp only
  by_cases heq : other = id
  · subst heq
    rw [if_neg (by simp; omega), Function.update_self, if_pos rfl]
    dsimp only
    rw [Function.update_self]
  · rw [if_neg heq]
    split
    · rfl
    · by_cases hsame : pageIndex other = pageIndex id
      · have hplace : (other - 1) % pageSize ≠ (id - 1) % pageSize := by
          intro hplace
          unfold pageIndex at hsame
          have hdiv := Nat.div_add_mod (other - 1) pageSize
          rw [hsame, hplace, Nat.div_add_mod] at hdiv
          omega
        rw [hsame, Function.update_self, hpage]
        dsimp only
        rw [Function.update_of_ne hplace]
      · rw [Function.update_of_ne hsame]

theorem HasPage.storeSlot {other : Nat} (h : t.HasPage other) (value : Option StringRecord) :
    (t.storeSlot id value).HasPage other := by
  obtain ⟨hne, hlt, pages, page, hpages, hpage⟩ := h
  refine ⟨hne, hlt, ?_⟩
  unfold StringTable.storeSlot
  rw [hpages]
  dsimp only
  cases hown : pages (pageIndex id) with
  | none => exact ⟨pages, page, hpages, hpage⟩
  | some own =>
    by_cases hsame : pageIndex other = pageIndex id
    · exact ⟨_, _, rfl, by rw [hsame, Function.update_self]⟩
    · exact ⟨_, page, rfl, by rw [Function.update_of_ne hsame, hpage]⟩

theorem bucketHead_storeSlot (value : Option StringRecord) (other : Nat) :
    (t.storeSlot id value).bucketHead other = t.bucketHead other := by
  unfold storeSlot
  split
  · rfl
  · split <;> rfl

theorem bucketHead_installPage (page other : Nat) :
    (t.installPage page).bucketHead other = t.bucketHead other := by
  unfold installPage
  split
  · rfl
  · split <;> rfl

theorem bucketHead_storeHead (h : (t.bucketHead index).isSome = true) (records : List StringRecord)
    (other : Nat) : (t.storeHead index records).bucketHead other =
      if other = index then some records else t.bucketHead other := by
  unfold bucketHead at h
  unfold storeHead
  split
  · rename_i hdense
    rw [if_pos hdense] at h
    obtain ⟨_, hmap⟩ := Option.isSome_iff_exists.mp h
    obtain ⟨buckets, hbuckets, -⟩ := Option.map_eq_some_iff.mp hmap
    rw [hbuckets]
    unfold bucketHead
    rw [if_pos hdense, if_pos hdense, hbuckets, Option.map_some, Option.map_some]
    by_cases heq : other = index
    · rw [if_pos heq, heq, Function.update_self]
    · rw [if_neg heq, Function.update_of_ne heq]
  · rename_i hsparse
    rw [if_neg hsparse] at h
    obtain ⟨_, hmap⟩ := Option.isSome_iff_exists.mp h
    obtain ⟨page, hpage, -⟩ := Option.map_eq_some_iff.mp hmap
    rw [hpage]
    dsimp only
    unfold bucketHead
    rw [if_neg hsparse, if_neg hsparse]
    dsimp only
    by_cases heq : other = index
    · rw [if_pos heq, heq, Function.update_self, Option.map_some, Function.update_self]
    · rw [if_neg heq]
      by_cases hsame : other / bucketPageSize = index / bucketPageSize
      · have hplace : other % bucketPageSize ≠ index % bucketPageSize := by
          intro hplace
          have hdiv := Nat.div_add_mod other bucketPageSize
          rw [hsame, hplace, Nat.div_add_mod] at hdiv
          exact heq hdiv.symm
        rw [hsame, Function.update_self, hpage, Option.map_some, Option.map_some,
          Function.update_of_ne hplace]
      · rw [Function.update_of_ne hsame]

theorem slot_storeHead (records : List StringRecord) (other : Nat) :
    (t.storeHead index records).slot other = t.slot other := by
  unfold storeHead
  split
  · split <;> rfl
  · split <;> rfl

end Writes

/-! ## The invariant -/

def baselineSlots (b : Option StringBaseline) : Nat := b.elim 0 (·.slotCount)

def baselineFind (b : Option StringBaseline) (value : Bytes) : Option Nat :=
  b.bind fun baseline => baseline.findString value

section Invariant
variable (b : Option StringBaseline) (t : StringTable)

def Taken (id : Nat) : Prop := baselineSlots b < id ∧ (t.nextId = 0 ∨ id < t.nextId)

/-- A linked record stands where its text belongs, and its direct slot holds it. -/
structure Linked (index : Nat) (r : StringRecord) : Prop where
  hash : r.hash = hashText r.text
  bucket : bucketIndex r.text = index
  taken : t.Taken b r.id
  direct : t.slot r.id = some r
  nonempty : r.text ≠ []
  absent : baselineFind b r.text = none

structure Shared : Prop where
  baseline : t.baseline = b
  bound : t.nextId < 2 ^ 32
  counter : t.nextId = 0 ∨ baselineSlots b < t.nextId
  linked : ∀ index, ∀ r ∈ t.chain index, t.Linked b index r
  distinct : ∀ index, ((t.chain index).map (·.text)).Nodup

structure Sought (value : Bytes) : Prop where
  nonempty : value ≠ []
  absent : baselineFind b value = none
  bucket : (t.bucketHead (bucketIndex value)).isSome = true

structure Reserved (value : Bytes) (id : Nat) : Prop where
  sought : t.Sought b value
  taken : t.Taken b id
  unlinked : ∀ index, ∀ r ∈ t.chain index, r.id ≠ id

def Interned (value : Bytes) (id : Nat) : Prop :=
  (value ≠ [] ∧ baselineFind b value = some id) ∨
    ∃ r ∈ t.chain (bucketIndex value), r.text = value ∧ r.id = id

def Own (call : InternCall) : Prop :=
  match call.stage with
  | .find => True
  | .ensureBucket => call.value ≠ [] ∧ baselineFind b call.value = none
  | .installBucket => call.value ≠ [] ∧ baselineFind b call.value = none ∧ t.denseBucketMode = false
  | .allocate | .takeId => t.Sought b call.value
  | .ensurePage id => t.Reserved b call.value id
  | .installPage id => t.Reserved b call.value id ∧ pageIndex id < pageCount ∧ t.pages.isSome = true
  | .publish id => t.Reserved b call.value id ∧ t.HasPage id
  | .loadHead id => t.Reserved b call.value id ∧ t.HasPage id ∧
      t.slot id = some ⟨hashText call.value, id, call.value⟩
  | .link id head => t.Reserved b call.value id ∧ t.HasPage id ∧
      t.slot id = some ⟨hashText call.value, id, call.value⟩ ∧
      ∀ r ∈ head, r ∈ t.chain (bucketIndex call.value)
  | .returned (.ok id) => t.Interned b call.value id
  | .returned (.error _) => True

end Invariant

def Apart (a c : InternCall) : Prop := ∀ id, a.stage.id = some id → c.stage.id ≠ some id

/-- What a step may do to the table: it writes the slot of its own id and links under it. -/
structure Guarantee (touched : Option Nat) (t t' : StringTable) : Prop where
  baseline : t'.baseline = t.baseline
  mode : t'.denseBucketMode = t.denseBucketMode
  buckets : ∀ index, (t.bucketHead index).isSome = true → (t'.bucketHead index).isSome = true
  pages : t.pages.isSome = true → t'.pages.isSome = true
  hasPage : ∀ id, t.HasPage id → t'.HasPage id
  bound : t.nextId < 2 ^ 32 → t'.nextId < 2 ^ 32
  counter : t'.nextId = 0 ∨ (t.nextId ≠ 0 ∧ t.nextId ≤ t'.nextId)
  slots : ∀ id ≠ 0, touched ≠ some id → t'.slot id = t.slot id
  kept : ∀ index, ∀ r ∈ t.chain index, r ∈ t'.chain index
  added : ∀ index, ∀ r ∈ t'.chain index, r ∈ t.chain index ∨ touched = some r.id

section Rely
variable {b : Option StringBaseline} {t t' : StringTable} {touched : Option Nat}

theorem Taken.mono {id : Nat} (h : t.Taken b id) (hg : Guarantee touched t t') : t'.Taken b id := by
  obtain ⟨hslots, hcounter⟩ := h
  refine ⟨hslots, ?_⟩
  rcases hg.counter with hzero | ⟨hne, hle⟩
  · exact .inl hzero
  · right
    omega

theorem Taken.ne_zero {id : Nat} (h : t.Taken b id) : id ≠ 0 := by
  have := h.1
  omega

theorem Sought.stable {value : Bytes} (h : t.Sought b value) (hg : Guarantee touched t t') :
    t'.Sought b value := ⟨h.nonempty, h.absent, hg.buckets _ h.bucket⟩

theorem Reserved.stable {value : Bytes} {id : Nat} (h : t.Reserved b value id)
    (hg : Guarantee touched t t') (happart : touched ≠ some id) : t'.Reserved b value id := by
  refine ⟨h.sought.stable hg, h.taken.mono hg, ?_⟩
  intro index r hr
  rcases hg.added index r hr with hold | hnew
  · exact h.unlinked index r hold
  · intro heq
    exact happart (by rw [hnew, heq])

theorem Own.stable {call : InternCall} (h : t.Own b call) (hg : Guarantee touched t t')
    (hapart : ∀ id, call.stage.id = some id → touched ≠ some id) : t'.Own b call := by
  obtain ⟨value, stage⟩ := call
  cases stage with
  | find => trivial
  | ensureBucket => exact h
  | installBucket => exact ⟨h.1, h.2.1, hg.mode.trans h.2.2⟩
  | allocate => exact Sought.stable h hg
  | takeId => exact Sought.stable h hg
  | ensurePage id => exact Reserved.stable h hg (hapart id rfl)
  | installPage id => exact ⟨h.1.stable hg (hapart id rfl), h.2.1, hg.pages h.2.2⟩
  | publish id => exact ⟨h.1.stable hg (hapart id rfl), hg.hasPage id h.2⟩
  | loadHead id =>
    refine ⟨h.1.stable hg (hapart id rfl), hg.hasPage id h.2.1, ?_⟩
    rw [hg.slots id h.1.taken.ne_zero (hapart id rfl)]
    exact h.2.2
  | link id head =>
    refine ⟨h.1.stable hg (hapart id rfl), hg.hasPage id h.2.1, ?_, ?_⟩
    · rw [hg.slots id h.1.taken.ne_zero (hapart id rfl)]
      exact h.2.2.1
    · exact fun r hr => hg.kept _ r (h.2.2.2 r hr)
  | returned result =>
    cases result with
    | error code => trivial
    | ok id =>
      rcases h with h | ⟨r, hr, htext, hid⟩
      · exact .inl h
      · exact .inr ⟨r, hg.kept _ r hr, htext, hid⟩

theorem Shared.stable (h : t.Shared b) (hg : Guarantee touched t t')
    (hchain : ∀ index, t'.chain index = t.chain index)
    (htouched : ∀ id, touched = some id → ∀ index, ∀ r ∈ t.chain index, r.id ≠ id) :
    t'.Shared b := by
  refine ⟨hg.baseline.trans h.baseline, hg.bound h.bound, ?_, ?_, ?_⟩
  · rcases hg.counter with hzero | ⟨hne, hle⟩
    · exact .inl hzero
    · have := h.counter.resolve_left hne
      exact .inr (by omega)
  · intro index r hr
    rw [hchain] at hr
    have hl := h.linked index r hr
    refine ⟨hl.hash, hl.bucket, hl.taken.mono hg, ?_, hl.nonempty, hl.absent⟩
    rw [hg.slots r.id hl.taken.ne_zero fun heq => htouched r.id heq index r hr rfl]
    exact hl.direct
  · intro index
    rw [hchain]
    exact h.distinct index

theorem isText_iff {value : Bytes} {r : StringRecord} (h : r.hash = hashText r.text) :
    isText value r = true ↔ r.text = value := by
  unfold isText
  rw [Bool.and_eq_true, beq_iff_eq, beq_iff_eq]
  constructor
  · exact fun hboth => hboth.2
  · intro htext
    rw [h, htext]
    exact ⟨rfl, rfl⟩

theorem find_interned (h : t.Shared b) {value : Bytes} (hne : t.find value ≠ 0) :
    t.Interned b value (t.find value) := by
  unfold find at hne ⊢
  by_cases hempty : value = []
  · rw [if_pos hempty] at hne
    exact absurd rfl hne
  rw [if_neg hempty] at hne ⊢
  cases hfound : t.findRecord value with
  | some r =>
    unfold findRecord at hfound
    cases hhead : t.bucketHead (bucketIndex value) with
    | none =>
      rw [hhead] at hfound
      cases hfound
    | some records =>
      rw [hhead] at hfound
      have hmem : r ∈ t.chain (bucketIndex value) := by
        rw [chain, hhead]
        exact List.mem_of_find?_eq_some hfound
      have htext := (isText_iff (h.linked _ r hmem).hash).mp (List.find?_some hfound)
      exact .inr ⟨r, hmem, htext, rfl⟩
  | none =>
    rw [hfound] at hne
    rw [h.baseline] at hne ⊢
    cases hbase : b.bind fun baseline => baseline.findString value with
    | none =>
      rw [hbase] at hne
      exact absurd rfl hne
    | some id =>
      exact .inl ⟨hempty, hbase⟩

theorem find_zero (h : t.Shared b) {value : Bytes} (hempty : value ≠ []) (hzero : t.find value = 0) :
    baselineFind b value = none := by
  unfold find at hzero
  rw [if_neg hempty] at hzero
  cases hfound : t.findRecord value with
  | some r =>
    rw [hfound] at hzero
    unfold findRecord at hfound
    cases hhead : t.bucketHead (bucketIndex value) with
    | none =>
      rw [hhead] at hfound
      cases hfound
    | some records =>
      rw [hhead] at hfound
      have hmem : r ∈ t.chain (bucketIndex value) := by
        rw [chain, hhead]
        exact List.mem_of_find?_eq_some hfound
      exact absurd hzero (h.linked _ r hmem).taken.ne_zero
  | none =>
    rw [hfound] at hzero
    rw [h.baseline] at hzero
    cases b with
    | none => rfl
    | some baseline =>
      cases hbase : baseline.findString value with
      | none => exact hbase
      | some id =>
        have hne := ((baseline.exact value id hempty).mp hbase).1
        rw [Option.bind_some, hbase] at hzero
        exact absurd hzero hne

end Rely

/-! ## One step -/

structure Effect (b : Option StringBaseline) (t : StringTable) (call : InternCall) (t' : StringTable)
    (stage : InternStage) : Prop where
  shared : t'.Shared b
  own : t'.Own b ⟨call.value, stage⟩
  guarantee : ∃ touched, Guarantee touched t t' ∧ ∀ id, touched = some id → call.stage.id = some id
  holds : ∀ id, stage.id = some id → call.stage.id = some id ∨ (id = t.nextId ∧ t.nextId ≠ 0)

section Steps
variable {b : Option StringBaseline} {t : StringTable} {value : Bytes}

theorem Guarantee.same : Guarantee none t t := by
  refine ⟨rfl, rfl, fun _ h => h, fun h => h, fun _ h => h, fun h => h, ?_, fun _ _ _ => rfl,
    fun _ _ h => h, fun _ _ h => .inl h⟩
  by_cases hzero : t.nextId = 0
  · exact .inl hzero
  · exact .inr ⟨hzero, Nat.le_refl _⟩

theorem effect_read {call : InternCall} {stage : InternStage} (hs : t.Shared b)
    (hown : t.Own b ⟨call.value, stage⟩) (hid : ∀ id, stage.id = some id → call.stage.id = some id) :
    t.Effect b call t stage :=
  ⟨hs, hown, ⟨none, .same, by simp⟩, fun id h => .inl (hid id h)⟩

theorem installBucketPage_rest (page : Nat) : ∃ bucketPages,
    t.installBucketPage page = { t with bucketPages } := by
  unfold installBucketPage
  split
  · exact ⟨t.bucketPages, rfl⟩
  · exact ⟨_, rfl⟩

theorem installBucketPage_guarantee (page : Nat) : Guarantee none t (t.installBucketPage page) := by
  obtain ⟨bucketPages, heq⟩ := @installBucketPage_rest t page
  have hbuckets := @bucketHead_mono t page
  have hchain := @chain_installBucketPage t page
  rw [heq] at hbuckets hchain ⊢
  refine ⟨rfl, rfl, hbuckets, fun h => h, fun _ h => h, fun h => h, ?_, fun _ _ _ => rfl, ?_, ?_⟩
  · by_cases hzero : t.nextId = 0
    · exact .inl hzero
    · exact .inr ⟨hzero, Nat.le_refl _⟩
  · intro index r hr
    rw [hchain]
    exact hr
  · intro index r hr
    rw [hchain] at hr
    exact .inl hr

theorem takeId_guarantee (hbound : t.nextId < 2 ^ 32) (hne : t.nextId ≠ 0) :
    Guarantee none t { t with nextId := (t.nextId + 1) % 2 ^ 32 } := by
  refine ⟨rfl, rfl, fun _ h => h, fun h => h, fun _ h => h, fun _ => Nat.mod_lt _ (by omega), ?_,
    fun _ _ _ => rfl, fun _ _ h => h, fun _ _ h => .inl h⟩
  dsimp only
  omega

theorem pages_guarantee {pages : Option (Nat → Option (Nat → Option StringRecord))}
    {touched : Option Nat} (hsome : t.pages.isSome = true → pages.isSome = true)
    (hpage : ∀ id, t.HasPage id → ({ t with pages } : StringTable).HasPage id)
    (hslots : ∀ id ≠ 0, touched ≠ some id → ({ t with pages } : StringTable).slot id = t.slot id) :
    Guarantee touched t { t with pages } := by
  refine ⟨rfl, rfl, fun _ h => h, hsome, hpage, fun h => h, ?_, hslots, fun _ _ h => h,
    fun _ _ h => .inl h⟩
  by_cases hzero : t.nextId = 0
  · exact .inl hzero
  · exact .inr ⟨hzero, Nat.le_refl _⟩

theorem installPage_rest (page : Nat) : ∃ pages, t.installPage page = { t with pages } ∧
    (t.pages.isSome = true → pages.isSome = true) := by
  unfold installPage
  split
  · exact ⟨t.pages, rfl, fun h => h⟩
  · split
    · exact ⟨t.pages, rfl, fun h => h⟩
    · exact ⟨_, rfl, fun _ => rfl⟩

theorem installPage_guarantee (page : Nat) : Guarantee none t (t.installPage page) := by
  obtain ⟨pages, heq, hsome⟩ := @installPage_rest t page
  have hslots := @slot_installPage t page
  have hpage : ∀ id, t.HasPage id → (t.installPage page).HasPage id := fun _ h => h.installPage page
  rw [heq] at hslots hpage ⊢
  exact pages_guarantee hsome hpage fun id _ _ => hslots id

theorem storeSlot_rest (id : Nat) (record : Option StringRecord) : ∃ pages,
    t.storeSlot id record = { t with pages } ∧ (t.pages.isSome = true → pages.isSome = true) := by
  unfold storeSlot
  split
  · exact ⟨t.pages, rfl, fun h => h⟩
  · split
    · exact ⟨t.pages, rfl, fun h => h⟩
    · exact ⟨_, rfl, fun _ => rfl⟩

theorem storeSlot_guarantee {id : Nat} (h : t.HasPage id) (record : Option StringRecord) :
    Guarantee (some id) t (t.storeSlot id record) := by
  obtain ⟨pages, heq, hsome⟩ := @storeSlot_rest t id record
  have hslots : ∀ other ≠ 0, some id ≠ some other →
      (t.storeSlot id record).slot other = t.slot other := by
    intro other hother hne
    rw [slot_storeSlot h record hother, if_neg fun hsame => hne (by rw [hsame])]
  have hpage : ∀ other, t.HasPage other → (t.storeSlot id record).HasPage other :=
    fun _ h => h.storeSlot record
  rw [heq] at hslots hpage ⊢
  exact pages_guarantee hsome hpage hslots

theorem storeHead_rest (index : Nat) (records : List StringRecord) : ∃ denseBuckets bucketPages,
    t.storeHead index records = { t with denseBuckets, bucketPages } := by
  unfold storeHead
  split
  · split
    · exact ⟨t.denseBuckets, t.bucketPages, rfl⟩
    · exact ⟨_, t.bucketPages, rfl⟩
  · split
    · exact ⟨t.denseBuckets, t.bucketPages, rfl⟩
    · exact ⟨t.denseBuckets, _, rfl⟩

theorem chain_storeHead {index : Nat} (h : (t.bucketHead index).isSome = true)
    (records : List StringRecord) (other : Nat) : (t.storeHead index records).chain other =
      if other = index then records else t.chain other := by
  unfold chain
  rw [bucketHead_storeHead h]
  split <;> rfl

theorem storeHead_guarantee {index : Nat} (h : (t.bucketHead index).isSome = true)
    (record : StringRecord) :
    Guarantee (some record.id) t (t.storeHead index (record :: t.chain index)) := by
  obtain ⟨denseBuckets, bucketPages, heq⟩ := @storeHead_rest t index (record :: t.chain index)
  have hchain := chain_storeHead h (record :: t.chain index)
  have hheads := bucketHead_storeHead h (record :: t.chain index)
  have hslots := @slot_storeHead t index (record :: t.chain index)
  rw [heq] at hchain hheads hslots ⊢
  refine ⟨rfl, rfl, ?_, fun h => h, fun _ h => h, fun h => h, ?_, fun id _ _ => hslots id, ?_, ?_⟩
  · intro other hother
    rw [hheads]
    split
    · rfl
    · exact hother
  · by_cases hzero : t.nextId = 0
    · exact .inl hzero
    · exact .inr ⟨hzero, Nat.le_refl _⟩
  · intro other r hr
    rw [hchain]
    split
    · rename_i hsame
      rw [hsame] at hr
      exact List.mem_cons_of_mem _ hr
    · exact hr
  · intro other r hr
    rw [hchain] at hr
    split at hr
    · rename_i hsame
      rcases List.mem_cons.mp hr with rfl | hr
      · exact .inr rfl
      · rw [hsame]
        exact .inl hr
    · exact .inl hr

theorem storeHead_shared (hs : t.Shared b) {id : Nat} (hr : t.Reserved b value id)
    (hdirect : t.slot id = some ⟨hashText value, id, value⟩)
    (hnew : ∀ r ∈ t.chain (bucketIndex value), r.text ≠ value) :
    (t.storeHead (bucketIndex value)
      (⟨hashText value, id, value⟩ :: t.chain (bucketIndex value))).Shared b := by
  have hg := storeHead_guarantee hr.sought.bucket ⟨hashText value, id, value⟩
  have hchain := chain_storeHead hr.sought.bucket
    (⟨hashText value, id, value⟩ :: t.chain (bucketIndex value))
  have hslots := @slot_storeHead t (bucketIndex value)
    (⟨hashText value, id, value⟩ :: t.chain (bucketIndex value))
  refine ⟨hg.baseline.trans hs.baseline, hg.bound hs.bound, ?_, ?_, ?_⟩
  · rcases hg.counter with hzero | ⟨hne, hle⟩
    · exact .inl hzero
    · have := hs.counter.resolve_left hne
      exact .inr (by omega)
  · intro index r hmem
    have hold : ∀ r ∈ t.chain index, Linked b (t.storeHead (bucketIndex value)
        (⟨hashText value, id, value⟩ :: t.chain (bucketIndex value))) index r := by
      intro r hmem
      have hl := hs.linked index r hmem
      exact ⟨hl.hash, hl.bucket, hl.taken.mono hg, by rw [hslots]; exact hl.direct, hl.nonempty,
        hl.absent⟩
    rw [hchain] at hmem
    split at hmem
    · rename_i hsame
      rcases List.mem_cons.mp hmem with rfl | hmem
      · exact ⟨rfl, hsame.symm, hr.taken.mono hg, by rw [hslots]; exact hdirect,
          hr.sought.nonempty, hr.sought.absent⟩
      · exact hold r (by rw [hsame]; exact hmem)
    · exact hold r hmem
  · intro index
    rw [hchain]
    split
    · rw [List.map_cons, List.nodup_cons]
      refine ⟨?_, hs.distinct _⟩
      intro hmem
      obtain ⟨r, hin, htext⟩ := List.mem_map.mp hmem
      exact hnew r hin htext
    · exact hs.distinct index

theorem startIntern_own (hs : t.Shared b) : t.Own b ⟨value, t.startIntern value⟩ := by
  unfold startIntern
  split
  · trivial
  rename_i hempty
  split
  · trivial
  split
  · trivial
  split
  · trivial
  split
  · rename_i hfound
    exact find_interned hs hfound
  · rename_i hzero
    exact ⟨hempty, find_zero hs hempty (by simpa using hzero)⟩

theorem startIntern_id : (t.startIntern value).id = none := by
  unfold startIntern
  split
  · rfl
  split
  · rfl
  split
  · rfl
  split
  · rfl
  split <;> rfl

theorem takeId_effect (hs : t.Shared b) (ho : t.Sought b value) (hne : t.nextId ≠ 0) :
    t.Effect b ⟨value, .takeId⟩ { t with nextId := (t.nextId + 1) % 2 ^ 32 }
      (if t.nextId = 0 || t.nextId > maximumId then .returned (.error .notAvailable)
        else .ensurePage t.nextId) := by
  have hg := takeId_guarantee hs.bound hne
  have hshared := hs.stable hg (fun _ => rfl) (by simp)
  split
  · exact ⟨hshared, trivial, ⟨none, hg, by simp⟩, by simp [InternStage.id]⟩
  · refine ⟨hshared, ⟨ho.stable hg, ⟨hs.counter.resolve_left hne, ?_⟩, ?_⟩, ⟨none, hg, by simp⟩, ?_⟩
    · dsimp only
      have := hs.bound
      omega
    · intro index r hr heq
      have := (hs.linked index r hr).taken.2.resolve_left hne
      omega
    · intro id hid
      exact .inr ⟨(Option.some.inj hid).symm, hne⟩

theorem ensurePage_effect (hs : t.Shared b) {id : Nat} (ho : t.Reserved b value id)
    (succeeds : Bool) : t.Effect b ⟨value, .ensurePage id⟩
      (t.advance ⟨value, .ensurePage id⟩ succeeds).1
      (t.advance ⟨value, .ensurePage id⟩ succeeds).2 := by
  unfold advance
  cases hpages : t.pages with
  | none => exact effect_read hs trivial (by simp [InternStage.id])
  | some pages =>
    dsimp only
    split
    · exact effect_read hs trivial (by simp [InternStage.id])
    rename_i hrange
    have hlt : pageIndex id < pageCount := by simp at hrange; omega
    split
    · rename_i hpage
      obtain ⟨page, hpage⟩ := Option.isSome_iff_exists.mp hpage
      exact effect_read hs ⟨ho, ho.taken.ne_zero, hlt, pages, page, hpages, hpage⟩ fun _ h => h
    split
    · exact effect_read hs ⟨ho, hlt, by rw [hpages]; rfl⟩ fun _ h => h
    · exact effect_read hs trivial (by simp [InternStage.id])

theorem link_effect (hs : t.Shared b) {id : Nat} {head : List StringRecord}
    (ho : t.Own b ⟨value, .link id head⟩) (succeeds : Bool) : t.Effect b ⟨value, .link id head⟩
      (t.advance ⟨value, .link id head⟩ succeeds).1
      (t.advance ⟨value, .link id head⟩ succeeds).2 := by
  obtain ⟨hr, hpage, hdirect, hhead⟩ := ho
  unfold advance
  dsimp only at hhead ⊢
  cases hfound : head.find? (isText value) with
  | some item =>
    -- another call has linked the text: the slot is given up
    have hmem := hhead item (List.mem_of_find?_eq_some hfound)
    have hl := hs.linked _ item hmem
    have htext := (isText_iff hl.hash).mp (List.find?_some hfound)
    have hg := storeSlot_guarantee hpage none
    have hchain : ∀ index, (t.storeSlot id none).chain index = t.chain index := by
      intro index
      rw [chain, bucketHead_storeSlot, ← chain]
    refine ⟨hs.stable hg hchain ?_, .inr ⟨item, ?_, htext, rfl⟩, ⟨some id, hg, ?_⟩, by
      simp [InternStage.id]⟩
    · intro other hother index r hin
      rw [← Option.some.inj hother]
      exact hr.unlinked index r hin
    · rw [hchain]
      exact hmem
    · exact fun other hother => hother
  | none =>
    dsimp only
    split
    · rename_i hcas
      rw [Bool.and_eq_true, beq_iff_eq] at hcas
      have hsame : head = t.chain (bucketIndex value) := hcas.2.symm
      have hnew : ∀ r ∈ t.chain (bucketIndex value), r.text ≠ value := by
        intro r hin htext
        rw [← hsame] at hin
        have hmiss := List.find?_eq_none.mp hfound r hin
        exact hmiss ((isText_iff (hs.linked _ r (hsame ▸ hin)).hash).mpr htext)
      have hg := storeHead_guarantee hr.sought.bucket ⟨hashText value, id, value⟩
      rw [hsame]
      refine ⟨storeHead_shared hs hr hdirect hnew, .inr ⟨⟨hashText value, id, value⟩, ?_, rfl, rfl⟩,
        ⟨some id, hg, fun _ h => h⟩, by simp [InternStage.id]⟩
      rw [chain_storeHead hr.sought.bucket, if_pos rfl]
      exact List.mem_cons_self
    · exact effect_read hs ⟨hr, hpage, hdirect, fun r hin => hin⟩ fun _ h => h

/-- Every step keeps the table's invariant and what is known of its call. -/
theorem advance_effect {call : InternCall} (hs : t.Shared b) (ho : t.Own b call)
    (hopen : call.stage = .takeId → t.nextId ≠ 0) (succeeds : Bool) :
    t.Effect b call (t.advance call succeeds).1 (t.advance call succeeds).2 := by
  obtain ⟨value, stage⟩ := call
  cases stage with
  | find =>
    refine effect_read hs (startIntern_own hs) fun id hid => ?_
    have hnone : (t.startIntern value).id = some id := hid
    rw [startIntern_id] at hnone
    cases hnone
  | ensureBucket =>
    obtain ⟨hempty, habsent⟩ := ho
    unfold advance
    dsimp only
    split
    · rename_i hdense
      split
      · rename_i hbuckets
        refine effect_read hs ⟨hempty, habsent, ?_⟩ fun _ h => h
        rw [bucketHead, if_pos hdense, Option.isSome_map]
        exact hbuckets
      · exact effect_read hs trivial fun _ h => h
    · rename_i hsparse
      split
      · rename_i hpage
        refine effect_read hs ⟨hempty, habsent, ?_⟩ fun _ h => h
        rw [bucketHead, if_neg hsparse, Option.isSome_map]
        exact hpage
      split
      · exact effect_read hs ⟨hempty, habsent, by simpa using hsparse⟩ fun _ h => h
      · exact effect_read hs trivial fun _ h => h
  | installBucket =>
    obtain ⟨hempty, habsent, hsparse⟩ := ho
    have hg := @installBucketPage_guarantee t (bucketIndex value / bucketPageSize)
    exact ⟨hs.stable hg (chain_installBucketPage _) (by simp),
      ⟨hempty, habsent, bucketHead_installBucketPage hsparse⟩, ⟨none, hg, by simp⟩, by
        simp [advance, InternStage.id]⟩
  | allocate =>
    unfold advance
    dsimp only
    split
    · exact effect_read hs ho fun _ h => h
    · exact effect_read hs trivial fun _ h => h
  | takeId => exact takeId_effect hs ho (hopen rfl)
  | ensurePage id => exact ensurePage_effect hs ho succeeds
  | installPage id =>
    obtain ⟨hr, hlt, hpages⟩ := ho
    obtain ⟨pages, hpages⟩ := Option.isSome_iff_exists.mp hpages
    have hg := @installPage_guarantee t (pageIndex id)
    refine ⟨hs.stable hg (fun index => ?_) (by simp),
      ⟨hr.stable hg (by simp), hasPage_installPage hpages hr.taken.ne_zero hlt⟩,
      ⟨none, hg, by simp⟩, fun _ h => .inl h⟩
    show (t.installPage (pageIndex id)).chain index = _
    rw [chain, bucketHead_installPage, ← chain]
  | publish id =>
    obtain ⟨hr, hpage⟩ := ho
    have hg := storeSlot_guarantee hpage (some ⟨hashText value, id, value⟩)
    have hchain : ∀ index, (t.storeSlot id (some ⟨hashText value, id, value⟩)).chain index =
        t.chain index := by
      intro index
      rw [chain, bucketHead_storeSlot, ← chain]
    refine ⟨hs.stable hg hchain ?_, ⟨⟨hr.sought.stable hg, hr.taken.mono hg, ?_⟩,
      hpage.storeSlot _, ?_⟩, ⟨some id, hg, fun _ h => h⟩, fun _ h => .inl h⟩
    · intro other hother index r hin
      rw [← Option.some.inj hother]
      exact hr.unlinked index r hin
    · intro index r hin
      have hold := hchain index ▸ hin
      exact hr.unlinked index r hold
    · exact (slot_storeSlot hpage _ hr.taken.ne_zero).trans (if_pos rfl)
  | loadHead id =>
    exact effect_read hs ⟨ho.1, ho.2.1, ho.2.2, fun r hin => hin⟩ fun _ h => h
  | link id head => exact link_effect hs ho succeeds
  | returned result => exact effect_read hs ho fun _ h => h

theorem Own.taken {call : InternCall} (h : t.Own b call) {id : Nat} (hid : call.stage.id = some id) :
    t.Taken b id := by
  obtain ⟨value, stage⟩ := call
  cases stage with
  | ensurePage other =>
    cases hid
    exact Reserved.taken h
  | installPage other | publish other | loadHead other | link other _ =>
    cases hid
    exact Reserved.taken h.1
  | _ => cases hid

end Steps

/-! ## Runs -/

/-- The step relation of a call; the condition says when the step may be taken. -/
def Advances (allowed : StringTable → InternCall → Prop) (t : StringTable) (call : InternCall)
    (t' : StringTable) (call' : InternCall) : Prop :=
  allowed t call ∧ ∃ succeeds, t' = (t.advance call succeeds).1 ∧
    call' = ⟨call.value, (t.advance call succeeds).2⟩

/-- What an interleaving of calls, begun at any time, leads to. -/
def Reachable (allowed : StringTable → InternCall → Prop) (start : StringTable)
    (config : Config StringTable InternCall) : Prop :=
  Interleaving.Reachable (fun call => call.stage = .find) (Advances allowed) start config

/-- Successful calls agree on ids exactly where they agree on texts, and every id gives its text. -/
def Consistent (config : Config StringTable InternCall) : Prop :=
  ∀ (i j : Nat) (value value' : Bytes) (id id' : Nat),
    config.calls[i]? = some ⟨value, .returned (.ok id)⟩ →
    config.calls[j]? = some ⟨value', .returned (.ok id')⟩ →
    (id = id' ↔ value = value') ∧ config.memory.get id = value

def CounterOpen (t : StringTable) (call : InternCall) : Prop := call.stage = .takeId → t.nextId ≠ 0

theorem interning_preserves (b : Option StringBaseline) :
    Preserves (fun call : InternCall => call.stage = .find) (Advances CounterOpen)
      (fun t => t.Shared b) (fun t call => t.Own b call) Apart := by
  refine ⟨?_, ?_, ?_⟩
  · intro a c h id hc ha
    exact h id ha hc
  · intro t call _ hfind
    obtain ⟨value, stage⟩ := call
    cases hfind
    refine ⟨trivial, ?_⟩
    intro other id hid
    cases hid
  · intro t call t' call' hs ho hstep
    obtain ⟨hopen, succeeds, rfl, rfl⟩ := hstep
    have heffect := advance_effect hs ho hopen succeeds
    obtain ⟨touched, hg, htouched⟩ := heffect.guarantee
    refine ⟨heffect.shared, heffect.own, ?_⟩
    intro other hother hapart
    refine ⟨hother.stable hg ?_, ?_⟩
    · intro id hid heq
      exact hapart id (htouched id heq) hid
    · intro id hid hsame
      rcases heffect.holds id hid with hheld | ⟨rfl, hne⟩
      · exact hapart id hheld hsame
      · have := (hother.taken hsame).2.resolve_left hne
        omega

theorem create_shared (b : Option StringBaseline) (bucketsAllocated pagesAllocated : Bool) :
    (create b bucketsAllocated pagesAllocated).Shared b := by
  have hchain : ∀ index, (create b bucketsAllocated pagesAllocated).chain index = [] := by
    intro index
    unfold chain bucketHead create
    dsimp only
    split
    · rename_i hdense
      split <;> rfl
    · rfl
  refine ⟨rfl, ?_, ?_, ?_, ?_⟩
  · unfold create
    cases b with
    | none => simp
    | some baseline =>
      dsimp only
      have : u32Max = 4294967295 := rfl
      split <;> omega
  · unfold create baselineSlots
    cases b with
    | none => simp
    | some baseline =>
      dsimp only
      split
      · right
        simp
      · exact .inl rfl
  · intro index r hr
    rw [hchain] at hr
    cases hr
  · intro index
    rw [hchain]
    exact List.nodup_nil

section Consequences
variable {b : Option StringBaseline} {t : StringTable} {value value' : Bytes} {id id' : Nat}

theorem get_interned (hs : t.Shared b) (h : t.Interned b value id) : t.get id = value := by
  unfold get
  rw [hs.baseline]
  rcases h with ⟨hempty, hfound⟩ | ⟨r, hr, htext, hid⟩
  · cases b with
    | none => cases hfound
    | some baseline =>
      obtain ⟨hne, hle, hvalue⟩ := (baseline.exact value id hempty).mp hfound
      rw [if_neg hne]
      dsimp only
      rw [if_pos hle, hvalue]
  · have hl := hs.linked _ r hr
    subst hid
    rw [if_neg hl.taken.ne_zero, hl.direct]
    have hslots := hl.taken.1
    cases b with
    | none => exact htext
    | some baseline =>
      dsimp only [baselineSlots, Option.elim_some] at hslots ⊢
      rw [if_neg (by omega)]
      exact htext

theorem interned_unique (hs : t.Shared b) (h : t.Interned b value id) (h' : t.Interned b value' id') :
    id = id' ↔ value = value' := by
  constructor
  · intro heq
    rw [← get_interned hs h, ← get_interned hs h', heq]
  · intro heq
    subst heq
    rcases h with ⟨-, hfound⟩ | ⟨r, hr, htext, rfl⟩
    · rcases h' with ⟨-, hfound'⟩ | ⟨r', hr', htext', rfl⟩
      · rw [hfound] at hfound'
        exact Option.some.inj hfound'
      · have habsent := (hs.linked _ r' hr').absent
        rw [htext', hfound] at habsent
        cases habsent
    · rcases h' with ⟨-, hfound'⟩ | ⟨r', hr', htext', rfl⟩
      · have habsent := (hs.linked _ r hr).absent
        rw [htext, hfound'] at habsent
        cases habsent
      · have hsame := List.inj_on_of_nodup_map (hs.distinct _) hr hr' (htext.trans htext'.symm)
        rw [hsame]

end Consequences

def alone (t : StringTable) (value : Bytes) : Nat → StringTable × InternStage
  | 0 => (t, .find)
  | n + 1 => (t.alone value n).1.advance ⟨value, (t.alone value n).2⟩ true

theorem reach_alone {t : StringTable} {value : Bytes} (n : Nat)
    (hopen : ∀ k < n, CounterOpen (t.alone value k).1 ⟨value, (t.alone value k).2⟩) :
    Reachable CounterOpen t ⟨(t.alone value n).1, [⟨value, (t.alone value n).2⟩]⟩ := by
  induction n with
  | zero =>
    have hstart : Reachable CounterOpen t ⟨t, []⟩ := .initial
    exact hstart.opened rfl
  | succ n ih =>
    have hreached : Reachable CounterOpen t ⟨(t.alone value n).1, [] ++ [⟨value, (t.alone value n).2⟩]⟩ :=
      ih fun k hk => hopen k (by omega)
    exact hreached.last ⟨hopen n (by omega), true, rfl, rfl⟩

end StringTable

end ServerEngine

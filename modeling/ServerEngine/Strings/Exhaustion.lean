import ServerEngine.Strings.Interning

/-! # The exhausted id space

Every call that finds its text new advances the 32-bit counter, also when the id is out of range and
the call fails. After the last id the failing calls carry the counter round to ids in use.
-/
namespace ServerEngine
open Interleaving

namespace StringTable

/-- A table without an image in which every page can be had, with the counter and the longest text. -/
structure Plain (t : StringTable) (next longest : Nat) : Prop where
  baseline : t.baseline = none
  dense : t.denseBucketMode = true
  buckets : t.denseBuckets.isSome = true
  pages : t.pages.isSome = true
  nextId : t.nextId = next
  texts : ∀ index, ∀ r ∈ t.chain index, r.text.length ≤ longest

def Free (_ : StringTable) (_ : InternCall) : Prop := True

section Calls
variable {start t : StringTable} {calls : List InternCall} {value : Bytes} {next longest : Nat}

theorem reach_step {stage : InternStage}
    (h : Reachable Free start ⟨t, calls ++ [⟨value, stage⟩]⟩) :
    Reachable Free start ⟨(t.advance ⟨value, stage⟩ true).1,
      calls ++ [⟨value, (t.advance ⟨value, stage⟩ true).2⟩]⟩ :=
  h.last ⟨trivial, true, rfl, rfl⟩

theorem find_new (hp : t.Plain next longest) (hlong : longest < value.length) : t.find value = 0 := by
  have hempty : value ≠ [] := by
    intro hnil
    rw [hnil, List.length_nil] at hlong
    omega
  unfold find
  rw [if_neg hempty]
  have hnone : t.findRecord value = none := by
    unfold findRecord
    cases hhead : t.bucketHead (bucketIndex value) with
    | none => rfl
    | some records =>
      refine List.find?_eq_none.mpr ?_
      intro r hr htext
      have hmem : r ∈ t.chain (bucketIndex value) := by
        rw [chain, hhead]
        exact hr
      have hle := hp.texts _ r hmem
      unfold isText at htext
      rw [Bool.and_eq_true, beq_iff_eq, beq_iff_eq] at htext
      rw [htext.2] at hle
      omega
  rw [hnone, hp.baseline]
  rfl

theorem reach_takeId (h : Reachable Free start ⟨t, calls⟩) (hp : t.Plain next longest)
    (hlong : longest < value.length) (hsize : value.length ≤ u32Max) :
    Reachable Free start ⟨t, calls ++ [⟨value, .takeId⟩]⟩ := by
  have hempty : value ≠ [] := by
    intro hnil
    rw [hnil, List.length_nil] at hlong
    omega
  have hu : u32Max = 4294967295 := rfl
  have hsizeMax : sizeMax = 18446744073709551615 := rfl
  have hrecord : recordSize = 24 := rfl
  have hpages : t.pages.isNone = false := by simpa using hp.pages
  have hopened : Reachable Free start ⟨t, calls ++ [⟨value, .find⟩]⟩ := h.opened rfl
  have hfind := reach_step hopened
  have hstart : t.startIntern value = .ensureBucket := by
    unfold startIntern
    rw [if_neg hempty, if_neg (by simp [hpages]), if_neg (by omega), if_neg (by omega),
      if_neg (by simp [find_new hp hlong])]
  change Reachable Free start ⟨t, calls ++ [⟨value, t.startIntern value⟩]⟩ at hfind
  rw [hstart] at hfind
  have hensure := reach_step hfind
  unfold advance at hensure
  dsimp only at hensure
  rw [if_pos hp.dense, if_pos hp.buckets] at hensure
  exact reach_step hensure

theorem reach_failed (h : Reachable Free start ⟨t, calls⟩) (hp : t.Plain next longest)
    (hlong : longest < value.length) (hsize : value.length ≤ u32Max)
    (hrange : next = 0 ∨ next > maximumId) :
    ∃ t', Reachable Free start ⟨t', calls ++ [⟨value, .returned (.error .notAvailable)⟩]⟩ ∧
      t'.Plain ((next + 1) % 2 ^ 32) longest := by
  have hstep := reach_step (reach_takeId h hp hlong hsize)
  unfold advance at hstep
  dsimp only at hstep
  rw [if_pos (by rw [hp.nextId]; simpa using hrange)] at hstep
  refine ⟨_, hstep, ?_⟩
  exact ⟨hp.baseline, hp.dense, hp.buckets, hp.pages, by rw [hp.nextId], hp.texts⟩

theorem Plain.installPage (hp : t.Plain next longest) (page : Nat) :
    (t.installPage page).Plain next longest := by
  obtain ⟨pages, heq, hsome⟩ := @installPage_rest t page
  rw [heq]
  exact ⟨hp.baseline, hp.dense, hp.buckets, hsome hp.pages, hp.nextId, hp.texts⟩

theorem Plain.storeSlot (hp : t.Plain next longest) (id : Nat) (record : Option StringRecord) :
    (t.storeSlot id record).Plain next longest := by
  obtain ⟨pages, heq, hsome⟩ := @storeSlot_rest t id record
  rw [heq]
  exact ⟨hp.baseline, hp.dense, hp.buckets, hsome hp.pages, hp.nextId, hp.texts⟩

theorem Plain.head (hp : t.Plain next longest) (index : Nat) :
    (t.bucketHead index).isSome = true := by
  rw [bucketHead, if_pos hp.dense, Option.isSome_map]
  exact hp.buckets

theorem Plain.storeHead (hp : t.Plain next longest) (hlong : longest < value.length) (index id : Nat) :
    (t.storeHead index (⟨hashText value, id, value⟩ :: t.chain index)).Plain next value.length := by
  have hchain := chain_storeHead (hp.head index) (⟨hashText value, id, value⟩ :: t.chain index)
  have hrest : ∃ denseBuckets, t.storeHead index (⟨hashText value, id, value⟩ :: t.chain index) =
      { t with denseBuckets } ∧ denseBuckets.isSome = true := by
    unfold StringTable.storeHead
    rw [if_pos hp.dense]
    split
    · rename_i hnone
      have hsome := hp.buckets
      rw [hnone] at hsome
      cases hsome
    · exact ⟨_, rfl, rfl⟩
  obtain ⟨denseBuckets, heq, hsome⟩ := hrest
  rw [heq] at hchain ⊢
  refine ⟨hp.baseline, hp.dense, hsome, hp.pages, hp.nextId, ?_⟩
  intro other r hr
  rw [hchain] at hr
  have hold : ∀ r ∈ t.chain other, r.text.length ≤ value.length := fun r hr =>
    Nat.le_of_lt (Nat.lt_of_le_of_lt (hp.texts other r hr) hlong)
  split at hr
  · rename_i hsame
    rcases List.mem_cons.mp hr with rfl | hr
    · exact Nat.le_refl _
    · exact hold r (by rw [hsame]; exact hr)
  · exact hold r hr

theorem reach_linked (h : Reachable Free start ⟨t, calls⟩) (hp : t.Plain next longest)
    (hlong : longest < value.length) (hsize : value.length ≤ u32Max) (hpos : next ≠ 0)
    (hrange : next ≤ maximumId) :
    ∃ t', Reachable Free start ⟨t', calls ++ [⟨value, .returned (.ok next)⟩]⟩ ∧
      t'.Plain (next + 1) value.length := by
  have hmax : maximumId = 268435456 := rfl
  have htake := reach_step (reach_takeId h hp hlong hsize)
  unfold advance at htake
  dsimp only at htake
  rw [hp.nextId, if_neg (by simp; omega)] at htake
  have hnext : (next + 1) % 2 ^ 32 = next + 1 := by omega
  rw [hnext] at htake
  have hp₁ : ({ t with nextId := next + 1 } : StringTable).Plain (next + 1) longest :=
    ⟨hp.baseline, hp.dense, hp.buckets, hp.pages, rfl, hp.texts⟩
  generalize { t with nextId := next + 1 } = t₁ at htake hp₁
  -- the direct page is there or is installed
  have hpublish : ∃ t₂, Reachable Free start ⟨t₂, calls ++ [⟨value, .publish next⟩]⟩ ∧
      t₂.Plain (next + 1) longest := by
    have hensure := reach_step htake
    unfold advance at hensure
    obtain ⟨pages, hpages⟩ := Option.isSome_iff_exists.mp hp₁.pages
    have hplace : pageIndex next < pageCount := by
      unfold pageIndex
      have hsize' : pageSize = 4096 := rfl
      have hcount : pageCount = 65536 := rfl
      rw [hsize', hcount]
      omega
    rw [hpages] at hensure
    dsimp only at hensure
    rw [if_neg (by simp; omega)] at hensure
    by_cases hpage : (pages (pageIndex next)).isSome = true
    · rw [if_pos hpage] at hensure
      exact ⟨t₁, hensure, hp₁⟩
    · rw [if_neg hpage, if_pos rfl] at hensure
      exact ⟨_, reach_step hensure, hp₁.installPage _⟩
  obtain ⟨t₂, hpublish, hp₂⟩ := hpublish
  have hload := reach_step hpublish
  have hp₃ := hp₂.storeSlot next (some ⟨hashText value, next, value⟩)
  change Reachable Free start ⟨t₂.storeSlot next (some ⟨hashText value, next, value⟩),
    calls ++ [⟨value, .loadHead next⟩]⟩ at hload
  generalize t₂.storeSlot next (some ⟨hashText value, next, value⟩) = t₃ at hload hp₃
  have hlink := reach_step hload
  change Reachable Free start ⟨t₃, calls ++ [⟨value, .link next (t₃.chain (bucketIndex value))⟩]⟩
    at hlink
  have hdone := reach_step hlink
  have hmiss : (t₃.chain (bucketIndex value)).find? (isText value) = none := by
    refine List.find?_eq_none.mpr ?_
    intro r hr htext
    have hle := hp₃.texts _ r hr
    unfold isText at htext
    rw [Bool.and_eq_true, beq_iff_eq, beq_iff_eq] at htext
    rw [htext.2] at hle
    omega
  unfold advance at hdone
  dsimp only at hdone
  rw [hmiss] at hdone
  rw [if_pos (by rw [Bool.true_and, beq_iff_eq]; rfl)] at hdone
  exact ⟨_, hdone, hp₃.storeHead hlong _ _⟩

end Calls

/-! ## The run -/

def word (k : Nat) : Bytes := List.replicate (k + 1) 97

theorem word_length (k : Nat) : (word k).length = k + 1 := List.length_replicate

structure Started (t : StringTable) (calls : List InternCall) (next longest : Nat) : Prop where
  reached : Reachable Free (create none true true) ⟨t, calls⟩
  plain : t.Plain next longest
  first : calls[0]? = some ⟨word 0, .returned (.ok 1)⟩

theorem Started.extend {t t' : StringTable} {calls : List InternCall} {call : InternCall}
    {next longest next' longest' : Nat} (h : Started t calls next longest)
    (hreached : Reachable Free (create none true true) ⟨t', calls ++ [call]⟩)
    (hplain : t'.Plain next' longest') : Started t' (calls ++ [call]) next' longest' := by
  refine ⟨hreached, hplain, ?_⟩
  rw [List.getElem?_append_left (List.getElem?_eq_some_iff.mp h.first).1]
  exact h.first

theorem started_full (k : Nat) (hk : k < maximumId) :
    ∃ t calls, Started t calls (k + 2) (k + 1) := by
  have hmax : maximumId = 268435456 := rfl
  have hu : u32Max = 4294967295 := rfl
  induction k with
  | zero =>
    have hplain : (create none true true).Plain 1 0 := by
      refine ⟨rfl, rfl, rfl, rfl, rfl, ?_⟩
      intro index r hr
      cases hr
    obtain ⟨t, hreached, hp⟩ := @reach_linked _ _ _ (word 0) _ _ .initial hplain
      (by rw [word_length]; omega) (by rw [word_length]; omega) (by omega) (by omega)
    exact ⟨t, _, hreached, hp, rfl⟩
  | succ k ih =>
    obtain ⟨t, calls, h⟩ := ih (by omega)
    obtain ⟨t', hreached, hp⟩ := @reach_linked _ _ _ (word (k + 1)) _ _ h.reached h.plain
      (by rw [word_length]; omega) (by rw [word_length]; omega) (by omega) (by omega)
    rw [word_length] at hp
    exact ⟨t', _, h.extend hreached hp⟩

theorem started_failing (m : Nat) (hm : m ≤ 4026531840) :
    ∃ t calls, Started t calls ((268435457 + m) % 2 ^ 32) 268435456 := by
  have hmax : maximumId = 268435456 := rfl
  have hu : u32Max = 4294967295 := rfl
  induction m with
  | zero =>
    obtain ⟨t, calls, h⟩ := started_full 268435455 (by omega)
    exact ⟨t, calls, h⟩
  | succ m ih =>
    obtain ⟨t, calls, h⟩ := ih (by omega)
    obtain ⟨t', hreached, hp⟩ := @reach_failed _ _ _ (word 268435456) _ _ h.reached h.plain
      (by rw [word_length]; omega) (by rw [word_length]; omega) (by omega)
    have hnext : ((268435457 + m) % 2 ^ 32 + 1) % 2 ^ 32 = (268435457 + (m + 1)) % 2 ^ 32 := by omega
    rw [hnext] at hp
    exact ⟨t', _, h.extend hreached hp⟩

end StringTable

end ServerEngine

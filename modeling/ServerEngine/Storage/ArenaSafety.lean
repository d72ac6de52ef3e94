import ServerEngine.Storage.ArenaSteps

/-! # Concurrent allocations do not overlap

The invariants of the byte arena over every interleaving in which no counter of a page wraps: the
pages and their owners, the blocks that were given out, the counters.
-/
namespace ServerEngine
open Interleaving Chains

namespace ByteArena
variable {exponent : Nat} {m m' : Arena} {c c' other : Call}

/-! ## Pages -/

def Arena.link (m : Arena) (p : Nat) : Option (Option Nat) := (m.heap p).map (·.nextOwned)

def Owned (m : Arena) (pages : List Nat) : Prop := Chain m.link m.ownedPages pages

theorem setPage_same (m : Arena) (p : Nat) (page : Option Page) : (m.setPage p page).heap p = page := by
  simp [Arena.setPage]

variable {p : Nat}

theorem setPage_other (m : Arena) {q : Nat} (page : Option Page) (h : q ≠ p) :
    (m.setPage p page).heap q = m.heap q := by
  simp [Arena.setPage, h]

/-- The arena's own pages: linked without repetition, apart in memory, aligned, inside it. -/
structure Shared (exponent : Nat) (m : Arena) : Prop where
  owned : ∃ pages, Owned m pages ∧ pages.Nodup
  current : ∀ p, m.currentPage = some p → ∃ page, m.heap p = some page
  apart : ∀ p q a b, p ≠ q → m.heap p = some a → m.heap q = some b →
    a.data + a.capacity ≤ b.data ∨ b.data + b.capacity ≤ a.data
  sane : ∀ p page, m.heap p = some page → 0 < page.data ∧ page.data + page.capacity ≤ sizeCount ∧
    2 ^ exponent ∣ page.data ∧ defaultPageSize ≤ page.capacity

structure Asked (exponent : Nat) (c : Call) : Prop where
  alignment : ∃ j ≤ exponent, c.alignment = 2 ^ j
  size : 0 < c.size
  reservation : c.reservation < sizeCount

def Placed (m : Arena) (c : Call) (block : Block) : Prop :=
  ∃ page, m.heap block.page = some page ∧ block.address = page.data + block.offset ∧
    block.offset + block.size ≤ page.capacity ∧ block.offset + block.size ≤ page.used ∧
    block.size = c.size ∧ c.alignment ∣ block.address

structure Own (exponent : Nat) (m : Arena) (c : Call) : Prop where
  live : ∀ p ∈ c.mentions, ∃ page, m.heap p = some page
  unowned : ∀ p, c.pending = some p → ∀ pages, Owned m pages → p ∉ pages
  hidden : ∀ p, c.candidate = some p → m.currentPage ≠ some p
  linked : ∀ p, c.counting = some p → ∀ pages, Owned m pages → p ∈ pages
  placed : ∀ block, c.output = some block → Placed m c block
  asked : (∃ failure output, c.point = .returned failure output) ∨ Asked exponent c
  result : ∀ failure output, c.point = .returned failure output → (failure = none ↔ output ≠ none)

/-- Two calls do not know each other's private pages, link different pages, and have blocks apart. -/
structure Apart (a b : Call) : Prop where
  left : ∀ p, a.candidate = some p → p ∉ b.mentions
  right : ∀ p, b.candidate = some p → p ∉ a.mentions
  pending : ∀ p, a.pending = some p → b.pending ≠ some p
  blocks : ∀ x y, a.output = some x → b.output = some y → x.page = y.page →
    x.offset + x.size ≤ y.offset ∨ y.offset + y.size ≤ x.offset

theorem Apart.symm (h : Apart c other) : Apart other c where
  left := h.right
  right := h.left
  pending p hp hq := h.pending p hq hp
  blocks x y hx hy hpage := (h.blocks y x hy hx hpage.symm).symm

/-! ## What a step keeps -/

/-- Pages stay but for one that goes, counters only grow, one page more may be linked or published. -/
structure Keeps (m m' : Arena) (gone pushed published : Option Nat) : Prop where
  pages : ∀ p page, m.heap p = some page → gone ≠ some p → ∃ page', m'.heap p = some page' ∧
    page'.data = page.data ∧ page'.capacity = page.capacity ∧ page.used ≤ page'.used
  owned : ∀ pages', Owned m' pages' → ∃ pages, Owned m pages ∧
    ∀ q, q ∈ pages' ↔ q ∈ pages ∨ pushed = some q
  current : ∀ p, m'.currentPage = some p → m.currentPage = some p ∨ published = some p

variable {gone : Option Nat}

theorem Own.keeps {pushed published : Option Nat} (h : Own exponent m c)
    (hkeeps : Keeps m m' gone pushed published) (hgone : ∀ p, gone = some p → p ∉ c.mentions)
    (hpushed : ∀ p, pushed = some p → c.pending ≠ some p)
    (hpublished : ∀ p, published = some p → c.candidate ≠ some p) : Own exponent m' c where
  live p hp := by
    obtain ⟨page, hpage⟩ := h.live p hp
    obtain ⟨page', hpage', -⟩ := hkeeps.pages p page hpage fun heq => hgone p heq hp
    exact ⟨page', hpage'⟩
  unowned p hp pages' howned hmem := by
    obtain ⟨pages, hpages, hsame⟩ := hkeeps.owned pages' howned
    cases (hsame p).mp hmem with
    | inl hold => exact h.unowned p hp pages hpages hold
    | inr hnew => exact hpushed p hnew hp
  hidden p hp hcurrent := by
    cases hkeeps.current p hcurrent with
    | inl hold => exact h.hidden p hp hold
    | inr hnew => exact hpublished p hnew hp
  linked p hp pages' howned := by
    obtain ⟨pages, hpages, hsame⟩ := hkeeps.owned pages' howned
    exact (hsame p).mpr (.inl (h.linked p hp pages hpages))
  placed block hblock := by
    obtain ⟨page, hpage, haddress, hcapacity, hused, hsize, haligned⟩ := h.placed block hblock
    obtain ⟨page', hpage', hdata', hcapacity', hused'⟩ := hkeeps.pages block.page page hpage
      fun heq => hgone _ heq (Call.output_mentions hblock)
    exact ⟨page', hpage', by rw [hdata', haddress], by omega, by omega, hsize, haligned⟩
  asked := h.asked
  result := h.result

theorem Keeps.same (hheap : m'.heap = m.heap) (howned : m'.ownedPages = m.ownedPages)
    (hcurrent : m'.currentPage = m.currentPage) : Keeps m m' none none none where
  pages p page hpage _ := ⟨page, by rw [hheap, hpage], rfl, rfl, Nat.le_refl _⟩
  owned pages' h := by
    refine ⟨pages', ?_, fun q => by simp⟩
    unfold Owned Arena.link at h ⊢
    rw [hheap, howned] at h
    exact h
  current p h := .inl (by rw [← hcurrent, h])

theorem Shared.same (h : Shared exponent m) (hheap : m'.heap = m.heap)
    (howned : m'.ownedPages = m.ownedPages) (hcurrent : m'.currentPage = m.currentPage) :
    Shared exponent m' where
  owned := by
    obtain ⟨pages, hpages, hnodup⟩ := h.owned
    refine ⟨pages, ?_, hnodup⟩
    unfold Owned Arena.link at hpages ⊢
    rw [hheap, howned]
    exact hpages
  current := by
    rw [hheap, hcurrent]
    exact h.current
  apart := by
    rw [hheap]
    exact h.apart
  sane := by
    rw [hheap]
    exact h.sane

variable {pages : List Nat}

theorem owned_setPage {page : Option Page} (hpages : Owned m pages) (hp : p ∉ pages) :
    Owned (m.setPage p page) pages := by
  apply hpages.congr
  intro q hq
  have hne : q ≠ p := by
    intro heq
    exact hp (by rw [← heq]; exact hq)
  unfold Arena.link
  rw [setPage_other m page hne]

variable {old page : Page}

theorem owned_relink (hpages : Owned m pages) (hold : m.heap p = some old)
    (hlink : page.nextOwned = old.nextOwned) : Owned (m.setPage p (some page)) pages := by
  apply hpages.congr
  intro q hq
  unfold Arena.link
  by_cases heq : q = p
  · rw [heq, setPage_same, hold]
    simp [hlink]
  · rw [setPage_other m _ heq]

theorem Owned.live (h : Owned m pages) (hp : p ∈ pages) : ∃ page, m.heap p = some page := by
  obtain ⟨link, hlink⟩ := h.linked hp
  obtain ⟨page, hpage, -⟩ := Option.map_eq_some_iff.mp hlink
  exact ⟨page, hpage⟩

theorem owned_iff {pages' : List Nat} {pushed : Option Nat} (hpages : Owned m pages)
    (hpages' : Owned m' pages') (hsame : ∀ q, q ∈ pages' ↔ q ∈ pages ∨ pushed = some q) :
    ∀ others, Owned m' others → ∃ pages, Owned m pages ∧
      ∀ q, q ∈ others ↔ q ∈ pages ∨ pushed = some q := by
  intro others hothers
  rw [hothers.unique hpages']
  exact ⟨pages, hpages, hsame⟩

/-! ## The effects on the pages -/

theorem Shared.owned_setPage (h : Shared exponent m) (p : Nat) (page : Option Page)
    (hkept : ∀ pages, Owned m pages → Owned (m.setPage p page) pages) :
    (∃ pages, Owned (m.setPage p page) pages ∧ pages.Nodup) ∧
      ∀ pages', Owned (m.setPage p page) pages' → ∃ pages, Owned m pages ∧
        ∀ q, q ∈ pages' ↔ q ∈ pages ∨ (none : Option Nat) = some q := by
  obtain ⟨pages, hpages, hnodup⟩ := h.owned
  exact ⟨⟨pages, hkept pages hpages, hnodup⟩,
    owned_iff hpages (hkept pages hpages) fun q => by simp⟩

variable {address data : Nat}

theorem Shared.made (h : Shared exponent m) {capacity : Nat}
    (hgranted : Granted exponent m capacity address data) (hcapacity : defaultPageSize ≤ capacity) :
    Shared exponent (m.setPage address (some { data := data, capacity := capacity })) ∧
      Keeps m (m.setPage address (some { data := data, capacity := capacity })) none none none := by
  obtain ⟨hfree, hpos, hend, haligned, hclear⟩ := hgranted
  have hne : ∀ p page, m.heap p = some page → p ≠ address := by
    intro p page hpage heq
    rw [heq, hfree] at hpage
    cases hpage
  have howned := h.owned_setPage address (some { data := data, capacity := capacity })
    fun pages hpages => ByteArena.owned_setPage hpages fun hmem => by
      obtain ⟨page, hpage⟩ := hpages.live hmem
      exact hne _ _ hpage rfl
  refine ⟨⟨howned.1, ?_, ?_, ?_⟩, ⟨?_, howned.2, fun p hp => .inl hp⟩⟩
  · intro p hp
    obtain ⟨page, hpage⟩ := h.current p hp
    exact ⟨page, by rw [setPage_other m _ (hne p page hpage), hpage]⟩
  · intro p q a b hpq ha hb
    by_cases hp : p = address
    · subst hp
      rw [setPage_same] at ha
      rw [setPage_other m _ (Ne.symm hpq)] at hb
      cases ha
      exact hclear q b hb
    · rw [setPage_other m _ hp] at ha
      by_cases hq : q = address
      · subst hq
        rw [setPage_same] at hb
        cases hb
        exact (hclear p a ha).symm
      · rw [setPage_other m _ hq] at hb
        exact h.apart p q a b hpq ha hb
  · intro p page hpage
    by_cases hp : p = address
    · subst hp
      rw [setPage_same] at hpage
      cases hpage
      exact ⟨hpos, hend, haligned, hcapacity⟩
    · rw [setPage_other m _ hp] at hpage
      exact h.sane p page hpage
  · intro p page hpage _
    exact ⟨page, by rw [setPage_other m _ (hne p page hpage), hpage], rfl, rfl, Nat.le_refl _⟩

theorem Shared.dropped (h : Shared exponent m) (hunowned : ∀ pages, Owned m pages → p ∉ pages)
    (hhidden : m.currentPage ≠ some p) :
    Shared exponent (m.setPage p none) ∧ Keeps m (m.setPage p none) (some p) none none := by
  have howned := h.owned_setPage p none fun pages hpages =>
    ByteArena.owned_setPage hpages (hunowned pages hpages)
  have hold : ∀ q page, (m.setPage p none).heap q = some page → m.heap q = some page := by
    intro q page hpage
    by_cases hq : q = p
    · rw [hq, setPage_same] at hpage
      cases hpage
    · rwa [setPage_other m _ hq] at hpage
  refine ⟨⟨howned.1, ?_, ?_, ?_⟩, ⟨?_, howned.2, fun q hq => .inl hq⟩⟩
  · intro q hq
    have hne : q ≠ p := by
      intro heq
      exact hhidden (by rw [← heq]; exact hq)
    obtain ⟨page, hpage⟩ := h.current q hq
    exact ⟨page, by rw [setPage_other m _ hne, hpage]⟩
  · intro q r a b hqr ha hb
    exact h.apart q r a b hqr (hold q a ha) (hold r b hb)
  · intro q page hpage
    exact h.sane q page (hold q page hpage)
  · intro q page hpage hgone
    have hne : q ≠ p := fun heq => hgone (by rw [heq])
    exact ⟨page, by rw [setPage_other m _ hne, hpage], rfl, rfl, Nat.le_refl _⟩

theorem Shared.published (h : Shared exponent m) {p : Nat} {page : Page}
    (hpage : m.heap p = some page) :
    Shared exponent { m with currentPage := some p } ∧
      Keeps m { m with currentPage := some p } none none (some p) := by
  refine ⟨⟨h.owned, ?_, h.apart, h.sane⟩, ⟨?_, ?_, ?_⟩⟩
  · intro q hq
    cases hq
    exact ⟨page, hpage⟩
  · intro q page hq _
    exact ⟨page, hq, rfl, rfl, Nat.le_refl _⟩
  · intro pages hpages
    exact ⟨pages, hpages, fun q => by simp⟩
  · intro q hq
    exact .inr hq

theorem Shared.changed (h : Shared exponent m) (page : Page) (hold : m.heap p = some old)
    (hdata : page.data = old.data) (hcapacity : page.capacity = old.capacity)
    (hused : old.used ≤ page.used)
    (hkept : ∀ pages, Owned m pages → Owned (m.setPage p (some page)) pages) :
    Shared exponent (m.setPage p (some page)) ∧ Keeps m (m.setPage p (some page)) none none none := by
  have howned := h.owned_setPage p (some page) hkept
  have hback : ∀ q new, (m.setPage p (some page)).heap q = some new → ∃ before,
      m.heap q = some before ∧ new.data = before.data ∧ new.capacity = before.capacity := by
    intro q new hnew
    by_cases hq : q = p
    · rw [hq, setPage_same] at hnew
      cases hnew
      exact ⟨old, by rw [hq, hold], hdata, hcapacity⟩
    · rw [setPage_other m _ hq] at hnew
      exact ⟨new, hnew, rfl, rfl⟩
  have hforth : ∀ q before, m.heap q = some before → ∃ new,
      (m.setPage p (some page)).heap q = some new ∧ new.data = before.data ∧
        new.capacity = before.capacity ∧ before.used ≤ new.used := by
    intro q before hbefore
    by_cases hq : q = p
    · rw [hq, hold] at hbefore
      cases hbefore
      exact ⟨page, by rw [hq, setPage_same], hdata, hcapacity, hused⟩
    · exact ⟨before, by rw [setPage_other m _ hq, hbefore], rfl, rfl, Nat.le_refl _⟩
  refine ⟨⟨howned.1, ?_, ?_, ?_⟩, ⟨fun q before hbefore _ => hforth q before hbefore, howned.2,
    fun q hq => .inl hq⟩⟩
  · intro q hq
    obtain ⟨before, hbefore⟩ := h.current q hq
    obtain ⟨new, hnew, -⟩ := hforth q before hbefore
    exact ⟨new, hnew⟩
  · intro q r a b hqr ha hb
    obtain ⟨a', ha', hdataA, hcapacityA⟩ := hback q a ha
    obtain ⟨b', hb', hdataB, hcapacityB⟩ := hback r b hb
    have hbefore := h.apart q r a' b' hqr ha' hb'
    omega
  · intro q new hnew
    obtain ⟨before, hbefore, hdata', hcapacity'⟩ := hback q new hnew
    rw [hdata', hcapacity']
    exact h.sane q before hbefore

theorem Shared.pushed (h : Shared exponent m) (hpage : m.heap p = some page)
    (hunowned : ∀ pages, Owned m pages → p ∉ pages) :
    Shared exponent { m.setPage p (some { page with nextOwned := m.ownedPages }) with
        ownedPages := some p } ∧
      Keeps m { m.setPage p (some { page with nextOwned := m.ownedPages }) with
        ownedPages := some p } none (some p) none := by
  obtain ⟨hshared, hkeeps⟩ := h.changed { page with nextOwned := m.ownedPages } hpage rfl rfl
    (Nat.le_refl _) fun pages hpages => ByteArena.owned_setPage hpages (hunowned pages hpages)
  obtain ⟨pages, hpages, hnodup⟩ := h.owned
  have hnew : Owned { m.setPage p (some { page with nextOwned := m.ownedPages }) with
      ownedPages := some p } (p :: pages) := by
    apply Chain.push hpages
    · unfold Arena.link
      rw [setPage_same, Option.map_some]
    · intro q hq
      have hne : q ≠ p := by
        intro heq
        exact hunowned pages hpages (by rw [← heq]; exact hq)
      unfold Arena.link
      dsimp only
      rw [setPage_other m _ hne]
  refine ⟨⟨⟨p :: pages, hnew, List.nodup_cons.mpr ⟨hunowned pages hpages, hnodup⟩⟩, hshared.current,
    hshared.apart, hshared.sane⟩, ⟨hkeeps.pages, ?_, hkeeps.current⟩⟩
  apply owned_iff hpages hnew
  intro q
  rw [List.mem_cons, or_comm, Option.some.injEq, eq_comm]

variable {block : Block}

theorem carve_spec (hasked : Asked exponent c)
    (hpage : 0 < page.data ∧ page.data + page.capacity ≤ sizeCount ∧ 2 ^ exponent ∣ page.data)
    (hfits : page.used + c.reservation < sizeCount) (h : carve c address page = some block) :
    block.page = address ∧ block.address = page.data + block.offset ∧ block.size = c.size ∧
      page.used ≤ block.offset ∧ block.offset + block.size ≤ page.capacity ∧
      block.offset + block.size ≤ page.used + c.reservation ∧ c.alignment ∣ block.address := by
  obtain ⟨j, hj, halignment⟩ := hasked.alignment
  obtain ⟨hdata, hend, haligned⟩ := hpage
  have hexponent : exponent ≤ 64 := by
    have hle : 2 ^ exponent ≤ 2 ^ 64 := (Nat.le_of_dvd hdata haligned).trans (by
      show page.data ≤ sizeCount
      omega)
    exact (Nat.pow_le_pow_iff_right (by decide)).mp hle
  have hreservation : c.reservation = c.size + 2 ^ j - 1 := by rw [Call.reservation, halignment]
  have hpos : 0 < 2 ^ j := Nat.two_pow_pos j
  have hpadded : page.used + 2 ^ j - 1 < sizeCount := by omega
  obtain ⟨hlow, hhigh, hdvd⟩ := alignUp_spec (hj.trans hexponent) hpadded
  rw [← halignment] at hlow hhigh hdvd
  unfold carve at h
  dsimp only at h
  split at h
  · split at h
    · rename_i hroom
      cases h
      refine ⟨rfl, rfl, rfl, hlow, by dsimp only; omega, by dsimp only; omega, ?_⟩
      exact Nat.dvd_add ((halignment ▸ pow_dvd_pow 2 hj).trans haligned) hdvd
    · cases h
  · cases h

theorem start_asked (size : Nat) {alignment : Nat} (halignment : alignment ≤ 2 ^ exponent) :
    (∃ code, Call.start size alignment = ⟨size, alignment, .returned (some code) none⟩) ∨
      Call.start size alignment = ⟨size, alignment, .loadCurrent⟩ ∧
        Asked exponent (Call.start size alignment) := by
  unfold Call.start
  split
  · exact .inl ⟨_, rfl⟩
  rename_i hchecks
  split
  · exact .inl ⟨_, rfl⟩
  simp only [Bool.or_eq_true, decide_eq_true_eq, Bool.not_eq_true', not_or,
    Bool.not_eq_false] at hchecks
  obtain ⟨j, hj⟩ := validAlignment_pow hchecks.2
  subst hj
  refine .inr ⟨rfl, ⟨j, ?_, rfl⟩, Nat.pos_of_ne_zero hchecks.1, ?_⟩
  · exact (Nat.pow_le_pow_iff_right (by decide)).mp halignment
  · show size + 2 ^ j - 1 < sizeMax + 1
    omega

/-! ## The rule's premises -/

theorem Own.asked_of (h : Own exponent m c) (hpoint : ∀ failure output,
    c.point ≠ .returned failure output) : Asked exponent c := by
  cases h.asked with
  | inl hreturned =>
    obtain ⟨failure, output, heq⟩ := hreturned
    exact absurd heq (hpoint failure output)
  | inr hasked => exact hasked

variable {point : Point}

theorem Own.goto (hasked : Asked exponent c)
    (hpoint : ∀ failure output, point ≠ .returned failure output)
    (hlive : ∀ p ∈ (c.goto point).mentions, ∃ page, m.heap p = some page)
    (hunowned : ∀ p, (c.goto point).pending = some p → ∀ pages, Owned m pages → p ∉ pages)
    (hhidden : ∀ p, (c.goto point).candidate = some p → m.currentPage ≠ some p)
    (hlinked : ∀ p, (c.goto point).counting = some p → ∀ pages, Owned m pages → p ∈ pages) :
    Own exponent m (c.goto point) where
  live := hlive
  unowned := hunowned
  hidden := hhidden
  linked := hlinked
  placed block hblock := by
    unfold Call.output at hblock
    split at hblock
    · rename_i failure output heq
      exact absurd heq (hpoint failure output)
    · cases hblock
  asked := .inr ⟨hasked.alignment, hasked.size, hasked.reservation⟩
  result failure output heq := absurd heq (hpoint failure output)

theorem Apart.less (h : Apart c other) (hcandidate : ∀ p, c'.candidate = some p → c.candidate = some p)
    (hpending : ∀ p, c'.pending = some p → c.pending = some p)
    (hmentions : ∀ p ∈ c'.mentions, p ∈ c.mentions)
    (houtput : ∀ block, c'.output = some block → c.output = some block) : Apart c' other where
  left p hp := h.left p (hcandidate p hp)
  right p hp hmem := h.right p hp (hmentions p hmem)
  pending p hp := h.pending p (hpending p hp)
  blocks x y hx hy := h.blocks x y (houtput x hx) hy

theorem apart_unknowing (hmentions : c.mentions = []) : Apart c other := by
  have hpending : c.pending = none := by
    cases hpending : c.pending with
    | none => rfl
    | some p =>
      have hmem := Call.pending_mentions hpending
      rw [hmentions] at hmem
      cases hmem
  refine ⟨?_, ?_, ?_, ?_⟩
  · intro p hp
    rw [Call.candidate_pending hp] at hpending
    cases hpending
  · intro p _
    rw [hmentions]
    exact List.not_mem_nil
  · intro p hp
    rw [hpending] at hp
    cases hp
  · intro x y hx
    have hmem := Call.output_mentions hx
    rw [hmentions] at hmem
    cases hmem

theorem Own.failed (m : Arena) (c : Call) (code : StatusCode) : Own exponent m (c.fail code) where
  live := by simp [Call.mentions, Call.fail, Call.goto]
  unowned := by simp [Call.pending, Call.fail, Call.goto]
  hidden := by simp [Call.candidate, Call.fail, Call.goto]
  linked := by simp [Call.counting, Call.fail, Call.goto]
  placed := by simp [Call.output, Call.fail, Call.goto]
  asked := .inl ⟨some code, none, rfl⟩
  result := by
    intro failure output h
    cases h
    simp

theorem Own.unknowing (hasked : Asked exponent c)
    (hpoint : point = .loadCurrent ∨ point = .makeFirst) : Own exponent m (c.goto point) := by
  obtain rfl | rfl := hpoint
  all_goals
    apply Own.goto hasked
    all_goals simp [Call.mentions, Call.pending, Call.candidate, Call.counting, Call.goto]

theorem own_start (m : Arena) (h : Opens exponent c) : Own exponent m c ∧ ∀ other, Apart c other := by
  obtain ⟨size, alignment, -, halignment, rfl⟩ := h
  obtain ⟨code, hstart⟩ | ⟨hstart, hasked⟩ := start_asked size halignment
  · rw [hstart]
    exact ⟨Own.failed m ⟨size, alignment, .loadCurrent⟩ code, fun other => apart_unknowing rfl⟩
  · rw [hstart] at hasked ⊢
    have hown : Own exponent m (Call.goto ⟨size, alignment, .loadCurrent⟩ .loadCurrent) :=
      Own.unknowing hasked (.inl rfl)
    exact ⟨hown, fun other => apart_unknowing rfl⟩

def Kept (exponent : Nat) (m : Arena) (c : Call) (m' : Arena) (c' : Call) : Prop :=
  Shared exponent m' ∧ Own exponent m' c' ∧
    ∀ other, Own exponent m other → Apart c other → Own exponent m' other ∧ Apart c' other

theorem kept_of {pushed published : Option Nat} (hshared : Shared exponent m')
    (hkeeps : Keeps m m' gone pushed published) (hown : Own exponent m' c')
    (hgone : ∀ p, gone = some p → c.candidate = some p)
    (hpushed : ∀ p, pushed = some p → c.pending = some p)
    (hpublished : ∀ p, published = some p → c.candidate = some p)
    (hapart : ∀ other, Own exponent m other → Apart c other → Apart c' other) :
    Kept exponent m c m' c' := by
  refine ⟨hshared, hown, fun other hother h => ⟨hother.keeps hkeeps ?_ ?_ ?_, hapart other hother h⟩⟩
  · intro p hp
    exact h.left p (hgone p hp)
  · intro p hp
    exact h.pending p (hpushed p hp)
  · intro p hp hcandidate
    exact h.left p (hpublished p hp) (Call.pending_mentions (Call.candidate_pending hcandidate))

theorem kept_same (hshared : Shared exponent m) (hheap : m'.heap = m.heap)
    (howned : m'.ownedPages = m.ownedPages) (hcurrent : m'.currentPage = m.currentPage)
    (hown : Own exponent m' c')
    (hapart : ∀ other, Own exponent m other → Apart c other → Apart c' other) :
    Kept exponent m c m' c' :=
  kept_of (hshared.same hheap howned hcurrent) (Keeps.same hheap howned hcurrent) hown
    (fun _ h => by cases h) (fun _ h => by cases h) (fun _ h => by cases h) hapart

theorem kept_looked {page : Nat} (hshared : Shared exponent m) (hown : Own exponent m c)
    (hpoint : c.point = .loadCurrent) (hpage : m.currentPage = some page) :
    Kept exponent m c m (c.goto (.reserve page)) := by
  have hasked := hown.asked_of fun failure output h => by rw [hpoint] at h; cases h
  refine kept_same hshared rfl rfl rfl ?_ ?_
  · apply Own.goto hasked
    · intro failure output h
      cases h
    · intro p hp
      obtain rfl : p = page := List.mem_singleton.mp hp
      exact hshared.current p hpage
    all_goals simp [Call.pending, Call.candidate, Call.counting, Call.goto]
  · intro other hother hapart
    refine ⟨?_, ?_, ?_, ?_⟩
    · simp [Call.candidate, Call.goto]
    · intro p hp hmem
      obtain rfl : p = page := List.mem_singleton.mp hmem
      exact hother.hidden p hp hpage
    · simp [Call.pending, Call.goto]
    · simp [Call.output, Call.goto]

theorem kept_made (hshared : Shared exponent m) (hown : Own exponent m c)
    (hpoint : (c.point = .makeFirst ∧ point = .publishFirst address) ∨ ∃ page, c.point = .makeNext page ∧ point = .publishNext page address)
    (hgranted : Granted exponent m c.pageCapacity address data) :
    Kept exponent m c (m.setPage address (some { data := data, capacity := c.pageCapacity }))
      (c.goto point) := by
  obtain ⟨hnew, hkeeps⟩ := hshared.made hgranted (Nat.le_max_left _ _)
  have hasked : Asked exponent c := hown.asked_of fun failure output h => by
    obtain ⟨heq, -⟩ | ⟨page, heq, -⟩ := hpoint <;> rw [heq] at h <;> cases h
  have hdead : ∀ page, m.heap address ≠ some page := by
    intro page hpage
    rw [hgranted.1] at hpage
    cases hpage
  have hcandidate : (c.goto point).candidate = some address := by
    obtain ⟨-, rfl⟩ | ⟨page, -, rfl⟩ := hpoint <;> rfl
  have hpending : (c.goto point).pending = some address := Call.candidate_pending hcandidate
  have hmentions : ∀ p ∈ (c.goto point).mentions, p = address ∨ p ∈ c.mentions := by
    obtain ⟨-, rfl⟩ | ⟨page, heq, rfl⟩ := hpoint
    · simp [Call.mentions, Call.goto]
    · simp [Call.mentions, Call.goto, heq]
  have hsilent : (c.goto point).counting = none ∧ (c.goto point).output = none ∧
      ∀ failure output, point ≠ .returned failure output := by
    obtain ⟨-, rfl⟩ | ⟨page, -, rfl⟩ := hpoint <;> simp [Call.counting, Call.output, Call.goto]
  apply kept_of hnew hkeeps
  · apply Own.goto hasked hsilent.2.2
    · intro p hp
      cases hmentions p hp with
      | inl heq => exact ⟨_, by rw [heq, setPage_same]⟩
      | inr hold =>
        obtain ⟨page, hpage⟩ := hown.live p hold
        obtain ⟨page', hpage', -⟩ := hkeeps.pages p page hpage fun h => by cases h
        exact ⟨page', hpage'⟩
    · intro p hp pages' hpages' hmem
      rw [hpending] at hp
      cases hp
      obtain ⟨pages, hpages, hsame⟩ := hkeeps.owned pages' hpages'
      obtain hold | hnone := (hsame address).mp hmem
      · obtain ⟨page, hpage⟩ := hpages.live hold
        exact hdead page hpage
      · cases hnone
    · intro p hp hcurrent
      rw [hcandidate] at hp
      cases hp
      obtain ⟨page, hpage⟩ := hshared.current address hcurrent
      exact hdead page hpage
    · rw [hsilent.1]
      intro p hp
      cases hp
  · intro p hp
    cases hp
  · intro p hp
    cases hp
  · intro p hp
    cases hp
  · intro other hother hapart
    have hunknown : address ∉ other.mentions := by
      intro hmem
      obtain ⟨page, hpage⟩ := hother.live address hmem
      exact hdead page hpage
    refine ⟨?_, ?_, ?_, ?_⟩
    · intro p hp
      rw [hcandidate] at hp
      cases hp
      exact hunknown
    · intro p hp hmem
      cases hmentions p hmem with
      | inl heq =>
        rw [heq] at hp
        exact hunknown (Call.pending_mentions (Call.candidate_pending hp))
      | inr hold => exact hapart.right p hp hold
    · intro p hp hother'
      rw [hpending] at hp
      cases hp
      exact hunknown (Call.pending_mentions hother')
    · rw [hsilent.2.1]
      intro x y hx
      cases hx

variable {candidate : Nat} {first : Bool}

theorem kept_published (hshared : Shared exponent m) (hown : Own exponent m c)
    (hcandidate : c.candidate = some candidate) :
    Kept exponent m c { m with currentPage := some candidate }
      (c.goto (.loadHead candidate first)) := by
  have hpending := Call.candidate_pending hcandidate
  have hmem := Call.pending_mentions hpending
  obtain ⟨page, hpage⟩ := hown.live candidate hmem
  obtain ⟨hnew, hkeeps⟩ := hshared.published hpage
  have hasked : Asked exponent c := hown.asked_of fun failure output h => by
    rw [Call.candidate, h] at hcandidate
    cases hcandidate
  apply kept_of hnew hkeeps
  · apply Own.goto hasked
    · intro failure output h
      cases h
    · intro p hp
      obtain rfl : p = candidate := List.mem_singleton.mp hp
      exact ⟨page, hpage⟩
    · intro p hp pages hpages
      cases hp
      exact hown.unowned candidate hpending pages hpages
    all_goals simp [Call.candidate, Call.counting, Call.goto]
  · intro p hp
    cases hp
  · intro p hp
    cases hp
  · intro p hp
    cases hp
    exact hcandidate
  · intro other hother hapart
    apply hapart.less
    · simp [Call.candidate, Call.goto]
    · intro p hp
      cases hp
      exact hpending
    · intro p hp
      obtain rfl : p = candidate := List.mem_singleton.mp hp
      exact hmem
    · simp [Call.output, Call.goto]

theorem kept_dropped (hshared : Shared exponent m) (hown : Own exponent m c)
    (hcandidate : c.candidate = some candidate) :
    Kept exponent m c (m.setPage candidate none) (c.goto .loadCurrent) := by
  obtain ⟨hnew, hkeeps⟩ := hshared.dropped
    (hown.unowned candidate (Call.candidate_pending hcandidate)) (hown.hidden candidate hcandidate)
  have hasked : Asked exponent c := hown.asked_of fun failure output h => by
    rw [Call.candidate, h] at hcandidate
    cases hcandidate
  apply kept_of hnew hkeeps (Own.unknowing hasked (.inl rfl))
  · intro p hp
    cases hp
    exact hcandidate
  · intro p hp
    cases hp
  · intro p hp
    cases hp
  · intro other hother hapart
    exact apart_unknowing rfl

variable {head : Option Nat}

theorem Own.linking (hasked : Asked exponent c) (hpage : m.heap candidate = some page)
    (hunowned : ∀ pages, Owned m pages → candidate ∉ pages) :
    Own exponent m (c.goto (.pushHead candidate head first)) := by
  apply Own.goto hasked
  · intro failure output h
    cases h
  · intro p hp
    obtain rfl : p = candidate := List.mem_singleton.mp hp
    exact ⟨page, hpage⟩
  · intro p hp pages hpages
    cases hp
    exact hunowned pages hpages
  all_goals simp [Call.candidate, Call.counting, Call.goto]

theorem apart_linking (h : Apart c other) (hpending : c.pending = some candidate) :
    Apart (c.goto (.pushHead candidate head first)) other := by
  apply h.less
  · simp [Call.candidate, Call.goto]
  · intro p hp
    cases hp
    exact hpending
  · intro p hp
    obtain rfl : p = candidate := List.mem_singleton.mp hp
    exact Call.pending_mentions hpending
  · simp [Call.output, Call.goto]

theorem kept_headLoaded (hshared : Shared exponent m) (hown : Own exponent m c)
    (hpoint : c.point = .loadHead candidate first) :
    Kept exponent m c m (c.goto (.pushHead candidate head first)) := by
  have hpending : c.pending = some candidate := by rw [Call.pending, hpoint]
  obtain ⟨page, hpage⟩ := hown.live candidate (Call.pending_mentions hpending)
  have hasked := hown.asked_of fun failure output h => by rw [hpoint] at h; cases h
  refine kept_same hshared rfl rfl rfl ?_ ?_
  · exact Own.linking hasked hpage (hown.unowned candidate hpending)
  · intro other hother hapart
    exact apart_linking hapart hpending

theorem kept_relinked {head' : Option Nat} (hshared : Shared exponent m) (hown : Own exponent m c)
    (hpoint : c.point = .pushHead candidate head first) (hpage : m.heap candidate = some page) :
    Kept exponent m c (m.setPage candidate (some { page with nextOwned := head }))
      (c.goto (.pushHead candidate head' first)) := by
  have hpending : c.pending = some candidate := by rw [Call.pending, hpoint]
  have hunowned := hown.unowned candidate hpending
  obtain ⟨hnew, hkeeps⟩ := hshared.changed { page with nextOwned := head } hpage rfl rfl
    (Nat.le_refl _) fun pages hpages => owned_setPage hpages (hunowned pages hpages)
  have hasked := hown.asked_of fun failure output h => by rw [hpoint] at h; cases h
  apply kept_of hnew hkeeps
  · refine Own.linking hasked (setPage_same m candidate _) ?_
    intro pages' hpages' hmem
    obtain ⟨pages, hpages, hsame⟩ := hkeeps.owned pages' hpages'
    obtain hold | hnone := (hsame candidate).mp hmem
    · exact hunowned pages hpages hold
    · cases hnone
  · intro p hp
    cases hp
  · intro p hp
    cases hp
  · intro p hp
    cases hp
  · intro other hother hapart
    exact apart_linking hapart hpending

theorem Own.counted (hasked : Asked exponent c)
    (hpoint : (∃ first, point = .addBytes candidate first) ∨ ∃ first, point = .addPage candidate first)
    (hpage : m.heap candidate = some page) (howned : ∀ pages, Owned m pages → candidate ∈ pages) :
    Own exponent m (c.goto point) := by
  obtain ⟨first, rfl⟩ | ⟨first, rfl⟩ := hpoint
  all_goals
    apply Own.goto hasked
    · intro failure output h
      cases h
    · intro p hp
      obtain rfl : p = candidate := List.mem_singleton.mp hp
      exact ⟨page, hpage⟩
    · simp [Call.pending, Call.goto]
    · simp [Call.candidate, Call.goto]
    · intro p hp pages hpages
      cases hp
      exact howned pages hpages

theorem apart_mentioning (h : Apart c other) (hmem : p ∈ c.mentions)
    (hpoint : (∃ first, point = .addBytes p first) ∨ (∃ first, point = .addPage p first) ∨ point = .reserve p ∨ point = .makeNext p) :
    Apart (c.goto point) other := by
  obtain ⟨first, rfl⟩ | ⟨first, rfl⟩ | rfl | rfl := hpoint
  all_goals
    apply h.less
    · simp [Call.candidate, Call.goto]
    · simp [Call.pending, Call.goto]
    · intro q hq
      obtain rfl : q = p := List.mem_singleton.mp hq
      exact hmem
    · simp [Call.output, Call.goto]

theorem kept_pushed (hshared : Shared exponent m) (hown : Own exponent m c)
    (hpoint : c.point = .pushHead candidate m.ownedPages first)
    (hpage : m.heap candidate = some page) : Kept exponent m c
      { m.setPage candidate (some { page with nextOwned := m.ownedPages }) with
        ownedPages := some candidate }
      (c.goto (.addBytes candidate first)) := by
  have hpending : c.pending = some candidate := by rw [Call.pending, hpoint]
  obtain ⟨hnew, hkeeps⟩ := hshared.pushed hpage (hown.unowned candidate hpending)
  have hasked := hown.asked_of fun failure output h => by rw [hpoint] at h; cases h
  apply kept_of hnew hkeeps
  · refine Own.counted hasked (.inl ⟨first, rfl⟩) (setPage_same m candidate _) ?_
    intro pages' hpages'
    obtain ⟨pages, -, hsame⟩ := hkeeps.owned pages' hpages'
    exact (hsame candidate).mpr (.inr rfl)
  · intro p hp
    cases hp
  · intro p hp
    cases hp
    exact hpending
  · intro p hp
    cases hp
  · intro other hother hapart
    exact apart_mentioning hapart (Call.pending_mentions hpending) (.inl ⟨first, rfl⟩)

theorem kept_countedBytes {bytes : Nat} (hshared : Shared exponent m) (hown : Own exponent m c)
    (hpoint : c.point = .addBytes candidate first) :
    Kept exponent m c { m with reservedBytes := bytes } (c.goto (.addPage candidate first)) := by
  have hcounting : c.counting = some candidate := by rw [Call.counting, hpoint]
  obtain ⟨page, hpage⟩ := hown.live candidate (Call.counting_mentions hcounting)
  have hasked := hown.asked_of fun failure output h => by rw [hpoint] at h; cases h
  refine kept_same hshared rfl rfl rfl ?_ ?_
  · refine Own.counted hasked (.inr ⟨first, rfl⟩) hpage ?_
    exact hown.linked candidate hcounting
  · intro other hother hapart
    exact apart_mentioning hapart (Call.counting_mentions hcounting) (.inr (.inl ⟨first, rfl⟩))

theorem Own.using (hasked : Asked exponent c) (hpoint : point = .reserve p ∨ point = .makeNext p)
    (hpage : m.heap p = some page) : Own exponent m (c.goto point) := by
  obtain rfl | rfl := hpoint
  all_goals
    apply Own.goto hasked
    · intro failure output h
      cases h
    · intro q hq
      obtain rfl : q = p := List.mem_singleton.mp hq
      exact ⟨page, hpage⟩
    all_goals simp [Call.pending, Call.candidate, Call.counting, Call.goto]

theorem kept_countedPage {pages : Nat} (hshared : Shared exponent m) (hown : Own exponent m c)
    (hpoint : c.point = .addPage candidate first) :
    Kept exponent m c { m with reservedPages := pages }
      (c.goto (if first then .reserve candidate else .loadCurrent)) := by
  have hcounting : c.counting = some candidate := by rw [Call.counting, hpoint]
  have hmem := Call.counting_mentions hcounting
  obtain ⟨page, hpage⟩ := hown.live candidate hmem
  have hasked := hown.asked_of fun failure output h => by rw [hpoint] at h; cases h
  refine kept_same hshared rfl rfl rfl ?_ ?_
  · cases first with
    | true => exact Own.using hasked (.inl rfl) hpage
    | false => exact Own.unknowing hasked (.inl rfl)
  · intro other hother hapart
    cases first with
    | true => exact apart_mentioning hapart hmem (.inr (.inr (.inl rfl)))
    | false => exact apart_unknowing rfl

theorem Shared.bumped (h : Shared exponent m) {reservation : Nat} (hpage : m.heap p = some page)
    (hfits : page.used + reservation < sizeCount) : Shared exponent (m.bump p page reservation) ∧
      Keeps m (m.bump p page reservation) none none none := by
  refine h.changed { page with used := (page.used + reservation) % sizeCount } hpage rfl rfl ?_ ?_
  · dsimp only
    rw [Nat.mod_eq_of_lt hfits]
    exact Nat.le_add_right _ _
  · intro pages hpages
    exact owned_relink hpages hpage rfl

theorem kept_exhausted (hshared : Shared exponent m) (hown : Own exponent m c)
    (hpoint : c.point = .reserve p) (hpage : m.heap p = some page)
    (hfits : page.used + c.reservation < sizeCount) :
    Kept exponent m c (m.bump p page c.reservation) (c.goto (.makeNext p)) := by
  obtain ⟨hnew, hkeeps⟩ := hshared.bumped hpage hfits
  have hasked := hown.asked_of fun failure output h => by rw [hpoint] at h; cases h
  have hmem : p ∈ c.mentions := by simp [Call.mentions, hpoint]
  apply kept_of hnew hkeeps
  · exact Own.using hasked (.inr rfl) (setPage_same _ _ _)
  · intro p hp
    cases hp
  · intro p hp
    cases hp
  · intro p hp
    cases hp
  · intro other hother hapart
    exact apart_mentioning hapart hmem (.inr (.inr (.inr rfl)))

theorem kept_reserved (hshared : Shared exponent m) (hown : Own exponent m c)
    (hpoint : c.point = .reserve p) (hpage : m.heap p = some page)
    (hfits : page.used + c.reservation < sizeCount) (hcarve : carve c p page = some block) :
    Kept exponent m c (m.bump p page c.reservation) (c.goto (.returned none (some block))) := by
  obtain ⟨hnew, hkeeps⟩ := hshared.bumped hpage hfits
  have hasked := hown.asked_of fun failure output h => by rw [hpoint] at h; cases h
  obtain ⟨hdata, hend, haligned, -⟩ := hshared.sane p page hpage
  obtain ⟨rfl, haddress, hsize, hbehind, hinside, hused, hdvd⟩ :=
    carve_spec hasked ⟨hdata, hend, haligned⟩ hfits hcarve
  apply kept_of hnew hkeeps
  · refine ⟨?_, ?_, ?_, ?_, ?_, .inl ⟨none, some block, rfl⟩, ?_⟩
    · intro q hq
      obtain rfl : q = block.page := List.mem_singleton.mp hq
      exact ⟨_, setPage_same _ _ _⟩
    · simp [Call.pending, Call.goto]
    · simp [Call.candidate, Call.goto]
    · simp [Call.counting, Call.goto]
    · intro other hother
      cases hother
      refine ⟨_, setPage_same _ _ _, haddress, hinside, ?_, hsize, hdvd⟩
      rw [Nat.mod_eq_of_lt hfits]
      exact hused
    · intro failure output h
      cases h
      simp
  · intro p hp
    cases hp
  · intro p hp
    cases hp
  · intro p hp
    cases hp
  · intro other hother hapart
    refine ⟨?_, ?_, ?_, ?_⟩
    · simp [Call.candidate, Call.goto]
    · intro q hq hmem
      obtain rfl : q = block.page := List.mem_singleton.mp hmem
      exact hapart.right _ hq (by simp [Call.mentions, hpoint])
    · simp [Call.pending, Call.goto]
    · intro x y hx hy hsame
      cases hx
      obtain ⟨page', hpage', -, -, hbefore, -, -⟩ := hother.placed y hy
      rw [← hsame, hpage] at hpage'
      cases hpage'
      exact .inr (by omega)

theorem preserves (exponent : Nat) : Preserves (Opens exponent)
    (fun m c m' c' => Advance exponent m c m' c' ∧ ¬Wraps m c) (Shared exponent) (Own exponent)
    Apart where
  symm _ _ h := h.symm
  opened m call _ hcall := own_start m hcall
  advanced m c m' c' hshared hown hstep := by
    obtain ⟨hadvance, hnowrap⟩ := hstep
    have hfits : ∀ address page, c.point = .reserve address → m.heap address = some page →
        page.used + c.reservation < sizeCount := fun address page hpoint hpage =>
      Nat.lt_of_not_le fun hle => hnowrap ⟨address, page, hpoint, hpage, hle⟩
    cases advance_effect hadvance with
    | stays => exact ⟨hshared, hown, fun other hother hapart => ⟨hother, hapart⟩⟩
    | lookedNone hpoint =>
      have hasked := hown.asked_of fun failure output h => by rw [hpoint] at h; cases h
      exact kept_same hshared rfl rfl rfl (Own.unknowing hasked (.inr rfl))
        fun other _ _ => apart_unknowing rfl
    | looked page hpoint hpage => exact kept_looked hshared hown hpoint hpage
    | refused hpoint =>
      exact kept_same hshared rfl rfl rfl (Own.failed m c _) fun other _ _ => apart_unknowing rfl
    | made address data point hpoint hgranted => exact kept_made hshared hown hpoint hgranted
    | published candidate first hcandidate => exact kept_published hshared hown hcandidate
    | dropped candidate hcandidate => exact kept_dropped hshared hown hcandidate
    | headLoaded candidate head first hpoint => exact kept_headLoaded hshared hown hpoint
    | relinked candidate head head' first page hpoint hpage =>
      exact kept_relinked hshared hown hpoint hpage
    | pushed candidate first page hpoint hpage => exact kept_pushed hshared hown hpoint hpage
    | countedBytes candidate first page hpoint hpage => exact kept_countedBytes hshared hown hpoint
    | countedPage candidate first hpoint => exact kept_countedPage hshared hown hpoint
    | reserved address page block hpoint hpage hcarve =>
      exact kept_reserved hshared hown hpoint hpage (hfits address page hpoint hpage) hcarve
    | exhausted address page hpoint hpage =>
      exact kept_exhausted hshared hown hpoint hpage (hfits address page hpoint hpage)

end ByteArena
end ServerEngine

import ServerEngine.Storage.ArenaSafety

/-! # Runs of the byte arena

No page is lost and every page is counted once: what the owned pages and the calls hold together. Then
the arena after any interleaving in which no counter of a page wraps, and the one that wraps.
-/
namespace ServerEngine
open Interleaving Chains

namespace ByteArena
variable {exponent : Nat} {m m' : Arena} {c c' : Call}

/-! ## What is still to count -/

def capacityOf (m : Arena) (p : Nat) : Nat :=
  match m.heap p with
  | none => 0
  | some page => page.capacity

def uncountedBytes (m : Arena) (c : Call) : Nat :=
  match c.point with
  | .addBytes candidate _ => capacityOf m candidate
  | _ => 0

def uncountedPages (c : Call) : Nat :=
  match c.counting with
  | none => 0
  | some _ => 1

def linkedBytes (m : Arena) : Option Nat → Nat
  | none => 0
  | some p => capacityOf m p

/-- What a step does to the pages that calls hold, and to the counters. -/
structure Change (m : Arena) (c : Call) (m' : Arena) (c' : Call) (gone pushed published : Option Nat) :
    Prop where
  keeps : Keeps m m' gone pushed published
  dropped : ∀ p, gone = some p → c.pending = some p ∧ c.counting = none ∧ m'.heap p = none
  handed : ∀ p, c.pending = some p → c'.pending = some p ∨ pushed = some p ∨ gone = some p
  fresh : ∀ p page, m'.heap p = some page → (∃ page, m.heap p = some page) ∨ c'.pending = some p
  linked : ∀ p, pushed = some p → c.pending = some p
  bytes : (m'.reservedBytes + uncountedBytes m' c') % sizeCount =
    (m.reservedBytes + uncountedBytes m c + linkedBytes m pushed) % sizeCount
  pages : (m'.reservedPages + uncountedPages c') % sizeCount =
    (m.reservedPages + uncountedPages c + (if pushed = none then 0 else 1)) % sizeCount

theorem Change.same (hcandidate : c'.pending = c.pending) (hbytes : uncountedBytes m c' = uncountedBytes m c)
    (hpages : uncountedPages c' = uncountedPages c) : Change m c m c' none none none where
  keeps := Keeps.same rfl rfl rfl
  dropped p h := by cases h
  handed p h := .inl (by rw [hcandidate, h])
  fresh p page h := .inl ⟨page, h⟩
  linked p h := by cases h
  bytes := by rw [hbytes]; rfl
  pages := by rw [hpages]; rfl

variable {p : Nat}

theorem candidate_quiet (h : c.candidate = some p) :
    c.counting = none ∧ uncountedBytes m c = 0 ∧ uncountedPages c = 0 := by
  unfold Call.candidate at h
  unfold uncountedBytes uncountedPages Call.counting
  split at h <;> simp_all

variable {old : Page}

theorem setPage_fresh {page : Page} (hold : m.heap p = some old) :
    ∀ q new, (m.setPage p (some page)).heap q = some new → ∃ page, m.heap q = some page := by
  intro q new hnew
  by_cases hq : q = p
  · exact ⟨old, by rw [hq, hold]⟩
  · rw [setPage_other m _ hq] at hnew
    exact ⟨new, hnew⟩

theorem Change.page {page : Page} (hold : m.heap p = some old)
    (hkeeps : Keeps m (m.setPage p (some page)) none none none)
    (hpending : c'.pending = c.pending) (hcounting : c.counting = none)
    (hcounting' : c'.counting = none) (hbytes : uncountedBytes m c = 0)
    (hbytes' : uncountedBytes (m.setPage p (some page)) c' = 0) :
    Change m c (m.setPage p (some page)) c' none none none where
  keeps := hkeeps
  dropped p h := by cases h
  handed p h := .inl (by rw [hpending, h])
  fresh q new hnew := .inl (setPage_fresh hold q new hnew)
  linked p h := by cases h
  bytes := by
    rw [hbytes, hbytes']
    rfl
  pages := by
    rw [uncountedPages, uncountedPages, hcounting, hcounting']
    rfl

theorem effect_change (hshared : Shared exponent m) (hown : Own exponent m c)
    (h : Effect exponent m c m' c')
    (hfits : ∀ address page, c.point = .reserve address → m.heap address = some page →
      page.used + c.reservation < sizeCount) :
    ∃ gone pushed published, Change m c m' c' gone pushed published := by
  cases h with
  | stays => exact ⟨none, none, none, Change.same rfl rfl rfl⟩
  | lookedNone hpoint =>
    refine ⟨none, none, none, Change.same ?_ ?_ ?_⟩ <;>
      simp [Call.pending, uncountedBytes, uncountedPages, Call.counting, Call.goto, hpoint]
  | looked page hpoint hpage =>
    refine ⟨none, none, none, Change.same ?_ ?_ ?_⟩ <;>
      simp [Call.pending, uncountedBytes, uncountedPages, Call.counting, Call.goto, hpoint]
  | refused hpoint =>
    refine ⟨none, none, none, Change.same ?_ ?_ ?_⟩ <;> obtain hpoint | ⟨page, hpoint⟩ := hpoint <;>
      simp [Call.pending, uncountedBytes, uncountedPages, Call.counting, Call.fail, Call.goto, hpoint]
  | headLoaded candidate head first hpoint =>
    refine ⟨none, none, none, Change.same ?_ ?_ ?_⟩ <;>
      simp [Call.pending, uncountedBytes, uncountedPages, Call.counting, Call.goto, hpoint]
  | made address data point hpoint hgranted =>
    have hquiet : c.pending = none ∧ c.counting = none ∧ uncountedBytes m c = 0 := by
      obtain ⟨heq, -⟩ | ⟨page, heq, -⟩ := hpoint <;>
        simp [Call.pending, Call.counting, uncountedBytes, heq]
    have hnew : (c.goto point).pending = some address ∧ (c.goto point).counting = none ∧
        ∀ m, uncountedBytes m (c.goto point) = 0 := by
      obtain ⟨-, rfl⟩ | ⟨page, -, rfl⟩ := hpoint <;>
        simp [Call.pending, Call.counting, uncountedBytes, Call.goto]
    refine ⟨none, none, none, (hshared.made hgranted (Nat.le_max_left _ _)).2, ?_, ?_, ?_, ?_, ?_, ?_⟩
    · intro p hp
      cases hp
    · intro p hp
      rw [hquiet.1] at hp
      cases hp
    · intro p page hpage
      by_cases hp : p = address
      · exact .inr (by rw [hp, hnew.1])
      · rw [setPage_other m _ hp] at hpage
        exact .inl ⟨page, hpage⟩
    · intro p hp
      cases hp
    · rw [hquiet.2.2, hnew.2.2]
      rfl
    · rw [uncountedPages, uncountedPages, hquiet.2.1, hnew.2.1]
      rfl
  | published candidate first hcandidate =>
    obtain ⟨-, hbytes, hpages⟩ := candidate_quiet (m := m) hcandidate
    have hpending := Call.candidate_pending hcandidate
    obtain ⟨page, hpage⟩ := hown.live candidate (Call.pending_mentions hpending)
    refine ⟨none, none, some candidate, (hshared.published hpage).2, ?_, ?_, ?_, ?_, ?_, ?_⟩
    · intro p hp
      cases hp
    · intro p hp
      rw [hpending] at hp
      exact .inl hp
    · intro p page hpage
      exact .inl ⟨page, hpage⟩
    · intro p hp
      cases hp
    · rw [hbytes]
      rfl
    · rw [hpages]
      rfl
  | dropped candidate hcandidate =>
    obtain ⟨hcounting, hbytes, hpages⟩ := candidate_quiet (m := m) hcandidate
    have hpending := Call.candidate_pending hcandidate
    refine ⟨some candidate, none, none, (hshared.dropped (hown.unowned candidate hpending)
      (hown.hidden candidate hcandidate)).2, ?_, ?_, ?_, ?_, ?_, ?_⟩
    · intro p hp
      cases hp
      exact ⟨hpending, hcounting, setPage_same m _ _⟩
    · intro p hp
      rw [hpending] at hp
      exact .inr (.inr hp)
    · intro p page hpage
      by_cases hp : p = candidate
      · rw [hp, setPage_same] at hpage
        cases hpage
      · rw [setPage_other m _ hp] at hpage
        exact .inl ⟨page, hpage⟩
    · intro p hp
      cases hp
    · rw [hbytes]
      rfl
    · rw [hpages]
      rfl
  | relinked candidate head head' first page hpoint hpage =>
    have hpending : c.pending = some candidate := by rw [Call.pending, hpoint]
    have hunowned := hown.unowned candidate hpending
    have hkeeps := (hshared.changed { page with nextOwned := head } hpage rfl rfl (Nat.le_refl _)
      fun pages hpages => owned_setPage hpages (hunowned pages hpages)).2
    refine ⟨none, none, none, Change.page hpage hkeeps ?_ ?_ ?_ ?_ ?_⟩ <;>
      simp [Call.pending, Call.counting, uncountedBytes, Call.goto, hpoint]
  | pushed candidate first page hpoint hpage =>
    have hpending : c.pending = some candidate := by rw [Call.pending, hpoint]
    have hquiet : c.counting = none ∧ uncountedBytes m c = 0 := by
      simp [Call.counting, uncountedBytes, hpoint]
    refine ⟨none, some candidate, none, (hshared.pushed hpage (hown.unowned candidate hpending)).2,
      ?_, ?_, ?_, ?_, ?_, ?_⟩
    · intro p hp
      cases hp
    · intro p hp
      rw [hpending] at hp
      exact .inr (.inl hp)
    · intro p new hnew
      exact .inl (setPage_fresh hpage p new hnew)
    · intro p hp
      cases hp
      exact hpending
    · have hcapacity : uncountedBytes { m.setPage candidate
          (some { page with nextOwned := m.ownedPages }) with ownedPages := some candidate }
          (c.goto (.addBytes candidate first)) = page.capacity := by
        simp [uncountedBytes, Call.goto, capacityOf, setPage_same]
      rw [hcapacity, hquiet.2, linkedBytes, capacityOf, hpage]
      rfl
    · rw [uncountedPages, uncountedPages, hquiet.1]
      rfl
  | countedBytes candidate first page hpoint hpage =>
    refine ⟨none, none, none, Keeps.same rfl rfl rfl, ?_, ?_, ?_, ?_, ?_, ?_⟩
    · intro p hp
      cases hp
    · intro p hp
      rw [Call.pending, hpoint] at hp
      cases hp
    · intro p new hnew
      exact .inl ⟨new, hnew⟩
    · intro p hp
      cases hp
    · have hbytes : uncountedBytes m c = page.capacity := by
        rw [uncountedBytes, hpoint]
        dsimp only
        rw [capacityOf, hpage]
      rw [hbytes]
      exact Nat.mod_mod _ _
    · rw [uncountedPages, uncountedPages, Call.counting, Call.counting, hpoint]
      rfl
  | countedPage candidate first hpoint =>
    have hquiet : uncountedBytes m c = 0 ∧ uncountedPages c = 1 := by
      simp [uncountedBytes, uncountedPages, Call.counting, hpoint]
    have hnew : ∀ m, uncountedBytes m (c.goto (if first then .reserve candidate else .loadCurrent)) =
        0 := by
      intro m
      cases first <;> rfl
    have hnone : uncountedPages (c.goto (if first then .reserve candidate else .loadCurrent)) = 0 := by
      cases first <;> rfl
    refine ⟨none, none, none, Keeps.same rfl rfl rfl, ?_, ?_, ?_, ?_, ?_, ?_⟩
    · intro p hp
      cases hp
    · intro p hp
      rw [Call.pending, hpoint] at hp
      cases hp
    · intro p new hnew
      exact .inl ⟨new, hnew⟩
    · intro p hp
      cases hp
    · rw [hquiet.1, hnew]
      rfl
    · show ((m.reservedPages + 1) % sizeCount + uncountedPages _) % sizeCount = _
      rw [hquiet.2, hnone, if_pos rfl, Nat.add_zero, Nat.add_zero, Nat.mod_mod]
  | reserved address page block hpoint hpage hcarve =>
    have hkeeps := (hshared.bumped hpage (hfits address page hpoint hpage)).2
    refine ⟨none, none, none, Change.page hpage hkeeps ?_ ?_ ?_ ?_ ?_⟩ <;>
      simp [Call.pending, Call.counting, uncountedBytes, Call.goto, hpoint]
  | exhausted address page hpoint hpage =>
    have hkeeps := (hshared.bumped hpage (hfits address page hpoint hpage)).2
    refine ⟨none, none, none, Change.page hpage hkeeps ?_ ?_ ?_ ?_ ?_⟩ <;>
      simp [Call.pending, Call.counting, uncountedBytes, Call.goto, hpoint]

/-! ## The balance -/

variable {gone pushed published : Option Nat}

theorem capacityOf_keeps (h : Keeps m m' gone pushed published) {page : Page}
    (hpage : m.heap p = some page) (hstays : gone ≠ some p) : capacityOf m' p = capacityOf m p := by
  obtain ⟨page', hpage', -, hcapacity, -⟩ := h.pages p page hpage hstays
  rw [capacityOf, capacityOf, hpage, hpage']
  exact hcapacity

variable {pages pages' : List Nat}

theorem owned_perm (hshared : Shared exponent m) (hshared' : Shared exponent m')
    (hown : Own exponent m c) (h : Change m c m' c' gone pushed published)
    (hpages : Owned m pages) (hpages' : Owned m' pages') :
    List.Perm pages' (pushed.toList ++ pages) := by
  have hnodup : pages.Nodup := by
    obtain ⟨others, hothers, hnodup⟩ := hshared.owned
    rwa [hpages.unique hothers]
  have hnodup' : pages'.Nodup := by
    obtain ⟨others, hothers, hnodup⟩ := hshared'.owned
    rwa [hpages'.unique hothers]
  obtain ⟨others, hothers, hsame⟩ := h.keeps.owned pages' hpages'
  obtain rfl : pages = others := hpages.unique hothers
  cases pushed with
  | none =>
    apply (List.perm_ext_iff_of_nodup hnodup' hnodup).mpr
    intro q
    simpa using hsame q
  | some p =>
    have hnew := hown.unowned p (h.linked p rfl) pages hpages
    apply (List.perm_ext_iff_of_nodup hnodup' (List.nodup_cons.mpr ⟨hnew, hnodup⟩)).mpr
    intro q
    rw [hsame q, List.mem_cons, or_comm, Option.some.injEq, eq_comm]

/-- No page is lost, and what is counted or still to be counted are the owned pages. -/
structure Balanced (m : Arena) (calls : List Call) : Prop where
  kept : ∀ p page, m.heap p = some page → (∀ pages, Owned m pages → p ∈ pages) ∨
    ∃ c ∈ calls, c.pending = some p
  bytes : ∀ pages, Owned m pages →
    (m.reservedBytes + (calls.map (uncountedBytes m)).sum) % sizeCount =
      (pages.map (capacityOf m)).sum % sizeCount
  pages : ∀ pages, Owned m pages →
    (m.reservedPages + (calls.map uncountedPages).sum) % sizeCount = pages.length % sizeCount

variable {calls : List Call}

theorem Balanced.opened (h : Balanced m calls) (hopens : Opens exponent c) :
    Balanced m (calls ++ [c]) := by
  have hquiet : uncountedBytes m c = 0 ∧ uncountedPages c = 0 := by
    obtain ⟨size, alignment, -, halignment, rfl⟩ := hopens
    obtain ⟨code, hstart⟩ | ⟨hstart, -⟩ := start_asked size halignment <;> rw [hstart] <;>
      exact ⟨rfl, rfl⟩
  refine ⟨?_, ?_, ?_⟩
  · intro p page hpage
    obtain howned | ⟨c', hc', hpending⟩ := h.kept p page hpage
    · exact .inl howned
    · exact .inr ⟨c', List.mem_append_left _ hc', hpending⟩
  · intro pages hpages
    rw [sum_append_single, hquiet.1, Nat.add_zero]
    exact h.bytes pages hpages
  · intro pages hpages
    rw [sum_append_single, hquiet.2, Nat.add_zero]
    exact h.pages pages hpages

theorem uncountedBytes_keeps {other : Call} (h : Change m c m' c' gone pushed published)
    (hown : Own exponent m other) (hcounting : ∀ p, gone = some p → other.counting ≠ some p) :
    uncountedBytes m' other = uncountedBytes m other := by
  unfold uncountedBytes
  split
  · rename_i candidate first hpoint
    have hcount : other.counting = some candidate := by rw [Call.counting, hpoint]
    obtain ⟨page, hpage⟩ := hown.live candidate (Call.counting_mentions hcount)
    exact capacityOf_keeps h.keeps hpage fun hgone => hcounting candidate hgone hcount
  · rfl

theorem Balanced.kept_after {k : Nat} (h : Balanced m calls) (hk : calls[k]? = some c)
    (hchange : Change m c m' c' gone pushed published) {page : Page}
    (hpage : m'.heap p = some page) :
    (∀ pages, Owned m' pages → p ∈ pages) ∨ ∃ c'' ∈ calls.set k c', c''.pending = some p := by
  have hlt := (List.getElem?_eq_some_iff.mp hk).1
  have hnew : c' ∈ calls.set k c' := List.mem_set hlt c'
  obtain ⟨old, hold⟩ | hpending := hchange.fresh p page hpage
  · obtain howned | ⟨d, hd, hpending⟩ := h.kept p old hold
    · refine .inl fun pages' hpages' => ?_
      obtain ⟨pages, hpages, hsame⟩ := hchange.keeps.owned pages' hpages'
      exact (hsame p).mpr (.inl (howned pages hpages))
    · obtain ⟨i, hi⟩ := List.getElem?_of_mem hd
      by_cases hik : i = k
      · rw [hik, hk] at hi
        cases hi
        obtain hsame | hpushed | hgone := hchange.handed p hpending
        · exact .inr ⟨c', hnew, hsame⟩
        · refine .inl fun pages' hpages' => ?_
          obtain ⟨pages, hpages, hsame⟩ := hchange.keeps.owned pages' hpages'
          exact (hsame p).mpr (.inr hpushed)
        · rw [(hchange.dropped p hgone).2.2] at hpage
          cases hpage
      · refine .inr ⟨d, ?_, hpending⟩
        apply List.mem_of_getElem?
        rw [List.getElem?_set_ne (Ne.symm hik)]
        exact hi
  · exact .inr ⟨c', hnew, hpending⟩

theorem owned_bytes (hshared : Shared exponent m) (hshared' : Shared exponent m')
    (hown : Own exponent m c) (h : Change m c m' c' gone pushed published)
    (hpages : Owned m pages) (hpages' : Owned m' pages') :
    (pages'.map (capacityOf m')).sum = linkedBytes m pushed + (pages.map (capacityOf m)).sum := by
  have hperm := owned_perm hshared hshared' hown h hpages hpages'
  have hkept : ∀ p ∈ pages, capacityOf m' p = capacityOf m p := by
    intro p hp
    obtain ⟨page, hpage⟩ := hpages.live hp
    apply capacityOf_keeps h.keeps hpage
    intro hgone
    exact hown.unowned p (h.dropped p hgone).1 pages hpages hp
  rw [(hperm.map _).sum_eq, List.map_append, List.sum_append, List.map_congr_left hkept]
  cases pushed with
  | none => rfl
  | some p =>
    obtain ⟨page, hpage⟩ := hown.live p (Call.pending_mentions (h.linked p rfl))
    have hmem : p ∈ pages' := hperm.mem_iff.mpr (List.mem_append_left _ List.mem_cons_self)
    have hsame : capacityOf m' p = capacityOf m p := by
      apply capacityOf_keeps h.keeps hpage
      intro hgone
      obtain ⟨new, hnew⟩ := hpages'.live hmem
      rw [(h.dropped p hgone).2.2] at hnew
      cases hnew
    simp [linkedBytes, hsame]

theorem Balanced.advanced {calls : List Call} {k : Nat} {gone pushed published : Option Nat}
    (h : Balanced m calls) (hholds : Interleaving.Holds (Shared exponent) (Own exponent) Apart ⟨m, calls⟩)
    (hshared' : Shared exponent m') (hk : calls[k]? = some c)
    (hchange : Change m c m' c' gone pushed published) : Balanced m' (calls.set k c') := by
  have hown : Own exponent m c := hholds.own k c hk
  have hshared : Shared exponent m := hholds.shared
  obtain ⟨pages, hpages, -⟩ := hshared.owned
  have hother : ∀ other ∈ calls, uncountedBytes m' other = uncountedBytes m other := by
    intro other hmem
    obtain ⟨i, hi⟩ := List.getElem?_of_mem hmem
    apply uncountedBytes_keeps hchange (hholds.own i other hi)
    intro p hgone hcounting
    exact hown.unowned p (hchange.dropped p hgone).1 pages hpages
      ((hholds.own i other hi).linked p hcounting pages hpages)
  refine ⟨fun p page hpage => h.kept_after hk hchange hpage, ?_, ?_⟩
  · intro pages' hpages'
    have hsum := sum_set (uncountedBytes m') hk c'
    rw [List.map_congr_left hother, hother c (List.mem_of_getElem? hk)] at hsum
    have hbefore := h.bytes pages hpages
    have hstep := hchange.bytes
    rw [owned_bytes hshared hshared' hown hchange hpages hpages']
    unfold sizeCount at hbefore hstep ⊢
    omega
  · intro pages' hpages'
    have hsum := sum_set uncountedPages hk c'
    have hbefore := h.pages pages hpages
    have hstep := hchange.pages
    have hlength := (owned_perm hshared hshared' hown hchange hpages hpages').length_eq
    have hpushed : pushed.toList.length = if pushed = none then 0 else 1 := by
      cases pushed <;> rfl
    rw [List.length_append, hpushed] at hlength
    unfold sizeCount at hbefore hstep ⊢
    omega

theorem effect_small (h : Effect exponent m c m' c')
    (hsmall : m.reservedBytes < sizeCount ∧ m.reservedPages < sizeCount) :
    m'.reservedBytes < sizeCount ∧ m'.reservedPages < sizeCount := by
  have hpos : 0 < sizeCount := by decide
  cases h with
  | countedBytes => exact ⟨Nat.mod_lt _ hpos, hsmall.2⟩
  | countedPage => exact ⟨hsmall.1, Nat.mod_lt _ hpos⟩
  | _ => exact hsmall

def Careful (exponent : Nat) (m : Arena) (c : Call) (m' : Arena) (c' : Call) : Prop :=
  Advance exponent m c m' c' ∧ ¬Wraps m c

structure Invariant (exponent : Nat) (config : Config Arena Call) : Prop where
  holds : Interleaving.Holds (Shared exponent) (Own exponent) Apart config
  balanced : Balanced config.memory config.calls
  small : config.memory.reservedBytes < sizeCount ∧ config.memory.reservedPages < sizeCount

theorem shared_start (exponent : Nat) : Shared exponent {} where
  owned := ⟨[], rfl, List.nodup_nil⟩
  current p h := by cases h
  apart p q a b _ h := by cases h
  sane p page h := by cases h

variable {config : Config Arena Call}

theorem invariant (h : Reachable (Opens exponent) (Careful exponent) {} config) :
    Invariant exponent config := by
  apply h.invariant
  · have hnil : Owned {} [] := rfl
    refine ⟨⟨shared_start exponent, by simp, by simp⟩, ⟨?_, ?_, ?_⟩, by decide⟩
    · intro p page hpage
      cases hpage
    · intro pages hpages
      rw [hpages.unique hnil]
      rfl
    · intro pages hpages
      rw [hpages.unique hnil]
      rfl
  · intro m calls c hinv hopens
    exact ⟨hinv.holds.opened (preserves exponent) hopens, hinv.balanced.opened hopens, hinv.small⟩
  · intro m m' calls c c' k hinv hk hstep
    have hholds' := hinv.holds.advanced (preserves exponent) hk hstep
    have heffect := advance_effect hstep.1
    obtain ⟨gone, pushed, published, hchange⟩ := effect_change hinv.holds.shared
      (hinv.holds.own k c hk) heffect fun address page hpoint hpage =>
        Nat.lt_of_not_le fun hle => hstep.2 ⟨address, page, hpoint, hpage, hle⟩
    exact ⟨hholds', hinv.balanced.advanced hinv.holds hholds'.shared hk hchange,
      effect_small heffect hinv.small⟩

/-! ## What callers are promised -/

/-- The blocks of successful calls, the pages and the counters are as they should be. -/
structure Safe (config : Config Arena Call) : Prop where
  disjoint : ∀ (i j : Nat) (a b : Call) (x y : Block), i ≠ j → config.calls[i]? = some a →
    config.calls[j]? = some b → a.output = some x → b.output = some y →
      x.address + x.size ≤ y.address ∨ y.address + y.size ≤ x.address
  inside : ∀ c ∈ config.calls, ∀ x, c.output = some x → ∃ page,
    config.memory.heap x.page = some page ∧ page.data ≤ x.address ∧
      x.address + x.size ≤ page.data + page.capacity
  asked : ∀ c ∈ config.calls, ∀ x, c.output = some x → x.size = c.size ∧ c.alignment ∣ x.address
  failed : ∀ c ∈ config.calls, ∀ failure output, c.point = .returned failure output →
    (failure = none ↔ output ≠ none)
  owned : ∃ pages, Owned config.memory pages ∧ pages.Nodup ∧
    (∀ p page, config.memory.heap p = some page →
      p ∈ pages ∨ ∃ c ∈ config.calls, c.pending = some p) ∧
    (∀ c ∈ config.calls, ∀ p, c.pending = some p → p ∉ pages) ∧
    ∀ (i j : Nat) (a b : Call) (p : Nat), i ≠ j → config.calls[i]? = some a →
      config.calls[j]? = some b → a.pending = some p → b.pending ≠ some p
  settled : (∀ c ∈ config.calls, ∃ failure output, c.point = .returned failure output) →
    ∃ pages, Owned config.memory pages ∧ pages.Nodup ∧
      (∀ p, p ∈ pages ↔ ∃ page, config.memory.heap p = some page) ∧
      config.memory.reservedBytes = (pages.map (capacityOf config.memory)).sum ∧
      config.memory.reservedPages = pages.length

theorem owned_small (hshared : Shared exponent m) (hpages : Owned m pages) (hnodup : pages.Nodup) :
    (pages.map (capacityOf m)).sum < sizeCount ∧ pages.length < sizeCount := by
  have hpage : ∀ p ∈ pages, ∃ page, m.heap p = some page := fun p hp => hpages.live hp
  have hsum : (pages.map (capacityOf m)).sum < sizeCount := by
    apply sum_lt_of_disjoint (fun p => ((m.heap p).map Page.data).getD 0) (capacityOf m) (by decide)
    · intro p hp
      obtain ⟨page, hp⟩ := hpage p hp
      obtain ⟨hpos, hend, -⟩ := hshared.sane p page hp
      simp only [hp, capacityOf, Option.map_some, Option.getD_some]
      exact ⟨hpos, hend⟩
    · apply hnodup.pairwise_of_forall_ne
      intro p hp q hq hne
      obtain ⟨a, ha⟩ := hpage p hp
      obtain ⟨b, hb⟩ := hpage q hq
      simp only [ha, hb, capacityOf, Option.map_some, Option.getD_some]
      exact hshared.apart p q a b hne ha hb
  refine ⟨hsum, ?_⟩
  have hle := List.length_le_sum_of_one_le (pages.map (capacityOf m)) (by
    intro size hsize
    obtain ⟨p, hp, rfl⟩ := List.mem_map.mp hsize
    obtain ⟨page, hp⟩ := hpage p hp
    have hcapacity := (hshared.sane p page hp).2.2.2
    simp only [hp, capacityOf]
    unfold defaultPageSize at hcapacity
    omega)
  rw [List.length_map] at hle
  omega

theorem Invariant.settled (h : Invariant exponent config)
    (hreturned : ∀ c ∈ config.calls, ∃ failure output, c.point = .returned failure output) :
    ∃ pages, Owned config.memory pages ∧ pages.Nodup ∧
      (∀ p, p ∈ pages ↔ ∃ page, config.memory.heap p = some page) ∧
      config.memory.reservedBytes = (pages.map (capacityOf config.memory)).sum ∧
      config.memory.reservedPages = pages.length := by
  obtain ⟨pages, hpages, hnodup⟩ := h.holds.shared.owned
  obtain ⟨hbytesFit, hpagesFit⟩ := owned_small h.holds.shared hpages hnodup
  have hbytes := h.balanced.bytes pages hpages
  have hcount := h.balanced.pages pages hpages
  have hnone : (config.calls.map (uncountedBytes config.memory)).sum = 0 ∧
      (config.calls.map uncountedPages).sum = 0 := by
    constructor
    all_goals
      apply List.sum_eq_zero
      intro size hsize
      obtain ⟨c, hc, rfl⟩ := List.mem_map.mp hsize
      obtain ⟨failure, output, hpoint⟩ := hreturned c hc
      simp [uncountedBytes, uncountedPages, Call.counting, hpoint]
  refine ⟨pages, hpages, hnodup, fun p => ⟨fun hp => hpages.live hp, ?_⟩, ?_, ?_⟩
  · intro hlive
    obtain ⟨page, hpage⟩ := hlive
    obtain howned | ⟨c, hc, hpending⟩ := h.balanced.kept p page hpage
    · exact howned pages hpages
    · obtain ⟨failure, output, hpoint⟩ := hreturned c hc
      rw [Call.pending, hpoint] at hpending
      cases hpending
  · rw [hnone.1, Nat.add_zero, Nat.mod_eq_of_lt h.small.1, Nat.mod_eq_of_lt hbytesFit] at hbytes
    exact hbytes
  · rw [hnone.2, Nat.add_zero, Nat.mod_eq_of_lt h.small.2, Nat.mod_eq_of_lt hpagesFit] at hcount
    exact hcount

theorem Invariant.safe (h : Invariant exponent config) : Safe config where
  disjoint i j a b x y hij ha hb hx hy := by
    obtain ⟨page, hpage, haddress, hinside, -⟩ := (h.holds.own i a ha).placed x hx
    obtain ⟨page', hpage', haddress', hinside', -⟩ := (h.holds.own j b hb).placed y hy
    by_cases hsame : x.page = y.page
    · rw [hsame, hpage'] at hpage
      cases hpage
      have hblocks := (h.holds.apart i j a b hij ha hb).blocks x y hx hy hsame
      omega
    · have hpages := h.holds.shared.apart _ _ page page' hsame hpage hpage'
      omega
  inside c hc x hx := by
    obtain ⟨i, hi⟩ := List.getElem?_of_mem hc
    obtain ⟨page, hpage, haddress, hinside, -⟩ := (h.holds.own i c hi).placed x hx
    exact ⟨page, hpage, by omega, by omega⟩
  asked c hc x hx := by
    obtain ⟨i, hi⟩ := List.getElem?_of_mem hc
    obtain ⟨-, -, -, -, -, hsize, haligned⟩ := (h.holds.own i c hi).placed x hx
    exact ⟨hsize, haligned⟩
  failed c hc := by
    obtain ⟨i, hi⟩ := List.getElem?_of_mem hc
    exact (h.holds.own i c hi).result
  owned := by
    obtain ⟨pages, hpages, hnodup⟩ := h.holds.shared.owned
    refine ⟨pages, hpages, hnodup, fun p page hpage => ?_, fun c hc p hp => ?_,
      fun i j a b p hij ha hb => (h.holds.apart i j a b hij ha hb).pending p⟩
    · obtain howned | hpending := h.balanced.kept p page hpage
      · exact .inl (howned pages hpages)
      · exact .inr hpending
    · obtain ⟨i, hi⟩ := List.getElem?_of_mem hc
      exact (h.holds.own i c hi).unowned p hp pages hpages
  settled := h.settled

def drive : List Answer → Arena → Call → Arena × Call
  | [], m, c => (m, c)
  | answer :: rest, m, c => drive rest (next m c answer).1 (next m c answer).2

def Driven (exponent : Nat) (keep : Arena → Call → Prop) : List Answer → Arena → Call → Prop
  | [], _, _ => True
  | answer :: rest, m, c => Honest exponent m c answer ∧ keep m c ∧
      Driven exponent keep rest (next m c answer).1 (next m c answer).2

variable {advance : Arena → Call → Arena → Call → Prop} {keep : Arena → Call → Prop}

theorem drive_reachable {opens : Call → Prop}
    (hadvance : ∀ m c answer, Honest exponent m c answer → keep m c → advance m c (next m c answer).1 (next m c answer).2)
    {start : Arena} (calls : List Call) (answers : List Answer) (m : Arena) (c : Call)
    (h : Reachable opens advance start ⟨m, calls ++ [c]⟩)
    (hdriven : Driven exponent keep answers m c) :
    Reachable opens advance start ⟨(drive answers m c).1, calls ++ [(drive answers m c).2]⟩ := by
  induction answers generalizing m c with
  | nil => exact h
  | cons answer rest ih =>
    obtain ⟨hhonest, hkeep, hrest⟩ := hdriven
    exact ih _ _ (h.last (hadvance m c answer hhonest hkeep)) hrest

theorem honest_silent (m : Arena) (c : Call) (spurious : Bool) :
    Honest exponent m c ⟨none, spurious⟩ := by
  intro address data h
  cases h

theorem honest_first {c : Call} {address data : Nat} (hpos : 0 < data)
    (hend : data + c.pageCapacity ≤ sizeCount) (haligned : 2 ^ exponent ∣ data) :
    Honest exponent {} c ⟨some (address, data), false⟩ := by
  intro address' data' h
  cases h
  exact ⟨rfl, hpos, hend, haligned, fun p page hpage => by cases hpage⟩

def firstAnswers : List Answer :=
  [{}, { page := some (1, 4096) }, {}, {}, {}, {}, {}, {}]

theorem first_driven (hkeep : ∀ m c, (∀ p, c.point ≠ .reserve p) → keep m c)
    (hreserve : keep (drive (firstAnswers.take 7) {} (.start 16 1)).1 (drive (firstAnswers.take 7) {} (.start 16 1)).2) :
    Driven 4 keep firstAnswers {} (.start 16 1) := by
  have hstart : Call.start 16 1 = ⟨16, 1, .loadCurrent⟩ := by decide
  refine ⟨honest_silent _ _ _, hkeep _ _ (fun p h => by cases h), honest_first (by decide) (by decide)
    (by decide), hkeep _ _ (fun p h => by cases h), honest_silent _ _ _, hkeep _ _ (fun p h => by cases h),
    honest_silent _ _ _, hkeep _ _ (fun p h => by cases h), honest_silent _ _ _,
    hkeep _ _ (fun p h => by cases h), honest_silent _ _ _, hkeep _ _ (fun p h => by cases h),
    honest_silent _ _ _, hkeep _ _ (fun p h => by cases h), honest_silent _ _ _, hreserve, trivial⟩

def firstRun : Arena × Call := drive firstAnswers {} (.start 16 1)

theorem opens_start {size : Nat} (h : size ≤ sizeMax) : Opens 4 (.start size 1) :=
  ⟨size, 1, h, by decide, rfl⟩

theorem first_reachable (keep : Arena → Call → Prop)
    (hadvance : ∀ m c answer, Honest 4 m c answer → keep m c → advance m c (next m c answer).1 (next m c answer).2)
    (hdriven : Driven 4 keep firstAnswers {} (.start 16 1)) :
    Reachable (Opens 4) advance {} ⟨firstRun.1, [firstRun.2]⟩ :=
  drive_reachable hadvance [] firstAnswers {} (.start 16 1)
    (Reachable.initial.opened (opens_start (by decide))) hdriven

def overlappingRun : Config Arena Call :=
  let second := drive [{}, {}, {}] firstRun.1 (.start 18446744073709551606 1)
  let third := drive [{}, {}] second.1 (.start 16 1)
  ⟨third.1, [firstRun.2, second.2, third.2]⟩

theorem silent_driven (answers : List Answer) (h : ∀ answer ∈ answers, answer.page = none) (m : Arena)
    (c : Call) : Driven 4 (fun _ _ => True) answers m c := by
  induction answers generalizing m c with
  | nil => trivial
  | cons answer rest ih =>
    refine ⟨?_, trivial, ih (fun a ha => h a (List.mem_cons_of_mem _ ha)) _ _⟩
    intro address data heq
    rw [h answer List.mem_cons_self] at heq
    cases heq

end ByteArena
end ServerEngine

import ServerEngine.Persistence.Commit

/-! # What an operation touches

Each operation changes entries of an area of paths only, keeps the volume well formed, and never
changes the bytes of a flushed file of a transaction.
-/
namespace ServerEngine
open Programs

variable {v v' v'' : StoreVolume} {path : StorePath}

namespace StoreVolume

/-- Files are numbered, entries have their directories, and a temporary selector is linked once. -/
structure Sound (v : StoreVolume) : Prop where
  numbered : ∀ path id, v.entries path = some (.file id) → id < v.next
  parents : ∀ path, v.entries path ≠ none → v.HasParent path
  temps : ∀ number id path, v.entries (.selectorTemp number) = some (.file id) →
    v.entries path = some (.file id) → path = .selectorTemp number

structure Same (v v' : StoreVolume) (path : StorePath) : Prop where
  entry : v'.entries path = v.entries path
  read : v'.read path = v.read path

structure Changed (area : StorePath → Prop) (v v' : StoreVolume) : Prop where
  sound : v'.Sound
  same : ∀ path, ¬area path → v.Same v' path
  files : ∀ path node, path.inside ≠ none → v.read path = some node → node.flushed = true →
    v'.read path = some node ∨ v'.read path = none

def Touches (area : StorePath → Prop) (v v' : StoreVolume) : Prop := v.Sound → Changed area v v'

theorem Same.rfl : v.Same v path := ⟨Eq.refl _, Eq.refl _⟩

theorem Same.trans (h : v.Same v' path) (h' : v'.Same v'' path) : v.Same v'' path :=
  ⟨h'.entry.trans h.entry, h'.read.trans h.read⟩

theorem read_eq_some {node : FileNode} :
    v.read path = some node ↔ ∃ id, v.entries path = some (.file id) ∧ v.nodes id = node := by
  unfold read
  constructor
  · intro h
    split at h
    · rename_i id hentry
      exact ⟨id, hentry, Option.some.inj h⟩
    · cases h
  · intro h
    obtain ⟨id, hentry, rfl⟩ := h
    rw [hentry]

theorem read_of_none (h : v.entries path = none) : v.read path = none := by
  unfold read
  rw [h]

theorem same_of_nodes (hentry : v'.entries path = v.entries path)
    (hnodes : ∀ id, v.entries path = some (.file id) → v'.nodes id = v.nodes id) :
    v.Same v' path := by
  refine ⟨hentry, ?_⟩
  unfold read
  rw [hentry]
  split
  · rename_i id hid
    rw [hnodes id hid]
  · rfl

theorem Changed.refl (h : v.Sound) (area : StorePath → Prop) : Changed area v v :=
  ⟨h, fun _ _ => .rfl, fun _ _ _ h _ => .inl h⟩

variable {area area' : StorePath → Prop}

/-! ## Entries -/

theorem lineage_parent {path parent : StorePath} (h : path.parent = some parent) :
    path.lineage = path :: parent.lineage := by
  cases path <;> simp [StorePath.parent, StorePath.lineage] at h ⊢ <;> subst h <;> rfl

theorem Sound.below (h : v.Sound) {name : Bytes} (hnone : v.entries (.transaction name) = none)
    (hinside : path.inside = some name) : v.entries path = none := by
  have hup : ∀ {path parent : StorePath}, path.parent = some parent → v.entries parent = none →
      v.entries path = none := by
    intro path parent hparent hgone
    by_contra hthere
    rw [h.parents path hthere parent hparent] at hgone
    cases hgone
  cases path with
  | root | current | selectorTemp _ => cases hinside
  | transaction _ =>
    cases hinside
    exact hnone
  | file _ _ | directory _ _ =>
    cases hinside
    exact hup rfl hnone
  | sectionPrefix _ artifact | sectionFile _ artifact _ =>
    cases hinside
    exact hup rfl (@hup (.directory name artifact) _ rfl hnone)

theorem enter_entries (v : StoreVolume) (path other : StorePath) (entry : Option StoreEntry) :
    (v.enter path entry).entries other = if other = path then entry else v.entries other := by
  unfold enter
  by_cases h : other = path
  · subst h
    simp
  · simp [h]

/-- A new entry: a directory, or a link of a file that is no temporary selector's. -/
theorem enter_changed (h : v.Sound) (hnone : v.entries path = none) (hparent : v.HasParent path)
    {entry : StoreEntry} (hfile : ∀ id, entry = .file id → path.isTemp = false ∧ id < v.next ∧
      ∀ number, v.entries (.selectorTemp number) ≠ some (.file id)) :
    Changed (· = path) v (v.enter path (some entry)) := by
  have hsame : ∀ other, other ≠ path → v.Same (v.enter path (some entry)) other := by
    intro other hother
    apply same_of_nodes
    · rw [enter_entries, if_neg hother]
    · intro id _
      rfl
  refine ⟨⟨?_, ?_, ?_⟩, hsame, ?_⟩
  · intro other id hentry
    rw [enter_entries] at hentry
    split at hentry
    · exact (hfile id (Option.some.inj hentry)).2.1
    · exact h.numbered other id hentry
  · intro other hother parent hp
    have hne : v.entries parent ≠ none := by
      by_cases hpath : other = path
      · subst hpath
        rw [hparent parent hp]
        simp
      · rw [enter_entries, if_neg hpath] at hother
        rw [h.parents other hother parent hp]
        simp
    have hkeep : parent ≠ path := by
      intro heq
      rw [heq] at hne
      exact hne hnone
    rw [enter_entries, if_neg hkeep]
    by_cases hpath : other = path
    · subst hpath
      exact hparent parent hp
    · rw [enter_entries, if_neg hpath] at hother
      exact h.parents other hother parent hp
  · intro number id other hnumber hother
    rw [enter_entries] at hnumber hother
    split at hnumber
    · rename_i htemp
      have hno := (hfile id (Option.some.inj hnumber)).1
      rw [← htemp] at hno
      cases hno
    · split at hother
      · exact absurd hnumber ((hfile id (Option.some.inj hother)).2.2 number)
      · exact h.temps number id other hnumber hother
  · intro other node _ hread _
    have hne : other ≠ path := by
      intro heq
      subst heq
      rw [read_of_none hnone] at hread
      cases hread
    left
    rw [(hsame other hne).read, hread]

/-- A write of a file that is not there, or of a temporary selector. -/
theorem store_changed (h : v.Sound) (hpath : v.entries path = none ∨ path.isTemp = true)
    (hdirectory : v.entries path ≠ some .directory) (hparent : v.HasParent path)
    (node : FileNode) :
    Changed (· = path) v (v.store path node) ∧ (v.store path node).read path = some node := by
  cases hentry : v.entries path with
  | some entry =>
    cases entry with
    | directory => exact absurd hentry hdirectory
    | file id =>
      have htemp : path.isTemp = true := by
        rcases hpath with hnone | htemp
        · rw [hentry] at hnone
          cases hnone
        · exact htemp
      have honly : ∀ other, v.entries other = some (.file id) → other = path := by
        cases path with
        | selectorTemp number => exact fun other hother => h.temps number id other hentry hother
        | root | current | transaction _ | file _ _ | directory _ _ | sectionPrefix _ _
          | sectionFile _ _ _ => cases htemp
      have hstore : v.store path node = { v with nodes := Function.update v.nodes id node } := by
        unfold store
        rw [hentry]
      have hsame : ∀ other, other ≠ path → v.Same (v.store path node) other := by
        intro other hother
        rw [hstore]
        refine same_of_nodes rfl ?_
        intro other' hid
        have hne : other' ≠ id := by
          intro heq
          subst heq
          exact hother (honly other hid)
        exact Function.update_of_ne hne _ _
      refine ⟨⟨?_, hsame, ?_⟩, ?_⟩
      · rw [hstore]
        exact ⟨h.numbered, h.parents, h.temps⟩
      · intro other stored hinside hread _
        have hne : other ≠ path := by
          intro heq
          subst heq
          cases other with
          | selectorTemp number => exact hinside rfl
          | root | current | transaction _ | file _ _ | directory _ _ | sectionPrefix _ _
            | sectionFile _ _ _ => cases htemp
        left
        rw [(hsame other hne).read, hread]
      · rw [hstore]
        exact read_eq_some.mpr ⟨id, hentry, Function.update_self _ _ _⟩
  | none =>
    have hstore : v.store path node =
        { entries := Function.update v.entries path (some (.file v.next))
          nodes := Function.update v.nodes v.next node
          next := v.next + 1 } := by
      unfold store
      rw [hentry]
    have hentries : ∀ other, (v.store path node).entries other =
        if other = path then some (.file v.next) else v.entries other := by
      intro other
      rw [hstore]
      by_cases hother : other = path
      · subst hother
        simp
      · simp [hother]
    have hsame : ∀ other, other ≠ path → v.Same (v.store path node) other := by
      intro other hother
      apply same_of_nodes
      · rw [hentries, if_neg hother]
      · intro id hid
        rw [hstore]
        exact Function.update_of_ne (Nat.ne_of_lt (h.numbered other id hid)) _ _
    refine ⟨⟨⟨?_, ?_, ?_⟩, hsame, ?_⟩, ?_⟩
    · intro other id hid
      rw [hentries] at hid
      rw [hstore]
      split at hid
      · cases hid
        exact Nat.lt_succ_self _
      · exact Nat.lt_succ_of_lt (h.numbered other id hid)
    · intro other hother parent hp
      have hdir : v.entries parent = some .directory := by
        by_cases hpath' : other = path
        · subst hpath'
          exact hparent parent hp
        · rw [hentries, if_neg hpath'] at hother
          exact h.parents other hother parent hp
      have hne : parent ≠ path := by
        intro heq
        rw [heq, hentry] at hdir
        cases hdir
      rw [hentries, if_neg hne]
      exact hdir
    · intro number id other hnumber hother
      rw [hentries] at hnumber hother
      split at hnumber
      · cases hnumber
        split at hother
        · rename_i htemp hsame'
          rw [hsame', htemp]
        · exact absurd (h.numbered other _ hother) (Nat.lt_irrefl _)
      · split at hother
        · cases hother
          exact absurd (h.numbered _ _ hnumber) (Nat.lt_irrefl _)
        · exact h.temps number id other hnumber hother
    · intro other stored _ hread _
      have hne : other ≠ path := by
        intro heq
        subst heq
        rw [read_of_none hentry] at hread
        cases hread
      left
      rw [(hsame other hne).read, hread]
    · apply read_eq_some.mpr
      refine ⟨v.next, ?_, ?_⟩
      · rw [hentries, if_pos rfl]
      · rw [hstore]
        exact Function.update_self _ _ _

theorem taken_changed (h : v.Sound) {top : StorePath} (hnodes : v'.nodes = v.nodes)
    (hnext : v'.next = v.next)
    (hentries : ∀ path, v'.entries path = v.entries path ∨
      (top ∈ path.lineage ∧ v'.entries path = none))
    (hparents : ∀ path, v'.entries path ≠ none → v'.HasParent path) :
    Changed (fun path => top ∈ path.lineage) v v' := by
  have hold : ∀ {path : StorePath} {entry : StoreEntry}, v'.entries path = some entry →
      v.entries path = some entry := by
    intro path entry hentry
    rcases hentries path with hsame | ⟨-, hnone⟩
    · rw [← hsame]
      exact hentry
    · rw [hnone] at hentry
      cases hentry
  refine ⟨⟨?_, hparents, ?_⟩, ?_, ?_⟩
  · intro path id hid
    rw [hnext]
    exact h.numbered path id (hold hid)
  · intro number id path hnumber hpath
    exact h.temps number id path (hold hnumber) (hold hpath)
  · intro path hpath
    refine same_of_nodes ?_ ?_
    · rcases hentries path with hsame | ⟨hin, -⟩
      · exact hsame
      · exact absurd hin hpath
    · intro id _
      rw [hnodes]
  · intro path node _ hread _
    rcases hentries path with hsame | ⟨-, hnone⟩
    · left
      rw [← hread]
      refine (same_of_nodes hsame ?_).read
      intro id _
      rw [hnodes]
    · exact .inr (read_of_none hnone)

theorem removeTree_parents (h : v.Sound) (top : StorePath) (path : StorePath)
    (hpath : (v.removeTree top).entries path ≠ none) : (v.removeTree top).HasParent path := by
  intro parent hparent
  simp only [removeTree] at hpath ⊢
  by_cases hin : top ∈ path.lineage
  · rw [if_pos hin] at hpath
    exact absurd rfl hpath
  · rw [if_neg hin] at hpath
    have hout : top ∉ parent.lineage := by
      rw [lineage_parent hparent] at hin
      exact fun hmem => hin (List.mem_cons_of_mem _ hmem)
    rw [if_neg hout]
    exact h.parents path hpath parent hparent

theorem Changed.of_outside (hsound : v'.Sound) (hsame : ∀ path, ¬area path → v.Same v' path)
    (harea : ∀ path, area path → path.inside = none) : Changed area v v' := by
  refine ⟨hsound, hsame, ?_⟩
  intro path node hinside hread _
  left
  rw [(hsame path fun hin => hinside (harea path hin)).read, hread]

theorem enter_none_changed (h : v.Sound) (hpath : path = .current ∨ path.isTemp = true) :
    Changed (· = path) v (v.enter path none) := by
  have hleaf : ∀ {other parent : StorePath}, other.parent = some parent → parent ≠ path := by
    rintro other parent hparent rfl
    rcases hpath with rfl | htemp
    · cases other <;> cases hparent
    · cases parent with
      | selectorTemp number => cases other <;> cases hparent
      | _ => cases htemp
  have hold : ∀ {other : StorePath}, (v.enter path none).entries other ≠ none →
      (v.enter path none).entries other = v.entries other := by
    intro other hother
    rw [enter_entries] at hother ⊢
    split
    · rename_i heq
      exact absurd (if_pos heq) hother
    · rfl
  refine Changed.of_outside ⟨?_, ?_, ?_⟩ ?_ ?_
  · intro other id hentry
    rw [hold (by rw [hentry]; simp)] at hentry
    exact h.numbered other id hentry
  · intro other hother parent hparent
    have hne := hold hother
    rw [enter_entries, if_neg (hleaf hparent)]
    rw [hne] at hother
    exact h.parents other hother parent hparent
  · intro number id other hnumber hother
    rw [hold (by rw [hnumber]; simp)] at hnumber
    rw [hold (by rw [hother]; simp)] at hother
    exact h.temps number id other hnumber hother
  · intro other hother
    refine same_of_nodes ?_ fun _ _ => rfl
    rw [enter_entries, if_neg hother]
  · rintro other rfl
    rcases hpath with rfl | htemp
    · rfl
    · cases other with
      | selectorTemp number => rfl
      | _ => cases htemp

end StoreVolume

/-! ## Operations -/

section Operations
open StoreVolume

theorem exec_allocate {point : AllocationPoint} {answer : Bool}
    (h : StoreExec v (.allocate point) answer v') : v' = v := by
  cases h
  rfl

variable {answer : Except StatusCode Unit}

theorem exec_createRoot (h : StoreExec v .createRoot answer v') (hsound : v.Sound) :
    Changed (· = .root) v v' := by
  cases h with
  | rootMade hnone =>
    refine enter_changed hsound hnone ?_ ?_
    · intro parent hparent
      cases hparent
    · intro id hid
      cases hid
  | rootThere _ => exact .refl hsound _
  | rootFailed => exact .refl hsound _

theorem exec_candidate {name : Bytes} (h : StoreExec v .candidate name v') :
    v' = v ∧ validTransactionName name = true := by
  cases h with
  | candidate hname => exact ⟨rfl, hname⟩

variable {number : Nat}

theorem exec_selectorNumber (h : StoreExec v .selectorNumber number v') : v' = v := by
  cases h
  rfl

theorem exec_createDirectory {answer : Except StatusCode Bool}
    (h : StoreExec v (.createDirectory path) answer v') (hsound : v.Sound) :
    Changed (· = path) v v' ∧
      ((answer = .ok true ∧ v.entries path = none ∧ v'.entries path = some .directory) ∨
        (answer ≠ .ok true ∧ v' = v)) := by
  cases h with
  | directoryMade hnone hparent =>
    refine ⟨enter_changed hsound hnone hparent ?_, .inl ⟨rfl, hnone, ?_⟩⟩
    · intro id hid
      cases hid
    · rw [enter_entries, if_pos rfl]
  | directoryThere _ => exact ⟨.refl hsound _, .inr ⟨by simp, rfl⟩⟩
  | directoryFailed => exact ⟨.refl hsound _, .inr ⟨by simp, rfl⟩⟩

theorem exec_present {answer : Except StatusCode Bool}
    (h : StoreExec v (.present path) answer v') :
    v' = v ∧ (answer = .ok (v.entries path).isSome ∨ answer = .error .ioFailed) := by
  cases h with
  | present => exact ⟨rfl, .inl rfl⟩
  | presentFailed => exact ⟨rfl, .inr rfl⟩

theorem exec_readFile {maximum : Nat} {answer : Except StatusCode Bytes}
    (h : StoreExec v (.readFile path maximum) answer v') :
    v' = v ∧ (∀ bytes, answer = .ok bytes → ∃ node, v.read path = some node ∧
      node.content = bytes) ∧ (answer = .error .notFound → v.entries path = none) := by
  cases h with
  | @fileRead _ _ node hread _ =>
    refine ⟨rfl, ?_, nofun⟩
    intro bytes hbytes
    exact ⟨node, hread, Except.ok.inj hbytes⟩
  | fileLarge _ _ => exact ⟨rfl, nofun, nofun⟩
  | fileMissing hnone => exact ⟨rfl, nofun, fun _ => hnone⟩
  | readFailed _ _ hcode =>
    refine ⟨rfl, nofun, ?_⟩
    intro hmissing
    cases hmissing
    rcases hcode with hcode | hcode <;> cases hcode

variable {bytes : Bytes}

theorem exec_compare {answer : Except StatusCode Bool}
    (h : StoreExec v (.compare path bytes) answer v') :
    v' = v ∧ (answer = .ok true → ∃ node, v.read path = some node ∧ node.content = bytes) ∧
      answer ≠ .error .notAvailable := by
  cases h with
  | @compared _ _ node hread =>
    refine ⟨rfl, ?_, by simp⟩
    intro hsame
    exact ⟨node, hread, by simpa using hsame⟩
  | compareMissing _ => exact ⟨rfl, nofun, nofun⟩
  | compareFailed => exact ⟨rfl, nofun, nofun⟩

theorem exec_link {source target : StorePath} {outcome : LinkOutcome}
    (h : StoreExec v (.link source target) outcome v') (hsound : v.Sound)
    (hsource : source.isTemp = false) (htarget : target.isTemp = false) :
    Changed (· = target) v v' ∧
      ((outcome = .linked ∧ v.entries target = none ∧ v.read source ≠ none ∧
          v'.read target = v.read source) ∨ (outcome ≠ .linked ∧ v' = v)) := by
  cases h with
  | @linked _ _ id hentry hnone hparent =>
    have hread : v.read source = some (v.nodes id) := read_eq_some.mpr ⟨id, hentry, rfl⟩
    refine ⟨enter_changed hsound hnone hparent ?_, .inl ⟨rfl, hnone, ?_, ?_⟩⟩
    · intro other hother
      cases hother
      refine ⟨htarget, hsound.numbered source id hentry, ?_⟩
      intro number hnumber
      have heq := hsound.temps number id source hnumber hentry
      rw [heq] at hsource
      cases hsource
    · rw [hread]
      simp
    · rw [hread]
      apply read_eq_some.mpr
      refine ⟨id, ?_, rfl⟩
      rw [enter_entries, if_pos rfl]
  | notLinked _ _ hne => exact ⟨.refl hsound _, .inr ⟨hne, rfl⟩⟩

theorem exec_write (h : StoreExec v (.write path bytes) answer v') (hsound : v.Sound)
    (hpath : v.read path = none ∨ path.isTemp = true) :
    Changed (· = path) v v' ∧ ((answer = .ok () ∧ v'.read path = some ⟨bytes, true⟩) ∨
      answer = .error .ioFailed) := by
  have hfree : v.entries path ≠ some .directory → v.entries path = none ∨ path.isTemp = true := by
    intro hdirectory
    refine hpath.imp_left ?_
    intro hnone
    cases hentry : v.entries path with
    | none => rfl
    | some entry =>
      cases entry with
      | directory => exact absurd hentry hdirectory
      | file id =>
        rw [read_eq_some.mpr ⟨id, hentry, rfl⟩] at hnone
        cases hnone
  cases h with
  | written hdirectory hparent =>
    obtain ⟨hchanged, hread⟩ :=
      store_changed hsound (hfree hdirectory) hdirectory hparent ⟨bytes, true⟩
    exact ⟨hchanged, .inl ⟨rfl, hread⟩⟩
  | partlyWritten content hdirectory hparent =>
    exact ⟨(store_changed hsound (hfree hdirectory) hdirectory hparent ⟨content, false⟩).1,
      .inr rfl⟩
  | notWritten => exact ⟨.refl hsound _, .inr rfl⟩

theorem exec_flush (h : StoreExec v (.flush path) answer v') :
    v' = v ∧ (answer = .ok () ∨ answer = .error .ioFailed) := by
  cases h with
  | flushed => exact ⟨rfl, .inl rfl⟩
  | notFlushed => exact ⟨rfl, .inr rfl⟩

theorem exec_removeTree {answer : Bool} (h : StoreExec v (.removeTree path) answer v')
    (hsound : v.Sound) : Changed (fun other => path ∈ other.lineage) v v' ∧
      ∀ other, v'.entries other = v.entries other ∨ v'.entries other = none := by
  cases h with
  | removed =>
    have hentries : ∀ other, (v.removeTree path).entries other = v.entries other ∨
        (path ∈ other.lineage ∧ (v.removeTree path).entries other = none) := by
      intro other
      simp only [StoreVolume.removeTree]
      by_cases hin : path ∈ other.lineage
      · rw [if_pos hin]
        exact .inr ⟨hin, rfl⟩
      · rw [if_neg hin]
        exact .inl rfl
    exact ⟨taken_changed hsound rfl rfl hentries (removeTree_parents hsound path),
      fun other => (hentries other).imp_right And.right⟩
  | partlyRemoved hpart =>
    exact ⟨taken_changed hsound hpart.nodes hpart.next hpart.entries hpart.parents,
      fun other => (hpart.entries other).imp_right And.right⟩

theorem exec_removeFile {answer : Unit}
    (h : StoreExec v (.removeFile (.selectorTemp number)) answer v') (hsound : v.Sound) :
    Changed (· = .selectorTemp number) v v' := by
  cases h with
  | fileRemoved _ => exact enter_none_changed hsound (.inr rfl)
  | fileKept => exact .refl hsound _

theorem exec_replace (h : StoreExec v (.replace (.selectorTemp number) .current) answer v')
    (hsound : v.Sound) : Changed (fun path => path = .selectorTemp number ∨ path = .current) v v' ∧
      ((answer = .ok () ∧ v'.read .current = v.read (.selectorTemp number)) ∨
        (answer ≠ .ok () ∧ v' = v)) := by
  cases h with
  | @replaced _ _ id hentry htarget hparent =>
    let v₁ := v.enter (.selectorTemp number) none
    have h₁ : Changed (· = .selectorTemp number) v v₁ := enter_none_changed hsound (.inr rfl)
    let v₂ := v₁.enter .current none
    have h₂ : Changed (· = .current) v₁ v₂ := enter_none_changed h₁.sound (.inl rfl)
    have hidem : v₁.enter .current (some (.file id)) = v₂.enter .current (some (.file id)) := by
      simp [v₂, enter]
    have h₃ : Changed (· = .current) v₂ (v₂.enter .current (some (.file id))) := by
      refine enter_changed h₂.sound ?_ ?_ ?_
      · rw [enter_entries, if_pos rfl]
      · intro parent hp
        cases hp
        exact hparent _ rfl
      · intro other hother
        cases hother
        refine ⟨rfl, hsound.numbered _ _ hentry, ?_⟩
        intro number' hnumber
        rw [(h₂.same _ (by simp)).entry, enter_entries] at hnumber
        split at hnumber
        · cases hnumber
        · rename_i hne
          exact hne (hsound.temps number _ _ hentry hnumber)
    rw [hidem]
    refine ⟨Changed.of_outside h₃.sound ?_ ?_, .inl ⟨rfl, ?_⟩⟩
    · intro path hpath
      have htemp : path ≠ .selectorTemp number := fun heq => hpath (.inl heq)
      have hcurrent : path ≠ .current := fun heq => hpath (.inr heq)
      exact ((h₁.same path htemp).trans (h₂.same path hcurrent)).trans (h₃.same path hcurrent)
    · rintro path (rfl | rfl)
      · rfl
      · rfl
    · rw [read_eq_some.mpr ⟨id, hentry, rfl⟩]
      apply read_eq_some.mpr
      refine ⟨id, ?_, rfl⟩
      rw [enter_entries, if_pos rfl]
  | notReplaced => exact ⟨.refl hsound _, .inr ⟨by simp, rfl⟩⟩

theorem exec_list {answer : Except StatusCode (List Bytes)} (h : StoreExec v .list answer v') :
    v' = v := by
  cases h <;> rfl

theorem exec_isDirectory {answer : Except StatusCode Bool}
    (h : StoreExec v (.isDirectory path) answer v') : v' = v := by
  cases h <;> rfl

end Operations

end ServerEngine

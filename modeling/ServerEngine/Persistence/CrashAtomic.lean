import ServerEngine.Persistence.CommitRuns

/-! # Runs of one writer

Commits and collections of garbage one after the other, each of which a crash may end at any step.
In every state CURRENT selects a complete transaction or there has been no commit yet.
-/
namespace ServerEngine
open Programs StoreVolume

/-! ## The collection of garbage -/

structure Spared (before : StoreVolume) (pinned : Bytes) (v : StoreVolume) : Prop where
  sound : v.Sound
  current : before.Same v .current
  kept : ∀ path name, path.inside = some name → name = pinned ∨ Selects before name →
    before.Same v path

abbrev CollectMeets (before : StoreVolume) (pinned : Bytes) {α : Type} (p : StoreM α)
    (post : α → Prop) : Prop :=
  MeetsOr SparedExec (fun _ _ => False) (fun v v' => FilesKept v v' ∧ Spared before pinned v')
    (Spared before pinned) p (fun value v => Spared before pinned v ∧ post value)
    fun _ => Spared before pinned

section Collect
variable {before v v' : StoreVolume} {pinned : Bytes} {α β : Type}

namespace CollectMeets
variable {post : α → Prop} {post' : β → Prop} {p : StoreM α}

theorem bind {k : α → StoreM β} (h : CollectMeets before pinned p post)
    (hnext : ∀ value, post value → CollectMeets before pinned (k value) post') :
    CollectMeets before pinned (p >>= k) post' := by
  refine MeetsOr.bind (fun _ _ _ h _ => h.elim) h ?_
  intro value
  refine Meets.of_pre ?_
  rintro s ⟨hs, hpost⟩
  exact (hnext value hpost).conseq (by rintro _ rfl; exact hs) fun _ _ h => h

theorem pure {value : α} (h : post value) :
    CollectMeets before pinned (Pure.pure value : StoreM α) post :=
  MeetsOr.pure (fun _ _ h _ => h.elim) fun _ hv => ⟨hv, h⟩

theorem throw {code : StatusCode} :
    CollectMeets before pinned (MonadExcept.throw code : StoreM α) post :=
  MeetsOr.throw (fun _ _ h _ => h.elim) fun _ hv => hv

theorem ask {op : StoreOp} {k : StoreAnswer op → StoreM α}
    (hexec : ∀ v answer v', Spared before pinned v → StoreExec v op answer v' →
      FilesKept v v' ∧ Spared before pinned v')
    (hnext : ∀ answer, CollectMeets before pinned (k answer) post) :
    CollectMeets before pinned (ExceptT.lift (ServerEngine.ask op) >>= k) post := by
  change Meets _ _ _ _ ((ServerEngine.ask op).bind fun answer => (k answer).run) _
  refine Meets.bind (@Meets.perform _ _ _ _ _ _ _ _ _ (fun _ => Spared before pinned)
    (fun _ _ h _ => h.elim) (fun _ _ _ h _ => h.elim) ?_) hnext
  intro v answer v' hv hstep
  exact ⟨hexec v answer v' hv hstep.1, (hexec v answer v' hv hstep.1).2⟩

theorem keep {q : StoreProg (Except StatusCode α)}
    (h : Meets SparedExec (fun _ _ => False) (fun v v' => FilesKept v v' ∧ Spared before pinned v')
      (Spared before pinned) q fun _ => Spared before pinned) :
    CollectMeets before pinned (ExceptT.mk q) fun _ => True := by
  refine Meets.conseq h (fun _ h => h) ?_
  intro answer s hs
  cases answer with
  | ok value => exact ⟨hs, trivial⟩
  | error code => exact hs

end CollectMeets

theorem collect_keep {op : StoreOp}
    (hexec : ∀ v answer v', StoreExec v op answer v' → v' = v) :
    Meets SparedExec (fun _ _ => False) (fun v v' => FilesKept v v' ∧ Spared before pinned v')
      (Spared before pinned) (ask op) fun _ => Spared before pinned := by
  refine Meets.perform (fun _ _ h _ => h.elim) (fun _ _ _ h _ => h.elim) ?_
  intro v answer v' hv hstep
  have hsame := hexec v answer v' hstep.1
  subst hsame
  exact ⟨⟨.refl v', hv⟩, hv⟩

theorem collectAllocate_meets (point : AllocationPoint) :
    CollectMeets before pinned (StoreM.allocate point) fun _ => True := by
  refine CollectMeets.ask ?_ ?_
  · intro v answer v' hv hstep
    rw [exec_allocate hstep]
    exact ⟨.refl v, hv⟩
  · intro spare
    cases spare with
    | false => exact CollectMeets.throw
    | true => exact CollectMeets.pure trivial

theorem Spared.removed {name : Bytes} {answer : Bool} (h : Spared before pinned v)
    (hname : name ≠ pinned) (hselected : ¬Selects before name)
    (hstep : StoreExec v (.removeTree (.transaction name)) answer v') :
    FilesKept v v' ∧ Spared before pinned v' := by
  have hchanged := (exec_removeTree hstep h.sound).1
  have hcurrent : StorePath.transaction name ∉ StorePath.current.lineage := nofun
  refine ⟨filesKept_of_changed hchanged hcurrent, hchanged.sound,
    h.current.trans (hchanged.same _ hcurrent), ?_⟩
  intro path other hinside hother
  refine (h.kept path other hinside hother).trans (hchanged.same path ?_)
  intro hin
  rw [lineage_transaction hin] at hinside
  cases hinside
  exact hother.elim hname hselected

theorem collectOne_meets {current : Bytes} (hcurrent : ∀ name, Selects before name → name = current)
    (name : Bytes) : CollectMeets before pinned (collectOne current pinned name) fun _ => True := by
  refine CollectMeets.bind (collectAllocate_meets .paths) ?_
  intro _ _
  split
  · exact CollectMeets.pure trivial
  · rename_i hname
    refine CollectMeets.bind (CollectMeets.keep (collect_keep fun _ _ _ => exec_isDirectory)) ?_
    intro directory _
    cases directory with
    | false => exact CollectMeets.pure trivial
    | true =>
      refine CollectMeets.ask ?_ ?_
      · intro v answer v' hv hstep
        refine hv.removed (fun heq => hname (.inr (.inr heq))) ?_ hstep
        exact fun hselects => hname (.inr (.inl (hcurrent name hselects)))
      · intro removed
        cases removed with
        | false => exact CollectMeets.throw
        | true => exact CollectMeets.pure trivial

theorem collectAll_meets {current : Bytes} (hcurrent : ∀ name, Selects before name → name = current)
    (names : List Bytes) :
    CollectMeets before pinned (collectAll current pinned names) fun _ => True := by
  induction names with
  | nil => exact CollectMeets.pure trivial
  | cons name rest ih => exact CollectMeets.bind (collectOne_meets hcurrent name) fun _ _ => ih

theorem currentOrNone_meets : CollectMeets before pinned currentOrNone
    fun current => ∀ name, Selects before name → name = current := by
  have hunique : ∀ {name name' : Bytes}, Selects before name → Selects before name' →
      name = name' := by
    rintro name name' ⟨node, selection, hread, hselection, rfl⟩
      ⟨node', selection', hread', hselection', rfl⟩
    rw [hread] at hread'
    cases hread'
    rw [hselection] at hselection'
    cases hselection'
    rfl
  refine Meets.bind (readCurrent_meets (fun v hv => hv.current) fun v hv => ⟨.refl v, hv⟩) ?_
  intro result
  cases result with
  | ok current =>
    exact Meets.done (fun _ _ h _ => h.elim) fun v hv =>
      ⟨hv.1, fun name hname => hunique hname (hv.2.1 current rfl)⟩
  | error code =>
    cases code with
    | notFound =>
      refine Meets.done (fun _ _ h _ => h.elim) fun v hv => ⟨hv.1, ?_⟩
      rintro name ⟨node, selection, hread, -⟩
      rw [read_of_none (hv.2.2 rfl)] at hread
      cases hread
    | _ => exact Meets.done (fun _ _ h _ => h.elim) fun v hv => hv.1

theorem collectGarbage_meets (hsound : before.Sound) :
    MeetsOr SparedExec (fun _ _ => False) (fun v v' => FilesKept v v' ∧ Spared before pinned v')
      (· = before) (collectGarbage pinned) (fun _ => Spared before pinned)
      fun _ => Spared before pinned := by
  have hcollect : CollectMeets before pinned (collectGarbage pinned) fun _ => True := by
    unfold collectGarbage
    split
    · exact CollectMeets.throw
    · refine CollectMeets.bind (collectAllocate_meets .paths) ?_
      intro _ _
      refine CollectMeets.bind
        (CollectMeets.keep (collect_keep fun _ _ _ hstep => (exec_present hstep).1)) ?_
      intro there _
      cases there with
      | false => exact CollectMeets.pure trivial
      | true =>
        refine CollectMeets.bind currentOrNone_meets ?_
        intro current hcurrent
        refine CollectMeets.bind (CollectMeets.keep (collect_keep fun _ _ _ => exec_list)) ?_
        intro names _
        exact collectAll_meets hcurrent names
  refine hcollect.conseq ?_ ?_
  · rintro _ rfl
    exact ⟨hsound, .rfl, fun _ _ _ _ => .rfl⟩
  · intro result v hv
    cases result with
    | ok value => exact hv.1
    | error code => exact hv

end Collect

/-- What the writer is at, since when, and what is left of it. -/
inductive StoreActivity : Type 1
  | idle
  | committing (request : CommitRequest) (before : StoreVolume)
    (program : StoreProg (Except StatusCode Bytes))
  | collecting (pinned : Bytes) (before : StoreVolume)
    (program : StoreProg (Except StatusCode Unit))

/-- The store and its writer, with the commit that has made each transaction. -/
structure StoreState : Type 1 where
  volume : StoreVolume
  author : Bytes → Option CommitRequest
  activity : StoreActivity

def authored (author : Bytes → Option CommitRequest) (request : CommitRequest)
    (v v' : StoreVolume) (name : Bytes) : Option CommitRequest :=
  if v.entries (.transaction name) = none ∧ v'.entries (.transaction name) ≠ none then some request
  else author name

inductive StoreStep
    (Exec : StoreVolume → (op : StoreOp) → StoreAnswer op → StoreVolume → Prop) :
    StoreState → StoreState → Prop
  | beginCommit {v : StoreVolume} {author : Bytes → Option CommitRequest}
    (request : CommitRequest) (h : request.Mapped v) :
    StoreStep Exec ⟨v, author, .idle⟩
      ⟨v, author, .committing request v (commit request.memory request.input).run⟩
  | commitStep {v v' before : StoreVolume} {author : Bytes → Option CommitRequest}
    {request : CommitRequest} {p p' : StoreProg (Except StatusCode Bytes)}
    (h : Step Exec v p v' p') :
    StoreStep Exec ⟨v, author, .committing request before p⟩
      ⟨v', authored author request v v', .committing request before p'⟩
  | committed {v before : StoreVolume} {author : Bytes → Option CommitRequest}
    {request : CommitRequest} (result : Except StatusCode Bytes) :
    StoreStep Exec ⟨v, author, .committing request before (.done result)⟩ ⟨v, author, .idle⟩
  | beginCollect {v : StoreVolume} {author : Bytes → Option CommitRequest} (pinned : Bytes) :
    StoreStep Exec ⟨v, author, .idle⟩
      ⟨v, author, .collecting pinned v (collectGarbage pinned).run⟩
  | collectStep {v v' before : StoreVolume} {author : Bytes → Option CommitRequest}
    {pinned : Bytes} {p p' : StoreProg (Except StatusCode Unit)} (h : Step Exec v p v' p') :
    StoreStep Exec ⟨v, author, .collecting pinned before p⟩
      ⟨v', author, .collecting pinned before p'⟩
  | collected {v before : StoreVolume} {author : Bytes → Option CommitRequest} {pinned : Bytes}
    (result : Except StatusCode Unit) :
    StoreStep Exec ⟨v, author, .collecting pinned before (.done result)⟩ ⟨v, author, .idle⟩
  /-- The writer starts again with what the crash has left. -/
  | crash {v v' : StoreVolume} {author : Bytes → Option CommitRequest} {activity : StoreActivity}
    (h : v.Crashed v') : StoreStep Exec ⟨v, author, activity⟩ ⟨v', author, .idle⟩

inductive StoreReachable
    (Exec : StoreVolume → (op : StoreOp) → StoreAnswer op → StoreVolume → Prop) :
    StoreState → Prop
  | start : StoreReachable Exec ⟨.blank, fun _ => none, .idle⟩
  | step {s s' : StoreState} (h : StoreReachable Exec s) (hstep : StoreStep Exec s s') :
    StoreReachable Exec s'

section Crashes
variable {v v' : StoreVolume}

theorem StoreVolume.Crashed.read {path : StorePath} {node : FileNode} (h : v.Crashed v')
    (hread : v.read path = some node) (hflushed : node.flushed = true) :
    v'.read path = some node := by
  obtain ⟨id, hentry, rfl⟩ := read_eq_some.mp hread
  apply read_eq_some.mpr
  refine ⟨id, ?_, ?_⟩
  · rcases h.entries path with hsame | ⟨-, hlost⟩
    · exact hsame.trans hentry
    · rw [hlost _ hread] at hflushed
      cases hflushed
  · rcases h.nodes id with hsame | ⟨hlost, -⟩
    · exact hsame
    · rw [hlost] at hflushed
      cases hflushed

theorem StoreVolume.Crashed.read_none {path : StorePath} (h : v.Crashed v') (hread : v.read path = none) :
    v'.read path = none := by
  rcases h.entries path with hsame | ⟨hnone, -⟩
  · cases hentry : v.entries path with
    | none => exact read_of_none (hsame.trans hentry)
    | some entry =>
      cases entry with
      | directory =>
        unfold StoreVolume.read
        rw [hsame, hentry]
      | file id =>
        rw [read_eq_some.mpr ⟨id, hentry, rfl⟩] at hread
        cases hread
  · exact read_of_none hnone

theorem StoreVolume.Crashed.sound (h : v.Crashed v') (hsound : v.Sound) : v'.Sound := by
  have hold : ∀ {path : StorePath} {entry : StoreEntry}, v'.entries path = some entry →
      v.entries path = some entry := by
    intro path entry hentry
    rcases h.entries path with hsame | ⟨hnone, -⟩
    · exact hsame.symm.trans hentry
    · rw [hnone] at hentry
      cases hentry
  refine ⟨?_, h.parents, ?_⟩
  · intro path id hentry
    rw [h.next]
    exact hsound.numbered path id (hold hentry)
  · intro number id path hnumber hpath
    exact hsound.temps number id path (hold hnumber) (hold hpath)

theorem Holds.crashed {area : StorePath → Prop} {files : Files} (h : v.Crashed v')
    (hfiles : Holds area files v) : Holds area files v' := by
  intro path hpath
  have hread := hfiles path hpath
  cases hbytes : files path with
  | none =>
    rw [hbytes] at hread
    exact Crashed.read_none h hread
  | some bytes =>
    rw [hbytes] at hread
    exact Crashed.read h hread rfl

theorem CompleteSelected.crashed {request : CommitRequest} {name : Bytes} (h : v.Crashed v')
    (hselected : CompleteSelected request name v) : CompleteSelected request name v' := by
  obtain ⟨selector, manifest, hread, hmanifest, hselection, files, hfiles, hwritten⟩ :=
    hselected.selected
  exact ⟨selector, manifest, Crashed.read h hread rfl, hmanifest, hselection, files,
    hfiles.crashed h, hwritten⟩

end Crashes

/-! ## What a run keeps -/

/-- CURRENT selects a transaction that is complete with the bytes of its commit, files keep their
bytes, and calls end as they report. -/
structure CrashAtomic
    (Exec : StoreVolume → (op : StoreOp) → StoreAnswer op → StoreVolume → Prop)
    (s : StoreState) : Prop where
  current : s.volume.entries .current = none ∨
    ∃ name request, s.author name = some request ∧ CompleteSelected request name s.volume
  kept : ∀ s', StoreStep Exec s s' → FilesKept s.volume s'.volume
  spared : ∀ pinned before p, s.activity = .collecting pinned before p →
    Spared before pinned s.volume
  failed : ∀ request before code,
    s.activity = .committing request before (.done (.error code)) →
    before.Same s.volume .current
  succeeded : ∀ request before name,
    s.activity = .committing request before (.done (.ok name)) →
    before.entries (.transaction name) = none ∧ CompleteSelected request name s.volume

def WellSelected (author : Bytes → Option CommitRequest) (v : StoreVolume) : Prop :=
  v.entries .current = none ∨ ∃ name request, author name = some request ∧ CompleteSelected request name v

structure Committing (author : Bytes → Option CommitRequest) (request : CommitRequest)
    (before v : StoreVolume) (p : StoreProg (Except StatusCode Bytes)) : Prop where
  sound : before.Sound
  mapped : request.Mapped before
  selected : WellSelected author before
  run : Run SparedExec (fun _ _ => False) before (commit request.memory request.input).run v p
  state : Untouched before v ∨ ∃ name, Published before request name v
  made : ∀ name, before.entries (.transaction name) = none →
    v.entries (.transaction name) ≠ none → author name = some request

structure Collecting (pinned : Bytes) (before v : StoreVolume)
    (p : StoreProg (Except StatusCode Unit)) : Prop where
  sound : before.Sound
  run : Run SparedExec (fun _ _ => False) before (collectGarbage pinned).run v p
  spared : Spared before pinned v

def ActivityKept (author : Bytes → Option CommitRequest) (v : StoreVolume) :
    StoreActivity → Prop
  | .idle => True
  | .committing request before p => Committing author request before v p
  | .collecting pinned before p => WellSelected author before ∧ Collecting pinned before v p

structure StoreKept (s : StoreState) : Prop where
  sound : s.volume.Sound
  selected : WellSelected s.author s.volume
  activity : ActivityKept s.author s.volume s.activity

section Runs
variable {before v v' : StoreVolume} {author : Bytes → Option CommitRequest}
  {request : CommitRequest} {name : Bytes}

theorem CompleteSelected.directory (h : CompleteSelected request name v) (hsound : v.Sound) :
    v.entries (.transaction name) ≠ none := by
  obtain ⟨selector, manifest, -, -, -, files, hfiles, hwritten⟩ := h.selected
  intro hnone
  have hread := hfiles (.file name .compiled) ⟨.compiled, rfl⟩
  rw [hwritten .compiled, read_of_none (hsound.below hnone rfl)] at hread
  cases hread

theorem CompleteSelected.selects (h : CompleteSelected request name v) : Selects v name := by
  obtain ⟨selector, manifest, hread, -, hselection, -⟩ := h.selected
  exact ⟨_, _, hread, hselection, rfl⟩

theorem CompleteSelected.same (h : CompleteSelected request name v) (hcurrent : v.Same v' .current)
    (hkept : ∀ path, path.inside = some name → v.Same v' path) : CompleteSelected request name v' := by
  obtain ⟨selector, manifest, hread, hmanifest, hselection, files, hfiles, hwritten⟩ := h.selected
  exact ⟨selector, manifest, hcurrent.read.trans hread, hmanifest, hselection, files,
    hfiles.same fun path hpath => hkept path (contentArea_inside hpath), hwritten⟩

theorem WellSelected.settled (h : WellSelected author v) (hsound : v.Sound)
    (hselects : Selects v name) : Settled v name := by
  obtain ⟨node, selection, hnode, hselection, rfl⟩ := hselects
  rcases h with hnone | ⟨other, request, -, hselected⟩
  · rw [read_of_none hnone] at hnode
    cases hnode
  · obtain ⟨node', selection', hnode', hselection', rfl⟩ := hselected.selects
    rw [hnode] at hnode'
    cases hnode'
    rw [hselection] at hselection'
    cases hselection'
    refine ⟨hselected.directory hsound, ?_⟩
    intro path node hpath hread
    obtain ⟨selector, manifest, -, -, -, files, hfiles, -⟩ := hselected.selected
    rw [hfiles path hpath] at hread
    cases hbytes : files path with
    | none =>
      rw [hbytes] at hread
      cases hread
    | some bytes =>
      rw [hbytes] at hread
      cases hread
      rfl

theorem WellSelected.committing (h : WellSelected author before) (hsound : before.Sound)
    (hmade : ∀ name, before.entries (.transaction name) = none →
      v.entries (.transaction name) ≠ none → author name = some request)
    (hstate : Untouched before v ∨ ∃ name, Published before request name v) :
    WellSelected author v := by
  rcases hstate with hleft | ⟨name, hpublished⟩
  · rcases h with hnone | ⟨other, request', hauthor, hselected⟩
    · left
      rw [hleft.current.entry]
      exact hnone
    · refine .inr ⟨other, request', hauthor, hselected.same hleft.current ?_⟩
      exact fun path hpath => hleft.kept path other hpath (hselected.directory hsound)
  · refine .inr ⟨name, request, ?_, hpublished.selected⟩
    exact hmade name hpublished.fresh (hpublished.selected.directory hpublished.sound)

theorem Committing.step {p p' : StoreProg (Except StatusCode Bytes)}
    (h : Committing author request before v p) (hstep : Step SparedExec v p v' p') :
    FilesKept v v' ∧ v'.Sound ∧
      Committing (authored author request v v') request before v' p' := by
  have hmeets := commit_meets h.sound h.mapped fun name => h.selected.settled h.sound
  obtain ⟨hkept, hstate⟩ := (hmeets before v p rfl h.run).1 v' p' hstep
  have hthere : ∀ name, before.entries (.transaction name) ≠ none →
      v.entries (.transaction name) ≠ none := by
    intro name hname
    have hsame : before.Same v (.transaction name) := by
      rcases h.state with hleft | ⟨other, hpublished⟩
      · exact hleft.kept _ name rfl hname
      · exact hpublished.kept _ name rfl hname
    rw [hsame.entry]
    exact hname
  have hsound' : v'.Sound := by
    rcases hstate with hleft | ⟨other, hpublished⟩
    · exact hleft.sound
    · exact hpublished.sound
  refine ⟨hkept, hsound', h.sound, h.mapped, ?_, h.run.own hstep, hstate, ?_⟩
  · refine h.selected.imp_right ?_
    rintro ⟨name, request', hauthor, hselected⟩
    refine ⟨name, request', ?_, hselected⟩
    unfold authored
    rw [if_neg fun hnew => hthere name (hselected.directory h.sound) hnew.1]
    exact hauthor
  · intro name hbefore hname
    unfold authored
    split
    · rfl
    · rename_i hnew
      exact h.made name hbefore fun hnone => hnew ⟨hnone, hname⟩

theorem Committing.ended {result : Except StatusCode Bytes}
    (h : Committing author request before v (.done result)) :
    Ends (Published before request) (fun _ => Untouched before) result v := by
  have hmeets := commit_meets h.sound h.mapped fun name => h.selected.settled h.sound
  exact (hmeets before v _ rfl h.run).2 result rfl

theorem Collecting.step {pinned : Bytes} {p p' : StoreProg (Except StatusCode Unit)}
    (h : Collecting pinned before v p) (hstep : Step SparedExec v p v' p') :
    FilesKept v v' ∧ Collecting pinned before v' p' := by
  have hmeets := @collectGarbage_meets before pinned h.sound
  obtain ⟨hkept, hspared⟩ := (hmeets before v p rfl h.run).1 v' p' hstep
  exact ⟨hkept, h.sound, h.run.own hstep, hspared⟩

theorem WellSelected.spared {pinned : Bytes} (h : WellSelected author before)
    (hspared : Spared before pinned v) : WellSelected author v := by
  rcases h with hnone | ⟨name, request, hauthor, hselected⟩
  · left
    rw [hspared.current.entry]
    exact hnone
  · refine .inr ⟨name, request, hauthor, hselected.same hspared.current ?_⟩
    exact fun path hpath => hspared.kept path name hpath (.inr hselected.selects)

theorem WellSelected.crashed (h : WellSelected author v) (hcrash : v.Crashed v') :
    WellSelected author v' ∧ FilesKept v v' := by
  have hread : v.entries .current ≠ none → ∃ selector, v.read .current = some ⟨selector, true⟩ := by
    intro hthere
    rcases h with hnone | ⟨name, request, -, hselected⟩
    · exact absurd hnone hthere
    · obtain ⟨selector, manifest, hread, -⟩ := hselected.selected
      exact ⟨selector, hread⟩
  refine ⟨?_, fun path node _ hnode hflushed => .inl (Crashed.read hcrash hnode hflushed), ?_⟩
  · rcases h with hnone | ⟨name, request, hauthor, hselected⟩
    · left
      rcases hcrash.entries .current with hsame | ⟨hgone, -⟩
      · exact hsame.trans hnone
      · exact hgone
    · exact .inr ⟨name, request, hauthor, hselected.crashed hcrash⟩
  · intro hthere hnone
    obtain ⟨selector, hselector⟩ := hread hthere
    have hkept := Crashed.read hcrash hselector rfl
    rw [read_of_none hnone] at hkept
    cases hkept

theorem StoreKept.step {s s' : StoreState} (h : StoreKept s) (hstep : StoreStep SparedExec s s') :
    StoreKept s' ∧ FilesKept s.volume s'.volume := by
  obtain ⟨hsound, hselected, hactivity⟩ := h
  cases hstep with
  | @beginCommit v author request hmapped =>
    refine ⟨⟨hsound, hselected, hsound, hmapped, hselected, .refl, .inl ?_, ?_⟩, .refl v⟩
    · exact ⟨hsound, fun _ _ _ _ => .rfl, .rfl⟩
    · exact fun name hnone hthere => absurd hnone hthere
  | commitStep hown =>
    obtain ⟨hkept, hsound', hcommitting⟩ := Committing.step hactivity hown
    refine ⟨⟨hsound', ?_, hcommitting⟩, hkept⟩
    exact hcommitting.selected.committing hcommitting.sound hcommitting.made hcommitting.state
  | committed _ => exact ⟨⟨hsound, hselected, trivial⟩, .refl _⟩
  | @beginCollect v author pinned =>
    refine ⟨⟨hsound, hselected, hselected, hsound, .refl, ?_⟩, .refl v⟩
    exact ⟨hsound, .rfl, fun _ _ _ _ => .rfl⟩
  | collectStep hown =>
    obtain ⟨hbefore, hcollecting⟩ := hactivity
    obtain ⟨hkept, hcollecting'⟩ := hcollecting.step hown
    exact ⟨⟨hcollecting'.spared.sound, hbefore.spared hcollecting'.spared, hbefore, hcollecting'⟩,
      hkept⟩
  | collected _ => exact ⟨⟨hsound, hselected, trivial⟩, .refl _⟩
  | crash hcrash =>
    obtain ⟨hselected', hkept⟩ := hselected.crashed hcrash
    exact ⟨⟨Crashed.sound hcrash hsound, hselected', trivial⟩, hkept⟩

theorem StoreReachable.kept {s : StoreState} (h : StoreReachable SparedExec s) : StoreKept s := by
  induction h with
  | start => exact ⟨⟨nofun, nofun, nofun⟩, .inl rfl, trivial⟩
  | step _ hstep ih => exact (ih.step hstep).1

/-- Commits are crash-atomic in runs with memory for their results. -/
theorem spared_runs_crash_atomic {s : StoreState} (h : StoreReachable SparedExec s) :
    CrashAtomic SparedExec s := by
  have hkept := h.kept
  obtain ⟨v, author, activity⟩ := s
  refine ⟨hkept.selected, fun s' hstep => (hkept.step hstep).2, ?_, ?_, ?_⟩
  · rintro pinned before p rfl
    exact hkept.activity.2.spared
  · rintro request before code rfl
    exact (Committing.ended hkept.activity).current
  · rintro request before name rfl
    have hpublished := Committing.ended hkept.activity
    exact ⟨hpublished.fresh, hpublished.selected⟩

theorem StoreReachable.run
    {Exec : StoreVolume → (op : StoreOp) → StoreAnswer op → StoreVolume → Prop}
    {p p' : StoreProg (Except StatusCode Bytes)}
    (h : StoreReachable Exec ⟨v, author, .committing request before p⟩)
    (hrun : Run Exec (fun _ _ => False) v p v' p') :
    ∃ author', StoreReachable Exec ⟨v', author', .committing request before p'⟩ := by
  induction hrun with
  | refl => exact ⟨author, h⟩
  | own _ hstep ih =>
    obtain ⟨author', hreachable⟩ := ih
    exact ⟨_, hreachable.step (.commitStep hstep)⟩
  | other _ hother _ => exact hother.elim

/-! ## A commit into an empty store -/

def emptyRequest : CommitRequest :=
  ⟨fun _ => 0, ⟨fun _ => 0, {}, ⟨.empty, .empty, .empty, .empty⟩, ⟨fun _ => none, fun _ => none⟩⟩⟩

/-- `"tx-1700000000000000000-4242-0"`. -/
def firstName : Bytes :=
  [116, 120, 45, 49, 55] ++ List.replicate 17 48 ++ [45, 52, 50, 52, 50, 45, 48]

theorem emptyRequest_mapped : emptyRequest.Mapped v :=
  ⟨nofun, nofun, nofun⟩

theorem run_call {α : Type} {s s₁ s₂ : StoreVolume} {p : StoreProg α} (op : StoreOp)
    {next : StoreAnswer op → StoreProg α} (answer : StoreAnswer op)
    (h : Run SparedExec (fun _ _ => False) s p s₁ (.call op next))
    (hexec : StoreExec s₁ op answer s₂) (hspared : ResultSpared op answer) :
    Run SparedExec (fun _ _ => False) s p s₂ (next answer) :=
  h.own (.call ⟨hexec, hspared⟩)

theorem first_commit : ∃ v next,
    Run SparedExec (fun _ _ => False) .blank
      (commit emptyRequest.memory emptyRequest.input).run v (.call (.allocate .result) next) ∧
    v.entries .current ≠ none ∧ next true = .done (.ok firstName) ∧
    next false = .done (.error .notAvailable) := by
  have hparent : ∀ (v : StoreVolume) (path parent : StorePath), path.parent = some parent →
      v.entries parent = some .directory → v.HasParent path := by
    intro v path parent hparent hentry other hother
    rw [hparent] at hother
    cases hother
    exact hentry
  have h := run_call (.allocate .paths) true (.refl : Run SparedExec (fun _ _ => False) .blank
    (commit emptyRequest.memory emptyRequest.input).run .blank _) (.allocate _ _ true) trivial
  have h := run_call .createRoot (.ok ()) h (.rootMade rfl) trivial
  have h := run_call (.readFile .current currentSelectorMaximumSize) (.error .notFound) h
    (.fileMissing rfl) trivial
  have h := run_call (.allocate .transaction) true h (.allocate _ _ true) trivial
  have h := run_call .candidate firstName h (.candidate _ (by decide)) trivial
  have h := run_call (.createDirectory (.transaction firstName)) (.ok true) h
    (.directoryMade rfl (hparent _ _ .root rfl rfl)) trivial
  have h := run_call (.allocate .artifacts) true h (.allocate _ _ true) trivial
  have h := run_call (.write (.file firstName .compiled) _) (.ok ()) h
    (.written (by decide) (hparent _ _ (.transaction firstName) rfl rfl)) trivial
  have h := run_call (.allocate .artifacts) true h (.allocate _ _ true) trivial
  have h := run_call (.write (.file firstName .sourceManager) _) (.ok ()) h
    (.written (by decide) (hparent _ _ (.transaction firstName) rfl rfl)) trivial
  have h := run_call (.allocate .artifacts) true h (.allocate _ _ true) trivial
  have h := run_call (.write (.file firstName .buildCache) _) (.ok ()) h
    (.written (by decide) (hparent _ _ (.transaction firstName) rfl rfl)) trivial
  have h := run_call (.allocate .artifacts) true h (.allocate _ _ true) trivial
  have h := run_call (.write (.file firstName .manifest) _) (.ok ()) h
    (.written (by decide) (hparent _ _ (.transaction firstName) rfl rfl)) trivial
  have h := run_call (.flush (.transaction firstName)) (.ok ()) h (.flushed _ _) trivial
  have h := run_call (.flush .root) (.ok ()) h (.flushed _ _) trivial
  have h := run_call (.allocate .selector) true h (.allocate _ _ true) trivial
  have h := run_call (.allocate .selectorPath) true h (.allocate _ _ true) trivial
  have h := run_call .selectorNumber (0 : Nat) h (.selectorNumber _ 0) trivial
  have h := run_call (.write (.selectorTemp 0) _) (.ok ()) h
    (.written (by decide) (hparent _ _ .root rfl rfl)) trivial
  have h := run_call (.replace (.selectorTemp 0) .current) (.ok ()) h
    (.replaced rfl (by decide) (hparent _ _ .root rfl rfl)) trivial
  have h := run_call (.flush .root) (.ok ()) h (.flushed _ _) trivial
  exact ⟨_, _, h, by decide, rfl, rfl⟩

theorem first_commit_crash_atomic : ∃ v author,
    StoreReachable SparedExec
      ⟨v, author, .committing emptyRequest .blank (.done (.ok firstName))⟩ ∧
    CrashAtomic SparedExec
      ⟨v, author, .committing emptyRequest .blank (.done (.ok firstName))⟩ := by
  obtain ⟨v, next, hrun, -, hok, -⟩ := first_commit
  have hend := run_call (.allocate .result) true hrun (.allocate _ _ true) rfl
  rw [hok] at hend
  obtain ⟨author, hreachable⟩ := (StoreReachable.step .start
    (.beginCommit emptyRequest emptyRequest_mapped)).run hend
  exact ⟨v, author, hreachable, spared_runs_crash_atomic hreachable⟩

/-- Without memory for the result a commit fails after CURRENT has been replaced. -/
theorem failure_after_publication : ∃ v author,
    StoreReachable StoreExec
      ⟨v, author, .committing emptyRequest .blank (.done (.error .notAvailable))⟩ ∧
    v.entries .current ≠ none ∧
    ¬CrashAtomic StoreExec
      ⟨v, author, .committing emptyRequest .blank (.done (.error .notAvailable))⟩ := by
  obtain ⟨v, next, hrun, hthere, -, herror⟩ := first_commit
  have hend := (hrun.widen fun _ _ _ _ h => h.1).own (.call (.allocate v .result false))
  rw [herror] at hend
  obtain ⟨author, hreachable⟩ := (StoreReachable.step .start
    (.beginCommit emptyRequest emptyRequest_mapped)).run hend
  refine ⟨v, author, hreachable, hthere, ?_⟩
  intro hatomic
  exact hthere (hatomic.failed emptyRequest .blank .notAvailable rfl).entry

end Runs

end ServerEngine

import ServerEngine.Persistence.StoreSteps

/-! # Tasks of a commit

A task works in an area of the transaction's directory. It sees the other tasks change other areas
only, so that what it knows of the files of its own area stays true.
-/
namespace ServerEngine
open Programs StoreVolume

variable {v v' : StoreVolume} {path : StorePath}

/-! ## A commit at work -/

def commitArea (transaction : Option Bytes) (path : StorePath) : Prop :=
  path = .root ∨ path.isTemp = true ∨ (path.inside ≠ none ∧ path.inside = transaction)

structure Working (before : StoreVolume) (transaction : Option Bytes) (v : StoreVolume) :
    Prop where
  sound : v.Sound
  same : ∀ path, ¬commitArea transaction path → before.Same v path

structure FilesKept (v v' : StoreVolume) : Prop where
  files : ∀ path node, path.inside ≠ none → v.read path = some node → node.flushed = true →
    v'.read path = some node ∨ v'.read path = none
  current : v.entries .current ≠ none → v'.entries .current ≠ none

theorem FilesKept.refl (v : StoreVolume) : FilesKept v v := ⟨fun _ _ _ h _ => .inl h, id⟩

theorem filesKept_of_changed {area : StorePath → Prop} (h : Changed area v v')
    (hcurrent : ¬area .current) : FilesKept v v' :=
  ⟨h.files, fun hthere => by rw [(h.same _ hcurrent).entry]; exact hthere⟩

theorem Working.changed {before : StoreVolume} {transaction : Option Bytes}
    {area : StorePath → Prop} (h : Working before transaction v) (hchanged : Changed area v v')
    (harea : ∀ path, area path → commitArea transaction path) : Working before transaction v' :=
  ⟨hchanged.sound, fun path hpath =>
    (h.same path hpath).trans (hchanged.same path fun hin => hpath (harea path hin))⟩

/-! ## The files of an area -/

abbrev Files := StorePath → Option Bytes

def Holds (area : StorePath → Prop) (files : Files) (v : StoreVolume) : Prop :=
  ∀ path, area path → v.read path = (files path).map fun bytes => ⟨bytes, true⟩

section Tasks
variable (before : StoreVolume) (transaction : Bytes) (area : StorePath → Prop)

def Holding (known : Files → Prop) (v : StoreVolume) : Prop :=
  Working before (some transaction) v ∧ ∃ files, Holds area files v ∧ known files

def Leftover (whole : StorePath) (code : StatusCode) (v : StoreVolume) : Prop :=
  Working before (some transaction) v ∧
    (code = .notAvailable → ∃ files, Holds area files v ∧ files whole = none)

def TaskRely (v v' : StoreVolume) : Prop :=
  Working before (some transaction) v' ∧ ∀ path, area path → v.Same v' path

def TaskGuarantee (v v' : StoreVolume) : Prop :=
  Working before (some transaction) v' ∧ FilesKept v v' ∧ ∀ path, ¬area path → v.Same v' path

end Tasks

variable {before : StoreVolume} {transaction : Bytes} {area : StorePath → Prop}
variable {area' : StorePath → Prop} {files : Files}

theorem Holds.mono (h : Holds area files v) (hsub : ∀ path, area' path → area path) :
    Holds area' files v :=
  fun path hpath => h path (hsub path hpath)

theorem Holds.same (h : Holds area files v) (hsame : ∀ path, area path → v.Same v' path) :
    Holds area files v' :=
  fun path hpath => (hsame path hpath).read.trans (h path hpath)

theorem Holds.updated {bytes : Bytes} (h : Holds area files v)
    (hsame : ∀ other, other ≠ path → v.Same v' other) (hread : v'.read path = some ⟨bytes, true⟩) :
    Holds area (Function.update files path (some bytes)) v' := by
  intro other hother
  by_cases heq : other = path
  · subst heq
    rw [hread, Function.update_self]
    rfl
  · rw [Function.update_of_ne heq, (hsame other heq).read]
    exact h other hother

theorem Holding.mono {known known' : Files → Prop} (hknown : ∀ files, known files → known' files)
    (h : Holding before transaction area known v) : Holding before transaction area known' v := by
  obtain ⟨hworking, files, hfiles, hk⟩ := h
  exact ⟨hworking, files, hfiles, hknown files hk⟩

theorem Holding.stable {known : Files → Prop} (hrely : TaskRely before transaction area v v')
    (h : Holding before transaction area known v) : Holding before transaction area known v' := by
  obtain ⟨-, files, hfiles, hknown⟩ := h
  exact ⟨hrely.1, files, hfiles.same hrely.2, hknown⟩

variable {code : StatusCode}

theorem Holding.leftover {known : Files → Prop} {whole : StorePath}
    (h : Holding before transaction area known v)
    (hwhole : ∀ files, known files → files whole = none) :
    Leftover before transaction area whole code v := by
  obtain ⟨hworking, files, hfiles, hknown⟩ := h
  exact ⟨hworking, fun _ => ⟨files, hfiles, hwhole files hknown⟩⟩

theorem Leftover.stable {whole : StorePath} (hrely : TaskRely before transaction area v v')
    (h : Leftover before transaction area whole code v) :
    Leftover before transaction area whole code v' := by
  refine ⟨hrely.1, ?_⟩
  intro hcode
  obtain ⟨files, hfiles, hwhole⟩ := h.2 hcode
  exact ⟨files, hfiles.same hrely.2, hwhole⟩

theorem Working.guarantee (h : Working before (some transaction) v)
    (hchanged : Changed area' v v') (hsub : ∀ path, area' path → area path)
    (harea : ∀ path, area path → path.inside = some transaction) :
    TaskGuarantee before transaction area v v' := by
  refine ⟨h.changed hchanged ?_, filesKept_of_changed hchanged ?_, ?_⟩
  · intro path hpath
    have hin := harea path (hsub path hpath)
    exact .inr (.inr ⟨by rw [hin]; simp, hin⟩)
  · intro hcurrent
    cases harea _ (hsub _ hcurrent)
  · intro path hpath
    exact hchanged.same path fun hin => hpath (hsub path hin)

theorem holds_together {ι : Type} {areas : ι → StorePath → Prop} {known : ι → Files → Prop}
    (h : ∀ i, ∃ files, Holds (areas i) files v ∧ known i files)
    (hlocal : ∀ i files files', (∀ path, areas i path → files' path = files path) →
      known i files → known i files') :
    ∃ files, Holds (fun path => ∃ i, areas i path) files v ∧ ∀ i, known i files := by
  have hcontent : ∀ {i : ι} {files : Files}, Holds (areas i) files v → ∀ path, areas i path →
      (v.read path).map (·.content) = files path := by
    intro i files hfiles path hpath
    rw [hfiles path hpath, Option.map_map]
    exact congrFun Option.map_id _
  refine ⟨fun path => (v.read path).map (·.content), ?_, ?_⟩
  · rintro path ⟨i, hpath⟩
    obtain ⟨files, hfiles, -⟩ := h i
    dsimp only
    rw [hcontent hfiles path hpath]
    exact hfiles path hpath
  · intro i
    obtain ⟨files, hfiles, hknown⟩ := h i
    exact hlocal i files _ (hcontent hfiles) hknown

/-! ## Programs that may fail -/

section Rules
variable {Exec : StoreVolume → (op : StoreOp) → StoreAnswer op → StoreVolume → Prop}
  {rely guarantee : StoreVolume → StoreVolume → Prop} {pre : StoreVolume → Prop} {α : Type}
  {post : α → StoreVolume → Prop} {failed failed' : StatusCode → StoreVolume → Prop}
  {p : StoreM α} {code : StatusCode → StatusCode}

theorem mapError_meets (hpost : ∀ value s s', rely s s' → post value s → post value s')
    (hfailed : ∀ code s s', rely s s' → failed code s → failed code s')
    (h : MeetsOr Exec rely guarantee pre p post fun error => failed (code error)) :
    MeetsOr Exec rely guarantee pre (StoreM.mapError code p) post failed := by
  refine Meets.bind h ?_
  intro result
  cases result with
  | ok value => exact Meets.done (hpost value) fun _ h => h
  | error error => exact Meets.done (hfailed (code error)) fun _ h => h

theorem cleaning_meets {top : StorePath} (h : MeetsOr Exec rely guarantee pre p post failed)
    (hpost : ∀ value s s', rely s s' → post value s → post value s')
    (hfailed : ∀ code s s', rely s s' → failed code s → failed code s')
    (hfailed' : ∀ code s s', rely s s' → failed' code s → failed' code s')
    (hremove : ∀ error s answer s', failed error s → Exec s (.removeTree top) answer s' → guarantee s s' ∧ failed' (code error) s') :
    MeetsOr Exec rely guarantee pre (StoreM.cleaning top code p) post failed' := by
  refine Meets.bind h ?_
  intro result
  cases result with
  | ok value => exact Meets.done (hpost value) fun _ h => h
  | error error =>
    refine Meets.bind (Meets.perform (hfailed error) (fun _ => hfailed' (code error))
      (hremove error)) ?_
    intro removed
    exact Meets.done (hfailed' (code error)) fun _ h => h

end Rules

/-- A task that may fail, from what is known of its files to what is known then. -/
abbrev TaskMeets (before : StoreVolume) (transaction : Bytes) (area : StorePath → Prop)
    (whole : StorePath) {α : Type} (known : Files → Prop) (p : StoreM α)
    (post : α → Files → Prop) : Prop :=
  MeetsOr StoreExec (TaskRely before transaction area) (TaskGuarantee before transaction area)
    (Holding before transaction area known) p
    (fun value => Holding before transaction area (post value))
    (Leftover before transaction area whole)

theorem meets_of_files {rely guarantee : StoreVolume → StoreVolume → Prop} {α : Type}
    {known : Files → Prop} {p : StoreProg α} {post : α → StoreVolume → Prop}
    (h : ∀ files, known files → Meets StoreExec rely guarantee
      (Holding before transaction area (· = files)) p post) :
    Meets StoreExec rely guarantee (Holding before transaction area known) p post := by
  intro s s' p' hs hrun
  obtain ⟨hworking, files, hfiles, hknown⟩ := hs
  exact h files hknown s s' p' ⟨hworking, files, hfiles, rfl⟩ hrun

namespace TaskMeets
variable {whole : StorePath} {α β : Type} {known : Files → Prop} {p : StoreM α}
  {post : α → Files → Prop}

theorem ends_stable {result : Except StatusCode α} {s s' : StoreVolume}
    (hrely : TaskRely before transaction area s s')
    (h : Ends (fun value => Holding before transaction area (post value))
      (Leftover before transaction area whole) result s) :
    Ends (fun value => Holding before transaction area (post value))
      (Leftover before transaction area whole) result s' := by
  cases result with
  | ok value => exact Holding.stable hrely h
  | error code => exact Leftover.stable hrely h

theorem bind {k : α → StoreM β} {post' : β → Files → Prop}
    (h : TaskMeets before transaction area whole known p post)
    (hnext : ∀ value files, post value files →
      TaskMeets before transaction area whole (· = files) (k value) post') :
    TaskMeets before transaction area whole known (p >>= k) post' :=
  MeetsOr.bind (fun _ _ _ => Leftover.stable) h fun value => meets_of_files (hnext value)

theorem pure {value : α} (h : ∀ files, known files → post value files) :
    TaskMeets before transaction area whole known (Pure.pure value : StoreM α) post :=
  MeetsOr.pure (fun _ _ => Holding.stable) fun _ hs => hs.mono h

theorem throw {code : StatusCode} (h : ∀ files, known files → files whole = none) :
    TaskMeets before transaction area whole known (MonadExcept.throw code : StoreM α) post :=
  MeetsOr.throw (fun _ _ => Holding.stable) fun _ hs => hs.leftover h

theorem keep {q : StoreProg (Except StatusCode α)}
    (h : Meets StoreExec (TaskRely before transaction area) (TaskGuarantee before transaction area)
      (Holding before transaction area known) q fun _ => Holding before transaction area known)
    (hwhole : ∀ files, known files → files whole = none) :
    TaskMeets before transaction area whole known (ExceptT.mk q) fun _ => known := by
  refine Meets.conseq h (fun _ h => h) ?_
  intro answer s hs
  cases answer with
  | ok value => exact hs
  | error code => exact hs.leftover hwhole

theorem ask {op : StoreOp} {k : StoreAnswer op → StoreM α} {mid : StoreAnswer op → Files → Prop}
    (h : Meets StoreExec (TaskRely before transaction area) (TaskGuarantee before transaction area)
      (Holding before transaction area known) (ServerEngine.ask op)
      fun answer => Holding before transaction area (mid answer))
    (hnext : ∀ answer files, mid answer files →
      TaskMeets before transaction area whole (· = files) (k answer) post) :
    TaskMeets before transaction area whole known (ExceptT.lift (ServerEngine.ask op) >>= k) post := by
  change Meets _ _ _ _ ((ServerEngine.ask op).bind fun answer => (k answer).run) _
  exact Meets.bind h fun answer => meets_of_files (hnext answer)

end TaskMeets

/-! ## Operations of a task -/

section TaskOperations

theorem task_keep {op : StoreOp} {known : Files → Prop} {fact : StoreAnswer op → Prop}
    (hexec : ∀ v answer v', Working before (some transaction) v → StoreExec v op answer v' →
      v' = v ∧ fact answer) :
    Meets StoreExec (TaskRely before transaction area) (TaskGuarantee before transaction area)
      (Holding before transaction area known) (ask op)
      fun answer => Holding before transaction area fun files => known files ∧ fact answer := by
  refine Meets.perform (fun _ _ => Holding.stable) (fun _ _ _ => Holding.stable) ?_
  intro s answer s' hs hstep
  obtain ⟨rfl, hfact⟩ := hexec s answer s' hs.1 hstep
  exact ⟨⟨hs.1, .refl _, fun _ _ => .rfl⟩, hs.mono fun files hk => ⟨hk, hfact⟩⟩

theorem task_flush {known : Files → Prop} {whole : StorePath} (path : StorePath)
    (hwhole : ∀ files, known files → files whole = none) :
    TaskMeets before transaction area whole known (StoreM.flush path) fun _ => known := by
  refine TaskMeets.keep (Meets.conseq (@task_keep before transaction area (.flush path) known
    (fun _ => True) ?_) (fun _ h => h) fun _ _ h => h.mono fun _ hk => hk.1) hwhole
  intro v answer v' _ hstep
  exact ⟨(exec_flush hstep).1, trivial⟩

theorem task_readFile {known : Files → Prop} {whole : StorePath} (path : StorePath) (maximum : Nat)
    (code : StatusCode → StatusCode) (hwhole : ∀ files, known files → files whole = none) :
    TaskMeets before transaction area whole known
      (StoreM.mapError code (StoreM.readFile path maximum)) fun _ => known := by
  refine mapError_meets (fun _ _ _ => Holding.stable) (fun _ _ _ => Leftover.stable) ?_
  refine Meets.conseq (@task_keep before transaction area (.readFile path maximum) known
    (fun _ => True) ?_) (fun _ h => h) ?_
  · intro v answer v' _ hstep
    exact ⟨(exec_readFile hstep).1, trivial⟩
  · intro answer s hs
    have hkept : Holding before transaction area known s := hs.mono fun _ h => h.1
    cases answer with
    | ok bytes => exact hkept
    | error error => exact hkept.leftover hwhole

variable (harea : ∀ path, area path → path.inside = some transaction)
include harea

theorem task_write {files : Files} {bytes : Bytes} (hpath : area path)
    (hnone : files path = none) :
    MeetsOr StoreExec (TaskRely before transaction area) (TaskGuarantee before transaction area)
      (Holding before transaction area (· = files)) (StoreM.write path bytes)
      (fun _ => Holding before transaction area (· = Function.update files path (some bytes)))
      fun code v => Working before (some transaction) v ∧ code = .ioFailed := by
  refine Meets.perform (fun _ _ => Holding.stable) ?_ ?_
  · intro answer s s' hrely hs
    cases answer with
    | ok value => exact Holding.stable hrely hs
    | error code => exact ⟨hrely.1, hs.2⟩
  · rintro s answer s' ⟨hworking, files', hfiles, rfl⟩ hstep
    have hread : s.read path = none := by
      rw [hfiles path hpath, hnone]
      rfl
    obtain ⟨hchanged, hanswer⟩ := exec_write hstep hworking.sound (.inl hread)
    have hguarantee := hworking.guarantee hchanged (by rintro other rfl; exact hpath) harea
    refine ⟨hguarantee, ?_⟩
    rcases hanswer with ⟨rfl, hwritten⟩ | rfl
    · exact ⟨hguarantee.1, _, hfiles.updated hchanged.same hwritten, rfl⟩
    · exact ⟨hguarantee.1, rfl⟩

theorem task_link {files : Files} {source : StorePath} {bytes : Bytes} (hpath : area path)
    (htemp : source.isTemp = false)
    (hsource : source = path ∨ (¬commitArea (some transaction) source ∧
      ∀ node, before.read source = some node → node = ⟨bytes, true⟩)) :
    Meets StoreExec (TaskRely before transaction area) (TaskGuarantee before transaction area)
      (Holding before transaction area (· = files)) (ask (.link source path))
      fun outcome : LinkOutcome => Holding before transaction area
        (· = if outcome = .linked then Function.update files path (some bytes)
          else files) := by
  refine Meets.perform (fun _ _ => Holding.stable) (fun _ _ _ => Holding.stable) ?_
  rintro s outcome s' ⟨hworking, files', hfiles, rfl⟩ hstep
  have hnotTemp : path.isTemp = false := by
    have hin := harea path hpath
    cases path <;> first | rfl | cases hin
  obtain ⟨hchanged, houtcome⟩ := exec_link hstep hworking.sound htemp hnotTemp
  have hguarantee := hworking.guarantee hchanged (by rintro other rfl; exact hpath) harea
  refine ⟨hguarantee, hguarantee.1, ?_⟩
  rcases houtcome with ⟨hlinked, hentry, hthere, hread⟩ | ⟨hlinked, rfl⟩
  · refine ⟨_, hfiles.updated hchanged.same (?_ : s'.read path = some ⟨bytes, true⟩), ?_⟩
    · rcases hsource with rfl | ⟨hout, hnode⟩
      · exact absurd (read_of_none hentry) hthere
      · rw [hread]
        rw [(hworking.same source hout).read] at hthere ⊢
        cases hbefore : before.read source with
        | none => exact absurd hbefore hthere
        | some node => rw [hnode node hbefore]
    · exact (if_pos hlinked).symm
  · exact ⟨files', hfiles, (if_neg hlinked).symm⟩

theorem task_createDirectory {known : Files → Prop} (hpath : area path) :
    Meets StoreExec (TaskRely before transaction area) (TaskGuarantee before transaction area)
      (Holding before transaction area known) (ask (.createDirectory path))
      fun _ => Holding before transaction area known := by
  refine Meets.perform (fun _ _ => Holding.stable) (fun _ _ _ => Holding.stable) ?_
  rintro s answer s' ⟨hworking, files, hfiles, hknown⟩ hstep
  obtain ⟨hchanged, hanswer⟩ := exec_createDirectory hstep hworking.sound
  have hguarantee := hworking.guarantee hchanged (by rintro other rfl; exact hpath) harea
  refine ⟨hguarantee, hguarantee.1, files, ?_, hknown⟩
  rcases hanswer with ⟨-, hnone, hmade⟩ | ⟨-, rfl⟩
  · intro other hother
    by_cases heq : other = path
    · subst heq
      rw [← hfiles other hother, read_of_none hnone]
      unfold StoreVolume.read
      rw [hmade]
    · rw [(hchanged.same other heq).read]
      exact hfiles other hother
  · exact hfiles

/-- What is left of a tree that is removed are files that were there. -/
theorem task_removeTree {top : StorePath} {answer : Bool}
    (hstep : StoreExec v (.removeTree top) answer v')
    (hworking : Working before (some transaction) v)
    (hin : ∀ path, top ∈ path.lineage → area path) :
    TaskGuarantee before transaction area v v' ∧
      ∀ files, Holds area files v →
        ∃ files', Holds area files' v' ∧ ∀ path, files path = none → files' path = none := by
  obtain ⟨hchanged, hentries⟩ := exec_removeTree hstep hworking.sound
  have hguarantee := hworking.guarantee hchanged hin harea
  refine ⟨hguarantee, ?_⟩
  intro files hfiles
  refine ⟨fun path => if v'.read path = none then none else files path, ?_, ?_⟩
  · intro path hpath
    dsimp only
    by_cases hnone : v'.read path = none
    · rw [if_pos hnone, hnone]
      rfl
    · rw [if_neg hnone, ← hfiles path hpath]
      cases hread : v.read path with
      | none =>
        exfalso
        apply hnone
        rcases hentries path with hsame | hgone
        · cases hentry : v.entries path with
          | none => exact read_of_none (hsame.trans hentry)
          | some entry =>
            cases entry with
            | directory =>
              unfold StoreVolume.read
              rw [hsame, hentry]
            | file id =>
              rw [read_eq_some.mpr ⟨id, hentry, rfl⟩] at hread
              cases hread
        · exact read_of_none hgone
      | some node =>
        have hflushed : node.flushed = true := by
          have hnode := hfiles path hpath
          rw [hread] at hnode
          cases hbytes : files path with
          | none =>
            rw [hbytes] at hnode
            cases hnode
          | some bytes =>
            rw [hbytes] at hnode
            cases hnode
            rfl
        have hinside : path.inside ≠ none := by
          rw [harea path hpath]
          simp
        rcases hchanged.files path node hinside hread hflushed with hkept | hgone
        · exact hkept
        · exact absurd hgone hnone
  · intro path hnone
    dsimp only
    split
    · rfl
    · exact hnone

end TaskOperations

/-! ## Tasks together -/

variable {n : Nat}

theorem tasks_together {areas : Fin n → StorePath → Prop}
    (hdisjoint : ∀ i j path, areas i path → areas j path → i = j)
    {tasks : Fin n → StoreProg (Except StatusCode Unit)} {known : Fin n → Files → Prop}
    {posts : Fin n → Except StatusCode Unit → StoreVolume → Prop}
    (htasks : ∀ i, Meets StoreExec (TaskRely before transaction (areas i)) (TaskGuarantee before transaction (areas i)) (Holding before transaction (areas i) (known i)) (tasks i) (posts i))
    (hstable : ∀ i result s s', TaskRely before transaction (areas i) s s' → posts i result s → posts i result s')
    (hposts : ∀ i result s, posts i result s → Working before (some transaction) s) (hn : 0 < n) :
    Meets StoreExec (TaskRely before transaction fun path => ∃ i, areas i path)
      (TaskGuarantee before transaction fun path => ∃ i, areas i path)
      (Holding before transaction (fun path => ∃ i, areas i path) fun files => ∀ i, known i files)
      (Prog.together tasks) fun results s => ∀ i, posts i (results i) s := by
  have hsub : ∀ i s s', TaskRely before transaction (fun path => ∃ i, areas i path) s s' →
      TaskRely before transaction (areas i) s s' :=
    fun i s s' h => ⟨h.1, fun path hpath => h.2 path ⟨i, hpath⟩⟩
  refine @Meets.fork _ _ _ _ _ _ _ _ _ _ _ _ _
    (fun i => TaskGuarantee before transaction (areas i))
    (fun i => Holding before transaction (areas i) (known i)) posts ?_ ?_ ?_ ?_ ?_
  · rintro s ⟨hworking, files, hfiles, hknown⟩ i
    exact ⟨hworking, files, hfiles.mono fun path hpath => ⟨i, hpath⟩, hknown i⟩
  · intro results s hs
    exact ⟨hposts ⟨0, hn⟩ _ s (hs ⟨0, hn⟩), .refl s, fun _ _ => .rfl⟩
  · intro i s s' h
    exact ⟨h.1, h.2.1, fun path hpath => h.2.2 path fun hin => hpath ⟨i, hin⟩⟩
  · intro i
    refine (htasks i).mono ?_ (fun _ _ h => h) (fun _ h => h) fun _ _ h => h
    rintro s s' (hrely | ⟨j, hj, hguarantee⟩)
    · exact hsub i s s' hrely
    · exact ⟨hguarantee.1, fun path hpath =>
        hguarantee.2.2 path fun hother => hj (hdisjoint j i path hother hpath)⟩
  · intro results
    exact Meets.done (fun s s' hrely hs i => hstable i _ s s' (hsub i s s' hrely) (hs i))
      fun _ h => h

variable {results : Fin n → Except StatusCode Unit}

theorem firstError_ok (h : firstError results = .ok ()) (i : Fin n) : results i = .ok () := by
  have hall : ∀ (list : List (Except StatusCode Unit)),
      list.foldlM (fun _ result => result) () = .ok () → ∀ result ∈ list, result = .ok () := by
    intro list
    induction list with
    | nil => simp
    | cons head rest ih =>
      intro hlist result hresult
      cases head with
      | error code => cases hlist
      | ok value =>
        rcases List.mem_cons.mp hresult with rfl | hrest
        · rfl
        · exact ih hlist result hrest
  exact hall _ h (results i) (List.mem_ofFn.mpr ⟨i, rfl⟩)

theorem firstError_error (h : firstError results = .error code) : ∃ i, results i = .error code := by
  have hall : ∀ (list : List (Except StatusCode Unit)),
      list.foldlM (fun _ result => result) () = .error code → .error code ∈ list := by
    intro list
    induction list with
    | nil => intro hlist; cases hlist
    | cons head rest ih =>
      intro hlist
      cases head with
      | error code' =>
        cases hlist
        exact List.mem_cons_self
      | ok value => exact List.mem_cons_of_mem _ (ih hlist)
  exact List.mem_ofFn.mp (hall _ h)

theorem writes_meets (harea : ∀ path, area path → path.inside = some transaction)
    (whole : StorePath) (hn : 0 < n) {paths : Fin n → StorePath} {contents : Fin n → Bytes}
    (hinjective : Function.Injective paths) (hpaths : ∀ i, area (paths i))
    (hfree : ∀ i, files (paths i) = none) : TaskMeets before transaction area whole (· = files)
      (ExceptT.mk do
        let results ← Prog.together fun i => (StoreM.write (paths i) (contents i)).run
        pure (firstError results))
      fun _ files' => (∀ i, files' (paths i) = some (contents i)) ∧
        ∀ path, area path → (∀ i, path ≠ paths i) → files' path = files path := by
  let written : Fin n → Except StatusCode Unit → StoreVolume → Prop := fun i =>
    Ends (fun _ => Holding before transaction (· = paths i)
      fun files' => files' (paths i) = some (contents i))
      fun code v => Working before (some transaction) v ∧ code = .ioFailed
  let rest : StorePath → Prop := fun path => area path ∧ ∀ i, path ≠ paths i
  have hstable : ∀ i result s s', TaskRely before transaction (· = paths i) s s' →
      written i result s → written i result s' := by
    intro i result s s' hrely hs
    cases result with
    | ok value => exact Holding.stable hrely hs
    | error code => exact ⟨hrely.1, hs.2⟩
  have hsub : ∀ path, (∃ i, path = paths i) → area path := by
    rintro _ ⟨i, rfl⟩
    exact hpaths i
  have hone : ∀ i s s', TaskRely before transaction area s s' →
      TaskRely before transaction (· = paths i) s s' :=
    fun i s s' h => ⟨h.1, fun path hpath => h.2 path (hsub path ⟨i, hpath⟩)⟩
  have htask : ∀ i, Meets StoreExec (TaskRely before transaction (· = paths i))
      (TaskGuarantee before transaction (· = paths i))
      (Holding before transaction (· = paths i) fun files' => files' (paths i) = none)
      (StoreM.write (paths i) (contents i)).run (written i) := by
    intro i
    refine meets_of_files ?_
    intro files' hnone
    refine (task_write (fun path hpath => harea path (hsub path ⟨i, hpath⟩)) rfl hnone).conseq
      (fun _ h => h) ?_
    intro result s hs
    cases result with
    | ok value =>
      refine Holding.mono ?_ hs
      rintro _ rfl
      exact Function.update_self _ _ _
    | error code => exact hs
  have hrely : ∀ s s', TaskRely before transaction area s s' →
      TaskRely before transaction (fun path => ∃ i, path = paths i) s s' :=
    fun s s' h => ⟨h.1, fun path hpath => h.2 path (hsub path hpath)⟩
  have hothers : ∀ s s', TaskRely before transaction area s s' → Holds rest files s →
      Holds rest files s' :=
    fun s s' h hs => hs.same fun path hpath => h.2 path hpath.1
  have hown : ∀ s s', TaskGuarantee before transaction (fun path => ∃ i, path = paths i) s s' →
      Holds rest files s → Holds rest files s' :=
    fun s s' h hs => hs.same fun path hpath => h.2.2 path fun ⟨i, hi⟩ => hpath.2 i hi
  have htogether := (tasks_together (fun i j path hi hj => hinjective (hi.symm.trans hj)) htask
    hstable (fun i result s hs => by cases result <;> exact hs.1) hn).mono hrely
    (fun _ _ h => h) (fun _ h => h) fun _ _ h => h
  have hframe := htogether.frame hothers hown
  refine Meets.bind (hframe.mono (fun _ _ h => h) ?_ ?_ fun _ _ h => h) ?_
  · intro s s' h
    exact ⟨h.1, h.2.1, fun path hpath => h.2.2 path fun hin => hpath (hsub path hin)⟩
  · rintro s ⟨hworking, files', hfiles, rfl⟩
    exact ⟨⟨hworking, files', hfiles.mono hsub, hfree⟩, hfiles.mono fun _ h => h.1⟩
  · intro results
    refine Meets.done ?_ ?_
    · rintro s s' hrely ⟨hs, hrest⟩
      exact ⟨fun i => hstable i _ s s' (hone i s s' hrely) (hs i),
        hrest.same fun path hpath => hrely.2 path hpath.1⟩
    · rintro s ⟨hs, hrest⟩
      cases hresult : firstError results with
      | error code =>
        obtain ⟨i, hi⟩ := firstError_error hresult
        have hfailed := hs i
        rw [hi] at hfailed
        exact ⟨hfailed.1, fun hcode => by rw [hfailed.2] at hcode; cases hcode⟩
      | ok value =>
        have hok : ∀ i, Holding before transaction (· = paths i)
            (fun files' => files' (paths i) = some (contents i)) s := by
          intro i
          have hwritten := hs i
          rw [firstError_ok hresult i] at hwritten
          exact hwritten
        obtain ⟨files', hfiles, hknown⟩ := @holds_together s (Option (Fin n))
          (fun i => match i with
            | none => rest
            | some i => (· = paths i))
          (fun i => match i with
            | none => fun files' => ∀ path, rest path → files' path = files path
            | some i => fun files' => files' (paths i) = some (contents i))
          (by
            intro i
            cases i with
            | none => exact ⟨files, hrest, fun _ _ => rfl⟩
            | some i => exact (hok i).2)
          (by
            intro i files₁ files₂ hsame hknown
            cases i with
            | none => exact fun path hpath => (hsame path hpath).trans (hknown path hpath)
            | some i => exact (hsame (paths i) rfl).trans hknown)
        refine ⟨(hok ⟨0, hn⟩).1, files', ?_, fun i => hknown (some i),
          fun path hpath hne => hknown none path ⟨hpath, hne⟩⟩
        refine hfiles.mono ?_
        intro path hpath
        by_cases hin : ∃ i, path = paths i
        · obtain ⟨i, hi⟩ := hin
          exact ⟨some i, hi⟩
        · exact ⟨none, hpath, fun i hi => hin ⟨i, hi⟩⟩

end ServerEngine

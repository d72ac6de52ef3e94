import ServerEngine.Persistence.CommitTasks

/-! # Artifacts by section

However each section comes to the new transaction, borrowed, compared or written, it has the bytes
of the image; and where the sections cannot be written the artifact is written whole.
-/
namespace ServerEngine
open Programs StoreVolume ByteFields

/-! ## What is stored -/

def artifactArea (transaction : Bytes) (artifact : ArtifactFile) (path : StorePath) : Prop :=
  path.artifact = some (transaction, artifact)

def sectionBytes (memory : Memory) (image : Segment) (value : StorageSection) : Bytes :=
  field (image.bytes memory) value.offset value.byteCount

def Sectioned (memory : Memory) (transaction : Bytes) (artifact : SectionedArtifact)
    (format : SectionFormat) (image : Segment) (files : Files) : Prop :=
  files (.file transaction artifact.file) = none ∧
    ∃ sections, parsePrefix format ((image.bytes memory).take format.prefixSize) image.size =
        some sections ∧
      files (.sectionPrefix transaction artifact) =
        some ((image.bytes memory).take format.prefixSize) ∧
      ∀ index value, sections[index]? = some value →
        files (.sectionFile transaction artifact index) = some (sectionBytes memory image value)

def Stored (memory : Memory) (transaction : Bytes) (artifact : SectionedArtifact)
    (format : SectionFormat) (image : Segment) (files : Files) : Prop :=
  files (.file transaction artifact.file) = some (image.bytes memory) ∨
    Sectioned memory transaction artifact format image files

theorem artifactArea_inside {transaction : Bytes} {artifact : ArtifactFile} {path : StorePath}
    (h : artifactArea transaction artifact path) : path.inside = some transaction := by
  cases path <;> simp_all [artifactArea, StorePath.artifact, StorePath.inside]

/-! ## Which sections are reused -/

/-- Sections from a first one on are linked, but for those that are pending. -/
structure SectionsReused (memory : Memory) (transaction : Bytes) (artifact : SectionedArtifact)
    (first : Nat) (wanted : List Bytes) (files files' : Files) (pending : List (Nat × Segment)) :
    Prop where
  others : ∀ path, (∀ index, first ≤ index → path ≠ .sectionFile transaction artifact index) →
    files' path = files path
  covered : ∀ k bytes, wanted[k]? = some bytes →
    files' (.sectionFile transaction artifact (first + k)) = some bytes ∨
      ∃ segment, (first + k, segment) ∈ pending
  free : ∀ entry ∈ pending, files' (.sectionFile transaction artifact entry.1) = none
  bytes : ∀ entry ∈ pending, ∃ k, entry.1 = first + k ∧
    wanted[k]? = some (entry.2.bytes memory)
  distinct : pending.Pairwise fun entry entry' => entry.1 ≠ entry'.1

section Reused
variable {memory : Memory} {transaction : Bytes} {artifact : SectionedArtifact} {first : Nat}
  {head : Bytes} {wanted : List Bytes} {files files' : Files} {pending : List (Nat × Segment)}

theorem SectionsReused.linked (h : SectionsReused memory transaction artifact (first + 1) wanted
    (Function.update files (.sectionFile transaction artifact first) (some head)) files' pending) :
    SectionsReused memory transaction artifact first (head :: wanted) files files' pending where
  others := by
    intro path hpath
    rw [h.others path fun index hindex => hpath index (by omega)]
    exact Function.update_of_ne (hpath first (Nat.le_refl _)) _ _
  covered := by
    intro k bytes hk
    cases k with
    | zero =>
      left
      rw [Nat.add_zero, h.others _ (by intro index hindex heq; cases heq; omega),
        Function.update_self]
      exact hk
    | succ k =>
      rw [show first + (k + 1) = first + 1 + k by omega]
      exact h.covered k bytes hk
  free := h.free
  bytes := by
    intro entry hentry
    obtain ⟨k, hk, hbytes⟩ := h.bytes entry hentry
    exact ⟨k + 1, by omega, hbytes⟩
  distinct := h.distinct

theorem SectionsReused.pended {segment : Segment}
    (h : SectionsReused memory transaction artifact (first + 1) wanted files files' pending)
    (hfree : files (.sectionFile transaction artifact first) = none)
    (hbytes : segment.bytes memory = head) :
    SectionsReused memory transaction artifact first (head :: wanted) files files'
      ((first, segment) :: pending) where
  others := fun path hpath => h.others path fun index hindex => hpath index (by omega)
  covered := by
    intro k bytes hk
    cases k with
    | zero => exact .inr ⟨segment, by simp⟩
    | succ k =>
      rw [show first + (k + 1) = first + 1 + k by omega]
      refine (h.covered k bytes hk).imp_right ?_
      rintro ⟨other, hother⟩
      exact ⟨other, List.mem_cons_of_mem _ hother⟩
  free := by
    intro entry hentry
    rcases List.mem_cons.mp hentry with rfl | hentry
    · rw [h.others _ (by intro index hindex heq; cases heq; omega)]
      exact hfree
    · exact h.free entry hentry
  bytes := by
    intro entry hentry
    rcases List.mem_cons.mp hentry with rfl | hentry
    · exact ⟨0, rfl, by rw [hbytes]; rfl⟩
    · obtain ⟨k, hk, hbytes⟩ := h.bytes entry hentry
      exact ⟨k + 1, by omega, hbytes⟩
  distinct := by
    rw [List.pairwise_cons]
    refine ⟨?_, h.distinct⟩
    intro entry hentry
    obtain ⟨k, hk, -⟩ := h.bytes entry hentry
    rw [hk]
    exact show first ≠ first + 1 + k by omega

end Reused

/-! ## The sections of a task -/

/-- What a writer of sections knows of the store before: the file of a section that it borrows has
the section's bytes, and the transaction it compares with has been flushed. -/
structure WriterReady (before : StoreVolume) (transaction : Bytes) (memory : Memory)
    (writer : SectionWriter) (previous : Option Bytes) : Prop where
  borrow : ∀ index value segment owner, writer.borrow index value segment = some owner →
    ∀ node, before.read (.sectionFile owner writer.artifact index) = some node →
      node = ⟨segment.bytes memory, true⟩
  previous : ∀ name, previous = some name → name ≠ transaction ∧
    ∀ index node, before.read (.sectionFile name writer.artifact index) = some node →
      node.flushed = true

section Writers
variable {before : StoreVolume} {transaction : Bytes} {memory : Memory} {writer : SectionWriter}
  {previous : Option Bytes}

abbrev SectionWriter.whole (writer : SectionWriter) (transaction : Bytes) : StorePath :=
  .file transaction writer.artifact.file

abbrev SectionWriter.area (writer : SectionWriter) (transaction : Bytes) : StorePath → Prop :=
  artifactArea transaction writer.artifact.file

variable {index : Nat}

theorem sectionFile_outside {name : Bytes} {artifact : SectionedArtifact} (h : name ≠ transaction) :
    ¬commitArea (some transaction) (.sectionFile name artifact index) := by
  rintro (hroot | htemp | ⟨-, hinside⟩)
  · cases hroot
  · cases htemp
  · exact h (Option.some.inj hinside)

variable {source bytes : Bytes}

theorem linkSection_meets {files : Files} (hwhole : files (writer.whole transaction) = none)
    (hsource : source = transaction ∨ ∀ node, before.read (.sectionFile source writer.artifact index) = some node → node = ⟨bytes, true⟩) :
    TaskMeets before transaction (writer.area transaction) (writer.whole transaction) (· = files)
      (linkSection writer transaction source index)
      fun reused => (· = if reused = true then
        Function.update files (.sectionFile transaction writer.artifact index) (some bytes)
        else files) := by
  have hpath : writer.area transaction (.sectionFile transaction writer.artifact index) := rfl
  refine TaskMeets.ask (@task_link _ before transaction _ (fun _ => artifactArea_inside) files _
    bytes hpath rfl ?_) ?_
  · by_cases heq : source = transaction
    · rw [heq]
      exact .inl rfl
    · exact .inr ⟨sectionFile_outside heq, hsource.resolve_left heq⟩
  · intro outcome files' hfiles
    cases outcome with
    | linked => exact TaskMeets.pure fun _ h => h.trans hfiles
    | rewrite => exact TaskMeets.pure fun _ h => h.trans hfiles
    | fail =>
      refine TaskMeets.throw ?_
      rintro _ rfl
      rw [hfiles]
      exact hwhole

theorem compare_meets {files : Files} {code : StatusCode → StatusCode}
    (hother : source ≠ transaction)
    (hflushed : ∀ node, before.read (.sectionFile source writer.artifact index) = some node → node.flushed = true)
    (hwhole : files (writer.whole transaction) = none) :
    TaskMeets before transaction (writer.area transaction) (writer.whole transaction) (· = files)
      (StoreM.mapError code (StoreM.compare (.sectionFile source writer.artifact index) bytes))
      fun same files' => files' = files ∧ (same = true →
        ∀ node, before.read (.sectionFile source writer.artifact index) = some node →
          node = ⟨bytes, true⟩) := by
  refine mapError_meets (fun _ _ _ => Holding.stable) (fun _ _ _ => Leftover.stable) ?_
  let fact : Except StatusCode Bool → Prop := fun answer => answer = .ok true →
    ∀ node, before.read (.sectionFile source writer.artifact index) = some node →
      node = ⟨bytes, true⟩
  have hkeep : ∀ v answer v', Working before (some transaction) v →
      StoreExec v (.compare (.sectionFile source writer.artifact index) bytes) answer v' →
      v' = v ∧ fact answer := by
    intro v answer v' hworking hstep
    obtain ⟨rfl, hsame, -⟩ := exec_compare hstep
    refine ⟨rfl, ?_⟩
    intro hanswer node hnode
    obtain ⟨node', hread, hcontent⟩ := hsame hanswer
    rw [(hworking.same _ (sectionFile_outside hother)).read, hnode] at hread
    cases hread
    rw [← hcontent, ← hflushed node hnode]
  refine (task_keep hkeep).conseq (fun _ h => h) ?_
  intro answer s hs
  cases answer with
  | ok same =>
    refine hs.mono ?_
    rintro files' ⟨rfl, hfact⟩
    exact ⟨rfl, fun hsame => hfact (by rw [hsame])⟩
  | error code =>
    refine hs.leftover ?_
    rintro files' ⟨rfl, -⟩
    exact hwhole

theorem compareSection_meets (hready : WriterReady before transaction memory writer previous)
    {files : Files} (hprevious : previous = some source)
    (hwhole : files (writer.whole transaction) = none) (sections : List StorageSection)
    (index : Nat) (value : StorageSection) (segment : Segment) :
    TaskMeets before transaction (writer.area transaction) (writer.whole transaction) (· = files)
      (compareSection memory writer transaction sections index value segment source)
      fun reused => (· = if reused = true then
        Function.update files (.sectionFile transaction writer.artifact index)
          (some (segment.bytes memory))
        else files) := by
  obtain ⟨hother, hflushed⟩ := hready.previous source hprevious
  unfold compareSection
  split
  · exact TaskMeets.pure fun _ h => h
  · split
    · refine TaskMeets.bind (compare_meets hother (hflushed index) hwhole) ?_
      rintro same files' ⟨rfl, hnode⟩
      cases same with
      | false => exact TaskMeets.pure fun _ h => h
      | true => exact linkSection_meets hwhole (.inr (hnode rfl))
    · exact TaskMeets.pure fun _ h => h

theorem compareSections_meets (hready : WriterReady before transaction memory writer previous)
    {files : Files} (hwhole : files (writer.whole transaction) = none)
    (sections : Option (List StorageSection)) (index : Nat) (value : StorageSection)
    (segment : Segment) :
    TaskMeets before transaction (writer.area transaction) (writer.whole transaction) (· = files)
      (match previous, sections with
        | some source, some sections =>
          compareSection memory writer transaction sections index value segment source
        | _, _ => pure false)
      fun reused => (· = if reused = true then
        Function.update files (.sectionFile transaction writer.artifact index)
          (some (segment.bytes memory))
        else files) := by
  cases previous with
  | none => exact TaskMeets.pure fun _ h => h
  | some source =>
    cases sections with
    | none => exact TaskMeets.pure fun _ h => h
    | some sections => exact compareSection_meets hready rfl hwhole sections index value segment

theorem reuseSection_meets (hready : WriterReady before transaction memory writer previous)
    {files : Files} (hwhole : files (writer.whole transaction) = none)
    (sections : Option (List StorageSection)) (index : Nat) (value : StorageSection)
    (segment : Segment) :
    TaskMeets before transaction (writer.area transaction) (writer.whole transaction) (· = files)
      (reuseSection memory writer transaction previous sections index value segment)
      fun reused => (· = if reused = true then
        Function.update files (.sectionFile transaction writer.artifact index)
          (some (segment.bytes memory))
        else files) := by
  have hcompare := compareSections_meets hready hwhole sections index value segment
  unfold reuseSection
  cases hborrow : writer.borrow index value segment with
  | some owner =>
    refine TaskMeets.bind (linkSection_meets hwhole
      (.inr (hready.borrow index value segment owner hborrow))) ?_
    rintro reused files' rfl
    cases reused with
    | true => exact TaskMeets.pure fun _ h => h
    | false =>
      by_cases hwrite : false = true ∨ writer.rewriteCompares = false
      · rw [if_pos hwrite]
        exact TaskMeets.pure fun _ h => h
      · rw [if_neg hwrite]
        exact hcompare
  | none => exact hcompare

theorem pendingSections_meets (hready : WriterReady before transaction memory writer previous)
    (image : Segment) (previousSections : Option (List StorageSection))
    (sections : List StorageSection) (first : Nat) {files : Files}
    (hwhole : files (writer.whole transaction) = none)
    (hfree : ∀ index, first ≤ index →
      files (.sectionFile transaction writer.artifact index) = none) :
    TaskMeets before transaction (writer.area transaction) (writer.whole transaction) (· = files)
      (pendingSections memory writer transaction previous image previousSections sections first)
      fun pending files' => SectionsReused memory transaction writer.artifact first
        (sections.map (sectionBytes memory image)) files files' pending := by
  induction sections generalizing first files with
  | nil =>
    refine TaskMeets.pure ?_
    rintro files' rfl
    exact ⟨fun _ _ => rfl, nofun, nofun, nofun, .nil⟩
  | cons value rest ih =>
    unfold pendingSections
    split
    · refine TaskMeets.throw ?_
      rintro files' rfl
      exact hwhole
    · rename_i segment hslice
      have hbytes : segment.bytes memory = sectionBytes memory image value :=
        (sliceGenerationSegment_ok memory hslice).1
      refine TaskMeets.bind (reuseSection_meets hready hwhole previousSections first value
        segment) ?_
      rintro reused files₁ rfl
      cases reused with
      | true =>
        have hwhole' : Function.update files (.sectionFile transaction writer.artifact first)
            (some (segment.bytes memory)) (writer.whole transaction) = none := by
          exact hwhole
        refine TaskMeets.bind (ih (first + 1) hwhole' ?_) ?_
        · intro index hindex
          rw [if_pos rfl, Function.update_of_ne (by simp; omega)]
          exact hfree index (by omega)
        · intro later files₂ hlater
          refine TaskMeets.pure ?_
          rintro files' rfl
          rw [if_pos rfl, hbytes] at hlater
          exact hlater.linked
      | false =>
        refine TaskMeets.bind (ih (first + 1) hwhole fun index hindex => hfree index (by omega)) ?_
        intro later files₂ hlater
        refine TaskMeets.pure ?_
        rintro files' rfl
        exact hlater.pended (hfree first (Nat.le_refl _)) hbytes

theorem readPreviousPrefix_meets {files : Files}
    (hwhole : files (writer.whole transaction) = none) :
    TaskMeets before transaction (writer.area transaction) (writer.whole transaction) (· = files)
      (readPreviousPrefix writer previous) fun _ => (· = files) := by
  have hnone : ∀ files', files' = files → files' (writer.whole transaction) = none := by
    rintro _ rfl
    exact hwhole
  cases previous with
  | none => exact TaskMeets.pure fun _ h => h
  | some source =>
    refine TaskMeets.bind (task_readFile _ _ _ hnone) ?_
    rintro bytes files' rfl
    split
    · exact TaskMeets.throw hnone
    · exact TaskMeets.pure fun _ h => h

theorem writePending_meets {files : Files} {prefixBytes : Bytes} {pending : List (Nat × Segment)}
    (hhead : files (.sectionPrefix transaction writer.artifact) = none)
    (hfree : ∀ entry ∈ pending,
      files (.sectionFile transaction writer.artifact entry.1) = none)
    (hdistinct : pending.Pairwise fun entry entry' => entry.1 ≠ entry'.1) :
    TaskMeets before transaction (writer.area transaction) (writer.whole transaction) (· = files)
      (writePending memory writer transaction prefixBytes pending)
      fun _ files' =>
        files' (.sectionPrefix transaction writer.artifact) = some prefixBytes ∧
        (∀ entry ∈ pending, files' (.sectionFile transaction writer.artifact entry.1) =
          some (entry.2.bytes memory)) ∧
        files' (writer.whole transaction) = files (writer.whole transaction) ∧
        ∀ index, (∀ entry ∈ pending, entry.1 ≠ index) →
          files' (.sectionFile transaction writer.artifact index) =
            files (.sectionFile transaction writer.artifact index) := by
  let paths : Fin (pending.length + 1) → StorePath :=
    Fin.cases (.sectionPrefix transaction writer.artifact)
      fun k => .sectionFile transaction writer.artifact (pending.get k).1
  let contents : Fin (pending.length + 1) → Bytes :=
    Fin.cases prefixBytes fun k => (pending.get k).2.bytes memory
  have hinjective : Function.Injective paths := by
    intro i j
    refine Fin.cases ?_ (fun i => ?_) i <;> refine Fin.cases ?_ (fun j => ?_) j
    · intro _
      rfl
    · intro h
      cases h
    · intro h
      cases h
    · intro h
      have hindex : (pending.get i).1 = (pending.get j).1 := by
        injection h
      rcases Nat.lt_trichotomy i j with hlt | heq | hlt
      · exact absurd hindex (List.pairwise_iff_getElem.mp hdistinct i j i.2 j.2 hlt)
      · rw [Fin.ext heq]
      · exact absurd hindex.symm (List.pairwise_iff_getElem.mp hdistinct j i j.2 i.2 hlt)
  have hpaths : ∀ i, writer.area transaction (paths i) := by
    intro i
    refine Fin.cases ?_ (fun k => ?_) i
    · rfl
    · rfl
  have hnone : ∀ i, files (paths i) = none := by
    intro i
    refine Fin.cases ?_ (fun k => ?_) i
    · exact hhead
    · exact hfree _ (List.get_mem pending k)
  have htasks : (fun task : Fin (pending.length + 1) => Fin.cases
      (StoreM.write (.sectionPrefix transaction writer.artifact) prefixBytes).run
      (fun k => (StoreM.write (.sectionFile transaction writer.artifact (pending.get k).1)
        ((pending.get k).2.bytes memory)).run) task) =
      fun i => (StoreM.write (paths i) (contents i)).run := by
    funext i
    refine Fin.cases ?_ (fun k => ?_) i
    · rfl
    · rfl
  unfold writePending
  rw [htasks]
  refine Meets.conseq (writes_meets (fun _ => artifactArea_inside) (writer.whole transaction)
    (Nat.succ_pos _) hinjective hpaths hnone) (fun _ h => h) ?_
  intro result s hs
  cases result with
  | error code => exact hs
  | ok value =>
    refine Holding.mono ?_ hs
    rintro files' ⟨hwritten, hothers⟩
    refine ⟨hwritten 0, ?_, ?_, ?_⟩
    · intro entry hentry
      obtain ⟨k, rfl⟩ := List.mem_iff_get.mp hentry
      exact hwritten k.succ
    · apply hothers (writer.whole transaction) rfl
      intro i
      refine Fin.cases ?_ (fun k => ?_) i
      · exact fun h => nomatch h
      · exact fun h => nomatch h
    · intro index hindex
      apply hothers (.sectionFile transaction writer.artifact index) rfl
      intro i
      refine Fin.cases ?_ (fun k => ?_) i
      · exact fun h => nomatch h
      · intro h
        have heq : index = (pending.get k).1 := by
          injection h
        exact hindex _ (List.get_mem pending k) heq.symm

/-- The sections and the prefix are in the directory, or nothing is known of it. -/
theorem writeSections_meets (hready : WriterReady before transaction memory writer previous)
    {image : Segment} {sections : List StorageSection} {files : Files}
    (hempty : ∀ path, writer.area transaction path → files path = none)
    (hparse : parsePrefix writer.format ((image.bytes memory).take writer.format.prefixSize)
      image.size = some sections) :
    TaskMeets before transaction (writer.area transaction) (writer.whole transaction) (· = files)
      (writeSections memory writer transaction previous image
        ((image.bytes memory).take writer.format.prefixSize) sections)
      fun _ => Sectioned memory transaction writer.artifact writer.format image := by
  have hwhole : files (writer.whole transaction) = none := hempty _ rfl
  refine TaskMeets.bind (readPreviousPrefix_meets hwhole) ?_
  rintro previousSections _ rfl
  refine TaskMeets.bind (pendingSections_meets hready image previousSections sections 0 hwhole
    fun index _ => hempty _ rfl) ?_
  intro pending files₁ hreused
  have hhead : files₁ (.sectionPrefix transaction writer.artifact) = none := by
    rw [hreused.others _ fun _ _ h => StorePath.noConfusion h]
    exact hempty _ rfl
  have hwhole₁ : files₁ (writer.whole transaction) = none := by
    rw [hreused.others _ fun _ _ h => StorePath.noConfusion h]
    exact hwhole
  refine TaskMeets.bind (writePending_meets hhead hreused.free hreused.distinct) ?_
  rintro _ files₂ ⟨hhead₂, hpending, hsame, hothers⟩
  have hsectioned : Sectioned memory transaction writer.artifact writer.format image files₂ := by
    refine ⟨hsame.trans hwhole₁, sections, hparse, hhead₂, ?_⟩
    intro index value hvalue
    have hwanted : (sections.map (sectionBytes memory image))[index]? =
        some (sectionBytes memory image value) := by
      rw [List.getElem?_map, hvalue]
      rfl
    by_cases hin : ∃ entry ∈ pending, entry.1 = index
    · obtain ⟨entry, hentry, rfl⟩ := hin
      obtain ⟨k, hk, hbytes⟩ := hreused.bytes entry hentry
      rw [Nat.zero_add] at hk
      rw [hpending entry hentry, ← hbytes, ← hk, hwanted]
    · have hnot : ∀ entry ∈ pending, entry.1 ≠ index := fun entry hentry heq =>
        hin ⟨entry, hentry, heq⟩
      rw [hothers index hnot]
      have hcovered := hreused.covered index _ hwanted
      rw [Nat.zero_add] at hcovered
      rcases hcovered with hlinked | ⟨segment, hmem⟩
      · exact hlinked
      · exact absurd rfl (hnot _ hmem)
  refine Meets.conseq (task_flush (.directory transaction writer.artifact) ?_)
    (fun s hs => hs.mono ?_) fun _ _ h => h
  · exact fun _ h => h.1
  · rintro _ rfl
    exact hsectioned

theorem directory_area {path : StorePath}
    (h : StorePath.directory transaction writer.artifact ∈ path.lineage) :
    writer.area transaction path := by
  cases path <;> simp_all [StorePath.lineage, artifactArea, StorePath.artifact]

theorem durableWriteSectioned_meets
    (hready : WriterReady before transaction memory writer previous) (image : Segment) :
    TaskMeets before transaction (writer.area transaction) (writer.whole transaction)
      (fun files => ∀ path, writer.area transaction path → files path = none)
      (durableWriteSectioned memory writer transaction previous image)
      fun _ => Sectioned memory transaction writer.artifact writer.format image := by
  have hwhole : ∀ files : Files, (∀ path, writer.area transaction path → files path = none) →
      files (writer.whole transaction) = none := fun files h => h _ rfl
  unfold durableWriteSectioned
  split
  · exact TaskMeets.throw hwhole
  · split
    · exact TaskMeets.throw hwhole
    · rename_i prefixBytes hcopy
      have hbytes := copySegmentPrefix_ok hcopy
      subst hbytes
      split
      · exact TaskMeets.throw hwhole
      · rename_i sections hparse
        refine TaskMeets.bind (TaskMeets.keep (task_createDirectory
          (fun _ => artifactArea_inside) rfl) hwhole) ?_
        intro created files hempty
        cases created with
        | false =>
          refine TaskMeets.throw ?_
          rintro _ rfl
          exact hwhole _ hempty
        | true =>
          refine cleaning_meets (writeSections_meets hready hempty hparse)
            (fun _ _ _ => Holding.stable) (fun _ _ _ => Leftover.stable)
            (fun _ _ _ => Leftover.stable) ?_
          intro error s answer s' hfailed hstep
          obtain ⟨hguarantee, hleft⟩ := task_removeTree (fun _ => artifactArea_inside) hstep
            hfailed.1 fun _ => directory_area
          refine ⟨hguarantee, hguarantee.1, ?_⟩
          intro hcode
          obtain ⟨files', hfiles, hnone⟩ := hfailed.2 hcode
          obtain ⟨files'', hfiles', hsub⟩ := hleft files' hfiles
          exact ⟨files'', hfiles', hsub _ hnone⟩

theorem writeArtifact_meets (hready : WriterReady before transaction memory writer previous)
    (image : Segment) :
    TaskMeets before transaction (writer.area transaction) (writer.whole transaction)
      (fun files => ∀ path, writer.area transaction path → files path = none)
      (writeArtifact memory writer transaction previous image)
      fun _ => Stored memory transaction writer.artifact writer.format image := by
  refine Meets.bind (durableWriteSectioned_meets hready image) ?_
  intro result
  have hother : ∀ code : StatusCode, Meets StoreExec
      (TaskRely before transaction (writer.area transaction))
      (TaskGuarantee before transaction (writer.area transaction))
      (Leftover before transaction (writer.area transaction) (writer.whole transaction) code)
      (pure (.error code) : StoreProg (Except StatusCode Unit)) (Ends (fun _ : Unit => Holding before transaction
        (writer.area transaction) (Stored memory transaction writer.artifact writer.format image))
        (Leftover before transaction (writer.area transaction) (writer.whole transaction))) :=
    fun code => Meets.done (fun _ _ => Leftover.stable) fun _ h => h
  cases result with
  | ok value =>
    exact Meets.done (fun _ _ => Holding.stable) fun s hs => hs.mono fun _ h => .inr h
  | error code =>
    cases code with
    | notAvailable =>
      refine Meets.bind (@Meets.perform _ _ _ _ _ _ _ _ _ (fun _ => Holding before transaction
        (writer.area transaction) fun files => files (writer.whole transaction) = none)
        (fun _ _ => Leftover.stable) (fun _ _ _ => Holding.stable) ?_) ?_
      · intro s answer s' hfailed hstep
        obtain ⟨hguarantee, hleft⟩ := task_removeTree (fun _ => artifactArea_inside) hstep
          hfailed.1 fun _ => directory_area
        obtain ⟨files, hfiles, hnone⟩ := hfailed.2 rfl
        obtain ⟨files', hfiles', hsub⟩ := hleft files hfiles
        exact ⟨hguarantee, hguarantee.1, files', hfiles', hsub _ hnone⟩
      · intro removed
        refine meets_of_files ?_
        intro files hnone
        have hpath : writer.area transaction (writer.whole transaction) := rfl
        refine (task_write (fun _ => artifactArea_inside) hpath hnone).conseq (fun _ h => h) ?_
        intro answer s hs
        cases answer with
        | ok value =>
          refine Holding.mono ?_ hs
          rintro _ rfl
          exact .inl (Function.update_self _ _ _)
        | error code => exact ⟨hs.1, fun hcode => by rw [hs.2] at hcode; cases hcode⟩
    | _ => exact hother _

end Writers

end ServerEngine

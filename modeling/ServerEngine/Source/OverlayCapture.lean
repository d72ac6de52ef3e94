import ServerEngine.Source.FileCapture

/-! # Overlay capture

The merge of sparse updates with the persisted identities gives the tables of a full capture: every
reference finds the source that has it now, every directory the flags it ever had.
-/
namespace ServerEngine
open ProbedTable ErrorFold

namespace SourceChange

/-! ## Flags -/

def unionFlags (items : List SourceChangeDirectoryIndexSlot) (fileReference : Nat) : Nat :=
  (items.filter fun item => item.fileReference == fileReference).foldl
    (fun flags item => flags ||| item.flags) 0

def flagsAt (slots : List SourceChangeDirectoryIndexSlot) (fileReference : Nat) : Nat :=
  (find directoryFormat slots fileReference).elim 0 (·.flags)

variable {items : List SourceChangeDirectoryIndexSlot}

theorem unionFlags_append {item : SourceChangeDirectoryIndexSlot} (fileReference : Nat) :
    unionFlags (items ++ [item]) fileReference =
      if item.fileReference = fileReference then unionFlags items fileReference ||| item.flags
      else unionFlags items fileReference := by
  unfold unionFlags
  by_cases heq : item.fileReference = fileReference
  · simp [heq]
  · simp [heq]

variable {fileReference : Nat}

theorem unionFlags_agree {flags : Nat}
    (hsame : ∀ item ∈ items, item.fileReference = fileReference → item.flags = flags)
    (hsome : flags ≠ 0 → ∃ item ∈ items, item.fileReference = fileReference) :
    unionFlags items fileReference = flags := by
  have hfold : ∀ (rest : List SourceChangeDirectoryIndexSlot), (∀ item ∈ rest, item.flags = flags) →
      rest.foldl (fun flags item => flags ||| item.flags) flags = flags := by
    intro rest
    induction rest with
    | nil => exact fun _ => rfl
    | cons item rest ih =>
      intro hall
      rw [List.foldl_cons, hall item List.mem_cons_self, Nat.or_self]
      exact ih fun x hx => hall x (List.mem_cons_of_mem _ hx)
  have hall : ∀ item ∈ items.filter (fun item => item.fileReference == fileReference),
      item.flags = flags := by
    intro item hitem
    obtain ⟨hmem, hkey⟩ := List.mem_filter.mp hitem
    exact hsame item hmem (by simpa using hkey)
  unfold unionFlags
  cases hitems : items.filter fun item => item.fileReference == fileReference with
  | nil =>
    by_contra hne
    obtain ⟨item, hmem, hkey⟩ := hsome fun h => hne h.symm
    have hfiltered : item ∈ items.filter fun item => item.fileReference == fileReference :=
      List.mem_filter.mpr ⟨hmem, by simpa using hkey⟩
    rw [hitems] at hfiltered
    cases hfiltered
  | cons item rest =>
    rw [hitems] at hall
    rw [List.foldl_cons, hall item List.mem_cons_self, Nat.zero_or]
    exact hfold rest fun x hx => hall x (List.mem_cons_of_mem _ hx)

theorem unknownFlags_or (a b : Nat) :
    unknownFlags (a ||| b) = unknownFlags a ||| unknownFlags b :=
  Nat.and_or_distrib_right ..

/-! ## One directory -/

structure DirectoryTable (slots entries : List SourceChangeDirectoryIndexSlot) : Prop where
  table : Table directoryFormat slots entries
  known : ∀ e ∈ entries, e.reserved = 0 ∧ unknownFlags e.flags = 0

section Directories
variable {slots slots' entries : List SourceChangeDirectoryIndexSlot}

theorem insertDirectoryIdentity_spec {fileReference flags : Nat} (h : DirectoryTable slots entries)
    (hok : insertDirectoryIdentity slots fileReference flags = some slots') :
    slots'.length = slots.length ∧ (∀ d, flagsAt slots' d =
      if fileReference = d then flagsAt slots d ||| flags else flagsAt slots d) ∧
      ∃ entries', DirectoryTable slots' entries' ∧ entries'.length ≤ entries.length + 1 := by
  unfold insertDirectoryIdentity at hok
  split at hok
  · cases hok
  rename_i hgood
  simp only [Bool.or_eq_true, decide_eq_true_eq, not_or, not_not] at hgood
  obtain ⟨⟨⟨hreference, -⟩, -⟩, hflags⟩ := hgood
  cases hprobe : probe directoryFormat slots fileReference with
  | none =>
    rw [hprobe] at hok
    cases hok
  | some pos =>
  rw [hprobe] at hok
  dsimp only at hok
  have hvalue : ∀ slot : SourceChangeDirectoryIndexSlot, slot.fileReference = fileReference →
      directoryFormat.free slot = false := by
    intro slot hslot
    show (slot.fileReference == 0) = false
    rw [hslot]
    simpa using hreference
  split at hok
  · rename_i hfree
    cases hok
    have hfree : directoryFormat.free (slotAt directoryFormat slots pos) = true := by
      show ((slotAt directoryFormat slots pos).fileReference == 0) = true
      rw [hfree]
      rfl
    have hplaced : Table directoryFormat (slots.set pos ⟨fileReference, flags, 0⟩)
        (entries ++ [⟨fileReference, flags, 0⟩]) := h.table.place hprobe hfree (hvalue _ rfl)
    have hfind : ∀ d, find directoryFormat (slots.set pos ⟨fileReference, flags, 0⟩) d =
        if d = fileReference then some ⟨fileReference, flags, 0⟩ else find directoryFormat slots d :=
      h.table.find_append hplaced
    have habsent : find directoryFormat slots fileReference = none := by
      unfold find
      rw [hprobe]
      dsimp only
      rw [if_pos hfree]
    refine ⟨List.length_set, ?_, _, ⟨hplaced, ?_⟩, by simp⟩
    · intro d
      unfold flagsAt
      rw [hfind]
      by_cases heq : fileReference = d
      · rw [if_pos heq, if_pos heq.symm, ← heq, habsent]
        exact (Nat.zero_or flags).symm
      · rw [if_neg heq, if_neg (fun h => heq h.symm)]
    · intro e he
      rcases List.mem_append.mp he with he | he
      · exact h.known e he
      · rw [List.mem_singleton.mp he]
        exact ⟨rfl, hflags⟩
  · rename_i hused
    cases hok
    have hoccupied : directoryFormat.free (slotAt directoryFormat slots pos) = false := by
      show ((slotAt directoryFormat slots pos).fileReference == 0) = false
      simpa using hused
    obtain ⟨hmem, hkey⟩ := h.table.entry_of_occupied hprobe hoccupied
    have hfind : find directoryFormat slots fileReference = some (slotAt directoryFormat slots pos) :=
      h.table.find_eq.mpr ⟨hmem, hkey⟩
    generalize hslot : slotAt directoryFormat slots pos = slot at hmem hkey hfind hoccupied ⊢
    have hkey : slot.fileReference = fileReference := hkey
    have hreplaced : Table directoryFormat (slots.set pos { slot with flags := slot.flags ||| flags })
        (entries.map fun e => if e.fileReference = slot.fileReference then
          { slot with flags := slot.flags ||| flags } else e) := by
      refine h.table.replace rfl ?_ (by rw [hslot]; exact hoccupied) (hvalue _ hkey)
      show probe directoryFormat slots slot.fileReference = some pos
      rw [hkey]
      exact hprobe
    have hfindNew : ∀ d,
        find directoryFormat (slots.set pos { slot with flags := slot.flags ||| flags }) d =
          if d = slot.fileReference then some { slot with flags := slot.flags ||| flags }
          else find directoryFormat slots d :=
      @Table.find_map _ _ _ directoryFormat slots entries _
        { slot with flags := slot.flags ||| flags } h.table hreplaced ⟨slot, hmem, rfl⟩
    refine ⟨List.length_set, ?_, _, ⟨hreplaced, ?_⟩, by simp⟩
    · intro d
      unfold flagsAt
      rw [hfindNew, hkey]
      by_cases heq : fileReference = d
      · rw [if_pos heq, if_pos heq.symm, ← heq, hfind]
        rfl
      · rw [if_neg heq, if_neg (fun h => heq h.symm)]
    · intro e he
      obtain ⟨old, hold, rfl⟩ := List.mem_map.mp he
      split
      · obtain ⟨hreserved, hknown⟩ := h.known slot hmem
        refine ⟨hreserved, ?_⟩
        show unknownFlags (slot.flags ||| flags) = 0
        rw [unknownFlags_or, hknown, hflags]
        rfl
      · exact h.known old hold

/-! ## All directories -/

variable {image : IdentityImage} {updates : List SourceChangeDirectoryIndexSlot}

theorem readDirectorySlot_ok {slot slot' : SourceChangeDirectoryIndexSlot}
    (h : readDirectorySlot slot = .ok slot') :
    slot' = slot ∧ slot.reserved = 0 ∧ unknownFlags slot.flags = 0 ∧
      (slot.fileReference ≠ 0 → slot.flags ≠ 0) := by
  unfold readDirectorySlot at h
  split at h
  · rename_i hzero
    split at h
    · rename_i hempty
      cases h
      simp only [Bool.and_eq_true, decide_eq_true_eq] at hempty
      refine ⟨rfl, hempty.2, ?_, fun h => absurd hzero h⟩
      rw [hempty.1]
      exact Nat.zero_and _
    · cases h
  · split at h
    · rename_i hgood
      cases h
      simp only [Bool.and_eq_true, decide_eq_true_eq] at hgood
      exact ⟨rfl, hgood.1.1, hgood.2, fun _ => hgood.1.2⟩
    · cases h

variable {items : List SourceChangeDirectoryIndexSlot}

theorem countDirectories_spec {count : Nat} (hok : items.foldlM countDirectory 0 = .ok count) :
    count = items.countP (fun slot => slot.fileReference != 0) := by
  refine foldlM_ok_rec (fun pre count => count =
    pre.countP (fun slot => slot.fileReference != 0)) hok rfl ?_
  intro pre slot u v _ hu hv
  obtain ⟨slot', hread, hv⟩ := bind_ok.mp hv
  rw [(readDirectorySlot_ok hread).1] at hv
  cases hv
  rw [List.countP_append, ← hu]
  by_cases hzero : slot.fileReference = 0 <;> simp [hzero]

def Merged (slots : List SourceChangeDirectoryIndexSlot) (flags : Nat → Nat) (size bound : Nat) :
    Prop :=
  slots.length = size ∧ (∀ d, d ≠ 0 → flagsAt slots d = flags d) ∧
    ∃ entries, DirectoryTable slots entries ∧ entries.length ≤ bound

variable {size bound : Nat} {flags : Nat → Nat}

theorem mergeDirectories_spec (h : Merged slots flags size bound)
    (hok : items.foldlM mergeDirectory slots = .ok slots') :
    Merged slots' (fun d => flags d ||| unionFlags items d) size
      (bound + items.countP (fun slot => slot.fileReference != 0)) := by
  refine foldlM_ok_rec (fun pre slots => Merged slots (fun d => flags d ||| unionFlags pre d) size
    (bound + pre.countP (fun slot => slot.fileReference != 0))) hok ?_ ?_
  · obtain ⟨hlength, hflags, htable⟩ := h
    exact ⟨hlength, fun d hd => by rw [hflags d hd]; exact (Nat.or_zero _).symm, htable⟩
  intro pre slot u v _ hu hv
  obtain ⟨hlength, hflags, entries, htable, hcount⟩ := hu
  obtain ⟨slot', hread, hv⟩ := bind_ok.mp hv
  rw [(readDirectorySlot_ok hread).1] at hv
  rw [List.countP_append, List.countP_singleton]
  by_cases hzero : slot.fileReference = 0
  · rw [if_pos hzero] at hv
    cases hv
    refine ⟨hlength, ?_, entries, htable, by omega⟩
    intro d hd
    rw [hflags d hd]
    dsimp only
    rw [unionFlags_append, if_neg (by omega)]
  · rw [if_neg hzero] at hv
    cases hinsert : insertDirectoryIdentity u slot.fileReference slot.flags with
    | none =>
      rw [hinsert] at hv
      cases hv
    | some next =>
      rw [hinsert] at hv
      cases hv
      obtain ⟨hnext, hnextFlags, entries', htable', hcount'⟩ :=
        insertDirectoryIdentity_spec htable hinsert
      refine ⟨hnext.trans hlength, ?_, entries', htable', ?_⟩
      · intro d hd
        rw [hnextFlags, hflags d hd]
        dsimp only
        rw [unionFlags_append]
        split
        · exact Nat.or_assoc ..
        · rfl
      · rw [if_pos (by simpa using hzero)]
        omega

theorem updateDirectories_spec (h : Merged slots flags size bound)
    (hok : updates.foldlM updateDirectory slots = .ok slots') :
    Merged slots' (fun d => flags d ||| unionFlags updates d) size (bound + updates.length) ∧
      ∀ update ∈ updates, update.fileReference ≠ 0 := by
  refine foldlM_ok_rec (fun pre slots => Merged slots (fun d => flags d ||| unionFlags pre d) size
    (bound + pre.length) ∧ ∀ update ∈ pre, update.fileReference ≠ 0) hok ?_ ?_
  · obtain ⟨hlength, hflags, htable⟩ := h
    exact ⟨⟨hlength, fun d hd => by rw [hflags d hd]; exact (Nat.or_zero _).symm, htable⟩, by simp⟩
  intro pre update u v _ hu hv
  obtain ⟨⟨hlength, hflags, entries, htable, hcount⟩, hreferences⟩ := hu
  unfold updateDirectory at hv
  split at hv
  · cases hv
  rename_i hgood
  simp only [Bool.or_eq_true, decide_eq_true_eq, not_or] at hgood
  cases hinsert : insertDirectoryIdentity u update.fileReference update.flags with
  | none =>
    rw [hinsert] at hv
    cases hv
  | some next =>
    rw [hinsert] at hv
    cases hv
    obtain ⟨hnext, hnextFlags, entries', htable', hcount'⟩ :=
      insertDirectoryIdentity_spec htable hinsert
    refine ⟨⟨hnext.trans hlength, ?_, entries', htable', ?_⟩, ?_⟩
    · intro d hd
      rw [hnextFlags, hflags d hd]
      dsimp only
      rw [unionFlags_append]
      split
      · exact Nat.or_assoc ..
      · rfl
    · rw [List.length_append, List.length_singleton]
      omega
    · intro x hx
      rcases List.mem_append.mp hx with hx | hx
      · exact hreferences x hx
      · rw [List.mem_singleton.mp hx]
        exact hgood.1.1.1

/-- The directory index adds the updates to the persisted flags. It has free slots unless it kept the
persisted size. -/
theorem materializeDirectoryIndex_spec {allocates : Nat → Bool}
    (hsize : image.directorySlots.length = 0 ∨ ∃ n, image.directorySlots.length = 2 ^ n)
    (hok : materializeDirectoryIndex image updates allocates = .ok slots) :
    (∀ update ∈ updates, update.fileReference ≠ 0) ∧
    ((slots = [] ∧ image.directorySlots = [] ∧ updates = []) ∨
      ((∀ d, d ≠ 0 → flagsAt slots d = unionFlags image.directorySlots d ||| unionFlags updates d) ∧
        ∃ entries, DirectoryTable slots entries ∧
          (slots.length = image.directorySlots.length ∨ entries.length < slots.length))) := by
  obtain ⟨count, hcount, hok⟩ := bind_ok.mp hok
  rw [countDirectories_spec hcount] at hok
  generalize hn : image.directorySlots.countP (fun slot => slot.fileReference != 0) = n at hok
  dsimp only at hok
  split at hok
  · cases hok
  -- a table of either capacity
  have hfilled : ∀ {capacity : Nat}, (∃ k, capacity = 2 ^ k) →
      materializeDirectories image updates allocates n capacity = .ok slots →
      (∀ update ∈ updates, update.fileReference ≠ 0) ∧
        Merged slots (fun d => (0 ||| unionFlags image.directorySlots d) ||| unionFlags updates d)
          capacity (0 + n + updates.length) := by
    intro capacity hpower hok
    obtain ⟨k, hk⟩ := hpower
    have hpos := Nat.two_pow_pos k
    unfold materializeDirectories at hok
    rw [if_neg (by omega)] at hok
    split at hok
    · cases hok
    obtain ⟨merged, hmerge, hupdate⟩ := bind_ok.mp hok
    have hfresh : Merged (List.replicate capacity {}) (fun _ => 0) capacity 0 := by
      refine ⟨List.length_replicate, ?_, [], ⟨?_, by simp⟩, by simp⟩
      · intro d _
        have hnone : find directoryFormat (List.replicate capacity {}) d = none :=
          find_replicate rfl capacity d
        unfold flagsAt
        rw [hnone]
        rfl
      · rw [hk]
        exact table_replicate rfl k
    have hmerged := mergeDirectories_spec hfresh hmerge
    rw [hn] at hmerged
    exact (updateDirectories_spec hmerged hupdate).symm
  split at hok
  · rcases hsize with hzero | hpower
    · rw [hzero] at hok
      unfold materializeDirectories at hok
      rw [if_pos rfl] at hok
      split at hok
      · rename_i hempty
        cases hok
        simp only [Bool.and_eq_true, List.isEmpty_iff] at hempty
        rw [hempty.2]
        exact ⟨by simp, .inl ⟨rfl, List.eq_nil_of_length_eq_zero hzero, rfl⟩⟩
      · cases hok
    · obtain ⟨hreferences, hlength, hflags, entries, htable, -⟩ := hfilled hpower hok
      refine ⟨hreferences, .inr ⟨?_, entries, htable, .inl hlength⟩⟩
      intro d hd
      rw [hflags d hd]
      dsimp only
      rw [Nat.zero_or]
  · rename_i hexpand
    obtain ⟨k, hk, hlarge⟩ := nextCapacity_large (fun h => hexpand (.inr (.inl h)))
    obtain ⟨hreferences, hlength, hflags, entries, htable, hbound⟩ := hfilled ⟨k, hk⟩ hok
    refine ⟨hreferences, .inr ⟨?_, entries, htable, .inr (by omega)⟩⟩
    intro d hd
    rw [hflags d hd]
    dsimp only
    rw [Nat.zero_or]

theorem directoryWatchFlags_table (h : DirectoryTable slots entries) {d : Nat} (hd : d ≠ 0) :
    directoryWatchFlags slots d = flagsAt slots d := by
  obtain ⟨n, hn⟩ := h.table.size
  unfold directoryWatchFlags flagsAt
  rw [hn, notPowerOfTwo_pow, Bool.or_false, if_neg (by simpa using hd)]
  cases hfind : find directoryFormat slots d with
  | none => rfl
  | some e =>
    obtain ⟨hreserved, hknown⟩ := h.known e (h.table.find_eq.mp hfind).1
    dsimp only
    rw [if_pos (by simp [hreserved, hknown])]
    rfl

end Directories

/-! ## The whole capture -/

/-- The identity tables of an image: of the sizes that its binding accepts, and a lookup finds every
slot. -/
structure ValidIndex (image : IdentityImage) : Prop where
  fileSize : image.fileSlots.length = 0 ∨ ∃ n, image.fileSlots.length = 2 ^ n
  directorySize : image.directorySlots.length = 0 ∨ ∃ n, image.directorySlots.length = 2 ^ n
  files : ∀ slot ∈ image.fileSlots, slot.fileReference ≠ 0 →
    findSourceFile image.sourceCount image.fileSlots slot.fileReference = slot.source
  directories : ∀ slot ∈ image.directorySlots, slot.fileReference ≠ 0 →
    directoryWatchFlags image.directorySlots slot.fileReference = slot.flags

variable {sourceCount source : Nat}

theorem findSourceFile_mem {slots : List SourceChangeFileIndexSlot} (hne : source ≠ 0)
    (h : findSourceFile sourceCount slots fileReference = source) :
    fileReference ≠ 0 ∧ ∃ slot ∈ slots, slot.fileReference = fileReference ∧ slot.source = source := by
  unfold findSourceFile at h
  split at h
  · exact absurd h.symm hne
  rename_i hgood
  simp only [Bool.or_eq_true, decide_eq_true_eq, not_or] at hgood
  refine ⟨hgood.1, ?_⟩
  cases hfind : find fileFormat slots fileReference with
  | none =>
    rw [hfind] at h
    exact absurd h.symm hne
  | some slot =>
    rw [hfind] at h
    dsimp only at h
    split at h
    · obtain ⟨hmem, hkey⟩ := find_mem hfind
      exact ⟨slot, hmem, hkey, h⟩
    · exact absurd h.symm hne

theorem directoryWatchFlags_mem {slots : List SourceChangeDirectoryIndexSlot}
    (h : directoryWatchFlags slots fileReference ≠ 0) :
    ∃ slot ∈ slots, slot.fileReference = fileReference := by
  unfold directoryWatchFlags at h
  split at h
  · exact absurd rfl h
  cases hfind : find directoryFormat slots fileReference with
  | none =>
    rw [hfind] at h
    exact absurd rfl h
  | some slot =>
    obtain ⟨hmem, hkey⟩ := find_mem hfind
    exact ⟨slot, hmem, hkey⟩

/-- What the file index finds, by the updates and the persisted identities. -/
theorem files_exact {image : IdentityImage} {updates : List SourceChangeFileIdentityUpdate}
    {state : List SourceChangeFileIndexSlot × Nat} (hvalid : ValidIndex image)
    (hok : materializeFiles sourceCount image updates = .ok state) (hne : source ≠ 0) :
    findSourceFile sourceCount state.1 fileReference = source ↔
      (fileReference ≠ 0 ∧ ∃ update ∈ updates,
        update.fileReference = fileReference ∧ update.source = source) ∨
      ((∀ update ∈ updates, update.source ≠ source) ∧
        findSourceFile image.sourceCount image.fileSlots fileReference = source) := by
  obtain ⟨hread, hsources, htable⟩ := materializeFiles_spec hok
  have hbaseline : findSourceFile image.sourceCount image.fileSlots fileReference = source ↔
      (⟨fileReference, source, 0⟩ : SourceChangeFileIndexSlot) ∈ image.fileSlots ∧
        fileReference ≠ 0 := by
    constructor
    · intro hfind
      obtain ⟨hreference, slot, hslot, rfl, rfl⟩ := findSourceFile_mem hne hfind
      refine ⟨?_, hreference⟩
      rw [← (readFileSlot_ok (hread slot hslot) hreference).2.2]
      exact hslot
    · intro h
      exact hvalid.files _ h.1 h.2
  rw [hbaseline]
  rcases htable with ⟨hnil, hupdates, hnone⟩ | ⟨entries, hfiles, -, hbound⟩
  · have hzero : findSourceFile sourceCount state.1 fileReference = 0 := by
      rw [hnil]
      unfold findSourceFile
      rw [if_pos (by simp [notPowerOfTwo])]
    rw [hzero, hupdates]
    refine iff_of_false (fun h => hne h.symm) ?_
    intro h
    rcases h with ⟨-, update, hupdate, -⟩ | ⟨-, hslot, hreference⟩
    · cases hupdate
    · exact hreference (hnone _ hslot)
  · have hentries : ∀ e ∈ entries, e.source ≠ 0 ∧ e.source ≤ sourceCount ∧ e.reserved = 0 := by
      intro e he
      rcases (hfiles.mem e).mp he with ⟨hslot, hreference, -⟩ | ⟨update, hupdate, -, rfl⟩
      · obtain ⟨hsource, -, hreserved⟩ := readFileSlot_ok (hread e hslot) hreference
        exact ⟨hsource, hbound e he, hreserved⟩
      · exact ⟨(hsources update hupdate).1, (hsources update hupdate).2, rfl⟩
    rw [findSourceFile_table hfiles hentries hne]
    constructor
    · intro h
      rcases h with ⟨hslot, hreference, hnone⟩ | ⟨update, hupdate, hreference, heq⟩
      · exact .inr ⟨hnone, hslot, hreference⟩
      · cases heq
        exact .inl ⟨hreference, update, hupdate, rfl, rfl⟩
    · intro h
      rcases h with ⟨hreference, update, hupdate, rfl, rfl⟩ | ⟨hnone, hslot, hreference⟩
      · exact .inr ⟨update, hupdate, hreference, rfl⟩
      · exact .inl ⟨hslot, hreference, hnone⟩

theorem directories_exact {image : IdentityImage} {updates slots : List SourceChangeDirectoryIndexSlot}
    {allocates : Nat → Bool} (hvalid : ValidIndex image)
    (hok : materializeDirectoryIndex image updates allocates = .ok slots) (fileReference : Nat) :
    directoryWatchFlags slots fileReference =
      directoryWatchFlags image.directorySlots fileReference ||| unionFlags updates fileReference := by
  obtain ⟨hreferences, htable⟩ := materializeDirectoryIndex_spec hvalid.directorySize hok
  have hnull : ∀ slots, directoryWatchFlags slots 0 = 0 := by
    intro slots
    unfold directoryWatchFlags
    rw [if_pos (by simp)]
  by_cases hzero : fileReference = 0
  · have hunion : unionFlags updates 0 = 0 :=
      unionFlags_agree (fun update hupdate heq => absurd heq (hreferences update hupdate))
        (fun h => absurd rfl h)
    rw [hzero, hnull, hnull, hunion, Nat.or_self]
  have hbaseline : unionFlags image.directorySlots fileReference =
      directoryWatchFlags image.directorySlots fileReference :=
    unionFlags_agree (fun slot hslot heq => by
      rw [← heq, hvalid.directories slot hslot (by omega)]) directoryWatchFlags_mem
  rcases htable with ⟨rfl, hslots, hupdates⟩ | ⟨hflags, entries, hentries, -⟩
  · have hnone : directoryWatchFlags [] fileReference = 0 := by
      unfold directoryWatchFlags
      rw [if_pos (by simp [notPowerOfTwo])]
    rw [hslots, hupdates, hnone]
    exact (Nat.zero_or _).symm
  · rw [directoryWatchFlags_table hentries hzero, hflags fileReference hzero, hbaseline]

/-- With an enabled checkpoint the merged tables are exact: a reference finds the source with that
update, or the persisted source if it has no update; a directory finds the union of its flags. The
file index keeps a free slot, so every probe ends; the directory index does too unless the
directories fill a table of the persisted size. -/
theorem overlay_capture_exact {sourceCount : Nat} {image : IdentityImage} {allocates : Nat → Bool}
    {prepared output : SourceChangeCapture} (hvalid : ValidIndex image)
    (hok : materializeCapture sourceCount (some image) allocates prepared = .ok output)
    (henabled : output.checkpoint.enabled = true) :
    (∀ fileReference source, source ≠ 0 →
      (findSourceFile sourceCount output.fileIndex fileReference = source ↔
        (fileReference ≠ 0 ∧ ∃ update ∈ prepared.fileUpdates,
          update.fileReference = fileReference ∧ update.source = source) ∨
        ((∀ update ∈ prepared.fileUpdates, update.source ≠ source) ∧
          findSourceFile image.sourceCount image.fileSlots fileReference = source))) ∧
    (∀ fileReference, directoryWatchFlags output.directoryIndex fileReference =
      directoryWatchFlags image.directorySlots fileReference |||
        unionFlags prepared.directoryUpdates fileReference) ∧
    (output.fileIndex = [] ∨ ((∃ slot ∈ output.fileIndex, slot.fileReference = 0) ∧
      ∀ fileReference, ∃ pos, probe fileFormat output.fileIndex fileReference = some pos)) ∧
    (output.directoryIndex.length = image.directorySlots.length ∨
      ((∃ slot ∈ output.directoryIndex, slot.fileReference = 0) ∧
        ∀ fileReference, ∃ pos,
          probe directoryFormat output.directoryIndex fileReference = some pos)) := by
  unfold materializeCapture at hok
  split at hok
  · cases hok
  split at hok
  · cases hok
    cases henabled
  dsimp only at hok
  split at hok
  · cases hok
  split at hok
  · cases hok
  obtain ⟨⟨fileIndex, materialized⟩, hfiles, hok⟩ := bind_ok.mp hok
  dsimp only at hok
  split at hok
  · cases hok
    cases henabled
  obtain ⟨directoryIndex, hdirectories, hok⟩ := bind_ok.mp hok
  cases hok
  refine ⟨?_, ?_, ?_, ?_⟩
  · exact fun fileReference source hne => files_exact hvalid hfiles hne
  · exact directories_exact hvalid hdirectories
  · rcases (materializeFiles_spec hfiles).2.2 with ⟨hnil, -⟩ | ⟨entries, hentries, hroom, -⟩
    · exact .inl hnil
    · obtain ⟨slot, hslot, hfree⟩ := hentries.table.exists_free hroom
      exact .inr ⟨⟨slot, hslot, by simpa [fileFormat] using hfree⟩,
        hentries.table.probe_isSome hroom⟩
  · rcases (materializeDirectoryIndex_spec hvalid.directorySize hdirectories).2 with
      ⟨hnil, hbaseline, -⟩ | ⟨-, entries, hentries, hlength | hroom⟩
    · exact .inl (by rw [hnil, hbaseline])
    · exact .inl hlength
    · obtain ⟨slot, hslot, hfree⟩ := hentries.table.exists_free hroom
      exact .inr ⟨⟨slot, hslot, by simpa [directoryFormat] using hfree⟩,
        hentries.table.probe_isSome hroom⟩

def imageOf (directories : List Nat) : IdentityImage where
  sourceCount := 2
  checkpoint := { backend := .windowsUsn, volumeSerial := 7, journalId := 1 }
  fileSlots := (([(1, 1), (2, 2)] : List (Nat × Nat)).foldlM
    (fun slots item => insertFileIdentity slots item.1 item.2) (List.replicate 16 {})).getD []
  directorySlots := (directories.foldlM (fun slots reference =>
    insertDirectoryIdentity slots reference 1) (List.replicate 16 {})).getD []

def sampleUpdates : SourceChangeCapture where
  kind := .baselineOverlay
  checkpoint := { backend := .windowsUsn, volumeSerial := 7, journalId := 1, nextUsn := 9 }
  journalAnchorPath := "project.json"
  fileUpdates := [⟨3, 1, 0⟩]
  directoryUpdates := [⟨16, 2, 0⟩]

def fullImage : IdentityImage := imageOf ((List.range 15).map (· + 1))

theorem fullImage_valid : ValidIndex fullImage :=
  ⟨.inr ⟨4, by decide +kernel⟩, .inr ⟨4, by decide +kernel⟩, by decide +kernel, by decide +kernel⟩

/-- Fifteen directories and one more fill the sixteen slots. -/
theorem directory_table_filled :
    ValidIndex fullImage ∧
      (materializeCapture 2 (some fullImage) (fun _ => true) sampleUpdates).map (fun output =>
        (output.checkpoint.enabled, output.directoryIndex.all (·.fileReference != 0))) =
          .ok (true, true) :=
  ⟨fullImage_valid, by decide +kernel⟩

theorem sampleUpdates_enabled : ∃ output,
    materializeCapture 2 (some fullImage) (fun _ => true) sampleUpdates = .ok output ∧
      output.checkpoint.enabled = true := by
  have hmap : (materializeCapture 2 (some fullImage) (fun _ => true) sampleUpdates).map
      (fun output => output.checkpoint.enabled) = .ok true := by decide +kernel
  cases hok : materializeCapture 2 (some fullImage) (fun _ => true) sampleUpdates with
  | error stop =>
    rw [hok] at hmap
    cases hmap
  | ok output =>
    rw [hok] at hmap
    exact ⟨output, rfl, Except.ok.inj hmap⟩

/-- The first source is found by its new reference. -/
theorem overlay_capture_exact_moved : ∃ output,
    materializeCapture 2 (some fullImage) (fun _ => true) sampleUpdates = .ok output ∧
      findSourceFile 2 output.fileIndex 3 = 1 ∧ findSourceFile 2 output.fileIndex 1 ≠ 1 := by
  obtain ⟨output, hok, henabled⟩ := sampleUpdates_enabled
  obtain ⟨hfiles, -⟩ := overlay_capture_exact fullImage_valid hok henabled
  refine ⟨output, hok, (hfiles 3 1 (by decide)).mpr (.inl ⟨by decide, by decide⟩), ?_⟩
  rw [Ne, hfiles 1 1 (by decide)]
  decide +kernel

end SourceChange
end ServerEngine

import ServerEngine.Source.ChangeCapture
import ServerEngine.Source.PathTables

/-! # Captured files

The file index of a merged capture holds the persisted identities of the sources without an update
and the new identities of the others, in a table with free slots.
-/
namespace ServerEngine
open ProbedTable ErrorFold

namespace SourceChange

/-! ## One file -/

/-- The table holds one slot for each declared pair of a reference and a source. -/
structure FileTable (slots entries : List SourceChangeFileIndexSlot)
    (declared : SourceChangeFileIndexSlot → Prop) : Prop where
  table : Table fileFormat slots entries
  mem : ∀ e, e ∈ entries ↔ declared e
  reserved : ∀ slot ∈ slots, slot.reserved = 0

section Files
variable {slots slots' entries : List SourceChangeFileIndexSlot}
  {declared declared' : SourceChangeFileIndexSlot → Prop}

theorem FileTable.congr (h : FileTable slots entries declared)
    (hiff : ∀ e, declared e ↔ declared' e) : FileTable slots entries declared' :=
  ⟨h.table, fun e => (h.mem e).trans (hiff e), h.reserved⟩

theorem FileTable.slot_reserved (h : FileTable slots entries declared) (pos : Nat) :
    (slotAt fileFormat slots pos).reserved = 0 := by
  by_cases hlt : pos < slots.length
  · rw [slotAt, List.getD_eq_getElem _ _ hlt]
    exact h.reserved _ (List.getElem_mem hlt)
  · rw [slotAt, List.getD_eq_default _ _ (by omega)]
    rfl

variable {fileReference source : Nat}

theorem insertFileIdentity_spec (h : FileTable slots entries declared)
    (hok : insertFileIdentity slots fileReference source = some slots') :
    (fileReference ≠ 0 ∧ source ≠ 0) ∧ slots'.length = slots.length ∧
      ∃ entries', FileTable slots' entries'
        (fun e => declared e ∨ e = ⟨fileReference, source, 0⟩) ∧
        entries'.length ≤ entries.length + 1 := by
  unfold insertFileIdentity at hok
  split at hok
  · cases hok
  rename_i hgood
  simp only [Bool.or_eq_true, decide_eq_true_eq, not_or] at hgood
  refine ⟨⟨hgood.1.1, hgood.2⟩, ?_⟩
  cases hprobe : probe fileFormat slots fileReference with
  | none =>
    rw [hprobe] at hok
    cases hok
  | some pos =>
  rw [hprobe] at hok
  dsimp only at hok
  split at hok
  · rename_i hfree
    rw [h.slot_reserved pos] at hok
    cases hok
    refine ⟨List.length_set, entries ++ [⟨fileReference, source, 0⟩], ⟨?_, ?_, ?_⟩, by simp⟩
    · refine h.table.place hprobe ?_ ?_
      · show ((slotAt fileFormat slots pos).fileReference == 0) = true
        rw [hfree]
        rfl
      · show (fileReference == 0) = false
        simpa using hgood.1.1
    · intro e
      rw [List.mem_append, List.mem_singleton, h.mem]
    · intro slot hslot
      rcases List.mem_or_eq_of_mem_set hslot with hslot | rfl
      · exact h.reserved slot hslot
      · rfl
  · rename_i hused
    split at hok
    · rename_i hsame
      cases hok
      have hoccupied : fileFormat.free (slotAt fileFormat slots pos) = false := by
        show ((slotAt fileFormat slots pos).fileReference == 0) = false
        simpa using hused
      obtain ⟨hmem, hkey⟩ := h.table.entry_of_occupied hprobe hoccupied
      have hvalue : slotAt fileFormat slots pos = ⟨fileReference, source, 0⟩ := by
        have hreserved := h.slot_reserved pos
        have hkey : (slotAt fileFormat slots pos).fileReference = fileReference := hkey
        cases hslot : slotAt fileFormat slots pos with
        | mk r s reserved =>
          rw [hslot] at hkey hsame hreserved
          exact SourceChangeFileIndexSlot.mk.injEq .. ▸ ⟨hkey, hsame, hreserved⟩
      refine ⟨rfl, entries, h.congr fun e => ?_, by omega⟩
      constructor
      · exact .inl
      · intro he
        rcases he with he | rfl
        · exact he
        · exact (h.mem _).mp (hvalue ▸ hmem)
    · cases hok

/-! ## All files -/

variable {image : IdentityImage} {sourceCount : Nat}

structure Numbered (sourceCount : Nat) (updates : List (SourceChangeFileIdentityUpdate × Nat))
    (updateIndex : List Nat) : Prop where
  length : updateIndex.length = sourceCount + 1
  updated : ∀ s ≤ sourceCount, updateIndex.getD s 0 ≠ 0 ↔ ∃ item ∈ updates, item.1.source = s
  sources : ∀ item ∈ updates, item.1.source ≠ 0 ∧ item.1.source ≤ sourceCount

variable {updateIndex : List Nat}

theorem indexUpdates_numbered {updates : List (SourceChangeFileIdentityUpdate × Nat)}
    (hok : updates.foldlM (indexUpdate sourceCount) (List.replicate (sourceCount + 1) 0) = .ok updateIndex) :
    Numbered sourceCount updates updateIndex := by
  refine foldlM_ok_rec (Numbered sourceCount) hok ?_ ?_
  · refine ⟨List.length_replicate, ?_, by simp⟩
    intro s hs
    simp [List.getD_eq_getElem?_getD]
  · intro pre item u v _ hu hv
    unfold indexUpdate at hv
    split at hv
    · cases hv
    rename_i hgood
    split at hv
    · cases hv
    cases hv
    simp only [Bool.or_eq_true, decide_eq_true_eq, not_or, Nat.not_lt, gt_iff_lt] at hgood
    have hsource : item.1.source < u.length := by
      have := hu.length
      omega
    refine ⟨by rw [List.length_set, hu.length], ?_, ?_⟩
    · intro s hs
      rw [Slice.getD_set]
      by_cases heq : item.1.source = s
      · rw [if_pos ⟨heq, by omega⟩]
        simp [heq]
      · rw [if_neg (fun h => heq h.1), hu.updated s hs]
        simp [heq]
    · intro x hx
      rcases List.mem_append.mp hx with hx | hx
      · exact hu.sources x hx
      · rw [List.mem_singleton.mp hx]
        exact ⟨hgood.1.1.1, by omega⟩

variable {files : List SourceChangeFileIndexSlot} {count : Nat}

theorem countFiles_spec (hok : files.foldlM (countFile image) 0 = .ok count) :
    count = files.countP (fun slot => slot.fileReference != 0) ∧
      ∀ slot ∈ files, readFileSlot image slot = .ok slot := by
  refine foldlM_ok_rec (fun pre count => count = pre.countP (fun slot => slot.fileReference != 0) ∧
    ∀ slot ∈ pre, readFileSlot image slot = .ok slot) hok ⟨rfl, by simp⟩ ?_
  intro pre slot u v _ hu hv
  obtain ⟨slot', hread, hv⟩ := bind_ok.mp hv
  have hsame : slot' = slot := by
    unfold readFileSlot at hread
    split at hread <;> split at hread <;> cases hread <;> rfl
  rw [hsame] at hread hv
  constructor
  · cases hv
    rw [List.countP_append, ← hu.1]
    by_cases hzero : slot.fileReference = 0 <;> simp [hzero]
  · intro x hx
    rcases List.mem_append.mp hx with hx | hx
    · exact hu.2 x hx
    · rw [List.mem_singleton.mp hx]
      exact hread

variable {slot : SourceChangeFileIndexSlot}

theorem readFileSlot_ok (h : readFileSlot image slot = .ok slot)
    (hreference : slot.fileReference ≠ 0) :
    slot.source ≠ 0 ∧ slot.source ≤ image.sourceCount ∧ slot.reserved = 0 := by
  unfold readFileSlot at h
  rw [if_neg hreference] at h
  split at h
  · rename_i hgood
    simp only [Bool.and_eq_true, decide_eq_true_eq] at hgood
    exact ⟨hgood.1.1, hgood.1.2, hgood.2⟩
  · cases h

def Kept (updateIndex : List Nat) (files : List SourceChangeFileIndexSlot)
    (e : SourceChangeFileIndexSlot) : Prop :=
  e ∈ files ∧ e.fileReference ≠ 0 ∧ updateIndex.getD e.source 0 = 0

def Updated (updates : List SourceChangeFileIdentityUpdate) (e : SourceChangeFileIndexSlot) : Prop :=
  ∃ update ∈ updates, update.fileReference ≠ 0 ∧ e = ⟨update.fileReference, update.source, 0⟩

theorem kept_append {pre : List SourceChangeFileIndexSlot} {e : SourceChangeFileIndexSlot} :
    Kept updateIndex (pre ++ [slot]) e ↔
      Kept updateIndex pre e ∨
        (e = slot ∧ slot.fileReference ≠ 0 ∧ updateIndex.getD slot.source 0 = 0) := by
  unfold Kept
  rw [List.mem_append, List.mem_singleton]
  constructor
  · intro he
    obtain ⟨he | rfl, hrest⟩ := he
    · exact .inl ⟨he, hrest⟩
    · exact .inr ⟨rfl, hrest⟩
  · intro he
    rcases he with he | ⟨rfl, hrest⟩
    · exact ⟨.inl he.1, he.2⟩
    · exact ⟨.inr rfl, hrest⟩

theorem mergeFile_cases {u v : List SourceChangeFileIndexSlot × Nat}
    (hread : readFileSlot image slot = .ok slot)
    (hok : mergeFile image updateIndex u slot = .ok v) :
    ((slot.fileReference = 0 ∨ updateIndex.getD slot.source 0 ≠ 0) ∧ v = u) ∨
    ((slot.fileReference ≠ 0 ∧ updateIndex.getD slot.source 0 = 0) ∧
      slot.source < updateIndex.length ∧
        insertFileIdentity u.1 slot.fileReference slot.source = some v.1) := by
  unfold mergeFile at hok
  rw [hread] at hok
  dsimp only [Bind.bind, Except.bind] at hok
  by_cases hzero : slot.fileReference = 0
  · rw [if_pos hzero] at hok
    cases hok
    exact .inl ⟨.inl hzero, rfl⟩
  rw [if_neg hzero] at hok
  cases hget : updateIndex[slot.source]? with
  | none =>
    rw [hget] at hok
    cases hok
  | some updated =>
  have hgetD : updateIndex.getD slot.source 0 = updated := by
    rw [List.getD_eq_getElem?_getD, hget]
    rfl
  rw [hgetD]
  rw [hget] at hok
  dsimp only at hok
  split at hok
  · rename_i hupdated
    cases hok
    exact .inl ⟨.inr hupdated, rfl⟩
  · rename_i hupdated
    cases hinsert : insertFileIdentity u.1 slot.fileReference slot.source with
    | none =>
      rw [hinsert] at hok
      cases hok
    | some next =>
      rw [hinsert] at hok
      cases hok
      exact .inr ⟨⟨hzero, not_not.mp hupdated⟩, (List.getElem?_eq_some_iff.mp hget).1, rfl⟩

variable {state : List SourceChangeFileIndexSlot × Nat}

theorem mergeFiles_spec (h : FileTable slots [] fun _ => False)
    (hread : ∀ slot ∈ files, readFileSlot image slot = .ok slot)
    (hok : files.foldlM (mergeFile image updateIndex) (slots, 0) = .ok state) :
    state.1.length = slots.length ∧ (∀ e, Kept updateIndex files e → e.source < updateIndex.length) ∧
      ∃ entries, FileTable state.1 entries (Kept updateIndex files) ∧
        entries.length ≤ files.countP (fun slot => slot.fileReference != 0) := by
  refine foldlM_ok_rec (fun pre (state : List SourceChangeFileIndexSlot × Nat) =>
    state.1.length = slots.length ∧ (∀ e, Kept updateIndex pre e → e.source < updateIndex.length) ∧
      ∃ entries, FileTable state.1 entries (Kept updateIndex pre) ∧
        entries.length ≤ pre.countP (fun slot => slot.fileReference != 0)) hok ?_ ?_
  · refine ⟨rfl, ?_, [], h.congr fun e => ?_, by simp⟩
    · intro e he
      cases he.1
    · constructor
      · exact False.elim
      · intro he
        cases he.1
  intro pre slot u v hslot hu hv
  obtain ⟨hlength, hbound, entries, hfiles, hcount⟩ := hu
  rw [List.countP_append, List.countP_singleton]
  rcases mergeFile_cases (hread slot hslot) hv with ⟨hpass, rfl⟩ | ⟨hkept, hsource, hinsert⟩
  · have hsame : ∀ e, Kept updateIndex pre e ↔ Kept updateIndex (pre ++ [slot]) e := by
      intro e
      rw [kept_append]
      constructor
      · exact .inl
      · intro he
        rcases he with he | ⟨-, hne, hzero⟩
        · exact he
        · exact absurd hpass (not_or.mpr ⟨hne, not_not.mpr hzero⟩)
    exact ⟨hlength, fun e he => hbound e ((hsame e).mpr he), entries, hfiles.congr hsame, by omega⟩
  · obtain ⟨-, hnext, entries', hfiles', hcount'⟩ := insertFileIdentity_spec hfiles hinsert
    have hnew : slot = ⟨slot.fileReference, slot.source, 0⟩ := by
      have hreserved := (readFileSlot_ok (hread slot hslot) hkept.1).2.2
      cases slot
      cases hreserved
      rfl
    refine ⟨hnext.trans hlength, ?_, entries', hfiles'.congr fun e => ?_, ?_⟩
    · intro e he
      rcases kept_append.mp he with he | ⟨rfl, -⟩
      · exact hbound e he
      · exact hsource
    · rw [kept_append, ← hnew]
      exact or_congr_right ⟨fun he => ⟨he, hkept⟩, fun he => he.1⟩
    · rw [if_pos (by simpa using hkept.1)]
      omega

variable {updates : List SourceChangeFileIdentityUpdate}

theorem updateFiles_spec {state' : List SourceChangeFileIndexSlot × Nat}
    (h : FileTable state.1 entries declared) (hok : updates.foldlM updateFile state = .ok state') :
    state'.1.length = state.1.length ∧ ∃ entries', FileTable state'.1 entries'
      (fun e => declared e ∨ Updated updates e) ∧
        entries'.length ≤ entries.length + updates.length := by
  refine foldlM_ok_rec (fun pre (u : List SourceChangeFileIndexSlot × Nat) =>
    u.1.length = state.1.length ∧ ∃ entries', FileTable u.1 entries'
      (fun e => declared e ∨ Updated pre e) ∧ entries'.length ≤ entries.length + pre.length) hok ?_ ?_
  · refine ⟨rfl, entries, h.congr fun e => ?_, by simp⟩
    simp [Updated]
  intro pre update u v _ hu hv
  obtain ⟨hlength, entries', hfiles, hcount⟩ := hu
  have hsplit : ∀ e, Updated (pre ++ [update]) e ↔ Updated pre e ∨
      (update.fileReference ≠ 0 ∧ e = ⟨update.fileReference, update.source, 0⟩) := by
    intro e
    unfold Updated
    constructor
    · intro he
      obtain ⟨x, hx, hrest⟩ := he
      rcases List.mem_append.mp hx with hx | hx
      · exact .inl ⟨x, hx, hrest⟩
      · rw [List.mem_singleton.mp hx] at hrest
        exact .inr hrest
    · intro he
      rcases he with ⟨x, hx, hrest⟩ | hrest
      · exact ⟨x, List.mem_append_left _ hx, hrest⟩
      · exact ⟨update, by simp, hrest⟩
  rw [List.length_append, List.length_singleton]
  unfold updateFile at hv
  split at hv
  · rename_i hzero
    cases hv
    refine ⟨hlength, entries', hfiles.congr fun e => ?_, by omega⟩
    rw [hsplit]
    simp [hzero]
  · rename_i hne
    cases hinsert : insertFileIdentity u.1 update.fileReference update.source with
    | none =>
      rw [hinsert] at hv
      cases hv
    | some next =>
      rw [hinsert] at hv
      cases hv
      obtain ⟨-, hnext, entries'', hfiles', hcount'⟩ := insertFileIdentity_spec hfiles hinsert
      refine ⟨hnext.trans hlength, entries'', hfiles'.congr fun e => ?_, by omega⟩
      rw [hsplit]
      simp [hne, or_assoc]

theorem nextCapacity_large (h : nextCapacity count ≠ 0) :
    ∃ n, nextCapacity count = 2 ^ n ∧ count < 2 ^ n := by
  unfold nextCapacity at h ⊢
  dsimp only at h ⊢
  generalize count / 4 + (if count % 4 ≠ 0 then 1 else 0) = quarter at h ⊢
  split at h
  · exact absurd rfl h
  · rename_i hsmall
    rw [if_neg hsmall]
    obtain ⟨n, heq, hle⟩ := @SourceManagerUpdate.nextCapacityLoop_spec 64 _ 16 4 rfl h
    exact ⟨n, heq, by omega⟩

def KeptFile (files : List SourceChangeFileIndexSlot)
    (updates : List SourceChangeFileIdentityUpdate) (e : SourceChangeFileIndexSlot) : Prop :=
  e ∈ files ∧ e.fileReference ≠ 0 ∧ ∀ update ∈ updates, update.source ≠ e.source

/-- The file index holds the kept slots and those of the updates, below its capacity. -/
theorem materializeFiles_spec (hok : materializeFiles sourceCount image updates = .ok state) :
    (∀ slot ∈ image.fileSlots, readFileSlot image slot = .ok slot) ∧
    (∀ update ∈ updates, update.source ≠ 0 ∧ update.source ≤ sourceCount) ∧
    ((state.1 = [] ∧ updates = [] ∧ ∀ slot ∈ image.fileSlots, slot.fileReference = 0) ∨
      ∃ entries, FileTable state.1 entries
          (fun e => KeptFile image.fileSlots updates e ∨ Updated updates e) ∧
        entries.length < state.1.length ∧ ∀ e ∈ entries, e.source ≤ sourceCount) := by
  unfold materializeFiles at hok
  obtain ⟨updateIndex, hindex, hok⟩ := bind_ok.mp hok
  obtain ⟨count, hcount, hok⟩ := bind_ok.mp hok
  have hnumbered := indexUpdates_numbered hindex
  obtain ⟨rfl, hread⟩ := countFiles_spec hcount
  have hsources : ∀ update ∈ updates, update.source ≠ 0 ∧ update.source ≤ sourceCount := by
    intro update hupdate
    obtain ⟨index, hget⟩ := List.mem_iff_getElem?.mp hupdate
    exact hnumbered.sources (update, index) (List.mem_zipIdx_iff_getElem?.mpr hget)
  refine ⟨hread, hsources, ?_⟩
  generalize hn : image.fileSlots.countP (fun slot => slot.fileReference != 0) = n at hok
  dsimp only at hok
  split at hok
  · cases hok
  split at hok
  · cases hok
  rename_i hcapacity
  obtain ⟨merged, hmerge, hupdate⟩ := bind_ok.mp hok
  by_cases hzero : n + updates.length = 0
  · left
    have hnone : ∀ slot ∈ image.fileSlots, slot.fileReference = 0 := by
      intro slot hslot
      have hall := List.countP_eq_zero.mp (show image.fileSlots.countP _ = 0 by
        rw [hn]
        omega) slot hslot
      simpa using hall
    have hnil : updates = [] := List.eq_nil_of_length_eq_zero (by omega)
    have hempty : merged = ([], 0) := by
      rw [if_neg (by omega)] at hmerge
      refine foldlM_ok_invariant (· = ([], 0)) hmerge rfl ?_
      intro slot u v hslot hu hv
      rcases mergeFile_cases (hread slot hslot) hv with ⟨-, rfl⟩ | ⟨hkept, -⟩
      · exact hu
      · exact absurd (hnone slot hslot) hkept.1
    rw [hnil, hempty] at hupdate
    cases hupdate
    exact ⟨rfl, hnil, hnone⟩
  · right
    rw [if_pos hzero] at hmerge
    obtain ⟨k, hk, hlarge⟩ := nextCapacity_large (fun h => hcapacity ⟨hzero, h⟩)
    have hfresh : FileTable (List.replicate (nextCapacity (n + updates.length)) {}) []
        fun _ => False := by
      refine ⟨?_, by simp, ?_⟩
      · rw [hk]
        exact table_replicate rfl k
      · intro slot hslot
        rw [List.eq_of_mem_replicate hslot]
    obtain ⟨hmerged, hbound, kept, hkept, hkeptCount⟩ := mergeFiles_spec hfresh hread hmerge
    obtain ⟨hlength, entries, hfiles, hentries⟩ := updateFiles_spec hkept hupdate
    have hsame : ∀ e, Kept updateIndex image.fileSlots e ↔ KeptFile image.fileSlots updates e := by
      intro e
      unfold Kept KeptFile
      refine and_congr_right fun he => and_congr_right fun hne => ?_
      have hle : updateIndex.getD e.source 0 ≠ 0 → e.source ≤ sourceCount := by
        intro h
        by_contra hgt
        rw [List.getD_eq_default _ _ (by rw [hnumbered.length]; omega)] at h
        exact h rfl
      constructor
      · intro hzero update hupdate heq
        have hsource := (hsources update hupdate).2
        obtain ⟨index, hget⟩ := List.mem_iff_getElem?.mp hupdate
        exact (hnumbered.updated e.source (by omega)).mpr
          ⟨(update, index), List.mem_zipIdx_iff_getElem?.mpr hget, heq⟩ hzero
      · intro hnone
        by_contra hupdated
        obtain ⟨item, hitem, heq⟩ := (hnumbered.updated e.source (hle hupdated)).mp hupdated
        exact hnone item.1 (List.mem_of_getElem? (List.mem_zipIdx_iff_getElem?.mp hitem)) heq
    refine ⟨entries, hfiles.congr fun e => or_congr_left (hsame e), ?_, ?_⟩
    · rw [hlength, hmerged, List.length_replicate, hk]
      omega
    · intro e he
      rcases (hfiles.mem e).mp he with hkeep | ⟨update, hmem, -, rfl⟩
      · have := hbound e hkeep
        have := hnumbered.length
        omega
      · exact (hsources update hmem).2

theorem notPowerOfTwo_pow (n : Nat) : notPowerOfTwo (2 ^ n) = false := by
  have hpos := Nat.two_pow_pos n
  have hand : 2 ^ n &&& (2 ^ n - 1) = 0 := by
    rw [Nat.and_two_pow_sub_one_eq_mod, Nat.mod_self]
  unfold notPowerOfTwo
  rw [hand]
  simp

theorem findSourceFile_table (h : FileTable slots entries declared)
    (hsource : ∀ e ∈ entries, e.source ≠ 0 ∧ e.source ≤ sourceCount ∧ e.reserved = 0)
    (hne : source ≠ 0) : findSourceFile sourceCount slots fileReference = source ↔
      declared ⟨fileReference, source, 0⟩ := by
  obtain ⟨n, hn⟩ := h.table.size
  have hentry : ∀ e, find fileFormat slots fileReference = some e ↔
      e ∈ entries ∧ e.fileReference = fileReference := fun e => h.table.find_eq
  have hused : ∀ e ∈ entries, e.fileReference ≠ 0 := by
    intro e he heq
    have hfree := (h.table.reached e he).1
    have hfree : (e.fileReference == 0) = false := hfree
    rw [heq] at hfree
    cases hfree
  unfold findSourceFile
  rw [hn, notPowerOfTwo_pow, Bool.or_false, ← h.mem]
  by_cases hzero : fileReference = 0
  · rw [if_pos (by simpa using hzero)]
    constructor
    · intro hsame
      exact absurd hsame.symm hne
    · intro he
      exact absurd hzero (hused _ he)
  rw [if_neg (by simpa using hzero)]
  cases hfind : find fileFormat slots fileReference with
  | none =>
    dsimp only
    constructor
    · intro hsame
      exact absurd hsame.symm hne
    · intro he
      rw [(hentry ⟨fileReference, source, 0⟩).mpr ⟨he, rfl⟩] at hfind
      cases hfind
  | some e =>
    obtain ⟨he, hkey⟩ := (hentry e).mp hfind
    obtain ⟨hpos, hle, hreserved⟩ := hsource e he
    dsimp only
    rw [if_pos (by simp [hpos, hle, hreserved])]
    constructor
    · intro hsame
      rw [← hkey, ← hsame, ← hreserved]
      exact he
    · intro hmem
      rw [(hentry ⟨fileReference, source, 0⟩).mpr ⟨hmem, rfl⟩] at hfind
      cases hfind
      rfl

end Files
end SourceChange
end ServerEngine

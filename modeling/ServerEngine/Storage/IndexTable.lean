import ServerEngine.Core.Hash
import ServerEngine.Library.Probing
import ServerEngine.Storage.MappedVector

/-! # Open-addressing indexes over mapped vectors

An index maps a key to a handle through its hash; the key itself is stored in another vector.
Insertion goes through mutable access, so it materializes every slot it visits and every stored key
it compares.
-/
namespace ServerEngine
open Probing

/-- `graph_identity_index_slot` and its siblings; an empty slot has handle zero. -/
structure IndexSlot where
  fingerprint : Nat := 0
  handle : Nat := 0

instance : Inhabited IndexSlot := ⟨{}⟩

/-- An entry to insert: `same` compares its key with a stored value. -/
structure IndexEntry (β : Type) where
  hash : Nat
  handle : Nat
  same : β → Bool

variable {β : Type}

namespace IndexEntry

def slot (e : IndexEntry β) : IndexSlot := ⟨fold32 e.hash, e.handle⟩

def home (e : IndexEntry β) (size : Nat) : Nat := e.hash &&& (size - 1)

def compared (e : IndexEntry β) (compares : Bool) (count : Nat) (s : IndexSlot) : Bool :=
  s.handle != 0 && compares && s.fingerprint == fold32 e.hash && s.handle ≤ count

def stops (e : IndexEntry β) (compares : Bool) (count : Nat) (values : Nat → β)
    (slots : Nat → IndexSlot) (pos : Nat) : Bool :=
  (slots pos).handle == 0 ||
    (e.compared compares count (slots pos) && e.same (values ((slots pos).handle - 1)))

end IndexEntry

variable [Inhabited β]

/-- `insert_identity_index` and its siblings; `compares` is false for the index of derived types. A
loop that never ends has no result. -/
def insertLoop (compares : Bool) (e : IndexEntry β) (mask : Nat) :
    Nat → Nat → MappedVector IndexSlot → MappedVector β →
      Option (MappedVector IndexSlot × MappedVector β)
  | 0, _, _, _ => none
  | fuel + 1, pos, slots, values =>
    let slots := slots.materialize pos
    let slot := slots.value pos
    if slot.handle = 0 then some (slots.assign pos e.slot, values)
    else if e.compared compares values.size slot then
      let values := values.materialize (slot.handle - 1)
      if e.same (values.value (slot.handle - 1)) then some (slots, values)
      else insertLoop compares e mask fuel (next mask pos) slots values
    else insertLoop compares e mask fuel (next mask pos) slots values

def insertIndex (compares : Bool) (slots : MappedVector IndexSlot) (values : MappedVector β)
    (e : IndexEntry β) : Option (MappedVector IndexSlot × MappedVector β) :=
  insertLoop compares e (slots.size - 1) slots.size (e.home slots.size) slots values

def insertAll (compares : Bool) (slots : MappedVector IndexSlot) (values : MappedVector β)
    (entries : List (IndexEntry β)) : Option (MappedVector IndexSlot × MappedVector β) :=
  entries.foldlM (fun (slots, values) e => insertIndex compares slots values e) (slots, values)

/-! ## Insertion without baseline reads -/

def PathHeld (compares : Bool) (e : IndexEntry β) (heldSlot heldValue : Nat → Bool) (count : Nat)
    (slots : Nat → IndexSlot) (path : List Nat) : Prop :=
  ∀ p ∈ path, heldSlot p = true ∧
    (e.compared compares count (slots p) = true → heldValue ((slots p).handle - 1) = true)

def placeSlot (e : IndexEntry β) (slots : Nat → IndexSlot) (pos : Nat) : Nat → IndexSlot :=
  if (slots pos).handle = 0 then Function.update slots pos e.slot else slots

/-- Probing for the entries in order, each with the earlier ones placed, needs no baseline read and
ends. -/
def Covered (compares : Bool) (size count : Nat) (values : Nat → β)
    (heldSlot heldValue : Nat → Bool) : (Nat → IndexSlot) → List (IndexEntry β) → Prop
  | _, [] => True
  | slots, e :: es =>
    ∃ pos, stopAt (e.stops compares count values slots) (size - 1) size (e.home size) = some pos ∧
      PathHeld compares e heldSlot heldValue count slots
        (path (e.stops compares count values slots) (size - 1) size (e.home size)) ∧
      Covered compares size count values heldSlot heldValue (placeSlot e slots pos) es

variable {compares : Bool} {e : IndexEntry β} {mask fuel pos : Nat}
variable {slots s : MappedVector IndexSlot} {values v : MappedVector β}

theorem insertLoop_reads_le (h : insertLoop compares e mask fuel pos slots values = some (s, v)) :
    slots.reads ≤ s.reads ∧ values.reads ≤ v.reads := by
  induction fuel generalizing pos slots values with
  | zero => cases h
  | succ fuel ih =>
    have hslots : slots.reads ≤ (slots.materialize pos).reads := by
      rw [MappedVector.materialize_reads]
      split <;> omega
    have hvalues : ∀ i, values.reads ≤ (values.materialize i).reads := by
      intro i
      rw [MappedVector.materialize_reads]
      split <;> omega
    rw [insertLoop] at h
    dsimp only at h
    split at h
    · cases h
      exact ⟨by simpa using hslots, Nat.le_refl _⟩
    · split at h
      · have hvalue := hvalues (((slots.materialize pos).value pos).handle - 1)
        split at h
        · cases h
          exact ⟨hslots, hvalue⟩
        · have hrest := ih h
          omega
      · have hrest := ih h
        omega

theorem insertLoop_of_held
    (h : PathHeld compares e slots.held values.held values.size slots.value (path (e.stops compares values.size values.value slots.value) mask fuel pos)) :
    insertLoop compares e mask fuel pos slots values =
      (stopAt (e.stops compares values.size values.value slots.value) mask fuel pos).map
        fun p => (if (slots.value p).handle = 0 then slots.assign p e.slot else slots, values) := by
  induction fuel generalizing pos with
  | zero => rfl
  | succ fuel ih =>
    rw [path] at h
    rw [insertLoop, stopAt]
    have hpos := h pos (by split <;> simp)
    rw [MappedVector.materialize_held hpos.1]
    by_cases hzero : (slots.value pos).handle = 0
    · have hstop : e.stops compares values.size values.value slots.value pos = true := by
        simp [IndexEntry.stops, hzero]
      rw [if_pos hzero, if_pos hstop]
      simp [hzero]
    · rw [if_neg hzero]
      by_cases hcomp : e.compared compares values.size (slots.value pos) = true
      · rw [if_pos hcomp, MappedVector.materialize_held (hpos.2 hcomp)]
        by_cases hsame : e.same (values.value ((slots.value pos).handle - 1)) = true
        · have hstop : e.stops compares values.size values.value slots.value pos = true := by
            simp [IndexEntry.stops, hcomp, hsame]
          rw [if_pos hsame, if_pos hstop]
          simp [hzero]
        · have hstop : ¬e.stops compares values.size values.value slots.value pos = true := by
            simp [IndexEntry.stops, hzero, hsame]
          rw [if_neg hsame, if_neg hstop]
          rw [if_neg hstop] at h
          exact ih fun p hp => h p (List.mem_cons_of_mem _ hp)
      · have hstop : ¬e.stops compares values.size values.value slots.value pos = true := by
          simp [IndexEntry.stops, hzero, hcomp]
        rw [if_neg hcomp, if_neg hstop]
        rw [if_neg hstop] at h
        exact ih fun p hp => h p (List.mem_cons_of_mem _ hp)

/-- An insertion that reads nothing from the baseline had a held path. -/
theorem held_of_insertLoop (h : insertLoop compares e mask fuel pos slots values = some (s, v))
    (hs : s.reads = slots.reads) (hv : v.reads = values.reads) :
    PathHeld compares e slots.held values.held values.size slots.value
      (path (e.stops compares values.size values.value slots.value) mask fuel pos) := by
  induction fuel generalizing pos with
  | zero => cases h
  | succ fuel ih =>
    have hslot : slots.held pos = true := by
      by_contra hnot
      have hreads := MappedVector.materialize_reads slots pos
      rw [if_neg hnot] at hreads
      rw [insertLoop] at h
      dsimp only at h
      split at h
      · cases h
        rw [MappedVector.assign_reads] at hs
        omega
      · split at h
        · split at h
          · cases h
            omega
          · have := (insertLoop_reads_le h).1
            omega
        · have := (insertLoop_reads_le h).1
          omega
    have hvalue : e.compared compares values.size (slots.value pos) = true →
        values.held ((slots.value pos).handle - 1) = true := by
      intro hcomp
      have hzero : (slots.value pos).handle ≠ 0 := by
        simp only [IndexEntry.compared, Bool.and_eq_true, bne_iff_ne] at hcomp
        exact hcomp.1.1.1
      by_contra hnot
      have hreads := MappedVector.materialize_reads values ((slots.value pos).handle - 1)
      rw [if_neg hnot] at hreads
      rw [insertLoop] at h
      dsimp only at h
      rw [MappedVector.materialize_held hslot, if_neg hzero, if_pos hcomp] at h
      split at h
      · cases h
        omega
      · have := (insertLoop_reads_le h).2
        omega
    rw [path]
    by_cases hstop : e.stops compares values.size values.value slots.value pos = true
    · rw [if_pos hstop]
      intro p hp
      rw [List.mem_singleton] at hp
      subst hp
      exact ⟨hslot, hvalue⟩
    · rw [if_neg hstop]
      have hzero : (slots.value pos).handle ≠ 0 := by
        intro hz
        exact hstop (by simp [IndexEntry.stops, hz])
      have hrest : insertLoop compares e mask fuel (next mask pos) slots values = some (s, v) := by
        rw [insertLoop] at h
        rw [MappedVector.materialize_held hslot, if_neg hzero] at h
        by_cases hcomp : e.compared compares values.size (slots.value pos) = true
        · have hsame : ¬e.same (values.value ((slots.value pos).handle - 1)) = true := by
            intro hsame
            exact hstop (by simp [IndexEntry.stops, hcomp, hsame])
          rw [if_pos hcomp, MappedVector.materialize_held (hvalue hcomp), if_neg hsame] at h
          exact h
        · rw [if_neg hcomp] at h
          exact h
      intro p hp
      rcases List.mem_cons.mp hp with rfl | hp
      · exact ⟨hslot, hvalue⟩
      · exact ih hrest p hp

variable {entries : List (IndexEntry β)}

theorem insertAll_reads_le (h : insertAll compares slots values entries = some (s, v)) :
    slots.reads ≤ s.reads ∧ values.reads ≤ v.reads := by
  induction entries generalizing slots values with
  | nil =>
    cases h
    exact ⟨Nat.le_refl _, Nat.le_refl _⟩
  | cons e es ih =>
    obtain ⟨⟨s₁, v₁⟩, hone, hrest⟩ := Option.bind_eq_some_iff.mp h
    have h1 := insertLoop_reads_le hone
    have h2 := ih hrest
    omega

theorem insertIndex_of_held (hsize : slots.size ≠ 0)
    (hstop : stopAt (e.stops compares values.size values.value slots.value) (slots.size - 1) slots.size (e.home slots.size) = some pos)
    (hpath : PathHeld compares e slots.held values.held values.size slots.value (path (e.stops compares values.size values.value slots.value) (slots.size - 1) slots.size (e.home slots.size))) :
    ∃ s, insertIndex compares slots values e = some (s, values) ∧ s.reads = slots.reads ∧
      s.size = slots.size ∧ s.held = slots.held ∧ s.value = placeSlot e slots.value pos := by
  have hmem := stopAt_mem hstop
  have hhome : e.home slots.size ≤ slots.size - 1 := Nat.and_le_right
  have hpos := path_le hhome pos hmem
  have hheld := (hpath pos hmem).1
  rw [insertIndex, insertLoop_of_held hpath, hstop, Option.map_some]
  by_cases hzero : (slots.value pos).handle = 0
  · refine ⟨slots.assign pos e.slot, by rw [if_pos hzero], by simp, by simp, ?_, ?_⟩
    · funext j
      exact MappedVector.assign_held hheld
    · funext j
      rw [MappedVector.assign_value hheld (by omega), placeSlot, if_pos hzero,
        Function.update_apply]
  · exact ⟨slots, by rw [if_neg hzero], rfl, rfl, rfl, by rw [placeSlot, if_neg hzero]⟩

theorem insertAll_iff (hsize : slots.size ≠ 0) :
    (∃ s v, insertAll compares slots values entries = some (s, v) ∧ s.reads = slots.reads ∧
      v.reads = values.reads) ↔
    Covered compares slots.size values.size values.value slots.held values.held slots.value
      entries := by
  induction entries generalizing slots with
  | nil => simp [insertAll, Covered]
  | cons e es ih =>
    constructor
    · rintro ⟨s, v, h, hs, hv⟩
      obtain ⟨⟨s₁, v₁⟩, hone, hrest⟩ := Option.bind_eq_some_iff.mp h
      replace hone : insertIndex compares slots values e = some (s₁, v₁) := hone
      have hone_le := insertLoop_reads_le hone
      have hrest_le := insertAll_reads_le hrest
      have hpath := held_of_insertLoop hone (by omega) (by omega)
      have hresult := insertLoop_of_held hpath
      rw [insertIndex, hresult] at hone
      obtain ⟨pos, hstop, -⟩ := Option.map_eq_some_iff.mp hone
      obtain ⟨s₂, hs₂, hreads, hsize₂, hheld, hvalue⟩ := insertIndex_of_held hsize hstop hpath
      have hsame : some (s₂, values) = some (s₁, v₁) := by
        rw [← hs₂, ← hone, ← hresult]
        rfl
      obtain ⟨rfl, rfl⟩ := Prod.mk.inj (Option.some.inj hsame)
      refine ⟨pos, hstop, hpath, ?_⟩
      have hcov := (ih (by omega)).mp ⟨s, v, hrest, by omega, by omega⟩
      rw [hsize₂, hheld, hvalue] at hcov
      exact hcov
    · rintro ⟨pos, hstop, hpath, hcov⟩
      obtain ⟨s₂, hs₂, hreads, hsize₂, hheld, hvalue⟩ := insertIndex_of_held hsize hstop hpath
      rw [← hsize₂, ← hheld, ← hvalue] at hcov
      obtain ⟨s, v, hrest, hs, hv⟩ := (ih (by omega)).mpr hcov
      refine ⟨s, v, ?_, by omega, hv⟩
      exact Option.bind_eq_some_iff.mpr ⟨_, hs₂, hrest⟩

end ServerEngine

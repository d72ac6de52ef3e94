import ServerEngine.Core.Status
import Mathlib.Data.List.Basic

/-! # Mapped vectors

A baseline decoded from the image only where it is touched, followed by local values. The
association list stands for the element cache with its hash index; `reads` counts the calls of the
reader.
-/
namespace ServerEngine

/-- `mapped_vector<T>`. -/
structure MappedVector (α : Type) where
  baselineCount : Nat := 0
  reader : Nat → Except StatusCode α := fun _ => .error .invalidState
  readFailure : Option StatusCode := none
  elementCache : List (Nat × α) := []
  localValues : List α := []
  localCapacity : Nat := 0
  reads : Nat := 0

namespace MappedVector

variable {α : Type}

/-! ## Operations -/

def size (v : MappedVector α) : Nat := v.baselineCount + v.localValues.length

def capacity (v : MappedVector α) : Nat :=
  v.baselineCount + max v.localCapacity v.localValues.length

def findElement (v : MappedVector α) (index : Nat) : Option α :=
  (v.elementCache.find? (·.1 == index)).map (·.2)

/-- `read`: decode without caching. -/
def read (v : MappedVector α) (index : Nat) : Except StatusCode α :=
  if index < v.baselineCount then
    match v.findElement index with
    | some value => .ok value
    | none => v.reader index
  else match v.localValues[index - v.baselineCount]? with
    | some value => .ok value
    | none => .error .notFound

/-- `materialized`: what is there without a baseline read. -/
def materialized (v : MappedVector α) (index : Nat) : Option α :=
  if index < v.baselineCount then v.findElement index else v.localValues[index - v.baselineCount]?

def reserve (v : MappedVector α) (requested : Nat) : MappedVector α :=
  { v with localCapacity := max v.localCapacity (requested - v.baselineCount) }

def pushBack (v : MappedVector α) (value : α) : MappedVector α :=
  { v with localValues := v.localValues ++ [value] }

/-- `swap` with a plain vector: the container detaches from its baseline. -/
def swapLocal (v : MappedVector α) (values : List α) : MappedVector α :=
  { localValues := values, reads := v.reads }

/-- `operator[]`: a baseline record that is not cached is read and cached; when the reader fails,
the reference is to `failure_value`. -/
def materialize (v : MappedVector α) (index : Nat) : MappedVector α :=
  if index < v.baselineCount then
    match v.findElement index with
    | some _ => v
    | none => match v.reader index with
      | .ok value => { v with elementCache := (index, value) :: v.elementCache, reads := v.reads + 1 }
      | .error code =>
        { v with readFailure := v.readFailure.or (some code), reads := v.reads + 1 }
  else v

/-- The value that `operator[]` refers to. -/
def value [Inhabited α] (v : MappedVector α) (index : Nat) : α :=
  match v.read index with
  | .ok value => value
  | .error _ => default

/-- Assignment through a reference `operator[]` gave: a write to `failure_value` is lost. -/
def assign (v : MappedVector α) (index : Nat) (value : α) : MappedVector α :=
  if index < v.baselineCount then
    match v.findElement index with
    | some _ => { v with elementCache := (index, value) :: v.elementCache }
    | none => v
  else { v with localValues := v.localValues.set (index - v.baselineCount) value }

def set (v : MappedVector α) (index : Nat) (value : α) : MappedVector α :=
  (v.materialize index).assign index value

/-- An access at `index` needs no baseline read. -/
def held (v : MappedVector α) (index : Nat) : Bool :=
  v.baselineCount ≤ index || (v.findElement index).isSome

/-! ## Reading and materializing -/

variable {v : MappedVector α} {i : Nat}

theorem held_iff : v.held i = true ↔ v.baselineCount ≤ i ∨ (v.findElement i).isSome := by
  simp [held]

theorem findElement_cons (v : MappedVector α) (i j : Nat) (x : α) (n : Nat) :
    ({ v with elementCache := (i, x) :: v.elementCache, reads := n } : MappedVector α).findElement j =
      if j = i then some x else v.findElement j := by
  by_cases h : j = i
  · simp [findElement, h]
  · simp [findElement, h, Ne.symm h]

@[simp] theorem materialize_baselineCount (v : MappedVector α) (i : Nat) :
    (v.materialize i).baselineCount = v.baselineCount := by
  unfold materialize
  split
  · split
    · rfl
    · split <;> rfl
  · rfl

@[simp] theorem materialize_localValues (v : MappedVector α) (i : Nat) :
    (v.materialize i).localValues = v.localValues := by
  unfold materialize
  split
  · split
    · rfl
    · split <;> rfl
  · rfl

@[simp] theorem materialize_size (v : MappedVector α) (i : Nat) :
    (v.materialize i).size = v.size := by
  simp [size]

theorem materialize_held (h : v.held i = true) : v.materialize i = v := by
  unfold materialize
  split
  · rename_i hlt
    rcases held_iff.mp h with h | h
    · omega
    · obtain ⟨x, hx⟩ := Option.isSome_iff_exists.mp h
      rw [hx]
  · rfl

theorem materialize_reads (v : MappedVector α) (i : Nat) :
    (v.materialize i).reads = if v.held i then v.reads else v.reads + 1 := by
  by_cases h : v.held i = true
  · rw [materialize_held h, if_pos h]
  · rw [if_neg h]
    have hn : i < v.baselineCount ∧ v.findElement i = none := by
      simpa [held] using h
    unfold materialize
    rw [if_pos hn.1, hn.2]
    cases v.reader i <;> rfl

@[simp] theorem materialize_read (v : MappedVector α) (i j : Nat) :
    (v.materialize i).read j = v.read j := by
  by_cases h : v.held i = true
  · rw [materialize_held h]
  · have hn : i < v.baselineCount ∧ v.findElement i = none := by
      simpa [held] using h
    unfold materialize
    rw [if_pos hn.1, hn.2]
    cases hr : v.reader i with
    | error code => rfl
    | ok x =>
      simp only [read]
      split
      · rw [findElement_cons]
        by_cases hj : j = i
        · subst hj
          simp [hn.2, hr]
        · simp [hj]
      · rfl

@[simp] theorem materialize_value [Inhabited α] (v : MappedVector α) (i j : Nat) :
    (v.materialize i).value j = v.value j := by
  simp [value]

variable {j : Nat}

theorem held_materialize_of_held (h : v.held j = true) : (v.materialize i).held j = true := by
  by_cases hi : v.held i = true
  · rw [materialize_held hi]
    exact h
  · have hn : i < v.baselineCount ∧ v.findElement i = none := by
      simpa [held] using hi
    unfold materialize
    rw [if_pos hn.1, hn.2]
    cases hr : v.reader i with
    | error code => exact h
    | ok x =>
      rw [held_iff] at h ⊢
      rw [findElement_cons]
      by_cases hj : j = i
      · simp [hj]
      · simpa [hj] using h

theorem held_materialize (h : (v.materialize i).readFailure = none) :
    (v.materialize i).held j = true ↔ v.held j = true ∨ j = i := by
  by_cases hi : v.held i = true
  · rw [materialize_held hi]
    constructor
    · exact .inl
    · rintro (hj | rfl)
      · exact hj
      · exact hi
  · have hn : i < v.baselineCount ∧ v.findElement i = none := by
      simpa [held] using hi
    unfold materialize at h ⊢
    rw [if_pos hn.1, hn.2] at h ⊢
    cases hr : v.reader i with
    | error code =>
      rw [hr] at h
      cases hf : v.readFailure <;> simp [hf] at h
    | ok x =>
      simp only [held_iff]
      rw [findElement_cons]
      by_cases hj : j = i
      · simp [hj]
      · simp [hj]

theorem readFailure_materialize (h : (v.materialize i).readFailure = none) :
    v.readFailure = none := by
  unfold materialize at h
  split at h
  · split at h
    · exact h
    · split at h
      · exact h
      · cases hf : v.readFailure <;> simp [hf] at h ⊢
  · exact h

/-! ## Writing -/

@[simp] theorem assign_baselineCount (v : MappedVector α) (i : Nat) (x : α) :
    (v.assign i x).baselineCount = v.baselineCount := by
  unfold assign
  split
  · split <;> rfl
  · rfl

@[simp] theorem assign_reads (v : MappedVector α) (i : Nat) (x : α) :
    (v.assign i x).reads = v.reads := by
  unfold assign
  split
  · split <;> rfl
  · rfl

@[simp] theorem assign_size (v : MappedVector α) (i : Nat) (x : α) :
    (v.assign i x).size = v.size := by
  unfold assign
  split
  · split <;> rfl
  · simp [size]

variable {x : α}

theorem assign_of_held (h : v.held i = true) :
    v.assign i x = if i < v.baselineCount then { v with elementCache := (i, x) :: v.elementCache }
      else { v with localValues := v.localValues.set (i - v.baselineCount) x } := by
  unfold assign
  split
  · rcases held_iff.mp h with hb | hc
    · omega
    · obtain ⟨y, hy⟩ := Option.isSome_iff_exists.mp hc
      rw [hy]
  · rfl

theorem assign_read (h : v.held i = true) (hi : i < v.size) :
    (v.assign i x).read j = if j = i then .ok x else v.read j := by
  rw [assign_of_held h]
  by_cases hlt : i < v.baselineCount
  · rw [if_pos hlt]
    have hfind := findElement_cons v i j x v.reads
    by_cases hj : j = i
    · subst hj
      rw [if_pos rfl] at hfind
      rw [read, if_pos hlt, hfind, if_pos rfl]
    · rw [if_neg hj] at hfind
      rw [read, read, hfind, if_neg hj]
  · rw [if_neg hlt]
    have hlen : i - v.baselineCount < v.localValues.length := by
      simp only [size] at hi
      omega
    by_cases hj : j = i
    · subst hj
      rw [read, if_neg hlt, if_pos rfl]
      simp [hlen]
    · rw [if_neg hj, read, read]
      by_cases hjb : j < v.baselineCount
      · rw [if_pos hjb, if_pos hjb]
        rfl
      · have hne : i - v.baselineCount ≠ j - v.baselineCount := by omega
        rw [if_neg hjb, if_neg hjb]
        simp [List.getElem?_set_ne hne]

theorem assign_value [Inhabited α] (h : v.held i = true) (hi : i < v.size) :
    (v.assign i x).value j = if j = i then x else v.value j := by
  rw [value, assign_read h hi]
  by_cases hj : j = i
  · simp [hj]
  · simp [hj, value]

theorem assign_held (h : v.held i = true) : (v.assign i x).held j = v.held j := by
  rw [assign_of_held h]
  split
  · rename_i hlt
    have hfind := findElement_cons v i j x v.reads
    simp only [held]
    by_cases hj : j = i
    · subst hj
      rcases held_iff.mp h with hb | hc
      · omega
      · simp [hfind, hc]
    · simp only [hj, if_false] at hfind
      simp [hfind]
  · rfl

theorem set_reads (v : MappedVector α) (i : Nat) (x : α) :
    (v.set i x).reads = if v.held i then v.reads else v.reads + 1 := by
  rw [set, assign_reads, materialize_reads]

theorem set_held (h : v.held i = true) : (v.set i x).held j = v.held j := by
  rw [set, materialize_held h, assign_held h]

def append (v : MappedVector α) (values : List α) : MappedVector α := values.foldl pushBack v

theorem append_eq (v : MappedVector α) (values : List α) :
    v.append values = { v with localValues := v.localValues ++ values } := by
  unfold append
  induction values generalizing v with
  | nil => simp
  | cons x xs ih =>
    rw [List.foldl_cons, ih]
    simp [pushBack]

@[simp] theorem append_reads (v : MappedVector α) (values : List α) :
    (v.append values).reads = v.reads := by
  rw [append_eq]

@[simp] theorem append_held (v : MappedVector α) (values : List α) (i : Nat) :
    (v.append values).held i = v.held i := by
  rw [append_eq]
  rfl

@[simp] theorem append_size (v : MappedVector α) (values : List α) :
    (v.append values).size = v.size + values.length := by
  rw [append_eq]
  simp only [size, List.length_append]
  omega

@[simp] theorem reserve_size (v : MappedVector α) (n : Nat) : (v.reserve n).size = v.size := rfl

theorem append_reserve (v : MappedVector α) (n : Nat) (values : List α) :
    (v.reserve n).append values =
      { v.append values with localCapacity := (v.reserve n).localCapacity } := by
  rw [append_eq, append_eq]
  rfl

/-! ## Patching -/

def patchAll (v : MappedVector α) (patches : List (Nat × α)) : MappedVector α :=
  patches.foldl (fun v (i, value) => v.set i value) v

theorem patchAll_reads_le (v : MappedVector α) (patches : List (Nat × α)) :
    v.reads ≤ (v.patchAll patches).reads := by
  induction patches generalizing v with
  | nil => exact Nat.le_refl _
  | cons patch rest ih =>
    have hset := set_reads v patch.1 patch.2
    have hrest := ih (v.set patch.1 patch.2)
    have hle : v.reads ≤ (v.set patch.1 patch.2).reads := by
      rw [hset]
      split <;> omega
    exact Nat.le_trans hle hrest

theorem patchAll_reads_iff (v : MappedVector α) (patches : List (Nat × α)) :
    (v.patchAll patches).reads = v.reads ↔ ∀ patch ∈ patches, v.held patch.1 = true := by
  induction patches generalizing v with
  | nil => simp [patchAll]
  | cons patch rest ih =>
    have hset := set_reads v patch.1 patch.2
    have hle := patchAll_reads_le (v.set patch.1 patch.2) rest
    have hfold : v.patchAll (patch :: rest) = (v.set patch.1 patch.2).patchAll rest := rfl
    rw [hfold, List.forall_mem_cons]
    by_cases hheld : v.held patch.1 = true
    · rw [if_pos hheld] at hset
      have hsame : ∀ j, (v.set patch.1 patch.2).held j = v.held j := fun j => set_held hheld
      have hrest := ih (v.set patch.1 patch.2)
      rw [hset] at hrest
      rw [hrest]
      simp only [hsame, hheld, true_and]
    · rw [if_neg hheld] at hset
      constructor
      · intro h
        omega
      · intro h
        exact absurd h.1 hheld

theorem materialize_capacity (v : MappedVector α) (n i : Nat) :
    ({ v with localCapacity := n } : MappedVector α).materialize i =
      { v.materialize i with localCapacity := n } := by
  unfold materialize
  split
  · have hfind : ({ v with localCapacity := n } : MappedVector α).findElement i = v.findElement i :=
      rfl
    rw [hfind]
    cases v.findElement i with
    | some x => rfl
    | none => cases v.reader i <;> rfl
  · rfl

theorem assign_capacity (v : MappedVector α) (n i : Nat) (x : α) :
    ({ v with localCapacity := n } : MappedVector α).assign i x =
      { v.assign i x with localCapacity := n } := by
  unfold assign
  split
  · have hfind : ({ v with localCapacity := n } : MappedVector α).findElement i = v.findElement i :=
      rfl
    rw [hfind]
    cases v.findElement i <;> rfl
  · rfl

theorem patchAll_capacity (v : MappedVector α) (n : Nat) (patches : List (Nat × α)) :
    ({ v with localCapacity := n } : MappedVector α).patchAll patches =
      { v.patchAll patches with localCapacity := n } := by
  induction patches generalizing v with
  | nil => rfl
  | cons patch rest ih =>
    have hset : ({ v with localCapacity := n } : MappedVector α).set patch.1 patch.2 =
        { v.set patch.1 patch.2 with localCapacity := n } := by
      rw [set, materialize_capacity, assign_capacity, set]
    have hrest := ih (v.set patch.1 patch.2)
    rw [← hset] at hrest
    exact hrest

structure Alike (v w : MappedVector α) : Prop where
  size : v.size = w.size
  read : ∀ i, v.read i = w.read i
  held : ∀ i, v.held i = w.held i

variable {w : MappedVector α}

theorem Alike.value [Inhabited α] (h : Alike v w) : v.value = w.value := by
  funext i
  rw [MappedVector.value, h.read i, MappedVector.value]

theorem reserve_patched_alike (v : MappedVector α) (n : Nat) (values : List α)
    (patches : List (Nat × α)) :
    Alike (((v.reserve n).append values).patchAll patches) ((v.append values).patchAll patches) := by
  rw [append_reserve, patchAll_capacity]
  exact ⟨rfl, fun _ => rfl, fun _ => rfl⟩

theorem reserve_append_alike (v : MappedVector α) (n : Nat) (values : List α) :
    Alike ((v.reserve n).append values) (v.append values) :=
  reserve_patched_alike v n values []

/-! ## What is materialized -/

theorem read_of_materialized (h : v.materialized i = some x) : v.read i = .ok x := by
  unfold materialized at h
  unfold read
  by_cases hi : i < v.baselineCount
  · rw [if_pos hi] at h ⊢
    rw [h]
  · rw [if_neg hi] at h ⊢
    rw [h]

theorem materialized_of_held (h : v.held i = true) (hi : i < v.size) :
    ∃ x, v.materialized i = some x := by
  unfold materialized
  by_cases hb : i < v.baselineCount
  · rw [if_pos hb]
    rcases held_iff.mp h with h | h
    · omega
    · exact Option.isSome_iff_exists.mp h
  · rw [if_neg hb]
    simp only [size] at hi
    exact ⟨_, List.getElem?_eq_getElem (by omega)⟩

theorem held_of_materialized (h : v.materialized i = some x) : v.held i = true := by
  unfold materialized at h
  rw [held_iff]
  by_cases hb : i < v.baselineCount
  · rw [if_pos hb] at h
    rw [h]
    exact .inr rfl
  · exact .inl (by omega)

theorem read_of_size_le (h : v.size ≤ i) : v.read i = .error .notFound := by
  simp only [size] at h
  unfold read
  rw [if_neg (by omega), List.getElem?_eq_none (by omega)]

theorem value_of_size_le [Inhabited α] (h : v.size ≤ i) : v.value i = default := by
  rw [value, read_of_size_le h]

theorem read_of_not_held (h : v.held i = false) : i < v.baselineCount ∧ v.read i = v.reader i := by
  have hn : i < v.baselineCount ∧ v.findElement i = none := by simpa [held] using h
  refine ⟨hn.1, ?_⟩
  rw [read, if_pos hn.1, hn.2]

theorem held_materialize_iff :
    (v.materialize i).held j = true ↔ v.held j = true ∨ (j = i ∧ (v.reader i).isOk = true) := by
  by_cases hi : v.held i = true
  · rw [materialize_held hi]
    constructor
    · exact .inl
    · rintro (h | ⟨rfl, -⟩)
      · exact h
      · exact hi
  · have hn : i < v.baselineCount ∧ v.findElement i = none := by simpa [held] using hi
    unfold materialize
    rw [if_pos hn.1, hn.2]
    cases hr : v.reader i with
    | error code =>
      simp only [Except.isOk, Except.toBool, Bool.false_eq_true, and_false, or_false]
      rfl
    | ok x =>
      simp only [held_iff]
      rw [findElement_cons]
      by_cases hj : j = i
      · simp [hj, Except.isOk, Except.toBool]
      · simp [hj]

@[simp] theorem materialize_reader (v : MappedVector α) (i : Nat) :
    (v.materialize i).reader = v.reader := by
  unfold materialize
  split
  · split
    · rfl
    · split <;> rfl
  · rfl

@[simp] theorem materialize_localCapacity (v : MappedVector α) (i : Nat) :
    (v.materialize i).localCapacity = v.localCapacity := by
  unfold materialize
  split
  · split
    · rfl
    · split <;> rfl
  · rfl

@[simp] theorem set_size (v : MappedVector α) (i : Nat) (x : α) : (v.set i x).size = v.size := by
  rw [set, assign_size, materialize_size]

@[simp] theorem set_baselineCount (v : MappedVector α) (i : Nat) (x : α) :
    (v.set i x).baselineCount = v.baselineCount := by
  rw [set, assign_baselineCount, materialize_baselineCount]

theorem assign_of_not_held (h : v.held i = false) : v.assign i x = v := by
  have hn : i < v.baselineCount ∧ v.findElement i = none := by simpa [held] using h
  rw [assign, if_pos hn.1, hn.2]

@[simp] theorem assign_reader (v : MappedVector α) (i : Nat) (x : α) :
    (v.assign i x).reader = v.reader := by
  unfold assign
  split
  · split <;> rfl
  · rfl

@[simp] theorem set_reader (v : MappedVector α) (i : Nat) (x : α) :
    (v.set i x).reader = v.reader := by
  rw [set, assign_reader, materialize_reader]

theorem set_value [Inhabited α] (x : α) (hi : i < v.size) (j : Nat) :
    (v.set i x).value j = if j = i ∧ (v.materialize i).held i = true then x else v.value j := by
  rw [set]
  by_cases h : (v.materialize i).held i = true
  · rw [assign_value h (by rw [materialize_size]; exact hi), materialize_value]
    simp [h]
  · rw [assign_of_not_held (by simpa using h), materialize_value]
    simp [h]

@[simp] theorem pushBack_size (v : MappedVector α) (x : α) : (v.pushBack x).size = v.size + 1 := by
  simp only [size, pushBack, List.length_append, List.length_singleton]
  omega

theorem pushBack_read (v : MappedVector α) (x : α) (i : Nat) :
    (v.pushBack x).read i = if i = v.size then .ok x else v.read i := by
  by_cases hb : i < v.baselineCount
  · have hne : i ≠ v.size := by
      simp only [size]
      omega
    rw [if_neg hne, read, read, if_pos hb, pushBack, if_pos hb]
    rfl
  · rw [read, read, pushBack, if_neg hb, if_neg hb]
    by_cases hi : i = v.size
    · have hlast : i - v.baselineCount = v.localValues.length := by
        simp only [size] at hi
        omega
      rw [hlast, if_pos hi]
      simp
    · by_cases hlt : i - v.baselineCount < v.localValues.length
      · rw [List.getElem?_append_left hlt, if_neg hi]
      · have hne : i - v.baselineCount ≠ v.localValues.length := by
          simp only [size] at hi
          omega
        rw [if_neg hi, List.getElem?_eq_none (by simp; omega), List.getElem?_eq_none (by omega)]

theorem pushBack_value [Inhabited α] (v : MappedVector α) (x : α) (i : Nat) :
    (v.pushBack x).value i = if i = v.size then x else v.value i := by
  rw [value, pushBack_read]
  by_cases h : i = v.size
  · simp [h]
  · simp [h, value]

/-- `w` reads as `v`, holds at least as much and has at least as much room. -/
structure Grown (v w : MappedVector α) : Prop where
  baselineCount : w.baselineCount = v.baselineCount
  reader : w.reader = v.reader
  localValues : w.localValues = v.localValues
  read : ∀ i, w.read i = v.read i
  held : ∀ i, v.held i = true → w.held i = true
  capacity : v.capacity ≤ w.capacity

theorem Grown.refl (v : MappedVector α) : Grown v v :=
  ⟨rfl, rfl, rfl, fun _ => rfl, fun _ h => h, Nat.le_refl _⟩

theorem Grown.trans {x : MappedVector α} (h : Grown v w) (h' : Grown w x) : Grown v x :=
  ⟨h'.baselineCount.trans h.baselineCount, h'.reader.trans h.reader,
    h'.localValues.trans h.localValues, fun i => (h'.read i).trans (h.read i),
    fun i hi => h'.held i (h.held i hi), Nat.le_trans h.capacity h'.capacity⟩

theorem Grown.size (h : Grown v w) : w.size = v.size := by
  rw [MappedVector.size, MappedVector.size, h.baselineCount, h.localValues]

theorem Grown.value [Inhabited α] (h : Grown v w) : w.value = v.value := by
  funext i
  rw [MappedVector.value, h.read i, MappedVector.value]

theorem materialize_grown (v : MappedVector α) (i : Nat) : Grown v (v.materialize i) := by
  refine ⟨materialize_baselineCount v i, materialize_reader v i, materialize_localValues v i,
    materialize_read v i, fun j => held_materialize_of_held, ?_⟩
  simp [capacity]

theorem reserve_grown (v : MappedVector α) (n : Nat) : Grown v (v.reserve n) := by
  refine ⟨rfl, rfl, rfl, fun _ => rfl, fun _ h => h, ?_⟩
  simp only [capacity, reserve]
  omega

theorem le_capacity_reserve (v : MappedVector α) (n : Nat) : n ≤ (v.reserve n).capacity := by
  simp only [capacity, reserve]
  omega

theorem size_le_capacity (v : MappedVector α) : v.size ≤ v.capacity := by
  simp only [size, capacity]
  omega

end MappedVector

end ServerEngine

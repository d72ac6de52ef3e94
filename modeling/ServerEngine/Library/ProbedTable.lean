import Mathlib.Data.List.GetD
import Mathlib.Data.List.Nodup
import Mathlib.Data.List.Perm.Subperm
import ServerEngine.Library.Probing
import ServerEngine.Library.Slice

/-! # Tables of keyed slots

An open-addressing table whose slots carry their own keys. A probe for a key ends at a free slot or
at the slot of that key, so a table with a free slot ends every probe, and what a probe finds depends
on the entries only.
-/
namespace ProbedTable
open Probing

variable {S κ : Type} [DecidableEq κ]

/-- What a table reads of a slot. -/
structure Format (S κ : Type) where
  empty : S
  free : S → Bool
  key : S → κ
  hash : κ → Nat

section Tables
variable (f : Format S κ)

def slotAt (slots : List S) (pos : Nat) : S := slots.getD pos f.empty

def stops (slots : List S) (k : κ) (pos : Nat) : Bool :=
  f.free (slotAt f slots pos) || f.key (slotAt f slots pos) == k

def position (slots : List S) (k : κ) (step : Nat) : Nat :=
  visit (slots.length - 1) (f.hash k &&& (slots.length - 1)) step

def probe (slots : List S) (k : κ) : Option Nat :=
  stopAt (stops f slots k) (slots.length - 1) slots.length (f.hash k &&& (slots.length - 1))

def insertFree (slots : List S) (value : S) : Option (List S) :=
  (stopAt (fun pos => f.free (slotAt f slots pos)) (slots.length - 1) slots.length
    (f.hash (f.key value) &&& (slots.length - 1))).map fun pos => slots.set pos value

def find (slots : List S) (k : κ) : Option S :=
  match probe f slots k with
  | none => none
  | some pos => if f.free (slotAt f slots pos) then none else some (slotAt f slots pos)

/-- The table holds each entry once, on the path of its key behind occupied slots only. -/
structure Table (slots : List S) (entries : List S) : Prop where
  size : ∃ n, slots.length = 2 ^ n
  stored : ∀ pos, f.free (slotAt f slots pos) = false → slotAt f slots pos ∈ entries
  reached : ∀ e ∈ entries, f.free e = false ∧ ∃ i < slots.length,
    slotAt f slots (position f slots (f.key e) i) = e ∧
      ∀ j < i, f.free (slotAt f slots (position f slots (f.key e) j)) = false
  count : slots.countP (fun s => !f.free s) = entries.length
  keys : (entries.map f.key).Nodup

variable {f} {slots entries : List S} {k : κ} {pos : Nat}

theorem probe_some : probe f slots k = some pos ↔
    ∃ i < slots.length, position f slots k i = pos ∧ stops f slots k pos = true ∧
      ∀ j < i, stops f slots k (position f slots k j) = false :=
  stopAt_eq_some

theorem stops_false (h : stops f slots k pos = false) :
    f.free (slotAt f slots pos) = false ∧ f.key (slotAt f slots pos) ≠ k := by
  simpa [stops] using h

omit [DecidableEq κ] in
theorem table_replicate (hfree : f.free f.empty = true) (n : Nat) :
    Table f (List.replicate (2 ^ n) f.empty) [] := by
  have hslot : ∀ pos, slotAt f (List.replicate (2 ^ n) f.empty) pos = f.empty := by
    intro pos
    unfold slotAt
    rw [List.getD_eq_getElem?_getD, List.getElem?_replicate]
    split <;> rfl
  refine ⟨⟨n, List.length_replicate⟩, ?_, by simp, ?_, List.nodup_nil⟩
  · intro pos hpos
    rw [hslot, hfree] at hpos
    cases hpos
  · rw [List.length_nil, List.countP_eq_zero]
    intro s hs
    rw [List.eq_of_mem_replicate hs, hfree]
    decide

theorem find_replicate (hfree : f.free f.empty = true) (n : Nat) (k : κ) :
    find f (List.replicate n f.empty) k = none := by
  unfold find
  cases hprobe : probe f (List.replicate n f.empty) k with
  | none => rfl
  | some pos =>
    have hslot : slotAt f (List.replicate n f.empty) pos = f.empty := by
      unfold slotAt
      rw [List.getD_eq_getElem?_getD, List.getElem?_replicate]
      split <;> rfl
    dsimp only
    rw [hslot, if_pos hfree]

theorem find_mem {e : S} (h : find f slots k = some e) : e ∈ slots ∧ f.key e = k := by
  unfold find at h
  cases hprobe : probe f slots k with
  | none =>
    rw [hprobe] at h
    cases h
  | some pos =>
    rw [hprobe] at h
    dsimp only at h
    split at h
    · cases h
    · rename_i hfree
      obtain ⟨i, hi, hpos, hends, -⟩ := probe_some.mp hprobe
      have hle : pos ≤ slots.length - 1 := by
        rw [← hpos]
        exact visit_le Nat.and_le_right i
      have hlt : pos < slots.length := by omega
      have hslot := Option.some.inj h
      constructor
      · rw [← hslot, slotAt, List.getD_eq_getElem _ _ hlt]
        exact List.getElem_mem hlt
      · unfold stops at hends
        rw [← hslot]
        simpa [hfree] using hends

namespace Table

omit [DecidableEq κ] in
theorem length_pos (t : Table f slots entries) : 0 < slots.length := by
  obtain ⟨n, hn⟩ := t.size
  have := Nat.two_pow_pos n
  omega

omit [DecidableEq κ] in
theorem position_lt (t : Table f slots entries) (k : κ) (step : Nat) :
    position f slots k step < slots.length := by
  have hle := @visit_le (slots.length - 1) (f.hash k &&& (slots.length - 1))
    Nat.and_le_right step
  have hpos := t.length_pos
  unfold position
  omega

theorem probe_isSome (t : Table f slots entries) (hroom : entries.length < slots.length) (k : κ) :
    ∃ pos, probe f slots k = some pos := by
  cases hprobe : probe f slots k with
  | some pos => exact ⟨pos, rfl⟩
  | none =>
    exfalso
    have hstops := stopAt_eq_none.mp hprobe
    obtain ⟨n, hn⟩ := t.size
    have hpow := Nat.two_pow_pos n
    have hall : ∀ s ∈ slots, (!f.free s) = true := by
      intro s hs
      obtain ⟨p, hp, hget⟩ := List.mem_iff_getElem.mp hs
      have hhome : f.hash k &&& (slots.length - 1) < 2 ^ n := by
        have : f.hash k &&& (slots.length - 1) ≤ slots.length - 1 := Nat.and_le_right
        omega
      obtain ⟨i, hi, hvisit⟩ := exists_visit hhome (by omega : p < 2 ^ n)
      have hoccupied := (stops_false (hstops i (by omega))).1
      rw [hn] at hoccupied
      rw [hn] at hvisit
      rw [hvisit, slotAt, List.getD_eq_getElem _ _ hp, hget] at hoccupied
      rw [hoccupied]
      rfl
    have hcount := t.count
    rw [List.countP_eq_length.mpr hall] at hcount
    omega

theorem probe_entry (t : Table f slots entries) {e : S} (he : e ∈ entries) :
    ∃ pos, probe f slots (f.key e) = some pos ∧ f.free (slotAt f slots pos) = false ∧
      slotAt f slots pos = e := by
  obtain ⟨hfree, i, hi, hslot, hbefore⟩ := t.reached e he
  have hstop : stops f slots (f.key e) (position f slots (f.key e) i) = true := by
    unfold stops
    rw [hslot]
    simp
  cases hprobe : probe f slots (f.key e) with
  | none =>
    have hnone := stopAt_eq_none.mp hprobe i hi
    unfold position at hstop
    rw [hnone] at hstop
    cases hstop
  | some pos =>
    obtain ⟨j, hj, hpos, hends, hfirst⟩ := probe_some.mp hprobe
    have hji : j ≤ i := by
      by_contra hlt
      have hpassed := hfirst i (by omega)
      rw [hpassed] at hstop
      cases hstop
    have hoccupied : f.free (slotAt f slots pos) = false := by
      rcases Nat.lt_or_eq_of_le hji with hlt | heq
      · rw [← hpos]
        exact hbefore j hlt
      · rw [← hpos, heq, hslot]
        exact hfree
    unfold stops at hends
    rw [hoccupied, Bool.false_or, beq_iff_eq] at hends
    exact ⟨pos, rfl, hoccupied, List.inj_on_of_nodup_map t.keys (t.stored pos hoccupied) he hends⟩

theorem absent_of_free (t : Table f slots entries) (hprobe : probe f slots k = some pos)
    (hfree : f.free (slotAt f slots pos) = true) : ∀ e ∈ entries, f.key e ≠ k := by
  intro e he hkey
  obtain ⟨pos', hprobe', hoccupied, -⟩ := t.probe_entry he
  rw [hkey, hprobe] at hprobe'
  cases hprobe'
  rw [hfree] at hoccupied
  cases hoccupied

theorem entry_of_occupied (t : Table f slots entries) (hprobe : probe f slots k = some pos)
    (hoccupied : f.free (slotAt f slots pos) = false) :
    slotAt f slots pos ∈ entries ∧ f.key (slotAt f slots pos) = k := by
  obtain ⟨-, -, -, hends, -⟩ := probe_some.mp hprobe
  unfold stops at hends
  rw [hoccupied, Bool.false_or, beq_iff_eq] at hends
  exact ⟨t.stored pos hoccupied, hends⟩

theorem find_eq (t : Table f slots entries) {e : S} :
    find f slots k = some e ↔ e ∈ entries ∧ f.key e = k := by
  constructor
  · intro hfind
    unfold find at hfind
    cases hprobe : probe f slots k with
    | none =>
      rw [hprobe] at hfind
      cases hfind
    | some pos =>
      rw [hprobe] at hfind
      dsimp only at hfind
      split at hfind
      · cases hfind
      · rename_i hoccupied
        have hentry := t.entry_of_occupied hprobe (by simpa using hoccupied)
        rw [Option.some.inj hfind] at hentry
        exact hentry
  · intro hentry
    obtain ⟨he, rfl⟩ := hentry
    obtain ⟨pos, hprobe, hoccupied, hslot⟩ := t.probe_entry he
    unfold find
    rw [hprobe]
    dsimp only
    rw [hoccupied, hslot]
    rfl

theorem find_append {slots' : List S} {value : S} (t : Table f slots entries)
    (t' : Table f slots' (entries ++ [value])) (k : κ) :
    find f slots' k = if k = f.key value then some value else find f slots k := by
  have hkeys := t'.keys
  rw [List.map_append, List.nodup_append] at hkeys
  have hnew : ∀ e ∈ entries, f.key e ≠ f.key value :=
    fun e he => hkeys.2.2 _ (List.mem_map_of_mem he) _ (by simp)
  by_cases hk : k = f.key value
  · rw [if_pos hk, t'.find_eq]
    exact ⟨by simp, hk.symm⟩
  · rw [if_neg hk]
    apply Option.ext
    intro e
    rw [t'.find_eq, t.find_eq, List.mem_append, List.mem_singleton]
    constructor
    · intro h
      obtain ⟨he | rfl, hkey⟩ := h
      · exact ⟨he, hkey⟩
      · exact absurd hkey.symm hk
    · intro h
      exact ⟨.inl h.1, h.2⟩

theorem find_map {slots' : List S} {value : S} (t : Table f slots entries)
    (t' : Table f slots' (entries.map fun e => if f.key e = f.key value then value else e))
    (hmem : ∃ e ∈ entries, f.key e = f.key value) (k : κ) :
    find f slots' k = if k = f.key value then some value else find f slots k := by
  by_cases hk : k = f.key value
  · rw [if_pos hk, t'.find_eq]
    obtain ⟨e, he, hkey⟩ := hmem
    exact ⟨List.mem_map.mpr ⟨e, he, if_pos hkey⟩, hk.symm⟩
  · rw [if_neg hk]
    apply Option.ext
    intro e
    rw [t'.find_eq, t.find_eq, List.mem_map]
    constructor
    · intro h
      obtain ⟨⟨old, hold, rfl⟩, hkey⟩ := h
      split at hkey
      · exact absurd hkey.symm hk
      · rename_i hother
        rw [if_neg hother]
        exact ⟨hold, hkey⟩
    · intro h
      refine ⟨⟨e, h.1, if_neg ?_⟩, h.2⟩
      rw [h.2]
      exact hk

/-- Filling the free slot at which a probe ends. -/
theorem place (t : Table f slots entries) {value : S}
    (hprobe : probe f slots (f.key value) = some pos) (hfree : f.free (slotAt f slots pos) = true)
    (hvalue : f.free value = false) : Table f (slots.set pos value) (entries ++ [value]) := by
  obtain ⟨i, hi, hpos, -, hbefore⟩ := probe_some.mp hprobe
  have hlt : pos < slots.length := by
    rw [← hpos]
    exact t.position_lt _ _
  have hself : slotAt f (slots.set pos value) pos = value := by
    unfold slotAt
    rw [Slice.getD_set, if_pos ⟨rfl, hlt⟩]
  have hother : ∀ p, p ≠ pos → slotAt f (slots.set pos value) p = slotAt f slots p := by
    intro p hne
    unfold slotAt
    rw [Slice.getD_set, if_neg]
    intro hboth
    exact hne hboth.1.symm
  have hkept : ∀ p, f.free (slotAt f slots p) = false →
      slotAt f (slots.set pos value) p = slotAt f slots p := by
    intro p hoccupied
    apply hother
    intro heq
    rw [heq, hfree] at hoccupied
    cases hoccupied
  have hposition : ∀ k step, position f (slots.set pos value) k step = position f slots k step := by
    intro k step
    unfold position
    rw [List.length_set]
  refine ⟨?_, ?_, ?_, ?_, ?_⟩
  · rw [List.length_set]
    exact t.size
  · intro p hp
    by_cases heq : p = pos
    · rw [heq, hself]
      simp
    · rw [hother p heq] at hp ⊢
      exact List.mem_append_left _ (t.stored p hp)
  · intro e he
    rw [List.length_set]
    rcases List.mem_append.mp he with he | he
    · obtain ⟨hoccupied, i', hi', hslot, hpath⟩ := t.reached e he
      refine ⟨hoccupied, i', hi', ?_, ?_⟩
      · rw [hposition, hkept _ (by rw [hslot]; exact hoccupied), hslot]
      · intro j hj
        rw [hposition, hkept _ (hpath j hj)]
        exact hpath j hj
    · rw [List.mem_singleton.mp he]
      refine ⟨hvalue, i, hi, ?_, ?_⟩
      · rw [hposition, hpos, hself]
      · intro j hj
        have hoccupied := (stops_false (hbefore j hj)).1
        rw [hposition, hkept _ hoccupied]
        exact hoccupied
  · have hget : f.free slots[pos] = true := by
      rw [← hfree, slotAt, List.getD_eq_getElem _ _ hlt]
    rw [List.countP_set hlt, t.count, List.length_append, hget, hvalue]
    simp
  · rw [List.map_append, List.nodup_append]
    refine ⟨t.keys, List.nodup_singleton _, ?_⟩
    intro k hk k' hk'
    obtain ⟨e, he, rfl⟩ := List.mem_map.mp hk
    have hlast : k' = f.key value := by simpa using hk'
    rw [hlast]
    exact t.absent_of_free hprobe hfree e he

omit [DecidableEq κ] in
theorem exists_free (t : Table f slots entries) (hroom : entries.length < slots.length) :
    ∃ s ∈ slots, f.free s = true := by
  by_contra hnone
  have hall : slots.countP (fun s => !f.free s) = slots.length := by
    rw [List.countP_eq_length]
    intro s hs
    cases hfree : f.free s with
    | true => exact absurd ⟨s, hs, hfree⟩ hnone
    | false => rfl
  rw [t.count] at hall
  omega

omit [DecidableEq κ] in
theorem slot_inj (t : Table f slots entries) {p q : Nat} (hp : p < slots.length)
    (hq : q < slots.length) (hoccupied : f.free (slotAt f slots p) = false)
    (heq : slotAt f slots p = slotAt f slots q) : p = q := by
  have hslot : ∀ {pos} (h : pos < slots.length), slotAt f slots pos = slots[pos] :=
    fun h => List.getD_eq_getElem _ _ h
  have hsub : entries.Subperm (slots.filter fun s => !f.free s) := by
    apply List.subperm_of_subset t.keys.of_map
    intro e he
    obtain ⟨hfree, i, -, hat, -⟩ := t.reached e he
    have hlt := t.position_lt (f.key e) i
    rw [hslot hlt] at hat
    rw [List.mem_filter, hfree]
    exact ⟨hat ▸ List.getElem_mem hlt, rfl⟩
  have hlength : (slots.filter fun s => !f.free s).length = entries.length := by
    rw [← List.countP_eq_length_filter, t.count]
  have hnodup : (slots.filter fun s => !f.free s).Nodup :=
    (hsub.perm_of_length_le (by omega)).nodup_iff.mp t.keys.of_map
  rw [List.Nodup, List.pairwise_filter, List.pairwise_iff_getElem] at hnodup
  rw [hslot hp] at hoccupied
  rw [hslot hp, hslot hq] at heq
  have hoccupied' : f.free slots[q] = false := heq ▸ hoccupied
  by_contra hne
  rcases Nat.lt_or_gt_of_ne hne with hlt | hgt
  · exact hnodup p q hp hq hlt (by rw [hoccupied]; rfl) (by rw [hoccupied']; rfl) heq
  · exact hnodup q p hq hp hgt (by rw [hoccupied']; rfl) (by rw [hoccupied]; rfl) heq.symm

/-- Another value for the entry at which a probe ends. -/
theorem replace (t : Table f slots entries) (hempty : f.free f.empty = true) {value : S}
    (hprobe : probe f slots (f.key value) = some pos)
    (hoccupied : f.free (slotAt f slots pos) = false) (hvalue : f.free value = false) :
    Table f (slots.set pos value)
      (entries.map fun e => if f.key e = f.key value then value else e) := by
  obtain ⟨i, hi, hpos, -, -⟩ := probe_some.mp hprobe
  obtain ⟨hmem, hkey⟩ := t.entry_of_occupied hprobe hoccupied
  have hlt : pos < slots.length := by
    rw [← hpos]
    exact t.position_lt _ _
  have hself : slotAt f (slots.set pos value) pos = value := by
    unfold slotAt
    rw [Slice.getD_set, if_pos ⟨rfl, hlt⟩]
  have hother : ∀ p, p ≠ pos → slotAt f (slots.set pos value) p = slotAt f slots p := by
    intro p hne
    unfold slotAt
    rw [Slice.getD_set, if_neg]
    intro hboth
    exact hne hboth.1.symm
  have hfree : ∀ p, f.free (slotAt f (slots.set pos value) p) = f.free (slotAt f slots p) := by
    intro p
    by_cases heq : p = pos
    · rw [heq, hself, hvalue, hoccupied]
    · rw [hother p heq]
  have hposition : ∀ k step, position f (slots.set pos value) k step = position f slots k step := by
    intro k step
    unfold position
    rw [List.length_set]
  -- an occupied slot is changed exactly where its key is the value's
  have hslot : ∀ p, f.free (slotAt f slots p) = false → slotAt f (slots.set pos value) p =
      if f.key (slotAt f slots p) = f.key value then value else slotAt f slots p := by
    intro p hp
    by_cases heq : p = pos
    · rw [heq, hself, if_pos hkey]
    · have hrange : p < slots.length := by
        by_contra hge
        unfold slotAt at hp
        rw [List.getD_eq_default _ _ (by omega), hempty] at hp
        cases hp
      rw [hother p heq, if_neg]
      intro hsame
      have hentry := List.inj_on_of_nodup_map t.keys (t.stored p hp) hmem (hsame.trans hkey.symm)
      exact heq (t.slot_inj hrange hlt hp hentry)
  refine ⟨?_, ?_, ?_, ?_, ?_⟩
  · rw [List.length_set]
    exact t.size
  · intro p hp
    rw [hfree] at hp
    rw [hslot p hp]
    exact List.mem_map_of_mem (t.stored p hp)
  · intro e he
    obtain ⟨old, hold, rfl⟩ := List.mem_map.mp he
    obtain ⟨hused, step, hstep, hat, hpath⟩ := t.reached old hold
    have hkeys : f.key (if f.key old = f.key value then value else old) = f.key old := by
      split
      · rename_i hsame
        exact hsame.symm
      · rfl
    rw [List.length_set, hkeys]
    refine ⟨?_, step, hstep, ?_, ?_⟩
    · split
      · exact hvalue
      · exact hused
    · rw [hposition, hslot _ (by rw [hat]; exact hused), hat]
    · intro j hj
      rw [hposition, hfree]
      exact hpath j hj
  · have hget : f.free slots[pos] = false := by
      rw [← hoccupied, slotAt, List.getD_eq_getElem _ _ hlt]
    have hused : 0 < slots.countP fun s => !f.free s :=
      List.countP_pos_iff.mpr ⟨slots[pos], List.getElem_mem hlt, by rw [hget]; rfl⟩
    rw [List.countP_set hlt, hget, hvalue, List.length_map, ← t.count]
    simp only [Bool.not_false, if_true]
    omega
  · rw [List.map_map]
    have hkeys : (f.key ∘ fun e => if f.key e = f.key value then value else e) = f.key := by
      funext e
      dsimp only [Function.comp]
      split
      · rename_i hsame
        exact hsame.symm
      · rfl
    rw [hkeys]
    exact t.keys

omit [DecidableEq κ] in
theorem congr {g : Format S κ} (t : Table f slots entries) (hempty : g.empty = f.empty)
    (hfree : g.free = f.free) (hhash : g.hash = f.hash) (hkey : ∀ e ∈ entries, g.key e = f.key e) :
    Table g slots entries := by
  have hslot : ∀ pos, slotAt g slots pos = slotAt f slots pos := by
    intro pos
    rw [slotAt, hempty, slotAt]
  have hposition : ∀ k step, position g slots k step = position f slots k step := by
    intro k step
    rw [position, hhash, position]
  refine ⟨t.size, fun pos hpos => ?_, fun e he => ?_, ?_, ?_⟩
  · rw [hslot, hfree] at hpos
    rw [hslot]
    exact t.stored pos hpos
  · obtain ⟨hoccupied, i, hi, hat, hpath⟩ := t.reached e he
    refine ⟨by rw [hfree]; exact hoccupied, i, hi, ?_, fun j hj => ?_⟩
    · rw [hslot, hposition, hkey e he]
      exact hat
    · rw [hslot, hposition, hkey e he, hfree]
      exact hpath j hj
  · rw [hfree]
    exact t.count
  · rw [List.map_congr_left hkey]
    exact t.keys

theorem insertFree (t : Table f slots entries) (hroom : entries.length < slots.length) {value : S}
    (habsent : ∀ e ∈ entries, f.key e ≠ f.key value) (hvalue : f.free value = false) :
    ∃ slots', ProbedTable.insertFree f slots value = some slots' ∧
      slots'.length = slots.length ∧ Table f slots' (entries ++ [value]) := by
  obtain ⟨pos, hprobe⟩ := t.probe_isSome hroom (f.key value)
  have hstops : stops f slots (f.key value) = fun pos => f.free (slotAt f slots pos) := by
    funext p
    unfold stops
    cases hp : f.free (slotAt f slots p) with
    | true => rfl
    | false => simpa using habsent _ (t.stored p hp)
  have hfree : f.free (slotAt f slots pos) = true := by
    obtain ⟨-, -, -, hends, -⟩ := probe_some.mp hprobe
    rw [hstops] at hends
    exact hends
  refine ⟨slots.set pos value, ?_, List.length_set, t.place hprobe hfree hvalue⟩
  rw [probe, hstops] at hprobe
  rw [ProbedTable.insertFree, hprobe]
  rfl

theorem insertAll (t : Table f slots entries) {more : List S}
    (hroom : entries.length + more.length ≤ slots.length)
    (hkeys : ((entries ++ more).map f.key).Nodup) (hfree : ∀ e ∈ more, f.free e = false) :
    ∃ slots', more.foldlM (ProbedTable.insertFree f) slots = some slots' ∧
      slots'.length = slots.length ∧ Table f slots' (entries ++ more) := by
  induction more generalizing slots entries with
  | nil => exact ⟨slots, rfl, rfl, by rwa [List.append_nil]⟩
  | cons value more ih =>
    have habsent : ∀ e ∈ entries, f.key e ≠ f.key value := by
      intro e he heq
      rw [List.map_append, List.nodup_append] at hkeys
      exact hkeys.2.2 _ (List.mem_map_of_mem he) (f.key value) (by simp) heq
    rw [List.length_cons] at hroom
    obtain ⟨next, hnext, hlen, htable⟩ :=
      t.insertFree (by omega) habsent (hfree value (by simp))
    have hsplit : entries ++ value :: more = (entries ++ [value]) ++ more := by simp
    rw [hsplit] at hkeys ⊢
    obtain ⟨slots', hrun, hlen', htable'⟩ := ih htable
      (by rw [List.length_append, List.length_singleton, hlen]; omega) hkeys
      fun e he => hfree e (by simp [he])
    refine ⟨slots', ?_, hlen'.trans hlen, htable'⟩
    rw [List.foldlM_cons, hnext]
    exact hrun

end Table
end Tables

end ProbedTable

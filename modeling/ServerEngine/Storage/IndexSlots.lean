import Mathlib.Data.List.GetD
import Mathlib.Data.List.Nodup
import ServerEngine.Library.Slice
import ServerEngine.Storage.IndexTable

/-! # Open-addressing indexes held in lists

The probe loops over a table whose slots are current values. A probe ends at an empty slot or at one
whose fingerprint and stored key agree; a `for (;;)` loop that finds neither never ends.
-/
namespace ServerEngine.IndexSlots
open Probing

def slotAt (slots : List IndexSlot) (pos : Nat) : IndexSlot := slots.getD pos {}

/-- The test that ends a probe; `same` compares the key stored for a handle. -/
def stops (slots : List IndexSlot) (fingerprint : Nat) (same : Nat → Bool) (pos : Nat) : Bool :=
  (slotAt slots pos).handle == 0 ||
    ((slotAt slots pos).fingerprint == fingerprint && same (slotAt slots pos).handle)

def probe (slots : List IndexSlot) (hash : Nat) (same : Nat → Bool) : Option Nat :=
  stopAt (stops slots (fold32 hash) same) (slots.length - 1) slots.length (hash &&& (slots.length - 1))

def find (slots : List IndexSlot) (hash : Nat) (same : Nat → Bool) : Option Nat :=
  match probe slots hash same with
  | some pos => if (slotAt slots pos).handle = 0 then none else some (slotAt slots pos).handle
  | none => none

def insert (slots : List IndexSlot) (hash handle : Nat) (same : Nat → Bool) :
    Option (List IndexSlot) :=
  (probe slots hash same).map fun pos =>
    if (slotAt slots pos).handle = 0 then slots.set pos ⟨fold32 hash, handle⟩ else slots

theorem insert_length {slots slots' : List IndexSlot} {hash handle : Nat} {same : Nat → Bool}
    (h : insert slots hash handle same = some slots') : slots'.length = slots.length := by
  obtain ⟨pos, -, rfl⟩ := Option.map_eq_some_iff.mp h
  split
  · exact List.length_set
  · rfl

/-! ## Tables of distinct keys -/

section Tables
variable {κ : Type} {hash : κ → Nat} {slots : List IndexSlot} {entries : List (κ × Nat)}
  {same : Nat → Bool} {k : κ} {h pos : Nat}

def position (slots : List IndexSlot) (hash step : Nat) : Nat :=
  visit (slots.length - 1) (hash &&& (slots.length - 1)) step

/-- The table holds one slot for each entry, on the path of its hash behind occupied slots only. -/
structure Table (hash : κ → Nat) (slots : List IndexSlot) (entries : List (κ × Nat)) : Prop where
  size : slots = [] ∨ ∃ n, slots.length = 2 ^ n
  stored : ∀ pos, (slotAt slots pos).handle ≠ 0 →
    ∃ e ∈ entries, slotAt slots pos = ⟨fold32 (hash e.1), e.2⟩
  reached : ∀ e ∈ entries, e.2 ≠ 0 ∧ ∃ i < slots.length,
    slotAt slots (position slots (hash e.1) i) = ⟨fold32 (hash e.1), e.2⟩ ∧
      ∀ j < i, (slotAt slots (position slots (hash e.1) j)).handle ≠ 0
  count : slots.countP (·.handle != 0) = entries.length

def Compares (same : Nat → Bool) (entries : List (κ × Nat)) (k : κ) : Prop :=
  ∀ e ∈ entries, same e.2 = true ↔ e.1 = k

theorem position_lt (hne : slots ≠ []) (hash step : Nat) :
    position slots hash step < slots.length := by
  have hle := @visit_le (slots.length - 1) (hash &&& (slots.length - 1))
    Nat.and_le_right step
  have hpos := List.length_pos_iff.mpr hne
  rw [position]
  omega

theorem table_empty (hash : κ → Nat) (size : slots = [] ∨ ∃ n, slots.length = 2 ^ n)
    (hfree : ∀ s ∈ slots, s = {}) : Table hash slots [] := by
  have hslot : ∀ pos, (slotAt slots pos).handle = 0 := by
    intro pos
    rw [slotAt, List.getD_eq_getElem?_getD]
    cases hget : slots[pos]? with
    | none => rfl
    | some s => simp [hfree s (List.mem_of_getElem? hget)]
  refine ⟨size, fun pos hpos => absurd (hslot pos) hpos, by simp, ?_⟩
  rw [List.length_nil, List.countP_eq_zero]
  intro s hs
  simp [hfree s hs]

theorem probe_some {hash : Nat} : probe slots hash same = some pos ↔
    ∃ i < slots.length, position slots hash i = pos ∧ stops slots (fold32 hash) same pos = true ∧
      ∀ j < i, stops slots (fold32 hash) same (position slots hash j) = false :=
  stopAt_eq_some

theorem stops_false {fingerprint : Nat} (h : stops slots fingerprint same pos = false) :
    (slotAt slots pos).handle ≠ 0 ∧
      ((slotAt slots pos).fingerprint = fingerprint → same (slotAt slots pos).handle = false) := by
  simpa [stops] using h

namespace Table

theorem probe_of_mem (t : Table hash slots entries) (hc : Compares same entries k)
    (hmem : (k, h) ∈ entries) :
    ∃ pos, probe slots (hash k) same = some pos ∧ (slotAt slots pos).handle ≠ 0 ∧
      same (slotAt slots pos).handle = true := by
  obtain ⟨hne, i, hi, hslot, hbefore⟩ := t.reached (k, h) hmem
  have hstop : stops slots (fold32 (hash k)) same (position slots (hash k) i) = true := by
    have hsame := (hc (k, h) hmem).mpr rfl
    simp [stops, hslot, hsame]
  cases hp : probe slots (hash k) same with
  | none =>
    have := stopAt_eq_none.mp hp i hi
    rw [position] at hstop
    rw [this] at hstop
    cases hstop
  | some pos =>
    refine ⟨pos, rfl, ?_⟩
    obtain ⟨j, hj, hpos, hs, hfirst⟩ := probe_some.mp hp
    have hji : j ≤ i := by
      by_contra hlt
      have := hfirst i (by omega)
      rw [this] at hstop
      cases hstop
    have hocc : (slotAt slots pos).handle ≠ 0 := by
      rcases Nat.lt_or_eq_of_le hji with hlt | heq
      · rw [← hpos]
        exact hbefore j hlt
      · rw [← hpos, heq, hslot]
        exact hne
    refine ⟨hocc, ?_⟩
    simp only [stops, Bool.or_eq_true, beq_iff_eq, Bool.and_eq_true] at hs
    exact (hs.resolve_left hocc).2

theorem entry_of_probe (t : Table hash slots entries) (hc : Compares same entries k)
    (hp : probe slots (hash k) same = some pos) (hocc : (slotAt slots pos).handle ≠ 0) :
    (k, (slotAt slots pos).handle) ∈ entries := by
  obtain ⟨-, -, -, hs, -⟩ := probe_some.mp hp
  simp only [stops, Bool.or_eq_true, beq_iff_eq, Bool.and_eq_true] at hs
  obtain ⟨-, hsame⟩ := hs.resolve_left hocc
  obtain ⟨e, he, hslot⟩ := t.stored pos hocc
  rw [hslot] at hsame ⊢
  have hk := (hc e he).mp hsame
  rw [← hk]
  exact he

theorem find_eq (t : Table hash slots entries) (hc : Compares same entries k)
    (hkeys : (entries.map Prod.fst).Nodup) : find slots (hash k) same = some h ↔ (k, h) ∈ entries := by
  have hfun : ∀ h', (k, h') ∈ entries → (k, h) ∈ entries → h' = h := by
    intro h' h1 h2
    have := List.inj_on_of_nodup_map hkeys h1 h2 rfl
    exact (Prod.mk.inj this).2
  rw [find]
  constructor
  · intro hf
    cases hp : probe slots (hash k) same with
    | none =>
      rw [hp] at hf
      cases hf
    | some pos =>
      rw [hp] at hf
      dsimp only at hf
      split at hf
      · cases hf
      · rename_i hocc
        have := t.entry_of_probe hc hp hocc
        cases hf
        exact this
  · intro hmem
    obtain ⟨pos, hp, hocc, -⟩ := t.probe_of_mem hc hmem
    have := t.entry_of_probe hc hp hocc
    have hh := hfun _ this hmem
    rw [hp]
    dsimp only
    rw [if_neg hocc, hh]

theorem find_none (t : Table hash slots entries) (hc : Compares same entries k) :
    find slots (hash k) same = none ↔ ∀ h, (k, h) ∉ entries := by
  constructor
  · intro hf h hmem
    obtain ⟨pos, hp, hocc, -⟩ := t.probe_of_mem hc hmem
    rw [find, hp] at hf
    simp [hocc] at hf
  · intro hno
    rw [find]
    cases hp : probe slots (hash k) same with
    | none => rfl
    | some pos =>
      dsimp only
      split
      · rfl
      · rename_i hocc
        exact absurd (t.entry_of_probe hc hp hocc) (hno _)

theorem not_mem_of_free (t : Table hash slots entries) (hc : Compares same entries k)
    (hp : probe slots (hash k) same = some pos) (hfree : (slotAt slots pos).handle = 0) (h : Nat) :
    (k, h) ∉ entries := by
  intro hmem
  obtain ⟨pos', hp', hocc, -⟩ := t.probe_of_mem hc hmem
  rw [hp] at hp'
  cases hp'
  exact hocc hfree

theorem probe_isSome (t : Table hash slots entries) (hroom : entries.length < slots.length)
    (hash' : Nat) (same : Nat → Bool) : (probe slots hash' same).isSome := by
  by_contra hnone
  have hstops := stopAt_eq_none.mp (Option.not_isSome_iff_eq_none.mp hnone)
  have hne : slots ≠ [] := by
    rintro rfl
    simp at hroom
  obtain ⟨n, hn⟩ := t.size.resolve_left hne
  have hall : ∀ s ∈ slots, (s.handle != 0) = true := by
    intro s hs
    obtain ⟨p, hp, hget⟩ := List.mem_iff_getElem.mp hs
    have hhome : hash' &&& (slots.length - 1) < 2 ^ n := by
      have : hash' &&& (slots.length - 1) ≤ slots.length - 1 := Nat.and_le_right
      have := Nat.two_pow_pos n
      omega
    obtain ⟨i, hi, hvisit⟩ := exists_visit hhome (by omega : p < 2 ^ n)
    have := stops_false (hstops i (by omega))
    rw [hn] at this
    rw [hn] at hvisit
    rw [hvisit, slotAt, List.getD_eq_getElem _ _ hp, hget] at this
    simpa using this.1
  have hcount := t.count
  rw [List.countP_eq_length.mpr hall] at hcount
  omega

theorem place (t : Table hash slots entries) (hp : probe slots (hash k) same = some pos)
    (hfree : (slotAt slots pos).handle = 0) (hh : h ≠ 0) :
    Table hash (slots.set pos ⟨fold32 (hash k), h⟩) (entries ++ [(k, h)]) := by
  obtain ⟨i, hi, hpos, -, hbefore⟩ := probe_some.mp hp
  have hne : slots ≠ [] := by
    rintro rfl
    simp at hi
  have hlt : pos < slots.length := by
    rw [← hpos]
    exact position_lt hne _ _
  have hlen : (slots.set pos ⟨fold32 (hash k), h⟩).length = slots.length := List.length_set
  have hself : slotAt (slots.set pos ⟨fold32 (hash k), h⟩) pos = ⟨fold32 (hash k), h⟩ := by
    rw [slotAt, Slice.getD_set, if_pos ⟨rfl, hlt⟩]
  have hother : ∀ p, p ≠ pos → slotAt (slots.set pos ⟨fold32 (hash k), h⟩) p = slotAt slots p := by
    intro p hne
    rw [slotAt, slotAt, Slice.getD_set, if_neg]
    rintro ⟨heq, -⟩
    exact hne heq.symm
  have hocc : ∀ p, (slotAt slots p).handle ≠ 0 →
      slotAt (slots.set pos ⟨fold32 (hash k), h⟩) p = slotAt slots p := by
    intro p hp0
    apply hother
    rintro rfl
    exact hp0 hfree
  refine ⟨?_, ?_, ?_, ?_⟩
  · refine .inr ?_
    rw [hlen]
    exact t.size.resolve_left hne
  · intro p hp
    by_cases hpp : p = pos
    · subst hpp
      exact ⟨(k, h), by simp, hself⟩
    · rw [hother p hpp] at hp ⊢
      obtain ⟨e, he, hslot⟩ := t.stored p hp
      exact ⟨e, by simp [he], hslot⟩
  · intro e he
    rw [hlen]
    rcases List.mem_append.mp he with he | he
    · obtain ⟨hne0, i', hi', hslot, hpath⟩ := t.reached e he
      refine ⟨hne0, i', hi', ?_, ?_⟩
      · have := hocc (position slots (hash e.1) i') (by rw [hslot]; exact hne0)
        rw [position, List.length_set]
        rw [position] at this hslot
        rw [this, hslot]
      · intro j hj
        have hj' := hpath j hj
        have := hocc _ hj'
        rw [position, List.length_set]
        rw [position] at this hj'
        rwa [this]
    · rw [List.mem_singleton] at he
      subst he
      refine ⟨hh, i, hi, ?_, ?_⟩
      · have : position (slots.set pos ⟨fold32 (hash k), h⟩) (hash k) i = pos := by
          rw [position, List.length_set]
          exact hpos
        rw [this, hself]
      · intro j hj
        have hj' := (stops_false (hbefore j hj)).1
        have := hocc _ hj'
        rw [position, List.length_set]
        rw [position] at this hj'
        rwa [this]
  · rw [List.countP_set hlt, t.count, List.length_append]
    have hget : slots[pos].handle = 0 := by
      rwa [slotAt, List.getD_eq_getElem _ _ hlt] at hfree
    simp [hget, hh]

end Table

theorem insert_table (t : Table hash slots entries) (hc : Compares same entries k)
    (hnew : ∀ h, (k, h) ∉ entries) (hroom : entries.length < slots.length) (hh : h ≠ 0) :
    ∃ slots', insert slots (hash k) h same = some slots' ∧ slots'.length = slots.length ∧
      Table hash slots' (entries ++ [(k, h)]) := by
  obtain ⟨pos, hp⟩ := Option.isSome_iff_exists.mp (t.probe_isSome hroom (hash k) same)
  have hfree : (slotAt slots pos).handle = 0 := by
    by_contra hocc
    exact hnew _ (t.entry_of_probe hc hp hocc)
  refine ⟨slots.set pos ⟨fold32 (hash k), h⟩, ?_, List.length_set, t.place hp hfree hh⟩
  rw [insert, hp, Option.map_some, if_pos hfree]

end Tables

/-! ## Keys by position -/

section Keys
variable {κ : Type} {hash : κ → Nat} {slots : List IndexSlot} {keys : List κ} {k : κ} {h : Nat}

theorem mem_zipIdx_one : (k, h) ∈ keys.zipIdx 1 ↔ h ≠ 0 ∧ keys[h - 1]? = some k := by
  rw [List.mk_mem_zipIdx_iff_le_and_getElem?_sub]
  constructor
  · intro hmem
    exact ⟨by omega, hmem.2⟩
  · intro hmem
    exact ⟨by omega, hmem.2⟩

theorem compares_keys [DecidableEq κ] (keys more : List κ) (k : κ) :
    Compares (fun h => (keys ++ more)[h - 1]? == some k) (keys.zipIdx 1) k := by
  rintro ⟨k', h⟩ hmem
  obtain ⟨hne, hget⟩ := mem_zipIdx_one.mp hmem
  have hlt := (List.getElem?_eq_some_iff.mp hget).1
  simp only [beq_iff_eq]
  rw [List.getElem?_append_left hlt, hget, Option.some.injEq]

theorem snoc_zipIdx_one (keys : List κ) (k : κ) :
    (keys ++ [k]).zipIdx 1 = keys.zipIdx 1 ++ [(k, keys.length + 1)] := by
  simp [List.zipIdx_append, Nat.add_comm]

/-- The keys stand once, each with its position as the handle, and a slot stays empty. -/
structure Keyed (hash : κ → Nat) (slots : List IndexSlot) (keys : List κ) : Prop where
  nodup : keys.Nodup
  table : Table hash slots (keys.zipIdx 1)
  room : keys = [] ∨ keys.length < slots.length
  size : slots = [] ∨ 8 ≤ slots.length

namespace Keyed

theorem empty (hash : κ → Nat) {capacity : Nat} (h0 : capacity = 0 ∨ 8 ≤ capacity)
    (hpow : capacity = 0 ∨ ∃ n, capacity = 2 ^ n) :
    Keyed hash (List.replicate capacity {}) ([] : List κ) := by
  refine ⟨List.nodup_nil, ?_, .inl rfl, ?_⟩
  · refine table_empty hash ?_ fun s hs => (List.mem_replicate.mp hs).2
    rw [List.length_replicate]
    exact hpow.imp (fun hz => by rw [hz]; rfl) id
  · rw [List.length_replicate]
    exact h0.imp (fun hz => by rw [hz]; rfl) id

theorem snoc (hx : Keyed hash slots keys) {slots' : List IndexSlot} (hk : k ∉ keys)
    (hroom : keys.length + 1 < slots.length) (hsize : slots'.length = slots.length)
    (htable : Table hash slots' (keys.zipIdx 1 ++ [(k, keys.length + 1)])) :
    Keyed hash slots' (keys ++ [k]) := by
  rw [← snoc_zipIdx_one] at htable
  refine ⟨?_, htable, .inr ?_, ?_⟩
  · rw [List.nodup_append]
    refine ⟨hx.nodup, by simp, ?_⟩
    intro a ha b hb heq
    rw [List.mem_singleton] at hb
    exact hk (by rw [← hb, ← heq]; exact ha)
  · rw [hsize, List.length_append, List.length_singleton]
    exact hroom
  · refine .inr ?_
    rw [hsize]
    rcases hx.size with hz | h8
    · rw [hz] at hroom
      cases hroom
    · exact h8

variable [DecidableEq κ]

theorem find_iff (hx : Keyed hash slots keys) :
    find slots (hash k) (fun handle => keys[handle - 1]? == some k) = some h ↔
      h ≠ 0 ∧ keys[h - 1]? = some k := by
  have hc := compares_keys keys [] k
  rw [List.append_nil] at hc
  rw [hx.table.find_eq hc (by rw [List.zipIdx_map_fst]; exact hx.nodup), mem_zipIdx_one]

theorem find_none (hx : Keyed hash slots keys) :
    find slots (hash k) (fun handle => keys[handle - 1]? == some k) = none ↔ k ∉ keys := by
  have hc := compares_keys keys [] k
  rw [List.append_nil] at hc
  rw [hx.table.find_none hc]
  constructor
  · intro hno hmem
    obtain ⟨n, hn⟩ := List.mem_iff_getElem?.mp hmem
    exact hno (n + 1) (mem_zipIdx_one.mpr ⟨by omega, by simpa using hn⟩)
  · intro hno h hmem
    exact hno (List.mem_of_getElem? (mem_zipIdx_one.mp hmem).2)

theorem place_next (hx : Keyed hash slots keys) (more : List κ) {pos : Nat}
    (hp : probe slots (hash k) (fun handle => (keys ++ more)[handle - 1]? == some k) = some pos)
    (hfree : (slotAt slots pos).handle = 0) (hroom : keys.length + 1 < slots.length) :
    Keyed hash (slots.set pos ⟨fold32 (hash k), keys.length + 1⟩) (keys ++ [k]) := by
  have hnew := hx.table.not_mem_of_free (compares_keys keys more k) hp hfree
  refine hx.snoc ?_ hroom List.length_set (hx.table.place hp hfree (by omega))
  intro hmem
  obtain ⟨n, hn⟩ := List.mem_iff_getElem?.mp hmem
  exact hnew (n + 1) (mem_zipIdx_one.mpr ⟨by omega, by simpa using hn⟩)

theorem insert_next (hx : Keyed hash slots keys) (more : List κ) (hk : k ∉ keys)
    (hroom : keys.length + 1 < slots.length) : ∃ slots',
      insert slots (hash k) (keys.length + 1)
        (fun handle => (keys ++ more)[handle - 1]? == some k) = some slots' ∧
      slots'.length = slots.length ∧ Keyed hash slots' (keys ++ [k]) := by
  have hnew : ∀ h, (k, h) ∉ keys.zipIdx 1 := by
    intro h hmem
    exact hk (List.mem_of_getElem? (mem_zipIdx_one.mp hmem).2)
  have hlen : (keys.zipIdx 1).length < slots.length := by
    rw [List.length_zipIdx]
    omega
  obtain ⟨slots', hins, hsize, htable⟩ := insert_table (h := keys.length + 1) hx.table
    (compares_keys keys more k) hnew hlen (by omega)
  exact ⟨slots', hins, hsize, hx.snoc hk hroom hsize htable⟩

end Keyed

end Keys

end ServerEngine.IndexSlots

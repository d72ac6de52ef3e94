import ServerEngine.Parser.Interface
import ServerEngine.Frontend.Validation

/-! # The tables of a source interface

Every insertion ends, since a table has more slots than insertions. The types can be bound exactly
where their identities are types with a parent and a name of their own.
-/
namespace ServerEngine
open ProbedTable Slice

namespace SourceInterface

/-! ## Capacities -/

theorem capacityLoop_spec (fuel target : Nat) {k : Nat} (hk : k ≤ 63) :
    capacityLoop fuel target (2 ^ k) = 0 ∨
      ∃ n ≤ 63, capacityLoop fuel target (2 ^ k) = 2 ^ n ∧ target ≤ 2 ^ n := by
  induction fuel generalizing k with
  | zero => exact .inl rfl
  | succ fuel ih =>
    rw [capacityLoop]
    split
    · split
      · exact .inl rfl
      · rename_i hsmall
        have hlt : k ≠ 63 := by
          intro heq
          rw [heq] at hsmall
          exact hsmall (by decide)
        have hnext := @ih (k + 1) (by omega)
        rwa [Nat.pow_succ] at hnext
    · rename_i hlarge
      exact .inr ⟨k, hk, rfl, by omega⟩

theorem capacityFor_spec {count : Nat} (h : capacityFor count ≠ 0) :
    ∃ n, capacityFor count = 2 ^ n ∧ count < 2 ^ n := by
  have hmax : sizeMax = 18446744073709551615 := rfl
  obtain ⟨n, hn, heq, hle⟩ := (capacityLoop_spec 62
    (if count > sizeMax / 2 then sizeMax else count * 2 + 1) (show 4 ≤ 63 by omega)).resolve_left h
  refine ⟨n, heq, ?_⟩
  have hpow : 2 ^ n ≤ 2 ^ 63 := Nat.pow_le_pow_right (by omega) hn
  split at hle
  · omega
  · omega

/-! ## Sound insertions -/

section Insertions
variable {S κ α : Type} [DecidableEq κ] {f : Format S κ}

def Outcome (f : Format S κ) (table : BindingTable S) (weight : Nat) :
    Except InterfaceStop (BindingTable S) → Prop
  | .ok table' => Table f table'.slots table'.inserted ∧
      table'.slots.length = table.slots.length ∧
      table'.inserted.length ≤ table.inserted.length + weight
  | .error stop => stop = .failed .invalidArgument ∨ stop = .failed .semanticConflict

/-- The step ends and keeps the table wherever there is room for what it may insert. -/
def Sound (f : Format S κ) (weight : α → Nat)
    (step : BindingTable S → α → Except InterfaceStop (BindingTable S)) : Prop :=
  ∀ table x, Table f table.slots table.inserted →
    table.inserted.length + weight x < table.slots.length → Outcome f table (weight x) (step table x)

theorem bind_cases {agrees : S → S → Bool} {table : BindingTable S} {value : S}
    (t : Table f table.slots table.inserted) (hroom : table.inserted.length < table.slots.length)
    (hvalue : f.free value = false) :
    (∃ slot ∈ table.inserted, f.key slot = f.key value ∧ bind f agrees table value =
      if agrees slot value then .ok table else .error (.failed .semanticConflict)) ∨
    ((∀ e ∈ table.inserted, f.key e ≠ f.key value) ∧ ∃ slots,
      bind f agrees table value = .ok ⟨slots, table.inserted ++ [value]⟩ ∧
      Table f slots (table.inserted ++ [value]) ∧ slots.length = table.slots.length) := by
  obtain ⟨pos, hprobe⟩ := t.probe_isSome hroom (f.key value)
  unfold bind
  rw [hprobe]
  dsimp only
  by_cases hfree : f.free (slotAt f table.slots pos) = true
  · rw [if_pos hfree]
    exact .inr ⟨t.absent_of_free hprobe hfree, _, rfl, t.place hprobe hfree hvalue,
      List.length_set⟩
  · rw [if_neg hfree]
    obtain ⟨hmem, hkey⟩ := t.entry_of_occupied hprobe (by simpa using hfree)
    exact .inl ⟨_, hmem, hkey, rfl⟩

theorem bind_outcome {agrees : S → S → Bool} {table : BindingTable S} {value : S}
    (t : Table f table.slots table.inserted)
    (hroom : table.inserted.length + 1 < table.slots.length) (hvalue : f.free value = false) :
    Outcome f table 1 (bind f agrees table value) := by
  rcases @bind_cases S κ _ f agrees table value t (by omega) hvalue with
    ⟨slot, -, -, heq⟩ | ⟨-, slots, heq, htable, hlength⟩
  · rw [heq]
    split
    · exact ⟨t, rfl, by omega⟩
    · exact .inr rfl
  · rw [heq]
    exact ⟨htable, hlength, by simp⟩

omit [DecidableEq κ] in
theorem outcome_mono {table : BindingTable S} {weight weight' : Nat}
    {result : Except InterfaceStop (BindingTable S)} (h : Outcome f table weight result)
    (hle : weight ≤ weight') : Outcome f table weight' result := by
  cases result with
  | error stop => exact h
  | ok table' => exact ⟨h.1, h.2.1, by have := h.2.2; omega⟩

omit [DecidableEq κ] in
theorem foldlM_outcome {weight : α → Nat}
    {step : BindingTable S → α → Except InterfaceStop (BindingTable S)} {items : List α}
    {table : BindingTable S}
    (hstep : ∀ x ∈ items, ∀ table, Table f table.slots table.inserted →
      table.inserted.length + weight x < table.slots.length →
        Outcome f table (weight x) (step table x))
    (t : Table f table.slots table.inserted)
    (hroom : table.inserted.length + (items.map weight).sum < table.slots.length) :
    Outcome f table (items.map weight).sum (items.foldlM step table) := by
  induction items generalizing table with
  | nil => exact ⟨t, rfl, by simp⟩
  | cons x rest ih =>
    rw [List.map_cons, List.sum_cons] at hroom ⊢
    have hfirst := hstep x List.mem_cons_self table t (by omega)
    rw [List.foldlM_cons]
    cases hresult : step table x with
    | error stop =>
      rw [hresult] at hfirst
      exact hfirst
    | ok next =>
      rw [hresult] at hfirst
      obtain ⟨hnext, hlength, hcount⟩ := hfirst
      have hrest := ih (fun y hy => hstep y (List.mem_cons_of_mem _ hy)) hnext (by omega)
      show Outcome f table _ (rest.foldlM step next)
      cases hlast : rest.foldlM step next with
      | error stop =>
        rw [hlast] at hrest
        exact hrest
      | ok last =>
        rw [hlast] at hrest
        exact ⟨hrest.1, hrest.2.1.trans hlength, by have := hrest.2.2; omega⟩

end Insertions

/-! ## The insertions of an interface -/

section Facts
variable {facts : SourceFacts} {view : IdentityView}

theorem insertType_outcome {table : BindingTable InterfaceTypeSlot} (identity : IdentityRef)
    (t : Table typeFormat table.slots table.inserted)
    (hroom : table.inserted.length + 1 < table.slots.length) :
    Outcome typeFormat table 1 (insertType view table identity) := by
  unfold insertType
  split
  · exact .inl rfl
  rename_i hidentity
  unfold bindingKey
  split
  · exact .inl rfl
  · refine bind_outcome t hroom ?_
    show (!identity.valid) = false
    cases hvalid : identity.valid with
    | true => rfl
    | false => simp [hvalid] at hidentity

theorem insertObject_outcome {table : BindingTable InterfaceObjectSlot} (object : SourceObjectFact)
    (t : Table objectFormat table.slots table.inserted)
    (hroom : table.inserted.length + 1 < table.slots.length) :
    Outcome objectFormat table 1 (insertObject view table object) := by
  unfold insertObject
  split
  · exact .inl rfl
  rename_i hidentity
  unfold bindingKey
  split
  · exact .inl rfl
  · refine bind_outcome t hroom ?_
    show (!object.identity.valid) = false
    cases hvalid : object.identity.valid with
    | true => rfl
    | false => simp [hvalid] at hidentity

theorem insertMember_outcome {table : BindingTable InterfaceMemberSlot} {type : IdentityRef}
    (item : SourceMemberFact × Nat) (htype : type.valid = true)
    (t : Table memberFormat table.slots table.inserted)
    (hroom : table.inserted.length + 1 < table.slots.length) :
    Outcome memberFormat table 1 (insertMember type table item) := by
  unfold insertMember
  split
  · exact .inl rfl
  · refine bind_outcome t hroom ?_
    show (!type.valid) = false
    rw [htype]
    rfl

def memberWeight (item : SourceRecordFact) : Nat :=
  if item.declarationKind = .definition then item.members.count else 0

theorem insertMembers_outcome {bad : SourceRecordFact → Bool}
    (hbad : ∀ item, bad item = false → item.identity.valid = true)
    {table : BindingTable InterfaceMemberSlot} (item : SourceRecordFact)
    (t : Table memberFormat table.slots table.inserted)
    (hroom : table.inserted.length + memberWeight item < table.slots.length) :
    Outcome memberFormat table (memberWeight item) (insertMembers facts bad table item) := by
  unfold insertMembers
  split
  · exact ⟨t, rfl, by omega⟩
  rename_i hkind
  have hweight : memberWeight item = item.members.count := if_pos (not_not.mp hkind)
  split
  · exact .inl rfl
  rename_i hgood
  have hvalid := hbad item (by simpa using hgood)
  have hsum : (((slice facts.members item.members.begin item.members.count).zipIdx).map
      fun _ => 1).sum ≤ item.members.count := by
    rw [List.map_const', List.sum_replicate_nat, List.length_zipIdx]
    unfold slice
    rw [List.length_take]
    omega
  have hfold := @foldlM_outcome _ _ _ memberFormat (fun _ => 1) (insertMember item.identity)
    (slice facts.members item.members.begin item.members.count).zipIdx table
    (fun x _ table t hroom => insertMember_outcome x hvalid t hroom) t (by omega)
  exact outcome_mono hfold (by omega)

end Facts

theorem collectImports_some (imports : List Nat) :
    collectImports (imports.map some) = .ok imports := by
  unfold collectImports
  induction imports with
  | nil => rfl
  | cons address rest ih =>
    rw [List.map_cons, List.mapM_cons, ih]
    rfl

end SourceInterface
end ServerEngine

import ServerEngine.Frontend.FrontendCache

/-! # The persistence summary

The summary of the frontend cache is kept by subtraction and addition. It is the total of the records
of all sources as long as every source that is replaced is subtracted with its own record.
-/
namespace ServerEngine

/-! ## Parts -/

inductive SummaryPart
  | frontends
  | localTypes
  | typeSlots
  | objectSlots
  | memberSlots

def PersistenceSummary.part (summary : PersistenceSummary) : SummaryPart → Nat
  | .frontends => summary.frontendCount
  | .localTypes => summary.counts.localTypes
  | .typeSlots => summary.counts.typeSlots
  | .objectSlots => summary.counts.objectSlots
  | .memberSlots => summary.counts.memberSlots

def PersistenceRecord.part (record : PersistenceRecord) (k : SummaryPart) : Nat :=
  if record.present then PersistenceSummary.part ⟨1, record.counts⟩ k else 0

def sumTo (f : Nat → Nat) : Nat → Nat
  | 0 => 0
  | n + 1 => sumTo f n + f (n + 1)

def Total (summary : PersistenceSummary) (record : Nat → PersistenceRecord) (count : Nat) : Prop :=
  ∀ k, summary.part k = sumTo (fun s => (record s).part k) count

variable {summary next : PersistenceSummary} {value : PersistenceRecord}
  {record record' : Nat → PersistenceRecord} {count : Nat}

theorem absent_part (k : SummaryPart) : ({} : PersistenceRecord).part k = 0 := rfl

theorem addPersistenceRecord_part (h : addPersistenceRecord summary value = some next)
    (k : SummaryPart) : next.part k = summary.part k + value.part k := by
  unfold addPersistenceRecord at h
  unfold PersistenceRecord.part
  split at h
  · rename_i habsent
    cases h
    rw [if_neg (by simpa using habsent), Nat.add_zero]
  · rename_i hpresent
    split at h
    · cases h
    · cases h
      rw [if_pos (by simpa using hpresent)]
      cases k <;> rfl

theorem subtractPersistenceRecord_part (h : subtractPersistenceRecord summary value = some next)
    (k : SummaryPart) : next.part k + value.part k = summary.part k := by
  unfold subtractPersistenceRecord at h
  unfold PersistenceRecord.part
  split at h
  · rename_i habsent
    cases h
    rw [if_neg (by simpa using habsent), Nat.add_zero]
  · rename_i hpresent
    split at h
    · cases h
    · rename_i hbounds
      cases h
      simp only [Bool.or_eq_true, decide_eq_true_eq, not_or] at hbounds
      rw [if_pos (by simpa using hpresent)]
      cases k <;> simp only [PersistenceSummary.part] <;> omega

/-! ## Sums -/

theorem sumTo_congr {f g : Nat → Nat} (h : ∀ s, s ≠ 0 → s ≤ count → f s = g s) :
    sumTo f count = sumTo g count := by
  induction count with
  | zero => rfl
  | succ n ih =>
    rw [sumTo, sumTo, ih fun s hne hle => h s hne (by omega), h (n + 1) (by omega) (by omega)]

theorem sumTo_extend {f : Nat → Nat} {bound : Nat} (hle : count ≤ bound)
    (hzero : ∀ s, count < s → f s = 0) : sumTo f bound = sumTo f count := by
  induction bound with
  | zero =>
    have : count = 0 := by omega
    rw [this]
  | succ n ih =>
    rcases Nat.lt_or_ge n count with hlt | hge
    · have : count = n + 1 := by omega
      rw [this]
    · rw [sumTo, ih hge, hzero (n + 1) (by omega), Nat.add_zero]

theorem sumTo_update (f : Nat → Nat) {s v : Nat} (hne : s ≠ 0) (hle : s ≤ count) :
    sumTo (Function.update f s v) count + f s = sumTo f count + v := by
  induction count with
  | zero => omega
  | succ n ih =>
    rw [sumTo, sumTo]
    rcases Nat.lt_or_ge n s with hlt | hge
    · have hs : s = n + 1 := by omega
      have hrest : sumTo (Function.update f s v) n = sumTo f n :=
        sumTo_congr fun t _ ht => Function.update_of_ne (by omega) _ _
      rw [hrest, hs, Function.update_self]
      omega
    · rw [Function.update_of_ne (by omega)]
      omega

theorem Total.congr (h : Total summary record count)
    (heq : ∀ s, s ≠ 0 → s ≤ count → record' s = record s) : Total summary record' count := by
  intro k
  rw [h k]
  exact sumTo_congr fun s hne hle => by rw [heq s hne hle]

theorem Total.extend (h : Total summary record count) {bound : Nat} (hle : count ≤ bound)
    (habsent : ∀ s, count < s → record s = {}) : Total summary record bound := by
  intro k
  rw [h k]
  exact (sumTo_extend hle fun s hs => by rw [habsent s hs, absent_part]).symm

theorem Total.replace (h : Total summary record count) {s : Nat} (hne : s ≠ 0) (hle : s ≤ count)
    {middle : PersistenceSummary} (hsubtract : subtractPersistenceRecord summary (record s) = some middle)
    (hadd : addPersistenceRecord middle value = some next) :
    Total next (Function.update record s value) count := by
  intro k
  have hmiddle := subtractPersistenceRecord_part hsubtract k
  have hnext := addPersistenceRecord_part hadd k
  have hpart : (fun t => (Function.update record s value t).part k) =
      Function.update (fun t => (record t).part k) s (value.part k) := by
    funext t
    by_cases hts : t = s
    · rw [hts, Function.update_self, Function.update_self]
    · rw [Function.update_of_ne hts, Function.update_of_ne hts]
  have hsum := @sumTo_update count (fun t => (record t).part k) s (value.part k) hne hle
  rw [hpart, hnext]
  have hold := h k
  omega

theorem Total.append (h : Total summary record count)
    (hadd : addPersistenceRecord summary (record (count + 1)) = some next) :
    Total next record (count + 1) := by
  intro k
  rw [addPersistenceRecord_part hadd k, h k, sumTo]

def recordsOf (values : List (Option CachedInterface)) (s : Nat) : PersistenceRecord :=
  persistenceRecordOf (values.getD (s - 1) none)

theorem total_foldlM {values : List (Option CachedInterface)} {summary : PersistenceSummary}
    (h : values.foldlM (fun summary value =>
      addPersistenceRecord summary (persistenceRecordOf value)) {} = some summary) :
    Total summary (recordsOf values) values.length := by
  induction values using List.reverseRecOn generalizing summary with
  | nil =>
    cases h
    intro k
    cases k <;> rfl
  | append_singleton values value ih =>
    rw [List.foldlM_append] at h
    obtain ⟨middle, hmiddle, hlast⟩ := Option.bind_eq_some_iff.mp h
    obtain ⟨result, hadd, hresult⟩ := Option.bind_eq_some_iff.mp hlast
    cases hresult
    have hinit := @Total.congr _ _ (recordsOf (values ++ [value])) _ (ih hmiddle)
      (fun s hne hle => by
        unfold recordsOf
        rw [List.getD_append _ _ _ _ (by omega)])
    rw [List.length_append, List.length_singleton]
    apply hinit.append
    unfold recordsOf
    simpa using hadd

end ServerEngine

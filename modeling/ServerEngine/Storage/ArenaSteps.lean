import ServerEngine.Storage.ByteArena
import ServerEngine.Library.Chains

/-! # The steps of the byte arena

What a step of a call can do, said once; then what each effect keeps of the pages, and what it leaves
to the other calls.
-/
namespace ServerEngine
open Interleaving Chains

namespace ByteArena

/-! ## What a call holds -/

namespace Call

def candidate (call : Call) : Option Nat :=
  match call.point with
  | .publishFirst candidate => some candidate
  | .publishNext _ candidate => some candidate
  | _ => none

def pending (call : Call) : Option Nat :=
  match call.point with
  | .publishFirst candidate => some candidate
  | .publishNext _ candidate => some candidate
  | .loadHead candidate _ => some candidate
  | .pushHead candidate _ _ => some candidate
  | _ => none

def counting (call : Call) : Option Nat :=
  match call.point with
  | .addBytes candidate _ => some candidate
  | .addPage candidate _ => some candidate
  | _ => none

def output (call : Call) : Option Block :=
  match call.point with
  | .returned _ output => output
  | _ => none

def mentions (call : Call) : List Nat :=
  match call.point with
  | .publishFirst candidate => [candidate]
  | .loadHead candidate _ => [candidate]
  | .pushHead candidate _ _ => [candidate]
  | .addBytes candidate _ => [candidate]
  | .addPage candidate _ => [candidate]
  | .reserve page => [page]
  | .makeNext page => [page]
  | .publishNext page candidate => [page, candidate]
  | .returned _ (some block) => [block.page]
  | _ => []

theorem candidate_pending {call : Call} {p : Nat} (h : call.candidate = some p) :
    call.pending = some p := by
  unfold candidate at h
  unfold pending
  split at h <;> simp_all

theorem pending_mentions {call : Call} {p : Nat} (h : call.pending = some p) :
    p ∈ call.mentions := by
  unfold pending at h
  unfold mentions
  split at h <;> simp_all

theorem counting_mentions {call : Call} {p : Nat} (h : call.counting = some p) :
    p ∈ call.mentions := by
  unfold counting at h
  unfold mentions
  split at h <;> simp_all

theorem output_mentions {call : Call} {block : Block} (h : call.output = some block) :
    block.page ∈ call.mentions := by
  unfold output at h
  unfold mentions
  split at h <;> simp_all

end Call

/-! ## Effects -/

inductive Effect (exponent : Nat) (m : Arena) (c : Call) : Arena → Call → Prop
  | stays : Effect exponent m c m c
  | lookedNone (hpoint : c.point = .loadCurrent) : Effect exponent m c m (c.goto .makeFirst)
  | looked (page : Nat) (hpoint : c.point = .loadCurrent) (hpage : m.currentPage = some page) :
      Effect exponent m c m (c.goto (.reserve page))
  | refused (hpoint : c.point = .makeFirst ∨ ∃ page, c.point = .makeNext page) :
      Effect exponent m c m (c.fail .initializationFailed)
  | made (address data : Nat) (point : Point)
      (hpoint : (c.point = .makeFirst ∧ point = .publishFirst address) ∨
        ∃ page, c.point = .makeNext page ∧ point = .publishNext page address)
      (hgranted : Granted exponent m c.pageCapacity address data) :
      Effect exponent m c
        (m.setPage address (some { data := data, capacity := c.pageCapacity }))
        (c.goto point)
  | published (candidate : Nat) (first : Bool) (hcandidate : c.candidate = some candidate) :
      Effect exponent m c { m with currentPage := some candidate }
        (c.goto (.loadHead candidate first))
  | dropped (candidate : Nat) (hcandidate : c.candidate = some candidate) :
      Effect exponent m c (m.setPage candidate none) (c.goto .loadCurrent)
  | headLoaded (candidate : Nat) (head : Option Nat) (first : Bool)
      (hpoint : c.point = .loadHead candidate first) :
      Effect exponent m c m (c.goto (.pushHead candidate head first))
  | relinked (candidate : Nat) (head head' : Option Nat) (first : Bool) (page : Page)
      (hpoint : c.point = .pushHead candidate head first)
      (hpage : m.heap candidate = some page) :
      Effect exponent m c (m.setPage candidate (some { page with nextOwned := head }))
        (c.goto (.pushHead candidate head' first))
  | pushed (candidate : Nat) (first : Bool) (page : Page)
      (hpoint : c.point = .pushHead candidate m.ownedPages first)
      (hpage : m.heap candidate = some page) :
      Effect exponent m c
        { m.setPage candidate (some { page with nextOwned := m.ownedPages }) with
          ownedPages := some candidate }
        (c.goto (.addBytes candidate first))
  | countedBytes (candidate : Nat) (first : Bool) (page : Page)
      (hpoint : c.point = .addBytes candidate first)
      (hpage : m.heap candidate = some page) :
      Effect exponent m c
        { m with reservedBytes := (m.reservedBytes + page.capacity) % sizeCount }
        (c.goto (.addPage candidate first))
  | countedPage (candidate : Nat) (first : Bool) (hpoint : c.point = .addPage candidate first) :
      Effect exponent m c { m with reservedPages := (m.reservedPages + 1) % sizeCount }
        (c.goto (if first then .reserve candidate else .loadCurrent))
  | reserved (address : Nat) (page : Page) (block : Block) (hpoint : c.point = .reserve address)
      (hpage : m.heap address = some page)
      (hcarve : carve c address page = some block) :
      Effect exponent m c (m.bump address page c.reservation)
        (c.goto (.returned none (some block)))
  | exhausted (address : Nat) (page : Page) (hpoint : c.point = .reserve address)
      (hpage : m.heap address = some page) :
      Effect exponent m c (m.bump address page c.reservation) (c.goto (.makeNext address))

theorem advance_effect {exponent : Nat} {m m' : Arena} {c c' : Call}
    (h : Advance exponent m c m' c') : Effect exponent m c m' c' := by
  obtain ⟨answer, hhonest, hnext⟩ := h
  unfold next at hnext
  cases hpoint : c.point with
  | loadCurrent =>
    rw [hpoint] at hnext
    cases hcurrent : m.currentPage with
    | none =>
      simp only [hcurrent] at hnext
      cases hnext
      exact .lookedNone hpoint
    | some page =>
      simp only [hcurrent] at hnext
      cases hnext
      exact .looked page hpoint hcurrent
  | makeFirst =>
    rw [hpoint] at hnext
    cases hpage : answer.page with
    | none =>
      simp only [hpage] at hnext
      cases hnext
      exact .refused (.inl hpoint)
    | some granted =>
      simp only [hpage] at hnext
      cases hnext
      exact .made granted.1 granted.2 _ (.inl ⟨hpoint, rfl⟩) (hhonest _ _ hpage)
  | publishFirst candidate =>
    have hcandidate : c.candidate = some candidate := by rw [Call.candidate, hpoint]
    simp only [hpoint] at hnext
    split at hnext
    · cases hnext
      exact .published candidate true hcandidate
    · cases hnext
      exact .dropped candidate hcandidate
  | loadHead candidate first =>
    simp only [hpoint] at hnext
    cases hnext
    exact .headLoaded candidate _ first hpoint
  | pushHead candidate head first =>
    simp only [hpoint] at hnext
    cases hpage : m.heap candidate with
    | none =>
      simp only [hpage] at hnext
      cases hnext
      exact .stays
    | some page =>
      simp only [hpage] at hnext
      split at hnext
      · rename_i hsame
        cases hnext
        rw [← hsame.1] at hpoint ⊢
        exact .pushed candidate first page hpoint hpage
      · cases hnext
        exact .relinked candidate head _ first page hpoint hpage
  | addBytes candidate first =>
    simp only [hpoint] at hnext
    cases hpage : m.heap candidate with
    | none =>
      simp only [hpage] at hnext
      cases hnext
      exact .stays
    | some page =>
      simp only [hpage] at hnext
      cases hnext
      exact .countedBytes candidate first page hpoint hpage
  | addPage candidate first =>
    simp only [hpoint] at hnext
    cases hnext
    exact .countedPage candidate first hpoint
  | reserve address =>
    simp only [hpoint] at hnext
    cases hpage : m.heap address with
    | none =>
      simp only [hpage] at hnext
      cases hnext
      exact .stays
    | some page =>
      simp only [hpage] at hnext
      cases hcarve : carve c address page with
      | none =>
        simp only [hcarve] at hnext
        cases hnext
        exact .exhausted address page hpoint hpage
      | some block =>
        simp only [hcarve] at hnext
        cases hnext
        exact .reserved address page block hpoint hpage hcarve
  | makeNext page =>
    simp only [hpoint] at hnext
    cases hanswer : answer.page with
    | none =>
      simp only [hanswer] at hnext
      cases hnext
      exact .refused (.inr ⟨page, hpoint⟩)
    | some granted =>
      simp only [hanswer] at hnext
      cases hnext
      exact .made granted.1 granted.2 _ (.inr ⟨page, hpoint, rfl⟩) (hhonest _ _ hanswer)
  | publishNext page candidate =>
    have hcandidate : c.candidate = some candidate := by rw [Call.candidate, hpoint]
    simp only [hpoint] at hnext
    split at hnext
    · cases hnext
      exact .published candidate false hcandidate
    · cases hnext
      exact .dropped candidate hcandidate
  | returned failure output =>
    simp only [hpoint] at hnext
    cases hnext
    exact .stays

theorem mask_eq {x j : Nat} (hj : j ≤ 64) (hx : x < sizeCount) :
    x &&& (sizeMax - (2 ^ j - 1)) = x / 2 ^ j * 2 ^ j := by
  have hpow : 2 ^ (64 - j) * 2 ^ j = sizeCount := by
    rw [← Nat.pow_add, Nat.sub_add_cancel hj]
    rfl
  have hpos : 0 < 2 ^ j := Nat.two_pow_pos j
  have hmask : sizeMax - (2 ^ j - 1) = (2 ^ (64 - j) - 1) * 2 ^ j := by
    rw [Nat.sub_mul, hpow, Nat.one_mul]
    show sizeCount - 1 - (2 ^ j - 1) = _
    omega
  rw [hmask]
  apply Nat.eq_of_testBit_eq
  intro i
  rw [Nat.testBit_and, ← Nat.shiftLeft_eq, ← Nat.shiftLeft_eq, Nat.testBit_shiftLeft,
    Nat.testBit_shiftLeft, Nat.testBit_two_pow_sub_one, ← Nat.shiftRight_eq_div_pow,
    Nat.testBit_shiftRight]
  by_cases hi : j ≤ i
  · have hindex : j + (i - j) = i := by omega
    rw [hindex]
    by_cases hhigh : i - j < 64 - j
    · simp [hi, hhigh]
    · have hzero : x.testBit i = false := by
        apply Nat.testBit_lt_two_pow
        calc
          x < 2 ^ 64 := hx
          _ ≤ 2 ^ i := Nat.pow_le_pow_right (by decide) (by omega)
      simp [hzero]
  · simp [hi]

theorem alignUp_spec {value j : Nat} (hj : j ≤ 64) (hfits : value + 2 ^ j - 1 < sizeCount) :
    value ≤ alignUp value (2 ^ j) ∧ alignUp value (2 ^ j) ≤ value + 2 ^ j - 1 ∧
      2 ^ j ∣ alignUp value (2 ^ j) := by
  have hpos : 0 < 2 ^ j := Nat.two_pow_pos j
  have hdiv := Nat.div_add_mod (value + 2 ^ j - 1) (2 ^ j)
  rw [alignUp, Nat.mod_eq_of_lt hfits, mask_eq hj hfits]
  rw [Nat.mul_comm] at hdiv
  refine ⟨by omega, by omega, Nat.dvd_mul_left _ _⟩

theorem validAlignment_pow {alignment : Nat} (h : validAlignment alignment = true) :
    ∃ j, alignment = 2 ^ j := by
  simp only [validAlignment, Bool.and_eq_true, decide_eq_true_eq] at h
  exact (Nat.and_sub_one_eq_zero_iff_isPowerOfTwo h.1).mp h.2

end ByteArena
end ServerEngine

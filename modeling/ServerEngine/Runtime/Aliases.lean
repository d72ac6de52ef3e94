import ServerEngine.Runtime.ValueLinks

/-! # Alias resolution

The bindings of the reference fields form a graph in which every field has at most one successor.
Resolution ends well if and only if no reference lacks a binding and no chain closes; every field is
then resolved to the end of its chain.
-/
namespace ServerEngine
open Slice ErrorFold ConstructM Relation

/-! ## Chains of a functional relation -/

section chains

variable {α : Type} {r : α → α → Prop} {a z : α}

theorem chain_end_unique (hr : Relator.RightUnique r) {y : α} (hy : ReflTransGen r a y)
    (hz : ReflTransGen r a z) (hyend : ∀ b, ¬ r y b) (hzend : ∀ b, ¬ r z b) : y = z := by
  cases ReflTransGen.total_of_right_unique hr hy hz with
  | inl h =>
    cases h.cases_head with
    | inl heq => exact heq
    | inr hstep =>
      obtain ⟨b, hb, -⟩ := hstep
      exact absurd hb (hyend b)
  | inr h =>
    cases h.cases_head with
    | inl heq => exact heq.symm
    | inr hstep =>
      obtain ⟨b, hb, -⟩ := hstep
      exact absurd hb (hzend b)

theorem chain_end_acyclic (hr : Relator.RightUnique r) (h : ReflTransGen r a z)
    (hend : ∀ b, ¬ r z b) : ¬ TransGen r a a := by
  induction h using ReflTransGen.head_induction_on with
  | refl =>
    intro hcycle
    obtain ⟨b, hb, -⟩ := TransGen.head'_iff.mp hcycle
    exact hend b hb
  | head hstep _ ih =>
    intro hcycle
    obtain ⟨c, hc, hback⟩ := TransGen.head'_iff.mp hcycle
    obtain rfl := hr hstep hc
    exact ih (TransGen.tail' hback hstep)

end chains

section resolution

variable (fields : List ManagedFieldLayout) (references : List (Option Nat))

def Follows (i j : Nat) : Prop :=
  (fields.getD i {}).reference = true ∧ references.getD i none = some j

/-- The field at the end of the bindings that start at `i`. -/
structure AliasOf (i t : Nat) : Prop where
  chain : ReflTransGen (Follows fields references) i t
  stored : (fields.getD t {}).reference = false

def Unresolvable : Prop :=
  (∃ i < fields.length, (fields.getD i {}).reference = true ∧ references.getD i none = none) ∨
    ∃ i < fields.length, TransGen (Follows fields references) i i

def Refused (e : ConstructFailure) : Prop := e ≠ .diverges ∧ Unresolvable fields references

variable {fields references}

theorem follows_functional : Relator.RightUnique (Follows fields references) := by
  intro i j k hj hk
  have h := hj.2.symm.trans hk.2
  exact Option.some.inj h

variable {i t : Nat}

theorem AliasOf.final (h : AliasOf fields references i t) (j : Nat) :
    ¬ Follows fields references t j := by
  intro hj
  rw [Follows, h.stored] at hj
  exact absurd hj.1 (by decide)

theorem AliasOf.unique {u : Nat} (ht : AliasOf fields references i t)
    (hu : AliasOf fields references i u) : t = u :=
  chain_end_unique follows_functional ht.chain hu.chain ht.final hu.final

theorem AliasOf.step {j : Nat} (h : AliasOf fields references j t)
    (hchain : ReflTransGen (Follows fields references) i j) : AliasOf fields references i t :=
  ⟨hchain.trans h.chain, h.stored⟩

theorem resolvable_of_aliases
    (h : ∀ i < fields.length, ∃ t, AliasOf fields references i t) :
    ¬ Unresolvable fields references := by
  rintro (⟨i, hi, href, hnone⟩ | ⟨i, hi, hcycle⟩)
  · obtain ⟨t, ht⟩ := h i hi
    cases ht.chain.cases_head with
    | inl heq =>
      have hstored := ht.stored
      rw [← heq, href] at hstored
      cases hstored
    | inr hstep =>
      obtain ⟨j, hj, -⟩ := hstep
      rw [Follows, hnone] at hj
      exact absurd hj.2 (by simp)
  · obtain ⟨t, ht⟩ := h i hi
    exact chain_end_acyclic follows_functional ht.chain ht.final hcycle

/-! ## One chain -/

variable (fields references) in
structure Partial (r : Resolution) : Prop where
  resolvedLength : r.resolved.length = fields.length
  stateLength : r.state.length = fields.length
  sound : ∀ i t, r.resolved.getD i none = some t → AliasOf fields references i t

theorem Partial.resolve {r : Resolution} (h : Partial fields references r)
    (ht : AliasOf fields references i t) (state : List Nat)
    (hstate : state.length = fields.length) :
    Partial fields references ⟨r.resolved.set i (some t), state⟩ := by
  refine ⟨by rw [List.length_set, h.resolvedLength], hstate, fun j u hu => ?_⟩
  rw [getD_set] at hu
  split at hu
  · rename_i hij
    obtain rfl := Option.some.inj hu
    exact hij.1 ▸ ht
  · exact h.sound j u hu

variable (fields references) in
/-- In the middle of a chain: the marked fields are those passed, and they lead to `current`. -/
structure Walking (index current : Nat) (path : List Nat) (r : Resolution) : Prop
    extends Partial fields references r where
  marked : ∀ i, r.state.getD i 0 = 1 ↔ i ∈ path
  nodup : path.Nodup
  within : ∀ i ∈ path, i < fields.length
  leads : ∀ i ∈ path, TransGen (Follows fields references) i current
  begun : index ∈ path ∨ index = current

variable (fields references) in
structure Walked (index last : Nat) (after : List Nat) (before : List (Option Nat))
    (r : Resolution) : Prop
    extends Partial fields references r where
  known : (r.resolved.getD last none).isSome
  marked : ∀ i, r.state.getD i 0 = 1 → i ∈ after
  within : ∀ i ∈ after, i < fields.length
  leads : ∀ i ∈ after, ReflTransGen (Follows fields references) i last
  begun : index ∈ after ∨ index = last
  keeps : ∀ i, (before.getD i none).isSome → (r.resolved.getD i none).isSome

variable {index current : Nat} {path : List Nat}

theorem Walking.room {r : Resolution} (h : Walking fields references index current path r) :
    path.length ≤ fields.length := by
  have hsub : path ⊆ List.range fields.length := fun i hi => List.mem_range.mpr (h.within i hi)
  have hle := (List.subperm_of_subset h.nodup hsub).length_le
  rwa [List.length_range] at hle

theorem getD_state_set {state : List Nat} {n : Nat} (hlen : state.length = n)
    (hcurrent : current < n) :
    (state.set current 1).getD i 0 = 1 ↔ i = current ∨ state.getD i 0 = 1 := by
  by_cases hi : current = i
  · subst hi
    simp [hlen, hcurrent]
  · simp [hi, Ne.symm hi]

/-- Induction over the bindings followed: every field passed is marked, so a chain that closes is
found before the fuel is used up. -/
theorem followReferences_outcome
    (hrange : ∀ i j, Follows fields references i j → j < fields.length) {fuel : Nat}
    {r : Resolution} (hw : Walking fields references index current path r)
    (hcurrent : current < fields.length) (hfuel : fuel + path.length = fields.length + 1) :
    Outcome (Refused fields references)
      (fun out => Walked fields references index out.1 out.2.1 r.resolved out.2.2)
      (followReferences fields references fuel current path r) := by
  induction fuel generalizing current path r with
  | zero =>
    have hroom := hw.room
    omega
  | succ fuel ih =>
    rw [followReferences]
    split
    · rename_i hknown
      exact ⟨hw.toPartial, hknown, fun i hi => (hw.marked i).mp hi, hw.within,
        fun i hi => (hw.leads i hi).to_reflTransGen, hw.begun, fun _ hi => hi⟩
    · split
      · rename_i hmark
        refine ⟨by simp, .inr ⟨current, hcurrent, ?_⟩⟩
        exact hw.leads current ((hw.marked current).mp hmark)
      · rename_i hmark
        have hnew : current ∉ path := fun hmem => hmark ((hw.marked current).mpr hmem)
        have hmarked : ∀ i, (r.state.set current 1).getD i 0 = 1 ↔ i ∈ path ++ [current] := by
          intro i
          rw [getD_state_set hw.stateLength hcurrent, hw.marked i]
          simp [or_comm]
        have hlength : (r.state.set current 1).length = fields.length := by
          rw [List.length_set, hw.stateLength]
        have hwithin : ∀ i ∈ path ++ [current], i < fields.length := by
          intro i hi
          cases List.mem_append.mp hi with
          | inl hi => exact hw.within i hi
          | inr hi =>
            obtain rfl := List.mem_singleton.mp hi
            exact hcurrent
        have hleads : ∀ i ∈ path ++ [current], ReflTransGen (Follows fields references) i current := by
          intro i hi
          cases List.mem_append.mp hi with
          | inl hi => exact (hw.leads i hi).to_reflTransGen
          | inr hi =>
            obtain rfl := List.mem_singleton.mp hi
            exact .refl
        have hbegun : index ∈ path ++ [current] := by
          cases hw.begun with
          | inl hmem => exact List.mem_append_left _ hmem
          | inr heq => simp [heq]
        split
        · rename_i hplain
          have hstored : (fields.getD current {}).reference = false := by simpa using hplain
          have hself : AliasOf fields references current current := ⟨.refl, hstored⟩
          refine ⟨hw.toPartial.resolve hself _ hlength, ?_, fun i hi => (hmarked i).mp hi, hwithin,
            hleads, .inl hbegun, fun i hi => isSome_getD_set hi⟩
          rw [getD_set, hw.resolvedLength, if_pos ⟨rfl, hcurrent⟩]
          rfl
        · rename_i hplain
          have href : (fields.getD current {}).reference = true := by simpa using hplain
          split
          · rename_i hnone
            exact ⟨by simp, .inl ⟨current, hcurrent, href, hnone⟩⟩
          · rename_i next hnext
            have hstep : Follows fields references current next := ⟨href, hnext⟩
            refine ih (r := { r with state := r.state.set current 1 }) ?_ ?_ ?_
            · refine ⟨⟨hw.resolvedLength, hlength, hw.sound⟩, hmarked, ?_, hwithin, ?_, .inl hbegun⟩
              · rw [List.nodup_append]
                refine ⟨hw.nodup, by simp, fun a ha b hb => ?_⟩
                obtain rfl := List.mem_singleton.mp hb
                intro heq
                exact hnew (heq ▸ ha)
              · exact fun i hi => TransGen.tail' (hleads i hi) hstep
            · exact hrange current next hstep
            · rw [List.length_append, List.length_singleton]
              omega

/-! ## The rounds -/

variable (fields references) in
structure ChainsDone (r : Resolution) : Prop extends Partial fields references r where
  unmarked : ∀ i, r.state.getD i 0 ≠ 1

theorem shareTarget {items : List Nat} {r : Resolution} (h : Partial fields references r)
    (hwithin : ∀ i ∈ items, i < fields.length)
    (halias : ∀ i ∈ items, AliasOf fields references i t)
    (hmarked : ∀ i, r.state.getD i 0 = 1 → i ∈ items) : let r' := items.foldl (fun r item =>
      { resolved := r.resolved.set item (some t), state := r.state.set item 2 : Resolution }) r
    ChainsDone fields references r' ∧ (∀ i ∈ items, (r'.resolved.getD i none).isSome) ∧
      ∀ i, (r.resolved.getD i none).isSome → (r'.resolved.getD i none).isSome := by
  induction items generalizing r with
  | nil =>
    refine ⟨⟨h, fun i hi => ?_⟩, fun i hi => absurd hi List.not_mem_nil, fun _ hi => hi⟩
    exact absurd (hmarked i hi) List.not_mem_nil
  | cons p items ih =>
    have hp : p < fields.length := hwithin p (by simp)
    have hnext : Partial fields references ⟨r.resolved.set p (some t), r.state.set p 2⟩ :=
      h.resolve (halias p (by simp)) _ (by rw [List.length_set, h.stateLength])
    obtain ⟨hdone, hknown, hkeeps⟩ := ih hnext
      (fun i hi => hwithin i (List.mem_cons_of_mem p hi))
      (fun i hi => halias i (List.mem_cons_of_mem p hi)) (fun i hi => by
        rw [List.getD_eq_getElem?_getD, List.getElem?_set] at hi
        by_cases hip : p = i
        · simp [hip, h.stateLength, hip ▸ hp] at hi
        · rw [if_neg hip, ← List.getD_eq_getElem?_getD] at hi
          cases List.mem_cons.mp (hmarked i hi) with
          | inl heq => exact absurd heq.symm hip
          | inr hmem => exact hmem)
    refine ⟨hdone, fun i hi => ?_, fun i hi => hkeeps i (isSome_getD_set hi)⟩
    cases List.mem_cons.mp hi with
    | inl heq =>
      apply hkeeps
      rw [heq, getD_set, h.resolvedLength, if_pos ⟨rfl, hp⟩]
      rfl
    | inr hmem => exact hknown i hmem

theorem resolveField_outcome (hrange : ∀ i j, Follows fields references i j → j < fields.length)
    {r : Resolution} (h : ChainsDone fields references r) (hindex : index < fields.length) :
    Outcome (Refused fields references)
      (fun r' => ChainsDone fields references r' ∧ (r'.resolved.getD index none).isSome ∧
        ∀ i, (r.resolved.getD i none).isSome → (r'.resolved.getD i none).isSome)
      (resolveField fields references r index) := by
  have hstart : Walking fields references index index [] r :=
    ⟨h.toPartial, fun i => ⟨fun hi => absurd hi (h.unmarked i), fun hi => absurd hi List.not_mem_nil⟩,
      List.nodup_nil, fun i hi => absurd hi List.not_mem_nil, fun i hi => absurd hi List.not_mem_nil,
      .inr rfl⟩
  apply (followReferences_outcome hrange hstart hindex (by simp)).bind
  rintro ⟨last, after, mid⟩ hw
  obtain ⟨t, ht⟩ := Option.isSome_iff_exists.mp hw.known
  have hlast := hw.sound last t ht
  dsimp only at ht ⊢
  rw [ht]
  obtain ⟨hdone, hknown, hkeeps⟩ := shareTarget hw.toPartial hw.within
    (fun i hi => hlast.step (hw.leads i hi)) hw.marked
  refine ⟨hdone, ?_, fun i hi => hkeeps i (hw.keeps i hi)⟩
  cases hw.begun with
  | inl hmem => exact hknown index hmem
  | inr heq =>
    rw [heq]
    exact hkeeps last hw.known

variable (fields references) in
def resolveInOrder (order : List Nat) : ConstructM (List (Option Nat)) := do
  let r ← order.foldlM (resolveField fields references)
    ⟨List.replicate fields.length none, List.replicate fields.length 0⟩
  .ok r.resolved

theorem resolveReferences_eq :
    resolveReferences fields references =
      resolveInOrder fields references (List.range fields.length) := rfl

theorem chainsDone_start :
    ChainsDone fields references
      ⟨List.replicate fields.length none, List.replicate fields.length 0⟩ := by
  refine ⟨⟨List.length_replicate, List.length_replicate, fun i t ht => ?_⟩, fun i hi => ?_⟩
  · rw [List.getD_eq_getElem?_getD, List.getElem?_replicate] at ht
    split at ht <;> cases ht
  · rw [List.getD_eq_getElem?_getD, List.getElem?_replicate] at hi
    split at hi <;> cases hi

variable (fields references) in
structure ResolvesAll (resolved : List (Option Nat)) : Prop where
  length : resolved.length = fields.length
  exact : ∀ i < fields.length, ∃ t, resolved.getD i none = some t ∧ AliasOf fields references i t

variable {order : List Nat}

theorem resolveInOrder_outcome (hrange : ∀ i j, Follows fields references i j → j < fields.length)
    (horder : ∀ i, i ∈ order ↔ i < fields.length) :
    Outcome (Refused fields references) (ResolvesAll fields references)
      (resolveInOrder fields references order) := by
  have hrun : Outcome (Refused fields references)
      (fun r => ChainsDone fields references r ∧ ∀ i ∈ order, (r.resolved.getD i none).isSome)
      (order.foldlM (resolveField fields references)
        ⟨List.replicate fields.length none, List.replicate fields.length 0⟩) := by
    apply foldlM_outcome (fun pre (r : Resolution) => ChainsDone fields references r ∧
      ∀ i ∈ pre, (r.resolved.getD i none).isSome)
    · exact ⟨chainsDone_start, fun i hi => absurd hi List.not_mem_nil⟩
    · rintro pre index r hindex ⟨hr, hpre⟩
      have hround := resolveField_outcome hrange hr ((horder index).mp hindex)
      cases hstep : resolveField fields references r index with
      | error e =>
        rw [hstep] at hround
        exact hround
      | ok r' =>
        rw [hstep] at hround
        obtain ⟨hdone, hnew, hkeeps⟩ := hround
        refine ⟨hdone, fun i hi => ?_⟩
        cases List.mem_append.mp hi with
        | inl hi => exact hkeeps i (hpre i hi)
        | inr hi =>
          obtain rfl := List.mem_singleton.mp hi
          exact hnew
  apply hrun.bind
  rintro r ⟨hr, hall⟩
  refine ⟨hr.resolvedLength, fun i hi => ?_⟩
  obtain ⟨t, ht⟩ := Option.isSome_iff_exists.mp (hall i ((horder i).mpr hi))
  exact ⟨t, ht, hr.sound i t ht⟩

theorem ResolvesAll.unique {xs ys : List (Option Nat)} (hx : ResolvesAll fields references xs)
    (hy : ResolvesAll fields references ys) : xs = ys := by
  apply List.ext_getElem?
  intro i
  by_cases hi : i < fields.length
  · obtain ⟨t, ht, hta⟩ := hx.exact i hi
    obtain ⟨u, hu, hua⟩ := hy.exact i hi
    obtain rfl := hta.unique hua
    have hxi : i < xs.length := by rw [hx.length]; exact hi
    have hyi : i < ys.length := by rw [hy.length]; exact hi
    rw [List.getD_eq_getElem?_getD, List.getElem?_eq_getElem hxi] at ht
    rw [List.getD_eq_getElem?_getD, List.getElem?_eq_getElem hyi] at hu
    rw [List.getElem?_eq_getElem hxi, List.getElem?_eq_getElem hyi]
    simp only [Option.getD_some] at ht hu
    rw [ht, hu]
  · rw [List.getElem?_eq_none (by rw [hx.length]; omega),
      List.getElem?_eq_none (by rw [hy.length]; omega)]

theorem resolveInOrder_ok_iff (hrange : ∀ i j, Follows fields references i j → j < fields.length)
    (horder : ∀ i, i ∈ order ↔ i < fields.length) :
    (∃ resolved, resolveInOrder fields references order = .ok resolved) ↔
      ¬ Unresolvable fields references := by
  have hout := resolveInOrder_outcome hrange horder
  cases hrun : resolveInOrder fields references order with
  | error e =>
    rw [hrun] at hout
    simp [hout.2]
  | ok resolved =>
    rw [hrun] at hout
    have hok : ¬ Unresolvable fields references := by
      apply resolvable_of_aliases
      intro i hi
      obtain ⟨t, -, ht⟩ := hout.exact i hi
      exact ⟨t, ht⟩
    simp [hok]

end resolution

/-! ## The bindings of a Graph -/

section bindings

variable (fields : List ManagedFieldLayout) (field : ObjectEndpoint → Option Nat)

/-- A live link binds `i` to `s`. -/
def LinkInto (links : List LinkRecord) (i s : Nat) : Prop :=
  ∃ link ∈ links, link.live = true ∧ field link.target = some i ∧ field link.source = some s

/-- The member's own default binds `i` to the sibling `s`. -/
def LocalDefault (i s : Nat) : Prop :=
  (fields.getD i {}).initial.kind = .memberBinding ∧ boundSibling (fields.getD i {}) = some s

def Binds (links : List LinkRecord) (i s : Nat) : Prop :=
  LinkInto field links i s ∨ (¬ ∃ u, LinkInto field links i u) ∧ LocalDefault fields i s

structure LocallyBound (pre : List Nat) (b : Bindings) : Prop where
  length : b.references.length = fields.length
  incomingLength : b.incoming.length = fields.length
  free : ∀ i, b.incoming.getD i none = none
  exact : ∀ i s, b.references.getD i none = some s ↔
    i ∈ pre ∧ i < fields.length ∧ LocalDefault fields i s

structure LinksBound (pre : List LinkRecord) (b : Bindings) : Prop where
  length : b.references.length = fields.length
  incomingLength : b.incoming.length = fields.length
  incoming : ∀ i < fields.length, ∀ s, b.incoming.getD i none = some s ↔ LinkInto field pre i s
  exact : ∀ i < fields.length, (fields.getD i {}).reference = true → ∀ s,
    b.references.getD i none = some s ↔ Binds fields field pre i s

variable {fields field} {b' : Bindings} {i : Nat}

theorem bindLocal_exact {pre : List Nat} {b : Bindings} (hb : LocallyBound fields pre b)
    (hi : i < fields.length) (h : bindLocal fields b i = .ok b') :
    LocallyBound fields (pre ++ [i]) b' := by
  have hmem : ∀ j, j ∈ pre ++ [i] ↔ j ∈ pre ∨ j = i := fun j => by simp
  rw [bindLocal] at h
  split at h
  · rename_i hkind
    cases h
    refine ⟨hb.length, hb.incomingLength, hb.free, fun j s => ?_⟩
    rw [hb.exact, hmem]
    constructor
    · rintro ⟨hj, hrest⟩
      exact ⟨.inl hj, hrest⟩
    · rintro ⟨hj | rfl, hrest⟩
      · exact ⟨hj, hrest⟩
      · exact absurd hrest.2.1 hkind
  · rename_i hkind
    split at h
    · cases h
    · rename_i source hsource
      split at h
      · cases h
      · cases h
        have hkind' : (fields.getD i {}).initial.kind = .memberBinding := not_not.mp hkind
        refine ⟨by rw [List.length_set, hb.length], hb.incomingLength, hb.free, fun j s => ?_⟩
        rw [getD_set, hb.length, hmem]
        by_cases hij : i = j
        · subst hij
          rw [if_pos ⟨rfl, hi⟩]
          constructor
          · intro hs
            obtain rfl := Option.some.inj hs
            exact ⟨.inr rfl, hi, hkind', hsource⟩
          · rintro ⟨-, -, -, hs⟩
            rw [← hs, hsource]
        · rw [if_neg fun hand => hij hand.1, hb.exact]
          simp [Ne.symm hij]

variable {pre : List LinkRecord} {link : LinkRecord} {s : Nat}

theorem linkInto_append : LinkInto field (pre ++ [link]) i s ↔ LinkInto field pre i s ∨
      (link.live = true ∧ field link.target = some i ∧ field link.source = some s) := by
  simp only [LinkInto, List.mem_append, List.mem_singleton]
  constructor
  · rintro ⟨l, hl | rfl, hrest⟩
    · exact .inl ⟨l, hl, hrest⟩
    · exact .inr hrest
  · rintro (⟨l, hl, hrest⟩ | hrest)
    · exact ⟨l, .inl hl, hrest⟩
    · exact ⟨link, .inr rfl, hrest⟩

theorem linkInto_append_other (h : link.live = true → field link.target ≠ some i) (s : Nat) :
    LinkInto field (pre ++ [link]) i s ↔ LinkInto field pre i s := by
  rw [linkInto_append]
  constructor
  · rintro (hpre | ⟨hlive, htarget, -⟩)
    · exact hpre
    · exact absurd htarget (h hlive)
  · exact .inl

theorem binds_append_other (h : link.live = true → field link.target ≠ some i) :
    Binds fields field (pre ++ [link]) i s ↔ Binds fields field pre i s := by
  simp only [Binds, linkInto_append_other h]

theorem bindLink_exact {b : Bindings} (hb : LinksBound fields field pre b)
    (h : bindLink fields field b link = .ok b') : LinksBound fields field (pre ++ [link]) b' := by
  rw [bindLink] at h
  split at h
  · rename_i hdead
    cases h
    have hother : ∀ i, link.live = true → field link.target ≠ some i := by
      intro i hlive
      simp [hlive] at hdead
    refine ⟨hb.length, hb.incomingLength, fun i hi s => ?_, fun i hi href s => ?_⟩
    · rw [hb.incoming i hi, linkInto_append_other (hother i)]
    · rw [hb.exact i hi href, binds_append_other (hother i)]
  · rename_i hlive
    have hlive : link.live = true := by simpa using hlive
    split at h
    · rename_i target source ht hs
      split at h
      · cases h
      · split at h
        · cases h
        · rename_i hfree
          have hnone : b.incoming.getD target none = none := by simpa using hfree
          have hother : ∀ i, i ≠ target → link.live = true → field link.target ≠ some i := by
            rintro i hi - heq
            rw [ht] at heq
            exact hi (Option.some.inj heq).symm
          -- no earlier link binds the target
          have hfirst : target < fields.length → ∀ u, ¬ LinkInto field pre target u := by
            intro hlt u hu
            rw [← hb.incoming target hlt u, hnone] at hu
            cases hu
          have hnew : target < fields.length → ∀ s,
              LinkInto field (pre ++ [link]) target s ↔ s = source := by
            intro hlt s
            rw [linkInto_append, hs]
            constructor
            · rintro (hpre | ⟨-, -, heq⟩)
              · exact absurd hpre (hfirst hlt s)
              · exact (Option.some.inj heq).symm
            · rintro rfl
              exact .inr ⟨hlive, ht, rfl⟩
          have hincoming : ∀ i < fields.length, ∀ s,
              (b.incoming.set target (some source)).getD i none = some s ↔
                LinkInto field (pre ++ [link]) i s := by
            intro i hi s
            rw [getD_set, hb.incomingLength]
            by_cases heq : target = i
            · subst heq
              rw [if_pos ⟨rfl, hi⟩, hnew hi s]
              constructor
              · intro hs
                exact (Option.some.inj hs).symm
              · rintro rfl
                rfl
            · rw [if_neg fun hand => heq hand.1, hb.incoming i hi,
                linkInto_append_other (hother i (Ne.symm heq))]
          have hset : (b.incoming.set target (some source)).length = fields.length := by
            rw [List.length_set, hb.incomingLength]
          split at h
          · rename_i href
            cases h
            refine ⟨by rw [List.length_set, hb.length], hset, hincoming, fun i hi hiref s => ?_⟩
            rw [getD_set, hb.length]
            by_cases heq : target = i
            · subst heq
              have hbinds : Binds fields field (pre ++ [link]) target s ↔ s = source := by
                rw [Binds, hnew hi s]
                constructor
                · rintro (heq | ⟨hno, -⟩)
                  · exact heq
                  · exact absurd ⟨source, (hnew hi source).mpr rfl⟩ hno
                · exact .inl
              rw [if_pos ⟨rfl, hi⟩, hbinds]
              constructor
              · intro hs
                exact (Option.some.inj hs).symm
              · rintro rfl
                rfl
            · rw [if_neg fun hand => heq hand.1, hb.exact i hi hiref,
                binds_append_other (hother i (Ne.symm heq))]
          · rename_i href
            split at h
            · cases h
            · cases h
              refine ⟨hb.length, hset, hincoming, fun i hi hiref s => ?_⟩
              have hne : i ≠ target := by
                rintro rfl
                exact href hiref
              rw [hb.exact i hi hiref, binds_append_other (hother i hne)]
    · cases h

theorem bindAll_exact {graph : ManagedGraphReader} {b : Bindings} {links : List LinkRecord}
    (hlinks : graph.links = some links) (h : bindAll graph fields field = .ok b) :
    LinksBound fields field links b := by
  obtain ⟨locals, hlocals, h⟩ := bind_ok.mp h
  obtain ⟨links', hlinks', h⟩ := bind_ok.mp h
  rw [hlinks] at hlinks'
  cases hlinks'
  have hmissing : ∀ i, (List.replicate fields.length (none : Option Nat)).getD i none = none := by
    intro i
    rw [List.getD_eq_getElem?_getD, List.getElem?_replicate]
    split <;> rfl
  have hlocal : LocallyBound fields (List.range fields.length) locals := by
    refine foldlM_ok_rec (LocallyBound fields) hlocals ?_ ?_
    · refine ⟨List.length_replicate, List.length_replicate, hmissing, fun i s => ?_⟩
      rw [hmissing i]
      simp
    · intro pre i u v hi hu hv
      exact bindLocal_exact hu (List.mem_range.mp hi) hv
  refine foldlM_ok_rec (LinksBound fields field) h ?_ fun pre link u v _ hu hv => bindLink_exact hu hv
  have hnolink : ∀ i s, ¬ LinkInto field [] i s := by
    rintro i s ⟨link, hmem, -⟩
    cases hmem
  refine ⟨hlocal.length, hlocal.incomingLength, fun i _ s => ?_, fun i hi _ s => ?_⟩
  · rw [hlocal.free i]
    simp [hnolink i s]
  · rw [hlocal.exact, Binds]
    simp [hnolink, List.mem_range, hi]

end bindings

/-! ## Exactness -/

/-- `i` is a reference bound to `s`. -/
def RefersTo (fields : List ManagedFieldLayout) (field : ObjectEndpoint → Option Nat)
    (links : List LinkRecord) (i s : Nat) : Prop :=
  (fields.getD i {}).reference = true ∧ Binds fields field links i s

/-- The non-reference field reached by following bindings from `i`. -/
def Reaches (fields : List ManagedFieldLayout) (field : ObjectEndpoint → Option Nat)
    (links : List LinkRecord) (i t : Nat) : Prop :=
  ReflTransGen (RefersTo fields field links) i t ∧ (fields.getD t {}).reference = false

section exactness

variable {fields : List ManagedFieldLayout} {field : ObjectEndpoint → Option Nat}
  {links : List LinkRecord} {b : Bindings} {i : Nat}

theorem reference_lt (h : (fields.getD i {}).reference = true) : i < fields.length := by
  by_contra hi
  rw [List.getD_eq_getElem?_getD, List.getElem?_eq_none (by omega)] at h
  cases h

theorem LinksBound.follows (h : LinksBound fields field links b) :
    RefersTo fields field links = Follows fields b.references := by
  funext i s
  apply propext
  constructor
  · rintro ⟨href, hs⟩
    exact ⟨href, (h.exact i (reference_lt href) href s).mpr hs⟩
  · rintro ⟨href, hs⟩
    exact ⟨href, (h.exact i (reference_lt href) href s).mp hs⟩

theorem LinksBound.reaches (h : LinksBound fields field links b) {t : Nat} :
    Reaches fields field links i t ↔ AliasOf fields b.references i t := by
  rw [Reaches, h.follows]
  exact ⟨fun ht => ⟨ht.1, ht.2⟩, fun ht => ⟨ht.chain, ht.stored⟩⟩

theorem LinksBound.unresolvable (h : LinksBound fields field links b) :
    Unresolvable fields b.references ↔
      (∃ i < fields.length, (fields.getD i {}).reference = true ∧
        ¬ ∃ s, Binds fields field links i s) ∨
      ∃ i < fields.length, TransGen (RefersTo fields field links) i i := by
  rw [Unresolvable, h.follows]
  apply or_congr_left
  constructor
  · rintro ⟨i, hi, href, hnone⟩
    refine ⟨i, hi, href, ?_⟩
    rintro ⟨s, hs⟩
    rw [← h.exact i hi href s, hnone] at hs
    cases hs
  · rintro ⟨i, hi, href, hno⟩
    refine ⟨i, hi, href, ?_⟩
    cases hget : b.references.getD i none with
    | none => rfl
    | some s => exact absurd ⟨s, (h.exact i hi href s).mp hget⟩ hno

end exactness

/-- Construction resolves the references if and only if every reference field has a binding and the
bindings have no cycle; each field is then resolved to the one field that is no reference at the end
of its bindings, whatever the order of the fields. -/
theorem aliases_exact {fuel : Nat} {graph : ManagedGraphReader} {abi : AbiConfiguration}
    {layout : ObjectCursor} {fields : List ManagedFieldLayout} {b : Bindings}
    {links : List LinkRecord} (habi : abi.supported = true)
    (hlayout : layoutObjects fuel graph abi = .ok layout)
    (hfields : initializeFields graph layout.fieldLayouts = .ok fields)
    (hbind : bindAll graph fields (endpointField layout.objectSlots layout.objectLayouts) = .ok b)
    (hlinks : graph.links = some links) :
    let field := endpointField layout.objectSlots layout.objectLayouts
    resolveReferences fields b.references ≠ .error .diverges ∧
      ((∃ resolved, resolveReferences fields b.references = .ok resolved) ↔
        (∀ i < fields.length, (fields.getD i {}).reference = true →
          ∃ s, Binds fields field links i s) ∧
        ∀ i < fields.length, ¬ TransGen (RefersTo fields field links) i i) ∧
      (∀ resolved, resolveReferences fields b.references = .ok resolved →
        resolved.length = fields.length ∧ ∀ i < fields.length, ∃ t, t < fields.length ∧
          resolved.getD i none = some t ∧ Reaches fields field links i t ∧
          ∀ u, Reaches fields field links i u → u = t) ∧
      ∀ order : List Nat, order.Perm (List.range fields.length) → ∀ resolved,
        resolveInOrder fields b.references order = .ok resolved ↔
          resolveReferences fields b.references = .ok resolved := by
  intro field
  have hplaced := layoutObjects_placed (AbiConfiguration.supported_pack habi) hlayout
  have hpacked := initializeFields_packed hplaced.packed hfields
  have hbound := (bindAll_spec hbind).1
  have hexact := bindAll_exact hlinks hbind
  have hrange : ∀ i j, Follows fields b.references i j → j < fields.length := by
    intro i j hij
    exact (hbound.references i j hij.2).lt hpacked (reference_lt hij.1)
  have hall : ∀ i, i ∈ List.range fields.length ↔ i < fields.length := fun i => List.mem_range
  have hout := resolveInOrder_outcome hrange hall
  have hiff := resolveInOrder_ok_iff hrange hall
  rw [← resolveReferences_eq] at hout hiff
  refine ⟨?_, ?_, ?_, ?_⟩
  · intro hdiverges
    rw [hdiverges] at hout
    exact hout.1 rfl
  · rw [hiff, hexact.unresolvable]
    constructor
    · intro hno
      refine ⟨fun i hi href => ?_, fun i hi hcycle => hno (.inr ⟨i, hi, hcycle⟩)⟩
      by_contra hnone
      exact hno (.inl ⟨i, hi, href, hnone⟩)
    · rintro ⟨hbinds, hacyclic⟩ (⟨i, hi, href, hnone⟩ | ⟨i, hi, hcycle⟩)
      · exact hnone (hbinds i hi href)
      · exact hacyclic i hi hcycle
  · intro resolved hresolved
    rw [hresolved] at hout
    refine ⟨hout.length, fun i hi => ?_⟩
    obtain ⟨t, ht, halias⟩ := hout.exact i hi
    have hlt := ((resolveReferences_ok hpacked hbound hresolved).1.target i t ht).1
    exact ⟨t, hlt, ht, hexact.reaches.mpr halias,
      fun u hu => (hexact.reaches.mp hu).unique halias⟩
  · intro order hperm resolved
    have horder : ∀ i, i ∈ order ↔ i < fields.length := fun i => by rw [hperm.mem_iff, hall]
    have hout' := resolveInOrder_outcome hrange horder
    have hiff' := resolveInOrder_ok_iff hrange horder
    constructor
    · intro h
      obtain ⟨other, hother⟩ := hiff.mpr (hiff'.mp ⟨resolved, h⟩)
      rw [h] at hout'
      rw [hother] at hout
      rw [hother, hout'.unique hout]
    · intro h
      obtain ⟨other, hother⟩ := hiff'.mpr (hiff.mp ⟨resolved, h⟩)
      rw [hother] at hout'
      rw [h] at hout
      rw [hother, hout'.unique hout]

theorem aliases_exact_chain : ∃ layout fields b resolved,
    layoutObjects 4 ManagedRuntime.chainedDevices {} = .ok layout ∧
      initializeFields ManagedRuntime.chainedDevices layout.fieldLayouts = .ok fields ∧
      bindAll ManagedRuntime.chainedDevices fields
        (endpointField layout.objectSlots layout.objectLayouts) = .ok b ∧
      resolveReferences fields b.references = .ok resolved ∧ resolved.length = fields.length := by
  have hok : (ManagedRuntime.construct 4 ManagedRuntime.chainedDevices {}).isOk = true := by
    decide +kernel
  cases hr : ManagedRuntime.construct 4 ManagedRuntime.chainedDevices {} with
  | error failure =>
    rw [hr] at hok
    cases hok
  | ok r =>
    rw [ManagedRuntime.construct, if_neg (by decide)] at hr
    obtain ⟨layout, hlayout, hr⟩ := bind_ok.mp hr
    obtain ⟨fields, hfields, hr⟩ := bind_ok.mp hr
    obtain ⟨b, hb, hr⟩ := bind_ok.mp hr
    obtain ⟨resolved, hresolved, -⟩ := bind_ok.mp hr
    refine ⟨layout, fields, b, resolved, hlayout, hfields, hb, hresolved, ?_⟩
    exact ((aliases_exact (by decide) hlayout hfields hb rfl).2.2.1 resolved hresolved).1

end ServerEngine

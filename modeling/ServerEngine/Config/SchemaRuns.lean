import ServerEngine.Config.SchemaFits

/-! # Runs of the schema handlers

What a handler does with the events of a value: either the value fits at the pending field, and the
handler goes on with the data that fitting gives, or the handler has stopped.
-/
namespace ServerEngine
set_option linter.unusedSectionVars false

namespace SchemaHandler

variable {C F D : Type} [DecidableEq C] [DecidableEq F] {T : HandlerTable C F D}
variable {scope : C → F → List C} {level : C → Nat} {h h' : SchemaHandler C F D} {c : C} {f : F}

/-! ## Stopped handlers -/

theorem fail_stopped (h : SchemaHandler C F D) (code : SchemaFailure) (member : Option F)
    (offset : Nat) : (h.fail T code member offset).stopped = true := by
  unfold fail stopped
  split
  · rename_i hsome
    rw [hsome, Bool.true_or]
  · rfl

theorem rejectScalar_stopped (h : SchemaHandler C F D) : (h.rejectScalar T).stopped = true := by
  unfold rejectScalar failHere
  split <;> exact fail_stopped _ _ _ _

theorem handle_stopped (hstop : h.stopped = true) (e : JsonEvent) :
    (h.handle T e).stopped = true := by
  cases e with
  | location offset => exact hstop
  | objectBegin => rw [handle, objectBegin, if_pos hstop, hstop]
  | objectEnd => rw [handle, objectEnd, if_pos hstop, hstop]
  | arrayBegin => rw [handle, arrayBegin, if_pos hstop, hstop]
  | arrayEnd => rw [handle, arrayEnd, if_pos hstop, hstop]
  | key value => rw [handle, key, if_pos hstop, hstop]
  | string value =>
    have hkept : (!h.stopped && T.keepsOffset (h.current T) h.pending) = false := by
      rw [hstop]
      rfl
    rw [handle, string, hkept, if_neg Bool.false_ne_true, scalar, if_pos hstop, hstop]
  | integer value => rw [handle, integer, scalar, if_pos hstop, hstop]
  | number bits => exact rejectScalar_stopped h
  | boolean value => rw [handle, boolean, scalar, if_pos hstop, hstop]
  | null => exact rejectScalar_stopped h

theorem run_stopped (es : List JsonEvent) (hstop : h.stopped = true) :
    (es.foldl (handle T) h).stopped = true := by
  induction es generalizing h with
  | nil => exact hstop
  | cons e es ih => exact ih (handle_stopped hstop e)

structure Ready (level : C → Nat) (c : C) (h : SchemaHandler C F D) : Prop where
  running : h.stopped = false
  top : ∃ stack, h.stack = c :: stack
  depth : h.stack.length = level c + 1

def Cleared (T : HandlerTable C F D) (scope : C → F → List C) (c : C) (f : F)
    (h : SchemaHandler C F D) : Prop :=
  ∀ x ∈ scope c f, T.isElement x = false → h.seen x = []

structure Passed (T : HandlerTable C F D) (scope : C → F → List C) (c : C) (f : F)
    (h : SchemaHandler C F D) (d : D) (h' : SchemaHandler C F D) : Prop where
  running : h'.stopped = false
  stack : h'.stack = h.stack
  pending : h'.pending = T.noField
  root : h'.rootObject = h.rootObject
  data : h'.data = d
  frame : ∀ x, x ∉ scope c f → h'.seen x = h.seen x

structure PassedMembers (T : HandlerTable C F D) (scope : C → F → List C) (c : C) (fields : List F)
    (h : SchemaHandler C F D) (d : D) (h' : SchemaHandler C F D) : Prop where
  running : h'.stopped = false
  stack : h'.stack = h.stack
  pending : h'.pending = T.noField
  root : h'.rootObject = h.rootObject
  data : h'.data = d
  seen : ∀ f, f ∈ h'.seen c ↔ f ∈ h.seen c ∨ f ∈ fields
  frame : ∀ x, x ≠ c → (∀ f, x ∉ scope c f) → h'.seen x = h.seen x

/-- One of the results that are asked for, or a handler that has stopped. -/
def Ends (P : D → Prop) (ok : D → SchemaHandler C F D → Prop) (h : SchemaHandler C F D) : Prop :=
  (∃ d, P d ∧ ok d h) ∨ (∀ d, ¬ P d) ∧ h.stopped = true

theorem Ready.current_eq (hready : Ready level c h) : h.current T = c := by
  obtain ⟨stack, hstack⟩ := hready.top
  rw [current, hstack]
  rfl

theorem Ready.not_empty (hready : Ready level c h) : h.stack.isEmpty = false := by
  obtain ⟨stack, hstack⟩ := hready.top
  rw [hstack]
  rfl

theorem Ready.located (hready : Ready level c h) (offset : Nat) :
    Ready level c (h.handle T (.location offset)) :=
  ⟨hready.running, hready.top, hready.depth⟩

variable {d : D}

theorem Passed.located (hp : Passed T scope c f h d h') (offset : Nat) :
    Passed T scope c f h d (h'.handle T (.location offset)) :=
  ⟨hp.running, hp.stack, hp.pending, hp.root, hp.data, hp.frame⟩

variable {offset : Nat}

theorem Passed.since (hp : Passed T scope c f (h.handle T (.location offset)) d h') :
    Passed T scope c f h d h' :=
  ⟨hp.running, hp.stack, hp.pending, hp.root, hp.data, hp.frame⟩

theorem scalar_ends (hready : Ready level c h) (reaction : D → Reaction F D) :
    Ends (fun d => reaction h.data = .accept d) (Passed T scope c f h) (h.scalar T reaction) := by
  unfold scalar
  rw [if_neg (by rw [hready.running]; simp), if_neg (by rw [hready.not_empty]; simp)]
  cases hr : reaction h.data with
  | accept d =>
    left
    have hrun : (h.react T (.accept d)).stopped = false := hready.running
    rw [settle, if_neg (by rw [hrun]; simp)]
    exact ⟨d, rfl, hready.running, rfl, rfl, rfl, rfl, fun _ _ => rfl⟩
  | reject code member atName =>
    right
    have hstop : (h.react T (.reject code member atName)).stopped = true := fail_stopped _ _ _ _
    rw [settle, if_pos hstop]
    exact ⟨fun _ heq => (nomatch heq), hstop⟩
  | throws =>
    right
    have hstop : (h.react T .throws).stopped = true := Bool.or_true _
    rw [settle, if_pos hstop]
    exact ⟨fun _ heq => (nomatch heq), hstop⟩

theorem Ends.imp {P Q : D → Prop} {ok ok' : D → SchemaHandler C F D → Prop}
    (hends : Ends P ok h) (hiff : ∀ d, P d ↔ Q d) (hok : ∀ d, ok d h → ok' d h) : Ends Q ok' h := by
  cases hends with
  | inl hends =>
    obtain ⟨d, hd, hstate⟩ := hends
    exact .inl ⟨d, (hiff d).mp hd, hok d hstate⟩
  | inr hends => exact .inr ⟨fun d hd => hends.1 d ((hiff d).mpr hd), hends.2⟩

theorem string_ends (hready : Ready level c h) (value : Bytes) :
    Ends (Fits T c h.pending (.value (.string value)) h.data) (Passed T scope c h.pending h)
      (h.handle T (.string value)) := by
  have hiff : ∀ d, T.string c h.pending value h.data = .accept d ↔
      Fits T c h.pending (.value (.string value)) h.data d := by
    intro d
    constructor
    · intro heq
      exact .string heq
    · intro hfits
      cases hfits with
      | string heq => exact heq
  rw [handle, string, hready.current_eq]
  split
  · -- the offset kept for an error is not part of what is compared
    have hready' : Ready level c { h with elementOffset := h.currentOffset } :=
      ⟨hready.running, hready.top, hready.depth⟩
    have hends : Ends _ (Passed T scope c h.pending _) _ :=
      scalar_ends hready' (T.string c h.pending value)
    exact hends.imp hiff fun d hp => ⟨hp.running, hp.stack, hp.pending, hp.root, hp.data, hp.frame⟩
  · exact (scalar_ends hready _).imp hiff fun d hp => hp

theorem integer_ends (hready : Ready level c h) (value : Int) :
    Ends (Fits T c h.pending (.value (.integer value)) h.data) (Passed T scope c h.pending h)
      (h.handle T (.integer value)) := by
  rw [handle, integer, hready.current_eq]
  refine (scalar_ends hready _).imp (fun d => ⟨.integer, fun hfits => ?_⟩) fun d hp => hp
  cases hfits with
  | integer heq => exact heq

theorem boolean_ends (hready : Ready level c h) (value : Bool) :
    Ends (Fits T c h.pending (.value (.boolean value)) h.data) (Passed T scope c h.pending h)
      (h.handle T (.boolean value)) := by
  rw [handle, boolean, hready.current_eq]
  refine (scalar_ends hready _).imp (fun d => ⟨.boolean, fun hfits => ?_⟩) fun d hp => hp
  cases hfits with
  | boolean heq => exact heq

/-! ## Brackets -/

/-- A bracket has been opened, and this context entered with this data. -/
structure Entered (T : HandlerTable C F D) (next : C) (d : D) (h h' : SchemaHandler C F D) :
    Prop where
  running : h'.stopped = false
  stack : h'.stack = next :: h.stack
  pending : h'.pending = T.noField
  root : h'.rootObject = h.rootObject
  data : h'.data = d
  frame : ∀ x, x ≠ next → h'.seen x = h.seen x

variable {next : C}

theorem Entered.ready (he : Entered T next d h h') (hready : Ready level c h)
    (hlevel : level next = level c + 1) : Ready level next h' where
  running := he.running
  top := ⟨h.stack, he.stack⟩
  depth := by rw [he.stack, List.length_cons, hready.depth, hlevel]

theorem push_eq (hready : Ready level c h) (hT : T.Lawful scope level)
    (hlevel : level next = level c + 1) :
    ({ h with pending := T.noField } : SchemaHandler C F D).push T next =
      { h with pending := T.noField, stack := next :: h.stack } := by
  have hbound := hT.bounded next
  have hdepth := hready.depth
  unfold push
  rw [if_neg (by dsimp only; omega)]

theorem arrayBegin_cases (hready : Ready level c h) (hT : T.Lawful scope level) :
    T.arrayContext c h.pending = T.invalid ∧ (h.handle T .arrayBegin).stopped = true ∨
      T.arrayContext c h.pending ≠ T.invalid ∧
        Entered T (T.arrayContext c h.pending) h.data h (h.handle T .arrayBegin) ∧
        (h.handle T .arrayBegin).seen = h.seen := by
  have hbegin : h.handle T .arrayBegin =
      if T.arrayContext c h.pending = T.invalid then h.failHere T .wrongFieldType
      else { h with pending := T.noField }.push T (T.arrayContext c h.pending) := by
    unfold handle arrayBegin
    rw [if_neg (by rw [hready.running]; simp), if_neg (by rw [hready.not_empty]; simp),
      hready.current_eq]
  rw [hbegin]
  by_cases hnext : T.arrayContext c h.pending = T.invalid
  · rw [if_pos hnext]
    exact .inl ⟨hnext, fail_stopped _ _ _ _⟩
  · rw [if_neg hnext, push_eq hready hT (hT.array c h.pending hnext).2.1]
    exact .inr ⟨hnext, ⟨hready.running, rfl, rfl, rfl, rfl, fun _ _ => rfl⟩, rfl⟩

theorem objectBegin_cases (hready : Ready level c h) (hT : T.Lawful scope level) :
    T.objectContext c h.pending = T.invalid ∧ (h.handle T .objectBegin).stopped = true ∨
      T.objectContext c h.pending ≠ T.invalid ∧
        Entered T (T.objectContext c h.pending)
          (if T.isElement (T.objectContext c h.pending) then T.reset h.data else h.data) h
          (h.handle T .objectBegin) ∧
        (h.handle T .objectBegin).seen (T.objectContext c h.pending) =
          if T.isElement (T.objectContext c h.pending) then []
          else h.seen (T.objectContext c h.pending) := by
  generalize hn : T.objectContext c h.pending = next
  have hbegin : h.handle T .objectBegin =
      if next = T.invalid then h.failHere T .wrongFieldType
      else
        let h := { h with pending := T.noField }.push T next
        if T.isElement next then
          { h with
            data := T.reset h.data
            seen := Function.update h.seen next []
            elementOffset := h.currentOffset }
        else h := by
    unfold handle objectBegin
    rw [if_neg (by rw [hready.running]; simp), if_neg (by rw [hready.not_empty]; simp),
      hready.current_eq, hn]
  rw [hbegin]
  by_cases hnext : next = T.invalid
  · rw [if_pos hnext]
    exact .inl ⟨hnext, fail_stopped _ _ _ _⟩
  · have hlevel := (hT.object c h.pending (by rw [hn]; exact hnext)).2.2.1
    rw [hn] at hlevel
    rw [if_neg hnext, push_eq hready hT hlevel]
    right
    refine ⟨hnext, ?_⟩
    cases T.isElement next with
    | true =>
      refine ⟨⟨hready.running, rfl, rfl, rfl, rfl, ?_⟩, Function.update_self _ _ _⟩
      intro x hx
      exact Function.update_of_ne hx _ _
    | false => exact ⟨⟨hready.running, rfl, rfl, rfl, rfl, fun _ _ => rfl⟩, rfl⟩

variable {d' : D} {h₁ h₂ : SchemaHandler C F D}

theorem Entered.popped (he : Entered T next d h h₁) (hrun : h₂.stopped = false)
    (hstack : h₂.stack = h₁.stack) (hpending : h₂.pending = T.noField)
    (hroot : h₂.rootObject = h₁.rootObject) (hdata : h₂.data = d')
    (hframe : ∀ x, x ∉ scope c f → h₂.seen x = h.seen x) : Passed T scope c f h d' h₂.pop where
  running := hrun
  stack := by
    have htail : h₂.pop.stack = h₂.stack.tail := rfl
    rw [htail, hstack, he.stack]
    rfl
  pending := hpending
  root := hroot.trans he.root
  data := hdata
  frame := hframe

theorem arrayEnd_eq (hready : Ready level c h) (harray : T.isArray c = true) :
    h.handle T .arrayEnd = h.pop := by
  rw [handle, arrayEnd, if_neg (by rw [hready.running]; simp), hready.not_empty,
    hready.current_eq, harray]
  rfl

/-! ## Arrays -/

def ValueRun (T : HandlerTable C F D) (scope : C → F → List C) (level : C → Nat)
    (es : List JsonEvent) (v : JsonValue) : Prop :=
  ∀ (c : C) (h : SchemaHandler C F D), Ready level c h → Cleared T scope c h.pending h →
    Ends (Fits T c h.pending (.value v) h.data) (Passed T scope c h.pending h)
      (es.foldl (handle T) h)

def ElementsRun (T : HandlerTable C F D) (scope : C → F → List C) (level : C → Nat)
    (es : List JsonEvent) (vs : List JsonValue) : Prop :=
  ∀ (c : C) (h : SchemaHandler C F D), Ready level c h → h.pending = T.noField →
    (∀ x ∈ scope c T.noField, T.isElement x = true) →
    Ends (Fits T c T.noField (.elements vs) h.data) (Passed T scope c T.noField h)
      (es.foldl (handle T) h)

theorem Ready.passed (hready : Ready level c h) (hpending : h.pending = T.noField) :
    Passed T scope c f h h.data h :=
  ⟨hready.running, rfl, hpending, rfl, rfl, fun _ _ => rfl⟩

theorem Passed.ready (hp : Passed T scope c f h d h') (hready : Ready level c h) :
    Ready level c h' where
  running := hp.running
  top := by rw [hp.stack]; exact hready.top
  depth := by rw [hp.stack]; exact hready.depth

theorem Passed.trans (hp : Passed T scope c f h d h₁) (hnext : Passed T scope c f h₁ d' h₂) :
    Passed T scope c f h d' h₂ where
  running := hnext.running
  stack := hnext.stack.trans hp.stack
  pending := hnext.pending
  root := hnext.root.trans hp.root
  data := hnext.data
  frame x hx := (hnext.frame x hx).trans (hp.frame x hx)

variable {es fs : List JsonEvent} {v : JsonValue} {vs : List JsonValue}

theorem elements_run (ihv : ValueRun T scope level es v) (ihvs : ElementsRun T scope level fs vs) :
    ElementsRun T scope level (es ++ fs) (v :: vs) := by
  intro c h hready hpending hscope
  rw [List.foldl_append]
  have hcleared : Cleared T scope c h.pending h := by
    intro x hx helement
    rw [hpending] at hx
    rw [hscope x hx] at helement
    cases helement
  have hfirst := ihv c h hready hcleared
  rw [hpending] at hfirst
  cases hfirst with
  | inr hfirst =>
    right
    refine ⟨fun d hfits => ?_, run_stopped _ hfirst.2⟩
    cases hfits with
    | element hv _ => exact hfirst.1 _ hv
  | inl hfirst =>
    obtain ⟨d₁, hv, hpassed⟩ := hfirst
    have hsecond := ihvs c _ (hpassed.ready hready) hpassed.pending hscope
    rw [hpassed.data] at hsecond
    cases hsecond with
    | inr hsecond =>
      right
      refine ⟨fun d hfits => ?_, hsecond.2⟩
      cases hfits with
      | element hv' hvs =>
        rw [← fits_unique hv hv'] at hvs
        exact hsecond.1 d hvs
    | inl hsecond =>
      obtain ⟨d, hvs, hpassed'⟩ := hsecond
      exact .inl ⟨d, .element hv hvs, hpassed.trans hpassed'⟩

variable {ending : Nat}

theorem array_run (hT : T.Lawful scope level) (ih : ElementsRun T scope level es vs) :
    ValueRun T scope level
      (.location offset :: .arrayBegin :: (es ++ [.location ending, .arrayEnd])) (.array vs) := by
  intro c h hready _
  rw [List.foldl_cons, List.foldl_cons, List.foldl_append]
  cases arrayBegin_cases (hready.located (T := T) offset) hT with
  | inl hbegin =>
    obtain ⟨hnext, hstop⟩ := hbegin
    right
    refine ⟨fun d hfits => ?_, run_stopped _ (run_stopped _ hstop)⟩
    cases hfits with
    | array hc _ => exact hc hnext
  | inr hbegin =>
    obtain ⟨hnext, hentered, hseen⟩ := hbegin
    obtain ⟨harray, hlevel, hscope⟩ := hT.array c h.pending hnext
    have hinner := hentered.ready (hready.located offset) hlevel
    have hends := ih _ _ hinner hentered.pending fun x hx => (hscope _ x hx).2
    rw [hentered.data] at hends
    cases hends with
    | inr hends =>
      right
      refine ⟨fun d hfits => ?_, run_stopped _ hends.2⟩
      cases hfits with
      | array _ hvs => exact hends.1 d hvs
    | inl hends =>
      obtain ⟨d, hfits, hpassed⟩ := hends
      have hdone := hpassed.located ending
      left
      refine ⟨d, .array hnext hfits, ?_⟩
      rw [List.foldl_cons, List.foldl_cons, List.foldl_nil,
        arrayEnd_eq (hdone.ready hinner) harray]
      apply Passed.since
      apply hentered.popped hdone.running hdone.stack hdone.pending hdone.root hdone.data
      intro x hx
      rw [hdone.frame x fun hmem => hx (hscope _ x hmem).1, hseen]

/-! ## Objects -/

def MembersRun (T : HandlerTable C F D) (scope : C → F → List C) (level : C → Nat)
    (es : List JsonEvent) (ms : List (Bytes × JsonValue)) : Prop :=
  ∀ (c : C) (h : SchemaHandler C F D), Ready level c h → h.pending = T.noField →
    T.isArray c = false → (∀ f, f ∉ h.seen c → Cleared T scope c f h) →
    Ends (fun d => Fits T c T.noField (.members ms) h.data d ∧
        (ms.map fun m => T.identify c m.1).Nodup ∧
        T.unknown ∉ (ms.map fun m => T.identify c m.1) ∧
        ∀ f ∈ ms.map fun m => T.identify c m.1, f ∉ h.seen c)
      (PassedMembers T scope c (ms.map fun m => T.identify c m.1) h) (es.foldl (handle T) h)

theorem key_cases (hready : Ready level c h) (value : Bytes) :
    (T.identify c value = T.unknown ∨ T.identify c value ∈ h.seen c) ∧
        (h.handle T (.key value)).stopped = true ∨
      T.identify c value ≠ T.unknown ∧ T.identify c value ∉ h.seen c ∧
        h.handle T (.key value) = { h with
          pending := T.identify c value
          seen := Function.update h.seen c (T.identify c value :: h.seen c) } := by
  have hkey : h.handle T (.key value) =
      let h := { h with pending := T.identify c value }
      if h.pending = T.unknown then h.failHere T .unknownProperty
      else if h.pending ∈ h.seen c then h.failHere T .duplicateProperty
      else { h with seen := Function.update h.seen c (h.pending :: h.seen c) } := by
    have hrun : ¬ h.stopped = true := by rw [hready.running]; simp
    have htop : ¬ h.stack.isEmpty = true := by rw [hready.not_empty]; simp
    rw [handle, key, if_neg hrun, if_neg htop, hready.current_eq]
  rw [hkey]
  by_cases hunknown : T.identify c value = T.unknown
  · rw [if_pos hunknown]
    exact .inl ⟨.inl hunknown, fail_stopped _ _ _ _⟩
  · rw [if_neg hunknown]
    by_cases hdup : T.identify c value ∈ h.seen c
    · rw [if_pos hdup]
      exact .inl ⟨.inr hdup, fail_stopped _ _ _ _⟩
    · rw [if_neg hdup]
      exact .inr ⟨hunknown, hdup, rfl⟩

variable {ms : List (Bytes × JsonValue)}

theorem members_run (hT : T.Lawful scope level) {name : Bytes} (ihv : ValueRun T scope level es v)
    (ihms : MembersRun T scope level fs ms) :
    MembersRun T scope level (.location offset :: .key name :: (es ++ fs)) ((name, v) :: ms) := by
  intro c h hready hpending harray hcleared
  rw [List.foldl_cons, List.foldl_cons, List.foldl_append, List.map_cons]
  cases key_cases (T := T) (hready.located offset) name with
  | inl hkey =>
    obtain ⟨hbad, hstop⟩ := hkey
    right
    refine ⟨fun d hgood => ?_, run_stopped _ (run_stopped _ hstop)⟩
    obtain ⟨-, -, hunknown, hfresh⟩ := hgood
    cases hbad with
    | inl heq => exact hunknown (by rw [← heq]; exact List.mem_cons_self)
    | inr hmem => exact hfresh _ List.mem_cons_self hmem
  | inr hkey =>
    obtain ⟨hknown, hfresh, hkeyed⟩ := hkey
    generalize hf : T.identify c name = f at hknown hfresh hkeyed
    generalize hh₁ : (h.handle T (.location offset)).handle T (.key name) = h₁ at hkeyed
    have hready₁ : Ready level c h₁ := by
      rw [hkeyed]
      exact ⟨hready.running, hready.top, hready.depth⟩
    have hdata₁ : h₁.data = h.data := by rw [hkeyed]; rfl
    have hpending₁ : h₁.pending = f := by rw [hkeyed]
    have hstack₁ : h₁.stack = h.stack := by rw [hkeyed]; rfl
    have hroot₁ : h₁.rootObject = h.rootObject := by rw [hkeyed]; rfl
    have hseen₁ : h₁.seen c = f :: h.seen c := by
      rw [hkeyed]
      exact Function.update_self _ _ _
    have hother₁ : ∀ x, x ≠ c → h₁.seen x = h.seen x := by
      intro x hx
      rw [hkeyed]
      exact Function.update_of_ne hx _ _
    have hne : ∀ {x g}, x ∈ scope c g → x ≠ c := by
      intro x g hx heq
      rw [heq] at hx
      exact hT.outside c g hx
    have hclear₁ : Cleared T scope c h₁.pending h₁ := by
      intro x hx helement
      rw [hpending₁] at hx
      rw [hother₁ x (hne hx)]
      exact hcleared f hfresh x hx helement
    have hfirst := ihv c h₁ hready₁ hclear₁
    rw [hpending₁, hdata₁] at hfirst
    cases hfirst with
    | inr hfirst =>
      right
      refine ⟨fun d hgood => ?_, run_stopped _ hfirst.2⟩
      cases hgood.1 with
      | member hv _ =>
        rw [hf] at hv
        exact hfirst.1 _ hv
    | inl hfirst =>
      obtain ⟨d₁, hv, hpassed⟩ := hfirst
      generalize hh₂ : es.foldl (handle T) h₁ = h₂ at hpassed
      have hseen₂ : h₂.seen c = f :: h.seen c := by
        rw [hpassed.frame c (hT.outside c f), hseen₁]
      have hclear₂ : ∀ g, g ∉ h₂.seen c → Cleared T scope c g h₂ := by
        intro g hg x hx helement
        rw [hseen₂, List.mem_cons, not_or] at hg
        rw [hpassed.frame x fun hmem => hT.apart c g f harray hg.1 x hx hmem, hother₁ x (hne hx)]
        exact hcleared g hg.2 x hx helement
      have hsecond := ihms c h₂ (hpassed.ready hready₁) hpassed.pending harray hclear₂
      rw [hpassed.data, hseen₂] at hsecond
      cases hsecond with
      | inr hsecond =>
        right
        refine ⟨fun d hgood => ?_, hsecond.2⟩
        obtain ⟨hfits, hnodup, hunknown, hnew⟩ := hgood
        obtain ⟨hnot, hnodup⟩ := List.nodup_cons.mp hnodup
        cases hfits with
        | member hv' hms =>
          rw [hf] at hv'
          rw [← fits_unique hv hv'] at hms
          refine hsecond.1 d ⟨hms, hnodup, fun hmem => hunknown (List.mem_cons_of_mem _ hmem), ?_⟩
          intro g hg hmem
          cases List.mem_cons.mp hmem with
          | inl heq => exact hnot (heq ▸ hg)
          | inr hmem => exact hnew g (List.mem_cons_of_mem _ hg) hmem
      | inl hsecond =>
        obtain ⟨d, ⟨hms, hnodup, hunknown, hnew⟩, hpassed'⟩ := hsecond
        left
        refine ⟨d, ⟨.member (by rw [hf]; exact hv) hms, ?_, ?_, ?_⟩, ?_⟩
        · exact List.nodup_cons.mpr ⟨fun hmem => hnew f hmem List.mem_cons_self, hnodup⟩
        · intro hmem
          cases List.mem_cons.mp hmem with
          | inl heq => exact hknown heq.symm
          | inr hmem => exact hunknown hmem
        · intro g hg hmem
          cases List.mem_cons.mp hg with
          | inl heq => exact hfresh (heq ▸ hmem)
          | inr hg => exact hnew g hg (List.mem_cons_of_mem _ hmem)
        · refine ⟨hpassed'.running, ?_, hpassed'.pending, ?_, hpassed'.data, ?_, ?_⟩
          · exact hpassed'.stack.trans (hpassed.stack.trans hstack₁)
          · exact hpassed'.root.trans (hpassed.root.trans hroot₁)
          · intro g
            rw [hpassed'.seen g, hseen₂, List.mem_cons, List.mem_cons]
            exact ⟨fun hg => by rcases hg with (hg | hg) | hg <;> simp [hg],
              fun hg => by rcases hg with hg | hg | hg <;> simp [hg]⟩
          · intro x hx hout
            rw [hpassed'.frame x hx hout, hpassed.frame x (hout f), hother₁ x hx]

theorem validateRequired_cases (h : SchemaHandler C F D) (c : C) :
    (∀ f ∈ T.required c, f ∈ h.seen c) ∧ h.validateRequired T c = h ∨
      (∃ f ∈ T.required c, f ∉ h.seen c) ∧ (h.validateRequired T c).stopped = true := by
  have hstopped : ∀ (fields : List F) (h : SchemaHandler C F D), h.stopped = true →
      (fields.foldl (fun h member => h.require T (h.seen c) member) h).stopped = true := by
    intro fields
    induction fields with
    | nil => exact fun h hstop => hstop
    | cons f fields ih =>
      intro h hstop
      have hstep : (h.require T (h.seen c) f).stopped = true := by
        unfold require
        split
        · exact hstop
        · exact fail_stopped _ _ _ _
      exact ih _ hstep
  unfold validateRequired
  generalize T.required c = fields
  induction fields with
  | nil => exact .inl ⟨fun f hf => absurd hf List.not_mem_nil, rfl⟩
  | cons f fields ih =>
    rw [List.foldl_cons]
    by_cases hf : f ∈ h.seen c
    · have hkept : h.require T (h.seen c) f = h := if_pos hf
      rw [hkept]
      cases ih with
      | inl ih =>
        refine .inl ⟨fun g hg => ?_, ih.2⟩
        cases List.mem_cons.mp hg with
        | inl heq => rw [heq]; exact hf
        | inr hg => exact ih.1 g hg
      | inr ih =>
        obtain ⟨⟨g, hg, hmissing⟩, hstop⟩ := ih
        exact .inr ⟨⟨g, List.mem_cons_of_mem f hg, hmissing⟩, hstop⟩
    · refine .inr ⟨⟨f, List.mem_cons_self, hf⟩, hstopped fields _ ?_⟩
      unfold require
      rw [if_neg hf]
      exact fail_stopped _ _ _ _

theorem objectEnd_cases (hready : Ready level c h) :
    (∃ f ∈ T.required c, f ∉ h.seen c) ∧ (h.handle T .objectEnd).stopped = true ∨
      (∀ f ∈ T.required c, f ∈ h.seen c) ∧
        ((∀ d, T.finish c h.data ≠ .accept d) ∧ (h.handle T .objectEnd).stopped = true ∨
          ∃ d, T.finish c h.data = .accept d ∧
            h.handle T .objectEnd = ({ h with data := d } : SchemaHandler C F D).pop) := by
  have hrun : ¬ h.stopped = true := by rw [hready.running]; simp
  have htop : ¬ h.stack.isEmpty = true := by rw [hready.not_empty]; simp
  have hend : h.handle T .objectEnd =
      let h := h.validateRequired T c
      if h.stopped then h
      else
        let h := h.react T (T.finish c h.data)
        if h.stopped then h else h.pop := by
    rw [handle, objectEnd, if_neg hrun, if_neg htop, hready.current_eq]
  rw [hend]
  cases validateRequired_cases (T := T) h c with
  | inr hmissing =>
    rw [if_pos hmissing.2]
    exact .inl hmissing
  | inl hcomplete =>
    obtain ⟨hseen, heq⟩ := hcomplete
    rw [heq, if_neg hrun]
    right
    refine ⟨hseen, ?_⟩
    cases hfinish : T.finish c h.data with
    | accept d =>
      right
      have hgo : ¬ (h.react T (.accept d)).stopped = true := hrun
      rw [if_neg hgo]
      exact ⟨d, rfl, rfl⟩
    | reject code member atName =>
      left
      have hstop : (h.react T (.reject code member atName)).stopped = true := fail_stopped _ _ _ _
      rw [if_pos hstop]
      exact ⟨fun d heq => (nomatch heq), hstop⟩
    | throws =>
      left
      have hstop : (h.react T .throws).stopped = true := Bool.or_true _
      rw [if_pos hstop]
      exact ⟨fun d heq => (nomatch heq), hstop⟩

variable {fields : List F}

theorem PassedMembers.located (hp : PassedMembers T scope c fields h d h') (offset : Nat) :
    PassedMembers T scope c fields h d (h'.handle T (.location offset)) :=
  ⟨hp.running, hp.stack, hp.pending, hp.root, hp.data, hp.seen, hp.frame⟩

theorem PassedMembers.ready (hp : PassedMembers T scope c fields h d h')
    (hready : Ready level c h) : Ready level c h' where
  running := hp.running
  top := by rw [hp.stack]; exact hready.top
  depth := by rw [hp.stack]; exact hready.depth

/-- The members of an object and its end, from its context with nothing seen there on. -/
theorem filled_ends (ending : Nat) (ih : MembersRun T scope level es ms)
    (hready : Ready level c h) (hpending : h.pending = T.noField) (harray : T.isArray c = false)
    (hfresh : h.seen c = []) (hcleared : ∀ f, Cleared T scope c f h) :
    Ends (fun d => ExactKeys T c ms ∧ ∃ d₁, Fits T c T.noField (.members ms) h.data d₁ ∧
        T.finish c d₁ = .accept d)
      (fun d h' => h'.stopped = false ∧ h'.stack = h.stack.tail ∧ h'.pending = T.noField ∧
        h'.rootObject = h.rootObject ∧ h'.data = d ∧
        ∀ x, x ≠ c → (∀ f, x ∉ scope c f) → h'.seen x = h.seen x)
      ((es ++ [JsonEvent.location ending, JsonEvent.objectEnd]).foldl (handle T) h) := by
  rw [List.foldl_append]
  cases ih c h hready hpending harray fun f _ => hcleared f with
  | inr hends =>
    right
    refine ⟨fun d hgood => ?_, run_stopped _ hends.2⟩
    obtain ⟨hkeys, d₁, hfits, -⟩ := hgood
    refine hends.1 d₁ ⟨hfits, hkeys.nodup, hkeys.known, fun f _ => ?_⟩
    rw [hfresh]
    exact List.not_mem_nil
  | inl hends =>
    obtain ⟨d₁, ⟨hfits, hnodup, hknown, -⟩, hpassed⟩ := hends
    have hdone := hpassed.located (T := T) ending
    have hseen : ∀ f, f ∈ (handle T (es.foldl (handle T) h) (.location ending)).seen c ↔
        f ∈ ms.map fun m => T.identify c m.1 := by
      intro f
      rw [hdone.seen f, hfresh]
      simp
    rw [List.foldl_cons, List.foldl_cons, List.foldl_nil]
    cases objectEnd_cases (T := T) (hdone.ready hready) with
    | inl hmissing =>
      right
      obtain ⟨⟨f, hf, hnot⟩, hstop⟩ := hmissing
      refine ⟨fun d hgood => hnot ?_, hstop⟩
      exact (hseen f).mpr (hgood.1.complete f hf)
    | inr hcomplete =>
      obtain ⟨hall, hfinish⟩ := hcomplete
      rw [hdone.data] at hfinish
      cases hfinish with
      | inl hrefused =>
        right
        refine ⟨fun d hgood => ?_, hrefused.2⟩
        obtain ⟨-, d₁', hfits', hd⟩ := hgood
        rw [← fits_unique hfits hfits'] at hd
        exact hrefused.1 d hd
      | inr hfinish =>
        obtain ⟨d, hd, hend⟩ := hfinish
        left
        rw [hend]
        refine ⟨d, ⟨⟨hnodup, hknown, fun f hf => (hseen f).mp (hall f hf)⟩, d₁, hfits, hd⟩,
          hdone.running, ?_, hdone.pending, hdone.root, rfl, hdone.frame⟩
        exact congrArg List.tail hdone.stack

theorem object_run (hT : T.Lawful scope level) (ih : MembersRun T scope level es ms) :
    ValueRun T scope level
      (.location offset :: .objectBegin :: (es ++ [.location ending, .objectEnd])) (.object ms) := by
  intro c h hready hcleared
  rw [List.foldl_cons, List.foldl_cons]
  cases objectBegin_cases (hready.located (T := T) offset) hT with
  | inl hbegin =>
    obtain ⟨hnext, hstop⟩ := hbegin
    right
    refine ⟨fun d hfits => ?_, run_stopped _ hstop⟩
    cases hfits with
    | object hc _ _ _ => exact hc hnext
  | inr hbegin =>
    obtain ⟨hnext, hentered, hseen⟩ := hbegin
    obtain ⟨hmem, harray, hlevel, hscope⟩ := hT.object c h.pending hnext
    have hinner := hentered.ready (hready.located offset) hlevel
    have hfresh : (handle T (handle T h (.location offset)) .objectBegin).seen
        (T.objectContext c h.pending) = [] := by
      cases helement : T.isElement (T.objectContext c h.pending) with
      | true => exact hseen.trans (if_pos helement)
      | false =>
        have hnot : ¬ T.isElement (T.objectContext c h.pending) = true := by rw [helement]; simp
        exact hseen.trans ((if_neg hnot).trans (hcleared _ hmem helement))
    have hclear : ∀ f, Cleared T scope (T.objectContext c h.pending) f
        (handle T (handle T h (.location offset)) .objectBegin) := by
      intro f x hx helement
      rw [hentered.frame x fun heq => hT.outside _ f (heq ▸ hx)]
      exact hcleared x (hscope f x hx) helement
    have hends := filled_ends ending ih hinner hentered.pending harray hfresh hclear
    rw [hentered.data] at hends
    refine hends.imp (fun d => ⟨?_, ?_⟩) fun d hdone => ?_
    · intro hgood
      obtain ⟨hkeys, d₁, hfits, hfinish⟩ := hgood
      exact .object hnext hkeys hfits hfinish
    · intro hfits
      cases hfits with
      | object _ hkeys hms hfinish => exact ⟨hkeys, _, hms, hfinish⟩
    · obtain ⟨hrun, hstack, hpending, hroot, hdata, hframe⟩ := hdone
      rw [hentered.stack] at hstack
      refine ⟨hrun, hstack, hpending, hroot.trans hentered.root, hdata, fun x hx => ?_⟩
      have hne : x ≠ T.objectContext c h.pending := fun heq => hx (heq ▸ hmem)
      rw [hframe x hne fun f hf => hx (hscope f x hf), hentered.frame x hne]
      rfl

/-! ## Whole values -/

def PhraseRun (T : HandlerTable C F D) (scope : C → F → List C) (level : C → Nat)
    (es : List JsonEvent) : JsonPhrase → Prop
  | .value v => ValueRun T scope level es v
  | .elements vs => ElementsRun T scope level es vs
  | .members ms => MembersRun T scope level es ms

theorem scalar_run {e : JsonEvent} (he : ScalarEvent e v) :
    ValueRun T scope level [.location offset, e] v := by
  intro c h hready _
  have hlocated := hready.located (T := T) offset
  cases he with
  | null => exact .inr ⟨fun d hfits => (nomatch hfits), rejectScalar_stopped _⟩
  | boolean value => exact (boolean_ends hlocated value).imp (fun d => Iff.rfl) fun d hp => hp.since
  | integer value => exact (integer_ends hlocated value).imp (fun d => Iff.rfl) fun d hp => hp.since
  | number bits => exact .inr ⟨fun d hfits => (nomatch hfits), rejectScalar_stopped _⟩
  | string value => exact (string_ends hlocated value).imp (fun d => Iff.rfl) fun d hp => hp.since

theorem phrase_run (hT : T.Lawful scope level) {phrase : JsonPhrase} (hs : Streams es phrase) :
    PhraseRun T scope level es phrase := by
  induction hs with
  | scalar he => exact scalar_run he
  | array _ ih => exact array_run hT ih
  | object _ ih => exact object_run hT ih
  | noElements =>
    intro c h hready hpending _
    exact .inl ⟨h.data, .noElements, hready.passed hpending⟩
  | element _ _ ihv ihvs => exact elements_run ihv ihvs
  | noMembers =>
    intro c h hready hpending _ _
    refine .inl ⟨h.data, ⟨.noMembers, List.nodup_nil, List.not_mem_nil, ?_⟩, ?_⟩
    · exact fun f hf => absurd hf List.not_mem_nil
    · exact ⟨hready.running, rfl, hpending, rfl, rfl, fun f => by simp, fun _ _ _ => rfl⟩
  | member _ _ ihv ihms => exact members_run hT ihv ihms

theorem stopped_invalid (hstop : h.stopped = true) : h.valid = false := by
  unfold valid
  cases Bool.or_eq_true_iff.mp hstop with
  | inl hfailure => simp [Option.isSome_iff_ne_none.mp hfailure]
  | inr hinternal => simp [hinternal]

end SchemaHandler

/-- A handler that has run over the events of a value is valid, with the data of the value, if the
value fits; otherwise it has stopped. -/
theorem runHandler_ends {C F D : Type} [DecidableEq C] [DecidableEq F] {T : HandlerTable C F D}
    {scope : C → F → List C} {level : C → Nat} (hT : T.Lawful scope level) {es : List JsonEvent}
    {v : JsonValue} (hs : Streams es (.value v)) (data : D) :
    (∃ d, FitsRoot T v data d ∧ (runHandler T data es).valid = true ∧
      (runHandler T data es).stopped = false ∧ (runHandler T data es).data = d) ∨
    (∀ d, ¬ FitsRoot T v data d) ∧ (runHandler T data es).stopped = true := by
  have hrootless : ∀ h : SchemaHandler C F D, h.stack = [] → ∀ reaction : D → Reaction F D,
      (h.scalar T reaction).stopped = true := by
    intro h hstack reaction
    unfold SchemaHandler.scalar
    split
    · assumption
    · rw [if_pos (by rw [hstack]; rfl)]
      exact SchemaHandler.fail_stopped _ _ _ _
  unfold runHandler
  cases hs with
  | scalar he =>
    right
    refine ⟨fun d hfits => ?_, ?_⟩
    · cases hfits
      cases he
    rw [List.foldl_cons, List.foldl_cons, List.foldl_nil]
    cases he with
    | null => exact SchemaHandler.rejectScalar_stopped _
    | boolean value => exact hrootless _ rfl _
    | integer value => exact hrootless _ rfl _
    | number bits => exact SchemaHandler.rejectScalar_stopped _
    | string value =>
      unfold SchemaHandler.handle SchemaHandler.string
      dsimp only
      split
      · exact hrootless _ rfl _
      · exact hrootless _ rfl _
  | array _ =>
    right
    refine ⟨fun d hfits => (nomatch hfits), ?_⟩
    rw [List.foldl_cons, List.foldl_cons]
    exact SchemaHandler.run_stopped _ rfl
  | object hms =>
    rename_i offset ending es ms
    obtain ⟨hlevel, harray, helement⟩ := hT.root
    have hready : SchemaHandler.Ready level T.root
        (SchemaHandler.handle T (SchemaHandler.handle T { data, pending := T.noField }
          (.location offset)) .objectBegin) :=
      ⟨rfl, ⟨[], rfl⟩, by rw [hlevel]; rfl⟩
    have hends := SchemaHandler.filled_ends ending
      (SchemaHandler.phrase_run hT hms) hready rfl harray rfl (fun f x _ _ => rfl)
    rw [List.foldl_cons, List.foldl_cons]
    cases hends with
    | inl hends =>
      obtain ⟨d, ⟨hkeys, d₁, hfits, hfinish⟩, hrun, hstack, -, hroot, hdata, -⟩ := hends
      left
      refine ⟨d, .object hkeys hfits hfinish, ?_, hrun, hdata⟩
      have hstop := Bool.or_eq_false_iff.mp hrun
      unfold SchemaHandler.valid
      rw [hroot, hstack, hstop.2, Option.isSome_eq_false_iff.mp hstop.1]
      rfl
    | inr hends =>
      right
      refine ⟨fun d hroot => ?_, hends.2⟩
      cases hroot with
      | object hkeys hfits hfinish => exact hends.1 d ⟨hkeys, _, hfits, hfinish⟩

end ServerEngine

import ServerEngine.Identities.Steps

/-! # One identity for a declaration

In every interleaving the successful calls for one parent and name return one reference, which keeps
its parent and name. The size runs behind by the calls that have linked a record and not counted it.
-/
namespace ServerEngine
open Interleaving

namespace IdentitySpace

/-! ## Runs -/

/-- The step relation of a call; the condition says which outcomes a step may have. -/
def Advances (allowed : IdentitySpace → ResolveCall → Bool → Prop) (t : IdentitySpace)
    (call : ResolveCall) (t' : IdentitySpace) (call' : ResolveCall) : Prop :=
  ∃ succeeds, allowed t call succeeds ∧ t' = (t.advance call succeeds).1 ∧
    call' = ⟨call.declaration, (t.advance call succeeds).2⟩

/-- What an interleaving of calls, begun at any time, leads to. -/
def Reachable (allowed : IdentitySpace → ResolveCall → Bool → Prop) (start : IdentitySpace)
    (config : Config IdentitySpace ResolveCall) : Prop :=
  Interleaving.Reachable (fun call => call.stage = .start) (Advances allowed) start config

/-- The identities there are: those of the image or the root, and the linked ones. -/
def Identity (t : IdentitySpace) (i : IdentityRef) : Prop :=
  (match t.baseline with
    | some b => b.identityValid i = true
    | none => i = .root) ∨ t.Listed i

def pendingCalls (calls : List ResolveCall) : Nat := (calls.map (·.stage.pending)).sum

/-- Calls agree on references as on declarations, and the references keep what they stand for. -/
structure Canonical (allowed : IdentitySpace → ResolveCall → Bool → Prop)
    (config : Config IdentitySpace ResolveCall) : Prop where
  agree : ∀ (i j : Nat) (d d' : IdentityDeclaration) (r r' : IdentityRef),
    config.calls[i]? = some ⟨d, .returned (.ok r)⟩ →
    config.calls[j]? = some ⟨d', .returned (.ok r')⟩ →
    (r = r' ↔ d = d') ∧ (d.parent = d'.parent → d.localName = d'.localName → d = d')
  refuse : ∀ (i j : Nat) (d d' : IdentityDeclaration) (r : IdentityRef)
    (result : Except StatusCode IdentityRef),
    config.calls[i]? = some ⟨d, .returned (.ok r)⟩ →
    config.calls[j]? = some ⟨d', .returned result⟩ →
    d'.parent = d.parent → d'.localName = d.localName → d'.kind ≠ d.kind →
    result = .error .semanticConflict ∨
      ((result = .error .notAvailable ∨ result = .error .invalidArgument) ∧ Hindered allowed d')
  stays : ∀ (i : Nat) (d : IdentityDeclaration) (r : IdentityRef),
    config.calls[i]? = some ⟨d, .returned (.ok r)⟩ →
    config.memory.valid r = true ∧ config.memory.parent r = d.parent ∧
      config.memory.name r = d.localName ∧ r.kind = d.kind ∧ config.memory.Identity r
  size : ∃ refs : List IdentityRef, refs.Nodup ∧ (∀ i, i ∈ refs ↔ config.memory.Identity i) ∧
    config.memory.size + pendingCalls config.calls = refs.length

section Runs
variable {allowed : IdentitySpace → ResolveCall → Bool → Prop} {b : Option IdentityBaseline}
  {t : IdentitySpace} {d d' : IdentityDeclaration} {r r' : IdentityRef}

theorem Own.taken {call : ResolveCall} (h : t.Own allowed b call) {slot : Nat}
    (hslot : call.stage.slot = some slot) : t.Taken b slot := by
  obtain ⟨d, stage⟩ := call
  cases stage with
  | ensureDirectory other | installDirectory other =>
    cases hslot
    exact Reserved.taken h
  | ensurePage other | installPage other | initialiseCandidate other | discard other _ =>
    cases hslot
    exact Reserved.taken h.1
  | loadHead other =>
    cases hslot
    obtain ⟨next, hc⟩ := h
    exact hc.reserved.taken
  | scan other _ _ | link other _ =>
    cases hslot
    obtain ⟨⟨next, hc⟩, -⟩ := h
    exact hc.reserved.taken
  | exchange other _ =>
    cases hslot
    exact h.1.reserved.taken
  | _ => cases hslot

theorem resolving_preserves : Preserves (fun call : ResolveCall => call.stage = .start)
    (Advances allowed) (fun t => t.Shared b) (fun t call => t.Own allowed b call) Apart := by
  refine ⟨?_, ?_, ?_⟩
  · intro a c h slot hc ha
    exact h slot ha hc
  · intro t call _ hstart
    obtain ⟨d, stage⟩ := call
    cases hstart
    refine ⟨trivial, ?_⟩
    intro other slot hslot
    cases hslot
  · intro t call t' call' hs ho hstep
    obtain ⟨succeeds, hallowed, rfl, rfl⟩ := hstep
    have heffect := advance_effect hs ho hallowed
    obtain ⟨touched, hg, htouched⟩ := heffect.guarantee
    refine ⟨heffect.shared, heffect.own, ?_⟩
    intro other hother hapart
    refine ⟨hother.stable hg ?_, ?_⟩
    · intro slot hslot heq
      exact hapart slot (htouched slot heq) hslot
    · intro slot hslot hsame
      rcases heffect.holds slot hslot with hheld | hnew
      · exact hapart slot hheld hsame
      · have hupper := (hother.taken hsame).upper
        omega

theorem create_shared (b : Option IdentityBaseline) (bucketsAllocated : Bool) :
    (create b bucketsAllocated).Shared b := by
  have hmax : IdentityRef.maximumSlot = 1073741823 := rfl
  refine ⟨rfl, ?_, ?_, ?_⟩
  · unfold create reservedSlots
    cases b with
    | none => exact .inr (show 1 < 2 by omega)
    | some baseline =>
      dsimp only [Option.elim_some]
      split
      · exact .inr (by omega)
      · exact .inl rfl
  · unfold create
    cases b with
    | none =>
      show 2 ≤ IdentityRef.maximumSlot + 1
      omega
    | some baseline =>
      dsimp only
      split <;> omega
  · intro index
    exact ⟨[], rfl, List.nodup_nil, by simp⟩

def Counted (base : Nat) (config : Config IdentitySpace ResolveCall) : Prop :=
  ∃ refs : List IdentityRef, refs.Nodup ∧ (∀ i, i ∈ refs ↔ config.memory.Listed i) ∧
    config.memory.identityCount + pendingCalls config.calls = base + refs.length

theorem Counted.advanced {base : Nat} {t' : IdentitySpace} {calls : List ResolveCall}
    {call call' : ResolveCall} {k : Nat} {added : List IdentityRef} (h : Counted base ⟨t, calls⟩)
    (hk : calls[k]? = some call) (htally : Tally added t t' call.stage call'.stage) :
    Counted base ⟨t', calls.set k call'⟩ := by
  obtain ⟨refs, hnodup, hrefs, hcount⟩ := h
  refine ⟨added ++ refs, ?_, ?_, ?_⟩
  · refine List.nodup_append.mpr ⟨htally.nodup, hnodup, ?_⟩
    intro i hi j hj heq
    exact htally.fresh i hi ((hrefs i).mp (heq ▸ hj))
  · intro i
    rw [List.mem_append, hrefs]
    exact (htally.listed i).symm
  · have hset := sum_set (fun c : ResolveCall => c.stage.pending) hk call'
    have hstep := htally.count
    dsimp only [pendingCalls] at hcount ⊢
    rw [List.length_append]
    omega

theorem create_counted (b : Option IdentityBaseline) (bucketsAllocated : Bool) :
    Counted (if b.isNone then 1 else 0) ⟨create b bucketsAllocated, []⟩ := by
  refine ⟨[], List.nodup_nil, ?_, rfl⟩
  intro i
  constructor
  · simp
  · intro hlisted
    obtain ⟨index, refs, hchain, hmem⟩ := hlisted
    have hempty : (create b bucketsAllocated).Chain
        ((create b bucketsAllocated).buckets index) [] := rfl
    rw [hchain.unique hempty] at hmem
    exact hmem

theorem reachable_holds {bucketsAllocated : Bool} {config : Config IdentitySpace ResolveCall}
    (h : Reachable allowed (create b bucketsAllocated) config) :
    Holds (fun t => t.Shared b) (fun t call => t.Own allowed b call) Apart config ∧
      Counted (if b.isNone then 1 else 0) config := by
  refine Interleaving.Reachable.invariant (P := fun config =>
    Holds (fun t => t.Shared b) (fun t call => t.Own allowed b call) Apart config ∧
      Counted (if b.isNone then 1 else 0) config) h
    ⟨⟨create_shared b bucketsAllocated, by simp, by simp⟩, create_counted b bucketsAllocated⟩ ?_ ?_
  · intro t calls call hboth hstart
    refine ⟨hboth.1.opened resolving_preserves hstart, ?_⟩
    obtain ⟨refs, hnodup, hrefs, hcount⟩ := hboth.2
    have hpending : call.stage.pending = 0 := by rw [hstart]; rfl
    refine ⟨refs, hnodup, hrefs, ?_⟩
    unfold pendingCalls at hcount ⊢
    simpa [hpending] using hcount
  · intro t t' calls call call' k hboth hk hstep
    refine ⟨hboth.1.advanced resolving_preserves hk hstep, ?_⟩
    obtain ⟨succeeds, hallowed, rfl, rfl⟩ := hstep
    obtain ⟨added, htally⟩ := (advance_effect hboth.1.shared (hboth.1.own k call hk) hallowed).tally
    exact hboth.2.advanced hk htally

/-! ## What successful calls return -/

theorem resolved_unique (hs : t.Shared b) (h : t.Resolved b d r) (h' : t.Resolved b d' r')
    (hparent : d.parent = d'.parent) (hname : d.localName = d'.localName) : r = r' := by
  obtain ⟨-, hsource⟩ := h
  obtain ⟨-, hsource'⟩ := h'
  have hclash : ∀ {d d' : IdentityDeclaration} {r r' : IdentityRef}, d.parent = d'.parent →
      d.localName = d'.localName → baselineFind b d.parent d.localName d.kind = some r →
      t.Member (bucketIndex d'.parent d'.localName) r' → t.key r' = (d'.parent, d'.localName) →
      False := by
    intro d d' r r' hparent hname hfound hmember hkey
    have habsent := (member_linked hs hmember).absent d.kind
    rw [hkey, ← hparent, ← hname, hfound] at habsent
    cases habsent
  rcases hsource with hfound | ⟨hmember, hkey⟩
  · rcases hsource' with hfound' | ⟨hmember', hkey'⟩
    · cases b with
      | none => cases hfound
      | some baseline =>
        obtain ⟨-, -, -, hvalid, -, hp, hn⟩ := (baseline.exact _ _ _ _).mp hfound
        obtain ⟨-, -, -, hvalid', -, hp', hn'⟩ := (baseline.exact _ _ _ _).mp hfound'
        exact baseline.canonical r r' hvalid hvalid' (by rw [hp, hp', hparent])
          (by rw [hn, hn', hname])
    · exact (hclash hparent hname hfound hmember' hkey').elim
  · rcases hsource' with hfound' | ⟨hmember', hkey'⟩
    · exact (hclash hparent.symm hname.symm hfound' hmember hkey).elim
    · obtain ⟨refs, hbucket⟩ := hs.buckets (bucketIndex d.parent d.localName)
      rw [← hparent, ← hname] at hmember' hkey'
      exact List.inj_on_of_nodup_map hbucket.distinct (hbucket.chain.member.mp hmember)
        (hbucket.chain.member.mp hmember') (hkey.trans hkey'.symm)

theorem baselineOf_listed (hs : t.Shared b) {index : Nat} (h : t.Member index r) :
    t.baselineOf r = none := by
  have hlower := (member_linked hs h).taken.lower
  unfold baselineOf
  rw [hs.baseline]
  cases b with
  | none => rfl
  | some baseline =>
    have hlarge : baseline.slotCount < r.slot := hlower
    have hnot : ¬ r.slot ≤ baseline.slotCount := by omega
    simp [Option.filter, hnot]

theorem resolved_stays (hs : t.Shared b) (h : t.Resolved b d r) :
    t.valid r = true ∧ t.parent r = d.parent ∧ t.name r = d.localName ∧ r.kind = d.kind ∧
      t.Identity r := by
  obtain ⟨hkind, hsource⟩ := h
  unfold valid parent name Identity
  rcases hsource with hfound | ⟨hmember, hkey⟩
  · cases b with
    | none => cases hfound
    | some baseline =>
      obtain ⟨-, -, -, hvalid, -, hp, hn⟩ := (baseline.exact _ _ _ _).mp hfound
      obtain ⟨hslot, hle⟩ := baseline.bounded r hvalid
      have hbase : t.baselineOf r = some baseline := by
        unfold baselineOf
        rw [hs.baseline]
        simp [Option.filter, hslot, hle]
      rw [hbase, hs.baseline]
      exact ⟨hvalid, hp, hn, hkind, .inl hvalid⟩
  · rw [baselineOf_listed hs hmember, hmember.published.record]
    have hboth := Prod.mk.inj hkey
    exact ⟨rfl, hboth.1, hboth.2, hkind, .inr ⟨_, hmember⟩⟩

theorem identities_counted {calls : List ResolveCall} (hs : t.Shared b)
    (hc : Counted (if b.isNone then 1 else 0) ⟨t, calls⟩) :
    ∃ refs : List IdentityRef, refs.Nodup ∧ (∀ i, i ∈ refs ↔ t.Identity i) ∧
      t.size + pendingCalls calls = refs.length := by
  obtain ⟨listed, hnodup, hlisted, hcount⟩ := hc
  dsimp only at hlisted hcount
  have hlower : ∀ i, t.Listed i → reservedSlots b < i.slot := by
    intro i hi
    obtain ⟨index, hmember⟩ := hi
    exact (member_linked hs hmember).taken.lower
  cases b with
  | none =>
    refine ⟨.root :: listed, List.nodup_cons.mpr ⟨?_, hnodup⟩, ?_, ?_⟩
    · intro hmem
      have := hlower .root ((hlisted .root).mp hmem)
      exact absurd this (by decide)
    · intro i
      unfold Identity
      rw [List.mem_cons, hs.baseline, hlisted]
    · unfold size
      rw [hs.baseline, List.length_cons]
      simp at hcount ⊢
      omega
  | some baseline =>
    obtain ⟨refs, hrefsNodup, hrefs, hlength⟩ := baseline.counted
    refine ⟨refs ++ listed, List.nodup_append.mpr ⟨hrefsNodup, hnodup, ?_⟩, ?_, ?_⟩
    · intro i hi j hj heq
      have hbound := (baseline.bounded i ((hrefs i).mp hi)).2
      have hlarge : baseline.slotCount < j.slot := hlower j ((hlisted j).mp hj)
      rw [heq] at hbound
      omega
    · intro i
      unfold Identity
      rw [List.mem_append, hs.baseline, hlisted, hrefs]
    · unfold size
      rw [hs.baseline, List.length_append, hlength]
      simp at hcount ⊢
      omega

end Runs

def Free (_ : IdentitySpace) (_ : ResolveCall) (_ : Bool) : Prop := True

def run (t : IdentitySpace) (d : IdentityDeclaration) (stage : ResolveStage) :
    List Bool → IdentitySpace × ResolveStage
  | [] => (t, stage)
  | succeeds :: rest =>
    run (t.advance ⟨d, stage⟩ succeeds).1 d (t.advance ⟨d, stage⟩ succeeds).2 rest

section Sequential
variable {start t : IdentitySpace} {calls : List ResolveCall} {d : IdentityDeclaration}

theorem reach_run {stage : ResolveStage} (outcomes : List Bool)
    (h : Reachable Free start ⟨t, calls ++ [⟨d, stage⟩]⟩) :
    Reachable Free start ⟨(t.run d stage outcomes).1, calls ++ [⟨d, (t.run d stage outcomes).2⟩]⟩ := by
  induction outcomes generalizing t stage with
  | nil => exact h
  | cons succeeds rest ih =>
    have hnext : Reachable Free start ⟨(t.advance ⟨d, stage⟩ succeeds).1,
        calls ++ [⟨d, (t.advance ⟨d, stage⟩ succeeds).2⟩]⟩ := h.last ⟨succeeds, trivial, rfl, rfl⟩
    exact ih hnext

theorem reach_call (outcomes : List Bool) (h : Reachable Free start ⟨t, calls⟩)
    (d : IdentityDeclaration) : Reachable Free start
      ⟨(t.run d .start outcomes).1, calls ++ [⟨d, (t.run d .start outcomes).2⟩]⟩ := by
  have hopened : Reachable Free start ⟨t, calls ++ [⟨d, .start⟩]⟩ := h.opened rfl
  exact reach_run outcomes hopened

end Sequential

end IdentitySpace

end ServerEngine

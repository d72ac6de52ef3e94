import ServerEngine.Source.Preparation
import ServerEngine.Library.DepthFirst
import ServerEngine.Library.TopologicalOrder

/-! # Checking the include graph

An update is checked for include cycles in two ways: the whole graph by taking sources without
includers, or, from each source whose includes changed, by searching for a way back to it.
-/
namespace ServerEngine
open scoped BigOperators

namespace SourceManagerUpdate

/-! ## The whole graph -/

def sourceIds (u : SourceManagerUpdate) : List Nat := (List.range u.sourceCount).map (· + 1)

/-- `++indegree[dependency]` of a valid dependency, on 32-bit counters. -/
def countEdge (u : SourceManagerUpdate) (indegree : List Nat) (dependency : Nat) :
    Except StatusCode (List Nat) :=
  if !u.validSource dependency then .error .invalidArgument
  else .ok (indegree.set dependency ((indegree.getD dependency 0 + 1) % (u32Max + 1)))

def countEdges (u : SourceManagerUpdate) : Except StatusCode (List Nat) :=
  (u.sourceIds.flatMap u.includes).foldlM u.countEdge (List.replicate (u.sourceCount + 1) 0)

/-- `--degree`, which queues the source when it gets to zero. -/
def releaseEdge (s : TopologicalOrder.State) (dependency : Nat) : TopologicalOrder.State :=
  let degree := (s.indegree.getD dependency 0 + u32Max) % (u32Max + 1)
  { queue := if degree = 0 then s.queue ++ [dependency] else s.queue
    indegree := s.indegree.set dependency degree }

def processQueue (u : SourceManagerUpdate) :
    Nat → Nat → TopologicalOrder.State → Option TopologicalOrder.State
  | 0, _, _ => none
  | fuel + 1, cursor, s =>
    match s.queue[cursor]? with
    | none => some s
    | some source => u.processQueue fuel (cursor + 1) ((u.includes source).foldl releaseEdge s)

/-- `validate_source_graph`; no result means that the fuel of one step a source did not do. What it
caches of the owner is a sequence of reads of its own. -/
def validateSourceGraph (u : SourceManagerUpdate) : Option (Except StatusCode Unit) :=
  match u.countEdges with
  | .error code => some (.error code)
  | .ok indegree =>
    let queue := u.sourceIds.filter fun source => indegree.getD source 0 == 0
    match u.processQueue (u.sourceCount + 1) 0 ⟨queue, indegree⟩ with
    | none => none
    | some s =>
      -- the loop ends at the end of the queue, so all of it was processed
      if s.queue.length ≠ u.sourceCount then some (.error .semanticConflict) else some (.ok ())

def includeCount (u : SourceManagerUpdate) : Nat :=
  (u.sourceIds.map fun source => (u.includes source).length).sum

def searchFrom (u : SourceManagerUpdate) (root : Nat) : Option DepthFirst.Outcome :=
  DepthFirst.search u.includes (· == 0) root u.includeCount [root] (u.includes root).reverse 0

/-- `validate_changed_source_graph`, with `visited_sources` as its result; no result means that the
fuel did not do. -/
def validateChangedSourceGraph (u : SourceManagerUpdate) :
    List Nat → Nat → Option (Except StatusCode Nat)
  | [], visited => some (.ok visited)
  | root :: rest, visited =>
    if !u.validSource root then some (.error .invalidArgument)
    else match u.searchFrom root with
    | none => none
    | some .found => some (.error .semanticConflict)
    | some .refused => some (.error .invalidArgument)
    | some (.exhausted count) => u.validateChangedSourceGraph rest (visited + count)

def TransIncludes (u : SourceManagerUpdate) : Nat → Nat → Prop :=
  Relation.TransGen fun a b => b ∈ u.includes a

/-- An include graph over the sources, no list with an entry twice. -/
structure IncludeGraph (u : SourceManagerUpdate) : Prop where
  count : u.sourceCount ≤ u32Max
  edges : ∀ a, ∀ b ∈ u.includes a, u.validSource a = true ∧ u.validSource b = true
  distinct : ∀ a, (u.includes a).Nodup

theorem mem_sourceIds {u : SourceManagerUpdate} {source : Nat} :
    source ∈ u.sourceIds ↔ u.validSource source = true := by
  rw [validSource_iff, sourceIds, List.mem_map]
  constructor
  · rintro ⟨i, hi, rfl⟩
    rw [List.mem_range] at hi
    omega
  · rintro ⟨hne, hle⟩
    exact ⟨source - 1, List.mem_range.mpr (by omega), by omega⟩

theorem sourceIds_nodup (u : SourceManagerUpdate) : u.sourceIds.Nodup := by
  apply List.nodup_range.map
  intro a b h
  exact Nat.succ.inj h

theorem card_sourceIds (u : SourceManagerUpdate) : u.sourceIds.toFinset.card = u.sourceCount := by
  rw [List.toFinset_card_of_nodup u.sourceIds_nodup, sourceIds, List.length_map, List.length_range]

theorem foldlM_countEdge {u : SourceManagerUpdate} {edges : List Nat}
    (hvalid : ∀ v ∈ edges, u.validSource v = true) {indegree : List Nat}
    (hlength : u.sourceCount < indegree.length) (hsmall : ∀ v, indegree.getD v 0 ≤ u32Max) :
    ∃ result, edges.foldlM u.countEdge indegree = .ok result ∧ result.length = indegree.length ∧
      (∀ v, u.validSource v = true →
        result.getD v 0 = (indegree.getD v 0 + edges.count v) % (u32Max + 1)) ∧
      ∀ v, result.getD v 0 ≤ u32Max := by
  induction edges generalizing indegree with
  | nil =>
    refine ⟨indegree, rfl, rfl, fun v _ => ?_, hsmall⟩
    have := hsmall v
    rw [List.count_nil, Nat.add_zero, Nat.mod_eq_of_lt (by omega)]
  | cons d edges ih =>
    have hd := hvalid d (by simp)
    have hdle := (validSource_iff.mp hd).2
    have hstep : u.countEdge indegree d = .ok
        (indegree.set d ((indegree.getD d 0 + 1) % (u32Max + 1))) := by
      rw [countEdge, hd]
      rfl
    have hget : ∀ v, (indegree.set d ((indegree.getD d 0 + 1) % (u32Max + 1))).getD v 0 =
        if d = v then (indegree.getD d 0 + 1) % (u32Max + 1) else indegree.getD v 0 := by
      intro v
      rw [Slice.getD_set]
      by_cases hv : d = v
      · rw [if_pos ⟨hv, by omega⟩, if_pos hv]
      · rw [if_neg fun hand => hv hand.1, if_neg hv]
    obtain ⟨result, hrun, hlen, hresult, hbound⟩ := @ih (fun v hv => hvalid v (by simp [hv]))
      (indegree.set d ((indegree.getD d 0 + 1) % (u32Max + 1))) (by rwa [List.length_set]) (by
        intro v
        rw [hget]
        split
        · exact Nat.le_of_lt_succ (Nat.mod_lt _ (Nat.succ_pos u32Max))
        · exact hsmall v)
    refine ⟨result, ?_, by rw [hlen, List.length_set], fun v hv => ?_, hbound⟩
    · rw [List.foldlM_cons, hstep]
      exact hrun
    · rw [hresult v hv, hget]
      by_cases hdv : d = v
      · rw [if_pos hdv, hdv, List.count_cons_self, Nat.mod_add_mod]
        congr 1
        omega
      · rw [if_neg hdv, List.count_cons_of_ne hdv]

theorem IncludeGraph.indegree_le {u : SourceManagerUpdate} (h : u.IncludeGraph) (v : Nat) :
    ∑ a ∈ u.sourceIds.toFinset, (u.includes a).count v ≤ u32Max := by
  calc ∑ a ∈ u.sourceIds.toFinset, (u.includes a).count v
      ≤ ∑ _a ∈ u.sourceIds.toFinset, 1 :=
        Finset.sum_le_sum fun a _ => List.nodup_iff_count_le_one.mp (h.distinct a) v
    _ = u.sourceCount := by rw [← Finset.card_eq_sum_ones, u.card_sourceIds]
    _ ≤ u32Max := h.count

theorem IncludeGraph.countEdges_ok {u : SourceManagerUpdate} (h : u.IncludeGraph) :
    ∃ indegree, u.countEdges = .ok indegree ∧ indegree.length = u.sourceCount + 1 ∧
      (∀ v, u.validSource v = true →
        indegree.getD v 0 = ∑ a ∈ u.sourceIds.toFinset, (u.includes a).count v) ∧
      ∀ v, indegree.getD v 0 ≤ u32Max := by
  have hzero : ∀ v, (List.replicate (u.sourceCount + 1) 0).getD v 0 = 0 := by
    intro v
    rw [List.getD_eq_getElem?_getD, List.getElem?_replicate]
    split <;> rfl
  obtain ⟨indegree, hrun, hlen, hget, hsmall⟩ := @foldlM_countEdge u (u.sourceIds.flatMap u.includes)
    (by
      intro v hv
      obtain ⟨a, -, hmem⟩ := List.mem_flatMap.mp hv
      exact (h.edges a v hmem).2)
    (List.replicate (u.sourceCount + 1) 0) (by rw [List.length_replicate]; omega)
    (fun v => by rw [hzero]; exact Nat.zero_le _)
  refine ⟨indegree, hrun, by rw [hlen, List.length_replicate], fun v hv => ?_, hsmall⟩
  have hsum : (u.sourceIds.flatMap u.includes).count v =
      ∑ a ∈ u.sourceIds.toFinset, (u.includes a).count v := by
    rw [List.sum_toFinset _ u.sourceIds_nodup, List.count_flatMap]
    rfl
  rw [hget v hv, hzero, Nat.zero_add, hsum]
  exact Nat.mod_eq_of_lt (by have := h.indegree_le v; omega)

theorem releaseEdge_eq {s : TopologicalOrder.State} {d : Nat} (hpos : 0 < s.indegree.getD d 0)
    (hsmall : s.indegree.getD d 0 ≤ u32Max) : releaseEdge s d = TopologicalOrder.release s d := by
  have hwrap : (s.indegree.getD d 0 + u32Max) % (u32Max + 1) = s.indegree.getD d 0 - 1 := by
    have hsplit : s.indegree.getD d 0 + u32Max = s.indegree.getD d 0 - 1 + (u32Max + 1) := by omega
    rw [hsplit, Nat.add_mod_right, Nat.mod_eq_of_lt (by omega)]
  unfold releaseEdge TopologicalOrder.release
  dsimp only
  rw [hwrap]

theorem release_small {s : TopologicalOrder.State} (hsmall : ∀ v, s.indegree.getD v 0 ≤ u32Max)
    (d v : Nat) : (TopologicalOrder.release s d).indegree.getD v 0 ≤ u32Max := by
  unfold TopologicalOrder.release
  dsimp only
  rw [Slice.getD_set]
  have := hsmall d
  split
  · omega
  · exact hsmall v

section
variable {u : SourceManagerUpdate} {nodes waiting : Finset Nat} {done : List Nat}
  {s : TopologicalOrder.State}

theorem foldl_releaseEdge_eq {rest : List Nat}
    (h : TopologicalOrder.Sorted u.includes nodes waiting done rest s)
    (hrest : ∀ v ∈ rest, v ∈ nodes) (hsmall : ∀ v, s.indegree.getD v 0 ≤ u32Max) :
    rest.foldl releaseEdge s = rest.foldl TopologicalOrder.release s ∧
      ∀ v, (rest.foldl TopologicalOrder.release s).indegree.getD v 0 ≤ u32Max := by
  induction rest generalizing s with
  | nil =>
    rw [List.foldl_nil, List.foldl_nil]
    exact ⟨rfl, hsmall⟩
  | cons d rest ih =>
    have hd := hrest d (by simp)
    have hpos : 0 < s.indegree.getD d 0 := by
      rw [h.count d hd, List.count_cons_self]
      omega
    rw [List.foldl_cons, List.foldl_cons, releaseEdge_eq hpos (hsmall d)]
    exact ih (TopologicalOrder.sorted_release h hd) (fun v hv => hrest v (by simp [hv]))
      (release_small hsmall d)

theorem processQueue_eq {fuel cursor : Nat}
    (h : TopologicalOrder.Sorted u.includes nodes waiting done [] s)
    (hdone : done = s.queue.take cursor) (hcursor : cursor ≤ s.queue.length)
    (hsmall : ∀ v, s.indegree.getD v 0 ≤ u32Max) :
    u.processQueue fuel cursor s = TopologicalOrder.loop u.includes fuel cursor s := by
  induction fuel generalizing waiting s cursor done with
  | zero => rfl
  | succ fuel ih =>
    rw [processQueue, TopologicalOrder.loop]
    cases hnode : s.queue[cursor]? with
    | none => rfl
    | some node =>
      dsimp only
      have hmem := List.mem_of_getElem? hnode
      obtain ⟨hd, hlt⟩ := TopologicalOrder.not_mem_take_of_getElem? h.nodup hnode
      rw [← hdone] at hd
      obtain ⟨heq, hsmall'⟩ := foldl_releaseEdge_eq (TopologicalOrder.sorted_take h hmem hd)
        (fun v hv => (h.edges node v hv).2) hsmall
      obtain ⟨more, hmore⟩ := TopologicalOrder.visit_queue u.includes s node
      rw [heq]
      apply ih (TopologicalOrder.sorted_visit h hmem hd) ?_ ?_ hsmall'
      · rw [hmore, List.take_append_of_le_length (by omega), List.take_add_one, hnode, hdone]
        rfl
      · rw [hmore, List.length_append]
        omega

end

/-! ## What the checks find -/

/-- The whole check ends, and reports a conflict exactly when there is a cycle. -/
theorem IncludeGraph.validateSourceGraph_iff {u : SourceManagerUpdate} (h : u.IncludeGraph) :
    (u.validateSourceGraph = some (.ok ()) ∧ ∀ a, ¬u.TransIncludes a a) ∨
      (u.validateSourceGraph = some (.error .semanticConflict) ∧ ∃ a, u.TransIncludes a a) := by
  obtain ⟨indegree, hcount, hlen, hget, hsmall⟩ := h.countEdges_ok
  have hnodes : ∀ v, v ∈ u.sourceIds.toFinset ↔ u.validSource v = true := fun v =>
    List.mem_toFinset.trans mem_sourceIds
  have hlength : ∀ v ∈ u.sourceIds.toFinset, v < indegree.length := by
    intro v hv
    have := (validSource_iff.mp ((hnodes v).mp hv)).2
    omega
  have hsucc : ∀ a b, b ∈ u.includes a →
      a ∈ u.sourceIds.toFinset ∧ b ∈ u.sourceIds.toFinset := by
    intro a b hb
    rw [hnodes, hnodes]
    exact h.edges a b hb
  have hdeg : ∀ v ∈ u.sourceIds.toFinset,
      indegree.getD v 0 = ∑ a ∈ u.sourceIds.toFinset, (u.includes a).count v := by
    intro v hv
    exact hget v ((hnodes v).mp hv)
  let s : TopologicalOrder.State :=
    ⟨u.sourceIds.filter fun source => indegree.getD source 0 == 0, indegree⟩
  have hready : ∀ v, v ∈ s.queue ↔ v ∈ u.sourceIds.toFinset ∧ s.indegree.getD v 0 = 0 := by
    intro v
    rw [List.mem_filter, beq_iff_eq, List.mem_toFinset]
  have hnodup : s.queue.Nodup := u.sourceIds_nodup.filter _
  have hsorted := TopologicalOrder.sorted_start hlength hsucc hdeg hready hnodup
  obtain ⟨t, ht, hiff⟩ := TopologicalOrder.loop_cycle_iff hlength hsucc hdeg hready hnodup
  rw [u.card_sourceIds] at ht hiff
  have hrun : u.processQueue (u.sourceCount + 1) 0 s = some t := by
    rw [processQueue_eq hsorted rfl (Nat.zero_le _) hsmall]
    exact ht
  have hresult : u.validateSourceGraph =
      if t.queue.length ≠ u.sourceCount then some (.error .semanticConflict) else some (.ok ()) := by
    unfold validateSourceGraph
    rw [hcount]
    dsimp only
    rw [hrun]
  by_cases hall : t.queue.length = u.sourceCount
  · left
    rw [hresult, if_neg (not_not.mpr hall)]
    exact ⟨rfl, hiff.mp hall⟩
  · right
    rw [hresult, if_pos hall]
    refine ⟨rfl, ?_⟩
    by_contra hno
    exact hall (hiff.mpr fun a ha => hno ⟨a, ha⟩)

theorem IncludeGraph.searchFrom_iff {u : SourceManagerUpdate} (h : u.IncludeGraph) (root : Nat) :
    (u.searchFrom root = some .found ∧ u.TransIncludes root root) ∨
      ((∃ n, u.searchFrom root = some (.exhausted n)) ∧ ¬u.TransIncludes root root) := by
  have hwithin : ∀ a, u.includes a ≠ [] → a ∈ u.sourceIds := by
    intro a ha
    obtain ⟨b, hb⟩ := List.exists_mem_of_ne_nil _ ha
    exact mem_sourceIds.mpr (h.edges a b hb).1
  have hrefuse : ∀ x, Relation.TransGen (fun a b => b ∈ u.includes a) root x →
      (x == 0) = false := by
    intro x hx
    obtain ⟨y, -, hy⟩ := Relation.TransGen.tail'_iff.mp hx
    exact beq_eq_false_iff_ne.mpr (validSource_iff.mp (h.edges y x hy).2).1
  obtain ⟨out, hout, hends⟩ := DepthFirst.search_root hwithin hrefuse (Nat.le_refl u.includeCount)
  have hrun : u.searchFrom root = some out := hout
  rcases hends with ⟨rfl, hcycle⟩ | ⟨⟨n, rfl⟩, hnone⟩
  · exact .inl ⟨hrun, hcycle⟩
  · exact .inr ⟨⟨n, hrun⟩, hnone⟩

theorem IncludeGraph.validateChanged_iff {u : SourceManagerUpdate} (h : u.IncludeGraph)
    {changed : List Nat} (hvalid : ∀ root ∈ changed, u.validSource root = true) (visited : Nat) :
    ((∃ n, u.validateChangedSourceGraph changed visited = some (.ok n)) ∧
        ∀ root ∈ changed, ¬u.TransIncludes root root) ∨
      (u.validateChangedSourceGraph changed visited = some (.error .semanticConflict) ∧
        ∃ root ∈ changed, u.TransIncludes root root) := by
  induction changed generalizing visited with
  | nil => exact .inl ⟨⟨visited, rfl⟩, by simp⟩
  | cons root rest ih =>
    have hroot := hvalid root (by simp)
    have hrun : u.validateChangedSourceGraph (root :: rest) visited =
        match u.searchFrom root with
        | none => none
        | some .found => some (.error .semanticConflict)
        | some .refused => some (.error .invalidArgument)
        | some (.exhausted count) => u.validateChangedSourceGraph rest (visited + count) := by
      rw [validateChangedSourceGraph, hroot, if_neg (by simp)]
    rw [hrun]
    rcases h.searchFrom_iff root with ⟨hfound, hcycle⟩ | ⟨⟨n, hnone⟩, hno⟩
    · rw [hfound]
      exact .inr ⟨rfl, root, by simp, hcycle⟩
    · rw [hnone]
      rcases ih (fun r hr => hvalid r (by simp [hr])) (visited + n) with ⟨hok, hrest⟩ | ⟨hbad, hsome⟩
      · refine .inl ⟨hok, fun r hr => ?_⟩
        cases hr with
        | head => exact hno
        | tail _ hr => exact hrest r hr
      · obtain ⟨r, hr, hcycle⟩ := hsome
        exact .inr ⟨hbad, r, by simp [hr], hcycle⟩

theorem IncludeGraph.checks_agree {u : SourceManagerUpdate} (h : u.IncludeGraph)
    {old : Nat → List Nat} (hacyclic : ∀ a, ¬Relation.TransGen (fun a b => b ∈ old a) a a)
    {changed : List Nat} (hvalid : ∀ root ∈ changed, u.validSource root = true)
    (hkept : ∀ a, a ∉ changed → u.includes a = old a) (visited : Nat) :
    ((∃ n, u.validateChangedSourceGraph changed visited = some (.ok n)) ∧
        u.validateSourceGraph = some (.ok ()) ∧ ∀ a, ¬u.TransIncludes a a) ∨
      (u.validateChangedSourceGraph changed visited = some (.error .semanticConflict) ∧
        u.validateSourceGraph = some (.error .semanticConflict) ∧ ∃ a, u.TransIncludes a a) := by
  have hthrough : ∀ a, u.TransIncludes a a → ∃ root ∈ changed, u.TransIncludes root root := by
    intro a ha
    refine DepthFirst.cycle_through ?_ hacyclic ha
    intro x y hx hy
    rw [← hkept x hx]
    exact hy
  rcases h.validateSourceGraph_iff with ⟨hfull, hnone⟩ | ⟨hfull, a, ha⟩
  · rcases h.validateChanged_iff hvalid visited with ⟨hsparse, -⟩ | ⟨-, root, -, hroot⟩
    · exact .inl ⟨hsparse, hfull, hnone⟩
    · exact absurd hroot (hnone root)
  · rcases h.validateChanged_iff hvalid visited with ⟨-, hno⟩ | ⟨hsparse, -⟩
    · obtain ⟨root, hroot, hcycle⟩ := hthrough a ha
      exact absurd hcycle (hno root hroot)
    · exact .inr ⟨hsparse, hfull, a, ha⟩

end SourceManagerUpdate

end ServerEngine

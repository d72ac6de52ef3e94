import ServerEngine.Library.Slice
import Mathlib.Algebra.Order.BigOperators.Group.Finset
import Mathlib.Data.Fintype.Order

/-! # Topological order

Nodes are taken from a queue in order; taking one releases its outgoing edges, and a node whose last
incoming edge is released joins the queue. No node of the queue has an edge to an earlier one.
-/
namespace TopologicalOrder
open scoped BigOperators

/-- The queue, taken nodes included, and the edges not yet released into each node. -/
structure State where
  queue : List Nat
  indegree : List Nat

def release (s : State) (target : Nat) : State :=
  let left := s.indegree.getD target 0 - 1
  { queue := if left = 0 then s.queue ++ [target] else s.queue
    indegree := s.indegree.set target left }

def visit (succ : Nat → List Nat) (s : State) (node : Nat) : State := (succ node).foldl release s

/-- Take the queue from position `i` on; the fuel bounds the number of steps. -/
def loop (succ : Nat → List Nat) : Nat → Nat → State → Option State
  | 0, _, _ => none
  | fuel + 1, i, s =>
    match s.queue[i]? with
    | none => some s
    | some node => loop succ fuel (i + 1) (visit succ s node)

def start (indegree : List Nat) : State :=
  ⟨(List.range indegree.length).filter fun v => indegree.getD v 0 == 0, indegree⟩

/-! ## What the loop keeps -/

/-- `waiting` are the nodes not taken, `done` the taken ones and `rest` the edges of the last taken
node that are still to be released. -/
structure Sorted (succ : Nat → List Nat) (nodes waiting : Finset Nat) (done rest : List Nat)
    (s : State) : Prop where
  edges : ∀ u v, v ∈ succ u → u ∈ nodes ∧ v ∈ nodes
  length : ∀ v ∈ nodes, v < s.indegree.length
  count : ∀ v ∈ nodes, s.indegree.getD v 0 = rest.count v + ∑ u ∈ waiting, (succ u).count v
  ready : ∀ v, v ∈ s.queue ↔ v ∈ nodes ∧ s.indegree.getD v 0 = 0
  nodup : s.queue.Nodup
  order : s.queue.Pairwise fun a b => a ∉ succ b
  loopless : ∀ v ∈ s.queue, v ∉ succ v
  before : ∀ v ∈ s.queue, ∀ u, v ∈ succ u → u ∈ done
  covered : ∀ u ∈ nodes, u ∈ waiting ∨ u ∈ done
  taken : ∀ u ∈ done, u ∉ waiting ∧ u ∈ s.queue

section
variable {succ : Nat → List Nat} {nodes : Finset Nat} {waiting : Finset Nat} {u v : Nat}

theorem count_pos_of_waiting (hu : u ∈ waiting) (hv : v ∈ succ u) :
    0 < ∑ w ∈ waiting, (succ w).count v := by
  have hcount : 0 < (succ u).count v := List.count_pos_iff.mpr hv
  have hle : (succ u).count v ≤ ∑ w ∈ waiting, (succ w).count v :=
    Finset.single_le_sum (f := fun w => (succ w).count v) (fun _ _ => Nat.zero_le _) hu
  omega

variable {s : State}

theorem sorted_start (hlength : ∀ v ∈ nodes, v < s.indegree.length)
    (hsucc : ∀ u v, v ∈ succ u → u ∈ nodes ∧ v ∈ nodes)
    (hdeg : ∀ v ∈ nodes, s.indegree.getD v 0 = ∑ u ∈ nodes, (succ u).count v)
    (hready : ∀ v, v ∈ s.queue ↔ v ∈ nodes ∧ s.indegree.getD v 0 = 0) (hnodup : s.queue.Nodup) :
    Sorted succ nodes nodes [] [] s := by
  have hnone : ∀ v ∈ s.queue, ∀ u, v ∉ succ u := by
    intro v hv u hu
    obtain ⟨hmem, hzero⟩ := (hready v).mp hv
    have hpos := count_pos_of_waiting (hsucc u v hu).1 hu
    have := hdeg v hmem
    omega
  refine ⟨hsucc, hlength, fun v hv => ?_, hready, hnodup, ?_, ?_, ?_, ?_, ?_⟩
  · rw [List.count_nil, Nat.zero_add]
    exact hdeg v hv
  · exact List.pairwise_of_forall_mem_list fun a ha b _ => hnone a ha b
  · exact fun v hv => hnone v hv v
  · intro v hv u hu
    exact absurd hu (hnone v hv u)
  · exact fun u hu => .inl hu
  · intro u hu
    cases hu

variable {done : List Nat} {node : Nat}

theorem sorted_take (h : Sorted succ nodes waiting done [] s) (hq : node ∈ s.queue)
    (hd : node ∉ done) : Sorted succ nodes (waiting.erase node) (done ++ [node]) (succ node) s := by
  have hw : node ∈ waiting := by
    rcases h.covered node ((h.ready node).mp hq).1 with hw | hdone
    · exact hw
    · exact absurd hdone hd
  refine ⟨h.edges, h.length, fun v hv => ?_, h.ready, h.nodup, h.order, h.loopless, ?_, ?_, ?_⟩
  · rw [h.count v hv, List.count_nil, Nat.zero_add]
    exact (Finset.add_sum_erase waiting (fun u => (succ u).count v) hw).symm
  · intro v hv u hu
    exact List.mem_append_left _ (h.before v hv u hu)
  · intro u hu
    by_cases hun : u = node
    · exact .inr (by simp [hun])
    · rcases h.covered u hu with hu | hu
      · exact .inl (Finset.mem_erase.mpr ⟨hun, hu⟩)
      · exact .inr (List.mem_append_left _ hu)
  · intro u hu
    rcases List.mem_append.mp hu with hu | hu
    · obtain ⟨h1, h2⟩ := h.taken u hu
      exact ⟨fun hmem => h1 (Finset.mem_of_mem_erase hmem), h2⟩
    · obtain rfl := List.mem_singleton.mp hu
      exact ⟨Finset.notMem_erase u waiting, hq⟩

variable {rest : List Nat}

theorem sorted_release {target : Nat} (h : Sorted succ nodes waiting done (target :: rest) s)
    (ht : target ∈ nodes) : Sorted succ nodes waiting done rest (release s target) := by
  have hcount := h.count target ht
  rw [List.count_cons_self] at hcount
  have hleft : s.indegree.getD target 0 - 1 =
      rest.count target + ∑ u ∈ waiting, (succ u).count target := by omega
  have hnew : target ∉ s.queue := by
    intro hmem
    have := ((h.ready target).mp hmem).2
    omega
  have hset : ∀ v, (s.indegree.set target (s.indegree.getD target 0 - 1)).getD v 0 =
      if v = target then s.indegree.getD target 0 - 1 else s.indegree.getD v 0 := by
    intro v
    rw [Slice.getD_set]
    by_cases hv : v = target
    · rw [if_pos ⟨hv.symm, hv ▸ h.length target ht⟩, if_pos hv]
    · rw [if_neg fun hand => hv hand.1.symm, if_neg hv]
  -- the sources of the edges into a node that joins the queue are all done
  have hsources : s.indegree.getD target 0 - 1 = 0 → ∀ u, target ∈ succ u → u ∈ done := by
    intro hzero u hmem
    rcases h.covered u (h.edges u target hmem).1 with hw | hd
    · have := count_pos_of_waiting hw hmem
      omega
    · exact hd
  have hlength : ∀ v ∈ nodes,
      v < (s.indegree.set target (s.indegree.getD target 0 - 1)).length := by
    intro v hv
    rw [List.length_set]
    exact h.length v hv
  have hcounts : ∀ v ∈ nodes, (s.indegree.set target (s.indegree.getD target 0 - 1)).getD v 0 =
      rest.count v + ∑ u ∈ waiting, (succ u).count v := by
    intro v hv
    rw [hset]
    by_cases hvt : v = target
    · rw [if_pos hvt, hvt, hleft]
    · rw [if_neg hvt, h.count v hv, List.count_cons_of_ne (Ne.symm hvt)]
  rw [release]
  by_cases hzero : s.indegree.getD target 0 - 1 = 0
  · rw [if_pos hzero]
    refine ⟨h.edges, hlength, hcounts, fun v => ?_, ?_, ?_, ?_, ?_, h.covered, ?_⟩
    · dsimp only
      rw [List.mem_append, List.mem_singleton, hset, h.ready]
      by_cases hvt : v = target
      · rw [if_pos hvt]
        exact ⟨fun _ => ⟨hvt ▸ ht, hzero⟩, fun _ => .inr hvt⟩
      · rw [if_neg hvt, or_iff_left hvt]
    · exact List.nodup_append.mpr ⟨h.nodup, List.nodup_singleton target, by
        rintro a ha b hb rfl
        exact hnew (List.mem_singleton.mp hb ▸ ha)⟩
    · refine List.pairwise_append.mpr ⟨h.order, List.pairwise_singleton _ target, ?_⟩
      intro a ha b hb hab
      obtain rfl := List.mem_singleton.mp hb
      exact hnew (h.taken b (h.before a ha b hab)).2
    · intro v hv hself
      rcases List.mem_append.mp hv with hv | hv
      · exact h.loopless v hv hself
      · obtain rfl := List.mem_singleton.mp hv
        exact hnew (h.taken v (hsources hzero v hself)).2
    · intro v hv u hu
      rcases List.mem_append.mp hv with hv | hv
      · exact h.before v hv u hu
      · obtain rfl := List.mem_singleton.mp hv
        exact hsources hzero u hu
    · intro u hu
      obtain ⟨h1, h2⟩ := h.taken u hu
      exact ⟨h1, List.mem_append_left _ h2⟩
  · rw [if_neg hzero]
    refine ⟨h.edges, hlength, hcounts, fun v => ?_, h.nodup, h.order, h.loopless, h.before,
      h.covered, h.taken⟩
    dsimp only
    rw [hset, h.ready]
    by_cases hvt : v = target
    · rw [if_pos hvt, hvt]
      omega
    · rw [if_neg hvt]

theorem sorted_visit (h : Sorted succ nodes waiting done [] s) (hq : node ∈ s.queue)
    (hd : node ∉ done) :
    Sorted succ nodes (waiting.erase node) (done ++ [node]) [] (visit succ s node) := by
  have key : ∀ (rest : List Nat) (t : State), (∀ v ∈ rest, v ∈ nodes) →
      Sorted succ nodes (waiting.erase node) (done ++ [node]) rest t →
        Sorted succ nodes (waiting.erase node) (done ++ [node]) [] (rest.foldl release t) := by
    intro rest
    induction rest with
    | nil => exact fun _ _ ht => ht
    | cons v rest ih =>
      intro t hlt ht
      exact ih _ (fun w hw => hlt w (List.mem_cons_of_mem v hw))
        (sorted_release ht (hlt v (by simp)))
  exact key (succ node) s (fun v hv => (h.edges node v hv).2) (sorted_take h hq hd)

/-! ## Whole runs -/

theorem queue_length_le (h : Sorted succ nodes waiting done rest s) :
    s.queue.length ≤ nodes.card := by
  rw [← List.toFinset_card_of_nodup h.nodup]
  apply Finset.card_le_card
  intro v hv
  exact ((h.ready v).mp (List.mem_toFinset.mp hv)).1

theorem release_queue (s : State) (target : Nat) :
    ∃ more, (release s target).queue = s.queue ++ more := by
  rw [release]
  dsimp only
  split
  · exact ⟨[target], rfl⟩
  · exact ⟨[], (List.append_nil _).symm⟩

theorem visit_queue (succ : Nat → List Nat) (s : State) (node : Nat) :
    ∃ more, (visit succ s node).queue = s.queue ++ more := by
  rw [visit]
  generalize succ node = targets
  induction targets generalizing s with
  | nil => exact ⟨[], (List.append_nil _).symm⟩
  | cons t targets ih =>
    obtain ⟨m1, h1⟩ := release_queue s t
    obtain ⟨m2, h2⟩ := ih (release s t)
    refine ⟨m1 ++ m2, ?_⟩
    rw [List.foldl_cons, h2, h1, List.append_assoc]

variable {i : Nat}

theorem not_mem_take_of_getElem? {xs : List Nat} {x : Nat} (h : xs.Nodup) (hx : xs[i]? = some x) :
    x ∉ xs.take i ∧ i < xs.length := by
  have hdrop : x ∈ xs.drop i := by
    apply List.mem_of_getElem? (i := 0)
    rw [List.getElem?_drop, Nat.add_zero, hx]
  refine ⟨fun hmem => List.disjoint_take_drop h (Nat.le_refl i) hmem hdrop, ?_⟩
  exact (List.getElem?_eq_some_iff.mp hx).choose

variable {fuel : Nat}

theorem loop_sorted {t : State} (h : Sorted succ nodes waiting done [] s)
    (hdone : done = s.queue.take i) (hi : i ≤ s.queue.length) (ht : loop succ fuel i s = some t) :
    ∃ waiting, Sorted succ nodes waiting t.queue [] t := by
  induction fuel generalizing waiting s i done with
  | zero => cases ht
  | succ fuel ih =>
    rw [loop] at ht
    cases hnode : s.queue[i]? with
    | none =>
      rw [hnode] at ht
      obtain rfl := Option.some.inj ht
      have hlen := List.getElem?_eq_none_iff.mp hnode
      rw [hdone, List.take_of_length_le hlen] at h
      exact ⟨waiting, h⟩
    | some node =>
      rw [hnode] at ht
      obtain ⟨hd, hlt⟩ := not_mem_take_of_getElem? h.nodup hnode
      obtain ⟨more, hmore⟩ := visit_queue succ s node
      apply ih (sorted_visit h (List.mem_of_getElem? hnode) (hdone ▸ hd)) ?_ ?_ ht
      · rw [hmore, List.take_append_of_le_length (by omega), List.take_add_one, hnode, hdone]
        rfl
      · rw [hmore, List.length_append]
        omega

theorem loop_isSome (h : Sorted succ nodes waiting done [] s) (hdone : done = s.queue.take i)
    (hi : i ≤ s.queue.length) (hfuel : nodes.card < fuel + i) : (loop succ fuel i s).isSome := by
  induction fuel generalizing waiting s i done with
  | zero =>
    have := queue_length_le h
    omega
  | succ fuel ih =>
    rw [loop]
    cases hnode : s.queue[i]? with
    | none => rfl
    | some node =>
      obtain ⟨hd, hlt⟩ := not_mem_take_of_getElem? h.nodup hnode
      obtain ⟨more, hmore⟩ := visit_queue succ s node
      apply ih (sorted_visit h (List.mem_of_getElem? hnode) (hdone ▸ hd))
      · rw [hmore, List.take_append_of_le_length (by omega), List.take_add_one, hnode, hdone]
        rfl
      · rw [hmore, List.length_append]
        omega
      · omega

theorem mem_queue_of_length (h : Sorted succ nodes waiting done rest s)
    (hlen : s.queue.length = nodes.card) : ∀ v ∈ nodes, v ∈ s.queue := by
  have hsub : s.queue.toFinset ⊆ nodes := by
    intro v hv
    exact ((h.ready v).mp (List.mem_toFinset.mp hv)).1
  have hcard : nodes.card ≤ s.queue.toFinset.card := by
    rw [List.toFinset_card_of_nodup h.nodup, hlen]
  intro v hv
  rw [← Finset.eq_of_subset_of_card_le hsub hcard] at hv
  exact List.mem_toFinset.mp hv

/-! ## Cycles -/

theorem exists_waiting (h : Sorted succ nodes waiting s.queue [] s) (hv : v ∈ nodes)
    (hq : v ∉ s.queue) : ∃ u ∈ nodes, u ∉ s.queue ∧ v ∈ succ u := by
  have hcount := h.count v hv
  rw [List.count_nil, Nat.zero_add] at hcount
  have hne : s.indegree.getD v 0 ≠ 0 := fun hzero => hq ((h.ready v).mpr ⟨hv, hzero⟩)
  rw [hcount] at hne
  obtain ⟨u, hu, hpos⟩ := Finset.exists_ne_zero_of_sum_ne_zero hne
  have hmem : v ∈ succ u := List.count_pos_iff.mp (Nat.pos_of_ne_zero hpos)
  exact ⟨u, (h.edges u v hmem).1, fun hdone => (h.taken u hdone).1 hu, hmem⟩

theorem exists_cycle {r : Nat → Nat → Prop} {outside : Finset Nat} (hne : outside.Nonempty)
    (hpred : ∀ v ∈ outside, ∃ u ∈ outside, r u v) : ∃ a, Relation.TransGen r a a := by
  by_contra hacyclic
  have hirrefl : ∀ a, ¬Relation.TransGen r a a := fun a ha => hacyclic ⟨a, ha⟩
  let step : outside → outside → Prop := fun a b => Relation.TransGen r a b
  have : IsTrans outside step := ⟨fun _ _ _ h1 h2 => Relation.TransGen.trans h1 h2⟩
  have : Std.Irrefl step := ⟨fun a => hirrefl a⟩
  have hwf : WellFounded step := Finite.wellFounded_of_trans_of_irrefl step
  obtain ⟨x, hx⟩ := hne
  obtain ⟨least, -, hleast⟩ := hwf.has_min Set.univ ⟨⟨x, hx⟩, trivial⟩
  obtain ⟨u, hu, hstep⟩ := hpred least least.2
  exact hleast ⟨u, hu⟩ trivial (.single hstep)

theorem idxOf_lt_of_edge (h : Sorted succ nodes waiting done rest s) (hu : u ∈ s.queue)
    (hv : v ∈ s.queue) (hedge : v ∈ succ u) : s.queue.idxOf u < s.queue.idxOf v := by
  have hulen := List.idxOf_lt_length_of_mem hu
  have hvlen := List.idxOf_lt_length_of_mem hv
  by_contra hle
  rcases Nat.lt_or_eq_of_le (Nat.not_lt.mp hle) with hlt | heq
  · have hno := List.pairwise_iff_getElem.mp h.order _ _ hvlen hulen hlt
    rw [List.getElem_idxOf, List.getElem_idxOf] at hno
    exact hno hedge
  · have hsame : u = v := ((List.idxOf_inj hv).mp heq).symm
    exact h.loopless u hu (hsame ▸ hedge)

theorem length_eq_iff (h : Sorted succ nodes waiting s.queue [] s) :
    s.queue.length = nodes.card ↔ ∀ a, ¬Relation.TransGen (fun u v => v ∈ succ u) a a := by
  constructor
  · intro hlen a hcycle
    have hall := mem_queue_of_length h hlen
    have hrise : ∀ b, Relation.TransGen (fun u v => v ∈ succ u) a b →
        s.queue.idxOf a < s.queue.idxOf b := by
      intro b hb
      induction hb with
      | single hedge =>
        obtain ⟨h1, h2⟩ := h.edges _ _ hedge
        exact idxOf_lt_of_edge h (hall _ h1) (hall _ h2) hedge
      | tail _ hedge ih =>
        obtain ⟨h1, h2⟩ := h.edges _ _ hedge
        exact Nat.lt_trans ih (idxOf_lt_of_edge h (hall _ h1) (hall _ h2) hedge)
    exact Nat.lt_irrefl _ (hrise a hcycle)
  · intro hacyclic
    apply Nat.le_antisymm (queue_length_le h)
    rw [← List.toFinset_card_of_nodup h.nodup]
    apply Finset.card_le_card
    intro v hv
    rw [List.mem_toFinset]
    by_contra hq
    obtain ⟨a, ha⟩ := @exists_cycle (fun u v => v ∈ succ u) (nodes.filter (· ∉ s.queue))
      ⟨v, Finset.mem_filter.mpr ⟨hv, hq⟩⟩ (by
        intro w hw
        obtain ⟨hwn, hwq⟩ := Finset.mem_filter.mp hw
        obtain ⟨u, hu, huq, hedge⟩ := exists_waiting h hwn hwq
        exact ⟨u, Finset.mem_filter.mpr ⟨hu, huq⟩, hedge⟩)
    exact hacyclic a ha

theorem loop_cycle_iff (hlength : ∀ v ∈ nodes, v < s.indegree.length)
    (hsucc : ∀ u v, v ∈ succ u → u ∈ nodes ∧ v ∈ nodes)
    (hdeg : ∀ v ∈ nodes, s.indegree.getD v 0 = ∑ u ∈ nodes, (succ u).count v)
    (hready : ∀ v, v ∈ s.queue ↔ v ∈ nodes ∧ s.indegree.getD v 0 = 0) (hnodup : s.queue.Nodup) :
    ∃ t, loop succ (nodes.card + 1) 0 s = some t ∧ (t.queue.length = nodes.card ↔
      ∀ a, ¬Relation.TransGen (fun u v => v ∈ succ u) a a) := by
  have h := sorted_start hlength hsucc hdeg hready hnodup
  obtain ⟨t, ht⟩ := Option.isSome_iff_exists.mp
    (loop_isSome h rfl (Nat.zero_le _) (Nat.lt_succ_self nodes.card))
  obtain ⟨_, hend⟩ := loop_sorted h rfl (Nat.zero_le _) ht
  exact ⟨t, ht, length_eq_iff hend⟩

theorem loop_start {n : Nat} {indegree : List Nat} (hn : indegree.length = n)
    (hsucc : ∀ u v, v ∈ succ u → u < n ∧ v < n)
    (hdeg : ∀ v < n, indegree.getD v 0 = ∑ u ∈ Finset.range n, (succ u).count v) :
    ∃ t, loop succ (n + 1) 0 (start indegree) = some t ∧ t.queue.Nodup ∧
      (t.queue.Pairwise fun a b => a ∉ succ b) ∧ (t.queue.length = n → ∀ v < n, v ∈ t.queue) := by
  have h : Sorted succ (Finset.range n) (Finset.range n) [] [] (start indegree) := by
    apply sorted_start
    · intro v hv
      rw [start, hn]
      exact Finset.mem_range.mp hv
    · intro u v hv
      rw [Finset.mem_range, Finset.mem_range]
      exact hsucc u v hv
    · intro v hv
      exact hdeg v (Finset.mem_range.mp hv)
    · intro v
      rw [start, List.mem_filter, List.mem_range, hn, beq_iff_eq, Finset.mem_range]
    · exact List.nodup_range.filter _
  obtain ⟨t, ht⟩ := Option.isSome_iff_exists.mp (loop_isSome h rfl (Nat.zero_le _)
    (by rw [Finset.card_range]; exact Nat.lt_succ_self n))
  obtain ⟨_, hend⟩ := loop_sorted h rfl (Nat.zero_le _) ht
  refine ⟨t, ht, hend.nodup, hend.order, fun hlen v hv => ?_⟩
  exact mem_queue_of_length hend (by rw [hlen, Finset.card_range]) v (Finset.mem_range.mpr hv)

end

end TopologicalOrder

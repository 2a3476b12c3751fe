import NativeImage.Proofs.Closure.Pure

/-!
# What a closure marks, and what it asks

A closure marks the nodes that are reachable from its roots and no others. Each of them is expanded
once: the context is asked once for its dependencies, and once for each request among them.

## Main statements

- `PureContext.closure_marks_reachable` — marked nodes, their dependencies, and the log
- `DependencyTable.closure_eq_run` — the bound on the rounds over a table is no restriction
-/

namespace NativeImage

open PureContext

namespace PureContext

variable {Failure Node Request : Type} {context : PureContext Failure Node Request}
  {roots : List Node} {node : Node}

/-! ## Sets of nodes that lead nowhere else -/

/-- The roots lie among `nodes`, none of which fails or needs any other node. -/
def ClosedUnder (context : PureContext Failure Node Request) (roots nodes : List Node) : Prop :=
  roots ⊆ nodes ∧ ∀ node ∈ nodes, ∃ needed, context.expand node = .ok needed ∧ needed ⊆ nodes

/-- Every reachable node is in such a set. -/
theorem ClosedUnder.mem_of_reachable {nodes : List Node} (h : context.ClosedUnder roots nodes)
    (hn : context.Reachable roots node) : node ∈ nodes := by
  induction hn with
  | root hm => exact h.1 hm
  | @step node other requests request hn hdeps hmem hres ih =>
    obtain ⟨needed, hexpand, hsub⟩ := h.2 node ih
    obtain ⟨requests', hdeps', hresolved⟩ := expand_eq_ok.1 hexpand
    cases hdeps.symm.trans hdeps'
    exact hsub ((mem_of_resolved hresolved).2 ⟨request, hmem, hres⟩)

theorem ClosedUnder.neverFails {nodes : List Node} (h : context.ClosedUnder roots nodes) :
    context.NeverFails roots := by
  intro node hn
  obtain ⟨needed, hexpand, -⟩ := h.2 node (h.mem_of_reachable hn)
  obtain ⟨requests, hdeps, hresolved⟩ := expand_eq_ok.1 hexpand
  exact ⟨requests, hdeps, exists_resolved_iff.1 ⟨needed, hresolved⟩⟩

/-! ## The end of the rounds -/

variable {closure : Closure Node} {log : List (ContextCall Node Request)}

/-- Without a frontier, the expanded nodes are all the marked ones. -/
theorem map_expanded (hdone : closure.frontier = []) :
    closure.expanded.map (·.1) = closure.nodes := by
  rw [Closure.nodes, hdone, List.append_nil]

variable [DecidableEq Node]

/-- At the end of the rounds the marked nodes are the reachable ones. -/
theorem Rounds.mem_nodes_iff (h : context.Rounds roots closure log)
    (hok : context.NeverFails roots) (hdone : closure.frontier = []) :
    node ∈ closure.nodes ↔ context.Reachable roots node := by
  refine ⟨h.reachable hok node, fun hn => ?_⟩
  induction hn with
  | root hm => exact h.mem_nodes_of_mem_roots hm
  | @step node other requests request hn hdeps hmem hres ih =>
    rw [← map_expanded hdone] at ih
    cases (hok.dependencies_eq hn).symm.trans hdeps
    exact h.mem_nodes_of_mem_needs ih ((hok.mem_needs_iff hn).2 ⟨request, hmem, hres⟩)

/-- A node is contained if it has been expanded. -/
theorem Rounds.contains_iff (hdone : closure.frontier = []) :
    closure.contains node = true ↔ node ∈ closure.nodes := by
  rw [← map_expanded hdone, Closure.contains, List.any_eq_true, List.mem_map]
  simp

theorem lookup_map_pair (f : Node → List Node) (list : List Node) (node : Node) :
    (list.map fun node => (node, f node)).lookup node =
      if node ∈ list then some (f node) else none := by
  induction list with
  | nil => rfl
  | cons head rest ih =>
    by_cases hhead : node = head
    · subst hhead
      simp
    · have hbeq : (node == head) = false := by simpa using hhead
      simp [List.lookup_cons, hbeq, ih, hhead]

/-- An expanded node is kept with what it needs, and no other node is. -/
theorem Rounds.dependenciesOf_eq (h : context.Rounds roots closure log)
    (hdone : closure.frontier = []) (node : Node) :
    closure.dependenciesOf node = if node ∈ closure.nodes then context.needs node else [] := by
  rw [Closure.dependenciesOf, h.expanded_eq, map_expanded hdone, lookup_map_pair]
  split <;> rfl

/-! ## The log -/

/-- The log has the questions of each expanded node, and nothing else. -/
theorem Rounds.log_eq (h : context.Rounds roots closure log) :
    log = ((closure.expanded.map (·.1)).flatMap context.calls).reverse := by
  induction h with
  | start => rfl
  | @next closure log h hfrontier ih =>
    have hexpanded : (closure.next (closure.frontier.map context.needs)).expanded.map (·.1) =
        closure.nodes := Closure.expanded_next (by simp)
    rw [hexpanded, Closure.nodes, List.flatMap_append, List.reverse_append, ← ih]

variable [DecidableEq Request]

theorem count_resolve_calls (request : Request) (node : Node) :
    (context.calls node).count (.resolve request) = (context.requestsOf node).count request := by
  have hinj : Function.Injective (ContextCall.resolve : Request → ContextCall Node Request) := by
    intro a b hab
    cases hab
    rfl
  rw [calls, List.count_cons, List.count_map_of_injective _ _ hinj]
  simp

theorem count_dependencies_cons (requests : List Request) (node other : Node) :
    (ContextCall.dependencies other :: requests.map .resolve).count (.dependencies node) =
      if node = other then 1 else 0 := by
  have hresolve : ContextCall.dependencies node ∉ requests.map .resolve := by
    simp
  by_cases hsame : node = other
  · subst hsame
    simp [List.count_eq_zero_of_not_mem hresolve]
  · simp [List.count_eq_zero_of_not_mem hresolve, hsame, Ne.symm hsame]

/-- A node is asked for its dependencies once, if it is asked for them at all, whichever of its
requests are resolved afterwards. -/
theorem count_dependencies_asked (requests : Node → List Request) {list : List Node}
    (h : list.Nodup) (node : Node) :
    (list.flatMap fun node =>
      ContextCall.dependencies node :: (requests node).map .resolve).count (.dependencies node) =
      if node ∈ list then 1 else 0 := by
  induction list with
  | nil => rfl
  | cons head rest ih =>
    obtain ⟨hhead, hrest⟩ := List.nodup_cons.1 h
    rw [List.flatMap_cons, List.count_append, count_dependencies_cons, ih hrest]
    by_cases hsame : node = head
    · subst hsame
      simp [hhead]
    · simp [hsame]

/-- A node is expanded once, if it is expanded at all. -/
theorem count_dependencies_flatMap {list : List Node} (h : list.Nodup) (node : Node) :
    (list.flatMap context.calls).count (.dependencies node) = if node ∈ list then 1 else 0 :=
  count_dependencies_asked context.requestsOf h node

/-- For every dependency context and all roots from which finitely many nodes are reachable, none
of which fails: the closure ends with exactly these nodes marked, each with its whole list of
resolved requests, after one question for the dependencies of each node and one for each of its
requests. -/
theorem closure_marks_reachable (context : PureContext Failure Node Request) (roots : List Node)
    (hfin : {node | context.Reachable roots node}.Finite) (hok : context.NeverFails roots) :
    ∃ closure log,
      (∀ bound, {node | context.Reachable roots node}.ncard ≤ bound →
        (Closure.start roots).run context.logged bound [] = .ok closure log) ∧
      closure.frontier = [] ∧
      (∀ node, node ∈ closure.nodes ↔ context.Reachable roots node) ∧
      closure.nodes.Nodup ∧
      (∀ node, closure.contains node = true ↔ node ∈ closure.nodes) ∧
      (∀ node ∈ closure.nodes, ∃ requests, context.dependencies node = .ok requests ∧
        requests.mapM context.resolve = .ok (closure.dependenciesOf node)) ∧
      (∀ node ∉ closure.nodes, closure.dependenciesOf node = []) ∧
      (∀ node, log.count (.dependencies node) = if node ∈ closure.nodes then 1 else 0) ∧
      (∀ request, log.count (.resolve request) =
        (closure.nodes.map fun node => (context.requestsOf node).count request).sum) := by
  obtain ⟨closure, log, h, hdone, hrun⟩ := exists_rounds hfin hok
  have hmarked (node : Node) : node ∈ closure.nodes ↔ context.Reachable roots node :=
    h.mem_nodes_iff hok hdone
  have hlog : log = (closure.nodes.flatMap context.calls).reverse := by
    rw [h.log_eq, map_expanded hdone]
  refine ⟨closure, log, hrun, hdone, hmarked, h.nodup_nodes, fun node => Rounds.contains_iff hdone,
    fun node hn => ?_, fun node hn => ?_, fun node => ?_, fun request => ?_⟩
  · have hreach : context.Reachable roots node := (hmarked node).1 hn
    rw [h.dependenciesOf_eq hdone, if_pos hn]
    exact ⟨_, hok.dependencies_eq hreach, hok.resolved hreach⟩
  · rw [h.dependenciesOf_eq hdone, if_neg hn]
  · rw [hlog, List.count_reverse, count_dependencies_flatMap h.nodup_nodes]
  · rw [hlog, List.count_reverse, List.count_flatMap]
    refine congrArg List.sum (List.map_congr_left fun node _ => ?_)
    exact count_resolve_calls request node

end PureContext

/-! ## Tables -/

namespace DependencyTable

variable (table : DependencyTable) (roots : List Int)

/-- The nodes that listed requests stand for. -/
def targets : List Int :=
  (table.requests.flatMap fun entry => entry.2).map fun request =>
    (lastValue? table.aliases request).getD request

variable {table roots} {node : Int}

/-- The requests of a node are listed. -/
theorem mem_requests_of_lastValue? {requests : List Int} {request : Int}
    (h : lastValue? table.requests node = some requests) (hr : request ∈ requests) :
    request ∈ table.requests.flatMap fun entry => entry.2 := by
  obtain ⟨before, after, hsplit, -⟩ := List.lookup_eq_some_iff.1 h
  have hentry : (node, requests) ∈ table.requests := by
    rw [← List.mem_reverse, hsplit]
    exact List.mem_append_right _ List.mem_cons_self
  exact List.mem_flatMap.2 ⟨(node, requests), hentry, hr⟩

/-- Every reachable node is a root or the node of a listed request. -/
theorem mem_of_reachable (h : table.context.Reachable roots node) :
    node ∈ roots ++ table.targets := by
  cases h with
  | root hm => exact List.mem_append_left _ hm
  | @step parent _ requests request hn hdeps hmem hres =>
    refine List.mem_append_right _ (List.mem_map.2 ⟨request, ?_, ?_⟩)
    · simp only [context] at hdeps
      split at hdeps
      · cases hdeps
      · cases hlast : lastValue? table.requests parent with
        | none =>
          rw [hlast] at hdeps
          cases hdeps
          cases hmem
        | some listed =>
          rw [hlast] at hdeps
          cases hdeps
          exact mem_requests_of_lastValue? hlast hmem
    · simp only [context] at hres
      split at hres
      · cases hres
      · cases hres
        rfl

variable (table roots)

theorem finite_reachable : {node | table.context.Reachable roots node}.Finite :=
  (roots ++ table.targets).finite_toSet.subset fun _ hn => mem_of_reachable hn

theorem ncard_reachable_le : {node | table.context.Reachable roots node}.ncard ≤
    table.nodeBound roots := by
  have hsub : {node | table.context.Reachable roots node} ⊆
      ((roots ++ table.targets).toFinset : Set Int) :=
    fun node hn => by simpa using mem_of_reachable hn
  calc {node | table.context.Reachable roots node}.ncard
      ≤ ((roots ++ table.targets).toFinset : Set Int).ncard :=
        Set.ncard_le_ncard hsub (Finset.finite_toSet _)
    _ = (roots ++ table.targets).toFinset.card := Set.ncard_coe_finset _
    _ ≤ (roots ++ table.targets).length := List.toFinset_card_le _
    _ = table.nodeBound roots := by simp [targets, nodeBound]

/-- If nothing fails, more rounds than the bound allows for would change nothing. -/
theorem closure_eq_run (hok : table.context.NeverFails roots) (more : Nat) :
    table.closure roots [] =
      (Closure.start roots).run table.context.logged (table.nodeBound roots + more) [] := by
  obtain ⟨closure, log, -, -, hrun⟩ := exists_rounds (table.finite_reachable roots) hok
  have hle := table.ncard_reachable_le roots
  rw [DependencyTable.closure, hrun _ hle, hrun _ (hle.trans (Nat.le_add_right _ _))]

/-- Nodes that need each other in a loop, one of them under two names; the node that fails is out
of reach. -/
def loop : DependencyTable where
  requests := [(1, [12, 3, 12]), (2, [2, 4]), (3, [4, 1]), (4, [5, 1]), (9, [1])]
  aliases := [(12, 2)]
  badNodes := [9]
  badRequests := [9]

theorem loop_closedUnder : loop.context.ClosedUnder [1, 3, 1] [1, 2, 3, 4, 5] := by
  refine ⟨by decide, fun node hn => ?_⟩
  simp only [List.mem_cons, List.not_mem_nil, or_false] at hn
  rcases hn with rfl | rfl | rfl | rfl | rfl
  · exact ⟨[2, 3, 2], rfl, by decide⟩
  · exact ⟨[2, 4], rfl, by decide⟩
  · exact ⟨[4, 1], rfl, by decide⟩
  · exact ⟨[5, 1], rfl, by decide⟩
  · exact ⟨[], rfl, by decide⟩

theorem loop_marks_reachable : ∃ closure log,
    loop.closure [1, 3, 1] [] = .ok closure log ∧
      (∀ node, node ∈ closure.nodes ↔ loop.context.Reachable [1, 3, 1] node) ∧
      log.count (.resolve 12) = 2 := by
  obtain ⟨closure, log, hrun, -, hmarked, -, -, -, -, -, -⟩ := closure_marks_reachable
    loop.context [1, 3, 1] (loop.finite_reachable _) loop_closedUnder.neverFails
  have hclosure := hrun _ (loop.ncard_reachable_le [1, 3, 1])
  refine ⟨closure, log, hclosure, hmarked, ?_⟩
  cases hclosure
  rfl

end DependencyTable

end NativeImage

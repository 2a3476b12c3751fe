import Mathlib.Data.Set.Card
import NativeImage.Closure.Table
import NativeImage.Proofs.Closure.Lockstep

/-!
# Closures over answers that do not change

In a context without state every question has one answer. The nodes that a closure may come to are
then those that are reachable from its roots; if they are finitely many and none of them fails, the
rounds come to an end, after no more of them than there are reachable nodes.

## Main definitions

- `PureContext.expand`, `PureContext.needs`, `PureContext.calls` — what expanding a node comes to
- `PureContext.Reachable`, `PureContext.NeverFails` — reachable nodes, and that none of them fails
- `PureContext.Rounds` — what rounds lead to while nothing fails

## Main statements

- `PureContext.advance_logged` — a round in which nothing fails
- `PureContext.Rounds.nodes_eq` — marked nodes are the first occurrences of all that is needed
- `PureContext.exists_rounds` — the rounds end, whatever the bound beyond the reachable nodes
-/

namespace NativeImage

variable {Failure Node Request : Type}

/-! ## New entries -/

section Unseen

variable [DecidableEq Node]

/-- Of the entries seen before, only which ones they are counts. -/
theorem unseen_congr {seen seen' : List Node} (h : ∀ node, node ∈ seen ↔ node ∈ seen')
    (list : List Node) : unseen seen list = unseen seen' list := by
  induction list generalizing seen seen' with
  | nil => rfl
  | cons head rest ih =>
    have hcons : ∀ node, node ∈ head :: seen ↔ node ∈ head :: seen' := by
      intro node
      rw [List.mem_cons, List.mem_cons, h]
    simp only [unseen, h head, ih h, ih hcons]

/-- What is new in two lists together is what is new in the first one, and then in the second. -/
theorem unseen_append (seen list more : List Node) :
    unseen seen (list ++ more) = unseen seen list ++ unseen (seen ++ unseen seen list) more := by
  induction list generalizing seen with
  | nil => simp [unseen]
  | cons head rest ih =>
    by_cases hknown : head ∈ seen
    · simp only [List.cons_append, unseen, if_pos hknown, ih]
    · have hseen : ∀ node, node ∈ head :: (seen ++ unseen (head :: seen) rest) ↔
          node ∈ seen ++ head :: unseen (head :: seen) rest := by
        intro node
        simp only [List.mem_cons, List.mem_append]
        tauto
      simp only [List.cons_append, unseen, if_neg hknown, ih, unseen_congr hseen]

/-- The new entries are the first occurrences of those that have not been seen. -/
theorem unseen_eq_eraseDups (seen list : List Node) :
    unseen seen list = (list.filter fun node => node ∉ seen).eraseDups := by
  induction list generalizing seen with
  | nil => rfl
  | cons head rest ih =>
    by_cases hknown : head ∈ seen
    · simp [unseen, hknown, ih]
    · have hfilter : rest.filter (fun node => node ∉ head :: seen) =
          (rest.filter fun node => node ∉ seen).filter fun node => !node == head := by
        rw [List.filter_filter]
        refine List.filter_congr fun node _ => ?_
        by_cases hhead : node = head <;> simp [hhead]
      rw [unseen, if_neg hknown, ih, hfilter, List.filter_cons_of_pos (by simpa using hknown),
        List.eraseDups_cons]

theorem unseen_nil (list : List Node) : unseen [] list = list.eraseDups := by
  simp [unseen_eq_eraseDups]

end Unseen

namespace PureContext

/-! ## Answers -/

/-- The nodes that the requests of a node stand for, or the first failure. -/
def expand (context : PureContext Failure Node Request) (node : Node) :
    Except Failure (List Node) := do
  (← context.dependencies node).mapM context.resolve

/-- The requests of a node, none if asking for them fails. -/
def requestsOf (context : PureContext Failure Node Request) (node : Node) : List Request :=
  (context.dependencies node).toOption.getD []

/-- The nodes that the requests of a node stand for, none if one of the questions fails. -/
def needs (context : PureContext Failure Node Request) (node : Node) : List Node :=
  (context.expand node).toOption.getD []

/-- The questions asked to expand a node. -/
def calls (context : PureContext Failure Node Request) (node : Node) :
    List (ContextCall Node Request) :=
  .dependencies node :: (context.requestsOf node).map .resolve

/-- A root, or a node that a request of a reachable node stands for. -/
inductive Reachable (context : PureContext Failure Node Request) (roots : List Node) : Node → Prop
  | root {node : Node} (h : node ∈ roots) : Reachable context roots node
  | step {node other : Node} {requests : List Request} {request : Request}
      (h : Reachable context roots node) (hdeps : context.dependencies node = .ok requests)
      (hmem : request ∈ requests) (hres : context.resolve request = .ok other) :
      Reachable context roots other

/-- Every question that a reachable node leads to has an answer. -/
def NeverFails (context : PureContext Failure Node Request) (roots : List Node) : Prop :=
  ∀ node, context.Reachable roots node → ∃ requests, context.dependencies node = .ok requests ∧
    ∀ request ∈ requests, ∃ other, context.resolve request = .ok other

variable {context : PureContext Failure Node Request} {roots : List Node} {node : Node}

/-- All requests have answers if the first one has and the others have. -/
theorem resolved_cons_iff {request : Request} {rest : List Request} {nodes : List Node} :
    (request :: rest).mapM context.resolve = .ok nodes ↔ ∃ first others,
      context.resolve request = .ok first ∧ rest.mapM context.resolve = .ok others ∧
        nodes = first :: others := by
  rw [List.mapM_cons]
  cases context.resolve request with
  | error e =>
    constructor
    · intro h
      cases h
    · rintro ⟨_, _, h, -, -⟩
      cases h
  | ok first =>
    cases rest.mapM context.resolve with
    | error e =>
      constructor
      · intro h
        cases h
      · rintro ⟨_, _, -, h, -⟩
        cases h
    | ok others =>
      constructor
      · intro h
        cases h
        exact ⟨first, others, rfl, rfl, rfl⟩
      · rintro ⟨_, _, hfirst, hothers, rfl⟩
        cases hfirst
        cases hothers
        rfl

/-- All requests have answers if each one has. -/
theorem exists_resolved_iff {requests : List Request} :
    (∃ nodes, requests.mapM context.resolve = .ok nodes) ↔
      ∀ request ∈ requests, ∃ other, context.resolve request = .ok other := by
  induction requests with
  | nil => exact ⟨fun _ request hr => absurd hr List.not_mem_nil, fun _ => ⟨[], rfl⟩⟩
  | cons request rest ih =>
    rw [List.forall_mem_cons, ← ih]
    constructor
    · rintro ⟨nodes, h⟩
      obtain ⟨first, others, hfirst, hothers, -⟩ := resolved_cons_iff.1 h
      exact ⟨⟨first, hfirst⟩, ⟨others, hothers⟩⟩
    · rintro ⟨⟨first, hfirst⟩, ⟨others, hothers⟩⟩
      exact ⟨first :: others, resolved_cons_iff.2 ⟨first, others, hfirst, hothers, rfl⟩⟩

theorem mem_of_resolved {requests : List Request} {nodes : List Node}
    (h : requests.mapM context.resolve = .ok nodes) {other : Node} :
    other ∈ nodes ↔ ∃ request ∈ requests, context.resolve request = .ok other := by
  induction requests generalizing nodes with
  | nil =>
    cases h
    simp
  | cons request rest ih =>
    obtain ⟨first, others, hfirst, hothers, rfl⟩ := resolved_cons_iff.1 h
    simp [ih hothers, hfirst, eq_comm]

theorem expand_eq_ok {needed : List Node} : context.expand node = .ok needed ↔
    ∃ requests, context.dependencies node = .ok requests ∧
      requests.mapM context.resolve = .ok needed := by
  rw [expand]
  cases context.dependencies node with
  | error e =>
    constructor
    · intro h
      cases h
    · rintro ⟨requests, h, -⟩
      cases h
  | ok requests =>
    constructor
    · intro h
      exact ⟨requests, rfl, h⟩
    · rintro ⟨requests', hdeps, h⟩
      cases hdeps
      exact h

namespace NeverFails

variable (h : context.NeverFails roots)
include h

theorem dependencies_eq (hn : context.Reachable roots node) :
    context.dependencies node = .ok (context.requestsOf node) := by
  obtain ⟨requests, hdeps, -⟩ := h node hn
  rw [requestsOf, hdeps]
  rfl

theorem expand_eq (hn : context.Reachable roots node) :
    context.expand node = .ok (context.needs node) := by
  obtain ⟨requests, hdeps, hres⟩ := h node hn
  obtain ⟨nodes, hnodes⟩ := exists_resolved_iff.2 hres
  have hexpand : context.expand node = .ok nodes := expand_eq_ok.2 ⟨requests, hdeps, hnodes⟩
  rw [needs, hexpand]
  rfl

theorem resolved (hn : context.Reachable roots node) :
    (context.requestsOf node).mapM context.resolve = .ok (context.needs node) := by
  obtain ⟨requests, hdeps, hnodes⟩ := expand_eq_ok.1 (h.expand_eq hn)
  cases (h.dependencies_eq hn).symm.trans hdeps
  exact hnodes

theorem mem_needs_iff (hn : context.Reachable roots node) {other : Node} :
    other ∈ context.needs node ↔
      ∃ request ∈ context.requestsOf node, context.resolve request = .ok other :=
  mem_of_resolved (h.resolved hn)

/-- What a reachable node needs is reachable. -/
theorem reachable_of_mem_needs (hn : context.Reachable roots node) {other : Node}
    (hother : other ∈ context.needs node) : context.Reachable roots other := by
  obtain ⟨request, hmem, hres⟩ := (h.mem_needs_iff hn).1 hother
  exact .step hn (h.dependencies_eq hn) hmem hres

end NeverFails

/-! ## Questions to a context with a log -/

/-- Requests that have answers are resolved one after another. -/
theorem resolve_logged {requests : List Request} {nodes : List Node}
    (h : requests.mapM context.resolve = .ok nodes) (log : List (ContextCall Node Request)) :
    requests.mapM context.logged.resolve log =
      .ok nodes ((requests.map .resolve).reverse ++ log) := by
  induction requests generalizing nodes log with
  | nil =>
    cases h
    rfl
  | cons request rest ih =>
    obtain ⟨first, others, hfirst, hothers, rfl⟩ := resolved_cons_iff.1 h
    have hlogged : context.logged.resolve request log = .ok first (.resolve request :: log) := by
      simp only [logged, hfirst]
    rw [List.mapM_cons]
    refine bind_eq_ok.2 ⟨first, _, hlogged, bind_eq_ok.2 ⟨others, _, ih hothers _, ?_⟩⟩
    rw [List.map_cons, List.reverse_cons, List.append_assoc]
    rfl

/-- Expanding a reachable node asks for its dependencies and then for each of them. -/
theorem expand_logged (h : context.NeverFails roots) (hn : context.Reachable roots node)
    (log : List (ContextCall Node Request)) :
    Closure.expand context.logged node log =
      .ok (context.needs node) ((context.calls node).reverse ++ log) := by
  have hdeps : context.logged.dependencies node log =
      .ok (context.requestsOf node) (.dependencies node :: log) := by
    simp only [logged, h.dependencies_eq hn]
  rw [Closure.expand, bind_of_ok hdeps, resolve_logged (h.resolved hn), calls, List.reverse_cons,
    List.append_assoc]
  rfl

/-- Without failures there is a result for each entry. -/
theorem allOrFirstFailure_map_ok {α β : Type} (f : α → β) (list : List α) :
    allOrFirstFailure (list.map fun a => (.ok (f a) : Except Failure β)) = .ok (list.map f) := by
  induction list with
  | nil => rfl
  | cons head rest ih => rw [List.map_cons, allOrFirstFailure, ih, List.map_cons]

/-- Expanding reachable nodes one after another. -/
theorem attempts_logged (h : context.NeverFails roots) {isFatal : Failure → Bool}
    {list : List Node} (hlist : ∀ node ∈ list, context.Reachable roots node)
    (log : List (ContextCall Node Request)) :
    (list.mapM fun node => attempt isFatal (Closure.expand context.logged node)) log =
      .ok (list.map fun node => .ok (context.needs node))
        ((list.flatMap context.calls).reverse ++ log) := by
  induction list generalizing log with
  | nil => rfl
  | cons node rest ih =>
    have hnode : attempt isFatal (Closure.expand context.logged node) log =
        .ok (.ok (context.needs node)) ((context.calls node).reverse ++ log) :=
      attempt_eq_ok_ok.2 (expand_logged h (hlist node List.mem_cons_self) log)
    have hrest := ih (fun node hm => hlist node (List.mem_cons_of_mem _ hm))
      ((context.calls node).reverse ++ log)
    rw [List.mapM_cons, bind_of_ok hnode, bind_of_ok hrest, List.flatMap_cons, List.reverse_append,
      List.append_assoc]
    rfl

variable [DecidableEq Node]

/-- A round in which nothing fails. -/
theorem advance_logged (h : context.NeverFails roots) {closure : Closure Node}
    (hfrontier : ∀ node ∈ closure.frontier, context.Reachable roots node)
    (log : List (ContextCall Node Request)) :
    closure.advance context.logged log = .ok (closure.next (closure.frontier.map context.needs))
      ((closure.frontier.flatMap context.calls).reverse ++ log) := by
  rw [Closure.advance, bind_of_ok (attempts_logged h hfrontier log), allOrFirstFailure_map_ok]
  rfl

/-! ## Rounds -/

/-- What rounds lead to, with the log of their questions, as long as nothing fails. -/
inductive Rounds (context : PureContext Failure Node Request) (roots : List Node) :
    Closure Node → List (ContextCall Node Request) → Prop
  | start : Rounds context roots (Closure.start roots) []
  | next {closure : Closure Node} {log : List (ContextCall Node Request)}
      (h : Rounds context roots closure log) (hfrontier : closure.frontier ≠ []) :
      Rounds context roots (closure.next (closure.frontier.map context.needs))
        ((closure.frontier.flatMap context.calls).reverse ++ log)

namespace Rounds

variable {closure : Closure Node} {log : List (ContextCall Node Request)}

/-- What a round marks comes after what has been marked. -/
theorem nodes_next (closure : Closure Node) (needs : Node → List Node) :
    (closure.next (closure.frontier.map needs)).nodes =
      closure.nodes ++ unseen closure.nodes (closure.frontier.flatMap needs) := by
  have hexpanded : (closure.next (closure.frontier.map needs)).expanded.map (·.1) =
      closure.nodes := Closure.expanded_next (by simp)
  rw [Closure.nodes, hexpanded, List.flatMap_def]
  rfl

/-- Every expanded node is listed with what it needs. -/
theorem expanded_eq (h : context.Rounds roots closure log) :
    closure.expanded = (closure.expanded.map (·.1)).map fun node => (node, context.needs node) := by
  induction h with
  | start => rfl
  | @next closure log h hfrontier ih =>
    have hzip : closure.frontier.zip (closure.frontier.map context.needs) =
        closure.frontier.map fun node => (node, context.needs node) := by
      simpa using List.zip_map' (f := id) (g := context.needs) (l := closure.frontier)
    rw [Closure.next, hzip, List.map_append, List.map_append, ← ih]
    simp

/-- Marked nodes are the first occurrences among the roots and what the expanded nodes need. -/
theorem nodes_eq (h : context.Rounds roots closure log) :
    closure.nodes = unseen [] (roots ++ (closure.expanded.map (·.1)).flatMap context.needs) := by
  induction h with
  | start => simp [Closure.start, Closure.nodes]
  | @next closure log h hfrontier ih =>
    have hexpanded : (closure.next (closure.frontier.map context.needs)).expanded.map (·.1) =
        closure.nodes := Closure.expanded_next (by simp)
    rw [hexpanded, nodes_next, Closure.nodes, List.flatMap_append,
      ← List.append_assoc, unseen_append, ← ih, List.nil_append]
    rfl

theorem nodup_nodes (h : context.Rounds roots closure log) : closure.nodes.Nodup := by
  rw [h.nodes_eq]
  exact nodup_unseen _ _

theorem mem_nodes_of_mem_roots (h : context.Rounds roots closure log) (hn : node ∈ roots) :
    node ∈ closure.nodes := by
  rw [h.nodes_eq]
  simp [hn]

/-- What an expanded node needs is marked. -/
theorem mem_nodes_of_mem_needs (h : context.Rounds roots closure log)
    (hn : node ∈ closure.expanded.map (·.1)) {other : Node} (hother : other ∈ context.needs node) :
    other ∈ closure.nodes := by
  rw [h.nodes_eq, mem_unseen, List.mem_append, List.mem_flatMap]
  exact ⟨.inr ⟨node, hn, hother⟩, List.not_mem_nil⟩

/-- Marked nodes are reachable. -/
theorem reachable (hok : context.NeverFails roots) (h : context.Rounds roots closure log) :
    ∀ node ∈ closure.nodes, context.Reachable roots node := by
  induction h with
  | start =>
    intro node hn
    have hroot : node ∈ roots := by simpa [Closure.start, Closure.nodes] using hn
    exact .root hroot
  | @next closure log h hfrontier ih =>
    intro node hn
    rw [nodes_next, List.mem_append, mem_unseen, List.mem_flatMap] at hn
    rcases hn with hold | ⟨⟨parent, hparent, hnode⟩, -⟩
    · exact ih node hold
    · exact hok.reachable_of_mem_needs (ih parent (List.mem_append_right _ hparent)) hnode

/-- Every round expands some node. -/
theorem rounds_le (h : context.Rounds roots closure log) :
    closure.rounds ≤ closure.expanded.length := by
  induction h with
  | start => exact le_rfl
  | @next closure log h hfrontier ih =>
    have hpos : 0 < closure.frontier.length := List.length_pos_iff.2 hfrontier
    simp only [Closure.next, List.length_append, List.length_zip, List.length_map]
    omega

/-- With a node left to expand, there have been fewer rounds than there are reachable nodes. -/
theorem rounds_lt (hfin : {node | context.Reachable roots node}.Finite)
    (hok : context.NeverFails roots) (h : context.Rounds roots closure log)
    (hfrontier : closure.frontier ≠ []) :
    closure.rounds < {node | context.Reachable roots node}.ncard := by
  have hsub : (closure.nodes.toFinset : Set Node) ⊆ {node | context.Reachable roots node} :=
    fun node hn => h.reachable hok node (by simpa using hn)
  have hcard : closure.nodes.length ≤ {node | context.Reachable roots node}.ncard := by
    rw [← List.toFinset_card_of_nodup h.nodup_nodes, ← Set.ncard_coe_finset]
    exact Set.ncard_le_ncard hsub hfin
  have hpos : 0 < closure.frontier.length := List.length_pos_iff.2 hfrontier
  have hle : closure.rounds ≤ closure.expanded.length := h.rounds_le
  have hlength : closure.nodes.length = closure.expanded.length + closure.frontier.length := by
    rw [Closure.nodes, List.length_append, List.length_map]
  omega

/-- Rounds go on to the end of the frontier, if the bound allows for as many as there are reachable
nodes. -/
theorem exists_run (hfin : {node | context.Reachable roots node}.Finite)
    (hok : context.NeverFails roots) (h : context.Rounds roots closure log) :
    ∃ last log', context.Rounds roots last log' ∧ last.frontier = [] ∧
      ∀ bound, {node | context.Reachable roots node}.ncard ≤ closure.rounds + bound →
        closure.run context.logged bound log = .ok last log' := by
  -- the induction is on the rounds that are still possible
  induction hleft : {node | context.Reachable roots node}.ncard - closure.rounds
    generalizing closure log with
  | zero =>
    have hdone : closure.frontier = [] := by
      by_contra hne
      have := h.rounds_lt hfin hok hne
      omega
    exact ⟨closure, log, h, hdone, fun bound _ => Closure.run_of_frontier_eq_nil hdone bound⟩
  | succ left ih =>
    by_cases hdone : closure.frontier = []
    · exact ⟨closure, log, h, hdone, fun bound _ => Closure.run_of_frontier_eq_nil hdone bound⟩
    · have hfrontier : ∀ node ∈ closure.frontier, context.Reachable roots node :=
        fun node hn => h.reachable hok node (List.mem_append_right _ hn)
      have hround : (closure.next (closure.frontier.map context.needs)).rounds =
          closure.rounds + 1 := rfl
      obtain ⟨last, log', hlast, hnil, hrun⟩ := ih (h.next hdone) (by omega)
      refine ⟨last, log', hlast, hnil, fun bound hbound => ?_⟩
      have hlt := h.rounds_lt hfin hok hdone
      obtain ⟨bound, rfl⟩ : ∃ n, bound = n + 1 := ⟨bound - 1, by omega⟩
      rw [Closure.run_of_frontier_ne_nil hdone, bind_of_ok (advance_logged hok hfrontier log)]
      exact hrun bound (by omega)

end Rounds

/-- A closure over finitely many nodes, none of which fails, comes to an end. -/
theorem exists_rounds (hfin : {node | context.Reachable roots node}.Finite)
    (hok : context.NeverFails roots) :
    ∃ closure log, context.Rounds roots closure log ∧ closure.frontier = [] ∧
      ∀ bound, {node | context.Reachable roots node}.ncard ≤ bound →
        (Closure.start roots).run context.logged bound [] = .ok closure log := by
  obtain ⟨closure, log, h, hdone, hrun⟩ := Rounds.start.exists_run hfin hok
  refine ⟨closure, log, h, hdone, fun bound hbound => hrun bound ?_⟩
  exact hbound.trans (Nat.le_add_left _ _)

end PureContext

end NativeImage

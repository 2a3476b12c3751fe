import Mathlib.Order.Lattice.Nat
import NativeImage.Proofs.Closure.Reachability

/-!
# Rounds and a queue

A closure expands a whole frontier at once. A worklist takes one node at a time from a queue and
appends to it what it has not found before. Both find the same nodes in the same order: a round is
as many steps of the worklist as the frontier is long. It is also the order of the distance from
the roots, one round for each distance.

## Main definitions

- `Worklist`, `Worklist.step`, `Worklist.run` — one node at a time
- `PureContext.Path`, `PureContext.distance` — the fewest requests from a root to a node

## Main statements

- `PureContext.run_frontier` — a round is a number of steps of the worklist
- `PureContext.Rounds.levels` — each round marks the nodes of one distance
- `PureContext.closure_follows_worklist` — the closure and the worklist find the same
-/

namespace NativeImage

/-- A list whose entries all have results has these results. -/
theorem mapM_eq_map {ε α β : Type} {f : α → Except ε β} {g : α → β} {list : List α}
    (h : ∀ a ∈ list, f a = .ok (g a)) : list.mapM f = .ok (list.map g) := by
  induction list with
  | nil => rfl
  | cons head rest ih =>
    obtain ⟨hhead, hrest⟩ := List.forall_mem_cons.1 h
    rw [List.mapM_cons, hhead, ih hrest]
    rfl

/-- A queue of nodes, and all that have ever been in it. -/
structure Worklist (Node : Type) where
  /-- The nodes found so far, in the order in which they were found. -/
  found : List Node
  /-- Found nodes that have not been expanded. -/
  queue : List Node

namespace Worklist

variable {Failure Node Request : Type} [DecidableEq Node]

/-- A node that is new is found, and waits in the queue. -/
def add (list : Worklist Node) (node : Node) : Worklist Node :=
  if node ∈ list.found then list else ⟨list.found ++ [node], list.queue ++ [node]⟩

def start (roots : List Node) : Worklist Node := roots.foldl add ⟨[], []⟩

/-- The first node of the queue is expanded, and what it needs is added, one node after another. -/
def step (context : PureContext Failure Node Request) (list : Worklist Node) :
    Except Failure (Worklist Node) :=
  match list.queue with
  | [] => .ok list
  | node :: rest => do
    let needed ← context.expand node
    return needed.foldl add ⟨list.found, rest⟩

def run (context : PureContext Failure Node Request) :
    (steps : Nat) → Worklist Node → Except Failure (Worklist Node)
  | 0, list => .ok list
  | steps + 1, list => do run context steps (← step context list)

variable {context : PureContext Failure Node Request}

theorem foldl_add (nodes found queue : List Node) :
    nodes.foldl add ⟨found, queue⟩ =
      ⟨found ++ unseen found nodes, queue ++ unseen found nodes⟩ := by
  induction nodes generalizing found queue with
  | nil => simp [unseen]
  | cons node rest ih =>
    by_cases hknown : node ∈ found
    · rw [List.foldl_cons, add, if_pos hknown, ih, unseen, if_pos hknown]
    · have hseen : ∀ other, other ∈ found ++ [node] ↔ other ∈ node :: found := by
        intro other
        simp only [List.mem_append, List.mem_cons]
        tauto
      rw [List.foldl_cons, add, if_neg hknown, ih, unseen_congr hseen, unseen, if_neg hknown]
      simp only [List.append_assoc, List.singleton_append]

theorem start_eq (roots : List Node) : start roots = ⟨unseen [] roots, unseen [] roots⟩ := by
  rw [start, foldl_add]
  rfl

theorem step_of_expand {node : Node} {rest found needed : List Node}
    (h : context.expand node = .ok needed) :
    step context ⟨found, node :: rest⟩ =
      .ok ⟨found ++ unseen found needed, rest ++ unseen found needed⟩ := by
  simp only [step, h, ← foldl_add]
  rfl

/-- Steps one after another. -/
theorem run_add {first second : Nat} {list middle : Worklist Node}
    (h : run context first list = .ok middle) :
    run context (first + second) list = run context second middle := by
  induction first generalizing list with
  | zero =>
    cases h
    rw [Nat.zero_add]
  | succ first ih =>
    rw [Nat.succ_add, run]
    rw [run] at h
    cases hstep : step context list with
    | error e =>
      rw [hstep] at h
      cases h
    | ok after =>
      rw [hstep] at h
      exact ih h

/-- Without a queue there is nothing to do. -/
theorem run_of_queue_eq_nil {list : Worklist Node} (h : list.queue = []) (steps : Nat) :
    run context steps list = .ok list := by
  induction steps with
  | zero => rfl
  | succ steps ih =>
    have hstep : step context list = .ok list := by simp only [step, h]
    rw [run, hstep]
    exact ih

end Worklist

namespace PureContext

variable {Failure Node Request : Type} {context : PureContext Failure Node Request}
  {roots : List Node} {node : Node}

/-! ## Distance from the roots -/

/-- A root, or a node at the end of a chain of so many requests that begins at a root. -/
inductive Path (context : PureContext Failure Node Request) (roots : List Node) :
    Nat → Node → Prop
  | root {node : Node} (h : node ∈ roots) : Path context roots 0 node
  | step {length : Nat} {node other : Node} {requests : List Request} {request : Request}
      (h : Path context roots length node) (hdeps : context.dependencies node = .ok requests)
      (hmem : request ∈ requests) (hres : context.resolve request = .ok other) :
      Path context roots (length + 1) other

/-- The fewest requests that lead from a root to the node. -/
noncomputable def distance (context : PureContext Failure Node Request) (roots : List Node)
    (node : Node) : Nat :=
  sInf {length | context.Path roots length node}

theorem Path.reachable {length : Nat} (h : context.Path roots length node) :
    context.Reachable roots node := by
  induction h with
  | root hm => exact .root hm
  | step _ hdeps hmem hres ih => exact .step ih hdeps hmem hres

theorem Path.distance_le {length : Nat} (h : context.Path roots length node) :
    context.distance roots node ≤ length :=
  Nat.sInf_le h

/-- Some path to a reachable node is no longer than its distance. -/
theorem Path.shortest {length : Nat} (h : context.Path roots length node) :
    context.Path roots (context.distance roots node) node := by
  have hne : {length | context.Path roots length node}.Nonempty := ⟨length, h⟩
  exact Nat.sInf_mem hne

theorem Path.needs {length : Nat} (hok : context.NeverFails roots)
    (h : context.Path roots length node) {other : Node} (hother : other ∈ context.needs node) :
    context.Path roots (length + 1) other := by
  obtain ⟨request, hmem, hres⟩ := (hok.mem_needs_iff h.reachable).1 hother
  exact .step h (hok.dependencies_eq h.reachable) hmem hres

/-- Expanding the reachable nodes one after another, without a queue. -/
theorem NeverFails.mapM_expand (hok : context.NeverFails roots) {list : List Node}
    (hlist : ∀ node ∈ list, context.Reachable roots node) :
    list.mapM context.expand = .ok (list.map context.needs) :=
  mapM_eq_map fun node hn => hok.expand_eq (hlist node hn)

/-- A reachable node is at the end of some path. -/
theorem Reachable.exists_path (h : context.Reachable roots node) :
    ∃ length, context.Path roots length node := by
  induction h with
  | root hm => exact ⟨0, .root hm⟩
  | step _ hdeps hmem hres ih =>
    obtain ⟨length, hpath⟩ := ih
    exact ⟨length + 1, .step hpath hdeps hmem hres⟩

variable {closure : Closure Node} {log : List (ContextCall Node Request)}

/-- A closure has marked the nodes up to some distance from the roots, and has yet to expand those
at this distance. -/
structure Levels (context : PureContext Failure Node Request) (roots : List Node)
    (closure : Closure Node) : Prop where
  /-- Nothing within the distance is missing. -/
  complete : ∀ length ≤ closure.rounds, ∀ node, context.Path roots length node →
    node ∈ closure.nodes
  expanded_lt : ∀ node ∈ closure.expanded.map (·.1), context.distance roots node < closure.rounds
  frontier_path : ∀ node ∈ closure.frontier, context.Path roots closure.rounds node
  frontier_eq : ∀ node ∈ closure.frontier, context.distance roots node = closure.rounds
  /-- The last round had something to expand. -/
  last : closure.rounds = 0 ∨
    ∃ node ∈ closure.nodes, context.distance roots node + 1 = closure.rounds
  sorted : closure.nodes.Pairwise fun a b => context.distance roots a ≤ context.distance roots b

/-- Every marked node is as near as the rounds say, or nearer. -/
theorem Levels.distance_le (h : context.Levels roots closure) (hn : node ∈ closure.nodes) :
    context.distance roots node ≤ closure.rounds := by
  rcases List.mem_append.1 hn with hexpanded | hfrontier
  · exact (h.expanded_lt node hexpanded).le
  · exact (h.frontier_eq node hfrontier).le

/-- The nodes marked after some rounds are those up to this distance. -/
theorem Levels.mem_nodes_iff (h : context.Levels roots closure)
    (hn : context.Reachable roots node) :
    node ∈ closure.nodes ↔ context.distance roots node ≤ closure.rounds := by
  refine ⟨h.distance_le, fun hle => ?_⟩
  obtain ⟨length, hpath⟩ := hn.exists_path
  exact h.complete _ hle node hpath.shortest

variable [DecidableEq Node]

theorem Levels.start (context : PureContext Failure Node Request) (roots : List Node) :
    context.Levels roots (Closure.start roots) := by
  have hroot (node : Node) (hn : node ∈ unseen [] roots) : context.Path roots 0 node :=
    .root (mem_unseen.1 hn).1
  have hzero (node : Node) (hn : node ∈ unseen [] roots) : context.distance roots node = 0 :=
    Nat.le_zero.1 (hroot node hn).distance_le
  refine ⟨fun length hl node hpath => ?_, fun node hn => ?_, hroot, hzero, .inl rfl, ?_⟩
  · cases hpath with
    | root hm => exact mem_unseen.2 ⟨hm, List.not_mem_nil⟩
    | step => exact absurd hl (Nat.not_succ_le_zero _)
  · cases hn
  · refine List.pairwise_of_forall_mem_list fun a ha b hb => ?_
    rw [hzero a ha, hzero b hb]

/-- A round goes on to the nodes that are one request farther away. -/
theorem Levels.next (hok : context.NeverFails roots) (hr : context.Rounds roots closure log)
    (h : context.Levels roots closure) (hne : closure.frontier ≠ []) :
    context.Levels roots (closure.next (closure.frontier.map context.needs)) := by
  have hnext := hr.next hne
  have hnodes := Rounds.nodes_next closure context.needs
  have hexpanded : (closure.next (closure.frontier.map context.needs)).expanded.map (·.1) =
      closure.nodes := Closure.expanded_next (by simp)
  have hnew (node : Node)
      (hn : node ∈ unseen closure.nodes (closure.frontier.flatMap context.needs)) :
      context.Path roots (closure.rounds + 1) node ∧
        context.distance roots node = closure.rounds + 1 := by
    obtain ⟨hmem, hunseen⟩ := mem_unseen.1 hn
    obtain ⟨parent, hparent, hneeds⟩ := List.mem_flatMap.1 hmem
    have hpath := (h.frontier_path parent hparent).needs hok hneeds
    refine ⟨hpath, le_antisymm hpath.distance_le ?_⟩
    -- a shorter path would have led to the node in an earlier round
    by_contra hlt
    exact hunseen (h.complete _ (by omega) node hpath.shortest)
  have hfrontier : (closure.next (closure.frontier.map context.needs)).frontier =
      unseen closure.nodes (closure.frontier.flatMap context.needs) := by
    rw [List.flatMap_def]
    rfl
  have hrounds : (closure.next (closure.frontier.map context.needs)).rounds =
      closure.rounds + 1 := rfl
  refine ⟨fun length hl node hpath => ?_, fun node hn => ?_, fun node hn => ?_, fun node hn => ?_,
    .inr ?_, ?_⟩
  · cases hpath with
    | root hm => exact hnext.mem_nodes_of_mem_roots hm
    | @step length parent _ requests request hparent hdeps hmem hres =>
      have hmarked : parent ∈ closure.nodes := h.complete length (by omega) parent hparent
      cases (hok.dependencies_eq hparent.reachable).symm.trans hdeps
      rw [← hexpanded] at hmarked
      exact hnext.mem_nodes_of_mem_needs hmarked
        ((hok.mem_needs_iff hparent.reachable).2 ⟨request, hmem, hres⟩)
  · rw [hexpanded] at hn
    exact Nat.lt_succ_of_le (h.distance_le hn)
  · rw [hfrontier] at hn
    exact (hnew node hn).1
  · rw [hfrontier] at hn
    exact (hnew node hn).2
  · obtain ⟨node, hn⟩ := List.exists_mem_of_ne_nil _ hne
    have hmarked : node ∈ closure.nodes := List.mem_append_right _ hn
    refine ⟨node, ?_, by rw [h.frontier_eq node hn, hrounds]⟩
    rw [hnodes]
    exact List.mem_append_left _ hmarked
  · rw [hnodes]
    refine List.pairwise_append.2 ⟨h.sorted, ?_, fun a ha b hb => ?_⟩
    · refine List.pairwise_of_forall_mem_list fun a ha b hb => ?_
      rw [(hnew a ha).2, (hnew b hb).2]
    · rw [(hnew b hb).2]
      exact (h.distance_le ha).trans (Nat.le_succ _)

theorem Rounds.levels (hok : context.NeverFails roots) (h : context.Rounds roots closure log) :
    context.Levels roots closure := by
  induction h with
  | start => exact .start context roots
  | next h hfrontier ih => exact ih.next hok h hfrontier

/-- A round for each distance that occurs. -/
theorem Rounds.isGreatest_rounds (hok : context.NeverFails roots)
    (h : context.Rounds roots closure log) (hdone : closure.frontier = []) (hroots : roots ≠ []) :
    IsGreatest ((fun node => context.distance roots node + 1) ''
      {node | context.Reachable roots node}) closure.rounds := by
  have hlevels := h.levels hok
  have hmarked (node : Node) : node ∈ closure.nodes ↔ context.Reachable roots node :=
    h.mem_nodes_iff hok hdone
  have hlt (node : Node) (hn : context.Reachable roots node) :
      context.distance roots node < closure.rounds := by
    have hnode := (hmarked node).2 hn
    rw [← map_expanded hdone] at hnode
    exact hlevels.expanded_lt node hnode
  constructor
  · rcases hlevels.last with hzero | ⟨node, hn, hlast⟩
    · obtain ⟨root, hroot⟩ := List.exists_mem_of_ne_nil _ hroots
      have := hlt root (.root hroot)
      omega
    · exact ⟨node, (hmarked node).1 hn, hlast⟩
  · rintro _ ⟨node, hn, rfl⟩
    exact hlt node hn

/-! ## The worklist -/

/-- The nodes at the head of the queue are expanded as a round expands them. -/
theorem run_frontier (hok : context.NeverFails roots) {frontier : List Node}
    (hfrontier : ∀ node ∈ frontier, context.Reachable roots node) (found queue : List Node) :
    Worklist.run context frontier.length ⟨found, frontier ++ queue⟩ =
      .ok ⟨found ++ unseen found (frontier.flatMap context.needs),
        queue ++ unseen found (frontier.flatMap context.needs)⟩ := by
  induction frontier generalizing found queue with
  | nil => simp [Worklist.run, unseen]
  | cons node rest ih =>
    have hexpand := hok.expand_eq (hfrontier node List.mem_cons_self)
    have hrest := ih (fun node hm => hfrontier node (List.mem_cons_of_mem _ hm))
      (found ++ unseen found (context.needs node)) (queue ++ unseen found (context.needs node))
    rw [List.length_cons, Worklist.run, List.cons_append, Worklist.step_of_expand hexpand,
      List.flatMap_cons, unseen_append, ← List.append_assoc found, ← List.append_assoc queue,
      ← hrest, List.append_assoc rest]
    rfl

/-- After as many steps as nodes have been expanded, the worklist has found what is marked. -/
theorem Rounds.worklist (hok : context.NeverFails roots) (h : context.Rounds roots closure log) :
    Worklist.run context closure.expanded.length (Worklist.start roots) =
      .ok ⟨closure.nodes, closure.frontier⟩ := by
  induction h with
  | start =>
    rw [Worklist.start_eq]
    rfl
  | @next closure log h hne ih =>
    have hlength : (closure.next (closure.frontier.map context.needs)).expanded.length =
        closure.expanded.length + closure.frontier.length := by
      simp [Closure.next]
    have hround := run_frontier hok
      (fun node hn => h.reachable hok node (List.mem_append_right _ hn)) closure.nodes []
    rw [List.append_nil] at hround
    rw [hlength, Worklist.run_add ih, hround, nodes_next, List.nil_append, List.flatMap_def]
    rfl

/-- For every dependency context and all roots from which finitely many nodes are reachable, none
of which fails: the closure marks the nodes that a worklist finds, in the same order. They are the
first occurrences among the roots and what the nodes, in this very order, need. The nodes come in
the order of their distance from the roots, and there is one round for each distance. -/
theorem closure_follows_worklist (context : PureContext Failure Node Request) (roots : List Node)
    (hfin : {node | context.Reachable roots node}.Finite) (hok : context.NeverFails roots) :
    ∃ closure log,
      (∀ bound, {node | context.Reachable roots node}.ncard ≤ bound →
        (Closure.start roots).run context.logged bound [] = .ok closure log) ∧
      closure.frontier = [] ∧
      (∀ steps, closure.nodes.length ≤ steps →
        (Worklist.start roots).run context steps = .ok ⟨closure.nodes, []⟩) ∧
      (∃ needed, closure.nodes.mapM context.expand = .ok needed ∧
        closure.nodes = (roots ++ needed.flatten).eraseDups) ∧
      (roots = [] → closure.rounds = 0) ∧
      (roots ≠ [] → IsGreatest ((fun node => context.distance roots node + 1) ''
        {node | context.Reachable roots node}) closure.rounds) ∧
      closure.nodes.Pairwise (fun a b => context.distance roots a ≤ context.distance roots b) := by
  obtain ⟨closure, log, h, hdone, hrun⟩ := exists_rounds hfin hok
  have hexpanded : closure.expanded.map (·.1) = closure.nodes := map_expanded hdone
  have hlength : closure.nodes.length = closure.expanded.length := by
    rw [← hexpanded, List.length_map]
  refine ⟨closure, log, hrun, hdone, fun steps hsteps => ?_, ?_, fun hroots => ?_,
    h.isGreatest_rounds hok hdone, (h.levels hok).sorted⟩
  · obtain ⟨more, rfl⟩ := Nat.exists_eq_add_of_le hsteps
    have hworklist := h.worklist hok
    rw [hdone] at hworklist
    rw [hlength, Worklist.run_add hworklist, Worklist.run_of_queue_eq_nil rfl]
  · refine ⟨_, hok.mapM_expand (h.reachable hok), ?_⟩
    rw [← List.flatMap_def, ← unseen_nil]
    have hnodes := h.nodes_eq
    rwa [hexpanded] at hnodes
  · have hnil : closure.nodes = [] := by
      rw [List.eq_nil_iff_forall_not_mem]
      intro node hn
      induction h.reachable hok node hn with
      | root hm =>
        rw [hroots] at hm
        cases hm
      | step hparent _ _ _ ih => exact ih ((h.mem_nodes_iff hok hdone).2 hparent)
    have hrounds := h.rounds_le
    rw [← hlength, hnil] at hrounds
    exact Nat.le_zero.1 hrounds

end PureContext

/-- The loop of `DependencyTable.loop` takes three rounds, one of which finds nothing. -/
theorem DependencyTable.loop_follows_worklist : ∃ closure log,
    loop.closure [1, 3, 1] [] = .ok closure log ∧
      (Worklist.start [1, 3, 1]).run loop.context 5 = .ok ⟨closure.nodes, []⟩ ∧
      closure.nodes = [1, 3, 2, 4, 5] ∧ closure.rounds = 3 := by
  obtain ⟨closure, log, hrun, -, hworklist, -⟩ := PureContext.closure_follows_worklist
    loop.context [1, 3, 1] (loop.finite_reachable _) loop_closedUnder.neverFails
  have hclosure := hrun _ (loop.ncard_reachable_le [1, 3, 1])
  have hnodes : closure.nodes = [1, 3, 2, 4, 5] ∧ closure.rounds = 3 := by
    cases hclosure
    exact ⟨rfl, rfl⟩
  exact ⟨closure, log, hclosure, hworklist 5 (by simp [hnodes.1]), hnodes⟩

end NativeImage

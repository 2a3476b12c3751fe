/-!
# Dependency closure

A closure marks every node that its roots need, directly or through other nodes. It works in rounds:
each round expands all nodes of the frontier in order, and the nodes seen for the first time form
the next frontier, in the order in which they were asked for. The order of discovery is therefore
that of a queue, whatever the state of the context does.

## Main definitions

- `DependencyContext` — where a closure asks what nodes need
- `Closure` — the nodes marked so far, and which of them wait to be expanded
- `Closure.advance` — one round
- `Closure.run` — rounds until the frontier is empty, at most a given number of them
-/

namespace NativeImage

/-- Where a closure asks what nodes need. Asking may change the context's state, also when it
fails. -/
structure DependencyContext (State Failure Node Request : Type) where
  /-- What a node needs. -/
  dependencies : Node → EStateM Failure State (List Request)
  /-- The node that a request stands for. -/
  resolve : Request → EStateM Failure State Node
  /-- Failures after which nothing more can be asked. -/
  isFatal : Failure → Bool := fun _ => false

/-- Run an action for its outcome, so that only a fatal failure ends what follows. -/
def attempt {State Failure Result : Type} (isFatal : Failure → Bool)
    (action : EStateM Failure State Result) : EStateM Failure State (Except Failure Result) :=
  fun state =>
    match action state with
    | .ok result state => .ok (.ok result) state
    | .error failure state =>
      if isFatal failure then .error failure state else .ok (.error failure) state

/-- All results, or the first failure. -/
def allOrFirstFailure {Failure Result : Type} :
    List (Except Failure Result) → Except Failure (List Result)
  | [] => .ok []
  | .error failure :: _ => .error failure
  | .ok result :: rest =>
    match allOrFirstFailure rest with
    | .error failure => .error failure
    | .ok results => .ok (result :: results)

/-- The entries that are new, each at its first occurrence. -/
def unseen {Node : Type} [DecidableEq Node] (seen : List Node) : List Node → List Node
  | [] => []
  | node :: rest =>
    if node ∈ seen then unseen seen rest else node :: unseen (node :: seen) rest

/-- The new entries are those of the list that have not been seen. -/
@[simp] theorem mem_unseen {Node : Type} [DecidableEq Node] {seen list : List Node}
    {node : Node} :
    node ∈ unseen seen list ↔ node ∈ list ∧ node ∉ seen := by
  induction list generalizing seen with
  | nil => simp [unseen]
  | cons head rest ih =>
    by_cases known : head ∈ seen
    · rw [unseen, if_pos known, ih, List.mem_cons]
      exact ⟨fun ⟨inRest, new⟩ => ⟨.inr inRest, new⟩, fun ⟨either, new⟩ =>
        ⟨either.resolve_left fun same => new (same ▸ known), new⟩⟩
    · by_cases same : node = head <;> simp [unseen, ih, known, same]

/-- No entry is new twice. -/
theorem nodup_unseen {Node : Type} [DecidableEq Node] (seen list : List Node) :
    (unseen seen list).Nodup := by
  induction list generalizing seen with
  | nil => simp [unseen]
  | cons head rest ih =>
    by_cases known : head ∈ seen
    · simp [unseen, known, ih]
    · simp [unseen, known, ih, mem_unseen]

/-- Nodes marked by a closure. -/
structure Closure (Node : Type) where
  /-- Expanded nodes with the nodes their requests stand for, in order of discovery. -/
  expanded : List (Node × List Node)
  /-- Marked nodes that are not expanded yet, in order of discovery. -/
  frontier : List Node
  /-- Rounds so far. -/
  rounds : Nat
  deriving DecidableEq, Repr

namespace Closure

variable {State Failure Node Request : Type} [DecidableEq Node]

/-- Marked nodes in order of discovery. -/
def nodes (closure : Closure Node) : List Node :=
  closure.expanded.map (·.1) ++ closure.frontier

/-- The roots are marked, none is expanded. -/
def start (roots : List Node) : Closure Node := ⟨[], unseen [] roots, 0⟩

/-- Whether a node has been expanded. -/
def contains (closure : Closure Node) (node : Node) : Bool :=
  closure.expanded.any fun entry => entry.1 == node

/-- What an expanded node needs; nothing for any other node. -/
def dependenciesOf (closure : Closure Node) (node : Node) : List Node :=
  (closure.expanded.lookup node).getD []

/-- The nodes that the requests of a node stand for. Nothing is resolved behind the first request
that fails. -/
def expand (context : DependencyContext State Failure Node Request) (node : Node) :
    EStateM Failure State (List Node) := do
  (← context.dependencies node).mapM context.resolve

/-- One round. Every node of the frontier is expanded, also behind a node that fails; the failure
of the first such node is the round's. A fatal failure ends the round at once, and it counts before
those that were met earlier in the round. -/
def advance (context : DependencyContext State Failure Node Request) (closure : Closure Node) :
    EStateM Failure State (Closure Node) := do
  let outcomes ← closure.frontier.mapM fun node =>
    attempt context.isFatal (expand context node)
  match allOrFirstFailure outcomes with
  | .error failure => throw failure
  | .ok needed =>
    return ⟨closure.expanded ++ closure.frontier.zip needed,
      unseen closure.nodes needed.flatten, closure.rounds + 1⟩

/-- Rounds until nothing is left to expand, at most `bound` of them. -/
def run (context : DependencyContext State Failure Node Request) :
    (bound : Nat) → Closure Node → EStateM Failure State (Closure Node)
  | 0, closure => return closure
  | bound + 1, closure => do
    if closure.frontier.isEmpty then return closure
    run context bound (← advance context closure)

end Closure

/-- Workers a closure uses when `requested` are asked for; none stands for the usual number. -/
def workerCount (usual requested : Nat) : Nat := if requested = 0 then usual else requested

end NativeImage

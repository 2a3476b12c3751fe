import NativeImage.Closure.Basic

/-!
# Dependencies given by tables

A closure over numbers whose dependencies are written down, with a log of what the closure asks.

## Main definitions

- `PureContext`, `PureContext.logged` — a context without state, and with a log of its calls
- `DependencyTable` — requests of nodes, nodes of requests, and where asking fails
- `DependencyTable.closure` — the closure of a table, with the log
-/

namespace NativeImage

/-- A context whose answers do not change. -/
structure PureContext (Failure Node Request : Type) where
  dependencies : Node → Except Failure (List Request)
  resolve : Request → Except Failure Node

/-- A question that a closure asked. -/
inductive ContextCall (Node Request : Type)
  | dependencies (node : Node)
  | resolve (request : Request)
  deriving DecidableEq, Repr

/-- The context with a log of its calls, the latest first. -/
def PureContext.logged {Failure Node Request : Type}
    (context : PureContext Failure Node Request) :
    DependencyContext (List (ContextCall Node Request)) Failure Node Request where
  dependencies node := fun log =>
    match context.dependencies node with
    | .ok requests => .ok requests (.dependencies node :: log)
    | .error failure => .error failure (.dependencies node :: log)
  resolve request := fun log =>
    match context.resolve request with
    | .ok node => .ok node (.resolve request :: log)
    | .error failure => .error failure (.resolve request :: log)

/-- The value of the last entry for a key. -/
def lastValue? {Value : Type} (entries : List (Int × Value)) (key : Int) : Option Value :=
  entries.reverse.lookup key

/-- Where asking a table fails. -/
inductive TableFailure
  | node (number : Int)
  | request (number : Int)
  deriving DecidableEq, Repr

/-- What a closure says of any failure of its context. -/
def TableFailure.message : TableFailure → String
  | node _ | request _ => "dependency expansion failed"

/-- Dependencies among numbers. Of several entries for one number the last counts. -/
structure DependencyTable where
  /-- The requests of a node; a node without entry has none. -/
  requests : List (Int × List Int)
  /-- The node of a request; a request without entry stands for the node of the same number. -/
  aliases : List (Int × Int)
  badNodes : List Int
  badRequests : List Int
  deriving DecidableEq, Repr

namespace DependencyTable

def context (table : DependencyTable) : PureContext TableFailure Int Int where
  dependencies node :=
    if node ∈ table.badNodes then .error (.node node)
    else .ok ((lastValue? table.requests node).getD [])
  resolve request :=
    if request ∈ table.badRequests then .error (.request request)
    else .ok ((lastValue? table.aliases request).getD request)

/-- No more nodes than this can be marked: every marked node is a root or the node of a listed
request. Each round expands at least one node, so this bounds the rounds too. -/
def nodeBound (table : DependencyTable) (roots : List Int) : Nat :=
  roots.length + (table.requests.flatMap fun entry => entry.2).length

/-- The closure of the roots, in a state that holds the calls made, the latest first. -/
def closure (table : DependencyTable) (roots : List Int) :
    EStateM TableFailure (List (ContextCall Int Int)) (Closure Int) :=
  (Closure.start roots).run table.context.logged (table.nodeBound roots)

end DependencyTable

namespace ContextCall

variable {Node Request : Type}

def isDependencies : ContextCall Node Request → Bool
  | dependencies _ => true
  | resolve _ => false

/-- Calls for the dependencies of a node. -/
def expansions (log : List (ContextCall Node Request)) : Nat := log.countP isDependencies

/-- Calls for the node of a request. -/
def resolutions (log : List (ContextCall Node Request)) : Nat :=
  log.countP fun call => !call.isDependencies

end ContextCall

end NativeImage

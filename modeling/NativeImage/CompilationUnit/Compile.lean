import NativeImage.Closure.Basic
import NativeImage.CompilationUnit.Attach
import NativeImage.CompilationUnit.Payload
import NativeImage.CompilationUnit.Request

/-!
# Compilation

A unit is compiled by attaching it to a dependency graph, closing over the graph's roots and the
methods asked for, and laying out what the closure has marked.

## Main definitions

- `CompilationUnit.mark` — the closure of a unit
- `CompilationUnit.compile` — compile a unit
- `EmittedNode`, `CompiledUnit` — the result
-/

namespace NativeImage

/-- A marked node with its data. -/
structure EmittedNode where
  id : NodeId
  node : Node
  data? : Option ObjectData
  deriving DecidableEq, Repr

/-- What compiling a unit results in. -/
structure CompiledUnit where
  /-- Marked nodes in order of discovery. -/
  nodes : List EmittedNode
  header : HeaderTable
  regions : List RegionLayout
  /-- Rounds of the closure. -/
  rounds : Nat

namespace CompiledUnit

/-- The first node with this symbol. -/
def find? (compiled : CompiledUnit) (symbol : String) : Option EmittedNode :=
  compiled.nodes.find? fun emitted => emitted.node.symbol == symbol

/-- The first region that starts at this symbol. -/
def region? (compiled : CompiledUnit) (startSymbol : String) : Option RegionLayout :=
  compiled.regions.find? fun region => region.startSymbol == startSymbol

end CompiledUnit

/-- The emitted node as a member of a region, if it has data. -/
def EmittedNode.member? (emitted : EmittedNode) : Option RegionMember :=
  emitted.data?.map fun data =>
    ⟨emitted.id, emitted.node.symbol, data.bytes.length, data.alignment⟩

namespace CompilationUnit

open ImageM

/-- The unit as the closure asks it. -/
def dependencyContext (unit : CompilationUnit) (bodies : CodeBodies) :
    DependencyContext Image CompileError NodeId Request where
  dependencies := unit.dependencies bodies
  resolve := unit.resolve
  isFatal := CompileError.isFatal

/-- More rounds than a closure needs: each round marks a node, and every marked node exists before
the closure starts, is the node of some body's request, or follows from such a node through fewer
than sixty-four others. -/
def roundBound (bodies : CodeBodies) (image : Image) : Nat :=
  64 * (image.nodes.size + bodies.requestCount + 1)

/-- Close over the roots. A closure that does not end is refused, so that no unit is laid out from a
part of its nodes. -/
def close (unit : CompilationUnit) (bodies : CodeBodies) (roots : List NodeId) :
    ImageM (Closure NodeId) := do
  let bound := roundBound bodies (← get)
  let closure ← (Closure.start roots).run (unit.dependencyContext bodies) bound
  if closure.frontier.isEmpty then return closure else throw .unfinishedClosure

/-- A marked node with its data. -/
def emit (unit : CompilationUnit) (id : NodeId) : ImageM EmittedNode := do
  return ⟨id, ← node id, ← unit.payload id⟩

/-- Lay out a region. Its alignment is that of a pointer. -/
def layoutRegion (unit : CompilationUnit) (region : NodeId) (members : List EmittedNode) :
    ImageM RegionLayout := do
  let node ← node region
  match RegionLayout.build region node.symbol (node.endSymbol?.getD "") unit.pointerSize
      (members.filterMap EmittedNode.member?) with
  | .ok layout => return layout
  | .error cause => throw (.region cause)

/-- Lay out the regions among the emitted nodes: first those of the unit, each with the nodes of its
kind, then those around single descriptors. -/
def layoutRegions (unit : CompilationUnit) (closure : Closure NodeId)
    (emitted : List EmittedNode) : ImageM (List RegionLayout) := do
  let tables ← (RegionKind.all.filter fun kind => closure.contains kind.node).mapM fun kind =>
    unit.layoutRegion kind.node (emitted.filter fun member => kind.accepts member.node.kind)
  let standalone ← emitted.filterMapM fun region =>
    match region.node.kind with
    | .standaloneRegion descriptor =>
      some <$> unit.layoutRegion region.id (emitted.filter fun member => member.id == descriptor)
    | _ => return none
  return tables ++ standalone

/-- Attach the unit and close over its tables and the given methods. -/
def mark (unit : CompilationUnit) (bodies : CodeBodies) (methods : List MethodId) :
    ImageM (Closure NodeId) := do
  let tables ← unit.attach
  let methodRoots ← methods.mapM fun method => unit.resolve (.call method)
  unit.close bodies (tables ++ methodRoots)

/-- Compile the unit: its tables, the given methods, and all that these need. -/
def compile (unit : CompilationUnit) (bodies : CodeBodies) (methods : List MethodId) :
    ImageM CompiledUnit := do
  let closure ← unit.mark bodies methods
  let emitted ← closure.nodes.mapM unit.emit
  let regions ← unit.layoutRegions closure emitted
  return ⟨emitted, (← attachment).header, regions, closure.rounds⟩

end CompilationUnit

end NativeImage

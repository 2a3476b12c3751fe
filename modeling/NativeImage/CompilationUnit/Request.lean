import NativeImage.CompilationUnit.Delegate
import NativeImage.CompilationUnit.Statics

/-!
# Requests

What a node needs is said in requests, which are resolved to nodes. The requests of a method body
come from the code generator; those of every other node follow from its kind.

## Main definitions

- `Request` — something a node needs
- `CodeBodies` — the requests of method bodies
- `CompilationUnit.resolve` — the node of a request
- `CompilationUnit.dependencies` — the requests of a node
-/

namespace NativeImage

/-- Something a node needs. -/
inductive Request
  | call (method : MethodId)
  /-- Construct a delegate of a type over a method. -/
  | delegate (type : TypeId) (method : MethodId)
  | gcStaticBase (type : TypeId)
  | threadStaticBase (type : TypeId)
  /-- Run a class constructor at startup. -/
  | eagerConstructor (method : MethodId)
  | node (id : NodeId)
  deriving DecidableEq, Repr

/-- The requests of method bodies, given beforehand; at most one entry for each method. -/
structure CodeBodies where
  entries : List (MethodId × List Request)
  deriving DecidableEq, Repr

namespace CodeBodies

def empty : CodeBodies := ⟨[]⟩

/-- The bodies with that of one method replaced. -/
def set (bodies : CodeBodies) (method : MethodId) (requests : List Request) : CodeBodies :=
  ⟨(method, requests) :: bodies.entries.filter fun entry => entry.1 != method⟩

/-- The requests of a method's body. An instance without a body of its own has that of its
definition; a method without any has no requests. -/
def requestsOf (bodies : CodeBodies) (program : Program) (method : MethodId) :
    Except ProgramError (List Request) :=
  match bodies.entries.lookup method with
  | some requests => .ok requests
  | none => do
    return (bodies.entries.lookup (← program.methodDefinition method)).getD []

/-- The number of requests in all bodies. -/
def requestCount (bodies : CodeBodies) : Nat :=
  (bodies.entries.flatMap fun entry => entry.2).length

end CodeBodies

namespace CompilationUnit

open ImageM

/-- The node of a request. A call of shared code goes through the caller's shadow of it. -/
def resolve (unit : CompilationUnit) : Request → ImageM NodeId
  | .call method => do
    if (← onProgram (ProgramM.canonicalMethod method)) = method then
      unit.plainEntry method
    else
      unit.shadowMethod ⟨method, false⟩
  | .delegate type method => unit.delegateHelper type method
  | .gcStaticBase type => helper (.gcStaticBase type)
  | .threadStaticBase type => helper (.threadStaticBase type)
  | .eagerConstructor method => CompilationUnit.eagerConstructor method
  | .node id => return id

/-- The nodes that a generated routine uses. -/
def helperNeeds (unit : CompilationUnit) : Helper → ImageM (List NodeId)
  | .delegate parts => return [parts.initializer, parts.target] ++ parts.thunk?.toList
  | .gcStaticBase type => do return [← unit.gcStaticBase type]
  | .threadStaticBase type => do
    let offset ← unit.threadStaticsOffset type
    let index ← unit.threadStaticsIndexOf type
    if (← ask (·.typeDesc type)).statics.threadGcSlots.isEmpty then return [offset, index]
    return [offset, index, ← unit.gcStaticDesc type true]

/-- The nodes that a node other than a method body needs. -/
def needs (unit : CompilationUnit) : NodeKind → ImageM (List NodeId)
  | .methodCode entry => do return [← unit.plainEntry entry.method]
  | .unboxingStub _ target => return [target]
  | .shadowMethod entry canonical => do
    return [canonical, ← CompilationUnit.dictionaryLayout (.method entry.method)]
  | .fatPointer _ target dictionary => return [target, dictionary]
  | .threadStaticsOffset type => do
    return [← CompilationUnit.threadStaticsBlock type, .tlsStart]
  | .gcStaticBase type => do return [← unit.gcStaticDesc type false]
  | .eagerConstructor method => do return [← unit.plainEntry method]
  | .standaloneRegion descriptor => return [descriptor]
  | .tlsDirectory => return [.tlsStart, .tlsEnd, .threadStaticsIndex]
  | .header => do return (← attachment).header.entries.map fun entry => entry.2.node
  | .modulesSection => do return [(← attachment).headerNode]
  | .helper helper => unit.helperNeeds helper
  | .externMethod _ | .runtimeImport _ | .externSymbol _ | .gcStaticDesc .. | .threadStaticsBlock _
  | .dictionaryLayout _ | .region _ | .threadStaticsIndex | .typeManagerIndirection
  | .metadataBlob => return []

/-- The requests of a method body. Shared code also needs its dictionary. -/
def bodyRequests (bodies : CodeBodies) (method : MethodId) : ImageM (List Request) := do
  let requests ← ask (bodies.requestsOf · method)
  if ← ask (·.isSharedMethod method) then
    return requests ++ [.node (← CompilationUnit.dictionaryLayout (.method method))]
  return requests

/-- The requests of a node. -/
def dependencies (unit : CompilationUnit) (bodies : CodeBodies) (id : NodeId) :
    ImageM (List Request) := do
  let node ← node id
  match node.kind with
  | .methodCode ⟨method, false⟩ => bodyRequests bodies method
  | kind => return (← unit.needs kind).map .node

end CompilationUnit

end NativeImage

import NativeImage.Target
import NativeImage.CompilationUnit.Error
import NativeImage.CompilationUnit.Node
import NativeImage.Program.Symbol
import NativeImage.Symbol.Unit

/-!
# Compilation units

A compilation unit is compiled into one image. Its configuration and what it owns are fixed; its
nodes come into being as they are asked for, in an append-only table that starts with the tables
every unit has.

## Main definitions

- `UnitConfig`, `Ownership`, `CompilationUnit` — what is fixed
- `Image` — the program, the nodes and the attachment to a dependency graph
- `ImageM` — operations on an image
- `ImageM.intern` — the node of a kind, appended if there is none
-/

namespace NativeImage

structure UnitConfig where
  arch : Arch
  /-- What symbols of this unit's tables start with. -/
  unitPrefix : String := ""
  /-- The same for the unit that owns the thread statics of foreign types. -/
  importedPrefix : String := ""
  metadataFile? : Option MetadataFile := none

/-- Which entities belong to the unit. -/
inductive Ownership
  /-- All of them: the program is compiled into one image. -/
  | everything
  /-- Those defined in these modules. -/
  | modules (ids : List ModuleId)
  deriving DecidableEq, Repr

namespace Ownership

/-- A type belongs to the unit of its definition. -/
def ownsType (ownership : Ownership) (program : Program) (id : TypeId) :
    Except ProgramError Bool :=
  match ownership with
  | everything => .ok true
  | modules ids => do
    return decide ((← program.moduleOfType (← program.typeDefinition id)) ∈ ids)

/-- A method belongs to the unit of its owner. -/
def ownsMethod (ownership : Ownership) (program : Program) (id : MethodId) :
    Except ProgramError Bool := do
  ownership.ownsType program (← program.methodDesc id).owner

/-- The modules compiled by the unit. -/
def inputModules (ownership : Ownership) (program : Program) : List ModuleId :=
  match ownership with
  | everything => program.moduleIds
  | modules ids => ids

end Ownership

/-- What is fixed about a unit. -/
structure CompilationUnit where
  config : UnitConfig
  ownership : Ownership
  metadata : Metadata

/-- The nodes and the header that a unit gets when it is attached to a dependency graph. -/
structure Attachment where
  headerNode : NodeId
  modulesSection : NodeId
  metadataBlob? : Option NodeId
  header : HeaderTable

/-- What changes while a unit is compiled. -/
structure Image where
  program : Program
  nodes : Array Node
  attachment? : Option Attachment

/-! ## The nodes every unit has -/

/-- The node of a region. -/
def RegionKind.node (region : RegionKind) : NodeId := ⟨region.slot⟩

namespace NodeId

def threadStaticsIndex : NodeId := ⟨6⟩

def tlsDirectory : NodeId := ⟨7⟩

def tlsStart : NodeId := ⟨8⟩

def tlsEnd : NodeId := ⟨9⟩

def typeManagerIndirection : NodeId := ⟨10⟩

end NodeId

namespace UnitConfig

def regionNode (config : UnitConfig) (region : RegionKind) : Node where
  kind := .region region
  symbol := regionSymbol config.unitPrefix region.symbolName .first
  endSymbol? := some (regionSymbol config.unitPrefix region.symbolName .last)

/-- The nodes every unit starts with, at the handles named above. -/
def tableNodes (config : UnitConfig) : List Node :=
  let decoration := config.arch.decoration
  RegionKind.all.map config.regionNode ++
    [{ kind := .threadStaticsIndex, symbol := threadIndexSymbol config.unitPrefix },
      { kind := .tlsDirectory, symbol := tlsDirectorySymbol decoration },
      { kind := .externSymbol (tlsStartSymbol decoration), symbol := tlsStartSymbol decoration },
      { kind := .externSymbol (tlsEndSymbol decoration), symbol := tlsEndSymbol decoration },
      { kind := .typeManagerIndirection,
        symbol := tableSymbol config.unitPrefix "typemanager_indirection" }]

end UnitConfig

/-- The unit of a configuration. Its metadata is read first, so that a missing file shows before
any work is done. -/
def CompilationUnit.create (config : UnitConfig) (ownership : Ownership) (program : Program) :
    Except CompileError CompilationUnit :=
  match Metadata.pick program (ownership.inputModules program) config.metadataFile? with
  | .ok metadata => .ok ⟨config, ownership, metadata⟩
  | .error (.program cause) => .error (.program cause)
  | .error (.metadata cause) => .error (.metadata cause)

/-- An image with the tables that every unit has, and nothing else. -/
def Image.initial (config : UnitConfig) (program : Program) : Image :=
  ⟨program, config.tableNodes.toArray, none⟩

/-! ## Operations on images -/

/-- Operations on an image. The image stays as far as it got when an operation fails. -/
abbrev ImageM := EStateM CompileError Image

namespace ImageM

/-- Run an operation on the image's program. -/
def onProgram {α : Type} (action : ProgramM α) : ImageM α := fun image =>
  match action image.program with
  | .ok result program => .ok result { image with program }
  | .error cause program => .error (.program cause) { image with program }

/-- Ask the program without changing it. -/
def ask {α : Type} (question : Program → Except ProgramError α) : ImageM α := fun image =>
  match question image.program with
  | .ok answer => .ok answer image
  | .error cause => .error (.program cause) image

/-- What a node handle names. -/
def node (id : NodeId) : ImageM Node := fun image =>
  match image.nodes[id.index]? with
  | some node => .ok node image
  | none => .error (.noNode id) image

/-- The symbol of a node. -/
def symbol (id : NodeId) : ImageM String := do return (← node id).symbol

/-- Append a node. -/
def append (node : Node) : ImageM NodeId := fun image =>
  .ok ⟨image.nodes.size⟩ { image with nodes := image.nodes.push node }

/-- The node with this node's kind, which is appended if there is none. -/
def intern (node : Node) : ImageM NodeId := fun image =>
  match image.nodes.findIdx? fun other => other.kind == node.kind with
  | some index => .ok ⟨index⟩ image
  | none => append node image

/-- What attaching to a dependency graph has fixed. -/
def attachment : ImageM Attachment := fun image =>
  match image.attachment? with
  | some attachment => .ok attachment image
  | none => .error (.internal .notAttached) image

end ImageM

namespace CompilationUnit

def ownsType (unit : CompilationUnit) (id : TypeId) : ImageM Bool :=
  ImageM.ask fun program => unit.ownership.ownsType program id

def ownsMethod (unit : CompilationUnit) (id : MethodId) : ImageM Bool :=
  ImageM.ask fun program => unit.ownership.ownsMethod program id

/-- Bytes of a pointer on the unit's target. -/
def pointerSize (unit : CompilationUnit) : Nat := unit.config.arch.pointerSize

/-- The node of a symbol that is defined outside the unit. -/
def externSymbol (name : String) : ImageM NodeId :=
  ImageM.intern { kind := .externSymbol name, symbol := name }

end CompilationUnit

end NativeImage

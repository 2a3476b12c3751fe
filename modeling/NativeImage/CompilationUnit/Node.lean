import NativeImage.Handle

/-!
# Nodes

A node is something the image may contain or refer to. Its kind says what it is and whom it stands
for; no two nodes of a unit have the same kind. A node that forwards to another one holds its
handle.

## Main definitions

- `MethodEntry` — a method with the way it is entered
- `RegionKind` — the tables that collect the members of the image
- `NodeKind`, `Node`
-/

namespace NativeImage

/-- A method, entered directly or through its stub for boxed receivers. -/
structure MethodEntry where
  method : MethodId
  unboxing : Bool
  deriving DecidableEq, Repr

/-- Tables that collect nodes of one kind. -/
inductive RegionKind
  | gcStaticDesc
  | threadStaticGcDesc
  | threadStaticsOffset
  | gcStatics
  | threadStatics
  | eagerConstructors
  deriving DecidableEq, Repr

namespace RegionKind

def all : List RegionKind :=
  [gcStaticDesc, threadStaticGcDesc, threadStaticsOffset, gcStatics, threadStatics,
    eagerConstructors]

theorem mem_all (kind : RegionKind) : kind ∈ all := by cases kind <;> decide

/-- Position in the list of all kinds. -/
def slot : RegionKind → Nat
  | gcStaticDesc => 0
  | threadStaticGcDesc => 1
  | threadStaticsOffset => 2
  | gcStatics => 3
  | threadStatics => 4
  | eagerConstructors => 5

/-- What the symbols at the ends of the region are named after. -/
def symbolName : RegionKind → String
  | gcStaticDesc => "GCStaticDesc"
  | threadStaticGcDesc => "ThreadStaticGCDesc"
  | threadStaticsOffset => "ThreadStaticOffsetRegion"
  | gcStatics => "GCStaticRegion"
  | threadStatics => "ThreadStaticRegion"
  | eagerConstructors => "EagerCctor"

end RegionKind

/-- The nodes a delegate construction needs. -/
structure DelegateParts where
  /-- The initializer that fills in the delegate. -/
  initializer : NodeId
  /-- The function pointer it is given. -/
  target : NodeId
  /-- The thunk through which a static target is invoked. -/
  thunk? : Option NodeId
  deriving DecidableEq, Repr

/-- Routines that are generated for the image. -/
inductive Helper
  | delegate (parts : DelegateParts)
  | gcStaticBase (type : TypeId)
  | threadStaticBase (type : TypeId)
  deriving DecidableEq, Repr

inductive NodeKind
  /-- Code compiled into this unit. Through the unboxing entry it is the stub of shared code that
  unboxes the receiver and supplies the instantiation. -/
  | methodCode (entry : MethodEntry)
  /-- Code of another unit. -/
  | externMethod (entry : MethodEntry)
  /-- A hand-written routine of the runtime. -/
  | runtimeImport (method : MethodId)
  /-- Unboxes the receiver and goes on to `target`. -/
  | unboxingStub (method : MethodId) (target : NodeId)
  /-- An instance that runs the shared code at `canonical`. -/
  | shadowMethod (entry : MethodEntry) (canonical : NodeId)
  /-- Shared code together with the dictionary of an instance. -/
  | fatPointer (entry : MethodEntry) (target dictionary : NodeId)
  /-- A symbol defined elsewhere. -/
  | externSymbol (name : String)
  | gcStaticDesc (type : TypeId) (thread : Bool)
  | threadStaticsOffset (type : TypeId)
  | threadStaticsBlock (type : TypeId)
  | gcStaticBase (type : TypeId)
  /-- The entry of a class constructor that runs at startup. -/
  | eagerConstructor (method : MethodId)
  | dictionaryLayout (owner : Entity)
  /-- A region around one descriptor. -/
  | standaloneRegion (descriptor : NodeId)
  | region (kind : RegionKind)
  | threadStaticsIndex
  | tlsDirectory
  | header
  | modulesSection
  | typeManagerIndirection
  | metadataBlob
  | helper (helper : Helper)
  deriving DecidableEq, Repr

namespace NodeKind

def name : NodeKind → String
  | methodCode _ => "method-code"
  | externMethod _ => "extern-method"
  | runtimeImport _ => "runtime-import"
  | unboxingStub .. => "unboxing-stub"
  | shadowMethod .. => "shadow-method"
  | fatPointer .. => "fat-pointer"
  | externSymbol _ => "extern-symbol"
  | gcStaticDesc .. => "gc-static-desc"
  | threadStaticsOffset _ => "thread-statics-offset"
  | threadStaticsBlock _ => "thread-statics-block"
  | gcStaticBase _ => "gc-static-base"
  | eagerConstructor _ => "eager-cctor"
  | dictionaryLayout _ => "dictionary-layout"
  | standaloneRegion _ => "standalone-gc-static-desc-region"
  | region _ => "region"
  | threadStaticsIndex => "tls-index"
  | tlsDirectory => "tls-directory"
  | header => "header"
  | modulesSection => "modules-section"
  | typeManagerIndirection => "type-manager-indirection"
  | metadataBlob => "metadata-blob"
  | helper _ => "helper"

/-- Whether the symbol is defined outside the unit. -/
def isExternal : NodeKind → Bool
  | externMethod _ | runtimeImport _ | externSymbol _ => true
  | _ => false

/-- The region that collects nodes of this kind. -/
def region? : NodeKind → Option RegionKind
  | gcStaticDesc _ false => some .gcStaticDesc
  | gcStaticDesc _ true => some .threadStaticGcDesc
  | threadStaticsOffset _ => some .threadStaticsOffset
  | gcStaticBase _ => some .gcStatics
  | threadStaticsBlock _ => some .threadStatics
  | eagerConstructor _ => some .eagerConstructors
  | _ => none

end NodeKind

/-- Whether nodes of this kind are members of the region. -/
def RegionKind.accepts (region : RegionKind) (kind : NodeKind) : Bool :=
  kind.region? == some region

structure Node where
  kind : NodeKind
  /-- The node's symbol; of a region, the symbol of its start. -/
  symbol : String
  /-- The symbol of a region's end. -/
  endSymbol? : Option String := none
  deriving DecidableEq, Repr

end NativeImage

import NativeImage.Handle
import NativeImage.Delegate.Routine

/-!
# Descriptors

What a program knows of its modules, types and methods. The front end declares definitions; the
program derives instances of generic definitions, which share everything with their definition but
the name or the owner.

## Main definitions

- `TypeId.canon`, `TypeId.delegateBase`, `ModuleId.core`, `Initializer.method` — handles that are
  the same in every program
- `ModuleDesc`
- `TypeDeclaration`, `TypeDesc` — a type as declared, and together with where it comes from
- `MethodDeclaration`, `MethodDesc` — the same for methods
- `TypeFlag`, `MethodFlag` — the properties of types and methods, with their bits
-/

namespace NativeImage

/-- The placeholder that stands for every reference type in shared code. -/
def TypeId.canon : TypeId := ⟨0⟩

/-- The base type of all delegates, which owns the initializers. -/
def TypeId.delegateBase : TypeId := ⟨1⟩

/-- The module of the two types above. -/
def ModuleId.core : ModuleId := ⟨0⟩

/-- The method of the delegate base type that implements an initializer. -/
def Initializer.method (routine : Initializer) : MethodId := ⟨routine.slot⟩

structure ModuleDesc where
  name : String
  /-- The module carries mapping tables for a precomputed metadata blob. -/
  hasMappings : Bool
  deriving DecidableEq, Repr

/-- Static fields of a type, as far as the runtime tables care. Slots are counted in pointers. -/
structure StaticsLayout where
  gcSlots : List Nat := []
  threadGcSlots : List Nat := []
  /-- Bytes of the type's block of thread statics; none if zero. -/
  threadSize : Nat := 0
  deriving DecidableEq, Repr

inductive TypeKind
  | reference
  /-- Instances are unboxed; instance methods take a reference to them. -/
  | value
  /-- Instances are delegates, invoked with this many parameters. -/
  | delegate (invokeArity : Nat)
  deriving DecidableEq, Repr

/-- A type as the front end declares it. -/
structure TypeDeclaration where
  name : String
  module : ModuleId
  kind : TypeKind := .reference
  /-- The invoke signature of a delegate can be passed to native code. -/
  nativeSignature : Bool := false
  genericArity : Nat := 0
  statics : StaticsLayout := {}
  deriving DecidableEq, Repr

/-- Where a type comes from. -/
inductive TypeOrigin
  | declared
  /-- A generic definition applied to arguments. -/
  | derived (definition : TypeId) (args : List TypeId)
  deriving DecidableEq, Repr

structure TypeDesc extends TypeDeclaration where
  origin : TypeOrigin
  deriving DecidableEq, Repr

namespace TypeDesc

def definition? (type : TypeDesc) : Option TypeId :=
  match type.origin with
  | .declared => none
  | .derived definition _ => some definition

/-- Type arguments; none for a definition. -/
def args (type : TypeDesc) : List TypeId :=
  match type.origin with
  | .declared => []
  | .derived _ args => args

def isValueType (type : TypeDesc) : Bool := type.kind == .value

/-- The invoke arity of a delegate type. -/
def invokeArity? (type : TypeDesc) : Option Nat :=
  match type.kind with
  | .delegate arity => some arity
  | .reference | .value => none

/-- The type takes arguments that it has not been given. -/
def isGenericDefinition (type : TypeDesc) : Bool :=
  decide (0 < type.genericArity) && type.origin == .declared

end TypeDesc

/-- What can be said of a type in one word. -/
inductive TypeFlag
  | value
  | delegate
  /-- The placeholder of shared code. -/
  | canon
  | nativeSignature
  | genericDefinition
  | instantiated
  | gcStatics
  | threadStatics
  | threadGcStatics
  deriving DecidableEq, Repr

namespace TypeFlag

def all : List TypeFlag :=
  [value, delegate, canon, nativeSignature, genericDefinition, instantiated, gcStatics,
    threadStatics, threadGcStatics]

def name : TypeFlag → String
  | value => "value_type"
  | delegate => "delegate"
  | canon => "canon"
  | nativeSignature => "native_signature"
  | genericDefinition => "generic_definition"
  | instantiated => "instantiated"
  | gcStatics => "gc_statics"
  | threadStatics => "thread_statics"
  | threadGcStatics => "thread_gc_statics"

/-- The bit of a flag that is part of the declaration; flags that follow from other data have
none. -/
def bits : TypeFlag → Nat
  | value => 1
  | delegate => 2
  | canon => 4
  | nativeSignature => 8
  | _ => 0

end TypeFlag

namespace TypeDesc

/-- Whether a flag holds of the type with this handle. -/
def hasFlag (type : TypeDesc) (id : TypeId) : TypeFlag → Bool
  | .value => type.isValueType
  | .delegate => type.invokeArity?.isSome
  | .canon => id == .canon
  | .nativeSignature => type.nativeSignature
  | .genericDefinition => type.isGenericDefinition
  | .instantiated => !type.args.isEmpty
  | .gcStatics => !type.statics.gcSlots.isEmpty
  | .threadStatics => decide (0 < type.statics.threadSize)
  | .threadGcStatics => !type.statics.threadGcSlots.isEmpty

/-- The flags that hold of the type with this handle. -/
def flags (type : TypeDesc) (id : TypeId) : List TypeFlag :=
  TypeFlag.all.filter (type.hasFlag id)

end TypeDesc

/-- A method as the front end declares it. -/
structure MethodDeclaration where
  name : String
  owner : TypeId
  isStatic : Bool := false
  isVirtual : Bool := false
  isNativeCallable : Bool := false
  /-- The hand-written runtime routine that stands in for a body. -/
  importSymbol? : Option String := none
  /-- Explicit parameters, the receiver not counted. -/
  paramCount : Nat := 0
  genericArity : Nat := 0
  deriving DecidableEq, Repr

/-- Where a method comes from. -/
inductive MethodOrigin
  | declared
  /-- Derived for its owner, a delegate definition. -/
  | thunk (kind : InvokeThunk)
  /-- A definition on another owner, or with method arguments, or both. -/
  | derived (definition : MethodId) (args : List TypeId)
  deriving DecidableEq, Repr

structure MethodDesc extends MethodDeclaration where
  origin : MethodOrigin
  deriving DecidableEq, Repr

namespace MethodDesc

def definition? (method : MethodDesc) : Option MethodId :=
  match method.origin with
  | .declared | .thunk _ => none
  | .derived definition _ => some definition

/-- Method arguments, those of the owner not counted. -/
def args (method : MethodDesc) : List TypeId :=
  match method.origin with
  | .declared | .thunk _ => []
  | .derived _ args => args

def isRuntimeImport (method : MethodDesc) : Bool := method.importSymbol?.isSome

/-- Parameters a caller passes: the explicit ones, and the receiver of an instance method. -/
def callArity (method : MethodDesc) : Nat :=
  method.paramCount + if method.isStatic then 0 else 1

end MethodDesc

/-- What can be said of a method in one word. -/
inductive MethodFlag
  | static
  | virtual
  | nativeCallable
  | runtimeImport
  | instantiated
  deriving DecidableEq, Repr

namespace MethodFlag

def all : List MethodFlag := [static, virtual, nativeCallable, runtimeImport, instantiated]

def name : MethodFlag → String
  | static => "static"
  | virtual => "virtual"
  | nativeCallable => "native_callable"
  | runtimeImport => "runtime_import"
  | instantiated => "instantiated"

/-- The bit of a flag that is part of the declaration. -/
def bits : MethodFlag → Nat
  | static => 1
  | virtual => 2
  | nativeCallable => 4
  | runtimeImport => 8
  | instantiated => 0

end MethodFlag

namespace MethodDesc

def hasFlag (method : MethodDesc) : MethodFlag → Bool
  | .static => method.isStatic
  | .virtual => method.isVirtual
  | .nativeCallable => method.isNativeCallable
  | .runtimeImport => method.isRuntimeImport
  | .instantiated => !method.args.isEmpty

/-- The flags that hold of the method. -/
def flags (method : MethodDesc) : List MethodFlag := MethodFlag.all.filter method.hasFlag

end MethodDesc

end NativeImage

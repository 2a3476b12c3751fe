import NativeImage.Program.Descriptor
import NativeImage.Symbol.Name

/-!
# Programs

A program is three append-only tables of descriptors. Whatever a handle named once it names for
ever. Operations that may add an instance run in `ProgramM`, which keeps the program also when an
operation fails.

## Main definitions

- `Program`, `Program.initial` — the tables, and what every program starts with
- `ProgramError` — why an operation on a program fails
- `Program.typeDesc`, `Program.typeName`, … — what a handle names
- `declareModule`, `declareType`, `declareMethod` — what the front end adds
-/

namespace NativeImage

structure Program where
  modules : Array ModuleDesc
  types : Array TypeDesc
  methods : Array MethodDesc
  deriving DecidableEq, Repr

/-- Why an operation on a program fails. -/
inductive ProgramError
  /-- The program has no such entry. -/
  | noModule (id : ModuleId)
  | noType (id : TypeId)
  | noMethod (id : MethodId)
  | typeArgumentCount (type : String) (expected found : Nat)
  | methodArgumentCount (method : String) (expected found : Nat)
  | alreadyInstantiated (method : String)
  | methodNotOnType (method type : String)
  | notADelegate (type : String)
  deriving DecidableEq, Repr

/-- Whether the failure is that a handle names nothing: the input then contradicts itself. -/
def ProgramError.isDangling : ProgramError → Bool
  | noModule _ | noType _ | noMethod _ => true
  | _ => false

def ProgramError.message : ProgramError → String
  | noModule ⟨index⟩ => s!"there is no module {index}"
  | noType ⟨index⟩ => s!"there is no type {index}"
  | noMethod ⟨index⟩ => s!"there is no method {index}"
  | typeArgumentCount type expected found =>
    s!"`{type}` takes {expected} type argument(s) but {found} were supplied"
  | methodArgumentCount method expected found =>
    s!"`{method}` takes {expected} method type argument(s) but {found} were supplied"
  | alreadyInstantiated method => s!"`{method}` is already instantiated"
  | methodNotOnType method type =>
    s!"`{method}` is not declared on `{type}` or its generic definition"
  | notADelegate type => s!"`{type}` is not a delegate type"

namespace Program

def coreModuleName : String := "System.Private.CoreLib"

/-- The core module, the placeholder, and the delegate base type with its initializers. -/
def initial : Program where
  modules := #[⟨coreModuleName, false⟩]
  types := #[⟨{ name := "__Canon", module := .core }, .declared⟩,
    ⟨{ name := "System.Delegate", module := .core }, .declared⟩]
  methods := (Initializer.all.map fun routine =>
    ⟨{ name := routine.methodName, owner := .delegateBase, paramCount := routine.paramCount },
      .declared⟩).toArray

/-! ## Looking things up -/

def moduleDesc (program : Program) (id : ModuleId) : Except ProgramError ModuleDesc :=
  match program.modules[id.index]? with
  | some desc => .ok desc
  | none => .error (.noModule id)

def typeDesc (program : Program) (id : TypeId) : Except ProgramError TypeDesc :=
  match program.types[id.index]? with
  | some desc => .ok desc
  | none => .error (.noType id)

def methodDesc (program : Program) (id : MethodId) : Except ProgramError MethodDesc :=
  match program.methods[id.index]? with
  | some desc => .ok desc
  | none => .error (.noMethod id)

/-- All modules, in the order of their handles. -/
def moduleIds (program : Program) : List ModuleId :=
  (List.range program.modules.size).map ModuleId.mk

/-- The generic definition of a type, or the type itself. -/
def typeDefinition (program : Program) (id : TypeId) : Except ProgramError TypeId := do
  return (← program.typeDesc id).definition?.getD id

/-- The typical definition of a method, or the method itself. -/
def methodDefinition (program : Program) (id : MethodId) : Except ProgramError MethodId := do
  return (← program.methodDesc id).definition?.getD id

def typeName (program : Program) (id : TypeId) : Except ProgramError String := do
  return (← program.typeDesc id).name

def moduleOfType (program : Program) (id : TypeId) : Except ProgramError ModuleId := do
  return (← program.typeDesc id).module

def moduleOfMethod (program : Program) (id : MethodId) : Except ProgramError ModuleId := do
  program.moduleOfType (← program.methodDesc id).owner

/-- An argument list as names show it. -/
def argumentList (program : Program) (args : List TypeId) : Except ProgramError String := do
  let names ← args.mapM program.typeName
  return "<" ++ String.intercalate "," names ++ ">"

/-- The owner, the method, and the method arguments if there are any. -/
def methodName (program : Program) (id : MethodId) : Except ProgramError String := do
  let desc ← program.methodDesc id
  let stem := (← program.typeName desc.owner) ++ "::" ++ desc.name
  if desc.args.isEmpty then return stem
  return stem ++ (← program.argumentList desc.args)

/-- What symbols of a type are made from. -/
def typeEntity (program : Program) (id : TypeId) : Except ProgramError EntityName := do
  let home ← program.moduleDesc (← program.moduleOfType id)
  return ⟨home.name, ← program.typeName id⟩

/-- What symbols of a method are made from. -/
def methodEntity (program : Program) (id : MethodId) : Except ProgramError EntityName := do
  let home ← program.moduleDesc (← program.moduleOfMethod id)
  return ⟨home.name, ← program.methodName id⟩

end Program

/-! ## Adding to a program -/

/-- Operations on a program. The program stays as far as it got when an operation fails. -/
abbrev ProgramM := EStateM ProgramError Program

namespace ProgramM

/-- Ask the program without changing it. -/
def ask {α : Type} (question : Program → Except ProgramError α) : ProgramM α := fun program =>
  match question program with
  | .ok answer => .ok answer program
  | .error cause => .error cause program

/-- Append a type. -/
def appendType (desc : TypeDesc) : ProgramM TypeId := fun program =>
  .ok ⟨program.types.size⟩ { program with types := program.types.push desc }

/-- Append a method. -/
def appendMethod (desc : MethodDesc) : ProgramM MethodId := fun program =>
  .ok ⟨program.methods.size⟩ { program with methods := program.methods.push desc }

def declareModule (desc : ModuleDesc) : ProgramM ModuleId := fun program =>
  .ok ⟨program.modules.size⟩ { program with modules := program.modules.push desc }

def declareType (type : TypeDeclaration) : ProgramM TypeId := appendType ⟨type, .declared⟩

def declareMethod (method : MethodDeclaration) : ProgramM MethodId :=
  appendMethod ⟨method, .declared⟩

end ProgramM

end NativeImage

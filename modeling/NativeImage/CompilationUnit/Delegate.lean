import NativeImage.CompilationUnit.Entry
import NativeImage.Program.Delegate

/-!
# Delegate construction

Constructing a delegate calls an initializer of the delegate base type with a function pointer and,
for a static target, a thunk through which the delegate is invoked.

| target | initializer | function pointer | thunk |
|---|---|---|---|
| static, first argument bound | closed static | entry | closed static |
| static, native-callable | reverse native | entry | reverse native |
| static | open static | entry | open static |
| instance | closed instance | entry or shadow | none |
| instance, instance of a shared generic method | closed instance, slow | fat pointer | none |

A delegate over an instance method without a bound receiver is refused.

## Main definitions

- `CompilationUnit.delegateParts` — the nodes of a construction
- `CompilationUnit.helper`, `CompilationUnit.delegateHelper` — generated routines
-/

namespace NativeImage.CompilationUnit

open ImageM

/-- A delegate binds the first argument of its target, or passes all of them. -/
inductive Binding
  | closed
  | opened
  deriving DecidableEq, Repr

/-- How a delegate invoked with `invokeArity` parameters binds a target called with `callArity`:
one parameter more is the bound one. -/
def Binding.ofArities? (invokeArity callArity : Nat) : Option Binding :=
  if callArity = invokeArity + 1 then some .closed
  else if callArity = invokeArity then some .opened
  else none

/-- The initializer and the thunk for a static target. -/
def staticRoutines (binding : Binding) (nativeCallable : Bool) : Initializer × InvokeThunk :=
  match binding with
  | .closed => (.closedStatic, .closedStatic)
  | .opened =>
    if nativeCallable then (.reverseNative, .reverseNative) else (.openStatic, .openStatic)

/-- The counterpart of a definition's thunk on the delegate type itself. -/
def thunkOn (type : TypeId) (definition : MethodId) : ImageM MethodId := do
  if (← ask (·.typeDesc type)).args.isEmpty then return definition
  onProgram (ProgramM.methodOnType definition type)

/-- The parts for a static target. -/
def staticParts (unit : CompilationUnit) (type : TypeId) (method : MethodId) (desc : MethodDesc)
    (info : DelegateInfo) (binding : Binding) : ImageM DelegateParts := do
  let routines := staticRoutines binding desc.isNativeCallable
  match info.thunk? routines.2 with
  | none =>
    throw (.unsupported
      (.nonNativeSignature (← ask (·.typeName type)) (← ask (·.methodName method))))
  | some definition =>
    let thunk ← thunkOn type definition
    let initializer ← unit.plainEntry routines.1.method
    let target ← unit.plainEntry method
    return ⟨initializer, target, some (← unit.plainEntry thunk)⟩

/-- What a bound receiver's target is entered through, with the initializer for it. -/
def boundTarget (unit : CompilationUnit) (entry : MethodEntry) (desc : MethodDesc)
    (canonical : MethodId) : ImageM (Initializer × NodeId) := do
  if entry.method = canonical then
    return (.closedInstance, ← unit.methodEntry entry)
  else if desc.args.isEmpty then
    return (.closedInstance, ← unit.shadowMethod entry)
  else
    return (.closedInstanceSlow, ← unit.fatPointer entry)

/-- The parts for an instance target with a bound receiver. A receiver of a value type is boxed, so
the target is then entered through its unboxing entry. -/
def instanceParts (unit : CompilationUnit) (type : TypeId) (method : MethodId)
    (desc : MethodDesc) : ImageM DelegateParts := do
  let unboxing := (← ask (·.typeDesc desc.owner)).isValueType
  let canonical ← onProgram (ProgramM.canonicalMethod method)
  if ¬ desc.args.isEmpty ∧ desc.isVirtual then
    throw (.internal
      (.virtualGenericDelegate (← ask (·.typeName type)) (← ask (·.methodName method))))
  let (initializer, target) ← unit.boundTarget ⟨method, unboxing⟩ desc canonical
  return ⟨← unit.plainEntry initializer.method, target, none⟩

/-- The nodes needed to construct a delegate of a type over a method. -/
def delegateParts (unit : CompilationUnit) (type : TypeId) (method : MethodId) :
    ImageM DelegateParts := do
  let desc ← ask (·.methodDesc method)
  let info ← onProgram (ProgramM.delegateInfo type)
  match Binding.ofArities? info.invokeArity desc.callArity with
  | none =>
    throw (.internal (.delegateArity (← ask (·.typeName type)) (← ask (·.methodName method))
      info.invokeArity desc.callArity))
  | some binding =>
    if desc.isStatic then
      unit.staticParts type method desc info binding
    else match binding with
      | .opened =>
        throw (.unsupported
          (.openInstanceDelegate (← ask (·.typeName type)) (← ask (·.methodName method))))
      | .closed => unit.instanceParts type method desc

/-- The symbol of a generated routine. -/
def helperSymbol : Helper → ImageM String
  | .delegate parts => do
    let thunk? ← match parts.thunk? with
      | some thunk => some <$> symbol thunk
      | none => pure none
    return delegateHelperSymbol (← symbol parts.initializer) (← symbol parts.target) thunk?
  | .gcStaticBase type => ask (·.typeSymbol (.staticBaseHelper false) type)
  | .threadStaticBase type => ask (·.typeSymbol (.staticBaseHelper true) type)

/-- A generated routine. -/
def helper (helper : Helper) : ImageM NodeId := do
  intern { kind := .helper helper, symbol := ← helperSymbol helper }

/-- The routine that constructs delegates of a type over a method. -/
def delegateHelper (unit : CompilationUnit) (type : TypeId) (method : MethodId) :
    ImageM NodeId := do
  helper (.delegate (← unit.delegateParts type method))

end NativeImage.CompilationUnit

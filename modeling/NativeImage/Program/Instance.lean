import NativeImage.Program.Basic

/-!
# Instances

A generic definition applied to arguments exists once: asking again for the same definition and
arguments gives the handle that was given first. A method is identified by its definition, its
owner and its method arguments, and the definition itself stands for its own owner without
arguments.

## Main definitions

- `ProgramM.internType`, `ProgramM.internMethod` — find an instance or append it
- `ProgramM.instantiateType`, `ProgramM.instantiateMethod` — supply arguments
- `ProgramM.methodOnType` — the counterpart of a method on another instance of its owner
-/

namespace NativeImage

namespace Program

/-- The handle of a definition's instance for given arguments, if it exists. -/
def findType? (program : Program) (definition : TypeId) (args : List TypeId) : Option TypeId :=
  (program.types.findIdx? fun desc => desc.origin == .derived definition args).map TypeId.mk

/-- The handle of a definition's instance on an owner with given method arguments, if it exists. -/
def findMethod? (program : Program) (definition : MethodId) (owner : TypeId)
    (args : List TypeId) : Option MethodId :=
  (program.methods.findIdx? fun desc =>
    desc.origin == .derived definition args && desc.owner == owner).map MethodId.mk

/-- The descriptor of an instance: its definition's, under the instance's name. -/
def typeInstance (program : Program) (definition : TypeId) (args : List TypeId) :
    Except ProgramError TypeDesc := do
  let desc ← program.typeDesc definition
  let name := desc.name ++ (← program.argumentList args)
  return ⟨{ desc.toTypeDeclaration with name }, .derived definition args⟩

end Program

namespace ProgramM

open Program

/-- The instance of a definition for given arguments. -/
def internType (definition : TypeId) (args : List TypeId) : ProgramM TypeId := do
  match (← get).findType? definition args with
  | some id => return id
  | none => appendType (← ask (·.typeInstance definition args))

/-- The instance of a method definition on an owner with given method arguments. -/
def internMethod (definition : MethodId) (owner : TypeId) (args : List TypeId) :
    ProgramM MethodId := do
  let desc ← ask (·.methodDesc definition)
  if owner = desc.owner ∧ args = [] then return definition
  match (← get).findMethod? definition owner args with
  | some id => return id
  | none => appendMethod ⟨{ desc.toMethodDeclaration with owner }, .derived definition args⟩

/-- Apply a generic definition to arguments. An instance takes no further arguments. -/
def instantiateType (id : TypeId) (args : List TypeId) : ProgramM TypeId := do
  let desc ← ask (·.typeDesc id)
  if desc.isGenericDefinition ∧ desc.genericArity = args.length then
    internType id args
  else
    let expected := if desc.definition?.isSome then 0 else desc.genericArity
    throw (.typeArgumentCount desc.name expected args.length)

/-- Supply the method arguments of a method that has none yet. -/
def instantiateMethod (id : MethodId) (args : List TypeId) : ProgramM MethodId := do
  let desc ← ask (·.methodDesc id)
  if desc.args ≠ [] then
    throw (.alreadyInstantiated (← ask (·.methodName id)))
  else if desc.genericArity ≠ args.length then
    throw (.methodArgumentCount (← ask (·.methodName id)) desc.genericArity args.length)
  else
    internMethod (desc.definition?.getD id) desc.owner args

/-- The counterpart of a method on `type`, which must be the owner of the method's definition or
one of its instances. Method arguments are kept. -/
def methodOnType (id : MethodId) (type : TypeId) : ProgramM MethodId := do
  let desc ← ask (·.methodDesc id)
  let definition := desc.definition?.getD id
  let home := (← ask (·.methodDesc definition)).owner
  if (← ask (·.typeDefinition type)) = home then
    internMethod definition type desc.args
  else
    throw (.methodNotOnType (← ask (·.methodName id)) (← ask (·.typeName type)))

end ProgramM

end NativeImage

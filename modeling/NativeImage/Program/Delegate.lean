import NativeImage.Program.Instance

/-!
# Delegate types

A delegate definition gets its invocation thunks when they are first asked for. They are instance
methods of the definition; an instance of the definition uses their counterparts on itself.

## Main definitions

- `DelegateInfo` — the invoke arity and the thunks of a delegate definition
- `ProgramM.delegateInfo` — the information of a type's definition
-/

namespace NativeImage

/-- What all instances of a delegate definition share. -/
structure DelegateInfo where
  invokeArity : Nat
  openStatic : MethodId
  closedStatic : MethodId
  /-- Missing if the signature cannot be passed to native code or the definition is generic. -/
  reverseNative? : Option MethodId
  deriving DecidableEq, Repr

def DelegateInfo.thunk? (info : DelegateInfo) : InvokeThunk → Option MethodId
  | .openStatic => some info.openStatic
  | .closedStatic => some info.closedStatic
  | .reverseNative => info.reverseNative?

/-- The thunk of a definition, if it exists. -/
def Program.findThunk? (program : Program) (owner : TypeId) (kind : InvokeThunk) :
    Option MethodId :=
  (program.methods.findIdx? fun desc => desc.origin == .thunk kind && desc.owner == owner).map
    MethodId.mk

namespace ProgramM

/-- The thunk of a delegate definition. -/
def internThunk (owner : TypeId) (invokeArity : Nat) (kind : InvokeThunk) :
    ProgramM MethodId := do
  match (← get).findThunk? owner kind with
  | some id => return id
  | none =>
    appendMethod ⟨{ name := kind.methodName, owner, paramCount := invokeArity }, .thunk kind⟩

/-- The information of the definition of a delegate type. -/
def delegateInfo (type : TypeId) : ProgramM DelegateInfo := do
  let definition ← ask (·.typeDefinition type)
  let desc ← ask (·.typeDesc definition)
  match desc.invokeArity? with
  | none => throw (.notADelegate desc.name)
  | some invokeArity =>
    let openStatic ← internThunk definition invokeArity .openStatic
    let closedStatic ← internThunk definition invokeArity .closedStatic
    let reverseNative? ←
      if desc.nativeSignature && !desc.isGenericDefinition then
        some <$> internThunk definition invokeArity .reverseNative
      else pure none
    return ⟨invokeArity, openStatic, closedStatic, reverseNative?⟩

end ProgramM

end NativeImage

import NativeImage.Program.Instance

/-!
# Shared code

Instances that differ only in reference types share one body of code. The canonical form of a type
or method names that body: reference arguments become the placeholder `TypeId.canon`, value
arguments are replaced by their own canonical forms.

The recursions go from an instance to its arguments, which every instance finds in the program
before itself; an argument that does not come earlier is refused.

## Main definitions

- `ProgramM.canonicalType`, `ProgramM.canonicalMethod` — the canonical forms
- `Program.mentionsCanon`, `Program.isSharedMethod` — whether the placeholder occurs
-/

namespace NativeImage

namespace ProgramM

/-- The canonical form of a type. -/
def canonicalType (id : TypeId) : ProgramM TypeId := do
  let desc ← ask (·.typeDesc id)
  match desc.origin with
  | .declared => return id
  | .derived definition args =>
    let canonical ← args.mapM fun arg => do
      if (← ask (·.typeDesc arg)).isValueType then
        if _ : arg.index < id.index then canonicalType arg else throw (.noType arg)
      else return .canon
    if canonical = args then return id
    internType definition canonical
termination_by id.index

/-- The canonical form of an argument. -/
def canonicalArgument (arg : TypeId) : ProgramM TypeId := do
  if (← ask (·.typeDesc arg)).isValueType then canonicalType arg else return .canon

/-- The canonical form of a method: the shared body that the method runs. -/
def canonicalMethod (id : MethodId) : ProgramM MethodId := do
  let desc ← ask (·.methodDesc id)
  match desc.origin with
  | .declared | .thunk _ => return id
  | .derived definition args =>
    let owner ← canonicalType desc.owner
    let canonical ← args.mapM canonicalArgument
    if owner = desc.owner ∧ canonical = args then return id
    internMethod definition owner canonical

end ProgramM

namespace Program

/-- Whether the placeholder occurs anywhere in a type. -/
def mentionsCanon (program : Program) (id : TypeId) : Except ProgramError Bool := do
  let desc ← program.typeDesc id
  if id = .canon then return true
  desc.args.anyM fun arg =>
    if _ : arg.index < id.index then program.mentionsCanon arg else throw (.noType arg)
termination_by id.index

/-- Whether a method is shared code, through its owner or its own arguments. -/
def isSharedMethod (program : Program) (id : MethodId) : Except ProgramError Bool := do
  let desc ← program.methodDesc id
  if ← program.mentionsCanon desc.owner then return true
  desc.args.anyM program.mentionsCanon

end Program

end NativeImage

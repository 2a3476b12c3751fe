/-!
# Routines of delegates

A delegate is constructed by an initializer of the delegate base type and, if its target is static,
invoked through a thunk of its own type.

## Main definitions

- `Initializer` — the initializers, in the order of their methods in the base type
- `InvokeThunk` — the thunks a delegate type can have
-/

namespace NativeImage

/-- Routines of the delegate base type that fill in a new delegate. -/
inductive Initializer
  | openStatic
  | closedStatic
  | reverseNative
  | closedInstance
  /-- Checks the target for a fat function pointer and unwraps it. -/
  | closedInstanceSlow
  deriving DecidableEq, Repr

namespace Initializer

def all : List Initializer :=
  [openStatic, closedStatic, reverseNative, closedInstance, closedInstanceSlow]

/-- Position among the methods of the base type. -/
def slot : Initializer → Nat
  | openStatic => 0
  | closedStatic => 1
  | reverseNative => 2
  | closedInstance => 3
  | closedInstanceSlow => 4

def methodName : Initializer → String
  | openStatic => "InitializeOpenStaticThunk"
  | closedStatic => "InitializeClosedStaticThunk"
  | reverseNative => "InitializeReversePInvokeThunk"
  | closedInstance => "InitializeClosedInstance"
  | closedInstanceSlow => "InitializeClosedInstanceSlow"

/-- Receiver object and function pointer, and the thunk for static targets. -/
def paramCount : Initializer → Nat
  | openStatic | closedStatic | reverseNative => 3
  | closedInstance | closedInstanceSlow => 2

end Initializer

/-- How a delegate type invokes static targets. -/
inductive InvokeThunk
  /-- Passes every argument through. -/
  | openStatic
  /-- Puts the bound first argument before the others. -/
  | closedStatic
  /-- Enters a native-callable target through a reverse transition. -/
  | reverseNative
  deriving DecidableEq, Repr

namespace InvokeThunk

def all : List InvokeThunk := [openStatic, closedStatic, reverseNative]

def methodName : InvokeThunk → String
  | openStatic => "InvokeOpenStaticThunk"
  | closedStatic => "InvokeClosedStaticThunk"
  | reverseNative => "InvokeReversePInvokeThunk"

end InvokeThunk

end NativeImage

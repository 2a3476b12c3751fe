/-!
# Handles

A handle names an entry of an append-only table by its position. Two handles are equal exactly when
they name the same entry.

## Main definitions

- `ModuleId`, `TypeId`, `MethodId` — the entries of a program
- `NodeId` — the nodes of a compilation unit
- `Entity` — a method or a type, whichever owns a generic dictionary
-/

namespace NativeImage

structure ModuleId where
  index : Nat
  deriving DecidableEq, Repr

structure TypeId where
  index : Nat
  deriving DecidableEq, Repr

structure MethodId where
  index : Nat
  deriving DecidableEq, Repr

structure NodeId where
  index : Nat
  deriving DecidableEq, Repr

/-- Whatever may own a generic dictionary. -/
inductive Entity
  | method (id : MethodId)
  | type (id : TypeId)
  deriving DecidableEq, Repr

end NativeImage

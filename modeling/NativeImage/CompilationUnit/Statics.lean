import NativeImage.CompilationUnit.Basic

/-!
# Static data of types

The nodes through which static fields are reached. For a type of another unit they are references
to the symbols which that unit defines.

## Main definitions

- `CompilationUnit.gcStaticDesc`, `CompilationUnit.gcStaticBase` — static fields with references
- `CompilationUnit.threadStaticsOffset`, `CompilationUnit.threadStaticsIndexOf`,
  `CompilationUnit.threadStaticsBlock` — fields of each thread
- `CompilationUnit.standaloneRegion` — a region around one descriptor
-/

namespace NativeImage.CompilationUnit

open ImageM

/-- A node of this unit's type, or the symbol that the type's unit defines for it. -/
def typeNode (unit : CompilationUnit) (type : TypeId) (family : SymbolFamily) (kind : NodeKind) :
    ImageM NodeId := do
  let symbol ← ask (·.typeSymbol family type)
  if ← unit.ownsType type then intern { kind, symbol } else externSymbol symbol

/-- Where the collector finds the references among a type's static fields. -/
def gcStaticDesc (unit : CompilationUnit) (type : TypeId) (thread : Bool) : ImageM NodeId :=
  unit.typeNode type (.gcStaticDesc thread) (.gcStaticDesc type thread)

/-- The static fields that hold references. -/
def gcStaticBase (unit : CompilationUnit) (type : TypeId) : ImageM NodeId :=
  unit.typeNode type .gcStaticBase (.gcStaticBase type)

/-- The offset of a type's thread statics in thread-local storage. -/
def threadStaticsOffset (unit : CompilationUnit) (type : TypeId) : ImageM NodeId :=
  unit.typeNode type .threadStaticsOffset (.threadStaticsOffset type)

/-- The index of the thread-local storage that holds a type's thread statics: this unit's for its
own types, else that of the unit they are imported from. -/
def threadStaticsIndexOf (unit : CompilationUnit) (type : TypeId) : ImageM NodeId := do
  if ← unit.ownsType type then return .threadStaticsIndex
  externSymbol (threadIndexSymbol unit.config.importedPrefix)

/-- The thread statics of a type, whoever owns it. -/
def threadStaticsBlock (type : TypeId) : ImageM NodeId := do
  let symbol ← ask (·.typeSymbol .threadStaticsBlock type)
  intern { kind := .threadStaticsBlock type, symbol }

/-- A region that holds just one descriptor. -/
def standaloneRegion (descriptor : NodeId) : ImageM NodeId := do
  let inner ← symbol descriptor
  intern {
    kind := .standaloneRegion descriptor
    symbol := standaloneRegionSymbol inner .first
    endSymbol? := some (standaloneRegionSymbol inner .last) }

end NativeImage.CompilationUnit

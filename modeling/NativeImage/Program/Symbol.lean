import NativeImage.Program.Basic

/-!
# Symbols of a program's types and methods

## Main definitions

- `Program.typeSymbol`, `Program.methodSymbol` — the symbol of a family's node for a type or method
- `Program.entitySymbol` — the same for whichever of the two
-/

namespace NativeImage.Program

/-- The symbol of a family's node for a type. -/
def typeSymbol (program : Program) (family : SymbolFamily) (id : TypeId) :
    Except ProgramError String := do
  return family.symbol (← program.typeEntity id)

/-- The symbol of a family's node for a method. -/
def methodSymbol (program : Program) (family : SymbolFamily) (id : MethodId) :
    Except ProgramError String := do
  return family.symbol (← program.methodEntity id)

def entitySymbol (program : Program) (family : SymbolFamily) : Entity → Except ProgramError String
  | .method id => program.methodSymbol family id
  | .type id => program.typeSymbol family id

end NativeImage.Program

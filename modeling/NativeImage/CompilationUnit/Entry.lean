import NativeImage.CompilationUnit.Basic
import NativeImage.Program.Sharing

/-!
# Entries of methods

What a call or a function pointer to a method binds to. Methods of the unit have code in it, methods
of other units are external, and runtime imports bind to their routine. Instances of shared code
forward to the code of their canonical form.

## Main definitions

- `CompilationUnit.plainEntry`, `CompilationUnit.unboxingEntry` — the entries of a method
- `CompilationUnit.shadowMethod` — an instance that runs shared code
- `CompilationUnit.fatPointer` — shared code with the dictionary of an instance
- `CompilationUnit.dictionaryLayout` — the dictionary of a method or type
-/

namespace NativeImage.CompilationUnit

open ImageM

/-- Code compiled into this unit, whoever owns the method. -/
def methodCode (entry : MethodEntry) : ImageM NodeId := do
  let symbol ← ask (·.methodSymbol (.plain entry.unboxing) entry.method)
  intern { kind := .methodCode entry, symbol }

/-- Code of another unit. -/
def externMethod (entry : MethodEntry) : ImageM NodeId := do
  let symbol ← ask (·.methodSymbol (.plain entry.unboxing) entry.method)
  intern { kind := .externMethod entry, symbol }

/-- Code of this unit or of another one, as the method's owner has it. -/
def ownedEntry (unit : CompilationUnit) (entry : MethodEntry) : ImageM NodeId := do
  if ← unit.ownsMethod entry.method then methodCode entry else externMethod entry

/-- What a call of the method binds to. -/
def plainEntry (unit : CompilationUnit) (method : MethodId) : ImageM NodeId := do
  let desc ← ask (·.methodDesc method)
  match desc.importSymbol? with
  | some symbol => intern { kind := .runtimeImport method, symbol }
  | none => unit.ownedEntry ⟨method, false⟩

/-- What boxed receivers enter the method through. Shared code without method arguments has a stub
of its own that also supplies the instantiation; any other method gets a stub that unboxes the
receiver and goes on to the plain entry. -/
def unboxingEntry (unit : CompilationUnit) (method : MethodId) : ImageM NodeId := do
  let desc ← ask (·.methodDesc method)
  if (← ask (·.isSharedMethod method)) && desc.args.isEmpty then
    unit.ownedEntry ⟨method, true⟩
  else
    let target ← unit.plainEntry method
    let symbol ← ask (·.methodSymbol (.plain true) method)
    intern { kind := .unboxingStub method target, symbol }

/-- The entry of a method that is entered in the given way. -/
def methodEntry (unit : CompilationUnit) (entry : MethodEntry) : ImageM NodeId :=
  if entry.unboxing then unit.unboxingEntry entry.method else unit.plainEntry entry.method

/-- The dictionary of a method or type. -/
def dictionaryLayout (owner : Entity) : ImageM NodeId := do
  let symbol ← ask (·.entitySymbol .dictionary owner)
  intern { kind := .dictionaryLayout owner, symbol }

/-- An instance that runs the code of its canonical form. -/
def shadowMethod (unit : CompilationUnit) (entry : MethodEntry) : ImageM NodeId := do
  let canonical ← onProgram (ProgramM.canonicalMethod entry.method)
  let target ← unit.methodEntry ⟨canonical, entry.unboxing⟩
  let symbol ← ask (·.methodSymbol (.shadow entry.unboxing) entry.method)
  intern { kind := .shadowMethod entry target, symbol }

/-- The code of a method's canonical form, together with the method's dictionary. -/
def fatPointer (unit : CompilationUnit) (entry : MethodEntry) : ImageM NodeId := do
  let canonical ← onProgram (ProgramM.canonicalMethod entry.method)
  let target ← unit.methodEntry ⟨canonical, entry.unboxing⟩
  let dictionary ← dictionaryLayout (.method entry.method)
  let symbol ← ask (·.methodSymbol (.fatPointer entry.unboxing) entry.method)
  intern { kind := .fatPointer entry target dictionary, symbol }

/-- The entry of a class constructor that runs at startup. -/
def eagerConstructor (method : MethodId) : ImageM NodeId := do
  let symbol ← ask (·.methodSymbol .eagerConstructor method)
  intern { kind := .eagerConstructor method, symbol }

end NativeImage.CompilationUnit

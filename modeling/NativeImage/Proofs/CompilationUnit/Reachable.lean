import NativeImage.Proofs.CompilationUnit.Numbering

/-!
# Images before they are compiled

A unit may be used in any way before it is compiled: its nodes are asked for, and its program is
asked for instances or gets further declarations. Every image that is left by such calls on existing
handles is well-formed and not attached.

## Main definitions

- `Image.Reachable` — images left by calls on existing handles

## Main statements

- `Image.Reachable.unattached`
-/

namespace NativeImage

open Program Image ImageM

namespace Image

/-- Images that a unit may have before it is attached. -/
inductive Reachable (unit : CompilationUnit) : Image → Prop
  | initial {p : Program} (h : p.Reachable) : Reachable unit (.initial unit.config p)
  | call {s : Image} (h : Reachable unit s) {call : UnitCall} (hv : call.Valid s.program) :
    Reachable unit (stateAfter (call.run unit) s)
  | declareModule {s : Image} (h : Reachable unit s) (desc : ModuleDesc) :
    Reachable unit (stateAfter (onProgram (ProgramM.declareModule desc)) s)
  | declareType {s : Image} (h : Reachable unit s) {type : TypeDeclaration}
    (hm : s.program.HasModule type.module) :
    Reachable unit (stateAfter (onProgram (ProgramM.declareType type)) s)
  | declareMethod {s : Image} (h : Reachable unit s) {method : MethodDeclaration}
    (ho : s.program.HasType method.owner) :
    Reachable unit (stateAfter (onProgram (ProgramM.declareMethod method)) s)

variable {unit : CompilationUnit} {base p : Program} {s : Image}

/-- The program that an image has grown to may be taken as the base, and it may have grown by
declarations. -/
theorem Unattached.withProgram (h : s.Unattached unit base) (hp : p.WellFormed)
    (hle : s.program ≤ p) : Unattached unit p { s with program := p } := by
  have hst : s ≤ { s with program := p } := ⟨hle, .refl _, fun _ h => h⟩
  refine ⟨⟨.refl hp, ⟨le_rfl, h.1.initial_le.nodes, fun _ ha => ?_⟩, h.1.kinds,
    fun hx => (unit.symbolsOf_settles _).again (h.1.symbols hx) hst,
    fun hx => (h.1.refers hx).mono hst, h.1.unattached⟩, h.2⟩
  cases ha

/-- Every such image is well-formed over its own program, and not attached. -/
theorem Reachable.unattached (h : s.Reachable unit) : s.Unattached unit s.program := by
  induction h with
  | initial h => exact initial_unattached unit h.wellFormed
  | call _ hv ih =>
    have hafter := (UnitCall.run_agrees ih hv).stateAfter.unattached
    exact hafter.withProgram hafter.1.program.wellFormed le_rfl
  | declareModule _ desc ih =>
    have hp := ih.1.program.wellFormed
    exact ih.withProgram (hp.declareModule desc) ⟨.push _ _, .refl _, .refl _⟩
  | declareType _ hm ih =>
    have hp := ih.1.program.wellFormed
    exact ih.withProgram (hp.pushType ⟨hm, nofun⟩ fun hne => absurd rfl hne)
      (ProgramM.le_pushType _ _)
  | declareMethod _ ho ih =>
    have hp := ih.1.program.wellFormed
    exact ih.withProgram (hp.pushMethod ⟨ho, nofun, nofun⟩ fun hne => absurd rfl hne)
      (ProgramM.le_pushMethod _ _)

end Image

end NativeImage

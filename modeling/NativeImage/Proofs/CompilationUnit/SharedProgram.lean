import NativeImage.Proofs.CompilationUnit.Making
import NativeImage.Proofs.CompilationUnit.NodeIdentity

/-!
# Units over one program

When a program is compiled in parts, each part is a unit with nodes of its own, and all of them
share the program: what one adds to it the others see. Each unit comes to its nodes as if it were
alone, and the program is one that could have been built without them.

## Main definitions

- `FactoryCall.Valid` — calls to the program are on handles that it has
- `Image.Together` — what two units may come to

## Main statements

- `CompilationUnit.sustained_of_program` — units keep what instances keep
- `FactoryCall.run_reachable` — units do nothing to the program that it could not do itself
- `Image.Together.byCaches`, `Image.Together.reachable`
-/

namespace NativeImage

open ImageM Program

/-! ## What units do to programs -/

namespace CompilationUnit

/-- Nodes are no part of the program, so whatever a unit is asked for, it keeps what instances and
thunks do not take from the program. -/
theorem sustained_of_program {unit : CompilationUnit} {P : Program → Prop}
    (hinterned : ∀ {p : Program} (call : InternCall), P p → call.isByUnits = true →
      P (stateAfter call.run p)) :
    unit.Sustained (fun _ _ => True) fun s => P s.program where
  ordinary _ := trivial
  interned call h hunit := hinterned call h hunit
  asked key h _ := by
    have hkept : unit.KeptByMaking ⟨[]⟩ fun s => P s.program :=
      ⟨fun call h hunit => hinterned call h hunit, fun h _ => h⟩
    exact hkept.answer_keeps h key fun leaf _ => internKind_keeps_of h leaf.kind fun _ _ => h

/-- Attaching a unit leaves the program as it is. -/
theorem attach_keeps_program {unit : CompilationUnit} {base : Program} {P : Program → Prop}
    {s : Image} (hs : s.ByCaches unit base) (h : P s.program) :
    Keeps (fun s => P s.program) unit.attach s := by
  obtain ⟨cached, hcached⟩ := hs
  exact attach_keeps hcached.consistent.initial_le h hcached.consistent.unattached (fun _ _ => h)
    fun _ h _ _ => h

end CompilationUnit

namespace FactoryCall

/-- A call to the program is on handles that it has. -/
def Valid (p : Program) (call : FactoryCall) : Prop :=
  ∀ other ∈ call.program?, other.Valid p

/-- The program could have been built without the unit. -/
theorem run_reachable {unit : CompilationUnit} {base : Program} {s : Image}
    (hs : s.ByCaches unit base) (h : s.program.Reachable) {call : FactoryCall}
    (hv : call.Valid s.program) : (stateAfter (call.run unit) s).program.Reachable :=
  (run_keeps_of (CompilationUnit.sustained_of_program fun _ h hunit => (h.stateAfter_call hunit).1)
    h (CompilationUnit.attach_keeps_program hs h) call fun other hother =>
      ProgramCall.reachable_stateAfter h (hv other hother)).stateAfter

end FactoryCall

/-! ## Two units -/

namespace Image

open CompilationUnit

/-- What two units may come to over one program. Whichever of them is asked for something, and
whether it answers or not, both see what has become of the program. -/
inductive Together : CompilationUnit → CompilationUnit → Image → Image → Prop
  | initial {p : Program} (a b : CompilationUnit) (h : p.Reachable) :
    Together a b (.initial a.config p) (.initial b.config p)
  | call {a b : CompilationUnit} {s t : Image} (h : Together a b s t) {call : FactoryCall}
    (hv : call.Valid s.program) :
    Together a b (stateAfter (call.run a) s)
      { t with program := (stateAfter (call.run a) s).program }
  | symm {a b : CompilationUnit} {s t : Image} (h : Together a b s t) : Together b a t s

namespace Together

variable {a b : CompilationUnit} {s t : Image}

/-- They share the program. -/
theorem program_eq (h : Together a b s t) : t.program = s.program := by
  induction h with
  | initial => rfl
  | call => rfl
  | symm _ ih => exact ih.symm

/-- Both come to their nodes as if they were alone. -/
theorem byCaches_both (h : Together a b s t) :
    (∃ base, s.ByCaches a base) ∧ ∃ base, t.ByCaches b base := by
  induction h with
  | initial a b => exact ⟨⟨_, _, .initial⟩, _, _, .initial⟩
  | @call _ _ _ _ h call _ ih =>
    obtain ⟨⟨base, hs⟩, base', ht⟩ := ih
    have hcall := call.run_keeps hs
    refine ⟨⟨base, hcall.stateAfter⟩, base', ht.grow ?_⟩
    rw [h.program_eq]
    exact hcall.le_stateAfter.program
  | symm _ ih => exact ih.symm

theorem byCaches (h : Together a b s t) : ∃ base, s.ByCaches a base := h.byCaches_both.1

/-- The program could have been built without them. -/
theorem reachable (h : Together a b s t) : s.program.Reachable := by
  induction h with
  | initial _ _ h => exact h
  | call h hv ih =>
    obtain ⟨base, hs⟩ := h.byCaches
    exact FactoryCall.run_reachable hs ih hv
  | symm h ih =>
    rw [h.program_eq]
    exact ih

end Together

end Image

end NativeImage

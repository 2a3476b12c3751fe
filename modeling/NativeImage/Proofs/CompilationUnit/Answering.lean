import NativeImage.Proofs.CompilationUnit.Agreement
import NativeImage.Proofs.CompilationUnit.Caches
import NativeImage.Proofs.Program.Totality

/-!
# Entries are always answered

Whatever nodes an image has, over a well-formed program the entries of existing methods, their
shadows and their fat pointers are answered, and asking for them adds to the program only what can
be added to any program.

## Main definitions

- `Image.Over` — images whose program extends another one
- `CacheKey.Enters` — the keys of entries of existing methods

## Main statements

- `CompilationUnit.answer_over` — such keys are answered
- `CompilationUnit.resolve_call_over` — so are calls
-/

namespace NativeImage

open Program ImageM

/-- Instances and thunks may have been added to the program. -/
def Image.Over (base : Program) (s : Image) : Prop := Extension base s.program

/-- The key stands for an entry of an existing method. -/
def CacheKey.Enters (p : Program) : CacheKey → Prop
  | plainEntry method | unboxingEntry method => p.HasMethod method
  | shadowMethod entry | fatPointer entry => p.HasMethod entry.method
  | leaf _ => False

theorem CacheKey.enters_entry {p : Program} {entry : MethodEntry} (h : p.HasMethod entry.method) :
    (CacheKey.entry entry).Enters p := by
  rw [CacheKey.entry]
  split
  · exact h
  · exact h

variable {base : Program} {s : Image} {E : Image → CompileError → Prop}

/-! ## Rules -/

namespace ImageM

/-- What a program can do, an image over it can do. -/
theorem onProgram_over {α : Type} {V : Program → α → Prop} {x : ProgramM α}
    (h : Ends (Extension base) (fun _ cause => ∀ t, E t (.program cause)) V x s.program) :
    Ends (Image.Over base) E (fun t => V t.program) (onProgram x) s := by
  have hgrow {p : Program} (hle : s.program ≤ p) : s ≤ { s with program := p } :=
    ⟨hle, .refl _, fun _ h => h⟩
  cases h with
  | ok hx hle hp hv => exact .ok (by rw [onProgram, hx]) (hgrow hle) hp hv
  | error hx hle hp he => exact .error (by rw [onProgram, hx]) (hgrow hle) hp (he _)

/-- A node is found or appended. -/
theorem intern_over (hr : s.Over base) (x : Node) :
    Ends (Image.Over base) E (fun _ _ => True) (intern x) s := by
  have happly := intern_apply x s
  cases hfind : findNode? x.kind s with
  | some id =>
    rw [hfind] at happly
    exact .ok happly le_rfl hr trivial
  | none =>
    rw [hfind] at happly
    exact .ok happly (le_pushNode s x) hr trivial

/-- So is one that is named after a method. -/
theorem named_over (hr : s.Over base) {method : MethodId} (h : s.program.HasMethod method)
    (family : SymbolFamily) (x : String → Node) :
    Ends (Image.Over base) E (fun _ _ => True)
      (ask (·.methodSymbol family method) >>= fun symbol => intern (x symbol)) s := by
  obtain ⟨symbol, hsymbol, -⟩ := (MethodMatch.refl hr h).methodSymbol hr hr family
  exact .read (ask_eq_ok hsymbol) (intern_over hr _)

end ImageM

/-! ## Entries -/

namespace CompilationUnit

variable (unit : CompilationUnit) {method : MethodId}

theorem ownedEntry_over (hr : s.Over base) (h : s.program.HasMethod method) (unboxing : Bool) :
    Ends (Image.Over base) E (fun _ _ => True) (unit.ownedEntry ⟨method, unboxing⟩) s := by
  obtain ⟨own, hown, -⟩ := unit.ownership.ownsMethod_agrees hr hr (.refl hr h)
  refine .read (ask_eq_ok hown) ?_
  split
  · exact named_over hr h _ _
  · exact named_over hr h _ _

theorem plainEntry_over (hr : s.Over base) (h : s.program.HasMethod method) :
    Ends (Image.Over base) E (fun _ _ => True) (unit.plainEntry method) s := by
  obtain ⟨desc, hd⟩ := hasMethod_iff.1 h
  refine .read (ask_eq_ok hd) ?_
  split
  · exact intern_over hr _
  · exact unit.ownedEntry_over hr h false

theorem unboxingEntry_over (hr : s.Over base) (h : s.program.HasMethod method) :
    Ends (Image.Over base) E (fun _ _ => True) (unit.unboxingEntry method) s := by
  obtain ⟨desc, hd⟩ := hasMethod_iff.1 h
  obtain ⟨shared, hs⟩ := Extension.exists_isSharedMethod hr h
  refine .read (ask_eq_ok hd) (.read (ask_eq_ok hs) ?_)
  split
  · exact unit.ownedEntry_over hr h true
  · refine (unit.plainEntry_over hr h).bind fun hle hr _ => ?_
    exact named_over hr (h.mono hle.program) _ _

theorem methodEntry_over (hr : s.Over base) {entry : MethodEntry}
    (h : s.program.HasMethod entry.method) :
    Ends (Image.Over base) E (fun _ _ => True) (unit.methodEntry entry) s := by
  rw [methodEntry]
  split
  · exact unit.unboxingEntry_over hr h
  · exact unit.plainEntry_over hr h

theorem canonicalMethod_over (hr : s.Over base) (h : s.program.HasMethod method) :
    Ends (Image.Over base) E (fun t id => t.program.HasMethod id)
      (onProgram (ProgramM.canonicalMethod method)) s :=
  onProgram_over (ProgramM.canonicalMethod_ends hr h)

theorem shadowMethod_over (hr : s.Over base) {entry : MethodEntry}
    (h : s.program.HasMethod entry.method) :
    Ends (Image.Over base) E (fun _ _ => True) (unit.shadowMethod entry) s := by
  refine (canonicalMethod_over hr h).bind fun hle hr hcanonical => ?_
  have h := h.mono hle.program
  refine (unit.methodEntry_over hr hcanonical).bind fun hle hr _ => ?_
  exact named_over hr (h.mono hle.program) _ _

theorem fatPointer_over (hr : s.Over base) {entry : MethodEntry}
    (h : s.program.HasMethod entry.method) :
    Ends (Image.Over base) E (fun _ _ => True) (unit.fatPointer entry) s := by
  refine (canonicalMethod_over hr h).bind fun hle hr hcanonical => ?_
  have h := h.mono hle.program
  refine (unit.methodEntry_over hr hcanonical).bind fun hle hr _ => ?_
  have h := h.mono hle.program
  refine (named_over hr h .dictionary _).bind fun hle hr _ => ?_
  exact named_over hr (h.mono hle.program) _ _

/-- Entries of existing methods are answered. -/
theorem answer_over (hr : s.Over base) {key : CacheKey} (h : key.Enters s.program) :
    Ends (Image.Over base) E (fun _ _ => True) (unit.answer key) s := by
  cases key with
  | plainEntry method => exact unit.plainEntry_over hr h
  | unboxingEntry method => exact unit.unboxingEntry_over hr h
  | shadowMethod entry => exact unit.shadowMethod_over hr h
  | fatPointer entry => exact unit.fatPointer_over hr h
  | leaf key => exact h.elim

/-- Calls of existing methods are answered. -/
theorem resolve_call_over (hr : s.Over base) (h : s.program.HasMethod method) :
    Ends (Image.Over base) E (fun _ _ => True) (unit.resolve (.call method)) s := by
  refine (canonicalMethod_over hr h).bind fun hle hr _ => ?_
  have h := h.mono hle.program
  split
  · exact unit.plainEntry_over hr h
  · exact unit.shadowMethod_over hr h

end CompilationUnit

end NativeImage

import NativeImage.Proofs.CompilationUnit.OwnedNodes

/-!
# One body for what shares code

Instances that have one canonical form are to run one body. Calls, bound receivers and function
pointers see to this: they enter the canonical form, or a shadow or fat pointer that goes on to it.
The static target of a delegate and the thunk of its type are entered as they are, and so is a class
constructor that runs at startup. Apart from these a compiled unit has one body for each canonical
form and way of entering it; with them it may have one more for each instance.

## Main definitions

- `CompiledUnit.SharesCode` — bodies of canonical forms, up to exceptions

## Main statements

- `CompilationUnit.compile_shares_code` — what is entered as it is are the only exceptions
- `CompilationUnit.delegates_divide_code` — two bodies of methods that share code
-/

namespace NativeImage

open ImageM Program

/-- Bodies are those of canonical forms, except for some entries. Other methods that have one
canonical form have one body in each of the two ways of entering them. -/
structure CompiledUnit.SharesCode (output : CompiledUnit) (p : Program)
    (except : MethodEntry → Prop) : Prop where
  canonical : ∀ emitted ∈ output.nodes, ∀ entry, emitted.node.kind = .methodCode entry →
    except entry ∨ ProgramM.canonicalMethod entry.method p = .ok entry.method p
  once : ∀ first ∈ output.nodes, ∀ second ∈ output.nodes, ∀ x y unboxing form q r,
    first.node.kind = .methodCode ⟨x, unboxing⟩ → second.node.kind = .methodCode ⟨y, unboxing⟩ →
    ¬ except ⟨x, unboxing⟩ → ¬ except ⟨y, unboxing⟩ →
    ProgramM.canonicalMethod x p = .ok form q → ProgramM.canonicalMethod y q = .ok form r →
    first = second

namespace CompilationUnit

variable {unit : CompilationUnit} {base : Program} {bodies : CodeBodies} {methods : List MethodId}
  {output : CompiledUnit} {final : Image}

/-- A new unit has bodies of canonical forms only, and one for all methods that share it, except for
what the emitted bodies enter as it is: the static target and the thunk of a delegate, and class
constructors that run at startup. -/
theorem compile_shares_code (hb : base.Reachable)
    (hbodies : ∀ request ∈ bodies.requests, request.isNode = false)
    (h : unit.compile bodies methods (.initial unit.config base) = .ok output final) :
    output.SharesCode final.program (EnteredAsIs (output.Requests bodies final) final) := by
  have hwellFormed := (compile_compiling hb h).program.wellFormed
  have hcanonical : ∀ emitted ∈ output.nodes, ∀ entry, emitted.node.kind = .methodCode entry →
      EnteredAsIs (output.Requests bodies final) final entry ∨
        ProgramM.canonicalMethod entry.method final.program = .ok entry.method final.program := by
    intro emitted he entry hkind
    have hreason := compile_warranted hb hbodies h emitted he
    rw [hkind] at hreason
    rcases hreason.2 with hnormal | hasis
    · exact .inr (ProgramM.canonicalMethod_of_normal hwellFormed hnormal)
    · exact .inl hasis
  refine ⟨hcanonical, ?_⟩
  intro first hfirst second hsecond x y unboxing form q r hx hy hnotx hnoty hformx hformy
  -- both are their own canonical form, and that is the same
  have hselfx := (hcanonical first hfirst _ hx).resolve_left hnotx
  have hselfy := (hcanonical second hsecond _ hy).resolve_left hnoty
  cases hselfx.symm.trans hformx
  cases hselfy.symm.trans hformy
  exact eq_of_kind_eq ⟨_, .initial⟩ h hfirst hsecond (hx.trans hy.symm)

/-! ## Delegates over methods that share code -/

/-- The library and the application are compiled into one image. -/
def completeUnit : CompilationUnit := ⟨{ arch := .x64 }, .everything, .absent⟩

/-- The entry point calls both instances of the library's method. -/
def callingBodies : CodeBodies := ⟨[(⟨5⟩, [.call ⟨7⟩, .call ⟨8⟩])]⟩

/-- It constructs delegates over both instances. -/
def delegatingBodies : CodeBodies := ⟨[(⟨5⟩, [.delegate ⟨6⟩ ⟨7⟩, .delegate ⟨6⟩ ⟨8⟩])]⟩

theorem calls_share_code : ∃ output final,
    completeUnit.compile callingBodies [⟨5⟩] (.initial completeUnit.config libraryProgram) =
      .ok output final ∧
    output.SharesCode final.program (EnteredAsIs (output.Requests callingBodies final) final) := by
  have hrun : succeeds (completeUnit.compile callingBodies [⟨5⟩]
      (.initial completeUnit.config libraryProgram)) = true := by decide +kernel
  obtain ⟨output, final, h⟩ := exists_ok_of_succeeds hrun
  exact ⟨output, final, h, compile_shares_code libraryProgram_reachable (by decide) h⟩

/-- The two instances share code. -/
theorem instances_share : libraryProgram.MethodShares ⟨7⟩ ⟨8⟩ := by
  have hmain : libraryProgram.IsReference ⟨4⟩ := by decide +kernel
  have hitem : libraryProgram.IsReference ⟨5⟩ := by decide +kernel
  have hmains : libraryProgram.TypeInstance ⟨7⟩ ⟨3⟩ [⟨4⟩] := by decide +kernel
  have hitems : libraryProgram.TypeInstance ⟨8⟩ ⟨3⟩ [⟨5⟩] := by decide +kernel
  have hadd : libraryProgram.DerivedMethod ⟨7⟩ ⟨6⟩ ⟨7⟩ [] := by decide +kernel
  have hadd' : libraryProgram.DerivedMethod ⟨8⟩ ⟨6⟩ ⟨8⟩ [] := by decide +kernel
  exact .derived hadd hadd' (.derived hmains hitems (.reference hmain hitem .nil)) .nil

/-- A generic delegate type and a class constructor of the generic class, with an instance each. -/
def startupProgram : Program :=
  libraryProgram.after [
    .declareType { name := "Handler", module := ⟨2⟩, kind := .delegate 1, genericArity := 1 },
    .declareMethod { name := "Notify", owner := ⟨4⟩, isStatic := true, paramCount := 1 },
    .declareMethod { name := ".cctor", owner := ⟨3⟩, isStatic := true },
    .intern (.instantiateType ⟨9⟩ [⟨5⟩]),
    .intern (.methodOnType ⟨10⟩ ⟨7⟩)]

/-- The entry point constructs a delegate of the instance, over a method that shares no code. -/
def handlerBodies : CodeBodies := ⟨[(⟨5⟩, [.delegate ⟨10⟩ ⟨9⟩])]⟩

/-- It has the class constructor of an instance run at startup. -/
def startupBodies : CodeBodies := ⟨[(⟨5⟩, [.eagerConstructor ⟨11⟩])]⟩

/-- Whether there is a body of a method that is not its own canonical form. -/
def hasInstanceBody (output : CompiledUnit) (final : Image) : Bool :=
  output.nodes.any fun emitted => match emitted.node.kind with
    | .methodCode entry => match ProgramM.canonicalMethod entry.method final.program with
      | .ok form _ => form != entry.method
      | .error .. => false
    | _ => false

/-- Delegates over two static methods that have one canonical form: both methods have a body of
their own. The thunk of a delegate's type, and a class constructor that runs at startup, have bodies
of their own as well. -/
theorem delegates_divide_code : startupProgram.Reachable ∧
    (∃ output final, completeUnit.compile delegatingBodies [⟨5⟩]
        (.initial completeUnit.config libraryProgram) = .ok output final ∧
      ∃ first ∈ output.nodes, ∃ second ∈ output.nodes, first ≠ second ∧ ∃ form q r,
        first.node.kind = .methodCode ⟨⟨7⟩, false⟩ ∧ second.node.kind = .methodCode ⟨⟨8⟩, false⟩ ∧
        ProgramM.canonicalMethod ⟨7⟩ final.program = .ok form q ∧
        ProgramM.canonicalMethod ⟨8⟩ q = .ok form r) ∧
    ∀ bodies ∈ [delegatingBodies, handlerBodies, startupBodies],
      (∀ request ∈ bodies.requests, request.isNode = false) ∧
      ∃ output final, completeUnit.compile bodies [⟨5⟩]
          (.initial completeUnit.config startupProgram) = .ok output final ∧
        hasInstanceBody output final = true := by
  refine ⟨libraryProgram_reachable.after (by decide +kernel), ?_, fun bodies hmem => ?_⟩
  · have hrun : succeedsWith (fun (output : CompiledUnit) _ =>
          [(⟨7⟩ : MethodId), ⟨8⟩].all fun method =>
            output.nodes.any fun emitted => emitted.node.kind == .methodCode ⟨method, false⟩)
        (completeUnit.compile delegatingBodies [⟨5⟩]
          (.initial completeUnit.config libraryProgram)) = true := by decide +kernel
    obtain ⟨output, final, h, hcode⟩ := exists_ok_of_succeedsWith hrun
    have hemitted (method : MethodId) (hmem : method ∈ [(⟨7⟩ : MethodId), ⟨8⟩]) :
        ∃ emitted ∈ output.nodes, emitted.node.kind = .methodCode ⟨method, false⟩ := by
      simpa using List.all_eq_true.1 hcode method hmem
    obtain ⟨first, hfirst, hkind⟩ := hemitted ⟨7⟩ (by simp)
    obtain ⟨second, hsecond, hkind'⟩ := hemitted ⟨8⟩ (by simp)
    have hs := compile_compiling libraryProgram_reachable h
    have hle := hs.extension.derives.le
    have hhas : libraryProgram.HasMethod ⟨7⟩ ∧ libraryProgram.HasMethod ⟨8⟩ := by decide +kernel
    obtain ⟨form, form', q, r, hform, hform', hiff⟩ :=
      hs.program.wellFormed.exists_canonicalMethods hs.program.housed (hhas.1.mono hle)
        (hhas.2.mono hle)
    obtain rfl := hiff.2 (instances_share.mono hle)
    refine ⟨output, final, h, first, hfirst, second, hsecond, ?_, form, q, r, hkind, hkind', hform,
      hform'⟩
    rintro rfl
    cases hkind.symm.trans hkind'
  · have hrun : ∀ bodies ∈ [delegatingBodies, handlerBodies, startupBodies],
        (∀ request ∈ bodies.requests, request.isNode = false) ∧
        succeedsWith hasInstanceBody (completeUnit.compile bodies [⟨5⟩]
          (.initial completeUnit.config startupProgram)) = true := by decide +kernel
    obtain ⟨hrequests, hbody⟩ := hrun bodies hmem
    exact ⟨hrequests, exists_ok_of_succeedsWith hbody⟩

end CompilationUnit

end NativeImage

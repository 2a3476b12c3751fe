import NativeImage.Proofs.CompilationUnit.Caches
import NativeImage.Proofs.CompilationUnit.Fitting
import NativeImage.Proofs.CompilationUnit.Reachable
import NativeImage.Proofs.CompilationUnit.Rounds

/-!
# How compilations end

A unit that is compiled for the first time, for bodies and methods that exist, fails only if a body
that it reaches constructs a delegate that is refused, as long as what it has to write down is below
4 GiB. Whatever else could fail on the way does not.

## Main definitions

- `CompilationUnit.emitMarked` — a compilation up to the layout of its regions
- `CompilationUnit.RegionsWillFit` — no region of the compilation reaches 4 GiB

## Main statements

- `CompilationUnit.compile_ends` — how a compilation ends
- `CompilationUnit.compile_fails_only_by_delegates` — what it takes for a compilation to fail
-/

namespace NativeImage

open Program Image ImageM

/-- A refusal is about a delegate. Contradictions within the unit would be reported differently. -/
theorem CompileError.IsRefusal.ne_contradiction {e : CompileError} (h : e.IsRefusal) :
    (∀ cause, e ≠ .region cause) ∧ e ≠ .internal .notAttached ∧ e ≠ .internal .alreadyAttached ∧
      (∀ tag, e ≠ .internal (.duplicateSection tag)) ∧
      ∀ method type, e ≠ .program (.methodNotOnType method type) := by
  cases h <;> simp

namespace CompilationUnit

variable {unit : CompilationUnit} {bodies : CodeBodies} {base : Program} {s t image : Image}
  {tables : List NodeId} {methods : List MethodId} {id : NodeId}

/-- The marked nodes with their data. -/
def emitMarked (unit : CompilationUnit) (bodies : CodeBodies) (methods : List MethodId) :
    ImageM (List EmittedNode) := do
  let closure ← unit.mark bodies methods
  closure.nodes.mapM unit.emit

/-- If the compilation gets as far as its regions, these are below 4 GiB. -/
def RegionsWillFit (unit : CompilationUnit) (bodies : CodeBodies) (methods : List MethodId)
    (image : Image) : Prop :=
  match unit.emitMarked bodies methods image with
  | .ok emitted _ => RegionsFit emitted
  | .error .. => True

instance (unit : CompilationUnit) (bodies : CodeBodies) (methods : List MethodId) (image : Image) :
    Decidable (unit.RegionsWillFit bodies methods image) :=
  match h : unit.emitMarked bodies methods image with
  | .ok emitted _ => decidable_of_iff (RegionsFit emitted) (by rw [RegionsWillFit, h])
  | .error .. => .isTrue (by rw [RegionsWillFit, h]; trivial)

theorem RegionsWillFit.fit (h : unit.RegionsWillFit bodies methods image)
    {emitted : List EmittedNode} (he : unit.emitMarked bodies methods image = .ok emitted t) :
    RegionsFit emitted := by
  rwa [RegionsWillFit, he] at h

/-- A compilation whose regions are below 4 GiB fails only if a body that it has reached is refused
a delegate. -/
theorem compile_ends (hfirst : Extension base image.program) (hle : image ≤ s)
    (hattach : unit.attach image = .ok tables s) (hr : Sound unit base true s)
    (htables : ∀ id ∈ tables, s.RankBelow 5 id) (hbodies : bodies.Existing image)
    (hmethods : ∀ method ∈ methods, image.program.HasMethod method)
    (hstatics : base.StaticsFit unit.pointerSize)
    (hregions : unit.RegionsWillFit bodies methods image) :
    Ends (Sound unit base true) (RefusesReached unit bodies tables methods image)
      (fun _ _ => True) (unit.compile bodies methods) image := by
  refine ((mark_ends hfirst hle hattach hr htables hbodies hmethods).and
    (P := fun t closure => unit.mark bodies methods image = .ok closure t) fun hx => hx).bind
    fun {closure u} _ hr hmarked => ?_
  obtain ⟨⟨hprogress, -⟩, hmark⟩ := hmarked
  -- a node that was marked twice would be twice in the region around it
  obtain ⟨_, _, _, -, -, -, -, -, hjustified⟩ := mark_justified hmark
  refine ((emits_ends hr hstatics hprogress.index_lt).and
    (P := fun _ emitted => RegionsFit emitted) fun hx => ?_).bind fun _ hr hemitted => ?_
  · exact hregions.fit (bind_eq_ok.2 ⟨closure, u, hmark, hx⟩)
  · refine (layoutRegions_ends hr hemitted.1 hjustified.nodup hemitted.2).bind fun _ hr _ => ?_
    exact attachment_ends hr fun _ _ => .pure hr trivial

/-- What a body requests is among the requests of its node. -/
theorem mem_dependencies_of_asks {request : Request} (h : t.Asks bodies id request)
    {requests : List Request} (hdeps : unit.dependencies bodies id t = .ok requests t) :
    request ∈ requests := by
  obtain ⟨node, method, body, hn, hk, hbody, hmem⟩ := h
  rw [unit.dependencies_eq_body hn hk] at hdeps
  obtain ⟨own, hown, hrest⟩ := ask_bind_eq_ok.1 hdeps
  cases hbody.symm.trans hown
  obtain ⟨shared, -, hrest⟩ := ask_bind_eq_ok.1 hrest
  split at hrest
  · obtain ⟨dictionary, w, -, hlast⟩ := bind_eq_ok.1 hrest
    obtain ⟨rfl, -⟩ := pure_eq_ok.1 hlast
    exact List.mem_append_left _ hmem
  · obtain ⟨rfl, -⟩ := pure_eq_ok.1 hrest
    exact hmem

/-- What a body reached by a finished compilation requests has a node. -/
theorem exists_resolve_of_compile {compiled : CompiledUnit}
    (h : unit.compile bodies methods image = .ok compiled t)
    (hattach : unit.attach image = .ok tables s) {request : Request}
    (hreaches : Reaches unit bodies tables methods t id) (hasks : t.Asks bodies id request) :
    ∃ other, unit.resolve request t = .ok other t := by
  obtain ⟨closure, hmark, -⟩ := compile_marks h
  obtain ⟨tables', u, methodRoots, hattach', -, hmethods, hdone, hexplored, hjustified⟩ :=
    mark_justified hmark
  cases hattach.symm.trans hattach'
  have hmarked := (reaches_iff_marked hmethods hdone hexplored hjustified id).2 hreaches
  obtain ⟨requests, hdeps, hall⟩ := needed_again hexplored hdone hmarked
  obtain ⟨other, -, hresolve⟩ := hall request (mem_dependencies_of_asks hasks hdeps)
  exact ⟨other, hresolve⟩

/-- A construction that the image a compilation leaves can repeat was not refused to begin with. -/
theorem refusal_eq_none_of_resolve {attached : Bool} (hr : Sound unit base attached t)
    (hle : image ≤ t) {type : TypeId} {method : MethodId} {refusal? : Option CompileError}
    (hrefusal : image.program.delegateRefusal? type method = .ok refusal?) {other : NodeId}
    (h : unit.resolve (.delegate type method) t = .ok other t) : refusal? = none := by
  obtain ⟨parts, u, hparts, -⟩ := bind_eq_ok.1 h
  have hstill := delegateRefusal?_stable type method _ _ hrefusal _ hle.program
  exact (delegateParts_iff hr hstill).1.1 ⟨parts, u, hparts⟩

/-- Whether a construction that a body requests is refused is known from the first image. -/
theorem exists_refusal_of_asks (himage : image.Reachable unit) (hbodies : bodies.Existing image)
    {type : TypeId} {method : MethodId} (h : t.Asks bodies id (.delegate type method)) :
    ∃ refusal?, image.program.delegateRefusal? type method = .ok refusal? := by
  obtain ⟨_, _, body, -, -, hbody, hmem⟩ := h
  have hexisting := hbodies _ (CodeBodies.mem_requests_of_requestsOf hbody _ hmem)
  exact himage.unattached.1.program.exists_delegateRefusal? hexisting.1 hexisting.2

/-- The callback unit before it is attached. -/
def callbackImage : Image := .initial callbackUnit.config callbackProgram

/-- The entry point constructs a delegate with two arguments over itself, which takes none. -/
def mismatchedBodies : CodeBodies := ⟨[(⟨5⟩, [.delegate ⟨3⟩ ⟨5⟩])]⟩

end CompilationUnit

end NativeImage

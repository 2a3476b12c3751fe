import NativeImage.Proofs.CompilationUnit.Caching
import NativeImage.Proofs.Program.Homes

/-!
# What compiling makes

A unit can be asked for nodes that compiling never asks for: the unboxing entry of a method that has
a stub, a region around one descriptor, the construction of a delegate from parts that belong to no
delegate. What compiling makes are nodes that stand for something, in a program to which only
instances have been added.

## Main definitions

- `CompilationUnit.Makes` — the kinds of node that compiling makes
- `CompilationUnit.KeptByMaking` — properties that making such nodes keeps
- `Image.Compiling` — images that hold no others

## Main statements

- `CompilationUnit.compiling_sustained`, `CompilationUnit.compile_compiling`
-/

namespace NativeImage

open ImageM Program

/-! ## Calls of units -/

theorem ProgramM.stateAfter_ask_of_error {α β : Type} {question : Program → Except ProgramError α}
    {f : α → ProgramM β} {p : Program} {e : ProgramError} (h : question p = .error e) :
    stateAfter (ProgramM.ask question >>= f) p = p := by
  rw [stateAfter, bind_apply, ProgramM.ask, h]

theorem ProgramM.stateAfter_ask_of_ok {α β : Type} {question : Program → Except ProgramError α}
    {f : α → ProgramM β} {p : Program} {a : α} (h : question p = .ok a) :
    stateAfter (ProgramM.ask question >>= f) p = stateAfter (f a) p := by
  rw [stateAfter, stateAfter, bind_apply, ProgramM.ask, h]

/-- Calls on handles that name nothing change nothing. -/
theorem InternCall.stateAfter_of_not_valid {call : InternCall} (hunit : call.isByUnits = true)
    {p : Program} (hv : ¬ call.Valid p) : stateAfter call.run p = p := by
  have hmethod {id : MethodId} (hid : ¬ p.HasMethod id) : ∃ e, p.methodDesc id = .error e := by
    cases h : p.methodDesc id with
    | ok desc => exact absurd (hasMethod_of_desc h) hid
    | error e => exact ⟨e, rfl⟩
  have htype {id : TypeId} (hid : ¬ p.HasType id) : ∃ e, p.typeDefinition id = .error e := by
    cases h : p.typeDefinition id with
    | ok definition =>
      obtain ⟨desc, hd, -⟩ := typeDefinition_eq_ok.1 h
      exact absurd (hasType_of_desc hd) hid
    | error e => exact ⟨e, rfl⟩
  cases call with
  | methodOnType id type =>
    rw [run, stateAfter_discard, ProgramM.methodOnType]
    by_cases hid : p.HasMethod id
    · obtain ⟨desc, hd⟩ := hasMethod_iff.1 hid
      obtain ⟨e, he⟩ := htype fun ht => hv ⟨hid, ht⟩
      rw [ProgramM.stateAfter_ask_of_ok hd]
      dsimp only
      cases horig : p.methodDesc (desc.definition?.getD id) with
      | error e => rw [ProgramM.stateAfter_ask_of_error horig]
      | ok original => rw [ProgramM.stateAfter_ask_of_ok horig, ProgramM.stateAfter_ask_of_error he]
    · obtain ⟨e, he⟩ := hmethod hid
      rw [ProgramM.stateAfter_ask_of_error he]
  | canonicalMethod id =>
    obtain ⟨e, he⟩ := hmethod hv
    rw [run, stateAfter_discard, ProgramM.canonicalMethod, ProgramM.stateAfter_ask_of_error he]
  | delegateInfo type =>
    obtain ⟨e, he⟩ := htype hv
    rw [run, stateAfter_discard, ProgramM.delegateInfo, ProgramM.stateAfter_ask_of_error he]
  | _ => cases hunit

/-- Whatever units call, the program could have been built without them, and only instances and
thunks are added. -/
theorem Program.Reachable.stateAfter_call {p : Program} (h : p.Reachable) {call : InternCall}
    (hunit : call.isByUnits = true) :
    (stateAfter call.run p).Reachable ∧ Extension p (stateAfter call.run p) := by
  by_cases hv : call.Valid p
  · exact ⟨h.intern hv, (Extension.refl h.wellFormed).intern hv⟩
  · rw [InternCall.stateAfter_of_not_valid hunit hv]
    exact ⟨h, .refl h.wellFormed⟩

/-! ## Kinds of node -/

/-- Whether the method is shared code that finds its instantiation in the receiver. Such code has
an unboxing entry of its own. -/
def Program.unboxesItself (p : Program) (method : MethodId) : Except ProgramError Bool := do
  let desc ← p.methodDesc method
  return (← p.isSharedMethod method) && desc.args.isEmpty

theorem Program.unboxesItself_stable (method : MethodId) : Stable (·.unboxesItself method) :=
  (methodDesc_stable method).bind fun _ => (isSharedMethod_stable method).bind fun _ => .pure _

namespace CompilationUnit

variable {unit : CompilationUnit} {base : Program} {bodies : CodeBodies} {s t : Image}

/-- Compiling the bodies makes nodes of this kind. -/
def Makes (unit : CompilationUnit) (bodies : CodeBodies) (s : Image) : NodeKind → Prop
  | .methodCode ⟨method, true⟩ => s.program.unboxesItself method = .ok true
  | .unboxingStub method _ => s.program.unboxesItself method = .ok false
  | .standaloneRegion _ => False
  | .helper (.delegate parts) => ∃ type method, Request.delegate type method ∈ bodies.requests ∧
      unit.delegateParts type method s = .ok parts s
  | _ => True

/-- What is made for a reason is made for it ever after. -/
theorem Makes.mono {kind : NodeKind} (h : unit.Makes bodies s kind) (hle : s ≤ t) :
    unit.Makes bodies t kind := by
  unfold Makes at h ⊢
  split
  · exact unboxesItself_stable _ _ _ h _ hle.program
  · exact unboxesItself_stable _ _ _ h _ hle.program
  · exact h
  · obtain ⟨type, method, hmem, hparts⟩ := h
    exact ⟨type, method, hmem, (unit.delegateParts_settles type method).again hparts hle⟩
  · trivial

/-- What compiling the bodies may ask for. -/
def MayAskFor (unit : CompilationUnit) (bodies : CodeBodies) (s : Image) (key : CacheKey) : Prop :=
  key.isOrdinary = true ∨ ∃ parts, key = .leaf (.helper (.delegate parts)) ∧
    unit.Makes bodies s (.helper (.delegate parts))

/-- Requests of the bodies grant what they need. -/
theorem grants_of_mem {request : Request} (hmem : request ∈ bodies.requests) :
    unit.Grants (unit.MayAskFor bodies) request := by
  rintro type method rfl s parts t hparts
  exact .inr ⟨parts, rfl, type, method, hmem,
    (unit.delegateParts_settles type method).repeat_self hparts⟩

/-- A node that is asked for is added, if it is not there yet. -/
theorem intern_keeps_of {R : Image → Prop} (h : R s) {x : Node}
    (hx : R { s with nodes := s.nodes.push x }) : Keeps R (intern x) s := by
  have happly := intern_apply x s
  cases hfind : findNode? x.kind s with
  | some id =>
    rw [hfind] at happly
    exact .ok happly le_rfl h trivial
  | none =>
    rw [hfind] at happly
    exact .ok happly (le_pushNode s x) hx trivial

theorem internKind_keeps_of {R : Image → Prop} (h : R s) (kind : NodeKind)
    (hkind : ∀ x : Node, x.kind = kind → R { s with nodes := s.nodes.push x }) :
    Keeps R (unit.internKind kind) s := by
  refine Keeps.bind (.of_readOnly (unit.symbolsOf_readOnly kind) h) fun {symbols t} hx _ h => ?_
  obtain rfl := (unit.symbolsOf_readOnly kind).same hx
  exact intern_keeps_of h (hkind _ rfl)

/-- The property is kept when instances are added to the program and when a node is added that
compiling the bodies makes. -/
structure KeptByMaking (unit : CompilationUnit) (bodies : CodeBodies) (R : Image → Prop) :
    Prop where
  interned : ∀ {s} (call : InternCall), R s → call.isByUnits = true →
    R { s with program := stateAfter call.run s.program }
  pushed : ∀ {s x}, R s → unit.Makes bodies s x.kind → R { s with nodes := s.nodes.push x }

namespace KeptByMaking

variable {R : Image → Prop} (hR : unit.KeptByMaking bodies R) (h : R s)
include hR h

theorem intern_keeps {x : Node} (hx : unit.Makes bodies s x.kind) : Keeps R (intern x) s :=
  intern_keeps_of h (hR.pushed h hx)

theorem internKind_keeps (kind : NodeKind) (hkind : unit.Makes bodies s kind) :
    Keeps R (unit.internKind kind) s :=
  internKind_keeps_of h kind fun _ hx => hR.pushed h (hx ▸ hkind)

theorem canonicalMethod_keeps (method : MethodId) :
    Keeps R (onProgram (ProgramM.canonicalMethod method)) s := by
  have hafter := stateAfter_discard (ProgramM.canonicalMethod method) s.program
  refine onProgram_keeps ((ProgramM.canonicalMethod_settles method).le_stateAfter _) ?_
  rw [← hafter]
  exact hR.interned (.canonicalMethod method) h rfl

/-! ### Entries of methods -/

theorem ownedEntry_keeps (entry : MethodEntry) (hentry : unit.Makes bodies s (.methodCode entry)) :
    Keeps R (unit.ownedEntry entry) s := by
  refine Keeps.bind (.of_readOnly (ask_readOnly _) h) fun {own t} hx _ h => ?_
  obtain rfl := (ask_readOnly _).same hx
  split
  · have hcode : methodCode entry = unit.internKind (.methodCode entry) :=
      unit.constructLeaf_eq (.methodCode entry)
    rw [hcode]
    exact hR.internKind_keeps h _ hentry
  · rw [unit.externMethod_eq entry]
    exact hR.internKind_keeps h (.externMethod entry) trivial

theorem plainEntry_keeps (method : MethodId) : Keeps R (unit.plainEntry method) s := by
  refine Sustained.read h fun desc _ => ?_
  split
  · exact hR.intern_keeps h trivial
  · exact hR.ownedEntry_keeps h ⟨method, false⟩ trivial

theorem unboxingEntry_keeps (method : MethodId) : Keeps R (unit.unboxingEntry method) s := by
  refine Sustained.read h fun desc hd => Sustained.read h fun shared hs => ?_
  have hself : s.program.unboxesItself method = .ok (shared && desc.args.isEmpty) := by
    rw [unboxesItself, hd]
    simp only [bind, Except.bind, hs, pure, Except.pure]
  split
  · next hcond => exact hR.ownedEntry_keeps h ⟨method, true⟩ (hself.trans (congrArg _ hcond))
  · next hcond =>
    refine (hR.plainEntry_keeps h method).bind fun {target t} _ hle h => ?_
    have hmakes : unit.Makes bodies s (.unboxingStub method target) :=
      hself.trans (congrArg _ (Bool.eq_false_iff.2 hcond))
    exact Sustained.read h fun symbol _ => hR.intern_keeps h (hmakes.mono hle)

theorem methodEntry_keeps (entry : MethodEntry) : Keeps R (unit.methodEntry entry) s := by
  rw [methodEntry]
  split
  · exact hR.unboxingEntry_keeps h entry.method
  · exact hR.plainEntry_keeps h entry.method

theorem shadowMethod_keeps (entry : MethodEntry) : Keeps R (unit.shadowMethod entry) s := by
  refine (hR.canonicalMethod_keeps h entry.method).bind fun _ _ h => ?_
  refine (hR.methodEntry_keeps h _).bind fun _ _ h => ?_
  exact Sustained.read h fun _ _ => hR.intern_keeps h trivial

theorem fatPointer_keeps (entry : MethodEntry) : Keeps R (unit.fatPointer entry) s := by
  refine (hR.canonicalMethod_keeps h entry.method).bind fun _ _ h => ?_
  refine (hR.methodEntry_keeps h _).bind fun _ _ h => ?_
  have hdictionary : CompilationUnit.dictionaryLayout (.method entry.method) =
      unit.internKind (.dictionaryLayout (.method entry.method)) :=
    unit.constructLeaf_eq (.dictionaryLayout (.method entry.method))
  rw [hdictionary]
  refine (hR.internKind_keeps h (.dictionaryLayout _) trivial).bind fun _ _ h => ?_
  exact Sustained.read h fun _ _ => hR.intern_keeps h trivial

/-- If the nodes of leaves can be made too, the property is kept by every question. -/
theorem answer_keeps (key : CacheKey)
    (hleaf : ∀ leaf, key = .leaf leaf → Keeps R (unit.internKind leaf.kind) s) :
    Keeps R (unit.answer key) s := by
  cases key with
  | plainEntry method => exact hR.plainEntry_keeps h method
  | unboxingEntry method => exact hR.unboxingEntry_keeps h method
  | shadowMethod entry => exact hR.shadowMethod_keeps h entry
  | fatPointer entry => exact hR.fatPointer_keeps h entry
  | leaf leaf =>
    rw [answer, unit.constructLeaf_eq leaf]
    exact hleaf leaf rfl

end KeptByMaking

end CompilationUnit

/-- The image holds what compiling the bodies makes, in a program that can be built from the base by
adding instances and thunks. -/
structure Image.Compiling (unit : CompilationUnit) (base : Program) (bodies : CodeBodies)
    (s : Image) : Prop where
  program : s.program.Reachable
  extension : Program.Extension base s.program
  kinds : ∀ {id : NodeId} {x}, s.nodes[id.index]? = some x → unit.Makes bodies s x.kind

namespace Image.Compiling

open CompilationUnit

variable {unit : CompilationUnit} {base : Program} {bodies : CodeBodies} {s : Image}

theorem push (h : s.Compiling unit base bodies) {x : Node} (hx : unit.Makes bodies s x.kind) :
    Compiling unit base bodies { s with nodes := s.nodes.push x } := by
  have hle := le_pushNode s x
  refine ⟨h.program, h.extension, fun hy => ?_⟩
  rcases nodes_push.1 hy with hold | ⟨-, rfl⟩
  · exact (h.kinds hold).mono hle
  · exact hx.mono hle

theorem interned (h : s.Compiling unit base bodies) (call : InternCall)
    (hunit : call.isByUnits = true) :
    Compiling unit base bodies { s with program := stateAfter call.run s.program } := by
  have hle : s ≤ { s with program := stateAfter call.run s.program } :=
    ⟨call.run_settles.le_stateAfter _, .refl _, fun _ h => h⟩
  obtain ⟨hafter, hext⟩ := h.program.stateAfter_call hunit
  exact ⟨hafter, h.extension.step hafter.wellFormed hext.derives, fun hx => (h.kinds hx).mono hle⟩

theorem kept (unit : CompilationUnit) (base : Program) (bodies : CodeBodies) :
    unit.KeptByMaking bodies (Compiling unit base bodies) :=
  ⟨fun call h hunit => h.interned call hunit, fun h hx => h.push hx⟩

end Image.Compiling

namespace CompilationUnit

open Image

variable {unit : CompilationUnit} {base : Program} {bodies : CodeBodies} {s t : Image}

/-- Answers make only what compiling makes. -/
theorem compiling_sustained (unit : CompilationUnit) (base : Program) (bodies : CodeBodies) :
    unit.Sustained (unit.MayAskFor bodies) (Compiling unit base bodies) where
  ordinary := .inl
  interned call h hunit := h.interned call hunit
  asked := by
    intro s key h hmay
    refine (Compiling.kept unit base bodies).answer_keeps h key fun leaf hleaf => ?_
    refine (Compiling.kept unit base bodies).internKind_keeps h _ ?_
    -- an ordinary key makes no node that needs a reason
    rcases hmay with hordinary | ⟨parts, hkey, hmakes⟩
    · subst hleaf
      cases leaf with
      | methodCode | standaloneRegion => cases hordinary
      | helper helper =>
        cases helper with
        | delegate parts => cases hordinary
        | _ => trivial
      | _ => trivial
    · cases hleaf.symm.trans hkey
      exact hmakes

theorem initial_compiling (hb : base.Reachable) :
    (Image.initial unit.config base).Compiling unit base bodies where
  program := hb
  extension := .refl hb.wellFormed
  kinds hx := tableKinds_cases (kind_mem_of_initial hx) (fun _ => trivial) trivial trivial
    (fun _ => trivial) trivial

theorem makes_of_isAttached {kind : NodeKind} (h : kind.isAttached = true) :
    unit.Makes bodies s kind := by
  cases kind <;> trivial

/-- Compiling a new unit makes only what it needs, in a program that can be built. -/
theorem compile_compiling (hb : base.Reachable) {methods : List MethodId} {output : CompiledUnit}
    (h : unit.compile bodies methods (.initial unit.config base) = .ok output t) :
    t.Compiling unit base bodies := by
  have hinitial : (Image.initial unit.config base).Compiling unit base bodies :=
    initial_compiling hb
  have hattach : Keeps (Compiling unit base bodies) unit.attach (.initial unit.config base) :=
    attach_keeps le_rfl hinitial
      (fun _ _ _ hx => (rank_of_mem_tableKinds (kind_mem_of_initial hx)).1)
      (fun hn a => ⟨hb, .refl hb.wellFormed, fun hx =>
        (hinitial.kinds hx).mono (le_attached _ hn a)⟩)
      fun hx hu _ _ => hu.push (makes_of_isAttached hx.isAttached)
  exact ((compiling_sustained unit base bodies).compile_keeps (fun _ hmem => grants_of_mem hmem)
    methods hattach).holds h

end CompilationUnit

end NativeImage

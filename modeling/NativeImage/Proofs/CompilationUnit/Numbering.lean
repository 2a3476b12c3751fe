import NativeImage.Proofs.CompilationUnit.LayoutAgreement
import NativeImage.Proofs.Program.Reachable

/-!
# Numbering

Whatever is asked of a unit before it is compiled numbers its nodes, and the instances that its
program has. What is compiled afterwards does not depend on these numbers.

## Main definitions

- `UnitCall` — the calls that may add a node or an instance
- `CompilationUnit.prepare` — the image that is left by a sequence of calls
- `CompilationUnit.compileContents` — how compiling a unit ends, without handles

## Main statements

- `UnitCall.run_agrees` — a call on handles of the base leaves a well-formed image
- `CompilationUnit.compileContents_prepare` — compiling does not depend on earlier calls
-/

namespace NativeImage

open Program Image ImageM

/-! ## Calls -/

/-- A call that may add a node to an image or an instance to its program. -/
inductive UnitCall
  | intern (call : InternCall)
  | methodEntry (entry : MethodEntry)
  | methodCode (entry : MethodEntry)
  | shadowMethod (entry : MethodEntry)
  | fatPointer (entry : MethodEntry)
  | eagerConstructor (method : MethodId)
  | dictionaryLayout (owner : Entity)
  | gcStaticDesc (type : TypeId) (thread : Bool)
  | gcStaticBase (type : TypeId)
  | threadStaticsOffset (type : TypeId)
  | threadStaticsIndexOf (type : TypeId)
  | threadStaticsBlock (type : TypeId)
  | externSymbol (name : String)
  | standaloneRegion (descriptor : NodeId)
  | gcStaticBaseHelper (type : TypeId)
  | threadStaticBaseHelper (type : TypeId)
  | delegateParts (type : TypeId) (method : MethodId)
  | delegateHelper (type : TypeId) (method : MethodId)
  deriving DecidableEq, Repr

namespace UnitCall

def run (unit : CompilationUnit) : UnitCall → ImageM Unit
  | intern call => onProgram call.run
  | methodEntry entry => discard (unit.methodEntry entry)
  | methodCode entry => discard (CompilationUnit.methodCode entry)
  | shadowMethod entry => discard (unit.shadowMethod entry)
  | fatPointer entry => discard (unit.fatPointer entry)
  | eagerConstructor method => discard (CompilationUnit.eagerConstructor method)
  | dictionaryLayout owner => discard (CompilationUnit.dictionaryLayout owner)
  | gcStaticDesc type thread => discard (unit.gcStaticDesc type thread)
  | gcStaticBase type => discard (unit.gcStaticBase type)
  | threadStaticsOffset type => discard (unit.threadStaticsOffset type)
  | threadStaticsIndexOf type => discard (unit.threadStaticsIndexOf type)
  | threadStaticsBlock type => discard (CompilationUnit.threadStaticsBlock type)
  | externSymbol name => discard (CompilationUnit.externSymbol name)
  | standaloneRegion descriptor => discard (CompilationUnit.standaloneRegion descriptor)
  | gcStaticBaseHelper type => discard (CompilationUnit.helper (.gcStaticBase type))
  | threadStaticBaseHelper type => discard (CompilationUnit.helper (.threadStaticBase type))
  | delegateParts type method => discard (unit.delegateParts type method)
  | delegateHelper type method => discard (unit.delegateHelper type method)

/-- The call is on types and methods that the program has. Nodes may be any. -/
def Valid (p : Program) : UnitCall → Prop
  | intern call => call.Valid p
  | methodEntry entry | methodCode entry | shadowMethod entry | fatPointer entry =>
    p.HasMethod entry.method
  | eagerConstructor method | dictionaryLayout (.method method) => p.HasMethod method
  | dictionaryLayout (.type type) | gcStaticDesc type _ | gcStaticBase type
  | threadStaticsOffset type | threadStaticsIndexOf type | threadStaticsBlock type
  | gcStaticBaseHelper type | threadStaticBaseHelper type => p.HasType type
  | externSymbol _ | standaloneRegion _ => True
  | delegateParts type method | delegateHelper type method => p.HasType type ∧ p.HasMethod method

instance (p : Program) : (call : UnitCall) → Decidable (call.Valid p)
  | intern call => inferInstanceAs (Decidable (call.Valid p))
  | methodEntry entry | methodCode entry | shadowMethod entry | fatPointer entry =>
    inferInstanceAs (Decidable (p.HasMethod entry.method))
  | eagerConstructor method | dictionaryLayout (.method method) =>
    inferInstanceAs (Decidable (p.HasMethod method))
  | dictionaryLayout (.type type) | gcStaticDesc type _ | gcStaticBase type
  | threadStaticsOffset type | threadStaticsIndexOf type | threadStaticsBlock type
  | gcStaticBaseHelper type | threadStaticBaseHelper type =>
    inferInstanceAs (Decidable (p.HasType type))
  | externSymbol _ | standaloneRegion _ => inferInstanceAs (Decidable True)
  | delegateParts type method | delegateHelper type method =>
    inferInstanceAs (Decidable (p.HasType type ∧ p.HasMethod method))

end UnitCall

/-! ## Images that have not been attached -/

variable {unit : CompilationUnit} {base : Program} {s t : Image}

namespace Image

/-- Every node matches itself: what it holds is older and so matches itself as well. -/
theorem WellFormed.nodeMatch_self (h : s.WellFormed unit base) {id : NodeId} {x : Node}
    (hx : s.nodes[id.index]? = some x) : NodeMatch base s s id id := by
  suffices key : ∀ n (id : NodeId) (x : Node), id.index = n → s.nodes[id.index]? = some x →
      NodeMatch base s s id id from key _ id x rfl hx
  clear hx
  intro n
  induction n using Nat.strongRecOn with
  | _ n ih =>
    rintro id x rfl hx
    refine .intro (N := fun a b => a = b ∧ a.index < id.index ∧ s.MayHold x.kind a) hx hx
      (fun a b hab => ?_) ((h.refers hx).imp (fun hT => ?_) (fun hM => ?_) fun hN => hN)
    · obtain ⟨rfl, hlt, y, hy, -⟩ := hab
      exact ih a.index hlt a y rfl hy
    · obtain ⟨rfl, htype⟩ := hT
      exact .refl h.program htype
    · obtain ⟨rfl, hmethod⟩ := hM
      exact .refl h.program hmethod

/-- The image is well-formed and has not been attached to a dependency graph. -/
def Unattached (unit : CompilationUnit) (base : Program) (s : Image) : Prop :=
  s.WellFormed unit base ∧ s.attachment? = none

/-- Images that have not been attached are twins, whatever nodes they have. -/
theorem Unattached.twins (hs : s.Unattached unit base) (ht : t.Unattached unit base) :
    Twins unit base false s t := by
  refine ⟨hs.1, ht.1, ?_, ?_⟩
  · rw [hs.2, ht.2]
    exact .none
  · rw [hs.2]
    rfl

theorem Twins.unattached (h : Twins unit base false s t) : s.Unattached unit base :=
  ⟨h.left, Option.isNone_iff_eq_none.1 (Option.isSome_eq_false_iff.1 h.isSome_attachment)⟩

theorem initial_unattached (unit : CompilationUnit) (h : base.WellFormed) :
    (Image.initial unit.config base).Unattached unit base :=
  ⟨initial_wellFormed unit h, rfl⟩

end Image

namespace UnitCall

/-- What is done with a result does not matter if nobody looks at it. -/
theorem agree_discard {α : Type} {V : Image → Image → α → α → Prop} {action : ImageM α}
    (h : Agree (Twins unit base false) V action action s s) :
    Agree (Twins unit base false) (fun _ _ _ _ => True) (discard action) (discard action) s s :=
  h.map fun _ _ _ _ => trivial

/-- A call on handles of the base agrees with itself on every image that is not attached. -/
theorem run_agrees (h : s.Unattached unit base) {call : UnitCall} (hv : call.Valid base) :
    Agree (Twins unit base false) (fun _ _ _ _ => True) (call.run unit) (call.run unit) s s := by
  have hr : Twins unit base false s s := h.twins h
  cases call with
  | intern call => exact onProgram_agrees hr (InternCall.run_agrees hr.programs hv)
  | methodEntry entry =>
    exact agree_discard (CompilationUnit.methodEntry_agrees hr (.same hv) entry.unboxing)
  | methodCode entry =>
    exact agree_discard (CompilationUnit.methodCode_agrees hr (.same hv) entry.unboxing)
  | shadowMethod entry =>
    exact agree_discard (CompilationUnit.shadowMethod_agrees hr (.same hv) entry.unboxing)
  | fatPointer entry =>
    exact agree_discard (CompilationUnit.fatPointer_agrees hr (.same hv) entry.unboxing)
  | eagerConstructor method =>
    exact agree_discard (CompilationUnit.eagerConstructor_agrees hr (.same hv))
  | dictionaryLayout owner =>
    cases owner with
    | method id => exact agree_discard (CompilationUnit.dictionaryLayout_agrees hr (.same hv))
    | type id => exact agree_discard (CompilationUnit.typeDictionary_agrees hr (.same hv))
  | gcStaticDesc type thread =>
    exact agree_discard (CompilationUnit.gcStaticDesc_agrees hr (.same hv) thread)
  | gcStaticBase type => exact agree_discard (CompilationUnit.gcStaticBase_agrees hr (.same hv))
  | threadStaticsOffset type =>
    exact agree_discard (CompilationUnit.threadStaticsOffset_agrees hr (.same hv))
  | threadStaticsIndexOf type =>
    exact agree_discard (CompilationUnit.threadStaticsIndexOf_agrees hr (.same hv))
  | threadStaticsBlock type =>
    exact agree_discard (CompilationUnit.threadStaticsBlock_agrees hr (.same hv))
  | externSymbol name => exact agree_discard (CompilationUnit.externSymbol_agrees hr name)
  | standaloneRegion descriptor =>
    cases hx : s.nodes[descriptor.index]? with
    | some x =>
      exact agree_discard (CompilationUnit.standaloneRegion_agrees hr (h.1.nodeMatch_self hx))
    | none =>
      -- no such node: the call fails and leaves the image as it is
      have hnode : node descriptor s = .error (.noNode descriptor) s := by rw [node, hx]
      have hsymbol : symbol descriptor s = .error (.noNode descriptor) s :=
        bind_eq_error.2 (.inl hnode)
      have hfail : CompilationUnit.standaloneRegion descriptor s =
          .error (.noNode descriptor) s := bind_eq_error.2 (.inl hsymbol)
      exact agree_discard (V := fun _ _ _ _ => True) (.error hfail hfail le_rfl le_rfl hr)
  | gcStaticBaseHelper type =>
    exact agree_discard (CompilationUnit.helper_agrees hr (.gcStaticBaseHelper (.same hv)))
  | threadStaticBaseHelper type =>
    exact agree_discard (CompilationUnit.helper_agrees hr (.threadStaticBaseHelper (.same hv)))
  | delegateParts type method =>
    exact agree_discard (CompilationUnit.delegateParts_agrees hr (.same hv.1) (.same hv.2))
  | delegateHelper type method =>
    exact agree_discard (CompilationUnit.delegateHelper_agrees hr (.same hv.1) (.same hv.2))

end UnitCall

/-! ## Compiling after calls -/

namespace CompilationUnit

/-- The image after a sequence of calls, whether they succeed or not. -/
def prepare (unit : CompilationUnit) (calls : List UnitCall) (s : Image) : Image :=
  calls.foldl (fun s call => stateAfter (call.run unit) s) s

/-- How compiling the unit ends: the contents of the result, or the error. -/
def compileContents (unit : CompilationUnit) (bodies : CodeBodies) (methods : List MethodId)
    (s : Image) : Except CompileError CompiledUnit.Contents :=
  match unit.compile bodies methods s with
  | .ok compiled _ => .ok compiled.contents
  | .error cause _ => .error cause

/-- A sequence of calls on handles of the base leaves an image that has not been attached. -/
theorem prepare_unattached (h : s.Unattached unit base) {calls : List UnitCall}
    (hcalls : ∀ call ∈ calls, call.Valid base) : (unit.prepare calls s).Unattached unit base := by
  induction calls generalizing s with
  | nil => exact h
  | cons call calls ih =>
    have hstep : (stateAfter (call.run unit) s).Unattached unit base :=
      (UnitCall.run_agrees h (hcalls call List.mem_cons_self)).stateAfter.unattached
    exact ih hstep fun other hother => hcalls other (List.mem_cons_of_mem _ hother)

/-- Images that have not been attached are compiled to the same contents, or for the same reason
not at all. -/
theorem compileContents_eq (hs : s.Unattached unit base) (ht : t.Unattached unit base)
    {bodies : CodeBodies} (hbodies : bodies.Over base) {methods : List MethodId}
    (hmethods : ∀ method ∈ methods, base.HasMethod method) :
    unit.compileContents bodies methods s = unit.compileContents bodies methods t := by
  rw [compileContents, compileContents]
  cases compile_agrees (hs.twins ht) hbodies hmethods with
  | ok hx hy _ _ _ hcontents =>
    rw [hx, hy]
    exact congrArg Except.ok hcontents
  | error hx hy => rw [hx, hy]

/-- What a unit is compiled to does not depend on how earlier calls have numbered its nodes and the
instances of its program. -/
theorem compileContents_prepare {program : Program} (hprogram : program.Reachable)
    (unit : CompilationUnit) {first second : List UnitCall}
    (hfirst : ∀ call ∈ first, call.Valid program) (hsecond : ∀ call ∈ second, call.Valid program)
    {bodies : CodeBodies} (hbodies : bodies.Over program) {methods : List MethodId}
    (hmethods : ∀ method ∈ methods, program.HasMethod method) :
    unit.compileContents bodies methods (unit.prepare first (.initial unit.config program)) =
      unit.compileContents bodies methods
        (unit.prepare second (.initial unit.config program)) := by
  have hinitial := initial_unattached unit hprogram.wellFormed
  exact compileContents_eq (prepare_unattached hinitial hfirst)
    (prepare_unattached hinitial hsecond) hbodies hmethods

/-! ## A unit with delegates -/

/-- Two delegate types, and static methods for them. -/
def callbackProgram : Program where
  modules := Program.initial.modules
  types := Program.initial.types ++
    #[⟨{ name := "Callback", module := .core, kind := .delegate 1 }, .declared⟩,
      ⟨{ name := "Comparer", module := .core, kind := .delegate 2 }, .declared⟩]
  methods := Program.initial.methods ++
    #[⟨{ name := "Main", owner := ⟨2⟩, isStatic := true }, .declared⟩,
      ⟨{ name := "Notify", owner := ⟨2⟩, isStatic := true, paramCount := 1 }, .declared⟩,
      ⟨{ name := "Compare", owner := ⟨3⟩, isStatic := true, paramCount := 2 }, .declared⟩]

theorem callbackProgram_reachable : callbackProgram.Reachable := by
  have callback : Reachable (stateAfter (ProgramM.declareType
      { name := "Callback", module := .core, kind := .delegate 1 }) .initial) :=
    .declareType .initial (by decide)
  have comparer : Reachable (stateAfter (ProgramM.declareType
      { name := "Comparer", module := .core, kind := .delegate 2 }) _) :=
    .declareType callback (by decide)
  have main : Reachable (stateAfter (ProgramM.declareMethod
      { name := "Main", owner := ⟨2⟩, isStatic := true }) _) :=
    .declareMethod comparer (by decide)
  have notify : Reachable (stateAfter (ProgramM.declareMethod
      { name := "Notify", owner := ⟨2⟩, isStatic := true, paramCount := 1 }) _) :=
    .declareMethod main (by decide)
  have compare : Reachable (stateAfter (ProgramM.declareMethod
      { name := "Compare", owner := ⟨3⟩, isStatic := true, paramCount := 2 }) _) :=
    .declareMethod notify (by decide)
  exact compare

def callbackUnit : CompilationUnit := ⟨{ arch := .x64 }, .everything, .absent⟩

/-- The entry point constructs one delegate of each type. -/
def callbackBodies : CodeBodies := ⟨[(⟨5⟩, [.delegate ⟨2⟩ ⟨6⟩, .delegate ⟨3⟩ ⟨7⟩])]⟩

/-- Calls for the second delegate first: its thunks and nodes then come before those of the other
one. -/
def comparerFirst : List UnitCall :=
  [.delegateHelper ⟨3⟩ ⟨7⟩, .standaloneRegion ⟨12⟩, .intern (.delegateInfo ⟨2⟩)]

theorem callback_numbering_irrelevant : ∃ contents,
    callbackUnit.compileContents callbackBodies [⟨5⟩]
        (callbackUnit.prepare [] (.initial callbackUnit.config callbackProgram)) = .ok contents ∧
      callbackUnit.compileContents callbackBodies [⟨5⟩]
        (callbackUnit.prepare comparerFirst (.initial callbackUnit.config callbackProgram)) =
          .ok contents := by
  have hsame : callbackUnit.compileContents callbackBodies [⟨5⟩]
        (callbackUnit.prepare [] (.initial callbackUnit.config callbackProgram)) =
      callbackUnit.compileContents callbackBodies [⟨5⟩]
        (callbackUnit.prepare comparerFirst (.initial callbackUnit.config callbackProgram)) :=
    compileContents_prepare callbackProgram_reachable callbackUnit (by decide) (by decide)
      (by decide) (by decide)
  have hok : (callbackUnit.compileContents callbackBodies [⟨5⟩]
      (callbackUnit.prepare [] (.initial callbackUnit.config callbackProgram))).isOk = true := by
    decide +kernel
  cases hcontents : callbackUnit.compileContents callbackBodies [⟨5⟩]
      (callbackUnit.prepare [] (.initial callbackUnit.config callbackProgram)) with
  | ok contents => exact ⟨contents, rfl, hsame.symm.trans hcontents⟩
  | error cause =>
    rw [hcontents] at hok
    cases hok

end CompilationUnit

end NativeImage

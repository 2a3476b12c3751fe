import NativeImage.Proofs.CompilationUnit.Caching
import NativeImage.Proofs.CompilationUnit.Refusal
import NativeImage.Proofs.Program.Ownership

/-!
# Reading the plan of a delegate

A construction that succeeds follows a plan, and is answered by the same nodes in the image that it
has left. There nothing changes any more: everything that was asked on the way is answered alike,
in one program. So a construction can be read backwards, from its parts to the checks that it has
passed.

## Main definitions

- `CompilationUnit.ThunkOn` — the thunk of a definition, on an instance of the definition
- `CompilationUnit.BoundThrough` — how the target of a bound receiver is entered
- `CompilationUnit.DelegateMade` — what a construction was made from

## Main statements

- `CompilationUnit.delegatePlan_eq_ok` — what a plan is made from
- `CompilationUnit.delegateParts_made` — a construction, read backwards
-/

namespace NativeImage

open ImageM Program

/-- What is accepted was answered. -/
theorem ImageM.accept_eq_ok {α : Type} {action : ProgramM (Except CompileError α)} {s t : Image}
    {a : α} (h : accept action s = .ok a t) : action s.program = .ok (.ok a) t.program := by
  obtain ⟨result, u, hx, h⟩ := bind_eq_ok.1 h
  cases result with
  | error e => cases h
  | ok b =>
    obtain ⟨rfl, rfl⟩ := pure_eq_ok.1 h
    exact onProgram_eq_ok hx

namespace CompilationUnit

variable {unit : CompilationUnit} {s t : Image} {p q : Program} {type : TypeId}
  {method target thunk form : MethodId} {entry : MethodEntry} {desc : MethodDesc}
  {info : DelegateInfo} {plan : DelegatePlan} {parts : DelegateParts} {routine : Initializer}
  {key : CacheKey}

theorem DelegatePlan.make_settles (plan : DelegatePlan) : Settles (plan.make unit.answer) := by
  have hget (key : CacheKey) := unit.answer_settles key
  cases plan with
  | static routine target thunk =>
    exact (hget _).bind fun _ => (hget _).bind fun _ => (hget _).bind fun _ => .pure _
  | bound routine target => exact (hget _).bind fun _ => (hget _).bind fun _ => .pure _

/-- In an image in which the construction changes nothing, it follows a plan that changes nothing,
and makes nodes that are there. -/
theorem delegateParts_planned (h : unit.delegateParts type method s = .ok parts s) :
    ∃ plan, delegatePlan type method s.program = .ok (.ok plan) s.program ∧
      plan.make unit.answer s = .ok parts s := by
  rw [delegateParts_eq] at h
  obtain ⟨plan, haccepted, hmake⟩ :=
    (accept_settles (delegatePlan_settles type method)).bind_same DelegatePlan.make_settles h
  exact ⟨plan, accept_eq_ok haccepted, hmake⟩

/-- The nodes for a static target. -/
theorem DelegatePlan.make_static
    (h : (DelegatePlan.static routine target thunk).make unit.answer s = .ok parts s) :
    unit.plainEntry routine.method s = .ok parts.initializer s ∧
      unit.plainEntry target s = .ok parts.target s ∧
      ∃ entry, unit.plainEntry thunk s = .ok entry s ∧ parts.thunk? = some entry := by
  have hget (key : CacheKey) := unit.answer_settles key
  obtain ⟨initializer, hinitializer, h⟩ := (hget _).bind_same
    (fun _ => (hget _).bind fun _ => (hget _).bind fun _ => .pure _) h
  obtain ⟨target, htarget, h⟩ :=
    (hget _).bind_same (fun _ => (hget _).bind fun _ => .pure _) h
  obtain ⟨entry, hentry, h⟩ := (hget _).bind_same (fun _ => .pure _) h
  obtain ⟨rfl, -⟩ := pure_eq_ok.1 h
  exact ⟨hinitializer, htarget, entry, hentry, rfl⟩

/-- The nodes for a bound receiver's target. -/
theorem DelegatePlan.make_bound
    (h : (DelegatePlan.bound routine key).make unit.answer s = .ok parts s) :
    unit.plainEntry routine.method s = .ok parts.initializer s ∧
      unit.answer key s = .ok parts.target s ∧ parts.thunk? = none := by
  have hget (key : CacheKey) := unit.answer_settles key
  obtain ⟨target, htarget, h⟩ :=
    (hget key).bind_same (fun _ => (hget _).bind fun _ => .pure _) h
  obtain ⟨initializer, hinitializer, h⟩ := (hget _).bind_same (fun _ => .pure _) h
  obtain ⟨rfl, -⟩ := pure_eq_ok.1 h
  exact ⟨hinitializer, htarget, rfl⟩

/-- A plan that is refused is none. -/
theorem refusedPlan_ne_ok (cause : String → String → CompileError) :
    (do return (.error (cause (← ProgramM.ask (·.typeName type))
      (← ProgramM.ask (·.methodName method))) : Except CompileError DelegatePlan)) p ≠
        .ok (.ok plan) q := by
  intro h
  obtain ⟨delegate, -, h⟩ := ProgramM.ask_bind_eq_ok.1 h
  obtain ⟨target, -, h⟩ := ProgramM.ask_bind_eq_ok.1 h
  cases h

/-- The thunk of a definition on the type: the same if the type has no arguments, else its
counterpart. -/
def ThunkOn (p : Program) (type : TypeId) (definition thunk : MethodId) : Prop :=
  ∃ own, p.typeDesc type = .ok own ∧ (own.args = [] ∧ definition = thunk ∨
    own.args ≠ [] ∧ ProgramM.methodOnType definition type p = .ok thunk p)

theorem thunkOn_eq_ok {definition : MethodId} (h : ThunkOn s.program type definition thunk) :
    thunkOn type definition s = .ok thunk s := by
  obtain ⟨own, hown, hcases⟩ := h
  apply ask_bind_eq_ok.2
  refine ⟨own, hown, ?_⟩
  rcases hcases with ⟨hargs, rfl⟩ | ⟨hargs, hx⟩
  · rw [if_pos (List.isEmpty_iff.2 hargs)]
    rfl
  · rw [if_neg (mt List.isEmpty_iff.1 hargs), onProgram, hx]

theorem staticPlan_eq_ok {binding : Binding}
    (h : staticPlan type method desc info binding p = .ok (.ok plan) p) :
    ∃ definition thunk, info.thunk? (staticRoutines binding desc.isNativeCallable).2 =
        some definition ∧ ThunkOn p type definition thunk ∧
      plan = .static (staticRoutines binding desc.isNativeCallable).1 method thunk := by
  simp only [staticPlan] at h
  cases hdefinition : info.thunk? (staticRoutines binding desc.isNativeCallable).2 with
  | none =>
    rw [hdefinition] at h
    exact absurd h (refusedPlan_ne_ok fun delegate method =>
      .unsupported (.nonNativeSignature delegate method))
  | some definition =>
    rw [hdefinition] at h
    obtain ⟨own, hown, h⟩ := ProgramM.ask_bind_eq_ok.1 h
    split at h
    · next hargs =>
      obtain ⟨hplan, -⟩ := pure_eq_ok.1 h
      exact ⟨definition, definition, rfl, ⟨own, hown, .inl ⟨List.isEmpty_iff.1 hargs, rfl⟩⟩,
        (Except.ok.inj hplan).symm⟩
    · next hargs =>
      obtain ⟨thunk, q, hthunk, h⟩ := bind_eq_ok.1 h
      obtain ⟨hplan, rfl⟩ := pure_eq_ok.1 h
      exact ⟨definition, thunk, rfl, ⟨own, hown, .inr ⟨mt List.isEmpty_iff.2 hargs, hthunk⟩⟩,
        (Except.ok.inj hplan).symm⟩

theorem instancePlan_eq_ok (h : instancePlan type method desc p = .ok (.ok plan) p) :
    ∃ owner form, p.typeDesc desc.owner = .ok owner ∧
      ProgramM.canonicalMethod method p = .ok form p ∧
      plan = .ofBound ⟨method, owner.isValueType⟩ desc form := by
  obtain ⟨owner, howner, h⟩ := ProgramM.ask_bind_eq_ok.1 h
  obtain ⟨form, q, hform, h⟩ := bind_eq_ok.1 h
  split at h
  · exact absurd h (refusedPlan_ne_ok fun delegate method =>
      .internal (.virtualGenericDelegate delegate method))
  · obtain ⟨hplan, rfl⟩ := pure_eq_ok.1 h
    exact ⟨owner, form, howner, hform, (Except.ok.inj hplan).symm⟩

/-- What a plan is made from, in a program that it does not change. -/
theorem delegatePlan_eq_ok (h : delegatePlan type method p = .ok (.ok plan) p) :
    ∃ desc info, p.methodDesc method = .ok desc ∧ ProgramM.delegateInfo type p = .ok info p ∧
      ((desc.isStatic = true ∧ ∃ binding,
          Binding.ofArities? info.invokeArity desc.callArity = some binding ∧
          staticPlan type method desc info binding p = .ok (.ok plan) p) ∨
        (desc.isStatic = false ∧
          Binding.ofArities? info.invokeArity desc.callArity = some .closed ∧
          instancePlan type method desc p = .ok (.ok plan) p)) := by
  obtain ⟨desc, hd, h⟩ := ProgramM.ask_bind_eq_ok.1 h
  obtain ⟨info, q, hinfo, h⟩ := bind_eq_ok.1 h
  -- the information lasts, so it was there before
  have hsame (hle : q ≤ p) : p = q := by
    have hagain := (ProgramM.delegateInfo_settles type).again hinfo hle
    exact (EStateM.Result.ok.inj (hagain.symm.trans hinfo)).2
  cases hbinding : Binding.ofArities? info.invokeArity desc.callArity with
  | none =>
    rw [hbinding] at h
    exact absurd h (refusedPlan_ne_ok fun delegate method =>
      .internal (.delegateArity delegate method info.invokeArity desc.callArity))
  | some binding =>
    rw [hbinding] at h
    dsimp only at h
    split at h
    · next hstatic =>
      obtain rfl := hsame ((staticPlan_settles _ _ _ _ _).grows h)
      exact ⟨desc, info, hd, hinfo, .inl ⟨hstatic, binding, hbinding, h⟩⟩
    · next hinstance =>
      cases binding with
      | opened =>
        exact absurd h (refusedPlan_ne_ok fun delegate method =>
          .unsupported (.openInstanceDelegate delegate method))
      | closed =>
        obtain rfl := hsame ((instancePlan_settles _ _ _).grows h)
        exact ⟨desc, info, hd, hinfo, .inr ⟨Bool.eq_false_iff.2 hinstance,
          hbinding, h⟩⟩

/-! ## Constructions -/

/-- How the target of a bound receiver is entered, and by which initializer it is bound. -/
inductive BoundThrough (unit : CompilationUnit) (s : Image) (entry : MethodEntry)
    (desc : MethodDesc) (form : MethodId) (parts : DelegateParts) : Prop
  | itself (hform : entry.method = form)
    (hinitializer : unit.plainEntry Initializer.closedInstance.method s = .ok parts.initializer s)
    (htarget : unit.methodEntry entry s = .ok parts.target s)
  | shadow (hform : entry.method ≠ form) (hargs : desc.args = [])
    (hinitializer : unit.plainEntry Initializer.closedInstance.method s = .ok parts.initializer s)
    (htarget : unit.shadowMethod entry s = .ok parts.target s)
  | fatPointer (hform : entry.method ≠ form) (hargs : desc.args ≠ [])
    (hinitializer :
      unit.plainEntry Initializer.closedInstanceSlow.method s = .ok parts.initializer s)
    (htarget : unit.fatPointer entry s = .ok parts.target s)

/-- What a construction was made from, in an image that it leaves as it is. -/
inductive DelegateMade (unit : CompilationUnit) (s : Image) (type : TypeId) (method : MethodId)
    (parts : DelegateParts) : Prop
  | static {desc : MethodDesc} {info : DelegateInfo} {binding : Binding}
    {definition thunk : MethodId} {entry : NodeId} (hd : s.program.methodDesc method = .ok desc)
    (hinfo : ProgramM.delegateInfo type s.program = .ok info s.program)
    (hstatic : desc.isStatic = true)
    (hbinding : Binding.ofArities? info.invokeArity desc.callArity = some binding)
    (hdefinition :
      info.thunk? (staticRoutines binding desc.isNativeCallable).2 = some definition)
    (hon : ThunkOn s.program type definition thunk)
    (hinitializer : unit.plainEntry (staticRoutines binding desc.isNativeCallable).1.method s =
      .ok parts.initializer s)
    (htarget : unit.plainEntry method s = .ok parts.target s)
    (hentry : unit.plainEntry thunk s = .ok entry s) (hthunk : parts.thunk? = some entry)
  | bound {desc : MethodDesc} {info : DelegateInfo} {owner : TypeDesc} {form : MethodId}
    (hd : s.program.methodDesc method = .ok desc)
    (hinfo : ProgramM.delegateInfo type s.program = .ok info s.program)
    (hinstance : desc.isStatic = false)
    (hbinding : Binding.ofArities? info.invokeArity desc.callArity = some .closed)
    (howner : s.program.typeDesc desc.owner = .ok owner)
    (hform : ProgramM.canonicalMethod method s.program = .ok form s.program)
    (hbound : unit.BoundThrough s ⟨method, owner.isValueType⟩ desc form parts)
    (hthunk : parts.thunk? = none)

theorem boundThrough_of_make
    (h : (DelegatePlan.ofBound entry desc form).make unit.answer s = .ok parts s) :
    parts.thunk? = none ∧ unit.BoundThrough s entry desc form parts := by
  rw [DelegatePlan.ofBound] at h
  split at h
  · next hform =>
    obtain ⟨hinitializer, htarget, hthunk⟩ := DelegatePlan.make_bound h
    rw [unit.answer_entry] at htarget
    exact ⟨hthunk, .itself hform hinitializer htarget⟩
  · next hform =>
    split at h
    · next hargs =>
      obtain ⟨hinitializer, htarget, hthunk⟩ := DelegatePlan.make_bound h
      exact ⟨hthunk, .shadow hform (List.isEmpty_iff.1 hargs) hinitializer htarget⟩
    · next hargs =>
      obtain ⟨hinitializer, htarget, hthunk⟩ := DelegatePlan.make_bound h
      exact ⟨hthunk, .fatPointer hform (mt List.isEmpty_iff.2 hargs) hinitializer htarget⟩

/-- A construction that changes nothing can be read backwards. -/
theorem delegateParts_made (h : unit.delegateParts type method s = .ok parts s) :
    unit.DelegateMade s type method parts := by
  obtain ⟨plan, hplan, hmake⟩ := delegateParts_planned h
  obtain ⟨desc, info, hd, hinfo, ⟨hstatic, binding, hbinding, hplan⟩ |
    ⟨hinstance, hbinding, hplan⟩⟩ := delegatePlan_eq_ok hplan
  · obtain ⟨definition, thunk, hdefinition, hon, rfl⟩ := staticPlan_eq_ok hplan
    obtain ⟨hinitializer, htarget, entry, hentry, hthunk⟩ := DelegatePlan.make_static hmake
    exact .static hd hinfo hstatic hbinding hdefinition hon hinitializer htarget hentry hthunk
  · obtain ⟨owner, form, howner, hform, rfl⟩ := instancePlan_eq_ok hplan
    obtain ⟨hthunk, hbound⟩ := boundThrough_of_make hmake
    exact .bound hd hinfo hinstance hbinding howner hform hbound hthunk

end CompilationUnit

end NativeImage

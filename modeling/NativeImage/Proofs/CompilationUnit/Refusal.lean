import NativeImage.Proofs.CompilationUnit.Answering
import NativeImage.Proofs.CompilationUnit.Totality

/-!
# Which delegates are refused

Whether a delegate can be constructed over a method follows from their descriptions alone. The
construction is refused for exactly the reasons listed here and never fails otherwise; whatever else
is requested of a unit never fails at all.

A construction is planned before any of its nodes is made. The plan depends only on the program, all
checks are made on the way to it, and the nodes of an accepted plan can be made in every image.

## Main definitions

- `delegateRefusal?` — why a delegate is refused, read off the descriptions
- `Program.delegateRefusal?` — the same for a type and a method of a program
- `CompileError.IsRefusal` — the errors that a refusal can be
- `CompilationUnit.DelegatePlan`, `CompilationUnit.delegatePlan` — what a delegate is constructed
  with, before its nodes are made
- `Request.Existing` — requests on existing handles

## Main statements

- `CompilationUnit.delegateParts_eq` — the nodes of a construction are those of its plan
- `CompilationUnit.delegatePlan_ends` — a plan fails with the refusal and nothing else
- `CompilationUnit.delegateParts_ends` — a construction fails with its refusal and nothing else
- `CompilationUnit.resolve_ends` — a request fails only if it is for a delegate that is refused
-/

namespace NativeImage

open Program Image ImageM

/-! ## Refusals -/

/-- Why a delegate is not constructed, given its definition and the method; with the names that the
refusal mentions. -/
def delegateRefusal? (definition : TypeDesc) (method : MethodDesc)
    (delegateName methodName : String) : Option CompileError :=
  match definition.invokeArity? with
  | none => some (.program (.notADelegate definition.name))
  | some arity =>
    match CompilationUnit.Binding.ofArities? arity method.callArity with
    | none =>
      some (.internal (.delegateArity delegateName methodName arity method.callArity))
    | some binding =>
      if method.isStatic then
        if definition.hasThunk
            (CompilationUnit.staticRoutines binding method.isNativeCallable).2 then none
        else some (.unsupported (.nonNativeSignature delegateName methodName))
      else match binding with
        | .opened => some (.unsupported (.openInstanceDelegate delegateName methodName))
        | .closed =>
          if ¬ method.args.isEmpty ∧ method.isVirtual then
            some (.internal (.virtualGenericDelegate delegateName methodName))
          else none

/-- The errors that refuse a delegate. -/
inductive CompileError.IsRefusal : CompileError → Prop
  | notADelegate (type : String) : IsRefusal (.program (.notADelegate type))
  | delegateArity (delegate method : String) (invoke call : Nat) :
    IsRefusal (.internal (.delegateArity delegate method invoke call))
  | nonNativeSignature (delegate method : String) :
    IsRefusal (.unsupported (.nonNativeSignature delegate method))
  | openInstanceDelegate (delegate method : String) :
    IsRefusal (.unsupported (.openInstanceDelegate delegate method))
  | virtualGenericDelegate (delegate method : String) :
    IsRefusal (.internal (.virtualGenericDelegate delegate method))

theorem isRefusal_of_delegateRefusal? {definition : TypeDesc} {method : MethodDesc}
    {delegateName methodName : String} {e : CompileError}
    (h : delegateRefusal? definition method delegateName methodName = some e) : e.IsRefusal := by
  rw [delegateRefusal?] at h
  split at h
  · cases h
    exact .notADelegate _
  · split at h
    · cases h
      exact .delegateArity _ _ _ _
    · split at h
      · split at h
        · cases h
        · cases h
          exact .nonNativeSignature _ _
      · split at h
        · cases h
          exact .openInstanceDelegate _ _
        · split at h
          · cases h
            exact .virtualGenericDelegate _ _
          · cases h

namespace Program

variable {base p q : Program} {type : TypeId} {method : MethodId}

/-- Why a delegate of the type is not constructed over the method, if it is not. -/
def delegateRefusal? (p : Program) (type : TypeId) (method : MethodId) :
    Except ProgramError (Option CompileError) := do
  let desc ← p.methodDesc method
  let definition ← p.typeDesc (← p.typeDefinition type)
  return NativeImage.delegateRefusal? definition desc (← p.typeName type) (← p.methodName method)

theorem delegateRefusal?_stable (type : TypeId) (method : MethodId) :
    Stable (·.delegateRefusal? type method) := by
  refine (methodDesc_stable method).bind fun desc => ?_
  refine (typeDefinition_stable type).bind fun id => ?_
  refine (typeDesc_stable id).bind fun definition => ?_
  refine (typeName_stable type).bind fun delegateName => ?_
  exact (methodName_stable method).bind fun _ => .pure _

/-- What the answer consists of. -/
theorem delegateRefusal?_eq_ok {refusal? : Option CompileError} :
    p.delegateRefusal? type method = .ok refusal? ↔ ∃ desc id definition delegateName target,
      p.methodDesc method = .ok desc ∧ p.typeDefinition type = .ok id ∧
        p.typeDesc id = .ok definition ∧ p.typeName type = .ok delegateName ∧
        p.methodName method = .ok target ∧
        NativeImage.delegateRefusal? definition desc delegateName target = refusal? := by
  rw [delegateRefusal?]
  cases p.methodDesc method with
  | error e => simp [bind, Except.bind]
  | ok desc =>
    cases p.typeDefinition type with
    | error e => simp [bind, Except.bind]
    | ok id =>
      cases hd : p.typeDesc id with
      | error e => simp [bind, Except.bind, hd]
      | ok definition =>
        cases p.typeName type with
        | error e => simp [bind, Except.bind, hd]
        | ok delegateName =>
          cases p.methodName method with
          | error e => simp [bind, Except.bind, hd]
          | ok target => simp [bind, Except.bind, pure, Except.pure, hd]

/-- Of existing types and methods it is always known. -/
theorem Extension.exists_delegateRefusal? (hp : Extension base p) (htype : p.HasType type)
    (hmethod : p.HasMethod method) :
    ∃ refusal?, p.delegateRefusal? type method = .ok refusal? := by
  obtain ⟨desc, hdesc⟩ := hasMethod_iff.1 hmethod
  obtain ⟨id, definition, hid, hdefinition, -⟩ := hp.exists_typeDefinition htype
  obtain ⟨delegateName, hdelegate⟩ := exists_typeName htype
  obtain ⟨target, htarget⟩ := hp.exists_methodName hmethod
  exact ⟨_, delegateRefusal?_eq_ok.2 ⟨desc, id, definition, delegateName, target, hdesc, hid,
    hdefinition, hdelegate, htarget, rfl⟩⟩

/-- Whatever has a name exists. -/
theorem hasType_of_typeName {name : String} (h : p.typeName type = .ok name) : p.HasType type := by
  cases hd : p.typeDesc type with
  | ok desc => exact hasType_of_desc hd
  | error e =>
    rw [typeName, hd] at h
    cases h

theorem isRefusal_of_delegateRefusal? {e : CompileError}
    (h : p.delegateRefusal? type method = .ok (some e)) : e.IsRefusal := by
  obtain ⟨_, _, _, _, _, -, -, -, -, -, hrefusal⟩ := delegateRefusal?_eq_ok.1 h
  exact NativeImage.isRefusal_of_delegateRefusal? hrefusal

end Program

/-! ## Plans -/

namespace ImageM

/-- Run an operation on the image's program, and fail if it answers with a failure. -/
def accept {α : Type} (action : ProgramM (Except CompileError α)) : ImageM α := do
  match ← onProgram action with
  | .ok a => return a
  | .error e => throw e

variable {α β : Type}

theorem onProgram_bind (x : ProgramM α) (f : α → ProgramM β) :
    onProgram (x >>= f) = onProgram x >>= fun a => onProgram (f a) := by
  funext s
  rw [onProgram, bind_apply, bind_apply, onProgram]
  cases x s.program <;> rfl

theorem onProgram_ask (question : Program → Except ProgramError α) :
    onProgram (ProgramM.ask question) = ask question := by
  funext s
  rw [onProgram, ProgramM.ask, ask]
  cases question s.program <;> rfl

theorem accept_bind (x : ProgramM α) (f : α → ProgramM (Except CompileError β)) :
    accept (x >>= f) = onProgram x >>= fun a => accept (f a) := by
  simp only [accept, onProgram_bind, bind_assoc]

theorem accept_error (e : CompileError) :
    accept (pure (.error e)) = (throw e : ImageM α) := rfl

theorem accept_settles {action : ProgramM (Except CompileError α)}
    (h : Settles action) : Settles (accept action) := by
  refine (onProgram_settles h).bind fun result => ?_
  cases result with
  | ok a => exact .pure a
  | error e => exact .throw e

/-- Nothing but the program changes. -/
theorem accept_same (action : ProgramM (Except CompileError α)) (s : Image) :
    (stateAfter (accept action) s).nodes = s.nodes ∧
      (stateAfter (accept action) s).attachment? = s.attachment? := by
  rw [stateAfter, accept, bind_apply, onProgram]
  cases action s.program with
  | ok result p => cases result <;> exact ⟨rfl, rfl⟩
  | error cause p => exact ⟨rfl, rfl⟩

end ImageM

namespace CompilationUnit

/-- What a delegate is constructed with: an initializer, and the entries that it is given. -/
inductive DelegatePlan
  /-- A static target, and the thunk through which it is invoked. -/
  | static (routine : Initializer) (target thunk : MethodId)
  /-- The target of a bound receiver. -/
  | bound (routine : Initializer) (target : CacheKey)
  deriving DecidableEq, Repr

namespace DelegatePlan

/-- The nodes of a plan, in the order in which `get` is asked for them. -/
def make {m : Type → Type} [Monad m] (get : CacheKey → m NodeId) : DelegatePlan → m DelegateParts
  | static routine target thunk => do
    let initializer ← get (.plainEntry routine.method)
    let target ← get (.plainEntry target)
    return ⟨initializer, target, some (← get (.plainEntry thunk))⟩
  | bound routine target => do
    let target ← get target
    return ⟨← get (.plainEntry routine.method), target, none⟩

/-- What the plan is made of exists. -/
def Enters (p : Program) : DelegatePlan → Prop
  | static _ target thunk => p.HasMethod target ∧ p.HasMethod thunk
  | bound _ target => target.Enters p

/-- With a bound receiver a method that shares its code is not entered directly. -/
def ofBound (entry : MethodEntry) (desc : MethodDesc) (canonical : MethodId) : DelegatePlan :=
  if entry.method = canonical then .bound .closedInstance (.entry entry)
  else if desc.args.isEmpty then .bound .closedInstance (.shadowMethod entry)
  else .bound .closedInstanceSlow (.fatPointer entry)

theorem enters_ofBound {p : Program} {entry : MethodEntry} (h : p.HasMethod entry.method)
    (desc : MethodDesc) (canonical : MethodId) : (ofBound entry desc canonical).Enters p := by
  rw [ofBound]
  split
  · exact CacheKey.enters_entry h
  · split
    · exact h
    · exact h

end DelegatePlan

/-- The plan for a static target. -/
def staticPlan (type : TypeId) (method : MethodId) (desc : MethodDesc) (info : DelegateInfo)
    (binding : Binding) : ProgramM (Except CompileError DelegatePlan) := do
  let routines := staticRoutines binding desc.isNativeCallable
  match info.thunk? routines.2 with
  | none =>
    return .error (.unsupported (.nonNativeSignature (← ProgramM.ask (·.typeName type))
      (← ProgramM.ask (·.methodName method))))
  | some definition =>
    if (← ProgramM.ask (·.typeDesc type)).args.isEmpty then
      return .ok (.static routines.1 method definition)
    return .ok (.static routines.1 method (← ProgramM.methodOnType definition type))

/-- The plan for an instance target with a bound receiver. -/
def instancePlan (type : TypeId) (method : MethodId) (desc : MethodDesc) :
    ProgramM (Except CompileError DelegatePlan) := do
  let unboxing := (← ProgramM.ask (·.typeDesc desc.owner)).isValueType
  let canonical ← ProgramM.canonicalMethod method
  if ¬ desc.args.isEmpty ∧ desc.isVirtual then
    return .error (.internal (.virtualGenericDelegate (← ProgramM.ask (·.typeName type))
      (← ProgramM.ask (·.methodName method))))
  return .ok (.ofBound ⟨method, unboxing⟩ desc canonical)

/-- Everything about a construction that does not depend on the unit. -/
def delegatePlan (type : TypeId) (method : MethodId) :
    ProgramM (Except CompileError DelegatePlan) := do
  let desc ← ProgramM.ask (·.methodDesc method)
  let info ← ProgramM.delegateInfo type
  match Binding.ofArities? info.invokeArity desc.callArity with
  | none =>
    return .error (.internal (.delegateArity (← ProgramM.ask (·.typeName type))
      (← ProgramM.ask (·.methodName method)) info.invokeArity desc.callArity))
  | some binding =>
    if desc.isStatic then
      staticPlan type method desc info binding
    else match binding with
      | .opened =>
        return .error (.unsupported (.openInstanceDelegate (← ProgramM.ask (·.typeName type))
          (← ProgramM.ask (·.methodName method))))
      | .closed => instancePlan type method desc

variable (unit : CompilationUnit) (type : TypeId) (method : MethodId)

/-- A plan is refused as its construction is. -/
theorem accept_refuse {α β : Type} (cause : String → String → CompileError) (f : α → ImageM β) :
    (accept (do return .error (cause (← ProgramM.ask (·.typeName type))
      (← ProgramM.ask (·.methodName method)))) >>= f) =
        (do throw (cause (← ask (·.typeName type)) (← ask (·.methodName method)))) := by
  simp only [accept_bind, onProgram_ask, accept_error, bind_assoc]
  rfl

theorem staticParts_eq (desc : MethodDesc) (info : DelegateInfo) (binding : Binding) :
    unit.staticParts type method desc info binding =
      accept (staticPlan type method desc info binding) >>= (·.make unit.answer) := by
  simp only [staticParts, staticPlan]
  cases info.thunk? (staticRoutines binding desc.isNativeCallable).2 with
  | none => exact (accept_refuse type method (fun delegate method =>
      .unsupported (.nonNativeSignature delegate method)) _).symm
  | some definition =>
    simp only [thunkOn, accept_bind, onProgram_ask, bind_assoc]
    refine bind_congr fun desc => ?_
    split
    · rfl
    · simp only [accept_bind, bind_assoc]
      rfl

theorem boundTarget_eq (entry : MethodEntry) (desc : MethodDesc) (canonical : MethodId) :
    (do
      let bound ← unit.boundTarget entry desc canonical
      return ⟨← unit.plainEntry bound.1.method, bound.2, none⟩) =
        (DelegatePlan.ofBound entry desc canonical).make unit.answer := by
  rw [boundTarget, DelegatePlan.ofBound]
  split
  · simp only [DelegatePlan.make, answer_entry, bind_assoc, pure_bind]
    rfl
  · split
    · simp only [bind_assoc, pure_bind]
      rfl
    · simp only [bind_assoc, pure_bind]
      rfl

theorem instanceParts_eq (desc : MethodDesc) :
    unit.instanceParts type method desc =
      accept (instancePlan type method desc) >>= (·.make unit.answer) := by
  simp only [instanceParts, instancePlan, accept_bind, onProgram_ask, bind_assoc]
  refine bind_congr fun owner => bind_congr fun canonical => ?_
  split
  · exact (accept_refuse type method (fun delegate method =>
      .internal (.virtualGenericDelegate delegate method)) _).symm
  · exact unit.boundTarget_eq _ desc canonical

/-- A construction is planned on the program, and then its nodes are made. -/
theorem delegateParts_eq :
    unit.delegateParts type method =
      accept (delegatePlan type method) >>= (·.make unit.answer) := by
  simp only [delegateParts, delegatePlan, accept_bind, onProgram_ask, bind_assoc]
  refine bind_congr fun desc => bind_congr fun info => ?_
  cases Binding.ofArities? info.invokeArity desc.callArity with
  | none => exact (accept_refuse type method (fun delegate method =>
      .internal (.delegateArity delegate method info.invokeArity desc.callArity)) _).symm
  | some binding =>
    by_cases hstatic : desc.isStatic = true
    · simp only [hstatic, if_true]
      exact unit.staticParts_eq type method desc info binding
    · simp only [hstatic]
      cases binding with
      | opened => exact (accept_refuse type method (fun delegate method =>
          .unsupported (.openInstanceDelegate delegate method)) _).symm
      | closed => exact unit.instanceParts_eq type method desc

theorem refusedPlan_settles {type : TypeId} {method : MethodId}
    (cause : String → String → CompileError) :
    Settles (do return (.error (cause (← ProgramM.ask (·.typeName type))
      (← ProgramM.ask (·.methodName method))) : Except CompileError DelegatePlan)) :=
  (ProgramM.ask_settles (typeName_stable type)).bind fun _ =>
    (ProgramM.ask_settles (methodName_stable method)).bind fun _ => .pure _

theorem staticPlan_settles (desc : MethodDesc) (info : DelegateInfo) (binding : Binding) :
    Settles (staticPlan type method desc info binding) := by
  simp only [staticPlan]
  cases info.thunk? (staticRoutines binding desc.isNativeCallable).2 with
  | none => exact refusedPlan_settles fun delegate method =>
      .unsupported (.nonNativeSignature delegate method)
  | some definition =>
    refine (ProgramM.ask_settles (typeDesc_stable type)).bind fun own => .ite (.pure _) ?_
    exact (ProgramM.methodOnType_settles definition type).bind fun _ => .pure _

theorem instancePlan_settles (desc : MethodDesc) : Settles (instancePlan type method desc) := by
  refine (ProgramM.ask_settles (typeDesc_stable desc.owner)).bind fun owner => ?_
  refine (ProgramM.canonicalMethod_settles method).bind fun canonical => .ite ?_ (.pure _)
  exact refusedPlan_settles fun delegate method =>
    .internal (.virtualGenericDelegate delegate method)

/-- The plan of a construction lasts. -/
theorem delegatePlan_settles : Settles (delegatePlan type method) := by
  refine (ProgramM.ask_settles (methodDesc_stable method)).bind fun desc => ?_
  refine (ProgramM.delegateInfo_settles type).bind fun info => ?_
  cases Binding.ofArities? info.invokeArity desc.callArity with
  | none => exact refusedPlan_settles fun delegate method =>
      .internal (.delegateArity delegate method info.invokeArity desc.callArity)
  | some binding =>
    refine .ite (staticPlan_settles type method desc info binding) ?_
    cases binding with
    | opened => exact refusedPlan_settles fun delegate method =>
        .unsupported (.openInstanceDelegate delegate method)
    | closed => exact instancePlan_settles type method desc

end CompilationUnit

/-! ## Plans of existing methods -/

/-- The outcome of a plan, given the refusal that is listed, if one is. -/
def PlanAs (refusal? : Option CompileError) (p : Program) :
    Except CompileError CompilationUnit.DelegatePlan → Prop
  | .ok plan => refusal? = none ∧ plan.Enters p
  | .error e => refusal? = some e

namespace CompilationUnit

section Plans

variable {base p : Program} {E : Program → ProgramError → Prop} {type : TypeId} {method : MethodId}
  (hp : Extension base p) {delegateName methodName : String}
  (hdelegate : p.typeName type = .ok delegateName) (hname : p.methodName method = .ok methodName)
include hp hdelegate hname

/-- A refusal names the delegate and the method. -/
theorem refusedPlan_ends (cause : String → String → CompileError) :
    Ends (Extension base) E (PlanAs (some (cause delegateName methodName)))
      (do return .error (cause (← ProgramM.ask (·.typeName type))
        (← ProgramM.ask (·.methodName method)))) p :=
  ProgramM.ends_ask hdelegate (ProgramM.ends_ask hname (.pure hp rfl))

/-- A static target needs a thunk, which the definition has or has not. -/
theorem staticPlan_ends (htype : p.HasType type) (hmethod : p.HasMethod method)
    {definition : TypeId} {desc : TypeDesc} {arity : Nat} {info : DelegateInfo}
    (hinfo : info.Of p definition desc arity) (hd : p.typeDefinition type = .ok definition)
    (target : MethodDesc) (binding : Binding) :
    Ends (Extension base) E
      (PlanAs (if desc.hasThunk (staticRoutines binding target.isNativeCallable).2 then none
        else some (.unsupported (.nonNativeSignature delegateName methodName))))
      (staticPlan type method target info binding) p := by
  simp only [staticPlan, ← hinfo.isSome_thunk?]
  cases hthunk : info.thunk? (staticRoutines binding target.isNativeCallable).2 with
  | none =>
    exact refusedPlan_ends hp hdelegate hname (fun delegate method =>
      .unsupported (.nonNativeSignature delegate method))
  | some thunk =>
    have hof := hinfo.thunkOf _ _ hthunk
    obtain ⟨own, hown⟩ := hasType_iff.1 htype
    rw [if_pos Option.isSome_some]
    refine ProgramM.ends_ask hown ?_
    split
    · exact .pure hp ⟨rfl, hmethod, hof.hasMethod⟩
    · exact (ProgramM.methodOnType_ends hp hof htype hd).bind fun hle hq hthunk =>
        .pure hq ⟨rfl, hmethod.mono hle, hthunk⟩

/-- A bound receiver only excludes virtual methods with method arguments. -/
theorem instancePlan_ends {desc : MethodDesc} (hdesc : p.methodDesc method = .ok desc) :
    Ends (Extension base) E
      (PlanAs (if ¬ desc.args.isEmpty ∧ desc.isVirtual then
        some (.internal (.virtualGenericDelegate delegateName methodName)) else none))
      (instancePlan type method desc) p := by
  have hmethod : p.HasMethod method := hasMethod_of_desc hdesc
  obtain ⟨owner, howner⟩ := hasType_iff.1 (hp.wellFormed.method_ok hdesc).owner
  refine ProgramM.ends_ask howner ?_
  refine (ProgramM.canonicalMethod_ends hp hmethod).bind fun {canonical q} hle hq _ => ?_
  split
  · exact refusedPlan_ends hq (typeName_stable _ _ _ hdelegate _ hle)
      (methodName_stable _ _ _ hname _ hle) (fun delegate method =>
        .internal (.virtualGenericDelegate delegate method))
  · exact .pure hq ⟨rfl, DelegatePlan.enters_ofBound (hmethod.mono hle) desc canonical⟩

end Plans

/-- A construction is refused for the reason that is listed; if none is, its plan is made of what
exists. -/
theorem delegatePlan_ends {base p : Program} (hp : Extension base p) {type : TypeId}
    {method : MethodId} {refusal? : Option CompileError}
    (h : p.delegateRefusal? type method = .ok refusal?) :
    Ends (Extension base) (fun _ cause => refusal? = some (.program cause)) (PlanAs refusal?)
      (delegatePlan type method) p := by
  obtain ⟨desc, id, definition, delegateName, methodName, hdesc, hid, hdefinition, hdelegate,
    hname, rfl⟩ := delegateRefusal?_eq_ok.1 h
  have hmethod : p.HasMethod method := hasMethod_of_desc hdesc
  have htype : p.HasType type := hasType_of_typeName hdelegate
  refine ProgramM.ends_ask hdesc ?_
  obtain ⟨_, _, hid', hdefinition', hdecl⟩ := hp.exists_typeDefinition htype
  cases hid.symm.trans hid'
  cases hdefinition.symm.trans hdefinition'
  rw [NativeImage.delegateRefusal?]
  -- the checks come in the same order in both
  cases harity : definition.invokeArity? with
  | none =>
    refine Ends.bind (V := fun _ _ => False) ?_ fun _ _ h => h.elim
    refine ProgramM.ends_ask hid (ProgramM.ends_ask hdefinition ?_)
    rw [harity]
    exact .throw hp rfl
  | some arity =>
    refine (ProgramM.delegateInfo_ends hp hid hdefinition hdecl harity).bind
      fun {info q} hle hq hinfo => ?_
    have hdelegate := typeName_stable _ _ _ hdelegate _ hle
    have hname := methodName_stable _ _ _ hname _ hle
    rw [hinfo.invokeArity]
    dsimp only
    cases Binding.ofArities? arity desc.callArity with
    | none =>
      exact refusedPlan_ends hq hdelegate hname (fun delegate method =>
        .internal (.delegateArity delegate method arity desc.callArity))
    | some binding =>
      dsimp only
      by_cases hstatic : desc.isStatic = true
      · rw [if_pos hstatic, if_pos hstatic]
        exact staticPlan_ends hq hdelegate hname (htype.mono hle) (hmethod.mono hle) hinfo
          (typeDefinition_stable _ _ _ hid _ hle) desc binding
      · rw [if_neg hstatic, if_neg hstatic]
        cases binding with
        | opened =>
          exact refusedPlan_ends hq hdelegate hname (fun delegate method =>
            .unsupported (.openInstanceDelegate delegate method))
        | closed =>
          exact instancePlan_ends hq hdelegate hname (methodDesc_stable _ _ _ hdesc _ hle)

end CompilationUnit

/-! ## Constructions -/

/-- The nodes that a construction uses. -/
def DelegateParts.ids (parts : DelegateParts) : List NodeId :=
  [parts.initializer, parts.target] ++ parts.thunk?.toList

namespace CompilationUnit

/-- A plan that is refused is not accepted. -/
theorem accept_ends {R : Image → Prop} {s : Image} {refusal? : Option CompileError}
    {action : ProgramM (Except CompileError DelegatePlan)}
    (h : Ends R (fun _ e => refusal? = some e) (fun t => PlanAs refusal? t.program)
      (onProgram action) s) :
    Ends R (fun _ e => refusal? = some e)
      (fun t plan => refusal? = none ∧ plan.Enters t.program) (accept action) s := by
  refine h.bind fun {result t} _ hr houtcome => ?_
  cases result with
  | ok plan => exact .pure hr houtcome
  | error e => exact .throw hr houtcome

section Making

variable {R : Image → Prop} {E : Image → CompileError → Prop} {V : Image → NodeId → Prop}
  {base : Program} {s : Image} (hV : Lasts V) (hR : ∀ {t}, R t → Extension base t.program)
include hV hR

/-- A plan can be made if what it is made of can. -/
theorem DelegatePlan.make_ends {get : CacheKey → ImageM NodeId}
    (hget : ∀ {key t}, R t → key.Enters t.program → Ends R E V (get key) t) (hr : R s)
    {plan : DelegatePlan} (h : plan.Enters s.program) :
    Ends R E (fun t parts => ∀ id ∈ parts.ids, V t id) (plan.make get) s := by
  have hplain {t : Image} (hr : R t) {method : MethodId} (hmethod : t.program.HasMethod method) :
      Ends R E V (get (.plainEntry method)) t := hget hr hmethod
  have hroutine {t : Image} (hr : R t) (routine : Initializer) :
      Ends R E V (get (.plainEntry routine.method)) t :=
    hplain hr (((hR hr).hasMethod_initializer routine).mono (hR hr).derives.le)
  cases plan with
  | static routine target thunk =>
    obtain ⟨htarget, hthunk⟩ := h
    refine (hroutine hr routine).bind fun hle₁ hr hinitializer => ?_
    refine (hplain hr (htarget.mono hle₁.program)).bind fun hle₂ hr htarget => ?_
    have hthunk := hthunk.mono (hle₁.trans hle₂).program
    refine (hplain hr hthunk).bind fun hle₃ hr hthunk => .pure hr ?_
    simp only [DelegateParts.ids, Option.toList_some, List.cons_append, List.nil_append,
      List.forall_mem_cons]
    exact ⟨hV hinitializer (hle₂.trans hle₃), hV htarget hle₃, hthunk, List.forall_mem_nil _⟩
  | bound routine target =>
    refine (hget hr h).bind fun hle hr htarget => ?_
    refine (hroutine hr routine).bind fun hle hr hinitializer => .pure hr ?_
    simp only [DelegateParts.ids, Option.toList_none, List.append_nil, List.forall_mem_cons]
    exact ⟨hinitializer, hV htarget hle, List.forall_mem_nil _⟩

/-- A construction succeeds if there is no refusal and fails with the refusal if there is one,
provided that the entries of existing methods are answered. -/
theorem delegateParts_ends_of {unit : CompilationUnit} {type : TypeId} {method : MethodId}
    {refusal? : Option CompileError}
    (hget : ∀ {key t}, R t → key.Enters t.program →
      Ends R (fun _ e => refusal? = some e) V (unit.answer key) t)
    (hplan : Ends R (fun _ e => refusal? = some e) (fun t => PlanAs refusal? t.program)
      (onProgram (delegatePlan type method)) s) :
    Ends R (fun _ e => refusal? = some e)
      (fun t parts => refusal? = none ∧ ∀ id ∈ parts.ids, V t id)
      (unit.delegateParts type method) s := by
  rw [delegateParts_eq]
  refine (accept_ends hplan).bind fun {plan t} _ hr hplan => ?_
  exact (plan.make_ends (V := V) hV hR hget hr hplan.2).imp fun _ _ hids => ⟨hplan.1, hids⟩

end Making

end CompilationUnit

/-- The parts of a construction exist and are of lower rank than a construction is. -/
structure DelegateParts.Made (s : Image) (parts : DelegateParts) : Prop where
  initializer : s.RankBelow 4 parts.initializer
  target : s.RankBelow 4 parts.target
  thunk? : ∀ id, parts.thunk? = some id → s.RankBelow 4 id

theorem DelegateParts.Made.mayRefer {s : Image} {parts : DelegateParts} (h : parts.Made s) :
    s.MayRefer (.helper (.delegate parts)) := by
  obtain ⟨initializer, target, thunk?⟩ := parts
  have hhold {id : NodeId} (hid : s.RankBelow 4 id) :
      s.MayHold (.helper (.delegate ⟨initializer, target, thunk?⟩)) id := hid.mayHold
  refine .delegateHelper ⟨rfl, hhold h.initializer⟩ ⟨rfl, hhold h.target⟩ ?_
  cases thunk? with
  | none => exact .none
  | some id => exact .some ⟨rfl, hhold (h.thunk? id rfl)⟩

theorem DelegateParts.made_of_ids {s : Image} {parts : DelegateParts}
    (h : ∀ id ∈ parts.ids, s.RankBelow 4 id) : parts.Made s where
  initializer := h _ (by simp [ids])
  target := h _ (by simp [ids])
  thunk? id hid := h _ (by simp [ids, hid])

namespace CompilationUnit

variable {unit : CompilationUnit} {base : Program} {attached : Bool} {s t : Image}
  {E : Image → CompileError → Prop} {type : TypeId} {method : MethodId}

/-- Entries of existing methods can be made, and are of lower rank than a construction is. -/
theorem answer_ends (hr : Sound unit base attached s) {key : CacheKey}
    (h : key.Enters s.program) :
    Ends (Sound unit base attached) E (RankBelow · 4) (unit.answer key) s := by
  cases key with
  | plainEntry method => exact ends_weaken (plainEntry_ends hr h) (by decide)
  | unboxingEntry method => exact ends_weaken (unboxingEntry_ends hr h) (by decide)
  | shadowMethod entry => exact shadowMethod_ends hr h entry.unboxing
  | fatPointer entry => exact fatPointer_ends hr h entry.unboxing
  | leaf key => exact h.elim

/-- A construction succeeds if there is no refusal, and fails with the refusal if there is one. -/
theorem delegateParts_ends (hr : Sound unit base attached s) {refusal? : Option CompileError}
    (h : s.program.delegateRefusal? type method = .ok refusal?) :
    Ends (Sound unit base attached) (fun _ e => refusal? = some e)
      (fun t parts => refusal? = none ∧ parts.Made t) (unit.delegateParts type method) s := by
  have hplan : Ends (Sound unit base attached) (fun _ e => refusal? = some e)
      (fun t => PlanAs refusal? t.program) (onProgram (delegatePlan type method)) s :=
    onProgram_ends hr ((delegatePlan_ends hr.left.program h).imp_error fun _ he _ => he)
  exact (delegateParts_ends_of (fun hv hle => hv.mono hle) (fun hr => hr.left.program)
    (fun hr henters => answer_ends hr henters) hplan).imp
      fun _ _ hv => ⟨hv.1, DelegateParts.made_of_ids hv.2⟩

end CompilationUnit

/-! ## Requests -/

/-- The request is on existing types, methods and nodes. -/
def Request.Existing (s : Image) : Request → Prop
  | call method => s.program.HasMethod method
  | delegate type method => s.program.HasType type ∧ s.program.HasMethod method
  | gcStaticBase type => s.program.HasType type
  | threadStaticBase type => s.program.HasType type
  | eagerConstructor method => s.program.HasMethod method
  | node id => id.index < s.nodes.size

instance (s : Image) : (request : Request) → Decidable (request.Existing s)
  | .call method => inferInstanceAs (Decidable (s.program.HasMethod method))
  | .delegate type method =>
    inferInstanceAs (Decidable (s.program.HasType type ∧ s.program.HasMethod method))
  | .gcStaticBase type => inferInstanceAs (Decidable (s.program.HasType type))
  | .threadStaticBase type => inferInstanceAs (Decidable (s.program.HasType type))
  | .eagerConstructor method => inferInstanceAs (Decidable (s.program.HasMethod method))
  | .node id => inferInstanceAs (Decidable (id.index < s.nodes.size))

namespace CompilationUnit

variable {unit : CompilationUnit} {base : Program} {attached : Bool} {first s t : Image}

/-- Of the requests on what the first image has, only those for delegates can fail, with the refusal
that the first image knows. The node of a request is one of the first image or of low rank. -/
theorem resolve_ends (hfirst : Extension base first.program) (hle : first ≤ s)
    (hr : Sound unit base attached s) {request : Request} (h : request.Existing first) :
    Ends (Sound unit base attached)
      (fun _ e => ∃ type method, request = .delegate type method ∧
        first.program.delegateRefusal? type method = .ok (some e))
      (fun t id => t.RankBelow 5 id ∨ id.index < first.nodes.size) (unit.resolve request) s := by
  cases request with
  | call method =>
    have hmethod : s.program.HasMethod method := HasMethod.mono h hle.program
    refine (canonicalMethod_ends hr hmethod).bind fun hle hr _ => ?_
    have hmethod := hmethod.mono hle.program
    split
    · exact (plainEntry_ends hr hmethod).imp fun _ _ hv => .inl (hv.weaken (by decide))
    · exact (shadowMethod_ends hr hmethod false).imp fun _ _ hv => .inl (hv.weaken (by decide))
  | delegate type method =>
    obtain ⟨refusal?, hrefusal⟩ := hfirst.exists_delegateRefusal? h.1 h.2
    have hrefusal' := delegateRefusal?_stable _ _ _ _ hrefusal _ hle.program
    refine ((delegateParts_ends hr hrefusal').imp_error fun _ he => ?_).bind
      fun _ hr hparts => ?_
    · exact ⟨type, method, rfl, he ▸ hrefusal⟩
    · exact (helper_ends hr hparts.2.mayRefer).imp fun _ _ hv => .inl hv
  | gcStaticBase type =>
    have htype : s.program.HasType type := HasType.mono h hle.program
    exact (helper_ends hr (.gcStaticBaseHelper ⟨rfl, htype⟩)).imp
      fun _ _ hv => .inl (hv.weaken (Nat.le_add_right 3 2))
  | threadStaticBase type =>
    have htype : s.program.HasType type := HasType.mono h hle.program
    exact (helper_ends hr (.threadStaticBaseHelper ⟨rfl, htype⟩)).imp
      fun _ _ hv => .inl (hv.weaken (Nat.le_add_right 3 2))
  | eagerConstructor method =>
    have hmethod : s.program.HasMethod method := HasMethod.mono h hle.program
    exact (eagerConstructor_ends hr hmethod).imp fun _ _ hv => .inl (hv.weaken (by decide))
  | node id => exact .pure hr (.inr h)

/-- A construction succeeds exactly if nothing refuses it, and fails with nothing but what does. -/
theorem delegateParts_iff (hr : Sound unit base attached s) {type : TypeId} {method : MethodId}
    {refusal? : Option CompileError}
    (h : s.program.delegateRefusal? type method = .ok refusal?) :
    ((∃ parts t, unit.delegateParts type method s = .ok parts t) ↔ refusal? = none) ∧
    ∀ e, (∃ t, unit.delegateParts type method s = .error e t) ↔ refusal? = some e :=
  ((delegateParts_ends hr h).imp fun _ _ hparts => hparts.1).refused_iff

end CompilationUnit

end NativeImage

import NativeImage.Proofs.CompilationUnit.Numbering
import NativeImage.Proofs.CompilationUnit.Refusal
import NativeImage.Proofs.CompilationUnit.SharedProgram

/-!
# What comes of the construction of a delegate

A construction is refused for five reasons, which exclude each other, and otherwise succeeds. All
checks are made before the first node is asked for, so a construction that is refused leaves the
nodes and the caches of its unit as they are, though not always the program: by then thunks may
have been added to it. A construction that has succeeded once gives the same nodes ever after, and
makes none.

## Main definitions

- `DelegateSubject` — what decides about a construction
- `DelegateSubject.Refused` — the reasons to refuse one
- `CompilationUnit.cachedParts` — the nodes of a construction, by caches

## Main statements

- `DelegateSubject.refused_iff` — the reasons are those that are found by the checks
- `CompilationUnit.cachedParts_of_ok`, `CompilationUnit.cachedParts_of_error` — constructions with
  caches in front of the nodes
- `Image.Together.delegateParts_outcome` — what comes of a construction, and what it leaves behind
-/

namespace NativeImage

open Program Image ImageM

/-! ## Reasons -/

/-- What decides whether a delegate is constructed over a method, with the names that a refusal
mentions. -/
structure DelegateSubject where
  definition : TypeDesc
  method : MethodDesc
  delegateName : String
  methodName : String

namespace DelegateSubject

/-- The subject is what the program knows about the type, its definition and the method. -/
structure Of (subject : DelegateSubject) (p : Program) (type : TypeId) (method : MethodId) :
    Prop where
  definition : ∃ id, p.typeDefinition type = .ok id ∧ p.typeDesc id = .ok subject.definition
  delegateName : p.typeName type = .ok subject.delegateName
  methodName : p.methodName method = .ok subject.methodName
  method : p.methodDesc method = .ok subject.method

/-- The reasons to refuse a construction. -/
inductive Refused (subject : DelegateSubject) : CompileError → Prop
  | notADelegate (h : subject.definition.invokeArity? = none) :
    Refused subject (.program (.notADelegate subject.definition.name))
  /-- The method takes neither as many parameters as the delegate, nor one more to bind. -/
  | delegateArity {invoke : Nat} (h : subject.definition.invokeArity? = some invoke)
    (hopened : subject.method.callArity ≠ invoke)
    (hclosed : subject.method.callArity ≠ invoke + 1) :
    Refused subject (.internal (.delegateArity subject.delegateName subject.methodName invoke
      subject.method.callArity))
  /-- Native code cannot call through a delegate that is generic or has another signature. -/
  | nonNativeSignature (h : subject.definition.invokeArity? = some subject.method.callArity)
    (hstatic : subject.method.isStatic = true) (hnative : subject.method.isNativeCallable = true)
    (hdefinition : subject.definition.isGenericDefinition = true ∨
      subject.definition.nativeSignature = false) :
    Refused subject (.unsupported (.nonNativeSignature subject.delegateName subject.methodName))
  /-- No receiver is bound. -/
  | openInstanceDelegate (h : subject.definition.invokeArity? = some subject.method.callArity)
    (hinstance : subject.method.isStatic = false) :
    Refused subject (.unsupported (.openInstanceDelegate subject.delegateName subject.methodName))
  | virtualGenericDelegate {invoke : Nat} (h : subject.definition.invokeArity? = some invoke)
    (hclosed : subject.method.callArity = invoke + 1) (hinstance : subject.method.isStatic = false)
    (hargs : subject.method.args ≠ []) (hvirtual : subject.method.isVirtual = true) :
    Refused subject
      (.internal (.virtualGenericDelegate subject.delegateName subject.methodName))

/-- Only the thunk for native code can be missing. -/
theorem hasThunk_eq_false {definition : TypeDesc} {binding : CompilationUnit.Binding}
    {nativeCallable : Bool} :
    definition.hasThunk (CompilationUnit.staticRoutines binding nativeCallable).2 = false ↔
      binding = .opened ∧ nativeCallable = true ∧
        (definition.isGenericDefinition = true ∨ definition.nativeSignature = false) := by
  cases binding with
  | closed => simp [CompilationUnit.staticRoutines, TypeDesc.hasThunk]
  | opened =>
    cases nativeCallable with
    | false => simp [CompilationUnit.staticRoutines, TypeDesc.hasThunk]
    | true =>
      simp only [CompilationUnit.staticRoutines, TypeDesc.hasThunk, if_true]
      cases definition.isGenericDefinition <;> cases definition.nativeSignature <;> simp

theorem ofArities?_eq_none {invoke call : Nat} :
    CompilationUnit.Binding.ofArities? invoke call = none ↔ call ≠ invoke ∧ call ≠ invoke + 1 := by
  rw [CompilationUnit.Binding.ofArities?]
  grind

theorem ofArities?_eq_opened {invoke call : Nat} :
    CompilationUnit.Binding.ofArities? invoke call = some .opened ↔ call = invoke := by
  rw [CompilationUnit.Binding.ofArities?]
  grind

theorem ofArities?_eq_closed {invoke call : Nat} :
    CompilationUnit.Binding.ofArities? invoke call = some .closed ↔ call = invoke + 1 := by
  rw [CompilationUnit.Binding.ofArities?]
  grind

/-- The checks of a construction find the reasons to refuse it. -/
theorem refused_iff {subject : DelegateSubject} {e : CompileError} :
    subject.Refused e ↔
      delegateRefusal? subject.definition subject.method subject.delegateName subject.methodName =
        some e := by
  constructor
  · intro h
    rw [delegateRefusal?]
    cases h with
    | notADelegate h => simp only [h]
    | delegateArity h hopened hclosed =>
      simp only [h, ofArities?_eq_none.2 ⟨hopened, hclosed⟩]
    | nonNativeSignature h hstatic hnative hdefinition =>
      have hthunk := hasThunk_eq_false.2 ⟨rfl, hnative, hdefinition⟩
      simp only [h, ofArities?_eq_opened.2 rfl, hstatic, hthunk, if_true, Bool.false_eq_true,
        if_false]
    | openInstanceDelegate h hinstance =>
      simp only [h, ofArities?_eq_opened.2 rfl, hinstance, Bool.false_eq_true, if_false]
    | virtualGenericDelegate h hclosed hinstance hargs hvirtual =>
      have hargs : ¬ subject.method.args.isEmpty = true := mt List.isEmpty_iff.1 hargs
      simp only [h, ofArities?_eq_closed.2 hclosed, hinstance, hvirtual, hargs, Bool.false_eq_true,
        if_false, not_false_eq_true, and_self, if_true]
  · intro h
    rw [delegateRefusal?] at h
    cases hinvoke : subject.definition.invokeArity? with
    | none =>
      rw [hinvoke] at h
      cases h
      exact .notADelegate hinvoke
    | some invoke =>
      simp only [hinvoke] at h
      cases hbinding : CompilationUnit.Binding.ofArities? invoke subject.method.callArity with
      | none =>
        simp only [hbinding] at h
        cases h
        obtain ⟨hopened, hclosed⟩ := ofArities?_eq_none.1 hbinding
        exact .delegateArity hinvoke hopened hclosed
      | some binding =>
        simp only [hbinding] at h
        cases hstatic : subject.method.isStatic with
        | true =>
          rw [if_pos hstatic] at h
          split at h
          · cases h
          · next hthunk =>
            cases h
            obtain ⟨rfl, hnative, hdefinition⟩ :=
              hasThunk_eq_false.1 (Bool.eq_false_iff.2 hthunk)
            cases ofArities?_eq_opened.1 hbinding
            exact .nonNativeSignature hinvoke hstatic hnative hdefinition
        | false =>
          rw [if_neg (Bool.eq_false_iff.1 hstatic)] at h
          cases binding with
          | opened =>
            cases h
            cases ofArities?_eq_opened.1 hbinding
            exact .openInstanceDelegate hinvoke hstatic
          | closed =>
            dsimp only at h
            split at h
            · next hvirtual =>
              cases h
              exact .virtualGenericDelegate hinvoke (ofArities?_eq_closed.1 hbinding) hstatic
                (fun hargs => hvirtual.1 (List.isEmpty_iff.2 hargs)) hvirtual.2
            · cases h

end DelegateSubject

/-- Existing types and methods are known. -/
theorem Program.Extension.exists_subject {base p : Program} (hp : Extension base p) {type : TypeId}
    {method : MethodId} (htype : p.HasType type) (hmethod : p.HasMethod method) :
    ∃ subject : DelegateSubject, subject.Of p type method := by
  obtain ⟨refusal?, h⟩ := hp.exists_delegateRefusal? htype hmethod
  obtain ⟨desc, id, definition, delegateName, methodName, hdesc, hid, hdefinition, hdelegate, hname,
    -⟩ := delegateRefusal?_eq_ok.1 h
  exact ⟨⟨definition, desc, delegateName, methodName⟩, ⟨id, hid, hdefinition⟩, hdelegate, hname,
    hdesc⟩

/-- There is one subject of a construction. -/
theorem DelegateSubject.Of.unique {subject subject' : DelegateSubject} {p : Program}
    {type : TypeId} {method : MethodId} (h : subject.Of p type method)
    (h' : subject'.Of p type method) : subject = subject' := by
  obtain ⟨⟨id, hid, hdefinition⟩, hdelegate, hname, hmethod⟩ := h
  obtain ⟨⟨id', hid', hdefinition'⟩, hdelegate', hname', hmethod'⟩ := h'
  cases hid.symm.trans hid'
  cases subject
  cases subject'
  cases hdefinition.symm.trans hdefinition'
  cases hdelegate.symm.trans hdelegate'
  cases hname.symm.trans hname'
  cases hmethod.symm.trans hmethod'
  rfl

/-- What is known of the type and the method decides about the refusal. -/
theorem DelegateSubject.Of.delegateRefusal? {subject : DelegateSubject} {p : Program}
    {type : TypeId} {method : MethodId} (h : subject.Of p type method) :
    p.delegateRefusal? type method = .ok (NativeImage.delegateRefusal? subject.definition
      subject.method subject.delegateName subject.methodName) := by
  obtain ⟨id, hid, hdefinition⟩ := h.definition
  exact delegateRefusal?_eq_ok.2 ⟨_, id, _, _, _, h.method, hid, hdefinition, h.delegateName,
    h.methodName, rfl⟩

/-! ## Constructions by caches -/

namespace CompilationUnit

open CachedM CachedImage

/-- The nodes needed to construct a delegate of a type over a method, by caches. -/
def cachedParts (unit : CompilationUnit) (type : TypeId) (method : MethodId) :
    CachedM DelegateParts := do
  let plan ← onImage (accept (delegatePlan type method))
  plan.make unit.cachedAnswer

variable {unit : CompilationUnit} {base : Program} {c : CachedImage} {type : TypeId}
  {method : MethodId} {parts : DelegateParts} {e : CompileError} {s t : Image}

/-- The nodes of a plan are the same with and without caches. -/
theorem DelegatePlan.make_simulates (plan : DelegatePlan) (hc : c.Consistent unit base) :
    Simulates unit base 4 (fun d _ => d.Consistent unit base) (plan.make unit.cachedAnswer)
      (plan.make unit.answer) c := by
  have hpure {d : CachedImage} (hd : d.Consistent unit base) (parts : DelegateParts) :
      Simulates unit base 4 (fun d _ => d.Consistent unit base) (pure parts) (pure parts) d :=
    .ok rfl rfl le_rfl (fun _ _ => rfl) hd
  cases plan with
  | static routine target thunk =>
    refine (cachedAnswer_simulates _ hc).bind fun _ hc => ?_
    refine (cachedAnswer_simulates _ hc).bind fun _ hc => ?_
    exact (cachedAnswer_simulates _ hc).bind fun _ hc => hpure hc _
  | bound routine target =>
    refine (cachedAnswer_simulates _ hc).bind fun _ hc => ?_
    exact (cachedAnswer_simulates _ hc).bind fun _ hc => hpure hc _

/-- The nodes of a plan can be made whatever nodes there are. -/
theorem DelegatePlan.make_over {E : Image → CompileError → Prop} (hr : s.Over base)
    {plan : DelegatePlan} (h : plan.Enters s.program) :
    Ends (Image.Over base) E (fun _ _ => True) (plan.make unit.answer) s :=
  (plan.make_ends (V := fun _ _ => True) (fun h _ => h) id
    (fun hr henters => unit.answer_over hr henters) hr h).imp fun _ _ _ => trivial

section Over

variable (hr : s.Over base) {refusal? : Option CompileError}
  (h : s.program.delegateRefusal? type method = .ok refusal?)
include hr h

/-- A plan adds thunks and instances to the program. -/
theorem accept_delegatePlan_over :
    Ends (Image.Over base) (fun _ e => refusal? = some e)
      (fun t plan => refusal? = none ∧ plan.Enters t.program)
      (accept (delegatePlan type method)) s :=
  accept_ends (onProgram_over ((delegatePlan_ends hr h).imp_error fun _ he _ => he))

/-- Over any program a construction is refused for the listed reason, and otherwise succeeds. -/
theorem delegateParts_over (unit : CompilationUnit) :
    Ends (Image.Over base) (fun _ e => refusal? = some e) (fun _ _ => refusal? = none)
      (unit.delegateParts type method) s := by
  rw [delegateParts_eq]
  refine (accept_delegatePlan_over hr h).bind fun _ hr hplan => ?_
  exact (DelegatePlan.make_over hr hplan.2).imp fun _ _ _ => hplan.1

/-- What refuses a construction refuses its plan, before any node is asked for. -/
theorem accept_of_error (hx : unit.delegateParts type method s = .error e t) :
    accept (delegatePlan type method) s = .error e t := by
  rw [delegateParts_eq] at hx
  rcases bind_eq_error.1 hx with hrefused | ⟨plan, u, haccepted, hmake⟩
  · exact hrefused
  · -- the nodes of an accepted plan can always be made
    cases accept_delegatePlan_over hr h with
    | error hrefused => cases hrefused.symm.trans haccepted
    | ok hx _ hr hplan =>
      cases hx.symm.trans haccepted
      cases DelegatePlan.make_over (E := fun _ _ => False) hr hplan.2 with
      | ok hmade => cases hmade.symm.trans hmake
      | error _ _ _ hfalse => exact hfalse.elim

/-- A construction that is refused leaves the nodes and the caches as they are. -/
theorem cachedParts_of_error (hx : unit.delegateParts type method s = .error e t)
    (cached : List (CacheKey × NodeId)) :
    t.nodes = s.nodes ∧ t.attachment? = s.attachment? ∧
      unit.cachedParts type method ⟨s, cached⟩ = .error e ⟨t, cached⟩ := by
  have hrefused := accept_of_error hr h hx
  obtain ⟨hnodes, hattachment⟩ := accept_same (delegatePlan type method) s
  rw [stateAfter, hrefused] at hnodes hattachment
  exact ⟨hnodes, hattachment, bind_eq_error.2 (.inl (onImage_error hrefused))⟩

end Over

/-- A construction that succeeds gives the same nodes by caches, however these came about. -/
theorem cachedParts_of_ok {cached : List (CacheKey × NodeId)}
    (hc : CachedImage.Consistent unit base ⟨s, cached⟩)
    (hx : unit.delegateParts type method s = .ok parts t) :
    ∃ cached', unit.cachedParts type method ⟨s, cached⟩ = .ok parts ⟨t, cached'⟩ := by
  rw [delegateParts_eq] at hx
  obtain ⟨plan, u, haccepted, hmake⟩ := bind_eq_ok.1 hx
  -- what is planned is added to the program, and nothing that is cached depends on it
  obtain ⟨hnodes, hattachment⟩ := accept_same (delegatePlan type method) s
  rw [stateAfter, haccepted] at hnodes hattachment
  have hgrown : CachedImage.Consistent unit base ⟨u, cached⟩ :=
    hc.grow ((accept_settles (delegatePlan_settles type method)).grows haccepted) hnodes
      fun hnone => hattachment.symm.trans hnone
  cases plan.make_simulates hgrown with
  | @ok _ d hmade hy _ _ _ =>
    cases hy.symm.trans hmake
    exact ⟨d.cached, (bind_of_ok (onImage_ok haccepted)).trans hmade⟩
  | error _ hy => cases hy.symm.trans hmake

end CompilationUnit

/-! ## Outcomes -/

namespace Image

open CompilationUnit

variable {unit other : CompilationUnit} {s t : Image} {type : TypeId} {method : MethodId}

/-- A construction over an existing method fails exactly for the reasons to refuse it, and succeeds
if there are none. If it fails, the nodes, the attachment and the caches of the unit are as before.
If it succeeds, caches give the same nodes, and from then on it gives these without making any. -/
theorem Together.delegateParts_outcome (h : Together unit other s t)
    (htype : s.program.HasType type) (hmethod : s.program.HasMethod method) :
    ∃ subject : DelegateSubject, subject.Of s.program type method ∧
      (∀ e, (∃ u, unit.delegateParts type method s = .error e u) ↔ subject.Refused e) ∧
      ((∃ parts u, unit.delegateParts type method s = .ok parts u) ↔ ∀ e, ¬ subject.Refused e) ∧
      (∀ e u, unit.delegateParts type method s = .error e u →
        u.nodes = s.nodes ∧ u.attachment? = s.attachment? ∧
        ∀ cached, unit.cachedParts type method ⟨s, cached⟩ = .error e ⟨u, cached⟩) ∧
      ∀ parts u, unit.delegateParts type method s = .ok parts u →
        (∀ base cached, CachedImage.Reachable unit base ⟨s, cached⟩ →
          ∃ cached', unit.cachedParts type method ⟨s, cached⟩ = .ok parts ⟨u, cached'⟩) ∧
        ∀ v, u ≤ v → unit.delegateParts type method v = .ok parts v ∧
          ∀ base cached, CachedImage.Reachable unit base ⟨v, cached⟩ →
            ∃ cached', unit.cachedParts type method ⟨v, cached⟩ = .ok parts ⟨v, cached'⟩ := by
  have hp : Extension s.program s.program := .refl h.reachable.wellFormed
  obtain ⟨subject, hsubject⟩ := hp.exists_subject htype hmethod
  have hrefusal := hsubject.delegateRefusal?
  obtain ⟨hok, herror⟩ := (delegateParts_over hp hrefusal unit).refused_iff
  refine ⟨subject, hsubject, fun e => ?_, ?_, fun e u hx => ?_, fun parts u hx => ?_⟩
  · rw [herror, DelegateSubject.refused_iff]
  · simp only [hok, DelegateSubject.refused_iff, Option.eq_none_iff_forall_ne_some, ne_eq]
  · have hleft := cachedParts_of_error hp hrefusal hx
    exact ⟨(hleft []).1, (hleft []).2.1, fun cached => (hleft cached).2.2⟩
  · refine ⟨fun base cached hc => cachedParts_of_ok hc.consistent hx, fun v hv => ?_⟩
    have hagain := (unit.delegateParts_settles type method).again hx hv
    exact ⟨hagain, fun base cached hc => cachedParts_of_ok hc.consistent hagain⟩

/-- A comparer over a method that takes nothing is refused and leaves no nodes; a callback over a
method with one parameter is constructed, and constructed again without new nodes. -/
theorem callbacks_constructed_or_refused :
    (∃ u, callbackUnit.delegateParts ⟨3⟩ ⟨5⟩ (.initial callbackUnit.config callbackProgram) =
        .error (.internal (.delegateArity "Comparer" "Callback::Main" 2 0)) u ∧
      u.nodes = (Image.initial callbackUnit.config callbackProgram).nodes) ∧
    ∃ parts u,
      callbackUnit.delegateParts ⟨2⟩ ⟨6⟩ (.initial callbackUnit.config callbackProgram) =
        .ok parts u ∧
      callbackUnit.delegateParts ⟨2⟩ ⟨6⟩ u = .ok parts u := by
  have h := Together.initial callbackUnit callbackUnit callbackProgram_reachable
  have hcomparer : callbackProgram.HasType ⟨3⟩ := by decide
  have hcallback : callbackProgram.HasType ⟨2⟩ := by decide
  have hmain : callbackProgram.HasMethod ⟨5⟩ := by decide
  have hnotify : callbackProgram.HasMethod ⟨6⟩ := by decide
  constructor
  · obtain ⟨subject, hof, hrefused, -, hleft, -⟩ :=
      Together.delegateParts_outcome h hcomparer hmain
    have hsubject : subject = ⟨⟨{ name := "Comparer", module := .core, kind := .delegate 2 },
        .declared⟩, ⟨{ name := "Main", owner := ⟨2⟩, isStatic := true }, .declared⟩, "Comparer",
        "Callback::Main"⟩ := hof.unique ⟨⟨⟨3⟩, rfl, rfl⟩, rfl, rfl, rfl⟩
    obtain ⟨u, hu⟩ := (hrefused (.internal (.delegateArity "Comparer" "Callback::Main" 2 0))).2 (by
      rw [hsubject]
      exact .delegateArity rfl (by decide) (by decide))
    exact ⟨u, hu, (hleft _ u hu).1⟩
  · obtain ⟨subject, hof, -, hok, -, hagain⟩ :=
      Together.delegateParts_outcome h hcallback hnotify
    have hsubject : subject = ⟨⟨{ name := "Callback", module := .core, kind := .delegate 1 },
        .declared⟩, ⟨{ name := "Notify", owner := ⟨2⟩, isStatic := true, paramCount := 1 },
        .declared⟩, "Callback", "Callback::Notify"⟩ :=
      hof.unique ⟨⟨⟨2⟩, rfl, rfl⟩, rfl, rfl, rfl⟩
    obtain ⟨parts, u, hu⟩ := hok.2 fun e he => by
      rw [DelegateSubject.refused_iff, hsubject] at he
      cases he
    exact ⟨parts, u, hu, ((hagain parts u hu).2 u le_rfl).1⟩

end Image

end NativeImage

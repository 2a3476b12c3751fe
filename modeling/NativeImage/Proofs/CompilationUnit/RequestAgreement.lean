import NativeImage.Proofs.CompilationUnit.Agreement

/-!
# Requests on twin images

Matching requests resolve to matching nodes on twin images, or fail with the same message.

## Main definitions

- `DelegateParts.Match`, `Request.Match` — parts and requests that mean the same

## Main statements

- `CompilationUnit.delegateParts_agrees` — the parts of delegate constructions
- `CompilationUnit.resolve_agrees` — the nodes of requests
-/

namespace NativeImage

open Program Image ImageM

/-- Parts of two constructions that mean the same. -/
structure DelegateParts.Match (base : Program) (s t : Image) (parts parts' : DelegateParts) :
    Prop where
  initializer : Found base 4 s t parts.initializer parts'.initializer
  target : Found base 4 s t parts.target parts'.target
  thunk? : Option.Rel (Found base 4 s t) parts.thunk? parts'.thunk?

/-- Requests for the same, whose nodes may be held by any node but a standalone region. -/
inductive Request.Match (base : Program) (s t : Image) : Request → Request → Prop
  | call {m m' : MethodId} (h : MethodMatch base s.program t.program m m') :
    Match base s t (.call m) (.call m')
  | delegate {x x' : TypeId} {m m' : MethodId} (hx : TypeMatch base s.program t.program x x')
    (h : MethodMatch base s.program t.program m m') :
    Match base s t (.delegate x m) (.delegate x' m')
  | gcStaticBase {x x' : TypeId} (h : TypeMatch base s.program t.program x x') :
    Match base s t (.gcStaticBase x) (.gcStaticBase x')
  | threadStaticBase {x x' : TypeId} (h : TypeMatch base s.program t.program x x') :
    Match base s t (.threadStaticBase x) (.threadStaticBase x')
  | eagerConstructor {m m' : MethodId} (h : MethodMatch base s.program t.program m m') :
    Match base s t (.eagerConstructor m) (.eagerConstructor m')
  | node {a b : NodeId} (h : Found base 5 s t a b) : Match base s t (.node a) (.node b)

theorem Request.match_lasting (base : Program) : Lasting (Request.Match base) := by
  intro s t s' t' r r' h hs ht
  cases h with
  | call h => exact .call (h.mono hs.program ht.program)
  | delegate hx h => exact .delegate (hx.mono hs.program ht.program) (h.mono hs.program ht.program)
  | gcStaticBase h => exact .gcStaticBase (h.mono hs.program ht.program)
  | threadStaticBase h => exact .threadStaticBase (h.mono hs.program ht.program)
  | eagerConstructor h => exact .eagerConstructor (h.mono hs.program ht.program)
  | node h => exact .node (found_lasting base 5 h hs ht)

/-- The base has the initializers. -/
theorem Program.Extension.hasMethod_initializer {base p : Program} (hp : Extension base p)
    (routine : Initializer) : base.HasMethod routine.method := by
  have hinitial : Program.initial.HasMethod routine.method := by
    cases routine <;> decide
  exact hinitial.mono hp.base_ok.initial_le

namespace CompilationUnit

variable {unit : CompilationUnit} {base : Program} {attached : Bool} {s t : Image}

/-! ## Delegates -/

section Delegates

variable {x x' : TypeId} {m m' : MethodId}

theorem initializer_agrees (hr : Twins unit base attached s t) (routine : Initializer) :
    Agree (Twins unit base attached) (Found base 4) (unit.plainEntry routine.method)
      (unit.plainEntry routine.method) s t :=
  agree_weaken (plainEntry_agrees hr (.same (hr.left.program.hasMethod_initializer routine)))
    (by decide)

/-- Refusals name the delegate and the method. -/
theorem agree_refuse {α β : Type} {V : Image → Image → α → β → Prop}
    (hr : Twins unit base attached s t) (htype : TypeMatch base s.program t.program x x')
    (h : MethodMatch base s.program t.program m m') (error : String → String → CompileError) :
    Agree (Twins unit base attached) V
      (do throw (error (← ask (·.typeName x)) (← ask (·.methodName m))))
      (do throw (error (← ask (·.typeName x')) (← ask (·.methodName m')))) s t := by
  obtain ⟨type, ht, ht'⟩ := htype.typeName hr.left.program hr.right.program
  obtain ⟨method, hm, hm'⟩ := h.methodName hr.left.program hr.right.program
  exact agree_ask ht ht' (agree_ask hm hm' (.throw hr))

theorem thunkOn_agrees (hr : Twins unit base attached s t)
    (htype : TypeMatch base s.program t.program x x')
    (h : MethodMatch base s.program t.program m m') :
    Agree (Twins unit base attached) (fun s t => MethodMatch base s.program t.program) (thunkOn x m)
      (thunkOn x' m') s t := by
  obtain ⟨dx, dy, hx, hy, hagree⟩ := htype.desc hr.left.program hr.right.program
  refine agree_ask hx hy ?_
  rw [hagree.isEmpty_args]
  split
  · exact .pure hr h
  · exact onProgram_agrees hr (ProgramM.methodOnType_agrees hr.programs h htype)

theorem staticParts_agrees (hr : Twins unit base attached s t)
    (htype : TypeMatch base s.program t.program x x')
    (h : MethodMatch base s.program t.program m m') {desc desc' : MethodDesc}
    (hdesc : MethodsAgree base s.program t.program desc desc') {info info' : DelegateInfo}
    (hinfo : info.Match base s.program t.program info') (binding : Binding) :
    Agree (Twins unit base attached) (DelegateParts.Match base)
      (unit.staticParts x m desc info binding)
      (unit.staticParts x' m' desc' info' binding) s t := by
  have hnative : desc.isNativeCallable = desc'.isNativeCallable :=
    hdesc.congr MethodDeclaration.isNativeCallable fun _ _ => rfl
  simp only [staticParts, ← hnative]
  have hthunk := hinfo.thunk? (staticRoutines binding desc.isNativeCallable).2
  generalize info.thunk? _ = thunk? at hthunk ⊢
  generalize info'.thunk? _ = thunk'? at hthunk ⊢
  cases hthunk with
  | none => exact agree_refuse hr htype h fun type method =>
      .unsupported (.nonNativeSignature type method)
  | some hthunk =>
    refine (thunkOn_agrees hr htype hthunk).bind fun hs ht hr hon => ?_
    have h := h.mono hs.program ht.program
    refine (initializer_agrees hr _).bind fun hs ht hr hinit => ?_
    have hon := hon.mono hs.program ht.program
    have h := h.mono hs.program ht.program
    refine (plainEntry_agrees hr h).bind fun hs ht hr htarget => ?_
    have hon := hon.mono hs.program ht.program
    have hinit := found_lasting base 4 hinit hs ht
    refine (plainEntry_agrees hr hon).bind fun hs ht hr hentry => ?_
    have hinit := found_lasting base 4 hinit hs ht
    have htarget := found_lasting base 2 htarget hs ht
    exact .pure hr ⟨hinit, htarget.weaken (by decide), .some (hentry.weaken (by decide))⟩

theorem boundTarget_agrees (hr : Twins unit base attached s t)
    (h : MethodMatch base s.program t.program m m') (unboxing : Bool) {desc desc' : MethodDesc}
    (hdesc : MethodsAgree base s.program t.program desc desc') {canonical canonical' : MethodId}
    (hcanon : MethodMatch base s.program t.program canonical canonical') :
    Agree (Twins unit base attached) (fun s t r r' => r.1 = r'.1 ∧ Found base 4 s t r.2 r'.2)
      (unit.boundTarget ⟨m, unboxing⟩ desc canonical)
      (unit.boundTarget ⟨m', unboxing⟩ desc' canonical') s t := by
  have hiff : m = canonical ↔ m' = canonical' := hr.programs.method_eq_iff h hcanon
  rw [boundTarget, boundTarget, hdesc.isEmpty_args]
  by_cases hself : m = canonical
  · rw [if_pos hself, if_pos (hiff.1 hself)]
    refine (methodEntry_agrees hr h unboxing).bind fun _ _ hr hentry => ?_
    exact .pure hr ⟨rfl, hentry.weaken (by decide)⟩
  · rw [if_neg hself, if_neg fun h => hself (hiff.2 h)]
    split
    · exact (shadowMethod_agrees hr h unboxing).bind fun _ _ hr hshadow => .pure hr ⟨rfl, hshadow⟩
    · exact (fatPointer_agrees hr h unboxing).bind fun _ _ hr hfat => .pure hr ⟨rfl, hfat⟩

theorem instanceParts_agrees (hr : Twins unit base attached s t)
    (htype : TypeMatch base s.program t.program x x')
    (h : MethodMatch base s.program t.program m m') {desc desc' : MethodDesc}
    (hdesc : MethodsAgree base s.program t.program desc desc') :
    Agree (Twins unit base attached) (DelegateParts.Match base) (unit.instanceParts x m desc)
      (unit.instanceParts x' m' desc') s t := by
  have hvirtual : desc.isVirtual = desc'.isVirtual :=
    hdesc.congr MethodDeclaration.isVirtual fun _ _ => rfl
  obtain ⟨owner, owner', ho, ho', howner⟩ := hdesc.owner.desc hr.left.program hr.right.program
  refine agree_ask ho ho' ?_
  refine (onProgram_agrees hr (ProgramM.canonicalMethod_agrees hr.programs h)).bind
    fun hs ht hr hcanon => ?_
  have htype := htype.mono hs.program ht.program
  have h := h.mono hs.program ht.program
  have hdesc := hdesc.mono hs.program ht.program
  rw [hdesc.isEmpty_args, hvirtual, howner.isValueType_eq]
  split
  · exact agree_refuse hr htype h fun type method =>
      .internal (.virtualGenericDelegate type method)
  · refine (boundTarget_agrees hr h _ hdesc hcanon).bind fun {r r' _ _} hs ht hr hbound => ?_
    obtain ⟨initializer, target⟩ := r
    obtain ⟨initializer', target'⟩ := r'
    obtain ⟨rfl, htarget⟩ := hbound
    refine (initializer_agrees hr _).bind fun hs ht hr hinit => ?_
    exact .pure hr ⟨hinit, found_lasting base 4 htarget hs ht, .none⟩

theorem delegateParts_agrees (hr : Twins unit base attached s t)
    (htype : TypeMatch base s.program t.program x x')
    (h : MethodMatch base s.program t.program m m') :
    Agree (Twins unit base attached) (DelegateParts.Match base) (unit.delegateParts x m)
      (unit.delegateParts x' m') s t := by
  obtain ⟨desc, desc', hx, hy, hdesc⟩ := h.desc hr.left.program hr.right.program
  have hstatic : desc.isStatic = desc'.isStatic :=
    hdesc.congr MethodDeclaration.isStatic fun _ _ => rfl
  refine agree_ask hx hy ?_
  refine (onProgram_agrees hr (ProgramM.delegateInfo_agrees hr.programs htype)).bind
    fun {info info' _ _} hs ht hr hinfo => ?_
  have htype := htype.mono hs.program ht.program
  have h := h.mono hs.program ht.program
  have hdesc := hdesc.mono hs.program ht.program
  rw [hinfo.invokeArity, hdesc.callArity_eq, hstatic]
  cases Binding.ofArities? info'.invokeArity desc'.callArity with
  | none => exact agree_refuse hr htype h fun type method =>
      .internal (.delegateArity type method info'.invokeArity desc'.callArity)
  | some binding =>
    dsimp only
    split
    · exact staticParts_agrees hr htype h hdesc hinfo binding
    · cases binding with
      | opened => exact agree_refuse hr htype h fun type method =>
          .unsupported (.openInstanceDelegate type method)
      | closed => exact instanceParts_agrees hr htype h hdesc

/-- Routines for the same purpose match. -/
theorem helper_agrees (hr : Twins unit base attached s t) {h h' : Helper}
    (hk : (NodeKind.helper h).Match (TypeMatch base s.program t.program)
      (MethodMatch base s.program t.program)
      (fun a b => NodeMatch base s t a b ∧ s.MayHold (.helper h) a) (.helper h')) :
    Agree (Twins unit base attached) (Found base ((NodeKind.helper h).rank + 1))
      (CompilationUnit.helper h) (CompilationUnit.helper h') s t :=
  agree_named hr hk rfl rfl rfl

theorem delegateHelper_agrees (hr : Twins unit base attached s t)
    (htype : TypeMatch base s.program t.program x x')
    (h : MethodMatch base s.program t.program m m') :
    Agree (Twins unit base attached) (Found base 5) (unit.delegateHelper x m)
      (unit.delegateHelper x' m') s t := by
  refine (delegateParts_agrees hr htype h).bind fun {parts parts' _ _} _ _ hr hparts => ?_
  obtain ⟨initializer, target, thunk?⟩ := parts
  obtain ⟨initializer', target', thunk'?⟩ := parts'
  exact helper_agrees hr (.delegateHelper hparts.initializer.mayHold hparts.target.mayHold
    (optionRel_imp hparts.thunk? fun h => h.mayHold))

end Delegates

/-! ## Requests -/

/-- Matching requests resolve to matching nodes. -/
theorem resolve_agrees (hr : Twins unit base attached s t) {r r' : Request}
    (h : r.Match base s t r') :
    Agree (Twins unit base attached) (Found base 5) (unit.resolve r) (unit.resolve r') s t := by
  cases h with
  | @call m m' h =>
    refine (onProgram_agrees hr (ProgramM.canonicalMethod_agrees hr.programs h)).bind
      fun {canonical canonical' _ _} hs ht hr hcanon => ?_
    have h := h.mono hs.program ht.program
    have hiff : canonical = m ↔ canonical' = m' := hr.programs.method_eq_iff hcanon h
    by_cases hself : canonical = m
    · rw [if_pos hself, if_pos (hiff.1 hself)]
      exact agree_weaken (plainEntry_agrees hr h) (by decide)
    · rw [if_neg hself, if_neg fun h => hself (hiff.2 h)]
      exact agree_weaken (shadowMethod_agrees hr h false) (by decide)
  | delegate hx h => exact delegateHelper_agrees hr hx h
  | gcStaticBase h =>
    exact agree_weaken (helper_agrees hr (.gcStaticBaseHelper h)) (Nat.le_add_right 3 2)
  | threadStaticBase h =>
    exact agree_weaken (helper_agrees hr (.threadStaticBaseHelper h)) (Nat.le_add_right 3 2)
  | eagerConstructor h => exact agree_weaken (eagerConstructor_agrees hr h) (by decide)
  | node h => exact .pure hr h

end CompilationUnit

end NativeImage

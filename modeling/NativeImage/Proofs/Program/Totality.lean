import NativeImage.Proofs.Ending
import NativeImage.Proofs.Program.Siblings

/-!
# What a program can always answer

Interning, canonical forms and thunks never fail on existing handles of a well-formed program: an
instance finds its definition and its arguments, and a thunk is only ever put on a type whose
definition it belongs to.

## Main definitions

- `Program.ThunkOf` — thunks of a delegate definition
- `DelegateInfo.Of` — the information of a delegate definition

## Main statements

- `ProgramM.canonicalMethod_ends` — canonical forms exist
- `ProgramM.delegateInfo_ends` — so does the information of a delegate definition
- `ProgramM.methodOnType_ends` — and the counterpart of a thunk on every instance
-/

namespace NativeImage

namespace Program

variable {base p q : Program}

/-! ## Questions -/

section Questions

variable (hp : Extension base p)
include hp

theorem Extension.exists_typeSymbol {id : TypeId} (h : p.HasType id) (family : SymbolFamily) :
    ∃ name, p.typeSymbol family id = .ok name := by
  obtain ⟨name, hname, -⟩ := (TypeMatch.refl hp h).typeSymbol hp hp family
  exact ⟨name, hname⟩

theorem Extension.exists_methodName {id : MethodId} (h : p.HasMethod id) :
    ∃ name, p.methodName id = .ok name := by
  obtain ⟨name, hname, -⟩ := (MethodMatch.refl hp h).methodName hp hp
  exact ⟨name, hname⟩

theorem Extension.exists_isSharedMethod {id : MethodId} (h : p.HasMethod id) :
    ∃ answer, p.isSharedMethod id = .ok answer := by
  obtain ⟨answer, hanswer, -⟩ := (MethodMatch.refl hp h).isSharedMethod hp hp
  exact ⟨answer, hanswer⟩

/-- The definition of a type is declared. -/
theorem Extension.exists_typeDefinition {id : TypeId} (h : p.HasType id) :
    ∃ definition desc, p.typeDefinition id = .ok definition ∧
      p.typeDesc definition = .ok desc ∧ desc.origin = .declared := by
  obtain ⟨definition, desc, hd, -, hdesc, hdecl⟩ :=
    ProgramM.exists_typeDefinition ⟨hp, hp⟩ (TypeMatch.refl hp h)
  exact ⟨definition, desc, hd, typeDesc_stable _ _ _ hdesc _ hp.derives.le, hdecl⟩

end Questions

theorem hasType_lasts : Lasts HasType :=
  fun h hle => h.mono hle

/-- The method is a definition of its own on this type. -/
def ThunkOf (p : Program) (owner : TypeId) (id : MethodId) : Prop :=
  ∃ desc, p.methodDesc id = .ok desc ∧ desc.definition? = none ∧ desc.owner = owner

theorem ThunkOf.mono {owner : TypeId} {id : MethodId} (h : p.ThunkOf owner id) (hpq : p ≤ q) :
    q.ThunkOf owner id := by
  obtain ⟨desc, hd, hrest⟩ := h
  exact ⟨desc, methodDesc_stable _ _ _ hd _ hpq, hrest⟩

theorem ThunkOf.hasMethod {owner : TypeId} {id : MethodId} (h : p.ThunkOf owner id) :
    p.HasMethod id := by
  obtain ⟨desc, hd, -⟩ := h
  exact hasMethod_of_desc hd

end Program

/-- Whether the definition of a delegate gets a thunk. -/
def TypeDesc.hasThunk (definition : TypeDesc) : InvokeThunk → Bool
  | .openStatic | .closedStatic => true
  | .reverseNative => definition.nativeSignature && !definition.isGenericDefinition

/-- The information of a delegate definition with this description and arity. -/
structure DelegateInfo.Of (p : Program) (definition : TypeId) (desc : TypeDesc) (arity : Nat)
    (info : DelegateInfo) : Prop where
  invokeArity : info.invokeArity = arity
  isSome_thunk? : ∀ kind, (info.thunk? kind).isSome = desc.hasThunk kind
  thunkOf : ∀ kind id, info.thunk? kind = some id → p.ThunkOf definition id

/-- It has thunks of the definition; the one for native code is there if the signature allows it. -/
theorem DelegateInfo.Of.of_thunks {p : Program} {definition : TypeId} {desc : TypeDesc}
    {arity : Nat} {openStatic closedStatic : MethodId} {reverseNative? : Option MethodId}
    (hopen : p.ThunkOf definition openStatic) (hclosed : p.ThunkOf definition closedStatic)
    (hreverse : ∀ id, reverseNative? = some id → p.ThunkOf definition id)
    (hnative : reverseNative?.isSome = desc.hasThunk .reverseNative) :
    DelegateInfo.Of p definition desc arity
      ⟨arity, openStatic, closedStatic, reverseNative?⟩ where
  invokeArity := rfl
  isSome_thunk? kind := by
    cases kind with
    | openStatic => rfl
    | closedStatic => rfl
    | reverseNative => exact hnative
  thunkOf kind id hid := by
    cases kind with
    | openStatic =>
      cases hid
      exact hopen
    | closedStatic =>
      cases hid
      exact hclosed
    | reverseNative => exact hreverse id hid

namespace ProgramM

open Program

variable {base p : Program} {E : Program → ProgramError → Prop}

/-- A question that the program can answer may be asked first. -/
theorem ends_ask {α β : Type} {R : Program → Prop} {V : Program → β → Prop}
    {question : Program → Except ProgramError α} {a : α} {f : α → ProgramM β}
    (hx : question p = .ok a) (h : Ends R E V (f a) p) : Ends R E V (ask question >>= f) p :=
  .read (ask_eq_ok hx) h

/-! ## Interning -/

theorem internType_ends (hp : Extension base p) {definition : TypeId} {args : List TypeId}
    {original : TypeDesc} (hd : p.typeDesc definition = .ok original)
    (hdecl : original.origin = .declared) (hlen : original.genericArity = args.length)
    (hne : args ≠ []) (hargs : ∀ arg ∈ args, p.HasType arg) :
    Ends (Extension base) E (fun q id => q.HasType id) (internType definition args) p := by
  obtain ⟨id, q, hx, hq, hle, desc, hdesc, -⟩ :=
    internType_spec hp.wellFormed hd hdecl hlen hne hargs
  exact .ok hx hle.le (hp.step hq hle) (hasType_of_desc hdesc)

theorem internMethod_ends (hp : Extension base p) {definition : MethodId} {owner : TypeId}
    {args : List TypeId} {original : MethodDesc} (hd : p.methodDesc definition = .ok original)
    (hdef : original.definition? = none) (howner : p.HasType owner)
    (hargs : ∀ arg ∈ args, p.HasType arg) :
    Ends (Extension base) E (fun q id => q.HasMethod id) (internMethod definition owner args)
      p := by
  obtain ⟨id, q, hx, hq, hle, found, hfound, hinst⟩ :=
    internMethod_spec hp.wellFormed hd hdef howner hargs
  refine .ok hx hle.le (hp.step hq hle) ?_
  split at hinst
  · exact hinst ▸ hasMethod_of_desc hfound
  · obtain ⟨desc, hdesc, -⟩ := hinst
    exact hasMethod_of_desc hdesc

theorem internThunk_ends (hp : Extension base p) {owner : TypeId} {desc : TypeDesc} {arity : Nat}
    (hd : p.typeDesc owner = .ok desc) (hdecl : desc.origin = .declared)
    (harity : desc.invokeArity? = some arity) (kind : InvokeThunk) :
    Ends (Extension base) E (fun q id => q.ThunkOf owner id) (internThunk owner arity kind) p := by
  obtain ⟨id, q, hx, hq, hle, thunk, hthunk, horigin, howner⟩ :=
    internThunk_spec hp.wellFormed hd hdecl harity kind
  refine .ok hx hle.le (hp.step hq hle) ⟨thunk, hthunk, ?_, howner⟩
  rw [MethodDesc.definition?, horigin]

/-! ## Canonical forms -/

/-- The canonical form of a type exists, and so do those of its arguments, which are older. -/
theorem canonicalType_ends (hp : Extension base p) {id : TypeId} (h : p.HasType id) :
    Ends (Extension base) E (fun q id => q.HasType id) (canonicalType id) p := by
  suffices key : ∀ n {id : TypeId} {p : Program}, id.index = n → Extension base p → p.HasType id →
      Ends (Extension base) E (fun q id => q.HasType id) (canonicalType id) p from key _ rfl hp h
  clear hp h
  intro n
  -- on the handle: the arguments of an instance are older than the instance
  induction n using Nat.strongRecOn with
  | _ n ih =>
    rintro id p rfl hp h
    obtain ⟨desc, hd⟩ := hasType_iff.1 h
    rw [canonicalType]
    refine ends_ask hd ?_
    cases ho : desc.origin with
    | declared => exact .pure hp h
    | derived definition args =>
      obtain ⟨⟨original, horig, hdecl, hlen⟩, hne, -, hlt, -⟩ :=
        (hp.wellFormed.type_ok hd).derived ho
      refine (Ends.mapM (P := fun q arg => q.HasType arg ∧ arg.index < id.index)
        (U := fun q _ arg => q.HasType arg) (fun h hle => ⟨h.1.mono hle, h.2⟩)
        (fun _ => hasType_lasts) (fun {arg q} _ hq harg => ?_) hp
        fun arg ha => ⟨hp.wellFormed.hasType_arg hd ho ha, hlt arg ha⟩).bind
        fun {canonical q} hle hq hcanonical => ?_
      · obtain ⟨found, hfound⟩ := hasType_iff.1 harg.1
        refine ends_ask hfound ?_
        rw [dif_pos harg.2]
        split
        · exact ih _ harg.2 rfl hq harg.1
        · exact .pure hq (hq.hasType_canon.mono hq.derives.le)
      · split
        · exact .pure hq (h.mono hle)
        · refine internType_ends hq (typeDesc_stable _ _ _ horig _ hle) hdecl
            (hlen.trans hcanonical.length_eq) ?_ fun arg ha => ?_
          · rintro rfl
            exact hne (List.forall₂_nil_right_iff.1 hcanonical)
          · obtain ⟨-, -, htype⟩ := exists_mem_of_forall₂ hcanonical ha
            exact htype

theorem canonicalArgument_ends (hp : Extension base p) {arg : TypeId} (h : p.HasType arg) :
    Ends (Extension base) E (fun q id => q.HasType id) (canonicalArgument arg) p := by
  obtain ⟨desc, hd⟩ := hasType_iff.1 h
  refine ends_ask hd ?_
  split
  · exact canonicalType_ends hp h
  · exact .pure hp (hp.hasType_canon.mono hp.derives.le)

/-- The canonical form of a method exists. -/
theorem canonicalMethod_ends (hp : Extension base p) {id : MethodId} (h : p.HasMethod id) :
    Ends (Extension base) E (fun q id => q.HasMethod id) (canonicalMethod id) p := by
  obtain ⟨desc, hd⟩ := hasMethod_iff.1 h
  have hok := hp.wellFormed.method_ok hd
  refine ends_ask hd ?_
  cases ho : desc.origin with
  | declared => exact .pure hp h
  | thunk kind => exact .pure hp h
  | derived definition args =>
    obtain ⟨-, hargs, original, horig, hdef, -⟩ := hok.derived ho
    refine (canonicalType_ends hp hok.owner).bind fun {owner q} hle hq howner => ?_
    refine (Ends.mapM (P := HasType) (U := fun q _ arg => HasType q arg) hasType_lasts
      (fun _ => hasType_lasts) (fun _ hq harg => canonicalArgument_ends hq harg) hq
      fun arg ha => (hargs arg ha).mono hle).bind fun {canonical q'} hle' hq' hcanonical => ?_
    split
    · exact .pure hq' (h.mono (hle.trans hle'))
    · refine internMethod_ends hq' (methodDesc_stable _ _ _ horig _ (hle.trans hle')) hdef
        (howner.mono hle') fun arg ha => ?_
      obtain ⟨-, -, htype⟩ := exists_mem_of_forall₂ hcanonical ha
      exact htype

/-! ## Delegates -/

/-- A thunk has a counterpart on every type whose definition it belongs to. -/
theorem methodOnType_ends (hp : Extension base p) {id : MethodId} {type definition : TypeId}
    (h : p.ThunkOf definition id) (htype : p.HasType type)
    (hd : p.typeDefinition type = .ok definition) :
    Ends (Extension base) E (fun q id => q.HasMethod id) (methodOnType id type) p := by
  obtain ⟨desc, hdesc, hdef, rfl⟩ := h
  have hself : desc.definition?.getD id = id := by
    rw [hdef]
    rfl
  have hargs : desc.args = [] := args_of_definition?_eq_none hdef
  refine ends_ask hdesc (ends_ask (by rw [hself]; exact hdesc) (ends_ask hd ?_))
  rw [if_pos rfl, hself, hargs]
  exact internMethod_ends hp hdesc hdef htype (List.forall_mem_nil _)

/-- A delegate definition has the thunks that its signature allows. -/
theorem delegateInfo_ends (hp : Extension base p) {type definition : TypeId} {desc : TypeDesc}
    {arity : Nat} (hd : p.typeDefinition type = .ok definition)
    (hdesc : p.typeDesc definition = .ok desc) (hdecl : desc.origin = .declared)
    (harity : desc.invokeArity? = some arity) :
    Ends (Extension base) E (fun q info => info.Of q definition desc arity) (delegateInfo type)
      p := by
  refine ends_ask hd (ends_ask hdesc ?_)
  rw [harity]
  have hthunk {q : Program} (hle : p ≤ q) (hq : Extension base q) (kind : InvokeThunk) :
      Ends (Extension base) E (fun q id => q.ThunkOf definition id)
        (internThunk definition arity kind) q :=
    internThunk_ends hq (typeDesc_stable _ _ _ hdesc _ hle) hdecl harity kind
  refine (hthunk le_rfl hp .openStatic).bind fun hle₁ hq hopen => ?_
  refine (hthunk hle₁ hq .closedStatic).bind fun hle₂ hq hclosed => ?_
  dsimp only
  split
  · next hnative =>
    refine ((hthunk (hle₁.trans hle₂) hq .reverseNative).map (W := fun q id? =>
      ∃ id, id? = some id ∧ q.ThunkOf definition id) fun _ _ h => ⟨_, rfl, h⟩).bind
      fun hle₃ hq hreverse => .pure hq ?_
    obtain ⟨reverse, rfl, hreverse⟩ := hreverse
    refine .of_thunks (hopen.mono (hle₂.trans hle₃)) (hclosed.mono hle₃) (fun id hid => ?_)
      hnative.symm
    cases hid
    exact hreverse
  · next hnative =>
    refine .pure hq (.of_thunks (hopen.mono hle₂) hclosed (fun id hid => ?_)
      (Bool.eq_false_iff.2 hnative).symm)
    cases hid

end ProgramM

end NativeImage

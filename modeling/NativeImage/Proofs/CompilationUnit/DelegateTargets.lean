import NativeImage.Proofs.CompilationUnit.DelegateOutcome
import NativeImage.Proofs.CompilationUnit.DelegateSymbols
import NativeImage.Proofs.CompilationUnit.Forwarding
import NativeImage.Proofs.Program.Counterparts

/-!
# What a delegate invokes

A construction that succeeds has chosen an initializer, a target and perhaps a thunk. Here it is
shown where the choice leads: invoking the delegate runs the method it was constructed over, with
the receiver unboxed if it has to be and with the dictionary that shared code needs.

All is stated in the image that the construction has left, where the same construction is answered
again and nothing changes any more. What was asked for is known from the plan, read backwards, and
what was answered from the kinds of the nodes.

## Main definitions

- `Image.Passes` — nodes that are passed when forwarding is followed
- `Program.InvokedThrough` — the thunk through which delegates of a type are invoked
- `CompilationUnit.BindsStatic`, `CompilationUnit.BindsInstance` — what a delegate over a static
  method, or over an instance method, is constructed with

## Main statements

- `Program.WellFormed.delegateInfo_invokes` — the thunks of a definition, on its instances
- `CompilationUnit.methodEntry_passes` — where the receiver is unboxed
- `Image.Together.delegateParts_binds`
-/

namespace NativeImage

open Program Image ImageM Relation

/-! ## Nodes on the way -/

namespace NodeKind

/-- The method that is entered there, or whose instance it is. -/
def standsFor? (kind : NodeKind) : Option MethodId :=
  (kind.entry?.or kind.instance?).map MethodEntry.method

theorem standsFor?_of_entry? {kind : NodeKind} {entry : MethodEntry}
    (h : kind.entry? = some entry) : kind.standsFor? = some entry.method := by
  rw [standsFor?, h]
  rfl

theorem entry?_of_instance? {kind : NodeKind} {entry : MethodEntry}
    (h : kind.instance? = some entry) : kind.entry? = none := by
  cases kind <;> first | rfl | cases h

theorem standsFor?_of_instance? {kind : NodeKind} {entry : MethodEntry}
    (h : kind.instance? = some entry) : kind.standsFor? = some entry.method := by
  rw [standsFor?, entry?_of_instance? h, h]
  rfl

/-- An entry unboxes receivers of its own method, if it is entered so. -/
theorem unboxes?_of_entry? {kind : NodeKind} {entry : MethodEntry} (h : kind.entry? = some entry) :
    kind.unboxes? = if entry.unboxing then some entry.method else none := by
  cases kind with
  | methodCode entry | externMethod entry =>
    cases h
    obtain ⟨method, unboxing⟩ := entry
    cases unboxing <;> rfl
  | runtimeImport method =>
    cases h
    rfl
  | unboxingStub method target =>
    cases h
    rfl
  | _ => cases h

theorem unboxes?_of_instance? {kind : NodeKind} {entry : MethodEntry}
    (h : kind.instance? = some entry) : kind.unboxes? = none := by
  cases kind <;> first | rfl | cases h

end NodeKind

namespace Image

variable {s : Image} {id : NodeId} {x : Node} {P : NodeKind → Prop}

/-- Whoever follows the node comes to one of such a kind, or is there already. -/
def Passes (s : Image) (id : NodeId) (P : NodeKind → Prop) : Prop :=
  ∃ mid y, ReflTransGen s.Forwards id mid ∧ s.nodes[mid.index]? = some y ∧ P y.kind

theorem passes_iff (hx : s.nodes[id.index]? = some x) :
    s.Passes id P ↔ P x.kind ∨ ∃ target, x.kind.forward? = some target ∧ s.Passes target P := by
  constructor
  · rintro ⟨mid, y, hreach, hy, hP⟩
    rcases ReflTransGen.cases_head hreach with rfl | ⟨target, ⟨z, hz, hforward⟩, hrest⟩
    · cases hx.symm.trans hy
      exact .inl hP
    · cases hx.symm.trans hz
      exact .inr ⟨target, hforward, mid, y, hrest, hy, hP⟩
  · rintro (hP | ⟨target, hforward, mid, y, hrest, hy, hP⟩)
    · exact ⟨id, x, .refl, hx, hP⟩
    · exact ⟨mid, y, .head ⟨x, hx, hforward⟩ hrest, hy, hP⟩

/-- The node is an entry of the method. -/
def IsEntry (s : Image) (id : NodeId) (entry : MethodEntry) : Prop :=
  ∃ x, s.nodes[id.index]? = some x ∧ x.kind.entry? = some entry

/-- The node is the shadow of the method. -/
def IsShadow (s : Image) (id : NodeId) (entry : MethodEntry) : Prop :=
  ∃ x code, s.nodes[id.index]? = some x ∧ x.kind = .shadowMethod entry code

/-- The node is the fat pointer of the method, and carries the dictionary of this very method. -/
def IsFatPointer (s : Image) (id : NodeId) (entry : MethodEntry) : Prop :=
  ∃ x code dictionary y, s.nodes[id.index]? = some x ∧
    x.kind = .fatPointer entry code dictionary ∧ s.nodes[dictionary.index]? = some y ∧
    y.kind = .dictionaryLayout (.method entry.method)

/-! A node is only one of these. -/

theorem IsEntry.not_isShadow {entry : MethodEntry} (h : s.IsEntry id entry) (other : MethodEntry) :
    ¬ s.IsShadow id other := by
  obtain ⟨x, hx, hentry⟩ := h
  rintro ⟨y, code, hy, hkind⟩
  cases hx.symm.trans hy
  rw [hkind] at hentry
  cases hentry

theorem IsEntry.not_isFatPointer {entry : MethodEntry} (h : s.IsEntry id entry)
    (other : MethodEntry) : ¬ s.IsFatPointer id other := by
  obtain ⟨x, hx, hentry⟩ := h
  rintro ⟨y, code, dictionary, -, hy, hkind, -⟩
  cases hx.symm.trans hy
  rw [hkind] at hentry
  cases hentry

theorem IsShadow.not_isFatPointer {entry : MethodEntry} (h : s.IsShadow id entry)
    (other : MethodEntry) : ¬ s.IsFatPointer id other := by
  obtain ⟨x, code, hx, hshadow⟩ := h
  rintro ⟨y, code', dictionary, -, hy, hkind, -⟩
  cases hx.symm.trans hy
  cases hshadow.symm.trans hkind

end Image

namespace CompilationUnit

variable {unit : CompilationUnit} {base : Program} {s t : Image} {id : NodeId} {x : Node}
  {method entered form : MethodId} {entry : MethodEntry}

/-- An entry that forwards is a stub in front of the plain entry. -/
theorem methodEntry_target (hx : s.nodes[id.index]? = some x) (hentry : x.kind.entry? = some entry)
    (h : unit.methodEntry entry s = .ok id s) {target : NodeId}
    (hforward : x.kind.forward? = some target) :
    entry.unboxing = true ∧ unit.plainEntry entry.method s = .ok target s := by
  obtain ⟨-, hbody | ⟨hunboxing, other, hkind⟩⟩ := NodeKind.body_or_stub hentry
  · rw [NodeKind.forward?_of_body? hbody] at hforward
    cases hforward
  · rw [hkind] at hforward
    cases hforward
    rw [methodEntry, if_pos hunboxing] at h
    exact ⟨hunboxing, unboxingStub_target hx hkind h⟩

theorem plainEntry_not_passes (h : unit.plainEntry method s = .ok id s) :
    ¬ s.Passes id (·.unboxes? = some entered) := by
  obtain ⟨x, hx, hentry⟩ := plainEntry_kind h
  rw [passes_iff hx, NodeKind.unboxes?_of_entry? hentry]
  rintro (hnone | ⟨target, hforward, -⟩)
  · cases hnone
  · cases (methodEntry_target hx hentry h hforward).1

/-- Receivers are unboxed on the way from an entry if it is asked for as an unboxing one, and only
for the method itself. -/
theorem methodEntry_passes (h : unit.methodEntry entry s = .ok id s) :
    s.Passes id (·.unboxes? = some entered) ↔
      entry.unboxing = true ∧ entered = entry.method := by
  obtain ⟨x, hx, hentry⟩ := methodEntry_kind h
  rw [passes_iff hx, NodeKind.unboxes?_of_entry? hentry]
  constructor
  · rintro (hhere | ⟨target, hforward, hrest⟩)
    · split at hhere
      · next hunboxing => exact ⟨hunboxing, (Option.some_inj.1 hhere).symm⟩
      · cases hhere
    · exact absurd hrest (plainEntry_not_passes (methodEntry_target hx hentry h hforward).2)
  · rintro ⟨hunboxing, rfl⟩
    exact .inl (if_pos hunboxing)

/-- Who follows an instance follows the entry of its canonical form. -/
theorem instance_follows (hx : s.nodes[id.index]? = some x)
    (hinstance : x.kind.instance? = some entry) {target : NodeId}
    (hforward : x.kind.forward? = some target)
    (h : unit.methodEntry ⟨form, entry.unboxing⟩ s = .ok target s) :
    LeadsTo s id form ∧ ∀ entered, s.Passes id (·.unboxes? = some entered) ↔
      entry.unboxing = true ∧ entered = form := by
  constructor
  · obtain ⟨⟨last, y, hreach, hy, hbody⟩, -⟩ := methodEntry_leads h
    exact ⟨last, y, .head ⟨x, hx, hforward⟩ hreach, hy, hbody⟩
  · intro entered
    rw [passes_iff hx, NodeKind.unboxes?_of_instance? hinstance, ← methodEntry_passes h]
    simp [hforward]

theorem isEntry_of_methodEntry (h : unit.methodEntry entry s = .ok id t) : t.IsEntry id entry :=
  methodEntry_kind h

theorem isShadow_of_shadowMethod (h : unit.shadowMethod entry s = .ok id t) :
    t.IsShadow id entry :=
  shadowMethod_kind h

theorem isFatPointer_of_fatPointer (h : unit.fatPointer entry s = .ok id t) :
    t.IsFatPointer id entry := by
  obtain ⟨x, code, dictionary, hx, hkind⟩ := fatPointer_kind h
  have hagain := (unit.fatPointer_settles entry).repeat_self h
  obtain ⟨-, -, -, hdictionary⟩ := fatPointer_target hx hkind hagain
  obtain ⟨y, hy, hlayout⟩ := kind_of_ask (.dictionaryLayout _) (fun _ => rfl) hdictionary
  exact ⟨x, code, dictionary, y, hx, hkind, hy, hlayout⟩

/-- Different methods have different entries. -/
theorem plainEntry_inj {other : MethodId} (h : unit.plainEntry method s = .ok id s)
    (h' : unit.plainEntry other s = .ok id s) : method = other := by
  obtain ⟨x, hx, hentry⟩ := plainEntry_kind h
  obtain ⟨y, hy, hentry'⟩ := plainEntry_kind h'
  cases hx.symm.trans hy
  cases hentry.symm.trans hentry'
  rfl

end CompilationUnit

/-! ## Thunks -/

/-- The initializer for static targets that are invoked through such a thunk. -/
def InvokeThunk.initializer : InvokeThunk → Initializer
  | openStatic => .openStatic
  | closedStatic => .closedStatic
  | reverseNative => .reverseNative

namespace Program

variable {p : Program} {type : TypeId} {info : DelegateInfo} {kind : InvokeThunk}
  {definition thunk : MethodId}

/-- Delegates of the type are invoked through this thunk: it is on the type itself, and the
definition of the type has it as its own thunk of the kind. -/
def InvokedThrough (p : Program) (type : TypeId) (kind : InvokeThunk) (thunk : MethodId) : Prop :=
  ∃ definition original, p.methodDesc definition = .ok original ∧ original.origin = .thunk kind ∧
    p.typeDefinition type = .ok original.owner ∧ p.Counterpart definition thunk type []

/-- The information of a delegate type is that of its definition. -/
theorem WellFormed.delegateInfo_of (hp : p.WellFormed)
    (h : ProgramM.delegateInfo type p = .ok info p) :
    ∃ home desc, p.typeDefinition type = .ok home ∧ p.typeDesc home = .ok desc ∧
      desc.invokeArity? = some info.invokeArity ∧ info.Of p home desc info.invokeArity := by
  obtain ⟨home, hhome, hrest⟩ := ProgramM.ask_bind_eq_ok.1 h
  obtain ⟨desc, hdesc, hrest⟩ := ProgramM.ask_bind_eq_ok.1 hrest
  cases harity : desc.invokeArity? with
  | none =>
    rw [harity] at hrest
    cases hrest
  | some arity =>
    have hself : Extension p p := .refl hp
    obtain ⟨own, hown, -⟩ := typeDefinition_eq_ok.1 hhome
    obtain ⟨home', desc', hhome', hdesc', hdecl⟩ :=
      hself.exists_typeDefinition (hasType_of_desc hown)
    cases hhome.symm.trans hhome'
    cases hdesc.symm.trans hdesc'
    cases ProgramM.delegateInfo_ends (E := fun _ _ => False) hself hhome hdesc hdecl harity with
    | error _ _ _ hfalse => exact hfalse.elim
    | ok hx _ _ hof =>
      cases hx.symm.trans h
      cases hof.invokeArity
      exact ⟨home, desc, hhome, hdesc, harity, hof⟩

/-- A type without arguments is its own definition. -/
theorem WellFormed.typeDefinition_of_args_nil (hp : p.WellFormed) {desc : TypeDesc}
    (hd : p.typeDesc type = .ok desc) (hargs : desc.args = []) :
    p.typeDefinition type = .ok type := by
  refine typeDefinition_eq_ok.2 ⟨desc, hd, ?_⟩
  rw [TypeDesc.definition?]
  cases ho : desc.origin with
  | declared => rfl
  | derived definition args =>
    rw [TypeDesc.args, ho] at hargs
    exact absurd hargs ((hp.type_ok hd).derived ho).2.1

/-- A thunk of the definition, put on the type, is the one that its delegates are invoked
through. -/
theorem WellFormed.delegateInfo_invokes (hp : p.WellFormed)
    (hinfo : ProgramM.delegateInfo type p = .ok info p) (hid : info.thunk? kind = some definition)
    (hon : CompilationUnit.ThunkOn p type definition thunk) :
    p.InvokedThrough type kind thunk := by
  obtain ⟨home, desc, hhome, -, -, hof⟩ := hp.delegateInfo_of hinfo
  obtain ⟨original, horig, hkind⟩ := ProgramM.delegateInfo_thunk hinfo hid
  obtain ⟨original', horig', hnone, rfl⟩ := hof.thunkOf kind definition hid
  cases horig.symm.trans horig'
  have hargs : original.args = [] := args_of_definition?_eq_none hnone
  refine ⟨definition, original, horig, hkind, hhome, ?_⟩
  obtain ⟨own, hown, ⟨hnil, rfl⟩ | ⟨-, hx⟩⟩ := hon
  · -- the definition's own delegates are invoked through its own thunk
    cases hhome.symm.trans (hp.typeDefinition_of_args_nil hown hnil)
    exact hargs ▸ Counterpart.refl horig
  · exact hargs ▸ (ProgramM.methodOnType_reaches hp horig (hasType_of_desc hown)).counterpart hx

end Program

/-! ## What delegates are constructed with -/

namespace CompilationUnit

/-- A delegate over a static method is invoked through a thunk of its type, whose kind follows from
the arities and from whether native code calls the method, and enters the method plainly. -/
structure BindsStatic (unit : CompilationUnit) (s : Image) (type : TypeId) (method : MethodId)
    (desc : MethodDesc) (invoke : Nat) (kind : InvokeThunk) (parts : DelegateParts) : Prop where
  closed : kind = .closedStatic ↔ desc.callArity = invoke + 1
  native : kind = .reverseNative ↔ desc.callArity = invoke ∧ desc.isNativeCallable = true
  opened : kind = .openStatic ↔ desc.callArity = invoke ∧ desc.isNativeCallable = false
  initializer : unit.plainEntry kind.initializer.method s = .ok parts.initializer s
  target : unit.plainEntry method s = .ok parts.target s
  thunk : ∃ thunk entry, s.program.InvokedThrough type kind thunk ∧
    unit.plainEntry thunk s = .ok entry s ∧ parts.thunk? = some entry

/-- A delegate over an instance method leads its receiver to the code of the method's canonical
form, unboxes it on the way if that is needed, and supplies the method's own dictionary if the form
cannot tell it from the receiver. -/
structure BindsInstance (unit : CompilationUnit) (s : Image) (entry : MethodEntry)
    (desc : MethodDesc) (form : MethodId) (parts : DelegateParts) : Prop where
  leads : LeadsTo s parts.target form
  unboxes : ∀ entered, s.Passes parts.target (·.unboxes? = some entered) ↔
    entry.unboxing = true ∧ entered = form
  itself : s.IsEntry parts.target entry ↔ entry.method = form
  shadow : s.IsShadow parts.target entry ↔ desc.args = [] ∧ entry.method ≠ form
  fatPointer : s.IsFatPointer parts.target entry ↔ desc.args ≠ [] ∧ entry.method ≠ form
  usual : unit.plainEntry Initializer.closedInstance.method s = .ok parts.initializer s ↔
    ¬ (desc.args ≠ [] ∧ entry.method ≠ form)
  slow : unit.plainEntry Initializer.closedInstanceSlow.method s = .ok parts.initializer s ↔
    desc.args ≠ [] ∧ entry.method ≠ form

variable {unit : CompilationUnit} {base : Program} {s t : Image} {type : TypeId}
  {method form : MethodId} {entry : MethodEntry} {desc : MethodDesc} {parts : DelegateParts}

namespace BoundThrough

/-- The target stands for the method. -/
theorem standsFor (h : unit.BoundThrough s entry desc form parts) :
    ∃ x, s.nodes[parts.target.index]? = some x ∧ x.kind.standsFor? = some entry.method := by
  cases h with
  | itself _ _ htarget =>
    obtain ⟨x, hx, hentry⟩ := methodEntry_kind htarget
    exact ⟨x, hx, NodeKind.standsFor?_of_entry? hentry⟩
  | shadow _ _ _ htarget =>
    obtain ⟨x, code, hx, hkind⟩ := shadowMethod_kind htarget
    exact ⟨x, hx, NodeKind.standsFor?_of_instance? (by rw [hkind]; rfl)⟩
  | fatPointer _ _ _ htarget =>
    obtain ⟨x, code, dictionary, hx, hkind⟩ := fatPointer_kind htarget
    exact ⟨x, hx, NodeKind.standsFor?_of_instance? (by rw [hkind]; rfl)⟩

/-- Who follows the target enters the canonical form, and is unboxed as the target is. -/
theorem follows {cached : List (CacheKey × NodeId)}
    (hc : CachedImage.Consistent unit base ⟨s, cached⟩)
    (hform : ProgramM.canonicalMethod entry.method s.program = .ok form s.program)
    (h : unit.BoundThrough s entry desc form parts) :
    LeadsTo s parts.target form ∧ ∀ entered, s.Passes parts.target (·.unboxes? = some entered) ↔
      entry.unboxing = true ∧ entered = form := by
  have hinstance {x : Node} (hx : s.nodes[parts.target.index]? = some x)
      (hkind : x.kind.instance? = some entry) :
      LeadsTo s parts.target form ∧ ∀ entered,
        s.Passes parts.target (·.unboxes? = some entered) ↔
          entry.unboxing = true ∧ entered = form := by
    obtain ⟨form', target, hform', hforward, htarget⟩ := instance_forwards hc hx hkind
    cases hform.symm.trans hform'
    exact instance_follows hx hkind hforward htarget
  cases h with
  | itself hself _ htarget =>
    subst hself
    exact ⟨(methodEntry_leads htarget).1, fun _ => methodEntry_passes htarget⟩
  | shadow _ _ _ htarget =>
    obtain ⟨x, code, hx, hkind⟩ := shadowMethod_kind htarget
    exact hinstance hx (by rw [hkind]; rfl)
  | fatPointer _ _ _ htarget =>
    obtain ⟨x, code, dictionary, hx, hkind⟩ := fatPointer_kind htarget
    exact hinstance hx (by rw [hkind]; rfl)

/-- The target and the initializer tell which of the three ways it is. -/
theorem binds {cached : List (CacheKey × NodeId)}
    (hc : CachedImage.Consistent unit base ⟨s, cached⟩)
    (hform : ProgramM.canonicalMethod entry.method s.program = .ok form s.program)
    (h : unit.BoundThrough s entry desc form parts) :
    unit.BindsInstance s entry desc form parts := by
  obtain ⟨hleads, hunboxes⟩ := h.follows hc hform
  have hroutines (hslow : unit.plainEntry Initializer.closedInstanceSlow.method s =
      .ok parts.initializer s) :
      unit.plainEntry Initializer.closedInstance.method s ≠ .ok parts.initializer s := fun husual =>
    absurd (plainEntry_inj hslow husual) (by decide)
  cases h with
  | itself hself husual htarget =>
    have hentry := isEntry_of_methodEntry htarget
    have hshadow := hentry.not_isShadow entry
    have hfat := hentry.not_isFatPointer entry
    refine ⟨hleads, hunboxes, ?_, ?_, ?_, ?_, ?_⟩ <;> tauto
  | shadow hother hargs husual htarget =>
    have hshadow := isShadow_of_shadowMethod htarget
    have hentry := fun hentry : s.IsEntry parts.target entry => hentry.not_isShadow entry hshadow
    have hfat := hshadow.not_isFatPointer entry
    refine ⟨hleads, hunboxes, ?_, ?_, ?_, ?_, ?_⟩ <;> tauto
  | fatPointer hother hargs hslow htarget =>
    have hfat := isFatPointer_of_fatPointer htarget
    have hentry := fun hentry : s.IsEntry parts.target entry =>
      hentry.not_isFatPointer entry hfat
    have hshadow := fun hshadow : s.IsShadow parts.target entry =>
      hshadow.not_isFatPointer entry hfat
    refine ⟨hleads, hunboxes, ?_, ?_, ?_, ?_, ?_⟩ <;> tauto

end BoundThrough

/-- The kind of thunk for a static target, and the initializer that goes with it. -/
theorem staticRoutines_kind {invoke call : Nat} {binding : Binding}
    (h : Binding.ofArities? invoke call = some binding) (nativeCallable : Bool) :
    (staticRoutines binding nativeCallable).1 =
        (staticRoutines binding nativeCallable).2.initializer ∧
      ((staticRoutines binding nativeCallable).2 = .closedStatic ↔ call = invoke + 1) ∧
      ((staticRoutines binding nativeCallable).2 = .reverseNative ↔
        call = invoke ∧ nativeCallable = true) ∧
      ((staticRoutines binding nativeCallable).2 = .openStatic ↔
        call = invoke ∧ nativeCallable = false) := by
  cases binding with
  | closed =>
    obtain rfl := DelegateSubject.ofArities?_eq_closed.1 h
    simp [staticRoutines, InvokeThunk.initializer]
  | opened =>
    obtain rfl := DelegateSubject.ofArities?_eq_opened.1 h
    cases nativeCallable <;> simp [staticRoutines, InvokeThunk.initializer]

/-- The target of a construction stands for the method that it is over. -/
theorem delegateParts_standsFor (h : unit.delegateParts type method s = .ok parts t) :
    ∃ x, t.nodes[parts.target.index]? = some x ∧ x.kind.standsFor? = some method := by
  cases delegateParts_made ((unit.delegateParts_settles type method).repeat_self h) with
  | static _ _ _ _ _ _ _ htarget =>
    obtain ⟨x, hx, hentry⟩ := plainEntry_kind htarget
    exact ⟨x, hx, NodeKind.standsFor?_of_entry? hentry⟩
  | bound _ _ _ _ _ _ hbound => exact hbound.standsFor

/-- Constructions over different methods have different targets, also if one comes long after the
other. -/
theorem delegateParts_distinct {u v : Image} {type' : TypeId} {method' : MethodId}
    {parts' : DelegateParts} (hx : unit.delegateParts type method s = .ok parts t) (hle : t ≤ u)
    (hx' : unit.delegateParts type' method' u = .ok parts' v)
    (hsame : parts'.target = parts.target) : method' = method := by
  obtain ⟨x, hnode, hstands⟩ := delegateParts_standsFor hx
  obtain ⟨y, hnode', hstands'⟩ := delegateParts_standsFor hx'
  have hlast := hle.trans ((unit.delegateParts_settles type' method').grows hx')
  rw [hsame] at hnode'
  cases (hlast.nodes _ _ hnode).symm.trans hnode'
  exact Option.some_inj.1 (hstands'.symm.trans hstands)

end CompilationUnit

open CompilationUnit

/-- A unit that has constructed a delegate is in an image that it can come to. -/
theorem Image.Together.delegateParts {unit other : CompilationUnit} {s t u : Image}
    (h : Together unit other s t) {type : TypeId} {method : MethodId} {parts : DelegateParts}
    (hx : unit.delegateParts type method s = .ok parts u) :
    Together unit other u { t with program := u.program } := by
  have hv : FactoryCall.Valid s.program (.delegateParts type method) := nofun
  have hcall := h.call hv
  rwa [FactoryCall.run, stateAfter_discard, stateAfter, hx] at hcall

/-- A delegate that is constructed over a method has a thunk exactly if the method is static. The
thunk is then the entry of a thunk on the type itself, of the kind that the arities and native calls
ask for, and the target is the plain entry of the method. An instance method is bound to a target
that leads to the code of its canonical form, through an unboxing entry exactly if its owner is a
value type. The target is a fat pointer with the method's own dictionary exactly if the method has
arguments and is not its canonical form, and only then the initializer looks for a fat pointer; it
is a shadow exactly if the method has no arguments and is not its canonical form. Targets of
different methods differ, also if other calls lie between. -/
theorem Image.Together.delegateParts_binds {unit other : CompilationUnit} {s t u : Image}
    (h : Together unit other s t) {type : TypeId} {method : MethodId} {parts : DelegateParts}
    (hx : unit.delegateParts type method s = .ok parts u) :
    ∃ desc home definition invoke, u.program.methodDesc method = .ok desc ∧
      u.program.typeDefinition type = .ok home ∧ u.program.typeDesc home = .ok definition ∧
      definition.invokeArity? = some invoke ∧
      (parts.thunk?.isSome = true ↔ desc.isStatic = true) ∧
      (desc.isStatic = true → ∃ kind, unit.BindsStatic u type method desc invoke kind parts) ∧
      (desc.isStatic = false → desc.callArity = invoke + 1 ∧
        ∃ owner form, u.program.typeDesc desc.owner = .ok owner ∧
          ProgramM.canonicalMethod method u.program = .ok form u.program ∧
          unit.BindsInstance u ⟨method, owner.isValueType⟩ desc form parts) ∧
      ∀ (type' : TypeId) (method' : MethodId) (parts' : DelegateParts) (v w : Image), u ≤ v →
        unit.delegateParts type' method' v = .ok parts' w → parts'.target = parts.target →
        method' = method := by
  have hu := h.delegateParts hx
  have hp := hu.reachable.wellFormed
  obtain ⟨base, cached, hcached⟩ := hu.byCaches
  cases delegateParts_made ((unit.delegateParts_settles type method).repeat_self hx) with
  | @static desc info binding _ thunk entry hd hinfo hstatic hbinding hdefinition hon hinitializer
      htarget hentry hthunk =>
    obtain ⟨home, definition, hhome, hdefinition', hinvoke, -⟩ := hp.delegateInfo_of hinfo
    obtain ⟨hroutine, hclosed, hnative, hopened⟩ :=
      staticRoutines_kind hbinding desc.isNativeCallable
    have hinvoked := hp.delegateInfo_invokes hinfo hdefinition hon
    refine ⟨desc, home, definition, info.invokeArity, hd, hhome, hdefinition', hinvoke, ?_, ?_, ?_,
      fun _ _ _ _ _ => delegateParts_distinct hx⟩
    · simp [hthunk, hstatic]
    · exact fun _ => ⟨_, hclosed, hnative, hopened, hroutine ▸ hinitializer, htarget, thunk, entry,
        hinvoked, hentry, hthunk⟩
    · intro hinstance
      cases hstatic.symm.trans hinstance
  | @bound desc info owner form hd hinfo hinstance hbinding howner hform hbound hthunk =>
    obtain ⟨home, definition, hhome, hdefinition, hinvoke, -⟩ := hp.delegateInfo_of hinfo
    refine ⟨desc, home, definition, info.invokeArity, hd, hhome, hdefinition, hinvoke, ?_, ?_, ?_,
      fun _ _ _ _ _ => delegateParts_distinct hx⟩
    · simp [hthunk, hinstance]
    · intro hstatic
      cases hstatic.symm.trans hinstance
    · exact fun _ => ⟨DelegateSubject.ofArities?_eq_closed.1 hbinding, owner, form, howner, hform,
        hbound.binds hcached.consistent hform⟩

/-- Handlers of texts, a static method that takes a text, and a generic method of optional values
with an instance on optional texts. -/
def handlers : Program :=
  collections.after [
    .declareType { name := "Handler", module := .core, kind := .delegate 1, genericArity := 1 },
    .declareMethod { name := "Notify", owner := ⟨5⟩, isStatic := true, paramCount := 1 },
    .declareMethod { name := "Or", owner := ⟨3⟩, paramCount := 1, genericArity := 1 },
    .intern (.instantiateType ⟨10⟩ [⟨5⟩]),
    .intern (.methodOnType ⟨11⟩ ⟨6⟩),
    .intern (.instantiateMethod ⟨12⟩ [⟨5⟩])]

theorem handlers_reachable : handlers.Reachable := collections_reachable.after (by decide +kernel)

/-- A handler of texts is invoked through its own thunk when it is constructed over the static
method, and has a fat pointer that unboxes its receiver when it is constructed over the instance. -/
theorem handlers_bind_targets :
    (∃ parts u thunk entry, completeUnit.delegateParts ⟨11⟩ ⟨10⟩
        (.initial completeUnit.config handlers) = .ok parts u ∧
      u.program.InvokedThrough ⟨11⟩ .openStatic thunk ∧
      completeUnit.plainEntry thunk u = .ok entry u ∧ parts.thunk? = some entry) ∧
    ∃ parts u form, completeUnit.delegateParts ⟨11⟩ ⟨13⟩
        (.initial completeUnit.config handlers) = .ok parts u ∧
      form ≠ ⟨13⟩ ∧ LeadsTo u parts.target form ∧
      u.Passes parts.target (·.unboxes? = some form) ∧
      u.IsFatPointer parts.target ⟨⟨13⟩, true⟩ := by
  have hstart := Together.initial completeUnit completeUnit handlers_reachable
  constructor
  · have hsucceeds : succeedsWith (fun _ (u : Image) =>
        decide ((∃ desc, u.program.methodDesc ⟨10⟩ = .ok desc ∧
          desc.isStatic = true ∧ desc.callArity = 1 ∧ desc.isNativeCallable = false) ∧
        (∃ home, u.program.typeDefinition ⟨11⟩ = .ok home ∧ home = ⟨10⟩) ∧
        ∃ desc, u.program.typeDesc ⟨10⟩ = .ok desc ∧ desc.invokeArity? = some 1))
        (completeUnit.delegateParts ⟨11⟩ ⟨10⟩ (.initial completeUnit.config handlers)) = true := by
      decide +kernel
    obtain ⟨parts, u, hx, hfacts⟩ := exists_ok_of_succeedsWith hsucceeds
    obtain ⟨⟨desc, hd, hstatic, harity, hnative⟩, ⟨home, hhome, rfl⟩, definition, hdefinition,
      hinvoke⟩ := of_decide_eq_true hfacts
    obtain ⟨desc', home', definition', invoke, hd', hhome', hdefinition', hinvoke', -, hbinds, -⟩ :=
      Together.delegateParts_binds hstart hx
    cases hd.symm.trans hd'
    cases hhome.symm.trans hhome'
    cases hdefinition.symm.trans hdefinition'
    cases hinvoke.symm.trans hinvoke'
    obtain ⟨kind, hkind⟩ := hbinds hstatic
    obtain rfl := hkind.opened.2 ⟨harity, hnative⟩
    obtain ⟨thunk, entry, hthunk, hentry, hparts⟩ := hkind.thunk
    exact ⟨parts, u, thunk, entry, hx, hthunk, hentry, hparts⟩
  · have hsucceeds : succeedsWith (fun _ (u : Image) =>
        decide ((∃ desc, u.program.methodDesc ⟨13⟩ = .ok desc ∧
          desc.isStatic = false ∧ desc.args ≠ [] ∧
          ∃ owner, u.program.typeDesc desc.owner = .ok owner ∧ owner.isValueType = true) ∧
        ∃ form q, ProgramM.canonicalMethod ⟨13⟩ u.program = .ok form q ∧ form ≠ ⟨13⟩))
        (completeUnit.delegateParts ⟨11⟩ ⟨13⟩ (.initial completeUnit.config handlers)) = true := by
      decide +kernel
    obtain ⟨parts, u, hx, hfacts⟩ := exists_ok_of_succeedsWith hsucceeds
    obtain ⟨⟨desc, hd, hinstance, hargs, owner, howner, hvalue⟩, form, q, hform, hother⟩ :=
      of_decide_eq_true hfacts
    obtain ⟨desc', home, definition, invoke, hd', -, -, -, -, -, hbinds, -⟩ :=
      Together.delegateParts_binds hstart hx
    cases hd.symm.trans hd'
    obtain ⟨-, owner', form', howner', hform', hbound⟩ := hbinds hinstance
    cases howner.symm.trans howner'
    cases hform.symm.trans hform'
    rw [hvalue] at hbound
    exact ⟨parts, u, form, hx, hother, hbound.leads, (hbound.unboxes form).2 ⟨rfl, rfl⟩,
      hbound.fatPointer.2 ⟨hargs, hother.symm⟩⟩

end NativeImage

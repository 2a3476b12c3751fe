import NativeImage.Proofs.Program.MethodSharing

/-!
# Homes of methods

The home of a method is the definition of its owner. However a method instance comes about, its home
is that of its definition: arguments are added on the same owner, and a method is moved only between
a definition and its instances.

## Main definitions

- `Program.AtHome` — method instances have the home of their definition

## Main statements

- `Program.Reachable.atHome` — so it is in all programs that can be built
-/

namespace NativeImage

namespace Program

variable {p q : Program}

/-- A type definition is its own definition. -/
theorem WellFormed.typeDefinition_idem (hp : p.WellFormed) {id home : TypeId}
    (h : p.typeDefinition id = .ok home) : p.typeDefinition home = .ok home := by
  obtain ⟨desc, hd, -⟩ := typeDefinition_eq_ok.1 h
  obtain ⟨home', found, h', hf, hdecl⟩ :=
    (Extension.refl hp).exists_typeDefinition (hasType_of_desc hd)
  cases h.symm.trans h'
  refine typeDefinition_eq_ok.2 ⟨found, hf, ?_⟩
  rw [TypeDesc.definition?, hdecl]
  rfl

/-- The types are instances of one definition, or that definition. -/
def SameHome (p : Program) (x y : TypeId) : Prop :=
  ∃ home, p.typeDefinition x = .ok home ∧ p.typeDefinition y = .ok home

theorem SameHome.mono {x y : TypeId} (h : p.SameHome x y) (hpq : p ≤ q) : q.SameHome x y := by
  obtain ⟨home, hx, hy⟩ := h
  exact ⟨home, typeDefinition_stable _ _ _ hx _ hpq, typeDefinition_stable _ _ _ hy _ hpq⟩

theorem WellFormed.sameHome_refl (hp : p.WellFormed) {x : TypeId} (h : p.HasType x) :
    p.SameHome x x := by
  obtain ⟨home, -, hx, -⟩ := (Extension.refl hp).exists_typeDefinition h
  exact ⟨home, hx, hx⟩

theorem SameHome.symm {x y : TypeId} (h : p.SameHome x y) : p.SameHome y x := by
  obtain ⟨home, hx, hy⟩ := h
  exact ⟨home, hy, hx⟩

theorem SameHome.trans {x y z : TypeId} (h : p.SameHome x y) (h' : p.SameHome y z) :
    p.SameHome x z := by
  obtain ⟨home, hx, hy⟩ := h
  obtain ⟨home', hy', hz⟩ := h'
  cases hy.symm.trans hy'
  exact ⟨home, hx, hz⟩

/-- Method instances have the home of their definition. -/
def AtHome (p : Program) : Prop :=
  ∀ id definition owner args, p.DerivedMethod id definition owner args → ∃ original,
    p.methodDesc definition = .ok original ∧ p.SameHome owner original.owner

/-- A method has the home of its definition, or of itself. -/
theorem AtHome.original (h : p.AtHome) (hp : p.WellFormed) {id : MethodId}
    {desc original : MethodDesc} (hd : p.methodDesc id = .ok desc)
    (horig : p.methodDesc (desc.definition?.getD id) = .ok original) :
    p.SameHome desc.owner original.owner := by
  cases hdef : desc.definition? with
  | none =>
    rw [hdef] at horig
    cases hd.symm.trans horig
    exact hp.sameHome_refl (hp.method_ok hd).owner
  | some definition =>
    rw [hdef] at horig
    obtain ⟨found, hf, hhome⟩ := h _ _ _ _ (.of_definition hd hdef)
    cases hf.symm.trans horig
    exact hhome

/-- Types may be added. -/
theorem AtHome.of_methods (h : p.AtHome) (hpq : p ≤ q) (hmethods : q.methods = p.methods) :
    q.AtHome := by
  intro id definition owner args ⟨desc, hd, ho⟩
  have hdesc (id : MethodId) : q.methodDesc id = p.methodDesc id := by
    rw [methodDesc, methodDesc, hmethods]
  obtain ⟨original, horig, hhome⟩ := h _ _ _ _ ⟨desc, (hdesc id).symm.trans hd, ho⟩
  exact ⟨original, (hdesc definition).trans horig, hhome.mono hpq⟩

/-- So may definitions, and instances that have the home of theirs. -/
theorem AtHome.pushMethod (h : p.AtHome) {desc : MethodDesc}
    (hdesc : ∀ {definition args}, desc.origin = .derived definition args → ∃ original,
      p.methodDesc definition = .ok original ∧ p.SameHome desc.owner original.owner) :
    AtHome { p with methods := p.methods.push desc } := by
  have hle := ProgramM.le_pushMethod p desc
  rintro id definition owner args ⟨found, hf, ho, rfl⟩
  suffices hold : ∃ original, p.methodDesc definition = .ok original ∧
      p.SameHome found.owner original.owner by
    obtain ⟨original, horig, hhome⟩ := hold
    exact ⟨original, methodDesc_stable _ _ _ horig _ hle, hhome.mono hle⟩
  rcases methodDesc_push.1 hf with hold | ⟨-, rfl⟩
  · exact h _ _ _ _ ⟨found, hold, ho, rfl⟩
  · exact hdesc ho

end Program

namespace ProgramM

open Program

variable {p q : Program}

theorem internMethod_atHome (h : p.AtHome) {definition id : MethodId} {owner : TypeId}
    {args : List TypeId} {original : MethodDesc} (hd : p.methodDesc definition = .ok original)
    (hhome : p.SameHome owner original.owner)
    (hx : internMethod definition owner args p = .ok id q) : q.AtHome := by
  rcases internMethod_cases hd hx with rfl | ⟨-, desc, ho, rfl, rfl⟩
  · exact h
  · refine h.pushMethod fun ho' => ?_
    cases ho.symm.trans ho'
    exact ⟨original, hd, hhome⟩

theorem internThunk_atHome (h : p.AtHome) {owner : TypeId} {arity : Nat} {kind : InvokeThunk}
    {id : MethodId} (hx : internThunk owner arity kind p = .ok id q) : q.AtHome := by
  rcases internThunk_cases hx with rfl | ⟨desc, hdef, rfl⟩
  · exact h
  · refine h.pushMethod fun ho => ?_
    rw [MethodDesc.definition?, ho] at hdef
    cases hdef

/-- Arguments are added where the method is. -/
theorem instantiateMethod_atHome (hp : p.WellFormed) (h : p.AtHome) {id x : MethodId}
    {args : List TypeId} (hx : instantiateMethod id args p = .ok x q) : q.AtHome := by
  obtain ⟨desc, hd, -, -, hx⟩ := instantiateMethod_eq_ok.1 hx
  obtain ⟨original, horig, -⟩ := hp.exists_original hd
  exact internMethod_atHome h horig (h.original hp hd horig) hx

theorem methodOnType_atHome (hp : p.WellFormed) (h : p.AtHome) {id x : MethodId} {type : TypeId}
    (hx : methodOnType id type p = .ok x q) : q.AtHome := by
  obtain ⟨desc, original, -, horig, hhome, hx⟩ := methodOnType_eq_ok.1 hx
  exact internMethod_atHome h horig ⟨original.owner, hhome, hp.typeDefinition_idem hhome⟩ hx

/-- Canonical forms of types have the same definition. -/
theorem canonicalMethod_atHome (hp : p.WellFormed) (h : p.AtHome) {id x : MethodId}
    (hid : p.HasMethod id) (hx : canonicalMethod id p = .ok x q) : q.AtHome := by
  obtain ⟨desc, hd⟩ := hasMethod_iff.1 hid
  cases hdef : desc.definition? with
  | none =>
    rw [canonicalMethod_of_definition hd hdef] at hx
    cases hx
    exact h
  | some definition =>
    have hinst := DerivedMethod.of_definition hd hdef
    obtain ⟨original, horig, hhome⟩ := h _ _ _ _ hinst
    obtain ⟨form, s, hform, -, howner, hs⟩ := hp.exists_typeForm (hinst.hasType_owner hp)
    obtain ⟨forms, t, hforms, ht, -⟩ := hs.wellFormed.exists_argumentForms
      fun arg ha => (hinst.hasType_args hp arg ha).mono hs.le
    have hpt := hs.trans ht
    -- the owner's form is an instance of what the owner is an instance of
    have hhome' : t.SameHome form original.owner := by
      obtain ⟨home, ho, ho'⟩ := hhome.mono hpt.le
      exact ⟨home, (howner.shares.mono ht.le).typeDefinition_eq ho, ho'⟩
    rw [canonicalMethod_of_derived hinst, bind_of_ok hform, bind_of_ok hforms] at hx
    have ht := h.of_methods hpt.le hpt.methods
    split at hx
    · cases hx
      exact ht
    · exact internMethod_atHome ht (methodDesc_stable _ _ _ horig _ hpt.le) hhome' hx

end ProgramM

/-! ## Programs that can be built -/

/-- A call leaves methods at home. -/
theorem InternCall.run_atHome {p : Program} (hp : p.WellFormed) (h : p.AtHome) {call : InternCall}
    (hv : call.Valid p) : (stateAfter call.run p).AtHome := by
  have hext := Program.Extension.refl hp
  cases call with
  | instantiateType id args =>
    exact kept_discard h (ProgramM.instantiateType_outcome hext hv.1 hv.2) fun hle hx =>
      h.of_methods hle (ProgramM.instantiateType_methods hx)
  | instantiateMethod id args =>
    exact kept_discard h (ProgramM.instantiateMethod_outcome hext hv.1 hv.2)
      fun _ hx => ProgramM.instantiateMethod_atHome hp h hx
  | methodOnType id type =>
    exact kept_discard h (ProgramM.methodOnType_outcome hext hv.1 hv.2)
      fun _ hx => ProgramM.methodOnType_atHome hp h hx
  | canonicalType id =>
    obtain ⟨form, q, hx, -, -, hq⟩ := hp.exists_typeForm hv
    refine kept_discard h (ProgramM.canonicalType_ends hext hv) fun _ hx' => ?_
    cases hx.symm.trans hx'
    exact h.of_methods hq.le hq.methods
  | canonicalMethod id =>
    exact kept_discard h (ProgramM.canonicalMethod_ends hext hv)
      fun _ hx => ProgramM.canonicalMethod_atHome hp h hv hx
  | delegateInfo type =>
    exact kept_discard h (ProgramM.delegateInfo_outcome hext hv) fun _ hx =>
      ProgramM.delegateInfo_induction (fun h hx => ProgramM.internThunk_atHome h hx) h hx

namespace Program

variable {p : Program}

theorem initial_atHome : initial.AtHome := by
  rintro id definition owner args ⟨desc, hd, ho, -⟩
  rw [(initial_methodDesc hd).1] at ho
  cases ho

/-- In every program built on existing handles, method instances have the home of their
definition. -/
theorem Reachable.atHome (h : p.Reachable) : p.AtHome := by
  induction h with
  | initial => exact initial_atHome
  | declareModule _ desc ih => exact ih.of_methods ⟨.push _ _, .refl _, .refl _⟩ rfl
  | declareType _ _ ih => exact ih.of_methods (ProgramM.le_pushType _ _) rfl
  | declareMethod _ _ ih => exact ih.pushMethod fun ho => by cases ho
  | intern h hv ih => exact InternCall.run_atHome h.wellFormed ih hv

end Program

end NativeImage

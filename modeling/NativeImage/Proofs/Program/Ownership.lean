import NativeImage.Proofs.Program.TypeSharing

/-!
# Owners of method instances

A method instance that has no arguments of its own is on an instance of its definition's owner: on
the owner itself the definition stands for it, and no other type is accepted. No canonical form of
such an owner is the definition's owner again, so a method instance is never shared with its
definition.

## Main definitions

- `Program.DerivedMethod` — an instance of a method definition on an owner, with arguments
- `Program.Housed` — where instances without arguments are

## Main statements

- `ProgramM.instantiateMethod_housed`, `ProgramM.methodOnType_housed`,
  `ProgramM.delegateInfo_housed` — calls that leave instances where they belong
-/

namespace NativeImage

namespace Program

variable {p q : Program}

/-! ## Method instances -/

/-- The method is the definition on this owner with these arguments, and not the definition. -/
def DerivedMethod (p : Program) (id definition : MethodId) (owner : TypeId)
    (args : List TypeId) : Prop :=
  ∃ desc, p.methodDesc id = .ok desc ∧ desc.origin = .derived definition args ∧ desc.owner = owner

instance (p : Program) (id definition : MethodId) (owner : TypeId) (args : List TypeId) :
    Decidable (p.DerivedMethod id definition owner args) :=
  decidableExistsOk (p.methodDesc id)

namespace DerivedMethod

variable {id definition definition' : MethodId} {owner owner' : TypeId} {args args' : List TypeId}

theorem of_definition {desc : MethodDesc} (hd : p.methodDesc id = .ok desc)
    (hdef : desc.definition? = some definition) :
    p.DerivedMethod id definition desc.owner desc.args :=
  ⟨desc, hd, origin_of_definition? hdef, rfl⟩

theorem mono (h : p.DerivedMethod id definition owner args) (hpq : p ≤ q) :
    q.DerivedMethod id definition owner args := by
  obtain ⟨desc, hd, ho⟩ := h
  exact ⟨desc, methodDesc_stable _ _ _ hd _ hpq, ho⟩

theorem of_le (hpq : p ≤ q) (hid : p.HasMethod id) (h : q.DerivedMethod id definition owner args) :
    p.DerivedMethod id definition owner args := by
  obtain ⟨desc, hd, ho⟩ := h
  exact ⟨desc, methodDesc_of_le hpq hid hd, ho⟩

theorem unique (h : p.DerivedMethod id definition owner args)
    (h' : p.DerivedMethod id definition' owner' args') :
    definition = definition' ∧ owner = owner' ∧ args = args' := by
  obtain ⟨desc, hd, ho, rfl⟩ := h
  obtain ⟨desc', hd', ho', rfl⟩ := h'
  cases hd.symm.trans hd'
  cases ho.symm.trans ho'
  exact ⟨rfl, rfl, rfl⟩

theorem hasMethod (h : p.DerivedMethod id definition owner args) : p.HasMethod id := by
  obtain ⟨desc, hd, -⟩ := h
  exact hasMethod_of_desc hd

theorem hasType_owner (hp : p.WellFormed) (h : p.DerivedMethod id definition owner args) :
    p.HasType owner := by
  obtain ⟨desc, hd, -, rfl⟩ := h
  exact (hp.method_ok hd).owner

theorem hasType_args (hp : p.WellFormed) (h : p.DerivedMethod id definition owner args) :
    ∀ arg ∈ args, p.HasType arg := by
  obtain ⟨desc, hd, ho, -⟩ := h
  obtain ⟨-, hargs, -⟩ := (hp.method_ok hd).derived ho
  exact hargs

theorem exists_original (hp : p.WellFormed) (h : p.DerivedMethod id definition owner args) :
    ∃ original, p.methodDesc definition = .ok original ∧ original.definition? = none := by
  obtain ⟨desc, hd, ho, -⟩ := h
  obtain ⟨-, -, original, horig, hnone, -⟩ := (hp.method_ok hd).derived ho
  exact ⟨original, horig, hnone⟩

end DerivedMethod

theorem WellFormed.eq_of_derivedMethod (hp : p.WellFormed) {x y definition : MethodId}
    {owner : TypeId} {args : List TypeId} (hx : p.DerivedMethod x definition owner args)
    (hy : p.DerivedMethod y definition owner args) : x = y := by
  obtain ⟨dx, hdx, hox, hwx⟩ := hx
  obtain ⟨dy, hdy, hoy, hwy⟩ := hy
  exact hp.method_unique hdx hdy (hox.trans hoy.symm) (hwx.trans hwy.symm) (by simp [hox])

namespace MethodInstance

variable {id other definition : MethodId} {owner : TypeId} {args : List TypeId}

/-- What stands for a definition on another owner or with arguments is an instance. -/
theorem derivedMethod (h : p.MethodInstance id definition owner args) {original : MethodDesc}
    (hd : p.methodDesc definition = .ok original)
    (hself : ¬ (owner = original.owner ∧ args = [])) :
    p.DerivedMethod id definition owner args := by
  obtain ⟨original', hd', h⟩ := h
  cases hd.symm.trans hd'
  rwa [if_neg hself] at h

theorem mono (h : p.MethodInstance id definition owner args) (hpq : p ≤ q) :
    q.MethodInstance id definition owner args := by
  obtain ⟨original, hd, h⟩ := h
  refine ⟨original, methodDesc_stable _ _ _ hd _ hpq, ?_⟩
  by_cases hself : owner = original.owner ∧ args = []
  · rwa [if_pos hself] at h ⊢
  · rw [if_neg hself] at h ⊢
    exact DerivedMethod.mono h hpq

theorem hasMethod (h : p.MethodInstance id definition owner args) : p.HasMethod id := by
  obtain ⟨original, hd, h⟩ := h
  split at h
  · exact h ▸ hasMethod_of_desc hd
  · exact DerivedMethod.hasMethod h

theorem unique (hp : p.WellFormed) (h : p.MethodInstance id definition owner args)
    (h' : p.MethodInstance other definition owner args) : id = other := by
  obtain ⟨original, hd, h⟩ := h
  obtain ⟨original', hd', h'⟩ := h'
  cases hd.symm.trans hd'
  by_cases hself : owner = original.owner ∧ args = []
  · rw [if_pos hself] at h h'
    exact h.trans h'.symm
  · rw [if_neg hself] at h h'
    exact hp.eq_of_derivedMethod h h'

end MethodInstance

/-! ## Instances without arguments -/

/-- Instances without arguments of their own are on instances of their definition's owner. -/
def Housed (p : Program) : Prop :=
  ∀ id definition owner, p.DerivedMethod id definition owner [] → ∃ original args,
    p.methodDesc definition = .ok original ∧ p.TypeInstance owner original.owner args

/-- Types may be added. -/
theorem Housed.of_methods (h : p.Housed) (hpq : p ≤ q) (hmethods : q.methods = p.methods) :
    q.Housed := by
  intro id definition owner ⟨desc, hd, ho⟩
  have hdesc (id : MethodId) : q.methodDesc id = p.methodDesc id := by
    rw [methodDesc, methodDesc, hmethods]
  obtain ⟨original, args, horig, hinst⟩ := h _ _ _ ⟨desc, (hdesc id).symm.trans hd, ho⟩
  exact ⟨original, args, (hdesc definition).trans horig, hinst.mono hpq⟩

/-- So may methods that are declared, have arguments, or are on an instance of their definition's
owner. -/
theorem Housed.pushMethod (h : p.Housed) {desc : MethodDesc}
    (hdesc : ∀ {definition}, desc.origin = .derived definition [] → ∃ original args,
      p.methodDesc definition = .ok original ∧ p.TypeInstance desc.owner original.owner args) :
    Housed { p with methods := p.methods.push desc } := by
  have hle := ProgramM.le_pushMethod p desc
  rintro id definition owner ⟨found, hf, ho, rfl⟩
  suffices hold : ∃ original args, p.methodDesc definition = .ok original ∧
      p.TypeInstance found.owner original.owner args by
    obtain ⟨original, args, horig, hinst⟩ := hold
    exact ⟨original, args, methodDesc_stable _ _ _ horig _ hle, hinst.mono hle⟩
  rcases methodDesc_push.1 hf with hold | ⟨-, rfl⟩
  · exact h _ _ _ ⟨found, hold, ho, rfl⟩
  · exact hdesc ho

end Program

namespace ProgramM

open Program

variable {p q : Program}

/-! ## Calls that succeed -/

/-- A method instance is there, or is its definition, or is appended. -/
theorem internMethod_cases {definition id : MethodId} {owner : TypeId} {args : List TypeId}
    {original : MethodDesc} (hd : p.methodDesc definition = .ok original)
    (hx : internMethod definition owner args p = .ok id q) :
    q = p ∨ ¬ (owner = original.owner ∧ args = []) ∧ ∃ desc : MethodDesc,
      desc.origin = .derived definition args ∧ desc.owner = owner ∧
        q = { p with methods := p.methods.push desc } := by
  rw [internMethod_apply hd] at hx
  split at hx
  · cases hx
    exact .inl rfl
  · next hself =>
    split at hx
    · cases hx
      exact .inl rfl
    · cases hx
      exact .inr ⟨hself, _, rfl, rfl, rfl⟩

/-- A thunk is there, or is appended. -/
theorem internThunk_cases {owner : TypeId} {arity : Nat} {kind : InvokeThunk} {id : MethodId}
    (hx : internThunk owner arity kind p = .ok id q) :
    q = p ∨ ∃ desc, desc.definition? = none ∧ q = { p with methods := p.methods.push desc } := by
  rw [internThunk, get_bind_apply] at hx
  cases hfind : p.findThunk? owner kind with
  | some found =>
    rw [hfind] at hx
    cases hx
    exact .inl rfl
  | none =>
    rw [hfind] at hx
    cases hx
    exact .inr ⟨_, rfl, rfl⟩

/-- A definition may be put on the instances of its owner, and with arguments on any type. -/
theorem internMethod_housed (h : p.Housed) {definition id : MethodId} {owner : TypeId}
    {args : List TypeId} {original : MethodDesc} (hd : p.methodDesc definition = .ok original)
    (howner : args = [] → owner ≠ original.owner → ∃ targs,
      p.TypeInstance owner original.owner targs)
    (hx : internMethod definition owner args p = .ok id q) : q.Housed := by
  rcases internMethod_cases hd hx with rfl | ⟨hself, desc, ho, rfl, rfl⟩
  · exact h
  · refine h.pushMethod fun ho' => ?_
    cases ho.symm.trans ho'
    obtain ⟨targs, hinst⟩ := howner rfl fun hsame => hself ⟨hsame, rfl⟩
    exact ⟨original, targs, hd, hinst⟩

theorem internThunk_housed (h : p.Housed) {owner : TypeId} {arity : Nat} {kind : InvokeThunk}
    {id : MethodId} (hx : internThunk owner arity kind p = .ok id q) : q.Housed := by
  rcases internThunk_cases hx with rfl | ⟨desc, hdef, rfl⟩
  · exact h
  · refine h.pushMethod fun ho => ?_
    rw [MethodDesc.definition?, ho] at hdef
    cases hdef

/-- What comes after a question succeeds on an answer. -/
theorem ask_bind_eq_ok {α β : Type} {question : Program → Except ProgramError α}
    {f : α → ProgramM β} {b : β} :
    (ask question >>= f) p = .ok b q ↔ ∃ a, question p = .ok a ∧ f a p = .ok b q := by
  rw [bind_apply, ask]
  cases question p with
  | ok a => simp
  | error e => simp

theorem instantiateType_methods {id x : TypeId} {args : List TypeId}
    (hx : instantiateType id args p = .ok x q) : q.methods = p.methods := by
  obtain ⟨desc, -, hrun⟩ := ask_bind_eq_ok.1 hx
  split at hrun
  · exact internType_methods hrun
  · cases hrun

/-- A method that is given arguments has none yet, takes as many, and is interned on its own
owner. -/
theorem instantiateMethod_eq_ok {id x : MethodId} {args : List TypeId} :
    instantiateMethod id args p = .ok x q ↔ ∃ desc, p.methodDesc id = .ok desc ∧
      desc.args = [] ∧ desc.genericArity = args.length ∧
      internMethod (desc.definition?.getD id) desc.owner args p = .ok x q := by
  constructor
  · intro hx
    obtain ⟨desc, hd, hrun⟩ := ask_bind_eq_ok.1 hx
    split at hrun
    · obtain ⟨name, -, hthrow⟩ := ask_bind_eq_ok.1 hrun
      cases hthrow
    · next hargs =>
      split at hrun
      · obtain ⟨name, -, hthrow⟩ := ask_bind_eq_ok.1 hrun
        cases hthrow
      · next harity => exact ⟨desc, hd, not_not.1 hargs, not_not.1 harity, hrun⟩
  · rintro ⟨desc, hd, hargs, harity, hx⟩
    refine ask_bind_eq_ok.2 ⟨desc, hd, ?_⟩
    rw [if_neg (not_not.2 hargs), if_neg (not_not.2 harity)]
    exact hx

/-- A method that is moved to a type is interned there; the type is its definition's owner, or an
instance of it. -/
theorem methodOnType_eq_ok {id x : MethodId} {type : TypeId} : methodOnType id type p = .ok x q ↔
    ∃ desc original, p.methodDesc id = .ok desc ∧
      p.methodDesc (desc.definition?.getD id) = .ok original ∧
      p.typeDefinition type = .ok original.owner ∧
      internMethod (desc.definition?.getD id) type desc.args p = .ok x q := by
  constructor
  · intro hx
    obtain ⟨desc, hd, hrun⟩ := ask_bind_eq_ok.1 hx
    obtain ⟨original, horig, hrun⟩ := ask_bind_eq_ok.1 hrun
    obtain ⟨home, hhome, hrun⟩ := ask_bind_eq_ok.1 hrun
    split at hrun
    · next hsame => exact ⟨desc, original, hd, horig, hsame ▸ hhome, hrun⟩
    · obtain ⟨method, -, hthrow⟩ := ask_bind_eq_ok.1 hrun
      obtain ⟨name, -, hthrow⟩ := ask_bind_eq_ok.1 hthrow
      cases hthrow
  · rintro ⟨desc, original, hd, horig, hhome, hx⟩
    refine ask_bind_eq_ok.2 ⟨desc, hd, ask_bind_eq_ok.2 ⟨original, horig,
      ask_bind_eq_ok.2 ⟨original.owner, hhome, ?_⟩⟩⟩
    rw [if_pos rfl]
    exact hx

theorem instantiateMethod_housed (hp : p.WellFormed) (h : p.Housed) {id x : MethodId}
    {args : List TypeId} (hx : instantiateMethod id args p = .ok x q) : q.Housed := by
  obtain ⟨desc, hd, hargs, -, hx⟩ := instantiateMethod_eq_ok.1 hx
  obtain ⟨original, horig, -⟩ := hp.exists_original hd
  refine internMethod_housed h horig (fun _ hne => ?_) hx
  -- only an instance without arguments can be on another owner than its definition
  cases ho : desc.origin with
  | declared =>
    rw [MethodDesc.definition?, ho] at horig
    cases hd.symm.trans horig
    exact absurd rfl hne
  | thunk kind =>
    rw [MethodDesc.definition?, ho] at horig
    cases hd.symm.trans horig
    exact absurd rfl hne
  | derived definition given =>
    obtain rfl : given = [] := by
      rw [MethodDesc.args, ho] at hargs
      exact hargs
    rw [MethodDesc.definition?, ho] at horig
    obtain ⟨original', targs, horig', hinst⟩ := h _ _ _ ⟨desc, hd, ho, rfl⟩
    cases horig.symm.trans horig'
    exact ⟨targs, hinst⟩

theorem methodOnType_housed (h : p.Housed) {id x : MethodId} {type : TypeId}
    (hx : methodOnType id type p = .ok x q) : q.Housed := by
  obtain ⟨desc, original, -, horig, hhome, hx⟩ := methodOnType_eq_ok.1 hx
  exact internMethod_housed h horig (fun _ hne => exists_instance_of_typeDefinition hhome hne) hx

/-- The thunks of a delegate type are interned one after the other, for its definition. -/
theorem delegateInfo_eq_ok {type : TypeId} {info : DelegateInfo}
    (hx : delegateInfo type p = .ok info q) :
    ∃ owner arity s t, p.typeDefinition type = .ok owner ∧
      internThunk owner arity .openStatic p = .ok info.openStatic s ∧
      internThunk owner arity .closedStatic s = .ok info.closedStatic t ∧
      (info.reverseNative? = none ∧ t = q ∨ ∃ id, info.reverseNative? = some id ∧
        internThunk owner arity .reverseNative t = .ok id q) := by
  obtain ⟨definition, hdef, hrun⟩ := ask_bind_eq_ok.1 hx
  obtain ⟨desc, -, hrun⟩ := ask_bind_eq_ok.1 hrun
  cases harity : desc.invokeArity? with
  | none =>
    rw [harity] at hrun
    cases hrun
  | some arity =>
    rw [harity] at hrun
    obtain ⟨openStatic, s, hopen, hrun⟩ := bind_eq_ok.1 hrun
    obtain ⟨closedStatic, t, hclosed, hrun⟩ := bind_eq_ok.1 hrun
    refine ⟨definition, arity, s, t, ?_⟩
    dsimp only at hrun
    split at hrun
    · obtain ⟨reverseNative?, u, hreverse, hpure⟩ := bind_eq_ok.1 hrun
      cases hpure
      rw [← bind_pure_comp] at hreverse
      obtain ⟨reverse, v, hreverse, hpure⟩ := bind_eq_ok.1 hreverse
      cases hpure
      exact ⟨hdef, hopen, hclosed, .inr ⟨reverse, rfl, hreverse⟩⟩
    · cases hrun
      exact ⟨hdef, hopen, hclosed, .inl ⟨rfl, rfl⟩⟩

theorem internThunk_origin {owner : TypeId} {arity : Nat} {kind : InvokeThunk} {id : MethodId}
    (hx : internThunk owner arity kind p = .ok id q) :
    ∃ desc, q.methodDesc id = .ok desc ∧ desc.origin = .thunk kind := by
  rw [internThunk, get_bind_apply] at hx
  cases hfind : p.findThunk? owner kind with
  | some found =>
    rw [hfind] at hx
    cases hx
    obtain ⟨desc, hd, ho, -⟩ := findThunk?_spec hfind
    exact ⟨desc, hd, ho⟩
  | none =>
    rw [hfind] at hx
    cases hx
    exact ⟨_, methodDesc_push.2 (.inr ⟨rfl, rfl⟩), rfl⟩

/-- The thunks of a delegate type are thunks of their kind. -/
theorem delegateInfo_thunk {type : TypeId} {info : DelegateInfo}
    (hx : delegateInfo type p = .ok info q) {kind : InvokeThunk} {id : MethodId}
    (hid : info.thunk? kind = some id) :
    ∃ desc, q.methodDesc id = .ok desc ∧ desc.origin = .thunk kind := by
  obtain ⟨owner, arity, s, t, -, hopen, hclosed, hlast⟩ := delegateInfo_eq_ok hx
  have htq : t ≤ q := by
    rcases hlast with ⟨-, rfl⟩ | ⟨reverse, -, hreverse⟩
    · exact le_rfl
    · exact (internThunk_settles _ _ _).grows hreverse
  have hlater {kind : InvokeThunk} {id : MethodId} {r : Program} (hr : r ≤ q)
      (h : ∃ desc, r.methodDesc id = .ok desc ∧ desc.origin = .thunk kind) :
      ∃ desc, q.methodDesc id = .ok desc ∧ desc.origin = .thunk kind := by
    obtain ⟨desc, hd, ho⟩ := h
    exact ⟨desc, methodDesc_stable _ _ _ hd _ hr, ho⟩
  cases kind with
  | openStatic =>
    cases hid
    exact hlater (((internThunk_settles _ _ _).grows hclosed).trans htq)
      (internThunk_origin hopen)
  | closedStatic =>
    cases hid
    exact hlater htq (internThunk_origin hclosed)
  | reverseNative =>
    rcases hlast with ⟨hnone, -⟩ | ⟨reverse, hsome, hreverse⟩
    · cases hnone.symm.trans hid
    · cases hsome.symm.trans hid
      exact internThunk_origin hreverse

/-- What goes on holding when a thunk is interned holds when a delegate type has all of them. -/
theorem delegateInfo_induction {P : Program → Prop}
    (hthunk : ∀ {p q : Program} {owner : TypeId} {arity : Nat} {kind : InvokeThunk} {id : MethodId},
      P p → internThunk owner arity kind p = .ok id q → P q)
    (h : P p) {type : TypeId} {info : DelegateInfo} (hx : delegateInfo type p = .ok info q) :
    P q := by
  obtain ⟨owner, arity, s, t, -, hopen, hclosed, hlast⟩ := delegateInfo_eq_ok hx
  have ht : P t := hthunk (hthunk h hopen) hclosed
  rcases hlast with ⟨-, rfl⟩ | ⟨id, -, hreverse⟩
  · exact ht
  · exact hthunk ht hreverse

theorem delegateInfo_housed (h : p.Housed) {type : TypeId} {info : DelegateInfo}
    (hx : delegateInfo type p = .ok info q) : q.Housed :=
  delegateInfo_induction (fun h hx => internThunk_housed h hx) h hx

end ProgramM

end NativeImage

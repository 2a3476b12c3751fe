import NativeImage.Proofs.Program.Homes

/-!
# Counterparts of methods

What a method is depends on its definition, its owner and its arguments. Moving a method to a type
gives its counterpart there, and supplying arguments gives its counterpart with these arguments.
Since a program has a counterpart only once, it does not matter in which steps one is reached, nor
from which instance: the last type a method was moved to and the arguments it was given decide.

## Main definitions

- `Program.Counterpart` — a method on another owner, or with other arguments
- `Program.Movable`, `Program.Applicable` — when a method can be moved, or be given arguments
- `ProgramM.Reaches` — a call that succeeds whenever a counterpart can be made, and gives it
- `ProgramM.SameAnswer` — calls that succeed together, with one answer in a program that grows

## Main statements

- `Program.Counterpart.unique` — there is one counterpart on an owner with given arguments
- `ProgramM.Reaches.sameAnswer` — calls that reach one counterpart give one answer
- `Program.Reachable.counterparts_coherent`
-/

namespace NativeImage

namespace Program

variable {p q : Program}

/-! ## Definitions and their instances -/

/-- Every method is its definition on its owner with its arguments. -/
theorem WellFormed.methodInstance (hp : p.WellFormed) {id : MethodId} {desc : MethodDesc}
    (hd : p.methodDesc id = .ok desc) :
    p.MethodInstance id (desc.definition?.getD id) desc.owner desc.args := by
  cases hdef : desc.definition? with
  | none => exact ⟨desc, hd, by rw [if_pos ⟨rfl, args_of_definition?_eq_none hdef⟩]; rfl⟩
  | some definition =>
    have ho := origin_of_definition? hdef
    obtain ⟨-, -, original, horig, -, -, hself⟩ := (hp.method_ok hd).derived ho
    refine ⟨original, horig, ?_⟩
    rw [if_neg hself]
    exact ⟨desc, hd, ho, rfl⟩

/-! ## Counterparts -/

/-- The second method is the first on this owner with these arguments: they have one definition, and
they are declared alike but for the owner. -/
def Counterpart (p : Program) (m x : MethodId) (owner : TypeId) (args : List TypeId) : Prop :=
  ∃ before after, p.methodDesc m = .ok before ∧ p.methodDesc x = .ok after ∧
    after.definition?.getD x = before.definition?.getD m ∧
    after.toMethodDeclaration = { before.toMethodDeclaration with owner } ∧ after.args = args

namespace Counterpart

variable {m x y : MethodId} {owner owner' : TypeId} {args args' : List TypeId}

theorem refl {desc : MethodDesc} (hd : p.methodDesc m = .ok desc) :
    p.Counterpart m m desc.owner desc.args :=
  ⟨desc, desc, hd, hd, rfl, rfl, rfl⟩

theorem mono (h : p.Counterpart m x owner args) (hpq : p ≤ q) : q.Counterpart m x owner args := by
  obtain ⟨before, after, hm, hx, hsame⟩ := h
  exact ⟨before, after, methodDesc_stable _ _ _ hm _ hpq, methodDesc_stable _ _ _ hx _ hpq, hsame⟩

/-- The counterpart of a counterpart is one of the first method: its owner and its arguments are
forgotten. -/
theorem trans (h : p.Counterpart m x owner args) (h' : p.Counterpart x y owner' args') :
    p.Counterpart m y owner' args' := by
  obtain ⟨first, second, hm, hx, hdef, hdecl, -⟩ := h
  obtain ⟨second', third, hx', hy, hdef', hdecl', hargs⟩ := h'
  cases hx.symm.trans hx'
  refine ⟨first, third, hm, hy, hdef'.trans hdef, ?_, hargs⟩
  rw [hdecl', hdecl]

theorem hasMethod (h : p.Counterpart m x owner args) : p.HasMethod m := by
  obtain ⟨before, -, hm, -⟩ := h
  exact hasMethod_of_desc hm

end Counterpart

/-- A counterpart is an instance of the same definition. -/
theorem counterpart_iff (hp : p.WellFormed) {m x : MethodId} {owner : TypeId} {args : List TypeId}
    {before : MethodDesc} (hm : p.methodDesc m = .ok before) : p.Counterpart m x owner args ↔
      p.MethodInstance x (before.definition?.getD m) owner args := by
  obtain ⟨original, horig, hnone, hdecl⟩ := hp.exists_original hm
  constructor
  · rintro ⟨before', after, hm', hx, hdef, hafter, rfl⟩
    cases hm.symm.trans hm'
    have howner : after.owner = owner := congrArg MethodDeclaration.owner hafter
    rw [← hdef, ← howner]
    exact hp.methodInstance hx
  · rintro ⟨original', horig', hinst⟩
    cases horig.symm.trans horig'
    split at hinst
    · next hself =>
      obtain ⟨rfl, rfl⟩ := hself
      subst hinst
      refine ⟨before, original, hm, horig, ?_, ?_, args_of_definition?_eq_none hnone⟩
      · rw [hnone]
        rfl
      · rw [hdecl]
    · obtain ⟨after, hx, ho, rfl⟩ := hinst
      obtain ⟨-, -, original', horig', -, hafter, -⟩ := (hp.method_ok hx).derived ho
      cases horig.symm.trans horig'
      refine ⟨before, after, hm, hx, ?_, ?_, ?_⟩
      · rw [MethodDesc.definition?, ho]
        rfl
      · rw [hafter, hdecl]
      · rw [MethodDesc.args, ho]

/-- There is one counterpart on an owner with given arguments. -/
theorem Counterpart.unique (hp : p.WellFormed) {m x y : MethodId} {owner : TypeId}
    {args : List TypeId} (hx : p.Counterpart m x owner args) (hy : p.Counterpart m y owner args) :
    x = y := by
  obtain ⟨before, hm⟩ := hasMethod_iff.1 hx.hasMethod
  exact MethodInstance.unique hp ((counterpart_iff hp hm).1 hx) ((counterpart_iff hp hm).1 hy)

/-! ## Where a method can go -/

/-- The type is the home of the method's definition, or an instance of it. -/
def Movable (p : Program) (m : MethodId) (type : TypeId) : Prop :=
  ∃ desc original, p.methodDesc m = .ok desc ∧
    p.methodDesc (desc.definition?.getD m) = .ok original ∧
    p.typeDefinition type = .ok original.owner

/-- The method has no arguments yet, and takes as many. -/
def Applicable (p : Program) (m : MethodId) (args : List TypeId) : Prop :=
  ∃ desc, p.methodDesc m = .ok desc ∧ desc.args = [] ∧ desc.genericArity = args.length

section

variable {m x : MethodId} {type owner : TypeId} {args args' : List TypeId}

theorem Movable.hasType (h : p.Movable m type) : p.HasType type := by
  obtain ⟨desc, original, -, -, hhome⟩ := h
  obtain ⟨desc, hd, -⟩ := typeDefinition_eq_ok.1 hhome
  exact hasType_of_desc hd

theorem Movable.mono (h : p.Movable m type) (hpq : p ≤ q) : q.Movable m type := by
  obtain ⟨desc, original, hm, horig, hhome⟩ := h
  exact ⟨desc, original, methodDesc_stable _ _ _ hm _ hpq, methodDesc_stable _ _ _ horig _ hpq,
    typeDefinition_stable _ _ _ hhome _ hpq⟩

theorem Applicable.mono (h : p.Applicable m args) (hpq : p ≤ q) : q.Applicable m args := by
  obtain ⟨desc, hm, hargs⟩ := h
  exact ⟨desc, methodDesc_stable _ _ _ hm _ hpq, hargs⟩

theorem Applicable.of_le (hpq : p ≤ q) (hm : p.HasMethod m) (h : q.Applicable m args) :
    p.Applicable m args := by
  obtain ⟨desc, hdesc, hargs⟩ := h
  exact ⟨desc, methodDesc_of_le hpq hm hdesc, hargs⟩

theorem Movable.of_le (hp : p.WellFormed) (hpq : p ≤ q) (hm : p.HasMethod m)
    (htype : p.HasType type) (h : q.Movable m type) : p.Movable m type := by
  obtain ⟨desc, original, hdesc, horig, hhome⟩ := h
  have hdesc := methodDesc_of_le hpq hm hdesc
  obtain ⟨original', horig', -⟩ := hp.exists_original hdesc
  cases horig.symm.trans (methodDesc_stable _ _ _ horig' _ hpq)
  obtain ⟨home, found, hhome', -⟩ := (Extension.refl hp).exists_typeDefinition htype
  cases hhome.symm.trans (typeDefinition_stable _ _ _ hhome' _ hpq)
  exact ⟨desc, original, hdesc, horig', hhome'⟩

theorem movable_iff_of_le (hp : p.WellFormed) (hpq : p ≤ q) (hm : p.HasMethod m)
    (htype : p.HasType type) : q.Movable m type ↔ p.Movable m type :=
  ⟨fun h => h.of_le hp hpq hm htype, fun h => h.mono hpq⟩

theorem applicable_iff_of_le (hpq : p ≤ q) (hm : p.HasMethod m) :
    q.Applicable m args ↔ p.Applicable m args :=
  ⟨fun h => h.of_le hpq hm, fun h => h.mono hpq⟩

/-- A counterpart can be moved wherever the method can. -/
theorem Counterpart.movable_iff (h : p.Counterpart m x owner args) :
    p.Movable x type ↔ p.Movable m type := by
  obtain ⟨before, after, hm, hx, hdef, -⟩ := h
  constructor
  · rintro ⟨desc, original, hdesc, horig, hhome⟩
    cases hx.symm.trans hdesc
    exact ⟨before, original, hm, hdef ▸ horig, hhome⟩
  · rintro ⟨desc, original, hdesc, horig, hhome⟩
    cases hm.symm.trans hdesc
    exact ⟨after, original, hx, hdef.symm ▸ horig, hhome⟩

/-- What has the same arguments can be given the same arguments. -/
theorem Counterpart.applicable_iff {desc : MethodDesc} (hm : p.methodDesc m = .ok desc)
    (h : p.Counterpart m x owner desc.args) : p.Applicable x args ↔ p.Applicable m args := by
  obtain ⟨before, after, hm', hx, -, hdecl, hargs⟩ := h
  cases hm.symm.trans hm'
  have harity : after.genericArity = desc.genericArity := by rw [hdecl]
  constructor
  · rintro ⟨found, hf, hnil, hlen⟩
    cases hx.symm.trans hf
    exact ⟨desc, hm, hargs ▸ hnil, harity ▸ hlen⟩
  · rintro ⟨found, hf, hnil, hlen⟩
    cases hm.symm.trans hf
    exact ⟨after, hx, hargs ▸ hnil, harity ▸ hlen⟩

end

end Program

namespace ProgramM

open Program

variable {p q r : Program} {m x : MethodId} {type owner : TypeId} {args : List TypeId}

/-! ## Calls -/

/-- The call succeeds under the condition only and always then, and gives the counterpart of the
method on the owner with the arguments. -/
structure Reaches (f : ProgramM MethodId) (p : Program) (allowed : Prop) (m : MethodId)
    (owner : TypeId) (args : List TypeId) : Prop where
  succeeds : allowed → ∃ x q, f p = .ok x q
  allowed_of_ok : ∀ {x q}, f p = .ok x q → allowed
  le : ∀ {x q}, f p = .ok x q → p ≤ q
  wellFormed : ∀ {x q}, f p = .ok x q → q.WellFormed
  counterpart : ∀ {x q}, f p = .ok x q → q.Counterpart m x owner args

theorem Reaches.congr {f : ProgramM MethodId} {P Q : Prop} (h : Reaches f p P m owner args)
    (hiff : P ↔ Q) : Reaches f p Q m owner args := by
  rwa [← hiff]

/-- One step after the other: the owner and the arguments are those of the last step. -/
theorem Reaches.bind {f : ProgramM MethodId} {g : MethodId → ProgramM MethodId} {P Q : Prop}
    {owner' : TypeId} {args' : List TypeId} (hf : Reaches f p P m owner args)
    (hg : ∀ {x q}, p ≤ q → q.WellFormed → q.Counterpart m x owner args →
      Reaches (g x) q Q x owner' args') : Reaches (f >>= g) p (P ∧ Q) m owner' args' := by
  have hnext {x q} (hx : f p = .ok x q) : Reaches (g x) q Q x owner' args' :=
    hg (hf.le hx) (hf.wellFormed hx) (hf.counterpart hx)
  refine ⟨?_, fun h => ?_, fun h => ?_, fun h => ?_, fun h => ?_⟩
  · rintro ⟨hP, hQ⟩
    obtain ⟨x, q, hx⟩ := hf.succeeds hP
    obtain ⟨y, r, hy⟩ := (hnext hx).succeeds hQ
    exact ⟨y, r, (bind_of_ok hx).trans hy⟩
  all_goals obtain ⟨x, q, hx, hy⟩ := bind_eq_ok.1 h
  · exact ⟨hf.allowed_of_ok hx, (hnext hx).allowed_of_ok hy⟩
  · exact (hf.le hx).trans ((hnext hx).le hy)
  · exact (hnext hx).wellFormed hy
  · exact ((hf.counterpart hx).mono ((hnext hx).le hy)).trans ((hnext hx).counterpart hy)

/-- An instance that is there is found. -/
theorem internMethod_of_instance (hp : p.WellFormed) {definition : MethodId}
    (h : p.MethodInstance x definition owner args) :
    internMethod definition owner args p = .ok x p := by
  obtain ⟨original, horig, hinst⟩ := h
  rw [internMethod_apply horig]
  by_cases hself : owner = original.owner ∧ args = []
  · rw [if_pos hself] at hinst ⊢
    rw [hinst]
  · rw [if_neg hself] at hinst ⊢
    cases hfind : p.findMethod? definition owner args with
    | some found =>
      obtain rfl := hp.eq_of_derivedMethod hinst (findMethod?_spec hfind)
      rfl
    | none =>
      obtain ⟨desc, hx, ho, howner⟩ := hinst
      exact absurd howner (owner_ne_of_findMethod? hfind hx ho)

/-- Putting the definition of a method on an owner with arguments reaches the counterpart there. -/
theorem Reaches.of_intern {f : ProgramM MethodId} {P : Prop} (hp : p.WellFormed)
    {desc : MethodDesc} (hm : p.methodDesc m = .ok desc) (howner : p.HasType owner)
    (hargs : ∀ arg ∈ args, p.HasType arg)
    (hf : ∀ {x q}, f p = .ok x q ↔
      P ∧ internMethod (desc.definition?.getD m) owner args p = .ok x q) :
    Reaches f p P m owner args := by
  obtain ⟨original, horig, hnone, -⟩ := hp.exists_original hm
  obtain ⟨x, q, hx, hq, hle, hinst⟩ := internMethod_spec hp horig hnone howner hargs
  have hcounter : q.Counterpart m x owner args :=
    (counterpart_iff hq (methodDesc_stable _ _ _ hm _ hle.le)).2 hinst
  have hrun {y r} (hy : f p = .ok y r) : P ∧ x = y ∧ q = r := by
    obtain ⟨hP, hrun⟩ := hf.1 hy
    cases hx.symm.trans hrun
    exact ⟨hP, rfl, rfl⟩
  refine ⟨fun hP => ⟨x, q, hf.2 ⟨hP, hx⟩⟩, fun hy => (hrun hy).1, fun hy => ?_, fun hy => ?_,
    fun hy => ?_⟩
  all_goals obtain ⟨-, rfl, rfl⟩ := hrun hy
  · exact hle.le
  · exact hq
  · exact hcounter

/-- Moving a method reaches its counterpart on the type. -/
theorem methodOnType_reaches (hp : p.WellFormed) {desc : MethodDesc}
    (hm : p.methodDesc m = .ok desc) (htype : p.HasType type) :
    Reaches (methodOnType m type) p (p.Movable m type) m type desc.args := by
  refine .of_intern hp hm htype (hp.hasType_methodArgs hm) fun {x q} => ?_
  rw [methodOnType_eq_ok]
  constructor
  · rintro ⟨found, original, hf, horig, hhome, hx⟩
    cases hm.symm.trans hf
    exact ⟨⟨desc, original, hm, horig, hhome⟩, hx⟩
  · rintro ⟨⟨found, original, hf, horig, hhome⟩, hx⟩
    cases hm.symm.trans hf
    exact ⟨desc, original, hm, horig, hhome, hx⟩

/-- Supplying arguments reaches the counterpart that has them. -/
theorem instantiateMethod_reaches (hp : p.WellFormed) {desc : MethodDesc}
    (hm : p.methodDesc m = .ok desc) (hargs : ∀ arg ∈ args, p.HasType arg) :
    Reaches (instantiateMethod m args) p (p.Applicable m args) m desc.owner args := by
  refine .of_intern hp hm (hp.method_ok hm).owner hargs fun {x q} => ?_
  rw [instantiateMethod_eq_ok]
  constructor
  · rintro ⟨found, hf, hnil, harity, hx⟩
    cases hm.symm.trans hf
    exact ⟨⟨desc, hm, hnil, harity⟩, hx⟩
  · rintro ⟨⟨found, hf, hnil, harity⟩, hx⟩
    cases hm.symm.trans hf
    exact ⟨desc, hm, hnil, harity, hx⟩

section

variable (hp : p.WellFormed) {desc : MethodDesc} (hm : p.methodDesc m = .ok desc)
  (htype : p.HasType type) (hargs : ∀ arg ∈ args, p.HasType arg)
include hp hm htype hargs

/-- Arguments may be supplied before a method is moved. -/
theorem instantiate_move_reaches :
    Reaches (instantiateMethod m args >>= (methodOnType · type)) p
      (p.Applicable m args ∧ p.Movable m type) m type args := by
  refine (instantiateMethod_reaches hp hm hargs).bind fun {x q} hle hq hcounter => ?_
  have hmovable : q.Movable x type ↔ p.Movable m type :=
    hcounter.movable_iff.trans (movable_iff_of_le hp hle (hasMethod_of_desc hm) htype)
  obtain ⟨-, after, -, hx, -, -, rfl⟩ := hcounter
  exact (methodOnType_reaches hq hx (htype.mono hle)).congr hmovable

/-- They may be supplied after it. -/
theorem move_instantiate_reaches :
    Reaches (methodOnType m type >>= (instantiateMethod · args)) p
      (p.Movable m type ∧ p.Applicable m args) m type args := by
  refine (methodOnType_reaches hp hm htype).bind fun {x q} hle hq hcounter => ?_
  have happlicable : q.Applicable x args ↔ p.Applicable m args :=
    (hcounter.applicable_iff (methodDesc_stable _ _ _ hm _ hle)).trans
      (applicable_iff_of_le hle (hasMethod_of_desc hm))
  obtain ⟨before, after, -, hx, -, hdecl, -⟩ := hcounter
  have howner : after.owner = type := congrArg MethodDeclaration.owner hdecl
  rw [← howner]
  exact (instantiateMethod_reaches hq hx fun arg ha => (hargs arg ha).mono hle).congr happlicable

end

/-! ## One answer -/

/-- The calls succeed together, and once one of them has given its answer the other gives the same,
in every program that this one can grow into. -/
structure SameAnswer {α : Type} (f g : ProgramM α) (p : Program) : Prop where
  succeeds : (∃ a q, f p = .ok a q) ↔ ∃ a q, g p = .ok a q
  forth : ∀ {a q r}, f p = .ok a q → q ≤ r → r.Reachable → ∃ s, g r = .ok a s
  back : ∀ {a q r}, g p = .ok a q → q ≤ r → r.Reachable → ∃ s, f r = .ok a s

/-- What reaches a counterpart finds one that was reached before. -/
theorem Reaches.again {f g : ProgramM MethodId} {P : Prop} (hf : Reaches f p P m owner args)
    {q : Program} (hx : f p = .ok x q) (hqr : q ≤ r) (hg : Reaches g r P m owner args) :
    ∃ s, g r = .ok x s := by
  obtain ⟨y, s, hy⟩ := hg.succeeds (hf.allowed_of_ok hx)
  have hfirst := (hf.counterpart hx).mono (hqr.trans (hg.le hy))
  obtain rfl := hfirst.unique (hg.wellFormed hy) (hg.counterpart hy)
  exact ⟨s, hy⟩

/-- Calls that reach one counterpart give one answer. -/
theorem Reaches.sameAnswer {f g : ProgramM MethodId} {P : Prop} (hp : p.WellFormed)
    (hf : ∀ {r}, p ≤ r → r.WellFormed → Reaches f r P m owner args)
    (hg : ∀ {r}, p ≤ r → r.WellFormed → Reaches g r P m owner args) : SameAnswer f g p where
  succeeds := by
    constructor
    · rintro ⟨x, q, hx⟩
      exact (hg le_rfl hp).succeeds ((hf le_rfl hp).allowed_of_ok hx)
    · rintro ⟨x, q, hx⟩
      exact (hf le_rfl hp).succeeds ((hg le_rfl hp).allowed_of_ok hx)
  forth hx hqr hr := by
    have hpq := (hf le_rfl hp).le hx
    exact (hf le_rfl hp).again hx hqr (hg (hpq.trans hqr) hr.wellFormed)
  back hx hqr hr := by
    have hpq := (hg le_rfl hp).le hx
    exact (hg le_rfl hp).again hx hqr (hf (hpq.trans hqr) hr.wellFormed)

end ProgramM

namespace Program

open ProgramM

variable {p q r : Program} {m x : MethodId} {type : TypeId}

/-! ## Moving on and back -/

/-- A method is moved where its counterparts are moved. -/
theorem Counterpart.methodOnType_iff {desc : MethodDesc} (hm : p.methodDesc m = .ok desc)
    {owner : TypeId} (h : p.Counterpart m x owner desc.args) {y : MethodId} :
    methodOnType x type p = .ok y q ↔ methodOnType m type p = .ok y q := by
  obtain ⟨before, after, hm', hx, hdef, -, hargs⟩ := h
  cases hm.symm.trans hm'
  rw [methodOnType_eq_ok, methodOnType_eq_ok]
  constructor
  · rintro ⟨found, original, hf, horig, hhome, hrun⟩
    cases hx.symm.trans hf
    exact ⟨desc, original, hm, hdef ▸ horig, hhome, hdef ▸ hargs ▸ hrun⟩
  · rintro ⟨found, original, hf, horig, hhome, hrun⟩
    cases hm.symm.trans hf
    exact ⟨after, original, hx, hdef.symm ▸ horig, hhome, by rwa [hdef, hargs]⟩

/-- A method that can be moved at all can be moved to its own owner. -/
theorem AtHome.movable_owner (h : p.AtHome) (hp : p.WellFormed) {desc : MethodDesc}
    (hm : p.methodDesc m = .ok desc) (hmovable : p.Movable m type) :
    p.Movable m desc.owner := by
  obtain ⟨found, original, hf, horig, hhome⟩ := hmovable
  cases hm.symm.trans hf
  obtain ⟨home, howner, hhome'⟩ := h.original hp hm horig
  -- the definition's owner is a home, so it is its own
  cases (hp.typeDefinition_idem hhome).symm.trans hhome'
  exact ⟨desc, original, hm, horig, howner⟩

/-- Moved to its own owner a method stays what it is. -/
theorem WellFormed.methodOnType_owner (hp : p.WellFormed) {desc : MethodDesc}
    (hm : p.methodDesc m = .ok desc) (hmovable : p.Movable m desc.owner) :
    methodOnType m desc.owner p = .ok m p := by
  obtain ⟨found, original, hf, horig, hhome⟩ := hmovable
  cases hm.symm.trans hf
  exact methodOnType_eq_ok.2
    ⟨desc, original, hm, horig, hhome, internMethod_of_instance hp (hp.methodInstance hm)⟩

/-- Moving methods and supplying their arguments is coherent. What a method was moved to is its
counterpart there, with the same definition, declaration and arguments; it is moved on as the method
is, and back to the method. What arguments were supplied to is the counterpart that has them, and
whether they are supplied before the method is moved or after it makes no difference. -/
theorem Reachable.counterparts_coherent (h : p.Reachable) :
    (∀ m type x q, methodOnType m type p = .ok x q → ∃ desc, p.methodDesc m = .ok desc ∧
      q.Counterpart m x type desc.args ∧ ∀ r, q ≤ r → methodOnType x desc.owner r = .ok m r ∧
        ∀ other y s, methodOnType x other r = .ok y s ↔ methodOnType m other r = .ok y s) ∧
    ∀ m args, p.HasMethod m → (∀ arg ∈ args, p.HasType arg) →
      (∀ x q, instantiateMethod m args p = .ok x q → ∃ desc, p.methodDesc m = .ok desc ∧
        desc.args = [] ∧ q.Counterpart m x desc.owner args) ∧
      ∀ type, p.HasType type →
        SameAnswer (instantiateMethod m args >>= (methodOnType · type))
          (methodOnType m type >>= (instantiateMethod · args)) p := by
  have hp := h.wellFormed
  refine ⟨fun m type x q hx => ?_, fun m args hm hargs => ?_⟩
  · obtain ⟨desc, original, hm, horig, hhome, -⟩ := methodOnType_eq_ok.1 hx
    have hmovable : p.Movable m type := ⟨desc, original, hm, horig, hhome⟩
    have hreaches := methodOnType_reaches hp hm hmovable.hasType
    have hcounter := hreaches.counterpart hx
    refine ⟨desc, hm, hcounter, fun r hqr => ?_⟩
    have hpr := (hreaches.le hx).trans hqr
    have hback := hp.methodOnType_owner hm (h.atHome.movable_owner hp hm hmovable)
    have hon {other y s} : methodOnType x other r = .ok y s ↔ methodOnType m other r = .ok y s :=
      (hcounter.mono hqr).methodOnType_iff (methodDesc_stable _ _ _ hm _ hpr)
    exact ⟨hon.2 ((methodOnType_settles m desc.owner).again hback hpr), fun _ _ _ => hon⟩
  · obtain ⟨desc, hm⟩ := hasMethod_iff.1 hm
    refine ⟨fun x q hx => ?_, fun type htype => ?_⟩
    · have hreaches := instantiateMethod_reaches hp hm hargs
      obtain ⟨found, hf, hnil, -⟩ := hreaches.allowed_of_ok hx
      cases hm.symm.trans hf
      exact ⟨desc, hm, hnil, hreaches.counterpart hx⟩
    · have hallowed {r} (hpr : p ≤ r) : (r.Applicable m args ∧ r.Movable m type ↔
          p.Applicable m args ∧ p.Movable m type) :=
        and_congr (applicable_iff_of_le hpr (hasMethod_of_desc hm))
          (movable_iff_of_le hp hpr (hasMethod_of_desc hm) htype)
      apply Reaches.sameAnswer hp
      · intro r hpr hr
        exact (instantiate_move_reaches hr (methodDesc_stable _ _ _ hm _ hpr) (htype.mono hpr)
          fun arg ha => (hargs arg ha).mono hpr).congr (hallowed hpr)
      · intro r hpr hr
        exact (move_instantiate_reaches hr (methodDesc_stable _ _ _ hm _ hpr) (htype.mono hpr)
          fun arg ha => (hargs arg ha).mono hpr).congr (and_comm.trans (hallowed hpr))

/-- A call that finds the method and leaves the program as it is. -/
theorem eq_ok_of_stateAfter {f : ProgramM MethodId} (hx : ∃ y q, f p = .ok y q ∧ y = x)
    (hp : stateAfter f p = p) : f p = .ok x p := by
  obtain ⟨y, q, hf, rfl⟩ := hx
  rw [stateAfter, hf] at hp
  rw [hf]
  exact congrArg _ hp

/-- `Map` is moved to lists of optional texts, on to lists of optional such lists, and back; and it
can be given its argument before it is moved, although the program was built the other way. -/
theorem collections_counterparts_coherent :
    (methodOnType ⟨5⟩ ⟨7⟩ collections = .ok ⟨6⟩ collections ∧
      methodOnType ⟨6⟩ ⟨2⟩ collections = .ok ⟨5⟩ collections ∧
      methodOnType ⟨6⟩ ⟨9⟩ collections = .ok ⟨8⟩ collections) ∧
    ∃ s, (instantiateMethod ⟨5⟩ [⟨4⟩] >>= (methodOnType · ⟨7⟩)) collections = .ok ⟨7⟩ s := by
  obtain ⟨hmove, harguments⟩ := Reachable.counterparts_coherent collections_reachable
  constructor
  · have hlists : methodOnType ⟨5⟩ ⟨7⟩ collections = .ok ⟨6⟩ collections :=
      eq_ok_of_stateAfter (by decide +kernel) (by decide +kernel)
    have hnested : methodOnType ⟨5⟩ ⟨9⟩ collections = .ok ⟨8⟩ collections :=
      eq_ok_of_stateAfter (by decide +kernel) (by decide +kernel)
    have howner : ∃ desc, collections.methodDesc ⟨5⟩ = .ok desc ∧ desc.owner = ⟨2⟩ := by
      decide +kernel
    obtain ⟨desc, hd, hdesc⟩ := howner
    obtain ⟨found, hf, -, hagain⟩ := hmove _ _ _ _ hlists
    cases hd.symm.trans hf
    obtain ⟨hback, hon⟩ := hagain collections le_rfl
    exact ⟨hlists, hdesc ▸ hback, (hon _ _ _).2 hnested⟩
  · have hlast : (methodOnType ⟨5⟩ ⟨7⟩ >>= (instantiateMethod · [⟨4⟩])) collections =
        .ok ⟨7⟩ collections := eq_ok_of_stateAfter (by decide +kernel) (by decide +kernel)
    obtain ⟨-, htypes⟩ := harguments ⟨5⟩ [⟨4⟩] (by decide +kernel) (by decide +kernel)
    exact (htypes ⟨7⟩ (by decide +kernel)).back hlast le_rfl collections_reachable

end Program

end NativeImage

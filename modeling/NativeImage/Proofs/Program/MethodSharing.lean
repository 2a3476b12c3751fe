import NativeImage.Proofs.Program.Ownership

/-!
# Methods that share code

Two methods share code if they are the same, or instances of one definition whose owners share code
and whose arguments shared code need not tell apart. As for types, the canonical form of a method is
the one method in normal form that it shares code with, so sharing is the same as having one
canonical form. Moving a method to another instance of its owner and to the canonical form of that
instance gives methods that share code.

## Main definitions

- `Program.MethodShares` — methods that share code
- `Program.NormalMethod` — definitions, and instances made from types in normal form
- `Program.MethodForm` — the normal form of a method

## Main statements

- `Program.MethodShares.eq_of_normal` — normal forms are unique
- `ProgramM.canonicalMethod_form` — the canonical form is the normal form
- `Program.Reachable.housed` — instances are where they belong in all programs that can be built
- `Program.WellFormed.exists_methodOnType` — moving to a type and to its canonical form
- `Program.Reachable.canonicalMethod_exact`
-/

namespace NativeImage

namespace Program

variable {p q r : Program}

/-! ## Sharing -/

/-- Methods that share code. -/
inductive MethodShares (p : Program) : MethodId → MethodId → Prop
  | same (id : MethodId) : MethodShares p id id
  | derived {x y definition : MethodId} {owner owner' : TypeId} {args args' : List TypeId}
    (hx : p.DerivedMethod x definition owner args) (hy : p.DerivedMethod y definition owner' args')
    (howner : p.Shares owner owner') (hargs : p.ArgumentsShare args args') : MethodShares p x y

namespace MethodShares

variable {x y z : MethodId}

theorem symm (h : p.MethodShares x y) : p.MethodShares y x := by
  cases h with
  | same => exact .same x
  | derived hx hy howner hargs => exact .derived hy hx howner.symm hargs.symm

theorem trans (h : p.MethodShares x y) (h' : p.MethodShares y z) : p.MethodShares x z := by
  cases h with
  | same => exact h'
  | derived hx hy howner hargs =>
    cases h' with
    | same => exact .derived hx hy howner hargs
    | derived hy' hz howner' hargs' =>
      obtain ⟨rfl, rfl, rfl⟩ := hy.unique hy'
      exact .derived hx hz (howner.trans howner') (hargs.trans hargs')

theorem mono (h : p.MethodShares x y) (hpq : p ≤ q) : q.MethodShares x y := by
  cases h with
  | same => exact .same x
  | derived hx hy howner hargs =>
    exact .derived (hx.mono hpq) (hy.mono hpq) (howner.mono hpq) (hargs.mono hpq)

/-- Whether methods of a program share code does not depend on what was added to it. -/
theorem of_le (hp : p.WellFormed) (hpq : p ≤ q) (hpx : p.HasMethod x) (hpy : p.HasMethod y)
    (h : q.MethodShares x y) : p.MethodShares x y := by
  cases h with
  | same => exact .same x
  | derived hx hy howner hargs =>
    have hx := hx.of_le hpq hpx
    have hy := hy.of_le hpq hpy
    exact .derived hx hy (howner.of_le hp hpq (hx.hasType_owner hp) (hy.hasType_owner hp))
      (hargs.of_le hp hpq (hx.hasType_args hp) (hy.hasType_args hp))

end MethodShares

/-! ## Normal forms -/

/-- Methods that are definitions, or instances on a type in normal form with arguments of normal
forms. -/
inductive NormalMethod (p : Program) : MethodId → Prop
  | definition {id : MethodId} {desc : MethodDesc} (hd : p.methodDesc id = .ok desc)
    (hnone : desc.definition? = none) : NormalMethod p id
  | derived {id definition : MethodId} {owner : TypeId} {args : List TypeId}
    (h : p.DerivedMethod id definition owner args) (howner : p.Normal owner)
    (hargs : ∀ arg ∈ args, p.NormalArgument arg) : NormalMethod p id

theorem NormalMethod.parts {id definition : MethodId} {owner : TypeId} {args : List TypeId}
    (h : p.NormalMethod id) (hinst : p.DerivedMethod id definition owner args) :
    p.Normal owner ∧ ∀ arg ∈ args, p.NormalArgument arg := by
  cases h with
  | definition hd hnone =>
    obtain ⟨desc, hd', ho, -⟩ := hinst
    cases hd.symm.trans hd'
    rw [MethodDesc.definition?, ho] at hnone
    cases hnone
  | derived h howner hargs =>
    obtain ⟨-, rfl, rfl⟩ := h.unique hinst
    exact ⟨howner, hargs⟩

theorem NormalMethod.mono {id : MethodId} (h : p.NormalMethod id) (hpq : p ≤ q) :
    q.NormalMethod id := by
  cases h with
  | definition hd hnone => exact .definition (methodDesc_stable _ _ _ hd _ hpq) hnone
  | derived h howner hargs =>
    exact .derived (h.mono hpq) (howner.mono hpq) fun arg ha => (hargs arg ha).mono hpq

/-- Normal forms are unique. -/
theorem MethodShares.eq_of_normal (hp : p.WellFormed) {x y : MethodId} (h : p.MethodShares x y)
    (hx : p.NormalMethod x) (hy : p.NormalMethod y) : x = y := by
  cases h with
  | same => rfl
  | derived hx' hy' howner hargs =>
    obtain ⟨hnx, hargsx⟩ := hx.parts hx'
    obtain ⟨hny, hargsy⟩ := hy.parts hy'
    obtain rfl := howner.eq_of_normal hp hnx hny
    obtain rfl := hargs.eq_of_normal hp hargsx hargsy
    exact hp.eq_of_derivedMethod hx' hy'

/-- The second method is the normal form of the first. -/
structure MethodForm (p : Program) (id form : MethodId) : Prop where
  shares : p.MethodShares id form
  normal : p.NormalMethod form

theorem MethodForm.mono {id form : MethodId} (h : p.MethodForm id form) (hpq : p ≤ q) :
    q.MethodForm id form :=
  ⟨h.shares.mono hpq, h.normal.mono hpq⟩

/-- Methods share code exactly if they have one normal form. -/
theorem MethodForm.eq_iff (hp : p.WellFormed) {x y c d : MethodId} (hx : p.MethodForm x c)
    (hy : p.MethodForm y d) : c = d ↔ p.MethodShares x y := by
  constructor
  · rintro rfl
    exact hx.shares.trans hy.shares.symm
  · intro h
    exact ((hx.shares.symm.trans h).trans hy.shares).eq_of_normal hp hx.normal hy.normal

/-! ## Canonical forms -/

theorem TypeGrowth.housed (h : TypeGrowth p q) (hp : p.Housed) : q.Housed :=
  hp.of_methods h.le h.methods

/-- A program that has grown, with its instances where they belong. -/
structure HousedGrowth (p q : Program) : Prop where
  le : p ≤ q
  wellFormed : q.WellFormed
  housed : q.Housed

theorem HousedGrowth.refl (hp : p.WellFormed) (hh : p.Housed) : HousedGrowth p p :=
  ⟨le_rfl, hp, hh⟩

theorem WellFormed.exists_argumentForms (hp : p.WellFormed) {args : List TypeId}
    (h : ∀ arg ∈ args, p.HasType arg) : ∃ forms q,
      args.mapM ProgramM.canonicalArgument p = .ok forms q ∧ TypeGrowth p q ∧
        List.Forall₂ q.ArgumentForm args forms := by
  have hends := Ends.mapM (R := TypeGrowth p) (E := fun _ _ => False) (P := HasType)
    (U := fun q arg form => ArgumentForm q arg form) hasType_lasts argumentForm_lasts
    (fun _ hq harg => ProgramM.canonicalArgument_form hq harg fun _ =>
      ProgramM.canonicalType_form hq harg) (.refl hp) h
  cases hends with
  | ok hx _ hq hforms => exact ⟨_, _, hx, hq, hforms⟩
  | error _ _ _ he => exact he.elim

end Program

namespace ProgramM

open Program

variable {p : Program}

theorem canonicalMethod_of_definition {id : MethodId} {desc : MethodDesc}
    (hd : p.methodDesc id = .ok desc) (hnone : desc.definition? = none) :
    canonicalMethod id p = .ok id p := by
  rw [canonicalMethod, bind_of_ok (ask_eq_ok hd)]
  cases ho : desc.origin with
  | declared => rfl
  | thunk kind => rfl
  | derived definition args =>
    rw [MethodDesc.definition?, ho] at hnone
    cases hnone

/-- The canonical form of an instance is made from those of its owner and its arguments. -/
theorem canonicalMethod_of_derived {id definition : MethodId} {owner : TypeId}
    {args : List TypeId} (h : p.DerivedMethod id definition owner args) :
    canonicalMethod id p = (canonicalType owner >>= fun form =>
      args.mapM canonicalArgument >>= fun forms =>
        if form = owner ∧ forms = args then pure id else internMethod definition form forms) p := by
  obtain ⟨desc, hd, ho, rfl⟩ := h
  rw [canonicalMethod, bind_of_ok (ask_eq_ok hd), ho]

/-- An instance has a normal form if its owner and its arguments have. -/
theorem internMethod_form (hp : p.WellFormed) (hh : p.Housed) {id definition : MethodId}
    {owner form : TypeId} {args forms : List TypeId}
    (h : p.DerivedMethod id definition owner args) (howner : p.TypeForm owner form)
    (hargs : List.Forall₂ p.ArgumentForm args forms) :
    ∃ found q, (if form = owner ∧ forms = args then pure id
        else internMethod definition form forms) p = .ok found q ∧ HousedGrowth p q ∧
      q.MethodForm id found := by
  have hnormal := normalArgument_of_forms hargs
  split
  · next hsame =>
    obtain ⟨rfl, rfl⟩ := hsame
    exact ⟨id, p, rfl, .refl hp hh, .same id, .derived h howner.normal hnormal⟩
  · obtain ⟨original, horig, hnone⟩ := h.exists_original hp
    -- an instance without arguments is on an instance of the definition's owner, and so is its
    -- canonical form
    have hhome (hnil : forms = []) : ∃ targs, p.TypeInstance form original.owner targs := by
      subst hnil
      obtain rfl := List.forall₂_nil_right_iff.1 hargs
      obtain ⟨original', targs, horig', hhouse⟩ := hh _ _ _ h
      cases horig.symm.trans horig'
      exact howner.shares.exists_instance hhouse
    have hself : ¬ (form = original.owner ∧ forms = []) := by
      rintro ⟨hsame, hnil⟩
      obtain ⟨targs, htype⟩ := hhome hnil
      exact hp.ne_of_instance htype hsame
    obtain ⟨found, q, hx, hq, hle, hfound⟩ := internMethod_spec hp horig hnone
      howner.normal.hasType fun arg ha => (hnormal arg ha).normal.hasType
    have hderived := hfound.derivedMethod (methodDesc_stable _ _ _ horig _ hle.le) hself
    have hhoused := internMethod_housed hh horig (fun hnil _ => hhome hnil) hx
    refine ⟨found, q, hx, ⟨hle.le, hq, hhoused⟩, ?_, ?_⟩
    · exact .derived (h.mono hle.le) hderived (howner.shares.mono hle.le)
        ((argumentsShare_of_forms hargs).mono hle.le)
    · exact .derived hderived (howner.normal.mono hle.le) fun arg ha =>
        (hnormal arg ha).mono hle.le

/-- The canonical form of a method is its normal form. -/
theorem canonicalMethod_form (hp : p.WellFormed) (hh : p.Housed) {id : MethodId}
    (h : p.HasMethod id) : ∃ form q, canonicalMethod id p = .ok form q ∧ HousedGrowth p q ∧
      q.MethodForm id form := by
  obtain ⟨desc, hd⟩ := hasMethod_iff.1 h
  cases hdef : desc.definition? with
  | none =>
    exact ⟨id, p, canonicalMethod_of_definition hd hdef, .refl hp hh, .same id,
      .definition hd hdef⟩
  | some definition =>
    have hinst := DerivedMethod.of_definition hd hdef
    obtain ⟨form, q, hform, -, howner, hq⟩ := hp.exists_typeForm (hinst.hasType_owner hp)
    obtain ⟨forms, r, hforms, hr, hargs⟩ := hq.wellFormed.exists_argumentForms
      fun arg ha => (hinst.hasType_args hp arg ha).mono hq.le
    have hpr := hq.trans hr
    obtain ⟨found, s, hx, hs, hfound⟩ := internMethod_form hpr.wellFormed (hpr.housed hh)
      (hinst.mono hpr.le) (howner.mono hr.le) hargs
    refine ⟨found, s, ?_, ⟨hpr.le.trans hs.le, hs.wellFormed, hs.housed⟩, hfound⟩
    rw [canonicalMethod_of_derived hinst, bind_of_ok hform, bind_of_ok hforms]
    exact hx

/-- A method in normal form is its own canonical form. -/
theorem canonicalMethod_of_normal (hp : p.WellFormed) {id : MethodId} (h : p.NormalMethod id) :
    canonicalMethod id p = .ok id p := by
  cases h with
  | definition hd hnone => exact canonicalMethod_of_definition hd hnone
  | derived hinst howner hargs =>
    rw [canonicalMethod_of_derived hinst, bind_of_ok (canonicalType_of_normal hp howner),
      bind_of_ok (canonicalArguments_of_normal hp hargs), if_pos ⟨rfl, rfl⟩]
    rfl

end ProgramM

/-! ## Programs that can be built -/

namespace InternCall

open Program

variable {p : Program}

/-- A call that fails changes nothing, so it is enough to look at one that succeeds. -/
theorem kept_discard {α : Type} {P R : Program → Prop} {V : Program → α → Prop} {x : ProgramM α}
    (hp : P p) (h : Ends R (fun q _ => q = p) V x p)
    (hok : ∀ {a q}, p ≤ q → x p = .ok a q → P q) : P (stateAfter (discard x) p) := by
  rw [stateAfter_discard, stateAfter]
  cases h with
  | ok hx hle =>
    rw [hx]
    exact hok hle hx
  | error hx _ _ he =>
    rw [hx]
    exact he ▸ hp

/-- A call leaves instances where they belong. -/
theorem run_housed (hp : p.WellFormed) (hh : p.Housed) {call : InternCall} (hv : call.Valid p) :
    (stateAfter call.run p).Housed := by
  have hext := Extension.refl hp
  cases call with
  | instantiateType id args =>
    exact kept_discard hh (ProgramM.instantiateType_outcome hext hv.1 hv.2) fun hle hx =>
      hh.of_methods hle (ProgramM.instantiateType_methods hx)
  | instantiateMethod id args =>
    exact kept_discard hh (ProgramM.instantiateMethod_outcome hext hv.1 hv.2)
      fun _ hx => ProgramM.instantiateMethod_housed hp hh hx
  | methodOnType id type =>
    exact kept_discard hh (ProgramM.methodOnType_outcome hext hv.1 hv.2)
      fun _ hx => ProgramM.methodOnType_housed hh hx
  | canonicalType id =>
    obtain ⟨form, q, hx, -, -, hq⟩ := hp.exists_typeForm hv
    refine kept_discard hh (ProgramM.canonicalType_ends hext hv) fun _ hx' => ?_
    cases hx.symm.trans hx'
    exact hq.housed hh
  | canonicalMethod id =>
    obtain ⟨form, q, hx, hq, -⟩ := ProgramM.canonicalMethod_form hp hh hv
    refine kept_discard hh (ProgramM.canonicalMethod_ends hext hv) fun _ hx' => ?_
    cases hx.symm.trans hx'
    exact hq.housed
  | delegateInfo type =>
    exact kept_discard hh (ProgramM.delegateInfo_outcome hext hv)
      fun _ hx => ProgramM.delegateInfo_housed hh hx

end InternCall

namespace Program

variable {p q : Program}

theorem initial_housed : initial.Housed := by
  rintro id definition owner ⟨desc, hd, ho, -⟩
  rw [(initial_methodDesc hd).1] at ho
  cases ho

/-- In every program built on existing handles instances are where they belong. -/
theorem Reachable.housed (h : p.Reachable) : p.Housed := by
  induction h with
  | initial => exact initial_housed
  | declareModule _ desc ih => exact ih.of_methods ⟨.push _ _, .refl _, .refl _⟩ rfl
  | declareType _ _ ih => exact ih.of_methods (ProgramM.le_pushType _ _) rfl
  | declareMethod _ _ ih => exact ih.pushMethod fun ho => by cases ho
  | intern h hv ih => exact InternCall.run_housed h.wellFormed ih hv

/-! ## Canonical owners -/

/-- Canonical forms that are made one after the other are equal exactly if the methods share
code. -/
theorem WellFormed.exists_canonicalMethods (hp : p.WellFormed) (hh : p.Housed) {x y : MethodId}
    (hx : p.HasMethod x) (hy : p.HasMethod y) : ∃ c d q r,
      ProgramM.canonicalMethod x p = .ok c q ∧ ProgramM.canonicalMethod y q = .ok d r ∧
        (c = d ↔ p.MethodShares x y) := by
  obtain ⟨c, q, hc, hq, hform⟩ := ProgramM.canonicalMethod_form hp hh hx
  obtain ⟨d, r, hd, hr, hform'⟩ := ProgramM.canonicalMethod_form hq.wellFormed hq.housed
    (hy.mono hq.le)
  have hle := hq.le.trans hr.le
  refine ⟨c, d, q, r, hc, hd, ((hform.mono hr.le).eq_iff hr.wellFormed hform').trans ?_⟩
  exact ⟨fun h => h.of_le hp hle hx hy, fun h => h.mono hle⟩

theorem sharedArgument_iff (hp : p.WellFormed) {x y : TypeId} :
    p.SharedArgument p.SameCanonicalType x y ↔ p.SharedArgument p.Shares x y :=
  or_congr_right <| and_congr_right fun hx => and_congr_right fun hy =>
    sameCanonicalType_iff hp hx.hasType hy.hasType

theorem methodShares_iff (hp : p.WellFormed) {x y : MethodId} : p.MethodShares x y ↔ x = y ∨
    ∃ definition owner owner' args args', p.DerivedMethod x definition owner args ∧
      p.DerivedMethod y definition owner' args' ∧ p.SameCanonicalType owner owner' ∧
      List.Forall₂ (p.SharedArgument p.SameCanonicalType) args args' := by
  constructor
  · intro h
    cases h with
    | same => exact .inl rfl
    | derived hx hy howner hargs =>
      exact .inr ⟨_, _, _, _, _, hx, hy,
        (sameCanonicalType_iff hp (hx.hasType_owner hp) (hy.hasType_owner hp)).2 howner,
        (argumentsShare_iff.1 hargs).imp fun _ _ => (sharedArgument_iff hp).2⟩
  · rintro (rfl | ⟨definition, owner, owner', args, args', hx, hy, howner, hargs⟩)
    · exact .same x
    · exact .derived hx hy
        ((sameCanonicalType_iff hp (hx.hasType_owner hp) (hy.hasType_owner hp)).1 howner)
        (argumentsShare_iff.2 (hargs.imp fun _ _ => (sharedArgument_iff hp).1))

/-- A definition on two owners that share code gives methods that share code. -/
theorem MethodInstance.shares (hp : p.WellFormed) {x y definition : MethodId}
    {owner owner' : TypeId} {args : List TypeId} {original : MethodDesc}
    (hx : p.MethodInstance x definition owner args)
    (hy : p.MethodInstance y definition owner' args)
    (hd : p.methodDesc definition = .ok original)
    (hhome : p.typeDefinition owner = .ok original.owner) (hshares : p.Shares owner owner')
    (hargs : ∀ arg ∈ args, p.HasType arg) : p.MethodShares x y := by
  -- on the definition's own owner there is nothing else to share code with
  by_cases hself : owner = original.owner ∨ owner' = original.owner
  · obtain rfl : owner = owner' := by
      rcases hself with rfl | rfl
      · exact hshares.eq_of_definition hp hhome
      · exact (hshares.symm.eq_of_definition hp (hshares.typeDefinition_eq hhome)).symm
    obtain rfl := MethodInstance.unique hp hx hy
    exact .same x
  · obtain ⟨hne, hne'⟩ := not_or.1 hself
    exact .derived (hx.derivedMethod hd fun h => hne h.1) (hy.derivedMethod hd fun h => hne' h.1)
      hshares (argumentsShare_refl hargs)

/-- A method that can be moved to a type can be moved to the canonical form of the type, and what
it becomes there shares code with what it becomes on the type. -/
theorem WellFormed.exists_methodOnType (hp : p.WellFormed) (hh : p.Housed) {m x : MethodId}
    {type : TypeId} (hx : ProgramM.methodOnType m type p = .ok x q) : ∃ c y r s,
      ProgramM.canonicalType type q = .ok c r ∧ ProgramM.methodOnType m c r = .ok y s ∧
        HousedGrowth p s ∧ s.HasMethod x ∧ s.HasMethod y ∧ s.MethodShares x y := by
  obtain ⟨desc, original, hd, horig, hhome, hrun⟩ := ProgramM.methodOnType_eq_ok.1 hx
  obtain ⟨original', horig', hnone, -⟩ := hp.exists_original hd
  cases horig.symm.trans horig'
  have htype : p.HasType type := by
    obtain ⟨found, hf, -⟩ := typeDefinition_eq_ok.1 hhome
    exact hasType_of_desc hf
  have hargs := hp.hasType_methodArgs hd
  -- on the type itself
  obtain ⟨x', q', hrun', hq, hle, hinst⟩ := ProgramM.internMethod_spec hp horig hnone htype hargs
  cases hrun.symm.trans hrun'
  -- on its canonical form, which has the same definition
  obtain ⟨c, r, hc, -, hform, hr⟩ := hq.exists_typeForm (htype.mono hle.le)
  have hpr := hle.le.trans hr.le
  have hd := methodDesc_stable _ _ _ hd _ hpr
  have horig := methodDesc_stable _ _ _ horig _ hpr
  have hhome := typeDefinition_stable _ _ _ hhome _ hpr
  obtain ⟨y, s, hrun, hs, hles, hinst'⟩ := ProgramM.internMethod_spec hr.wellFormed horig hnone
    hform.normal.hasType fun arg ha => (hargs arg ha).mono hpr
  have hy : ProgramM.methodOnType m c r = .ok y s := ProgramM.methodOnType_eq_ok.2
    ⟨desc, original, hd, horig, hform.shares.typeDefinition_eq hhome, hrun⟩
  have hhoused := ProgramM.methodOnType_housed (hr.housed (ProgramM.methodOnType_housed hh hx)) hy
  have horig := methodDesc_stable _ _ _ horig _ hles.le
  have hinst := hinst.mono (hr.le.trans hles.le)
  refine ⟨c, y, r, s, hc, hy, ⟨hpr.trans hles.le, hs, hhoused⟩, hinst.hasMethod, hinst'.hasMethod,
    hinst.shares hs hinst' horig (typeDefinition_stable _ _ _ hhome _ hles.le)
      (hform.shares.mono hles.le) fun arg ha => (hargs arg ha).mono (hpr.trans hles.le)⟩

/-- Canonical methods are exact: a canonical form stays its own, two methods have one canonical
form exactly if they are the same or instances of one definition, on owners and with arguments that
shared code need not tell apart, and a method moved to a type and to the canonical form of the type
has one canonical form. -/
theorem Reachable.canonicalMethod_exact (h : p.Reachable) :
    (∀ x, p.HasMethod x → ∃ c q, ProgramM.canonicalMethod x p = .ok c q ∧ p ≤ q ∧
      ∀ r, q ≤ r → ProgramM.canonicalMethod c r = .ok c r) ∧
    (∀ x y, p.HasMethod x → p.HasMethod y → ∃ c d q r,
      ProgramM.canonicalMethod x p = .ok c q ∧ ProgramM.canonicalMethod y q = .ok d r ∧
      (c = d ↔ x = y ∨ ∃ definition owner owner' args args',
        p.DerivedMethod x definition owner args ∧ p.DerivedMethod y definition owner' args' ∧
        p.SameCanonicalType owner owner' ∧
        List.Forall₂ (p.SharedArgument p.SameCanonicalType) args args')) ∧
    ∀ m type x q, ProgramM.methodOnType m type p = .ok x q → ∃ c y d q₁ q₂ q₃ q₄,
      ProgramM.canonicalType type q = .ok c q₁ ∧ ProgramM.methodOnType m c q₁ = .ok y q₂ ∧
      ProgramM.canonicalMethod x q₂ = .ok d q₃ ∧ ProgramM.canonicalMethod y q₃ = .ok d q₄ := by
  have hp := h.wellFormed
  have hh := h.housed
  refine ⟨fun x hx => ?_, fun x y hx hy => ?_, fun m type x q hx => ?_⟩
  · obtain ⟨c, q, hc, hq, hform⟩ := ProgramM.canonicalMethod_form hp hh hx
    have hagain := ProgramM.canonicalMethod_of_normal hq.wellFormed hform.normal
    exact ⟨c, q, hc, hq.le, fun r hr => (ProgramM.canonicalMethod_settles c).again hagain hr⟩
  · obtain ⟨c, d, q, r, hc, hd, hiff⟩ := hp.exists_canonicalMethods hh hx hy
    exact ⟨c, d, q, r, hc, hd, hiff.trans (methodShares_iff hp)⟩
  · obtain ⟨c, y, q₁, q₂, hc, hy, hq₂, hmx, hmy, hshares⟩ := hp.exists_methodOnType hh hx
    obtain ⟨d, d', q₃, q₄, hd, hd', hiff⟩ :=
      hq₂.wellFormed.exists_canonicalMethods hq₂.housed hmx hmy
    obtain rfl := hiff.2 hshares
    exact ⟨c, y, d, q₁, q₂, q₃, q₄, hc, hy, hd, hd'⟩

/-- The instances of `Map` on lists of optional texts and on lists of optional such lists have one
canonical form, and so has `Map` on the first type and on its canonical form. -/
theorem collections_canonicalMethod_exact :
    (∃ c q r, ProgramM.canonicalMethod ⟨7⟩ collections = .ok c q ∧
      ProgramM.canonicalMethod ⟨9⟩ q = .ok c r) ∧
    ∃ x q c y d q₁ q₂ q₃ q₄, ProgramM.methodOnType ⟨5⟩ ⟨7⟩ collections = .ok x q ∧
      ProgramM.canonicalType ⟨7⟩ q = .ok c q₁ ∧ ProgramM.methodOnType ⟨5⟩ c q₁ = .ok y q₂ ∧
      ProgramM.canonicalMethod x q₂ = .ok d q₃ ∧ ProgramM.canonicalMethod y q₃ = .ok d q₄ := by
  obtain ⟨-, hexact, hmove⟩ := Reachable.canonicalMethod_exact collections_reachable
  constructor
  · have hp := collections_reachable.wellFormed
    have hnumber : collections.IsValue ⟨4⟩ := by decide +kernel
    have hshares : collections.MethodShares ⟨7⟩ ⟨9⟩ := .derived
      (by decide +kernel : collections.DerivedMethod ⟨7⟩ ⟨5⟩ ⟨7⟩ [⟨4⟩])
      (by decide +kernel : collections.DerivedMethod ⟨9⟩ ⟨5⟩ ⟨9⟩ [⟨4⟩])
      collections_shares (.value hnumber hnumber (.same _) .nil)
    obtain ⟨c, d, q, r, hc, hd, hiff⟩ := hexact ⟨7⟩ ⟨9⟩ (by decide +kernel) (by decide +kernel)
    obtain rfl := hiff.2 ((methodShares_iff hp).1 hshares)
    exact ⟨c, q, r, hc, hd⟩
  · have hmoved : (match ProgramM.methodOnType ⟨5⟩ ⟨7⟩ collections with
        | .ok _ _ => true
        | .error _ _ => false) = true := by decide +kernel
    cases hx : ProgramM.methodOnType ⟨5⟩ ⟨7⟩ collections with
    | ok x q =>
      obtain ⟨c, y, d, q₁, q₂, q₃, q₄, hall⟩ := hmove _ _ _ _ hx
      exact ⟨x, q, c, y, d, q₁, q₂, q₃, q₄, rfl, hall⟩
    | error cause q =>
      rw [hx] at hmoved
      cases hmoved

end Program

end NativeImage
